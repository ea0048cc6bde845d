import Ruscker.Lib.Extremes
import Ruscker.Proxy.Calls

/-!
# The least loaded replica

Least-connections looks at the replicas with a free seat, and where there is none at all that are
ready.  For an API it takes the first one with the fewest requests.  Of several with the most free
seats it takes the last one, although its comment has the first.
-/

namespace Ruscker.Proxy.Calls

open Extremes

variable {ι : Type*}

/-! ## What is to be picked -/

/-- A replica that may be picked: a ready one, with a free seat where some replica has one. -/
def isCandidate (replicas : List (Replica ι)) (r : Replica ι) : Bool :=
  r.state = .ready && (!replicas.any Replica.isAccepting || r.isAccepting)

/-- Fewer requests for an API, or more free seats. -/
def IsLessLoaded (load : Load ι) (api : Bool) (r r' : Replica ι) : Prop :=
  if api then load.inflight r.id < load.inflight r'.id else r'.availableSeats < r.availableSeats

/-- The earliest replica of the pool among the candidates with the least load. -/
def IsFirstBest (load : Load ι) (api : Bool) (replicas : List (Replica ι)) (r : Replica ι) : Prop :=
  ∃ before behind, replicas = before ++ r :: behind ∧ isCandidate replicas r = true ∧
    (∀ b ∈ before, isCandidate replicas b = true → IsLessLoaded load api r b) ∧
    ∀ b ∈ behind, isCandidate replicas b = true → ¬ IsLessLoaded load api b r

/-- A pick fails without a ready replica only, and takes the earliest of the best. -/
def PicksFirstBest (load : Load ι) (api : Bool) (replicas : List (Replica ι)) : Prop :=
  (pickReplica replicas .leastConnections api load = none ↔ ∀ r ∈ replicas, r.state ≠ .ready) ∧
    ∀ r, pickReplica replicas .leastConnections api load = some r → IsFirstBest load api replicas r

/-! ## The candidates in their order -/

section Candidates

def candidates (replicas : List (Replica ι)) : List (Replica ι) :=
  replicas.filter (isCandidate replicas)

/-- The candidates with the most free seats. -/
def emptiest (replicas : List (Replica ι)) : List (Replica ι) :=
  greatest Replica.availableSeats (candidates replicas)

variable {replicas : List (Replica ι)} {routing : RoutingStrategy} {api : Bool} {load : Load ι}
  {r : Replica ι}

theorem ready_of_isAccepting (h : r.isAccepting = true) : r.state = .ready := by
  rw [Replica.isAccepting, Bool.and_eq_true, decide_eq_true_eq] at h
  exact h.1

/-- Where a replica has a free seat, these are the candidates. -/
theorem candidates_of_accepting (h : replicas.any Replica.isAccepting = true) :
    candidates replicas = replicas.filter Replica.isAccepting := by
  refine List.filter_congr fun r _ => ?_
  rw [Bool.eq_iff_iff, isCandidate, h]
  simpa using ready_of_isAccepting

theorem candidates_of_full (h : replicas.any Replica.isAccepting = false) :
    candidates replicas = replicas.filter fun r => r.state = .ready := by
  refine List.filter_congr fun r _ => ?_
  rw [isCandidate, h]
  simp

theorem pickReplica_eq_select :
    pickReplica replicas routing api load = select (candidates replicas) routing api load := by
  rw [pickReplica]
  cases hpick : pickAccepting replicas routing api load with
  | none =>
    have hfull : replicas.any Replica.isAccepting = false :=
      List.any_eq_false.mpr (List.filter_eq_nil_iff.mp (select_eq_none.mp hpick))
    rw [candidates_of_full hfull, Option.none_or]
  | some r =>
    obtain ⟨hr, haccepting⟩ := accepting_of_pickAccepting hpick
    rw [candidates_of_accepting (List.any_eq_true.mpr ⟨r, hr, haccepting⟩), Option.some_or]
    exact hpick.symm

/-- With a ready replica there is a candidate. -/
theorem candidates_eq_nil : candidates replicas = [] ↔ ∀ r ∈ replicas, r.state ≠ .ready := by
  cases hany : replicas.any Replica.isAccepting with
  | false =>
    rw [candidates_of_full hany, List.filter_eq_nil_iff]
    simp
  | true =>
    obtain ⟨x, hx, haccepting⟩ := List.any_eq_true.mp hany
    rw [candidates_of_accepting hany, List.filter_eq_nil_iff]
    constructor
    · intro h
      exact absurd haccepting (h x hx)
    · intro h
      exact absurd (ready_of_isAccepting haccepting) (h x hx)

/-- A pick fails when no replica is ready, and only then. -/
theorem pickReplica_eq_none :
    pickReplica replicas routing api load = none ↔ ∀ r ∈ replicas, r.state ≠ .ready := by
  rw [pickReplica_eq_select, select_eq_none, candidates_eq_nil]

/-! ### The earliest of the best -/

theorem isFirstBest_api :
    IsFirstBest load true replicas r ↔
      (candidates replicas).argmin (fun r => load.inflight r.id) = some r := by
  rw [argmin_eq_minByKey, minByKey_iff, candidates, exists_split_filter]
  simp [IsFirstBest, IsLessLoaded]

theorem isFirstBest_seats :
    IsFirstBest load false replicas r ↔ (emptiest replicas).head? = some r := by
  rw [emptiest, head?_greatest, argmax_iff, candidates, exists_split_filter]
  simp [IsFirstBest, IsLessLoaded]

/-- For seats the pick is the last of the best. -/
theorem pickReplica_seats :
    pickReplica replicas .leastConnections false load = (emptiest replicas).getLast? := by
  rw [pickReplica_eq_select, emptiest, getLast?_greatest, ← argmax_reverse_eq_maxByKey]
  rfl

/-- **Least connections.** The pick is the earliest of the best for an API, and for a spec with
seats just when the first and the last of the replicas with the most free seats are the same. -/
theorem picksFirstBest_iff :
    PicksFirstBest load api replicas ↔
      api = true ∨ (emptiest replicas).head? = (emptiest replicas).getLast? := by
  cases api with
  | true =>
    refine iff_of_true ⟨pickReplica_eq_none, fun r hpick => ?_⟩ (.inl rfl)
    rw [pickReplica_eq_select] at hpick
    exact isFirstBest_api.mpr hpick
  | false =>
    simp only [Bool.false_eq_true, false_or]
    constructor
    · rintro ⟨-, hpicks⟩
      cases hlast : (emptiest replicas).getLast? with
      | none => rw [List.getLast?_eq_none_iff.mp hlast, List.head?_nil]
      | some r =>
        have hfirst := hpicks r (pickReplica_seats.trans hlast)
        exact isFirstBest_seats.mp hfirst
    · intro hsame
      refine ⟨pickReplica_eq_none, fun r hpick => ?_⟩
      rw [pickReplica_seats, ← hsame] at hpick
      exact isFirstBest_seats.mpr hpick

/-- Of two idle replicas the later one is picked. -/
theorem two_idle_picks_second :
    ¬ PicksFirstBest ⟨0, fun _ => 0⟩ false [labReplica 1, labReplica 2] := by
  rintro ⟨-, hpicks⟩
  have hfirst := isFirstBest_seats.mp (hpicks (labReplica 2) (by decide))
  revert hfirst
  decide

end Candidates

end Ruscker.Proxy.Calls
