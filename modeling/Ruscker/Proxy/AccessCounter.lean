import Ruscker.Lib.Machine
import Ruscker.Lib.Tally
import Ruscker.Text

/-!
# The access counter

Accesses are counted in memory, by spec and day.  A flush takes all that is pending and writes it
bucket by bucket; where a write fails, that bucket and the ones behind it go back to what is
pending, which may have grown meanwhile.  A new bucket beyond the backstop is dropped, and the
drop is counted.
-/

namespace Ruscker.Proxy.AccessCounter

open Machines Machines.Machine Tallies

/-! ## The counter and its table -/

structure Key where
  specId : Str
  day : Str
  deriving DecidableEq

def maxPendingKeys : Nat := 4096

/-- What is left to write of the buckets taken, and how many were; or what came back. -/
inductive Flush where
  | writing (left : List (Key × Nat)) (total : Nat)
  | done (written : Option Nat)

structure State where
  pending : Tally Key
  dropped : Nat
  flushFailures : Nat
  flushes : List Flush
  /-- the rows of `spec_access` -/
  stored : Tally Key
  /-- the buckets of the increments that were dropped -/
  lost : List Key

/-- A day is today's; a flush meets the buckets in some order. -/
inductive Event where
  | bump (specId day : Str)
  | flush (met : List (Key × Nat))
  | recordDelta (i : Nat) (succeeds : Bool)

def Flush.left : Flush → List (Key × Nat)
  | .writing left _ => left
  | .done _ => []

def bump (s : State) (key : Key) : State :=
  if maxPendingKeys ≤ s.pending.entries.length ∧ s.pending.lookup key = none then
    { s with dropped := s.dropped + 1, lost := key :: s.lost }
  else { s with pending := add s.pending key 1 }

/-- The buckets are taken at once. -/
def flush (s : State) (met : List (Key × Nat)) : Option State :=
  if met.Perm (parts s.pending) then
    some { s with
      pending := ∅
      flushes := s.flushes ++ [if met = [] then .done (some 0) else .writing met met.length] }
  else none

/-- The failed bucket and all behind it are merged back. -/
def recordDelta (s : State) (i : Nat) (succeeds : Bool) : Option State :=
  match s.flushes[i]? with
  | some (.writing (e :: left) total) =>
    if succeeds then
      some { s with
        stored := add s.stored e.1 e.2
        flushes := s.flushes.set i (if left = [] then .done (some total) else .writing left total) }
    else
      some { s with
        pending := addAll s.pending (e :: left)
        flushFailures := s.flushFailures + 1
        flushes := s.flushes.set i (.done none) }
  | _ => none

def machine : Machine State Event where
  step s
    | .bump specId day => some (bump s ⟨specId, day⟩)
    | .flush met => flush s met
    | .recordDelta i succeeds => recordDelta s i succeeds

def start : State := ⟨∅, 0, 0, [], ∅, []⟩

/-! ## No increment is lost or written twice -/

section Conserved

variable {s s' : State} {e : Event} {es : List Event} {key : Key}

/-- What the running flushes have taken and not written. -/
def State.taken (s : State) (key : Key) : Nat := (s.flushes.map fun f => owed f.left key).sum

/-- All increments of a bucket, wherever they are. -/
def State.total (s : State) (key : Key) : Nat :=
  amount s.stored key + amount s.pending key + s.taken key + s.lost.count key

def Event.bumps (key : Key) : Event → Bool
  | .bump specId day => decide ((⟨specId, day⟩ : Key) = key)
  | _ => false

theorem taken_concat (s : State) (f : Flush) (pending : Tally Key) (key : Key) :
    State.taken { s with pending, flushes := s.flushes ++ [f] } key =
      s.taken key + owed f.left key := by
  rw [State.taken, List.map_append, List.sum_append]
  rfl

theorem total_bump (s : State) (key key' : Key) :
    (bump s key).total key' = s.total key' + if key = key' then 1 else 0 := by
  unfold bump
  split
  · have hlost : (key :: s.lost).count key' = s.lost.count key' + if key = key' then 1 else 0 := by
      rw [List.count_cons]
      simp only [beq_iff_eq]
    show _ + (key :: s.lost).count key' = _
    rw [hlost]
    exact (Nat.add_assoc _ _ _).symm
  · unfold State.total State.taken
    dsimp only
    rw [amount_add]
    omega

theorem total_flush {met : List (Key × Nat)} (h : flush s met = some s') :
    s'.total key = s.total key := by
  unfold flush at h
  split at h
  · next hperm =>
    obtain rfl := Option.some.inj h
    have hleft : owed (if met = [] then Flush.done (some 0) else .writing met met.length).left key =
        amount s.pending key := by
      rw [← owed_parts, ← owed_perm hperm]
      split
      · next hnil =>
        rw [hnil]
        rfl
      · rfl
    unfold State.total
    dsimp only
    rw [taken_concat, hleft, amount_empty]
    omega
  · cases h

theorem total_recordDelta {i : Nat} {succeeds : Bool} (h : recordDelta s i succeeds = some s') :
    s'.total key = s.total key := by
  unfold recordDelta at h
  split at h
  · next e left total hflush =>
    have htaken : ∀ f : Flush, ((s.flushes.set i f).map fun f => owed f.left key).sum +
        owed (e :: left) key = s.taken key + owed f.left key := fun f => sum_set_add hflush
    split at h
    · obtain rfl := Option.some.inj h
      have hleft : owed (if left = [] then Flush.done (some total) else .writing left total).left
          key = owed left key := by
        split
        · next hnil =>
          rw [hnil]
          rfl
        · rfl
      have hmoved := htaken (if left = [] then .done (some total) else .writing left total)
      rw [hleft, owed_cons] at hmoved
      unfold State.total
      unfold State.taken at hmoved ⊢
      dsimp only
      rw [amount_add]
      omega
    · obtain rfl := Option.some.inj h
      have hmoved := htaken (.done none)
      unfold State.total
      unfold State.taken at hmoved ⊢
      dsimp only [Flush.left] at hmoved ⊢
      rw [owed_nil] at hmoved
      rw [amount_addAll]
      omega
  · cases h

/-- **Step lemma.** Only a bump makes an increment, and one of its own bucket. -/
theorem total_step (hstep : machine.step s e = some s') :
    s'.total key = s.total key + if e.bumps key then 1 else 0 := by
  cases e with
  | bump specId day =>
    cases hstep
    rw [total_bump]
    simp only [Event.bumps, decide_eq_true_eq]
  | flush met => exact total_flush hstep
  | recordDelta i succeeds => exact total_recordDelta hstep

/-- Every drop is counted. -/
theorem dropped_step (h : s.dropped = s.lost.length) (hstep : machine.step s e = some s') :
    s'.dropped = s'.lost.length := by
  cases e with
  | bump specId day =>
    cases hstep
    unfold bump
    split
    · exact congrArg (· + 1) h
    · exact h
  | flush met =>
    have hflush : flush s met = some s' := hstep
    unfold flush at hflush
    split at hflush
    · cases hflush
      exact h
    · cases hflush
  | recordDelta i succeeds =>
    have hrecord : recordDelta s i succeeds = some s' := hstep
    unfold recordDelta at hrecord
    split at hrecord
    · split at hrecord
      · cases hrecord
        exact h
      · cases hrecord
        exact h
    · cases hrecord

/-- **Run lemma.** -/
theorem total_of_run (hrun : machine.Run Free s es s') :
    s'.total key = s.total key + es.countP (Event.bumps key) := by
  induction hrun with
  | nil s => rfl
  | cons _ hstep _ ih =>
    rw [ih, total_step hstep, List.countP_cons, Nat.add_assoc, Nat.add_comm (List.countP _ _)]

/-- **Every increment is persisted, pending, taken by a flush or counted as dropped, and once.** -/
theorem increments_conserved (hrun : machine.exec start es = some s) (key : Key) :
    amount s.stored key + (amount s.pending key + s.taken key) + s.lost.count key =
        es.countP (Event.bumps key) ∧
      s.dropped = s.lost.length := by
  have hfree : machine.Run Free start es s := run_free_iff.mpr hrun
  constructor
  · have htotal := @total_of_run start s es key hfree
    have hstart : start.total key = 0 := rfl
    rw [hstart, Nat.zero_add] at htotal
    rw [← htotal, State.total]
    omega
  · exact hfree.invariant (I := fun s => s.dropped = s.lost.length) rfl
      fun _ _ _ h _ hstep => dropped_step h hstep

/-- A write fails while an access comes in, and the next flush writes both. -/
def outage : List Event :=
  let lab : Key := ⟨"lab".toList, "2026-07-12".toList⟩
  [.bump lab.specId lab.day, .flush [(lab, 1)], .bump lab.specId lab.day, .recordDelta 0 false,
    .flush [(lab, 2)], .recordDelta 1 true]

theorem outage_conserved : ∃ s, machine.exec start outage = some s ∧
    s.flushFailures = 1 ∧ amount s.stored ⟨"lab".toList, "2026-07-12".toList⟩ = 2 ∧
    s.dropped = s.lost.length := by
  have hsome : (machine.exec start outage).isSome = true := by decide
  obtain ⟨s, hs⟩ := Option.isSome_iff_exists.mp hsome
  have hkept := increments_conserved hs ⟨"lab".toList, "2026-07-12".toList⟩
  have hfailed : (machine.exec start outage).map State.flushFailures = some 1 := by decide
  have hstored : (machine.exec start outage).map
      (fun s => amount s.stored ⟨"lab".toList, "2026-07-12".toList⟩) = some 2 := by decide
  rw [hs] at hfailed hstored
  exact ⟨s, hs, Option.some.inj hfailed, Option.some.inj hstored, hkept.2⟩

end Conserved

end Ruscker.Proxy.AccessCounter
