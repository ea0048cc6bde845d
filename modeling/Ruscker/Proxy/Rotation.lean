import Mathlib.Data.List.Count
import Mathlib.Data.List.Perm.Subperm
import Ruscker.Proxy.Calls

/-!
# Round robin

All specs share one counter.  A pick in rotation takes the replica that the counter points to
and moves the counter on, so which replica a spec comes to next depends on how many picks other
specs have made meanwhile.
-/

namespace Ruscker.Proxy.Rotation

open Calls Machines Machines.Machine

variable {ι : Type*}

/-! ## Every slot once -/

section Slots

variable {ids : List ι} {slots : List Nat}

theorem getElem?_injOn (hids : ids.Nodup) {a b : Nat} (ha : a < ids.length)
    (h : ids[a]? = ids[b]?) : a = b :=
  (List.getElem?_inj ha hids).mp h

variable [DecidableEq ι]

theorem count_slots (hids : ids.Nodup) (hslots : ∀ a ∈ slots, a < ids.length) {a : Nat}
    (ha : a < ids.length) : (slots.map fun a => ids[a]?).count ids[a]? = slots.count a := by
  induction slots with
  | nil => rfl
  | cons b slots ih =>
    have hrest := ih fun c hc => hslots c (List.mem_cons_of_mem b hc)
    rw [List.map_cons, List.count_cons, List.count_cons, hrest]
    by_cases hba : b = a
    · simp [hba]
    · have hne : ids[b]? ≠ ids[a]? := fun heq => hba (getElem?_injOn hids ha heq.symm).symm
      simp [hba, hne]

/-- As many slots as ids take each id once just when no slot comes twice. -/
theorem each_once_iff_nodup (hids : ids.Nodup) (hslots : ∀ a ∈ slots, a < ids.length)
    (hlength : slots.length = ids.length) :
    (∀ id ∈ ids, (slots.map fun a => ids[a]?).count (some id) = 1) ↔ slots.Nodup := by
  constructor
  · intro h
    rw [List.nodup_iff_count_le_one]
    intro a
    by_cases ha : a ∈ slots
    · have hlt := hslots a ha
      have honce := h ids[a] (List.getElem_mem hlt)
      rw [← List.getElem?_eq_getElem hlt, count_slots hids hslots hlt] at honce
      exact honce.le
    · rw [List.count_eq_zero_of_not_mem ha]
      exact Nat.zero_le 1
  · intro hnodup id hid
    obtain ⟨a, hlt, rfl⟩ := List.getElem_of_mem hid
    rw [← List.getElem?_eq_getElem hlt, count_slots hids hslots hlt]
    have hperm : slots.Perm (List.range ids.length) := by
      refine (List.subperm_of_subset hnodup fun b hb => ?_).perm_of_length_le ?_
      · exact List.mem_range.mpr (hslots b hb)
      · rw [List.length_range, hlength]
    rw [hperm.count_eq, List.count_eq_one_of_mem List.nodup_range (List.mem_range.mpr hlt)]

end Slots

/-! ## Picks -/

/-- A call of `pick_accepting`, or of `pick_replica`, and the requests in flight. -/
structure Pick (ι : Type*) where
  spec : Str
  replicas : List (Replica ι)
  routing : RoutingStrategy
  api : Bool
  strict : Bool
  inflight : ι → Nat

namespace Pick

variable (p : Pick ι)

def outcome (turn : Nat) : Option (Replica ι) :=
  if p.strict then pickAccepting p.replicas p.routing p.api ⟨turn, p.inflight⟩
  else pickReplica p.replicas p.routing p.api ⟨turn, p.inflight⟩

/-- What `select` chooses from. -/
def candidates : List (Replica ι) :=
  if p.strict || p.replicas.any Replica.isAccepting then p.replicas.filter Replica.isAccepting
  else p.replicas.filter fun r => r.state = .ready

/-- The pick moves the counter on. -/
def rotates : Bool := decide (p.routing = .roundRobin) && !p.candidates.isEmpty

theorem outcome_eq_select (turn : Nat) :
    p.outcome turn = select p.candidates p.routing p.api ⟨turn, p.inflight⟩ := by
  unfold outcome candidates
  cases hstrict : p.strict with
  | true => rfl
  | false =>
    rw [if_neg Bool.false_ne_true, pickReplica, Bool.false_or]
    cases hany : p.replicas.any Replica.isAccepting with
    | true =>
      have hsome : pickAccepting p.replicas p.routing p.api ⟨turn, p.inflight⟩ ≠ none := by
        intro hnone
        obtain ⟨r, hr, haccepting⟩ := List.any_eq_true.mp hany
        have hempty := List.filter_eq_nil_iff.mp (select_eq_none.mp hnone)
        exact hempty r hr haccepting
      obtain ⟨r, hr⟩ := Option.ne_none_iff_exists'.mp hsome
      rw [if_pos rfl, hr, Option.some_or, ← hr]
      rfl
    | false =>
      have hnone : pickAccepting p.replicas p.routing p.api ⟨turn, p.inflight⟩ = none := by
        refine select_eq_none.mpr (List.filter_eq_nil_iff.mpr fun r hr haccepting => ?_)
        rw [List.any_eq_false] at hany
        exact hany r hr haccepting
      rw [if_neg Bool.false_ne_true, hnone, Option.none_or]

/-- In rotation a pick takes what the counter points to. -/
theorem id_outcome (hrouting : p.routing = .roundRobin) (turn : Nat) :
    (p.outcome turn).map Replica.id =
      (p.candidates.map Replica.id)[turn % (p.candidates.map Replica.id).length]? := by
  rw [outcome_eq_select, hrouting, select, List.getElem?_map, List.length_map]

end Pick

/-! ## Runs -/

/-- `AtomicUsize` wraps around. -/
def usizeRange : Nat := 2 ^ 64

/-- The counter, and what was picked for which spec. -/
structure State (ι : Type*) where
  turn : Nat
  picked : List (Str × Option (Replica ι))

def State.pickedFor (s : State ι) (spec : Str) : List (Option (Replica ι)) :=
  (s.picked.filter fun e => e.1 = spec).map Prod.snd

/-- Requests to all specs, in the order in which they get hold of the counter. -/
def machine : Machine (State ι) (Pick ι) where
  step s p := some
    { turn := if p.rotates then (s.turn + 1) % usizeRange else s.turn
      picked := s.picked ++ [(p.spec, p.outcome s.turn)] }

def start : State ι := ⟨0, []⟩

/-- Each pick with the number of picks in rotation before it, for whatever spec. -/
def ranked : Nat → List (Pick ι) → List (Nat × Pick ι)
  | _, [] => []
  | k, p :: ps => (k, p) :: ranked (if p.rotates then k + 1 else k) ps

def rankedFor (spec : Str) (ps : List (Pick ι)) : List (Nat × Pick ι) :=
  (ranked 0 ps).filter fun e => e.2.spec = spec

/-- `n` consecutive ones, from the `i`-th on. -/
def window {α : Type*} (i n : Nat) (l : List α) : List α := (l.drop i).take n

section Runs

variable {s t : State ι} {ps : List (Pick ι)} {spec : Str} {i k : Nat}

/-- **Run lemma.** The counter has counted the picks in rotation of all specs. -/
theorem picked_of_run (hrun : machine.Run Free s ps t) (hturn : s.turn = k % usizeRange) :
    t.picked = s.picked ++
      (ranked k ps).map fun e => (e.2.spec, e.2.outcome (e.1 % usizeRange)) := by
  induction hrun generalizing k with
  | nil s => simp [ranked]
  | @cons s s' t p ps _ hstep _ ih =>
    cases hstep
    have hnext : (if p.rotates then (s.turn + 1) % usizeRange else s.turn) =
        (if p.rotates then k + 1 else k) % usizeRange := by
      split
      · rw [hturn, Nat.mod_add_mod]
      · exact hturn
    rw [ih hnext, ranked, List.map_cons, hturn, List.append_assoc, List.singleton_append]

theorem pickedFor_eq (hexec : machine.exec start ps = some t) :
    t.pickedFor spec =
      (rankedFor spec ps).map fun e => e.2.outcome (e.1 % usizeRange) := by
  have hpicked := picked_of_run (k := 0) (run_free_iff.mpr hexec) rfl
  rw [State.pickedFor, hpicked, start, List.nil_append, List.filter_map, List.map_map, rankedFor]
  rfl

theorem window_map {α β : Type*} (f : α → β) (i n : Nat) (l : List α) :
    window i n (l.map f) = (window i n l).map f := by
  rw [window, window, ← List.map_drop, ← List.map_take]

/-- Where no other spec is served in rotation meanwhile, and the counter does not wrap around. -/
theorem nodup_of_consecutive {w : List (Nat × Pick ι)} {n : Nat}
    (hranks : w.map Prod.fst = List.range' k n) (hwrap : k + n ≤ usizeRange) :
    (w.map fun e => e.1 % usizeRange % n).Nodup := by
  have hslots : (w.map fun e => e.1 % usizeRange % n) =
      (List.range' k n).map fun a => a % usizeRange % n := by
    rw [← hranks, List.map_map]
    rfl
  rw [hslots]
  refine List.Nodup.map_on (fun a ha b hb hab => ?_) List.nodup_range'
  rw [List.mem_range'_1] at ha hb
  have hkept : ∀ c, c < k + n → c % usizeRange = c := fun c hc => Nat.mod_eq_of_lt (by omega)
  rw [hkept a ha.2, hkept b hb.2] at hab
  rcases Nat.le_total a b with hle | hle
  · have hdvd := Nat.dvd_of_mod_eq_zero (Nat.sub_mod_eq_zero_of_mod_eq hab.symm)
    have hzero := Nat.eq_zero_of_dvd_of_lt hdvd (by omega)
    omega
  · have hdvd := Nat.dvd_of_mod_eq_zero (Nat.sub_mod_eq_zero_of_mod_eq hab)
    have hzero := Nat.eq_zero_of_dvd_of_lt hdvd (by omega)
    omega

variable [DecidableEq ι] {ids : List ι}

/-- **Round robin.** Consecutive picks for a spec take each of its replicas once just when the
counter, as far as all specs have moved it on, points to a different slot each time. -/
theorem each_once_iff (hexec : machine.exec start ps = some t) (hids : ids.Nodup)
    (hmade : (window i ids.length (rankedFor spec ps)).length = ids.length)
    (hsame : ∀ e ∈ window i ids.length (rankedFor spec ps),
      e.2.routing = .roundRobin ∧ e.2.candidates.map Replica.id = ids) :
    (∀ id ∈ ids, ((window i ids.length (t.pickedFor spec)).map
        (Option.map Replica.id)).count (some id) = 1) ↔
      ((window i ids.length (rankedFor spec ps)).map fun e =>
        e.1 % usizeRange % ids.length).Nodup := by
  have hpicked : (window i ids.length (t.pickedFor spec)).map (Option.map Replica.id) =
      ((window i ids.length (rankedFor spec ps)).map fun e =>
        e.1 % usizeRange % ids.length).map fun a => ids[a]? := by
    rw [pickedFor_eq hexec, window_map, List.map_map, List.map_map]
    refine List.map_congr_left fun e he => ?_
    obtain ⟨hrouting, hcandidates⟩ := hsame e he
    rw [Function.comp_apply, Pick.id_outcome _ hrouting, hcandidates]
    rfl
  rw [hpicked]
  refine each_once_iff_nodup hids (fun a ha => ?_) ?_
  · obtain ⟨e, he, rfl⟩ := List.mem_map.mp ha
    refine Nat.mod_lt _ ?_
    rw [← hmade]
    exact List.length_pos_of_mem he
  · rw [List.length_map, hmade]

end Runs

/-! ## Two APIs in turn -/

section Example

/-- A call for one of the two ready replicas of an API. -/
def pickOf (name : String) (first second : Nat) : Pick Nat where
  spec := name.toList
  replicas := [⟨first, name.toList, .ready, 0, 0, 1⟩, ⟨second, name.toList, .ready, 0, 0, 1⟩]
  routing := .roundRobin
  api := true
  strict := true
  inflight _ := 0

theorem each_once_alone : ∃ t : State Nat,
    machine.exec start [pickOf "a" 1 2, pickOf "a" 1 2] = some t ∧
      ∀ id ∈ [1, 2], ((window 0 2 (t.pickedFor "a".toList)).map
        (Option.map Replica.id)).count (some id) = 1 := by
  let both : List (Pick Nat) := [pickOf "a" 1 2, pickOf "a" 1 2]
  obtain ⟨t, ht⟩ : ∃ t, machine.exec start both = some t := ⟨_, rfl⟩
  have hids : [1, 2].Nodup := by decide
  have hmade : (window 0 2 (rankedFor "a".toList both)).length = 2 := by decide
  have hsame : ∀ e ∈ window 0 2 (rankedFor "a".toList both),
      e.2.routing = .roundRobin ∧ e.2.candidates.map Replica.id = [1, 2] := by decide
  refine ⟨t, ht, (each_once_iff ht hids hmade hsame).mpr (nodup_of_consecutive (k := 0) rfl ?_)⟩
  decide

/-- Every other pick is for the other API, and both always get the same replica. -/
theorem taking_turns_starves : ∃ t : State Nat,
    machine.exec start
      [pickOf "a" 1 2, pickOf "b" 3 4, pickOf "a" 1 2, pickOf "b" 3 4] = some t ∧
      (t.pickedFor "a".toList).map (Option.map Replica.id) = [some 1, some 1] ∧
      (t.pickedFor "b".toList).map (Option.map Replica.id) = [some 4, some 4] :=
  ⟨_, rfl, by decide, by decide⟩

end Example

end Ruscker.Proxy.Rotation
