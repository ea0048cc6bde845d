import Ruscker.Proxy.AccessCounter

/-!
# The backstop of the access counter

A bump past the backstop makes no new bucket.  A flush takes the buckets out of the buffer, so new
ones may fill it, and a write that fails brings back what was taken whatever the buffer holds by
then.
-/

namespace Ruscker.Proxy.AccessCounter

open Machines Machines.Machine Tallies

/-! ## How many buckets are held -/

section Held

variable {s s' : State} {e : Event} {es : List Event}

/-- The buckets in the buffer. -/
def State.held (s : State) : Nat := s.pending.entries.length

/-- What a flush has left to write. -/
def State.left (s : State) (i : Nat) : List (Key × Nat) := (s.flushes[i]?).elim [] Flush.left

/-- A write fails only while there is room for what it brings back. -/
def HasRoom (s : State) : Event → Prop
  | .recordDelta i false => s.held + fresh s.pending (s.left i) ≤ maxPendingKeys
  | _ => True

instance : ∀ s e, Decidable (HasRoom s e)
  | s, .recordDelta i false =>
    inferInstanceAs (Decidable (s.held + fresh s.pending (s.left i) ≤ maxPendingKeys))
  | _, .recordDelta _ true => .isTrue trivial
  | _, .bump _ _ => .isTrue trivial
  | _, .flush _ => .isTrue trivial

/-- The backstop holds, and no flush has a bucket twice. -/
structure Bounded (s : State) : Prop where
  held : s.held ≤ maxPendingKeys
  keys : ∀ f ∈ s.flushes, (f.left.map Prod.fst).Nodup

theorem held_bump_le (s : State) (key : Key) (h : s.held ≤ maxPendingKeys) :
    (bump s key).held ≤ maxPendingKeys := by
  unfold bump
  split
  · exact h
  · next hroom =>
    have hlength : (add s.pending key 1).entries.length ≤ maxPendingKeys := by
      rw [length_add]
      rw [not_and_or, Nat.not_le] at hroom
      rcases hroom with hlt | hsome
      · split
        · omega
        · omega
      · rw [if_neg (by simpa [Option.isNone_iff_eq_none] using hsome)]
        exact h
    exact hlength

/-- What the step of a write can do. -/
theorem recordDelta_cases {i : Nat} {succeeds : Bool} (h : recordDelta s i succeeds = some s') :
    ∃ e left total, s.flushes[i]? = some (.writing (e :: left) total) ∧
      ((succeeds = true ∧ s' = { s with
          stored := add s.stored e.1 e.2
          flushes := s.flushes.set i
            (if left = [] then .done (some total) else .writing left total) }) ∨
        (succeeds = false ∧ s' = { s with
          pending := addAll s.pending (e :: left)
          flushFailures := s.flushFailures + 1
          flushes := s.flushes.set i (.done none) })) := by
  unfold recordDelta at h
  split at h
  · next e left total hflush =>
    refine ⟨e, left, total, hflush, ?_⟩
    cases succeeds with
    | true => exact .inl ⟨rfl, (Option.some.inj h).symm⟩
    | false => exact .inr ⟨rfl, (Option.some.inj h).symm⟩
  · cases h

namespace Bounded

variable (h : Bounded s)
include h

/-- What comes back when a write fails. -/
theorem held_of_failure {i : Nat} (hstep : recordDelta s i false = some s') :
    s'.held = s.held + fresh s.pending (s.left i) := by
  obtain ⟨e, left, total, hflush, ⟨hfalse, -⟩ | ⟨-, rfl⟩⟩ := recordDelta_cases hstep
  · cases hfalse
  · have hkeys := h.keys _ (List.mem_of_getElem? hflush)
    have hleft : s.left i = e :: left := by
      rw [State.left, hflush]
      rfl
    rw [hleft]
    exact length_addAll hkeys

theorem flushes_step (hstep : machine.step s e = some s') :
    ∀ f ∈ s'.flushes, (f.left.map Prod.fst).Nodup := by
  cases e with
  | bump specId day =>
    cases hstep
    unfold bump
    split
    · exact h.keys
    · exact h.keys
  | flush met =>
    have hflush : flush s met = some s' := hstep
    unfold flush at hflush
    split at hflush
    · next hperm =>
      cases hflush
      refine forall_mem_concat h.keys ?_
      split
      · exact List.nodup_nil
      · exact ((hperm.map Prod.fst).nodup_iff).mpr (keys_parts_nodup s.pending)
    · cases hflush
  | recordDelta i succeeds =>
    obtain ⟨e, left, total, hflush, ⟨-, rfl⟩ | ⟨-, rfl⟩⟩ := recordDelta_cases hstep
    · refine forall_mem_set h.keys ?_
      have hkeys := h.keys _ (List.mem_of_getElem? hflush)
      split
      · exact List.nodup_nil
      · exact (List.nodup_cons.mp hkeys).2
    · exact forall_mem_set h.keys List.nodup_nil

/-- **Step lemma.** -/
theorem step (hok : HasRoom s e) (hstep : machine.step s e = some s') : Bounded s' := by
  refine ⟨?_, h.flushes_step hstep⟩
  cases e with
  | bump specId day =>
    cases hstep
    exact held_bump_le s _ h.held
  | flush met =>
    have hflush : flush s met = some s' := hstep
    unfold flush at hflush
    split at hflush
    · cases hflush
      exact Nat.zero_le _
    · cases hflush
  | recordDelta i succeeds =>
    cases succeeds with
    | true =>
      obtain ⟨e, left, total, -, ⟨-, rfl⟩ | ⟨hfalse, -⟩⟩ := recordDelta_cases hstep
      · exact h.held
      · cases hfalse
    | false =>
      rw [h.held_of_failure hstep]
      exact hok

/-- A failure without room breaks the bound. -/
theorem overflow (hnot : ¬ HasRoom s e) (hstep : machine.step s e = some s') :
    maxPendingKeys < s'.held := by
  cases e with
  | bump specId day => exact absurd trivial hnot
  | flush met => exact absurd trivial hnot
  | recordDelta i succeeds =>
    cases succeeds with
    | true => exact absurd trivial hnot
    | false =>
      rw [h.held_of_failure hstep]
      exact Nat.not_le.mp hnot

end Bounded

theorem bounded_start : Bounded start := ⟨Nat.zero_le _, nofun⟩

/-- **The backstop.** The buffer never holds more buckets than the backstop just when every write
that fails finds room for the buckets it brings back. -/
theorem held_le_iff_hasRoom (hexec : machine.exec start es = some s) :
    (∀ es' s', es' <+: es → machine.exec start es' = some s' → s'.held ≤ maxPendingKeys) ↔
      machine.Run HasRoom start es s := by
  refine forall_prefix_iff_run bounded_start (fun _ h => h.held) ?_ ?_ hexec
  · intro s e s' hI hok hstep
    exact hI.step hok hstep
  · intro s e s' hI hnot hstep hle
    exact absurd (hI.overflow hnot hstep) (Nat.not_lt.mpr hle)

theorem outage_held_le : ∃ s, machine.exec start outage = some s ∧
    ∀ es' s', es' <+: outage → machine.exec start es' = some s' → s'.held ≤ maxPendingKeys := by
  have hsome : (machine.execIf HasRoom start outage).isSome = true := by decide
  have hrun := run_execIf hsome
  have hexec := run_free_iff.mp (hrun.mono fun _ _ _ => trivial)
  exact ⟨_, hexec, (held_le_iff_hasRoom hexec).mpr hrun⟩

end Held

/-! ## New buckets while a write is under way -/

section Filled

variable {s : State}

def Key.bumped (key : Key) : Event := .bump key.specId key.day

/-- As many new buckets as there is room for. -/
theorem exec_bumped {keys : List Key} (hnodup : keys.Nodup)
    (hnew : ∀ key ∈ keys, s.pending.lookup key = none)
    (hroom : s.held + keys.length ≤ maxPendingKeys) :
    ∃ t, machine.exec s (keys.map Key.bumped) = some t ∧ t.held = s.held + keys.length ∧
      t.flushes = s.flushes ∧ ∀ key ∉ keys, t.pending.lookup key = s.pending.lookup key := by
  induction keys generalizing s with
  | nil => exact ⟨s, rfl, rfl, rfl, fun _ _ => rfl⟩
  | cons key keys ih =>
    obtain ⟨hnot, hrest⟩ := List.nodup_cons.mp hnodup
    rw [List.length_cons] at hroom
    have hnone : s.pending.lookup key = none := hnew key List.mem_cons_self
    have hbump : bump s key = { s with pending := add s.pending key 1 } := by
      have hlt : ¬ maxPendingKeys ≤ s.pending.entries.length := by
        unfold State.held at hroom
        omega
      rw [bump, if_neg fun hfull => hlt hfull.1]
    have hheld : (bump s key).held = s.held + 1 := by
      rw [hbump, State.held, length_add, hnone]
      rfl
    have hlookup : ∀ key' ≠ key, (bump s key).pending.lookup key' = s.pending.lookup key' := by
      intro key' hne
      rw [hbump, lookup_add, if_neg hne]
    obtain ⟨t, hexec, htheld, htflushes, htlookup⟩ := ih (s := bump s key) hrest
      (fun key' hkey' => by
        rw [hlookup key' fun heq => hnot (heq ▸ hkey')]
        exact hnew key' (List.mem_cons_of_mem key hkey'))
      (by omega)
    refine ⟨t, hexec, ?_, ?_, ?_⟩
    · rw [htheld, hheld, List.length_cons]
      omega
    · rw [htflushes, hbump]
    · intro key' hkey'
      rw [List.mem_cons, not_or] at hkey'
      rw [htlookup key' hkey'.2, hlookup key' hkey'.1]

def labKey : Key := ⟨"lab".toList, "2026-07-12".toList⟩

def appKey (n : Nat) : Key := ⟨List.replicate n 'a', "2026-07-12".toList⟩

theorem appKey_injective : Function.Injective appKey := by
  intro a b hab
  have hlength := congrArg (fun key => key.specId.length) hab
  simpa [appKey] using hlength

theorem appKey_ne_labKey (n : Nat) : appKey n ≠ labKey := by
  intro heq
  have hmem : 'l' ∈ (appKey n).specId := by
    rw [heq]
    decide
  exact absurd (List.eq_of_mem_replicate hmem) (by decide)

/-- The buffer fills up with new buckets while a write is under way that fails. -/
def flood : List Event :=
  [labKey.bumped, .flush [(labKey, 1)]] ++
    ((List.range maxPendingKeys).map appKey).map Key.bumped ++ [.recordDelta 0 false]

theorem flood_overflows : ∃ s, machine.exec start flood = some s ∧ maxPendingKeys < s.held := by
  obtain ⟨taken, htaken, hheld, hflushes, hlookup⟩ : ∃ s,
      machine.exec start [labKey.bumped, .flush [(labKey, 1)]] = some s ∧ s.held = 0 ∧
        s.flushes = [.writing [(labKey, 1)] 1] ∧ ∀ key, s.pending.lookup key = none :=
    ⟨_, rfl, rfl, rfl, fun _ => rfl⟩
  have hnodup : ((List.range maxPendingKeys).map appKey).Nodup :=
    List.nodup_range.map appKey_injective
  have hlength : ((List.range maxPendingKeys).map appKey).length = maxPendingKeys := by
    rw [List.length_map, List.length_range]
  obtain ⟨full, hfull, hfullHeld, hfullFlushes, hfullLookup⟩ :=
    exec_bumped hnodup (fun key _ => hlookup key) (by rw [hheld, hlength, Nat.zero_add])
  have hlab : labKey ∉ (List.range maxPendingKeys).map appKey := by
    intro hmem
    obtain ⟨n, -, hn⟩ := List.mem_map.mp hmem
    exact appKey_ne_labKey n hn
  have hnone : full.pending.lookup labKey = none := (hfullLookup labKey hlab).trans (hlookup labKey)
  rw [hlength, hheld, Nat.zero_add] at hfullHeld
  refine ⟨{ full with
    pending := addAll full.pending [(labKey, 1)]
    flushFailures := full.flushFailures + 1
    flushes := full.flushes.set 0 (.done none) }, ?_, ?_⟩
  · rw [flood, exec_append, exec_append, htaken, Option.bind_some, hfull, Option.bind_some, exec]
    have hstep : machine.step full (.recordDelta 0 false) = recordDelta full 0 false := rfl
    rw [hstep, recordDelta, hfullFlushes, hflushes]
    rfl
  · have hkeys : ([(labKey, 1)].map Prod.fst).Nodup := List.nodup_singleton labKey
    have hadded := length_addAll (t := full.pending) hkeys
    have hfresh : fresh full.pending [(labKey, 1)] = 1 := by
      rw [fresh, List.countP_cons, hnone]
      rfl
    rw [hfresh] at hadded
    show maxPendingKeys < (addAll full.pending [(labKey, 1)]).entries.length
    unfold State.held at hfullHeld
    omega

end Filled

end Ruscker.Proxy.AccessCounter
