import Ruscker.Core.Registry
import Ruscker.Lib.Machine
import Ruscker.Lib.Table

/-!
# The gauge of requests in flight

A guard counts its request up when it is made and down when it is dropped.  The row of a
replica can be forgotten in between, and then made anew: a guard from before counts down in
whatever row it finds.
-/

namespace Ruscker.Proxy.Inflight

open Tables Machines Machines.Machine

variable {ι : Type*}

/-- A request on its way.  It is `stale` once the row it counted in was forgotten. -/
structure Guard (ι : Type*) where
  replica : ι
  stale : Bool
  deriving DecidableEq

structure State (ι : Type*) where
  inflight : Table ι Nat
  guards : List (Guard ι)

def empty : State ι := ⟨∅, []⟩

inductive Event (ι : Type*) where
  | new (r : ι)
  | drop (i : Nat)
  | forget (r : ι)
  -- `inflight_gc` goes from shard to shard
  | gc (alive : List ι) (shard : Nat)

section Machine

variable [DecidableEq ι] (shardOf : ι → Nat)

/-- `inflight_count`. -/
def count (s : State ι) (r : ι) : Nat := (s.inflight.lookup r).getD 0

/-- The guards made after the replica was last forgotten. -/
def fresh (s : State ι) (r : ι) : Nat := s.guards.countP fun g => g.replica = r && !g.stale

/-- The rows of `gone` are forgotten. -/
def clear (s : State ι) (gone : ι → Bool) : State ι where
  inflight := s.inflight.retain fun r _ => !gone r
  guards := s.guards.map fun g => { g with stale := g.stale || gone g.replica }

/-- The count is a `u32`, and a release build does not check for overflow. -/
def machine : Machine (State ι) (Event ι) where
  step s
    | .new r => some
        { inflight := s.inflight.upsert r ((count s r + 1) % (u32Max + 1))
          guards := s.guards ++ [⟨r, false⟩] }
    | .drop i => (s.guards[i]?).map fun g =>
        { inflight := s.inflight.update g.replica fun n => n - 1
          guards := s.guards.eraseIdx i }
    | .forget r => some (clear s fun r' => r' = r)
    | .gc alive shard => some (clear s fun r => decide (shardOf r = shard) && decide (r ∉ alive))

/-- No request since the replica was last forgotten is left out. -/
def Covers (s : State ι) : Prop := ∀ r, fresh s r ≤ count s r

/-- A guard from before drops only while none from after is left, and the count has room. -/
def Sound (s : State ι) : Event ι → Prop
  | .new r => count s r < u32Max
  | .drop i => ∀ g, s.guards[i]? = some g → g.stale = true → fresh s g.replica = 0
  | _ => True

/-- Every row counts the guards made since. -/
def Exact (s : State ι) : Prop := ∀ r, count s r = fresh s r

end Machine

/-! ## What a step does to the count and to the guards -/

section Steps

variable [DecidableEq ι] {s : State ι} {r r' : ι} {g : Guard ι} {i : Nat} {gone : ι → Bool}

theorem count_upsert (n : Nat) (guards : List (Guard ι)) :
    count ⟨s.inflight.upsert r n, guards⟩ r' = if r' = r then n else count s r' := by
  rw [count, Table.lookup_upsert]
  split
  · rfl
  · rfl

theorem count_update (s : State ι) (r r' : ι) (guards : List (Guard ι)) :
    count ⟨s.inflight.update r fun n => n - 1, guards⟩ r' =
      if r' = r then count s r' - 1 else count s r' := by
  rw [count, Table.lookup_update]
  split
  · next h =>
    subst h
    rw [count]
    cases s.inflight.lookup r' <;> rfl
  · rfl

theorem count_clear : count (clear s gone) r = if gone r then 0 else count s r := by
  have hlookup : (clear s gone).inflight.lookup r =
      if gone r then none else s.inflight.lookup r := by
    refine Option.ext fun n => ?_
    rw [clear, Table.lookup_retain]
    cases gone r <;> simp
  rw [count, hlookup]
  split
  · rfl
  · rfl

theorem fresh_new (rows : Table ι Nat) :
    fresh ⟨rows, s.guards ++ [⟨r, false⟩]⟩ r' = fresh s r' + if r' = r then 1 else 0 := by
  rw [fresh, List.countP_append, fresh]
  by_cases h : r' = r
  · simp [h]
  · simp [h, Ne.symm h]

theorem fresh_drop (rows : Table ι Nat) (hg : s.guards[i]? = some g) (r' : ι) :
    fresh ⟨rows, s.guards.eraseIdx i⟩ r' +
      (if g.replica = r' ∧ g.stale = false then 1 else 0) = fresh s r' := by
  have h := countP_eraseIdx_add (p := fun g : Guard ι => g.replica = r' && !g.stale) hg
  simpa [fresh] using h

theorem fresh_clear : fresh (clear s gone) r = if gone r then 0 else fresh s r := by
  rw [fresh, clear, List.countP_map]
  split
  · next h =>
    refine List.countP_eq_zero.mpr fun g _ => ?_
    by_cases hg : g.replica = r
    · simp [hg, h]
    · simp [hg]
  · next h =>
    refine List.countP_congr fun g _ => ?_
    by_cases hg : g.replica = r
    · simp [hg, h]
    · simp [hg]

end Steps

/-! ## Runs -/

section Runs

variable [DecidableEq ι] {shardOf : ι → Nat} {s s' : State ι} {e : Event ι} {gone : ι → Bool}

theorem exact_empty : Exact (empty : State ι) := fun _ => rfl

namespace Exact

variable (h : Exact s)
include h

theorem covers : Covers s := fun r => Nat.le_of_eq (h r).symm

theorem clear : Exact (clear s gone) := by
  intro r
  rw [count_clear, fresh_clear, h r]

theorem step (hok : Sound s e) (hstep : (machine shardOf).step s e = some s') : Exact s' := by
  cases e with
  | new r =>
    cases hstep
    intro r'
    rw [count_upsert, fresh_new, Nat.mod_eq_of_lt (Nat.succ_lt_succ hok)]
    split
    · next heq => rw [heq, h r]
    · exact h r'
  | drop i =>
    obtain ⟨g, hg, rfl⟩ := Option.map_eq_some_iff.mp hstep
    intro r'
    have hcount := count_update s g.replica r' (s.guards.eraseIdx i)
    have hfresh := fresh_drop (s.inflight.update g.replica fun n => n - 1) hg r'
    have hexact := h r'
    by_cases hr : r' = g.replica
    · subst hr
      rw [if_pos rfl] at hcount
      cases hstale : g.stale with
      | true =>
        have hnone := hok g hg hstale
        simp only [hstale, Bool.true_eq_false, and_false, if_false] at hfresh
        omega
      | false =>
        simp only [hstale, and_self, if_true] at hfresh
        omega
    · rw [if_neg hr] at hcount
      rw [if_neg fun hcon => hr hcon.1.symm] at hfresh
      omega
  | forget r =>
    cases hstep
    exact h.clear
  | gc alive shard =>
    cases hstep
    exact h.clear

/-- A step that does not meet the condition leaves a request out. -/
theorem not_covers (hok : ¬ Sound s e) (hstep : (machine shardOf).step s e = some s') :
    ¬ Covers s' := by
  cases e with
  | new r =>
    cases hstep
    intro hcovers
    have hfull : (count s r + 1) % (u32Max + 1) < count s r + 1 :=
      Nat.lt_of_lt_of_le (Nat.mod_lt _ u32Max.succ_pos) (Nat.succ_le_succ (Nat.le_of_not_lt hok))
    have hle := hcovers r
    rw [count_upsert, fresh_new, if_pos rfl, if_pos rfl, ← h r] at hle
    exact absurd hle (Nat.not_le_of_lt hfull)
  | drop i =>
    obtain ⟨g, hg, rfl⟩ := Option.map_eq_some_iff.mp hstep
    intro hcovers
    refine hok fun g' hg' hstale => ?_
    cases hg.symm.trans hg'
    have hle := hcovers g.replica
    have hfresh := fresh_drop (s.inflight.update g.replica fun n => n - 1) hg g.replica
    rw [count_update, if_pos rfl, h g.replica] at hle
    simp only [hstale, Bool.true_eq_false, and_false, if_false] at hfresh
    omega
  | forget r => exact absurd trivial hok
  | gc alive shard => exact absurd trivial hok

end Exact

/-- **The gauge.** Along a run the count covers the requests since the last forget just when
guards from before drop while none from after is left, and no count is full. -/
theorem covers_iff_sound {es : List (Event ι)}
    (hrun : (machine shardOf).exec empty es = some s) :
    (∀ es' s', es' <+: es → (machine shardOf).exec empty es' = some s' →
      ∀ r, fresh s' r ≤ count s' r) ↔ (machine shardOf).Run Sound empty es s :=
  forall_prefix_iff_run (P := Covers) exact_empty (fun _ h => h.covers)
    (fun _ _ _ h hok hstep => h.step hok hstep)
    (fun _ _ _ h hok hstep => h.not_covers hok hstep) hrun

/-- A request comes and goes, its replica restarts, another request comes and goes. -/
def restartBetween : List (Event Nat) :=
  [.new 3, .drop 0, .forget 3, .new 3, .gc [3] 0, .drop 0]

theorem covers_iff_sound_restartBetween :
    ∃ s, (machine fun _ => 0).exec empty restartBetween = some s ∧ fresh s 3 = 0 ∧
      ((∀ es' s', es' <+: restartBetween → (machine fun _ => 0).exec empty es' = some s' →
        ∀ r, fresh s' r ≤ count s' r) ↔ (machine fun _ => 0).Run Sound empty restartBetween s) :=
  ⟨_, rfl, rfl, covers_iff_sound rfl⟩

/-- A request is on its way while its replica restarts, and ends after the next has come. -/
def restartAcross : List (Event Nat) := [.new 3, .forget 3, .new 3, .drop 0]

theorem restartAcross_leaves_out : ∃ s, (machine fun _ => 0).exec empty restartAcross = some s ∧
    s.guards = [⟨3, false⟩] ∧ count s 3 = 0 ∧ ¬ fresh s 3 ≤ count s 3 :=
  ⟨_, rfl, rfl, rfl, by decide⟩

end Runs

end Ruscker.Proxy.Inflight
