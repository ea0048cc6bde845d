import Mathlib.Data.List.MinMax
import Ruscker.Config.Settings

/-!
# The replica registry

The rows of all specs in the order they came.  Looking a replica up by its id stops at the
first row that has it.
-/

namespace Ruscker

inductive ReplicaState where
  | starting | ready | draining | stopped | failed
  deriving DecidableEq

/-- The fields of a row that routing and accounting read. -/
structure Replica (ι : Type*) where
  id : ι
  specId : Str
  state : ReplicaState
  startedAt : Nat
  sessionsActive : Nat
  sessionsMax : Nat
  deriving DecidableEq

def u32Max : Nat := 2 ^ 32 - 1

namespace Replica

variable {ι : Type*} (r : Replica ι)

def availableSeats : Nat := r.sessionsMax - r.sessionsActive

def isAccepting : Bool := r.state = .ready && decide (0 < r.availableSeats)

/-- One more session, saturating. -/
def inc : Replica ι := { r with sessionsActive := min (r.sessionsActive + 1) u32Max }

/-- One session less, saturating. -/
def dec : Replica ι := { r with sessionsActive := r.sessionsActive - 1 }

/-- Out of routing, with a fresh count. -/
def restarting (observedAt : Nat) : Replica ι :=
  { r with state := .stopped, startedAt := observedAt, sessionsActive := 0 }

@[simp] theorem inc_id : r.inc.id = r.id := rfl
@[simp] theorem inc_specId : r.inc.specId = r.specId := rfl
@[simp] theorem inc_state : r.inc.state = r.state := rfl
@[simp] theorem dec_id : r.dec.id = r.id := rfl
@[simp] theorem dec_specId : r.dec.specId = r.specId := rfl
@[simp] theorem dec_state : r.dec.state = r.state := rfl
@[simp] theorem dec_sessionsActive : r.dec.sessionsActive = r.sessionsActive - 1 := rfl
@[simp] theorem restarting_id (t : Nat) : (r.restarting t).id = r.id := rfl
@[simp] theorem restarting_specId (t : Nat) : (r.restarting t).specId = r.specId := rfl
@[simp] theorem restarting_state (t : Nat) : (r.restarting t).state = .stopped := rfl
@[simp] theorem restarting_sessionsActive (t : Nat) : (r.restarting t).sessionsActive = 0 := rfl

theorem inc_sessionsActive_le : r.inc.sessionsActive ≤ r.sessionsActive + 1 := Nat.min_le_left ..

theorem inc_sessionsActive (h : r.sessionsActive < u32Max) :
    r.inc.sessionsActive = r.sessionsActive + 1 := Nat.min_eq_left h

end Replica

abbrev Registry (ι : Type*) := List (Replica ι)

namespace Registry

variable {ι : Type*}

def replicasOf (reg : Registry ι) (spec : Str) : List (Replica ι) :=
  reg.filter fun r => r.specId = spec

def add (reg : Registry ι) (r : Replica ι) : Registry ι := reg ++ [r]

/-- No two rows share an id. -/
def Distinct (reg : Registry ι) : Prop := (reg.map Replica.id).Nodup

/-- The number of rows of a spec. -/
def held (reg : Registry ι) (spec : Str) : Nat := (reg.replicasOf spec).length

section Add

variable {reg : Registry ι} {r : Replica ι} {spec : Str}

theorem mem_add {x : Replica ι} : x ∈ reg.add r ↔ x ∈ reg ∨ x = r := by
  rw [add, List.mem_append, List.mem_singleton]

theorem Distinct.add (hreg : reg.Distinct) (hr : ∀ x ∈ reg, x.id ≠ r.id) :
    (reg.add r).Distinct := by
  rw [Distinct, Registry.add, List.map_append, List.nodup_append]
  refine ⟨hreg, List.nodup_singleton _, ?_⟩
  intro a ha b hb hab
  obtain ⟨x, hx, rfl⟩ := List.mem_map.mp ha
  rw [List.map_singleton, List.mem_singleton] at hb
  exact hr x hx (hab.trans hb)

/-- The rows of several specs. -/
theorem Distinct.flatMap (hreg : reg.Distinct) {specs : List Str} (hspecs : specs.Nodup) :
    ((specs.flatMap reg.replicasOf).map Replica.id).Nodup := by
  induction specs with
  | nil => exact List.nodup_nil
  | cons spec rest ih =>
    obtain ⟨hnot, hrest⟩ := List.nodup_cons.mp hspecs
    rw [List.flatMap_cons, List.map_append, List.nodup_append]
    refine ⟨(List.filter_sublist.map Replica.id).nodup hreg, ih hrest, ?_⟩
    intro a ha b hb hab
    obtain ⟨x, hx, rfl⟩ := List.mem_map.mp ha
    obtain ⟨y, hy, rfl⟩ := List.mem_map.mp hb
    obtain ⟨other, hother, hyspec⟩ := List.mem_flatMap.mp hy
    obtain ⟨hxreg, hxspec⟩ := List.mem_filter.mp hx
    obtain ⟨hyreg, hyspec⟩ := List.mem_filter.mp hyspec
    obtain rfl : x = y := List.inj_on_of_nodup_map hreg hxreg hyreg hab
    rw [decide_eq_true_eq] at hxspec hyspec
    exact hnot (hxspec ▸ hyspec ▸ hother)

theorem held_add : (reg.add r).held spec = reg.held spec + if r.specId = spec then 1 else 0 := by
  rw [held, replicasOf, add, List.filter_append, List.length_append]
  by_cases h : r.specId = spec
  · simp [h, held, replicasOf]
  · simp [h, held, replicasOf]

end Add

variable [DecidableEq ι]

/-- `find_mut` and a write to the row it finds. -/
def update (reg : Registry ι) (id : ι) (f : Replica ι → Replica ι) : Registry ι :=
  match reg with
  | [] => []
  | r :: rest => if r.id = id then f r :: rest else r :: update rest id f

/-- The removed row only goes to the log. -/
def remove (reg : Registry ι) (id : ι) : Registry ι := reg.eraseP fun r => r.id = id

def upsert (reg : Registry ι) (r : Replica ι) : Registry ι := (reg.remove r.id).add r

/-- `none` when there is no such replica. -/
def markRestarting (reg : Registry ι) (id : ι) (observedAt : Nat) : Option (Registry ι) :=
  if reg.any (fun r => r.id = id) then some (reg.update id fun r => r.restarting observedAt)
  else none

def incSessions (reg : Registry ι) (id : ι) : Registry ι := reg.update id Replica.inc

def decSessions (reg : Registry ι) (id : ι) : Registry ι := reg.update id Replica.dec

def setSessionCount (reg : Registry ι) (id : ι) (n : Nat) : Registry ι :=
  reg.update id fun r => { r with sessionsActive := n }

/-- A replica that is not in the tally counts for zero. -/
def setSessionCounts (reg : Registry ι) (counts : ι → Nat) : Registry ι :=
  reg.map fun r => { r with sessionsActive := counts r.id }

/-! ## Rows and ids -/

section Rows

variable {reg : Registry ι} {id : ι} {f : Replica ι → Replica ι} {r : Replica ι}

/-- What an update leaves as it is can be read off the rows before it. -/
theorem map_update {β : Type*} {g : Replica ι → β} (hg : ∀ r, g (f r) = g r) :
    (reg.update id f).map g = reg.map g := by
  induction reg with
  | nil => rfl
  | cons r rest ih =>
    rw [update]
    split
    · simp [hg]
    · simp [ih]

theorem mem_ids_update (hf : ∀ r : Replica ι, (f r).id = r.id) {j : ι} :
    (∃ x ∈ reg.update id f, x.id = j) ↔ ∃ x ∈ reg, x.id = j := by
  rw [← List.mem_map, map_update (g := Replica.id) hf, List.mem_map]

theorem update_self (reg : Registry ι) (id : ι) : (reg.update id fun r => r) = reg := by
  induction reg with
  | nil => rfl
  | cons r rest ih =>
    rw [update, ih]
    split
    · rfl
    · rfl

theorem update_of_not_mem (h : ∀ x ∈ reg, x.id ≠ id) : reg.update id f = reg := by
  induction reg with
  | nil => rfl
  | cons r rest ih =>
    rw [update, if_neg (h r List.mem_cons_self), ih fun x hx => h x (List.mem_cons_of_mem r hx)]

/-- A restart mark on a replica that is gone does nothing. -/
theorem markRestarting_getD {observedAt : Nat} : (reg.markRestarting id observedAt).getD reg =
    reg.update id fun r => r.restarting observedAt := by
  unfold markRestarting
  split
  · rfl
  · next hnone =>
    refine (update_of_not_mem fun x hx hid => hnone ?_).symm
    exact List.any_eq_true.mpr ⟨x, hx, decide_eq_true hid⟩

theorem mem_of_mem_remove (h : r ∈ reg.remove id) : r ∈ reg := List.mem_of_mem_eraseP h

namespace Distinct

variable (hreg : reg.Distinct)
include hreg

theorem update (hf : ∀ r : Replica ι, (f r).id = r.id) : (reg.update id f).Distinct := by
  rw [Distinct, map_update (g := Replica.id) hf]
  exact hreg

theorem remove : (reg.remove id).Distinct :=
  (List.eraseP_sublist.map Replica.id).nodup hreg

/-- With distinct ids a removal takes the replica out of the registry. -/
theorem id_ne_of_mem_remove (h : r ∈ reg.remove id) : r.id ≠ id := by
  intro hid
  obtain ⟨x, front, back, hno, hx, heq, hrest⟩ :=
    List.exists_of_eraseP (p := fun r : Replica ι => r.id = id) (mem_of_mem_remove h)
      (decide_eq_true hid)
  rw [Registry.remove, hrest] at h
  rw [heq, Distinct, List.map_append, List.map_cons, List.nodup_append, List.nodup_cons] at hreg
  rcases List.mem_append.mp h with hfront | hback
  · exact hno r hfront (decide_eq_true hid)
  · exact hreg.2.1.1 (List.mem_map.mpr ⟨r, hback, hid.trans (of_decide_eq_true hx).symm⟩)

theorem upsert : (reg.upsert r).Distinct :=
  (hreg.remove).add fun _ hx => hreg.id_ne_of_mem_remove hx

theorem remove_eq_filter (id : ι) : reg.remove id = reg.filter fun r => r.id ≠ id := by
  induction reg with
  | nil => rfl
  | cons r rest ih =>
    obtain ⟨hnot, hrest⟩ := List.nodup_cons.mp hreg
    by_cases hid : r.id = id
    · have hother : rest.filter (fun r => r.id ≠ id) = rest := by
        refine List.filter_eq_self.mpr fun x hx => decide_eq_true fun hxid => hnot ?_
        exact List.mem_map.mpr ⟨x, hx, hxid.trans hid.symm⟩
      rw [List.filter_cons_of_neg (by simp [hid]), hother]
      exact List.eraseP_cons_of_pos (p := fun r : Replica ι => r.id = id) (decide_eq_true hid)
    · rw [List.filter_cons_of_pos (by simp [hid]), ← ih hrest]
      exact List.eraseP_cons_of_neg (p := fun r : Replica ι => r.id = id) (by simp [hid])

/-- With distinct ids the first row of an id is the only one. -/
theorem update_eq_map (id : ι) (f : Replica ι → Replica ι) :
    reg.update id f = reg.map fun x => if x.id = id then f x else x := by
  induction reg with
  | nil => rfl
  | cons r rest ih =>
    obtain ⟨hnot, hrest⟩ := List.nodup_cons.mp hreg
    rw [Registry.update, List.map_cons]
    split
    · next hid =>
      have hother : ∀ x ∈ rest, (if x.id = id then f x else x) = x := fun x hx =>
        if_neg fun hxid => hnot (List.mem_map.mpr ⟨x, hx, hxid.trans hid.symm⟩)
      rw [List.map_congr_left hother, List.map_id']
    · rw [ih hrest]

/-- With distinct ids an update writes to the replica's row and to no other. -/
theorem forall_mem_update {P : Replica ι → Prop} (hother : ∀ x ∈ reg, x.id ≠ id → P x)
    (hself : ∀ x ∈ reg, x.id = id → P (f x)) : ∀ x ∈ reg.update id f, P x := by
  induction reg with
  | nil => simp [Registry.update]
  | cons r rest ih =>
    obtain ⟨hnot, hrest⟩ := List.nodup_cons.mp hreg
    intro x hx
    rw [Registry.update] at hx
    split at hx
    · next hid =>
      rcases List.mem_cons.mp hx with rfl | hx
      · exact hself r List.mem_cons_self hid
      · refine hother x (List.mem_cons_of_mem r hx) fun hxid => hnot ?_
        exact List.mem_map.mpr ⟨x, hx, hxid.trans hid.symm⟩
    · next hid =>
      rcases List.mem_cons.mp hx with rfl | hx
      · exact hother _ List.mem_cons_self hid
      · exact ih hrest (fun y hy => hother y (List.mem_cons_of_mem r hy))
          (fun y hy => hself y (List.mem_cons_of_mem r hy)) x hx

end Distinct

end Rows

/-! ## How many rows a spec has -/

section Held

variable {reg : Registry ι} {id : ι} {f : Replica ι → Replica ι} {r : Replica ι} {spec : Str}

theorem held_update (hf : ∀ r : Replica ι, (f r).specId = r.specId) :
    (reg.update id f).held spec = reg.held spec := by
  have hcount : ∀ reg : Registry ι, reg.held spec =
      (reg.map Replica.specId).countP fun s => s = spec := by
    intro reg
    rw [held, replicasOf, List.countP_map, List.countP_eq_length_filter]
    rfl
  rw [hcount, hcount, map_update (g := Replica.specId) hf]

theorem held_remove_le : (reg.remove id).held spec ≤ reg.held spec :=
  (List.eraseP_sublist.filter _).length_le

/-- Taking a row of the spec away makes room. -/
theorem held_remove_of_mem (hr : r ∈ reg) (hspec : ∀ x ∈ reg, x.id = r.id → x.specId = spec) :
    (reg.remove r.id).held spec + 1 = reg.held spec := by
  obtain ⟨x, front, back, -, hx, heq, hrest⟩ :=
    List.exists_of_eraseP (p := fun x : Replica ι => x.id = r.id) hr (decide_eq_true rfl)
  have hxmem : x ∈ reg := heq ▸ List.mem_append_right _ List.mem_cons_self
  have hxspec : x.specId = spec := hspec x hxmem (of_decide_eq_true hx)
  rw [held, held, remove, hrest, heq]
  simp only [replicasOf, List.filter_append, List.filter_cons, hxspec, decide_true, if_true,
    List.length_append, List.length_cons]
  omega

theorem remove_of_not_mem (h : ∀ x ∈ reg, x.id ≠ id) : reg.remove id = reg :=
  List.eraseP_of_forall_not fun x hx => by simpa using h x hx

/-- A replica that comes back takes its row again, or one more. -/
theorem held_upsert_le {max : Nat} (hmax : reg.held spec ≤ max)
    (hroom : (∀ x ∈ reg, x.specId = spec → x.id ≠ r.id) → reg.held spec < max)
    (hspec : ∀ x ∈ reg, x.id = r.id → x.specId = r.specId) (hr : r.specId = spec) :
    (reg.upsert r).held spec ≤ max := by
  rw [upsert, held_add, if_pos hr]
  by_cases hmem : ∃ x ∈ reg, x.id = r.id
  · obtain ⟨x, hx, hid⟩ := hmem
    have hremoved := held_remove_of_mem hx fun y hy hyid =>
      (hspec y hy (hyid.trans hid)).trans hr
    rw [hid] at hremoved
    omega
  · have hno : ∀ x ∈ reg, x.id ≠ r.id := fun x hx hid => hmem ⟨x, hx, hid⟩
    rw [remove_of_not_mem hno]
    exact hroom fun x hx _ => hno x hx

end Held

end Registry

end Ruscker
