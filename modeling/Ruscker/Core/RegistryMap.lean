import Mathlib.Data.Set.Card
import Ruscker.Core.Registry
import Ruscker.Lib.Machine
import Ruscker.Lib.Table

/-!
# The registry as a map of vectors

`ReplicaRegistry` keeps one vector for each spec.  A write to a replica scans the vectors in the
order the map yields them, which may be any, and stops at the first that has the id.  A removal
leaves an empty vector behind, and `spec_count` counts it.
-/

namespace Ruscker

open Tables Machines Machines.Machine

/-- `by_spec`. -/
abbrev ReplicaRegistry (ι : Type*) := Table Str (List (Replica ι))

namespace ReplicaRegistry

variable {ι : Type*}

def replicasOf (reg : ReplicaRegistry ι) (spec : Str) : List (Replica ι) :=
  (reg.lookup spec).getD []

def add (reg : ReplicaRegistry ι) (r : Replica ι) : ReplicaRegistry ι :=
  reg.insert r.specId (reg.replicasOf r.specId ++ [r])

def reset (replicas : List (Replica ι)) : ReplicaRegistry ι := replicas.foldl add ∅

def specCount (reg : ReplicaRegistry ι) : Nat := reg.keys.length

def setSessionCounts (reg : ReplicaRegistry ι) (counts : ι → Nat) : ReplicaRegistry ι :=
  reg.mapRows fun _ replicas => Registry.setSessionCounts replicas counts

section Scan

variable [DecidableEq ι]

/-- The first spec, in the order of the map, with the replica. -/
def holder (reg : ReplicaRegistry ι) (order : List Str) (id : ι) : Option Str :=
  order.find? fun spec => (reg.replicasOf spec).any fun r => r.id = id

/-- A write to the vector that has the replica. -/
def edit (reg : ReplicaRegistry ι) (order : List Str) (id : ι)
    (f : List (Replica ι) → List (Replica ι)) : ReplicaRegistry ι :=
  match reg.holder order id with
  | some spec => reg.update spec f
  | none => reg

def remove (reg : ReplicaRegistry ι) (order : List Str) (id : ι) : ReplicaRegistry ι :=
  reg.edit order id fun replicas => Registry.remove replicas id

def upsert (reg : ReplicaRegistry ι) (order : List Str) (r : Replica ι) : ReplicaRegistry ι :=
  (reg.remove order r.id).add r

/-- `find_mut` and a write to the row it finds. -/
def modify (reg : ReplicaRegistry ι) (order : List Str) (id : ι) (f : Replica ι → Replica ι) :
    ReplicaRegistry ι :=
  reg.edit order id fun replicas => Registry.update replicas id f

def markRestarting (reg : ReplicaRegistry ι) (order : List Str) (id : ι) (observedAt : Nat) :
    ReplicaRegistry ι × Bool :=
  (reg.modify order id fun r => r.restarting observedAt, (reg.holder order id).isSome)

def incSessions (reg : ReplicaRegistry ι) (order : List Str) (id : ι) : ReplicaRegistry ι :=
  reg.modify order id Replica.inc

def decSessions (reg : ReplicaRegistry ι) (order : List Str) (id : ι) : ReplicaRegistry ι :=
  reg.modify order id Replica.dec

def setSessionCount (reg : ReplicaRegistry ι) (order : List Str) (id : ι) (n : Nat) :
    ReplicaRegistry ι :=
  reg.modify order id fun r => { r with sessionsActive := n }

end Scan

/-! ## Operations one after the other -/

/-- An operation, with the order in which the map yields its vectors to it. -/
inductive Op (ι : Type*) where
  | add (r : Replica ι)
  | remove (order : List Str) (id : ι)
  | upsert (order : List Str) (r : Replica ι)
  | markRestarting (order : List Str) (id : ι) (observedAt : Nat)
  | reset (replicas : List (Replica ι))
  | incSessions (order : List Str) (id : ι)
  | decSessions (order : List Str) (id : ι)
  | setSessionCount (order : List Str) (id : ι) (n : Nat)
  | setSessionCounts (counts : ι → Nat)

/-- The map yields each of its vectors once. -/
def Op.order : Op ι → Option (List Str)
  | .remove order _ | .upsert order _ | .markRestarting order _ _ | .incSessions order _
  | .decSessions order _ | .setSessionCount order _ _ => some order
  | .add _ | .reset _ | .setSessionCounts _ => none

section Machine

variable [DecidableEq ι]

/-- What callers see to: a replica that is added is new, and a reset brings distinct ones. -/
def admits (reg : ReplicaRegistry ι) : Op ι → Bool
  | .add r => reg.entries.all fun e => e.2.all fun x => x.id ≠ r.id
  | .reset replicas => decide (replicas.map Replica.id).Nodup
  | op => op.order.all fun order => order.isPerm reg.keys

def apply (reg : ReplicaRegistry ι) : Op ι → ReplicaRegistry ι
  | .add r => reg.add r
  | .remove order id => reg.remove order id
  | .upsert order r => reg.upsert order r
  | .markRestarting order id observedAt => (reg.markRestarting order id observedAt).1
  | .reset replicas => reset replicas
  | .incSessions order id => reg.incSessions order id
  | .decSessions order id => reg.decSessions order id
  | .setSessionCount order id n => reg.setSessionCount order id n
  | .setSessionCounts counts => reg.setSessionCounts counts

def machine : Machine (ReplicaRegistry ι) (Op ι) where
  step reg op := if reg.admits op then some (reg.apply op) else none

end Machine

/-! ## What a registry should be -/

/-- No id occurs twice, neither in one vector nor in two. -/
structure Distinct (reg : ReplicaRegistry ι) : Prop where
  once : ∀ spec, ((reg.replicasOf spec).map Replica.id).Nodup
  nowhere_else : ∀ spec spec', ∀ r ∈ reg.replicasOf spec, ∀ r' ∈ reg.replicasOf spec',
    r.id = r'.id → spec = spec'

/-- The specs with a replica are counted. -/
def CountsSpecs (reg : ReplicaRegistry ι) : Prop :=
  reg.specCount = Set.ncard {spec | reg.replicasOf spec ≠ []}

/-- No vector is empty. -/
def Tidy (reg : ReplicaRegistry ι) : Prop := ∀ spec ∈ reg.keys, reg.replicasOf spec ≠ []

section Views

variable {reg : ReplicaRegistry ι} {spec : Str} {r : Replica ι}

theorem mem_keys_of_replicasOf_ne_nil (h : reg.replicasOf spec ≠ []) : spec ∈ reg.keys := by
  rw [← AList.mem_keys, ← AList.lookup_isSome]
  cases hlookup : reg.lookup spec with
  | none =>
    rw [replicasOf, hlookup] at h
    exact absurd rfl h
  | some replicas => rfl

theorem mem_keys_of_map_id {id : ι}
    (h : (reg.replicasOf spec).map Replica.id = [id]) : spec ∈ reg.keys := by
  refine mem_keys_of_replicasOf_ne_nil fun hnil => ?_
  rw [hnil] at h
  cases h

theorem replicasOf_add : (reg.add r).replicasOf spec =
    if spec = r.specId then reg.replicasOf spec ++ [r] else reg.replicasOf spec := by
  rw [replicasOf, add, Table.lookup_insert_eq]
  split
  · next h =>
    subst h
    rfl
  · rfl

theorem mem_keys_add : spec ∈ (reg.add r).keys ↔ spec = r.specId ∨ spec ∈ reg.keys := by
  rw [← AList.mem_keys, ← AList.mem_keys, add, AList.mem_insert]

/-- The count is right just when no vector is empty. -/
theorem countsSpecs_iff : reg.CountsSpecs ↔ reg.Tidy := by
  have hcard : Set.ncard {spec | reg.replicasOf spec ≠ []} =
      (reg.keys.filter fun spec => !(reg.replicasOf spec).isEmpty).length := by
    rw [← List.toFinset_card_of_nodup (reg.keys_nodup.filter _), ← Set.ncard_coe_finset]
    congr 1
    ext spec
    simp only [Set.mem_ofPred_eq, List.coe_toFinset, List.mem_filter, Bool.not_eq_true',
      List.isEmpty_eq_false_iff]
    exact (and_iff_right_of_imp mem_keys_of_replicasOf_ne_nil).symm
  rw [CountsSpecs, hcard, specCount, eq_comm, List.length_filter_eq_length_iff, Tidy]
  simp

theorem replicasOf_setSessionCounts (counts : ι → Nat) :
    (reg.setSessionCounts counts).replicasOf spec =
      Registry.setSessionCounts (reg.replicasOf spec) counts := by
  rw [replicasOf, setSessionCounts, Table.lookup_mapRows, replicasOf]
  cases reg.lookup spec with
  | none => rfl
  | some replicas => rfl

/-- A reset groups the replicas by their specs. -/
theorem replicasOf_reset (replicas : List (Replica ι)) :
    (reset replicas).replicasOf spec = Registry.replicasOf replicas spec := by
  have hfold : ∀ reg : ReplicaRegistry ι, (replicas.foldl add reg).replicasOf spec =
      reg.replicasOf spec ++ Registry.replicasOf replicas spec := by
    induction replicas with
    | nil => exact fun reg => (List.append_nil _).symm
    | cons r rest ih =>
      intro reg
      rw [List.foldl_cons, ih, replicasOf_add]
      by_cases h : r.specId = spec
      · simp [h, Registry.replicasOf]
      · simp [h, Ne.symm h, Registry.replicasOf]
  exact hfold ∅

/-! ### Distinct ids -/

theorem distinct_empty : (∅ : ReplicaRegistry ι).Distinct where
  once _ := List.nodup_nil
  nowhere_else _ _ _ hr := absurd hr List.not_mem_nil

/-- A registry with the ids of another, or fewer. -/
theorem Distinct.mono {reg' : ReplicaRegistry ι} (hreg : reg.Distinct)
    (hids : ∀ spec, ((reg'.replicasOf spec).map Replica.id).Sublist
      ((reg.replicasOf spec).map Replica.id)) : reg'.Distinct where
  once spec := (hids spec).nodup (hreg.once spec)
  nowhere_else spec spec' r hr r' hr' hid := by
    obtain ⟨x, hx, hxid⟩ := List.mem_map.mp ((hids spec).mem (List.mem_map_of_mem hr))
    obtain ⟨x', hx', hxid'⟩ := List.mem_map.mp ((hids spec').mem (List.mem_map_of_mem hr'))
    exact hreg.nowhere_else spec spec' x hx x' hx' (hxid.trans (hid.trans hxid'.symm))

theorem mem_replicasOf_add {x : Replica ι} :
    x ∈ (reg.add r).replicasOf spec ↔ x ∈ reg.replicasOf spec ∨ spec = r.specId ∧ x = r := by
  rw [replicasOf_add]
  split
  · next h => simp [h]
  · next h => simp [h]

/-- A new replica takes a new id. -/
theorem Distinct.add (hreg : reg.Distinct)
    (hnew : ∀ spec, ∀ x ∈ reg.replicasOf spec, x.id ≠ r.id) :
    (reg.add r).Distinct where
  once spec := by
    rw [replicasOf_add]
    split
    · exact Registry.Distinct.add (hreg.once spec) (hnew spec)
    · exact hreg.once spec
  nowhere_else spec spec' x hx x' hx' hid := by
    rcases mem_replicasOf_add.mp hx with hold | ⟨rfl, rfl⟩
    · rcases mem_replicasOf_add.mp hx' with hold' | ⟨rfl, rfl⟩
      · exact hreg.nowhere_else spec spec' x hold x' hold' hid
      · exact absurd hid (hnew spec x hold)
    · rcases mem_replicasOf_add.mp hx' with hold' | ⟨rfl, -⟩
      · exact absurd hid.symm (hnew spec' x' hold')
      · rfl

theorem Distinct.setSessionCounts {counts : ι → Nat} (hreg : reg.Distinct) :
    (reg.setSessionCounts counts).Distinct := by
  refine hreg.mono fun spec => ?_
  rw [replicasOf_setSessionCounts, Registry.setSessionCounts, List.map_map]
  exact List.Sublist.refl _

theorem distinct_reset {replicas : List (Replica ι)} (h : (replicas.map Replica.id).Nodup) :
    (reset replicas).Distinct where
  once spec := by
    rw [replicasOf_reset]
    exact (List.filter_sublist.map Replica.id).nodup h
  nowhere_else spec spec' r hr r' hr' hid := by
    rw [replicasOf_reset] at hr hr'
    obtain ⟨hr, hspec⟩ := List.mem_filter.mp hr
    obtain ⟨hr', hspec'⟩ := List.mem_filter.mp hr'
    rw [decide_eq_true_eq] at hspec hspec'
    rw [← hspec, ← hspec', List.inj_on_of_nodup_map h hr hr' hid]

/-! ### Empty vectors -/

theorem Tidy.add {r : Replica ι} (hreg : reg.Tidy) : (reg.add r).Tidy := by
  intro spec hspec
  rw [replicasOf_add]
  split
  · exact List.append_ne_nil_of_right_ne_nil _ (List.cons_ne_nil r [])
  · next hne =>
    rcases mem_keys_add.mp hspec with heq | hold
    · exact absurd heq hne
    · exact hreg spec hold

theorem tidy_reset (replicas : List (Replica ι)) : (reset replicas).Tidy := by
  have hfold : ∀ reg : ReplicaRegistry ι, reg.Tidy → (replicas.foldl add reg).Tidy := by
    induction replicas with
    | nil => exact fun reg hreg => hreg
    | cons r rest ih => exact fun reg hreg => ih _ hreg.add
  exact hfold ∅ fun spec hspec => absurd hspec List.not_mem_nil

theorem Tidy.setSessionCounts {counts : ι → Nat} (hreg : reg.Tidy) :
    (reg.setSessionCounts counts).Tidy := by
  intro spec hspec
  rw [ReplicaRegistry.setSessionCounts, Table.keys_mapRows] at hspec
  rw [replicasOf_setSessionCounts, Registry.setSessionCounts, Ne, List.map_eq_nil_iff]
  exact hreg spec hspec

end Views

/-! ## Scans -/

section Scan

variable [DecidableEq ι] {reg : ReplicaRegistry ι} {order : List Str} {id : ι} {spec : Str}
  {r : Replica ι} {f : List (Replica ι) → List (Replica ι)}

theorem some_of_holder (h : reg.holder order id = some spec) :
    ∃ r ∈ reg.replicasOf spec, r.id = id := by
  obtain ⟨r, hr, hid⟩ := List.any_eq_true.mp
    (List.find?_some (p := fun spec => (reg.replicasOf spec).any fun r => r.id = id) h)
  exact ⟨r, hr, of_decide_eq_true hid⟩

/-- A scan over all vectors misses no replica. -/
theorem id_ne_of_holder (hperm : order.Perm reg.keys) (h : reg.holder order id = none)
    (hr : r ∈ reg.replicasOf spec) : r.id ≠ id := by
  intro hid
  have hspec : spec ∈ order :=
    hperm.mem_iff.mpr (mem_keys_of_replicasOf_ne_nil (List.ne_nil_of_mem hr))
  exact List.find?_eq_none.mp h spec hspec (List.any_eq_true.mpr ⟨r, hr, decide_eq_true hid⟩)

theorem keys_edit : (reg.edit order id f).keys = reg.keys := by
  rw [edit]
  split
  · exact Table.keys_mapRows reg _
  · rfl

/-- In every order a write finds the vector it is meant for. -/
theorem replicasOf_edit (hreg : reg.Distinct) (hperm : order.Perm reg.keys)
    (hf : ∀ replicas, (∀ r ∈ replicas, r.id ≠ id) → f replicas = replicas) (spec : Str) :
    (reg.edit order id f).replicasOf spec = f (reg.replicasOf spec) := by
  rw [edit]
  cases hholder : reg.holder order id with
  | none => exact (hf _ fun r hr => id_ne_of_holder hperm hholder hr).symm
  | some found =>
    obtain ⟨r, hr, hid⟩ := some_of_holder hholder
    rw [replicasOf, Table.lookup_update]
    split
    · next heq =>
      subst heq
      rw [replicasOf] at hr ⊢
      cases hlookup : reg.lookup spec with
      | none =>
        rw [hlookup] at hr
        cases hr
      | some replicas => rfl
    · next hne =>
      refine (hf _ fun x hx hxid => hne ?_).symm
      exact hreg.nowhere_else spec found x hx r hr (hxid.trans hid.symm)

theorem replicasOf_remove (hreg : reg.Distinct) (hperm : order.Perm reg.keys) :
    (reg.remove order id).replicasOf spec = (reg.replicasOf spec).filter fun r => r.id ≠ id := by
  rw [remove, replicasOf_edit hreg hperm fun _ => Registry.remove_of_not_mem]
  exact Registry.Distinct.remove_eq_filter (hreg.once spec) id

theorem replicasOf_modify (hreg : reg.Distinct) (hperm : order.Perm reg.keys)
    (f : Replica ι → Replica ι) : (reg.modify order id f).replicasOf spec =
      (reg.replicasOf spec).map fun r => if r.id = id then f r else r := by
  rw [modify, replicasOf_edit hreg hperm]
  · exact Registry.Distinct.update_eq_map (hreg.once spec) id f
  · exact fun _ => Registry.update_of_not_mem

/-! ### Ids stay distinct -/

theorem Distinct.remove (hreg : reg.Distinct) (hperm : order.Perm reg.keys) :
    (reg.remove order id).Distinct := by
  refine hreg.mono fun spec => ?_
  rw [replicasOf_remove hreg hperm]
  exact List.filter_sublist.map Replica.id

theorem Distinct.modify (hreg : reg.Distinct) (hperm : order.Perm reg.keys)
    {f : Replica ι → Replica ι} (hf : ∀ r, (f r).id = r.id) :
    (reg.modify order id f).Distinct := by
  refine hreg.mono fun spec => ?_
  rw [replicasOf_modify hreg hperm, List.map_map]
  have hids : (Replica.id ∘ fun r => if r.id = id then f r else r) = Replica.id := by
    funext r
    rw [Function.comp_apply, apply_ite Replica.id, hf, ite_self]
  rw [hids]

/-- A replica that comes back is where its spec is, and nowhere else. -/
theorem mem_replicasOf_upsert (hreg : reg.Distinct) (hperm : order.Perm reg.keys)
    {x : Replica ι} : x ∈ (reg.upsert order r).replicasOf spec ↔
      x ∈ reg.replicasOf spec ∧ x.id ≠ r.id ∨ spec = r.specId ∧ x = r := by
  rw [upsert, mem_replicasOf_add, replicasOf_remove hreg hperm, List.mem_filter,
    decide_eq_true_eq]

theorem Distinct.upsert (hreg : reg.Distinct) (hperm : order.Perm reg.keys) :
    (reg.upsert order r).Distinct := by
  refine (hreg.remove hperm).add fun spec x hx => ?_
  rw [replicasOf_remove hreg hperm, List.mem_filter, decide_eq_true_eq] at hx
  exact hx.2

end Scan

/-! ## One operation -/

section Step

variable [DecidableEq ι] {reg reg' : ReplicaRegistry ι} {op : Op ι}

/-- The rows of all other replicas stay as they are. -/
def SameBut (id : ι) (reg reg' : ReplicaRegistry ι) : Prop :=
  ∀ spec, ((reg'.replicasOf spec).filter fun r => r.id ≠ id) =
    (reg.replicasOf spec).filter fun r => r.id ≠ id

/-- A write to one replica writes to no other: a removal takes it out, and what comes back has the
row it brings and no other. -/
def Confined (op : Op ι) (reg reg' : ReplicaRegistry ι) : Prop :=
  match op with
  | .remove _ id => SameBut id reg reg' ∧ ∀ spec, ∀ x ∈ reg'.replicasOf spec, x.id ≠ id
  | .upsert _ r => SameBut r.id reg reg' ∧ r ∈ reg'.replicasOf r.specId ∧
      ∀ spec, ∀ x ∈ reg'.replicasOf spec, x.id = r.id → spec = r.specId ∧ x = r
  | .markRestarting _ id _ | .incSessions _ id | .decSessions _ id | .setSessionCount _ id _ =>
    SameBut id reg reg'
  | .add _ | .reset _ | .setSessionCounts _ => True

/-- No vector loses its last replica. -/
def KeepsLast (reg : ReplicaRegistry ι) : Op ι → Prop
  | .remove _ id => ∀ spec, (reg.replicasOf spec).map Replica.id ≠ [id]
  | .upsert _ r => ∀ spec, spec ≠ r.specId → (reg.replicasOf spec).map Replica.id ≠ [r.id]
  | _ => True

theorem step_eq_some (h : machine.step reg op = some reg') :
    reg.admits op = true ∧ reg' = reg.apply op := by
  unfold machine at h
  dsimp only at h
  split at h
  · next hadmits =>
    cases h
    exact ⟨hadmits, rfl⟩
  · cases h

theorem perm_of_admits {order : List Str} (h : reg.admits op = true)
    (horder : op.order = some order) : order.Perm reg.keys := by
  have hall : op.order.all (fun order => order.isPerm reg.keys) = true := by
    cases op with
    | add r => cases horder
    | reset replicas => cases horder
    | _ => exact h
  rw [horder] at hall
  exact List.isPerm_iff.mp hall

theorem new_of_admits {r : Replica ι} (h : reg.admits (.add r) = true) (spec : Str) :
    ∀ x ∈ reg.replicasOf spec, x.id ≠ r.id := by
  intro x hx
  rw [replicasOf] at hx
  cases hlookup : reg.lookup spec with
  | none =>
    rw [hlookup] at hx
    cases hx
  | some replicas =>
    rw [hlookup] at hx
    have hentry : (⟨spec, replicas⟩ : Sigma fun _ : Str => List (Replica ι)) ∈ reg.entries :=
      Table.mem_entries_iff.mpr hlookup
    have hvector := List.all_eq_true.mp (List.all_eq_true.mp h _ hentry) x hx
    exact of_decide_eq_true hvector

/-- **Step lemma.** Ids stay distinct. -/
theorem Distinct.step (hreg : reg.Distinct) (h : machine.step reg op = some reg') :
    reg'.Distinct := by
  obtain ⟨hadmits, rfl⟩ := step_eq_some h
  cases op with
  | add r => exact hreg.add (new_of_admits hadmits)
  | remove order id => exact hreg.remove (perm_of_admits hadmits rfl)
  | upsert order r => exact hreg.upsert (perm_of_admits hadmits rfl)
  | markRestarting order id observedAt =>
    exact hreg.modify (perm_of_admits hadmits rfl) fun _ => rfl
  | reset replicas => exact distinct_reset (of_decide_eq_true hadmits)
  | incSessions order id => exact hreg.modify (perm_of_admits hadmits rfl) fun _ => rfl
  | decSessions order id => exact hreg.modify (perm_of_admits hadmits rfl) fun _ => rfl
  | setSessionCount order id n => exact hreg.modify (perm_of_admits hadmits rfl) fun _ => rfl
  | setSessionCounts counts => exact hreg.setSessionCounts

/-- A write to one row leaves the others. -/
theorem sameBut_modify {order : List Str} {id : ι} {f : Replica ι → Replica ι}
    (hreg : reg.Distinct) (hperm : order.Perm reg.keys) (hf : ∀ r, (f r).id = r.id) :
    SameBut id reg (reg.modify order id f) := by
  intro spec
  have hids (r : Replica ι) : (if r.id = id then f r else r).id = r.id := by
    rw [apply_ite Replica.id, hf, ite_self]
  rw [replicasOf_modify hreg hperm, List.filter_map]
  simp only [Function.comp_def, hids]
  refine (List.map_congr_left fun r hr => if_neg ?_).trans (List.map_id' _)
  exact of_decide_eq_true (List.mem_filter.mp hr).2

theorem sameBut_remove {order : List Str} {id : ι} (hreg : reg.Distinct)
    (hperm : order.Perm reg.keys) : SameBut id reg (reg.remove order id) := by
  intro spec
  rw [replicasOf_remove hreg hperm, List.filter_filter]
  simp

theorem sameBut_upsert {order : List Str} {r : Replica ι} (hreg : reg.Distinct)
    (hperm : order.Perm reg.keys) : SameBut r.id reg (reg.upsert order r) := by
  intro spec
  rw [upsert, replicasOf_add]
  split
  · rw [List.filter_append, sameBut_remove hreg hperm]
    simp
  · exact sameBut_remove hreg hperm spec

theorem confined_of_step (hreg : reg.Distinct) (h : machine.step reg op = some reg') :
    Confined op reg reg' := by
  obtain ⟨hadmits, rfl⟩ := step_eq_some h
  cases op with
  | remove order id =>
    have hperm := perm_of_admits hadmits rfl
    refine ⟨sameBut_remove hreg hperm, fun spec x hx => ?_⟩
    rw [apply, replicasOf_remove hreg hperm, List.mem_filter, decide_eq_true_eq] at hx
    exact hx.2
  | upsert order r =>
    have hperm := perm_of_admits hadmits rfl
    refine ⟨sameBut_upsert hreg hperm, ?_, fun spec x hx hid => ?_⟩
    · exact (mem_replicasOf_upsert hreg hperm).mpr (.inr ⟨rfl, rfl⟩)
    · rcases (mem_replicasOf_upsert hreg hperm).mp hx with ⟨-, hne⟩ | hself
      · exact absurd hid hne
      · exact hself
  | markRestarting order id observedAt =>
    exact sameBut_modify hreg (perm_of_admits hadmits rfl) fun _ => rfl
  | incSessions order id => exact sameBut_modify hreg (perm_of_admits hadmits rfl) fun _ => rfl
  | decSessions order id => exact sameBut_modify hreg (perm_of_admits hadmits rfl) fun _ => rfl
  | setSessionCount order id n =>
    exact sameBut_modify hreg (perm_of_admits hadmits rfl) fun _ => rfl
  | _ => trivial

/-! ### The last replica of a spec -/

/-- A vector is empty after a removal when the replica was all it had. -/
theorem filter_ne_eq_nil_iff {replicas : List (Replica ι)} {id : ι}
    (hnodup : (replicas.map Replica.id).Nodup) (hne : replicas ≠ []) :
    (replicas.filter fun r => r.id ≠ id) = [] ↔ replicas.map Replica.id = [id] := by
  rw [List.filter_eq_nil_iff]
  constructor
  · intro h
    have hall : ∀ j ∈ replicas.map Replica.id, j = id := by
      intro j hj
      obtain ⟨r, hr, rfl⟩ := List.mem_map.mp hj
      simpa using h r hr
    obtain ⟨r, rest, rfl⟩ := List.exists_cons_of_ne_nil hne
    obtain ⟨hnot, -⟩ := List.nodup_cons.mp hnodup
    have hid : r.id = id := hall r.id List.mem_cons_self
    have hrest : rest = [] := by
      refine List.eq_nil_iff_forall_not_mem.mpr fun x hx => hnot ?_
      rw [hid, ← hall x.id (List.mem_cons_of_mem _ (List.mem_map_of_mem hx))]
      exact List.mem_map_of_mem hx
    rw [hrest, List.map_singleton, hid]
  · intro h r hr
    have hid : r.id ∈ replicas.map Replica.id := List.mem_map_of_mem hr
    rw [h, List.mem_singleton] at hid
    simp [hid]

theorem Tidy.modify {order : List Str} {id : ι} {f : Replica ι → Replica ι} (hreg : reg.Tidy)
    (hdistinct : reg.Distinct) (hperm : order.Perm reg.keys) : (reg.modify order id f).Tidy := by
  intro spec hspec
  rw [ReplicaRegistry.modify, keys_edit] at hspec
  rw [replicasOf_modify hdistinct hperm, Ne, List.map_eq_nil_iff]
  exact hreg spec hspec

/-- The vectors a removal empties are those that had the replica and no other. -/
theorem replicasOf_remove_eq_nil {order : List Str} {id : ι} {spec : Str} (hreg : reg.Tidy)
    (hdistinct : reg.Distinct) (hperm : order.Perm reg.keys) (hspec : spec ∈ reg.keys) :
    (reg.remove order id).replicasOf spec = [] ↔ (reg.replicasOf spec).map Replica.id = [id] := by
  rw [replicasOf_remove hdistinct hperm]
  exact filter_ne_eq_nil_iff (hdistinct.once spec) (hreg spec hspec)

theorem Tidy.remove_iff {order : List Str} {id : ι} (hreg : reg.Tidy) (hdistinct : reg.Distinct)
    (hperm : order.Perm reg.keys) :
    (reg.remove order id).Tidy ↔ ∀ spec, (reg.replicasOf spec).map Replica.id ≠ [id] := by
  rw [Tidy, ReplicaRegistry.remove, keys_edit]
  constructor
  · intro h spec hid
    have hspec := mem_keys_of_map_id hid
    exact h spec hspec ((replicasOf_remove_eq_nil hreg hdistinct hperm hspec).mpr hid)
  · intro h spec hspec hnil
    exact h spec ((replicasOf_remove_eq_nil hreg hdistinct hperm hspec).mp hnil)

/-- The spec of the replica itself has it back. -/
theorem Tidy.upsert_iff {order : List Str} {r : Replica ι} (hreg : reg.Tidy)
    (hdistinct : reg.Distinct) (hperm : order.Perm reg.keys) :
    (reg.upsert order r).Tidy ↔
      ∀ spec, spec ≠ r.specId → (reg.replicasOf spec).map Replica.id ≠ [r.id] := by
  have hkeys {spec : Str} :
      spec ∈ (reg.upsert order r).keys ↔ spec = r.specId ∨ spec ∈ reg.keys := by
    rw [upsert, mem_keys_add, ReplicaRegistry.remove, keys_edit]
  have hother {spec : Str} (hne : spec ≠ r.specId) :
      (reg.upsert order r).replicasOf spec = (reg.remove order r.id).replicasOf spec := by
    rw [upsert, replicasOf_add, if_neg hne]
  constructor
  · intro h spec hne hid
    have hspec := mem_keys_of_map_id hid
    refine h spec (hkeys.mpr (.inr hspec)) ((hother hne).trans ?_)
    exact (replicasOf_remove_eq_nil hreg hdistinct hperm hspec).mpr hid
  · intro h spec hspec
    by_cases hself : spec = r.specId
    · rw [hself]
      exact List.ne_nil_of_mem ((mem_replicasOf_upsert hdistinct hperm).mpr (.inr ⟨rfl, rfl⟩))
    · have hspec := (hkeys.mp hspec).resolve_left hself
      rw [hother hself, Ne, replicasOf_remove_eq_nil hreg hdistinct hperm hspec]
      exact h spec hself

/-- **Step lemma.** No vector becomes empty just when none loses its last replica. -/
theorem Tidy.step_iff (hreg : reg.Tidy) (hdistinct : reg.Distinct)
    (h : machine.step reg op = some reg') : reg'.Tidy ↔ reg.KeepsLast op := by
  obtain ⟨hadmits, rfl⟩ := step_eq_some h
  cases op with
  | add r => exact iff_of_true hreg.add trivial
  | remove order id => exact hreg.remove_iff hdistinct (perm_of_admits hadmits rfl)
  | upsert order r => exact hreg.upsert_iff hdistinct (perm_of_admits hadmits rfl)
  | reset replicas => exact iff_of_true (tidy_reset replicas) trivial
  | setSessionCounts counts => exact iff_of_true hreg.setSessionCounts trivial
  | _ => exact iff_of_true (hreg.modify hdistinct (perm_of_admits hadmits rfl)) trivial

end Step

/-! ## Runs -/

section Runs

variable [DecidableEq ι] {t : ReplicaRegistry ι} {ops : List (Op ι)}

/-- Ids are distinct, a write to one replica writes to no other, and the specs with a replica are
counted. -/
structure Proper (reg : ReplicaRegistry ι) : Prop where
  distinct : reg.Distinct
  confined : ∀ op reg', machine.step reg op = some reg' → Confined op reg reg'
  counts : reg.CountsSpecs

/-- **Every run.** All registries of a run are proper just when no operation takes the last
replica of a spec away. -/
theorem proper_iff_keepsLast (hexec : machine.exec ∅ ops = some t) :
    (∀ ops' reg, ops' <+: ops → machine.exec ∅ ops' = some reg → reg.Proper) ↔
      machine.Run KeepsLast ∅ ops t := by
  refine forall_prefix_iff_run (I := fun reg => reg.Distinct ∧ reg.Tidy) ?_ ?_ ?_ ?_ hexec
  · exact ⟨distinct_empty, fun spec hspec => absurd hspec List.not_mem_nil⟩
  · rintro reg ⟨hdistinct, htidy⟩
    exact ⟨hdistinct, fun op reg' => confined_of_step hdistinct, countsSpecs_iff.mpr htidy⟩
  · rintro reg op reg' ⟨hdistinct, htidy⟩ hkeeps hstep
    exact ⟨hdistinct.step hstep, (htidy.step_iff hdistinct hstep).mpr hkeeps⟩
  · rintro reg op reg' ⟨hdistinct, htidy⟩ hloses hstep hproper
    exact hloses ((htidy.step_iff hdistinct hstep).mp (countsSpecs_iff.mp hproper.counts))

/-- A replica of the one spec there is. -/
def soleSpecReplica (id : Nat) : Replica Nat := ⟨id, ['a'], .ready, 0, 0, 1⟩

/-- One of two replicas goes. -/
def oneOfTwo : List (Op Nat) :=
  [.add (soleSpecReplica 0), .add (soleSpecReplica 1), .remove [['a']] 0]

theorem proper_oneOfTwo : ∃ reg, machine.exec ∅ oneOfTwo = some reg ∧ reg.Proper := by
  have hkeeps : KeepsLast (((∅ : ReplicaRegistry Nat).add (soleSpecReplica 0)).add
      (soleSpecReplica 1)) (.remove [['a']] 0) := by
    intro spec hid
    obtain rfl : spec = ['a'] := List.mem_singleton.mp (mem_keys_of_map_id hid)
    revert hid
    decide
  have hrun : machine.Run KeepsLast ∅ oneOfTwo _ :=
    .cons trivial rfl (.cons trivial rfl (.cons hkeeps rfl (.nil _)))
  exact ⟨_, rfl, (proper_iff_keepsLast rfl).mpr hrun oneOfTwo _ (List.prefix_refl _) rfl⟩

/-- The spec of a replica that was added and removed is counted. -/
theorem removed_spec_is_counted : ∃ reg,
    machine.exec ∅ [.add (soleSpecReplica 0), .remove [['a']] 0] = some reg ∧
      reg.specCount = 1 ∧ (∀ spec, reg.replicasOf spec = []) ∧ ¬ reg.CountsSpecs := by
  refine ⟨_, rfl, rfl, fun spec => ?_, fun hcounts => ?_⟩
  · by_contra hne
    obtain rfl : spec = ['a'] := List.mem_singleton.mp (mem_keys_of_replicasOf_ne_nil hne)
    exact hne rfl
  · exact countsSpecs_iff.mp hcounts ['a'] (List.mem_singleton_self _) rfl

end Runs

/-! ## The flat registry -/

section Flat

/-- The list has the rows of every vector in their order. -/
structure Flattens (reg : ReplicaRegistry ι) (rows : Registry ι) : Prop where
  distinct : reg.Distinct
  rows_distinct : rows.Distinct
  view : ∀ spec, reg.replicasOf spec = rows.replicasOf spec

section Rows

variable {reg : ReplicaRegistry ι} {rows : Registry ι}

theorem Flattens.add {r : Replica ι} (h : Flattens reg rows)
    (hnew : ∀ spec, ∀ x ∈ reg.replicasOf spec, x.id ≠ r.id) :
    Flattens (reg.add r) (Registry.add rows r) where
  distinct := h.distinct.add hnew
  rows_distinct := h.rows_distinct.add fun x hx => hnew x.specId x <| by
    rw [h.view]
    exact List.mem_filter.mpr ⟨hx, decide_eq_true rfl⟩
  view spec := by
    rw [replicasOf_add, h.view]
    by_cases hspec : r.specId = spec
    · simp [Registry.add, Registry.replicasOf, hspec]
    · simp [Registry.add, Registry.replicasOf, hspec, Ne.symm hspec]

theorem Flattens.setSessionCounts {counts : ι → Nat} (h : Flattens reg rows) :
    Flattens (reg.setSessionCounts counts) (Registry.setSessionCounts rows counts) where
  distinct := h.distinct.setSessionCounts
  rows_distinct := by
    rw [Registry.Distinct, Registry.setSessionCounts, List.map_map]
    exact h.rows_distinct
  view spec := by
    rw [replicasOf_setSessionCounts, h.view, Registry.replicasOf, Registry.replicasOf,
      Registry.setSessionCounts, Registry.setSessionCounts, List.filter_map]
    rfl

end Rows

variable [DecidableEq ι]

/-- The operations on the list of all rows. -/
def applyFlat (rows : Registry ι) : Op ι → Registry ι
  | .add r => rows.add r
  | .remove _ id => rows.remove id
  | .upsert _ r => rows.upsert r
  | .markRestarting _ id observedAt => (rows.markRestarting id observedAt).getD rows
  | .reset replicas => replicas
  | .incSessions _ id => rows.incSessions id
  | .decSessions _ id => rows.decSessions id
  | .setSessionCount _ id n => rows.setSessionCount id n
  | .setSessionCounts counts => rows.setSessionCounts counts

variable {reg reg' : ReplicaRegistry ι} {rows : Registry ι} {op : Op ι} {id : ι} {spec : Str}

theorem replicasOf_flat_remove (hrows : rows.Distinct) :
    (Registry.remove rows id).replicasOf spec =
      (rows.replicasOf spec).filter fun r => r.id ≠ id := by
  rw [hrows.remove_eq_filter, Registry.replicasOf, Registry.replicasOf, List.filter_filter,
    List.filter_filter]
  exact List.filter_congr fun r _ => Bool.and_comm _ _

theorem replicasOf_flat_update {f : Replica ι → Replica ι} (hrows : rows.Distinct)
    (hf : ∀ r, (f r).specId = r.specId) : (Registry.update rows id f).replicasOf spec =
      (rows.replicasOf spec).map fun r => if r.id = id then f r else r := by
  have hspec (r : Replica ι) : (if r.id = id then f r else r).specId = r.specId := by
    rw [apply_ite Replica.specId, hf, ite_self]
  rw [hrows.update_eq_map, Registry.replicasOf, List.filter_map]
  simp only [Function.comp_def, hspec]
  rfl

theorem Flattens.modify {order : List Str} {f : Replica ι → Replica ι} (h : Flattens reg rows)
    (hperm : order.Perm reg.keys) (hid : ∀ r, (f r).id = r.id)
    (hspec : ∀ r, (f r).specId = r.specId) :
    Flattens (reg.modify order id f) (Registry.update rows id f) where
  distinct := h.distinct.modify hperm hid
  rows_distinct := h.rows_distinct.update hid
  view spec := by
    rw [replicasOf_modify h.distinct hperm, replicasOf_flat_update h.rows_distinct hspec, h.view]

theorem Flattens.remove {order : List Str} (h : Flattens reg rows) (hperm : order.Perm reg.keys) :
    Flattens (reg.remove order id) (Registry.remove rows id) where
  distinct := h.distinct.remove hperm
  rows_distinct := h.rows_distinct.remove
  view spec := by
    rw [replicasOf_remove h.distinct hperm, replicasOf_flat_remove h.rows_distinct, h.view]

/-- **Refinement.** A run of the map is a run of the flat list, with the same rows for each spec. -/
theorem Flattens.step (h : Flattens reg rows) (hstep : machine.step reg op = some reg') :
    Flattens reg' (applyFlat rows op) := by
  obtain ⟨hadmits, rfl⟩ := step_eq_some hstep
  cases op with
  | add r => exact h.add (new_of_admits hadmits)
  | remove order id => exact h.remove (perm_of_admits hadmits rfl)
  | upsert order r =>
    have hperm := perm_of_admits hadmits rfl
    refine (h.remove hperm).add fun spec x hx => ?_
    rw [replicasOf_remove h.distinct hperm, List.mem_filter, decide_eq_true_eq] at hx
    exact hx.2
  | markRestarting order id observedAt =>
    rw [applyFlat, Registry.markRestarting_getD]
    exact h.modify (perm_of_admits hadmits rfl) (fun _ => rfl) fun _ => rfl
  | reset replicas =>
    have hnodup : (replicas.map Replica.id).Nodup := of_decide_eq_true hadmits
    exact ⟨distinct_reset hnodup, hnodup, fun spec => replicasOf_reset replicas⟩
  | incSessions order id =>
    exact h.modify (perm_of_admits hadmits rfl) (fun _ => rfl) fun _ => rfl
  | decSessions order id =>
    exact h.modify (perm_of_admits hadmits rfl) (fun _ => rfl) fun _ => rfl
  | setSessionCount order id n =>
    exact h.modify (perm_of_admits hadmits rfl) (fun _ => rfl) fun _ => rfl
  | setSessionCounts counts => exact h.setSessionCounts

theorem flattens_of_exec {ops : List (Op ι)} (hexec : machine.exec ∅ ops = some reg) :
    Flattens reg (ops.foldl applyFlat []) :=
  (run_free_iff.mpr hexec).simulates ⟨distinct_empty, List.nodup_nil, fun _ => rfl⟩
    fun _ _ _ _ h _ hstep => h.step hstep

end Flat

end ReplicaRegistry

end Ruscker
