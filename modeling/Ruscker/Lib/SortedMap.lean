import Mathlib.Algebra.BigOperators.Group.Finset.Basic
import Mathlib.Data.List.Lex
import Mathlib.Data.List.Sort

/-!
# Maps sorted by key

An ordered map as the list of its entries, strictly sorted by key.  The operations are
single passes whose lookup lemmas need no sortedness; sortedness makes the entries
canonical, so inserting the entries of a map in order rebuilds it.
-/

namespace SortedMaps

variable {κ ρ : Type*} [LinearOrder κ]

def insertEntry (k : κ) (row : ρ) : List (κ × ρ) → List (κ × ρ)
  | [] => [(k, row)]
  | (k', row') :: rest =>
    if k < k' then (k, row) :: (k', row') :: rest
    else if k = k' then (k, row) :: rest
    else (k', row') :: insertEntry k row rest

/-- Strictly increasing keys. -/
def Sorted (l : List (κ × ρ)) : Prop := l.Pairwise fun a b => a.1 < b.1

theorem mem_insertEntry {k : κ} {row : ρ} {e : κ × ρ} {l : List (κ × ρ)}
    (h : e ∈ insertEntry k row l) : e = (k, row) ∨ e ∈ l := by
  induction l with
  | nil => simpa [insertEntry] using h
  | cons x l ih =>
    rw [insertEntry] at h
    split at h
    · simpa using h
    · split at h
      · rcases List.mem_cons.mp h with rfl | hold
        · exact .inl rfl
        · exact .inr (List.mem_cons_of_mem x hold)
      · rcases List.mem_cons.mp h with rfl | hrest
        · exact .inr List.mem_cons_self
        · exact (ih hrest).imp_right (List.mem_cons_of_mem x)

theorem sorted_insertEntry {l : List (κ × ρ)} (h : Sorted l) (k : κ) (row : ρ) :
    Sorted (insertEntry k row l) := by
  induction l with
  | nil => exact List.pairwise_singleton ..
  | cons x l ih =>
    obtain ⟨hx, hl⟩ := List.pairwise_cons.mp h
    rw [insertEntry]
    split
    · next hlt =>
      refine List.pairwise_cons.mpr ⟨fun e he => ?_, h⟩
      rcases List.mem_cons.mp he with rfl | he
      · exact hlt
      · exact hlt.trans (hx e he)
    · next hge =>
      split
      · next heq =>
        subst heq
        exact List.pairwise_cons.mpr ⟨hx, hl⟩
      · next hne =>
        refine List.pairwise_cons.mpr ⟨fun e he => ?_, ih hl⟩
        rcases mem_insertEntry he with rfl | he
        · exact lt_of_le_of_ne (not_lt.mp hge) (Ne.symm hne)
        · exact hx e he

/-- A key above all others is inserted at the end. -/
theorem insertEntry_of_forall_lt {l : List (κ × ρ)} {k : κ} (h : ∀ e ∈ l, e.1 < k) (row : ρ) :
    insertEntry k row l = l ++ [(k, row)] := by
  induction l with
  | nil => rfl
  | cons x l ih =>
    have hx : x.1 < k := h x List.mem_cons_self
    rw [insertEntry, if_neg hx.asymm, if_neg hx.ne', ih fun e he => h e (by simp [he])]
    rfl

theorem foldl_insertEntry {l acc : List (κ × ρ)} (h : Sorted (acc ++ l)) :
    l.foldl (fun acc e => insertEntry e.1 e.2 acc) acc = acc ++ l := by
  induction l generalizing acc with
  | nil => simp
  | cons x l ih =>
    have hlt : ∀ e ∈ acc, e.1 < x.1 := fun e he =>
      (List.pairwise_append.mp h).2.2 e he x List.mem_cons_self
    rw [List.foldl_cons, insertEntry_of_forall_lt hlt, ih (by simpa using h)]
    simp

theorem lookup_cons_eq (x : κ × ρ) (l : List (κ × ρ)) (k : κ) :
    (x :: l).lookup k = if k = x.1 then some x.2 else l.lookup k := by
  rw [List.lookup_cons]
  by_cases h : k = x.1
  · rw [if_pos h, beq_iff_eq.mpr h]
  · rw [if_neg h, beq_false_of_ne h]

theorem lookup_insertEntry (l : List (κ × ρ)) (k k' : κ) (row : ρ) :
    (insertEntry k row l).lookup k' = if k' = k then some row else l.lookup k' := by
  induction l with
  | nil => simp [insertEntry, lookup_cons_eq]
  | cons x l ih =>
    rw [insertEntry]
    split
    · exact lookup_cons_eq ..
    · split
      · next heq =>
        subst heq
        by_cases h : k' = x.1 <;> simp [lookup_cons_eq, h]
      · next hne =>
        rw [lookup_cons_eq, lookup_cons_eq, ih]
        by_cases h : k' = k
        · subst h
          simp [hne]
        · simp [h]

theorem lookup_filter_ne (l : List (κ × ρ)) (k k' : κ) :
    (l.filter fun e => e.1 ≠ k).lookup k' = if k' = k then none else l.lookup k' := by
  induction l with
  | nil => simp
  | cons x l ih =>
    by_cases hx : x.1 = k
    · rw [List.filter_cons_of_neg (by simpa using hx), ih]
      by_cases h : k' = k
      · simp [h]
      · simp [lookup_cons_eq, h, hx]
    · rw [List.filter_cons_of_pos (by simpa using hx), lookup_cons_eq, lookup_cons_eq, ih]
      by_cases h : k' = k
      · simp [h, Ne.symm hx]
      · simp [h]

end SortedMaps

open SortedMaps in
structure SortedMap (κ ρ : Type*) [LinearOrder κ] where
  entries : List (κ × ρ)
  sorted : Sorted entries

namespace SortedMap

open SortedMaps

variable {κ ρ : Type*} [LinearOrder κ]

theorem ext_entries {m n : SortedMap κ ρ} (h : m.entries = n.entries) : m = n := by
  cases m
  cases n
  cases h
  rfl

instance [DecidableEq ρ] : DecidableEq (SortedMap κ ρ) := fun m n =>
  decidable_of_iff (m.entries = n.entries) ⟨ext_entries, congrArg entries⟩

def empty : SortedMap κ ρ := ⟨[], List.Pairwise.nil⟩

def lookup (m : SortedMap κ ρ) (k : κ) : Option ρ := m.entries.lookup k

def insert (m : SortedMap κ ρ) (k : κ) (row : ρ) : SortedMap κ ρ :=
  ⟨insertEntry k row m.entries, sorted_insertEntry m.sorted k row⟩

def erase (m : SortedMap κ ρ) (k : κ) : SortedMap κ ρ :=
  ⟨m.entries.filter fun e => e.1 ≠ k, m.sorted.sublist List.filter_sublist⟩

/-- Insert the entries one after the other: a later one wins. -/
def ofList (l : List (κ × ρ)) : SortedMap κ ρ := l.foldl (fun m e => m.insert e.1 e.2) empty

def isEmpty (m : SortedMap κ ρ) : Bool := m.entries.isEmpty

@[simp] theorem lookup_insert (m : SortedMap κ ρ) (k k' : κ) (row : ρ)
    [Decidable (k' = k)] :
    (m.insert k row).lookup k' = if k' = k then some row else m.lookup k' := by
  refine (lookup_insertEntry m.entries k k' row).trans ?_
  split <;> rfl

@[simp] theorem lookup_erase (m : SortedMap κ ρ) (k k' : κ) [Decidable (k' = k)] :
    (m.erase k).lookup k' = if k' = k then none else m.lookup k' := by
  refine (lookup_filter_ne m.entries k k').trans ?_
  split <;> rfl

theorem entries_foldl_insert (l : List (κ × ρ)) (m : SortedMap κ ρ) :
    (l.foldl (fun m e => m.insert e.1 e.2) m).entries =
      l.foldl (fun acc e => insertEntry e.1 e.2 acc) m.entries := by
  induction l generalizing m with
  | nil => rfl
  | cons x l ih => exact ih (m.insert x.1 x.2)

/-! ## Rows by key -/

theorem nodup_keys (m : SortedMap κ ρ) : (m.entries.map Prod.fst).Nodup :=
  List.pairwise_map.mpr (m.sorted.imp fun hlt => hlt.ne)

theorem mem_entries_iff {m : SortedMap κ ρ} {k : κ} {row : ρ} :
    (k, row) ∈ m.entries ↔ m.lookup k = some row := by
  obtain ⟨l, hl⟩ := m
  show (k, row) ∈ l ↔ l.lookup k = some row
  induction l with
  | nil => simp
  | cons x l ih =>
    obtain ⟨hx, hrest⟩ := List.pairwise_cons.mp hl
    rw [lookup_cons_eq, List.mem_cons]
    by_cases hk : k = x.1
    · subst hk
      have hfresh : (x.1, row) ∉ l := fun hmem => lt_irrefl x.1 (hx (x.1, row) hmem)
      simp [hfresh, Prod.ext_iff, eq_comm]
    · have hne : (k, row) ≠ x := fun heq => hk (congrArg Prod.fst heq)
      rw [if_neg hk, ← ih hrest]
      simp [hne]

theorem ext_lookup {m n : SortedMap κ ρ} (h : ∀ k, m.lookup k = n.lookup k) : m = n := by
  refine ext_entries ?_
  have hperm : m.entries.Perm n.entries := by
    refine (List.perm_ext_iff_of_nodup m.nodup_keys.of_map n.nodup_keys.of_map).mpr ?_
    rintro ⟨k, row⟩
    rw [mem_entries_iff, mem_entries_iff, h]
  exact hperm.eq_of_pairwise (fun a b _ _ hab hba => absurd hab hba.asymm) m.sorted n.sorted

def keys (m : SortedMap κ ρ) : Finset κ := (m.entries.map Prod.fst).toFinset

theorem mem_keys_iff {m : SortedMap κ ρ} {k : κ} : k ∈ m.keys ↔ (m.lookup k).isSome = true := by
  rw [Option.isSome_iff_exists]
  simp [keys, mem_entries_iff]

theorem card_keys (m : SortedMap κ ρ) : m.keys.card = m.entries.length := by
  rw [keys, List.toFinset_card_of_nodup m.nodup_keys, List.length_map]

theorem sum_entries {M : Type*} [AddCommMonoid M] (m : SortedMap κ ρ) (f : ρ → M) :
    (m.entries.map fun e => f e.2).sum = ∑ k ∈ m.keys, (m.lookup k).elim 0 f := by
  rw [keys, List.sum_toFinset _ m.nodup_keys, List.map_map]
  refine congrArg List.sum (List.map_congr_left fun e he => ?_)
  rw [Function.comp_apply, mem_entries_iff.mp he]
  rfl

/-- **Rebuilding.** A map is the map of its entries. -/
theorem ofList_entries (m : SortedMap κ ρ) : ofList m.entries = m := by
  refine ext_entries ?_
  rw [ofList, entries_foldl_insert]
  exact foldl_insertEntry m.sorted

end SortedMap
