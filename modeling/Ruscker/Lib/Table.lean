import Mathlib.Data.List.AList

/-!
# Tables with a unique key

A table is an association list without duplicate keys, newest row first.  The
conditional single-row statements of SQL report whether they affected a row; their
inversion lemmas say everything such a statement can do.
-/

namespace Tables

variable {κ ρ : Type*}

abbrev Table (κ ρ : Type*) := AList fun _ : κ => ρ

namespace Table

/-- Rewrite every row in place. -/
def mapRows (t : Table κ ρ) (f : κ → ρ → ρ) : Table κ ρ where
  entries := t.entries.map fun e => ⟨e.1, f e.1 e.2⟩
  nodupKeys := by
    have hkeys : (t.entries.map fun e => (⟨e.1, f e.1 e.2⟩ : Sigma fun _ : κ => ρ)).keys =
        t.entries.keys := by
      simp [List.keys, Function.comp_def]
    rw [List.NodupKeys, hkeys]
    exact t.nodupKeys

/-- Keep the rows that meet `p`. -/
def retain (t : Table κ ρ) (p : κ → ρ → Bool) : Table κ ρ where
  entries := t.entries.filter fun e => p e.1 e.2
  nodupKeys := t.nodupKeys.sublist List.filter_sublist

/-- The rows in the order they were inserted. -/
def rows (t : Table κ ρ) : List ρ := t.entries.reverse.map fun e => e.2

def count (t : Table κ ρ) (p : ρ → Bool) : Nat := t.entries.countP fun e => p e.2

/-- How many rows meet a condition on the key too. -/
def tally (t : Table κ ρ) (p : κ → ρ → Bool) : Nat := t.entries.countP fun e => p e.1 e.2

theorem retain_retain (t : Table κ ρ) (p q : κ → ρ → Bool) :
    (t.retain p).retain q = t.retain fun k row => q k row && p k row :=
  AList.ext List.filter_filter

theorem retain_true (t : Table κ ρ) : (t.retain fun _ _ => true) = t :=
  AList.ext (List.filter_eq_self.mpr fun _ _ => rfl)

theorem keys_mapRows (t : Table κ ρ) (f : κ → ρ → ρ) : (t.mapRows f).keys = t.keys := by
  simp [mapRows, AList.keys, List.keys, Function.comp_def]

theorem rows_mapRows (t : Table κ ρ) (f : ρ → ρ) :
    (t.mapRows fun _ => f).rows = t.rows.map f := by
  simp [rows, mapRows, Function.comp_def]

variable [DecidableEq κ]

/-- `INSERT`: refused when the key is taken. -/
def insertNew (t : Table κ ρ) (k : κ) (row : ρ) : Option (Table κ ρ) :=
  if (t.lookup k).isSome then none else some (t.insert k row)

def update (t : Table κ ρ) (k : κ) (f : ρ → ρ) : Table κ ρ :=
  t.mapRows fun k' row => if k' = k then f row else row

/-- `INSERT … ON CONFLICT DO UPDATE`: replace the row of a key, or add one. -/
def upsert (t : Table κ ρ) (k : κ) (row : ρ) : Table κ ρ :=
  if (t.lookup k).isSome then t.update k fun _ => row else t.insert k row

/-- `UPDATE … WHERE key = k AND cond`: `none` when no row is affected. -/
def updateWhere (t : Table κ ρ) (k : κ) (cond : ρ → Bool) (f : ρ → ρ) : Option (Table κ ρ) :=
  (t.lookup k).bind fun row => if cond row then some (t.update k f) else none

/-- `DELETE … WHERE key = k AND cond`: `none` when no row is affected. -/
def deleteWhere (t : Table κ ρ) (k : κ) (cond : ρ → Bool) : Option (Table κ ρ) :=
  (t.lookup k).bind fun row => if cond row then some (t.erase k) else none

variable {t t' : Table κ ρ} {k k' : κ} {row : ρ} {cond : ρ → Bool}

theorem dlookup_map (l : List (Sigma fun _ : κ => ρ)) (f : κ → ρ → ρ) (k : κ) :
    (l.map fun e => (⟨e.1, f e.1 e.2⟩ : Sigma fun _ : κ => ρ)).dlookup k =
      (l.dlookup k).map (f k) := by
  induction l with
  | nil => rfl
  | cons e l ih =>
    obtain ⟨k', row⟩ := e
    by_cases hk : k = k'
    · subst hk
      simp
    · rw [List.map_cons, List.dlookup_cons_ne _ _ hk, List.dlookup_cons_ne _ _ hk]
      exact ih

theorem lookup_mapRows (t : Table κ ρ) (f : κ → ρ → ρ) (k : κ) :
    (t.mapRows f).lookup k = (t.lookup k).map (f k) :=
  dlookup_map t.entries f k

theorem lookup_update (t : Table κ ρ) (k k' : κ) (f : ρ → ρ) :
    (t.update k f).lookup k' = if k' = k then (t.lookup k').map f else t.lookup k' := by
  unfold update
  rw [lookup_mapRows]
  split
  · rfl
  · exact Option.map_id'

theorem lookup_update_of_lookup {k : κ} {row : ρ} (hrow : t.lookup k = some row) (k' : κ)
    (f : ρ → ρ) : (t.update k f).lookup k' = if k' = k then some (f row) else t.lookup k' := by
  rw [lookup_update]
  split
  · next h => rw [h, hrow, Option.map_some]
  · rfl

theorem lookup_insert_eq (t : Table κ ρ) (k k' : κ) (row : ρ) :
    (t.insert k row).lookup k' = if k' = k then some row else t.lookup k' := by
  split
  · next h =>
    subst h
    exact AList.lookup_insert t
  · next h => exact AList.lookup_insert_ne h

/-- A new key leaves the rows that are there. -/
theorem lookup_insert_of_new {new : ρ} (hnew : t.lookup k' = none)
    (hrow : t.lookup k = some row) : (t.insert k' new).lookup k = some row := by
  rw [lookup_insert_eq, if_neg]
  · exact hrow
  · rintro rfl
    rw [hnew] at hrow
    cases hrow

theorem lookup_erase_eq (t : Table κ ρ) (k k' : κ) :
    (t.erase k).lookup k' = if k' = k then none else t.lookup k' := by
  split
  · next h =>
    subst h
    exact AList.lookup_erase k' t
  · next h => exact AList.lookup_erase_ne h

theorem erase_eq_self (h : t.lookup k = none) : t.erase k = t :=
  AList.ext (List.kerase_of_notMem_keys (AList.lookup_eq_none.mp h))

theorem lookup_upsert (t : Table κ ρ) (k k' : κ) (row : ρ) :
    (t.upsert k row).lookup k' = if k' = k then some row else t.lookup k' := by
  unfold upsert
  split
  · next hsome =>
    rw [lookup_update]
    split
    · next h =>
      subst h
      obtain ⟨old, hold⟩ := Option.isSome_iff_exists.mp hsome
      rw [hold]
      rfl
    · rfl
  · exact lookup_insert_eq t k k' row

theorem insertNew_eq_some (h : t.insertNew k row = some t') :
    t.lookup k = none ∧ t' = t.insert k row := by
  unfold insertNew at h
  split at h
  · cases h
  · next hnone => exact ⟨by simpa using hnone, (Option.some.inj h).symm⟩

theorem updateWhere_eq_some {f : ρ → ρ} (h : t.updateWhere k cond f = some t') :
    ∃ row, t.lookup k = some row ∧ cond row = true ∧ t' = t.update k f := by
  obtain ⟨row, hrow, h⟩ := Option.bind_eq_some_iff.mp h
  split at h
  · next hcond => exact ⟨row, hrow, hcond, (Option.some.inj h).symm⟩
  · cases h

theorem updateWhere_of_lookup {f : ρ → ρ} (hrow : t.lookup k = some row) :
    t.updateWhere k cond f = if cond row then some (t.update k f) else none := by
  rw [updateWhere, hrow, Option.bind_some]

theorem deleteWhere_of_lookup (hrow : t.lookup k = some row) :
    t.deleteWhere k cond = if cond row then some (t.erase k) else none := by
  rw [deleteWhere, hrow, Option.bind_some]

theorem deleteWhere_eq_some (h : t.deleteWhere k cond = some t') :
    ∃ row, t.lookup k = some row ∧ cond row = true ∧ t' = t.erase k := by
  obtain ⟨row, hrow, h⟩ := Option.bind_eq_some_iff.mp h
  split at h
  · next hcond => exact ⟨row, hrow, hcond, (Option.some.inj h).symm⟩
  · cases h

/-! ## Counting rows -/

section Count

variable {p : ρ → Bool} {P Q : κ → ρ → Bool}

theorem tally_insert (hnew : t.lookup k = none) :
    tally (t.insert k row) P = t.tally P + if P k row then 1 else 0 := by
  rw [tally, tally, AList.entries_insert_of_notMem (AList.lookup_eq_none.mp hnew),
    List.countP_cons]

theorem tally_erase (hrow : t.lookup k = some row) :
    tally (t.erase k) P + (if P k row then 1 else 0) = t.tally P := by
  have hmem : k ∈ t := AList.lookup_isSome.mp (by rw [hrow]; rfl)
  obtain ⟨row', front, back, hfront, heq, hrest⟩ :=
    List.exists_of_kerase (AList.mem_keys.mp hmem)
  have hsame : row' = row := by
    have hlookup : t.entries.dlookup k = some row := hrow
    rw [heq, List.dlookup_append, List.dlookup_eq_none.mpr hfront, Option.none_or,
      List.dlookup_cons_eq] at hlookup
    exact Option.some.inj hlookup
  subst hsame
  have hentries : (t.erase k).entries = front ++ back := hrest
  rw [tally, tally, hentries, heq]
  simp only [List.countP_append, List.countP_cons]
  omega

theorem tally_update {f : ρ → ρ} (hf : ∀ k row, P k (f row) = P k row) :
    (t.update k f).tally P = t.tally P := by
  rw [tally, tally, update, mapRows, List.countP_map]
  refine List.countP_congr fun e _ => ?_
  simp only [Function.comp_apply]
  split
  · rw [hf]
  · rfl

/-- Only the rows that are there matter. -/
theorem tally_congr (h : ∀ k row, t.lookup k = some row → P k row = Q k row) :
    t.tally P = t.tally Q := by
  refine List.countP_congr fun e he => ?_
  rw [h e.1 e.2 (AList.mem_lookup_iff.mpr he)]

theorem count_insert (hnew : t.lookup k = none) :
    count (t.insert k row) p = t.count p + if p row then 1 else 0 :=
  tally_insert (P := fun _ => p) hnew

theorem count_erase (hrow : t.lookup k = some row) :
    count (t.erase k) p + (if p row then 1 else 0) = t.count p :=
  tally_erase (P := fun _ => p) hrow

theorem count_update {f : ρ → ρ} (hf : ∀ row, p (f row) = p row) :
    (t.update k f).count p = t.count p :=
  tally_update (P := fun _ => p) fun _ => hf

theorem tally_eq_zero :
    t.tally P = 0 ↔ ∀ k row, t.lookup k = some row → P k row = false := by
  rw [tally, List.countP_eq_zero]
  constructor
  · intro h k row hrow
    have hmem : (⟨k, row⟩ : Sigma fun _ : κ => ρ) ∈ t.entries := AList.mem_lookup_iff.mp hrow
    simpa using h _ hmem
  · rintro h ⟨k, row⟩ hmem
    have hrow : t.lookup k = some row := AList.mem_lookup_iff.mpr hmem
    simp [h k row hrow]

theorem count_eq_zero : t.count p = 0 ↔ ∀ k row, t.lookup k = some row → p row = false :=
  tally_eq_zero (P := fun _ => p)

end Count

/-! ## Loops over the rows -/

@[simp] theorem mem_entries_iff {row : ρ} :
    (⟨k, row⟩ : Sigma fun _ : κ => ρ) ∈ t.entries ↔ t.lookup k = some row :=
  AList.mem_lookup_iff.symm

theorem lookup_retain {p : κ → ρ → Bool} :
    (t.retain p).lookup k = some row ↔ t.lookup k = some row ∧ p k row = true := by
  rw [← mem_entries_iff, ← mem_entries_iff, retain]
  simp

theorem updateWhere_getD (t : Table κ ρ) (k : κ) (f : ρ → ρ) :
    (t.updateWhere k (fun _ => true) f).getD t = t.update k f := by
  unfold updateWhere
  cases hrow : t.lookup k with
  | some row => rfl
  | none =>
    refine AList.ext (Eq.symm ?_)
    refine (List.map_congr_left ?_).trans (List.map_id t.entries)
    rintro ⟨k', row⟩ hmem
    have hne : k' ≠ k := by
      rintro rfl
      rw [mem_entries_iff, hrow] at hmem
      cases hmem
    simp [hne]

theorem update_self (t : Table κ ρ) (k : κ) : t.update k (fun row => row) = t := by
  refine AList.ext ?_
  refine (List.map_congr_left ?_).trans (List.map_id t.entries)
  intro e _
  simp

/-- What a loop over `l` leaves of one entry when each pass updates its own key. -/
theorem entries_foldl_update (f : κ → ρ → ρ → ρ) {l : List (Sigma fun _ : κ => ρ)}
    (hl : l.NodupKeys) (t : Table κ ρ) :
    (l.foldl (fun t e => t.update e.1 (f e.1 e.2)) t).entries =
      t.entries.map fun e => ⟨e.1, (l.dlookup e.1).elim e.2 fun row => f e.1 row e.2⟩ := by
  induction l generalizing t with
  | nil => simp
  | cons x l ih =>
    obtain ⟨k, row⟩ := x
    rw [List.nodupKeys_cons] at hl
    rw [List.foldl_cons, ih hl.2]
    unfold update mapRows
    rw [List.map_map]
    refine List.map_congr_left ?_
    rintro ⟨k', current⟩ -
    by_cases hk : k' = k
    · subst hk
      have hnone : l.dlookup k' = none := List.dlookup_eq_none.mpr hl.1
      simp [hnone]
    · rw [List.dlookup_cons_ne _ _ hk]
      simp [hk]

/-- A loop over all rows, in any order, that updates each row under its own key. -/
theorem foldl_update_entries (f : κ → ρ → ρ → ρ) {l : List (Sigma fun _ : κ => ρ)}
    (hperm : l.Perm t.entries) :
    l.foldl (fun t e => t.update e.1 (f e.1 e.2)) t = t.mapRows fun k row => f k row row := by
  have hl : l.NodupKeys := (List.perm_nodupKeys hperm).mpr t.nodupKeys
  refine AList.ext ?_
  rw [entries_foldl_update f hl]
  refine List.map_congr_left ?_
  rintro ⟨k, row⟩ hmem
  have hlookup : l.dlookup k = some row := by
    rw [List.perm_dlookup k hl hperm]
    exact mem_entries_iff.mp hmem
  simp [hlookup]

/-- The same loop with upserts of some rows, which all find their key. -/
theorem foldl_upsert (p : κ → ρ → Bool) (f : κ → ρ → ρ) {l : List (Sigma fun _ : κ => ρ)}
    (hmem : ∀ e ∈ l, (t.lookup e.1).isSome = true) :
    l.foldl (fun t e => if p e.1 e.2 then t.upsert e.1 (f e.1 e.2) else t) t =
      l.foldl (fun t e => t.update e.1 fun row => if p e.1 e.2 then f e.1 e.2 else row) t := by
  induction l generalizing t with
  | nil => rfl
  | cons x l ih =>
    have hpass : (if p x.1 x.2 then t.upsert x.1 (f x.1 x.2) else t) =
        t.update x.1 fun row => if p x.1 x.2 then f x.1 x.2 else row := by
      split
      · rw [upsert, if_pos (hmem x (by simp))]
      · exact (update_self t x.1).symm
    rw [List.foldl_cons, List.foldl_cons, hpass]
    refine ih fun e he => ?_
    rw [lookup_update]
    have hsome := hmem e (List.mem_cons_of_mem x he)
    split <;> simpa using hsome

end Table

end Tables
