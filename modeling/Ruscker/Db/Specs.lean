import Ruscker.Config.Spec
import Ruscker.Lib.Table

/-!
# The spec table and the effective catalog

The table stores each spec under its own id.  The proxy and the landing page serve
the effective catalog: the table first, then the specs of the YAML configuration
whose id the table does not hold.
-/

namespace Ruscker

open Tables

variable {σ : Type*}

/-- The `specs` table. -/
structure Specs (σ : Type*) where
  table : Table Str (Spec σ)
  keyed : ∀ id s, table.lookup id = some s → s.id = id

namespace Specs

def empty : Specs σ := ⟨∅, nofun⟩

def listAll (db : Specs σ) : List (Spec σ) := Table.rows db.table

def fetchOne (db : Specs σ) (id : Str) : Option (Spec σ) := db.table.lookup id

def upsertOne (db : Specs σ) (spec : Spec σ) : Specs σ where
  table := Table.upsert db.table spec.id spec
  keyed id s h := by
    rw [Table.lookup_upsert] at h
    split at h
    · next hid =>
      cases h
      exact hid.symm
    · exact db.keyed id s h

/-- `insert_new`: refused when the table holds the id. -/
def insertNew (db : Specs σ) (spec : Spec σ) : Option (Specs σ) :=
  if (db.fetchOne spec.id).isSome then none else some (db.upsertOne spec)

theorem mem_listAll {db : Specs σ} {s : Spec σ} :
    s ∈ db.listAll ↔ db.fetchOne s.id = some s := by
  simp only [listAll, Table.rows, List.mem_map, List.mem_reverse, fetchOne]
  constructor
  · rintro ⟨⟨id, row⟩, hmem, rfl⟩
    have hrow := Table.mem_entries_iff.mp hmem
    rw [db.keyed id row hrow]
    exact hrow
  · exact fun h => ⟨⟨s.id, s⟩, Table.mem_entries_iff.mpr h, rfl⟩

theorem fetchOne_upsertOne (db : Specs σ) (spec : Spec σ) (id : Str) :
    (db.upsertOne spec).fetchOne id = if id = spec.id then some spec else db.fetchOne id :=
  Table.lookup_upsert db.table spec.id id spec

/-! ## Several upserts -/

theorem fetchOne_foldl_upsertOne_of_ne {updates : List (Spec σ)} {db : Specs σ} {id : Str}
    (h : ∀ s ∈ updates, s.id ≠ id) :
    (updates.foldl upsertOne db).fetchOne id = db.fetchOne id := by
  induction updates generalizing db with
  | nil => rfl
  | cons s updates ih =>
    rw [List.foldl_cons, ih fun s' hs' => h s' (List.mem_cons_of_mem s hs'), fetchOne_upsertOne,
      if_neg (h s List.mem_cons_self).symm]

theorem fetchOne_foldl_upsertOne {updates : List (Spec σ)} {db : Specs σ} {s : Spec σ}
    (hs : s ∈ updates) (huniq : ∀ s' ∈ updates, s'.id = s.id → s' = s) :
    (updates.foldl upsertOne db).fetchOne s.id = some s := by
  induction updates generalizing db with
  | nil => cases hs
  | cons s' updates ih =>
    rw [List.foldl_cons]
    by_cases hrest : s ∈ updates
    · exact ih hrest fun s'' hs'' => huniq s'' (List.mem_cons_of_mem s' hs'')
    · have hhead : s = s' := (List.mem_cons.mp hs).resolve_right hrest
      rw [fetchOne_foldl_upsertOne_of_ne, fetchOne_upsertOne, hhead, if_pos rfl]
      intro s'' hs'' hid
      exact hrest (huniq s'' (List.mem_cons_of_mem s' hs'') hid ▸ hs'')

/-- A pass over the table that writes the specs it changes, under their own ids. -/
theorem fetchOne_pass {f : Spec σ → Option (Spec σ)} (hid : ∀ s s', f s = some s' → s'.id = s.id)
    (db : Specs σ) (id : Str) :
    ((db.listAll.filterMap f).foldl upsertOne db).fetchOne id =
      (db.fetchOne id).map fun s => (f s).getD s := by
  have hrows : ∀ s', s' ∈ db.listAll.filterMap f → s'.id = id →
      ∃ s, db.fetchOne id = some s ∧ f s = some s' := by
    intro s' hs' heq
    obtain ⟨s, hs, hf⟩ := List.mem_filterMap.mp hs'
    rw [mem_listAll, ← hid s s' hf, heq] at hs
    exact ⟨s, hs, hf⟩
  by_cases hsome : ∃ s s', db.fetchOne id = some s ∧ f s = some s'
  · obtain ⟨s, s', hs, hf⟩ := hsome
    have hkey : s.id = id := db.keyed id s hs
    have hmem : s' ∈ db.listAll.filterMap f :=
      List.mem_filterMap.mpr ⟨s, mem_listAll.mpr (hkey ▸ hs), hf⟩
    have hid' : s'.id = id := (hid s s' hf).trans hkey
    have huniq : ∀ s'' ∈ db.listAll.filterMap f, s''.id = s'.id → s'' = s' := by
      intro s'' hs'' heq
      obtain ⟨t, ht, hft⟩ := hrows s'' hs'' (heq.trans hid')
      rw [Option.some.inj (ht.symm.trans hs), hf] at hft
      exact (Option.some.inj hft).symm
    have hfetch : ((db.listAll.filterMap f).foldl upsertOne db).fetchOne s'.id = some s' :=
      fetchOne_foldl_upsertOne hmem huniq
    rw [hid'] at hfetch
    rw [hfetch, hs, Option.map_some, hf, Option.getD_some]
  · rw [fetchOne_foldl_upsertOne_of_ne fun s' hs' heq => hsome ?_]
    · cases hs : db.fetchOne id with
      | none => rfl
      | some s =>
        cases hf : f s with
        | none => simp [hf]
        | some s' => exact absurd ⟨s, s', hs, hf⟩ hsome
    · obtain ⟨s, hs, hf⟩ := hrows s' hs' heq
      exact ⟨s, s', hs, hf⟩

end Specs

/-- The specs the runtime acts on: the table, then the YAML specs it does not shadow. -/
def effectiveSpecs (db : Specs σ) (yaml : List (Spec σ)) : List (Spec σ) :=
  db.listAll ++ yaml.filter fun s => !(db.listAll.map Spec.id).contains s.id

theorem mem_effectiveSpecs {db : Specs σ} {yaml : List (Spec σ)} {s : Spec σ} :
    s ∈ effectiveSpecs db yaml ↔
      db.fetchOne s.id = some s ∨ (s ∈ yaml ∧ db.fetchOne s.id = none) := by
  have hshadow : (∃ row ∈ db.listAll, row.id = s.id) ↔ db.fetchOne s.id ≠ none := by
    constructor
    · rintro ⟨row, hrow, hid⟩
      rw [← hid, Specs.mem_listAll.mp hrow]
      simp
    · intro hne
      obtain ⟨row, hrow⟩ := Option.ne_none_iff_exists'.mp hne
      have hid : row.id = s.id := db.keyed s.id row hrow
      refine ⟨row, Specs.mem_listAll.mpr ?_, hid⟩
      rw [hid]
      exact hrow
  simp only [effectiveSpecs, List.mem_append, Specs.mem_listAll, List.mem_filter]
  refine or_congr_right (and_congr_right fun _ => ?_)
  rw [← not_iff_not]
  simpa using hshadow

end Ruscker
