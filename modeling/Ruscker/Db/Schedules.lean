import Ruscker.Lib.Table
import Ruscker.Text
import Mathlib.Data.List.Lex
import Mathlib.Data.List.Sort

/-!
# The schedule table

Identifiers are handed out in ascending order and never again, on both backends.  The
fire marker `last_run_at` is only moved by `mark_fired`, a compare-and-set.
-/

namespace Ruscker

open Tables

structure Schedule where
  id : Int
  specId : Str
  cron : Str
  cmdJson : Option Str
  enabled : Bool
  timeoutSecs : Option Int
  lastRunAt : Option Int
  createdAt : Int
  updatedAt : Int
  deriving DecidableEq

structure Schedules where
  table : Table Int Schedule
  nextId : Int
  keyed : ∀ id s, table.lookup id = some s → s.id = id ∧ id < nextId

namespace Schedules

def find (db : Schedules) (id : Int) : Option Schedule := db.table.lookup id

/-- `ORDER BY spec_id, id`. -/
def Before (a b : Schedule) : Prop := a.specId < b.specId ∨ a.specId = b.specId ∧ a.id ≤ b.id

instance : DecidableRel Before := fun a b =>
  inferInstanceAs (Decidable (a.specId < b.specId ∨ a.specId = b.specId ∧ a.id ≤ b.id))

def listAll (db : Schedules) : List Schedule := (Table.rows db.table).insertionSort Before

def insert (db : Schedules) (specId cron : Str) (cmdJson : Option Str) (timeoutSecs : Option Int)
    (now : Int) : Schedules where
  table := db.table.insert db.nextId
    ⟨db.nextId, specId, cron, cmdJson, true, timeoutSecs, none, now, now⟩
  nextId := db.nextId + 1
  keyed id s h := by
    rw [Table.lookup_insert_eq] at h
    split at h
    · next hid =>
      cases h
      exact ⟨hid.symm, by omega⟩
    · obtain ⟨hkey, hlt⟩ := db.keyed id s h
      exact ⟨hkey, by omega⟩

/-- A statement that rewrites one row and keeps its identifier. -/
def update (db : Schedules) (id : Int) (f : Schedule → Schedule) (hf : ∀ s, (f s).id = s.id) :
    Schedules where
  table := Table.update db.table id f
  nextId := db.nextId
  keyed k s h := by
    rw [Table.lookup_update] at h
    split at h
    · obtain ⟨old, hold, rfl⟩ := Option.map_eq_some_iff.mp h
      rw [hf]
      exact db.keyed k old hold
    · exact db.keyed k s h

def setEnabled (db : Schedules) (id : Int) (enabled : Bool) (now : Int) : Schedules :=
  db.update id (fun s => { s with enabled, updatedAt := now }) fun _ => rfl

def delete (db : Schedules) (id : Int) : Schedules where
  table := db.table.erase id
  nextId := db.nextId
  keyed k s h := by
    rw [Table.lookup_erase_eq] at h
    split at h
    · cases h
    · exact db.keyed k s h

/-- Set the fire marker if it still is `previous`; `none` when another caller moved it. -/
def markFired (db : Schedules) (id : Int) (previous : Option Int) (now : Int) :
    Option Schedules :=
  (db.find id).bind fun s =>
    if s.lastRunAt = previous then
      some (db.update id (fun s => { s with lastRunAt := some now }) fun _ => rfl)
    else none

variable {db db' : Schedules} {id k : Int} {s : Schedule}

theorem mem_listAll : s ∈ db.listAll ↔ db.find s.id = some s := by
  simp only [listAll, List.mem_insertionSort, Table.rows, List.mem_map, List.mem_reverse, find]
  constructor
  · rintro ⟨⟨k, row⟩, hmem, rfl⟩
    have hrow := Table.mem_entries_iff.mp hmem
    rw [(db.keyed k row hrow).1]
    exact hrow
  · exact fun h => ⟨⟨s.id, s⟩, Table.mem_entries_iff.mpr h, rfl⟩

theorem find_update {f : Schedule → Schedule} (hf : ∀ s, (f s).id = s.id) :
    (db.update id f hf).find k = if k = id then (db.find k).map f else db.find k :=
  Table.lookup_update db.table id k f

theorem markFired_eq_some {previous : Option Int} {now : Int}
    (h : db.markFired id previous now = some db') :
    ∃ s, db.find id = some s ∧ s.lastRunAt = previous ∧ db'.nextId = db.nextId ∧
      ∀ k, db'.find k = if k = id then some { s with lastRunAt := some now } else db.find k := by
  obtain ⟨s, hs, h⟩ := Option.bind_eq_some_iff.mp h
  split at h <;> cases h
  next hprevious =>
  refine ⟨s, hs, hprevious, rfl, fun k => ?_⟩
  rw [find, update, Table.lookup_update_of_lookup hs]
  rfl

end Schedules

end Ruscker
