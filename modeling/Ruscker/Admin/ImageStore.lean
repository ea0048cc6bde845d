import Ruscker.Admin.ImageFiles
import Ruscker.Admin.Images
import Ruscker.Lib.Machine

/-!
# The images behind the uploads

An upload is stored under a free name, an import under its own in place of what has it, and a rename
only under a free one.  So an image that stays as it is stays the only one of its name.
-/

namespace Ruscker.Admin.ImageStore

open Tables Machines Machines.Machine ImageFiles

/-! ## Storing -/

def toFilename (s : Str) : Option Filename := if h : IsFilename s then some ⟨s, h⟩ else none

def rowOf (p : Processed) (name : Str) : Option ImageRow :=
  (toFilename name).map fun filename => ⟨filename, p.mimeType, p.bytes⟩

def fetchByFilename (images : Table Str ImageRow) (filename : Str) : Option (Str × List UInt8) :=
  (images.entries.find? fun e => decide (e.2.filename.1 = filename)).map fun e =>
    (e.2.mimeType, e.2.blob)

section Writers

variable [Floats] (db : Library)

def filenameTaken (name : Str) : Bool :=
  db.images.entries.any fun e => decide (e.2.filename.1 = name)

/-- The candidates behind a name that is taken. -/
def numbered (desired : Str) (n : Nat) : Str :=
  match Str.rsplitOnce '.' desired with
  | some (stem, ext) => stem ++ '-' :: digits n ++ '.' :: ext
  | none => desired ++ '-' :: digits n

def uniqueFilename (desired : Str) : Option Str :=
  if !filenameTaken db desired then some desired
  else ((List.range' 2 9998).map (numbered desired)).find? fun name => !filenameTaken db name

/-- An insert takes the place of what has the name. -/
def insert (id : Str) (row : ImageRow) : Option Library :=
  (Table.insertNew (Table.retain db.images fun _ r => decide (r.filename ≠ row.filename)) id
    row).map fun images => ({ db with images } : Library).auditImage "image.upload" id

/-- A name that is taken by the same bytes is left alone. -/
def importFile [Codecs] (id rawFilename : Str) (bytes : List UInt8) : Option Library :=
  (processForImport rawFilename bytes).bind fun p =>
    if (fetchByFilename db.images p.filename).map Prod.snd = some p.bytes then none
    else (rowOf p p.filename).bind (insert db id)

def upload [Codecs] (id rawFilename : Str) (suppliedMime : Option Str) (bytes : List UInt8) :
    Option Library :=
  if bytes = [] then none
  else
    (processUpload rawFilename suppliedMime bytes).toOption.bind fun p =>
      (uniqueFilename db p.filename).bind fun name => (rowOf p name).bind (insert db id)

inductive Event where
  | upload (id rawFilename : Str) (suppliedMime : Option Str) (bytes : List UInt8)
  | importFile (id rawFilename : Str) (bytes : List UInt8)
  | rename (faults : Images.Faults) (id newname : Str)
  | delete (faults : Images.Faults) (id : Str)

/-- The row that the event is about. -/
def Event.id : Event → Str
  | .upload id _ _ _ => id
  | .importFile id _ _ => id
  | .rename _ id _ => id
  | .delete _ id => id

/-- A call that is refused changes nothing. -/
def step [Codecs] : Event → Option Library
  | .upload id rawFilename suppliedMime bytes => upload db id rawFilename suppliedMime bytes
  | .importFile id rawFilename bytes => importFile db id rawFilename bytes
  | .rename faults id newname => (Images.rename faults db id newname).toOption.map Prod.snd
  | .delete faults id => (Images.delete faults db id).toOption.map Prod.snd

def machine [Codecs] : Machine Library Event := ⟨fun db => step db⟩

end Writers

/-! ## What a step can do -/

theorem toOption_eq_some {ε α : Type} {result : Except ε α} {a : α} :
    result.toOption = some a ↔ result = .ok a := by
  cases result with
  | error failure =>
    constructor
    · intro h
      cases h
    · intro h
      cases h
  | ok b =>
    constructor
    · intro h
      cases h
      rfl
    · intro h
      cases h
      rfl

theorem rowOf_of_isFilename {p : Processed} {name : Str} (h : IsFilename name) :
    rowOf p name = some ⟨⟨name, h⟩, p.mimeType, p.bytes⟩ := by
  rw [rowOf, toFilename, dif_pos h, Option.map_some]

theorem rowOf_eq_some {p : Processed} {name : Str} {row : ImageRow}
    (h : rowOf p name = some row) :
    row.filename.1 = name ∧ row.mimeType = p.mimeType ∧ row.blob = p.bytes := by
  obtain ⟨filename, hname, rfl⟩ := Option.map_eq_some_iff.mp h
  unfold toFilename at hname
  split at hname
  · cases hname
    exact ⟨rfl, rfl, rfl⟩
  · cases hname

section Steps

variable [Floats] {db db' : Library} {id : Str} {row : ImageRow}

theorem insert_eq_some (h : insert db id row = some db') :
    let others := Table.retain db.images fun _ r => decide (r.filename ≠ row.filename)
    others.lookup id = none ∧ db'.images = AList.insert id row others := by
  obtain ⟨images, hnew, rfl⟩ := Option.map_eq_some_iff.mp h
  exact Table.insertNew_eq_some hnew

theorem lookup_of_insert (h : insert db id row = some db') :
    db'.images.lookup id = some row := by
  rw [(insert_eq_some h).2, Table.lookup_insert_eq, if_pos rfl]

/-- The images behind a step: one more in place of its namesakes, one under a free name, or one
less. -/
inductive Change (db : Library) (id : Str) (db' : Library) : Prop
  | inserted (row : ImageRow) (h : insert db id row = some db')
  | renamed (row : ImageRow) (new : Filename) (hrow : db.images.lookup id = some row)
      (hfree : db.filenameTaken new = false)
      (himages : db'.images = Table.update db.images id fun row => { row with filename := new })
  | deleted (himages : db'.images = db.images.erase id)

theorem rename_eq_some {faults : Images.Faults} {newname : Str}
    (h : (Images.rename faults db id newname).toOption.map Prod.snd = some db') :
    ∃ row new, db.images.lookup id = some row ∧ Images.newFilename row.filename newname = some new ∧
      db.filenameTaken new = false ∧
      db'.images = Table.update db.images id fun row => { row with filename := new } := by
  obtain ⟨⟨old, db₁⟩, hrename, rfl⟩ := Option.map_eq_some_iff.mp h
  obtain ⟨⟨-, -, hrow, new, hnew, -, hfree⟩, hdb⟩ :=
    Images.rename_eq_ok_iff.mp (toOption_eq_some.mp hrename)
  obtain ⟨row, hlookup, rfl⟩ := Option.map_eq_some_iff.mp hrow
  refine ⟨row, new, hlookup, hnew, hfree, ?_⟩
  rw [hdb new hnew]
  rfl

theorem delete_eq_some {faults : Images.Faults}
    (h : (Images.delete faults db id).toOption.map Prod.snd = some db') :
    db'.images = db.images.erase id := by
  obtain ⟨⟨old, db₁⟩, hdelete, rfl⟩ := Option.map_eq_some_iff.mp h
  rw [(Images.delete_eq_ok_iff.mp (toOption_eq_some.mp hdelete)).2]
  rfl

variable [Codecs]

theorem upload_eq_some {rawFilename : Str} {suppliedMime : Option Str} {bytes : List UInt8}
    (h : upload db id rawFilename suppliedMime bytes = some db') :
    ∃ p name row, processUpload rawFilename suppliedMime bytes = .ok p ∧
      uniqueFilename db p.filename = some name ∧ rowOf p name = some row ∧
      insert db id row = some db' := by
  unfold upload at h
  split at h
  · cases h
  · obtain ⟨p, hp, h⟩ := Option.bind_eq_some_iff.mp h
    obtain ⟨name, hname, h⟩ := Option.bind_eq_some_iff.mp h
    obtain ⟨row, hrow, h⟩ := Option.bind_eq_some_iff.mp h
    exact ⟨p, name, row, toOption_eq_some.mp hp, hname, hrow, h⟩

theorem importFile_eq_some {rawFilename : Str} {bytes : List UInt8}
    (h : importFile db id rawFilename bytes = some db') :
    ∃ p row, processForImport rawFilename bytes = some p ∧ rowOf p p.filename = some row ∧
      insert db id row = some db' := by
  obtain ⟨p, hp, h⟩ := Option.bind_eq_some_iff.mp h
  split at h
  · cases h
  · obtain ⟨row, hrow, h⟩ := Option.bind_eq_some_iff.mp h
    exact ⟨p, row, hp, hrow, h⟩

theorem step_change {e : Event} (h : step db e = some db') : Change db e.id db' := by
  cases e with
  | upload id rawFilename suppliedMime bytes =>
    obtain ⟨p, name, row, -, -, -, hinsert⟩ := upload_eq_some h
    exact .inserted row hinsert
  | importFile id rawFilename bytes =>
    obtain ⟨p, row, -, -, hinsert⟩ := importFile_eq_some h
    exact .inserted row hinsert
  | rename faults id newname =>
    obtain ⟨row, new, hrow, -, hfree, himages⟩ := rename_eq_some h
    exact .renamed row new hrow hfree himages
  | delete faults id =>
    exact .deleted (delete_eq_some h)

end Steps

/-! ## One image of a name -/

/-- The row is there, and no other has its name. -/
structure Alone (images : Table Str ImageRow) (id : Str) (row : ImageRow) : Prop where
  there : images.lookup id = some row
  alone : ∀ id' row', images.lookup id' = some row' → row'.filename = row.filename → id' = id

/-- The only row of a name is what the name stands for. -/
theorem Alone.fetch {images : Table Str ImageRow} {id : Str} {row : ImageRow}
    (h : Alone images id row) :
    fetchByFilename images row.filename = some (row.mimeType, row.blob) := by
  unfold fetchByFilename
  cases hfind : images.entries.find? fun e => decide (e.2.filename.1 = row.filename.1) with
  | none =>
    have hmem : (⟨id, row⟩ : Sigma fun _ : Str => ImageRow) ∈ images.entries :=
      Table.mem_entries_iff.mpr h.there
    have hne := List.find?_eq_none.mp hfind _ hmem
    simp at hne
  | some e =>
    have hsome := List.find?_some hfind
    have hname : e.2.filename = row.filename := Subtype.ext (of_decide_eq_true hsome)
    have hlookup : images.lookup e.1 = some e.2 :=
      Table.mem_entries_iff.mp (List.mem_of_find?_eq_some hfind)
    have hid := h.alone e.1 e.2 hlookup hname
    rw [hid, h.there] at hlookup
    rw [Option.some.inj hlookup]
    rfl

section Alone

variable [Floats] {db db' : Library} {id id' : Str} {row : ImageRow}

theorem ne_of_free {new : Filename} (h : db.filenameTaken new = false)
    (hrow : db.images.lookup id = some row) : row.filename ≠ new := by
  rw [Library.filenameTaken, List.any_eq_false] at h
  exact fun heq => h ⟨id, row⟩ (Table.mem_entries_iff.mpr hrow) (decide_eq_true heq)

/-- What a step stores is the only image of its name. -/
theorem Change.alone (h : Change db id db') (hrow : db'.images.lookup id = some row) :
    Alone db'.images id row := by
  refine ⟨hrow, fun id' row' hrow' hname => ?_⟩
  by_contra hne
  cases h with
  | inserted new hinsert =>
    rw [(insert_eq_some hinsert).2, Table.lookup_insert_eq] at hrow hrow'
    rw [if_pos rfl] at hrow
    rw [if_neg hne, Table.lookup_retain] at hrow'
    cases hrow
    exact of_decide_eq_true hrow'.2 hname
  | renamed old new hold hfree himages =>
    rw [himages, Table.lookup_update_of_lookup hold] at hrow hrow'
    rw [if_pos rfl] at hrow
    rw [if_neg hne] at hrow'
    cases hrow
    exact ne_of_free hfree hrow' hname
  | deleted himages =>
    rw [himages, Table.lookup_erase_eq, if_pos rfl] at hrow
    cases hrow

/-- **Step lemma.** A row that stays stays the only one of its name. -/
theorem Alone.kept (halone : Alone db.images id row) (h : Change db id' db')
    (hrow : db'.images.lookup id = some row) : Alone db'.images id row := by
  by_cases hid : id' = id
  · subst hid
    exact h.alone hrow
  · refine ⟨hrow, fun other row' hrow' hname => ?_⟩
    cases h with
    | inserted new hinsert =>
      rw [(insert_eq_some hinsert).2, Table.lookup_insert_eq] at hrow hrow'
      rw [if_neg (Ne.symm hid), Table.lookup_retain] at hrow
      split at hrow'
      · cases hrow'
        exact absurd hname.symm (of_decide_eq_true hrow.2)
      · exact halone.alone other row' (Table.lookup_retain.mp hrow').1 hname
    | renamed old new hold hfree himages =>
      rw [himages, Table.lookup_update_of_lookup hold] at hrow'
      split at hrow'
      · cases hrow'
        exact absurd hname.symm (ne_of_free hfree halone.there)
      · exact halone.alone other row' hrow' hname
    | deleted himages =>
      rw [himages, Table.lookup_erase_eq] at hrow'
      split at hrow'
      · cases hrow'
      · exact halone.alone other row' hrow' hname

variable [Codecs]

/-- The row is as it was behind every step. -/
def Keeps (id : Str) (row : ImageRow) (db : Library) (e : Event) : Prop :=
  ∀ db', step db e = some db' → db'.images.lookup id = some row

theorem alone_of_run {es : List Event} (halone : Alone db.images id row)
    (hrun : machine.Run (Keeps id row) db es db') : Alone db'.images id row :=
  hrun.invariant (I := fun db => Alone db.images id row) halone
    fun _ _ _ h hkeeps hstep => h.kept (step_change hstep) (hkeeps _ hstep)

end Alone

end Ruscker.Admin.ImageStore
