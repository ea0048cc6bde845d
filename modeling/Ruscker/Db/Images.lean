import Ruscker.Db.Landing
import Ruscker.Db.Specs
import Ruscker.Lib.Tokens

/-!
# The image library

Images are stored under a file name, whatever made it: an upload normalises the name it
gets, an import keeps that of the file, a rename keeps the extension.  An image is renamed or
deleted in one transaction with the specs and the landing page that were made to follow.
-/

namespace Ruscker

open Tables

/-! ## Names -/

/-- One component of a path. -/
def IsFilename (s : Str) : Prop := s ≠ [] ∧ '/' ∉ s

instance (s : Str) : Decidable (IsFilename s) := inferInstanceAs (Decidable (_ ∧ _))

abbrev Filename := { s : Str // IsFilename s }

/-- `Path::file_name` -/
def fileName (path : Str) : Option Str :=
  ((path.splitOnP fun c => c = '/').filter fun part => part ≠ [] ∧ part ≠ ['.']).getLast?.filter
    fun part => part ≠ ['.', '.']

def isNameChar (c : Char) : Bool := c.isAlphanum || c = '.' || c = '-' || c = '_'

def sanitizeBasename (name : Str) : Str :=
  ((((fileName name).getD []).dropWhile fun c => c = '.').filter isNameChar).map Char.toLower

def rewriteExtension (name newExt : Str) : Str :=
  ((Str.rsplitOnce '.' name).elim name Prod.fst) ++ '.' :: newExt

/-- The name an upload is stored under; the extension is that of the stored format. -/
def uploadName (raw ext : Str) : Option Str :=
  if sanitizeBasename raw = [] then none else some (rewriteExtension (sanitizeBasename raw) ext)

/-- An imported file keeps its name, unless it is a hidden one. -/
def importName (raw : Str) : Option Str := (fileName raw).filter fun name => name.head? ≠ some '.'

def extension (name : Str) : Str := (Str.rsplitOnce '.' name).elim [] Prod.snd

/-- The new name of an image: what is left of the request, with the extension it had. -/
def renamedTo (old newname : Str) : Option Str :=
  let san := sanitizeBasename newname
  if Tokens.trim (fun c => c = '.') san = [] then none
  else some (if extension old = [] then san else rewriteExtension san (extension old))

theorem isFilename_fileName {path name : Str} (h : fileName path = some name) :
    IsFilename name := by
  obtain ⟨hlast, -⟩ := Option.filter_eq_some_iff.mp h
  obtain ⟨hpart, hkeep⟩ := List.mem_filter.mp (List.mem_of_getLast? hlast)
  refine ⟨(of_decide_eq_true hkeep).1, fun hslash => ?_⟩
  simpa using (Tokens.mem_piece hpart hslash).2

theorem isNameChar_iff {c : Char} :
    isNameChar c = true ↔ (48 ≤ c.toNat ∧ c.toNat ≤ 57) ∨ (65 ≤ c.toNat ∧ c.toNat ≤ 90) ∨
      (97 ≤ c.toNat ∧ c.toNat ≤ 122) ∨ c.toNat = 46 ∨ c.toNat = 45 ∨ c.toNat = 95 := by
  have hdot : c = '.' ↔ c.toNat = 46 := Char.toNat_inj.symm
  have hdash : c = '-' ↔ c.toNat = 45 := Char.toNat_inj.symm
  have hunder : c = '_' ↔ c.toNat = 95 := Char.toNat_inj.symm
  have hupper : c.isUpper = true ↔ 65 ≤ c.toNat ∧ c.toNat ≤ 90 := by
    change decide _ = true ↔ _
    rw [decide_eq_true_iff]
    rfl
  have hlower : c.isLower = true ↔ 97 ≤ c.toNat ∧ c.toNat ≤ 122 := by
    change (decide _ && decide _) = true ↔ _
    rw [Bool.and_eq_true, decide_eq_true_iff, decide_eq_true_iff]
    rfl
  have hdigit : c.isDigit = true ↔ 48 ≤ c.toNat ∧ c.toNat ≤ 57 := by
    rw [Char.isDigit, Bool.and_eq_true, decide_eq_true_iff, decide_eq_true_iff]
    rfl
  have halphanum : c.isAlphanum = (c.isUpper || c.isLower || c.isDigit) := rfl
  simp only [isNameChar, halphanum, Bool.or_eq_true, decide_eq_true_eq, hdot, hdash, hunder, hupper,
    hlower, hdigit]
  omega

theorem isNameChar_toLower {c : Char} (h : isNameChar c = true) : isNameChar c.toLower = true := by
  rw [isNameChar_iff] at h ⊢
  rw [toNat_toLower]
  split <;> omega

theorem isNameChar_of_mem_sanitizeBasename {name : Str} {c : Char}
    (h : c ∈ sanitizeBasename name) : isNameChar c = true := by
  obtain ⟨c, hc, rfl⟩ := List.mem_map.mp h
  exact isNameChar_toLower (List.mem_filter.mp hc).2

theorem mem_rewriteExtension {name newExt : Str} {c : Char} (h : c ∈ rewriteExtension name newExt) :
    c ∈ name ∨ c = '.' ∨ c ∈ newExt := by
  unfold rewriteExtension at h
  cases hcut : Str.rsplitOnce '.' name with
  | none => simpa [hcut] using h
  | some p =>
    simp only [hcut, Option.elim_some, List.mem_append, List.mem_cons] at h
    exact h.imp_left fun hc => by
      rw [Str.rsplitOnce_eq_some hcut]
      exact List.mem_append_left _ hc

theorem mem_of_mem_extension {name : Str} {c : Char} (h : c ∈ extension name) : c ∈ name := by
  unfold extension at h
  cases hcut : Str.rsplitOnce '.' name with
  | none => simp [hcut] at h
  | some p =>
    rw [hcut] at h
    rw [Str.rsplitOnce_eq_some hcut]
    exact List.mem_append_right _ (List.mem_cons_of_mem _ h)

/-- Every character of a new name is an admissible one or comes from the old name. -/
theorem mem_renamedTo {old newname new : Str} (h : renamedTo old newname = some new) {c : Char}
    (hc : c ∈ new) : isNameChar c = true ∨ c ∈ old := by
  unfold renamedTo at h
  dsimp only at h
  split at h
  · cases h
  · cases h
    split at hc
    · exact .inl (isNameChar_of_mem_sanitizeBasename hc)
    · rcases mem_rewriteExtension hc with hc | rfl | hc
      · exact .inl (isNameChar_of_mem_sanitizeBasename hc)
      · exact .inl rfl
      · exact .inr (mem_of_mem_extension hc)

theorem renamedTo_ne_nil {old newname new : Str} (h : renamedTo old newname = some new) :
    new ≠ [] := by
  unfold renamedTo at h
  dsimp only at h
  split at h
  · cases h
  · next hsan =>
    cases h
    split
    · rintro hnil
      rw [hnil] at hsan
      exact hsan rfl
    · exact List.append_ne_nil_of_right_ne_nil _ (List.cons_ne_nil _ _)

theorem isFilename_renamedTo {old newname new : Str} (hold : IsFilename old)
    (h : renamedTo old newname = some new) : IsFilename new :=
  ⟨renamedTo_ne_nil h, fun hslash =>
    (mem_renamedTo h hslash).elim (fun hc => by cases hc) hold.2⟩

theorem isFilename_rewriteExtension {raw ext : Str} (hext : '/' ∉ ext) :
    IsFilename (rewriteExtension (sanitizeBasename raw) ext) := by
  refine ⟨List.append_ne_nil_of_right_ne_nil _ (List.cons_ne_nil _ _), fun hslash => ?_⟩
  rcases mem_rewriteExtension hslash with hc | hc | hc
  · cases isNameChar_of_mem_sanitizeBasename hc
  · cases hc
  · exact hext hc

theorem isFilename_uploadName {raw ext name : Str} (hext : '/' ∉ ext)
    (h : uploadName raw ext = some name) : IsFilename name := by
  unfold uploadName at h
  split at h
  · cases h
  · cases h
    exact isFilename_rewriteExtension hext

theorem isFilename_importName {raw name : Str} (h : importName raw = some name) :
    IsFilename name :=
  isFilename_fileName (Option.filter_eq_some_iff.mp h).1

/-! ## Rows -/

structure ImageRow where
  filename : Filename
  mimeType : Str
  blob : List UInt8
  deriving DecidableEq

/-- The tables that a change of an image touches. -/
structure Library [Floats] where
  images : Table Str ImageRow
  specs : Specs Settings
  landing : LandingRow
  /-- actions and targets -/
  audit : List (Str × Str)
  written : landing.Written

namespace Library

variable [Floats]

def filenameTaken (db : Library) (name : Filename) : Bool :=
  db.images.entries.any fun e => e.2.filename = name

inductive ImageError where
  | taken
  | missing
  deriving DecidableEq

def auditImage (db : Library) (action : String) (id : Str) : Library :=
  { db with audit := db.audit ++ [(action.toList, "image:".toList ++ id)] }

/-- The specs and the customization that follow, in the transaction of their image. -/
def writeRefs (db : Library) (specs : List (Spec Settings))
    (landing : Option LandingCustomization) : Library where
  images := db.images
  specs := specs.foldl Specs.upsertOne db.specs
  landing := landing.elim db.landing LandingRow.updateInTx
  audit := db.audit ++ specs.map (fun s => ("spec.update".toList, "spec:".toList ++ s.id)) ++
    if landing.isSome then [("landing.update".toList, "landing:customization".toList)] else []
  written := by
    cases landing with
    | none => exact db.written
    | some lc => exact LandingRow.written_updateInTx lc

/-- A name in use and a row that is gone roll the transaction back. -/
def renameWithRefs (db : Library) (id : Str) (new : Filename) (specs : List (Spec Settings))
    (landing : Option LandingCustomization) : Except ImageError Library :=
  if db.images.entries.any fun e => e.2.filename = new && e.1 ≠ id then .error .taken
  else if (db.images.lookup id).isNone then .error .missing
  else
    let renamed := { db with images := Table.update db.images id fun row =>
      { row with filename := new } }
    .ok ((renamed.auditImage "image.rename" id).writeRefs specs landing)

def deleteWithRefs (db : Library) (id : Str) (specs : List (Spec Settings))
    (landing : Option LandingCustomization) : Option Filename × Library :=
  match db.images.lookup id with
  | none => (none, db)
  | some row =>
    let deleted := { db with images := db.images.erase id }
    (some row.filename, (deleted.auditImage "image.delete" id).writeRefs specs landing)

end Library

end Ruscker
