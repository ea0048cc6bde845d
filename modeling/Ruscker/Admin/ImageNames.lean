import Mathlib.Data.List.Chain
import Mathlib.Data.List.Infix
import Ruscker.Admin.ImageStore

/-!
# Dots in the names of images

Two dots in a row make a name that the reader of images refuses.  Where a stored name has them is
seen in the name that was given.
-/

namespace Ruscker.Admin.ImageNames

open ImageStore ImageFiles

/-! ## The last dot -/

/-- A name up to its last dot. -/
def stemOf (s : Str) : Str := (Str.rsplitOnce '.' s).elim s Prod.fst

section Stems

variable {s t : Str}

theorem exists_last_dot (h : '.' ∈ s) : ∃ a b, s = a ++ '.' :: b ∧ '.' ∉ b := by
  obtain ⟨b, a, hreverse, hb⟩ := List.eq_append_cons_of_mem (List.mem_reverse.mpr h)
  refine ⟨a.reverse, b.reverse, ?_, by simpa using hb⟩
  have heq := congrArg List.reverse hreverse
  simpa using heq

@[simp] theorem stemOf_append (h : '.' ∉ t) : stemOf (s ++ '.' :: t) = s := by
  rw [stemOf, Str.rsplitOnce_append h]
  rfl

theorem stemOf_of_notMem (h : '.' ∉ s) : stemOf s = s := by
  rw [stemOf, Str.rsplitOnce_of_notMem h]
  rfl

theorem rewriteExtension_eq (s ext : Str) : rewriteExtension s ext = stemOf s ++ '.' :: ext := rfl

theorem numbered_rewriteExtension {ext : Str} (h : '.' ∉ ext) (n : Nat) :
    numbered (rewriteExtension s ext) n = stemOf s ++ '-' :: digits n ++ '.' :: ext := by
  rw [numbered, rewriteExtension_eq, Str.rsplitOnce_append h]

/-- A map that keeps the dots, and only these, keeps the stem. -/
theorem stemOf_filterMap {f : Char → Option Char} (hf : ∀ c, f c = some '.' ↔ c = '.') :
    stemOf (s.filterMap f) = (stemOf s).filterMap f := by
  have hmem : ∀ u : Str, '.' ∈ u.filterMap f ↔ '.' ∈ u := by
    intro u
    rw [List.mem_filterMap]
    constructor
    · rintro ⟨c, hc, heq⟩
      exact (hf c).mp heq ▸ hc
    · exact fun hc => ⟨'.', hc, (hf '.').mpr rfl⟩
  by_cases hdot : '.' ∈ s
  · obtain ⟨a, b, rfl, hb⟩ := exists_last_dot hdot
    rw [stemOf_append hb, List.filterMap_append, List.filterMap_cons_some ((hf '.').mpr rfl),
      stemOf_append fun h => hb ((hmem b).mp h)]
  · rw [stemOf_of_notMem hdot, stemOf_of_notMem fun h => hdot ((hmem s).mp h)]

end Stems

/-! ## Two dots in a row -/

def HasDots (s : Str) : Prop := ['.', '.'] <:+: s

instance (s : Str) : Decidable (HasDots s) := inferInstanceAs (Decidable (_ <:+: _))

/-- Not both are dots. -/
def Apart (a b : Char) : Prop := ¬ (a = '.' ∧ b = '.')

section Dots

variable {s t ext : Str}

theorem hasDots_iff : HasDots s ↔ ∃ a b, s = a ++ '.' :: '.' :: b := by
  constructor
  · rintro ⟨a, b, rfl⟩
    exact ⟨a, b, by simp⟩
  · rintro ⟨a, b, rfl⟩
    exact ⟨a, b, by simp⟩

theorem not_hasDots_iff : ¬ HasDots s ↔ s.IsChain Apart := by
  rw [List.isChain_iff_forall_rel_of_append_cons_cons, hasDots_iff]
  constructor
  · rintro h a b l₁ l₂ heq ⟨rfl, rfl⟩
    exact h ⟨l₁, l₂, heq⟩
  · rintro h ⟨l₁, l₂, heq⟩
    exact h heq ⟨rfl, rfl⟩

theorem isChain_of_notMem (h : '.' ∉ s) : s.IsChain Apart := by
  rw [← not_hasDots_iff, hasDots_iff]
  rintro ⟨a, b, rfl⟩
  simp at h

/-- Behind a dot that is the last one only the front counts. -/
theorem hasDots_append_iff (h : '.' ∉ t) :
    HasDots (s ++ '.' :: t) ↔ HasDots s ∨ s.getLast? = some '.' := by
  have htail : ('.' :: t).IsChain Apart := by
    cases t with
    | nil => exact List.isChain_singleton _
    | cons c t =>
      refine List.isChain_cons_cons.mpr ⟨?_, isChain_of_notMem h⟩
      rintro ⟨-, rfl⟩
      exact h List.mem_cons_self
  rw [← not_iff_not, not_or, not_hasDots_iff, not_hasDots_iff, List.isChain_append]
  constructor
  · rintro ⟨hs, -, hlast⟩
    exact ⟨hs, fun heq => hlast '.' heq '.' rfl ⟨rfl, rfl⟩⟩
  · rintro ⟨hs, hlast⟩
    refine ⟨hs, htail, ?_⟩
    rintro x hx y - ⟨rfl, -⟩
    exact hlast hx

/-- Another extension neither brings two dots nor parts them. -/
theorem hasDots_rewriteExtension_iff (hext : '.' ∉ ext) :
    HasDots (rewriteExtension s ext) ↔ HasDots s := by
  rw [rewriteExtension_eq, hasDots_append_iff hext]
  by_cases hdot : '.' ∈ s
  · obtain ⟨a, b, rfl, hb⟩ := exists_last_dot hdot
    rw [stemOf_append hb, hasDots_append_iff hb]
  · rw [stemOf_of_notMem hdot]
    refine or_iff_left fun hlast => hdot ?_
    exact List.mem_of_getLast? hlast

theorem dot_notMem_digits (n : Nat) : '.' ∉ digits n := by
  intro h
  have hdigit := Nat.isDigit_of_mem_toDigits (by decide) (by decide) h
  cases hdigit

/-- A number in front of the extension leaves only the stem to count. -/
theorem hasDots_numbered_iff (hext : '.' ∉ ext) (n : Nat) :
    HasDots (numbered (rewriteExtension s ext) n) ↔ HasDots (stemOf s) := by
  have hnumber : '.' ∉ '-' :: digits n := by
    rw [List.mem_cons, not_or]
    exact ⟨by decide, dot_notMem_digits n⟩
  have hlast : ∀ u : Str, (u ++ '-' :: digits n).getLast? ≠ some '.' := by
    intro u heq
    rw [List.getLast?_append_of_ne_nil _ (List.cons_ne_nil _ _)] at heq
    exact hnumber (List.mem_of_getLast? heq)
  rw [numbered_rewriteExtension hext, hasDots_append_iff hext, or_iff_left (hlast _),
    ← not_iff_not, not_hasDots_iff, not_hasDots_iff, List.isChain_append]
  constructor
  · exact fun h => h.1
  · refine fun h => ⟨h, isChain_of_notMem hnumber, ?_⟩
    rintro x - y hy ⟨-, rfl⟩
    cases hy

end Dots

/-! ## Names as they are given -/

/-- The last component of a path behind its leading dots. -/
def nameBody (raw : Str) : Str := ((fileName raw).getD []).dropWhile fun c => c = '.'

/-- Two dots with nothing between them that is kept. -/
def DotsMeet (s : Str) : Prop :=
  ∃ a mid b, s = a ++ '.' :: (mid ++ '.' :: b) ∧ ∀ c ∈ mid, isNameChar c = false

def kept (c : Char) : Option Char := if isNameChar c then some c.toLower else none

section Given

variable {s raw : Str} {c : Char}

theorem kept_eq_dot : kept c = some '.' ↔ c = '.' := by
  constructor
  · intro h
    unfold kept at h
    split at h
    · have hnat := congrArg Char.toNat (Option.some.inj h)
      rw [toNat_toLower] at hnat
      apply Char.toNat_inj.mp
      split at hnat
      · next hupper =>
        have hdot : '.'.toNat = 46 := rfl
        omega
      · exact hnat
    · cases h
  · rintro rfl
    rfl

theorem kept_eq_none : kept c = none ↔ isNameChar c = false := by
  unfold kept
  split
  · next h => simp [h]
  · next h => simp [h]

theorem sanitizeBasename_eq (raw : Str) : sanitizeBasename raw = (nameBody raw).filterMap kept := by
  change ((nameBody raw).filter isNameChar).map Char.toLower = _
  induction nameBody raw with
  | nil => rfl
  | cons c s ih =>
    rw [List.filter_cons, List.filterMap_cons, kept]
    split
    · rw [List.map_cons, ih]
    · exact ih

theorem hasDots_kept_iff : HasDots (s.filterMap kept) ↔ DotsMeet s := by
  rw [hasDots_iff]
  constructor
  · rintro ⟨l₁, l₂, heq⟩
    obtain ⟨a, s', rfl, -, hs'⟩ := List.filterMap_eq_append_iff.mp heq
    obtain ⟨x, d, t, rfl, -, hd, ht⟩ := List.filterMap_eq_cons_iff.mp hs'
    obtain ⟨mid, d', b, rfl, hmid, hd', -⟩ := List.filterMap_eq_cons_iff.mp ht
    obtain rfl := kept_eq_dot.mp hd
    obtain rfl := kept_eq_dot.mp hd'
    exact ⟨a ++ x, mid, b, by simp, fun c hc => kept_eq_none.mp (hmid c hc)⟩
  · rintro ⟨a, mid, b, rfl, hmid⟩
    have hnone : mid.filterMap kept = [] :=
      List.filterMap_eq_nil_iff.mpr fun c hc => kept_eq_none.mpr (hmid c hc)
    have hdot : kept '.' = some '.' := rfl
    exact ⟨a.filterMap kept, b.filterMap kept, by simp [hnone, hdot]⟩

theorem hasDots_sanitizeBasename_iff :
    HasDots (sanitizeBasename raw) ↔ DotsMeet (nameBody raw) := by
  rw [sanitizeBasename_eq, hasDots_kept_iff]

theorem hasDots_stemOf_sanitizeBasename_iff :
    HasDots (stemOf (sanitizeBasename raw)) ↔ DotsMeet (stemOf (nameBody raw)) := by
  rw [sanitizeBasename_eq, stemOf_filterMap fun _ => kept_eq_dot, hasDots_kept_iff]

end Given

/-! ## Stored names -/

section Stored

variable {rawFilename newname : Str} {suppliedMime : Option Str} {bytes : List UInt8}
  {p : Processed}

theorem dot_notMem_extension (old : Str) : '.' ∉ extension old := by
  unfold extension
  by_cases hdot : '.' ∈ old
  · obtain ⟨a, b, rfl, hb⟩ := exists_last_dot hdot
    rw [Str.rsplitOnce_append hb]
    exact hb
  · rw [Str.rsplitOnce_of_notMem hdot]
    exact List.not_mem_nil

theorem hasDots_renamedTo_iff {old new : Str} (h : renamedTo old newname = some new) :
    HasDots new ↔ DotsMeet (nameBody newname) := by
  rw [← hasDots_sanitizeBasename_iff]
  unfold renamedTo at h
  dsimp only at h
  split at h
  · cases h
  · cases h
    split
    · exact Iff.rfl
    · exact hasDots_rewriteExtension_iff (dot_notMem_extension old)

variable [Codecs]

/-- An upload is named after the format it is stored in. -/
theorem processUpload_filename (h : processUpload rawFilename suppliedMime bytes = .ok p) :
    ∃ ext, ('.' ∉ ext ∧ '/' ∉ ext) ∧
      p.filename = rewriteExtension (sanitizeBasename rawFilename) ext := by
  have hwebp : '.' ∉ "webp".toList ∧ '/' ∉ "webp".toList := by decide
  have hsvg : '.' ∉ "svg".toList ∧ '/' ∉ "svg".toList := by decide
  unfold processUpload at h
  split at h
  · cases h
  · obtain ⟨kind, -, h⟩ := Guards.accepted_bind.mp h
    dsimp only at h
    split at h
    · cases h
    · cases kind with
      | webp =>
        obtain ⟨img, -, h⟩ := Guards.accepted_bind.mp h
        cases Guards.accepted_pure.mp h
        exact ⟨_, hwebp, rfl⟩
      | svg =>
        cases Guards.accepted_pure.mp h
        exact ⟨_, hsvg, rfl⟩
      | png =>
        obtain ⟨img, -, h⟩ := Guards.accepted_bind.mp h
        cases Guards.accepted_pure.mp h
        exact ⟨_, hwebp, rfl⟩
      | jpeg =>
        obtain ⟨img, -, h⟩ := Guards.accepted_bind.mp h
        cases Guards.accepted_pure.mp h
        exact ⟨_, hwebp, rfl⟩

theorem processForImport_filename (h : processForImport rawFilename bytes = some p) :
    importName rawFilename = some p.filename := by
  have hraster : ∀ filename mime, importRaster filename mime bytes = some p →
      p.filename = filename := by
    intro filename mime hp
    obtain ⟨img, -, rfl⟩ := Option.map_eq_some_iff.mp hp
    rfl
  unfold processForImport at h
  split at h
  · cases h
  · obtain ⟨kind, -, h⟩ := Option.bind_eq_some_iff.mp h
    obtain ⟨filename, hname, h⟩ := Option.bind_eq_some_iff.mp h
    rw [hname, Option.some.injEq]
    cases kind with
    | png => exact (hraster _ _ h).symm
    | jpeg => exact (hraster _ _ h).symm
    | webp => exact (hraster _ _ h).symm
    | svg =>
      cases h
      rfl

theorem isFilename_processForImport (h : processForImport rawFilename bytes = some p) :
    IsFilename p.filename :=
  isFilename_importName (processForImport_filename h)

end Stored

section Steps

variable [Floats] {db db' : Library}

theorem hasDots_uniqueFilename_iff {rawFilename name ext : Str} (hext : '.' ∉ ext)
    (h : uniqueFilename db (rewriteExtension (sanitizeBasename rawFilename) ext) = some name) :
    HasDots name ↔
      if filenameTaken db (rewriteExtension (sanitizeBasename rawFilename) ext) = true then
        DotsMeet (stemOf (nameBody rawFilename))
      else DotsMeet (nameBody rawFilename) := by
  unfold uniqueFilename at h
  split at h
  · next hfree =>
    cases h
    rw [Bool.not_eq_true'] at hfree
    rw [hfree, if_neg Bool.false_ne_true, hasDots_rewriteExtension_iff hext,
      hasDots_sanitizeBasename_iff]
  · next htaken =>
    obtain ⟨n, -, rfl⟩ := List.mem_map.mp (List.mem_of_find?_eq_some h)
    rw [Bool.not_eq_true', Bool.not_eq_false] at htaken
    rw [if_pos htaken, hasDots_numbered_iff hext, hasDots_stemOf_sanitizeBasename_iff]

variable [Codecs]

/-- Every name that an upload gets is one component of a path, so none is lost. -/
theorem isFilename_uniqueFilename {rawFilename name : Str} {suppliedMime : Option Str}
    {bytes : List UInt8} {p : Processed} (hp : processUpload rawFilename suppliedMime bytes = .ok p)
    (h : uniqueFilename db p.filename = some name) : IsFilename name := by
  obtain ⟨ext, ⟨hdot, hext⟩, hfilename⟩ := processUpload_filename hp
  have hbase : IsFilename (rewriteExtension (sanitizeBasename rawFilename) ext) :=
    isFilename_rewriteExtension hext
  rw [hfilename] at h
  unfold uniqueFilename at h
  split at h
  · cases h
    exact hbase
  · obtain ⟨n, -, rfl⟩ := List.mem_map.mp (List.mem_of_find?_eq_some h)
    rw [numbered_rewriteExtension hdot]
    refine ⟨List.append_ne_nil_of_right_ne_nil _ (List.cons_ne_nil _ _), fun hmem => ?_⟩
    rw [List.append_assoc, List.cons_append, List.mem_append, List.mem_cons,
      List.mem_append] at hmem
    have hslash := hbase.2
    rw [rewriteExtension_eq, List.mem_append] at hslash
    rcases hmem with hc | hc | hc | hc
    · exact hslash (.inl hc)
    · cases hc
    · cases Nat.isDigit_of_mem_toDigits (by decide) (by decide) hc
    · exact hslash (.inr hc)

/-- An image has the name that the upload is normalised to. -/
def NameTaken (db : Library) (rawFilename : Str) (suppliedMime : Option Str)
    (bytes : List UInt8) : Prop :=
  ∃ p, processUpload rawFilename suppliedMime bytes = .ok p ∧ filenameTaken db p.filename = true

/-- Two dots come together in the name that is given, for an upload under a number in front of the
last dot, and for an import as they stand. -/
def BringsDots (db : Library) : Event → Prop
  | .upload _ rawFilename suppliedMime bytes =>
    (NameTaken db rawFilename suppliedMime bytes ∧ DotsMeet (stemOf (nameBody rawFilename))) ∨
      (¬ NameTaken db rawFilename suppliedMime bytes ∧ DotsMeet (nameBody rawFilename))
  | .importFile _ rawFilename _ => ∃ name, fileName rawFilename = some name ∧ HasDots name
  | .rename _ _ newname => DotsMeet (nameBody newname)
  | .delete _ _ => False

variable {e : Event} {row : ImageRow}

/-- A stored name has two dots just when the given one brings them. -/
theorem hasDots_stored_iff (hstep : step db e = some db')
    (hrow : db'.images.lookup e.id = some row) : HasDots row.filename ↔ BringsDots db e := by
  cases e with
  | upload id rawFilename suppliedMime bytes =>
    obtain ⟨p, name, row', hp, hname, hrowOf, hinsert⟩ := upload_eq_some hstep
    cases hrow.symm.trans (lookup_of_insert hinsert)
    obtain ⟨ext, ⟨hext, -⟩, hfilename⟩ := processUpload_filename hp
    have htaken : NameTaken db rawFilename suppliedMime bytes ↔
        filenameTaken db p.filename = true := by
      constructor
      · rintro ⟨p', hp', h⟩
        cases hp.symm.trans hp'
        exact h
      · exact fun h => ⟨p, hp, h⟩
    rw [hfilename] at hname htaken
    rw [(rowOf_eq_some hrowOf).1, hasDots_uniqueFilename_iff hext hname, BringsDots, htaken]
    split
    · next h => simp [h]
    · next h => simp [h]
  | importFile id rawFilename bytes =>
    obtain ⟨p, row', hp, hrowOf, hinsert⟩ := importFile_eq_some hstep
    cases hrow.symm.trans (lookup_of_insert hinsert)
    have hname := (Option.filter_eq_some_iff.mp (processForImport_filename hp)).1
    rw [(rowOf_eq_some hrowOf).1, BringsDots, hname]
    simp
  | rename faults id newname =>
    obtain ⟨old, new, hold, hnew, -, himages⟩ := rename_eq_some hstep
    have hlookup : db'.images.lookup id = some { old with filename := new } := by
      rw [himages, Tables.Table.lookup_update_of_lookup hold, if_pos rfl]
    cases hrow.symm.trans hlookup
    exact hasDots_renamedTo_iff (Images.newFilename_eq_some hnew)
  | delete faults id =>
    have himages := delete_eq_some hstep
    change db'.images.lookup id = some row at hrow
    rw [himages, Tables.Table.lookup_erase_eq, if_pos rfl] at hrow
    cases hrow

end Steps

end Ruscker.Admin.ImageNames
