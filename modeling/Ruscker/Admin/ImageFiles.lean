import Mathlib.Data.List.Infix
import Ruscker.Db.Images
import Ruscker.Lib.Utf8

/-!
# Image files

What kind of image a file is, and what an upload or an import makes of it.  The decoders enter as a
class.
-/

namespace Ruscker.Admin.ImageFiles

/-- The libraries that look into images, and write them as WebP. -/
class Codecs where
  /-- `infer::get` -/
  infer : List UInt8 → Option Str
  Raster : Type
  intoDimensions : List UInt8 → Option (Nat × Nat)
  decode : List UInt8 → Option Raster
  dimensions : Raster → Nat × Nat
  writeWebp : Raster → Option (List UInt8)

section Libraries

variable [Codecs]

/-! ## Kinds -/

inductive SourceKind where
  | png | jpeg | webp | svg
  deriving DecidableEq

def svgTag : Str := "<svg".toList

def xmlTag : Str := "<?xml".toList

def looksLikeSvg (bytes : List UInt8) : Bool :=
  let text := ((Utf8.decode (bytes.take 512)).getD []).dropWhile isWhitespace
  (xmlTag.isPrefixOf text && decide (svgTag <:+: text)) || svgTag.isPrefixOf text

def rasterKind (mime : Str) : Option SourceKind :=
  if mime = "image/png".toList then some .png
  else if mime = "image/jpeg".toList then some .jpeg
  else if mime = "image/webp".toList then some .webp
  else none

/-- The bytes are asked first, and the declared type where they say nothing. -/
def detect (bytes : List UInt8) (suppliedMime : Option Str) : Option SourceKind :=
  match (Codecs.infer bytes).bind rasterKind with
  | some kind => some kind
  | none =>
    if looksLikeSvg bytes then some .svg
    else suppliedMime.bind fun mime =>
      if mime = "image/svg+xml".toList then some .svg else rasterKind mime

/-! ## Rasters -/

def maxUploadBytes : Nat := 10 * 1024 * 1024
def maxImageDimension : Nat := 8192
def maxImagePixels : Nat := 16000000
def maxDecodeAllocBytes : Nat := 64 * 1024 * 1024

def digits (n : Nat) : Str := Nat.toDigits 10 n

/-- No product of two 32-bit numbers overflows. -/
def validateDimensions (width height : Nat) : Except Str Nat :=
  let limit := digits maxImageDimension
  let pixels := width * height
  if width = 0 || height = 0 then .error "image dimensions must be non-zero".toList
  else if maxImageDimension < width || maxImageDimension < height then
    .error ("image dimensions ".toList ++ digits width ++ 'x' :: digits height ++
      " exceed ".toList ++ limit ++ 'x' :: limit ++ " limit".toList)
  else if maxImagePixels < pixels then
    .error ("image has ".toList ++ digits pixels ++ " pixels; limit is ".toList ++
      digits maxImagePixels)
  else if maxDecodeAllocBytes < pixels * 4 then
    .error ("decoded image needs at least ".toList ++ digits (pixels * 4) ++
      " bytes; limit is ".toList ++ digits maxDecodeAllocBytes)
  else .ok pixels

def context {α : Type} (result : Option α) (message : String) : Except Str α :=
  result.elim (.error message.toList) .ok

def decodeDimensions (bytes : List UInt8) : Except Str (Nat × Nat) := do
  let dims ← context (Codecs.intoDimensions bytes) "read image dimensions"
  let _ ← validateDimensions dims.1 dims.2
  return dims

def decodeRaster (bytes : List UInt8) : Except Str Codecs.Raster := do
  let expected ← decodeDimensions bytes
  let img ← context (Codecs.decode bytes) "decode source image"
  if Codecs.dimensions img ≠ expected then
    throw "image dimensions changed while decoding".toList
  return img

def encodeToWebp (bytes : List UInt8) : Except Str (List UInt8 × Nat × Nat) := do
  let img ← decodeRaster bytes
  let out ← context (Codecs.writeWebp img) "write WebP"
  return (out, Codecs.dimensions img)

/-! ## Files -/

structure Processed where
  filename : Str
  mimeType : Str
  bytes : List UInt8
  width : Option Nat
  height : Option Nat

def svgFile (filename : Str) (bytes : List UInt8) : Processed :=
  ⟨filename, "image/svg+xml".toList, bytes, none, none⟩

def processUpload (rawFilename : Str) (suppliedMime : Option Str) (bytes : List UInt8) :
    Except Str Processed := do
  if maxUploadBytes < bytes.length then
    throw ("upload exceeds ".toList ++ digits (maxUploadBytes / 1024 / 1024) ++ " MB cap".toList)
  let kind ← context (detect bytes suppliedMime) "unsupported MIME (PNG/JPEG/WebP/SVG only)"
  let base := sanitizeBasename rawFilename
  if base = [] then throw "filename cannot be empty".toList
  match kind with
  | .webp =>
    let dims := Codecs.dimensions (← decodeRaster bytes)
    return ⟨rewriteExtension base "webp".toList, "image/webp".toList, bytes, some dims.1,
      some dims.2⟩
  | .svg => return svgFile (rewriteExtension base "svg".toList) bytes
  | .png | .jpeg =>
    let (webpBytes, dims) ← encodeToWebp bytes
    return ⟨rewriteExtension base "webp".toList, "image/webp".toList, webpBytes, some dims.1,
      some dims.2⟩

/-- An imported raster is decoded and kept as it is. -/
def importRaster (filename : Str) (mime : String) (bytes : List UInt8) : Option Processed :=
  (decodeRaster bytes).toOption.map fun img =>
    ⟨filename, mime.toList, bytes, some (Codecs.dimensions img).1, some (Codecs.dimensions img).2⟩

def processForImport (rawFilename : Str) (bytes : List UInt8) : Option Processed :=
  if bytes = [] || maxUploadBytes < bytes.length then none
  else
    (detect bytes none).bind fun kind =>
      (importName rawFilename).bind fun filename =>
        match kind with
        | .png => importRaster filename "image/png" bytes
        | .jpeg => importRaster filename "image/jpeg" bytes
        | .webp => importRaster filename "image/webp" bytes
        | .svg => some (svgFile filename bytes)

/-! ## Documents -/

section Documents

variable {s t : Str}

/-- The tag ends within the first 512 bytes. -/
def TagIsNear (s : Str) : Prop :=
  ∃ a, a ++ svgTag <+: s ∧ (Utf8.encode (a ++ svgTag)).length ≤ 512

/-- The first 512 bytes end between two characters, or the document does. -/
def CutIsClean (s : Str) : Prop := ∃ t, t <+: s ∧ Utf8.encode t = (Utf8.encode s).take 512

/-- After white space comes the tag, or an XML declaration with the tag not far. -/
def IsSvgDocument (s : Str) : Prop :=
  svgTag <+: s.dropWhile isWhitespace ∨ (xmlTag <+: s.dropWhile isWhitespace ∧ TagIsNear s)

/-- What the document is for, whatever its type is declared to be. -/
structure TakenAsSvg (s : Str) : Prop where
  detected : ∀ suppliedMime, detect (Utf8.encode s) suppliedMime = some .svg
  uploaded : (Utf8.encode s).length ≤ maxUploadBytes → ∀ rawFilename suppliedMime,
    sanitizeBasename rawFilename ≠ [] → processUpload rawFilename suppliedMime (Utf8.encode s) =
      .ok (svgFile (rewriteExtension (sanitizeBasename rawFilename) "svg".toList) (Utf8.encode s))
  imported : (Utf8.encode s).length ≤ maxUploadBytes → ∀ rawFilename filename,
    importName rawFilename = some filename →
      processForImport rawFilename (Utf8.encode s) = some (svgFile filename (Utf8.encode s))

omit [Codecs] in
/-- A clean beginning of 512 bytes has every tag that is near. -/
theorem infix_of_near (htake : Utf8.encode t = (Utf8.encode s).take 512) (ht : t <+: s)
    (hnear : TagIsNear s) : svgTag <:+: t := by
  obtain ⟨a, ha, hlength⟩ := hnear
  have hle : (Utf8.encode (a ++ svgTag)).length ≤ (Utf8.encode s).length :=
    (Utf8.encode_prefix_iff.mpr ha).length_le
  have hpre : a ++ svgTag <+: t := by
    refine Utf8.prefix_of_length_encode_le ha ht ?_
    rw [htake, List.length_take]
    omega
  exact (List.suffix_append a svgTag).isInfix.trans hpre.isInfix

omit [Codecs] in
theorem near_of_infix (htake : Utf8.encode t = (Utf8.encode s).take 512) (ht : t <+: s)
    (htag : svgTag <:+: t) : TagIsNear s := by
  obtain ⟨a, b, rfl⟩ := htag
  have hpre : a ++ svgTag <+: a ++ svgTag ++ b := List.prefix_append _ _
  refine ⟨a, hpre.trans ht, ?_⟩
  have hle := (Utf8.encode_prefix_iff.mpr hpre).length_le
  rw [htake, List.length_take] at hle
  omega

omit [Codecs] in
/-- A beginning with the tag goes beyond the white space, and has the tag there. -/
theorem tag_behind_blank (ht : t <+: s) (htag : svgTag <:+: t) :
    ∃ a b, t.dropWhile isWhitespace = a ++ (svgTag ++ b) ∧
      t.dropWhile isWhitespace <+: s.dropWhile isWhitespace := by
  obtain ⟨a, b, rfl⟩ := htag
  obtain ⟨rest, rfl⟩ := ht
  have hdrop : ∀ u : Str, (a ++ (svgTag ++ u)).dropWhile isWhitespace =
      a.dropWhile isWhitespace ++ (svgTag ++ u) := by
    intro u
    induction a with
    | nil => rfl
    | cons c a ih =>
      rw [List.cons_append, List.dropWhile_cons, List.dropWhile_cons]
      split
      · exact ih
      · rfl
  refine ⟨a.dropWhile isWhitespace, b, ?_, ?_⟩
  · rw [List.append_assoc, hdrop]
  · rw [List.append_assoc, List.append_assoc, List.append_assoc, hdrop, hdrop]
    exact ⟨rest, by simp only [List.append_assoc]⟩

omit [Codecs] in
theorem looksLikeSvg_of_clean (htake : Utf8.encode t = (Utf8.encode s).take 512) (ht : t <+: s)
    (htag : svgTag <:+: t) (hdocument : IsSvgDocument s) :
    looksLikeSvg (Utf8.encode s) = true := by
  obtain ⟨a, b, htext, hpre⟩ := tag_behind_blank ht htag
  unfold looksLikeSvg
  rw [← htake, Utf8.decode_encode, Option.getD_some]
  dsimp only
  have hlength : a.length + 4 ≤ (t.dropWhile isWhitespace).length := by
    rw [htext, List.length_append, List.length_append, show svgTag.length = 4 from rfl]
    omega
  rcases hdocument with hsvg | ⟨hxml, -⟩
  · have hstart : svgTag <+: t.dropWhile isWhitespace := by
      refine List.prefix_of_prefix_length_le hsvg hpre ?_
      rw [show svgTag.length = 4 from rfl]
      omega
    rw [List.isPrefixOf_iff_prefix.mpr hstart, Bool.or_true]
  · -- the declaration is in front of the tag
    have hne : a ≠ [] := by
      rintro rfl
      have hsvg : svgTag <+: s.dropWhile isWhitespace :=
        (htext ▸ List.prefix_append svgTag b).trans hpre
      exact absurd (List.prefix_of_prefix_length_le hsvg hxml (by decide)) (by decide)
    have hstart : xmlTag <+: t.dropWhile isWhitespace := by
      refine List.prefix_of_prefix_length_le hxml hpre ?_
      have hpos := List.length_pos_iff.mpr hne
      rw [show xmlTag.length = 5 from rfl]
      omega
    have hin : svgTag <:+: t.dropWhile isWhitespace := by
      rw [htext, ← List.append_assoc]
      exact ⟨a, b, rfl⟩
    rw [List.isPrefixOf_iff_prefix.mpr hstart, decide_eq_true hin]
    rfl

omit [Codecs] in
theorem tag_of_looksLikeSvg (h : looksLikeSvg (Utf8.encode s) = true) :
    ∃ t, t <+: s ∧ Utf8.encode t = (Utf8.encode s).take 512 ∧ svgTag <:+: t := by
  unfold looksLikeSvg at h
  cases hdecode : Utf8.decode ((Utf8.encode s).take 512) with
  | none =>
    rw [hdecode] at h
    cases h
  | some t =>
    rw [hdecode, Option.getD_some] at h
    have htake := Utf8.decode_eq_some_iff.mp hdecode
    have ht : t <+: s := Utf8.encode_prefix_iff.mp (htake ▸ List.take_prefix _ _)
    have hdrop := (List.dropWhile_suffix isWhitespace (l := t)).isInfix
    refine ⟨t, ht, htake.symm, List.IsInfix.trans ?_ hdrop⟩
    simp only [Bool.or_eq_true, Bool.and_eq_true, decide_eq_true_eq,
      List.isPrefixOf_iff_prefix] at h
    rcases h with ⟨-, htag⟩ | htag
    · exact htag
    · exact htag.isInfix

omit [Codecs] in
theorem looksLikeSvg_iff (hdocument : IsSvgDocument s) :
    looksLikeSvg (Utf8.encode s) = true ↔ CutIsClean s ∧ TagIsNear s := by
  constructor
  · intro h
    obtain ⟨t, ht, htake, htag⟩ := tag_of_looksLikeSvg h
    exact ⟨⟨t, ht, htake⟩, near_of_infix htake ht htag⟩
  · rintro ⟨⟨t, ht, htake⟩, hnear⟩
    exact looksLikeSvg_of_clean htake ht (infix_of_near htake ht hnear) hdocument

/-- What the sniffed signature does not decide, the text does. -/
theorem detect_of_no_signature {bytes : List UInt8}
    (hinfer : (Codecs.infer bytes).bind rasterKind = none) :
    (∀ suppliedMime, detect bytes suppliedMime = some .svg) ↔ looksLikeSvg bytes = true := by
  simp only [detect, hinfer]
  constructor
  · intro h
    by_contra hnot
    have hnone := h none
    rw [if_neg hnot] at hnone
    cases hnone
  · intro h suppliedMime
    rw [if_pos h]

theorem processUpload_of_svg {rawFilename : Str} {suppliedMime : Option Str} {bytes : List UInt8}
    (hkind : detect bytes suppliedMime = some .svg) (hlength : bytes.length ≤ maxUploadBytes)
    (hbase : sanitizeBasename rawFilename ≠ []) : processUpload rawFilename suppliedMime bytes =
      .ok (svgFile (rewriteExtension (sanitizeBasename rawFilename) "svg".toList) bytes) := by
  unfold processUpload
  rw [if_neg (Nat.not_lt.mpr hlength), hkind]
  dsimp only [context, Option.elim_some]
  simp only [if_neg hbase]
  rfl

theorem processForImport_of_svg {rawFilename filename : Str} {bytes : List UInt8}
    (hkind : detect bytes none = some .svg) (hlength : bytes.length ≤ maxUploadBytes)
    (hne : bytes ≠ []) (hname : importName rawFilename = some filename) :
    processForImport rawFilename bytes = some (svgFile filename bytes) := by
  unfold processForImport
  rw [if_neg, hkind, hname]
  · rfl
  · simp [hne, hlength]

omit [Codecs] in
theorem IsSvgDocument.encode_ne_nil (h : IsSvgDocument s) : Utf8.encode s ≠ [] := by
  have hne : s ≠ [] := by
    rintro rfl
    rcases h with h | ⟨h, -⟩
    · exact absurd (List.prefix_nil.mp h) (by decide)
    · exact absurd (List.prefix_nil.mp h) (by decide)
  intro hnil
  have hpre : s <+: [] := Utf8.encode_prefix_iff.mp (hnil ▸ List.nil_prefix)
  exact hne (List.prefix_nil.mp hpre)

/-- **Exactly when** a document without a raster signature is taken for what it is: its tag is
among the first 512 bytes, and they do not end within a character. -/
theorem takenAsSvg_iff (s : Str)
    (hinfer : (Codecs.infer (Utf8.encode s)).bind rasterKind = none)
    (hdocument : IsSvgDocument s) : TakenAsSvg s ↔ CutIsClean s ∧ TagIsNear s := by
  rw [← looksLikeSvg_iff hdocument, ← detect_of_no_signature hinfer]
  constructor
  · exact fun h => h.detected
  · intro h
    refine ⟨h, ?_, ?_⟩
    · intro hlength rawFilename suppliedMime hbase
      exact processUpload_of_svg (h suppliedMime) hlength hbase
    · intro hlength rawFilename filename hname
      exact processForImport_of_svg (h none) hlength hdocument.encode_ne_nil hname

omit [Codecs] in
/-- A character from byte 511 to byte 513 spoils the cut. -/
theorem not_cutIsClean {u rest : Str} {c : Char} (hbefore : (Utf8.encode u).length < 512)
    (hafter : 512 < (Utf8.encode (u ++ [c])).length) : ¬ CutIsClean (u ++ c :: rest) := by
  rintro ⟨t, ht, htake⟩
  have hu : u <+: u ++ c :: rest := List.prefix_append _ _
  have huc : u ++ [c] <+: u ++ c :: rest := ⟨rest, by simp⟩
  have hle := (Utf8.encode_prefix_iff.mpr huc).length_le
  have hlength : (Utf8.encode t).length = 512 := by
    rw [htake, List.length_take]
    omega
  obtain ⟨v, rfl⟩ := Utf8.prefix_of_length_encode_le hu ht (by omega)
  cases v with
  | nil =>
    rw [List.append_nil] at hlength
    omega
  | cons d v =>
    have hd : d = c := (List.cons_prefix_cons.mp ((List.prefix_append_right_inj u).mp ht)).1
    subst hd
    have hpre : u ++ [d] <+: u ++ d :: v := ⟨v, by simp⟩
    have hshort := (Utf8.encode_prefix_iff.mpr hpre).length_le
    omega

end Documents

end Libraries

/-! ## Two documents -/

section TwoDocuments

/-- Libraries that know no image. -/
@[reducible] def noCodecs : Codecs :=
  ⟨fun _ => none, Unit, fun _ => none, fun _ => none, fun _ => (0, 0), fun _ => none⟩

attribute [local instance] noCodecs

/-- A drawing with an accent across byte 512. -/
def accented : Str := "<svg>".toList ++ List.replicate 506 'a' ++ 'é' :: "</svg>".toList

theorem accented_refused :
    ¬ ∀ (_ : Codecs) (s : Str), (Codecs.infer (Utf8.encode s)).bind rasterKind = none →
        IsSvgDocument s → TakenAsSvg s := by
  intro hclaim
  have hdocument : IsSvgDocument accented := .inl (by decide +kernel)
  have htaken := hclaim noCodecs accented rfl hdocument
  have hlooks := (detect_of_no_signature rfl).mp htaken.detected
  exact not_cutIsClean (by decide +kernel) (by decide +kernel)
    ((looksLikeSvg_iff hdocument).mp hlooks).1

theorem takenAsSvg_small : TakenAsSvg " <svg>é</svg>".toList :=
  (takenAsSvg_iff _ rfl (.inl (by decide))).mpr
    ⟨⟨_, List.prefix_rfl, by decide +kernel⟩, [' '], by decide, by decide +kernel⟩

end TwoDocuments

end Ruscker.Admin.ImageFiles
