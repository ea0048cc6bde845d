import Ruscker.Admin.ImageNames
import Ruscker.Lib.Percent
import Ruscker.Routes.Assets

/-!
# Requests for the images of the library

An image is asked for under its name, percent-encoded as the last segment of a path.  Its bytes come
from the database first and from a directory where the database has none.
-/

namespace Ruscker.Routes.CardImages

open Admin Admin.ImageStore Admin.ImageNames Admin.ImageFiles Tables Machines Machines.Machine

/-! ## Paths -/

/-- What a path stands for without an escape. -/
def isUnreserved (b : UInt8) : Bool :=
  (48 ≤ b && b ≤ 57) || (65 ≤ b && b ≤ 90) || (97 ≤ b && b ≤ 122) || b = 45 || b = 46 || b = 95 ||
    b = 126

def imagePath (filename : Str) : List UInt8 :=
  Utf8.encode Images.imageRoute ++ Percent.encode isUnreserved (Utf8.encode filename)

/-- The parameter of the route, one segment of the path. -/
def segmentOf (path : List UInt8) : Option (List UInt8) :=
  (path.dropPrefix? (Utf8.encode Images.imageRoute)).filter fun segment =>
    segment ≠ [] && !segment.contains 47

def pathParam (segment : List UInt8) : Option Str := Utf8.decode (Percent.decode segment)

theorem segmentOf_imagePath {filename : Str} (h : filename ≠ []) :
    segmentOf (imagePath filename) =
      some (Percent.encode isUnreserved (Utf8.encode filename)) := by
  have hdrop : (imagePath filename).dropPrefix? (Utf8.encode Images.imageRoute) =
      some (Percent.encode isUnreserved (Utf8.encode filename)) :=
    List.dropPrefix?_eq_some_iff.mpr ⟨_, rfl, BEq.rfl⟩
  have hencode : Utf8.encode filename ≠ [] := fun hnil =>
    h (List.prefix_nil.mp (Utf8.encode_prefix_iff.mp (hnil ▸ List.nil_prefix)))
  have hslash : 47 ∉ Percent.encode isUnreserved (Utf8.encode filename) :=
    Percent.slash_notMem_encode rfl _
  rw [segmentOf, hdrop, Option.filter_some, if_pos]
  simp [Percent.encode_ne_nil hencode, hslash]

theorem pathParam_encode (filename : Str) :
    pathParam (Percent.encode isUnreserved (Utf8.encode filename)) = some filename := by
  rw [pathParam, Percent.decode_encode rfl, Utf8.decode_encode]

/-! ## The handler -/

section Handler

variable {η : Type}

structure ImageRequest (η : Type) where
  path : List UInt8
  wantThumb : Bool
  /-- does the validator of the client match this digest? -/
  ifNoneMatch : η → Bool

/-- A request for an image alone. -/
def plain (filename : Str) : ImageRequest η := ⟨imagePath filename, false, fun _ => false⟩

inductive Reply where
  | badRequest
  | notFound
  | notModified
  | image (mime : Str) (bytes : List UInt8)
  deriving DecidableEq

structure Params (η : Type) where
  contentHash : List UInt8 → η
  thumbnailWebp : List UInt8 → Option (List UInt8)

/-- `IMAGE_DIGEST` and `THUMB_CACHE` -/
structure Caches (η : Type) where
  digest : Str → Option η
  thumbs : Str → η → Option (List UInt8)

def mimeFromExtension (name : Str) : Str :=
  match (Str.rsplitOnce '.' name).map fun p => p.2.map Char.toLower with
  | some ext =>
    if ext = "webp".toList then "image/webp".toList
    else if ext = "png".toList then "image/png".toList
    else if ext = "jpg".toList || ext = "jpeg".toList then "image/jpeg".toList
    else if ext = "svg".toList then "image/svg+xml".toList
    else if ext = "gif".toList then "image/gif".toList
    else "application/octet-stream".toList
  | none => "application/octet-stream".toList

/-- The rows, where there is a database that answers, and then the images directory. -/
def fetchImageBytes (images : Option (Table Str ImageRow)) (disk : Str → Option (List UInt8))
    (filename : Str) : Option (Str × List UInt8) :=
  (images.bind fun images => fetchByFilename images filename).or
    ((disk filename).map fun bytes => (mimeFromExtension filename, bytes))

variable (P : Params η)

def serveThumbnailBytes (req : ImageRequest η) (thumb : List UInt8) : Reply :=
  if req.ifNoneMatch (P.contentHash thumb) then .notModified
  else .image "image/webp".toList thumb

/-- What the caches answer alone. -/
def warmReply (caches : Caches η) (req : ImageRequest η) (filename : Str) : Option Reply :=
  (caches.digest filename).bind fun hash =>
    if req.wantThumb then (caches.thumbs filename hash).map (serveThumbnailBytes P req)
    else if req.ifNoneMatch hash then some .notModified
    else none

/-- With the bytes at hand: the thumbnail, where one is wanted and can be made, or the image. -/
def coldReply (caches : Caches η) (req : ImageRequest η) (filename mime : Str)
    (bytes : List UInt8) : Reply :=
  let hash := P.contentHash bytes
  let thumb :=
    if req.wantThumb && mime ≠ "image/svg+xml".toList then
      (caches.thumbs filename hash).or (P.thumbnailWebp bytes)
    else none
  match thumb with
  | some thumb => serveThumbnailBytes P req thumb
  | none => if req.ifNoneMatch hash then .notModified else .image mime bytes

def serveCardImage (caches : Caches η) (fetch : Str → Option (Str × List UInt8))
    (req : ImageRequest η) : Reply :=
  match segmentOf req.path with
  | none => .notFound
  | some segment =>
    match pathParam segment with
    | none => .badRequest
    | some filename =>
      if Assets.State.badName filename then .badRequest
      else
        match warmReply P caches req filename with
        | some reply => reply
        | none =>
          match fetch filename with
          | none => .notFound
          | some (mime, bytes) => coldReply P caches req filename mime bytes

variable {caches : Caches η} {images : Table Str ImageRow} {disk : Str → Option (List UInt8)}
  {id : Str} {row : ImageRow}

/-- A name is refused for two dots in a row alone. -/
theorem badName_iff {filename : Str} (h : IsFilename filename) :
    Assets.State.badName filename = true ↔ HasDots filename := by
  simp [Assets.State.badName, HasDots, h.2]

theorem serveCardImage_plain (halone : Alone images id row) :
    serveCardImage P caches (fetchImageBytes (some images) disk) (plain row.filename) =
      if HasDots row.filename then .badRequest else .image row.mimeType row.blob := by
  have hwarm : warmReply P caches (plain row.filename) row.filename = none := by
    unfold warmReply plain
    cases caches.digest row.filename with
    | none => rfl
    | some hash => rfl
  have hfetch : fetchImageBytes (some images) disk row.filename =
      some (row.mimeType, row.blob) := by
    rw [fetchImageBytes, Option.bind_some, halone.fetch, Option.some_or]
  have hsegment : segmentOf (plain (η := η) row.filename).path =
      some (Percent.encode isUnreserved (Utf8.encode row.filename)) :=
    segmentOf_imagePath row.filename.2.1
  rw [serveCardImage, hsegment]
  dsimp only
  rw [pathParam_encode]
  dsimp only
  rw [hwarm, hfetch]
  simp only [badName_iff row.filename.2]
  rfl

end Handler

/-! ## What is stored is served -/

section Served

variable [Floats] [Codecs]

/-- The stored image is the answer to every request for its name, as long as its row stays. -/
def Served (id : Str) (row : ImageRow) (db : Library) : Prop :=
  ∀ (η : Type) (P : Params η) (caches : Caches η) (disk : Str → Option (List UInt8))
    (es : List Event) (later : Library), machine.Run (Keeps id row) db es later →
      serveCardImage P caches (fetchImageBytes (some later.images) disk) (plain row.filename) =
        .image row.mimeType row.blob

/-- **Exactly when** an image that is stored is served: the name that was given for it brings no two
dots together. -/
theorem served_iff (db db' : Library) (e : Event) (row : ImageRow)
    (hstep : step db e = some db') (hrow : db'.images.lookup e.id = some row) :
    Served e.id row db' ↔ ¬ BringsDots db e := by
  have halone : Alone db'.images e.id row := (step_change hstep).alone hrow
  rw [← hasDots_stored_iff hstep hrow]
  constructor
  · intro hserved hdots
    have himage := hserved Unit ⟨fun _ => (), fun _ => none⟩ ⟨fun _ => none, fun _ _ => none⟩
      (fun _ => none) [] db' (.nil db')
    rw [serveCardImage_plain _ halone, if_pos hdots] at himage
    cases himage
  · intro hdots η P caches disk es later hrun
    rw [serveCardImage_plain P (alone_of_run halone hrun), if_neg hdots]

end Served

/-! ## Two uploads -/

section TwoUploads

attribute [local instance] wholeFloats noCodecs

def emptyLibrary : Library where
  images := ∅
  specs := Specs.empty
  landing := LandingRow.updateInTx LandingCustomization.default
  audit := []
  written := LandingRow.written_updateInTx _

def drawing : List UInt8 := Utf8.encode "<svg/>".toList

def svgMime : Str := "image/svg+xml".toList

def uploadOf (name : String) : Event := .upload "7".toList name.toList (some svgMime) drawing

/-- The declared type decides where the text does not. -/
theorem detect_drawing : detect drawing (some svgMime) = some .svg := by
  change (if looksLikeSvg drawing then some SourceKind.svg else some SourceKind.svg) = _
  rw [ite_self]

theorem step_uploadOf {name stored : String} (hbase : sanitizeBasename name.toList ≠ [])
    (hname : rewriteExtension (sanitizeBasename name.toList) "svg".toList = stored.toList)
    (hfilename : IsFilename stored.toList) :
    ∃ db', step emptyLibrary (uploadOf name) = some db' ∧
      db'.images.lookup "7".toList = some ⟨⟨stored.toList, hfilename⟩, svgMime, drawing⟩ := by
  have hprocess := processUpload_of_svg detect_drawing (by decide +kernel) hbase
  rw [hname] at hprocess
  have hrow : rowOf (svgFile stored.toList drawing) stored.toList =
      some ⟨⟨stored.toList, hfilename⟩, svgMime, drawing⟩ := rowOf_of_isFilename hfilename
  have hstep : step emptyLibrary (uploadOf name) =
      insert emptyLibrary "7".toList ⟨⟨stored.toList, hfilename⟩, svgMime, drawing⟩ := by
    change upload _ _ _ _ _ = _
    rw [upload, if_neg (by decide +kernel), hprocess]
    change (rowOf (svgFile stored.toList drawing) stored.toList).bind _ = _
    rw [hrow]
    rfl
  have hinsert : insert emptyLibrary "7".toList
      ⟨⟨stored.toList, hfilename⟩, svgMime, drawing⟩ = some _ := rfl
  exact ⟨_, hstep.trans hinsert, lookup_of_insert hinsert⟩

theorem dotted_refused : ¬ ∀ (_ : Floats) (_ : Codecs) (db db' : Library) (e : Event)
    (row : ImageRow), step db e = some db' → db'.images.lookup e.id = some row →
      Served e.id row db' := by
  intro hclaim
  obtain ⟨db', hstep, hrow⟩ :=
    @step_uploadOf "a..b.png" "a..b.svg" (by decide) (by decide) (by decide)
  have hserved := hclaim wholeFloats noCodecs emptyLibrary db' (uploadOf "a..b.png") _ hstep hrow
  have himage := hserved Unit ⟨fun _ => (), fun _ => none⟩ ⟨fun _ => none, fun _ _ => none⟩
    (fun _ => none) [] db' (.nil db')
  rw [serveCardImage_plain _ ((step_change hstep).alone hrow), if_pos (by decide)] at himage
  cases himage

theorem served_logo : ∃ db' row, step emptyLibrary (uploadOf "My Logo.png") = some db' ∧
    row.filename.1 = "mylogo.svg".toList ∧ Served "7".toList row db' := by
  obtain ⟨db', hstep, hrow⟩ :=
    @step_uploadOf "My Logo.png" "mylogo.svg" (by decide) (by decide) (by decide)
  refine ⟨db', _, hstep, rfl, (served_iff emptyLibrary db' _ _ hstep hrow).mpr ?_⟩
  rintro (⟨-, hdots⟩ | ⟨-, hdots⟩)
  · exact absurd (hasDots_stemOf_sanitizeBasename_iff.mpr hdots) (by decide)
  · exact absurd (hasDots_sanitizeBasename_iff.mpr hdots) (by decide)

end TwoUploads

end Ruscker.Routes.CardImages
