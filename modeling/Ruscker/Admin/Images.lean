import Ruscker.Db.Images
import Ruscker.Lib.Guard
import Ruscker.Lib.Matching
import Ruscker.Lib.UrlReference

/-!
# Renaming and deleting an image

Card logos and covers, the logos of the landing page and its social-share image name images by
their bare file names or by their URLs.  A rename and a delete make the values that contain
such a URL follow.  What a value refers to is another matter: the URL may go on behind the
name, and the social-share image is not looked at.
-/

namespace Ruscker.Admin.Images

open Tables Guards UrlReferences

/-! ## References -/

def imageRoute : Str := "/assets/img/".toList

def imageUrl (filename : Str) : Str := imageRoute ++ filename

theorem imageUrl_ne_nil (filename : Str) : imageUrl filename ≠ [] := List.cons_ne_nil _ _

/-- `RUSCKER_DEFAULT_LOGO` -/
def defaultLogo : Str := "/assets/img/ruscker-mark.svg".toList

def referencesImage (value filename : Str) : Bool :=
  value = filename || decide (imageUrl filename <:+: value)

def rewriteReference (value old new : Str) : Str :=
  if value = old then new else Matching.replace (imageUrl_ne_nil old) (imageUrl new) value

/-- What a value names: the bare file name, or the path of its URL. -/
def Resolves (filename value : Str) : Prop := value = filename ∨ pathOf value = imageUrl filename

instance (filename value : Str) : Decidable (Resolves filename value) :=
  inferInstanceAs (Decidable (_ ∨ _))

/-- A value that is taken for a reference and is none. -/
def Captures (filename value : Str) : Prop :=
  imageUrl filename <:+: value ∧ ¬ Resolves filename value

theorem Resolves.referencesImage {filename value : Str} (h : Resolves filename value) :
    referencesImage value filename = true := by
  rcases h with rfl | hpath
  · simp [Admin.Images.referencesImage]
  · have hpart : imageUrl filename <:+: value := by
      rw [← hpath]
      exact (List.takeWhile_prefix _).isInfix
    simp [Admin.Images.referencesImage, hpart]

theorem referencesImage_iff {filename value : Str} :
    referencesImage value filename = true ↔ Resolves filename value ∨ Captures filename value := by
  constructor
  · intro h
    by_cases hres : Resolves filename value
    · exact .inl hres
    · rcases Bool.or_eq_true_iff.mp h with hbare | hpart
      · exact absurd (.inl (of_decide_eq_true hbare)) hres
      · exact .inr ⟨of_decide_eq_true hpart, hres⟩
  · rintro (hres | ⟨hpart, -⟩)
    · exact hres.referencesImage
    · simp [referencesImage, hpart]

/-! ### Values that move -/

/-- A value changes exactly when it names the image, and names it no more. -/
structure ValueMoved (filename : Str) (before after : Option Str) : Prop where
  changed : after ≠ before ↔ ∃ v ∈ before, Resolves filename v
  gone : ∀ v ∈ after, ¬ Resolves filename v

/-- A value that is left as it is. -/
theorem valueMoved_self_iff {filename : Str} {value : Option Str} :
    ValueMoved filename value value ↔ ∀ v ∈ value, ¬ Resolves filename v :=
  ⟨fun h => h.gone, fun h => ⟨by simpa using h, h⟩⟩

/-- A value that is replaced where it is taken for a reference. -/
theorem valueMoved_iff {filename v : Str} {replacement : Option Str} :
    ValueMoved filename (some v)
        (if referencesImage v filename then replacement else some v) ↔
      (Captures filename v → replacement = some v) ∧
        (Resolves filename v → ∀ w ∈ replacement, ¬ Resolves filename w) := by
  by_cases hres : Resolves filename v
  · have hcap : ¬ Captures filename v := fun h => h.2 hres
    rw [if_pos hres.referencesImage]
    refine ⟨fun h => ⟨fun hc => absurd hc hcap, fun _ => h.gone⟩, fun h => ⟨?_, h.2 hres⟩⟩
    refine ⟨fun _ => ⟨v, rfl, hres⟩, ?_⟩
    rintro - rfl
    exact h.2 hres v rfl hres
  · by_cases hcap : Captures filename v
    · rw [if_pos (referencesImage_iff.mpr (.inr hcap))]
      refine ⟨fun h => ⟨fun _ => ?_, fun hres' => absurd hres' hres⟩, fun h => ?_⟩
      · by_contra hne
        obtain ⟨w, hw, hres'⟩ := h.changed.mp hne
        cases hw
        exact hres hres'
      · rw [h.1 hcap]
        exact valueMoved_self_iff.mpr fun w hw => by
          cases hw
          exact hres
    · rw [if_neg fun h => (referencesImage_iff.mp h).elim hres hcap]
      refine ⟨fun _ => ⟨fun hc => absurd hc hcap, fun hr => absurd hr hres⟩, fun _ => ?_⟩
      exact valueMoved_self_iff.mpr fun w hw => by
        cases hw
        exact hres

/-- A file name names itself only. -/
theorem resolves_filename_iff {filename other : Str} (hother : IsFilename other) :
    Resolves filename other ↔ other = filename := by
  refine ⟨fun h => h.resolve_right fun hpath => ?_, .inl⟩
  have hslash : '/' ∈ pathOf other := by
    rw [hpath]
    exact List.mem_cons_self
  exact hother.2 ((List.takeWhile_prefix _).subset hslash)

theorem not_resolves_nil {filename : Str} (h : IsFilename filename) : ¬ Resolves filename [] := by
  rintro (heq | hpath)
  · exact h.1 heq.symm
  · exact imageUrl_ne_nil filename hpath.symm

/-- A URL that is read back has no query and no fragment in its file name. -/
theorem clean_of_resolves {filename value : Str} (h : pathOf value = imageUrl filename) :
    ∀ c ∈ filename, isPathEnd c = false := by
  intro c hc
  have hmem : c ∈ pathOf value := by
    rw [h]
    exact List.mem_append_right _ hc
  simpa using List.mem_takeWhile_imp hmem

theorem isPathEnd_of_isNameChar {c : Char} (h : isNameChar c = true) : isPathEnd c = false := by
  rw [← Bool.not_eq_true]
  intro hend
  simp only [isPathEnd, Bool.or_eq_true, decide_eq_true_eq] at hend
  rcases hend with rfl | rfl
  · cases h
  · cases h

/-- Behind the path nothing is replaced at once. -/
theorem pathOf_replace_suffixOf (old new value : Str) :
    pathOf (Matching.replace (imageUrl_ne_nil old) new (suffixOf value)) = [] := by
  cases hsuffix : suffixOf value with
  | nil => rfl
  | cons c rest =>
    have hend : isPathEnd c = true := by
      have h := List.head?_dropWhile_not (fun c => !isPathEnd c) value
      rw [show value.dropWhile (fun c => !isPathEnd c) = suffixOf value from rfl, hsuffix] at h
      simpa using h
    have hno : ¬ imageUrl old <+: c :: rest := by
      intro hprefix
      have hc : c = '/' := by
        obtain ⟨t, ht⟩ := hprefix
        exact (List.cons.inj ht).1.symm
      rw [hc] at hend
      cases hend
    rw [Matching.replace_cons _ hno]
    simp [pathOf, hend]

theorem isPathEnd_of_mem_imageRoute {c : Char} (h : c ∈ imageRoute) : isPathEnd c = false := by
  have hall : imageRoute.all (fun c => !isPathEnd c) = true := rfl
  exact (Bool.not_eq_true' _).mp (List.all_eq_true.mp hall c h)

/-- A reference that was rewritten names the image under its new name only. -/
theorem not_resolves_rewriteReference {old newname new value : Str} (hold : IsFilename old)
    (hnew : renamedTo old newname = some new) (hne : new ≠ old) (h : Resolves old value) :
    ¬ Resolves old (rewriteReference value old new) := by
  unfold rewriteReference
  split
  · rw [resolves_filename_iff (isFilename_renamedTo hold hnew)]
    exact hne
  · next hbare =>
    have hpath := h.resolve_left hbare
    have hclean : ∀ c ∈ imageUrl new, isPathEnd c = false := by
      intro c hc
      rcases List.mem_append.mp hc with hroute | hc
      · exact isPathEnd_of_mem_imageRoute hroute
      · rcases mem_renamedTo hnew hc with hname | hc
        · exact isPathEnd_of_isNameChar hname
        · exact clean_of_resolves hpath c hc
    have hreplace : Matching.replace (imageUrl_ne_nil old) (imageUrl new) value =
        imageUrl new ++ Matching.replace (imageUrl_ne_nil old) (imageUrl new) (suffixOf value) := by
      have hsplit : imageUrl old ++ suffixOf value = value := by
        rw [← hpath, pathOf_append_suffixOf]
      rw [← Matching.replace_append, hsplit]
    rw [hreplace]
    rintro (heq | hres)
    · exact hold.2 (heq ▸ List.mem_cons_self)
    · rw [pathOf_append (List.all_eq_true.mpr fun c hc => by simp [hclean c hc]),
        pathOf_replace_suffixOf, List.append_nil] at hres
      exact hne (List.append_cancel_left hres)

/-! ### New names -/

/-- A request for a name, made a file name. -/
def newFilename (old : Filename) (newname : Str) : Option Filename :=
  match h : renamedTo old newname with
  | some new => some ⟨new, isFilename_renamedTo old.2 h⟩
  | none => none

theorem newFilename_eq_some {old new : Filename} {newname : Str}
    (h : newFilename old newname = some new) : renamedTo old newname = some new.1 := by
  unfold newFilename at h
  split at h
  · next new' hnew =>
    cases h
    exact hnew
  · cases h

/-! ## The rows that follow -/

/-- A value that the pass looks at: replaced, or removed, where it is taken for a reference. -/
def followValue (filename : Str) (r : Str → Option Str) (value : Option Str) : Option Str :=
  value.bind fun v => if referencesImage v filename then r v else some v

def followKey (filename key : Str) (r : Str → Option Str) (tp : TemplateProperties) :
    TemplateProperties :=
  ((tp.getStr key).filter fun v => referencesImage v filename).elim tp fun v =>
    (r v).elim (tp.erase key) (tp.setStr key)

def logoKey : Str := "logo".toList

def coverKey : Str := "cover".toList

def followProperties (filename : Str) (logo : Str → Str) (cover : Str → Option Str)
    (tp : TemplateProperties) : TemplateProperties :=
  followKey filename coverKey cover (followKey filename logoKey (fun v => some (logo v)) tp)

def holdsReference (filename key : Str) (tp : TemplateProperties) : Bool :=
  (tp.getStr key).any fun v => referencesImage v filename

def followLogo (filename : Str) (url : Str → Str) (logo : LandingLogo) : LandingLogo :=
  if referencesImage logo.url filename then { logo with url := url logo.url } else logo

def followLanding (filename : Str) (url : Str → Str) (lc : LandingCustomization) :
    Option LandingCustomization :=
  if lc.logos.any fun logo => referencesImage logo.url filename then
    some { lc with logos := lc.logos.map (followLogo filename url) }
  else none

section Keys

variable {filename key : Str} {logo url : Str → Str} {cover r : Str → Option Str}
  {tp : TemplateProperties}

theorem followKey_eq_self (h : holdsReference filename key tp = false) :
    followKey filename key r tp = tp := by
  unfold followKey
  rw [Option.filter_eq_none_iff.mpr]
  · rfl
  · intro v hv hhit
    rw [holdsReference, hv, Option.any_some, hhit] at h
    cases h

theorem getStr_followKey :
    (followKey filename key r tp).getStr key = followValue filename r (tp.getStr key) := by
  unfold followKey followValue
  cases hv : tp.getStr key with
  | none => exact hv
  | some v =>
    by_cases hhit : referencesImage v filename = true
    · rw [Option.filter_some, if_pos hhit, Option.elim_some, Option.bind_some, if_pos hhit]
      cases r v with
      | none => rw [Option.elim_none, TemplateProperties.getStr_erase, if_pos rfl]
      | some w => rw [Option.elim_some, TemplateProperties.getStr_setStr, if_pos rfl]
    · rw [Option.filter_some, if_neg hhit, Option.elim_none, Option.bind_some, if_neg hhit, hv]

theorem lookup_followKey_of_ne {other : Str} (hne : other ≠ key) :
    (followKey filename key r tp).lookup other = tp.lookup other := by
  unfold followKey
  cases (tp.getStr key).filter fun v => referencesImage v filename with
  | none => rfl
  | some v =>
    rw [Option.elim_some]
    cases r v with
    | none => rw [Option.elim_none, SortedMap.lookup_erase, if_neg hne]
    | some w =>
      rw [Option.elim_some, TemplateProperties.setStr, SortedMap.lookup_insert, if_neg hne]

theorem getStr_followKey_of_ne {other : Str} (hne : other ≠ key) :
    (followKey filename key r tp).getStr other = tp.getStr other := by
  rw [TemplateProperties.getStr, lookup_followKey_of_ne hne, TemplateProperties.getStr]

theorem holdsReference_of_getStr_none (h : tp.getStr key = none) :
    holdsReference filename key tp = false := by
  rw [holdsReference, h]
  rfl

/-! ### Properties -/

theorem getStr_logo_followProperties :
    (followProperties filename logo cover tp).getStr logoKey =
      followValue filename (fun v => some (logo v)) (tp.getStr logoKey) := by
  rw [followProperties, getStr_followKey_of_ne (by decide), getStr_followKey]

theorem getStr_cover_followProperties :
    (followProperties filename logo cover tp).getStr coverKey =
      followValue filename cover (tp.getStr coverKey) := by
  rw [followProperties, getStr_followKey, getStr_followKey_of_ne (by decide)]

/-- Other properties and properties that are no texts stay. -/
theorem lookup_followProperties
    (h : (key ≠ logoKey ∧ key ≠ coverKey) ∨ tp.getStr key = none) :
    (followProperties filename logo cover tp).lookup key = tp.lookup key := by
  unfold followProperties
  rcases h with ⟨hlogo, hcover⟩ | hnone
  · rw [lookup_followKey_of_ne hcover, lookup_followKey_of_ne hlogo]
  · by_cases hlogo : key = logoKey
    · subst hlogo
      rw [lookup_followKey_of_ne (by decide),
        followKey_eq_self (holdsReference_of_getStr_none hnone)]
    · by_cases hcover : key = coverKey
      · subst hcover
        rw [followKey_eq_self, lookup_followKey_of_ne hlogo]
        apply holdsReference_of_getStr_none
        rw [getStr_followKey_of_ne hlogo, hnone]
      · rw [lookup_followKey_of_ne hcover, lookup_followKey_of_ne hlogo]

/-- The customization that is read back is the one that was made to follow. -/
theorem fetch_followLanding {row : LandingRow} (hwritten : row.Written) :
    ((followLanding filename url row.fetch).elim row LandingRow.updateInTx).fetch =
      { row.fetch with logos := row.fetch.logos.map (followLogo filename url) } := by
  unfold followLanding
  split
  · rw [Option.elim_some]
    conv_rhs => rw [← hwritten.fetch_updateInTx]
    rfl
  · next hnone =>
    have hsame : row.fetch.logos.map (followLogo filename url) = row.fetch.logos := by
      rw [Bool.not_eq_true, List.any_eq_false] at hnone
      exact (List.map_congr_left fun l hl => if_neg (hnone l hl)).trans (List.map_id _)
    rw [hsame]
    rfl

/-! ### What moving means -/

/-- A landing logo of which only the URL may change. -/
structure LogoMoved (filename : Str) (l l' : LandingLogo) : Prop where
  rest : l' = { l with url := l'.url }
  url : ValueMoved filename (some l.url) (some l'.url)

structure LandingMoved (filename : Str) (lc lc' : LandingCustomization) : Prop where
  rest : lc' = { lc with logos := lc'.logos, ogImage := lc'.ogImage }
  logos : List.Forall₂ (LogoMoved filename) lc.logos lc'.logos
  ogImage : ValueMoved filename lc.ogImage lc'.ogImage

/-- When a replacement moves a value. -/
def MovesValue (filename : Str) (r : Str → Option Str) (v : Str) : Prop :=
  (Captures filename v → r v = some v) ∧
    (Resolves filename v → ∀ w ∈ r v, ¬ Resolves filename w)

theorem valueMoved_followValue_iff {r : Str → Option Str} {value : Option Str} :
    ValueMoved filename value (followValue filename r value) ↔
      ∀ v ∈ value, MovesValue filename r v := by
  cases value with
  | none => simp [followValue, valueMoved_self_iff]
  | some v =>
    rw [followValue, Option.bind_some, valueMoved_iff]
    simp [MovesValue]

/-- A rename moves a value where it captures none. -/
theorem movesValue_rename_iff {newname new v : Str} (hold : IsFilename filename)
    (hnew : renamedTo filename newname = some new) (hne : new ≠ filename) :
    MovesValue filename (fun v => some (rewriteReference v filename new)) v ↔
      ¬ Captures filename v := by
  constructor
  · rintro ⟨hcap, -⟩ hc
    have hsame := Option.some.inj (hcap hc)
    rw [rewriteReference, if_neg fun h => hc.2 (.inl h), Matching.replace_eq_self_iff] at hsame
    · exact hsame hc.1
    · exact fun h => hne (List.append_cancel_left h)
  · refine fun hcap => ⟨fun hc => absurd hc hcap, fun hres w hw => ?_⟩
    cases hw
    exact not_resolves_rewriteReference hold hnew hne hres

theorem movesValue_remove_iff {v : Str} :
    MovesValue filename (fun _ => none) v ↔ ¬ Captures filename v :=
  ⟨fun h hc => Option.some_ne_none v (h.1 hc).symm, fun hcap => ⟨fun hc => absurd hc hcap, by simp⟩⟩

theorem movesValue_clear_iff {v : Str} (hname : IsFilename filename) :
    MovesValue filename (fun _ => some []) v ↔ ¬ Captures filename v := by
  constructor
  · rintro ⟨hcap, -⟩ hc
    have hnil := Option.some.inj (hcap hc)
    rw [← hnil] at hc
    exact imageUrl_ne_nil filename (List.infix_nil.mp hc.1)
  · refine fun hcap => ⟨fun hc => absurd hc hcap, fun _ w hw => ?_⟩
    cases hw
    exact not_resolves_nil hname

theorem resolves_defaultLogo_iff (hname : IsFilename filename) :
    Resolves filename defaultLogo ↔ filename = "ruscker-mark.svg".toList := by
  have hpath : pathOf defaultLogo = imageUrl "ruscker-mark.svg".toList := by decide +kernel
  constructor
  · rintro (heq | hres)
    · exact absurd (heq ▸ List.mem_cons_self) hname.2
    · exact (List.append_cancel_left (hpath.symm.trans hres)).symm
  · rintro rfl
    exact .inr hpath

theorem movesValue_default_iff {v : Str} (hname : IsFilename filename) :
    MovesValue filename (fun _ => some defaultLogo) v ↔
      (Captures filename v → v = defaultLogo) ∧
        (Resolves filename v → filename ≠ "ruscker-mark.svg".toList) := by
  refine and_congr ⟨fun h hc => (Option.some.inj (h hc)).symm, fun h hc => by rw [h hc]⟩ ?_
  have hgone : (∀ w ∈ some defaultLogo, ¬ Resolves filename w) ↔
      filename ≠ "ruscker-mark.svg".toList := by
    rw [Ne, ← resolves_defaultLogo_iff hname]
    simp
  exact imp_congr_right fun _ => hgone

theorem logoMoved_iff (l : LandingLogo) :
    LogoMoved filename l (followLogo filename url l) ↔
      MovesValue filename (fun v => some (url v)) l.url := by
  have hurl : some (followLogo filename url l).url =
      if referencesImage l.url filename then some (url l.url) else some l.url := by
    unfold followLogo
    split <;> rfl
  have hrest : followLogo filename url l = { l with url := (followLogo filename url l).url } := by
    unfold followLogo
    split <;> rfl
  rw [MovesValue, ← valueMoved_iff, ← hurl]
  exact ⟨LogoMoved.url, fun h => ⟨hrest, h⟩⟩

theorem landingMoved_iff (lc : LandingCustomization) :
    LandingMoved filename lc { lc with logos := lc.logos.map (followLogo filename url) } ↔
      (∀ l ∈ lc.logos, MovesValue filename (fun v => some (url v)) l.url) ∧
        ∀ v ∈ lc.ogImage, ¬ Resolves filename v := by
  have hlogos : List.Forall₂ (LogoMoved filename) lc.logos
      (lc.logos.map (followLogo filename url)) ↔
        ∀ l ∈ lc.logos, MovesValue filename (fun v => some (url v)) l.url := by
    rw [List.forall₂_map_right_iff, List.forall₂_same]
    exact forall₂_congr fun l _ => logoMoved_iff l
  rw [← hlogos, ← valueMoved_self_iff]
  exact ⟨fun h => ⟨h.logos, h.ogImage⟩, fun h => ⟨rfl, h.1, h.2⟩⟩

end Keys

/-! ### Faults -/

/-- The queries of a call that fail. -/
structure Faults where
  lookup : Bool
  takenCheck : Bool
  listSpecs : Bool
  fetchLanding : Bool
  transaction : Bool

def Faults.Quiet (faults : Faults) : Prop :=
  faults.lookup = false ∧ faults.listSpecs = false ∧ faults.fetchLanding = false ∧
    faults.transaction = false

theorem quiet_iff {faults : Faults} :
    (!faults.lookup) = true ∧
      (!faults.listSpecs && !faults.fetchLanding && !faults.transaction) = true ↔ faults.Quiet := by
  simp [Faults.Quiet, and_assoc]

section Rows

variable [Floats]

/-- A spec whose logo or cover is taken for a reference, with these replaced. -/
def followSpec (filename : Str) (logo : Str → Str) (cover : Str → Option Str)
    (spec : Spec Settings) : Option (Spec Settings) :=
  let tp := spec.settings.templateProperties
  if !holdsReference filename logoKey tp && !holdsReference filename coverKey tp then none
  else some (spec.withProperties (followProperties filename logo cover tp))

variable {filename : Str} {logo : Str → Str} {cover : Str → Option Str}

theorem followSpec_id {s s' : Spec Settings} (h : followSpec filename logo cover s = some s') :
    s'.id = s.id := by
  unfold followSpec at h
  dsimp only at h
  split at h
  · cases h
  · cases h
    rfl

theorem followSpec_getD (s : Spec Settings) :
    (followSpec filename logo cover s).getD s =
      s.withProperties (followProperties filename logo cover s.settings.templateProperties) := by
  unfold followSpec
  dsimp only
  split
  · next hnone =>
    simp only [Bool.and_eq_true, Bool.not_eq_true'] at hnone
    rw [followProperties, followKey_eq_self hnone.1, followKey_eq_self hnone.2]
    rfl
  · rfl

/-- A spec of which only the logo and the cover may change. -/
structure SpecMoved (filename : Str) (s s' : Spec Settings) : Prop where
  rest : ∃ tp, s' = s.withProperties tp
  others : ∀ key, (key ≠ logoKey ∧ key ≠ coverKey) ∨
      s.settings.templateProperties.getStr key = none →
    s'.settings.templateProperties.lookup key = s.settings.templateProperties.lookup key
  logo : ValueMoved filename (s.settings.templateProperties.getStr logoKey)
    (s'.settings.templateProperties.getStr logoKey)
  cover : ValueMoved filename (s.settings.templateProperties.getStr coverKey)
    (s'.settings.templateProperties.getStr coverKey)

/-- Exactly the values that name the image change, and none of them names it any more. -/
structure ReferencesMoved (filename : Str) (db db' : Library) : Prop where
  specs : ∀ id, Option.Rel (SpecMoved filename) (db.specs.fetchOne id) (db'.specs.fetchOne id)
  landing : LandingMoved filename db.landing.fetch db'.landing.fetch

theorem specMoved_iff (s : Spec Settings) :
    SpecMoved filename s (s.withProperties
        (followProperties filename logo cover s.settings.templateProperties)) ↔
      (∀ v ∈ s.settings.templateProperties.getStr logoKey,
        MovesValue filename (fun v => some (logo v)) v) ∧
      ∀ v ∈ s.settings.templateProperties.getStr coverKey, MovesValue filename cover v := by
  have hlogo : (followProperties filename logo cover s.settings.templateProperties).getStr logoKey =
      _ := getStr_logo_followProperties
  have hcover : (followProperties filename logo cover s.settings.templateProperties).getStr coverKey =
      _ := getStr_cover_followProperties
  rw [← valueMoved_followValue_iff, ← valueMoved_followValue_iff, ← hlogo, ← hcover]
  exact ⟨fun h => ⟨h.logo, h.cover⟩,
    fun h => ⟨⟨_, rfl⟩, fun _ hkey => lookup_followProperties hkey, h.1, h.2⟩⟩

/-- The pass moves the references where it moves each value that it looks at, and where the
social-share image, which it does not look at, names another image. -/
structure MovesAll (filename : Str) (logo url : Str → Str) (cover : Str → Option Str)
    (db : Library) : Prop where
  logos : ∀ s ∈ db.specs.listAll, ∀ v ∈ s.settings.templateProperties.getStr logoKey,
    MovesValue filename (fun v => some (logo v)) v
  covers : ∀ s ∈ db.specs.listAll, ∀ v ∈ s.settings.templateProperties.getStr coverKey,
    MovesValue filename cover v
  landing : ∀ l ∈ db.landing.fetch.logos, MovesValue filename (fun v => some (url v)) l.url
  ogImage : ∀ v ∈ db.landing.fetch.ogImage, ¬ Resolves filename v

/-- The specs and the customization that a pass writes beside its image. -/
def follow (filename : Str) (logo url : Str → Str) (cover : Str → Option Str) (db : Library) :
    Library :=
  db.writeRefs (db.specs.listAll.filterMap (followSpec filename logo cover))
    (followLanding filename url db.landing.fetch)

theorem fetchOne_follow {url : Str → Str} (db : Library) (id : Str) :
    (follow filename logo url cover db).specs.fetchOne id =
      (db.specs.fetchOne id).map fun s => s.withProperties
        (followProperties filename logo cover s.settings.templateProperties) := by
  refine (Specs.fetchOne_pass (fun _ _ => followSpec_id) db.specs id).trans ?_
  simp only [followSpec_getD]

theorem fetch_follow {url : Str → Str} (db : Library) :
    (follow filename logo url cover db).landing.fetch =
      { db.landing.fetch with logos := db.landing.fetch.logos.map (followLogo filename url) } :=
  fetch_followLanding db.written

theorem referencesMoved_iff (url : Str → Str) (db : Library) :
    ReferencesMoved filename db (follow filename logo url cover db) ↔
      MovesAll filename logo url cover db := by
  have hspec : ∀ s ∈ db.specs.listAll, Option.Rel (SpecMoved filename) (db.specs.fetchOne s.id)
      ((follow filename logo url cover db).specs.fetchOne s.id) ↔
        SpecMoved filename s (s.withProperties
          (followProperties filename logo cover s.settings.templateProperties)) := by
    intro s hs
    rw [fetchOne_follow, Specs.mem_listAll.mp hs, Option.map_some]
    exact ⟨fun h => by cases h; assumption, .some⟩
  constructor
  · intro h
    have hlanding := h.landing
    rw [fetch_follow, landingMoved_iff] at hlanding
    have hmoved : ∀ s ∈ db.specs.listAll, _ := fun s hs =>
      (specMoved_iff s).mp ((hspec s hs).mp (h.specs s.id))
    exact ⟨fun s hs => (hmoved s hs).1, fun s hs => (hmoved s hs).2, hlanding.1, hlanding.2⟩
  · intro h
    refine ⟨fun id => ?_, ?_⟩
    · cases hrow : db.specs.fetchOne id with
      | none =>
        rw [fetchOne_follow, hrow]
        exact .none
      | some s =>
        have hkey : s.id = id := db.specs.keyed id s hrow
        have hs : s ∈ db.specs.listAll := Specs.mem_listAll.mpr (hkey ▸ hrow)
        have hrel := (hspec s hs).mpr ((specMoved_iff s).mpr ⟨h.logos s hs, h.covers s hs⟩)
        rw [hkey, hrow] at hrel
        exact hrel
    · rw [fetch_follow, landingMoved_iff]
      exact ⟨h.landing, h.ogImage⟩

/-! ## Handlers -/

/-- How a call ends that changes nothing. -/
inductive Refusal where
  | gone
  | invalid
  | unchanged
  | taken
  | failed (text : String)
  deriving DecidableEq

inductive Reply where
  | redirect (location : Str)
  | error (status : Nat) (text : Str)
  deriving DecidableEq

def Refusal.reply : Refusal → Reply
  | .gone => .redirect "/admin/media".toList
  | .invalid => .redirect "/admin/media?error=invalid".toList
  | .unchanged => .redirect "/admin/media".toList
  | .taken => .redirect "/admin/media?error=taken".toList
  | .failed text => .error 500 text.toList

/-- What the panel asks of an image. -/
inductive Change where
  | rename (newname : Str)
  | delete

/-- The name the image had, and what the tables hold afterwards. -/
def rename (faults : Faults) (db : Library) (id newname : Str) :
    Except Refusal (Filename × Library) := do
  ensure (!faults.lookup) (.failed "lookup failed")
  let row ← getOr (db.images.lookup id) .gone
  let new ← getOr (newFilename row.filename newname) .invalid
  ensure (new ≠ row.filename) .unchanged
  ensure (!faults.takenCheck) (.failed "check failed")
  ensure (!db.filenameTaken new) .taken
  ensure (!faults.listSpecs && !faults.fetchLanding && !faults.transaction) (.failed "rename failed")
  let rewrite (v : Str) : Str := rewriteReference v row.filename new
  match db.renameWithRefs id new
      (db.specs.listAll.filterMap (followSpec row.filename rewrite fun v => some (rewrite v)))
      (followLanding row.filename rewrite db.landing.fetch) with
  | .ok db' => pure (row.filename, db')
  | .error .taken => .error .taken
  | .error .missing => .error (.failed "rename failed")

/-- Cards without their logo show the mark, and without their cover the tint of their kind. -/
def delete (faults : Faults) (db : Library) (id : Str) : Except Refusal (Filename × Library) := do
  ensure (!faults.lookup) (.failed "lookup failed")
  let row ← getOr (db.images.lookup id) .gone
  ensure (!faults.listSpecs && !faults.fetchLanding && !faults.transaction) (.failed "delete failed")
  let deleted := db.deleteWithRefs id
    (db.specs.listAll.filterMap (followSpec row.filename (fun _ => defaultLogo) fun _ => none))
    (followLanding row.filename (fun _ => []) db.landing.fetch)
  pure (row.filename, deleted.2)

def change (faults : Faults) (db : Library) (id : Str) : Change → Except Refusal (Filename × Library)
  | .rename newname => rename faults db id newname
  | .delete => delete faults db id

/-- The tables behind a call. -/
def after (faults : Faults) (db : Library) (id : Str) (c : Change) : Library :=
  match change faults db id c with
  | .ok done => done.2
  | .error _ => db

/-! ## When a change is exact -/

/-- The call goes through, for the image of this name. -/
def Accepts (faults : Faults) (db : Library) (id : Str) (old : Filename) : Change → Prop
  | .rename newname => faults.Quiet ∧ faults.takenCheck = false ∧
      (db.images.lookup id).map ImageRow.filename = some old ∧
      ∃ new ∈ newFilename old newname, new ≠ old ∧ db.filenameTaken new = false
  | .delete => faults.Quiet ∧ (db.images.lookup id).map ImageRow.filename = some old

/-- A logo is no reference to another image and, on a delete, not reset to what goes. -/
def CleanLogo (old v : Str) : Change → Prop
  | .rename _ => ¬ Captures old v
  | .delete => (Captures old v → v = defaultLogo) ∧
      (Resolves old v → old ≠ "ruscker-mark.svg".toList)

/-- No value is taken for a reference that is none, and the social-share image is no
reference. -/
structure Clean (old : Str) (db : Library) (c : Change) : Prop where
  logos : ∀ s ∈ db.specs.listAll, ∀ v ∈ s.settings.templateProperties.getStr logoKey,
    CleanLogo old v c
  covers : ∀ s ∈ db.specs.listAll, ∀ v ∈ s.settings.templateProperties.getStr coverKey,
    ¬ Captures old v
  landing : ∀ l ∈ db.landing.fetch.logos, ¬ Captures old l.url
  ogImage : ∀ v ∈ db.landing.fetch.ogImage, ¬ Resolves old v

/-- One image has its name changed, or goes. -/
structure ImageMoved (id : Str) (old : Filename) (c : Change) (db db' : Library) : Prop where
  others : ∀ other ≠ id, db'.images.lookup other = db.images.lookup other
  moved : ∃ row, db.images.lookup id = some row ∧ row.filename = old ∧
    match c with
    | .rename _ => ∃ new, new ≠ old ∧ db'.images.lookup id = some { row with filename := new }
    | .delete => db'.images.lookup id = none

/-- A call that goes through moves its image and its references, and another changes nothing. -/
structure Faithful (faults : Faults) (db : Library) (id : Str) (c : Change) : Prop where
  moved : ∀ old db', change faults db id c = .ok (old, db') →
    ReferencesMoved old db db' ∧ ImageMoved id old c db db'
  refused : ∀ refusal, change faults db id c = .error refusal → after faults db id c = db

/-- The image that takes its new name, in front of the references. -/
def renamed (db : Library) (id : Str) (new : Filename) : Library :=
  ({ db with images := Table.update db.images id fun row => { row with filename := new } } :
    Library).auditImage "image.rename" id

def deleted (db : Library) (id : Str) : Library :=
  ({ db with images := db.images.erase id } : Library).auditImage "image.delete" id

theorem renameWithRefs_of_not_taken {db : Library} {id : Str} {row : ImageRow} {new : Filename}
    {specs : List (Spec Settings)} {landing : Option LandingCustomization}
    (hrow : db.images.lookup id = some row) (htaken : db.filenameTaken new = false) :
    db.renameWithRefs id new specs landing = .ok ((renamed db id new).writeRefs specs landing) := by
  have hfree : (db.images.entries.any fun e => e.2.filename = new && e.1 ≠ id) = false := by
    rw [Library.filenameTaken, List.any_eq_false] at htaken
    rw [List.any_eq_false]
    intro e he hand
    exact htaken e he (Bool.and_eq_true_iff.mp hand).1
  rw [Library.renameWithRefs, hfree, hrow]
  rfl

/-- A rename that goes through names the image anew and makes the references follow. -/
theorem rename_eq_ok_iff {faults : Faults} {db db' : Library} {id newname : Str} {old : Filename} :
    rename faults db id newname = .ok (old, db') ↔
      Accepts faults db id old (.rename newname) ∧ ∀ new ∈ newFilename old newname,
        db' = follow old (rewriteReference · old new) (rewriteReference · old new)
          (fun v => some (rewriteReference v old new)) (renamed db id new) := by
  constructor
  · intro h
    obtain ⟨_, hlookup, h⟩ := accepted_bind.mp h
    obtain ⟨row, hrow, h⟩ := accepted_bind.mp h
    obtain ⟨new, hnew, h⟩ := accepted_bind.mp h
    obtain ⟨_, hne, h⟩ := accepted_bind.mp h
    obtain ⟨_, hcheck, h⟩ := accepted_bind.mp h
    obtain ⟨_, htaken, h⟩ := accepted_bind.mp h
    obtain ⟨_, hrest, h⟩ := accepted_bind.mp h
    rw [accepted_ensure] at hlookup hne hcheck htaken hrest
    rw [accepted_getOr] at hrow hnew
    rw [Bool.not_eq_true'] at hcheck htaken
    dsimp only at h
    rw [renameWithRefs_of_not_taken hrow htaken] at h
    cases h
    refine ⟨⟨quiet_iff.mp ⟨hlookup, hrest⟩, hcheck, by rw [hrow, Option.map_some], new, hnew,
      of_decide_eq_true hne, htaken⟩, fun new' hnew' => ?_⟩
    cases hnew.symm.trans hnew'
    rfl
  · rintro ⟨⟨hquiet, hcheck, hrow, new, hnew, hne, htaken⟩, hdb⟩
    obtain ⟨row, hrow', rfl⟩ := Option.map_eq_some_iff.mp hrow
    obtain ⟨hlookup, hrest⟩ := quiet_iff.mpr hquiet
    rw [hdb new hnew]
    refine accepted_bind.mpr ⟨⟨⟩, accepted_ensure.mpr hlookup, ?_⟩
    refine accepted_bind.mpr ⟨row, accepted_getOr.mpr hrow', ?_⟩
    refine accepted_bind.mpr ⟨new, accepted_getOr.mpr hnew, ?_⟩
    refine accepted_bind.mpr ⟨⟨⟩, accepted_ensure.mpr (decide_eq_true hne), ?_⟩
    refine accepted_bind.mpr ⟨⟨⟩, accepted_ensure.mpr (by rw [hcheck]; rfl), ?_⟩
    refine accepted_bind.mpr ⟨⟨⟩, accepted_ensure.mpr (by rw [htaken]; rfl), ?_⟩
    refine accepted_bind.mpr ⟨⟨⟩, accepted_ensure.mpr hrest, ?_⟩
    dsimp only
    rw [renameWithRefs_of_not_taken hrow' htaken]
    rfl

theorem delete_eq_ok_iff {faults : Faults} {db db' : Library} {id : Str} {old : Filename} :
    delete faults db id = .ok (old, db') ↔
      Accepts faults db id old .delete ∧
        db' = follow old (fun _ => defaultLogo) (fun _ => []) (fun _ => none) (deleted db id) := by
  constructor
  · intro h
    obtain ⟨_, hlookup, h⟩ := accepted_bind.mp h
    obtain ⟨row, hrow, h⟩ := accepted_bind.mp h
    obtain ⟨_, hrest, h⟩ := accepted_bind.mp h
    rw [accepted_ensure] at hlookup hrest
    rw [accepted_getOr] at hrow
    rw [Library.deleteWithRefs, hrow] at h
    cases h
    exact ⟨⟨quiet_iff.mp ⟨hlookup, hrest⟩, by rw [hrow, Option.map_some]⟩, rfl⟩
  · rintro ⟨⟨hquiet, hrow⟩, rfl⟩
    obtain ⟨row, hrow', rfl⟩ := Option.map_eq_some_iff.mp hrow
    obtain ⟨hlookup, hrest⟩ := quiet_iff.mpr hquiet
    refine accepted_bind.mpr ⟨⟨⟩, accepted_ensure.mpr hlookup, ?_⟩
    refine accepted_bind.mpr ⟨row, accepted_getOr.mpr hrow', ?_⟩
    refine accepted_bind.mpr ⟨⟨⟩, accepted_ensure.mpr hrest, ?_⟩
    rw [Library.deleteWithRefs, hrow']
    rfl

/-- A pass over the tables of a changed image moves the references of the tables before. -/
theorem referencesMoved_of_same_iff {filename : Str} {logo url : Str → Str}
    {cover : Str → Option Str} (db db' : Library) (hspecs : db'.specs = db.specs)
    (hlanding : db'.landing = db.landing) :
    ReferencesMoved filename db (follow filename logo url cover db') ↔
      MovesAll filename logo url cover db := by
  obtain ⟨images, specs, landing, audit, written⟩ := db
  obtain ⟨images', specs', landing', audit', written'⟩ := db'
  cases hspecs
  cases hlanding
  refine Iff.trans ⟨fun h => ⟨h.specs, h.landing⟩, fun h => ⟨h.specs, h.landing⟩⟩
    ((referencesMoved_iff url ⟨images', specs, landing, audit', written⟩).trans
      ⟨fun h => ⟨h.logos, h.covers, h.landing, h.ogImage⟩,
        fun h => ⟨h.logos, h.covers, h.landing, h.ogImage⟩⟩)

theorem movesAll_rename_iff {db : Library} {old new : Filename} {newname : Str}
    (hnew : newFilename old newname = some new) (hne : new ≠ old) :
    MovesAll old (rewriteReference · old new) (rewriteReference · old new)
        (fun v => some (rewriteReference v old new)) db ↔ Clean old db (.rename newname) := by
  have hiff : ∀ v, MovesValue old (fun v => some (rewriteReference v old new)) v ↔
      ¬ Captures old v := fun v =>
    movesValue_rename_iff old.2 (newFilename_eq_some hnew) fun h => hne (Subtype.ext h)
  constructor
  · intro h
    exact ⟨fun s hs v hv => (hiff v).mp (h.logos s hs v hv),
      fun s hs v hv => (hiff v).mp (h.covers s hs v hv),
      fun l hl => (hiff l.url).mp (h.landing l hl), h.ogImage⟩
  · intro h
    exact ⟨fun s hs v hv => (hiff v).mpr (h.logos s hs v hv),
      fun s hs v hv => (hiff v).mpr (h.covers s hs v hv),
      fun l hl => (hiff l.url).mpr (h.landing l hl), h.ogImage⟩

theorem movesAll_delete_iff {db : Library} {old : Filename} :
    MovesAll old (fun _ => defaultLogo) (fun _ => []) (fun _ => none) db ↔ Clean old db .delete := by
  constructor
  · intro h
    exact ⟨fun s hs v hv => (movesValue_default_iff old.2).mp (h.logos s hs v hv),
      fun s hs v hv => movesValue_remove_iff.mp (h.covers s hs v hv),
      fun l hl => (movesValue_clear_iff old.2).mp (h.landing l hl), h.ogImage⟩
  · intro h
    exact ⟨fun s hs v hv => (movesValue_default_iff old.2).mpr (h.logos s hs v hv),
      fun s hs v hv => movesValue_remove_iff.mpr (h.covers s hs v hv),
      fun l hl => (movesValue_clear_iff old.2).mpr (h.landing l hl), h.ogImage⟩

theorem imageMoved_rename {db : Library} {id newname : Str} {row : ImageRow} {new : Filename}
    {logo url : Str → Str} {cover : Str → Option Str} (hrow : db.images.lookup id = some row)
    (hne : new ≠ row.filename) :
    ImageMoved id row.filename (.rename newname) db
      (follow row.filename logo url cover (renamed db id new)) := by
  refine ⟨fun other hother => ?_, row, hrow, rfl, new, hne, ?_⟩
  · exact (Table.lookup_update_of_lookup hrow other _).trans (if_neg hother)
  · exact (Table.lookup_update_of_lookup hrow id _).trans (if_pos rfl)

theorem imageMoved_delete {db : Library} {id : Str} {row : ImageRow} {logo url : Str → Str}
    {cover : Str → Option Str} (hrow : db.images.lookup id = some row) :
    ImageMoved id row.filename .delete db (follow row.filename logo url cover (deleted db id)) := by
  refine ⟨fun other hother => ?_, row, hrow, rfl, ?_⟩
  · exact (Table.lookup_erase_eq db.images id other).trans (if_neg hother)
  · exact (Table.lookup_erase_eq db.images id id).trans (if_pos rfl)

theorem faithful_of_moved {faults : Faults} {db : Library} {id : Str} {c : Change}
    (h : ∀ old db', change faults db id c = .ok (old, db') →
      ReferencesMoved old db db' ∧ ImageMoved id old c db db') : Faithful faults db id c := by
  refine ⟨h, fun refusal hrefused => ?_⟩
  rw [after, hrefused]

/-- A change is exact where the values that are taken for references are the references. -/
theorem faithful_iff (faults : Faults) (db : Library) (id : Str) (c : Change) :
    Faithful faults db id c ↔ ∀ old, Accepts faults db id old c → Clean old db c := by
  cases c with
  | rename newname =>
    constructor
    · intro h old haccepts
      obtain ⟨new, hnew, hne, -⟩ := haccepts.2.2.2
      have hok := rename_eq_ok_iff.mpr ⟨haccepts, fun new' hnew' => by
        cases hnew.symm.trans hnew'
        rfl⟩
      have hmoved := (h.moved old _ hok).1
      exact (movesAll_rename_iff hnew hne).mp
        ((referencesMoved_of_same_iff db (renamed db id new) rfl rfl).mp hmoved)
    · intro h
      refine faithful_of_moved fun old db' hok => ?_
      obtain ⟨haccepts, hdb⟩ := rename_eq_ok_iff.mp hok
      obtain ⟨new, hnew, hne, -⟩ := haccepts.2.2.2
      obtain ⟨row, hrow, rfl⟩ := Option.map_eq_some_iff.mp haccepts.2.2.1
      have hmoves := (movesAll_rename_iff hnew hne).mpr (h _ haccepts)
      rw [hdb new hnew]
      exact ⟨(referencesMoved_of_same_iff db (renamed db id new) rfl rfl).mpr hmoves,
        imageMoved_rename hrow hne⟩
  | delete =>
    constructor
    · intro h old haccepts
      have hmoved := (h.moved old _ (delete_eq_ok_iff.mpr ⟨haccepts, rfl⟩)).1
      exact movesAll_delete_iff.mp
        ((referencesMoved_of_same_iff db (deleted db id) rfl rfl).mp hmoved)
    · intro h
      refine faithful_of_moved fun old db' hok => ?_
      obtain ⟨haccepts, rfl⟩ := delete_eq_ok_iff.mp hok
      obtain ⟨row, hrow, rfl⟩ := Option.map_eq_some_iff.mp haccepts.2
      have hmoves := movesAll_delete_iff.mpr (h _ haccepts)
      exact ⟨(referencesMoved_of_same_iff db (deleted db id) rfl rfl).mpr hmoves,
        imageMoved_delete hrow⟩

end Rows

/-! ### A brand and its social-share image -/

section Example

attribute [local instance] wholeFloats

def noFaults : Faults := ⟨false, false, false, false, false⟩

def brandImage : ImageRow := ⟨⟨"brand".toList, by decide⟩, "image/svg+xml".toList, []⟩

/-- A card whose logo is another image. -/
def brandCard : Spec Settings :=
  ⟨"lab".toList, none, none,
    bareSettings "Lab" (TemplateProperties.setStr .empty logoKey "/assets/img/brand-lab.webp".toList)⟩

/-- The landing page shares the image, by its URL. -/
def brandLibrary : Library where
  images := AList.insert "7".toList brandImage ∅
  specs := Specs.empty.upsertOne brandCard
  landing := LandingRow.updateInTx
    { LandingCustomization.default with ogImage := some "/assets/img/brand".toList }
  audit := []
  written := LandingRow.written_updateInTx _

/-- The social-share image keeps the old name, and the logo of another image loses its own. -/
theorem rename_astray :
    (after noFaults brandLibrary "7".toList (.rename "mark".toList)).landing.fetch.ogImage =
        some "/assets/img/brand".toList ∧
      ((after noFaults brandLibrary "7".toList (.rename "mark".toList)).specs.fetchOne
          "lab".toList).bind (fun s => s.settings.templateProperties.getStr logoKey) =
        some "/assets/img/mark-lab.webp".toList ∧
      ¬ Faithful noFaults brandLibrary "7".toList (.rename "mark".toList) := by
  refine ⟨by decide +kernel, by decide +kernel, fun h => ?_⟩
  have hok : change noFaults brandLibrary "7".toList (.rename "mark".toList) =
      .ok (brandImage.filename, after noFaults brandLibrary "7".toList (.rename "mark".toList)) := rfl
  have hgone := (h.moved _ _ hok).1.landing.ogImage.gone
  exact hgone "/assets/img/brand".toList (by decide +kernel) (by decide +kernel)

end Example

end Ruscker.Admin.Images
