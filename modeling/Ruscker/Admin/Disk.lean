import Ruscker.Admin.CatalogCache

/-!
# Removals from the disk panel

A volume or an image is removed for good, so the handlers first compare it with the
containers of the host and with the specs of the catalog.  The catalog comes through the
cache, where a listing that fails is replaced by the YAML specs.
-/

namespace Ruscker.Admin.Disk

open CatalogCache Machines Machines.Machine

/-! ## What the daemon reports -/

structure Container where
  mounts : List (Option Str)
  image : Option Str
  imageId : Option Str
  deriving DecidableEq

structure DockerVolume where
  name : Str
  driver : Str
  createdAt : Option Str
  labels : SortedMap Str Str
  deriving DecidableEq

structure VolumeInfo where
  name : Str
  driver : Str
  createdAt : Option Str
  refs : Int
  rusckerCreated : Bool
  deriving DecidableEq

structure ImageInfo where
  id : Str
  tags : List Str
  deriving DecidableEq

def createdLabel : Str := "ruscker.created".toList

/-- How many mounts of any container name the volume. -/
def mountCount (containers : List Container) (name : Str) : Nat :=
  (containers.flatMap Container.mounts).count (some name)

def volumeInfo (containers : List Container) (v : DockerVolume) : VolumeInfo :=
  { name := v.name, driver := v.driver, createdAt := v.createdAt
    refs := mountCount containers v.name
    rusckerCreated := (v.labels.lookup createdLabel).isSome }

/-- `list_volumes`, for the outcomes of the two listings it makes. -/
def listVolumes (containers : Option (List Container)) (volumes : Option (List DockerVolume)) :
    Option (List VolumeInfo) :=
  containers.bind fun containers => volumes.map fun volumes =>
    volumes.map (volumeInfo containers)

theorem mountCount_eq_zero_iff {containers : List Container} {name : Str} :
    mountCount containers name = 0 ↔ ∀ c ∈ containers, some name ∉ c.mounts := by
  rw [mountCount, List.count_eq_zero, List.mem_flatMap]
  push Not
  rfl

/-- The name and the id of the image of every container. -/
def allContainerImageRefs (containers : List Container) : List Str :=
  containers.flatMap fun c => c.image.toList ++ c.imageId.toList

/-! ## Volumes -/

/-- The source of a `source:dest[:ro]` entry, unless it is empty or a path. -/
def namedSource (entry : Str) : Option Str :=
  let source := entry.takeWhile fun c => c ≠ ':'
  if source.isEmpty || source.head?.any ['/', '.', '~'].contains then none else some source

structure VolumeRow where
  name : Str
  driver : Str
  created : Str
  refs : Int
  catalogRef : Bool
  rusckerCreated : Bool
  deriving DecidableEq

def VolumeRow.removable (row : VolumeRow) : Bool :=
  row.refs = 0 && !row.catalogRef && row.rusckerCreated

def volumeRow (v : VolumeInfo) (volumeRefs : List Str) : VolumeRow :=
  { name := v.name, driver := v.driver
    created := v.createdAt.elim "—".toList (List.take 10)
    refs := v.refs, catalogRef := volumeRefs.contains v.name
    rusckerCreated := v.rusckerCreated }

theorem removable_volumeRow {containers : List Container} {v : DockerVolume}
    {volumeRefs : List Str} :
    (volumeRow (volumeInfo containers v) volumeRefs).removable = true ↔
      (∀ c ∈ containers, some v.name ∉ c.mounts) ∧ v.name ∉ volumeRefs ∧
        (v.labels.lookup createdLabel).isSome = true := by
  rw [← mountCount_eq_zero_iff]
  simp [VolumeRow.removable, volumeRow, volumeInfo, and_assoc]

section Volumes

variable [Floats]

def namedVolumeRefs (specs : List (Spec Settings)) : List Str :=
  specs.flatMap fun s => (s.settings.volumes.getD []).filterMap namedSource

/-- The volume `remove_volume` asks the backend to remove, if any. -/
def removeVolume (inventory : Option (List VolumeInfo)) (formName : Str)
    (specs : List (Spec Settings)) : Option Str :=
  let name := formName.trim
  match inventory with
  | none => none
  | some volumes =>
    let volumeRefs := namedVolumeRefs specs
    if (volumes.filter fun v => v.name = name).any fun v => (volumeRow v volumeRefs).removable
    then some name else none

/-- Nothing mounts the volume, it was created from the panel, and no spec names it. -/
structure SafeVolume (containers : List Container) (volumes : List DockerVolume)
    (specs : List (Spec Settings)) (name : Str) : Prop where
  unmounted : ∀ c ∈ containers, some name ∉ c.mounts
  labelled : ∃ v ∈ volumes, v.name = name ∧ (v.labels.lookup createdLabel).isSome = true
  unreferenced : ∀ spec ∈ specs, ∀ entry ∈ spec.settings.volumes.getD [],
    namedSource entry ≠ some name

theorem mem_namedVolumeRefs {specs : List (Spec Settings)} {name : Str} :
    name ∈ namedVolumeRefs specs ↔
      ∃ spec ∈ specs, ∃ entry ∈ spec.settings.volumes.getD [], namedSource entry = some name := by
  simp [namedVolumeRefs, List.mem_filterMap]

/-- What the handler checks, for the catalog it was served. -/
theorem removeVolume_iff {containers : Option (List Container)}
    {volumes : Option (List DockerVolume)} {formName name : Str}
    {specs : List (Spec Settings)} :
    removeVolume (listVolumes containers volumes) formName specs = some name ↔
      name = formName.trim ∧ ∃ cs ∈ containers, ∃ vs ∈ volumes, SafeVolume cs vs specs name := by
  cases containers with
  | none => simp [listVolumes, removeVolume]
  | some cs =>
    cases volumes with
    | none => simp [listVolumes, removeVolume]
    | some vs =>
      simp only [listVolumes, Option.bind_some, Option.map_some, removeVolume,
        Option.ite_none_right_eq_some, Option.some.injEq, List.any_filter, List.any_map,
        List.any_eq_true, Function.comp_apply, Bool.and_eq_true, decide_eq_true_eq,
        removable_volumeRow, Option.mem_def, exists_eq_left']
      constructor
      · rintro ⟨⟨v, hv, hname, hunmounted, hrefs, hlabel⟩, heq⟩
        have hvname : v.name = name := hname.trans heq
        rw [hvname] at hunmounted hrefs
        refine ⟨heq.symm, hunmounted, ⟨v, hv, hvname, hlabel⟩, ?_⟩
        exact fun spec hspec entry hentry heq =>
          hrefs (mem_namedVolumeRefs.mpr ⟨spec, hspec, entry, hentry, heq⟩)
      · rintro ⟨heq, hunmounted, ⟨v, hv, hvname, hlabel⟩, hrefs⟩
        refine ⟨⟨v, hv, hvname.trans heq, ?_, ?_, hlabel⟩, heq.symm⟩
        · rwa [hvname]
        · rw [hvname, mem_namedVolumeRefs]
          exact fun ⟨spec, hspec, entry, hentry, heq⟩ => hrefs spec hspec entry hentry heq

end Volumes

/-! ## The catalog a handler is served -/

section Served

variable [Floats]

/-- The listing of the specs answers. -/
def Readable : Event → Prop
  | .list _ answered => answered = true
  | _ => True

instance (e : Event) : Decidable (Readable e) :=
  match e with
  | .list _ answered => instDecidableEqBool answered true
  | .begin _ | .readSignature _ _ | .readCache _ | .store _ => .isTrue trivial
  | .insertNew _ _ | .upsert _ _ | .setState _ _ | .delete _ => .isTrue trivial

/-- The side condition: the cache is used in order, and no listing fails. -/
def Sound (s : Cluster) (e : Event) : Prop := Orderly s e ∧ Readable e

instance (s : Cluster) (e : Event) : Decidable (Sound s e) := by
  unfold Sound; exact inferInstance

variable {yaml : Nat → List (Spec Settings)} {s s' : Cluster} {call : Call}

/-- The catalog of a moment the call saw. -/
def FromMoment (yaml : Nat → List (Spec Settings)) (h : History) (call : Call)
    (specs : List (Spec Settings)) : Prop :=
  ∃ t, h.Since call.began t ∧ specs = catalog t (yaml call.node)

/-- A call that never had a signature to store under still listed the table. -/
def Unsigned (yaml : Nat → List (Spec Settings)) (s : Cluster) : Prop :=
  ∀ call ∈ s.calls, ∀ specs, call.phase = .done specs false →
    FromMoment yaml s.history call specs

theorem Unsigned.write (h : Unsigned yaml s) (t : SpecTable) : Unsigned yaml (s.write t) := by
  intro call hcall specs hdone
  obtain ⟨t', hsince, hspecs⟩ := h call hcall specs hdone
  exact ⟨t', hsince.write, hspecs⟩

theorem unsigned_advance {i : Nat} {next : Call → Option Phase} (h : Unsigned yaml s)
    (hnext : ∀ call ∈ s.calls, ∀ specs, next call = some (.done specs false) →
      FromMoment yaml s.history call specs)
    (hstep : s.advance i next = some s') : Unsigned yaml s' := by
  obtain ⟨call, hi, hmap⟩ := Option.bind_eq_some_iff.mp hstep
  obtain ⟨phase, hphase, rfl⟩ := Option.map_eq_some_iff.mp hmap
  refine forall_mem_set h fun specs hdone => ?_
  cases hdone
  exact hnext call (List.mem_of_getElem? hi) specs hphase

theorem unsigned_list (hinv : Inv yaml s) (hcall : call ∈ s.calls)
    {specs : List (Spec Settings)} (hphase : s.list yaml true call = some (.done specs false)) :
    FromMoment yaml s.history call specs := by
  unfold Cluster.list at hphase
  split at hphase
  · next key _ =>
    cases key with
    | none =>
      cases hphase
      exact ⟨s.table, History.since_table (hinv.calls call hcall).1, rfl⟩
    | some p => cases hphase
  · cases hphase

theorem unsigned_store (hinv : Inv yaml s) {i : Nat} (h : Unsigned yaml s)
    (hstep : s.store i = some s') : Unsigned yaml s' := by
  unfold Cluster.store at hstep
  split at hstep
  · next node began sig specs answered hi =>
    cases hstep
    refine forall_mem_set h fun specs' hdone => ?_
    cases hdone
    exact (hinv.calls _ (List.mem_of_getElem? hi)).2.2
  · cases hstep

theorem unsigned_step {e : Event} (hinv : Inv yaml s) (h : Unsigned yaml s) (hok : Readable e)
    (hstep : (machine yaml).step s e = some s') : Unsigned yaml s' := by
  cases e with
  | begin node =>
    cases hstep
    exact forall_mem_concat h fun specs hdone => nomatch hdone
  | readSignature i answered =>
    refine unsigned_advance h (fun call hcall specs hphase => ?_) hstep
    unfold Cluster.readSignature at hphase
    split at hphase
    · cases answered <;> cases hphase
    · cases hphase
  | readCache i =>
    refine unsigned_advance h (fun call hcall specs hphase => ?_) hstep
    unfold Cluster.readCache at hphase
    split at hphase
    · split at hphase
      · split at hphase <;> cases hphase
      · cases hphase
    · cases hphase
  | list i answered =>
    cases hok
    exact unsigned_advance h (fun call hcall specs => unsigned_list hinv hcall) hstep
  | store i => exact unsigned_store hinv h hstep
  | insertNew spec now => cases hstep; exact h.write _
  | upsert spec now => cases hstep; exact h.write _
  | setState id active => cases hstep; exact h.write _
  | delete id => cases hstep; exact h.write _

/-- Where no listing fails, every call is served the catalog of a moment it saw. -/
theorem served_of_sound {t : SpecTable} {events : List Event}
    (hrun : (machine yaml).Run Sound (initial t) events s) (hcall : call ∈ s.calls)
    {specs : List (Spec Settings)} {answered : Bool} (hdone : call.phase = .done specs answered) :
    FromMoment yaml s.history call specs := by
  have hinv : Inv yaml s ∧ Unsigned yaml s :=
    hrun.invariant (I := fun s => Inv yaml s ∧ Unsigned yaml s)
      ⟨inv_initial t, fun call hcall => absurd hcall List.not_mem_nil⟩
      fun _ _ _ h hok hstep =>
        ⟨inv_step h.1 hok.1 hstep, unsigned_step h.1 h.2 hok.2 hstep⟩
  cases answered with
  | true => exact hinv.1.coherent.answers call hcall specs hdone
  | false => exact hinv.2 call hcall specs hdone

/-- **Volumes.** In a sound run a volume is only removed where nothing mounts it, it was
made from the panel, and no spec of the catalog names it. -/
theorem removed_volume_safe {t : SpecTable} {events : List Event}
    (hrun : (machine yaml).Run Sound (initial t) events s) (hcall : call ∈ s.calls)
    {specs : List (Spec Settings)} {answered : Bool} (hdone : call.phase = .done specs answered)
    {containers : Option (List Container)} {volumes : Option (List DockerVolume)}
    {formName name : Str}
    (hremove : removeVolume (listVolumes containers volumes) formName specs = some name) :
    ∃ cs ∈ containers, ∃ vs ∈ volumes, ∃ t', s.history.Since call.began t' ∧
      SafeVolume cs vs (catalog t' (yaml call.node)) name := by
  obtain ⟨t', hsince, rfl⟩ := served_of_sound hrun hcall hdone
  obtain ⟨-, cs, hcs, vs, hvs, hsafe⟩ := removeVolume_iff.mp hremove
  exact ⟨cs, hcs, vs, hvs, t', hsince, hsafe⟩

end Served

/-! ## One app with a volume -/

section OneApp

attribute [local instance] wholeFloats

def storeApp : Spec Settings :=
  ⟨"a".toList, none, none,
    { bareSettings "A" .empty with volumes := some ["data:/srv".toList] }⟩

def panelVolume (name : String) : DockerVolume :=
  { name := name.toList, driver := "local".toList, createdAt := none
    labels := SortedMap.empty.insert createdLabel "true".toList }

def servedEvents (answered : Bool) : List Event :=
  .insertNew storeApp 5 :: readCall 0 ++ [.list 0 answered, .store 0] ++ readCall 1

/-- The request after a failed listing removes the volume of an app. -/
theorem fallback_removes_volume :
    ¬ ∀ (yaml : Nat → List (Spec Settings)) (events : List Event) (s : Cluster),
      (machine yaml).Run Free (initial .empty) events s → ∀ call ∈ s.calls,
      ∀ specs answered, call.phase = .done specs answered →
      ∀ containers volumes formName name,
        removeVolume (listVolumes containers volumes) formName specs = some name →
        ∃ cs ∈ containers, ∃ vs ∈ volumes, ∃ t', s.history.Since call.began t' ∧
          SafeVolume cs vs (catalog t' (yaml call.node)) name := by
  intro hclaim
  obtain ⟨cs, -, vs, -, t', hsince, hsafe⟩ := hclaim (fun _ => []) (servedEvents false)
    (((machine fun _ => []).exec (initial .empty) (servedEvents false)).get (by decide))
    (run_free_iff.mpr (Option.some_get _).symm) ⟨0, 1, .done [] true⟩ (by decide) [] true rfl
    (some []) (some [panelVolume "data"]) "data".toList "data".toList (by decide)
  rw [History.eq_table_of_since hsince] at hsafe
  exact hsafe.unreferenced storeApp (by decide) "data:/srv".toList (by decide) (by decide)

theorem removed_volume_safe_old :
    ∃ s, (machine fun _ => []).Run Sound (initial .empty) (servedEvents true) s ∧
      removeVolume (listVolumes (some []) (some [panelVolume "old"])) "old".toList [storeApp] =
        some "old".toList ∧
      ∃ cs ∈ some [], ∃ vs ∈ some [panelVolume "old"], ∃ t', s.history.Since 1 t' ∧
        SafeVolume cs vs (catalog t' []) "old".toList := by
  have hsome : ((machine fun _ => []).execIf Sound (initial .empty)
      (servedEvents true)).isSome = true := by decide
  have hrun := run_execIf hsome
  have hcall : (⟨0, 1, .done [storeApp] true⟩ : Call) ∈ (((machine fun _ => []).execIf Sound
      (initial .empty) (servedEvents true)).get (by decide)).calls := by decide
  have hremove : removeVolume (listVolumes (some []) (some [panelVolume "old"])) "old".toList
      [storeApp] = some "old".toList := by decide
  exact ⟨_, hrun, hremove, removed_volume_safe hrun hcall rfl hremove⟩

end OneApp

/-! ## Images -/

/-- No two images of a host share an id. -/
structure ImageInventory where
  images : List ImageInfo
  ids_nodup : (images.map ImageInfo.id).Nodup

def imageUsedByContainer (i : ImageInfo) (containerImages : Option (List Str)) : Bool :=
  match containerImages with
  | none => true
  | some refs => refs.contains i.id || i.tags.any refs.contains

def imageIsRuscker (i : ImageInfo) (rusckerImages : List Str) : Bool :=
  i.tags.any rusckerImages.contains

def imageRemovable (i : ImageInfo) (specImages : List Str) (containerImages : Option (List Str))
    (rusckerImages : List Str) : Bool :=
  !imageUsedByContainer i containerImages && !i.tags.any specImages.contains &&
    imageIsRuscker i rusckerImages

/-- Whether the last segment of a reference has a tag or a digest. -/
def hasTag (ref : Str) : Bool := ((ref.rsplitOnce '/').elim ref Prod.snd).contains ':'

/-- The tag the daemon resolves an image reference to. -/
def dockerReference (image : Str) : Str :=
  let ref := image.trim
  let hub := ("docker.io/library/".toList.isPrefixOf? ref).or ("docker.io/".toList.isPrefixOf? ref)
  let ref := hub.getD ref
  if hasTag ref then ref else ref ++ ":latest".toList

/-- The image the container was made from, by id or by one of its tags. -/
def BuiltFrom (c : Container) (i : ImageInfo) : Prop :=
  c.imageId = some i.id ∨ c.image = some i.id ∨ ∃ tag ∈ i.tags, c.image = some tag

theorem not_builtFrom_of_unused {containers : List Container} {i : ImageInfo}
    (h : imageUsedByContainer i (some (allContainerImageRefs containers)) = false)
    {c : Container} (hc : c ∈ containers) : ¬ BuiltFrom c i := by
  have hmem : ∀ ref, c.image = some ref ∨ c.imageId = some ref →
      ref ∈ allContainerImageRefs containers := by
    intro ref href
    refine List.mem_flatMap.mpr ⟨c, hc, List.mem_append.mpr ?_⟩
    exact href.imp Option.mem_toList.mpr Option.mem_toList.mpr
  simp only [imageUsedByContainer, Bool.or_eq_false_iff, List.any_eq_false,
    List.contains_eq_mem, decide_eq_false_iff_not, decide_eq_true_eq] at h
  rintro (hid | hid | ⟨tag, htag, himage⟩)
  · exact h.1 (hmem i.id (.inr hid))
  · exact h.1 (hmem i.id (.inl hid))
  · exact h.2 tag htag (hmem tag (.inl himage))

theorem imageIsRuscker_iff {i : ImageInfo} {rs : List Str} :
    imageIsRuscker i rs = true ↔ ∃ tag ∈ i.tags, tag ∈ rs := by
  simp [imageIsRuscker]

section Images

variable [Floats]

/-- The provenance record an upsert leaves: the trimmed reference, once. -/
def recordImage (recorded : List Str) (spec : Spec Settings) : List Str :=
  match (spec.settings.containerImage.map Str.trim).filter fun img => !img.isEmpty with
  | none => recorded
  | some img => if recorded.contains img then recorded else recorded ++ [img]

def catalogImageRefs (specs : List (Spec Settings)) : List Str :=
  specs.filterMap fun s => s.settings.containerImage

/-- The image `remove_image` asks the backend to remove, if any. -/
def removeImage (inventory : Option ImageInventory) (containers : Option (List Container))
    (recorded : Option (List Str)) (specs : List (Spec Settings)) (formId : Str) : Option Str :=
  match inventory, containers with
  | some inventory, some containers =>
    if inventory.images.any fun i => i.id = formId &&
      imageRemovable i (catalogImageRefs specs) (some (allContainerImageRefs containers))
        (recorded.getD [])
    then some formId else none
  | _, _ => none

/-- The images `prune_images` asks the backend to remove, one after the other. -/
def pruneImages (inventory : Option ImageInventory) (containers : Option (List Container))
    (recorded : Option (List Str)) (specs : List (Spec Settings)) : List Str :=
  match inventory, containers with
  | some inventory, some containers =>
    (inventory.images.filter fun i => imageRemovable i (catalogImageRefs specs)
      (some (allContainerImageRefs containers)) (recorded.getD [])).map ImageInfo.id
  | _, _ => []

/-- Nothing was built from the image, a tag of it is on record, and no spec resolves to it. -/
structure SafeImage (containers : List Container) (recorded : List Str)
    (specs : List (Spec Settings)) (i : ImageInfo) : Prop where
  unused : ∀ c ∈ containers, ¬ BuiltFrom c i
  managed : ∃ tag ∈ i.tags, tag ∈ recorded
  unreferenced : ∀ spec ∈ specs, ∀ image ∈ spec.settings.containerImage,
    dockerReference image ∉ i.tags

/-- Both handlers only ask for safe images; `specs` is the catalog they were served. -/
structure OnlySafeImages (inventory : Option ImageInventory)
    (containers : Option (List Container)) (recorded : Option (List Str))
    (specs catalog : List (Spec Settings)) : Prop where
  prune : ∀ id ∈ pruneImages inventory containers recorded specs,
    ∃ inv ∈ inventory, ∃ cs ∈ containers, ∃ rs ∈ recorded, ∃ i ∈ inv.images,
      i.id = id ∧ SafeImage cs rs catalog i
  remove : ∀ formId, ∀ id ∈ removeImage inventory containers recorded specs formId,
    ∃ inv ∈ inventory, ∃ cs ∈ containers, ∃ rs ∈ recorded, ∃ i ∈ inv.images,
      i.id = id ∧ SafeImage cs rs catalog i

/-- A spec that resolves to the image has, or another one has, a tag of it as its text. -/
def Spelled (specs : List (Spec Settings)) (i : ImageInfo) : Prop :=
  (∃ spec ∈ specs, ∃ image ∈ spec.settings.containerImage, dockerReference image ∈ i.tags) →
    ∃ spec ∈ specs, ∃ image ∈ spec.settings.containerImage, image ∈ i.tags

/-- Every image that looks removable on the host is spelled the way the daemon lists it. -/
def SpelledImages (inventory : Option ImageInventory) (containers : Option (List Container))
    (recorded : Option (List Str)) (specs : List (Spec Settings)) : Prop :=
  ∀ inv ∈ inventory, ∀ cs ∈ containers, ∀ rs ∈ recorded, ∀ i ∈ inv.images,
    imageUsedByContainer i (some (allContainerImageRefs cs)) = false →
    imageIsRuscker i rs = true → Spelled specs i

variable {inventory : Option ImageInventory} {containers : Option (List Container)}
  {recorded : Option (List Str)} {specs : List (Spec Settings)} {i : ImageInfo}

theorem imageRemovable_iff {cs : List Container} {rs : List Str} :
    imageRemovable i (catalogImageRefs specs) (some (allContainerImageRefs cs)) rs = true ↔
      imageUsedByContainer i (some (allContainerImageRefs cs)) = false ∧
        imageIsRuscker i rs = true ∧
        ¬ ∃ spec ∈ specs, ∃ image ∈ spec.settings.containerImage, image ∈ i.tags := by
  have hrefs : i.tags.any (catalogImageRefs specs).contains = false ↔
      ¬ ∃ spec ∈ specs, ∃ image ∈ spec.settings.containerImage, image ∈ i.tags := by
    simp only [List.any_eq_false, List.contains_iff_mem, catalogImageRefs, List.mem_filterMap]
    constructor
    · rintro h ⟨spec, hspec, image, himage, htag⟩
      exact h image htag ⟨spec, hspec, himage⟩
    · rintro h image htag ⟨spec, hspec, himage⟩
      exact h ⟨spec, hspec, image, himage, htag⟩
  simp only [imageRemovable, Bool.and_eq_true, Bool.not_eq_true', hrefs]
  tauto

/-- A removable image is safe where it is spelled the way the daemon lists it. -/
theorem safeImage_of_removable {inv : ImageInventory} {cs : List Container}
    (hspelled : SpelledImages (some inv) (some cs) recorded specs) (hi : i ∈ inv.images)
    (h : imageRemovable i (catalogImageRefs specs) (some (allContainerImageRefs cs))
      (recorded.getD []) = true) :
    ∃ rs ∈ recorded, SafeImage cs rs specs i := by
  obtain ⟨hunused, hmanaged, hrefs⟩ := imageRemovable_iff.mp h
  cases recorded with
  | none =>
    obtain ⟨tag, -, htag⟩ := imageIsRuscker_iff.mp hmanaged
    cases htag
  | some rs =>
    have hok := hspelled inv rfl cs rfl rs rfl i hi hunused hmanaged
    refine ⟨rs, rfl, ?_, imageIsRuscker_iff.mp hmanaged, ?_⟩
    · exact fun c hc => not_builtFrom_of_unused hunused hc
    · exact fun spec hspec image himage htag =>
        hrefs (hok ⟨spec, hspec, image, himage, htag⟩)

/-- The handlers only ask for safe images exactly where the spelling agrees. -/
theorem onlySafeImages_iff :
    OnlySafeImages inventory containers recorded specs specs ↔
      SpelledImages inventory containers recorded specs := by
  constructor
  · intro honly inv hinv cs hcs rs hrs i hi hunused hmanaged hresolves
    cases hinv
    cases hcs
    cases hrs
    by_contra hliteral
    have hremovable := imageRemovable_iff.mpr ⟨hunused, hmanaged, hliteral⟩
    have hpruned : i.id ∈ pruneImages (some inv) (some cs) (some rs) specs :=
      List.mem_map_of_mem (List.mem_filter.mpr ⟨hi, hremovable⟩)
    obtain ⟨_, hinv, _, -, _, -, i', hi', hid, hsafe⟩ := honly.prune i.id hpruned
    cases hinv
    have heq : i' = i := List.inj_on_of_nodup_map inv.ids_nodup hi' hi hid
    obtain ⟨spec, hspec, image, himage, htag⟩ := hresolves
    exact hsafe.unreferenced spec hspec image himage (heq ▸ htag)
  · intro hspelled
    cases inventory with
    | none =>
      refine ⟨fun id hid => absurd hid List.not_mem_nil, fun formId id hid => ?_⟩
      exact absurd hid (Option.not_mem_none id)
    | some inv =>
      cases containers with
      | none =>
        refine ⟨fun id hid => absurd hid List.not_mem_nil, fun formId id hid => ?_⟩
        exact absurd hid (Option.not_mem_none id)
      | some cs =>
        constructor
        · intro id hid
          obtain ⟨i, hi, rfl⟩ := List.mem_map.mp hid
          obtain ⟨hmem, hremovable⟩ := List.mem_filter.mp hi
          obtain ⟨rs, hrs, hsafe⟩ := safeImage_of_removable hspelled hmem hremovable
          exact ⟨inv, rfl, cs, rfl, rs, hrs, i, hmem, rfl, hsafe⟩
        · intro formId id hid
          obtain ⟨hany, hform⟩ := Option.ite_none_right_eq_some.mp hid
          cases hform
          obtain ⟨i, hmem, hi⟩ := List.any_eq_true.mp hany
          simp only [Bool.and_eq_true, decide_eq_true_eq] at hi
          obtain ⟨rs, hrs, hsafe⟩ := safeImage_of_removable hspelled hmem hi.2
          exact ⟨inv, rfl, cs, rfl, rs, hrs, i, hmem, hi.1, hsafe⟩

/-- **Images.** In a sound run every call is served a catalog for which the handlers only
ask for safe images exactly where its specs are spelled the way the daemon lists them. -/
theorem removed_images_safe_iff {yaml : Nat → List (Spec Settings)} {t : SpecTable}
    {events : List Event} {s : Cluster} (hrun : (machine yaml).Run Sound (initial t) events s)
    {call : Call} (hcall : call ∈ s.calls) {answered : Bool}
    (hdone : call.phase = .done specs answered) :
    ∃ t', s.history.Since call.began t' ∧ ∀ inventory containers recorded,
      OnlySafeImages inventory containers recorded specs (catalog t' (yaml call.node)) ↔
        SpelledImages inventory containers recorded (catalog t' (yaml call.node)) := by
  obtain ⟨t', hsince, rfl⟩ := served_of_sound hrun hcall hdone
  exact ⟨t', hsince, fun _ _ _ => onlySafeImages_iff⟩

end Images

/-! ## One app spelled twice -/

section Spelling

attribute [local instance] wholeFloats

def shopApp (image : String) : Spec Settings :=
  ⟨"a".toList, none, none,
    { bareSettings "A" .empty with containerImage := some image.toList }⟩

def shopImages : ImageInventory := ⟨[⟨"sha256:1".toList, ["r:latest".toList]⟩], by decide⟩

def shopEvents (image : String) : List Event :=
  .insertNew (shopApp "r:latest") 5 :: .upsert (shopApp image) 6 :: readCall 0 ++
    [.list 0 true, .store 0]

/-- What the two saves recorded. -/
def shopRecord (image : String) : List Str :=
  [shopApp "r:latest", shopApp image].foldl recordImage []

/-- The reference loses its tag, and the image of the app is pruned. -/
theorem untagged_image_pruned :
    ¬ ∀ (yaml : Nat → List (Spec Settings)) (events : List Event) (s : Cluster),
      (machine yaml).Run Free (initial .empty) events s → ∀ call ∈ s.calls,
      ∀ specs answered, call.phase = .done specs answered →
      ∃ t', s.history.Since call.began t' ∧ ∀ inventory containers recorded,
        OnlySafeImages inventory containers recorded specs (catalog t' (yaml call.node)) := by
  intro hclaim
  obtain ⟨t', hsince, honly⟩ := hclaim (fun _ => []) (shopEvents "r")
    (((machine fun _ => []).exec (initial .empty) (shopEvents "r")).get (by decide))
    (run_free_iff.mpr (Option.some_get _).symm)
    ⟨0, 2, .done [shopApp "r"] true⟩ (by decide) [shopApp "r"] true rfl
  rw [History.eq_table_of_since hsince] at honly
  obtain ⟨_, hinv, _, -, _, -, i, hi, -, hsafe⟩ :=
    (honly (some shopImages) (some []) (some (shopRecord "r"))).prune "sha256:1".toList
      (by decide)
  cases hinv
  cases List.mem_singleton.mp hi
  exact hsafe.unreferenced (shopApp "r") (by decide) "r".toList (by decide) (by decide)

theorem removed_images_safe_iff_tagged :
    ∃ s, (machine fun _ => []).Run Sound (initial .empty) (shopEvents "r:latest") s ∧
      ∃ t', s.history.Since 2 t' ∧ ∀ inventory containers recorded,
        OnlySafeImages inventory containers recorded [shopApp "r:latest"] (catalog t' []) ↔
          SpelledImages inventory containers recorded (catalog t' []) := by
  have hsome : ((machine fun _ => []).execIf Sound (initial .empty)
      (shopEvents "r:latest")).isSome = true := by decide
  have hcall : (⟨0, 2, .done [shopApp "r:latest"] true⟩ : Call) ∈
      (((machine fun _ => []).execIf Sound (initial .empty)
        (shopEvents "r:latest")).get (by decide)).calls := by decide
  exact ⟨_, run_execIf hsome, removed_images_safe_iff (run_execIf hsome) hcall rfl⟩

end Spelling

end Ruscker.Admin.Disk
