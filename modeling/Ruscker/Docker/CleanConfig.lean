import Ruscker.Config.Validate
import Ruscker.Docker.MultiHost

/-!
# What a clean report promises

A configuration without warnings runs as it is written: its containers come up with every limit,
volume, network and label, and every host that answers is reached under its own id.  A warning
about a limit says that the container comes up without it.
-/

namespace Ruscker.Docker.Clean

open Validate SpawnRequest Admin.SpecRoutes

/-! ## The request of a spec -/

section Requests

variable [Floats] {spec : Spec Settings} {req : SpawnRequest}

/-- What every kind of request takes from the spec. -/
structure Requested (spec : Spec Settings) (req : SpawnRequest) : Prop where
  image : spec.settings.containerImage = some req.image
  limits : req.limits = limitsFromSpec spec
  volumes : req.volumes = spec.settings.volumes.getD []
  network : req.network = spec.settings.effectiveContainerNetwork
  labels : req.labels = spec.settings.effectiveLabels

/-- The fields that no optional step writes. -/
def fixed (req : SpawnRequest) : Str × ResourceLimits × List Str :=
  (req.image, req.limits, req.volumes)

theorem withSome_network {network : Option Str} (h : req.network = none) :
    (req.withSome network withNetwork).network = network := by
  cases network with
  | none => exact h
  | some network => rfl

theorem withEffectiveLabels_labels {labels : List (Str × Str)} (h : req.labels = []) :
    (req.withEffectiveLabels labels).labels = labels := by
  unfold withEffectiveLabels
  split
  · next hempty => rw [h, List.isEmpty_iff.mp hempty]
  · rfl

theorem requested_assembleRequest {image : Str} {creds : Option RegistryCredentials}
    {env : List Str} {cmd : Option (List Str)}
    (himage : spec.settings.containerImage = some image) :
    Requested spec (assembleRequest spec image creds env cmd) := by
  have hfixed : fixed (assembleRequest spec image creds env cmd) =
      (image, limitsFromSpec spec, spec.settings.volumes.getD []) := by
    unfold assembleRequest
    refine withSome_keeps fixed ?_ fun _ _ => rfl
    refine withEffectiveLabels_keeps fixed ?_ rfl
    refine withSome_keeps fixed ?_ fun _ _ => rfl
    refine withSome_keeps fixed ?_ fun _ _ => rfl
    refine withSome_keeps fixed ?_ fun _ _ => rfl
    refine withSome_keeps fixed ?_ fun _ _ => rfl
    exact withSome_keeps fixed rfl fun _ _ => rfl
  simp only [fixed, Prod.mk.injEq] at hfixed
  refine ⟨by rw [hfixed.1, himage], hfixed.2.1, hfixed.2.2, ?_, ?_⟩
  · unfold assembleRequest
    refine withSome_keeps SpawnRequest.network ?_ fun _ _ => rfl
    refine withEffectiveLabels_keeps SpawnRequest.network ?_ rfl
    refine withSome_network ?_
    refine withSome_keeps SpawnRequest.network ?_ fun _ _ => rfl
    refine withSome_keeps SpawnRequest.network ?_ fun _ _ => rfl
    refine withSome_keeps SpawnRequest.network ?_ fun _ _ => rfl
    exact withSome_keeps SpawnRequest.network rfl fun _ _ => rfl
  · unfold assembleRequest
    refine withSome_keeps SpawnRequest.labels ?_ fun _ _ => rfl
    refine withEffectiveLabels_labels ?_
    refine withSome_keeps SpawnRequest.labels ?_ fun _ _ => rfl
    refine withSome_keeps SpawnRequest.labels ?_ fun _ _ => rfl
    refine withSome_keeps SpawnRequest.labels ?_ fun _ _ => rfl
    refine withSome_keeps SpawnRequest.labels ?_ fun _ _ => rfl
    exact withSome_keeps SpawnRequest.labels rfl fun _ _ => rfl

variable [Aead] {state : SpawnState} {parseArgv : Str → Option (List Str)} {schedule : Schedule}

/-- A request is built from the image of the spec. -/
theorem exists_inputs {build : Str × Option RegistryCredentials × List Str → SpawnRequest}
    (h : (spawnInputs state spec).map build = .ok req) :
    ∃ image creds env, spec.settings.containerImage = some image ∧
      build (image, creds, env) = req := by
  unfold spawnInputs at h
  split at h
  · cases h
  · next image himage =>
    rw [himage]
    split at h
    · cases h
    · next creds _ =>
      split at h
      · cases h
      · next env _ => exact ⟨image, creds, env, rfl, Except.ok.inj h⟩

/-- A request of one of the three paths: a visitor's, the scaler's or a job's. -/
def IsRequest (state : SpawnState) (spec : Spec Settings) (req : SpawnRequest) : Prop :=
  pickOrSpawnRequest state spec = .ok req ∨ spawnOneRequest state spec = .ok req ∨
    ∃ parseArgv schedule, jobRequest parseArgv state spec schedule = .ok req

theorem requested_jobRequest (h : jobRequest parseArgv state spec schedule = .ok req) :
    Requested spec req := by
  have hlabels := labels_jobRequest h
  obtain ⟨image, creds, env, himage, hreq⟩ := exists_inputs h
  have hfixed : fixed req = (image, limitsFromSpec spec, spec.settings.volumes.getD []) := by
    rw [← hreq]
    refine withSome_keeps fixed ?_ fun _ _ => rfl
    refine withSome_keeps fixed ?_ fun _ _ => rfl
    refine withEffectiveLabels_keeps fixed ?_ rfl
    refine withSome_keeps fixed ?_ fun _ _ => rfl
    refine withSome_keeps fixed ?_ fun _ _ => rfl
    exact withSome_keeps fixed rfl fun _ _ => rfl
  simp only [fixed, Prod.mk.injEq] at hfixed
  refine ⟨by rw [hfixed.1, himage], hfixed.2.1, hfixed.2.2, ?_, hlabels⟩
  rw [← hreq]
  refine withSome_keeps SpawnRequest.network ?_ fun _ _ => rfl
  refine withSome_keeps SpawnRequest.network ?_ fun _ _ => rfl
  refine withEffectiveLabels_keeps SpawnRequest.network ?_ rfl
  refine withSome_network ?_
  refine withSome_keeps SpawnRequest.network ?_ fun _ _ => rfl
  exact withSome_keeps SpawnRequest.network rfl fun _ _ => rfl

theorem requested_of_isRequest (h : IsRequest state spec req) : Requested spec req := by
  rcases h with h | h | ⟨parseArgv, schedule, h⟩
  · obtain ⟨image, creds, env, himage, rfl⟩ := exists_inputs h
    exact requested_assembleRequest himage
  · obtain ⟨image, creds, env, himage, rfl⟩ := exists_inputs h
    exact requested_assembleRequest himage
  · exact requested_jobRequest h

end Requests

/-! ## Labels -/

section Labels

variable {ι : Type*} {key value : Str}

theorem mem_of_lookup_ofList {l : List (Str × Str)}
    (h : (SortedMap.ofList l).lookup key = some value) : (key, value) ∈ l := by
  have hfold : ∀ m : Labels, (l.foldl (fun m e => m.insert e.1 e.2) m).lookup key = some value →
      m.lookup key = some value ∨ (key, value) ∈ l := by
    clear h
    induction l with
    | nil => exact fun m h => .inl h
    | cons e l ih =>
      intro m h
      rcases ih _ h with hhead | htail
      · rw [SortedMap.lookup_insert] at hhead
        split at hhead
        · next heq =>
          refine .inr (List.mem_cons.mpr (.inl ?_))
          rw [heq, ← Option.some.inj hhead]
        · exact .inl hhead
      · exact .inr (List.mem_cons_of_mem _ htail)
  rcases hfold _ h with hempty | hmem
  · cases hempty
  · exact hmem

/-- A label outside the reserved namespace is not written over. -/
theorem lookup_spawnLabels [Floats] [Uuid ι] {req : SpawnRequest}
    (h : isReservedLabelKey key = false) (id : ι) :
    (spawnLabels req id).lookup key = (operatorLabels req).lookup key := by
  have hne : ∀ own : Str, isReservedLabelKey own = true → key ≠ own := by
    rintro own hown rfl
    rw [h] at hown
    cases hown
  rw [spawnLabels, SortedMap.lookup_insert, if_neg (hne _ (by decide)), SortedMap.lookup_insert,
    if_neg (hne _ (by decide)), SortedMap.lookup_insert, if_neg (hne _ (by decide))]

theorem lookup_jobLabels_of_unreserved [Floats] {req : SpawnRequest}
    (h : isReservedLabelKey key = false) :
    (jobLabels req).lookup key = (operatorLabels req).lookup key := by
  refine lookup_jobLabels ?_ ?_
  · rintro rfl
    exact absurd h (by decide)
  · rintro rfl
    exact absurd h (by decide)

/-- The value of a label is one that the operator gave it. -/
theorem exists_operatorLabel [Floats] {req : SpawnRequest} (h : (key, value) ∈ req.labels) :
    ∃ value', (key, value') ∈ req.labels ∧ (operatorLabels req).lookup key = some value' := by
  cases hlookup : (operatorLabels req).lookup key with
  | none => exact absurd rfl (lookup_ofList_eq_none.mp hlookup _ h)
  | some value' => exact ⟨value', mem_of_lookup_ofList hlookup, rfl⟩

end Labels

/-! ## A spec without warnings -/

section Specs

variable [Floats] [Thresholds] {spec : Spec Settings} {isTimezone : Str → Bool} {config : Config}

theorem checkSpec_of_clean (h : (run isTimezone config).isClean = true)
    (hspec : spec ∈ config.proxy.specs) : checkSpec spec = [] := by
  simp only [ValidationReport.isClean, run, List.isEmpty_iff, List.append_eq_nil_iff] at h
  exact List.flatMap_eq_nil_iff.mp h.1.1.1.1.1 spec hspec

theorem ids_of_clean (h : (run isTimezone config).isClean = true) :
    (config.proxy.specs.map Spec.id).Nodup := by
  simp only [ValidationReport.isClean, run, List.isEmpty_iff, List.append_eq_nil_iff,
    List.map_eq_nil_iff] at h
  exact duplicates_eq_nil.mp h.1.1.1.1.2

/-- The app can be started and scaled, and its caps on requests are in force. -/
structure Runnable (s : Settings) : Prop where
  image : s.containerImage.isSome = true
  seats : 0 < s.effectiveSeats
  ceiling : 0 < s.effectiveMaxReplicas
  range : s.effectiveMinReplicas ≤ s.effectiveMaxReplicas
  rateLimit : s.ratePolicy.isSome = (s.api.bind ApiSpec.rateLimit).isSome
  bodyLimit : (s.effectiveMaxBodyBytes none).isSome = s.maxBodySize.isSome

/-- The container comes up with what the spec says. -/
structure AsConfigured (ι : Type*) [Uuid ι] (s : Settings) (req : SpawnRequest) : Prop where
  image : s.containerImage = some req.image
  memory : req.limits.memoryBytes.isSome = s.containerMemoryLimit.isSome
  reservation : req.limits.memoryReservationBytes.isSome = s.containerMemoryRequest.isSome
  cpu : req.limits.cpuFraction = s.containerCpuLimit
  volumes : req.volumes = s.volumes.getD [] ∧ ∀ v ∈ req.volumes, isValidVolumeBind v = true
  network : req.network = s.effectiveContainerNetwork ∧
    ∀ net, req.network = some net → isValidNetworkName net = true
  labels : ∀ e ∈ s.effectiveLabels, isValidLabelKey e.1 = true ∧ ∃ value,
    (e.1, value) ∈ s.effectiveLabels ∧ (jobLabels req).lookup e.1 = some value ∧
      ∀ id : ι, (spawnLabels req id).lookup e.1 = some value

omit [Thresholds] in
theorem runnable_replicas (h : checkReplicas spec = []) (hkind : spec.settings.kind ≠ .external) :
    0 < spec.settings.effectiveMaxReplicas ∧
      spec.settings.effectiveMinReplicas ≤ spec.settings.effectiveMaxReplicas := by
  rw [checkReplicas, List.append_eq_nil_iff, warnIf_eq_nil, warnIf_eq_nil, decide_eq_false_iff_not,
    not_lt] at h
  refine ⟨Fin.pos_iff_ne_zero.mpr fun hzero => ?_, h.1⟩
  simp [hkind, hzero] at h

omit [Thresholds] in
theorem runnable_seats (h : checkSeats spec = []) (hkind : spec.settings.kind ≠ .external) :
    0 < spec.settings.effectiveSeats := by
  rw [checkSeats, warnIf_eq_nil] at h
  unfold Settings.effectiveSeats
  cases hseats : spec.settings.seatsPerContainer with
  | none =>
    rw [Option.getD_none]
    split
    · decide
    · decide
    · decide
    · next hexternal => exact absurd hexternal hkind
  | some seats =>
    refine Fin.pos_iff_ne_zero.mpr ?_
    rintro hzero
    rw [Option.getD_some] at hzero
    simp [hkind, hseats, hzero] at h

omit [Thresholds] in
/-- A size that draws no warning is in force. -/
theorem isSome_of_checkMemoryField {field : String} {raw : Option Str}
    (h : checkMemoryField spec field raw (raw.bind parseMemoryString) = []) :
    (raw.bind parseMemoryString).isSome = raw.isSome := by
  cases raw with
  | none => rfl
  | some raw =>
    rw [checkMemoryField, Option.elim_some, warnIf_eq_nil, Option.isNone_eq_false_iff] at h
    rw [h]
    rfl

omit [Thresholds] in
theorem filter_of_checkCpuField {field : String} {value : Option F64}
    (h : checkCpuField spec field value = []) :
    (value.filter fun c => Floats.isFinite c && Floats.isPositive c) = value := by
  cases value with
  | none => rfl
  | some v =>
    rw [checkCpuField, Option.elim_some, warnIf_eq_nil, Bool.not_eq_false'] at h
    rw [Option.filter_some, if_pos h]

omit [Thresholds] in
theorem keys_of_checkLabels (h : checkLabels spec = []) {e : Str × Str}
    (he : e ∈ spec.settings.effectiveLabels) :
    isReservedLabelKey e.1 = false ∧ isValidLabelKey e.1 = true := by
  obtain ⟨labels, hlabels, hmem⟩ := mem_elim_nil.mp he
  obtain ⟨⟨key, value⟩, hentry, hkept⟩ := List.mem_filterMap.mp hmem
  rw [checkLabels, hlabels, Option.elim_some, List.flatMap_eq_nil_iff] at h
  have hkey := h (key, value) hentry
  dsimp only at hkept
  unfold checkLabelKey at hkey
  by_cases hblank : key.trim.isEmpty = true
  · rw [if_pos hblank] at hkept
    cases hkept
  · rw [if_neg hblank] at hkept hkey
    cases hkept
    split at hkey
    · cases hkey
    · next hreserved =>
      rw [warnIf_eq_nil, Bool.not_eq_false'] at hkey
      exact ⟨by simpa using hreserved, hkey⟩

theorem runnable_of_clean (h : checkSpec spec = []) (hkind : spec.settings.kind ≠ .external) :
    Runnable spec.settings := by
  simp only [checkSpec, List.append_eq_nil_iff] at h
  obtain ⟨⟨⟨⟨⟨⟨⟨⟨⟨⟨⟨⟨⟨⟨-, -⟩, -⟩, hreplicas⟩, himage⟩, hseats⟩, -⟩, -⟩, hrate⟩, hbody⟩, -⟩, -⟩,
    -⟩, -⟩, -⟩ := h
  obtain ⟨hceiling, hrange⟩ := runnable_replicas hreplicas hkind
  refine ⟨?_, runnable_seats hseats hkind, hceiling, hrange, ?_, ?_⟩
  · rw [checkImage, List.append_eq_nil_iff, warnIf_eq_nil] at himage
    simpa [hkind] using himage.1
  · rw [Settings.ratePolicy]
    cases hlimit : spec.settings.api.bind ApiSpec.rateLimit with
    | none => rfl
    | some raw =>
      rw [checkRateLimit, hlimit, Option.elim_some, warnIf_eq_nil,
        Option.isNone_eq_false_iff] at hrate
      rw [Option.bind_some, hrate]
      rfl
  · cases hraw : spec.settings.maxBodySize with
    | none => simp [Settings.effectiveMaxBodyBytes, hraw]
    | some raw =>
      rw [checkMaxBody, hraw, Option.elim_some, warnIf_eq_nil,
        Option.isNone_eq_false_iff] at hbody
      rw [hbody]
      rfl

theorem asConfigured_of_clean (ι : Type*) [Uuid ι] {req : SpawnRequest} (h : checkSpec spec = [])
    (hreq : Requested spec req) : AsConfigured ι spec.settings req := by
  simp only [checkSpec, List.append_eq_nil_iff] at h
  obtain ⟨⟨⟨⟨⟨-, hcpu⟩, hmemory⟩, hvolumes⟩, hlabels⟩, hnetwork⟩ := h
  rw [checkCpu, List.append_eq_nil_iff] at hcpu
  rw [checkMemory, List.append_eq_nil_iff] at hmemory
  refine ⟨hreq.image, ?_, ?_, ?_, ⟨hreq.volumes, fun v hv => ?_⟩,
    ⟨hreq.network, fun net hnet => ?_⟩, fun e he => ?_⟩
  · rw [hreq.limits]
    exact isSome_of_checkMemoryField hmemory.1
  · rw [hreq.limits]
    exact isSome_of_checkMemoryField hmemory.2
  · rw [hreq.limits]
    exact filter_of_checkCpuField hcpu.1
  · rw [hreq.volumes] at hv
    have hsilent := List.flatMap_eq_nil_iff.mp hvolumes v hv
    simpa using hsilent
  · rw [hreq.network] at hnet
    rw [checkNetwork, hnet, Option.elim_some, warnIf_eq_nil, Bool.not_eq_false'] at hnetwork
    exact hnetwork
  · obtain ⟨hfree, hvalid⟩ := keys_of_checkLabels hlabels he
    rw [← hreq.labels] at he ⊢
    obtain ⟨value, hmem, hlookup⟩ := exists_operatorLabel he
    refine ⟨hvalid, value, hmem, ?_, fun id => ?_⟩
    · rw [lookup_jobLabels_of_unreserved hfree, hlookup]
    · rw [lookup_spawnLabels hfree, hlookup]

end Specs

/-! ## What a warning about a limit says -/

section Caps

variable [Floats] {spec : Spec Settings} {w : Warning}

def isCap : Warning → Bool
  | .invalidCpuLimit _ _ _ => true
  | .invalidMemoryLimit _ _ _ => true
  | _ => false

theorem isCap_of_isOther (h : w.isOther = true) : isCap w = false := by
  cases w <;> first | rfl | cases h

theorem isCap_of_checkMfa (hw : w ∈ checkMfa spec) : isCap w = false := by
  rw [checkMfa, List.mem_append, mem_warnIf] at hw
  rcases hw with hw | ⟨-, rfl⟩
  · obtain ⟨days, -, hw⟩ := mem_elim_nil.mp hw
    rw [List.mem_append, mem_warnIf, mem_warnIf] at hw
    rcases hw with ⟨-, rfl⟩ | ⟨-, rfl⟩ <;> rfl
  · rfl

/-- A warning about a limit comes from the two checks of the limits. -/
theorem mem_checkSpec_of_isCap [Thresholds] (hcap : isCap w = true) :
    w ∈ checkSpec spec ↔ w ∈ checkCpu spec ∨ w ∈ checkMemory spec := by
  have hnot : ∀ {p : Prop}, isCap w = false → p := fun h => by
    rw [hcap] at h
    cases h
  simp only [checkSpec, List.mem_append, or_assoc]
  constructor
  · rintro (hw | hw | hw | hw | hw | hw | hw | hw | hw | hw | hw | hw | hw | hw | hw)
    · rw [checkNames, List.mem_append, mem_warnIf, mem_warnIf] at hw
      rcases hw with ⟨-, rfl⟩ | ⟨-, rfl⟩ <;> cases hcap
    · exact hnot (isCap_of_checkMfa hw)
    · exact hnot (isCap_of_isOther (isOther_of_checkType hw))
    · rw [checkReplicas, List.mem_append, mem_warnIf, mem_warnIf] at hw
      rcases hw with ⟨-, rfl⟩ | ⟨-, rfl⟩ <;> cases hcap
    · exact hnot (isCap_of_isOther (isOther_of_checkImage hw))
    · rw [(mem_warnIf.mp hw).2] at hcap
      cases hcap
    · rw [(mem_warnIf.mp hw).2] at hcap
      cases hcap
    · rw [(mem_warnIf.mp hw).2] at hcap
      cases hcap
    · exact hnot (isCap_of_isOther (isOther_of_checkRateLimit hw))
    · obtain ⟨raw, -, hw⟩ := mem_elim_nil.mp hw
      rw [(mem_warnIf.mp hw).2] at hcap
      cases hcap
    · exact .inl hw
    · exact .inr hw
    · obtain ⟨v, -, hw⟩ := List.mem_flatMap.mp hw
      rw [(mem_warnIf.mp hw).2] at hcap
      cases hcap
    · exact hnot (isCap_of_isOther (isOther_of_checkLabels hw))
    · obtain ⟨net, -, hw⟩ := mem_elim_nil.mp hw
      rw [(mem_warnIf.mp hw).2] at hcap
      cases hcap
  · rintro (hw | hw) <;> simp [hw]

/-- A warning about one of the two sizes. -/
theorem mem_checkMemoryField {field : String} {raw : Option Str} {parsed : Option Int} :
    w ∈ checkMemoryField spec field raw parsed ↔
      ∃ s, raw = some s ∧ parsed = none ∧ w = .invalidMemoryLimit spec.id field.toList s := by
  simp [checkMemoryField, mem_elim_nil]

theorem mem_checkCpuField {field : String} {value : Option F64} :
    w ∈ checkCpuField spec field value ↔ ∃ v, value = some v ∧
      (value.filter fun c => Floats.isFinite c && Floats.isPositive c) = none ∧
        w = .invalidCpuLimit spec.id field.toList (Floats.display v) := by
  rw [checkCpuField, mem_elim_nil]
  refine exists_congr fun v => and_congr_right ?_
  rintro rfl
  rw [mem_warnIf, Option.filter_some]
  cases Floats.isFinite v && Floats.isPositive v <;> simp

/-- **No false alarm.** A warning about a limit of a spec is there exactly when the spec sets
that limit and its containers come up without it. -/
theorem cap_warnings [Thresholds] [Aead] (state : SpawnState) (req : SpawnRequest)
    (hreq : IsRequest state spec req) :
    (∀ raw, .invalidMemoryLimit spec.id "limit".toList raw ∈ checkSpec spec ↔
      spec.settings.containerMemoryLimit = some raw ∧ req.limits.memoryBytes = none) ∧
    (∀ raw, .invalidMemoryLimit spec.id "request".toList raw ∈ checkSpec spec ↔
      spec.settings.containerMemoryRequest = some raw ∧
        req.limits.memoryReservationBytes = none) ∧
    ∀ text, .invalidCpuLimit spec.id "limit".toList text ∈ checkSpec spec ↔
      ∃ v, spec.settings.containerCpuLimit = some v ∧ Floats.display v = text ∧
        req.limits.cpuFraction = none := by
  have hlimits := (requested_of_isRequest hreq).limits
  have hfields : "limit".toList ≠ "request".toList := by decide
  refine ⟨fun raw => ?_, fun raw => ?_, fun text => ?_⟩
  · rw [mem_checkSpec_of_isCap rfl]
    simp only [checkCpu, checkMemory, List.mem_append, mem_checkCpuField, mem_checkMemoryField,
      hlimits, Warning.invalidMemoryLimit.injEq, hfields, reduceCtorEq, and_false, false_and,
      exists_false, or_false, false_or, true_and]
    constructor
    · rintro ⟨s, hs, hnone, rfl⟩
      exact ⟨hs, hnone⟩
    · rintro ⟨hs, hnone⟩
      exact ⟨raw, hs, hnone, rfl⟩
  · rw [mem_checkSpec_of_isCap rfl]
    simp only [checkCpu, checkMemory, List.mem_append, mem_checkCpuField, mem_checkMemoryField,
      hlimits, Warning.invalidMemoryLimit.injEq, hfields.symm, reduceCtorEq, and_false, false_and,
      exists_false, false_or, true_and]
    constructor
    · rintro ⟨s, hs, hnone, rfl⟩
      exact ⟨hs, hnone⟩
    · rintro ⟨hs, hnone⟩
      exact ⟨raw, hs, hnone, rfl⟩
  · rw [mem_checkSpec_of_isCap rfl]
    simp only [checkCpu, checkMemory, List.mem_append, mem_checkCpuField, mem_checkMemoryField,
      hlimits, Warning.invalidCpuLimit.injEq, hfields, reduceCtorEq, and_false, false_and,
      exists_false, or_false, true_and]
    refine exists_congr fun v => and_congr_right fun _ => ?_
    rw [and_comm, eq_comm]
    rfl

end Caps

/-! ## Connecting to the hosts -/

section Hosts

def startsWith (scheme : String) (addr : Str) : Bool := (scheme ++ "://").toList.isPrefixOf addr

/-- An error of the configuration, which is fatal; a host that is down is none. -/
def hostConfigError (host : Host) : Option Str :=
  let addr := host.address.trim
  if startsWith "unix" addr || startsWith "ssh" addr || startsWith "http" addr then none
  else if startsWith "tcp" addr then
    if host.tls.isNone then
      some ("host `".toList ++ host.id ++ "`: tcp:// needs `tls` (ca/cert/key)".toList)
    else none
  else some ("host `".toList ++ host.id ++ "`: address `".toList ++ addr ++
    "` must start with ssh:// , tcp:// , http:// or unix://".toList)

variable {γ : Type*}

/-- The entry of a host that answers. -/
def entryOf (dial : Host → Option (List (Container γ))) (h : Host) : Option (HostEntry γ) :=
  (dial h).map fun containers =>
    { id := h.id, maxContainers := h.maxContainers, weight := max (h.weight.getD 1) 1, containers }

/-- `MultiHostDockerBackend::connect`; `dial` has the containers of a host that answers. -/
def connect (dial : Host → Option (List (Container γ))) (hosts : List Host) :
    Except Str (List (HostEntry γ)) :=
  if hosts.isEmpty then .error "no docker hosts configured".toList
  else
    match hosts.findSome? hostConfigError with
    | some msg => .error msg
    | none =>
      let built := hosts.filterMap (entryOf dial)
      if built.isEmpty then
        .error "no docker hosts reachable (all configured hosts failed to connect)".toList
      else .ok built

/-- The scheme is what stands in front of the first `://`. -/
theorem schemeOf_eq_some_iff {name : Str} (hname : ':' ∉ name) {addr : Str} :
    schemeOf addr = some name ↔ (name ++ "://".toList).isPrefixOf addr = true := by
  induction name generalizing addr with
  | nil =>
    cases addr with
    | nil => simp [schemeOf]
    | cons c addr =>
      rw [schemeOf, List.nil_append]
      split
      · next hprefix => exact iff_of_true rfl hprefix
      · next hprefix => exact iff_of_false (by simp) hprefix
  | cons a name ih =>
    have ha : a ≠ ':' := fun h => hname (h ▸ List.mem_cons_self)
    cases addr with
    | nil => simp [schemeOf]
    | cons c addr =>
      rw [schemeOf, List.cons_append, List.isPrefixOf_cons_cons]
      split
      · next hprefix =>
        have hc : c = ':' := by
          rw [show "://".toList = ':' :: ['/', '/'] from rfl, List.isPrefixOf_cons_cons,
            Bool.and_eq_true, beq_iff_eq] at hprefix
          exact hprefix.1.symm
        simp [hc, ha]
      · have htail := @ih (fun h => hname (List.mem_cons_of_mem _ h)) addr
        rw [Option.map_eq_some_iff, Bool.and_eq_true, beq_iff_eq]
        constructor
        · rintro ⟨t, ht, heq⟩
          cases heq
          exact ⟨rfl, htail.mp ht⟩
        · rintro ⟨rfl, hprefix⟩
          exact ⟨name, htail.mpr hprefix, rfl⟩

theorem startsWith_iff {scheme : String} (h : ':' ∉ scheme.toList) {addr : Str} :
    startsWith scheme addr = true ↔ schemeOf addr = some scheme.toList := by
  rw [schemeOf_eq_some_iff h, startsWith, String.toList_append]

variable [Floats] {host : Host} {hosts : List Host} {label : Str}

/-- The validator reads an address as the start does, and asks `tls` to be of use. -/
theorem checkAddress_eq_nil_iff :
    checkAddress host label = [] ↔ hostConfigError host = none ∧
      (host.tls.isSome = true → startsWith "tcp" host.address.trim = true) := by
  unfold hostConfigError checkAddress
  simp only [Bool.or_eq_true, startsWith_iff (show ':' ∉ "unix".toList by decide),
    startsWith_iff (show ':' ∉ "ssh".toList by decide),
    startsWith_iff (show ':' ∉ "http".toList by decide),
    startsWith_iff (show ':' ∉ "tcp".toList by decide)]
  cases hscheme : schemeOf host.address.trim with
  | none => simp
  | some scheme =>
    simp only [Option.some.injEq]
    by_cases hplain : (scheme = "unix".toList ∨ scheme = "ssh".toList) ∨ scheme = "http".toList
    · have hplain' : scheme = "ssh".toList ∨ scheme = "http".toList ∨ scheme = "unix".toList := by
        tauto
      have htcp : scheme ≠ "tcp".toList := by
        rcases hplain with (rfl | rfl) | rfl <;> decide
      rw [if_pos hplain, if_pos hplain', warnIf_eq_nil]
      simp only [htcp, true_and, imp_false, Bool.not_eq_true]
    · have hplain' : ¬ (scheme = "ssh".toList ∨ scheme = "http".toList ∨
          scheme = "unix".toList) := by
        tauto
      rw [if_neg hplain, if_neg hplain']
      by_cases htcp : scheme = "tcp".toList
      · rw [if_pos htcp, if_pos htcp, warnIf_eq_nil]
        cases host.tls with
        | none => simp
        | some tls => simpa using htcp
      · rw [if_neg htcp, if_neg htcp]
        simp

/-- What the hosts of a configuration without warnings are like. -/
structure Sound (hosts : List Host) : Prop where
  accepted : ∀ h ∈ hosts, hostConfigError h = none
  tlsUsed : ∀ h ∈ hosts, h.tls.isSome = true → startsWith "tcp" h.address.trim = true
  named : ∀ h ∈ hosts, isBlankText h.id = false
  distinct : (hosts.map Host.id).Nodup

theorem checkHosts_eq_nil_iff : checkHosts hosts = [] ↔ Sound hosts := by
  rw [checkHosts, List.append_eq_nil_iff, List.map_eq_nil_iff, duplicates_eq_nil,
    List.flatMap_eq_nil_iff]
  have hlocal : (∀ x ∈ hosts.zipIdx, checkHost x.1 x.2 = []) ↔ ∀ h ∈ hosts,
      isBlankText h.id = false ∧ hostConfigError h = none ∧
        (h.tls.isSome = true → startsWith "tcp" h.address.trim = true) := by
    simp only [checkHost, List.append_eq_nil_iff, warnIf_eq_nil, checkAddress_eq_nil_iff]
    constructor
    · intro h host hhost
      obtain ⟨i, hi, rfl⟩ := List.mem_iff_getElem.mp hhost
      exact h (hosts[i], i) (by simp [List.mem_zipIdx_iff_getElem?])
    · rintro h ⟨host, i⟩ hx
      exact h host (List.fst_mem_of_mem_zipIdx hx)
  rw [hlocal]
  constructor
  · rintro ⟨hall, hdistinct⟩
    have hfilter : (hosts.map Host.id).filter (fun id => !isBlankText id) = hosts.map Host.id :=
      List.filter_eq_self.mpr fun id hid => by
        obtain ⟨h, hh, rfl⟩ := List.mem_map.mp hid
        simp [(hall h hh).1]
    rw [hfilter] at hdistinct
    exact ⟨fun h hh => (hall h hh).2.1, fun h hh => (hall h hh).2.2, fun h hh => (hall h hh).1,
      hdistinct⟩
  · rintro ⟨haccepted, htls, hnamed, hdistinct⟩
    exact ⟨fun h hh => ⟨hnamed h hh, haccepted h hh, htls h hh⟩, hdistinct.filter _⟩

section Connected

variable {dial : Host → Option (List (Container γ))} {entries : List (HostEntry γ)}

omit [Floats] in
theorem id_of_entryOf {e : HostEntry γ} (h : entryOf dial host = some e) : e.id = host.id := by
  obtain ⟨containers, -, rfl⟩ := Option.map_eq_some_iff.mp h
  rfl

omit [Floats] in
/-- The entries keep the ids of the hosts, in their order. -/
theorem sublist_ids : ((hosts.filterMap (entryOf dial)).map HostEntry.id).Sublist
    (hosts.map Host.id) := by
  induction hosts with
  | nil => exact List.Sublist.refl _
  | cons h hosts ih =>
    rw [List.filterMap_cons]
    cases hentry : entryOf dial h with
    | none => exact ih.cons _
    | some e =>
      rw [List.map_cons, List.map_cons, id_of_entryOf hentry]
      exact ih.cons_cons _

/-- **Sound hosts.** The validator is silent about the hosts exactly when the start refuses none
of them and each has its own id and no idle `tls`.  Then the cluster starts with the hosts that
answer, if any does, and a placement on a host leads back to that host. -/
theorem clean_connects (ι : Type*) [DecidableEq ι] (hclean : checkHosts hosts = [])
    (dial : Host → Option (List (Container γ))) (hanswers : ∃ h ∈ hosts, (dial h).isSome = true) :
    Sound hosts ∧ connect dial hosts = .ok (hosts.filterMap (entryOf dial)) ∧
      ∀ (cl : Cluster ι γ) (r : ι) (i : Nat) (e : HostEntry γ) (specId : Str),
        cl.hosts = hosts.filterMap (entryOf dial) → cl.hosts[i]? = some e →
        cl.placement.lookup r = some (e.id, specId) → cl.placed r = some i := by
  have hsound := checkHosts_eq_nil_iff.mp hclean
  refine ⟨hsound, ?_, fun cl r i e specId hhosts hi hplaced => ?_⟩
  · obtain ⟨h, hh, hup⟩ := hanswers
    have hne : hosts.isEmpty = false := by
      cases hosts with
      | nil => cases hh
      | cons h hosts => rfl
    have hnone : hosts.findSome? hostConfigError = none :=
      List.findSome?_eq_none_iff.mpr hsound.accepted
    have hbuilt : (hosts.filterMap (entryOf dial)).isEmpty = false := by
      obtain ⟨containers, hcontainers⟩ := Option.isSome_iff_exists.mp hup
      have hentry : entryOf dial h = some
          { id := h.id, maxContainers := h.maxContainers, weight := max (h.weight.getD 1) 1,
            containers } := by
        rw [entryOf, hcontainers, Option.map_some]
      exact List.isEmpty_eq_false_iff.mpr
        (List.ne_nil_of_mem (List.mem_filterMap.mpr ⟨h, hh, hentry⟩))
    rw [connect, hne, hnone]
    dsimp only
    rw [hbuilt]
    rfl
  · have hdistinct : (cl.hosts.map HostEntry.id).Nodup := by
      rw [hhosts]
      exact hsound.distinct.sublist sublist_ids
    rw [Cluster.placed, hplaced, Option.bind_some, List.findIdx?_eq_some_iff_getElem]
    obtain ⟨hlt, rfl⟩ := List.getElem?_eq_some_iff.mp hi
    refine ⟨hlt, by simp, fun j hj => ?_⟩
    rw [decide_eq_true_eq]
    intro heq
    have hsame := List.inj_on_of_nodup_map hdistinct (List.getElem_mem _) (List.getElem_mem _) heq
    have hji : j = i := (List.Nodup.of_map _ hdistinct).getElem_inj_iff.mp hsame
    omega

end Connected

end Hosts

/-! ## The address of a host -/

section Addresses

/-- What stands between `[` and the first `]`. -/
def bracketed : Str → Option Str
  | '[' :: rest => (Str.splitOnce ']' rest).map Prod.fst
  | _ => none

/-- A numeric port goes, unless the rest has a colon of its own. -/
def dropPort (noUser : Str) : Str :=
  match Str.rsplitOnce ':' noUser with
  | some (h, port) =>
    if !h.contains ':' && !port.isEmpty && port.all Char.isDigit then h else noUser
  | none => noUser

/-- The host of an `[user@]host[:port]`. -/
def hostPart (authority : Str) : Str :=
  let noUser := (Str.rsplitOnce '@' authority).elim authority Prod.snd
  (bracketed noUser).getD (dropPort noUser)

/-- A host with its port.  An IPv6 address without brackets has none. -/
inductive HostName where
  | name (s : Str) (port : Option Nat) (h : ':' ∉ s ∧ '@' ∉ s ∧ s.head? ≠ some '[')
  | literal (s : Str) (port : Option Nat) (h : ']' ∉ s ∧ '@' ∉ s)
  | bare (s : Str) (h : '@' ∉ s ∧ s.head? ≠ some '[' ∧ 1 < s.count ':')

def portText (port : Option Nat) : Str := port.elim [] fun n => ':' :: Nat.toDigits 10 n

namespace HostName

def address : HostName → Str
  | name s _ _ => s
  | literal s _ _ => s
  | bare s _ => s

def text : HostName → Str
  | name s port _ => s ++ portText port
  | literal s port _ => '[' :: (s ++ ']' :: portText port)
  | bare s _ => s

end HostName

theorem isDigit_of_mem_digits {n : Nat} {c : Char} (h : c ∈ Nat.toDigits 10 n) :
    c.isDigit = true :=
  Nat.isDigit_of_mem_toDigits (by decide) (by decide) h

theorem notMem_portText {port : Option Nat} : '@' ∉ portText port := by
  cases port with
  | none => simp [portText]
  | some n =>
    rw [portText, Option.elim_some, List.mem_cons, not_or]
    exact ⟨by decide, fun h => absurd (isDigit_of_mem_digits h) (by decide)⟩

theorem HostName.notMem_text (host : HostName) : '@' ∉ host.text := by
  cases host with
  | name s port h => simp [HostName.text, h.2.1, notMem_portText]
  | literal s port h => simp [HostName.text, h.2, notMem_portText]
  | bare s h => exact h.1

theorem bracketed_eq_none {s : Str} (h : s.head? ≠ some '[') : bracketed s = none := by
  unfold bracketed
  split
  · simp at h
  · rfl

theorem head?_text {s : Str} {port : Option Nat} (h : s.head? ≠ some '[') :
    (s ++ portText port).head? ≠ some '[' := by
  cases s with
  | nil => cases port <;> simp [portText]
  | cons c s => exact h

theorem dropPort_portText {s : Str} (h : ':' ∉ s) (port : Option Nat) :
    dropPort (s ++ portText port) = s := by
  cases port with
  | none =>
    rw [portText, Option.elim_none, List.append_nil, dropPort, Str.rsplitOnce_of_notMem h]
  | some n =>
    have hdigits : (Nat.toDigits 10 n).all Char.isDigit = true :=
      List.all_eq_true.mpr fun c hc => isDigit_of_mem_digits hc
    have hcolon : ':' ∉ Nat.toDigits 10 n := fun hc =>
      absurd (isDigit_of_mem_digits hc) (by decide)
    rw [portText, Option.elim_some, dropPort, Str.rsplitOnce_append hcolon]
    simp [h, hdigits, Nat.toDigits_ne_nil]

theorem notMem_of_splitOnce {sep : Char} {s : Str} {p : Str × Str}
    (h : Str.splitOnce sep s = some p) : sep ∉ p.1 := by
  induction s generalizing p with
  | nil => cases h
  | cons c s ih =>
    rw [Str.splitOnce] at h
    split at h
    · cases h
      exact List.not_mem_nil
    · next hne =>
      obtain ⟨q, hq, rfl⟩ := Option.map_eq_some_iff.mp h
      rw [List.mem_cons, not_or]
      exact ⟨fun heq => hne heq.symm, ih hq⟩

/-- A bare IPv6 address is not cut at its last colon. -/
theorem dropPort_eq_self {s : Str} (h : 1 < s.count ':') : dropPort s = s := by
  unfold dropPort
  split
  · next before after hsplit =>
    have hs := Str.rsplitOnce_eq_some hsplit
    obtain ⟨q, hq, heq⟩ := Option.map_eq_some_iff.mp hsplit
    cases heq
    have hlast : q.1.reverse.count ':' = 0 :=
      List.count_eq_zero_of_not_mem (by simpa using notMem_of_splitOnce hq)
    have hbefore : ':' ∈ q.2.reverse := by
      rw [hs, List.count_append, List.count_cons_self, hlast] at h
      exact List.count_pos_iff.mp (by omega)
    rw [if_neg (by simpa using fun hnot => absurd (List.mem_reverse.mp hbefore) hnot)]
  · rfl

/-- **The address of a host.** A name, an IPv4 address, an IPv6 address in brackets or a bare one
is read back from the address of a daemon, with any user and port around it. -/
theorem hostPart_text (user : Option Str) (host : HostName) :
    hostPart (user.elim [] (fun u => u ++ ['@']) ++ host.text) = host.address := by
  have huser : (Str.rsplitOnce '@' (user.elim [] (fun u => u ++ ['@']) ++ host.text)).elim
      (user.elim [] (fun u => u ++ ['@']) ++ host.text) Prod.snd = host.text := by
    cases user with
    | none => rw [Option.elim_none, List.nil_append, Str.rsplitOnce_of_notMem host.notMem_text,
        Option.elim_none]
    | some u => rw [Option.elim_some, List.append_assoc, List.singleton_append,
        Str.rsplitOnce_append host.notMem_text, Option.elim_some]
  rw [hostPart, huser]
  cases host with
  | name s port h =>
    rw [HostName.text, HostName.address, bracketed_eq_none (head?_text h.2.2), Option.getD_none,
      dropPort_portText h.1]
  | literal s port h =>
    rw [HostName.text, HostName.address, bracketed, Str.splitOnce_append h.1]
    rfl
  | bare s h =>
    rw [HostName.text, HostName.address, bracketed_eq_none h.2.1, Option.getD_none,
      dropPort_eq_self h.2.2]

end Addresses

section Example

attribute [local instance] wholeFloats wholeThresholds openAead nilUuid

/-- A job of a team, with a description and a limit. -/
def teamSpec (limit : String) : Spec Settings :=
  { etlSpec "team" with
    settings := { (etlSpec "team").settings with
      description := some "nightly".toList
      containerMemoryLimit := some limit.toList } }

/-- Two hosts, one of them behind TLS. -/
def twoDaemons : List Host :=
  [⟨['a'], "ssh://a".toList, none, none, none⟩,
    ⟨['b'], "tcp://b:2376".toList, some ⟨['c'], ['d'], ['e']⟩, none, none⟩]

def teamConfig (limit : String) : Config where
  server := .default
  proxy := { Proxy.default with specs := [teamSpec limit], hosts := twoDaemons }
  logging := .default

def teamRequest (limit : String) : SpawnRequest :=
  { etlRequest "team" with limits := limitsFromSpec (teamSpec limit) }

theorem cap_warnings_team :
    .invalidMemoryLimit "etl".toList "limit".toList "512mb".toList ∈ checkSpec (teamSpec "512mb") :=
  ((cap_warnings boxState (teamRequest "512mb") (.inl (by decide +kernel))).1
    "512mb".toList).mpr (by decide +kernel)

theorem clean_connects_twoDaemons :
    connect (fun h => if h.id = ['b'] then some ([] : List (Container Nat)) else none) twoDaemons =
      .ok [bareHost "b" []] :=
  (clean_connects Unit (by decide +kernel) _
    ⟨_, List.mem_cons_of_mem _ (List.mem_singleton_self _), rfl⟩).2.1

end Example

end Ruscker.Docker.Clean
