import Ruscker.Admin.SettingsFields

/-!
# Submitting the form unchanged

Rendering flattens the settings into texts and merging reads them back.  A text comes
back when it is tidy, a list when each entry is one tidy line, a map when each pair is.
-/

namespace Ruscker.Admin.SpecRoutes

open Numerals

/-! ## Texts -/

/-- A text the form gives back: not empty, and no white space around it. -/
def Tidy (t : Str) : Prop := t ≠ [] ∧ t.trim = t

instance (t : Str) : Decidable (Tidy t) := inferInstanceAs (Decidable (_ ∧ _))

/-- An entry of a textarea. -/
abbrev OneLine (t : Str) : Prop := Tokens.Clean isNewline isWhitespace t

/-- An entry of an access list. -/
abbrev ListItem (t : Str) : Prop := Tokens.Clean isListSeparator isWhitespace t

/-- A variable whose line reads back. -/
structure EnvLine (e : Str × Str) : Prop where
  name : OneLine e.1
  noEquals : '=' ∉ e.1
  value : e.2.trim = e.2
  oneLine : '\n' ∉ e.2

theorem isBlankText_of_tidy {t : Str} (h : Tidy t) : isBlankText t = false := by
  rw [isBlankText, h.2]
  simpa using h.1

theorem emptyToNone_of_tidy {t : Str} (h : Tidy t) : emptyToNone t = some t := by
  rw [emptyToNone, isBlankText_of_tidy h, h.2]
  rfl

theorem emptyToNone_getD {o : Option Str} (h : ∀ t ∈ o, Tidy t) :
    emptyToNone (o.getD []) = o := by
  cases o with
  | none => rfl
  | some t => exact emptyToNone_of_tidy (h t rfl)

/-- A reader that trims its text and reads nothing from a blank one does not see the form. -/
theorem emptyToNone_bind {β : Type} {f : Str → Option β} (hnil : f [] = none)
    (htrim : ∀ t : Str, f t.trim = f t) (o : Option Str) :
    (emptyToNone (o.getD [])).bind f = o.bind f := by
  cases o with
  | none => rfl
  | some t =>
    rw [Option.getD_some, emptyToNone, Option.bind_some]
    by_cases h : t.trim = []
    · rw [if_pos (by simpa [isBlankText] using h), ← htrim, h, hnil]
      rfl
    · rw [if_neg (by simpa [isBlankText] using h), Option.bind_some, htrim]

theorem tidy_toText {α : Type} [Numeral α] (a : α) : Tidy (Numeral.toText a) := by
  refine ⟨Numeral.toText_ne_nil a, Tokens.trim_eq_self fun c hc => ?_⟩
  rcases Numeral.mem_toText a c hc with hdigit | rfl
  · exact isWhitespace_of_isDigit hdigit
  · rfl

theorem parseOpt_toText {α : Type} [Numeral α] (a : α) :
    parseOpt (Numeral.toText a) = some a := by
  rw [parseOpt, (tidy_toText a).2, Numeral.ofText_toText]

theorem parseOpt_numberText {α : Type} [Numeral α] (n : Option α) :
    parseOpt (numberText n) = n := by
  cases n with
  | none => exact Numeral.ofText_nil
  | some a => exact parseOpt_toText a

theorem parseFloatOpt_floatText [Floats] {p : F64 → Bool} {x : Option F64}
    (hp : ∀ y, p y = true → Floats.isFinite y = true)
    (h : isBlankText (floatText x) = false →
      (parseFloatOpt (floatText x)).elim false p = true) :
    parseFloatOpt (floatText x) = x := by
  cases x with
  | none => exact Floats.parse_nil
  | some x =>
    have htidy : Tidy (Floats.display x) := ⟨Floats.display_ne_nil x, Floats.trim_display x⟩
    replace h := h (isBlankText_of_tidy htidy)
    rw [floatText, Option.elim_some, parseFloatOpt, htidy.2] at h ⊢
    cases hparse : Floats.parse (Floats.display x) with
    | none =>
      rw [hparse] at h
      cases h
    | some y =>
      rw [hparse] at h
      rw [Floats.parse_display x y hparse (hp y h)]

theorem isBlankText_checkbox (on : Bool) : isBlankText (checkbox on) = !on := by
  cases on <;> rfl

theorem routingFromKey_toKey (r : Option RoutingStrategy) :
    routingFromKey (r.elim [] routingToKey) = r := by
  rcases r with _ | (_ | _ | _ | _) <;> rfl

theorem placementFromKey_toKey (p : Option Placement) :
    placementFromKey (p.elim [] placementToKey) = p := by
  rcases p with _ | (_ | _) <;> rfl

/-! ## Lists and maps -/

theorem getD_ofNonempty {α : Type} (l : List α) :
    (if l.isEmpty then none else some l).getD [] = l := by
  cases l <;> rfl

theorem lines_joinLines {items : List Str} (h : ∀ t ∈ items, OneLine t) :
    lines (joinLines items) = items :=
  Tokens.tokens_intercalate rfl nofun nofun h

theorem linesToVec_joinLines {items : Option (List Str)} (h : ∀ t ∈ items.getD [], OneLine t) :
    (linesToVec (items.elim [] joinLines)).getD [] = items.getD [] := by
  cases items with
  | none => rfl
  | some items =>
    have hread : lines (joinLines items) = items := lines_joinLines h
    rw [Option.elim_some, linesToVec, hread]
    exact getD_ofNonempty items

theorem listToVec_joinList {items : Option (List Str)} (h : ∀ t ∈ items.getD [], ListItem t) :
    (listToVec (items.elim [] joinList)).getD [] = items.getD [] := by
  cases items with
  | none => rfl
  | some items =>
    have hblank : ∀ a ∈ [' '], isWhitespace a = true := List.forall_mem_singleton.mpr rfl
    have hpad : ∀ a ∈ [' '], isListSeparator a = false := List.forall_mem_singleton.mpr rfl
    have hread : Tokens.tokens isListSeparator isWhitespace (joinList items) = items :=
      Tokens.tokens_intercalate rfl hblank hpad h
    rw [Option.elim_some, listToVec, hread]
    exact getD_ofNonempty items

theorem oneLine_env {e : Str × Str} (h : EnvLine e) : OneLine (e.1 ++ '=' :: e.2) := by
  obtain ⟨c, name, hname⟩ := List.exists_cons_of_ne_nil h.name.ne_nil
  have htrim := (Tokens.trim_eq_self_iff.mp h.name.trimmed).1
  have hvalue := (Tokens.trim_eq_self_iff.mp h.value).2
  refine ⟨by simp [hname], fun a ha => ?_,
    Tokens.trim_eq_self_iff.mpr ⟨fun a ha => ?_, fun a ha => ?_⟩⟩
  · rcases List.mem_append.mp ha with ha | ha
    · exact h.name.noSep a ha
    · rcases List.mem_cons.mp ha with rfl | ha
      · rfl
      · refine decide_eq_false ?_
        rintro rfl
        exact h.oneLine ha
  · rw [hname] at ha htrim
    exact htrim a ha
  · rw [List.getLast?_append] at ha
    cases hlast : e.2.getLast? with
    | none =>
      rw [List.getLast?_eq_none_iff.mp hlast] at ha
      cases ha
      rfl
    | some b =>
      rw [List.getLast?_cons, hlast] at ha
      cases ha
      exact hvalue b hlast

theorem parseEnvLine_env {e : Str × Str} (h : EnvLine e) :
    parseEnvLine (e.1 ++ '=' :: e.2) = some e := by
  rw [parseEnvLine, Str.splitOnce_append h.noEquals, Option.bind_some, h.value]
  have hname : e.1.trim = e.1 := h.name.trimmed
  rw [hname, if_neg (by simpa using h.name.ne_nil)]

theorem parseEnv_envPairs [Floats] {s : Settings}
    (h : ∀ env ∈ s.containerEnv, ∀ e ∈ env.entries, EnvLine e) :
    (parseEnv (joinLines s.envPairs)).getD .empty = s.containerEnv.getD .empty := by
  unfold Settings.envPairs
  cases henv : s.containerEnv with
  | none => rfl
  | some env =>
    replace h := h env henv
    have hlines : lines (joinLines (env.entries.map fun e => e.1 ++ '=' :: e.2)) =
        env.entries.map fun e => e.1 ++ '=' :: e.2 :=
      lines_joinLines fun t ht => by
        obtain ⟨e, he, rfl⟩ := List.mem_map.mp ht
        exact oneLine_env (h e he)
    have hread : (env.entries.map fun e => e.1 ++ '=' :: e.2).filterMap parseEnvLine =
        env.entries := by
      rw [List.filterMap_map]
      exact (List.filterMap_congr fun e he => parseEnvLine_env (h e he)).trans
        (List.filterMap_some ..)
    rw [Option.elim_some, parseEnv, hlines, hread, SortedMap.ofList_entries]
    by_cases hempty : env.isEmpty
    · rw [if_pos hempty]
      exact (SortedMap.ext_entries (List.isEmpty_iff.mp hempty)).symm
    · rw [if_neg hempty]

/-! ## Properties -/

/-- The keys every save stamps or prunes. -/
def stampedKeys : List Str :=
  ["type".toList, "state".toList, "updated".toList, "icon".toList, "locked".toList]

/-- The keys with an input of their own. -/
def managedKeys : List String := ["subject", "logo", "cover", "accent", "monogram", "link"]

theorem lookup_setOrRemove (tp : TemplateProperties) (key : String) (val k : Str) :
    (setOrRemove tp key val).lookup k =
      if k = key.toList then (emptyToNone val).map .string else tp.lookup k := by
  unfold setOrRemove emptyToNone TemplateProperties.setStr
  split
  · exact SortedMap.lookup_erase ..
  · exact SortedMap.lookup_insert ..

theorem lookup_setStr (tp : TemplateProperties) (key value k : Str) :
    (tp.setStr key value).lookup k = if k = key then some (.string value) else tp.lookup k :=
  SortedMap.lookup_insert ..

theorem lookup_mergeProperties (f : SettingsFields) (dt : DisplayType) (today : Str)
    (base : TemplateProperties) (k : Str) :
    (f.mergeProperties dt today base).lookup k =
      if k = "locked".toList then none
      else if k = "link".toList then (emptyToNone f.link).map .string
      else if k = "monogram".toList then (emptyToNone f.monogram).map .string
      else if k = "accent".toList then (emptyToNone f.accent).map .string
      else if k = "cover".toList then (emptyToNone f.cover).map .string
      else if k = "logo".toList then (emptyToNone f.logo).map .string
      else if k = "subject".toList then (emptyToNone f.subject).map .string
      else if k = "icon".toList then none
      else if k = "updated".toList then
        some (.string (if isBlankText f.updated then today else f.updated.trim))
      else if k = "state".toList then some (.string f.state)
      else if k = "type".toList then some (.string dt.key)
      else base.lookup k := by
  simp only [SettingsFields.mergeProperties, SortedMap.lookup_erase, lookup_setOrRemove,
    lookup_setStr]

/-- A managed property the form gives back: absent, or a tidy text. -/
def ShowsBack (tp : TemplateProperties) (k : Str) : Prop :=
  ∀ v ∈ tp.lookup k, ∃ t, v = .string t ∧ Tidy t

theorem emptyToNone_propertyText [Floats] {s : Settings} {key : String}
    (h : ShowsBack s.templateProperties key.toList) :
    (emptyToNone (propertyText s key)).map .string = s.templateProperties.lookup key.toList := by
  unfold propertyText TemplateProperties.getStr
  cases hv : s.templateProperties.lookup key.toList with
  | none => rfl
  | some v =>
    obtain ⟨t, rfl, ht⟩ := h v hv
    simp [YamlValue.asStr, emptyToNone_of_tidy ht]

section Saved

variable [Floats] {s : Settings} {today : Str}

/-- The settings stored after the form of `s` came back unchanged from an Admin. -/
def resubmit (today : Str) (s : Settings) : Settings :=
  (SettingsFields.fromSpec s).build today (some s) .admin

theorem displayType_fromSpec :
    (DisplayType.parse (SettingsFields.fromSpec s).displayType).getD .app =
      DisplayType.fromSpec s := by
  rw [SettingsFields.fromSpec, DisplayType.parse_key]
  rfl

theorem templateProperties_resubmit :
    (resubmit today s).templateProperties =
      (SettingsFields.fromSpec s).mergeProperties (DisplayType.fromSpec s) today
        s.templateProperties := by
  rw [← displayType_fromSpec]
  rfl

theorem property_resubmit {k : Str} (hstamped : k ∉ stampedKeys)
    (hmanaged : ∀ key ∈ managedKeys, k = key.toList → ShowsBack s.templateProperties k) :
    (resubmit today s).templateProperties.lookup k = s.templateProperties.lookup k := by
  simp only [stampedKeys, List.mem_cons, List.not_mem_nil, or_false, not_or] at hstamped
  obtain ⟨htype, hstate, hupdated, hicon, hlocked⟩ := hstamped
  rw [templateProperties_resubmit, lookup_mergeProperties, if_neg hlocked, if_neg hicon,
    if_neg hupdated, if_neg hstate, if_neg htype]
  have hback : ∀ key ∈ managedKeys, k = key.toList →
      (emptyToNone (propertyText s key)).map .string = s.templateProperties.lookup k := by
    rintro key hkey rfl
    exact emptyToNone_propertyText (hmanaged key hkey rfl)
  split
  · next h => exact hback "link" (by decide) h
  split
  · next h => exact hback "monogram" (by decide) h
  split
  · next h => exact hback "accent" (by decide) h
  split
  · next h => exact hback "cover" (by decide) h
  split
  · next h => exact hback "logo" (by decide) h
  split
  · next h => exact hback "subject" (by decide) h
  · rfl

theorem typeProperty_resubmit :
    (resubmit today s).templateProperties.lookup "type".toList =
      some (.string (DisplayType.fromSpec s).key) := by
  rw [templateProperties_resubmit, lookup_mergeProperties]
  rfl

theorem stateProperty_resubmit :
    (resubmit today s).templateProperties.lookup "state".toList =
      some (.string s.templateProperties.state) := by
  rw [templateProperties_resubmit, lookup_mergeProperties]
  rfl

theorem updatedProperty_resubmit :
    (resubmit today s).templateProperties.lookup "updated".toList =
      some (.string (if isBlankText (propertyText s "updated") then today
        else (propertyText s "updated").trim)) := by
  rw [templateProperties_resubmit, lookup_mergeProperties]
  rfl

theorem prunedProperty_resubmit {k : Str} (h : k = "icon".toList ∨ k = "locked".toList) :
    (resubmit today s).templateProperties.lookup k = none := by
  rw [templateProperties_resubmit, lookup_mergeProperties]
  rcases h with rfl | rfl <;> rfl

end Saved

/-! ## Readers that trim -/

theorem parseMemoryString_trim [Floats] (t : Str) :
    parseMemoryString t.trim = parseMemoryString t := by
  simp only [parseMemoryString, Str.trim_trim]

theorem parseRateLimit_trim (t : Str) : parseRateLimit t.trim = parseRateLimit t := by
  have hslash : ∀ a, isWhitespace a = true → a ≠ '/' := by
    rintro a ha rfl
    cases ha
  refine Tokens.apply_trim (fun a l ha => ?_) (fun a l ha => ?_) t
  · unfold parseRateLimit
    rw [Str.splitOnce, if_neg (hslash a ha), Option.bind_map]
    refine congrArg _ (funext fun p => ?_)
    have htrim : Str.trim (a :: p.1) = p.1.trim := Tokens.trim_cons_of_blank ha p.1
    rw [Function.comp_apply, htrim]
  · unfold parseRateLimit
    rw [Str.splitOnce_concat (hslash a ha), Option.bind_map]
    refine congrArg _ (funext fun p => ?_)
    have htrim : Str.trim (p.2 ++ [a]) = p.2.trim := Tokens.trim_concat_of_blank ha p.2
    rw [Function.comp_apply, htrim]

/-! ## What the runtime reads -/

/-- The settings as the runtime resolves them; a limit is given for the global body limit. -/
structure Runtime [Floats] where
  kind : SpecKind
  seats : U32
  minReplicas : U32
  maxReplicas : U32
  routing : RoutingStrategy
  innerPort : Option U16
  network : Option Str
  platform : Option Str
  labels : Option (SortedMap Str Str)
  registryDomain : Option Str
  registryUsername : Option Str
  registryPassword : Option Str
  registryCredential : Option Str
  cpuLimit : Option F64
  cpuRequest : Option F64
  memoryLimit : Option Int
  memoryRequest : Option Int
  maxBody : Option Int → Option Int
  maxLifetime : Option U64
  containerLifetime : Option U64
  heartbeatTimeout : Option I64
  containerWaitTime : Option U64
  stopOnLogout : Bool
  requireMfa : Bool
  mfaValidityDays : U16
  identityHeaders : Bool
  identityClaims : IdentityClaim → Bool
  docsPath : Option Str
  healthPath : Option Str
  ratePolicy : Option RatePolicy
  cors : Bool
  scaleUpThreshold : Option F64
  scaleDownThreshold : Option F64
  scaleDownGrace : Option U64
  scaleDownCooldownSecs : Option U64
  drainTimeout : Option U64
  concurrentRequests : Option U32
  placement : Option Placement
  antiAffinity : Bool
  injectBaseHref : Bool

def runtime [Floats] (s : Settings) : Runtime where
  kind := s.kind
  seats := s.effectiveSeats
  minReplicas := s.effectiveMinReplicas
  maxReplicas := s.effectiveMaxReplicas
  routing := s.effectiveRouting
  innerPort := s.effectiveInnerPort
  network := s.effectiveContainerNetwork
  platform := s.platform
  labels := s.labels
  registryDomain := s.dockerRegistryDomain
  registryUsername := s.dockerRegistryUsername
  registryPassword := s.dockerRegistryPassword
  registryCredential := s.dockerRegistryCredential
  cpuLimit := s.containerCpuLimit
  cpuRequest := s.containerCpuRequest
  memoryLimit := s.effectiveMemoryLimitBytes
  memoryRequest := s.effectiveMemoryRequestBytes
  maxBody := s.effectiveMaxBodyBytes
  maxLifetime := s.maxLifetime
  containerLifetime := s.containerLifetime
  heartbeatTimeout := s.heartbeatTimeout
  containerWaitTime := s.containerWaitTime
  stopOnLogout := s.stopOnLogout.getD false
  requireMfa := s.requireMfa.getD false
  mfaValidityDays := s.effectiveMfaValidityDays
  identityHeaders := s.addDefaultHttpHeaders.getD false
  identityClaims := s.effectiveIdentityClaims.contains
  docsPath := s.api.bind ApiSpec.docsPath
  healthPath := s.api.bind ApiSpec.healthPath
  ratePolicy := s.ratePolicy
  cors := (s.api.map ApiSpec.cors).getD false
  scaleUpThreshold := s.scaleUpThreshold
  scaleDownThreshold := s.scaleDownThreshold
  scaleDownGrace := s.scaleDownGrace
  scaleDownCooldownSecs := s.scaleDownCooldownSecs
  drainTimeout := s.drainTimeout
  concurrentRequests := s.concurrentRequestsPerReplica
  placement := s.placement
  antiAffinity := s.antiAffinity.getD false
  injectBaseHref := s.injectBaseHref.getD true

/-- The badge and the run kind agree; without a `type` property they always do. -/
def DisplayType.Agrees : DisplayType → SpecKind → Prop
  | .app, kind => kind = .shiny ∨ kind = .interactiveApp
  | .talk, _ => True
  | .report, _ => True
  | .package, kind => kind = .external
  | .link, kind => kind = .external
  | .api, kind => kind = .api

theorem specKind_mergeKind {dt : DisplayType} {kind : Option SpecKindOverride}
    {image image' : Bool} (hagrees : dt.Agrees (specKind kind image))
    (himage : dt.isLink = false → image' = image) :
    specKind (mergeKind dt kind) image' = specKind kind image := by
  cases dt with
  | app =>
    rcases hagrees with h | h <;> rcases kind with _ | (_ | _ | _ | _ | _ | _ | _) <;>
      cases image <;> first | rfl | cases h
  | talk => rw [himage rfl, mergeKind]
  | report => rw [himage rfl, mergeKind]
  | package => exact hagrees.symm
  | link => exact hagrees.symm
  | api => exact hagrees.symm

theorem frameworkPort_mergeKind {dt : DisplayType} {kind : Option SpecKindOverride} {image : Bool}
    (hagrees : dt.Agrees (specKind kind image)) :
    frameworkPort (mergeKind dt kind) = frameworkPort kind := by
  have hnone : specKind kind image = .external ∨ specKind kind image = .api →
      frameworkPort kind = none := by
    rcases kind with _ | (_ | _ | _ | _ | _ | _ | _) <;> cases image <;> simp [specKind, frameworkPort]
  cases dt with
  | app => rcases kind with _ | (_ | _ | _ | _ | _ | _ | _) <;> rfl
  | talk => rfl
  | report => rfl
  | package => exact (hnone (.inl hagrees)).symm
  | link => exact (hnone (.inl hagrees)).symm
  | api => exact (hnone (.inr hagrees)).symm

/-- The texts the runtime reads as they are stored. -/
structure TidyTexts [Floats] (s : Settings) : Prop where
  image : ∀ t ∈ s.containerImage, Tidy t
  platform : ∀ t ∈ s.platform, Tidy t
  registryDomain : ∀ t ∈ s.dockerRegistryDomain, Tidy t
  registryUsername : ∀ t ∈ s.dockerRegistryUsername, Tidy t
  registryCredential : ∀ t ∈ s.dockerRegistryCredential, Tidy t
  docsPath : ∀ t ∈ s.api.bind ApiSpec.docsPath, Tidy t
  healthPath : ∀ t ∈ s.api.bind ApiSpec.healthPath, Tidy t

theorem parseOpt_of_blank {α : Type} [Numeral α] {t : Str} (h : isBlankText t = true) :
    (parseOpt t : Option α) = none := by
  rw [parseOpt, List.isEmpty_iff.mp h]
  exact Numeral.ofText_nil

theorem emptyToNone_of_blank {t : Str} (h : isBlankText t = true) : emptyToNone t = none :=
  if_pos h

/-- A block left out is one whose texts are blank. -/
theorem buildApi_bind {β : Type} (f : SettingsFields) (dt : DisplayType) (g : ApiSpec → Option β)
    (hblank : f.apiFilled = false → g f.apiSpec = none) :
    (f.buildApi dt).bind g = g f.apiSpec := by
  unfold SettingsFields.buildApi
  split
  · rfl
  · next hfilled =>
    simp only [Bool.or_eq_true, decide_eq_true_eq, not_or, Bool.not_eq_true] at hfilled
    exact (hblank hfilled.2).symm

theorem blank_of_not_apiFilled {f : SettingsFields} (h : f.apiFilled = false) :
    isBlankText f.apiCors = true ∧ isBlankText f.apiPort = true ∧
      isBlankText f.apiDocsPath = true ∧ isBlankText f.apiHealthPath = true ∧
      isBlankText f.apiRateLimit = true := by
  simpa [SettingsFields.apiFilled] using h

/-- A checked claim is a name of its own. -/
theorem exists_checkedClaim {on : Bool} {c : IdentityClaim} (text : Str) (d : IdentityClaim)
    (htext : identityClaim text = some d) :
    (∃ name ∈ if isBlankText (checkbox on) then [] else [text], identityClaim name = some c) ↔
      on = true ∧ d = c := by
  cases on <;> simp [isBlankText_checkbox, htext]

section Resolved

variable [Floats] {s : Settings} {today : Str}

theorem containerImage_resubmit (hlink : (DisplayType.fromSpec s).isLink = false)
    (himage : ∀ t ∈ s.containerImage, Tidy t) :
    (resubmit today s).containerImage = s.containerImage := by
  have hbuild : (resubmit today s).containerImage =
      if (DisplayType.fromSpec s).isLink then none
      else emptyToNone (s.containerImage.getD []) := by
    rw [← displayType_fromSpec]
    rfl
  rw [hbuild, hlink]
  exact emptyToNone_getD himage

theorem kindOverride_resubmit :
    (resubmit today s).kindOverride = mergeKind (DisplayType.fromSpec s) s.kindOverride := by
  rw [← displayType_fromSpec]
  rfl

theorem kind_resubmit (hagrees : (DisplayType.fromSpec s).Agrees s.kind)
    (himage : ∀ t ∈ s.containerImage, Tidy t) : (resubmit today s).kind = s.kind := by
  rw [Settings.kind, kindOverride_resubmit]
  refine specKind_mergeKind hagrees fun hlink => ?_
  rw [containerImage_resubmit hlink himage]

/-- The framework that decides a port stays. -/
theorem innerPort_resubmit (hagrees : (DisplayType.fromSpec s).Agrees s.kind)
    (himage : ∀ t ∈ s.containerImage, Tidy t)
    (hport : (resubmit today s).api.bind ApiSpec.port = s.api.bind ApiSpec.port) :
    (resubmit today s).effectiveInnerPort = s.effectiveInnerPort := by
  have hcontainer : (resubmit today s).containerPort = s.containerPort := parseOpt_numberText _
  rw [Settings.effectiveInnerPort, Settings.effectiveInnerPort, hport, hcontainer,
    kind_resubmit hagrees himage, kindOverride_resubmit, frameworkPort_mergeKind hagrees]

theorem api_resubmit :
    (resubmit today s).api = (SettingsFields.fromSpec s).buildApi (DisplayType.fromSpec s) := by
  rw [← displayType_fromSpec]
  rfl

theorem apiPort_resubmit :
    (resubmit today s).api.bind ApiSpec.port = s.api.bind ApiSpec.port := by
  rw [api_resubmit, buildApi_bind]
  · exact parseOpt_numberText _
  · exact fun h => parseOpt_of_blank (blank_of_not_apiFilled h).2.1

theorem docsPath_resubmit (h : ∀ t ∈ s.api.bind ApiSpec.docsPath, Tidy t) :
    (resubmit today s).api.bind ApiSpec.docsPath = s.api.bind ApiSpec.docsPath := by
  rw [api_resubmit, buildApi_bind]
  · exact emptyToNone_getD h
  · exact fun h => emptyToNone_of_blank (blank_of_not_apiFilled h).2.2.1

theorem healthPath_resubmit (h : ∀ t ∈ s.api.bind ApiSpec.healthPath, Tidy t) :
    (resubmit today s).api.bind ApiSpec.healthPath = s.api.bind ApiSpec.healthPath := by
  rw [api_resubmit, buildApi_bind]
  · exact emptyToNone_getD h
  · exact fun h => emptyToNone_of_blank (blank_of_not_apiFilled h).2.2.2.1

theorem ratePolicy_resubmit : (resubmit today s).ratePolicy = s.ratePolicy := by
  rw [Settings.ratePolicy, api_resubmit, buildApi_bind]
  · exact emptyToNone_bind rfl parseRateLimit_trim _
  · exact fun h => emptyToNone_of_blank (blank_of_not_apiFilled h).2.2.2.2

theorem cors_resubmit :
    ((resubmit today s).api.map ApiSpec.cors).getD false =
      (s.api.map ApiSpec.cors).getD false := by
  have hcors : (SettingsFields.fromSpec s).apiSpec.cors = (s.api.map ApiSpec.cors).getD false := by
    rw [SettingsFields.apiSpec, SettingsFields.fromSpec, isBlankText_checkbox, Bool.not_not]
  rw [api_resubmit, ← hcors]
  unfold SettingsFields.buildApi
  split
  · rfl
  · next hfilled =>
    simp only [Bool.or_eq_true, decide_eq_true_eq, not_or, Bool.not_eq_true] at hfilled
    rw [SettingsFields.apiSpec, (blank_of_not_apiFilled hfilled.2).1]
    rfl

theorem identityClaims_resubmit (c : IdentityClaim) :
    c ∈ (resubmit today s).effectiveIdentityClaims ↔ c ∈ s.effectiveIdentityClaims := by
  have hnames : (resubmit today s).identityClaims.getD [] =
      (s.identityClaims.getD []).filter (fun name => (identityClaim name).isNone) ++
        (if isBlankText (checkbox (s.effectiveIdentityClaims.contains .email)) then []
          else ["email".toList]) ++
        if isBlankText (checkbox (s.effectiveIdentityClaims.contains .setor)) then []
          else ["setor".toList] := getD_ofNonempty _
  have hrest : ¬ ∃ name ∈ (s.identityClaims.getD []).filter
      (fun name => (identityClaim name).isNone), identityClaim name = some c := by
    rintro ⟨name, hname, hclaim⟩
    have hnone := (List.mem_filter.mp hname).2
    rw [hclaim] at hnone
    cases hnone
  rw [Settings.mem_effectiveIdentityClaims, hnames]
  simp only [List.mem_append, or_and_right, exists_or, hrest, false_or,
    exists_checkedClaim "email".toList .email rfl, exists_checkedClaim "setor".toList .setor rfl]
  cases c <;> simp

theorem network_resubmit :
    (resubmit today s).effectiveContainerNetwork = s.effectiveContainerNetwork := by
  have hbind : ∀ s : Settings, s.effectiveContainerNetwork =
      s.containerNetwork.bind fun network =>
        (some network.trim).filter fun network => !network.isEmpty := fun s => by
    unfold Settings.effectiveContainerNetwork
    cases s.containerNetwork <;> rfl
  rw [hbind, hbind]
  exact emptyToNone_bind rfl (fun t => by rw [Str.trim_trim]) _

theorem mfaValidityDays_resubmit :
    (resubmit today s).effectiveMfaValidityDays = s.effectiveMfaValidityDays := by
  have hdays : (resubmit today s).mfaValidityDays =
      s.mfaValidityDays.map fun days => min days maxMfaValidityDays := parseOpt_numberText _
  rw [Settings.effectiveMfaValidityDays, Settings.effectiveMfaValidityDays, hdays]
  cases s.mfaValidityDays with
  | none => rfl
  | some days => simp

/-- A submission that passes its checks has finite numbers. -/
theorem floats_of_validate (hvalid : (SettingsFields.fromSpec s).validate = []) :
    (parseFloatOpt (floatText s.containerCpuLimit) = s.containerCpuLimit ∧
      parseFloatOpt (floatText s.containerCpuRequest) = s.containerCpuRequest) ∧
    parseFloatOpt (floatText s.scaleUpThreshold) = s.scaleUpThreshold ∧
      parseFloatOpt (floatText s.scaleDownThreshold) = s.scaleDownThreshold := by
  have hcpu : ∀ cpu ∈ [floatText s.containerCpuLimit, floatText s.containerCpuRequest],
      isBlankText cpu = false → isPositiveFloat cpu = true := by
    simp only [SettingsFields.validate, List.append_eq_nil_iff, errorIf] at hvalid
    simpa [SettingsFields.fromSpec] using hvalid.1.1.1.1.1.1.2
  have hfraction : ∀ th ∈ [floatText s.scaleUpThreshold, floatText s.scaleDownThreshold],
      isBlankText th = false → isFraction th = true := by
    simp only [SettingsFields.validate, List.append_eq_nil_iff, errorIf] at hvalid
    simpa [SettingsFields.fromSpec] using hvalid.1.1.1.1.2
  have hfinite : ∀ y : F64, (Floats.isFinite y && Floats.isPositive y) = true →
      Floats.isFinite y = true := fun y hy => by
    rw [Bool.and_eq_true] at hy
    exact hy.1
  have hfinite' : ∀ y : F64,
      (Floats.isFinite y && Floats.isPositive y && Floats.atMostOne y) = true →
      Floats.isFinite y = true := fun y hy => by
    rw [Bool.and_eq_true] at hy
    exact hfinite y hy.1
  exact ⟨⟨parseFloatOpt_floatText hfinite (hcpu _ (by simp)),
      parseFloatOpt_floatText hfinite (hcpu _ (by simp))⟩,
    parseFloatOpt_floatText hfinite' (hfraction _ (by simp)),
    parseFloatOpt_floatText hfinite' (hfraction _ (by simp))⟩

/-- The runtime reads the same settings from the saved spec. -/
theorem runtime_resubmit (hvalid : (SettingsFields.fromSpec s).validate = [])
    (hagrees : (DisplayType.fromSpec s).Agrees s.kind) (htidy : TidyTexts s) :
    runtime (resubmit today s) = runtime s := by
  have hkind : (resubmit today s).kind = s.kind := kind_resubmit hagrees htidy.image
  obtain ⟨⟨hcpuLimit, hcpuRequest⟩, hscaleUp, hscaleDown⟩ := floats_of_validate hvalid
  have hmin : (resubmit today s).minReplicas = s.minReplicas := parseOpt_numberText _
  have hmax : (resubmit today s).maxReplicas = s.maxReplicas := parseOpt_numberText _
  have hseats : (resubmit today s).seatsPerContainer = s.seatsPerContainer :=
    parseOpt_numberText _
  have hrouting : (resubmit today s).routingStrategy = s.routingStrategy :=
    routingFromKey_toKey _
  have hflag : ∀ o : Option Bool, (checkboxOpt (checkbox (o.getD false))).getD false =
      o.getD false := by
    rintro (_ | _ | _) <;> rfl
  rw [runtime, runtime, Runtime.mk.injEq]
  refine ⟨hkind, ?seatsEq, ?minEq, ?maxEq, ?routingEq,
    innerPort_resubmit hagrees htidy.image apiPort_resubmit, network_resubmit,
    emptyToNone_getD htidy.platform, rfl, emptyToNone_getD htidy.registryDomain,
    emptyToNone_getD htidy.registryUsername, rfl, emptyToNone_getD htidy.registryCredential,
    hcpuLimit, hcpuRequest, emptyToNone_bind rfl parseMemoryString_trim _,
    emptyToNone_bind rfl parseMemoryString_trim _, ?maxBodyEq, parseOpt_numberText _,
    parseOpt_numberText _, parseOpt_numberText _, parseOpt_numberText _, hflag _, hflag _,
    mfaValidityDays_resubmit, hflag _, ?claimsEq, docsPath_resubmit htidy.docsPath,
    healthPath_resubmit htidy.healthPath, ratePolicy_resubmit, cors_resubmit, hscaleUp,
    hscaleDown, parseOpt_numberText _, parseOpt_numberText _, parseOpt_numberText _,
    parseOpt_numberText _, placementFromKey_toKey _, hflag _, ?baseHrefEq⟩
  case seatsEq => rw [Settings.effectiveSeats, Settings.effectiveSeats, hseats, hkind]
  case minEq => rw [Settings.effectiveMinReplicas, Settings.effectiveMinReplicas, hmin]
  case maxEq =>
    rw [Settings.effectiveMaxReplicas, Settings.effectiveMaxReplicas, hmax, hkind,
      Settings.effectiveMinReplicas, Settings.effectiveMinReplicas, hmin]
  case routingEq => rw [Settings.effectiveRouting, Settings.effectiveRouting, hrouting, hkind]
  case maxBodyEq =>
    refine funext fun global => congrArg (Option.or · global) ?_
    exact emptyToNone_bind rfl parseMemoryString_trim _
  case claimsEq =>
    refine funext fun c => Bool.eq_iff_iff.mpr ?_
    rw [List.contains_iff_mem, List.contains_iff_mem]
    exact identityClaims_resubmit c
  case baseHrefEq =>
    have hbuild : (resubmit today s).injectBaseHref =
        if isBlankText (checkbox (s.injectBaseHref.getD true)) then some false else none := rfl
    rw [hbuild, isBlankText_checkbox]
    cases s.injectBaseHref.getD true <;> rfl

end Resolved

/-! ## The whole spec -/

/-- What the claim of an untouched form asks: nothing but the id may differ. -/
structure SameSettings [Floats] (base saved : Spec Settings) : Prop where
  env : saved.settings.containerEnv.getD .empty = base.settings.containerEnv.getD .empty
  cmd : saved.settings.containerCmd.getD [] = base.settings.containerCmd.getD []
  volumes : saved.settings.volumes.getD [] = base.settings.volumes.getD []
  image : saved.settings.containerImage = base.settings.containerImage
  accessGroups : saved.accessGroups.getD [] = base.accessGroups.getD []
  accessUsers : saved.accessUsers.getD [] = base.accessUsers.getD []
  properties : ∀ k, saved.settings.templateProperties.lookup k =
    base.settings.templateProperties.lookup k
  runtime : runtime saved.settings = runtime base.settings

/-- What comes back of a spec whose texts fit their inputs.  A link or package keeps no
image, and every save stamps or prunes the five keys. -/
structure Returned [Floats] (today : Str) (base saved : Spec Settings) : Prop where
  env : (∀ env ∈ base.settings.containerEnv, ∀ e ∈ env.entries, EnvLine e) →
    saved.settings.containerEnv.getD .empty = base.settings.containerEnv.getD .empty
  cmd : (∀ t ∈ base.settings.containerCmd.getD [], OneLine t) →
    saved.settings.containerCmd.getD [] = base.settings.containerCmd.getD []
  volumes : (∀ t ∈ base.settings.volumes.getD [], OneLine t) →
    saved.settings.volumes.getD [] = base.settings.volumes.getD []
  image : (DisplayType.fromSpec base.settings).isLink = false →
    (∀ t ∈ base.settings.containerImage, Tidy t) →
    saved.settings.containerImage = base.settings.containerImage
  noImage : (DisplayType.fromSpec base.settings).isLink = true →
    saved.settings.containerImage = none
  accessGroups : (∀ t ∈ base.accessGroups.getD [], ListItem t) →
    saved.accessGroups.getD [] = base.accessGroups.getD []
  accessUsers : (∀ t ∈ base.accessUsers.getD [], ListItem t) →
    saved.accessUsers.getD [] = base.accessUsers.getD []
  property : ∀ k, k ∉ stampedKeys →
    (∀ key ∈ managedKeys, k = key.toList → ShowsBack base.settings.templateProperties k) →
    saved.settings.templateProperties.lookup k = base.settings.templateProperties.lookup k
  typeProperty : saved.settings.templateProperties.lookup "type".toList =
    some (.string (DisplayType.fromSpec base.settings).key)
  stateProperty : saved.settings.templateProperties.lookup "state".toList =
    some (.string base.settings.templateProperties.state)
  updatedProperty : ∀ t, Tidy t →
    base.settings.templateProperties.lookup "updated".toList = some (.string t) →
    saved.settings.templateProperties.lookup "updated".toList = some (.string t)
  updatedToday : base.settings.templateProperties.lookup "updated".toList = none →
    saved.settings.templateProperties.lookup "updated".toList = some (.string today)
  prunedProperty : ∀ k, k = "icon".toList ∨ k = "locked".toList →
    saved.settings.templateProperties.lookup k = none
  runtime : (DisplayType.fromSpec base.settings).Agrees base.settings.kind →
    TidyTexts base.settings → runtime saved.settings = runtime base.settings

section Whole

variable [Floats]

theorem fields_valid {form : SpecForm SettingsFields} (h : form.validate = []) :
    form.fields.validate = [] :=
  (List.append_eq_nil_iff.mp h).2

theorem settings_intoSpec (base : Spec Settings) (today : Str) :
    ((SpecForm.fromSpec base).intoSpec today (some base) .admin).settings =
      resubmit today base.settings := rfl

end Whole

/-! ## A package with an image, and a dashboard -/

section Examples

attribute [local instance] wholeFloats

/-- A package card that names an image. -/
def packageCard : Spec Settings :=
  ⟨"pkg".toList, none, none,
    bareSettings "Pkg" (SortedMap.empty.insert "type".toList (.string "package".toList))⟩

def dashboard : Spec Settings :=
  ⟨"dash".toList, some ["dev".toList], none,
    { bareSettings "Dash" (SortedMap.empty.insert "logo".toList (.string "d.png".toList)) with
      containerCpuLimit := some (2 : Nat)
      containerMemoryLimit := some "512m".toList
      volumes := some ["/srv:/data:ro".toList]
      containerEnv := some (.ofList [("KEY".toList, "a=b".toList), ("EMPTY".toList, [])])
      containerCmd := some ["R".toList, "-e".toList, "run()".toList]
      identityClaims := some ["setor".toList, "email".toList] }⟩

end Examples

end Ruscker.Admin.SpecRoutes
