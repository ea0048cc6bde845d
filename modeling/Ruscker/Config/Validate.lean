import Ruscker.Admin.FormRoundTrip
import Ruscker.Config.RawScan
import Ruscker.Config.Schema
import Ruscker.Lib.Grouping

/-!
# The validator

A configuration that parses is checked for what would have no effect or fail later: a report is
the list of its warnings.  The editor of a spec has checks of its own, and what it accepts draws
none of the warnings it checks for.
-/

namespace Ruscker.Validate

open Admin.SpecRoutes

instance neZero_u32 : NeZero (2 ^ 32) := ⟨by decide⟩

/-- The comparisons of the scale thresholds, and what stands for an absent one. -/
class Thresholds [Floats] where
  le : F64 → F64 → Bool
  lt : F64 → F64 → Bool
  zero : F64
  one : F64
  scaleUp : F64
  scaleDown : F64

section Model

variable [Floats]

inductive Warning where
  | duplicateSpecId (id : Str)
  | emptyDisplayName (specId : Str)
  | emptyDescription (specId : Str)
  | embeddedCredential (field : Str) (line : Nat)
  | unknownTypeProperty (specId value : Str)
  | invalidReplicaRange (specId : Str) (min max : U32)
  | invalidScaleThreshold (specId : Str) (scaleUp scaleDown : F64)
  | specLackingContainerHasContainerFields (specId : Str)
  | mfaValidityOutOfRange (spec : Str) (days : U16)
  | mfaValidityWithoutRequire (spec : Str)
  | mfaOnExternalSpec (spec : Str)
  | invalidRateLimit (specId value : Str)
  | invalidMaxBodySize (location value : Str)
  | unknownTimezone (value : Str)
  | invalidCpuLimit (specId field value : Str)
  | invalidMemoryLimit (specId field value : Str)
  | zeroSeats (specId : Str)
  | invalidVolume (specId value : Str)
  | invalidHost (host reason : Str)
  | replicaCeilingZero (specId : Str)
  | missingContainerImage (specId : Str)
  | externalWithContainerImage (specId : Str)
  | ignoredCompatField (field : Str)
  | invalidLabelKey (specId key : Str)
  | reservedLabelKey (specId key : Str)
  | invalidContainerNetwork (specId value : Str)
  deriving DecidableEq

def warnIf (bad : Bool) (w : Warning) : List Warning := if bad then [w] else []

@[simp] theorem mem_warnIf {bad : Bool} {w w' : Warning} :
    w ∈ warnIf bad w' ↔ bad = true ∧ w = w' := by
  cases bad <;> simp [warnIf]

@[simp] theorem warnIf_eq_nil {bad : Bool} {w : Warning} : warnIf bad w = [] ↔ bad = false := by
  cases bad <;> simp [warnIf]

omit [Floats] in
/-- A check of an optional setting. -/
theorem mem_elim_nil {α β : Type*} {o : Option α} {f : α → List β} {b : β} :
    b ∈ o.elim [] f ↔ ∃ a, o = some a ∧ b ∈ f a := by
  cases o <;> simp

def knownTypes : List Str :=
  ["app".toList, "package".toList, "talk".toList, "report".toList, "api".toList]

/-! ## The checks of a spec -/

def isValidLabelKey (key : Str) : Bool :=
  !key.isEmpty && key.all fun c => c.isAlphanum || c = '.' || c = '_' || c = '-'

/-- In the namespace of the labels that a container gets from the backend. -/
def isReservedLabelKey (key : Str) : Bool := "ruscker.".toList.isPrefixOf (key.map Char.toLower)

section Spec

variable (spec : Spec Settings)

def checkNames : List Warning :=
  warnIf (spec.settings.displayName.elim true isBlankText) (.emptyDisplayName spec.id) ++
  warnIf (spec.settings.description.elim true isBlankText) (.emptyDescription spec.id)

def requiresMfa : Bool := spec.settings.requireMfa.getD false

def checkMfa : List Warning :=
  (spec.settings.mfaValidityDays.elim [] fun days =>
    warnIf (maxMfaValidityDays < days) (.mfaValidityOutOfRange spec.id days) ++
    warnIf (!requiresMfa spec) (.mfaValidityWithoutRequire spec.id)) ++
  warnIf (requiresMfa spec && spec.settings.kind = .external) (.mfaOnExternalSpec spec.id)

def checkType : List Warning :=
  (spec.settings.templateProperties.getStr "type".toList).elim [] fun t =>
    warnIf (!knownTypes.contains t) (.unknownTypeProperty spec.id t)

def checkReplicas : List Warning :=
  let min := spec.settings.effectiveMinReplicas
  let max := spec.settings.effectiveMaxReplicas
  warnIf (max < min) (.invalidReplicaRange spec.id min max) ++
  warnIf (spec.settings.kind ≠ .external && max = 0 && min ≤ max) (.replicaCeilingZero spec.id)

def checkImage : List Warning :=
  warnIf (spec.settings.kind ≠ .external && spec.settings.containerImage.isNone)
    (.missingContainerImage spec.id) ++
  warnIf (spec.settings.kind = .external && spec.settings.containerImage.isSome)
    (.externalWithContainerImage spec.id)

def checkSeats : List Warning :=
  warnIf (spec.settings.kind ≠ .external && spec.settings.seatsPerContainer = some 0)
    (.zeroSeats spec.id)

def checkThresholds [Thresholds] : List Warning :=
  let up := spec.settings.scaleUpThreshold.getD Thresholds.scaleUp
  let down := spec.settings.scaleDownThreshold.getD Thresholds.scaleDown
  warnIf ((spec.settings.scaleUpThreshold.isSome || spec.settings.scaleDownThreshold.isSome) &&
    (Thresholds.le up down || Thresholds.lt Thresholds.one up ||
      Thresholds.lt down Thresholds.zero)) (.invalidScaleThreshold spec.id up down)

def checkContainerFields : List Warning :=
  warnIf (spec.settings.containerImage.isNone && (spec.settings.seatsPerContainer.isSome ||
    spec.settings.dockerRegistryPassword.isSome || spec.settings.maxLifetime.isSome))
    (.specLackingContainerHasContainerFields spec.id)

def checkRateLimit : List Warning :=
  (spec.settings.api.bind ApiSpec.rateLimit).elim [] fun raw =>
    warnIf (parseRateLimit raw).isNone (.invalidRateLimit spec.id raw)

def checkMaxBody : List Warning :=
  spec.settings.maxBodySize.elim [] fun raw =>
    warnIf (spec.settings.effectiveMaxBodyBytes none).isNone (.invalidMaxBodySize spec.id raw)

/-- One of the two numbers of CPUs. -/
def checkCpuField (field : String) (value : Option F64) : List Warning :=
  value.elim [] fun v => warnIf (!(Floats.isFinite v && Floats.isPositive v))
    (.invalidCpuLimit spec.id field.toList (Floats.display v))

def checkCpu : List Warning :=
  checkCpuField spec "limit" spec.settings.containerCpuLimit ++
  checkCpuField spec "request" spec.settings.containerCpuRequest

/-- One of the two sizes, with what it is read as. -/
def checkMemoryField (field : String) (raw : Option Str) (parsed : Option Int) : List Warning :=
  raw.elim [] fun s => warnIf parsed.isNone (.invalidMemoryLimit spec.id field.toList s)

def checkMemory : List Warning :=
  checkMemoryField spec "limit" spec.settings.containerMemoryLimit
    spec.settings.effectiveMemoryLimitBytes ++
  checkMemoryField spec "request" spec.settings.containerMemoryRequest
    spec.settings.effectiveMemoryRequestBytes

def checkVolumes : List Warning :=
  (spec.settings.volumes.getD []).flatMap fun v =>
    warnIf (!isValidVolumeBind v) (.invalidVolume spec.id v)

/-- A blank key is dropped in silence and draws no warning. -/
def checkLabelKey (key : Str) : List Warning :=
  if key.trim.isEmpty then []
  else if isReservedLabelKey key.trim then [.reservedLabelKey spec.id key.trim]
  else warnIf (!isValidLabelKey key.trim) (.invalidLabelKey spec.id key.trim)

def checkLabels : List Warning :=
  spec.settings.labels.elim [] fun labels => labels.entries.flatMap fun e => checkLabelKey spec e.1

def checkNetwork : List Warning :=
  spec.settings.effectiveContainerNetwork.elim [] fun net =>
    warnIf (!isValidNetworkName net) (.invalidContainerNetwork spec.id net)

def checkSpec [Thresholds] : List Warning :=
  checkNames spec ++ checkMfa spec ++ checkType spec ++ checkReplicas spec ++ checkImage spec ++
  checkSeats spec ++ checkThresholds spec ++ checkContainerFields spec ++ checkRateLimit spec ++
  checkMaxBody spec ++ checkCpu spec ++ checkMemory spec ++ checkVolumes spec ++
  checkLabels spec ++ checkNetwork spec

end Spec

/-! ## The checks of the hosts -/

/-- The scheme of an address: what is in front of the first `://`. -/
def schemeOf : Str → Option Str
  | [] => none
  | c :: s =>
    if "://".toList.isPrefixOf (c :: s) then some [] else (schemeOf s).map fun t => c :: t

def hostLabel (host : Host) (i : Nat) : Str :=
  if isBlankText host.id then '#' :: Nat.toDigits 10 i else host.id

def tlsUnused (addr : Str) : Str :=
  "`tls` is only used with `tcp://` (address is ".toList ++ addr ++ [')']

def tlsMissing : Str := "`tcp://` host needs `tls` (ca/cert/key) for mutual TLS".toList

def badScheme (addr : Str) : Str :=
  "address `".toList ++ addr ++ "` must start with ssh:// , tcp:// , http:// or unix://".toList

def checkAddress (host : Host) (label : Str) : List Warning :=
  let addr := host.address.trim
  match schemeOf addr with
  | some scheme =>
    if scheme = "ssh".toList ∨ scheme = "http".toList ∨ scheme = "unix".toList then
      warnIf host.tls.isSome (.invalidHost label (tlsUnused addr))
    else if scheme = "tcp".toList then warnIf host.tls.isNone (.invalidHost label tlsMissing)
    else [.invalidHost label (badScheme addr)]
  | none => [.invalidHost label (badScheme addr)]

def checkHost (host : Host) (i : Nat) : List Warning :=
  warnIf (isBlankText host.id) (.invalidHost (hostLabel host i) "empty `id`".toList) ++
  checkAddress host (hostLabel host i)

/-- The texts that occur more than once.  The order of the source's hash map is left open; here
it is the order of the first occurrences. -/
def duplicates (l : List Str) : List Str := (Grouping.firstSeen id l).filter fun s => 1 < l.count s

def checkHosts (hosts : List Host) : List Warning :=
  hosts.zipIdx.flatMap (fun h => checkHost h.1 h.2) ++
  (duplicates ((hosts.map Host.id).filter fun id => !isBlankText id)).map fun id =>
    .invalidHost id "duplicate host id".toList

/-! ## The report -/

def sessionTimeoutSecs (server : Server) : Option U64 :=
  ((server.servlet.bind ServletConfig.session).bind SessionConfig.timeout).or
    server.flatServletSessionTimeout

/-- The fields that nothing reads, and whether they are set. -/
def ignoredFields (config : Config) : List (String × Bool) :=
  [("server.secure-cookies", config.server.secureCookies),
    ("server.servlet.session.timeout", (sessionTimeoutSecs config.server).isSome),
    ("proxy.heartbeat-rate", config.proxy.heartbeatRate.val ≠ 10000),
    ("proxy.hide-navbar", config.proxy.hideNavbar),
    ("proxy.landing-page", config.proxy.landingPage ≠ "/".toList),
    ("proxy.container-log-path", config.proxy.containerLogPath.isSome),
    ("logging.file", config.logging.file.isSome)]

def checkIgnoredCompatFields (config : Config) : List Warning :=
  (ignoredFields config).flatMap fun f => warnIf f.2 (.ignoredCompatField f.1.toList)

def checkBodyLimit (config : Config) : List Warning :=
  config.proxy.maxBodySize.elim [] fun raw =>
    warnIf (parseMemoryString raw).isNone (.invalidMaxBodySize "proxy".toList raw)

def checkTimezone (isTimezone : Str → Bool) (config : Config) : List Warning :=
  config.server.timezone.elim [] fun raw =>
    warnIf (!raw.trim.isEmpty && !isTimezone raw.trim) (.unknownTimezone raw.trim)

/-- How often each label occurs. -/
def countBy (label : Spec Settings → Str) (specs : List (Spec Settings)) : List (Str × Nat) :=
  (Grouping.firstSeen label specs).map fun k => (k, (Grouping.group label specs k).length)

def kindLabel : SpecKind → Str
  | .shiny => "shiny".toList
  | .interactiveApp => "interactive".toList
  | .api => "api".toList
  | .external => "external".toList

structure Stats where
  totalSpecs : Nat
  byKind : List (Str × Nat)
  byState : List (Str × Nat)
  byAccess : List (Str × Nat)

def collectStats (config : Config) : Stats :=
  let specs := config.proxy.specs
  { totalSpecs := specs.length
    byKind := countBy (fun spec => kindLabel spec.settings.kind) specs
    byState := countBy (fun spec => spec.settings.templateProperties.state) specs
    byAccess := countBy (fun spec =>
      if spec.isOpen then "open".toList else "restricted".toList) specs }

structure ValidationReport where
  warnings : List Warning
  stats : Stats

def ValidationReport.isClean (report : ValidationReport) : Bool := report.warnings.isEmpty

variable [Thresholds] (isTimezone : Str → Bool)

/-- The names of the zones are a parameter. -/
def run (config : Config) : ValidationReport where
  warnings := config.proxy.specs.flatMap (fun spec => checkSpec spec) ++
    (duplicates (config.proxy.specs.map Spec.id)).map .duplicateSpecId ++
    checkBodyLimit config ++ checkTimezone isTimezone config ++
    checkHosts config.proxy.hosts ++ checkIgnoredCompatFields config
  stats := collectStats config

/-- `Config::validate`; the raw text is scanned for credentials when it is read. -/
def validate (raw : Str) (config : Config) : ValidationReport :=
  let report := run isTimezone config
  { report with
    warnings := report.warnings ++
      (RawScan.scanRawText raw).map fun c => .embeddedCredential c.field c.line }

end Model

/-! ## Counts and duplicates -/

section Counts

theorem sum_countBy [Floats] (label : Spec Settings → Str) (specs : List (Spec Settings)) :
    ((countBy label specs).map Prod.snd).sum = specs.length := by
  rw [countBy, List.map_map]
  exact Grouping.sum_length_group Grouping.nodup_firstSeen fun spec hspec =>
    Grouping.mem_firstSeen.mpr ⟨spec, hspec, rfl⟩

theorem duplicates_eq_nil {l : List Str} : duplicates l = [] ↔ l.Nodup := by
  rw [duplicates, List.filter_eq_nil_iff, List.nodup_iff_count_le_one]
  constructor
  · intro h s
    by_cases hs : s ∈ l
    · simpa using h s (Grouping.mem_firstSeen.mpr ⟨s, hs, rfl⟩)
    · simp [List.count_eq_zero_of_not_mem hs]
  · intro h s _
    simpa using h s

end Counts

/-! ## What the editor accepts -/

section Numbers

theorem parseInt_of_parseNat {s : Str} {n : Nat} (h : Numerals.parseNat s = some n) :
    Numerals.parseInt s = some (n : Int) := by
  unfold Numerals.parseInt
  split
  · next digits =>
    simp [Numerals.parseNat, Numerals.parseDigits] at h
  · rw [h, Option.map_some]

/-- An unsigned number is read the same as a signed one of a wider type. -/
theorem parseOpt_signed {size : Nat} {low high : Int} {s : Str} {n : Fin size}
    (h : parseOpt s = some n) (hlow : low ≤ 0) (hhigh : (size : Int) ≤ high) :
    ∃ z : Numerals.Ranged low high, parseOpt s = some z ∧ z.val = n.val := by
  unfold parseOpt at h ⊢
  obtain ⟨m, hm, hn⟩ := Option.bind_eq_some_iff.mp h
  split at hn
  · next hlt =>
    cases hn
    refine ⟨⟨m, by omega, by omega⟩, ?_, rfl⟩
    show (Numerals.parseInt s.trim).bind _ = _
    rw [parseInt_of_parseNat hm, Option.bind_some, dif_pos]
  · cases hn

end Numbers

section Editor

variable [Floats] {f : SettingsFields}

/-- What the checks of the editor establish about its fields. -/
structure Accepted (f : SettingsFields) : Prop where
  name : isBlankText f.displayName = false
  days : ∀ n : I64, parseOpt f.mfaValidityDays = some n → n.val ≤ maxMfaValidityDays.val
  ceiling : ∀ n : I64, parseOpt f.maxReplicas = some n → 0 < n.val
  cpu : ∀ cpu ∈ [f.containerCpuLimit, f.containerCpuRequest],
    isBlankText cpu = false → isPositiveFloat cpu = true
  memory : ∀ mem ∈ [f.containerMemoryLimit, f.containerMemoryRequest, f.maxBodySize],
    isBlankText mem = false → isValidMemorySize mem.trim = true
  range : ∀ low high : U32, parseOpt f.minReplicas = some low →
    parseOpt f.maxReplicas = some high → low ≤ high
  volumes : ∀ l ∈ lines f.volumes, isValidVolumeBind l = true
  network : isBlankText f.containerNetwork = false →
    isValidNetworkName f.containerNetwork.trim = true

omit [Floats] in
theorem errorIf_eq_nil {bad : Bool} {key : String} : errorIf bad key = [] ↔ bad = false := by
  cases bad <;> simp [errorIf]

theorem accepted_of_validate (h : f.validate = []) : Accepted f := by
  simp only [SettingsFields.validate, List.append_eq_nil_iff, errorIf_eq_nil] at h
  obtain ⟨⟨⟨⟨⟨⟨⟨⟨⟨⟨⟨hname, -⟩, hdays⟩, hceiling⟩, -⟩, hcpu⟩, hmemory⟩, -⟩, hrange⟩, hvolumes⟩,
    hnetwork⟩, -⟩ := h
  refine ⟨hname, fun n hn => ?_, fun n hn => ?_, by simpa using hcpu, by simpa using hmemory,
    fun low high hlow hhigh => ?_, by simpa using hvolumes, by simpa using hnetwork⟩
  · rw [hn] at hdays
    simp only [Option.any_some, Bool.not_eq_false', Bool.and_eq_true, decide_eq_true_eq] at hdays
    exact hdays.2
  · rw [hn] at hceiling
    simpa using hceiling
  · rw [hlow, hhigh] at hrange
    simpa using hrange

/-- The warnings whose cause the editor has a check for. -/
def Warning.isEdited : Warning → Bool
  | .emptyDisplayName _ => true
  | .mfaValidityOutOfRange _ _ => true
  | .replicaCeilingZero _ => true
  | .invalidMaxBodySize _ _ => true
  | .invalidCpuLimit _ _ _ => true
  | .invalidMemoryLimit _ _ _ => true
  | .invalidContainerNetwork _ _ => true
  | _ => false

variable {spec : Spec Settings} {w : Warning} {field : String}

theorem checkCpuField_parsed {cpu : Str}
    (h : isBlankText cpu = false → isPositiveFloat cpu = true) :
    checkCpuField spec field (parseFloatOpt cpu) = [] := by
  cases hparsed : parseFloatOpt cpu with
  | none => rfl
  | some v =>
    have hfilled : isBlankText cpu = false := by
      by_contra hblank
      rw [Bool.not_eq_false, isBlankText, List.isEmpty_iff] at hblank
      rw [parseFloatOpt, hblank, Floats.parse_nil] at hparsed
      cases hparsed
    have hpositive := h hfilled
    rw [isPositiveFloat, hparsed] at hpositive
    rw [checkCpuField, Option.elim_some, warnIf_eq_nil, Bool.not_eq_false']
    exact hpositive

/-- A size that the editor accepts is read. -/
theorem isSome_bind_parse {mem raw : Str}
    (h : isBlankText mem = false → isValidMemorySize mem.trim = true)
    (hraw : emptyToNone mem = some raw) :
    ((emptyToNone mem).bind parseMemoryString).isSome = true := by
  cases hblank : isBlankText mem with
  | true =>
    rw [emptyToNone, if_pos hblank] at hraw
    cases hraw
  | false =>
    rw [emptyToNone, if_neg (by simp [hblank]), Option.bind_some]
    exact h hblank

theorem checkMemoryField_parsed {mem : Str}
    (h : isBlankText mem = false → isValidMemorySize mem.trim = true) :
    checkMemoryField spec field (emptyToNone mem) ((emptyToNone mem).bind parseMemoryString) =
      [] := by
  cases hraw : emptyToNone mem with
  | none => rfl
  | some raw =>
    have hsome := isSome_bind_parse h hraw
    rw [hraw] at hsome
    simpa [checkMemoryField] using hsome

section Saved

variable (today : Str) (base : Option Settings) (role : Role)

/-- The spec the editor stores. -/
def saved (spec : Spec Settings) (f : SettingsFields) : Spec Settings :=
  { spec with settings := f.build today base role }

theorem effectiveMinReplicas_le (hf : Accepted f)
    (hkind : (saved today base role spec f).settings.kind ≠ .external) :
    (saved today base role spec f).settings.effectiveMinReplicas ≤
      (saved today base role spec f).settings.effectiveMaxReplicas := by
  have hlow : (saved today base role spec f).settings.minReplicas = parseOpt f.minReplicas := rfl
  have hhigh : (saved today base role spec f).settings.maxReplicas = parseOpt f.maxReplicas := rfl
  rw [Settings.effectiveMaxReplicas, hhigh]
  cases hmax : (parseOpt f.maxReplicas : Option U32) with
  | none =>
    rw [Option.getD_none]
    split
    · next hexternal => exact absurd hexternal hkind
    · exact le_max_left _ _
  | some high =>
    rw [Option.getD_some, Settings.effectiveMinReplicas, hlow]
    cases hmin : (parseOpt f.minReplicas : Option U32) with
    | none => exact Fin.zero_le _
    | some low => exact hf.range low high hmin hmax

theorem effectiveMaxReplicas_ne_zero (hf : Accepted f)
    (hkind : (saved today base role spec f).settings.kind ≠ .external) :
    (saved today base role spec f).settings.effectiveMaxReplicas ≠ 0 := by
  have hhigh : (saved today base role spec f).settings.maxReplicas = parseOpt f.maxReplicas := rfl
  rw [Settings.effectiveMaxReplicas, hhigh]
  cases hmax : (parseOpt f.maxReplicas : Option U32) with
  | none =>
    rw [Option.getD_none]
    split
    · next hexternal => exact absurd hexternal hkind
    · exact fun hzero => absurd (hzero ▸ le_max_right _ _ : defaultMaxReplicas ≤ 0) (by decide)
  | some high =>
    obtain ⟨z, hz, hval⟩ := @parseOpt_signed _ (-2 ^ 63) (2 ^ 63) _ _ hmax (by decide) (by decide)
    have hpos := hf.ceiling z hz
    rw [hval] at hpos
    rintro rfl
    exact absurd hpos (by decide)

/-- What can still be said about a spec that went through the editor. -/
structure Remaining (base : Option Settings) (role : Role) (kind : SpecKind) (w : Warning) :
    Prop where
  edited : w.isEdited = false
  range : ∀ id low high, w = .invalidReplicaRange id low high → kind = .external
  volume : ∀ id v, w = .invalidVolume id v →
    role ≠ .admin ∧ v ∈ (base.bind Settings.volumes).getD []

variable {today base role}

theorem remaining_of_checkNames (hf : Accepted f)
    (hw : w ∈ checkNames (saved today base role spec f)) :
    w = .emptyDescription spec.id := by
  rw [checkNames, List.mem_append, mem_warnIf, mem_warnIf] at hw
  rcases hw with ⟨hblank, -⟩ | ⟨-, rfl⟩
  · have hname : (saved today base role spec f).settings.displayName = some f.displayName.trim := by
      show emptyToNone f.displayName = _
      rw [emptyToNone, if_neg (by simp [hf.name])]
    rw [hname, Option.elim_some, isBlankText, Str.trim_trim] at hblank
    exact absurd hblank (by simpa [isBlankText] using hf.name)
  · rfl

theorem remaining_of_checkMfa (hf : Accepted f)
    (hw : w ∈ checkMfa (saved today base role spec f)) :
    w = .mfaValidityWithoutRequire spec.id ∨ w = .mfaOnExternalSpec spec.id := by
  have hdays : (saved today base role spec f).settings.mfaValidityDays =
      parseOpt f.mfaValidityDays := rfl
  rw [checkMfa, hdays, List.mem_append, mem_warnIf] at hw
  rcases hw with hw | ⟨-, rfl⟩
  · obtain ⟨days, hparsed, hw⟩ := mem_elim_nil.mp hw
    rw [List.mem_append, mem_warnIf, mem_warnIf] at hw
    rcases hw with ⟨hlong, -⟩ | ⟨-, rfl⟩
    · obtain ⟨z, hz, hval⟩ := @parseOpt_signed _ (-2 ^ 63) (2 ^ 63) _ _ hparsed (by decide)
        (by decide)
      have hle := hf.days z hz
      rw [decide_eq_true_eq, Fin.lt_def] at hlong
      omega
    · exact .inl rfl
  · exact .inr rfl

theorem remaining_of_checkReplicas (hf : Accepted f)
    (hw : w ∈ checkReplicas (saved today base role spec f)) :
    (∃ low high, w = .invalidReplicaRange spec.id low high) ∧
      (saved today base role spec f).settings.kind = .external := by
  by_cases hkind : (saved today base role spec f).settings.kind = .external
  · rw [checkReplicas, List.mem_append, mem_warnIf, mem_warnIf] at hw
    rcases hw with ⟨-, rfl⟩ | ⟨hzero, -⟩
    · exact ⟨⟨_, _, rfl⟩, hkind⟩
    · simp [hkind] at hzero
  · rw [checkReplicas, List.mem_append, mem_warnIf, mem_warnIf] at hw
    rcases hw with ⟨hrange, -⟩ | ⟨hzero, -⟩
    · have hle := effectiveMinReplicas_le today base role hf hkind
      exact absurd (of_decide_eq_true hrange) hle.not_gt
    · simp only [Bool.and_eq_true, decide_eq_true_eq] at hzero
      exact absurd hzero.1.2 (effectiveMaxReplicas_ne_zero today base role hf hkind)

theorem checkMaxBody_saved (hf : Accepted f) :
    checkMaxBody (saved today base role spec f) = [] := by
  have hbody : (saved today base role spec f).settings.maxBodySize =
      emptyToNone f.maxBodySize := rfl
  rw [checkMaxBody, Settings.effectiveMaxBodyBytes, hbody]
  cases hraw : emptyToNone f.maxBodySize with
  | none => rfl
  | some raw =>
    have hsome := isSome_bind_parse (hf.memory f.maxBodySize (by simp)) hraw
    rw [hraw] at hsome
    simpa using hsome

theorem checkNetwork_saved (hf : Accepted f) :
    checkNetwork (saved today base role spec f) = [] := by
  have hnetwork : (saved today base role spec f).settings.containerNetwork =
      emptyToNone f.containerNetwork := rfl
  rw [checkNetwork, Settings.effectiveContainerNetwork, hnetwork, emptyToNone]
  cases hblank : isBlankText f.containerNetwork with
  | true => rfl
  | false =>
    have hfilled : (!f.containerNetwork.trim.isEmpty) = true := by
      simpa [isBlankText] using hblank
    rw [if_neg (by simp), Option.map_some, Str.trim_trim, Option.filter_some, if_pos hfilled,
      Option.elim_some, warnIf_eq_nil, hf.network hblank]
    rfl

theorem remaining_of_checkVolumes (hf : Accepted f)
    (hw : w ∈ checkVolumes (saved today base role spec f)) :
    ∃ v, w = .invalidVolume spec.id v ∧ role ≠ .admin ∧
      v ∈ (base.bind Settings.volumes).getD [] := by
  have hvolumes : (saved today base role spec f).settings.volumes =
      if role = .admin then linesToVec f.volumes else base.bind Settings.volumes := rfl
  rw [checkVolumes, hvolumes, List.mem_flatMap] at hw
  obtain ⟨v, hv, hbad⟩ := hw
  obtain ⟨hinvalid, rfl⟩ := mem_warnIf.mp hbad
  split at hv
  · have hline : v ∈ lines f.volumes := by
      rw [linesToVec] at hv
      split at hv
      · cases hv
      · exact hv
    rw [hf.volumes v hline] at hinvalid
    cases hinvalid
  · next hrole => exact ⟨v, rfl, hrole, hv⟩

/-- The causes that the editor leaves alone. -/
def Warning.isOther : Warning → Bool
  | .invalidReplicaRange _ _ _ => false
  | .invalidVolume _ _ => false
  | w => !w.isEdited

theorem remaining_of_isOther {kind : SpecKind} (h : w.isOther = true) :
    Remaining base role kind w where
  edited := by cases w <;> first | rfl | cases h
  range := by
    rintro id low high rfl
    cases h
  volume := by
    rintro id v rfl
    cases h

theorem isOther_of_checkLabelKey {key : Str} (hw : w ∈ checkLabelKey spec key) :
    w.isOther = true := by
  unfold checkLabelKey at hw
  split at hw
  · cases hw
  · split at hw
    · rw [List.mem_singleton.mp hw]
      rfl
    · rw [(mem_warnIf.mp hw).2]
      rfl

theorem isOther_of_checkLabels (hw : w ∈ checkLabels spec) : w.isOther = true := by
  obtain ⟨labels, -, hw⟩ := mem_elim_nil.mp hw
  obtain ⟨e, -, hw⟩ := List.mem_flatMap.mp hw
  exact isOther_of_checkLabelKey hw

theorem isOther_of_checkType (hw : w ∈ checkType spec) : w.isOther = true := by
  obtain ⟨t, -, hw⟩ := mem_elim_nil.mp hw
  rw [(mem_warnIf.mp hw).2]
  rfl

theorem isOther_of_checkRateLimit (hw : w ∈ checkRateLimit spec) : w.isOther = true := by
  obtain ⟨raw, -, hw⟩ := mem_elim_nil.mp hw
  rw [(mem_warnIf.mp hw).2]
  rfl

theorem isOther_of_checkImage (hw : w ∈ checkImage spec) : w.isOther = true := by
  rw [checkImage, List.mem_append, mem_warnIf, mem_warnIf] at hw
  rcases hw with ⟨-, rfl⟩ | ⟨-, rfl⟩ <;> rfl

theorem remaining_of_saved [Thresholds] (hvalid : f.validate = [])
    (hw : w ∈ checkSpec (saved today base role spec f)) :
    Remaining base role (saved today base role spec f).settings.kind w := by
  have hf := accepted_of_validate hvalid
  have hcpu : checkCpu (saved today base role spec f) = [] := by
    rw [checkCpu, List.append_eq_nil_iff]
    exact ⟨checkCpuField_parsed (hf.cpu _ (by simp)), checkCpuField_parsed (hf.cpu _ (by simp))⟩
  have hmemory : checkMemory (saved today base role spec f) = [] := by
    rw [checkMemory, List.append_eq_nil_iff]
    exact ⟨checkMemoryField_parsed (hf.memory _ (by simp)),
      checkMemoryField_parsed (hf.memory _ (by simp))⟩
  simp only [checkSpec, checkMaxBody_saved hf, hcpu, hmemory, checkNetwork_saved hf,
    List.append_nil, List.mem_append, or_assoc] at hw
  rcases hw with hw | hw | hw | hw | hw | hw | hw | hw | hw | hw | hw
  · rw [remaining_of_checkNames hf hw]
    exact remaining_of_isOther rfl
  · rcases remaining_of_checkMfa hf hw with rfl | rfl
    · exact remaining_of_isOther rfl
    · exact remaining_of_isOther rfl
  · exact remaining_of_isOther (isOther_of_checkType hw)
  · obtain ⟨⟨low, high, rfl⟩, hkind⟩ := remaining_of_checkReplicas hf hw
    refine ⟨rfl, fun _ _ _ _ => hkind, fun id v h => ?_⟩
    cases h
  · exact remaining_of_isOther (isOther_of_checkImage hw)
  · rw [(mem_warnIf.mp hw).2]
    exact remaining_of_isOther rfl
  · rw [(mem_warnIf.mp hw).2]
    exact remaining_of_isOther rfl
  · rw [(mem_warnIf.mp hw).2]
    exact remaining_of_isOther rfl
  · exact remaining_of_isOther (isOther_of_checkRateLimit hw)
  · obtain ⟨v, rfl, hrole, hv⟩ := remaining_of_checkVolumes hf hw
    refine ⟨rfl, fun _ _ _ h => ?_, fun id u h => ?_⟩
    · cases h
    · cases h
      exact ⟨hrole, hv⟩
  · exact remaining_of_isOther (isOther_of_checkLabels hw)

end Saved

end Editor

section Example

attribute [local instance] wholeFloats

/-- The thresholds of whole doubles. -/
@[reducible] def wholeThresholds : Thresholds where
  le := Nat.ble
  lt a b := Nat.ble (Nat.succ a) b
  zero := (0 : Nat)
  one := (1 : Nat)
  scaleUp := (1 : Nat)
  scaleDown := (0 : Nat)

attribute [local instance] wholeThresholds

end Example

end Ruscker.Validate
