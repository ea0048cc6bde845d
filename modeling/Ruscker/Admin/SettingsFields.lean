import Ruscker.Admin.SpecForm
import Ruscker.Config.Settings

/-!
# The settings on the spec form

The form shows every setting as a text: lists and maps one entry a line, numbers as
numerals, flags as a checkbox.  A submission is checked and merged onto the stored
settings.
-/

namespace Ruscker.Admin.SpecRoutes

open Numerals

/-! ## Display types and keys -/

inductive DisplayType where
  | app | talk | report | package | api | link
  deriving DecidableEq

namespace DisplayType

def key : DisplayType → Str
  | .app => "app".toList
  | .talk => "talk".toList
  | .report => "report".toList
  | .package => "package".toList
  | .api => "api".toList
  | .link => "link".toList

def parse (s : Str) : Option DisplayType :=
  [app, talk, report, package, api, link].find? fun dt => dt.key = s

@[simp] theorem parse_key (dt : DisplayType) : parse dt.key = some dt := by
  cases dt <;> rfl

def ofKind : SpecKind → DisplayType
  | .api => .api
  | .external => .link
  | .shiny => .app
  | .interactiveApp => .app

/-- The `type` property wins over the run kind. -/
def fromSpec [Floats] (s : Settings) : DisplayType :=
  ((s.templateProperties.getStr "type".toList).bind parse).getD (ofKind s.kind)

/-- Links and packages run nothing. -/
def isLink : DisplayType → Bool
  | .package => true
  | .link => true
  | _ => false

end DisplayType

def routingToKey : RoutingStrategy → Str
  | .leastConnections => "least-connections".toList
  | .roundRobin => "round-robin".toList
  | .weightedRandom => "weighted-random".toList
  | .resourceAware => "resource-aware".toList

def routingFromKey (s : Str) : Option RoutingStrategy :=
  [.leastConnections, .roundRobin, .weightedRandom, .resourceAware].find? fun r =>
    routingToKey r = s.trim

def placementToKey : Placement → Str
  | .spread => "spread".toList
  | .binPack => "bin-pack".toList

def placementFromKey (s : Str) : Option Placement :=
  [.spread, .binPack].find? fun p => placementToKey p = s.trim

/-! ## Texts and values -/

def isBlankText (s : Str) : Bool := s.trim.isEmpty

def emptyToNone (s : Str) : Option Str := if isBlankText s then none else some s.trim

def setOrRemove (tp : TemplateProperties) (key : String) (val : Str) : TemplateProperties :=
  if isBlankText val then tp.erase key.toList else tp.setStr key.toList val.trim

def parseOpt {α : Type} [Numeral α] (s : Str) : Option α := Numeral.ofText s.trim

def numberText {α : Type} [Numeral α] (n : Option α) : Str := n.elim [] Numeral.toText

def parseFloatOpt [Floats] (s : Str) : Option F64 := Floats.parse s.trim

def floatText [Floats] (x : Option F64) : Str := x.elim [] Floats.display

def checkbox (on : Bool) : Str := if on then "on".toList else []

def checkboxOpt (s : Str) : Option Bool := if isBlankText s then none else some true

def isNewline (c : Char) : Bool := c = '\n'

/-- The trimmed lines that are not blank. -/
def lines (s : Str) : List Str := Tokens.tokens isNewline isWhitespace s

def linesToVec (s : Str) : Option (List Str) :=
  if (lines s).isEmpty then none else some (lines s)

def joinLines (items : List Str) : Str := ['\n'].intercalate items

def joinList (items : List Str) : Str := ", ".toList.intercalate items

/-- One `NAME=value` line. -/
def parseEnvLine (line : Str) : Option (Str × Str) :=
  (line.splitOnce '=').bind fun p =>
    if p.1.trim.isEmpty then none else some (p.1.trim, p.2.trim)

def parseEnv (s : Str) : Option (SortedMap Str Str) :=
  let env := SortedMap.ofList ((lines s).filterMap parseEnvLine)
  if env.isEmpty then none else some env

/-! ## The form -/

structure SettingsFields where
  displayName : Str
  description : Str
  displayType : Str
  containerImage : Str
  state : Str
  subject : Str
  featured : Str
  logo : Str
  cover : Str
  accent : Str
  monogram : Str
  updated : Str
  link : Str
  seatsPerContainer : Str
  maxLifetime : Str
  heartbeatTimeout : Str
  containerWaitTime : Str
  containerCpuLimit : Str
  containerMemoryLimit : Str
  minReplicas : Str
  maxReplicas : Str
  concurrentRequestsPerReplica : Str
  volumes : Str
  apiPort : Str
  apiDocsPath : Str
  apiHealthPath : Str
  apiRateLimit : Str
  apiCors : Str
  injectBaseHref : Str
  containerPort : Str
  platform : Str
  containerNetwork : Str
  containerLifetime : Str
  stopOnLogout : Str
  containerEnv : Str
  containerCmd : Str
  dockerRegistryDomain : Str
  dockerRegistryUsername : Str
  dockerRegistryPassword : Str
  dockerRegistryCredential : Str
  requireMfa : Str
  mfaValidityDays : Str
  addDefaultHttpHeaders : Str
  identityClaimEmail : Str
  identityClaimSetor : Str
  containerCpuRequest : Str
  containerMemoryRequest : Str
  maxBodySize : Str
  scaleUpThreshold : Str
  scaleDownThreshold : Str
  scaleDownGrace : Str
  scaleDownCooldownSecs : Str
  drainTimeout : Str
  routingStrategy : Str
  placement : Str
  antiAffinity : Str

/-! ## Rendering -/

section Rendering

variable [Floats]

def propertyText (s : Settings) (key : String) : Str :=
  (s.templateProperties.getStr key.toList).getD []

def SettingsFields.fromSpec (s : Settings) : SettingsFields where
  displayName := s.displayName.getD []
  description := s.description.getD []
  displayType := (DisplayType.fromSpec s).key
  containerImage := s.containerImage.getD []
  state := s.templateProperties.state
  subject := propertyText s "subject"
  featured := checkbox s.isFeatured
  logo := propertyText s "logo"
  cover := propertyText s "cover"
  accent := propertyText s "accent"
  monogram := propertyText s "monogram"
  updated := propertyText s "updated"
  link := propertyText s "link"
  seatsPerContainer := numberText s.seatsPerContainer
  maxLifetime := numberText s.maxLifetime
  heartbeatTimeout := numberText s.heartbeatTimeout
  containerWaitTime := numberText s.containerWaitTime
  containerCpuLimit := floatText s.containerCpuLimit
  containerMemoryLimit := s.containerMemoryLimit.getD []
  minReplicas := numberText s.minReplicas
  maxReplicas := numberText s.maxReplicas
  concurrentRequestsPerReplica := numberText s.concurrentRequestsPerReplica
  volumes := s.volumes.elim [] joinLines
  apiPort := numberText (s.api.bind ApiSpec.port)
  apiDocsPath := (s.api.bind ApiSpec.docsPath).getD []
  apiHealthPath := (s.api.bind ApiSpec.healthPath).getD []
  apiRateLimit := (s.api.bind ApiSpec.rateLimit).getD []
  apiCors := checkbox ((s.api.map ApiSpec.cors).getD false)
  injectBaseHref := checkbox (s.injectBaseHref.getD true)
  containerPort := numberText s.containerPort
  platform := s.platform.getD []
  containerNetwork := s.containerNetwork.getD []
  containerLifetime := numberText s.containerLifetime
  stopOnLogout := checkbox (s.stopOnLogout.getD false)
  containerEnv := joinLines s.envPairs
  containerCmd := s.containerCmd.elim [] joinLines
  dockerRegistryDomain := s.dockerRegistryDomain.getD []
  dockerRegistryUsername := s.dockerRegistryUsername.getD []
  -- the stored password is never shown
  dockerRegistryPassword := []
  dockerRegistryCredential := s.dockerRegistryCredential.getD []
  requireMfa := checkbox (s.requireMfa.getD false)
  -- the number input stops at the maximum
  mfaValidityDays := numberText (s.mfaValidityDays.map fun days => min days maxMfaValidityDays)
  addDefaultHttpHeaders := checkbox (s.addDefaultHttpHeaders.getD false)
  identityClaimEmail := checkbox (s.effectiveIdentityClaims.contains .email)
  identityClaimSetor := checkbox (s.effectiveIdentityClaims.contains .setor)
  containerCpuRequest := floatText s.containerCpuRequest
  containerMemoryRequest := s.containerMemoryRequest.getD []
  maxBodySize := s.maxBodySize.getD []
  scaleUpThreshold := floatText s.scaleUpThreshold
  scaleDownThreshold := floatText s.scaleDownThreshold
  scaleDownGrace := numberText s.scaleDownGrace
  scaleDownCooldownSecs := numberText s.scaleDownCooldownSecs
  drainTimeout := numberText s.drainTimeout
  routingStrategy := s.routingStrategy.elim [] routingToKey
  placement := s.placement.elim [] placementToKey
  antiAffinity := checkbox (s.antiAffinity.getD false)

def SpecForm.fromSpec (spec : Spec Settings) : SpecForm SettingsFields where
  id := spec.id
  accessGroups := spec.accessGroups.elim [] joinList
  accessUsers := spec.accessUsers.elim [] joinList
  baseVersion := none
  fields := .fromSpec spec.settings

end Rendering

/-! ## Checking -/

def errorIf (bad : Bool) (key : String) : List String := if bad then [key] else []

def isValidEnvKey (k : Str) : Bool :=
  k.head?.elim false (fun c => c.isAlpha || c = '_') &&
    k.all fun c => c.isAlphanum || c = '_'

def isValidNetworkName (name : Str) : Bool :=
  name.head?.elim false Char.isAlphanum &&
    name.all fun c => c.isAlphanum || c = '_' || c = '.' || c = '-'

/-- `host:container` with an optional mode; the container path is absolute. -/
def isValidVolumeBind (v : Str) : Bool :=
  let body := (v.rsplitOnce ':').elim v fun p =>
    if p.2.trim = "ro".toList || p.2.trim = "rw".toList then p.1 else v
  (body.rsplitOnce ':').elim false fun p => !isBlankText p.1 && p.2.head? = some '/'

section Checking

variable [Floats]

def isPositiveFloat (s : Str) : Bool :=
  (parseFloatOpt s).elim false fun x => Floats.isFinite x && Floats.isPositive x

def isFraction (s : Str) : Bool :=
  (parseFloatOpt s).elim false fun x =>
    Floats.isFinite x && Floats.isPositive x && Floats.atMostOne x

def isPort (s : Str) : Bool :=
  (parseOpt s : Option U32).elim false fun n => 1 ≤ n.val && n.val ≤ 65535

namespace SettingsFields

def intFields (f : SettingsFields) : List Str :=
  [f.seatsPerContainer, f.maxLifetime, f.heartbeatTimeout, f.containerWaitTime, f.minReplicas,
    f.maxReplicas, f.concurrentRequestsPerReplica, f.apiPort, f.containerPort,
    f.containerLifetime, f.mfaValidityDays, f.scaleDownGrace, f.scaleDownCooldownSecs,
    f.drainTimeout]

def validate (f : SettingsFields) : List String :=
  errorIf (isBlankText f.displayName) "spec-form-error-name-required" ++
  -- the wait time is unsigned, and a negative one reports the same error
  errorIf ((f.intFields.any fun v => !isBlankText v && (parseOpt v : Option I64).isNone) ||
    (!isBlankText f.containerWaitTime && (parseOpt f.containerWaitTime : Option U64).isNone))
    "spec-form-error-number" ++
  errorIf ((parseOpt f.mfaValidityDays : Option I64).any fun n =>
    !(0 ≤ n.val && n.val ≤ (maxMfaValidityDays.val : Int))) "spec-form-error-mfa-days" ++
  errorIf ((parseOpt f.maxReplicas : Option I64).any fun n => n.val ≤ 0)
    "spec-form-error-max-replicas-zero" ++
  errorIf ([f.containerPort, f.apiPort].any fun p => !isBlankText p && !isPort p)
    "spec-form-error-port" ++
  errorIf ([f.containerCpuLimit, f.containerCpuRequest].any fun cpu =>
    !isBlankText cpu && !isPositiveFloat cpu) "spec-form-error-cpu" ++
  errorIf ([f.containerMemoryLimit, f.containerMemoryRequest, f.maxBodySize].any fun mem =>
    !isBlankText mem && !isValidMemorySize mem.trim) "spec-form-error-memory" ++
  errorIf ([f.scaleUpThreshold, f.scaleDownThreshold].any fun th =>
    !isBlankText th && !isFraction th) "spec-form-error-threshold" ++
  errorIf ((parseOpt f.minReplicas : Option U32).any fun low =>
    (parseOpt f.maxReplicas : Option U32).any fun high => high < low)
    "spec-form-error-replica-range" ++
  errorIf ((lines f.volumes).any fun l => !isValidVolumeBind l) "spec-form-error-volume" ++
  errorIf (!isBlankText f.containerNetwork && !isValidNetworkName f.containerNetwork.trim)
    "spec-form-error-network" ++
  errorIf ((lines f.containerEnv).any fun l =>
    (l.splitOnce '=').elim true fun p => !isValidEnvKey p.1.trim) "spec-form-error-env"

end SettingsFields

end Checking

/-! ## Merging -/

section Merging

variable [Floats]

/-- An app keeps its framework, a talk or report its run kind. -/
def mergeKind (dt : DisplayType) (base : Option SpecKindOverride) : Option SpecKindOverride :=
  match dt with
  | .app => match base with
    | some .app => some .app
    | some .streamlit => some .streamlit
    | some .dash => some .dash
    | some .voila => some .voila
    | _ => some .shiny
  | .talk => base
  | .report => base
  | .package => some .external
  | .link => some .external
  | .api => some .api

def SettingsFields.apiFilled (f : SettingsFields) : Bool :=
  !isBlankText f.apiCors || [f.apiPort, f.apiDocsPath, f.apiHealthPath, f.apiRateLimit].any
    fun s => !isBlankText s

def SettingsFields.apiSpec (f : SettingsFields) : ApiSpec where
  port := parseOpt f.apiPort
  docsPath := emptyToNone f.apiDocsPath
  healthPath := emptyToNone f.apiHealthPath
  rateLimit := emptyToNone f.apiRateLimit
  cors := !isBlankText f.apiCors

def SettingsFields.buildApi (f : SettingsFields) (dt : DisplayType) : Option ApiSpec :=
  if dt = .api || f.apiFilled then some f.apiSpec else none

/-- Unknown claims stay; the two known ones follow their checkboxes. -/
def SettingsFields.mergeClaims (f : SettingsFields) (base : List Str) : Option (List Str) :=
  let claims := base.filter (fun name => (identityClaim name).isNone) ++
    (if isBlankText f.identityClaimEmail then [] else ["email".toList]) ++
    if isBlankText f.identityClaimSetor then [] else ["setor".toList]
  if claims.isEmpty then none else some claims

def SettingsFields.mergeProperties (f : SettingsFields) (dt : DisplayType) (today : Str)
    (base : TemplateProperties) : TemplateProperties :=
  let tp := base.setStr "type".toList dt.key
  let tp := tp.setStr "state".toList f.state
  let tp := tp.setStr "updated".toList (if isBlankText f.updated then today else f.updated.trim)
  let tp := tp.erase "icon".toList
  let tp := setOrRemove tp "subject" f.subject
  let tp := setOrRemove tp "logo" f.logo
  let tp := setOrRemove tp "cover" f.cover
  let tp := setOrRemove tp "accent" f.accent
  let tp := setOrRemove tp "monogram" f.monogram
  let tp := setOrRemove tp "link" f.link
  tp.erase "locked".toList

def SettingsFields.build (today : Str) (base : Option Settings) (role : Role)
    (f : SettingsFields) : Settings :=
  let dt := (DisplayType.parse f.displayType).getD .app
  { displayName := emptyToNone f.displayName
    description := emptyToNone f.description
    featured := checkboxOpt f.featured
    containerImage := if dt.isLink then none else emptyToNone f.containerImage
    containerPort := parseOpt f.containerPort
    platform := emptyToNone f.platform
    seatsPerContainer := parseOpt f.seatsPerContainer
    maxLifetime := parseOpt f.maxLifetime
    containerLifetime := parseOpt f.containerLifetime
    heartbeatTimeout := parseOpt f.heartbeatTimeout
    containerWaitTime := parseOpt f.containerWaitTime
    stopOnLogout := checkboxOpt f.stopOnLogout
    dockerRegistryUsername := emptyToNone f.dockerRegistryUsername
    -- a blank password field keeps the stored password
    dockerRegistryPassword :=
      (emptyToNone f.dockerRegistryPassword).or (base.bind Settings.dockerRegistryPassword)
    dockerRegistryDomain := emptyToNone f.dockerRegistryDomain
    dockerRegistryCredential := emptyToNone f.dockerRegistryCredential
    containerCpuLimit := parseFloatOpt f.containerCpuLimit
    containerCpuRequest := parseFloatOpt f.containerCpuRequest
    containerMemoryLimit := emptyToNone f.containerMemoryLimit
    containerMemoryRequest := emptyToNone f.containerMemoryRequest
    maxBodySize := emptyToNone f.maxBodySize
    -- host paths are the Admin's
    volumes := if role = .admin then linesToVec f.volumes else base.bind Settings.volumes
    containerEnv := parseEnv f.containerEnv
    containerCmd := linesToVec f.containerCmd
    containerNetwork := emptyToNone f.containerNetwork
    labels := base.bind Settings.labels
    requireMfa := checkboxOpt f.requireMfa
    mfaValidityDays := parseOpt f.mfaValidityDays
    addDefaultHttpHeaders := checkboxOpt f.addDefaultHttpHeaders
    identityClaims := f.mergeClaims ((base.bind Settings.identityClaims).getD [])
    templateProperties :=
      f.mergeProperties dt today (base.elim SortedMap.empty Settings.templateProperties)
    kindOverride := mergeKind dt (base.bind Settings.kindOverride)
    api := f.buildApi dt
    minReplicas := parseOpt f.minReplicas
    maxReplicas := parseOpt f.maxReplicas
    scaleUpThreshold := parseFloatOpt f.scaleUpThreshold
    scaleDownThreshold := parseFloatOpt f.scaleDownThreshold
    scaleDownGrace := parseOpt f.scaleDownGrace
    scaleDownCooldownSecs := parseOpt f.scaleDownCooldownSecs
    drainTimeout := parseOpt f.drainTimeout
    routingStrategy := routingFromKey f.routingStrategy
    concurrentRequestsPerReplica := parseOpt f.concurrentRequestsPerReplica
    placement := placementFromKey f.placement
    antiAffinity := checkboxOpt f.antiAffinity
    injectBaseHref := if isBlankText f.injectBaseHref then some false else none }

instance : SettingsForm SettingsFields Settings where
  validate := SettingsFields.validate
  build := SettingsFields.build

end Merging

end Ruscker.Admin.SpecRoutes
