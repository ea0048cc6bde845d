import Ruscker.Config.Settings
import Ruscker.Db.Credentials

/-!
# Starting a container

A visitor and the scaler each assemble the request for a new container.  Both read the
same settings and resolve the same secrets; only the scaler puts the public path in.
-/

namespace Ruscker

open Matching

/-! ## What the spec resolves to -/

namespace Settings

variable [Floats] (s : Settings)

def effectivePlacement : Placement := s.placement.getD .spread

def effectiveAntiAffinity : Bool := s.antiAffinity.getD false

/-- Trimmed keys; a blank one is dropped. -/
def effectiveLabels : List (Str × Str) :=
  s.labels.elim [] fun labels => labels.entries.filterMap fun (key, value) =>
    if key.trim.isEmpty then none else some (key.trim, value)

/-- The value of a `NAME=value` pair, resolved. -/
def resolvePair (env : Environment) (pair : Str) : Except EnvError Str :=
  match pair.splitOnce '=' with
  | none => .ok pair
  | some (name, value) => (interpolateValue env value).map fun v => name ++ '=' :: v

def resolvedEnvPairs (env : Environment) : Except EnvError (List Str) :=
  s.envPairs.mapM (resolvePair env)

end Settings

structure ResourceLimits [Floats] where
  memoryBytes : Option Int
  memoryReservationBytes : Option Int
  cpuFraction : Option F64
  deriving DecidableEq

def ResourceLimits.empty [Floats] : ResourceLimits :=
  { memoryBytes := none, memoryReservationBytes := none, cpuFraction := none }

def limitsFromSpec [Floats] (spec : Spec Settings) : ResourceLimits :=
  { memoryBytes := spec.settings.effectiveMemoryLimitBytes
    memoryReservationBytes := spec.settings.effectiveMemoryRequestBytes
    cpuFraction := spec.settings.containerCpuLimit.filter fun c =>
      Floats.isFinite c && Floats.isPositive c }

/-- The value of an optional field, unless it is the empty text. -/
def nonEmpty (field : Option Str) : Option Str := field.filter fun s => !s.isEmpty

theorem nonEmpty_eq (field : Option Str) :
    nonEmpty field = if field.getD [] = [] then none else some (field.getD []) := by
  cases field with
  | none => rfl
  | some s => cases s <;> rfl

/-- The inline login; half of one is no login. -/
def credsFromSpec [Floats] (env : Environment) (spec : Spec Settings) :
    Except EnvError (Option RegistryCredentials) :=
  match nonEmpty spec.settings.dockerRegistryUsername,
    nonEmpty spec.settings.dockerRegistryPassword with
  | some username, some p =>
    (interpolateValue env p).map fun password => some
      { username, password
        serverAddress := nonEmpty spec.settings.dockerRegistryDomain
        credentialName := none }
  | _, _ => .ok none

/-! ## The state a spawn reads -/

/-- The part of the application state a spawn reads; a lookup in the store can fail. -/
structure SpawnState [Aead] where
  db : Option (Str → Except CredentialError (Option CredentialRow))
  masterKey : MasterKey
  env : Environment
  basePath : Str

/-- The stored login a spec names, when the store and the key are there. -/
def storedCreds [Aead] (state : SpawnState) (name : Str) : Option RegistryCredentials :=
  match state.db, state.masterKey.isConfigured with
  | some fetch, true =>
    match (fetch name).bind (Credentials.resolve state.env state.masterKey name) with
    | .ok creds => creds
    | .error _ => none
  | _, _ => none

/-- The stored login first; the inline fields where there is none. -/
def resolveCreds [Aead] [Floats] (state : SpawnState) (spec : Spec Settings) :
    Except EnvError (Option RegistryCredentials) :=
  match (nonEmpty spec.settings.dockerRegistryCredential).bind (storedCreds state) with
  | some creds => .ok (some creds)
  | none => credsFromSpec state.env spec

def mountPrefix (basePath routePrefix specId : Str) : Str := basePath ++ routePrefix ++ specId

def appPrefix : Str := "/app/".toList

def apiPrefix : Str := "/api/".toList

def publicPathToken : Str := "#\x7bpublicPath\x7d".toList

theorem publicPathToken_ne_nil : publicPathToken ≠ [] := by decide

def publicPath [Floats] (basePath : Str) (spec : Spec Settings) : Str :=
  let routePrefix := match spec.settings.kind with
    | .api => apiPrefix
    | _ => appPrefix
  mountPrefix basePath routePrefix spec.id ++ ['/']

def putPublicPath (path text : Str) : Str :=
  if publicPathToken <:+: text then replace publicPathToken_ne_nil path text else text

/-- The token replaced in every environment pair and every argument. -/
def applyPublicPath (env : List Str) (cmd : Option (List Str)) (path : Str) :
    List Str × Option (List Str) :=
  (env.map (putPublicPath path), cmd.map (List.map (putPublicPath path)))

/-! ## The request -/

structure SpawnRequest [Floats] where
  specId : Str
  image : Str
  innerPort : Option U16
  creds : Option RegistryCredentials
  limits : ResourceLimits
  volumes : List Str
  placement : Placement
  antiAffinity : Bool
  platform : Option Str
  env : List Str
  cmd : Option (List Str)
  network : Option Str
  labels : List (Str × Str)
  readinessTimeoutMs : Option U64
  jobTimeoutSecs : Option U64
  deriving DecidableEq

namespace SpawnRequest

variable [Floats]

def new (specId image : Str) : SpawnRequest :=
  { specId, image, innerPort := none, creds := none, limits := .empty, volumes := []
    placement := .spread, antiAffinity := false, platform := none, env := [], cmd := none
    network := none, labels := [], readinessTimeoutMs := none, jobTimeoutSecs := none }

variable (req : SpawnRequest)

def withLimits (limits : ResourceLimits) : SpawnRequest := { req with limits }
def withVolumes (volumes : List Str) : SpawnRequest := { req with volumes }
def withEnv (env : List Str) : SpawnRequest := { req with env }
def withPlacement (placement : Placement) : SpawnRequest := { req with placement }
def withAntiAffinity (antiAffinity : Bool) : SpawnRequest := { req with antiAffinity }
def withPort (port : U16) : SpawnRequest := { req with innerPort := some port }
def withPlatform (platform : Str) : SpawnRequest := { req with platform := some platform }
def withCmd (cmd : List Str) : SpawnRequest := { req with cmd := some cmd }
def withNetwork (network : Str) : SpawnRequest := { req with network := some network }
def withLabels (labels : List (Str × Str)) : SpawnRequest := { req with labels }
def withCreds (creds : RegistryCredentials) : SpawnRequest := { req with creds := some creds }

/-- Zero inherits the default. -/
def withReadinessTimeoutMs (millis : U64) : SpawnRequest :=
  { req with readinessTimeoutMs := if 0 < millis then some millis else none }

/-- A builder step taken when the value is there. -/
def withSome {α : Type} (value : Option α) (step : SpawnRequest → α → SpawnRequest) :
    SpawnRequest :=
  value.elim req (step req)

/-- Labels are only set when there are some. -/
def withEffectiveLabels (labels : List (Str × Str)) : SpawnRequest :=
  if labels.isEmpty then req else req.withLabels labels

variable {req}

/-- A step that leaves a field alone leaves it alone when it is skipped, too. -/
theorem withSome_keeps {α β : Type} (field : SpawnRequest → β) {value : Option α} {b : β}
    {step : SpawnRequest → α → SpawnRequest} (hb : field req = b)
    (h : ∀ r a, field (step r a) = field r) : field (req.withSome value step) = b := by
  cases value with
  | none => exact hb
  | some a => exact (h req a).trans hb

theorem withEffectiveLabels_keeps {β : Type} (field : SpawnRequest → β)
    {labels : List (Str × Str)} {b : β} (hb : field req = b)
    (h : field (req.withLabels labels) = field req) :
    field (req.withEffectiveLabels labels) = b := by
  unfold withEffectiveLabels
  split
  · exact hb
  · exact h.trans hb

theorem withSome_cmd {cmd : Option (List Str)} (h : req.cmd = none) :
    (req.withSome cmd withCmd).cmd = cmd := by
  cases cmd with
  | none => exact h
  | some cmd => rfl

end SpawnRequest

inductive SpawnError where
  | noImage
  | creds (e : EnvError)
  | containerEnv (e : EnvError)
  deriving DecidableEq

section Builders

variable [Floats]

/-- The builder chain both spawn paths run. -/
def assembleRequest (spec : Spec Settings) (image : Str) (creds : Option RegistryCredentials)
    (env : List Str) (cmd : Option (List Str)) : SpawnRequest :=
  (SpawnRequest.new spec.id image).withLimits (limitsFromSpec spec)
    |>.withVolumes (spec.settings.volumes.getD [])
    |>.withEnv env
    |>.withPlacement spec.settings.effectivePlacement
    |>.withAntiAffinity spec.settings.effectiveAntiAffinity
    |>.withSome spec.settings.containerWaitTime SpawnRequest.withReadinessTimeoutMs
    |>.withSome spec.settings.effectiveInnerPort SpawnRequest.withPort
    |>.withSome spec.settings.platform SpawnRequest.withPlatform
    |>.withSome cmd SpawnRequest.withCmd
    |>.withSome spec.settings.effectiveContainerNetwork SpawnRequest.withNetwork
    |>.withEffectiveLabels spec.settings.effectiveLabels
    |>.withSome creds SpawnRequest.withCreds

section Assembled

variable {spec : Spec Settings} {image : Str} {creds : Option RegistryCredentials}
  {env env' : List Str} {cmd cmd' : Option (List Str)}

open SpawnRequest

theorem assembleRequest_env : (assembleRequest spec image creds env cmd).env = env := by
  unfold assembleRequest
  refine withSome_keeps SpawnRequest.env ?_ fun _ _ => rfl
  refine withEffectiveLabels_keeps SpawnRequest.env ?_ rfl
  refine withSome_keeps SpawnRequest.env ?_ fun _ _ => rfl
  refine withSome_keeps SpawnRequest.env ?_ fun _ _ => rfl
  refine withSome_keeps SpawnRequest.env ?_ fun _ _ => rfl
  refine withSome_keeps SpawnRequest.env ?_ fun _ _ => rfl
  exact withSome_keeps SpawnRequest.env rfl fun _ _ => rfl

theorem assembleRequest_cmd : (assembleRequest spec image creds env cmd).cmd = cmd := by
  unfold assembleRequest
  refine withSome_keeps SpawnRequest.cmd ?_ fun _ _ => rfl
  refine withEffectiveLabels_keeps SpawnRequest.cmd ?_ rfl
  refine withSome_keeps SpawnRequest.cmd ?_ fun _ _ => rfl
  refine withSome_cmd ?_
  refine withSome_keeps SpawnRequest.cmd ?_ fun _ _ => rfl
  refine withSome_keeps SpawnRequest.cmd ?_ fun _ _ => rfl
  exact withSome_keeps SpawnRequest.cmd rfl fun _ _ => rfl

theorem assembleRequest_inj :
    assembleRequest spec image creds env cmd = assembleRequest spec image creds env' cmd' ↔
      env = env' ∧ cmd = cmd' := by
  constructor
  · intro h
    have henv := congrArg SpawnRequest.env h
    have hcmd := congrArg SpawnRequest.cmd h
    rw [assembleRequest_env, assembleRequest_env] at henv
    rw [assembleRequest_cmd, assembleRequest_cmd] at hcmd
    exact ⟨henv, hcmd⟩
  · rintro ⟨rfl, rfl⟩
    rfl

end Assembled

variable [Aead]

/-- What both spawn paths read before they build: image, login and environment. -/
def spawnInputs (state : SpawnState) (spec : Spec Settings) :
    Except SpawnError (Str × Option RegistryCredentials × List Str) :=
  match spec.settings.containerImage with
  | none => .error .noImage
  | some image =>
    match resolveCreds state spec with
    | .error e => .error (.creds e)
    | .ok creds =>
      match spec.settings.resolvedEnvPairs state.env with
      | .error e => .error (.containerEnv e)
      | .ok env => .ok (image, creds, env)

/-- The request of `pick_or_spawn`. -/
def pickOrSpawnRequest (state : SpawnState) (spec : Spec Settings) :
    Except SpawnError SpawnRequest :=
  (spawnInputs state spec).map fun (image, creds, env) =>
    assembleRequest spec image creds env spec.settings.containerCmd

/-- The request of `spawn_one`. -/
def spawnOneRequest (state : SpawnState) (spec : Spec Settings) :
    Except SpawnError SpawnRequest :=
  (spawnInputs state spec).map fun (image, creds, env) =>
    let (env, cmd) := applyPublicPath env spec.settings.containerCmd
      (publicPath state.basePath spec)
    assembleRequest spec image creds env cmd

theorem spawnInputs_env {state : SpawnState} {spec : Spec Settings} {image : Str}
    {creds : Option RegistryCredentials} {env : List Str}
    (h : spawnInputs state spec = .ok (image, creds, env)) :
    spec.settings.resolvedEnvPairs state.env = .ok env := by
  unfold spawnInputs at h
  split at h
  · cases h
  · split at h
    · cases h
    · split at h
      · cases h
      · rename_i henv
        cases h
        exact henv

end Builders

/-! ## Where the two requests agree -/

def TokenFree (texts : List Str) : Prop := ∀ text ∈ texts, ¬ publicPathToken <:+: text

instance (texts : List Str) : Decidable (TokenFree texts) := by
  unfold TokenFree; exact inferInstance

theorem putPublicPath_eq_self_iff {path text : Str} (h : path ≠ publicPathToken) :
    putPublicPath path text = text ↔ ¬ publicPathToken <:+: text := by
  unfold putPublicPath
  split
  · exact replace_eq_self_iff publicPathToken_ne_nil h
  · rename_i htext
    exact iff_of_true rfl htext

theorem map_putPublicPath_eq_self_iff {path : Str} {texts : List Str}
    (h : path ≠ publicPathToken) :
    texts.map (putPublicPath path) = texts ↔ TokenFree texts := by
  induction texts with
  | nil => simp [TokenFree]
  | cons text texts ih =>
    rw [List.map_cons, List.cons.injEq, ih, putPublicPath_eq_self_iff h]
    simp [TokenFree]

theorem applyPublicPath_eq_self_iff {env : List Str} {cmd : Option (List Str)} {path : Str}
    (h : path ≠ publicPathToken) :
    applyPublicPath env cmd path = (env, cmd) ↔ TokenFree env ∧ TokenFree (cmd.getD []) := by
  rw [applyPublicPath, Prod.mk.injEq, map_putPublicPath_eq_self_iff h]
  cases cmd with
  | none => simp [TokenFree]
  | some cmd =>
    rw [Option.map_some, Option.some.injEq, map_putPublicPath_eq_self_iff h]
    rfl

section Agreement

variable [Floats]

/-- A public path ends with a slash. -/
theorem publicPath_ne_token (basePath : Str) (spec : Spec Settings) :
    publicPath basePath spec ≠ publicPathToken := by
  intro h
  have hlast := congrArg List.getLast? h
  rw [publicPath, List.getLast?_concat] at hlast
  exact absurd hlast (by decide)

/-- Neither an argument nor a resolved environment pair asks for the public path. -/
def PublicPathUnused (env : Environment) (spec : Spec Settings) : Prop :=
  (∀ pairs, spec.settings.resolvedEnvPairs env = .ok pairs → TokenFree pairs) ∧
    TokenFree (spec.settings.containerCmd.getD [])

variable [Aead]

/-- The request a visitor triggers is the scaler's unless the public path is asked for. -/
theorem spawnOneRequest_eq_iff {state : SpawnState} {spec : Spec Settings} {req : SpawnRequest}
    (h : pickOrSpawnRequest state spec = .ok req) :
    spawnOneRequest state spec = .ok req ↔ PublicPathUnused state.env spec := by
  unfold pickOrSpawnRequest at h
  cases hin : spawnInputs state spec with
  | error e =>
    rw [hin] at h
    cases h
  | ok inputs =>
    obtain ⟨image, creds, env⟩ := inputs
    have henv := spawnInputs_env hin
    rw [hin] at h
    cases h
    have hpath := publicPath_ne_token state.basePath spec
    have happly : applyPublicPath env spec.settings.containerCmd (publicPath state.basePath spec)
        = (env, spec.settings.containerCmd) ↔ _ := applyPublicPath_eq_self_iff hpath
    rw [Prod.ext_iff] at happly
    unfold spawnOneRequest PublicPathUnused
    rw [hin, henv]
    simp only [Except.map, Except.ok.injEq, assembleRequest_inj, happly]
    simp

end Agreement

/-! ## Two specs behind a base path -/

section Example

attribute [local instance] wholeFloats

/-- A cipher that leaves the text as it is, for runs that store no secret. -/
@[reducible] def openAead : Aead where
  Key := Unit
  encrypt _ _ plaintext := some plaintext
  decrypt _ _ ciphertext := some ciphertext
  decrypt_encrypt h := h.symm

attribute [local instance] openAead

def boxState : SpawnState :=
  { db := none, masterKey := none, env := fun _ => .notPresent, basePath := "/box".toList }

def labSpec (arg : String) : Spec Settings :=
  { id := "lab".toList, accessGroups := none, accessUsers := none
    settings := { bareSettings "Lab" SortedMap.empty with
      containerCmd := some [arg.toList] } }

def labRequest (arg : String) : SpawnRequest :=
  { SpawnRequest.new "lab".toList "r:1".toList with cmd := some [arg.toList] }

theorem spawnOneRequest_lab :
    spawnOneRequest boxState (labSpec "start") = .ok (labRequest "start") ↔
      PublicPathUnused boxState.env (labSpec "start") :=
  spawnOneRequest_eq_iff (by decide)

theorem spawnOneRequest_lab_ne :
    pickOrSpawnRequest boxState (labSpec "--base=#\x7bpublicPath\x7d") =
        .ok (labRequest "--base=#\x7bpublicPath\x7d") ∧
      spawnOneRequest boxState (labSpec "--base=#\x7bpublicPath\x7d") =
        .ok (labRequest "--base=/box/app/lab/") ∧
      labRequest "--base=/box/app/lab/" ≠ labRequest "--base=#\x7bpublicPath\x7d" := by
  refine ⟨?_, ?_, ?_⟩
  · decide +kernel
  · decide +kernel
  · decide +kernel

end Example

end Ruscker
