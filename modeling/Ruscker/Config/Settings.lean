import Mathlib.Order.Fin.Basic
import Ruscker.Config.Spec
import Ruscker.Lib.Numeral
import Ruscker.Lib.SortedMap

/-!
# The settings of a spec

Everything a spec holds beside its id and access lists, and how the runtime resolves
it.  Doubles are only read, written and compared, so they enter as a class.
-/

namespace Ruscker

open Numerals

abbrev U16 := Fin (2 ^ 16)
abbrev U32 := Fin (2 ^ 32)
abbrev U64 := Fin (2 ^ 64)
abbrev I64 := Ranged (-2 ^ 63) (2 ^ 63)

/-- IEEE doubles with their texts.  Only a finite one is known to read back. -/
class Floats where
  F64 : Type
  decEq : DecidableEq F64
  display : F64 → Str
  parse : Str → Option F64
  isFinite : F64 → Bool
  isPositive : F64 → Bool
  isNegative : F64 → Bool
  atMostOne : F64 → Bool
  /-- the product with a unit, cast to an integer -/
  scale : F64 → Nat → Int
  trim_display : ∀ x, (display x).trim = display x
  display_ne_nil : ∀ x, display x ≠ []
  parse_nil : parse [] = none
  parse_display : ∀ x y, parse (display x) = some y → isFinite y = true → y = x

export Floats (F64)

instance [Floats] : DecidableEq F64 := Floats.decEq

/-- A property is read as a text or only carried along, as its serialised form. -/
inductive YamlValue where
  | string (s : Str)
  | other (serialized : Str)
  deriving DecidableEq

def YamlValue.asStr : YamlValue → Option Str
  | .string s => some s
  | .other _ => none

abbrev TemplateProperties := SortedMap Str YamlValue

namespace TemplateProperties

def getStr (tp : TemplateProperties) (key : Str) : Option Str :=
  (tp.lookup key).bind YamlValue.asStr

def setStr (tp : TemplateProperties) (key value : Str) : TemplateProperties :=
  tp.insert key (.string value)

theorem getStr_setStr (tp : TemplateProperties) (key key' value : Str) :
    (tp.setStr key value).getStr key' = if key' = key then some value else tp.getStr key' := by
  unfold getStr setStr
  rw [SortedMap.lookup_insert]
  split <;> rfl

theorem getStr_erase (tp : TemplateProperties) (key key' : Str) :
    TemplateProperties.getStr (tp.erase key) key' = if key' = key then none else tp.getStr key' := by
  unfold getStr
  rw [SortedMap.lookup_erase]
  split <;> rfl

def state (tp : TemplateProperties) : Str := (tp.getStr "state".toList).getD "active".toList

def isActive (tp : TemplateProperties) : Bool := tp.state = "active".toList

end TemplateProperties

inductive SpecKindOverride where
  | shiny | app | streamlit | dash | voila | api | external
  deriving DecidableEq

inductive SpecKind where
  | shiny | interactiveApp | api | external
  deriving DecidableEq

/-- The explicit `type` field wins over the presence of an image. -/
def specKind : Option SpecKindOverride → (hasImage : Bool) → SpecKind
  | some .api, _ => .api
  | some .shiny, _ => .shiny
  | some .app, _ => .interactiveApp
  | some .streamlit, _ => .interactiveApp
  | some .dash, _ => .interactiveApp
  | some .voila, _ => .interactiveApp
  | some .external, _ => .external
  | none, true => .shiny
  | none, false => .external

/-- The well-known port of a declared framework. -/
def frameworkPort : Option SpecKindOverride → Option U16
  | some .streamlit => some 8501
  | some .dash => some 8050
  | some .voila => some 8866
  | _ => none

inductive RoutingStrategy where
  | leastConnections | roundRobin | weightedRandom | resourceAware
  deriving DecidableEq

inductive Placement where
  | spread | binPack
  deriving DecidableEq

inductive IdentityClaim where
  | email | setor
  deriving DecidableEq

def identityClaim (name : Str) : Option IdentityClaim :=
  if name.trim = "email".toList then some .email
  else if name.trim = "setor".toList then some .setor
  else none

/-- Unknown names are ignored and a repeated one counts once. -/
def pushClaim (claims : List IdentityClaim) (name : Str) : List IdentityClaim :=
  (identityClaim name).elim claims fun c =>
    if claims.contains c then claims else claims ++ [c]

theorem mem_pushClaim {claims : List IdentityClaim} {name : Str} {c : IdentityClaim} :
    c ∈ pushClaim claims name ↔ c ∈ claims ∨ identityClaim name = some c := by
  unfold pushClaim
  cases identityClaim name with
  | none => simp
  | some d =>
    by_cases hd : d ∈ claims
    · simp only [Option.elim_some, List.contains_iff_mem, hd, if_true, Option.some.injEq]
      exact ⟨.inl, fun h => h.elim id fun heq => heq ▸ hd⟩
    · simp [hd, eq_comm]

theorem mem_foldl_pushClaim {names : List Str} {claims : List IdentityClaim}
    {c : IdentityClaim} :
    c ∈ names.foldl pushClaim claims ↔
      c ∈ claims ∨ ∃ name ∈ names, identityClaim name = some c := by
  induction names generalizing claims with
  | nil => simp
  | cons name names ih => simp [ih, mem_pushClaim, or_assoc]

structure ApiSpec where
  port : Option U16
  docsPath : Option Str
  healthPath : Option Str
  rateLimit : Option Str
  cors : Bool
  deriving DecidableEq

structure Settings [Floats] where
  displayName : Option Str
  description : Option Str
  featured : Option Bool
  containerImage : Option Str
  containerPort : Option U16
  platform : Option Str
  seatsPerContainer : Option U32
  maxLifetime : Option U64
  containerLifetime : Option U64
  heartbeatTimeout : Option I64
  containerWaitTime : Option U64
  stopOnLogout : Option Bool
  dockerRegistryUsername : Option Str
  dockerRegistryPassword : Option Str
  dockerRegistryDomain : Option Str
  dockerRegistryCredential : Option Str
  containerCpuLimit : Option F64
  containerCpuRequest : Option F64
  containerMemoryLimit : Option Str
  containerMemoryRequest : Option Str
  maxBodySize : Option Str
  volumes : Option (List Str)
  containerEnv : Option (SortedMap Str Str)
  containerCmd : Option (List Str)
  containerNetwork : Option Str
  labels : Option (SortedMap Str Str)
  requireMfa : Option Bool
  mfaValidityDays : Option U16
  addDefaultHttpHeaders : Option Bool
  identityClaims : Option (List Str)
  templateProperties : TemplateProperties
  kindOverride : Option SpecKindOverride
  api : Option ApiSpec
  minReplicas : Option U32
  maxReplicas : Option U32
  scaleUpThreshold : Option F64
  scaleDownThreshold : Option F64
  scaleDownGrace : Option U64
  scaleDownCooldownSecs : Option U64
  drainTimeout : Option U64
  routingStrategy : Option RoutingStrategy
  concurrentRequestsPerReplica : Option U32
  placement : Option Placement
  antiAffinity : Option Bool
  injectBaseHref : Option Bool
  deriving DecidableEq

def defaultMaxReplicas : U32 := 5
def defaultSeatsPerApp : U32 := 10
def defaultMfaValidityDays : U16 := 7
def maxMfaValidityDays : U16 := 30
def defaultScaleDownCooldownSecs : U64 := ⟨60, by decide⟩

/-- `as i64`. -/
def asI64 (n : U64) : Int := if n.val < 2 ^ 63 then n.val else n.val - 2 ^ 64

/-- The end of a saturating operation on `i64`. -/
def saturateI64 (n : Int) : Int := max (-2 ^ 63) (min n (2 ^ 63 - 1))

/-! ## Sizes and rates -/

/-- The multiplier of a size and whether its last character is a suffix. -/
def memoryUnit (last : Char) : Option (Bool × Nat) :=
  match last.toLower with
  | 'b' => some (true, 1)
  | 'k' => some (true, 1024)
  | 'm' => some (true, 1024 ^ 2)
  | 'g' => some (true, 1024 ^ 3)
  | c => if 'a' ≤ c && c ≤ 'z' then none else some (false, 1)

def parseMemoryString [Floats] (s : Str) : Option Int :=
  let s := s.trim
  s.getLast?.bind fun last => (memoryUnit last).bind fun unit =>
    (Floats.parse (Str.trim (if unit.1 then s.dropLast else s))).bind fun n =>
      if !Floats.isFinite n || Floats.isNegative n then none
      else (some (Floats.scale n unit.2)).filter fun bytes => 0 ≤ bytes

def isValidMemorySize [Floats] (s : Str) : Bool := (parseMemoryString s).isSome

structure RatePolicy where
  max : U32
  windowSecs : Nat
  deriving DecidableEq

def rateWindow (unit : Str) : Option Nat :=
  if ["s", "sec", "secs", "second", "seconds"].any fun u => unit = u.toList then some 1
  else if ["m", "min", "mins", "minute", "minutes"].any fun u => unit = u.toList then some 60
  else if ["h", "hr", "hrs", "hour", "hours"].any fun u => unit = u.toList then some 3600
  else none

def parseRateLimit (raw : Str) : Option RatePolicy :=
  (raw.splitOnce '/').bind fun p => (Numeral.ofText p.1.trim : Option U32).bind fun max =>
    if max = 0 then none else
      (rateWindow (p.2.trim.map Char.toLower)).map fun windowSecs => { max, windowSecs }

/-! ## What the runtime resolves -/

namespace Settings

variable [Floats] (s : Settings)

def isFeatured : Bool := s.featured.getD false

def kind : SpecKind := specKind s.kindOverride s.containerImage.isSome

def effectiveSeats : U32 :=
  s.seatsPerContainer.getD <| match s.kind with
    | .api => 100
    | .shiny => defaultSeatsPerApp
    | .interactiveApp => defaultSeatsPerApp
    | .external => 0

def effectiveMinReplicas : U32 := s.minReplicas.getD 0

def effectiveMaxReplicas : U32 :=
  s.maxReplicas.getD <| match s.kind with
    | .external => 0
    | _ => max s.effectiveMinReplicas defaultMaxReplicas

def effectiveRouting : RoutingStrategy :=
  s.routingStrategy.getD <| match s.kind with
    | .api => .roundRobin
    | _ => .leastConnections

/-- The hard cap on the age of a container. -/
def effectiveMaxLifetimeSecs : Option Int := s.maxLifetime.map fun m => saturateI64 (asI64 m * 60)

/-- The soft cap, which waits for the sessions to leave. -/
def effectiveContainerLifetimeSecs : Option Int :=
  s.containerLifetime.map fun m => saturateI64 (asI64 m * 60)

def effectiveDrainTimeoutSecs : Int := s.drainTimeout.elim 60 asI64

def effectiveScaleDownCooldownSecs : U64 :=
  s.scaleDownCooldownSecs.getD defaultScaleDownCooldownSecs

def effectiveStopOnLogout : Bool := s.stopOnLogout.getD false

def effectiveConcurrentRequestsPerReplica : U32 := s.concurrentRequestsPerReplica.getD 100

def effectiveInnerPort : Option U16 :=
  ((s.containerPort.or (s.api.bind ApiSpec.port)).or (frameworkPort s.kindOverride)).or <|
    match s.kind with
    | .api => some 8080
    | _ => none

def effectiveIdentityClaims : List IdentityClaim := (s.identityClaims.getD []).foldl pushClaim []

def effectiveMfaValidityDays : U16 :=
  min (s.mfaValidityDays.getD defaultMfaValidityDays) maxMfaValidityDays

def effectiveContainerNetwork : Option Str :=
  (s.containerNetwork.map Str.trim).filter fun network => !network.isEmpty

def effectiveMemoryLimitBytes : Option Int := s.containerMemoryLimit.bind parseMemoryString

def effectiveMemoryRequestBytes : Option Int := s.containerMemoryRequest.bind parseMemoryString

def effectiveMaxBodyBytes (global : Option Int) : Option Int :=
  (s.maxBodySize.bind parseMemoryString).or global

def ratePolicy : Option RatePolicy := (s.api.bind ApiSpec.rateLimit).bind parseRateLimit

/-- `NAME=value` lines in the order of the names. -/
def envPairs : List Str :=
  s.containerEnv.elim [] fun env => env.entries.map fun e => e.1 ++ '=' :: e.2

theorem mem_effectiveIdentityClaims {c : IdentityClaim} :
    c ∈ s.effectiveIdentityClaims ↔
      ∃ name ∈ s.identityClaims.getD [], identityClaim name = some c := by
  simp [effectiveIdentityClaims, mem_foldl_pushClaim]

end Settings

def Spec.withProperties [Floats] (spec : Spec Settings) (tp : TemplateProperties) : Spec Settings :=
  { spec with settings := { spec.settings with templateProperties := tp } }

/-- A spec with a name, an image and its properties. -/
def bareSettings [Floats] (name : String) (tp : TemplateProperties) : Settings :=
  { displayName := some name.toList, description := none, featured := none,
    containerImage := some "r:1".toList, containerPort := none, platform := none,
    seatsPerContainer := none, maxLifetime := none, containerLifetime := none,
    heartbeatTimeout := none, containerWaitTime := none, stopOnLogout := none,
    dockerRegistryUsername := none, dockerRegistryPassword := none,
    dockerRegistryDomain := none, dockerRegistryCredential := none, containerCpuLimit := none,
    containerCpuRequest := none, containerMemoryLimit := none, containerMemoryRequest := none,
    maxBodySize := none, volumes := none, containerEnv := none, containerCmd := none,
    containerNetwork := none, labels := none, requireMfa := none, mfaValidityDays := none,
    addDefaultHttpHeaders := none, identityClaims := none, templateProperties := tp,
    kindOverride := none, api := none, minReplicas := none, maxReplicas := none,
    scaleUpThreshold := none, scaleDownThreshold := none, scaleDownGrace := none,
    scaleDownCooldownSecs := none, drainTimeout := none, routingStrategy := none,
    concurrentRequestsPerReplica := none, placement := none, antiAffinity := none,
    injectBaseHref := none }

/-- Whole doubles, whose texts are their numerals. -/
@[reducible] def wholeFloats : Floats where
  F64 := Nat
  decEq := inferInstance
  display n := Nat.toDigits 10 n
  parse := parseNat
  isFinite _ := true
  isPositive n := 0 < n
  isNegative _ := false
  atMostOne n := n ≤ 1
  scale n unit := n * unit
  trim_display n := Tokens.trim_eq_self fun _ hc =>
    isWhitespace_of_isDigit (Nat.isDigit_of_mem_toDigits (by decide) (by decide) hc)
  display_ne_nil _ := Nat.toDigits_ne_nil
  parse_nil := rfl
  parse_display x y h _ := by
    rw [parseNat_toDigits] at h
    exact (Option.some.inj h).symm

end Ruscker
