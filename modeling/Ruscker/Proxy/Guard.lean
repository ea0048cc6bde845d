import Ruscker.Auth.Role
import Ruscker.Mfa.Store
import Ruscker.Proxy.Forward
import Ruscker.Proxy.Spawn
import Ruscker.Routes.Redirects

/-!
# The way of a proxied request

`forward` with every exit in its order: the bounce to an external link, the policies of the
API, the access guard, the second factor, the waiting page, the replica, and the container
behind it.  What the other components answer on the way is a parameter; what is asked of
them, and whether at all, is what the request does.
-/

namespace Ruscker.Proxy

open Ruscker.Mfa Numerals

section Forward

variable [Floats]

/-! ## Texts of a response -/

/-- The bytes of a text in UTF-8. -/
def utf8 (s : Str) : Bytes := s.flatMap String.utf8EncodeChar

/-- The text of a header value that is visible ASCII. -/
def headerText (v : HeaderValue) : Option Str :=
  v.toStr.map fun s => s.map fun b => Char.ofNat b.toNat

def contentType : Bytes := bytes "content-type"

def setHeader (headers : HeaderMap) (name : String) (value : Str) : HeaderMap :=
  (HeaderValue.fromStr (utf8 value)).elim headers (headers.insert (bytes name))

def textResponse (status : Nat) (body : Str) : Response where
  status
  headers := setHeader [] "content-type" "text/plain; charset=utf-8".toList
  body := utf8 body

/-- `Redirect::to`; a location that is no header value is an error. -/
def redirect (target : Str) : Response :=
  match HeaderValue.fromBytes (utf8 target) with
  | some v => ⟨303, [(bytes "location", v)], []⟩
  | none => textResponse 500 "failed to parse header value".toList

def uncached (media : String) (body : Str) : Response where
  status := 200
  headers := setHeader (setHeader [] "content-type" media.toList) "cache-control" "no-store".toList
  body := utf8 body

/-! ## Requests and visitors -/

/-- The two route families. -/
inductive Family where
  | app
  | api
  deriving DecidableEq

def Family.route : Family → Str
  | .app => appPrefix
  | .api => apiPrefix

/-- A session of the panel; that of the break-glass token has no actor. -/
structure AdminSession where
  actor : Option Str
  role : Role
  deriving DecidableEq

def AdminSession.isBreakGlass (s : AdminSession) : Bool := s.role = .admin && s.actor.isNone

/-- A request under one of the families, without the mount prefix. -/
structure Visit where
  family : Family
  specId : Str
  upstreamPath : Str
  method : Method
  version : Version
  path : Str
  query : Option Str
  headers : HeaderMap
  body : Body
  peer : Option Str
  upgrade : Bool
  session : Option AdminSession
  /-- the values of the panel's session cookie and of the device cookie -/
  sessionCookie : Option Str
  deviceCookie : Option Str

namespace Visit

variable (v : Visit)

def actor : Option Str := v.session.bind AdminSession.actor

def isAdmin : Bool := v.session.elim false fun s => s.role = .admin

def isBreakGlass : Bool := v.session.elim false AdminSession.isBreakGlass

def pathAndQuery : Str := v.path ++ v.query.elim [] ('?' :: ·)

def header (name : String) : Option Str := (v.headers.get (bytes name)).bind headerText

end Visit

/-! ## What the other components answer -/

/-- A user's row, as far as it is disclosed. -/
structure CachedIdentity where
  groups : List Str
  email : Option Str
  setor : Option Str
  deriving DecidableEq

structure Identity where
  username : Str
  cached : CachedIdentity

def claimPair (identity : Identity) : IdentityClaim → Str × Option Str
  | .email => ("X-Ruscker-User-Email".toList, identity.cached.email)
  | .setor => ("X-Ruscker-User-Setor".toList, identity.cached.setor)

def Identity.headerPairs (identity : Identity) (addDefault : Bool) (claims : List IdentityClaim) :
    List (Str × Str) :=
  (if addDefault then
    [("X-SP-UserId".toList, identity.username),
      ("X-SP-UserGroups".toList, [','].intercalate identity.cached.groups)]
  else []) ++
  claims.filterMap fun claim =>
    ((claimPair identity claim).2.filter fun value => !value.trim.isEmpty).map
      ((claimPair identity claim).1, ·)

/-- What the decision about the second factor reads: the grants with their owners, and
the factors.  A failed read has no value. -/
structure MfaReads where
  fetchValid : (id : Str) → Option (Option (Str × GrantRow))
  fetch : (username : Str) → Option (Option MfaRow)
  normalizeUsername : Str → Str
  now : Nat

/-- The portal at the time of the request. -/
structure Portal where
  basePath : Str
  forwardHeadersTrusted : Bool
  isHttps : Bool
  maxBodyBytes : Option Int
  hasDb : Bool
  hasBackend : Bool
  parseIp : Str → Option Str
  /-- the seconds to wait, where the limiter denies -/
  limiter : (specId client : Str) → RatePolicy → Option Nat
  resolveIdentity : Str → CachedIdentity
  mfa : Option MfaReads
  validUri : Bytes → Bool
  injectBaseHref : Response → (base : Str) → (upstream : Bytes) → Response
  splashTemplate : (logo heading note probe : Str) → Str

/-- The replica of a request, and how it was found. -/
structure Resolved where
  replicaId : Str
  upstream : Bytes
  sessionId : Str
  cookieUsed : Bool
  seatReserved : Bool
  trackSession : Bool

/-- What the registry, the containers and the backend answer. -/
structure Pool where
  hasReadyReplica : Bool
  hasStickySeat : Bool
  atCapacity : Bool
  /-- does resolving start a container? -/
  spawns : Bool
  resolved : Option Resolved
  websocketAccepted : Bool
  firstSend : Outcome
  secondSend : Outcome
  confirmedMissing : Bool
  atCapacityAfterReap : Bool

/-- What a request does beside answering. -/
inductive Effect where
  | recordAccess (specId : Str)
  | auditBreakGlass (sessionId specId : Str)
  /-- a container is started, here or in the background -/
  | spawn (specId : Str)
  | touchOrRegister (sessionId replicaId : Str) (seatReserved : Bool)
  | connect (url : Bytes) (cookie protocols : Option Bytes) (identity : List (Bytes × Bytes))
  | send (sent : List (Outbound × Bool))
  | reap (replicaId : Str)
  | setStickyCookie (sessionId replicaId path : Str)
  deriving DecidableEq

/-- Does it start a container, or reach for one? -/
def Effect.isBackend : Effect → Bool
  | .spawn _ => true
  | .connect .. => true
  | .send _ => true
  | _ => false

structure Answer where
  response : Response
  effects : List Effect
  deriving DecidableEq

/-- No container is started and none is reached. -/
def Answer.Idle (answer : Answer) : Prop := ∀ e ∈ answer.effects, e.isBackend = false

/-! ## Links -/

def recordAccess (portal : Portal) (specId : Str) : List Effect :=
  if portal.hasDb then [.recordAccess specId] else []

def externalLink (portal : Portal) (spec : Spec Settings) : Answer :=
  match spec.settings.templateProperties.getStr "link".toList with
  | some target => ⟨redirect target, recordAccess portal spec.id⟩
  | none => ⟨textResponse 404 "external spec has no template-properties.link".toList, []⟩

theorem externalLink_idle (portal : Portal) (spec : Spec Settings) :
    (externalLink portal spec).Idle := by
  unfold externalLink
  split
  · intro e he
    unfold recordAccess at he
    split at he
    · cases List.mem_singleton.mp he
      rfl
    · cases he
  · intro e he
    cases he

/-- The bounce tells a spec with a link from one without. -/
theorem externalLink_discloses (portal : Portal) (spec : Spec Settings) :
    ∃ tp tp', (externalLink portal (spec.withProperties tp)).response ≠
      (externalLink portal (spec.withProperties tp')).response := by
  refine ⟨.empty, TemplateProperties.setStr .empty "link".toList ['/'], fun heq => ?_⟩
  have hstatus := congrArg Response.status heq
  cases hstatus

/-! ## The policies of the API -/

def corsDefaults : List (String × String) :=
  [("access-control-allow-origin", "*"),
    ("access-control-allow-methods", "GET, POST, PUT, PATCH, DELETE, OPTIONS, HEAD"),
    ("access-control-allow-headers", "*"), ("access-control-max-age", "86400")]

/-- A header the app has set itself wins. -/
def applyCorsHeaders (headers : HeaderMap) : HeaderMap :=
  corsDefaults.foldl (fun headers p =>
    (HeaderValue.fromStr (bytes p.2)).elim headers (headers.orInsert (bytes p.1))) headers

def withCors (response : Response) (enabled : Bool) : Response :=
  if enabled then { response with headers := applyCorsHeaders response.headers } else response

def corsPreflightResponse : Response := ⟨204, applyCorsHeaders [], []⟩

def rightmostForwardedIp (portal : Portal) (xff : Str) : Option Str :=
  (((xff.splitOnP (· = ',')).reverse.map Str.trim).find? fun p => !p.isEmpty).bind portal.parseIp

def clientKey (portal : Portal) (v : Visit) : Str :=
  let forwarded := if portal.forwardHeadersTrusted then
    (v.header "x-forwarded-for").bind (rightmostForwardedIp portal) else none
  (forwarded.or v.peer).getD "unknown".toList

/-- The API section, on its route family only. -/
def apiPolicies (spec : Spec Settings) (v : Visit) : Option ApiSpec :=
  if v.family = .api then spec.settings.api else none

def corsOn (spec : Spec Settings) (v : Visit) : Bool := (apiPolicies spec v).elim false ApiSpec.cors

def tooManyRequests (retryAfter : Nat) : Response :=
  let response := textResponse 429
    ("rate limit exceeded; retry after ".toList ++ Nat.toDigits 10 retryAfter ++ "s\n".toList)
  { response with headers := setHeader response.headers "retry-after" (Nat.toDigits 10 retryAfter) }

def checkApi (portal : Portal) (spec : Spec Settings) (v : Visit) : Except Response Unit :=
  match apiPolicies spec v with
  | none => .ok ()
  | some api =>
    if api.cors && v.method = .options then .error corsPreflightResponse
    else
      match (api.rateLimit.bind parseRateLimit).bind
          (portal.limiter spec.id (clientKey portal v)) with
      | some retryAfter => .error (withCors (tooManyRequests retryAfter) (corsOn spec v))
      | none => .ok ()

def maxBody (portal : Portal) (spec : Spec Settings) : Option Int :=
  spec.settings.effectiveMaxBodyBytes portal.maxBodyBytes

/-- A declared length over the cap; the body itself is capped when it is sent. -/
def checkBody (portal : Portal) (spec : Spec Settings) (v : Visit) : Except Response Unit :=
  match maxBody portal spec, (v.header "content-length").bind (Numeral.ofText : Str → Option I64) with
  | some limit, some len =>
    if limit < len.val then
      .error (withCors (textResponse 413
        ("request body exceeds ".toList ++ intDigits limit ++ " bytes\n".toList)) (corsOn spec v))
    else .ok ()
  | _, _ => .ok ()

/-! ## The access guard -/

def addDefaultHttpHeaders (spec : Spec Settings) : Bool :=
  spec.settings.addDefaultHttpHeaders.getD false

/-- Looked up only where the guard or the disclosure needs it. -/
def identity (portal : Portal) (spec : Spec Settings) (v : Visit) : Option Identity :=
  (v.actor.filter fun _ => !spec.isOpen || addDefaultHttpHeaders spec ||
    !spec.settings.effectiveIdentityClaims.isEmpty).map fun username =>
      ⟨username, portal.resolveIdentity username⟩

def identityHeaders (portal : Portal) (spec : Spec Settings) (v : Visit) : List (Str × Str) :=
  (identity portal spec v).elim [] fun identity =>
    identity.headerPairs (addDefaultHttpHeaders spec) spec.settings.effectiveIdentityClaims

def groups (portal : Portal) (spec : Spec Settings) (v : Visit) : List Str :=
  (identity portal spec v).elim [] fun identity => identity.cached.groups

/-- The shared rule, for this visitor. -/
def allows (portal : Portal) (spec : Spec Settings) (v : Visit) : Bool :=
  spec.accessAllows v.isAdmin v.actor (groups portal spec v)

def accessDenied (portal : Portal) (spec : Spec Settings) (v : Visit) : Response :=
  if v.family = .app && v.session.isNone then
    if v.upgrade then textResponse 401 "authentication required before WebSocket upgrade\n".toList
    else redirect (Routes.withNextQuery (portal.basePath ++ "/admin/login".toList) v.pathAndQuery)
  else withCors (textResponse 403 "access denied\n".toList) (corsOn spec v)

def checkAccess (portal : Portal) (spec : Spec Settings) (v : Visit) : Except Response Unit :=
  if !spec.isOpen && !allows portal spec v then .error (accessDenied portal spec v) else .ok ()

theorem checkAccess_eq_ok {portal : Portal} {spec : Spec Settings} {v : Visit}
    (h : checkAccess portal spec v = .ok ()) :
    allows portal spec v = true := by
  unfold checkAccess at h
  split at h
  · cases h
  · next hcond =>
    simp only [Bool.and_eq_true, Bool.not_eq_true', not_and, Bool.not_eq_false] at hcond
    by_cases hopen : spec.isOpen = true
    · exact Spec.accessAllows_iff.mpr (.inr (.inl hopen))
    · exact hcond (by simpa using hopen)

/-! ## The second factor -/

variable [MfaHashing]

def mfaPolicy (spec : Spec Settings) : MfaPolicy where
  requireMfa := spec.settings.requireMfa
  mfaValidityDays := spec.settings.mfaValidityDays.map Fin.val

def isConfirmed (factor : Option MfaRow) : Bool := factor.any fun row => row.confirmedAt.isSome

/-- `mfa::evaluate`: the grant is read before the factor. -/
def evaluate (reads : Option MfaReads) (username sessionId : Str) (deviceCookie : Option Str)
    (spec : MfaPolicy) : MfaDecision :=
  if !spec.effectiveRequireMfa then .satisfied
  else
    match reads with
    | none => .challengeRequired
    | some reads =>
      match deviceCookie.bind deviceCookieParts with
      | none =>
        (reads.fetch username).elim .challengeRequired fun factor =>
          if isConfirmed factor then .challengeRequired else .enrollmentRequired
      | some (id, token) =>
        match reads.fetchValid id with
        | some (some (owner, grant)) =>
          (reads.fetch username).elim .challengeRequired fun factor =>
            if isConfirmed factor && owner ≠ reads.normalizeUsername username then .challengeRequired
            else judgeGrant spec sessionId token grant factor reads.now
        | _ => .challengeRequired

/-- The proof of this visitor, where they have a user and a session. -/
def mfaDecision (portal : Portal) (spec : Spec Settings) (v : Visit) : Option MfaDecision :=
  v.actor.bind fun username => v.sessionCookie.map fun sessionId =>
    evaluate portal.mfa username sessionId v.deviceCookie (mfaPolicy spec)

def mfaAppNext (v : Visit) (specId : Str) : Str :=
  match Routes.localNextPath (some v.pathAndQuery) with
  | some next => next
  | none =>
    (Routes.localNextPath
      (some (appPrefix ++ specId ++ v.upstreamPath ++ v.query.elim [] ('?' :: ·)))).getD ['/']

def mfaAppRedirect (portal : Portal) (spec : Spec Settings) (v : Visit) (page : String) : Response :=
  redirect (Routes.withNextQuery (portal.basePath ++ page.toList) (mfaAppNext v spec.id))

/-- Without a session there is no proof to judge. -/
def mfaSignIn (portal : Portal) (spec : Spec Settings) (v : Visit) : Response :=
  match v.family with
  | .api => withCors (textResponse 401
      "MFA-protected API requires an authenticated user session\n".toList) (corsOn spec v)
  | .app =>
    if v.upgrade then textResponse 401 "MFA proof required before WebSocket upgrade\n".toList
    else mfaAppRedirect portal spec v "/admin/login"

def mfaRefusal (portal : Portal) (spec : Spec Settings) (v : Visit) (page : String) : Response :=
  match v.family with
  | .api => withCors (textResponse 403
      "MFA proof required for this API; complete it in the web portal\n".toList) (corsOn spec v)
  | .app =>
    if v.upgrade then textResponse 401 "MFA proof required before WebSocket upgrade\n".toList
    else mfaAppRedirect portal spec v page

/-- The step-up; only a session without an actor may pass without a proof. -/
def checkMfa (portal : Portal) (spec : Spec Settings) (v : Visit) :
    Except Response (List Effect) :=
  if !(mfaPolicy spec).effectiveRequireMfa then .ok []
  else if v.isBreakGlass then
    .ok [.auditBreakGlass (v.sessionCookie.getD "missing-session-cookie".toList) spec.id]
  else if v.session.isNone then .error (mfaSignIn portal spec v)
  else
    match mfaDecision portal spec v with
    | none => .error (withCors
        (textResponse 403 "MFA proof required for this protected app\n".toList) (corsOn spec v))
    | some .satisfied => .ok []
    | some .enrollmentRequired => .error (mfaRefusal portal spec v "/admin/account/mfa")
    | some .challengeRequired => .error (mfaRefusal portal spec v "/admin/account/mfa/challenge")

/-- Everything between the kind of the spec and the backend. -/
def admission (portal : Portal) (spec : Spec Settings) (v : Visit) : Except Response (List Effect) := do
  checkApi portal spec v
  checkBody portal spec v
  checkAccess portal spec v
  checkMfa portal spec v

/-! ## The waiting page -/

def coldProbePath : Str := "/__ruscker_ready".toList

def wantsHtml (v : Visit) : Bool :=
  (v.header "accept").elim false fun accept => decide ("text/html".toList <:+: accept)

def htmlEscape (s : Str) : Str :=
  s.flatMap fun c =>
    if c = '&' then "&amp;".toList else if c = '<' then "&lt;".toList
    else if c = '>' then "&gt;".toList else [c]

def fullNote : Str :=
  ("<p>Every slot for this app is in use. This page opens automatically as soon as one frees up " ++
    "— you can keep it open.</p>").toList

def startingNote : Str :=
  ("<p>The container is booting — this can take a few seconds the first time. This page opens it " ++
    "automatically when it's ready.</p>").toList

def coldStartSplash (portal : Portal) (spec : Spec Settings) (full : Bool) : Response :=
  let name := htmlEscape (spec.settings.displayName.getD spec.id)
  let heading := if full then
      "<h1><span class=\"app\">".toList ++ name ++ "</span> is full right now</h1>".toList
    else "<h1>Starting <span class=\"app\">".toList ++ name ++ "</span>…</h1>".toList
  uncached "text/html; charset=utf-8" <|
    portal.splashTemplate (portal.basePath ++ "/assets/brand/mark.svg".toList) heading
      (if full then fullNote else startingNote)
      (portal.basePath ++ appPrefix ++ spec.id ++ coldProbePath)

def probeBody (ready : Bool) : Str :=
  if ready then "\x7b\"ready\":true\x7d".toList else "\x7b\"ready\":false\x7d".toList

/-- The readiness probe and the page that polls it, of interactive apps only. -/
def coldStart (portal : Portal) (pool : Pool) (spec : Spec Settings) (v : Visit) :
    Option Answer :=
  if v.family = .app && !v.upgrade then
    if v.upstreamPath = coldProbePath then
      some ⟨uncached "application/json" (probeBody (pool.hasReadyReplica || pool.hasStickySeat)), []⟩
    else if v.method = .get && wantsHtml v && !pool.hasReadyReplica && !pool.hasStickySeat then
      some ⟨coldStartSplash portal spec pool.atCapacity,
        if pool.atCapacity then [] else [.spawn spec.id]⟩
    else none
  else none

/-! ## The container -/

def kindNeedsSticky : SpecKind → Bool
  | .shiny => true
  | .interactiveApp => true
  | _ => false

/-- A container that is confirmed gone is replaced. -/
def recovery (pool : Pool) (spec : Spec Settings) (r : Resolved) : List Effect :=
  if pool.confirmedMissing then
    .reap r.replicaId :: if pool.atCapacityAfterReap then [] else [.spawn spec.id]
  else []

def identityBytes (portal : Portal) (spec : Spec Settings) (v : Visit) : List (Bytes × Bytes) :=
  (identityHeaders portal spec v).map fun p => (utf8 p.1, utf8 p.2)

def websocketUrl (v : Visit) (r : Resolved) : Bytes :=
  bytes "ws://" ++ r.upstream ++ utf8 (v.upstreamPath ++ v.query.elim [] ('?' :: ·))

/-- The upstream is connected before the client is answered. -/
def serveWebsocket (portal : Portal) (pool : Pool) (spec : Spec Settings) (v : Visit)
    (r : Resolved) : Answer :=
  let headers := stripReservedIdentityHeaders v.headers
  let cookie := ((headers.get cookieHeader).bind HeaderValue.toStr).bind filterRusckerCookies
  let protocols := (headers.get (bytes "sec-websocket-protocol")).bind HeaderValue.toStr
  let connect := Effect.connect (websocketUrl v r) cookie protocols (identityBytes portal spec v)
  if pool.websocketAccepted then ⟨⟨101, [], []⟩, [connect]⟩
  else ⟨withCors (textResponse 502 "upstream unavailable".toList) (corsOn spec v),
    connect :: recovery pool spec r⟩

def transformsHtml (spec : Spec Settings) (v : Visit) : Bool :=
  v.family = .app && spec.settings.injectBaseHref.getD true

/-- Trusted, the chain grows by the peer; otherwise the peer takes its place. -/
def forwardedFor (portal : Portal) (v : Visit) : Option Str :=
  let existing := (v.header "x-forwarded-for").filter fun _ => portal.forwardHeadersTrusted
  match v.peer, existing with
  | some ip, some chain => some (chain ++ ", ".toList ++ ip)
  | some ip, none => some ip
  | none, chain => chain

def forwardHeaders (portal : Portal) (spec : Spec Settings) (v : Visit) : HeaderMap :=
  let headers := if transformsHtml spec v then
    setHeader v.headers "accept-encoding" "identity".toList else v.headers
  match (forwardedFor portal v).bind fun s => HeaderValue.fromStr (utf8 s) with
  | some value => headers.insert (bytes "x-forwarded-for") value
  | none => headers.remove (bytes "x-forwarded-for")

def inbound (portal : Portal) (spec : Spec Settings) (v : Visit) : Inbound where
  method := v.method
  version := v.version
  query := v.query.map utf8
  headers := forwardHeaders portal spec v
  body := v.body

def bodyCap (limit : Int) : Nat := if 0 ≤ limit then limit.toNat else 2 ^ 64 - 1

def target (portal : Portal) (spec : Spec Settings) (v : Visit) (r : Resolved) : Target where
  upstream := r.upstream
  upstreamPath := utf8 v.upstreamPath
  forwardedPrefix := utf8 (mountPrefix portal.basePath v.family.route spec.id)
  isHttps := portal.isHttps
  maxBody := (maxBody portal spec).map bodyCap
  identityHeaders := identityBytes portal spec v

def serveHttp (portal : Portal) (pool : Pool) (spec : Spec Settings) (v : Visit)
    (r : Resolved) : Answer :=
  let exchange := doForward portal.validUri (target portal spec v r) (inbound portal spec v)
    pool.firstSend pool.secondSend
  match exchange.result with
  | .ok response =>
    let response := if transformsHtml spec v then
      portal.injectBaseHref response (portal.basePath ++ v.family.route ++ spec.id ++ ['/']) r.upstream
      else response
    let sticky := if !r.cookieUsed && kindNeedsSticky spec.settings.kind then
      recordAccess portal spec.id ++ [.setStickyCookie r.sessionId r.replicaId
        (mountPrefix portal.basePath v.family.route spec.id)] else []
    let counted := if spec.settings.kind = .api then recordAccess portal spec.id else []
    ⟨withCors response (corsOn spec v), .send exchange.sent :: sticky ++ counted⟩
  | .error _ =>
    let response := if pool.confirmedMissing && v.method = .get && wantsHtml v then
      coldStartSplash portal spec false
      else withCors (textResponse 502 "upstream error".toList) (corsOn spec v)
    ⟨response, .send exchange.sent :: recovery pool spec r⟩

/-- From the backend on. -/
def serve (portal : Portal) (pool : Pool) (spec : Spec Settings) (v : Visit) : Answer :=
  if !portal.hasBackend then
    ⟨withCors (textResponse 503 "no container backend wired — start with --docker".toList)
      (corsOn spec v), []⟩
  else
    match coldStart portal pool spec v with
    | some answer => answer
    | none =>
      let spawned := if pool.spawns then [.spawn spec.id] else []
      match pool.resolved with
      | none => ⟨withCors (textResponse 502 "backend unavailable".toList) (corsOn spec v), spawned⟩
      | some r =>
        let touched := if r.trackSession && kindNeedsSticky spec.settings.kind then
          [.touchOrRegister r.sessionId r.replicaId r.seatReserved] else []
        let answer := if v.upgrade then serveWebsocket portal pool spec v r
          else serveHttp portal pool spec v r
        { answer with effects := spawned ++ touched ++ answer.effects }

/-! ## `forward` -/

def forwardSpec (portal : Portal) (pool : Pool) (spec : Spec Settings) (v : Visit) : Answer :=
  if spec.settings.kind = .external then externalLink portal spec
  else
    match admission portal spec v with
    | .error response => ⟨response, []⟩
    | .ok effects =>
      let answer := serve portal pool spec v
      { answer with effects := effects ++ answer.effects }

/-- `forward`, on the effective spec that its id names. -/
def forward (portal : Portal) (pool : Pool) (found : Option (Spec Settings)) (v : Visit) : Answer :=
  match found with
  | none => ⟨textResponse 404 ("spec `".toList ++ v.specId ++ "` not found".toList), []⟩
  | some spec => forwardSpec portal pool spec v

/-! ## What a visitor may learn and wake -/

/-- The shared rule turns the visitor away. -/
def Denied (portal : Portal) (spec : Spec Settings) (v : Visit) : Prop :=
  allows portal spec v = false

/-- The visitor holds a proof, or the break-glass session that needs none. -/
def Proven (portal : Portal) (spec : Spec Settings) (v : Visit) : Prop :=
  v.isBreakGlass = true ∨ mfaDecision portal spec v = some .satisfied

/-- A denied visitor learns nothing of the properties and wakes nothing; without the proof
that a container asks for, nobody wakes or reaches it. -/
structure Guarded (portal : Portal) (pool : Pool) (spec : Spec Settings) (v : Visit) : Prop where
  undisclosed : Denied portal spec v → ∀ tp,
    (forward portal pool (some (spec.withProperties tp)) v).response =
      (forward portal pool (some spec) v).response
  denied : Denied portal spec v → (forward portal pool (some spec) v).Idle
  stepUp : spec.settings.kind ≠ .external → (mfaPolicy spec).effectiveRequireMfa = true →
    ¬ Proven portal spec v → (forward portal pool (some spec) v).Idle

section

variable {portal : Portal} {pool : Pool} {spec : Spec Settings} {v : Visit}
  {effects : List Effect}

/-! ### Admission -/

/-- Past the second factor, a proof was there where it had to be. -/
theorem checkMfa_eq_ok (h : checkMfa portal spec v = .ok effects) :
    ((mfaPolicy spec).effectiveRequireMfa = true → Proven portal spec v) ∧
      ∀ e ∈ effects, e.isBackend = false := by
  unfold checkMfa at h
  split at h
  · next hoff =>
    cases h
    exact ⟨fun hon => by simp [hon] at hoff, by simp⟩
  · split at h
    · next hglass =>
      cases h
      refine ⟨fun _ => .inl hglass, ?_⟩
      intro e he
      cases List.mem_singleton.mp he
      rfl
    · split at h
      · cases h
      · split at h
        · cases h
        · next hproof =>
          cases h
          exact ⟨fun _ => .inr hproof, by simp⟩
        · cases h
        · cases h

theorem admission_eq_ok (h : admission portal spec v = .ok effects) :
    allows portal spec v = true ∧
      ((mfaPolicy spec).effectiveRequireMfa = true → Proven portal spec v) := by
  obtain ⟨_, _, h⟩ := Guards.accepted_bind.mp h
  obtain ⟨_, _, h⟩ := Guards.accepted_bind.mp h
  obtain ⟨_, haccess, hmfa⟩ := Guards.accepted_bind.mp h
  exact ⟨checkAccess_eq_ok haccess, (checkMfa_eq_ok hmfa).1⟩

/-- Whoever is not admitted gets an answer, and nothing else happens. -/
theorem forward_of_not_admitted (hkind : spec.settings.kind ≠ .external)
    (h : ∀ effects, admission portal spec v ≠ .ok effects) :
    (forward portal pool (some spec) v).Idle := by
  have hempty : (forward portal pool (some spec) v).effects = [] := by
    rw [forward, forwardSpec, if_neg hkind]
    cases hadmission : admission portal spec v with
    | error response => rfl
    | ok effects => exact absurd hadmission (h effects)
  intro e he
  rw [hempty] at he
  cases he

theorem forward_external (hkind : spec.settings.kind = .external) :
    forward portal pool (some spec) v = externalLink portal spec := by
  rw [forward, forwardSpec, if_pos hkind]

/-- Only links read the properties. -/
theorem forward_withProperties (hkind : spec.settings.kind ≠ .external)
    (tp : TemplateProperties) :
    forward portal pool (some (spec.withProperties tp)) v = forward portal pool (some spec) v := by
  have hkind' : (spec.withProperties tp).settings.kind ≠ .external := hkind
  rw [forward, forward, forwardSpec, forwardSpec, if_neg hkind, if_neg hkind']
  rfl

/-! ### The guard -/

/-- Whatever the kind, a denied visitor wakes and reaches nothing. -/
theorem forward_idle_of_denied (hdenied : Denied portal spec v) :
    (forward portal pool (some spec) v).Idle := by
  by_cases hkind : spec.settings.kind = .external
  · rw [forward_external hkind]
    exact externalLink_idle portal spec
  · refine forward_of_not_admitted hkind fun effects hadmission => ?_
    exact Bool.false_ne_true (hdenied.symm.trans (admission_eq_ok hadmission).1)

/-- The guard holds for exactly the visitors who are not denied a link. -/
theorem guarded_iff (portal : Portal) (pool : Pool) (spec : Spec Settings) (v : Visit) :
    Guarded portal pool spec v ↔
      ¬ (Denied portal spec v ∧ spec.settings.kind = .external) := by
  refine ⟨fun hguarded ⟨hdenied, hkind⟩ => ?_, fun hcond => ⟨?_, forward_idle_of_denied, ?_⟩⟩
  · obtain ⟨tp, tp', hne⟩ := externalLink_discloses portal spec
    have hsame : ∀ tp, (externalLink portal (spec.withProperties tp)).response =
        (externalLink portal spec).response := by
      intro tp
      have h := hguarded.undisclosed hdenied tp
      have hlinked : forward portal pool (some (spec.withProperties tp)) v =
          externalLink portal (spec.withProperties tp) := forward_external hkind
      rwa [forward_external hkind, hlinked] at h
    exact hne ((hsame tp).trans (hsame tp').symm)
  · intro hdenied tp
    rw [forward_withProperties fun hkind => hcond ⟨hdenied, hkind⟩]
  · intro hkind hrequired hproof
    exact forward_of_not_admitted hkind fun effects hadmission =>
      hproof ((admission_eq_ok hadmission).2 hrequired)

end

end Forward

/-! ### A link for the staff -/

section Example

attribute [local instance] wholeFloats plainMfaHashing

def quietPortal : Portal where
  basePath := []
  forwardHeadersTrusted := false
  isHttps := false
  maxBodyBytes := none
  hasDb := true
  hasBackend := true
  parseIp _ := none
  limiter _ _ _ := none
  resolveIdentity _ := ⟨[], none, none⟩
  mfa := none
  validUri _ := true
  injectBaseHref response _ _ := response
  splashTemplate _ heading note _ := heading ++ note

def emptyPool : Pool where
  hasReadyReplica := false
  hasStickySeat := false
  atCapacity := false
  spawns := false
  resolved := none
  websocketAccepted := false
  firstSend := .failed false
  secondSend := .failed false
  confirmedMissing := false
  atCapacityAfterReap := false

/-- An external spec that only the staff may see and reach. -/
def staffWiki : Spec Settings where
  id := "wiki".toList
  accessGroups := some ["staff".toList]
  accessUsers := none
  settings :=
    { bareSettings "Wiki" (TemplateProperties.setStr .empty "link".toList "http://wiki.lan/".toList) with
      containerImage := none }

def anonymousVisit : Visit where
  family := .app
  specId := "wiki".toList
  upstreamPath := ['/']
  method := .get
  version := .http11
  path := "/app/wiki".toList
  query := none
  headers := []
  body := .empty
  peer := none
  upgrade := false
  session := none
  sessionCookie := none
  deviceCookie := none

/-- Anyone who knows the id is sent to the link. -/
theorem forward_bounces :
    Denied quietPortal staffWiki anonymousVisit ∧
      (forward quietPortal emptyPool (some staffWiki) anonymousVisit).response =
        redirect "http://wiki.lan/".toList ∧
      ¬ Guarded quietPortal emptyPool staffWiki anonymousVisit := by
  have hdenied : Denied quietPortal staffWiki anonymousVisit := rfl
  refine ⟨hdenied, rfl, fun hguarded => ?_⟩
  have hstatus := congrArg Response.status (hguarded.undisclosed hdenied .empty)
  cases hstatus

end Example

end Ruscker.Proxy
