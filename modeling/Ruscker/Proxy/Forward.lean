import Ruscker.Proxy.Cookies

/-!
# Forwarding a request

`do_forward` rewrites the header map of a request, sends it to the container and, where the
send of a GET or a HEAD fails, sends it once more.  The captured head makes the second
request; its body is empty.  A URI that parses is kept as its text, and whether it parses is
a parameter, like the outcome of each send.
-/

namespace Ruscker.Proxy

open Tokens

/-! ## Header texts -/

namespace HeaderValue

/-- `HeaderValue::from_bytes`. -/
def fromBytes (s : Bytes) : Option HeaderValue :=
  if h : s.all isHeaderByte then some ⟨s, h⟩ else none

end HeaderValue

def isUpperByte (b : UInt8) : Bool := 65 ≤ b && b ≤ 90

def toLowerByte (b : UInt8) : UInt8 := if isUpperByte b then b + 32 else b

/-- The characters of a header name: letters, digits and some marks. -/
def isTokenByte (b : UInt8) : Bool :=
  isUpperByte b || (97 ≤ b && b ≤ 122) || (48 ≤ b && b ≤ 57) ||
    (bytes "!#$%&*+-.^_|~").contains b || b = 39 || b = 96

/-- `HeaderName::from_bytes`: names are kept in lower case. -/
def headerName (s : Bytes) : Option Bytes :=
  if s ≠ [] ∧ s.all isTokenByte then some (s.map toLowerByte) else none

namespace HeaderMap

/-- `HeaderMap::append`. -/
def append (h : HeaderMap) (name : Bytes) (v : HeaderValue) : HeaderMap := h ++ [(name, v)]

/-- `entry(name).or_insert(v)`. -/
def orInsert (h : HeaderMap) (name : Bytes) (v : HeaderValue) : HeaderMap :=
  if (h.getAll name).isEmpty then h.append name v else h

def removeAll (h : HeaderMap) (names : List Bytes) : HeaderMap := names.foldl remove h

end HeaderMap

/-! ## The header map of a request -/

def hopByHop : List Bytes :=
  ["connection", "keep-alive", "proxy-authenticate", "proxy-authorization", "te", "trailers",
    "transfer-encoding", "upgrade", "host", "proxy-connection"].map bytes

def isComma (b : UInt8) : Bool := b = 44

/-- The names the first `Connection` line lists. -/
def connectionNames (headers : HeaderMap) : List Bytes :=
  (((headers.get (bytes "connection")).bind HeaderValue.toStr).elim [] fun s =>
    (s.splitOnP isComma).map fun t => (trim isSpace t).map toLowerByte)

def viaRuscker : HeaderValue := ⟨bytes "1.1 ruscker", by decide⟩

def stripHopHeaders (headers : HeaderMap) : HeaderMap :=
  (((headers.removeAll (hopByHop ++ connectionNames headers)).orInsert (bytes "via") viaRuscker).remove
    (bytes "x-forwarded-proto")).remove (bytes "x-forwarded-port")

def isReservedIdentity (name : Bytes) : Bool :=
  (bytes "x-sp-").isPrefixOf name || (bytes "x-ruscker-user-").isPrefixOf name

def stripReservedIdentityHeaders (headers : HeaderMap) : HeaderMap :=
  headers.filter fun line => !isReservedIdentity line.1

/-- A header that cannot be encoded is left out. -/
def insertIdentity (headers : HeaderMap) (pair : Bytes × Bytes) : HeaderMap :=
  match headerName pair.1, HeaderValue.fromBytes pair.2 with
  | some name, some value => headers.insert name value
  | _, _ => headers

def httpsValue (isHttps : Bool) : HeaderValue :=
  if isHttps then ⟨bytes "https", by decide⟩ else ⟨bytes "http", by decide⟩

def applySmartRoutingHeaders (headers : HeaderMap) (forwardedPrefix : Bytes) (isHttps : Bool)
    (fwdHost : Option HeaderValue) : HeaderMap :=
  let headers := (HeaderValue.fromBytes forwardedPrefix).elim headers fun v =>
    ((headers.insert (bytes "x-forwarded-prefix") v).insert (bytes "x-script-name") v).insert
      (bytes "x-rstudio-root-path") v
  let headers := headers.insert (bytes "x-forwarded-proto") (httpsValue isHttps)
  fwdHost.elim headers fun host => headers.insert (bytes "x-forwarded-host") host

/-! ## Bodies -/

inductive BodyEnd where
  | done (trailers : Option HeaderMap)
  | failed
  deriving DecidableEq

/-- A body as it is read: its chunks, and how they end. -/
structure Body where
  chunks : List Bytes
  ending : BodyEnd
  deriving DecidableEq

namespace Body

def empty : Body := ⟨[], .done none⟩

/-- What is sent of a body. -/
def wire (b : Body) : Bytes × BodyEnd := (b.chunks.flatten, b.ending)

/-- `Limited`: the first chunk over the limit is an error instead. -/
def limitedChunks (ending : BodyEnd) : Nat → List Bytes → Body
  | _, [] => ⟨[], ending⟩
  | limit, c :: chunks =>
    if c.length ≤ limit then
      let rest := limitedChunks ending (limit - c.length) chunks
      ⟨c :: rest.chunks, rest.ending⟩
    else ⟨[], .failed⟩

def limited (limit : Nat) (b : Body) : Body := limitedChunks b.ending limit b.chunks

/-- No byte and no trailer is sent. -/
def IsEmpty (b : Body) : Prop := b.wire = empty.wire

instance (b : Body) : Decidable b.IsEmpty := inferInstanceAs (Decidable (_ = _))

end Body

/-! ## Sending -/

inductive Method where
  | options
  | get
  | post
  | put
  | delete
  | head
  | trace
  | connect
  | patch
  | extension (name : Bytes)
  deriving DecidableEq

inductive Version where
  | http09
  | http10
  | http11
  | http2
  | http3
  deriving DecidableEq

/-- A request as a visitor sends it; the path is that of the route. -/
structure Inbound where
  method : Method
  version : Version
  query : Option Bytes
  headers : HeaderMap
  body : Body
  deriving DecidableEq

/-- A request on its way to the container. -/
structure Outbound where
  method : Method
  uri : Bytes
  version : Version
  headers : HeaderMap
  body : Body
  deriving DecidableEq

structure Response where
  status : Nat
  headers : HeaderMap
  body : Bytes
  deriving DecidableEq

/-- How a send ends: with an answer, or with an error before or after the container got it. -/
inductive Outcome where
  | answered (response : Response)
  | failed (received : Bool)
  deriving DecidableEq

def Outcome.reaches : Outcome → Bool
  | .answered _ => true
  | .failed received => received

def Outcome.isAnswered : Outcome → Bool
  | .answered _ => true
  | .failed _ => false

inductive ForwardError where
  | upstreamUri
  | send
  deriving DecidableEq

/-- What a forward sends, each send with whether the container got it, and how it ends. -/
structure Exchange where
  sent : List (Outbound × Bool)
  result : Except ForwardError Response
  deriving DecidableEq

/-- The requests the container got. -/
def Exchange.received (x : Exchange) : List Outbound :=
  (x.sent.filter fun p => p.2).map Prod.fst

/-! ## The response -/

/-- The text in front of the first `=` of the text in front of the first `;`. -/
def setCookieName (raw : Bytes) : Bytes := pairName ((raw.splitOnP isSemicolon).headD [])

def setCookieHeader : Bytes := bytes "set-cookie"

def isReservedName (name : Bytes) : Bool :=
  name.toByteArray.utf8Decode?.isSome && isRusckerCookie name

def stripReservedSetCookies (headers : HeaderMap) : HeaderMap :=
  let values := headers.getAll setCookieHeader
  if values.isEmpty then headers
  else
    headers.remove setCookieHeader ++
      (values.filter fun v => !isReservedName (setCookieName v.raw)).map (setCookieHeader, ·)

def clearSiteDataHeader : Bytes := bytes "clear-site-data"

def safeDirectives : List Bytes :=
  ["cache", "storage", "executionContexts", "clientHints"].map bytes

def isQuote (b : UInt8) : Bool := b = 34

/-- A quoted directive without escapes that is no cookie directive. -/
def isSafeDirective (entry : Bytes) : Bool :=
  match entry with
  | 34 :: rest =>
    rest.getLast? = some 34 && !rest.dropLast.contains 92 &&
      safeDirectives.any fun d => d.map toLowerByte = rest.dropLast.map toLowerByte
  | _ => false

/-- A line without its unsafe directives; a line nothing is left of goes. -/
def sanitizeClearSiteDataLine (v : HeaderValue) : Option HeaderValue :=
  v.toStr.bind fun raw =>
    let kept := ((raw.splitOnP isComma).map (trim isSpace)).filter isSafeDirective
    if kept.isEmpty then none else HeaderValue.fromStr ((bytes ", ").intercalate kept)

def sanitizeClearSiteData (headers : HeaderMap) : HeaderMap :=
  let values := headers.getAll clearSiteDataHeader
  if values.isEmpty then headers
  else
    headers.remove clearSiteDataHeader ++
      (values.filterMap sanitizeClearSiteDataLine).map (clearSiteDataHeader, ·)

def rewriteResponse (response : Response) : Response :=
  { response with
    headers := sanitizeClearSiteData (stripReservedSetCookies (stripHopHeaders response.headers)) }

/-! ## `do_forward` -/

section DoForward

variable (validUri : Bytes → Bool)

/-- What `forward` hands over beside the request. -/
structure Target where
  upstream : Bytes
  upstreamPath : Bytes
  forwardedPrefix : Bytes
  isHttps : Bool
  maxBody : Option Nat
  identityHeaders : List (Bytes × Bytes)
  deriving DecidableEq

def upstreamUri (target : Target) (req : Inbound) : Bytes :=
  bytes "http://" ++ target.upstream ++ target.upstreamPath ++ req.query.elim [] (bytes "?" ++ ·)

def outboundHeaders (target : Target) (req : Inbound) : HeaderMap :=
  let fwdHost := req.headers.get (bytes "host")
  let headers := stripRusckerCookies (stripReservedIdentityHeaders (stripHopHeaders req.headers))
  applySmartRoutingHeaders (target.identityHeaders.foldl insertIdentity headers)
    target.forwardedPrefix target.isHttps fwdHost

/-- The first request. -/
def outbound (target : Target) (req : Inbound) : Outbound where
  method := req.method
  uri := upstreamUri target req
  version := req.version
  headers := outboundHeaders target req
  body := target.maxBody.elim req.body req.body.limited

/-- Only these methods' heads are captured. -/
def retryable (method : Method) : Bool := method = .get || method = .head

/-- The second request, from the captured head. -/
def replay (first : Outbound) : Outbound := { first with body := .empty }

def answer : Outcome → Except ForwardError Response
  | .answered response => .ok (rewriteResponse response)
  | .failed _ => .error .send

/-- The outcomes are those of the first and the second send, where they are made. -/
def doForward (target : Target) (req : Inbound) (first second : Outcome) : Exchange :=
  if validUri (upstreamUri target req) then
    let out := outbound target req
    if first.isAnswered || !retryable out.method then ⟨[(out, first.reaches)], answer first⟩
    else ⟨[(out, first.reaches), (replay out, second.reaches)], answer second⟩
  else ⟨[], .error .upstreamUri⟩

end DoForward

/-! ## Replays -/

/-- Two requests no container can tell apart. -/
structure Identical (a b : Outbound) : Prop where
  method : a.method = b.method
  uri : a.uri = b.uri
  headers : a.headers = b.headers
  body : a.body.wire = b.body.wire

/-- A request is sent a second time only when its method allows it, and then as it was; any
other request the container gets at most once. -/
structure SafelySent (req : Inbound) (x : Exchange) : Prop where
  once : x.received.length ≤ 1 ∨ retryable req.method = true
  atMostTwice : x.sent.length ≤ 2
  replays : ∀ a b, x.sent.map Prod.fst = [a, b] → retryable req.method = true ∧ Identical a b

/-- A send is repeated that may not lose its body. -/
def LosesBody (validUri : Bytes → Bool) (target : Target) (req : Inbound) (first : Outcome) :
    Prop :=
  validUri (upstreamUri target req) = true ∧ retryable req.method = true ∧
    first.isAnswered = false ∧ ¬ req.body.IsEmpty

section Replays

variable {validUri : Bytes → Bool} {target : Target} {req : Inbound} {first second : Outcome}

theorem Body.wire_limitedChunks_iff (ending : BodyEnd) (limit : Nat) (chunks : List Bytes) :
    (Body.limitedChunks ending limit chunks).wire = Body.empty.wire ↔
      (Body.mk chunks ending).wire = Body.empty.wire := by
  induction chunks generalizing limit with
  | nil => rfl
  | cons c chunks ih =>
    unfold Body.limitedChunks
    split
    · have hrest := ih (limit - c.length)
      simp only [Body.wire, Body.empty, Prod.mk.injEq, List.flatten_cons, List.append_eq_nil_iff,
        List.flatten_nil] at hrest ⊢
      tauto
    · next hlong =>
      have hc : c ≠ [] := by
        rintro rfl
        exact hlong (Nat.zero_le _)
      simp [Body.wire, Body.empty, hc]

/-- The cap on the body does not make one empty. -/
theorem isEmpty_outbound_iff : (outbound target req).body.IsEmpty ↔ req.body.IsEmpty := by
  unfold outbound Body.IsEmpty
  cases target.maxBody with
  | none => rfl
  | some limit => exact Body.wire_limitedChunks_iff _ limit _

theorem identical_replay_iff (out : Outbound) : Identical out (replay out) ↔ out.body.IsEmpty :=
  ⟨fun h => h.body, fun h => ⟨rfl, rfl, rfl, h⟩⟩

theorem doForward_of_invalid (h : ¬ validUri (upstreamUri target req) = true) :
    doForward validUri target req first second = ⟨[], .error .upstreamUri⟩ := if_neg h

theorem doForward_once (hvalid : validUri (upstreamUri target req) = true)
    (h : first.isAnswered = true ∨ retryable req.method = false) :
    doForward validUri target req first second =
      ⟨[(outbound target req, first.reaches)], answer first⟩ := by
  have hsend : (first.isAnswered || !retryable (outbound target req).method) = true := by
    rcases h with hanswered | hmethod
    · rw [hanswered, Bool.true_or]
    · rw [show (outbound target req).method = req.method from rfl, hmethod, Bool.not_false,
        Bool.or_true]
  rw [doForward, if_pos hvalid]
  exact if_pos hsend

theorem doForward_twice (hvalid : validUri (upstreamUri target req) = true)
    (hfailed : first.isAnswered = false) (hmethod : retryable req.method = true) :
    doForward validUri target req first second =
      ⟨[(outbound target req, first.reaches), (replay (outbound target req), second.reaches)],
        answer second⟩ := by
  have hsend : (first.isAnswered || !retryable (outbound target req).method) = false := by
    rw [show (outbound target req).method = req.method from rfl, hmethod, hfailed]
    rfl
  rw [doForward, if_pos hvalid]
  simp only [hsend, Bool.false_eq_true, if_false]

/-- **One retry.** For every request and every outcome of its sends a forward is safe, but
for a GET or a HEAD with a body whose first send fails: the second send has none. -/
theorem safelySent_iff :
    SafelySent req (doForward validUri target req first second) ↔
      ¬ LosesBody validUri target req first := by
  by_cases hvalid : validUri (upstreamUri target req) = true
  · by_cases honce : first.isAnswered = true ∨ retryable req.method = false
    · rw [doForward_once hvalid honce]
      refine iff_of_true ⟨.inl ?_, Nat.le_succ _, fun a b h => ?_⟩ ?_
      · exact (List.length_map _).trans_le (List.length_filter_le _ _)
      · cases h
      · rintro ⟨-, hmethod, hfailed, -⟩
        rcases honce with hanswered | hnot
        · rw [hfailed] at hanswered
          cases hanswered
        · rw [hmethod] at hnot
          cases hnot
    · rw [not_or, Bool.not_eq_true, Bool.not_eq_false] at honce
      obtain ⟨hfailed, hmethod⟩ := honce
      rw [doForward_twice hvalid hfailed hmethod]
      constructor
      · rintro hsafe ⟨-, -, -, hbody⟩
        have hsame := (hsafe.replays _ _ rfl).2
        exact hbody (isEmpty_outbound_iff.mp ((identical_replay_iff _).mp hsame))
      · intro hkeeps
        refine ⟨.inr hmethod, Nat.le_refl _, fun a b h => ⟨hmethod, ?_⟩⟩
        cases h
        refine (identical_replay_iff _).mpr (isEmpty_outbound_iff.mpr ?_)
        by_contra hbody
        exact hkeeps ⟨hvalid, hmethod, hfailed, hbody⟩
  · rw [doForward_of_invalid hvalid]
    refine iff_of_true ⟨.inl (Nat.zero_le _), Nat.zero_le _, fun a b h => ?_⟩ fun h => hvalid h.1
    cases h

end Replays

/-! ## A search with a body -/

def search : Inbound where
  method := .get
  version := .http11
  query := none
  headers := [(bytes "content-length", ⟨bytes "7", by decide⟩)]
  body := ⟨[bytes "q=axle7"], .done none⟩

def container : Target where
  upstream := bytes "127.0.0.1:8081"
  upstreamPath := bytes "/search"
  forwardedPrefix := bytes "/api/search"
  isHttps := false
  maxBody := none
  identityHeaders := []

/-- The second request announces seven bytes and brings none. -/
theorem search_loses_body :
    ¬ ∀ (validUri : Bytes → Bool) (target : Target) (req : Inbound) (first second : Outcome),
        SafelySent req (doForward validUri target req first second) := by
  intro hclaim
  have hsafe := safelySent_iff.mp
    (hclaim (fun _ => true) container search (.failed true) (.failed true))
  exact hsafe ⟨rfl, rfl, rfl, by decide⟩

end Ruscker.Proxy
