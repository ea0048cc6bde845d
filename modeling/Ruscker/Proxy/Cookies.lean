import Ruscker.Lib.Tokens

/-!
# The proxy's cookie filter

Every `/app` and `/api` request carries the browser's cookies for the whole
origin, Ruscker's own bearers among them.  `do_forward` rewrites the `Cookie`
header before the request leaves for a container.  This file models that rewrite
over raw header bytes and determines the header maps on which it is exact: on a
first cookie line that is not visible ASCII it does nothing at all, and every
further line is thrown away with the first.
-/

namespace Ruscker.Proxy

open Tokens

/-- Raw header bytes. -/
abbrev Bytes := List UInt8

/-- The bytes of an ASCII text. -/
def bytes (s : String) : Bytes := s.toList.map fun c => c.toNat.toUInt8

/-! ## Header values and header maps -/

/-- A byte `HeaderValue` may hold: anything but a control character, or a tab. -/
def isHeaderByte (b : UInt8) : Bool := (32 ≤ b && b ≠ 127) || b = 9

/-- A byte `HeaderValue::to_str` and `HeaderValue::from_str` accept. -/
def isVisibleAscii (b : UInt8) : Bool := (32 ≤ b && b < 127) || b = 9

theorem isHeaderByte_of_isVisibleAscii {b : UInt8} (h : isVisibleAscii b = true) :
    isHeaderByte b = true := by
  simp only [isVisibleAscii, isHeaderByte, Bool.or_eq_true, Bool.and_eq_true,
    decide_eq_true_eq] at h ⊢
  rcases h with ⟨hlow, hhigh⟩ | htab
  · refine .inl ⟨hlow, ?_⟩
    intro heq
    subst heq
    exact absurd hhigh (by decide)
  · exact .inr htab

/-- The bytes of a header value, all of them admissible. -/
structure HeaderValue where
  raw : Bytes
  valid : raw.all isHeaderByte = true
  deriving DecidableEq

namespace HeaderValue

/-- Is the value made of visible ASCII only? -/
def isVisible (v : HeaderValue) : Bool := v.raw.all isVisibleAscii

/-- `HeaderValue::to_str`: the text of a value made of visible ASCII only. -/
def toStr (v : HeaderValue) : Option Bytes :=
  if v.isVisible then some v.raw else none

/-- `HeaderValue::from_str`: a value from a text made of visible ASCII only. -/
def fromStr (s : Bytes) : Option HeaderValue :=
  if h : s.all isVisibleAscii then
    some ⟨s, List.all_eq_true.mpr fun b hb =>
      isHeaderByte_of_isVisibleAscii (List.all_eq_true.mp h b hb)⟩
  else none

theorem fromStr_of_visible {s : Bytes} (h : s.all isVisibleAscii = true) :
    ∃ v, fromStr s = some v ∧ v.raw = s := by
  simp [fromStr, h]

end HeaderValue

/-- A header map: the received lines in order, under lower-case names. -/
abbrev HeaderMap := List (Bytes × HeaderValue)

namespace HeaderMap

/-- All values under a name, in order. -/
def getAll (h : HeaderMap) (name : Bytes) : List HeaderValue :=
  (h.filter fun line => line.1 = name).map Prod.snd

/-- `HeaderMap::get`: the first value under a name. -/
def get (h : HeaderMap) (name : Bytes) : Option HeaderValue := (h.getAll name).head?

/-- `HeaderMap::remove`: every line under a name goes. -/
def remove (h : HeaderMap) (name : Bytes) : HeaderMap :=
  h.filter fun line => line.1 ≠ name

/-- `HeaderMap::insert`: one value takes the place of every line under its name. -/
def insert : HeaderMap → Bytes → HeaderValue → HeaderMap
  | [], name, v => [(name, v)]
  | line :: h, name, v =>
    if line.1 = name then (name, v) :: remove h name else line :: insert h name v

theorem getAll_remove (h : HeaderMap) (name other : Bytes) :
    (h.remove name).getAll other = if other = name then [] else h.getAll other := by
  simp only [getAll, remove, List.filter_filter]
  split
  · next heq =>
    subst heq
    simp
  · next hne =>
    congr 1
    refine List.filter_congr fun line _ => ?_
    by_cases hline : line.1 = other
    · simp [hline, hne]
    · simp [hline]

theorem getAll_insert (h : HeaderMap) (name other : Bytes) (v : HeaderValue) :
    (h.insert name v).getAll other = if other = name then [v] else h.getAll other := by
  induction h with
  | nil =>
    by_cases heq : other = name
    · simp [insert, getAll, heq]
    · simp [insert, getAll, heq, Ne.symm heq]
  | cons line h ih =>
    unfold insert
    split
    · next hline =>
      have hrem := getAll_remove h name other
      by_cases heq : other = name
      · subst heq
        simp only [getAll, List.filter_cons, if_true, decide_true, List.map_cons] at hrem ⊢
        simp [hrem]
      · simp only [getAll, heq, if_false] at hrem ⊢
        simp [Ne.symm heq, hrem, hline]
    · next hline =>
      by_cases heq : other = name
      · simp only [getAll, heq, if_true] at ih ⊢
        simp [hline, ih]
      · simp only [getAll, heq, if_false] at ih ⊢
        by_cases hother : line.1 = other
        · simp [hother, ih]
        · simp [hother, ih]

end HeaderMap

/-! ## The filter -/

/-- The header name under which cookies travel. -/
def cookieHeader : Bytes := bytes "cookie"

/-- `sticky::COOKIE_NAME`, the prefix of every sticky cookie. -/
def stickyCookieName : Bytes := bytes "__ruscker_session"

/-- The admin session, theme and locale cookies. -/
def rusckerCookieNames : List Bytes :=
  [bytes "ruscker_admin_session", bytes "ruscker_theme", bytes "ruscker_locale"]

/-- Is `name` a cookie Ruscker owns? -/
def isRusckerCookie (name : Bytes) : Bool :=
  rusckerCookieNames.contains name || stickyCookieName.isPrefixOf name ||
    (bytes "__ruscker_mfa_").isPrefixOf name

/-- `char::is_whitespace` on ASCII, the blanks `str::trim` drops. -/
def isSpace (b : UInt8) : Bool := (9 ≤ b && b ≤ 13) || b = 32

def isSemicolon (b : UInt8) : Bool := b = 59

/-- The trimmed, nonempty `name=value` pairs of a cookie line. -/
def cookiePairs (raw : Bytes) : List Bytes := tokens isSemicolon isSpace raw

/-- The trimmed text in front of the first `=`. -/
def pairName (pair : Bytes) : Bytes :=
  trim isSpace ((pair.splitOnP fun b => b = 61).headD [])

/-- Does a pair carry one of Ruscker's own cookies? -/
def isReserved (pair : Bytes) : Bool := isRusckerCookie (pairName pair)

/-- Drop Ruscker's own cookies from a raw cookie line; `none` when nothing remains. -/
def filterRusckerCookies (raw : Bytes) : Option Bytes :=
  let kept := (cookiePairs raw).filter fun pair => !isReserved pair
  if kept.isEmpty then none else some ((bytes "; ").intercalate kept)

/-- The rewrite `do_forward` applies to the upstream-bound header map. -/
def stripRusckerCookies (headers : HeaderMap) : HeaderMap :=
  match (headers.get cookieHeader).bind HeaderValue.toStr with
  | none => headers
  | some raw =>
    match filterRusckerCookies raw with
    | none => headers.remove cookieHeader
    | some kept =>
      match HeaderValue.fromStr kept with
      | none => headers
      | some v => headers.insert cookieHeader v

/-- The pairs of all cookie lines of a header map, in order. -/
def HeaderMap.pairs (h : HeaderMap) : List Bytes :=
  (h.getAll cookieHeader).flatMap fun v => cookiePairs v.raw

/-- What the filter is for: no reserved pair is sent, and the application's own
pairs are all sent in their order. -/
structure ExactlyStripped (received sent : HeaderMap) : Prop where
  noReserved : ∀ pair ∈ sent.pairs, isReserved pair = false
  keepsRest : (sent.pairs.filter fun pair => !isReserved pair) =
    received.pairs.filter fun pair => !isReserved pair

/-! ## What the filter does -/

/-- The pairs a filtered line is read back as. -/
theorem filterRusckerCookies_pairs (raw : Bytes) :
    ((filterRusckerCookies raw).elim [] cookiePairs) =
      (cookiePairs raw).filter fun pair => !isReserved pair := by
  unfold filterRusckerCookies
  dsimp only
  split
  · next hempty => simpa using hempty
  · have hclean : ∀ pair ∈ (cookiePairs raw).filter fun pair => !isReserved pair,
        Clean isSemicolon isSpace pair := fun pair hpair =>
      clean_of_mem_tokens (List.mem_of_mem_filter hpair)
    exact @tokens_intercalate _ _ _ 59 [32] rfl (by simp [isSpace]) (by simp [isSemicolon]) _
      hclean

theorem visible_of_filterRusckerCookies {raw kept : Bytes}
    (hraw : raw.all isVisibleAscii = true) (h : filterRusckerCookies raw = some kept) :
    kept.all isVisibleAscii = true := by
  unfold filterRusckerCookies at h
  dsimp only at h
  split at h
  · cases h
  · cases h
    rw [List.all_eq_true] at hraw ⊢
    intro b hb
    rcases mem_intercalate hb with hglue | ⟨pair, hpair, hin⟩
    · exact List.all_eq_true.mp (show (bytes "; ").all isVisibleAscii = true by decide) b hglue
    · exact hraw b (mem_of_mem_tokens (List.mem_of_mem_filter hpair) hin)

/-- On a first line of visible ASCII the filtered line replaces every cookie line. -/
theorem pairs_strip_of_visible {h : HeaderMap} {first : HeaderValue} {rest : List HeaderValue}
    (hlines : h.getAll cookieHeader = first :: rest)
    (hvis : first.isVisible = true) :
    (stripRusckerCookies h).pairs =
      (cookiePairs first.raw).filter fun pair => !isReserved pair := by
  have hget : (h.get cookieHeader).bind HeaderValue.toStr = some first.raw := by
    simp [HeaderMap.get, hlines, HeaderValue.toStr, hvis]
  have hpairs := filterRusckerCookies_pairs first.raw
  rw [← hpairs]
  unfold stripRusckerCookies
  rw [hget]
  cases hf : filterRusckerCookies first.raw with
  | none => simp [hf, HeaderMap.pairs, HeaderMap.getAll_remove]
  | some kept =>
    obtain ⟨v, hv, hraw⟩ :=
      HeaderValue.fromStr_of_visible (visible_of_filterRusckerCookies hvis hf)
    simp [hf, hv, HeaderMap.pairs, HeaderMap.getAll_insert, hraw]

/-- Without a first line of visible ASCII the header map is forwarded as it came. -/
theorem strip_eq_self {h : HeaderMap}
    (hget : ∀ first ∈ h.get cookieHeader, first.isVisible = false) :
    stripRusckerCookies h = h := by
  unfold stripRusckerCookies
  cases hfirst : h.get cookieHeader with
  | none => rfl
  | some first =>
    have hnot := hget first (by simp [hfirst])
    simp [HeaderValue.toStr, hnot]

/-- Headers other than `Cookie` pass through unchanged. -/
theorem getAll_strip_of_ne (h : HeaderMap) {name : Bytes} (hne : name ≠ cookieHeader) :
    (stripRusckerCookies h).getAll name = h.getAll name := by
  unfold stripRusckerCookies
  split
  · rfl
  · split
    · rw [HeaderMap.getAll_remove, if_neg hne]
    · split
      · rfl
      · rw [HeaderMap.getAll_insert, if_neg hne]

/-! ## When the filter is exact -/

theorem HeaderMap.pairs_of_getAll {h : HeaderMap} {first : HeaderValue}
    {rest : List HeaderValue} (hlines : h.getAll cookieHeader = first :: rest) :
    h.pairs = cookiePairs first.raw ++ rest.flatMap fun v => cookiePairs v.raw := by
  simp [HeaderMap.pairs, hlines]

/-- A first line of visible ASCII is filtered exactly, so exactness is lost only with
an application cookie in a later line. -/
theorem exactlyStripped_iff_of_visible {h : HeaderMap} {first : HeaderValue}
    {rest : List HeaderValue} (hlines : h.getAll cookieHeader = first :: rest)
    (hvis : first.isVisible = true) :
    ExactlyStripped h (stripRusckerCookies h) ↔
      ∀ line ∈ rest, ∀ pair ∈ cookiePairs line.raw, isReserved pair = true := by
  have hsent := pairs_strip_of_visible hlines hvis
  have hpairs := HeaderMap.pairs_of_getAll hlines
  constructor
  · intro hexact line hline pair hpair
    have hrest := hexact.keepsRest
    rw [hsent, hpairs, List.filter_append, List.filter_filter] at hrest
    simp only [Bool.and_self, List.self_eq_append_right, List.filter_eq_nil_iff,
      List.mem_flatMap] at hrest
    simpa using hrest pair ⟨line, hline, hpair⟩
  · intro hrest
    refine ⟨?_, ?_⟩
    · intro pair hpair
      rw [hsent] at hpair
      simpa using (List.mem_filter.mp hpair).2
    · rw [hsent, hpairs, List.filter_append, List.filter_filter]
      simp only [Bool.and_self, List.self_eq_append_right, List.filter_eq_nil_iff,
        List.mem_flatMap]
      rintro pair ⟨line, hline, hpair⟩
      simp [hrest line hline pair hpair]

/-- Forwarding a header map as it came is exact when it holds no reserved pair. -/
theorem exactlyStripped_self_iff (h : HeaderMap) :
    ExactlyStripped h h ↔
      ∀ line ∈ h.getAll cookieHeader, ∀ pair ∈ cookiePairs line.raw,
        isReserved pair = false := by
  constructor
  · intro hexact line hline pair hpair
    exact hexact.noReserved pair (List.mem_flatMap.mpr ⟨line, hline, hpair⟩)
  · intro hclean
    refine ⟨?_, rfl⟩
    intro pair hpair
    obtain ⟨line, hline, hin⟩ := List.mem_flatMap.mp hpair
    exact hclean line hline pair hin

/-- The header maps the filter handles: a first line of visible ASCII with nothing of
the application's in later lines, or no reserved pair anywhere. -/
def Strippable (h : HeaderMap) : Prop :=
  match h.getAll cookieHeader with
  | [] => True
  | first :: rest =>
    if first.isVisible then
      ∀ line ∈ rest, ∀ pair ∈ cookiePairs line.raw, isReserved pair = true
    else
      ∀ line ∈ first :: rest, ∀ pair ∈ cookiePairs line.raw, isReserved pair = false

/-- A request whose only cookie line starts with a preference in UTF-8. -/
def utf8Request : HeaderMap :=
  [(cookieHeader,
    ⟨bytes "lang=" ++ [195, 169] ++ bytes "; ruscker_admin_session=SID", by decide +kernel⟩)]

end Ruscker.Proxy
