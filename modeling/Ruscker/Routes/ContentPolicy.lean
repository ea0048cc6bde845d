import Ruscker.Db.Landing
import Ruscker.Db.LandingBlocks
import Ruscker.Lib.PolicyText
import Ruscker.Routes.Redirects

/-!
# The content policy of the pages

Every page has the same policy, and the landing page widens it by the origins that the operator
lists for analytics and for the blocks.
-/

namespace Ruscker.Routes.ContentPolicy

open PolicyTexts

/-! ## The policy -/

def splitWhitespace (s : Str) : List Str := Tokens.tokens isWhitespace isWhitespace s

def isSchemeChar (c : Char) : Bool := c.isAlphanum || c = '+' || c = '-' || c = '.'

def isHostChar (c : Char) : Bool :=
  c.isAlphanum || c = '.' || c = '-' || c = ':' || c = '/' || c = '_'

/-- A host source or a scheme. -/
def isSafeCspSource (t : Str) : Bool :=
  if t = [] || t = ['*'] || t.any fun c => c = ';' || c = ',' || c = '\'' || isWhitespace c then
    false
  else if t.getLast? = some ':' then t.dropLast ≠ [] && t.dropLast.all isSchemeChar
  else
    let body := ((t.dropPrefix? "https://".toList).or (t.dropPrefix? "http://".toList)).getD t
    let body := (body.dropPrefix? "*.".toList).getD body
    let valid := body ≠ [] && body.all isHostChar && body.head?.any Char.isAlphanum
    valid && (body.contains '.' || body.contains ':')

def safeSources (raw : Str) : List Str := (splitWhitespace raw).filter isSafeCspSource

def sanitizeCspOrigins (raw : Str) : Str := [' '].intercalate (safeSources raw)

def contentSecurityPolicy (extraOrigins : Str) : Str :=
  let e := sanitizeCspOrigins extraOrigins
  let extra := if e = [] then [] else ' ' :: e
  "default-src 'self'; ".toList ++
    "script-src 'self' 'unsafe-inline' 'unsafe-eval'".toList ++ extra ++ "; ".toList ++
    "style-src 'self' 'unsafe-inline'; ".toList ++
    "img-src 'self' data:".toList ++ extra ++ "; ".toList ++
    "font-src 'self'; ".toList ++
    "connect-src 'self'".toList ++ extra ++ "; ".toList ++
    "frame-ancestors 'none'; ".toList ++
    "base-uri 'self'; ".toList ++
    "form-action 'self'".toList

/-! ## The header -/

/-- `HeaderValue::from_str` -/
def headerFromStr (s : Str) : Option Str := if s.all isHeaderChar then some s else none

/-- The origins of `analytics_provider_snippet`. -/
def analyticsProviderOrigins (provider key : Str) : Option Str :=
  let key := key.trim
  if key = [] then none
  else if provider = "ga".toList then
    if key.all fun c => c.isAlphanum || c = '-' then
      some "https://www.googletagmanager.com https://www.google-analytics.com".toList
    else none
  else if provider = "plausible".toList then
    if key.all fun c => c.isAlphanum || c = '.' || c = '-' then some "https://plausible.io".toList
    else none
  else if provider = "matomo".toList then
    (Str.splitOnce '|' key).bind fun p =>
      let url := p.1.trim.rdropWhile fun c => c = '/'
      let site := p.2.trim
      let cleanUrl := "https://".toList.isPrefixOf url &&
        !url.any fun c => isWhitespace c || c = '"' || c = '\'' || c = '<' || c = '>'
      if !cleanUrl || site = [] || !site.all Char.isDigit then none else some url
  else none

def effectiveAnalyticsProvider (lc : LandingCustomization) : Str :=
  match lc.analyticsProvider with
  | some p =>
    if ["ga".toList, "plausible".toList, "matomo".toList].contains p then p else "none".toList
  | none => "none".toList

/-- The origins that the landing page collects, with the enabled blocks in their order. -/
def landingOrigins (lc : LandingCustomization) (blocks : List BlockRow) : Str :=
  let providerOrigins :=
    (analyticsProviderOrigins (effectiveAnalyticsProvider lc) (lc.analyticsKey.getD [])).getD []
  let origins := (noneIfEmpty lc.analyticsOrigins).getD []
  let origins :=
    if providerOrigins = [] then origins
    else (if origins = [] then [] else origins ++ [' ']) ++ providerOrigins
  let addBlock := fun (origins : Str) (b : BlockRow) =>
    if b.cspOrigins.trim = [] then origins else origins ++ ' ' :: b.cspOrigins.trim
  Str.trim (blocks.foldl addBlock origins)

/-- The header that the landing page sets. -/
def landingCsp (lc : LandingCustomization) (blocks : List BlockRow) : Option Str :=
  let origins := landingOrigins lc blocks
  if origins = [] then none else headerFromStr (contentSecurityPolicy origins)

/-- `security_headers` sets the policy where the handler has set none. -/
def securityHeaders (handler : Option Str) : Option Str :=
  handler.or (headerFromStr (contentSecurityPolicy []))

/-! ## What it says -/

def pagePolicy : List Directive :=
  [⟨"default-src".toList, ["'self'".toList]⟩,
    ⟨"script-src".toList, ["'self'".toList, "'unsafe-inline'".toList, "'unsafe-eval'".toList]⟩,
    ⟨"style-src".toList, ["'self'".toList, "'unsafe-inline'".toList]⟩,
    ⟨"img-src".toList, ["'self'".toList, "data:".toList]⟩,
    ⟨"font-src".toList, ["'self'".toList]⟩,
    ⟨"connect-src".toList, ["'self'".toList]⟩,
    ⟨"frame-ancestors".toList, ["'none'".toList]⟩,
    ⟨"base-uri".toList, ["'self'".toList]⟩,
    ⟨"form-action".toList, ["'self'".toList]⟩]

/-- The directives that fetch what others host. -/
def widenedNames : List Str := ["script-src".toList, "img-src".toList, "connect-src".toList]

def widen (extra : List Str) (d : Directive) : Directive :=
  if d.name ∈ widenedNames then { d with sources := d.sources ++ extra } else d

/-- A header that a browser reads as the policy of the pages, with safe sources more. -/
structure OnlyWidened (value : Str) : Prop where
  visible : value.all isVisibleAscii = true
  reads : ∃ extra : List Str, (∀ t ∈ extra, isSafeCspSource t = true) ∧
    readHeader value = [pagePolicy.map (widen extra)]

/-! ## Safe sources -/

section Sources

variable {t p : Str} {c : Char}

theorem isTextChar_of_isAlphanum (h : c.isAlphanum = true) : isTextChar c = true := by
  have hrange := range_of_isAlphanum h
  refine isTextChar_iff.mpr ⟨by omega, by omega, ?_, ?_⟩
  · rintro rfl
    exact absurd h (by decide)
  · rintro rfl
    exact absurd h (by decide)

theorem isTextChar_of_isSchemeChar (h : isSchemeChar c = true) : isTextChar c = true := by
  simp only [isSchemeChar, Bool.or_eq_true, decide_eq_true_eq] at h
  rcases h with ((h | rfl) | rfl) | rfl
  · exact isTextChar_of_isAlphanum h
  · decide
  · decide
  · decide

theorem isTextChar_of_isHostChar (h : isHostChar c = true) : isTextChar c = true := by
  simp only [isHostChar, Bool.or_eq_true, decide_eq_true_eq] at h
  rcases h with ((((h | rfl) | rfl) | rfl) | rfl) | rfl
  · exact isTextChar_of_isAlphanum h
  · decide
  · decide
  · decide
  · decide
  · decide

/-- What stands behind a prefix that may be missing. -/
theorem mem_dropPrefix? (hp : p.all isTextChar = true)
    (h : ∀ c ∈ (t.dropPrefix? p).getD t, isTextChar c = true) : ∀ c ∈ t, isTextChar c = true := by
  cases hdrop : t.dropPrefix? p with
  | none =>
    rw [hdrop] at h
    exact h
  | some rest =>
    rw [hdrop] at h
    obtain ⟨p', rfl, hp'⟩ := List.dropPrefix?_eq_some_iff.mp hdrop
    intro c hc
    rcases List.mem_append.mp hc with hc | hc
    · exact List.all_eq_true.mp hp c (eq_of_beq hp' ▸ hc)
    · exact h c hc

theorem isText_of_safe (h : isSafeCspSource t = true) : IsText t := by
  unfold isSafeCspSource at h
  split at h
  · cases h
  · next hfirst =>
    have hne : t ≠ [] := by
      rintro rfl
      exact hfirst rfl
    refine ⟨hne, ?_⟩
    split at h
    · next hlast =>
      simp only [Bool.and_eq_true, List.all_eq_true] at h
      intro c hc
      rw [← List.dropLast_append_getLast? ':' hlast, List.mem_append] at hc
      rcases hc with hc | hc
      · exact isTextChar_of_isSchemeChar (h.2 c hc)
      · obtain rfl := List.mem_singleton.mp hc
        decide
    · simp only [Bool.and_eq_true, List.all_eq_true] at h
      have hbody := fun c hc => isTextChar_of_isHostChar (h.1.1.2 c hc)
      have hrest := mem_dropPrefix? (by decide) hbody
      cases hhttps : t.dropPrefix? "https://".toList with
      | some rest =>
        refine mem_dropPrefix? (p := "https://".toList) (by decide) ?_
        rw [hhttps] at hrest ⊢
        exact hrest
      | none =>
        refine mem_dropPrefix? (p := "http://".toList) (by decide) ?_
        rw [hhttps] at hrest
        exact hrest

theorem isText_safeSources (raw : Str) : ∀ t ∈ safeSources raw, IsText t :=
  fun _ ht => isText_of_safe (List.mem_filter.mp ht).2

end Sources

/-! ## The policy as it is written -/

section Written

variable {extra : List Str}

/-- Sources behind the others, each behind a blank. -/
def suffix (extra : List Str) : Str := extra.flatMap fun t => ' ' :: t

theorem intercalate_cons (t : Str) (ts : List Str) :
    [' '].intercalate (t :: ts) = t ++ suffix ts := by
  induction ts generalizing t with
  | nil => simp [suffix]
  | cons u us ih =>
    rw [List.intercalate_cons_cons, ih]
    simp [suffix]

theorem suffix_eq (hextra : ∀ t ∈ extra, IsText t) :
    (if [' '].intercalate extra = [] then [] else ' ' :: [' '].intercalate extra) =
      suffix extra := by
  cases extra with
  | nil => rfl
  | cons t ts =>
    have hne : t ++ suffix ts ≠ [] :=
      List.append_ne_nil_of_left_ne_nil (hextra t List.mem_cons_self).ne_nil _
    rw [intercalate_cons, if_neg hne]
    rfl

theorem writeDirective_append (name : Str) (sources : List Str) :
    writeDirective ⟨name, sources ++ extra⟩ = writeDirective ⟨name, sources⟩ ++ suffix extra := by
  rw [writeDirective, writeDirective, intercalate_cons, intercalate_cons, suffix,
    List.flatMap_append, List.append_assoc]
  rfl

theorem contentSecurityPolicy_eq (raw : Str) :
    contentSecurityPolicy raw = writePolicy (pagePolicy.map (widen (safeSources raw))) := by
  have hsuffix := suffix_eq (isText_safeSources raw)
  unfold contentSecurityPolicy
  dsimp only
  rw [sanitizeCspOrigins, hsuffix]
  have hdefault : ∀ name sources, name ∉ widenedNames →
      writeDirective (widen (safeSources raw) ⟨name, sources⟩) = writeDirective ⟨name, sources⟩ :=
    fun name sources hname => by rw [widen, if_neg hname]
  have hwide : ∀ name sources, name ∈ widenedNames →
      writeDirective (widen (safeSources raw) ⟨name, sources⟩) =
        writeDirective ⟨name, sources⟩ ++ suffix (safeSources raw) :=
    fun name sources hname => by rw [widen, if_pos hname, writeDirective_append]
  simp only [writePolicy, pagePolicy, List.map_cons, List.map_nil]
  rw [hdefault _ _ (by decide), hwide _ _ (by decide), hdefault _ _ (by decide),
    hwide _ _ (by decide), hdefault _ _ (by decide), hwide _ _ (by decide),
    hdefault _ _ (by decide), hdefault _ _ (by decide), hdefault _ _ (by decide)]
  simp only [List.intercalate_cons_cons, List.intercalate_singleton, List.append_assoc]
  repeat rw [String.toList_ofList]
  rfl

end Written

/-! ## The policy as it is read -/

section Read

variable {extra : List Str} {d : Directive} {value : Str} {c : Char}

@[simp] theorem widen_name : (widen extra d).name = d.name := by
  unfold widen
  split
  · rfl
  · rfl

theorem widen_nil : widen [] d = d := by
  unfold widen
  split
  · rw [List.append_nil]
  · rfl

theorem widen_valid (hextra : ∀ t ∈ extra, IsText t) (hd : d.Valid) : (widen extra d).Valid := by
  unfold widen
  split
  · refine ⟨hd.name, hd.lower, fun t ht => ?_⟩
    rcases List.mem_append.mp ht with ht | ht
    · exact hd.sources t ht
    · exact hextra t ht
  · exact hd

theorem pagePolicy_valid : ∀ d ∈ pagePolicy, d.Valid := by decide +kernel

theorem pagePolicy_widen_valid (raw : Str) :
    ∀ d ∈ pagePolicy.map (widen (safeSources raw)), d.Valid := by
  intro d hmem
  obtain ⟨d, hd, rfl⟩ := List.mem_map.mp hmem
  exact widen_valid (isText_safeSources raw) (pagePolicy_valid d hd)

theorem isVisibleAscii_of_text (h : isTextChar c = true) : isVisibleAscii c = true := by
  have hrange := isTextChar_iff.mp h
  simp only [isVisibleAscii, Bool.or_eq_true, Bool.and_eq_true, decide_eq_true_eq]
  omega

/-- No supplied text adds a directive or ends one. -/
theorem onlyWidened_contentSecurityPolicy (raw : Str) :
    OnlyWidened (contentSecurityPolicy raw) := by
  have hvalid := pagePolicy_widen_valid raw
  have hnames : ((pagePolicy.map (widen (safeSources raw))).map Directive.name).Nodup := by
    rw [List.map_map, show Directive.name ∘ widen (safeSources raw) = Directive.name from
      funext fun _ => widen_name]
    decide
  refine ⟨List.all_eq_true.mpr ?_, safeSources raw, fun t ht => (List.mem_filter.mp ht).2, ?_⟩
  · intro c hc
    rw [contentSecurityPolicy_eq] at hc
    rcases mem_writePolicy hvalid hc with rfl | rfl | htext
    · rfl
    · rfl
    · exact isVisibleAscii_of_text htext
  · rw [contentSecurityPolicy_eq]
    exact readHeader_writePolicy hvalid hnames (List.cons_ne_nil _ _)

theorem headerFromStr_of_onlyWidened (h : OnlyWidened value) : headerFromStr value = some value :=
  if_pos (header_of_visible h.visible)

/-- The pages have the policy, and the landing page the same with what the operator's origins add
to the sources. -/
theorem policy_only_widened :
    readHeader (contentSecurityPolicy []) = [pagePolicy] ∧
      (∀ raw, OnlyWidened (contentSecurityPolicy raw)) ∧
      (∀ lc blocks, ∃ value, securityHeaders (landingCsp lc blocks) = some value ∧
        OnlyWidened value) := by
  have hdefault := onlyWidened_contentSecurityPolicy []
  refine ⟨?_, onlyWidened_contentSecurityPolicy, ?_⟩
  · have hnone : safeSources [] = [] := by simp [safeSources, splitWhitespace]
    have hsame : pagePolicy.map (widen []) = pagePolicy :=
      List.map_id'' (fun _ => widen_nil) pagePolicy
    rw [contentSecurityPolicy_eq, hnone, hsame]
    exact readHeader_writePolicy pagePolicy_valid (by decide) (List.cons_ne_nil _ _)
  · intro lc blocks
    unfold securityHeaders landingCsp
    dsimp only
    split
    · rw [Option.none_or]
      exact ⟨_, headerFromStr_of_onlyWidened hdefault, hdefault⟩
    · have hlanding := onlyWidened_contentSecurityPolicy (landingOrigins lc blocks)
      rw [headerFromStr_of_onlyWidened hlanding]
      exact ⟨_, rfl, hlanding⟩

end Read

end Ruscker.Routes.ContentPolicy
