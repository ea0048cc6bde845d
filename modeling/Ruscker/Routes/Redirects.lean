import Ruscker.Auth.Role
import Ruscker.Lib.UrlReference

/-!
# Redirects after a sign-in, a preference or a challenge

The handlers answer with a path on the portal's own origin: the page the request came
from, the `next` it carried, or a page of the panel.  Under a base path a response layer
puts the prefix in front of it.  A browser reads the result as a URL reference.
-/

namespace Ruscker.Routes

open UrlReferences

/-! ## Header texts -/

/-- `HeaderValue::from_str` accepts every text without control characters but tabs. -/
def isHeaderChar (c : Char) : Bool := (0x20 ≤ c.toNat && c.toNat ≠ 0x7F) || c = '\t'

/-- `HeaderValue::to_str` reads only these. -/
def isVisibleAscii (c : Char) : Bool := (0x20 ≤ c.toNat && c.toNat < 0x7F) || c = '\t'

def toStr (value : Str) : Option Str := if value.all isVisibleAscii then some value else none

/-! ## Paths -/

/-- `split_once("://")`, without the scheme. -/
def splitScheme : Str → Option Str
  | [] => none
  | c :: s => if [':', '/', '/'].isPrefixOf (c :: s) then some (s.drop 2) else splitScheme s

/-- A referer from the first slash of its path on. -/
def afterAuthority (referer : Str) : Option Str :=
  match splitScheme referer with
  | some rest =>
    match rest.dropWhile fun c => c ≠ '/' with
    | [] => none
    | path => some path
  | none => some referer

/-- The path a referer header is reduced to, before the check. -/
def refererPath (referer : Option Str) : Option Str := (referer.bind toStr).bind afterAuthority

def looksCrossOrigin (path : Str) : Bool :=
  !(['/'].isPrefixOf path) || ['/', '/'].isPrefixOf path || ['/', '\\'].isPrefixOf path

def sameOriginPath (referer : Option Str) (fallback : Str) : Str :=
  match referer.bind afterAuthority with
  | some path => if looksCrossOrigin path then fallback else path
  | none => fallback

def isControl (c : Char) : Bool := c.toNat < 0x20 || c.toNat = 0x7F

def localNextPath (value : Option Str) : Option Str :=
  value.filter fun path => ['/'].isPrefixOf path && !(['/', '/'].isPrefixOf path) &&
    !path.contains '\\' && !path.any isControl

def stripBasePrefix (path base : Str) : Str :=
  if base = [] then path
  else if base.isPrefixOf path then
    match path.drop base.length with
    | [] => "/".toList
    | '/' :: rest => '/' :: rest
    | _ => path
  else path

def appNextPath (next : Option Str) (base : Str) : Option Str :=
  (localNextPath next).bind fun path =>
    let path := stripBasePrefix path base
    let pathOnly := path.takeWhile fun c => c ≠ '?' && c ≠ '#'
    if "/app/".toList.isPrefixOf pathOnly then some path else none

/-- The destination of the second factor; empty without one. -/
def safeNext (raw : Option Str) (base : Str) : Str :=
  (localNextPath raw).elim [] fun path => stripBasePrefix path base

def hexDigit (n : Nat) : Char := Char.ofNat (if n < 10 then 0x30 + n else 0x41 + n - 10)

/-- One byte of `form_urlencoded::byte_serialize`. -/
def serializeByte (b : UInt8) : Str :=
  let c := Char.ofNat b.toNat
  if b.toNat < 0x80 && (c.isAlphanum || c = '*' || c = '-' || c = '.' || c = '_') then [c]
  else if c = ' ' then ['+']
  else ['%', hexDigit (b.toNat / 16), hexDigit (b.toNat % 16)]

def byteSerialize (s : Str) : Str := (s.flatMap String.utf8EncodeChar).flatMap serializeByte

def withNextQuery (path next : Str) : Str :=
  path ++ (if path.contains '?' then '&' else '?') :: "next=".toList ++ byteSerialize next

/-! ## The base path -/

/-- Without white space and slashes around it, and with one slash in front. -/
def normalizeBasePath (raw : Str) : Str :=
  match Tokens.trim (fun c => c = '/') raw.trim with
  | [] => []
  | t => '/' :: t

def rewriteUrlBase (value base : Str) : Option Str :=
  let t := value.dropWhile isWhitespace
  if !(['/'].isPrefixOf t) || ['/', '/'].isPrefixOf t then none
  else if t = base || (base ++ ['/']).isPrefixOf t then none
  else some (base ++ t)

/-- The response layer; a prefixed text that is no header value is not inserted. -/
def prefixBasePath (base location : Str) : Str :=
  if base = [] then location
  else
    match (toStr location).bind fun loc => rewriteUrlBase loc base with
    | some rewritten => if rewritten.all isHeaderChar then rewritten else location
    | none => location

/-! ## Handlers -/

/-- The navigation section of a panel path. -/
def sectionForAdminPath (path : Str) : Str :=
  (([("/admin/dashboard", "dashboard"), ("/admin/disk", "disk"), ("/admin/specs", "specs"),
    ("/admin/media", "images"), ("/admin/credentials", "credentials"),
    ("/admin/landing", "landing"), ("/admin/blocks", "blocks"), ("/admin/audit", "audit"),
    ("/admin/logs", "logs"), ("/admin/schedules", "schedules"), ("/admin/users", "users"),
    ("/admin/groups", "groups")].find? fun p => p.1.toList.isPrefixOf path).elim
      "dashboard" Prod.snd).toList

/-- Where a sign-in without a `next` leads: back to a page the role may see, or home. -/
def returnPath (role : Role) (referer : Option Str) (base : Str) : Str :=
  let path := stripBasePrefix (sameOriginPath referer role.home) base
  if path = "/".toList then path
  else if "/admin/".toList.isPrefixOf path && !"/admin/login".toList.isPrefixOf path &&
    role.canAccessSection (sectionForAdminPath path) then path
  else role.home

/-- A request that is answered with a redirect; `referer` is the raw header. -/
inductive Request where
  /-- the theme or the locale switched -/
  | setPreference (referer : Option Str)
  | login (role : Role) (mustChangePassword : Bool) (next referer : Option Str)
  | tokenLogin (needSetup : Bool) (next : Option Str)
  | changePassword (role : Role) (next : Option Str)
  /-- a challenge for an account without a second factor -/
  | challengeUnenrolled (next : Option Str)
  | challengePassed (next : Option Str)

def destination (base : Str) : Request → Str
  | .setPreference referer => sameOriginPath (referer.bind toStr) "/".toList
  | .login role mustChangePassword next referer =>
    let next := appNextPath next base
    if mustChangePassword then
      next.elim "/admin/account/password".toList (withNextQuery "/admin/account/password".toList)
    else next.getD (returnPath role (referer.bind toStr) base)
  | .tokenLogin needSetup next =>
    let next := appNextPath next base
    if needSetup then "/admin/setup".toList else next.getD "/admin/dashboard".toList
  | .changePassword role next => (appNextPath next base).getD role.home
  | .challengeUnenrolled next =>
    withNextQuery (base ++ "/admin/account/mfa".toList) (safeNext next base)
  | .challengePassed next =>
    if safeNext next base = [] then base ++ "/admin/account/mfa".toList
    else base ++ safeNext next base

/-- The `Location` of the response: `Redirect::to` fails on what is no header value. -/
def location (base : Str) (request : Request) : Option Str :=
  if (destination base request).all isHeaderChar then
    some (prefixBasePath base (destination base request))
  else none

/-! ## Same origin -/

/-- Whatever page of the portal sent the request, the redirect stays on its origin. -/
def SameOrigin [Authorities] (base : Str) (request : Request) : Prop :=
  ∀ loc ∈ location base request, ∀ page : Origin, resolve page loc = some page

/-- A switch whose referer has a tab between the first slash of its path and a second one. -/
def Request.hidesSlash : Request → Bool
  | .setPreference referer => (refererPath referer).any fun path =>
      ['/', '\t'].isPrefixOf path && isNetworkPath path
  | _ => false

/-- A base path that is a header text and, with its slash, no network path. -/
def Rooted (base : Str) : Prop :=
  base.all isHeaderChar = true ∧ isNetworkPath (base ++ ['/']) = false

/-! ## Network paths -/

section Paths

variable {base path ℓ : Str}

/-- What stands behind the slash of a base path does not matter. -/
theorem isNetworkPath_append (hbase : base.head? = some '/') (rest : Str) :
    isNetworkPath (base ++ '/' :: rest) = isNetworkPath (base ++ ['/']) := by
  obtain ⟨b, rfl⟩ := List.head?_eq_some_iff.mp hbase
  have hslash : (!isTabOrNewline '/') = true := by decide
  simp only [List.cons_append, isNetworkPath, List.find?_append, List.find?_cons, hslash]

theorem not_isNetworkPath_of_append (hrooted : isNetworkPath (base ++ ['/']) = false) :
    isNetworkPath base = false := by
  cases base with
  | nil => rfl
  | cons c b =>
    by_cases hc : c = '/'
    · subst hc
      simp only [List.cons_append, isNetworkPath, List.find?_append] at hrooted ⊢
      cases hfind : b.find? fun c => !isTabOrNewline c with
      | none => rfl
      | some d =>
        rw [hfind] at hrooted
        exact hrooted
    · unfold isNetworkPath
      split
      · next heq =>
        cases heq
        exact absurd rfl hc
      · rfl

/-- The landing page, or a page of the panel or of an app. -/
def Plain (path : Str) : Prop := path = ['/'] ∨ ['/', 'a'] <+: path

theorem Plain.not_isNetworkPath (h : Plain path) : isNetworkPath path = false := by
  rcases h with rfl | ⟨rest, rfl⟩
  · rfl
  · rfl

theorem Plain.head? (h : Plain path) : path.head? = some '/' := by
  rcases h with rfl | ⟨rest, rfl⟩
  · rfl
  · rfl

/-! ## Destinations -/

theorem plain_home (role : Role) : Plain role.home := by
  cases role with
  | viewer => exact .inl rfl
  | editor => exact .inr (List.isPrefixOf_iff_prefix.mp rfl)
  | admin => exact .inr (List.isPrefixOf_iff_prefix.mp rfl)

theorem plain_of_isPrefixOf {pre : Str} (hpre : ['/', 'a'] <+: pre)
    (h : pre.isPrefixOf path = true) : Plain path :=
  .inr (hpre.trans (List.isPrefixOf_iff_prefix.mp h))

theorem prefix_withNextQuery (pre next : Str) : pre <+: withNextQuery pre next := by
  rw [withNextQuery, List.append_assoc]
  exact List.prefix_append ..

theorem plain_appNextPath {next : Option Str} (h : appNextPath next base = some path) :
    Plain path := by
  obtain ⟨raw, -, hif⟩ := Option.bind_eq_some_iff.mp h
  dsimp only at hif
  split at hif
  · next happ =>
    cases hif
    exact .inr ((List.isPrefixOf_iff_prefix.mp rfl : ['/', 'a'] <+: "/app/".toList).trans
      ((List.isPrefixOf_iff_prefix.mp happ).trans (List.takeWhile_prefix _)))
  · cases hif

theorem plain_appNextPath_getD {next : Option Str} {fallback : Str} (h : Plain fallback) :
    Plain ((appNextPath next base).getD fallback) := by
  cases hnext : appNextPath next base with
  | none => exact h
  | some path => exact plain_appNextPath hnext

theorem plain_returnPath (role : Role) (referer : Option Str) :
    Plain (returnPath role referer base) := by
  unfold returnPath
  dsimp only
  split
  · next heq =>
    rw [heq]
    exact .inl rfl
  · split
    · next hpanel =>
      simp only [Bool.and_eq_true] at hpanel
      exact plain_of_isPrefixOf (List.isPrefixOf_iff_prefix.mp rfl) hpanel.1.1
    · exact plain_home role

theorem rooted_of_localNextPath {next : Option Str} (h : localNextPath next = some path) :
    path.head? = some '/' ∧ isNetworkPath path = false := by
  obtain ⟨-, hsafe⟩ := Option.filter_eq_some_iff.mp h
  simp only [Bool.and_eq_true, Bool.not_eq_true'] at hsafe
  obtain ⟨⟨⟨hslash, hdouble⟩, hback⟩, hcontrol⟩ := hsafe
  cases path with
  | nil => cases hslash
  | cons c rest =>
    obtain rfl : '/' = c := by simpa [List.isPrefixOf] using hslash
    refine ⟨rfl, ?_⟩
    cases rest with
    | nil => rfl
    | cons d rest =>
      have hd : d ≠ '/' := by
        rintro rfl
        cases hdouble
      have hd' : d ≠ '\\' := by
        rintro rfl
        simp at hback
      have htab : isTabOrNewline d = false := by
        rw [← Bool.not_eq_true]
        intro htab
        simp only [isTabOrNewline, Bool.or_eq_true, decide_eq_true_eq] at htab
        rcases htab with (rfl | rfl) | rfl
        · cases hcontrol
        · cases hcontrol
        · cases hcontrol
      simp [isNetworkPath, htab, isSlash, hd, hd']

theorem head?_stripBasePrefix (h : path.head? = some '/') :
    (stripBasePrefix path base).head? = some '/' := by
  unfold stripBasePrefix
  split
  · exact h
  · split
    · split
      · rfl
      · rfl
      · exact h
    · exact h

theorem safeNext_cases (next : Option Str) (base : Str) :
    safeNext next base = [] ∨ (safeNext next base).head? = some '/' ∧
      (base = [] → isNetworkPath (safeNext next base) = false) := by
  unfold safeNext
  cases hnext : localNextPath next with
  | none => exact .inl rfl
  | some path =>
    obtain ⟨hhead, hnot⟩ := rooted_of_localNextPath hnext
    refine .inr ⟨head?_stripBasePrefix hhead, ?_⟩
    rintro rfl
    exact hnot

/-- What a handler answers with: a preference switch goes back to its referer, a sign-in to
a plain path, and a challenge to a path under the base. -/
theorem destination_cases (base : Str) (request : Request) :
    (∃ referer, request = .setPreference referer) ∨ Plain (destination base request) ∨
      ∃ rest, destination base request = base ++ '/' :: rest ∧
        (base = [] → isNetworkPath ('/' :: rest) = false) := by
  cases request with
  | setPreference referer => exact .inl ⟨referer, rfl⟩
  | login role mustChangePassword next referer =>
    refine .inr (.inl ?_)
    cases mustChangePassword with
    | true =>
      cases hnext : appNextPath next base with
      | none =>
        rw [destination, hnext]
        exact .inr (List.isPrefixOf_iff_prefix.mp rfl)
      | some path =>
        rw [destination, hnext]
        exact .inr ((List.isPrefixOf_iff_prefix.mp rfl).trans (prefix_withNextQuery _ _))
    | false => exact plain_appNextPath_getD (plain_returnPath role _)
  | tokenLogin needSetup next =>
    refine .inr (.inl ?_)
    cases needSetup with
    | true => exact .inr (List.isPrefixOf_iff_prefix.mp rfl)
    | false => exact plain_appNextPath_getD (.inr (List.isPrefixOf_iff_prefix.mp rfl))
  | changePassword role next =>
    exact .inr (.inl (plain_appNextPath_getD (plain_home role)))
  | challengeUnenrolled next =>
    obtain ⟨query, hquery⟩ :=
      prefix_withNextQuery (base ++ "/admin/account/mfa".toList) (safeNext next base)
    refine .inr (.inr ⟨"admin/account/mfa".toList ++ query, ?_, fun _ => rfl⟩)
    rw [destination, ← hquery, List.append_assoc]
    rfl
  | challengePassed next =>
    refine .inr (.inr ?_)
    rw [destination]
    split
    · exact ⟨_, rfl, fun _ => rfl⟩
    · next hne =>
      obtain ⟨hhead, hnot⟩ := (safeNext_cases next base).resolve_left hne
      obtain ⟨rest, hrest⟩ := List.head?_eq_some_iff.mp hhead
      rw [hrest] at hnot ⊢
      exact ⟨rest, rfl, hnot⟩

/-! ## Referers -/

theorem suffix_of_splitScheme {referer rest : Str} (h : splitScheme referer = some rest) :
    rest <:+ referer := by
  induction referer with
  | nil => cases h
  | cons c s ih =>
    unfold splitScheme at h
    split at h
    · cases h
      exact (List.drop_suffix 2 s).trans (List.suffix_cons c s)
    · exact (ih h).trans (List.suffix_cons c s)

theorem suffix_of_afterAuthority {referer : Str} (h : afterAuthority referer = some path) :
    path <:+ referer := by
  unfold afterAuthority at h
  split at h
  · next rest hrest =>
    split at h
    · cases h
    · cases h
      exact (List.dropWhile_suffix _).trans (suffix_of_splitScheme hrest)
  · cases h
    exact List.suffix_refl _

theorem visible_of_toStr {value : Str} (h : toStr value = some path) :
    value = path ∧ path.all isVisibleAscii = true := by
  unfold toStr at h
  split at h
  · next hvisible =>
    cases h
    exact ⟨rfl, hvisible⟩
  · cases h

theorem visible_refererPath {referer : Option Str} (h : refererPath referer = some path) :
    path.all isVisibleAscii = true := by
  obtain ⟨value, hvalue, hpath⟩ := Option.bind_eq_some_iff.mp h
  obtain ⟨raw, -, hraw⟩ := Option.bind_eq_some_iff.mp hvalue
  have hvisible := List.all_eq_true.mp (visible_of_toStr hraw).2
  exact List.all_eq_true.mpr fun c hc =>
    hvisible c ((suffix_of_afterAuthority hpath).subset hc)

theorem looksCrossOrigin_cases (h : looksCrossOrigin path = false) :
    path = ['/'] ∨ ∃ c rest, path = '/' :: c :: rest ∧ isSlash c = false := by
  simp only [looksCrossOrigin, Bool.or_eq_false_iff, Bool.not_eq_false'] at h
  obtain ⟨⟨hslash, hdouble⟩, hback⟩ := h
  cases path with
  | nil => cases hslash
  | cons d rest =>
    obtain rfl : '/' = d := by simpa [List.isPrefixOf] using hslash
    cases rest with
    | nil => exact .inl rfl
    | cons c rest =>
      refine .inr ⟨c, rest, rfl, ?_⟩
      have hc : '/' ≠ c := by simpa [List.isPrefixOf] using hdouble
      have hc' : '\\' ≠ c := by simpa [List.isPrefixOf] using hback
      simp [isSlash, hc.symm, hc'.symm]

/-- A path of visible ASCII that passes the check is a network path only through a tab. -/
theorem tab_of_isNetworkPath (hvisible : path.all isVisibleAscii = true)
    (hlooks : looksCrossOrigin path = false) (hnetwork : isNetworkPath path = true) :
    ['/', '\t'].isPrefixOf path = true := by
  rcases looksCrossOrigin_cases hlooks with rfl | ⟨c, rest, rfl, hc⟩
  · cases hnetwork
  · by_cases htab : c = '\t'
    · subst htab
      rfl
    · have hcontrol : isTabOrNewline c = false := by
        have hseen := List.all_eq_true.mp hvisible c (by simp)
        rw [← Bool.not_eq_true]
        intro hblank
        simp only [isTabOrNewline, Bool.or_eq_true, decide_eq_true_eq, htab, false_or] at hblank
        rcases hblank with rfl | rfl
        · cases hseen
        · cases hseen
      simp [isNetworkPath, hcontrol, hc] at hnetwork

theorem looksCrossOrigin_sameOriginPath (referer : Option Str) :
    looksCrossOrigin (sameOriginPath referer ['/']) = false := by
  unfold sameOriginPath
  split
  · split
    · rfl
    · next hlooks => exact Bool.eq_false_iff.mpr hlooks
  · rfl

theorem visible_sameOriginPath (referer : Option Str) :
    (sameOriginPath (referer.bind toStr) ['/']).all isVisibleAscii = true := by
  unfold sameOriginPath
  split
  · next path hpath =>
    split
    · rfl
    · exact visible_refererPath hpath
  · rfl

/-- The switch lets through exactly the slashes that a tab hides. -/
theorem isNetworkPath_sameOriginPath (referer : Option Str) :
    isNetworkPath (sameOriginPath (referer.bind toStr) ['/']) =
      (Request.setPreference referer).hidesSlash := by
  have hpath : (referer.bind toStr).bind afterAuthority = refererPath referer := rfl
  rw [sameOriginPath, hpath, Request.hidesSlash]
  cases hpath : refererPath referer with
  | none => rfl
  | some path =>
    dsimp only [Option.any_some]
    split
    · next hlooks =>
      by_cases htab : ['/', '\t'].isPrefixOf path = true
      · obtain ⟨rest, rfl⟩ := List.isPrefixOf_iff_prefix.mp htab
        cases hlooks
      · rw [Bool.eq_false_iff.mpr htab]
        rfl
    · next hlooks =>
      by_cases hnetwork : isNetworkPath path = true
      · rw [hnetwork, tab_of_isNetworkPath (visible_refererPath hpath)
          (Bool.eq_false_iff.mpr hlooks) hnetwork]
        rfl
      · rw [Bool.eq_false_iff.mpr hnetwork, Bool.and_false]

/-! ## The response layer -/

theorem normalizeBasePath_cases (raw : Str) :
    normalizeBasePath raw = [] ∨
      ∃ c t, normalizeBasePath raw = '/' :: c :: t ∧ c ≠ '/' := by
  unfold normalizeBasePath
  cases htrim : Tokens.trim (fun c => decide (c = '/')) raw.trim with
  | nil => exact .inl rfl
  | cons c t =>
    refine .inr ⟨c, t, rfl, ?_⟩
    have hself : Tokens.trim (fun c => decide (c = '/')) (c :: t) = c :: t := by
      rw [← htrim, Tokens.trim_trim]
    simpa using (Tokens.trim_eq_self_iff.mp hself).1 c rfl

theorem rewriteUrlBase_cases {value rewritten : Str} (hvalue : value.head? = some '/')
    (h : rewriteUrlBase value base = some rewritten) : rewritten = base ++ value := by
  obtain ⟨rest, rfl⟩ := List.head?_eq_some_iff.mp hvalue
  have htrim : ('/' :: rest).dropWhile isWhitespace = '/' :: rest := rfl
  simp only [rewriteUrlBase, htrim] at h
  split at h
  · cases h
  · split at h
    · cases h
    · exact (Option.some.inj h).symm

theorem prefixBasePath_cases (hℓ : ℓ.head? = some '/') :
    prefixBasePath base ℓ = ℓ ∨ prefixBasePath base ℓ = base ++ ℓ := by
  unfold prefixBasePath
  split
  · exact .inl rfl
  · split
    · next rewritten hrewritten =>
      split
      · obtain ⟨value, hvalue, hrewrite⟩ := Option.bind_eq_some_iff.mp hrewritten
        obtain ⟨rfl, -⟩ := visible_of_toStr hvalue
        exact .inr (rewriteUrlBase_cases hℓ hrewrite)
      · exact .inl rfl
    · exact .inl rfl

/-- A visible path gets the prefix, unless it has it or the result is no header value. -/
theorem prefixBasePath_rooted (hbase : base ≠ []) (hvisible : ℓ.all isVisibleAscii = true)
    (hhead : ['/'].isPrefixOf ℓ = true ∧ ['/', '/'].isPrefixOf ℓ = false) :
    prefixBasePath base ℓ =
      if ℓ = base ∨ (base ++ ['/']) <+: ℓ then ℓ
      else if (base ++ ℓ).all isHeaderChar then base ++ ℓ else ℓ := by
  have htrim : ℓ.dropWhile isWhitespace = ℓ := by
    obtain ⟨rest, rfl⟩ := List.isPrefixOf_iff_prefix.mp hhead.1
    rfl
  have htext : toStr ℓ = some ℓ := if_pos hvisible
  rw [prefixBasePath, if_neg hbase, htext, Option.bind_some]
  simp only [rewriteUrlBase, htrim, hhead, Bool.not_true, Bool.or_self, Bool.false_eq_true,
    if_false]
  by_cases hunder : ℓ = base ∨ (base ++ ['/']) <+: ℓ
  · rw [if_pos hunder, if_pos (by simpa using hunder)]
  · rw [if_neg hunder, if_neg (by simpa using hunder)]

theorem prefixBasePath_visible (hbase : base ≠ []) (hvisible : ℓ.all isVisibleAscii = true)
    (hlooks : looksCrossOrigin ℓ = false) :
    prefixBasePath base ℓ =
      if ℓ = base ∨ (base ++ ['/']) <+: ℓ then ℓ
      else if (base ++ ℓ).all isHeaderChar then base ++ ℓ else ℓ := by
  refine prefixBasePath_rooted hbase hvisible ?_
  simp only [looksCrossOrigin, Bool.or_eq_false_iff, Bool.not_eq_false'] at hlooks
  exact hlooks.1

theorem header_of_visible (h : ℓ.all isVisibleAscii = true) : ℓ.all isHeaderChar = true := by
  refine List.all_eq_true.mpr fun c hc => ?_
  have hseen := List.all_eq_true.mp h c hc
  simp only [isVisibleAscii, isHeaderChar, Bool.or_eq_true, Bool.and_eq_true,
    decide_eq_true_eq] at hseen ⊢
  refine hseen.imp_left fun hrange => ⟨hrange.1, ?_⟩
  omega

theorem head?_destination (hbase : base = [] ∨ base.head? = some '/') (request : Request) :
    (destination base request).head? = some '/' := by
  rcases destination_cases base request with ⟨referer, rfl⟩ | hplain | ⟨rest, hrest, -⟩
  · rcases looksCrossOrigin_cases (looksCrossOrigin_sameOriginPath (referer.bind toStr))
      with heq | ⟨c, rest, heq, -⟩
    · exact congrArg List.head? heq
    · exact congrArg List.head? heq
  · exact hplain.head?
  · rw [hrest]
    rcases hbase with rfl | hhead
    · rfl
    · obtain ⟨b, rfl⟩ := List.head?_eq_some_iff.mp hhead
      rfl

theorem hidesSlash_iff (request : Request) :
    request.hidesSlash = true ↔ (destination [] request).all isHeaderChar = true ∧
      isNetworkPath (destination [] request) = true := by
  constructor
  · intro hhides
    cases request with
    | setPreference referer =>
      refine ⟨header_of_visible (visible_sameOriginPath referer), ?_⟩
      exact (isNetworkPath_sameOriginPath referer).trans hhides
    | login => cases hhides
    | tokenLogin => cases hhides
    | changePassword => cases hhides
    | challengeUnenrolled => cases hhides
    | challengePassed => cases hhides
  · rintro ⟨-, hnetwork⟩
    rcases destination_cases [] request with ⟨referer, rfl⟩ | hplain | ⟨rest, hrest, hnot⟩
    · exact (isNetworkPath_sameOriginPath referer).symm.trans hnetwork
    · rw [hplain.not_isNetworkPath] at hnetwork
      cases hnetwork
    · rw [hrest, List.nil_append, hnot rfl] at hnetwork
      cases hnetwork

end Paths

/-! ## Same origin -/

section Safety

variable [Authorities] {base : Str}

/-- What the response layer inserts stays with its page exactly when it is no network path. -/
theorem sameOrigin_iff_location (hbase : base = [] ∨ base.head? = some '/') (request : Request) :
    SameOrigin base request ↔
      ((destination base request).all isHeaderChar = true →
        isNetworkPath (prefixBasePath base (destination base request)) = false) := by
  have hhead := head?_destination hbase request
  have hhead' : (prefixBasePath base (destination base request)).head? = some '/' := by
    rcases prefixBasePath_cases hhead with heq | heq
    · rw [heq]
      exact hhead
    · rw [heq]
      rcases hbase with rfl | hslash
      · exact hhead
      · obtain ⟨b, rfl⟩ := List.head?_eq_some_iff.mp hslash
        rfl
  unfold SameOrigin location
  by_cases hheader : (destination base request).all isHeaderChar = true
  · rw [if_pos hheader, ← forall_resolve_iff hhead']
    simp [hheader]
  · simp [hheader]

/-- Without a base path a redirect leaves the origin through a hidden slash only. -/
theorem sameOrigin_root_iff (request : Request) :
    SameOrigin [] request ↔ request.hidesSlash = false := by
  have hnone : prefixBasePath [] (destination [] request) = destination [] request := rfl
  rw [sameOrigin_iff_location (.inl rfl), hnone, ← Bool.not_eq_true, ← Bool.not_eq_true,
    hidesSlash_iff, not_and]

/-- Under a rooted base path everything stays. -/
theorem sameOrigin_of_rooted (hbase : base.head? = some '/') (hrooted : Rooted base)
    (request : Request) : SameOrigin base request := by
  obtain ⟨hvalid, hslash⟩ := hrooted
  have hne : base ≠ [] := by
    rintro rfl
    cases hbase
  have hunder : ∀ path : Str, path.head? = some '/' → isNetworkPath (base ++ path) = false := by
    intro path hpath
    obtain ⟨rest, rfl⟩ := List.head?_eq_some_iff.mp hpath
    rw [isNetworkPath_append hbase]
    exact hslash
  have hhead := head?_destination (.inr hbase) request
  refine (sameOrigin_iff_location (.inr hbase) request).mpr fun _ => ?_
  rcases destination_cases base request with ⟨referer, rfl⟩ | hplain | ⟨rest, hrest, -⟩
  · have hvisible := visible_sameOriginPath referer
    have hlooks := looksCrossOrigin_sameOriginPath (referer.bind toStr)
    have hpath : destination base (.setPreference referer) =
        sameOriginPath (referer.bind toStr) ['/'] := rfl
    rw [hpath] at hhead ⊢
    rw [prefixBasePath_visible hne hvisible hlooks]
    split
    · next hprefixed =>
      rcases hprefixed with heq | ⟨rest, hrest⟩
      · rw [heq]
        exact not_isNetworkPath_of_append hslash
      · rw [← hrest, List.append_assoc]
        exact hunder _ rfl
    · rw [if_pos]
      · exact hunder _ hhead
      · rw [List.all_append, hvalid, header_of_visible hvisible]
        rfl
  · rcases prefixBasePath_cases hhead with heq | heq
    · rw [heq]
      exact hplain.not_isNetworkPath
    · rw [heq]
      exact hunder _ hhead
  · rcases prefixBasePath_cases hhead with heq | heq
    · rw [heq, hrest]
      exact hunder _ rfl
    · rw [heq]
      exact hunder _ hhead

/-- A base path that keeps every redirect on its origin is rooted: the landing page falls
back to it, and a hidden slash gets through where no prefix can be inserted. -/
theorem rooted_of_forall (hbase : ∃ c t, base = '/' :: c :: t ∧ c ≠ '/')
    (hall : ∀ request, SameOrigin base request) : Rooted base := by
  obtain ⟨c, t, rfl, hc⟩ := hbase
  have hsafe := fun request => (sameOrigin_iff_location (.inr rfl) request).mp (hall request)
  have hvalid : ('/' :: c :: t).all isHeaderChar = true := by
    by_contra hinvalid
    have hnot := hsafe (.setPreference (some "/\t/".toList)) rfl
    have hunder : ¬ ("/\t/".toList = '/' :: c :: t ∨
        ('/' :: c :: t) ++ ['/'] <+: "/\t/".toList) := by
      rintro (heq | ⟨rest, hrest⟩)
      · rw [← heq] at hinvalid
        exact hinvalid rfl
      · refine hinvalid (List.all_eq_true.mpr fun d hd => ?_)
        have hmem : d ∈ "/\t/".toList := by
          rw [← hrest, List.append_assoc]
          exact List.mem_append_left _ hd
        exact List.all_eq_true.mp (rfl : "/\t/".toList.all isHeaderChar = true) d hmem
    have hpath : destination ('/' :: c :: t) (.setPreference (some "/\t/".toList)) =
        "/\t/".toList := rfl
    have hheader : ¬ (('/' :: c :: t) ++ "/\t/".toList).all isHeaderChar = true := by
      rw [List.all_append, Bool.and_eq_true]
      exact fun h => hinvalid h.1
    rw [hpath, prefixBasePath_visible (List.cons_ne_nil _ _) rfl rfl, if_neg hunder,
      if_neg hheader] at hnot
    cases hnot
  refine ⟨hvalid, ?_⟩
  have hnot := hsafe (.setPreference none) rfl
  have hpath : destination ('/' :: c :: t) (.setPreference none) = ['/'] := rfl
  have hunder : ¬ (['/'] = '/' :: c :: t ∨ ('/' :: c :: t) ++ ['/'] <+: ['/']) := by
    rintro (heq | hprefix)
    · cases heq
    · simpa using hprefix.length_le
  have hheader : (('/' :: c :: t) ++ ['/']).all isHeaderChar = true := by
    rw [List.all_append, hvalid]
    rfl
  rw [hpath, prefixBasePath_visible (List.cons_ne_nil _ _) rfl rfl, if_neg hunder,
    if_pos hheader] at hnot
  exact hnot

/-- **Redirects.** Served at the root, a redirect stays on its origin unless it switches a
preference from a referer that hides a slash behind a tab.  Under a base path every
redirect stays exactly when the base path is rooted. -/
theorem sameOrigin_iff (contextPath : Str) :
    if normalizeBasePath contextPath = [] then
      ∀ request, SameOrigin (normalizeBasePath contextPath) request ↔ request.hidesSlash = false
    else
      (∀ request, SameOrigin (normalizeBasePath contextPath) request) ↔
        Rooted (normalizeBasePath contextPath) := by
  rcases normalizeBasePath_cases contextPath with hroot | ⟨c, t, heq, hc⟩
  · rw [if_pos hroot, hroot]
    exact sameOrigin_root_iff
  · rw [heq, if_neg (List.cons_ne_nil _ _)]
    exact ⟨rooted_of_forall ⟨c, t, rfl, hc⟩, sameOrigin_of_rooted rfl⟩

end Safety

/-! ## A hidden slash -/

section Tab

/-- An authority without credentials and port, up to its first slash. -/
local instance : Authorities :=
  ⟨fun _ s => some (s.takeWhile fun c => !isSlash c, 80)⟩

theorem switch_leaves_origin :
    ¬ ∀ (contextPath : Str) (request : Request),
        SameOrigin (normalizeBasePath contextPath) request := by
  intro hclaim
  have hstays := hclaim [] (.setPreference (some "/\t/evil.example".toList))
    "/\t/evil.example".toList (by decide) ⟨.http, "portal".toList, 80⟩
  exact absurd hstays (by decide)

end Tab

end Ruscker.Routes
