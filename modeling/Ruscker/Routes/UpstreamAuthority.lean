import Mathlib.Tactic.Linarith
import Ruscker.Lib.Overlaps
import Ruscker.Lib.ScriptText
import Ruscker.Routes.RuntimeShim

/-!
# The container's own authority in a page

An app that builds absolute URLs from the `Host` it sees names the address that only the proxy
reaches.  The proxy puts the mount in its place.
-/

namespace Ruscker.Routes.Rewrite

open Matching

/-- A host and a port, as an address is printed. -/
structure Authority where
  host : Str
  port : Str
  host_plain : '/' ∉ host
  port_ne_nil : port ≠ []
  port_digits : ∀ c ∈ port, c.isDigit = true

def Authority.text (up : Authority) : Str := up.host ++ ':' :: up.port

inductive Scheme where
  | http
  | https
  deriving DecidableEq

namespace Scheme

def text : Scheme → Str
  | http => "http://".toList
  | https => "https://".toList

/-- `format!("http://{upstream}")` -/
def url (s : Scheme) (upstream : Str) : Str := s.text ++ upstream

theorem text_ne_nil (s : Scheme) : s.text ≠ [] := by
  cases s <;> decide

theorem url_ne_nil (s : Scheme) (upstream : Str) : s.url upstream ≠ [] :=
  List.append_ne_nil_of_left_ne_nil s.text_ne_nil upstream

end Scheme

/-- `trim_end_matches('/')` -/
def mountOf (basePath : Str) : Str := basePath.rdropWhile fun c => c = '/'

/-- `html.replace(&http, mount).replace(&https, mount)` -/
def replaceBoth (html upstream mount : Str) : Str :=
  replace (Scheme.https.url_ne_nil upstream) mount
    (replace (Scheme.http.url_ne_nil upstream) mount html)

def rewriteUpstreamAuthority (html upstream basePath : Str) : Option Str :=
  if upstream = [] then none
  else
    let mount := mountOf basePath
    let http := Scheme.http.url upstream
    let https := Scheme.https.url upstream
    if ¬ http <:+: html ∧ ¬ https <:+: html then none
    else some (replaceBoth html upstream mount)

/-! ## What the rewriting is for -/

/-- A place where the address is named, and whether its port ends there. -/
structure Link where
  scheme : Scheme
  ends : Bool
  deriving DecidableEq

def portEnds (rest : Str) : Bool := !rest.head?.any Char.isDigit

/-- The link at the head of a text. -/
def linkAt (upstream text : Str) : Option Link :=
  [Scheme.http, Scheme.https].findSome? fun s =>
    if s.url upstream <+: text then some ⟨s, portEnds (text.drop (s.url upstream).length)⟩
    else none

def linkPattern (upstream : Str) : Pattern Char Link where
  head := linkAt upstream
  text k := k.scheme.url upstream
  text_ne_nil k := k.scheme.url_ne_nil upstream
  text_prefix h := by
    obtain ⟨s, -, hs⟩ := List.exists_of_findSome?_eq_some h
    split_ifs at hs with hp
    obtain rfl := Option.some.inj hs
    exact hp

/-- The mount stands for every link whose port ends there, and nothing else changes. -/
def mountedLinks (html upstream mount : Str) : Str :=
  (linkPattern upstream).replaceWith
    (fun k => if k.ends then mount else k.scheme.url upstream) html

/-- The rewritten page, or the page itself, has the mount for exactly those links. -/
def ReplacesLinks (html : Str) (up : Authority) (basePath : Str) : Prop :=
  (rewriteUpstreamAuthority html up.text basePath).getD html =
    mountedLinks html up.text (mountOf basePath)

/-- No link of the scheme has a port that goes on. -/
def PortsEnd (s : Scheme) (html upstream : Str) : Prop :=
  ∀ d, d.isDigit = true → ¬ s.url upstream ++ [d] <:+: html

/-- Once the mount stands for the plain links, there are no other secure ones. -/
def MakesNoLink (html upstream mount : Str) : Prop :=
  MakesNone (Scheme.http.url_ne_nil upstream) (Scheme.https.url upstream) mount html

/-! ## Links do not overlap -/

section Links

variable {up : Authority} {s : Str}

theorem Authority.text_plain (up : Authority) : '/' ∉ up.text := by
  simp only [text, List.mem_append, List.mem_cons, not_or]
  refine ⟨up.host_plain, by decide, fun hmem => ?_⟩
  exact absurd (up.port_digits '/' hmem) (by decide)

theorem Authority.digit_of_suffix (hne : s ≠ []) (hs : s <:+ up.text) :
    ∃ c ∈ s, c.isDigit = true := by
  obtain ⟨p, d, hport⟩ := List.eq_nil_or_concat up.port |>.resolve_left up.port_ne_nil
  have htext : up.text = (up.host ++ ':' :: p) ++ [d] := by
    simp [text, hport]
  rw [htext] at hs
  obtain ⟨t, rfl, -⟩ := (List.suffix_concat_iff.mp hs).resolve_left hne
  exact ⟨d, by simp, up.port_digits d (by simp [hport])⟩

/-- Only the first letter of a scheme starts one. -/
theorem Scheme.text_eq (b : Scheme) : ∃ t, b.text = 'h' :: t ∧ 'h' ∉ t := by
  cases b
  · exact ⟨"ttp://".toList, by decide⟩
  · exact ⟨"ttps://".toList, by decide⟩

theorem Scheme.text_slash (b : Scheme) :
    ∃ p t, b.text = p ++ '/' :: t ∧ p.any Char.isDigit = false := by
  cases b
  · exact ⟨"http:".toList, ['/'], by decide⟩
  · exact ⟨"https:".toList, ['/'], by decide⟩

theorem suffix_of_head_notMem {a : Char} {t r : Str} (ha : a ∉ t) (h : a :: s <:+ t ++ r) :
    a :: s <:+ r := by
  induction t with
  | nil => exact h
  | cons b t ih =>
    rw [List.mem_cons, not_or] at ha
    rw [List.cons_append, List.suffix_cons_iff] at h
    rcases h with heq | h
    · exact absurd (List.cons.inj heq).1 ha.1
    · exact ih ha.2 h

/-- An end of the address is no beginning of a link, and has none. -/
theorem Scheme.url_of_suffix (b : Scheme) (hne : s ≠ []) (hs : s <:+ up.text) :
    ¬ s <+: b.url up.text ∧ ¬ b.url up.text <+: s := by
  have hplain : '/' ∉ s := fun hmem => up.text_plain (hs.subset hmem)
  obtain ⟨p, t, hp, hdigits⟩ := b.text_slash
  rw [url, hp, List.append_assoc, List.cons_append]
  constructor
  · intro hprefix
    obtain ⟨c, hc, hdigit⟩ := up.digit_of_suffix hne hs
    have hmem := (ScriptTexts.prefix_of_notMem hplain hprefix).subset hc
    exact List.any_eq_false.mp hdigits c hmem hdigit
  · exact fun hbegins => hplain (hbegins.subset (by simp))

theorem Scheme.url_apart (a b : Scheme) (up : Authority) :
    Apart (a.url up.text) (b.url up.text) := by
  intro s hne hs hself
  obtain ⟨t, ht, hnot⟩ := a.text_eq
  obtain ⟨t', ht', -⟩ := b.text_eq
  rw [url, ht, List.cons_append, List.suffix_cons_iff] at hs
  have htail : s <:+ t ++ up.text := by
    refine hs.resolve_left fun heq => hself ?_
    rw [heq, url, ht, List.cons_append]
  obtain ⟨c, r, rfl⟩ := List.exists_cons_of_ne_nil hne
  by_cases hc : c = 'h'
  · subst hc
    exact b.url_of_suffix hne (suffix_of_head_notMem hnot htail)
  · rw [url, ht', List.cons_append]
    exact ⟨fun h => hc (List.cons_prefix_cons.mp h).1,
      fun h => hc (List.cons_prefix_cons.mp h).1.symm⟩

theorem Scheme.url_not_prefix {a b : Scheme} (hab : a ≠ b) (upstream : Str) :
    ¬ a.url upstream <+: b.url upstream := by
  have hhttp : http.text = ['h', 't', 't', 'p', ':', '/', '/'] := by decide
  have hhttps : https.text = ['h', 't', 't', 'p', 's', ':', '/', '/'] := by decide
  cases a <;> cases b
  · exact absurd rfl hab
  · simp [url, hhttp, hhttps]
  · simp [url, hhttp, hhttps]
  · exact absurd rfl hab

theorem Scheme.unmixed {a b : Scheme} (hab : a ≠ b) (up : Authority) :
    Unmixed (a.url up.text) (b.url up.text) :=
  ⟨a.url_apart b up, b.url_apart a up, url_not_prefix hab up.text,
    url_not_prefix hab.symm up.text⟩

theorem linkAt_eq_none_iff {upstream l : Str} :
    linkAt upstream l = none ↔ ∀ b : Scheme, ¬ b.url upstream <+: l := by
  constructor
  · intro h b hp
    rw [linkAt, List.findSome?_eq_none_iff] at h
    have hb := h b (by cases b <;> simp)
    rw [if_pos hp] at hb
    cases hb
  · intro h
    rw [linkAt, List.findSome?_eq_none_iff]
    exact fun b _ => if_neg (h b)

theorem linkAt_url (b : Scheme) (up : Authority) (rest : Str) :
    linkAt up.text (b.url up.text ++ rest) = some ⟨b, portEnds rest⟩ := by
  cases hlink : linkAt up.text (b.url up.text ++ rest) with
  | none => exact absurd (List.prefix_append _ rest) (linkAt_eq_none_iff.mp hlink b)
  | some k =>
    obtain ⟨a, -, ha⟩ := List.exists_of_findSome?_eq_some hlink
    split_ifs at ha with hp
    obtain rfl : a = b := by
      by_contra hab
      exact (Scheme.unmixed hab up).not_starts (b.url_ne_nil up.text) List.suffix_rfl hp
    rw [← ha, List.drop_left]

theorem head_link (b : Scheme) (up : Authority) (rest : Str) :
    (linkPattern up.text).head ((linkPattern up.text).text ⟨b, portEnds rest⟩ ++ rest) =
      some ⟨b, portEnds rest⟩ := linkAt_url b up rest

/-- A link divides the text. -/
theorem link_separate (b : Scheme) (up : Authority) (x t : Str) :
    (linkPattern up.text).Separate x (b.url up.text ++ t) := by
  intro a s _
  change linkAt up.text _ = linkAt up.text _
  cases hlink : linkAt up.text (a :: s) with
  | none =>
    rw [linkAt_eq_none_iff] at hlink ⊢
    exact fun c hc =>
      hlink c ((c.url_apart b up).prefix_of_prefix_append (List.cons_ne_nil a s) hc)
  | some k =>
    obtain ⟨c, -, hc⟩ := List.exists_of_findSome?_eq_some hlink
    split_ifs at hc with hp
    obtain ⟨r, hr⟩ := hp
    rw [← hr, List.append_assoc, linkAt_url, ← hc, ← hr, List.drop_left]
    obtain ⟨t', ht', -⟩ := b.text_eq
    cases r with
    | nil => simp [portEnds, Scheme.url, ht']
    | cons d r => rfl

theorem hits_around_link (b : Scheme) (up : Authority) (x rest : Str) :
    (linkPattern up.text).hits (x ++ (b.url up.text ++ rest)) =
      (linkPattern up.text).hits x ++
        ⟨b, portEnds rest⟩ :: (linkPattern up.text).hits rest := by
  rw [Pattern.hits_append (link_separate b up x rest)]
  congr 1
  exact (linkPattern up.text).hits_text_append (head_link b up rest)

theorem replaceWith_around_link (f : Link → Str) (b : Scheme) (up : Authority) (x rest : Str) :
    (linkPattern up.text).replaceWith f (x ++ (b.url up.text ++ rest)) =
      (linkPattern up.text).replaceWith f x ++
        (f ⟨b, portEnds rest⟩ ++ (linkPattern up.text).replaceWith f rest) := by
  rw [Pattern.replaceWith_append (link_separate b up x rest)]
  congr 1
  exact (linkPattern up.text).replaceWith_text_append (head_link b up rest)

/-- A text is scanned off its head by a letter that starts no link, or by a link. -/
theorem linkInduction {motive : Str → Prop} (up : Authority) (nil : motive [])
    (literal : ∀ a l, (∀ b : Scheme, ¬ b.url up.text <+: a :: l) → motive l → motive (a :: l))
    (link : ∀ (b : Scheme) l, motive l → motive (b.url up.text ++ l)) (l : Str) : motive l :=
  (linkPattern up.text).scanInduction nil
    (fun a l h ih => literal a l (linkAt_eq_none_iff.mp h) ih)
    (fun k l _ ih => link k.scheme l ih) l

/-- The ports of a scheme's links end where no link is followed by a digit. -/
theorem portsEnd_iff {b : Scheme} {html : Str} : PortsEnd b html up.text ↔
    ∀ k ∈ (linkPattern up.text).hits html, k.scheme = b → k.ends = true := by
  constructor
  · rintro h k hk rfl
    obtain ⟨x, rest, rfl, hhead⟩ := (linkPattern up.text).exists_of_mem_hits hk
    have hends := congrArg (Option.map Link.ends) hhead
    change (linkAt up.text (k.scheme.url up.text ++ rest)).map Link.ends = some k.ends at hends
    rw [linkAt_url, Option.map_some, Option.some.injEq] at hends
    by_contra hfalse
    rw [← hends] at hfalse
    cases rest with
    | nil => exact hfalse rfl
    | cons d r =>
      have hdigit : d.isDigit = true := by simpa [portEnds] using hfalse
      exact h d hdigit ⟨x, r, by simp [linkPattern]⟩
  · rintro h d hdigit ⟨x, y, rfl⟩
    have hmem : ⟨b, portEnds (d :: y)⟩ ∈
        (linkPattern up.text).hits (x ++ (b.url up.text ++ d :: y)) := by
      rw [hits_around_link]
      exact List.mem_append_right _ List.mem_cons_self
    have hends := h ⟨b, portEnds (d :: y)⟩ (by simpa using hmem) rfl
    simp [portEnds, hdigit] at hends

end Links

/-! ## The two replacements -/

section Both

variable {up : Authority} {mount l g : Str}

/-- The first replacement, `html.replace(&http, mount)`. -/
def mountPlain (html upstream mount : Str) : Str :=
  replace (Scheme.http.url_ne_nil upstream) mount html

/-- The mount for a plain link, and `secure` for a secure one. -/
def standIn (mount : Str) (secure : Bool → Str) : Link → Str
  | ⟨.http, _⟩ => mount
  | ⟨.https, ends⟩ => secure ends

def secureWord (upstream : Str) : Pattern Char Unit :=
  word (Scheme.https.url upstream) (Scheme.https.url_ne_nil upstream)

theorem plain_secure (up : Authority) :
    Unmixed (Scheme.http.url up.text) (Scheme.https.url up.text) :=
  Scheme.unmixed (by decide) up

theorem mountPlain_eq (up : Authority) (mount l : Str) : mountPlain l up.text mount =
    (linkPattern up.text).replaceWith (standIn mount fun _ => Scheme.https.url up.text) l := by
  induction l using linkInduction up with
  | nil => rfl
  | literal a l h ih =>
    rw [mountPlain, replace_cons _ (h .http), ← mountPlain, ih,
      (linkPattern up.text).replaceWith_cons (linkAt_eq_none_iff.mpr h)]
  | link b l ih =>
    have hlink := replaceWith_around_link
      (standIn mount fun _ => Scheme.https.url up.text) b up [] l
    rw [List.nil_append, Pattern.replaceWith_nil, List.nil_append] at hlink
    rw [hlink, ← ih]
    cases b with
    | http => exact replace_append _ mount l
    | https => exact (plain_secure up).replace_append _ l

theorem mountPlain_around (x : Str) :
    mountPlain (x ++ (Scheme.https.url up.text ++ l)) up.text mount =
      mountPlain x up.text mount ++ (Scheme.https.url up.text ++ mountPlain l up.text mount) :=
  (plain_secure up).replace_around _ x l

/-- Where no secure link is, the plain ones decide. -/
theorem replaceWith_standIn (secure : Bool → Str) (hl : ¬ Scheme.https.url up.text <:+: l) :
    (linkPattern up.text).replaceWith (standIn mount secure) l = mountPlain l up.text mount := by
  rw [mountPlain_eq]
  refine (linkPattern up.text).replaceWith_congr fun k hk => ?_
  obtain ⟨x, y, rfl, -⟩ := (linkPattern up.text).exists_of_mem_hits hk
  obtain ⟨b, ends⟩ := k
  cases b with
  | http => rfl
  | https => exact absurd ⟨x, y, by simp [linkPattern]⟩ hl

theorem replaceBoth_of_free (hl : ¬ Scheme.https.url up.text <:+: mountPlain l up.text mount) :
    replaceBoth l up.text mount = mountPlain l up.text mount :=
  (secureWord up.text).replaceWith_of_hits_eq_nil
    ((hits_word_eq_nil_iff (Scheme.https.url_ne_nil up.text)).mpr hl)

theorem replaceBoth_around (x : Str) :
    replaceBoth (x ++ (Scheme.https.url up.text ++ l)) up.text mount =
      replaceBoth x up.text mount ++ (mount ++ replaceBoth l up.text mount) := by
  have hx : mountPlain (x ++ (Scheme.https.url up.text ++ l)) up.text mount = _ :=
    mountPlain_around x
  rw [replaceBoth, ← mountPlain, hx]
  exact replace_around _ (Scheme.https.url_apart .https up) _ _

/-- Without another secure link, both replacements put in the mount for every link. -/
theorem replaceBoth_eq (h : MakesNoLink l up.text mount) : replaceBoth l up.text mount =
    (linkPattern up.text).replaceWith (standIn mount fun _ => mount) l := by
  induction l using pieceInduction (Scheme.https.url_ne_nil up.text) with
  | piece l hl => rw [replaceBoth_of_free (h.piece hl), replaceWith_standIn _ hl]
  | word g l hg ih =>
    rw [replaceBoth_around, replaceBoth_of_free (h.first hg), replaceWith_around_link,
      replaceWith_standIn _ hg, ih h.rest]
    rfl

end Both

/-! ## How many links there are -/

section Counts

variable {up : Authority} {mount l : Str} {b : Scheme}

def linksOf (b : Scheme) (html upstream : Str) : List Link :=
  ((linkPattern upstream).hits html).filter fun k => k.scheme = b

/-- The links that the mount stands for. -/
def endedLinks (b : Scheme) (html upstream : Str) : Nat :=
  (linksOf b html upstream).countP Link.ends

theorem linksOf_around (b c : Scheme) (up : Authority) (x rest : Str) :
    linksOf b (x ++ (c.url up.text ++ rest)) up.text =
      linksOf b x up.text ++
        (if c = b then [⟨c, portEnds rest⟩] else []) ++ linksOf b rest up.text := by
  rw [linksOf, hits_around_link, List.filter_append, List.filter_cons, ← linksOf, ← linksOf,
    List.append_assoc]
  split_ifs <;> simp_all

theorem portsEnd_iff_count :
    PortsEnd b l up.text ↔ endedLinks b l up.text = (linksOf b l up.text).length := by
  rw [portsEnd_iff, endedLinks, List.countP_eq_length, linksOf]
  simp only [List.mem_filter, decide_eq_true_eq, and_imp]

@[simp] theorem endedLinks_nil (b : Scheme) (upstream : Str) : endedLinks b [] upstream = 0 := rfl

@[simp] theorem mountedLinks_nil (upstream mount : Str) : mountedLinks [] upstream mount = [] := rfl

theorem endedLinks_le (b : Scheme) (l upstream : Str) :
    endedLinks b l upstream ≤ (linksOf b l upstream).length :=
  List.countP_le_length

/-- The links of a scheme are the places of its word. -/
theorem length_linksOf (b : Scheme) (up : Authority) (l : Str) :
    (linksOf b l up.text).length =
      ((word (b.url up.text) (b.url_ne_nil up.text)).hits l).length := by
  induction l using linkInduction up with
  | nil => rfl
  | literal a l h ih =>
    have hword := (word_head_eq_none_iff (b.url_ne_nil up.text)).mpr (h b)
    rw [linksOf, (linkPattern up.text).hits_cons (linkAt_eq_none_iff.mpr h), ← linksOf, ih,
      Pattern.hits_cons _ hword]
  | link c l ih =>
    have hlinks := linksOf_around b c up [] l
    rw [List.nil_append] at hlinks
    by_cases hc : c = b
    · subst hc
      rw [hlinks, hits_word_append]
      simpa [linksOf] using ih
    · rw [hlinks, (Scheme.unmixed (Ne.symm hc) up).hits_append]
      simpa [linksOf, hc] using ih

theorem endedLinks_around (b c : Scheme) (up : Authority) (x rest : Str) :
    endedLinks b (x ++ (c.url up.text ++ rest)) up.text = endedLinks b x up.text +
      ((if c = b ∧ portEnds rest = true then 1 else 0) + endedLinks b rest up.text) := by
  rw [endedLinks, linksOf_around, List.countP_append, List.countP_append, ← endedLinks,
    ← endedLinks, Nat.add_assoc]
  by_cases hc : c = b
  · simp [hc, List.countP_singleton]
  · simp [hc]

theorem mountedLinks_around (b : Scheme) (up : Authority) (mount x rest : Str) :
    mountedLinks (x ++ (b.url up.text ++ rest)) up.text mount =
      mountedLinks x up.text mount ++
        ((if portEnds rest then mount else b.url up.text) ++ mountedLinks rest up.text mount) :=
  replaceWith_around_link _ b up x rest

theorem length_mountedLinks (up : Authority) (mount l : Str) :
    (mountedLinks l up.text mount).length +
        (endedLinks .http l up.text * (Scheme.http.url up.text).length +
          endedLinks .https l up.text * (Scheme.https.url up.text).length) =
      l.length + (endedLinks .http l up.text + endedLinks .https l up.text) * mount.length := by
  induction l using linkInduction up with
  | nil => simp
  | literal a l h ih =>
    have hhead := linkAt_eq_none_iff.mpr h
    have hended : ∀ b, endedLinks b (a :: l) up.text = endedLinks b l up.text := fun b => by
      rw [endedLinks, linksOf, (linkPattern up.text).hits_cons hhead]
      rfl
    rw [mountedLinks, (linkPattern up.text).replaceWith_cons hhead, ← mountedLinks, hended,
      hended, List.length_cons, List.length_cons]
    omega
  | link b l ih =>
    have hhttp := endedLinks_around .http b up [] l
    have hhttps := endedLinks_around .https b up [] l
    have hmounted := mountedLinks_around b up mount [] l
    rw [List.nil_append] at hhttp hhttps hmounted
    rw [Nat.add_mul] at ih
    rw [hhttp, hhttps, hmounted]
    cases b <;> cases portEnds l <;> simp [Nat.add_mul] <;> omega

/-- The secure links behind the first replacement are at least those of the page. -/
theorem linksOf_le_secure (up : Authority) (mount l : Str) :
    (linksOf .https l up.text).length ≤
      ((secureWord up.text).hits (mountPlain l up.text mount)).length := by
  rw [length_linksOf]
  exact length_hits_le_replace _ (Scheme.url_apart .https .https up) (plain_secure up) l

theorem makesNoLink_iff : MakesNoLink l up.text mount ↔
    ((secureWord up.text).hits (mountPlain l up.text mount)).length =
      (linksOf .https l up.text).length := by
  rw [length_linksOf]
  exact makesNone_iff _ (Scheme.url_apart .https .https up) (plain_secure up)

theorem length_replaceBoth (up : Authority) (mount l : Str) :
    (replaceBoth l up.text mount).length +
        ((linksOf .http l up.text).length * (Scheme.http.url up.text).length +
          ((secureWord up.text).hits (mountPlain l up.text mount)).length *
            (Scheme.https.url up.text).length) =
      l.length + ((linksOf .http l up.text).length +
        ((secureWord up.text).hits (mountPlain l up.text mount)).length) * mount.length := by
  have hplain := length_replace (Scheme.http.url_ne_nil up.text) mount l
  have hsecure := length_replace (Scheme.https.url_ne_nil up.text) mount
    (mountPlain l up.text mount)
  rw [← length_linksOf, ← mountPlain] at hplain
  rw [mountPlain, ← replaceBoth, ← mountPlain, ← secureWord] at hsecure
  rw [Nat.add_mul]
  omega

/-- Links of two lengths next to each other, changed for one of the same length in all. -/
theorem counts_of_lengths {u v w m : Nat} (h : u * w + v * (w + 1) = (u + v) * m) :
    (u = 0 ∧ v = 0) ∨ (m = w ∧ v = 0) ∨ (m = w + 1 ∧ u = 0) := by
  rcases Nat.lt_trichotomy m w with hlt | heq | hgt
  · obtain ⟨k, rfl⟩ := Nat.exists_eq_add_of_lt hlt
    have hzero : u * (k + 1) + v * (k + 2) = 0 := by linarith
    simp only [Nat.add_eq_zero_iff, Nat.mul_eq_zero] at hzero
    omega
  · subst heq
    have hzero : v = 0 := by linarith
    exact .inr (.inl ⟨rfl, hzero⟩)
  · obtain ⟨k, rfl⟩ := Nat.exists_eq_add_of_lt hgt
    have hzero : u * (k + 1) + v * k = 0 := by linarith
    simp only [Nat.add_eq_zero_iff, Nat.mul_eq_zero] at hzero
    omega

end Counts

/-! ## The port that goes on -/

section Exact

variable {up : Authority} {mount l : Str}

theorem rewriteUpstreamAuthority_getD (html : Str) (up : Authority) (basePath : Str) :
    (rewriteUpstreamAuthority html up.text basePath).getD html =
      replaceBoth html up.text (mountOf basePath) := by
  have hne : up.text ≠ [] := by simp [Authority.text]
  simp only [rewriteUpstreamAuthority, if_neg hne]
  split_ifs with hfree
  · have hplain : mountPlain html up.text (mountOf basePath) = html :=
      Pattern.replaceWith_of_hits_eq_nil _ ((hits_word_eq_nil_iff _).mpr hfree.1)
    rw [replaceBoth_of_free (by rw [hplain]; exact hfree.2), hplain]
    rfl
  · rfl

/-- The mount for the secure links whose port ends there. -/
def secureStandIn (upstream mount : Str) : Link → Str :=
  standIn mount fun ends => if ends then mount else Scheme.https.url upstream

/-- Every plain link is replaced, where no port goes on or the mount is the same. -/
theorem mountedLinks_eq
    (h : mount = Scheme.http.url up.text ∨ PortsEnd .http l up.text) :
    mountedLinks l up.text mount =
      (linkPattern up.text).replaceWith (secureStandIn up.text mount) l := by
  refine (linkPattern up.text).replaceWith_congr fun k hk => ?_
  obtain ⟨b, ends⟩ := k
  cases b with
  | https => rfl
  | http =>
    change (if ends then mount else Scheme.http.url up.text) = mount
    rcases h with heq | hports
    · rw [← heq, ite_self]
    · exact if_pos (portsEnd_iff.mp hports _ hk rfl)

theorem replaceWith_secureStandIn (h : PortsEnd .https l up.text) :
    (linkPattern up.text).replaceWith (secureStandIn up.text mount) l =
      (linkPattern up.text).replaceWith (standIn mount fun _ => mount) l := by
  refine (linkPattern up.text).replaceWith_congr fun k hk => ?_
  obtain ⟨b, ends⟩ := k
  cases b with
  | http => rfl
  | https => exact if_pos (portsEnd_iff.mp h _ hk rfl)

theorem replaceBoth_rightly (h : mount = Scheme.https.url up.text ∨
      PortsEnd .https l up.text ∧ MakesNoLink l up.text mount) :
    replaceBoth l up.text mount =
      (linkPattern up.text).replaceWith (secureStandIn up.text mount) l := by
  rcases h with rfl | ⟨hports, hnone⟩
  · have hself : replaceBoth l up.text (Scheme.https.url up.text) =
        mountPlain l up.text (Scheme.https.url up.text) :=
      (secureWord up.text).replaceWith_text _
    rw [hself, mountPlain_eq, secureStandIn]
    simp only [ite_self]
  · rw [replaceBoth_eq hnone, replaceWith_secureStandIn hports]

/-- A mount as long as a secure link shows where it was put in. -/
theorem secure_le_ended (hlen : mount.length = (Scheme.https.url up.text).length)
    (hne : mount ≠ Scheme.https.url up.text)
    (h : replaceBoth l up.text mount =
      (linkPattern up.text).replaceWith (secureStandIn up.text mount) l) :
    ((secureWord up.text).hits (mountPlain l up.text mount)).length ≤
      endedLinks .https l up.text := by
  have hsecure : ∀ x, replaceBoth x up.text mount = mountPlain x up.text mount →
      (secureWord up.text).hits (mountPlain x up.text mount) = [] := fun x hx =>
    (hits_word_eq_nil_iff _).mpr ((replace_eq_self_iff (Scheme.https.url_ne_nil up.text) hne).mp hx)
  induction l using pieceInduction (Scheme.https.url_ne_nil up.text) with
  | piece l hl =>
    rw [secureStandIn, replaceWith_standIn _ hl] at h
    rw [hsecure l h]
    exact Nat.zero_le _
  | word g l hg ih =>
    rw [replaceBoth_around, replaceWith_around_link, secureStandIn, replaceWith_standIn _ hg,
      ← secureStandIn] at h
    have hglen : (replaceBoth g up.text mount).length = (mountPlain g up.text mount).length := by
      have hcount := length_replace (Scheme.https.url_ne_nil up.text) mount
        (mountPlain g up.text mount)
      rw [hlen] at hcount
      exact Nat.add_right_cancel hcount
    obtain ⟨hgself, hrest⟩ := List.append_inj h hglen
    by_cases hends : portEnds l = true
    · have hmount : secureStandIn up.text mount ⟨.https, portEnds l⟩ = mount := if_pos hends
      rw [hmount, List.append_cancel_left_eq] at hrest
      have hcount := ih hrest
      rw [mountPlain_around, secureWord, hits_around _ (Scheme.url_apart .https .https up),
        ← secureWord, hsecure g hgself, endedLinks_around, if_pos ⟨rfl, hends⟩, List.length_nil]
      omega
    · have hself : secureStandIn up.text mount ⟨.https, portEnds l⟩ = Scheme.https.url up.text :=
        if_neg hends
      rw [hself] at hrest
      exact absurd (List.append_inj hrest hlen).1 hne

theorem secure_of_count (h : ((secureWord up.text).hits (mountPlain l up.text mount)).length ≤
      endedLinks .https l up.text) :
    PortsEnd .https l up.text ∧ MakesNoLink l up.text mount := by
  have hended := endedLinks_le .https l up.text
  have hsecure := linksOf_le_secure up mount l
  rw [portsEnd_iff_count, makesNoLink_iff]
  omega

/-- What the lengths tell where the page is as it should be. -/
theorem counts_of_eq (h : replaceBoth l up.text mount = mountedLinks l up.text mount) :
    (PortsEnd .http l up.text ∧
      PortsEnd .https l up.text ∧ MakesNoLink l up.text mount) ∨
    (mount.length = (Scheme.http.url up.text).length ∧
      PortsEnd .https l up.text ∧ MakesNoLink l up.text mount) ∨
    (mount.length = (Scheme.https.url up.text).length ∧ PortsEnd .http l up.text) := by
  have hboth := length_replaceBoth up mount l
  have hmounted := length_mountedLinks up mount l
  have hlonger : (Scheme.https.url up.text).length = (Scheme.http.url up.text).length + 1 := by
    have hhttp : Scheme.http.text.length = 7 := by decide
    have hhttps : Scheme.https.text.length = 8 := by decide
    rw [Scheme.url, Scheme.url, List.length_append, List.length_append, hhttp, hhttps]
    omega
  obtain ⟨u, hu⟩ := Nat.exists_eq_add_of_le (endedLinks_le .http l up.text)
  obtain ⟨v, hv⟩ := Nat.exists_eq_add_of_le
    ((endedLinks_le .https l up.text).trans (linksOf_le_secure up mount l))
  rw [h, hu, hv] at hboth
  rw [hlonger] at hboth hmounted
  have hcounts := counts_of_lengths (u := u) (v := v)
    (w := (Scheme.http.url up.text).length) (m := mount.length) (by linarith)
  have hplain : u = 0 → PortsEnd .http l up.text := fun hz => by
    rw [portsEnd_iff_count, hu, hz, Nat.add_zero]
  have hsecure : v = 0 → PortsEnd .https l up.text ∧ MakesNoLink l up.text mount := fun hz =>
    secure_of_count (by rw [hv, hz, Nat.add_zero])
  rcases hcounts with ⟨hz, hz'⟩ | ⟨hlen, hz⟩ | ⟨hlen, hz⟩
  · exact .inl ⟨hplain hz, hsecure hz'⟩
  · exact .inr (.inl ⟨hlen, hsecure hz⟩)
  · exact .inr (.inr ⟨hlen.trans hlonger.symm, hplain hz⟩)

/-- A mount as long as a plain link shows where it was put in. -/
theorem plain_of_eq (hlen : mount.length = (Scheme.http.url up.text).length)
    (hne : mount ≠ Scheme.http.url up.text)
    (hports : PortsEnd .https l up.text) (hnone : MakesNoLink l up.text mount)
    (h : replaceBoth l up.text mount = mountedLinks l up.text mount) :
    PortsEnd .http l up.text := by
  rw [replaceBoth_eq hnone, mountedLinks] at h
  rw [portsEnd_iff] at hports ⊢
  have hsame : ∀ k ∈ (linkPattern up.text).hits l,
      (standIn mount (fun _ => mount) k).length =
        (if k.ends then mount else k.scheme.url up.text).length := by
    rintro ⟨b, ends⟩ hk
    cases b with
    | http =>
      change mount.length = (if ends then mount else Scheme.http.url up.text).length
      split_ifs
      · rfl
      · exact hlen
    | https =>
      change mount.length = (if ends then mount else Scheme.https.url up.text).length
      rw [if_pos (hports _ hk rfl)]
  have hall := (linkPattern up.text).eq_of_replaceWith_eq hsame h
  rintro ⟨b, ends⟩ hk rfl
  by_contra hends
  exact hne ((hall _ hk).trans (if_neg hends))

theorem replaceBoth_eq_iff : replaceBoth l up.text mount = mountedLinks l up.text mount ↔
    (mount = Scheme.http.url up.text ∨ PortsEnd .http l up.text) ∧
      (mount = Scheme.https.url up.text ∨
        PortsEnd .https l up.text ∧ MakesNoLink l up.text mount) := by
  constructor
  · intro h
    rcases counts_of_eq h with ⟨hplain, hsecure⟩ | ⟨hlen, hports, hnone⟩ | ⟨hlen, hplain⟩
    · exact ⟨.inr hplain, .inr hsecure⟩
    · refine ⟨?_, .inr ⟨hports, hnone⟩⟩
      by_cases heq : mount = Scheme.http.url up.text
      · exact .inl heq
      · exact .inr (plain_of_eq hlen heq hports hnone h)
    · refine ⟨.inr hplain, ?_⟩
      by_cases heq : mount = Scheme.https.url up.text
      · exact .inl heq
      · rw [mountedLinks_eq (.inr hplain)] at h
        exact .inr (secure_of_count (secure_le_ended hlen heq h))
  · rintro ⟨hplain, hsecure⟩
    rw [mountedLinks_eq hplain, replaceBoth_rightly hsecure]

/-- Exactly the links whose port ends are replaced, if and only if no port goes on and the mount
makes no other link.  A mount that is itself a link is put in without a change. -/
theorem replacesLinks_iff (html : Str) (up : Authority) (basePath : Str) :
    ReplacesLinks html up basePath ↔
      (mountOf basePath = Scheme.http.url up.text ∨ PortsEnd .http html up.text) ∧
      (mountOf basePath = Scheme.https.url up.text ∨
        PortsEnd .https html up.text ∧ MakesNoLink html up.text (mountOf basePath)) := by
  rw [ReplacesLinks, rewriteUpstreamAuthority_getD, replaceBoth_eq_iff]

def localUpstream : Authority where
  host := "127.0.0.1".toList
  port := "8080".toList
  host_plain := by decide
  port_ne_nil := by decide
  port_digits := List.all_eq_true.mp (by decide)

/-- The link of another container is cut in two. -/
theorem longer_port_is_cut :
    rewriteUpstreamAuthority "http://127.0.0.1:80801/logo.png".toList localUpstream.text
        "/box/app/fastapi/".toList = some "/box/app/fastapi1/logo.png".toList ∧
      ¬ ReplacesLinks "http://127.0.0.1:80801/logo.png".toList localUpstream
        "/box/app/fastapi/".toList := by
  constructor
  · decide +kernel
  · unfold ReplacesLinks
    decide +kernel

theorem mountOf_ne_url {basePath : Str} (hroot : ['/'] <+: basePath) (b : Scheme)
    (upstream : Str) : mountOf basePath ≠ b.url upstream := by
  intro h
  have hprefix : mountOf basePath <+: basePath := List.rdropWhile_prefix _ basePath
  obtain ⟨t, ht, -⟩ := b.text_eq
  obtain ⟨r, rfl⟩ := hroot
  rw [h, Scheme.url, ht] at hprefix
  exact absurd (List.cons_prefix_cons.mp hprefix).1 (by decide)

/-- The mounts of the portal are no links. -/
theorem replaceBoth_appBase_iff (contextPath specId : Str) :
    (rewriteUpstreamAuthority l up.text (appBase contextPath specId)).getD l =
        mountedLinks l up.text (mountOf (appBase contextPath specId)) ↔
      PortsEnd .http l up.text ∧ PortsEnd .https l up.text ∧
        MakesNoLink l up.text (mountOf (appBase contextPath specId)) := by
  have hne := fun b => mountOf_ne_url (appBase_head contextPath specId) b up.text
  rw [rewriteUpstreamAuthority_getD, replaceBoth_eq_iff, or_iff_right (hne .http),
    or_iff_right (hne .https)]

end Exact

end Ruscker.Routes.Rewrite
