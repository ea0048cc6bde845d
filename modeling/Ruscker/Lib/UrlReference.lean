import Ruscker.Lib.Tokens

/-!
# URL references

How a browser resolves the text of a reference against the page it came from, as far as
the origin is concerned.  Control characters and spaces are dropped at both ends, tabs and
line breaks everywhere, and a backslash counts as a slash.  What an authority text means
is a parameter.
-/

namespace UrlReferences

inductive Scheme where
  | http
  | https
  deriving DecidableEq

structure Origin where
  scheme : Scheme
  host : List Char
  port : Nat
  deriving DecidableEq

/-- Reads the host and the port a text starts with; `none` where there is no host. -/
class Authorities where
  authority : Scheme → List Char → Option (List Char × Nat)

def isC0OrSpace (c : Char) : Bool := c.toNat ≤ 0x20

def isTabOrNewline (c : Char) : Bool := c = '\t' || c = '\n' || c = '\r'

def isSlash (c : Char) : Bool := c = '/' || c = '\\'

def clean (input : List Char) : List Char :=
  (Tokens.trim isC0OrSpace input).filter fun c => !isTabOrNewline c

def isSchemeChar (c : Char) : Bool := c.isAlphanum || c = '+' || c = '-' || c = '.'

def splitScheme (s : List Char) : Option (List Char × List Char) :=
  if s.head?.any Char.isAlpha then
    match s.dropWhile isSchemeChar with
    | ':' :: rest => some ((s.takeWhile isSchemeChar).map Char.toLower, rest)
    | _ => none
  else none

def schemeOf (name : List Char) : Option Scheme :=
  if name = "http".toList then some .http
  else if name = "https".toList then some .https
  else none

section Resolve

variable [Authorities]

/-- Any number of slashes may stand in front of an authority. -/
def openAuthority (scheme : Scheme) (s : List Char) : Option Origin :=
  (Authorities.authority scheme (s.dropWhile isSlash)).map fun p => ⟨scheme, p.1, p.2⟩

/-- Two slashes lead to an authority, and all else stays with the page. -/
def resolveRelative (page : Origin) (s : List Char) : Option Origin :=
  match s with
  | c :: d :: rest => if isSlash c && isSlash d then openAuthority page.scheme rest else some page
  | _ => some page

/-- The web origin a reference leads to: `none` for a failure or another kind of address. -/
def resolve (page : Origin) (input : List Char) : Option Origin :=
  let s := clean input
  match splitScheme s with
  | none => resolveRelative page s
  | some (name, rest) =>
    match schemeOf name with
    | none => none
    | some scheme =>
      if scheme = page.scheme && !(['/', '/'].isPrefixOf rest) then resolveRelative page rest
      else openAuthority scheme rest

end Resolve

/-- A rooted reference that names an authority of its own. -/
def isNetworkPath : List Char → Bool
  | '/' :: rest => (rest.find? fun c => !isTabOrNewline c).any isSlash
  | _ => false

/-! ## Parts of a reference -/

/-- A query or a fragment ends the path. -/
def isPathEnd (c : Char) : Bool := c = '?' || c = '#'

def pathOf (s : List Char) : List Char := s.takeWhile fun c => !isPathEnd c

/-- The query and the fragment, with their marks. -/
def suffixOf (s : List Char) : List Char := s.dropWhile fun c => !isPathEnd c

@[simp] theorem pathOf_append_suffixOf (s : List Char) : pathOf s ++ suffixOf s = s :=
  List.takeWhile_append_dropWhile

section Mounted

variable {base s : List Char} (h : base.all (fun c => !isPathEnd c) = true)

include h

theorem pathOf_append : pathOf (base ++ s) = base ++ pathOf s :=
  List.takeWhile_append_of_pos fun c hc => List.all_eq_true.mp h c hc

theorem suffixOf_append : suffixOf (base ++ s) = suffixOf s :=
  List.dropWhile_append_of_pos fun c hc => List.all_eq_true.mp h c hc

end Mounted

/-- A path that ends early ends in front of all that follows. -/
theorem length_pathOf_append_lt {base : List Char}
    (h : base.all (fun c => !isPathEnd c) ≠ true) (s : List Char) :
    (pathOf (base ++ s)).length < base.length := by
  induction base with
  | nil => exact absurd rfl h
  | cons c base ih =>
    by_cases hc : isPathEnd c = true
    · simp [pathOf, hc]
    · have hrest : base.all (fun c => !isPathEnd c) ≠ true := by
        simpa [Bool.eq_false_iff.mpr hc] using h
      simpa [pathOf, hc] using ih hrest

/-! ## The first segment -/

def isSegmentEnd (c : Char) : Bool := c = '/' || isPathEnd c

/-- The first segment of a rooted reference. -/
def firstSegment : List Char → List Char
  | '/' :: s => s.takeWhile fun c => !isSegmentEnd c
  | _ => []

section Segment

variable {w u : List Char} (h : w.all (fun c => !isSegmentEnd c) = true)

include h

theorem firstSegment_append (s : List Char) : firstSegment ('/' :: (w ++ s)) =
    w ++ s.takeWhile fun c => !isSegmentEnd c :=
  List.takeWhile_append_of_pos fun c hc => List.all_eq_true.mp h c hc

/-- What starts a rooted reference, without the end of a segment, starts the first one. -/
theorem prefix_firstSegment (hw : '/' :: w <+: u) : w <+: firstSegment u := by
  obtain ⟨s, rfl⟩ := hw
  rw [List.cons_append, firstSegment_append h]
  exact List.prefix_append _ _

theorem firstSegment_of_slash (hw : '/' :: (w ++ ['/']) <+: u) : firstSegment u = w := by
  obtain ⟨s, rfl⟩ := hw
  rw [List.cons_append, List.append_assoc, firstSegment_append h]
  exact List.append_nil w

end Segment

theorem prefix_of_firstSegment {w u : List Char} (hw : w ≠ []) (h : w <+: firstSegment u) :
    '/' :: w <+: u := by
  unfold firstSegment at h
  split at h
  · exact List.cons_prefix_cons.mpr ⟨rfl, h.trans (List.takeWhile_prefix _)⟩
  · exact absurd (List.prefix_nil.mp h) hw

/-! ## Rooted references -/

theorem isSlash_of_isC0OrSpace {c : Char} (h : isC0OrSpace c = true) : isSlash c = false := by
  rw [← Bool.not_eq_true]
  intro hslash
  simp only [isSlash, Bool.or_eq_true, decide_eq_true_eq] at hslash
  rcases hslash with rfl | rfl
  · cases h
  · cases h

/-- What is dropped at the end is no slash. -/
theorem any_find?_rdropWhile (q : Char → Bool) (s : List Char) :
    ((s.rdropWhile isC0OrSpace).find? q).any isSlash = (s.find? q).any isSlash := by
  induction s using List.reverseRecOn with
  | nil => rfl
  | append_singleton s b ih =>
    rw [List.rdropWhile_concat]
    split
    · next hblank =>
      rw [ih, List.find?_append]
      cases s.find? q with
      | some d => rfl
      | none =>
        have hnot := isSlash_of_isC0OrSpace hblank
        cases hb : q b <;> simp [hb, hnot]
    · rfl

theorem clean_rooted (rest : List Char) :
    clean ('/' :: rest) =
      '/' :: (rest.rdropWhile isC0OrSpace).filter fun c => !isTabOrNewline c := by
  rw [clean, Tokens.trim_cons_of_not_blank (by decide)]
  exact List.filter_cons_of_pos (by decide)

variable [Authorities]

theorem resolveRelative_rooted (page : Origin) (s : List Char) :
    resolveRelative page ('/' :: s) =
      if s.head?.any isSlash then openAuthority page.scheme s.tail else some page := by
  cases s with
  | nil => rfl
  | cons d rest => rfl

theorem resolve_rooted (page : Origin) (rest : List Char) :
    resolve page ('/' :: rest) =
      if isNetworkPath ('/' :: rest) then openAuthority page.scheme (clean ('/' :: rest)).tail.tail
      else some page := by
  have hscheme : splitScheme (clean ('/' :: rest)) = none := by
    rw [clean_rooted]
    rfl
  have hrooted : resolve page ('/' :: rest) = resolveRelative page (clean ('/' :: rest)) := by
    simp only [resolve, hscheme]
  rw [hrooted, clean_rooted, resolveRelative_rooted, List.head?_filter, any_find?_rdropWhile]
  rfl

/-- **Same origin.** A rooted reference stays with every page exactly when it is no
network path: an authority of its own cannot be that of every page. -/
theorem forall_resolve_iff {s : List Char} (h : s.head? = some '/') :
    (∀ page : Origin, resolve page s = some page) ↔ isNetworkPath s = false := by
  obtain ⟨rest, rfl⟩ : ∃ rest, s = '/' :: rest := by
    cases s with
    | nil => cases h
    | cons c rest =>
      cases h
      exact ⟨rest, rfl⟩
  constructor
  · intro hall
    rw [← Bool.not_eq_true]
    intro hnetwork
    have hpage : ∀ page : Origin, openAuthority page.scheme (clean ('/' :: rest)).tail.tail =
        some page := fun page => by
      rw [← hall page, resolve_rooted, if_pos hnetwork]
    have hsame := (hpage ⟨.http, [], 0⟩).symm.trans (hpage ⟨.http, [], 1⟩)
    cases hsame
  · intro hnone page
    rw [resolve_rooted, hnone]
    rfl

end UrlReferences
