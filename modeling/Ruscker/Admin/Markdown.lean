import Mathlib.Data.Option.Basic
import Ruscker.Lib.Nesting
import Ruscker.Lib.Spans
import Ruscker.Text

/-!
# Inline Markdown of the landing intro

`[label](https://url)`, `**bold**` and `*italic*` become tags, in one pass each over the escaped
text.  The link pass is the first one: what it puts into an attribute is read again by the two
others.
-/

namespace Ruscker.Admin.Markdown

open Nesting Scans Spans

/-! ## The passes -/

/-- `str::replace` of a character. -/
def replaceChar (c : Char) (entity s : Str) : Str := s.flatMap fun d => if d = c then entity else [d]

def escapeHtml (src : Str) : Str :=
  replaceChar '"' "&quot;".toList
    (replaceChar '>' "&gt;".toList
      (replaceChar '<' "&lt;".toList
        (replaceChar '&' "&amp;".toList src)))

structure Link where
  label : Str
  url : Str
  deriving DecidableEq

def isLabelEnd (c : Char) : Bool := c = ']'

def isUrlEnd (c : Char) : Bool := isWhitespace c || c = ')'

def isStar (c : Char) : Bool := c = '*'

/-- `https?://` -/
def schemes : List Str := ["http://".toList, "https://".toList]

def hasScheme (url : Str) : Bool := schemes.any fun p => (url.dropPrefix? p).any (· ≠ [])

/-- A match of `link_re`, and what follows it. -/
def linkAt (s : Str) : Option (Link × Str) := do
  let s ← s.dropPrefix? ['[']
  let label := s.takeWhile (isFree isLabelEnd)
  guard (label ≠ [])
  let s ← (s.dropWhile (isFree isLabelEnd)).dropPrefix? [']', '(']
  let url := s.takeWhile (isFree isUrlEnd)
  guard (hasScheme url)
  let rest ← (s.dropWhile (isFree isUrlEnd)).dropPrefix? [')']
  some (⟨label, url⟩, rest)

def anchorHref : Str := "<a href=\"".toList

def anchorRest : Str := "\" target=\"_blank\" rel=\"noopener\">".toList

def anchorEnd : Str := "</a>".toList

def strong : Str := "<strong>".toList

def strongEnd : Str := "</strong>".toList

def em : Str := "<em>".toList

def emEnd : Str := "</em>".toList

def anchor : Item Char Link → Str
  | .one c => [c]
  | .found link => anchorHref ++ (link.url ++ (anchorRest ++ (link.label ++ anchorEnd)))

def linkPass (s : Str) : Str := (scan linkAt s).flatMap anchor

def boldPass (s : Str) : Str := wrap isStar 2 strong strongEnd s

def italicPass (s : Str) : Str := wrap isStar 1 em emEnd s

def renderInline (src : Str) : Str :=
  let escaped := escapeHtml src
  let s := linkPass escaped
  let s := boldPass s
  italicPass s

/-! ## Escaping -/

section Escape

variable {s p : Str} {c : Char} {isMark : Char → Bool}

def specialChars : Str := ['&', '<', '>', '"']

/-- The characters of an entity behind its `&`. -/
def entityChars : Str := "ampltgquo;".toList

theorem escapeHtml_eq : escapeHtml s = s.flatMap fun c => escapeHtml [c] := by
  simp only [escapeHtml, replaceChar, List.flatMap_assoc, List.flatMap_singleton]

@[simp] theorem escapeHtml_nil : escapeHtml [] = [] := rfl

theorem escapeHtml_cons : escapeHtml (c :: s) = escapeHtml [c] ++ escapeHtml s := by
  rw [escapeHtml_eq, List.flatMap_cons, ← escapeHtml_eq]

theorem replaceChar_of_ne {d : Char} {entity : Str} (h : c ≠ d) :
    replaceChar d entity [c] = [c] := by
  rw [replaceChar, List.flatMap_singleton, if_neg h]

theorem escape_cases (c : Char) : c ∉ specialChars ∧ escapeHtml [c] = [c] ∨
    c ∈ specialChars ∧ ∃ s, escapeHtml [c] = '&' :: s ∧ ∀ d ∈ s, d ∈ entityChars := by
  by_cases h : c ∈ specialChars
  · refine .inr ⟨h, ?_⟩
    simp only [specialChars, List.mem_cons, List.not_mem_nil, or_false] at h
    rcases h with rfl | rfl | rfl | rfl
    · exact ⟨"amp;".toList, rfl, Str.forall_mem_of_all (by decide +kernel)⟩
    · exact ⟨"lt;".toList, rfl, Str.forall_mem_of_all (by decide +kernel)⟩
    · exact ⟨"gt;".toList, rfl, Str.forall_mem_of_all (by decide +kernel)⟩
    · exact ⟨"quot;".toList, rfl, Str.forall_mem_of_all (by decide +kernel)⟩
  · refine .inl ⟨h, ?_⟩
    simp only [specialChars, List.mem_cons, List.not_mem_nil, or_false, not_or] at h
    obtain ⟨hamp, hlt, hgt, hquot⟩ := h
    rw [escapeHtml, replaceChar_of_ne hamp, replaceChar_of_ne hlt, replaceChar_of_ne hgt,
      replaceChar_of_ne hquot]

theorem escape_ne_nil (c : Char) : escapeHtml [c] ≠ [] := by
  rcases escape_cases c with ⟨-, h⟩ | ⟨-, s, h, -⟩
  · rw [h]
    exact List.cons_ne_nil _ _
  · rw [h]
    exact List.cons_ne_nil _ _

theorem escapeHtml_ne_nil : escapeHtml s ≠ [] ↔ s ≠ [] := by
  rw [escapeHtml_eq, ne_eq, ne_eq, List.flatMap_eq_nil_iff, List.eq_nil_iff_forall_not_mem]
  simp only [escape_ne_nil, imp_false]

/-- Text has no angle bracket and no quote. -/
theorem mem_escape {d : Char} (h : d ∈ escapeHtml [c]) : d ∉ ['<', '>', '"'] := by
  rcases escape_cases c with ⟨hc, hplain⟩ | ⟨-, s, hentity, hs⟩
  · rw [hplain, List.mem_singleton] at h
    subst h
    exact fun hmem => hc (List.mem_cons_of_mem _ hmem)
  · rw [hentity] at h
    rcases List.mem_cons.mp h with rfl | h
    · decide
    · have hentities : ∀ d ∈ entityChars, d ∉ ['<', '>', '"'] :=
        Str.forall_mem_of_all (by decide)
      exact hentities d (hs d h)

/-- Escaping neither makes nor takes a character of another kind. -/
theorem spells_escape (hspecial : ∀ d ∈ specialChars, isMark d = false)
    (hentity : ∀ d ∈ entityChars, isMark d = false) :
    Spells isMark isMark fun c => escapeHtml [c] := by
  refine ⟨?_, ?_⟩
  · intro c hc
    rcases escape_cases c with ⟨-, h⟩ | ⟨hmem, -⟩
    · exact ⟨c, h, hc⟩
    · rw [hspecial c hmem] at hc
      cases hc
  · intro c hc
    refine ⟨escape_ne_nil c, ?_⟩
    rcases escape_cases c with ⟨-, h⟩ | ⟨-, s, h, hs⟩
    · rw [h]
      exact List.forall_mem_singleton.mpr hc
    · rw [h]
      exact List.forall_mem_cons.mpr ⟨hspecial _ (by decide), fun d hd => hentity d (hs d hd)⟩

theorem dropPrefix?_escape (hp : ∀ c ∈ p, c ∉ specialChars) :
    (escapeHtml s).dropPrefix? p = (s.dropPrefix? p).map escapeHtml := by
  induction p generalizing s with
  | nil => simp
  | cons c p ih =>
    obtain ⟨hc, hp⟩ := List.forall_mem_cons.mp hp
    cases s with
    | nil => rfl
    | cons d s =>
      rw [escapeHtml_cons, List.dropPrefix?]
      rcases escape_cases d with ⟨-, h⟩ | ⟨hd, t, h, -⟩
      · rw [h, List.singleton_append, List.dropPrefix?, ih hp]
        split <;> rfl
      · have hamp : ('&' == c) = false := by
          rw [beq_eq_false_iff_ne]
          rintro rfl
          exact hc (by decide)
        have hne : (d == c) = false := by
          rw [beq_eq_false_iff_ne]
          rintro rfl
          exact hc hd
        rw [h, List.cons_append, List.dropPrefix?, hamp, hne]
        rfl

theorem hasScheme_escape : hasScheme (escapeHtml s) = hasScheme s := by
  have hdecided : (schemes.all fun p => p.all fun c => decide (c ∉ specialChars)) = true := by decide
  have hplain : ∀ p ∈ schemes, ∀ c ∈ p, c ∉ specialChars :=
    fun p hp => Str.forall_mem_of_all (List.all_eq_true.mp hdecided p hp)
  rw [hasScheme, hasScheme, Bool.eq_iff_iff, List.any_eq_true, List.any_eq_true]
  refine exists_congr fun scheme => and_congr_right fun hscheme => ?_
  rw [dropPrefix?_escape (hplain scheme hscheme)]
  cases s.dropPrefix? scheme with
  | none => rfl
  | some rest => simp [escapeHtml_ne_nil]

end Escape

/-! ## Links -/

/-- An http(s) URL, with nothing that ends a target. -/
def IsHttpUrl (url : Str) : Prop := hasScheme url = true ∧ ∀ c ∈ url, isUrlEnd c = false

section Links

variable {s rest : Str} {link : Link}

theorem dropPrefix?_eq_some {p : Str} (h : s.dropPrefix? p = some rest) : s = p ++ rest := by
  obtain ⟨p', hs, hp⟩ := List.dropPrefix?_eq_some_iff.mp h
  rwa [eq_of_beq hp] at hs

theorem linkAt_eq_some (h : linkAt s = some (link, rest)) :
    s = ['['] ++ (link.label ++ ([']', '('] ++ (link.url ++ ([')'] ++ rest)))) ∧
      IsHttpUrl link.url := by
  simp only [linkAt, Option.bind_eq_bind, Option.bind_eq_some_iff, Option.guard_eq_some'] at h
  obtain ⟨s₁, hopen, _, -, s₂, hmiddle, _, hscheme, s₃, hclose, heq⟩ := h
  cases heq
  refine ⟨?_, hscheme, ?_⟩
  · rw [← dropPrefix?_eq_some hclose, List.takeWhile_append_dropWhile,
      ← dropPrefix?_eq_some hmiddle, List.takeWhile_append_dropWhile, ← dropPrefix?_eq_some hopen]
  · intro c hc
    have hfree := List.mem_takeWhile_imp hc
    simpa [isFree] using hfree

theorem takes_linkAt : Takes linkAt := by
  intro s link rest h
  rw [(linkAt_eq_some h).1]
  simp only [List.length_append, List.length_singleton]
  omega

theorem isFree_escape {isMark : Char → Bool} (h : Spells isMark isMark fun c => escapeHtml [c]) :
    (escapeHtml s).takeWhile (isFree isMark) = escapeHtml (s.takeWhile (isFree isMark)) ∧
      (escapeHtml s).dropWhile (isFree isMark) = escapeHtml (s.dropWhile (isFree isMark)) := by
  have hfree := isFree_flatMap (l := s) h
  simp only [← escapeHtml_eq] at hfree
  exact hfree

def Link.escape (link : Link) : Link := ⟨escapeHtml link.label, escapeHtml link.url⟩

/-- A link is there before escaping as after. -/
theorem linkAt_escape :
    linkAt (escapeHtml s) = (linkAt s).map fun p => (p.1.escape, escapeHtml p.2) := by
  have hlabel : Spells isLabelEnd isLabelEnd fun c => escapeHtml [c] :=
    spells_escape (Str.forall_mem_of_all (by decide)) (Str.forall_mem_of_all (by decide))
  have hurl : Spells isUrlEnd isUrlEnd fun c => escapeHtml [c] :=
    spells_escape (Str.forall_mem_of_all (by decide)) (Str.forall_mem_of_all (by decide))
  have hopen {s : Str} := dropPrefix?_escape (s := s) (p := ['['])
    (Str.forall_mem_of_all (by decide))
  have hmiddle {s : Str} := dropPrefix?_escape (s := s) (p := [']', '('])
    (Str.forall_mem_of_all (by decide))
  have hclose {s : Str} := dropPrefix?_escape (s := s) (p := [')'])
    (Str.forall_mem_of_all (by decide))
  simp only [linkAt, Option.bind_eq_bind, Option.map_bind, hopen, hmiddle, hclose, Option.bind_map,
    Function.comp_def, isFree_escape hlabel, isFree_escape hurl, escapeHtml_ne_nil,
    hasScheme_escape, Option.map_some, Link.escape]

end Links

/-! ## Documents -/

inductive Mark where
  | strong | em
  deriving DecidableEq

/-- The asterisks on each side. -/
def Mark.width : Mark → Nat
  | .strong => 2
  | .em => 1

inductive Tag where
  | enter | middle | leave
  | start (m : Mark)
  | stop (m : Mark)
  deriving DecidableEq

def Tag.html : Tag → Str
  | .enter => anchorHref
  | .middle => anchorRest
  | .leave => anchorEnd
  | .start .strong => strong
  | .stop .strong => strongEnd
  | .start .em => em
  | .stop .em => emEnd

def allTags : List Tag :=
  [.enter, .middle, .leave, .start .strong, .stop .strong, .start .em, .stop .em]

theorem mem_allTags (t : Tag) : t ∈ allTags := by
  cases t with
  | enter | middle | leave => decide
  | start m | stop m => cases m <;> decide

theorem Tag.html_ne_nil (t : Tag) : t.html ≠ [] :=
  (by decide +kernel : ∀ t ∈ allTags, t.html ≠ []) t (mem_allTags t)

/-- Text with links and emphasis. -/
inductive Inline where
  | nil
  | text (c : Char) (next : Inline)
  | link (url : Str) (label next : Inline)
  | emph (m : Mark) (body next : Inline)

namespace Inline

def html : Inline → Str
  | nil => []
  | text c next => escapeHtml [c] ++ next.html
  | link url label next =>
    Tag.enter.html ++ (escapeHtml url ++ (Tag.middle.html ++
      (label.html ++ (Tag.leave.html ++ next.html))))
  | emph m body next => (Tag.start m).html ++ (body.html ++ ((Tag.stop m).html ++ next.html))

/-- The document as it is written. -/
def source : Inline → Str
  | nil => []
  | text c next => c :: next.source
  | link url label next =>
    ['['] ++ (label.source ++ ([']', '('] ++ (url ++ ([')'] ++ next.source))))
  | emph m body next =>
    List.replicate m.width '*' ++ (body.source ++ (List.replicate m.width '*' ++ next.source))

def urls : Inline → List Str
  | nil => []
  | text _ next => next.urls
  | link url label next => url :: (label.urls ++ next.urls)
  | emph _ body next => body.urls ++ next.urls

def append : Inline → Inline → Inline
  | nil, doc => doc
  | text c next, doc => text c (next.append doc)
  | link url label next, doc => link url label (next.append doc)
  | emph m body next, doc => emph m body (next.append doc)

end Inline

/-- What is rendered is a document, and it is the document that was written. -/
def Faithful (src : Str) : Prop :=
  ∃ doc : Inline, doc.html = renderInline src ∧ doc.source = src ∧ ∀ url ∈ doc.urls, IsHttpUrl url

/-! ## Cells -/

/-- A character or a tag, with where it comes from. -/
inductive Cell where
  | text (c : Char)
  | enter (url : Str)
  | target (c : Char) (rest url : Str)
  | middle (url : Str)
  | leave (url : Str)
  | start (m : Mark)
  | stop (m : Mark)
  deriving DecidableEq

namespace Cell

def tag : Cell → Option Tag
  | text _ | target _ _ _ => none
  | enter _ => some .enter
  | middle _ => some .middle
  | leave _ => some .leave
  | start m => some (.start m)
  | stop m => some (.stop m)

def html : Cell → Str
  | text c | target c _ _ => escapeHtml [c]
  | enter _ => Tag.enter.html
  | middle _ => Tag.middle.html
  | leave _ => Tag.leave.html
  | start m => (Tag.start m).html
  | stop m => (Tag.stop m).html

def source : Cell → Str
  | text c => [c]
  | enter _ => ['[']
  | target _ _ _ | middle _ => []
  | leave url => [']', '('] ++ (url ++ [')'])
  | start m | stop m => List.replicate m.width '*'

def isStar : Cell → Bool
  | text c | target c _ _ => Markdown.isStar c
  | _ => false

end Cell

def targetCells (url : Str) : Str → List Cell
  | [] => [.middle url]
  | c :: rest => .target c rest url :: targetCells url rest

def itemCells : Item Char Link → List Cell
  | .one c => [.text c]
  | .found link =>
    .enter link.url :: (targetCells link.url link.url ++ (link.label.map .text ++ [.leave link.url]))

/-- The cells of a text, its links taken. -/
def linkCells (src : Str) : List Cell := (scan linkAt src).flatMap itemCells

/-- The cells with the spans of a mark taken. -/
def emphasize (m : Mark) (cells : List Cell) : List Cell :=
  wrap Cell.isStar m.width [.start m] [.stop m] cells

section Cells

variable {src : Str}

theorem html_targetCells {url rest : Str} :
    (targetCells url rest).flatMap Cell.html = escapeHtml rest ++ Tag.middle.html := by
  induction rest with
  | nil => exact List.append_nil _
  | cons c rest ih =>
    rw [targetCells, List.flatMap_cons, ih, escapeHtml_cons, List.append_assoc]
    rfl

theorem html_texts {s : Str} : (s.map Cell.text).flatMap Cell.html = escapeHtml s := by
  rw [List.flatMap_map, escapeHtml_eq]
  rfl

theorem linkAt_of_entity {a c : Char} {m : Str} (h : c ∈ (escapeHtml [a]).tail) :
    linkAt (c :: m) = none := by
  have hc : c ∈ entityChars := by
    rcases escape_cases a with ⟨-, hplain⟩ | ⟨-, s, hentity, hs⟩
    · rw [hplain] at h
      cases h
    · rw [hentity] at h
      exact hs c h
  have hentities : ∀ c ∈ entityChars, c ≠ '[' := Str.forall_mem_of_all (by decide)
  have hne := hentities c hc
  have hopen : (c :: m).dropPrefix? ['['] = none := if_neg fun heq => hne (eq_of_beq heq)
  rw [linkAt, hopen]
  rfl

theorem anchor_spelled (item : Item Char Link) :
    (item.spelled (fun c => escapeHtml [c]) Link.escape).flatMap anchor =
      (itemCells item).flatMap Cell.html := by
  cases item with
  | one c =>
    simp only [Item.spelled, itemCells, List.flatMap_cons, List.flatMap_map, anchor,
      List.flatMap_singleton', List.flatMap_nil, List.append_nil, Cell.html]
  | found link =>
    simp only [Item.spelled, itemCells, List.flatMap_cons, List.flatMap_append, html_targetCells,
      html_texts, List.flatMap_nil, List.append_nil, List.append_assoc, Cell.html, Tag.html, anchor,
      Link.escape]

/-- The link pass over the escaped text renders the cells of the text. -/
theorem linkPass_escapeHtml : linkPass (escapeHtml src) = (linkCells src).flatMap Cell.html := by
  have hmatch : ∀ s : Str, linkAt (s.flatMap fun c => escapeHtml [c]) =
      (linkAt s).map fun p => (p.1.escape, p.2.flatMap fun c => escapeHtml [c]) := by
    intro s
    simp only [← escapeHtml_eq, linkAt_escape]
  have hscan := scan_flatMap takes_linkAt takes_linkAt escape_ne_nil hmatch
    (fun a c hc m => linkAt_of_entity hc) src
  rw [linkPass, escapeHtml_eq, hscan, linkCells, List.flatMap_assoc, List.flatMap_assoc]
  exact List.flatMap_congr fun item _ => anchor_spelled item

theorem source_targetCells {url rest : Str} :
    (targetCells url rest).flatMap Cell.source = [] := by
  induction rest with
  | nil => rfl
  | cons c rest ih => exact ih

theorem source_texts {s : Str} : (s.map Cell.text).flatMap Cell.source = s := by
  rw [List.flatMap_map]
  exact List.flatMap_singleton' s

theorem source_linkCells : (linkCells src).flatMap Cell.source = src := by
  refine scan_induct takes_linkAt (motive := fun s items =>
    (items.flatMap itemCells).flatMap Cell.source = s) rfl ?_ ?_ src
  · intro c s _ ih
    rw [List.flatMap_cons, List.flatMap_append, ih]
    rfl
  · intro s link rest hfound ih
    rw [List.flatMap_cons, List.flatMap_append, ih, (linkAt_eq_some hfound).1]
    simp only [itemCells, List.flatMap_cons, List.flatMap_append, source_targetCells, source_texts,
      Cell.source, List.flatMap_nil, List.append_nil, List.nil_append, List.append_assoc]

theorem urls_linkCells {url : Str} (h : .enter url ∈ linkCells src) : IsHttpUrl url := by
  refine scan_induct takes_linkAt (motive := fun _ items =>
    Cell.enter url ∈ items.flatMap itemCells → IsHttpUrl url) nofun ?_ ?_ src h
  · intro c s _ ih hmem
    rw [List.flatMap_cons] at hmem
    rcases List.mem_append.mp hmem with hmem | hmem
    · simp [itemCells] at hmem
    · exact ih hmem
  · intro s link rest hfound ih hmem
    rw [List.flatMap_cons] at hmem
    rcases List.mem_append.mp hmem with hmem | hmem
    · have htarget : ∀ rest, Cell.enter url ∉ targetCells link.url rest := by
        intro rest
        induction rest with
        | nil => simp [targetCells]
        | cons c rest ih => simpa [targetCells] using ih
      simp [itemCells, htarget] at hmem
      subst hmem
      exact (linkAt_eq_some hfound).2
    · exact ih hmem

theorem eq_star_of_isStar {c : Char} (h : isStar c = true) : c = '*' := of_decide_eq_true h

/-- An asterisk of a cell is one of the rendered text, and no other is there. -/
theorem spells_html : Spells Cell.isStar isStar Cell.html := by
  have hescape : Spells isStar isStar fun c => escapeHtml [c] :=
    spells_escape (Str.forall_mem_of_all (by decide +kernel)) (Str.forall_mem_of_all (by decide +kernel))
  have hdecided : (allTags.all fun t => t.html.all fun c => decide (isStar c = false)) = true := by
    decide +kernel
  have hfree : ∀ t ∈ allTags, ∀ c ∈ t.html, isStar c = false :=
    fun t ht => Str.forall_mem_of_all (List.all_eq_true.mp hdecided t ht)
  have htag : ∀ t : Tag, t.html ≠ [] ∧ ∀ c ∈ t.html, isStar c = false :=
    fun t => ⟨t.html_ne_nil, hfree t (mem_allTags t)⟩
  refine ⟨?_, ?_⟩
  · intro cell h
    cases cell with
    | text c | target c _ _ => exact hescape.mark c h
    | enter _ | middle _ | leave _ | start _ | stop _ => cases h
  · intro cell h
    cases cell with
    | text c | target c _ _ => exact hescape.free c h
    | enter _ => exact htag .enter
    | middle _ => exact htag .middle
    | leave _ => exact htag .leave
    | start m => exact htag (.start m)
    | stop m => exact htag (.stop m)

theorem emphasize_html {m : Mark} {cells : List Cell} :
    wrap isStar m.width (Tag.start m).html (Tag.stop m).html (cells.flatMap Cell.html) =
      (emphasize m cells).flatMap Cell.html := by
  have hwidth : 0 < m.width := by cases m <;> decide
  have hwrap : wrap isStar m.width ([Cell.start m].flatMap Cell.html)
      ([Cell.stop m].flatMap Cell.html) (cells.flatMap Cell.html) =
        (emphasize m cells).flatMap Cell.html := wrap_flatMap spells_html hwidth
  rwa [List.flatMap_singleton, List.flatMap_singleton] at hwrap

/-- What is rendered are the cells with the spans of both marks taken. -/
theorem renderInline_eq : renderInline src =
    (emphasize .em (emphasize .strong (linkCells src))).flatMap Cell.html := by
  rw [← emphasize_html, ← emphasize_html, ← linkPass_escapeHtml]
  rfl

end Cells

/-! ## Reading -/

inductive Kind where
  | target | link
  | mark (m : Mark)
  deriving DecidableEq

/-- No tag stands in a target. -/
def Kind.isTarget (k : Kind) : Bool := k = .target

def Tag.act : Tag → Act Kind
  | .enter => .push (some .target)
  | .middle => .turn .target (some .link)
  | .leave => .turn .link none
  | .start m => .push (some (.mark m))
  | .stop m => .turn (.mark m) none

def nests (st : List Kind) (tags : List Tag) : Option (List Kind) :=
  run Kind.isTarget st (tags.map Tag.act)

/-- What is open, with the rest of a target and the URL that a link has to end with. -/
inductive Frame where
  | target (rest url : Str)
  | link (url : Str)
  | mark (m : Mark)
  deriving DecidableEq

def Frame.kind : Frame → Kind
  | .target _ _ => .target
  | .link _ => .link
  | .mark m => .mark m

def Frame.isTarget (f : Frame) : Bool := f.kind.isTarget

def Cell.act : Cell → Act Frame
  | .text _ => .push none
  | .enter url => .push (some (.target url url))
  | .target c rest url => .turn (.target (c :: rest) url) (some (.target rest url))
  | .middle url => .turn (.target [] url) (some (.link url))
  | .leave url => .turn (.link url) none
  | .start m => .push (some (.mark m))
  | .stop m => .turn (.mark m) none

def reads (st : List Frame) (cells : List Cell) : Option (List Frame) :=
  run Frame.isTarget st (cells.map Cell.act)

/-- A span between asterisks of the text that has each link and each mark whole or not at all. -/
def IsWhole : Spans.Part Cell → Prop
  | .one _ => True
  | .found s => (∀ c ∈ s.before ++ s.after, c = .text '*') ∧ reads [] s.run = some []

instance : DecidablePred IsWhole
  | .one _ => inferInstanceAs (Decidable True)
  | .found _ => inferInstanceAs (Decidable (_ ∧ _))

section Reads

variable {st st' : List Frame} {c : Cell} {cells cells' : List Cell}

theorem reads_cons : reads st (c :: cells) = some st' ↔
    ∃ st₁, step Frame.isTarget st c.act = some st₁ ∧ reads st₁ cells = some st' := run_cons

theorem reads_append : reads st (cells ++ cells') = some st' ↔
    ∃ st₁, reads st cells = some st₁ ∧ reads st₁ cells' = some st' := by
  rw [reads, List.map_append]
  exact run_append

theorem reads_texts (h : ∀ c ∈ cells, ∃ d, c = .text d) (hopen : Open Frame.isTarget st) :
    reads st cells = some st := by
  induction cells with
  | nil => rfl
  | cons c cells ih =>
    obtain ⟨⟨d, rfl⟩, hcells⟩ := List.forall_mem_cons.mp h
    exact reads_cons.mpr ⟨st, step_push.mpr ⟨hopen, rfl⟩, ih hcells⟩

theorem open_of_reads (h : ∀ c ∈ cells, c = .text '*') (hne : cells ≠ [])
    (hreads : reads st cells = some st') : Open Frame.isTarget st := by
  obtain ⟨c, cells, rfl⟩ := List.exists_cons_of_ne_nil hne
  obtain ⟨rfl, -⟩ := List.forall_mem_cons.mp h
  obtain ⟨_, hstep, -⟩ := reads_cons.mp hreads
  exact (step_push.mp hstep).1

theorem reads_targetCells {url rest : Str} :
    reads (.target rest url :: st) (targetCells url rest) = some (.link url :: st) := by
  induction rest with
  | nil => exact reads_cons.mpr ⟨_, step_turn.mpr ⟨st, rfl, rfl⟩, rfl⟩
  | cons c rest ih => exact reads_cons.mpr ⟨_, step_turn.mpr ⟨st, rfl, rfl⟩, ih⟩

/-- Tags around a whole span can be read where the asterisks were. -/
theorem reads_wrapped {m : Mark} {s : Span Cell} (hspan : IsSpan Cell.isStar m.width s)
    (hwhole : IsWhole (.found s)) (h : reads st (source (.found s)) = some st') :
    reads st (wrapped [.start m] [.stop m] (.found s)) = some st' := by
  obtain ⟨hmarkers, hrun⟩ := hwhole
  obtain ⟨hbefore, hafter⟩ := List.forall_mem_append.mp hmarkers
  have hne : s.before ≠ [] := by
    rw [← List.length_pos_iff, hspan.length_before]
    cases m <;> decide
  obtain ⟨st₁, h₁, h⟩ := reads_append.mp h
  have hopen := open_of_reads hbefore hne h₁
  obtain ⟨st₂, h₂, h⟩ := reads_append.mp h
  cases h₁.symm.trans (reads_texts (fun c hc => ⟨_, hbefore c hc⟩) hopen)
  cases h₂.symm.trans (run_frame hrun hopen)
  cases h.symm.trans (reads_texts (fun c hc => ⟨_, hafter c hc⟩) hopen)
  have hmark : Open Frame.isTarget (.mark m :: st) := open_cons.mpr rfl
  have hstop : reads (.mark m :: st) [.stop m] = some st :=
    reads_cons.mpr ⟨st, step_turn.mpr ⟨st, rfl, rfl⟩, rfl⟩
  show reads st (.start m :: (s.run ++ [.stop m])) = some st
  exact reads_cons.mpr ⟨.mark m :: st, step_push.mpr ⟨hopen, rfl⟩,
    reads_append.mpr ⟨_, run_frame hrun hmark, hstop⟩⟩

/-- Taking whole spans keeps what can be read. -/
theorem reads_flatMap_wrapped {m : Mark} {ps : List (Spans.Part Cell)}
    (hspan : ∀ s, .found s ∈ ps → IsSpan Cell.isStar m.width s) (hwhole : ∀ p ∈ ps, IsWhole p)
    (h : reads st (ps.flatMap source) = some st') :
    reads st (ps.flatMap (wrapped [.start m] [.stop m])) = some st' := by
  induction ps generalizing st with
  | nil => exact h
  | cons p ps ih =>
    obtain ⟨hp, hps⟩ := List.forall_mem_cons.mp hwhole
    rw [List.flatMap_cons] at h ⊢
    obtain ⟨st₁, hfirst, hrest⟩ := reads_append.mp h
    have hrest' := ih (fun s hs => hspan s (List.mem_cons_of_mem _ hs)) hps hrest
    refine reads_append.mpr ⟨st₁, ?_, hrest'⟩
    cases p with
    | one c => exact hfirst
    | found s => exact reads_wrapped (hspan s List.mem_cons_self) hp hfirst

theorem reads_emphasize {m : Mark} (hwhole : ∀ p ∈ parts Cell.isStar m.width cells, IsWhole p)
    (h : reads [] cells = some []) : reads [] (emphasize m cells) = some [] := by
  refine reads_flatMap_wrapped (fun s hs => isSpan_of_mem hs) hwhole ?_
  rwa [flatMap_source]

theorem source_wrapped {m : Mark} {s : Span Cell} (hspan : IsSpan Cell.isStar m.width s)
    (hwhole : IsWhole (.found s)) : (wrapped [.start m] [.stop m] (.found s)).flatMap Cell.source =
      (source (.found s)).flatMap Cell.source := by
  obtain ⟨hbefore, hafter⟩ := List.forall_mem_append.mp hwhole.1
  have hb : s.before = List.replicate m.width (.text '*') :=
    List.eq_replicate_iff.mpr ⟨hspan.length_before, hbefore⟩
  have ha : s.after = List.replicate m.width (.text '*') :=
    List.eq_replicate_iff.mpr ⟨hspan.length_after, hafter⟩
  have hstars : (List.replicate m.width (Cell.text '*')).flatMap Cell.source =
      List.replicate m.width '*' := by cases m <;> rfl
  simp only [wrapped, Spans.source, List.flatMap_append, hb, ha, hstars, List.flatMap_singleton,
    Cell.source]

theorem source_emphasize {m : Mark} (hwhole : ∀ p ∈ parts Cell.isStar m.width cells, IsWhole p) :
    (emphasize m cells).flatMap Cell.source = cells.flatMap Cell.source := by
  have hparts : (parts Cell.isStar m.width cells).flatMap source = cells := flatMap_source
  conv_rhs => rw [← hparts]
  rw [emphasize, wrap, List.flatMap_assoc, List.flatMap_assoc]
  refine List.flatMap_congr fun p hp => ?_
  cases p with
  | one c => rfl
  | found s => exact source_wrapped (isSpan_of_mem hp) (hwhole _ hp)

end Reads

/-! ## From cells to a document -/

namespace Inline

def cells : Inline → List Cell
  | nil => []
  | text c next => .text c :: next.cells
  | link url label next =>
    .enter url :: (targetCells url url ++ (label.cells ++ .leave url :: next.cells))
  | emph m body next => .start m :: (body.cells ++ .stop m :: next.cells)

variable {doc doc' : Inline} {st : List Frame}

theorem cells_append : (doc.append doc').cells = doc.cells ++ doc'.cells := by
  induction doc with
  | nil => rfl
  | text c next ih => rw [append, cells, cells, ih, List.cons_append]
  | link url label next _ ih =>
    simp only [append, cells, ih, List.cons_append, List.append_assoc]
  | emph m body next _ ih => simp only [append, cells, ih, List.cons_append, List.append_assoc]

theorem html_cells : doc.cells.flatMap Cell.html = doc.html := by
  induction doc with
  | nil => rfl
  | text c next ih => rw [cells, html, List.flatMap_cons, ih, Cell.html]
  | link url label next ihlabel ih =>
    simp only [cells, html, List.flatMap_cons, List.flatMap_append, ihlabel, ih, html_targetCells,
      Cell.html, List.append_assoc]
  | emph m body next ihbody ih =>
    simp only [cells, html, List.flatMap_cons, List.flatMap_append, ihbody, ih, Cell.html]

theorem source_cells : doc.cells.flatMap Cell.source = doc.source := by
  induction doc with
  | nil => rfl
  | text c next ih =>
    rw [cells, source, List.flatMap_cons, ih]
    rfl
  | link url label next ihlabel ih =>
    simp only [cells, source, List.flatMap_cons, List.flatMap_append, ihlabel, ih,
      source_targetCells, Cell.source, List.append_assoc, List.nil_append]
  | emph m body next ihbody ih =>
    simp only [cells, source, List.flatMap_cons, List.flatMap_append, ihbody, ih, Cell.source]

theorem enter_mem {url : Str} (h : url ∈ doc.urls) : .enter url ∈ doc.cells := by
  induction doc with
  | nil => cases h
  | text c next ih => exact List.mem_cons_of_mem _ (ih h)
  | link url' label next ihlabel ih =>
    rcases List.mem_cons.mp h with rfl | h
    · exact List.mem_cons_self
    · refine List.mem_cons_of_mem _ (List.mem_append_right _ ?_)
      rcases List.mem_append.mp h with h | h
      · exact List.mem_append_left _ (ihlabel h)
      · exact List.mem_append_right _ (List.mem_cons_of_mem _ (ih h))
  | emph m body next ihbody ih =>
    refine List.mem_cons_of_mem _ ?_
    rcases List.mem_append.mp h with h | h
    · exact List.mem_append_left _ (ihbody h)
    · exact List.mem_append_right _ (List.mem_cons_of_mem _ (ih h))

/-- A document leaves nothing open. -/
theorem reads_cells (hopen : Open Frame.isTarget st) : reads st doc.cells = some st := by
  induction doc generalizing st with
  | nil => rfl
  | text c next ih => exact reads_cons.mpr ⟨st, step_push.mpr ⟨hopen, rfl⟩, ih hopen⟩
  | link url label next ihlabel ih =>
    have hlink : Open Frame.isTarget (.link url :: st) := open_cons.mpr rfl
    exact reads_cons.mpr ⟨_, step_push.mpr ⟨hopen, rfl⟩, reads_append.mpr ⟨_, reads_targetCells,
      reads_append.mpr ⟨_, ihlabel hlink, reads_cons.mpr ⟨st, step_turn.mpr ⟨st, rfl, rfl⟩,
        ih hopen⟩⟩⟩⟩
  | emph m body next ihbody ih =>
    have hmark : Open Frame.isTarget (.mark m :: st) := open_cons.mpr rfl
    exact reads_cons.mpr ⟨_, step_push.mpr ⟨hopen, rfl⟩, reads_append.mpr ⟨_, ihbody hmark,
      reads_cons.mpr ⟨st, step_turn.mpr ⟨st, rfl, rfl⟩, ih hopen⟩⟩⟩

end Inline

/-- The cells that close some frames, with a document in each and after the last. -/
inductive Closes : List Frame → List Cell → Prop where
  | done (doc : Inline) : Closes [] doc.cells
  | mark {st l} (m : Mark) (doc : Inline) :
    Closes st l → Closes (.mark m :: st) (doc.cells ++ .stop m :: l)
  | link {st l} (url : Str) (doc : Inline) :
    Closes st l → Closes (.link url :: st) (doc.cells ++ .leave url :: l)
  | target {st l} (rest url : Str) :
    Closes (.link url :: st) l → Closes (.target rest url :: st) (targetCells url rest ++ l)

section Closes

variable {st : List Frame} {l : List Cell}

theorem Closes.prepend (doc : Inline) (h : Closes st l) (hopen : Open Frame.isTarget st) :
    Closes st (doc.cells ++ l) := by
  cases h with
  | done doc' => exact Inline.cells_append ▸ Closes.done (doc.append doc')
  | mark m doc' h =>
    rw [← List.append_assoc, ← Inline.cells_append]
    exact .mark m _ h
  | link url doc' h =>
    rw [← List.append_assoc, ← Inline.cells_append]
    exact .link url _ h
  | target rest url h => cases hopen

theorem closes_of_reads (h : reads st l = some []) : Closes st l := by
  induction l generalizing st with
  | nil =>
    cases h
    exact .done .nil
  | cons c l ih =>
    obtain ⟨st₁, hstep, hreads⟩ := reads_cons.mp h
    have hl := ih hreads
    cases c with
    | text c =>
      obtain ⟨hopen, rfl⟩ := step_push.mp hstep
      exact hl.prepend (.text c .nil) hopen
    | enter url =>
      obtain ⟨hopen, rfl⟩ := step_push.mp hstep
      cases hl with
      | target _ _ hl =>
        cases hl with
        | link _ doc hl =>
          have hdoc := hl.prepend (.link url doc .nil) hopen
          simpa [Inline.cells] using hdoc
    | target c rest url =>
      obtain ⟨base, rfl, rfl⟩ := step_turn.mp hstep
      cases hl with
      | target _ _ hl => exact .target (c :: rest) url hl
    | middle url =>
      obtain ⟨base, rfl, rfl⟩ := step_turn.mp hstep
      exact .target [] url hl
    | leave url =>
      obtain ⟨base, rfl, rfl⟩ := step_turn.mp hstep
      exact .link url .nil hl
    | start m =>
      obtain ⟨hopen, rfl⟩ := step_push.mp hstep
      cases hl with
      | mark _ doc hl =>
        have hdoc := hl.prepend (.emph m doc .nil) hopen
        simpa [Inline.cells] using hdoc
    | stop m =>
      obtain ⟨base, rfl, rfl⟩ := step_turn.mp hstep
      exact .mark m .nil hl

/-- Cells that leave nothing open are those of a document. -/
theorem exists_cells (h : reads [] l = some []) : ∃ doc : Inline, doc.cells = l := by
  cases closes_of_reads h with
  | done doc => exact ⟨doc, rfl⟩

end Closes

/-! ## From tags to cells -/

/-- A tag, and what follows it. -/
def tagAt (s : Str) : Option (Tag × Str) :=
  allTags.findSome? fun t => (s.dropPrefix? t.html).map fun rest => (t, rest)

def Item.tag : Item Char Tag → Option Tag
  | .one _ => none
  | .found t => some t

/-- The tags of a page. -/
def tags (s : Str) : List Tag := (scan tagAt s).filterMap Item.tag

def cellTags (cells : List Cell) : List Tag := cells.filterMap Cell.tag

section Tags

variable {s : Str}

theorem tagAt_eq_some {t : Tag} {rest : Str} (h : tagAt s = some (t, rest)) :
    s = t.html ++ rest := by
  obtain ⟨t', -, hmap⟩ := List.exists_of_findSome?_eq_some h
  obtain ⟨rest', hdrop, heq⟩ := Option.map_eq_some_iff.mp hmap
  cases heq
  exact dropPrefix?_eq_some hdrop

theorem takes_tagAt : Takes tagAt := by
  intro s t rest h
  have hne := List.length_pos_iff.mpr t.html_ne_nil
  rw [tagAt_eq_some h, List.length_append]
  omega

/-- No tag begins with another one. -/
theorem tagAt_append (t : Tag) : tagAt (t.html ++ s) = some (t, s) := by
  have hfirst : ∀ t ∈ allTags, ∀ t' ∈ allTags, t.html <+: t'.html → t = t' := by decide +kernel
  cases h : tagAt (t.html ++ s) with
  | none =>
    have hnone := List.findSome?_eq_none_iff.mp h t (mem_allTags t)
    rw [List.dropPrefix?_append_of_beq s BEq.rfl] at hnone
    cases hnone
  | some p =>
    obtain ⟨t', rest⟩ := p
    have heq := tagAt_eq_some h
    have ht : t' = t := by
      rcases List.prefix_or_prefix_of_prefix (heq ▸ List.prefix_append t'.html rest)
        (List.prefix_append t.html s) with hle | hle
      · exact hfirst _ (mem_allTags t') _ (mem_allTags t) hle
      · exact (hfirst _ (mem_allTags t) _ (mem_allTags t') hle).symm
    subst ht
    rw [List.append_cancel_left heq]

theorem tagAt_of_text {c : Char} (h : c ∉ ['<', '>', '"']) : tagAt (c :: s) = none := by
  have hhead : ∀ t ∈ allTags, t.html.head? = some '<' ∨ t.html.head? = some '"' := by decide
  cases htag : tagAt (c :: s) with
  | none => rfl
  | some p =>
    obtain ⟨t, rest⟩ := p
    obtain ⟨d, p, hp⟩ := List.exists_cons_of_ne_nil t.html_ne_nil
    have heq := tagAt_eq_some htag
    rw [hp, List.cons_append] at heq
    obtain ⟨rfl, -⟩ := List.cons.inj heq
    rcases hhead t (mem_allTags t) with hd | hd
    · rw [hp] at hd
      cases hd
      exact absurd (by decide) h
    · rw [hp] at hd
      cases hd
      exact absurd (by decide) h

theorem tags_append (t : Tag) : tags (t.html ++ s) = t :: tags s := by
  rw [tags, scan_of_found takes_tagAt (tagAt_append t)]
  rfl

theorem tags_escape {c : Char} : tags (escapeHtml [c] ++ s) = tags s := by
  rw [tags, scan_append fun d hd m => tagAt_of_text (mem_escape hd), List.filterMap_append,
    List.filterMap_map]
  exact congrArg (· ++ tags s) (List.filterMap_eq_nil_iff.mpr fun _ _ => rfl)

theorem tags_html {cells : List Cell} : tags (cells.flatMap Cell.html) = cellTags cells := by
  induction cells with
  | nil => rfl
  | cons c cells ih =>
    rw [List.flatMap_cons]
    cases c with
    | text c | target c _ _ => exact tags_escape.trans ih
    | enter _ => exact (tags_append .enter).trans (congrArg (Tag.enter :: ·) ih)
    | middle _ => exact (tags_append .middle).trans (congrArg (Tag.middle :: ·) ih)
    | leave _ => exact (tags_append .leave).trans (congrArg (Tag.leave :: ·) ih)
    | start m => exact (tags_append (.start m)).trans (congrArg (Tag.start m :: ·) ih)
    | stop m => exact (tags_append (.stop m)).trans (congrArg (Tag.stop m :: ·) ih)

end Tags

/-! ## Nesting of the tags -/

/-- No tag of a mark. -/
def Plain (m : Mark) (cells : List Cell) : Prop := ∀ c ∈ cells, c ≠ .start m ∧ c ≠ .stop m

section Nests

variable {st st' v : List Frame} {w w' : List Kind} {ts ts' : List Tag} {c : Cell}
  {cells cells' : List Cell} {m : Mark}

theorem cellTags_cons : cellTags (c :: cells) = c.tag.toList ++ cellTags cells := by
  cases h : c.tag <;> simp [cellTags, h]

theorem cellTags_append : cellTags (cells ++ cells') = cellTags cells ++ cellTags cells' :=
  List.filterMap_append

theorem nests_append : nests w (ts ++ ts') = some w' ↔
    ∃ w₁, nests w ts = some w₁ ∧ nests w₁ ts' = some w' := by
  rw [nests, List.map_append]
  exact run_append

theorem nests_singleton {t : Tag} (h : step Kind.isTarget w t.act = some w') :
    nests w [t] = some w' := run_cons.mpr ⟨w', h, rfl⟩

theorem nests_of_step (h : step Frame.isTarget st c.act = some st') :
    nests (st.map Frame.kind) c.tag.toList = some (st'.map Frame.kind) := by
  have hkind : step Kind.isTarget (st.map Frame.kind) (c.act.map Frame.kind) =
      some (st'.map Frame.kind) := step_map (fun _ => rfl) h
  cases c with
  | text c =>
    obtain ⟨-, rfl⟩ := step_push.mp h
    rfl
  | target c rest url =>
    obtain ⟨base, rfl, rfl⟩ := step_turn.mp h
    rfl
  | enter _ | middle _ | leave _ | start _ | stop _ => exact nests_singleton hkind

theorem nests_of_reads (h : reads st cells = some st') :
    nests (st.map Frame.kind) (cellTags cells) = some (st'.map Frame.kind) := by
  induction cells generalizing st with
  | nil =>
    cases h
    rfl
  | cons c cells ih =>
    obtain ⟨st₁, hstep, hreads⟩ := reads_cons.mp h
    rw [cellTags_cons]
    exact nests_append.mpr ⟨_, nests_of_step hstep, ih hreads⟩

/-- Cells that close only what they opened need nothing below. -/
theorem reads_of_nests {pre : List Frame} {k : List Kind} (hopen : Open Frame.isTarget st)
    (h : reads (pre ++ st) cells = some v)
    (hnests : nests (pre.map Frame.kind) (cellTags cells) = some k) :
    ∃ pre', v = pre' ++ st ∧ reads pre cells = some pre' := by
  induction cells generalizing pre with
  | nil =>
    cases h
    exact ⟨pre, rfl, rfl⟩
  | cons c cells ih =>
    obtain ⟨v₁, hstep, hreads⟩ := reads_cons.mp h
    rw [cellTags_cons] at hnests
    obtain ⟨k₁, hk₁, hk⟩ := nests_append.mp hnests
    have hfirst : ∃ pre₁, v₁ = pre₁ ++ st ∧ step Frame.isTarget pre c.act = some pre₁ := by
      by_cases hne : pre = []
      · subst hne
        cases c with
        | text _ | enter _ | start _ =>
          obtain ⟨-, rfl⟩ := step_push.mp hstep
          exact ⟨_, rfl, step_push.mpr ⟨Open.nil, (List.append_nil _).symm⟩⟩
        | target _ _ _ =>
          obtain ⟨base, rfl, -⟩ := step_turn.mp hstep
          cases hopen
        | middle _ | leave _ | stop _ =>
          obtain ⟨_, hturn, -⟩ := run_cons.mp hk₁
          obtain ⟨_, hnil, -⟩ := step_turn.mp hturn
          cases hnil
      · rw [step_append hne] at hstep
        obtain ⟨pre₁, hpre, rfl⟩ := Option.map_eq_some_iff.mp hstep
        exact ⟨pre₁, rfl, hpre⟩
    obtain ⟨pre₁, rfl, hpre⟩ := hfirst
    cases hk₁.symm.trans (nests_of_step hpre)
    obtain ⟨pre', hv, hreads'⟩ := ih hreads hk
    exact ⟨pre', hv, reads_cons.mpr ⟨pre₁, hpre, hreads'⟩⟩

theorem act_about {t : Tag} : t.act.About (.mark m) ↔ t = .start m ∨ t = .stop m := by
  cases t <;> simp [Tag.act, Act.About]

theorem Plain.not_about (h : Plain m cells) {t : Tag} (ht : t ∈ cellTags cells) :
    ¬ t.act.About (.mark m) := by
  obtain ⟨c, hc, htag⟩ := List.mem_filterMap.mp ht
  rw [act_about]
  rintro (rfl | rfl)
  · cases c with
    | start m' =>
      cases htag
      exact (h _ hc).1 rfl
    | text _ | enter _ | target _ _ _ | middle _ | leave _ | stop _ => cases htag
  · cases c with
    | stop m' =>
      cases htag
      exact (h _ hc).2 rfl
    | text _ | enter _ | target _ _ _ | middle _ | leave _ | start _ => cases htag

theorem Plain.filter_cellTags (h : Plain m cells) :
    (cellTags cells).filter (fun t => ¬ t.act.About (.mark m)) = cellTags cells :=
  List.filter_eq_self.mpr fun _ ht => decide_eq_true (h.not_about ht)

theorem nests_erase (hsound : Sound Kind.isTarget w) (h : nests w ts = some w') :
    nests (w.filter (· ≠ .mark m)) (ts.filter fun t => ¬ t.act.About (.mark m)) =
      some (w'.filter (· ≠ .mark m)) := by
  have hturn : ∀ g, .turn (.mark m) (some g) ∉ ts.map Tag.act := by
    intro g hmem
    obtain ⟨t, -, ht⟩ := List.mem_map.mp hmem
    cases t <;> cases ht
  have hto : ∀ f, .turn f (some (.mark m)) ∉ ts.map Tag.act := by
    intro f hmem
    obtain ⟨t, -, ht⟩ := List.mem_map.mp hmem
    cases t <;> cases ht
  have hrun := run_filter hsound h hturn hto
  rw [List.filter_map] at hrun
  exact hrun

/-- What is read between the tags of a mark leaves nothing open. -/
theorem nests_body (hplain : ∀ t ∈ ts, ¬ t.act.About (.mark m))
    (h : nests (.mark m :: w) ts = some (.mark m :: w')) : w' = w ∧ nests [] ts = some [] := by
  have hturn : ∀ g, .turn (.mark m) g ∉ ts.map Tag.act := by
    intro g hmem
    obtain ⟨t, ht, hact⟩ := List.mem_map.mp hmem
    cases t with
    | stop m' =>
      cases hact
      exact hplain _ ht (act_about.mpr (.inr rfl))
    | enter | middle | leave | start _ => cases hact
  have hpush : .push (some (.mark m)) ∉ ts.map Tag.act := by
    intro hmem
    obtain ⟨t, ht, hact⟩ := List.mem_map.mp hmem
    cases t with
    | start m' =>
      cases hact
      exact hplain _ ht (act_about.mpr (.inl rfl))
    | enter | middle | leave | stop _ => cases hact
  have hto : ∀ f, .turn f (some (.mark m)) ∉ ts.map Tag.act := by
    intro f hmem
    obtain ⟨t, -, hact⟩ := List.mem_map.mp hmem
    cases t <;> cases hact
  have habove : run Kind.isTarget ([] ++ .mark m :: w) (ts.map Tag.act) = some (.mark m :: w') := h
  obtain ⟨pre, heq, hrun⟩ := run_unframe hturn habove
  have hmem := not_mem_of_run hpush hto hrun (List.not_mem_nil)
  cases pre with
  | nil =>
    cases heq
    exact ⟨rfl, hrun⟩
  | cons k pre =>
    rw [List.cons_append] at heq
    cases (List.cons.inj heq).1
    exact absurd List.mem_cons_self hmem

/-- Asterisks read where no target is are text. -/
theorem reads_stars (hopen : Open Frame.isTarget st) (hstars : ∀ c ∈ cells, c.isStar = true)
    (h : reads st cells = some st') : (∀ c ∈ cells, c = .text '*') ∧ st' = st := by
  induction cells with
  | nil =>
    cases h
    exact ⟨List.forall_mem_nil _, rfl⟩
  | cons c cells ih =>
    obtain ⟨hc, hcells⟩ := List.forall_mem_cons.mp hstars
    obtain ⟨st₁, hstep, hreads⟩ := reads_cons.mp h
    cases c with
    | text c =>
      obtain ⟨-, rfl⟩ := step_push.mp hstep
      obtain ⟨htexts, rfl⟩ := ih hcells hreads
      exact ⟨List.forall_mem_cons.mpr ⟨congrArg Cell.text (eq_star_of_isStar hc), htexts⟩, rfl⟩
    | target c rest url =>
      obtain ⟨base, rfl, -⟩ := step_turn.mp hstep
      cases hopen
    | enter _ | middle _ | leave _ | start _ | stop _ => cases hc

theorem cellTags_stars (h : ∀ c ∈ cells, c.isStar = true) : cellTags cells = [] := by
  refine List.filterMap_eq_nil_iff.mpr fun c hc => ?_
  have hstar := h c hc
  cases c with
  | text _ | target _ _ _ => rfl
  | enter _ | middle _ | leave _ | start _ | stop _ => cases hstar

end Nests

/-! ## Spans of a mark -/

section Spans

variable {m : Mark} {st st' : List Frame} {w w' : List Kind} {cells : List Cell}
  {ps : List (Spans.Part Cell)}

/-- Without its tags, the text has the tags it had. -/
theorem cellTags_wrapped (hspan : ∀ s, .found s ∈ ps → IsSpan Cell.isStar m.width s)
    (hplain : Plain m (ps.flatMap source)) :
    (cellTags (ps.flatMap (wrapped [.start m] [.stop m]))).filter
      (fun t => ¬ t.act.About (.mark m)) = cellTags (ps.flatMap source) := by
  induction ps with
  | nil => rfl
  | cons p ps ih =>
    rw [List.flatMap_cons] at hplain
    obtain ⟨hp, hps⟩ := List.forall_mem_append.mp hplain
    rw [List.flatMap_cons, List.flatMap_cons, cellTags_append, cellTags_append, List.filter_append,
      ih (fun s hs => hspan s (List.mem_cons_of_mem _ hs)) hps]
    refine congrArg (· ++ _) ?_
    cases p with
    | one c => exact Plain.filter_cellTags hp
    | found s =>
      obtain ⟨hbefore, hp⟩ := List.forall_mem_append.mp hp
      obtain ⟨hrun, hafter⟩ := List.forall_mem_append.mp hp
      have hs := hspan s List.mem_cons_self
      have hstart : (cellTags [.start m]).filter (fun t => ¬ t.act.About (.mark m)) = [] := by
        cases m <;> rfl
      have hstop : (cellTags [.stop m]).filter (fun t => ¬ t.act.About (.mark m)) = [] := by
        cases m <;> rfl
      have hbody := Plain.filter_cellTags hrun
      simp only [wrapped, Spans.source, cellTags_append, List.filter_append, hbody,
        cellTags_stars hs.before_marks, cellTags_stars hs.after_marks, hstart, hstop]

theorem open_of_kinds (hsound : Sound Kind.isTarget w) (hopen : Open Kind.isTarget w)
    (hkinds : st.map Frame.kind = w.filter (· ≠ .mark m)) : Open Frame.isTarget st := by
  cases st with
  | nil => exact Open.nil
  | cons f st =>
    have hmem : f.kind ∈ w.filter (· ≠ .mark m) := hkinds ▸ List.mem_cons_self
    exact open_cons.mpr (hsound.not_shut hopen _ (List.mem_of_mem_filter hmem))

/-- Where a mark opens in no target and its body closes what it opens, the span is whole. -/
theorem isWhole_of_wrapped {s : Span Cell} (hspan : IsSpan Cell.isStar m.width s)
    (hplain : Plain m s.run) (hsound : Sound Kind.isTarget w)
    (hkinds : st.map Frame.kind = w.filter (· ≠ .mark m))
    (hreads : reads st (source (.found s)) = some st')
    (hnests : nests w (cellTags (wrapped [.start m] [.stop m] (.found s))) = some w') :
    IsWhole (.found s) ∧ st' = st ∧ w' = w := by
  rw [wrapped, cellTags_append, cellTags_append] at hnests
  obtain ⟨w₁, hstart, hnests⟩ := nests_append.mp hnests
  obtain ⟨w₂, hbody, hstop⟩ := nests_append.mp hnests
  obtain ⟨_, hstep, heq⟩ := run_cons.mp hstart
  cases heq
  obtain ⟨hopen, rfl⟩ := step_push.mp hstep
  obtain ⟨_, hstep', heq⟩ := run_cons.mp hstop
  cases heq
  obtain ⟨base, rfl, rfl⟩ := step_turn.mp hstep'
  obtain ⟨rfl, hinner⟩ := nests_body (fun t ht => hplain.not_about ht) hbody
  have hst := open_of_kinds hsound hopen hkinds
  obtain ⟨st₁, hbefore, hreads⟩ := reads_append.mp hreads
  obtain ⟨st₂, hrun, hafter⟩ := reads_append.mp hreads
  obtain ⟨htexts, heq⟩ := reads_stars hst hspan.before_marks hbefore
  rw [heq] at hrun
  have habove : reads ([] ++ st) s.run = some st₂ := hrun
  obtain ⟨pre, rfl, hpre⟩ := reads_of_nests hst habove hinner
  have hnil := hinner.symm.trans (nests_of_reads hpre)
  obtain rfl := List.map_eq_nil_iff.mp (Option.some.inj hnil).symm
  obtain ⟨htexts', rfl⟩ := reads_stars hst hspan.after_marks hafter
  exact ⟨⟨List.forall_mem_append.mpr ⟨htexts, htexts'⟩, hpre⟩, rfl, rfl⟩

/-- Where tags around some spans nest as they should, each of the spans is whole. -/
theorem isWhole_of_nests (hspan : ∀ s, .found s ∈ ps → IsSpan Cell.isStar m.width s)
    (hplain : Plain m (ps.flatMap source)) (hsound : Sound Kind.isTarget w)
    (hkinds : st.map Frame.kind = w.filter (· ≠ .mark m))
    (hreads : reads st (ps.flatMap source) = some st')
    (hnests : nests w (cellTags (ps.flatMap (wrapped [.start m] [.stop m]))) = some w') :
    ∀ p ∈ ps, IsWhole p := by
  induction ps generalizing st w with
  | nil => exact List.forall_mem_nil _
  | cons p ps ih =>
    rw [List.flatMap_cons] at hplain hreads hnests
    obtain ⟨hp, hps⟩ := List.forall_mem_append.mp hplain
    obtain ⟨st₁, hfirst, hrest⟩ := reads_append.mp hreads
    rw [cellTags_append] at hnests
    obtain ⟨w₁, hfirst', hrest'⟩ := nests_append.mp hnests
    have hspans : ∀ s, .found s ∈ ps → IsSpan Cell.isStar m.width s :=
      fun s hs => hspan s (List.mem_cons_of_mem _ hs)
    cases p with
    | one c =>
      have hbare := nests_erase (m := m) hsound hfirst'
      have hread := nests_of_reads hfirst
      have htags : (cellTags [c]).filter (fun t => ¬ t.act.About (.mark m)) = cellTags [c] :=
        Plain.filter_cellTags hp
      rw [show cellTags (wrapped [.start m] [.stop m] (.one c)) = cellTags [c] from rfl, htags,
        ← hkinds] at hbare
      have hkinds' := Option.some.inj (hread.symm.trans hbare)
      exact List.forall_mem_cons.mpr
        ⟨trivial, ih hspans hps (hsound.run hfirst') hkinds' hrest hrest'⟩
    | found s =>
      have hrun : Plain m s.run := by
        intro c hc
        exact hp c (List.mem_append_right _ (List.mem_append_left _ hc))
      obtain ⟨hwhole, rfl, rfl⟩ := isWhole_of_wrapped (hspan s List.mem_cons_self) hrun hsound
        hkinds hfirst hfirst'
      exact List.forall_mem_cons.mpr ⟨hwhole, ih hspans hps hsound hkinds hrest hrest'⟩

theorem nests_of_emphasize (hplain : Plain m cells)
    (h : nests [] (cellTags (emphasize m cells)) = some []) : nests [] (cellTags cells) = some [] := by
  have hbare := nests_erase (m := m) Sound.nil h
  have hparts : (parts Cell.isStar m.width cells).flatMap source = cells := flatMap_source
  have hspan : ∀ s, .found s ∈ parts Cell.isStar m.width cells → IsSpan Cell.isStar m.width s :=
    fun s hs => isSpan_of_mem hs
  have htags := cellTags_wrapped hspan (hparts.symm ▸ hplain)
  rw [emphasize, wrap, htags, hparts] at hbare
  exact hbare

theorem isWhole_of_emphasize (hplain : Plain m cells) (hreads : reads [] cells = some [])
    (h : nests [] (cellTags (emphasize m cells)) = some []) :
    ∀ p ∈ parts Cell.isStar m.width cells, IsWhole p := by
  have hparts : (parts Cell.isStar m.width cells).flatMap source = cells := flatMap_source
  exact isWhole_of_nests (fun s hs => isSpan_of_mem hs) (hparts.symm ▸ hplain) Sound.nil rfl
    (hparts.symm ▸ hreads) h

end Spans

/-! ## Faithful rendering -/

/-- Each pair of a mark's asterisks stands in text and has each link and mark whole or not at
all. -/
def Paired (m : Mark) (cells : List Cell) : Prop :=
  ∀ p ∈ parts Cell.isStar m.width cells, IsWhole p

instance (m : Mark) (cells : List Cell) : Decidable (Paired m cells) :=
  inferInstanceAs (Decidable (∀ p ∈ parts Cell.isStar m.width cells, IsWhole p))

section Faithful

variable {src : Str}

theorem plain_targetCells {m : Mark} {url rest : Str} : Plain m (targetCells url rest) := by
  induction rest with
  | nil => exact List.forall_mem_singleton.mpr ⟨nofun, nofun⟩
  | cons c rest ih => exact List.forall_mem_cons.mpr ⟨⟨nofun, nofun⟩, ih⟩

theorem plain_linkCells (m : Mark) : Plain m (linkCells src) := by
  refine List.forall_mem_flatMap.mpr fun item _ => ?_
  cases item with
  | one c => exact List.forall_mem_singleton.mpr ⟨nofun, nofun⟩
  | found link =>
    have hlabel : Plain m (link.label.map .text) :=
      List.forall_mem_map.mpr fun _ _ => ⟨nofun, nofun⟩
    have hleave : Plain m [.leave link.url] := List.forall_mem_singleton.mpr ⟨nofun, nofun⟩
    exact List.forall_mem_cons.mpr ⟨⟨nofun, nofun⟩, List.forall_mem_append.mpr
      ⟨plain_targetCells, List.forall_mem_append.mpr ⟨hlabel, hleave⟩⟩⟩

theorem reads_itemCells (item : Item Char Link) : reads [] (itemCells item) = some [] := by
  cases item with
  | one c => rfl
  | found link =>
    have htexts : ∀ c ∈ link.label.map Cell.text, ∃ d, c = .text d :=
      List.forall_mem_map.mpr fun d _ => ⟨d, rfl⟩
    have hlink : Open Frame.isTarget [.link link.url] := rfl
    have hleave : reads [.link link.url] [.leave link.url] = some [] :=
      reads_cons.mpr ⟨[], step_turn.mpr ⟨[], rfl, rfl⟩, rfl⟩
    exact reads_cons.mpr ⟨_, rfl, reads_append.mpr ⟨_, reads_targetCells,
      reads_append.mpr ⟨_, reads_texts htexts hlink, hleave⟩⟩⟩

/-- The link pass leaves nothing open. -/
theorem reads_linkCells : reads [] (linkCells src) = some [] := by
  rw [linkCells]
  induction scan linkAt src with
  | nil => rfl
  | cons item items ih =>
    rw [List.flatMap_cons]
    exact reads_append.mpr ⟨[], reads_itemCells item, ih⟩

theorem mem_emphasize {m : Mark} {c : Cell} {cells : List Cell} (h : c ∈ emphasize m cells) :
    c ∈ cells ∨ c = .start m ∨ c = .stop m := by
  simpa using mem_of_mem_wrap h

theorem plain_strong : Plain .em (emphasize .strong (linkCells src)) := by
  intro c hc
  rcases mem_emphasize hc with hc | rfl | rfl
  · exact plain_linkCells .em c hc
  · exact ⟨by decide, by decide⟩
  · exact ⟨by decide, by decide⟩

theorem enter_of_emphasize {m : Mark} {url : Str} {cells : List Cell}
    (h : .enter url ∈ emphasize m cells) : .enter url ∈ cells := by
  rcases mem_emphasize h with h | h | h
  · exact h
  · cases h
  · cases h

/-- A faithful rendering has well nested tags. -/
theorem Faithful.nests (h : Faithful src) : nests [] (tags (renderInline src)) = some [] := by
  obtain ⟨doc, hhtml, -⟩ := h
  rw [← hhtml, ← Inline.html_cells, tags_html]
  exact nests_of_reads (Inline.reads_cells Open.nil)

/-- **The rendering is faithful** exactly where the asterisks that pair stand around whole links,
in the text. -/
theorem rendered_iff (src : Str) : Faithful src ↔
    Paired .strong (linkCells src) ∧ Paired .em (emphasize .strong (linkCells src)) := by
  constructor
  · intro h
    have hnests := h.nests
    rw [renderInline_eq, tags_html] at hnests
    have hstrong := isWhole_of_emphasize (plain_linkCells .strong) reads_linkCells
      (nests_of_emphasize plain_strong hnests)
    have hreads := reads_emphasize hstrong reads_linkCells
    exact ⟨hstrong, isWhole_of_emphasize plain_strong hreads hnests⟩
  · rintro ⟨hstrong, hem⟩
    obtain ⟨doc, hdoc⟩ := exists_cells (reads_emphasize hem (reads_emphasize hstrong reads_linkCells))
    refine ⟨doc, ?_, ?_, ?_⟩
    · rw [renderInline_eq, ← hdoc, Inline.html_cells]
    · rw [← Inline.source_cells, hdoc, source_emphasize hem, source_emphasize hstrong,
        source_linkCells]
    · intro url hurl
      have hmem := Inline.enter_mem hurl
      rw [hdoc] at hmem
      exact urls_linkCells (enter_of_emphasize (enter_of_emphasize hmem))

/-- The asterisks of a target become tags in it. -/
theorem target_emphasized :
    renderInline "[a](https://x/*b*)".toList =
      "<a href=\"https://x/<em>b</em>\" target=\"_blank\" rel=\"noopener\">a</a>".toList ∧
    ¬ Faithful "[a](https://x/*b*)".toList := by
  repeat rw [String.toList_ofList]
  refine ⟨by decide +kernel, fun h => ?_⟩
  have hnests := h.nests
  revert hnests
  decide +kernel

end Faithful

end Ruscker.Admin.Markdown
