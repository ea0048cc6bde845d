import Ruscker.Lib.JsonValue
import Ruscker.Routes.RuntimeShim

/-!
# The configuration in JupyterLab's page

JupyterLab keeps its URLs as JSON in a script element of the page.  The ones it uses as they are
get the path that the app is mounted at.
-/

namespace Ruscker.Routes.Rewrite

open Json ScriptTexts

/-! ## The pattern -/

/-- The characters of words, which tell where a word ends. -/
class WordChars where
  isWord : Char → Bool

def longS : Char := Char.ofNat 0x17f

/-- A letter of the pattern, whose cases include the long s. -/
def eqFold (a c : Char) : Bool := c.toLower = a || (a = 's' && c = longS)

def stripFold : Str → Str → Option Str
  | [], s => some s
  | _ :: _, [] => none
  | a :: w, c :: s => if eqFold a c then stripFold w s else none

def isQuote (c : Char) : Bool := c = '"' || c = '\''

/-- `id=["']jupyter-config-data["']` -/
def atId (s : Str) : Bool :=
  match stripFold "id=".toList s with
  | some (q :: s) =>
    isQuote q && (stripFold "jupyter-config-data".toList s).any fun s => s.head?.any isQuote
  | _ => false

/-- The attribute, at the start of a word. -/
def hasId [WordChars] : Str → Bool
  | [] => false
  | c :: s => (!WordChars.isWord c && atId s) || hasId s

/-- `[^>]` -/
def inTag (c : Char) : Bool := c ≠ '>'

/-- `<script\b[^>]*\bid=["']jupyter-config-data["'][^>]*>`, and what follows it. -/
def openTag [WordChars] (s : Str) : Option (Str × Str) :=
  match stripFold "<script".toList s with
  | none => none
  | some r =>
    let attributes := r.takeWhile inTag
    match r.dropWhile inTag with
    | [] => none
    | c :: rest =>
      if !attributes.head?.any WordChars.isWord && hasId attributes then
        some (s.take 7 ++ (attributes ++ [c]), rest)
      else none

/-- `(.*?)(</script>)`, and what follows it. -/
def closeTag : Str → Option (Str × Str × Str)
  | [] => none
  | c :: s =>
    match stripFold "</script>".toList (c :: s) with
    | some rest => some ([], (c :: s).take 9, rest)
    | none => (closeTag s).map fun p => (c :: p.1, p.2)

structure Captures where
  before : Str
  openTag : Str
  jsonText : Str
  closeTag : Str
  after : Str

/-- The leftmost match of the pattern. -/
def captures [WordChars] : Str → Option Captures
  | [] => none
  | c :: s =>
    match (openTag (c :: s)).bind fun p =>
        (closeTag p.2).map fun q => (⟨[], p.1, q.1, q.2.1, q.2.2⟩ : Captures) with
    | some m => some m
    | none => (captures s).map fun m => { m with before := c :: m.before }

/-! ## The rewriting -/

variable {ν : Type*}

/-- `baseUrl` and the absolute `full*Url`. -/
def isUrlKey (key : Str) : Bool :=
  let k := key.map Char.toLower
  k = "baseurl".toList || ("full".toList.isPrefixOf k && "url".toList.isSuffixOf k)

/-- A member that changes. -/
def rewriteMember (basePath : Str) (m : Str × Value ν) : Option (Str × Value ν) :=
  if isUrlKey m.1 then
    match m.2 with
    | .str s => (rewriteUrl s basePath).map fun new => (m.1, .str new)
    | _ => none
  else none

def rewriteMembers (basePath : Str) (members : List (Str × Value ν)) : List (Str × Value ν) :=
  members.map fun m => (rewriteMember basePath m).getD m

def rewriteJupyterConfig (ν : Type*) [Numbers ν] [WordChars] (html basePath : Str) : Option Str :=
  match captures html with
  | none => none
  | some m =>
    match (parse m.jsonText.trim : Option (Value ν)) with
    | some (.obj members) =>
      if members.any fun x => (rewriteMember basePath x).isSome then
        some (m.before ++ (m.openTag ++ (print (.obj (rewriteMembers basePath members)) ++
          (m.closeTag ++ m.after))))
      else none
    | _ => none

/-! ## The page that a parser reads -/

/-- The page up to the configuration's text, and what follows. -/
def findOpen [WordChars] : Str → Option (Str × Str)
  | [] => none
  | c :: s =>
    match openTag (c :: s) with
    | some p => some p
    | none => (findOpen s).map fun p => (c :: p.1, p.2)

/-- The page before the configuration, its text, and the page behind it. -/
def configElement [WordChars] (html : Str) : Option (Str × Str × Str) :=
  (findOpen html).map fun p => (p.1, scriptText p.2)

/-- A URL under the base. -/
def mountedUrl (basePath s : Str) : Str := (rewriteUrl s basePath).getD s

def mountedMember (basePath : Str) (m : Str × Value ν) : Str × Value ν :=
  match isUrlKey m.1, m.2 with
  | true, .str s => (m.1, .str (mountedUrl basePath s))
  | _, _ => m

/-- A configuration with its URLs under the base. -/
def mounted (basePath : Str) : Value ν → Value ν
  | .obj members => .obj (members.map (mountedMember basePath))
  | v => v

/-- Both pages are the same around the configuration, and the one in the second is the one in the
first with its URLs under the base. -/
def Preserved (ν : Type*) [Numbers ν] [WordChars] (html basePath out : Str) : Prop :=
  ∃ before text text' after, ∃ v : Value ν, configElement html = some (before, text, after) ∧
    configElement out = some (before, text', after) ∧ parse text.trim = some v ∧
    parse text'.trim = some (mounted basePath v)

/-! ## The tags -/

section Tags

variable {w x y s r : Str}

/-- No letter of a pattern is an angle bracket. -/
def Within (w : Str) : Prop := ∀ a ∈ w, eqFold a '>' = false

theorem inTag_of_ne {c : Char} (h : c ≠ '>') : inTag c = true := decide_eq_true h

theorem head_dropWhile {c : Char} {z : Str} (h : x.dropWhile inTag = c :: z) : c = '>' := by
  have hhead := List.head?_dropWhile_not inTag x
  rw [h] at hhead
  simpa [inTag] using hhead

theorem stripFold_eq (h : stripFold w s = some y) : w.length ≤ s.length ∧ y = s.drop w.length := by
  induction w generalizing s with
  | nil =>
    cases h
    exact ⟨Nat.zero_le _, rfl⟩
  | cons a w ih =>
    cases s with
    | nil => cases h
    | cons c s =>
      rw [stripFold] at h
      split at h
      · obtain ⟨hlength, heq⟩ := ih h
        exact ⟨Nat.succ_le_succ hlength, heq⟩
      · cases h

theorem stripFold_append (hw : Within w) (hx : '>' ∈ x) :
    stripFold w (x ++ r) = (stripFold w x).map fun y => y ++ r := by
  induction w generalizing x with
  | nil => rfl
  | cons a w ih =>
    obtain ⟨ha, hw⟩ := List.forall_mem_cons.mp hw
    cases x with
    | nil => cases hx
    | cons c x =>
      rw [List.cons_append, stripFold, stripFold]
      split
      · next hc =>
        refine ih hw ((List.mem_cons.mp hx).resolve_left ?_)
        rintro rfl
        rw [hc] at ha
        cases ha
      · rfl

/-- A pattern within a tag ends before the tag does. -/
theorem dropWhile_of_stripFold (hw : Within w) (h : stripFold w s = some y) :
    s.dropWhile inTag = y.dropWhile inTag := by
  induction w generalizing s with
  | nil =>
    cases h
    rfl
  | cons a w ih =>
    obtain ⟨ha, hw⟩ := List.forall_mem_cons.mp hw
    cases s with
    | nil => cases h
    | cons c s =>
      rw [stripFold] at h
      split at h
      · next hc =>
        have hne : c ≠ '>' := by
          rintro rfl
          rw [hc] at ha
          cases ha
        rw [List.dropWhile_cons_of_pos (inTag_of_ne hne), ih hw h]
      · cases h

/-- A tag that closes is the same in front of more text. -/
theorem exists_dropWhile (hx : '>' ∈ x) :
    ∃ z, x.dropWhile inTag = '>' :: z ∧
      (∀ r, (x ++ r).takeWhile inTag = x.takeWhile inTag) ∧
      ∀ r, (x ++ r).dropWhile inTag = '>' :: (z ++ r) := by
  induction x with
  | nil => cases hx
  | cons c x ih =>
    by_cases hc : c = '>'
    · subst hc
      exact ⟨x, rfl, fun _ => rfl, fun _ => rfl⟩
    · obtain ⟨z, hz, htake, hdrop⟩ := ih ((List.mem_cons.mp hx).resolve_left (Ne.symm hc))
      have hin := inTag_of_ne hc
      refine ⟨z, ?_, ?_, ?_⟩
      · rw [List.dropWhile_cons_of_pos hin, hz]
      · intro r
        rw [List.cons_append, List.takeWhile_cons_of_pos hin, List.takeWhile_cons_of_pos hin,
          htake]
      · intro r
        rw [List.cons_append, List.dropWhile_cons_of_pos hin, hdrop]

theorem mem_of_dropWhile {z : Str} (h : x.dropWhile inTag = '>' :: z) : '>' ∈ x :=
  (List.dropWhile_suffix _).subset (h ▸ List.mem_cons_self)

theorem within_close {a : Char} (h : eqFold '<' a = true) : a = '<' := by
  simp only [eqFold, Bool.or_eq_true, decide_eq_true_eq, Bool.and_eq_true] at h
  rcases h with h | ⟨h, -⟩
  · exact toLower_eq_lt.mp h
  · exact absurd h (by decide)

theorem closeTag_eq_some {q : Str × Str × Str} (h : closeTag s = some q) :
    s = q.1 ++ (q.2.1 ++ q.2.2) ∧ q.2.1.length = 9 ∧ ∃ t, q.2.1 = '<' :: t := by
  induction s generalizing q with
  | nil => cases h
  | cons c s ih =>
    rw [closeTag] at h
    split at h
    · next rest hstrip =>
      cases h
      obtain ⟨hlength, hdrop⟩ := stripFold_eq hstrip
      have hlength : 9 ≤ (c :: s).length := hlength
      refine ⟨?_, ?_, ?_⟩
      · rw [hdrop]
        exact (List.take_append_drop 9 (c :: s)).symm
      · rw [List.length_take]
        omega
      · have hc : eqFold '<' c = true := by
          by_contra hne
          have hnone : stripFold "</script>".toList (c :: s) = none := if_neg hne
          rw [hnone] at hstrip
          cases hstrip
        exact ⟨s.take 8, by rw [within_close hc]; rfl⟩
    · obtain ⟨q', hq, rfl⟩ := Option.map_eq_some_iff.mp h
      obtain ⟨hs, hrest⟩ := ih hq
      exact ⟨congrArg (c :: ·) hs, hrest⟩

theorem closeTag_isSome_of_suffix (h : s <:+ r) (hs : (closeTag s).isSome) :
    (closeTag r).isSome := by
  obtain ⟨x, rfl⟩ := h
  induction x with
  | nil => exact hs
  | cons c x ih =>
    rw [List.cons_append, closeTag]
    split
    · rfl
    · rw [Option.isSome_map]
      exact ih

theorem dropWhile_suffix_cons (c : Char) (s : Str) :
    (s.dropWhile inTag).tail <:+ ((c :: s).dropWhile inTag).tail := by
  by_cases hc : inTag c = true
  · rw [List.dropWhile_cons_of_pos hc]
  · rw [List.dropWhile_cons_of_neg hc]
    exact (List.tail_suffix _).trans (List.dropWhile_suffix _)

theorem within_script : Within "<script".toList := Str.forall_mem_of_all (by decide)

variable [WordChars]

/-- A tag is what its own text says. -/
theorem openTag_append (hx : '>' ∈ x) :
    openTag (x ++ r) = (openTag x).map fun p => (p.1, p.2 ++ r) := by
  unfold openTag
  rw [stripFold_append within_script hx]
  cases hstrip : stripFold "<script".toList x with
  | none => rfl
  | some y =>
    have hlength : 7 ≤ x.length := (stripFold_eq hstrip).1
    obtain ⟨z, hz, -⟩ := exists_dropWhile hx
    rw [dropWhile_of_stripFold within_script hstrip] at hz
    obtain ⟨z', hz', htake, hdrop⟩ := exists_dropWhile (mem_of_dropWhile hz)
    simp only [Option.map_some, htake, hdrop, hz', List.take_append_of_le_length hlength]
    split
    · rfl
    · rfl

/-- A tag ends at the first closing bracket. -/
theorem openTag_eq_some {p : Str × Str} (h : openTag s = some p) :
    s = p.1 ++ p.2 ∧ '>' ∈ p.1 ∧ p.2 = (s.dropWhile inTag).tail := by
  unfold openTag at h
  split at h
  · cases h
  · next y hy =>
    dsimp only at h
    split at h
    · cases h
    · next c rest hrest =>
      split at h
      · cases h
        obtain ⟨-, hdrop⟩ := stripFold_eq hy
        have hsplit : y = y.takeWhile inTag ++ c :: rest := by
          rw [← hrest, List.takeWhile_append_dropWhile]
        have hs : s = s.take 7 ++ y := by
          rw [hdrop]
          exact (List.take_append_drop 7 s).symm
        have hclose : c = '>' := head_dropWhile hrest
        refine ⟨?_, ?_, ?_⟩
        · calc s = s.take 7 ++ y := hs
            _ = s.take 7 ++ (y.takeWhile inTag ++ c :: rest) := by rw [← hsplit]
            _ = _ := by simp
        · simp [hclose]
        · rw [dropWhile_of_stripFold within_script hy, hrest]
          rfl
      · cases h

/-- What is up to the start tag is found again in front of any other text. -/
theorem findOpen_eq_some {p : Str × Str} (h : findOpen s = some p) :
    s = p.1 ++ p.2 ∧ '>' ∈ p.1 ∧ ∀ t, findOpen (p.1 ++ t) = some (p.1, t) := by
  induction s generalizing p with
  | nil => cases h
  | cons c s ih =>
    rw [findOpen] at h
    split at h
    · next p' hopen =>
      cases h
      obtain ⟨hs, hmem, -⟩ := openTag_eq_some hopen
      refine ⟨hs, hmem, ?_⟩
      intro t
      obtain ⟨d, u, hd⟩ := List.exists_cons_of_ne_nil (List.ne_nil_of_mem hmem)
      have hself : openTag p.1 = some (p.1, []) := by
        rw [hs, openTag_append hmem] at hopen
        obtain ⟨q, hq, heq⟩ := Option.map_eq_some_iff.mp hopen
        have hrest : q.2 = [] := by
          have hlength := congrArg (fun x : Str × Str => x.2.length) heq
          simpa using hlength
        have htag := congrArg Prod.fst heq
        rw [hq]
        exact congrArg some (Prod.ext htag hrest)
      have hopen' := openTag_append (r := t) hmem
      rw [hself] at hopen'
      rw [hd] at hopen' ⊢
      rw [List.cons_append] at hopen' ⊢
      rw [findOpen, hopen']
      rfl
    · next hopen =>
      obtain ⟨q, hq, rfl⟩ := Option.map_eq_some_iff.mp h
      obtain ⟨hs, hmem, hfind⟩ := ih hq
      refine ⟨congrArg (c :: ·) hs, List.mem_cons_of_mem _ hmem, ?_⟩
      intro t
      have hnone : openTag (c :: q.1 ++ t) = none := by
        have hopen' := openTag_append (x := c :: q.1) (r := q.2) (List.mem_cons_of_mem _ hmem)
        rw [List.cons_append, ← hs, hopen] at hopen'
        rw [openTag_append (List.mem_cons_of_mem _ hmem), Option.map_eq_none_iff.mp hopen'.symm]
        rfl
      rw [List.cons_append] at hnone ⊢
      rw [findOpen, hnone, hfind]
      rfl

/-! ## The match -/

/-- A match ends behind the first tag that could have started it. -/
theorem captures_suffix {m : Captures} (h : captures s = some m) :
    ∃ t, (closeTag t).isSome ∧ t <:+ (s.dropWhile inTag).tail := by
  induction s generalizing m with
  | nil => cases h
  | cons c s ih =>
    rw [captures] at h
    split at h
    · next hfound =>
      obtain ⟨p, hopen, hclose⟩ := Option.bind_eq_some_iff.mp hfound
      obtain ⟨q, hq, -⟩ := Option.map_eq_some_iff.mp hclose
      refine ⟨p.2, Option.isSome_of_eq_some hq, ?_⟩
      rw [(openTag_eq_some hopen).2.2]
    · obtain ⟨m', hm, -⟩ := Option.map_eq_some_iff.mp h
      obtain ⟨t, ht, hsuffix⟩ := ih hm
      exact ⟨t, ht, hsuffix.trans (dropWhile_suffix_cons c s)⟩

/-- The match starts with the first start tag. -/
theorem captures_eq_some {m : Captures} (h : captures s = some m) :
    findOpen s = some (m.before ++ m.openTag, m.jsonText ++ (m.closeTag ++ m.after)) ∧
      m.closeTag.length = 9 ∧ ∃ t, m.closeTag = '<' :: t := by
  induction s generalizing m with
  | nil => cases h
  | cons c s ih =>
    rw [captures] at h
    split at h
    · next hfound =>
      cases h
      obtain ⟨p, hopen, hclose⟩ := Option.bind_eq_some_iff.mp hfound
      obtain ⟨q, hq, rfl⟩ := Option.map_eq_some_iff.mp hclose
      obtain ⟨hsplit, hlength, t, ht⟩ := closeTag_eq_some hq
      refine ⟨?_, hlength, t, ht⟩
      rw [findOpen, hopen]
      exact congrArg some (Prod.ext rfl hsplit)
    · next hfound =>
      obtain ⟨m', hm, rfl⟩ := Option.map_eq_some_iff.mp h
      obtain ⟨hfind, hrest⟩ := ih hm
      have hopen : openTag (c :: s) = none := by
        cases hopen : openTag (c :: s) with
        | none => rfl
        | some p =>
          -- its end tag would have been the match's
          obtain ⟨t, ht, hsuffix⟩ := captures_suffix hm
          have hclose : (closeTag p.2).isSome := by
            rw [(openTag_eq_some hopen).2.2]
            exact closeTag_isSome_of_suffix (hsuffix.trans (dropWhile_suffix_cons c s)) ht
          obtain ⟨q, hq⟩ := Option.isSome_iff_exists.mp hclose
          rw [hopen, Option.bind_some, hq] at hfound
          cases hfound
      refine ⟨?_, hrest⟩
      rw [findOpen, hopen, hfind]
      rfl

end Tags

/-! ## Text around the configuration -/

section Trim

variable {p x : Str}

theorem rdropWhile_append_lt : (p ++ '<' :: x).rdropWhile isWhitespace =
    p ++ '<' :: x.rdropWhile isWhitespace := by
  induction x using List.reverseRecOn with
  | nil => rw [List.rdropWhile_concat_neg _ _ _ (by decide), List.rdropWhile_nil]
  | append_singleton x c ih =>
    rw [← List.cons_append, ← List.append_assoc, List.rdropWhile_concat, List.rdropWhile_concat, ih]
    split
    · rfl
    · simp

/-- Trimming text in front of a tag takes no more from its front than it took alone. -/
theorem trim_append_lt : ∃ q, Str.trim (p ++ '<' :: x) = Str.trim p ++ q ∧
    (∀ c ∈ q.head?, isWhitespace c = true ∨ c = '<') ∧ '<' ∈ q := by
  induction p with
  | nil =>
    refine ⟨Str.trim ('<' :: x), rfl, ?_, ?_⟩
    · rw [Str.trim, Tokens.trim_cons_of_not_blank (by decide)]
      simp
    · rw [Str.trim, Tokens.trim_cons_of_not_blank (by decide)]
      exact List.mem_cons_self
  | cons c p ih =>
    cases hc : isWhitespace c with
    | true =>
      obtain ⟨q, hq, hrest⟩ := ih
      refine ⟨q, ?_, hrest⟩
      rw [List.cons_append, Str.trim, Str.trim, Tokens.trim_cons_of_blank hc,
        Tokens.trim_cons_of_blank hc]
      exact hq
    | false =>
      refine ⟨p.rtakeWhile isWhitespace ++ '<' :: x.rdropWhile isWhitespace, ?_, ?_, ?_⟩
      · rw [List.cons_append, Str.trim, Str.trim, Tokens.trim_cons_of_not_blank hc,
          Tokens.trim_cons_of_not_blank hc, rdropWhile_append_lt, List.cons_append, ← List.append_assoc,
          List.rdropWhile_append_rtakeWhile]
      · intro d hd
        cases hblank : p.rtakeWhile isWhitespace with
        | nil =>
          rw [hblank] at hd
          cases hd
          exact .inr rfl
        | cons b l =>
          rw [hblank] at hd
          cases hd
          exact .inl (List.mem_rtakeWhile_imp (hblank ▸ List.mem_cons_self))
      · simp

theorem isNumberChar_of_isWhitespace {c : Char} (h : isWhitespace c = true) :
    isNumberChar c = false := by
  rw [← Bool.not_eq_true]
  intro hc
  simp only [isNumberChar, Bool.or_eq_true, decide_eq_true_eq] at hc
  rcases hc with ((((hdigit | rfl) | rfl) | rfl) | rfl) | rfl
  · rw [isWhitespace_of_isDigit hdigit] at h
    cases h
  · cases h
  · cases h
  · cases h
  · cases h
  · cases h

/-- **A JSON text in front of a tag is none.** -/
theorem read_trim_append_lt {v : Tree} (h : read p.trim = some v) :
    read (Str.trim (p ++ '<' :: x)) = none := by
  obtain ⟨q, hq, hhead, hmem⟩ := trim_append_lt (p := p) (x := x)
  rw [hq]
  apply read_append_eq_none h
  · intro c hc
    rcases hhead c hc with hblank | rfl
    · exact isNumberChar_of_isWhitespace hblank
    · rfl
  · intro hskip
    have hblank := List.dropWhile_eq_nil_iff.mp hskip _ hmem
    cases hblank

variable {ν : Type*} [Numbers ν]

theorem parse_cut {v : Value ν} (h : parse p.trim = some v) :
    (parse (Str.trim (p ++ '<' :: x)) : Option (Value ν)) = none := by
  obtain ⟨t, ht, -⟩ := Option.bind_eq_some_iff.mp h
  rw [parse, read_trim_append_lt ht]
  rfl

/-- Text that is cut at a tag is no JSON text. -/
theorem parse_of_cut {v : Value ν} (h : parse (Str.trim (p ++ '<' :: x)) = some v) :
    (parse p.trim : Option (Value ν)) = none := by
  cases hparse : (parse p.trim : Option (Value ν)) with
  | none => rfl
  | some w =>
    rw [parse_cut hparse] at h
    cases h

end Trim

/-! ## The members -/

section Members

variable {ν : Type*} {basePath : Str} {m : Str × Value ν} {members : List (Str × Value ν)}

theorem rewriteMember_getD : (rewriteMember basePath m).getD m = mountedMember basePath m := by
  unfold rewriteMember mountedMember mountedUrl
  obtain ⟨key, v⟩ := m
  dsimp only
  cases isUrlKey key with
  | false => rfl
  | true =>
    cases v with
    | str s =>
      dsimp only
      rw [if_pos rfl]
      cases rewriteUrl s basePath with
      | none => rfl
      | some new => rfl
    | _ => rfl

theorem rewriteMembers_eq : rewriteMembers basePath members =
    members.map (mountedMember basePath) :=
  List.map_congr_left fun _ _ => rewriteMember_getD

theorem mountedMember_fst : (mountedMember basePath m).1 = m.1 := by
  unfold mountedMember
  split
  · rfl
  · rfl

theorem numbers_mountedMember : numbers (mountedMember basePath m).2 = numbers m.2 := by
  unfold mountedMember
  split
  · next s _ hv =>
    rw [hv]
    rfl
  · rfl

theorem rereads_mounted [Numbers ν] :
    Rereads (.obj (members.map (mountedMember basePath))) ↔ Rereads (.obj members) := by
  unfold Rereads
  simp only [numbers, mem_memberNumbers, List.mem_map, exists_exists_and_eq_and,
    numbers_mountedMember]

theorem fits_mounted {d : Nat} (h : Fits d (.obj members)) :
    Fits d (.obj (members.map (mountedMember basePath))) := by
  cases h with
  | obj hd hsorted hmembers =>
    refine .obj hd ?_ ?_
    · refine List.pairwise_map.mpr (hsorted.imp ?_)
      intro a b hab
      rw [mountedMember_fst, mountedMember_fst]
      exact hab
    · intro x hx
      obtain ⟨m, hm, rfl⟩ := List.mem_map.mp hx
      unfold mountedMember
      split
      · exact .str _ _
      · exact hmembers m hm

/-- The texts of a member under the base. -/
def mountedTexts (basePath : Str) (m : Str × Value ν) : List Str :=
  match isUrlKey m.1, m.2 with
  | true, .str s => [mountedUrl basePath s]
  | _, v => texts v

theorem texts_mountedMember : texts (mountedMember basePath m).2 = mountedTexts basePath m := by
  unfold mountedMember mountedTexts
  obtain ⟨key, v⟩ := m
  dsimp only
  cases isUrlKey key with
  | false => rfl
  | true =>
    cases v with
    | str s => rfl
    | _ => rfl

end Members

/-! ## What is kept -/

/-- No key ends a script element, and no text does once it is under the base. -/
def Quiet (basePath : Str) (members : List (Str × Value ν)) : Prop :=
  ∀ m ∈ members, ¬ Ends m.1 ∧ ∀ s ∈ mountedTexts basePath m, ¬ Ends s

instance (basePath : Str) (members : List (Str × Value ν)) : Decidable (Quiet basePath members) :=
  inferInstanceAs (Decidable (∀ m ∈ members, _ ∧ _))

/-- A configuration whose texts bring no end tag in, and whose numbers come back as they are
written. -/
def CleanConfig [Numbers ν] (basePath : Str) : Option (Value ν) → Prop
  | some (.obj members) => Quiet basePath members ∧ Rereads (.obj members)
  | _ => False

instance [Numbers ν] [DecidableEq ν] (basePath : Str) :
    (v : Option (Value ν)) → Decidable (CleanConfig basePath v)
  | some (.obj _) => inferInstanceAs (Decidable (_ ∧ ∀ n ∈ _, _ = _))
  | none => isFalse id
  | some .null => isFalse id
  | some (.bool _) => isFalse id
  | some (.num _) => isFalse id
  | some (.str _) => isFalse id
  | some (.arr _) => isFalse id

/-- A page whose configuration has no end tag and gets none, and that closes with one. -/
def Clean (ν : Type*) [Numbers ν] [WordChars] (html basePath : Str) : Prop :=
  ∃ m ∈ captures html, ¬ Ends m.jsonText ∧ AtEnd m.closeTag ∧
    CleanConfig basePath (parse m.jsonText.trim : Option (Value ν))

instance (ν : Type*) [Numbers ν] [DecidableEq ν] [WordChars] (html basePath : Str) :
    Decidable (Clean ν html basePath) :=
  inferInstanceAs (Decidable (∃ m ∈ captures html, _))

section Kept

variable [Numbers ν] {html basePath out : Str} {members : List (Str × Value ν)}

theorem ends_print_mounted :
    Ends (print (.obj (members.map (mountedMember basePath)))) ↔ ¬ Quiet basePath members := by
  rw [ends_print, texts, Quiet]
  push Not
  constructor
  · rintro ⟨s, hs, hends⟩
    obtain ⟨x, hx, htext⟩ := mem_memberTexts.mp hs
    obtain ⟨m, hm, rfl⟩ := List.mem_map.mp hx
    rw [mountedMember_fst, texts_mountedMember] at htext
    refine ⟨m, hm, ?_⟩
    rcases htext with rfl | htext
    · exact fun hnot => absurd hends hnot
    · exact fun _ => ⟨s, htext, hends⟩
  · rintro ⟨m, hm, hquiet⟩
    have hmem := List.mem_map_of_mem (f := mountedMember basePath) hm
    by_cases hkey : Ends m.1
    · exact ⟨m.1, mem_memberTexts.mpr ⟨_, hmem, .inl mountedMember_fst.symm⟩, hkey⟩
    · obtain ⟨s, hs, hends⟩ := hquiet hkey
      rw [← texts_mountedMember] at hs
      exact ⟨s, mem_memberTexts.mpr ⟨_, hmem, .inr hs⟩, hends⟩

theorem trim_print_obj : Str.trim (print (.obj members)) = print (.obj members) := by
  apply Tokens.trim_eq_self_iff.mpr
  constructor
  · intro c hc
    cases hc
    rfl
  · intro c hc
    rw [print, ← List.cons_append, List.getLast?_concat] at hc
    cases hc
    rfl

/-- The printed configuration is read back just when its numbers are. -/
theorem parse_print_mounted (h : Fits levels (.obj members)) :
    parse (Str.trim (print (.obj (members.map (mountedMember basePath))))) =
      some (mounted basePath (.obj members)) ↔ Rereads (.obj members) := by
  have hmounted : Rereads (.obj (members.map (mountedMember basePath))) ↔ Rereads (.obj members) :=
    rereads_mounted
  rw [trim_print_obj, ← hmounted]
  exact parse_print (fits_mounted h)

theorem atEnd_append {s t : Str} (hs : endTag.length ≤ s.length) :
    AtEnd (s ++ t) ↔ AtEnd s := by
  unfold AtEnd
  rw [List.map_append]
  constructor
  · intro h
    exact List.prefix_of_prefix_length_le h (List.prefix_append _ _) (by simpa using hs)
  · exact fun h => h.trans (List.prefix_append _ _)

variable [WordChars]

/-- What a rewritten page is made of. -/
theorem rewriteJupyterConfig_eq_some (h : rewriteJupyterConfig ν html basePath = some out) :
    ∃ m, ∃ members : List (Str × Value ν), captures html = some m ∧
      parse m.jsonText.trim = some (.obj members) ∧
      out = m.before ++ (m.openTag ++ (print (.obj (members.map (mountedMember basePath))) ++
        (m.closeTag ++ m.after))) := by
  unfold rewriteJupyterConfig at h
  split at h
  · cases h
  · next m hm =>
    split at h
    · next members hmembers =>
      split at h
      · cases h
        exact ⟨m, members, hm, hmembers, by rw [rewriteMembers_eq]⟩
      · cases h
    · cases h

/-- The pages are the same around the configuration if what follows its text is. -/
theorem preserved_iff_of_findOpen {before rest rest' : Str}
    (hhtml : findOpen html = some (before, rest)) (hout : findOpen out = some (before, rest')) :
    Preserved ν html basePath out ↔ (scriptText rest').2 = (scriptText rest).2 ∧
      ∃ v : Value ν, parse (Str.trim (scriptText rest).1) = some v ∧
        parse (Str.trim (scriptText rest').1) = some (mounted basePath v) := by
  unfold Preserved configElement
  rw [hhtml, hout, Option.map_some, Option.map_some]
  constructor
  · rintro ⟨b, text, text', after, v, hfirst, hsecond, hv, hv'⟩
    obtain ⟨-, hfirst⟩ := Prod.mk.inj (Option.some.inj hfirst)
    obtain ⟨-, hsecond⟩ := Prod.mk.inj (Option.some.inj hsecond)
    rw [hfirst, hsecond]
    exact ⟨rfl, v, hv, hv'⟩
  · rintro ⟨hafter, v, hv, hv'⟩
    exact ⟨before, _, _, _, v, rfl, by rw [← hafter], hv, hv'⟩

/-- **The page is kept** around the configuration, and the configuration but for its URLs, just
when no end tag is or comes into its text. -/
theorem config_preserved_iff (h : rewriteJupyterConfig ν html basePath = some out) :
    Preserved ν html basePath out ↔ Clean ν html basePath := by
  obtain ⟨m, members, hcaptures, hparse, rfl⟩ := rewriteJupyterConfig_eq_some h
  obtain ⟨hfind, hlength, t, htag⟩ := captures_eq_some hcaptures
  have hclose : m.closeTag ++ m.after = '<' :: (t ++ m.after) := by rw [htag, List.cons_append]
  have hat : AtEnd ('<' :: (t ++ m.after)) ↔ AtEnd m.closeTag := by
    rw [← hclose]
    exact atEnd_append (by rw [hlength]; decide)
  have hout := (findOpen_eq_some hfind).2.2
    (print (.obj (members.map (mountedMember basePath))) ++ (m.closeTag ++ m.after))
  rw [List.append_assoc] at hout
  have hclean : Clean ν html basePath ↔ ¬ Ends m.jsonText ∧ AtEnd m.closeTag ∧
      Quiet basePath members ∧ Rereads (.obj members) := by
    unfold Clean
    rw [hcaptures]
    simp only [Option.mem_some_iff, exists_eq_left', hparse, CleanConfig]
  rw [preserved_iff_of_findOpen hfind hout, hclean, hclose]
  by_cases hjson : Ends m.jsonText
  · -- the text is cut at its own end tag, and no JSON
    obtain ⟨text, rest, hsplit, htext⟩ := scriptText_of_ends (t := t ++ m.after) hjson
    rw [hsplit] at hparse
    simp [hjson, htext, parse_of_cut hparse]
  by_cases hend : AtEnd m.closeTag
  · rw [scriptText_of_not_ends hjson (hat.mpr hend)]
    by_cases hquiet : Quiet basePath members
    · have hprint : ¬ Ends (print (.obj (members.map (mountedMember basePath)))) :=
        fun hends => ends_print_mounted.mp hends hquiet
      rw [scriptText_of_not_ends hprint (hat.mpr hend)]
      have hfits : Fits levels (.obj members) := by
        obtain ⟨tree, -, htree⟩ := Option.bind_eq_some_iff.mp hparse
        exact fits_toValue htree
      simp only [hjson, hend, hquiet, hparse, not_false_eq_true, true_and, Option.some.injEq,
        exists_eq_left', parse_print_mounted hfits]
    · -- a text that comes in ends the element, and the rest of it follows
      obtain ⟨text, rest, hsplit, htext⟩ :=
        scriptText_of_ends (t := t ++ m.after) (ends_print_mounted.mpr hquiet)
      rw [htext]
      refine iff_of_false ?_ fun hclean => hquiet hclean.2.2.1
      rintro ⟨hafter, -⟩
      have hsize := congrArg List.length hafter
      simp only [List.length_cons, List.length_append] at hsize
      omega
  · -- the element goes on behind the match
    obtain ⟨more, hmore⟩ := scriptText_of_not_atEnd hjson fun hcut => hend (hat.mp hcut)
    rw [hmore]
    simp [hend, parse_cut hparse]

end Kept

section Pages

/-- Words of ASCII letters and digits. -/
@[reducible] def asciiWords : WordChars := ⟨fun c => c.isAlphanum || c = '_'⟩

/-- Numbers that are kept as they are written. -/
abbrev WrittenNumber : Type := {text : Str // readNumber text = some (text, [])}

@[reducible] def writtenNumbers : Numbers WrittenNumber where
  parse text := if h : readNumber text = some (text, []) then some ⟨text, h⟩ else none
  print n := n.1
  print_valid n := n.2

attribute [local instance] asciiWords writtenNumbers

def page (config : String) : Str :=
  "<script id='jupyter-config-data'>".toList ++ config.toList ++ "</script>".toList

theorem config_preserved_iff_escapedQuote :
    Preserved WrittenNumber (page "\x7b\"x\":[1.50,\"\\\"\"],\"baseUrl\":\"/\"\x7d")
      "/app/j/".toList (page "\x7b\"baseUrl\":\"/app/j/\",\"x\":[1.50,\"\\\"\"]\x7d") := by
  exact (config_preserved_iff (by decide +kernel)).mpr (by decide +kernel)

/-- An escaped end tag comes out as one, and what is behind it goes into the page. -/
theorem escaped_tag_ends_script :
    let html := page "\x7b\"baseUrl\":\"/\",\"x\":\"\\u003c/script>\"\x7d"
    let out := page "\x7b\"baseUrl\":\"/app/j/\",\"x\":\"</script>\"\x7d"
    rewriteJupyterConfig WrittenNumber html "/app/j/".toList = some out ∧
      ¬ Preserved WrittenNumber html "/app/j/".toList out := by
  intro html out
  refine ⟨by decide +kernel, ?_⟩
  rintro ⟨before, text, text', after, v, hhtml, hout, -⟩
  have hfirst : (configElement html).map (fun p => p.2.2) = some "</script>".toList := by
    decide +kernel
  have hsecond : (configElement out).map (fun p => p.2.2) =
      some "</script>\"\x7d</script>".toList := by
    decide +kernel
  rw [hhtml] at hfirst
  rw [hout] at hsecond
  exact absurd (hfirst.symm.trans hsecond) (by decide)

end Pages

end Ruscker.Routes.Rewrite
