import Ruscker.Lib.Tokens
import Mathlib.Data.Char

/-!
# Content security policies

The text of a header holds policies between commas, a policy its directives between semicolons, and
a directive a name and sources between blanks.  The name counts without its case, and of directives
with one name the first.
-/

namespace PolicyTexts

open Tokens

structure Directive where
  name : List Char
  sources : List (List Char)
  deriving DecidableEq

/-! ## Reading -/

def isBlank (c : Char) : Bool := c = ' ' || c = '\t' || c = '\n' || c = '\r' || c.toNat = 12

def isAscii (c : Char) : Bool := c.toNat < 0x80

/-- A directive that is not ASCII is skipped. -/
def readDirective (s : List Char) : Option Directive :=
  if s.all isAscii then
    match tokens isBlank isBlank s with
    | [] => none
    | name :: sources => some ⟨name.map Char.toLower, sources⟩
  else none

def addDirective (ds : List Directive) (d : Directive) : List Directive :=
  if ds.any fun d' => d'.name = d.name then ds else ds ++ [d]

def readPolicy (s : List Char) : List Directive :=
  ((tokens (fun c => c = ';') isBlank s).filterMap readDirective).foldl addDirective []

/-- A policy without directives is none. -/
def readHeader (s : List Char) : List (List Directive) :=
  ((tokens (fun c => c = ',') isBlank s).map readPolicy).filter fun ds => !ds.isEmpty

/-! ## Writing -/

def writeDirective (d : Directive) : List Char := [' '].intercalate (d.name :: d.sources)

def writePolicy (ds : List Directive) : List Char := [';', ' '].intercalate (ds.map writeDirective)

/-- Printable, and none of the marks of the grammar. -/
def isTextChar (c : Char) : Bool :=
  0x21 ≤ c.toNat && c.toNat ≤ 0x7E && c ≠ ';' && c ≠ ','

structure IsText (t : List Char) : Prop where
  ne_nil : t ≠ []
  chars : ∀ c ∈ t, isTextChar c = true

structure Directive.Valid (d : Directive) : Prop where
  name : IsText d.name
  lower : d.name.map Char.toLower = d.name
  sources : ∀ t ∈ d.sources, IsText t

instance (t : List Char) : Decidable (IsText t) :=
  decidable_of_iff (t ≠ [] ∧ t.all isTextChar = true)
    ⟨fun h => ⟨h.1, List.all_eq_true.mp h.2⟩, fun h => ⟨h.ne_nil, List.all_eq_true.mpr h.chars⟩⟩

instance (d : Directive) : Decidable d.Valid :=
  decidable_of_iff (IsText d.name ∧ d.name.map Char.toLower = d.name ∧ ∀ t ∈ d.sources, IsText t)
    ⟨fun h => ⟨h.1, h.2.1, h.2.2⟩, fun h => ⟨h.name, h.lower, h.sources⟩⟩

/-! ## Reading what was written -/

section Texts

variable {t : List Char} {c : Char} {d : Directive} {ds : List Directive}

theorem isTextChar_iff : isTextChar c = true ↔
    0x21 ≤ c.toNat ∧ c.toNat ≤ 0x7E ∧ c ≠ ';' ∧ c ≠ ',' := by
  simp [isTextChar, and_assoc]

theorem not_blank_of_text (h : isTextChar c = true) : isBlank c = false := by
  have hlow := (isTextChar_iff.mp h).1
  rw [← Bool.not_eq_true]
  intro hblank
  simp only [isBlank, Bool.or_eq_true, decide_eq_true_eq] at hblank
  rcases hblank with (((rfl | rfl) | rfl) | rfl) | hfeed
  · exact absurd hlow (by decide)
  · exact absurd hlow (by decide)
  · exact absurd hlow (by decide)
  · exact absurd hlow (by decide)
  · omega

theorem IsText.trim (h : IsText t) : Tokens.trim isBlank t = t :=
  trim_eq_self fun c hc => not_blank_of_text (h.chars c hc)

theorem IsText.clean (h : IsText t) : Clean isBlank isBlank t :=
  ⟨h.ne_nil, fun c hc => not_blank_of_text (h.chars c hc), h.trim⟩

theorem Directive.Valid.texts (h : d.Valid) : ∀ t ∈ d.name :: d.sources, IsText t := by
  intro t ht
  rcases List.mem_cons.mp ht with rfl | ht
  · exact h.name
  · exact h.sources t ht

/-- A directive is made of texts and blanks. -/
theorem mem_writeDirective (h : d.Valid) (hc : c ∈ writeDirective d) :
    c = ' ' ∨ isTextChar c = true := by
  rcases mem_intercalate hc with hc | ⟨t, ht, hc⟩
  · exact .inl (List.mem_singleton.mp hc)
  · exact .inr ((h.texts t ht).chars c hc)

theorem writeDirective_ascii (h : d.Valid) : (writeDirective d).all isAscii = true := by
  refine List.all_eq_true.mpr fun c hc => decide_eq_true ?_
  rcases mem_writeDirective h hc with rfl | htext
  · decide
  · have hhigh := (isTextChar_iff.mp htext).2.1
    omega

/-- A directive is one piece of its policy. -/
theorem writeDirective_clean (h : d.Valid) :
    Clean (fun c => c = ';') isBlank (writeDirective d) := by
  refine ⟨?_, ?_, ?_⟩
  · obtain ⟨c, s, heq⟩ := List.exists_cons_of_ne_nil h.name.ne_nil
    unfold writeDirective
    cases hsources : d.sources with
    | nil => simp [heq]
    | cons t ts => simp [List.intercalate_cons_cons, heq]
  · intro c hc
    rcases mem_writeDirective h hc with rfl | htext
    · rfl
    · exact decide_eq_false (isTextChar_iff.mp htext).2.2.1
  · exact trim_intercalate fun t ht => ⟨(h.texts t ht).ne_nil, (h.texts t ht).trim⟩

theorem readDirective_writeDirective (h : d.Valid) :
    readDirective (writeDirective d) = some d := by
  have htokens : tokens isBlank isBlank (writeDirective d) = d.name :: d.sources := by
    have hblank : ∀ c ∈ ([] : List Char), isBlank c = true := by simp
    have hpad : ∀ c ∈ ([] : List Char), isBlank c = false := by simp
    exact tokens_intercalate rfl hblank hpad fun t ht => (h.texts t ht).clean
  rw [readDirective, if_pos (writeDirective_ascii h), htokens]
  dsimp only
  rw [h.lower]

/-- Directives with names of their own are all kept. -/
theorem foldl_addDirective (acc : List Directive)
    (h : ((acc ++ ds).map Directive.name).Nodup) : ds.foldl addDirective acc = acc ++ ds := by
  induction ds generalizing acc with
  | nil => simp
  | cons d ds ih =>
    have hnew : (acc.any fun d' => decide (d'.name = d.name)) = false := by
      rw [List.map_append, List.map_cons] at h
      rw [List.any_eq_false]
      intro d' hd' heq
      rw [decide_eq_true_eq] at heq
      have hdisjoint := (List.nodup_append.mp h).2.2
      exact hdisjoint _ (List.mem_map_of_mem hd') _ List.mem_cons_self heq
    rw [List.foldl_cons, addDirective, hnew, if_neg Bool.false_ne_true, ih]
    · simp
    · simpa using h

variable (hvalid : ∀ d ∈ ds, d.Valid)

include hvalid

theorem mem_writePolicy (hc : c ∈ writePolicy ds) : c = ';' ∨ c = ' ' ∨ isTextChar c = true := by
  rcases mem_intercalate hc with hc | ⟨s, hs, hc⟩
  · rcases List.mem_cons.mp hc with rfl | hc
    · exact .inl rfl
    · exact .inr (.inl (List.mem_singleton.mp hc))
  · obtain ⟨d, hd, rfl⟩ := List.mem_map.mp hs
    exact .inr (mem_writeDirective (hvalid d hd) hc)

theorem readPolicy_writePolicy (hnames : (ds.map Directive.name).Nodup) :
    readPolicy (writePolicy ds) = ds := by
  have htokens : tokens (fun c => c = ';') isBlank (writePolicy ds) = ds.map writeDirective := by
    have hblank : ∀ c ∈ [' '], isBlank c = true := by simp [isBlank]
    have hpad : ∀ c ∈ [' '], (fun c => decide (c = ';')) c = false := by simp
    refine tokens_intercalate (by simp) hblank hpad ?_
    intro s hs
    obtain ⟨d, hd, rfl⟩ := List.mem_map.mp hs
    exact writeDirective_clean (hvalid d hd)
  have hread : (ds.map writeDirective).filterMap readDirective = ds := by
    rw [List.filterMap_map]
    refine (List.filterMap_congr fun d hd => ?_).trans List.filterMap_some
    exact readDirective_writeDirective (hvalid d hd)
  rw [readPolicy, htokens, hread]
  exact foldl_addDirective [] hnames

/-- **Writing and reading back.** A header of valid directives holds their policy alone. -/
theorem readHeader_writePolicy (hnames : (ds.map Directive.name).Nodup) (hne : ds ≠ []) :
    readHeader (writePolicy ds) = [ds] := by
  have htrim : Tokens.trim isBlank (writePolicy ds) = writePolicy ds := by
    refine trim_intercalate fun s hs => ?_
    obtain ⟨d, hd, rfl⟩ := List.mem_map.mp hs
    have hclean := writeDirective_clean (hvalid d hd)
    exact ⟨hclean.ne_nil, hclean.trimmed⟩
  have hclean : Clean (fun c => c = ',') isBlank (writePolicy ds) := by
    refine ⟨?_, ?_, htrim⟩
    · intro hnil
      have hread := readPolicy_writePolicy hvalid hnames
      rw [hnil] at hread
      exact hne hread.symm
    · intro c hc
      rcases mem_writePolicy hvalid hc with rfl | rfl | htext
      · rfl
      · rfl
      · exact decide_eq_false (isTextChar_iff.mp htext).2.2.2
  rw [readHeader, hclean.tokens_eq, List.map_cons, List.map_nil,
    readPolicy_writePolicy hvalid hnames]
  cases ds with
  | nil => exact absurd rfl hne
  | cons d ds => rfl

end Texts

end PolicyTexts
