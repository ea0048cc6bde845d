import Mathlib.Data.List.Infix

/-!
# The text of a script element

A script element ends at the first end tag in its text, in letters of either case.
-/

namespace ScriptTexts

/-- The start of an end tag, in lower case. -/
def endTag : List Char := "</script".toList

/-- An end tag starts here. -/
def AtEnd (s : List Char) : Prop := endTag <+: s.map Char.toLower

instance (s : List Char) : Decidable (AtEnd s) := inferInstanceAs (Decidable (_ <+: _))

/-- An end tag is in the text. -/
def Ends (s : List Char) : Prop := endTag <:+: s.map Char.toLower

instance (s : List Char) : Decidable (Ends s) := inferInstanceAs (Decidable (_ <:+: _))

variable {c : Char} {s t : List Char}

theorem ends_cons : Ends (c :: s) ↔ AtEnd (c :: s) ∨ Ends s := by
  unfold Ends AtEnd
  rw [List.map_cons, List.infix_cons_iff]

/-- A list is in a text that starts with none of its first entry only if it is in the rest. -/
theorem infix_of_head_notMem {α : Type*} {a : α} {w l r : List α} (ha : a ∉ l)
    (h : a :: w <:+: l ++ r) : a :: w <:+: r := by
  induction l with
  | nil => exact h
  | cons b l ih =>
    rw [List.mem_cons, not_or] at ha
    rcases List.infix_cons_iff.mp h with hstart | hinfix
    · exact absurd (List.cons_prefix_cons.mp hstart).1 ha.1
    · exact ih ha.2 hinfix

/-- A list without an entry is in front of a text with that entry only if it is in front of what
comes before. -/
theorem prefix_of_notMem {α : Type*} {a : α} {w l r : List α} (ha : a ∉ w)
    (h : w <+: l ++ a :: r) : w <+: l := by
  induction w generalizing l with
  | nil => exact List.nil_prefix
  | cons b w ih =>
    rw [List.mem_cons, not_or] at ha
    cases l with
    | nil => exact absurd (List.cons_prefix_cons.mp h).1.symm ha.1
    | cons c l =>
      rw [List.cons_append] at h
      obtain ⟨rfl, htail⟩ := List.cons_prefix_cons.mp h
      exact List.cons_prefix_cons.mpr ⟨rfl, ih ha.2 htail⟩

/-- A list without an entry is on one side of it. -/
theorem infix_append_cons {α : Type*} {a : α} {w l r : List α} (ha : a ∉ w) (hw : w ≠ []) :
    w <:+: l ++ a :: r ↔ w <:+: l ∨ w <:+: r := by
  induction l with
  | nil =>
    rw [List.nil_append, List.infix_cons_iff, List.infix_nil]
    constructor
    · rintro (hstart | hinfix)
      · exact absurd (List.prefix_nil.mp (prefix_of_notMem (l := []) ha hstart)) hw
      · exact .inr hinfix
    · rintro (h | h)
      · exact absurd h hw
      · exact .inr h
  | cons b l ih =>
    rw [List.cons_append, List.infix_cons_iff, ih, List.infix_cons_iff, or_assoc]
    refine or_congr_left ⟨prefix_of_notMem (l := b :: l) ha, ?_⟩
    exact fun h => h.trans (List.prefix_append (b :: l) _)

theorem toLower_eq_lt : c.toLower = '<' ↔ c = '<' := by
  constructor
  · intro h
    unfold Char.toLower at h
    split at h
    · next hupper =>
      have hlow : 65 ≤ c.val.toNat := hupper.1
      have hhigh : c.val.toNat ≤ 90 := hupper.2
      have hval : (c.val + ('a'.val - 'A'.val)).toNat = 60 := congrArg Char.toNat h
      have hshift : ('a'.val - 'A'.val).toNat = 32 := rfl
      rw [UInt32.toNat_add, hshift] at hval
      omega
    · exact h
  · rintro rfl
    rfl

theorem ends_append_of_notMem (hs : '<' ∉ s) : Ends (s ++ t) ↔ Ends t := by
  have hlower : '<' ∉ s.map Char.toLower := by
    intro hmem
    obtain ⟨d, hd, hlower⟩ := List.mem_map.mp hmem
    exact hs (toLower_eq_lt.mp hlower ▸ hd)
  unfold Ends
  rw [List.map_append]
  constructor
  · exact infix_of_head_notMem hlower
  · exact fun h => h.trans (List.suffix_append _ _).isInfix

/-- An end tag is on one side of a character that it does not have. -/
theorem ends_append_cons (hc : c.toLower ∉ endTag) : Ends (s ++ c :: t) ↔ Ends s ∨ Ends t := by
  unfold Ends
  rw [List.map_append, List.map_cons, infix_append_cons hc (by decide)]

/-! ## The text and what follows -/

/-- The text of an element, and what follows from its end tag on. -/
def scriptText : List Char → List Char × List Char
  | [] => ([], [])
  | c :: s =>
    if AtEnd (c :: s) then ([], c :: s) else (c :: (scriptText s).1, (scriptText s).2)

/-- An end tag that starts in a text ends before the next angle bracket. -/
theorem atEnd_cons_append : AtEnd (c :: (s ++ '<' :: t)) ↔ AtEnd (c :: s) := by
  unfold AtEnd
  rw [List.map_cons, List.map_append, List.map_cons]
  constructor
  · intro h
    obtain ⟨hc, htail⟩ := List.cons_prefix_cons.mp h
    exact List.cons_prefix_cons.mpr ⟨hc, prefix_of_notMem (by decide) htail⟩
  · intro h
    obtain ⟨hc, htail⟩ := List.cons_prefix_cons.mp h
    exact List.cons_prefix_cons.mpr ⟨hc, htail.trans (List.prefix_append _ _)⟩

/-- A text without an end tag is followed by the next one. -/
theorem scriptText_of_not_ends (hs : ¬ Ends s) (ht : AtEnd ('<' :: t)) :
    scriptText (s ++ '<' :: t) = (s, '<' :: t) := by
  induction s with
  | nil => exact if_pos ht
  | cons c s ih =>
    rw [ends_cons, not_or] at hs
    rw [List.cons_append, scriptText, if_neg fun h => hs.1 (atEnd_cons_append.mp h), ih hs.2]

/-- With an end tag in front, the text is cut there. -/
theorem scriptText_of_ends (hs : Ends s) :
    ∃ text rest, s = text ++ '<' :: rest ∧ scriptText (s ++ '<' :: t) = (text, '<' :: (rest ++ '<' :: t)) := by
  induction s with
  | nil => exact absurd hs (by decide)
  | cons c s ih =>
    by_cases hat : AtEnd (c :: s)
    · have hc : c = '<' := toLower_eq_lt.mp (List.cons_prefix_cons.mp hat).1.symm
      subst hc
      refine ⟨[], s, rfl, ?_⟩
      rw [List.cons_append, scriptText, if_pos (atEnd_cons_append.mpr hat)]
    · obtain ⟨text, rest, rfl, heq⟩ := ih ((ends_cons.mp hs).resolve_left hat)
      refine ⟨c :: text, rest, rfl, ?_⟩
      rw [List.cons_append, scriptText, if_neg fun h => hat (atEnd_cons_append.mp h), heq]

/-- A text goes on behind an angle bracket that starts no end tag. -/
theorem scriptText_of_not_atEnd (hs : ¬ Ends s) (ht : ¬ AtEnd ('<' :: t)) :
    ∃ more, (scriptText (s ++ '<' :: t)).1 = s ++ '<' :: more := by
  induction s with
  | nil =>
    refine ⟨(scriptText t).1, ?_⟩
    rw [List.nil_append, scriptText, if_neg ht]
    rfl
  | cons c s ih =>
    rw [ends_cons, not_or] at hs
    obtain ⟨more, heq⟩ := ih hs.2
    refine ⟨more, ?_⟩
    rw [List.cons_append, scriptText, if_neg fun h => hs.1 (atEnd_cons_append.mp h), heq]
    rfl

end ScriptTexts
