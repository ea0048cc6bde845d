import Mathlib.Data.List.Forall2
import Mathlib.Data.List.Infix

/-!
# Patterns with wildcards

A pattern is a list of items: a run of anything, any one element, or an element that stands for
itself.  Its text has a symbol for each wildcard, and an escape symbol takes the next symbol
literally.  What an escaped text finds between two runs of anything is the text itself.
-/

namespace Like

inductive Item (α : Type*) where
  | any
  | one
  | lit (a : α)

/-- The symbols of a pattern's text; without an escape symbol every wildcard is one. -/
structure Symbols (α : Type*) where
  any : α
  one : α
  escape : Option α

variable {α : Type*}

/-! ## Matching -/

/-- Whether a pattern matches a whole list, where `eq` compares its elements with literals. -/
def matchesBy (eq : α → α → Bool) : List (Item α) → List α → Bool
  | [], s => s.isEmpty
  | .any :: p, s => s.tails.any (matchesBy eq p)
  | .one :: p, s =>
    match s with
    | [] => false
    | _ :: s => matchesBy eq p s
  | .lit a :: p, s =>
    match s with
    | [] => false
    | b :: s => eq a b && matchesBy eq p s

section Matching

variable {eq : α → α → Bool} {p : List (Item α)} {s : List α}

theorem matchesBy_any :
    matchesBy eq (.any :: p) s = true ↔ ∃ t, t <:+ s ∧ matchesBy eq p t = true := by
  simp [matchesBy, List.any_eq_true]

@[simp] theorem matchesBy_any_end : matchesBy eq [.any] s = true :=
  matchesBy_any.mpr ⟨[], List.nil_suffix, rfl⟩

theorem matchesBy_lits {l : List α} :
    matchesBy eq (l.map .lit ++ p) s = true ↔
      ∃ m t, s = m ++ t ∧ List.Forall₂ (fun a b => eq a b = true) l m ∧
        matchesBy eq p t = true := by
  induction l generalizing s with
  | nil =>
    constructor
    · exact fun h => ⟨[], s, rfl, .nil, h⟩
    · rintro ⟨m, t, rfl, hm, h⟩
      cases hm
      exact h
  | cons a l ih =>
    cases s with
    | nil =>
      constructor
      · exact fun h => absurd h Bool.false_ne_true
      · rintro ⟨m, t, hs, hm, -⟩
        obtain ⟨rfl, -⟩ := List.append_eq_nil_iff.mp hs.symm
        cases hm
    | cons b s =>
      rw [List.map_cons, List.cons_append, matchesBy, Bool.and_eq_true, ih]
      constructor
      · rintro ⟨hab, m, t, rfl, hm, h⟩
        exact ⟨b :: m, t, rfl, .cons hab hm, h⟩
      · rintro ⟨m, t, hs, hm, h⟩
        cases hm with
        | cons hab hm =>
          obtain ⟨rfl, rfl⟩ := List.cons.inj hs
          exact ⟨hab, _, t, rfl, hm, h⟩

/-- **Literals between two runs of anything** find the lists they occur in. -/
theorem matchesBy_around {l : List α} :
    matchesBy eq (.any :: (l.map .lit ++ [.any])) s = true ↔
      ∃ m, m <:+: s ∧ List.Forall₂ (fun a b => eq a b = true) l m := by
  rw [matchesBy_any]
  constructor
  · rintro ⟨t, ⟨u, rfl⟩, ht⟩
    obtain ⟨m, t, rfl, hm, -⟩ := matchesBy_lits.mp ht
    exact ⟨m, ⟨u, t, by rw [List.append_assoc]⟩, hm⟩
  · rintro ⟨m, ⟨u, t, rfl⟩, hm⟩
    refine ⟨m ++ t, ⟨u, by rw [List.append_assoc]⟩, ?_⟩
    exact matchesBy_lits.mpr ⟨m, t, rfl, hm, matchesBy_any_end⟩

/-- Literals in front of a run of anything find the lists they begin. -/
theorem matchesBy_beginning {l : List α} :
    matchesBy eq (l.map .lit ++ [.any]) s = true ↔
      ∃ m, m <+: s ∧ List.Forall₂ (fun a b => eq a b = true) l m := by
  rw [matchesBy_lits]
  constructor
  · rintro ⟨m, t, rfl, hm, -⟩
    exact ⟨m, List.prefix_append m t, hm⟩
  · rintro ⟨m, ⟨t, rfl⟩, hm⟩
    exact ⟨m, t, rfl, hm, matchesBy_any_end⟩

end Matching

/-- Elements that agree under a folding are compared by comparing the folded lists. -/
theorem forall₂_fold {β : Type*} [DecidableEq β] {fold : α → β} {l m : List α} :
    List.Forall₂ (fun a b => decide (fold a = fold b) = true) l m ↔
      l.map fold = m.map fold := by
  induction l generalizing m with
  | nil => cases m <;> simp
  | cons a l ih =>
    cases m with
    | nil => simp
    | cons b m => rw [List.forall₂_cons, ih, decide_eq_true_eq, List.map_cons, List.map_cons,
        List.cons.injEq]

theorem exists_prefix_fold {β : Type*} {fold : α → β} {l s : List α} :
    (∃ m, m <+: s ∧ l.map fold = m.map fold) ↔ l.map fold <+: s.map fold := by
  constructor
  · rintro ⟨m, hm, heq⟩
    rw [heq]
    exact hm.map fold
  · rintro ⟨v, hv⟩
    obtain ⟨s₁, s₂, rfl, hs₁, -⟩ := List.map_eq_append_iff.mp hv.symm
    exact ⟨s₁, List.prefix_append s₁ s₂, hs₁.symm⟩

theorem exists_infix_fold {β : Type*} {fold : α → β} {l s : List α} :
    (∃ m, m <:+: s ∧ l.map fold = m.map fold) ↔ l.map fold <:+: s.map fold := by
  constructor
  · rintro ⟨m, hm, heq⟩
    rw [heq]
    exact hm.map fold
  · rintro ⟨u, v, huv⟩
    obtain ⟨s₁, s₂, rfl, hs₁, hs₂⟩ := List.map_eq_append_iff.mp huv.symm
    obtain ⟨s₃, s₄, rfl, hs₃, hs₄⟩ := List.map_eq_append_iff.mp hs₁
    exact ⟨s₄, ⟨s₃, s₂, rfl⟩, hs₄.symm⟩

/-! ## The text of a pattern -/

section Text

variable [DecidableEq α] (sym : Symbols α)

/-- The items of a text, behind an escape symbol or not; one at its end has nothing to take. -/
def items : Bool → List α → Option (List (Item α))
  | false, [] => some []
  | true, [] => none
  | true, a :: l => (items false l).map (.lit a :: ·)
  | false, a :: l =>
    if sym.escape = some a then items true l
    else (items false l).map
      ((if a = sym.any then .any else if a = sym.one then .one else .lit a) :: ·)

/-- Whether a symbol has to be escaped. -/
def special (a : α) : Bool := a = sym.any || a = sym.one || sym.escape = some a

variable {sym}

theorem items_plain {l : List α} (h : ∀ a ∈ l, special sym a = false) (p : List α) :
    items sym false (l ++ p) = (items sym false p).map (l.map .lit ++ ·) := by
  induction l with
  | nil => simp
  | cons a l ih =>
    have ha := h a List.mem_cons_self
    simp only [special, Bool.or_eq_false_iff, decide_eq_false_iff_not] at ha
    rw [List.cons_append, items, if_neg ha.2, if_neg ha.1.1, if_neg ha.1.2,
      ih fun b hb => h b (List.mem_cons_of_mem a hb), Option.map_map]
    rfl

/-- **An escaped text stands for itself.** -/
theorem items_escaped {esc : α} (hesc : sym.escape = some esc) (l p : List α) :
    items sym false ((l.flatMap fun a => if special sym a then [esc, a] else [a]) ++ p) =
      (items sym false p).map (l.map .lit ++ ·) := by
  induction l with
  | nil => simp
  | cons a l ih =>
    rw [List.flatMap_cons, List.append_assoc]
    cases hspecial : special sym a with
    | true =>
      rw [if_pos rfl, List.cons_append, items, if_pos hesc, List.cons_append, items,
        List.nil_append, ih, Option.map_map]
      rfl
    | false =>
      have hplain : ∀ b ∈ [a], special sym b = false := by simpa using hspecial
      rw [if_neg Bool.false_ne_true, items_plain hplain, ih, Option.map_map]
      rfl

end Text

end Like
