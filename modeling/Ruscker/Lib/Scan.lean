import Mathlib.Data.List.TakeWhile

/-!
# Matches from left to right

A pattern is tried at each entry of a list in turn; behind a match the scan goes on with what
follows it.
-/

namespace Scans

/-- An entry that no match starts at, or a match. -/
inductive Item (α γ : Type*) where
  | one (a : α)
  | found (g : γ)

variable {α γ : Type*}

def scanAux (find : List α → Option (γ × List α)) : Nat → List α → List (Item α γ)
  | 0, _ => []
  | _ + 1, [] => []
  | fuel + 1, a :: l =>
    match find (a :: l) with
    | some (g, rest) => .found g :: scanAux find fuel rest
    | none => .one a :: scanAux find fuel l

def scan (find : List α → Option (γ × List α)) (l : List α) : List (Item α γ) :=
  scanAux find l.length l

/-- A match takes something. -/
def Takes (find : List α → Option (γ × List α)) : Prop :=
  ∀ l g rest, find l = some (g, rest) → rest.length < l.length

variable {find : List α → Option (γ × List α)} {l rest : List α} {a : α} {g : γ}

/-- Fuel for each entry is enough. -/
theorem scanAux_eq (hfind : Takes find) {fuel fuel' : Nat} (h : l.length ≤ fuel)
    (h' : l.length ≤ fuel') : scanAux find fuel l = scanAux find fuel' l := by
  induction fuel generalizing fuel' l with
  | zero =>
    obtain rfl := List.length_eq_zero_iff.mp (Nat.le_zero.mp h)
    cases fuel' with
    | zero => rfl
    | succ fuel' => rfl
  | succ fuel ih =>
    cases l with
    | nil =>
      cases fuel' with
      | zero => rfl
      | succ fuel' => rfl
    | cons a l =>
      rw [List.length_cons] at h h'
      obtain ⟨fuel', rfl⟩ : ∃ k, fuel' = k + 1 := ⟨fuel' - 1, by omega⟩
      rw [scanAux, scanAux]
      split
      · next g rest hfound =>
        have hlt := hfind _ _ _ hfound
        rw [List.length_cons] at hlt
        rw [ih (show rest.length ≤ fuel by omega) (show rest.length ≤ fuel' by omega)]
      · rw [ih (show l.length ≤ fuel by omega) (show l.length ≤ fuel' by omega)]

@[simp] theorem scan_nil : scan find [] = [] := rfl

theorem scan_of_found (hfind : Takes find) (h : find l = some (g, rest)) :
    scan find l = .found g :: scan find rest := by
  have hlt := hfind _ _ _ h
  cases l with
  | nil => exact absurd hlt (Nat.not_lt_zero _)
  | cons a l =>
    rw [List.length_cons] at hlt
    have hfuel : rest.length ≤ l.length := by omega
    rw [scan, List.length_cons, scanAux, h]
    exact congrArg (.found g :: ·) (scanAux_eq hfind hfuel le_rfl)

theorem scan_of_none (h : find (a :: l) = none) : scan find (a :: l) = .one a :: scan find l := by
  rw [scan, List.length_cons, scanAux, h]
  rfl

/-- The items of a list come one by one. -/
theorem scan_induct (hfind : Takes find) {motive : List α → List (Item α γ) → Prop}
    (nil : motive [] [])
    (one : ∀ a l, find (a :: l) = none → motive l (scan find l) →
      motive (a :: l) (.one a :: scan find l))
    (found : ∀ l g rest, find l = some (g, rest) → motive rest (scan find rest) →
      motive l (.found g :: scan find rest)) (l : List α) :
    motive l (scan find l) := by
  induction hlength : l.length using Nat.strong_induction_on generalizing l with
  | _ length ih =>
    subst hlength
    cases l with
    | nil => exact nil
    | cons a l =>
      cases hfound : find (a :: l) with
      | none =>
        rw [scan_of_none hfound]
        exact one a l hfound (ih l.length (Nat.lt_succ_self _) l rfl)
      | some p =>
        obtain ⟨g, rest⟩ := p
        rw [scan_of_found hfind hfound]
        exact found _ g rest hfound (ih rest.length (hfind _ _ _ hfound) rest rfl)

/-- Entries that no match starts at. -/
theorem scan_append {m : List α} (h : ∀ a ∈ l, ∀ m, find (a :: m) = none) :
    scan find (l ++ m) = l.map .one ++ scan find m := by
  induction l with
  | nil => rfl
  | cons a l ih =>
    obtain ⟨ha, hl⟩ := List.forall_mem_cons.mp h
    rw [List.cons_append, scan_of_none (ha _), ih hl]
    rfl

/-! ## Longer entries -/

section Spell

variable {β δ : Type*} {find' : List β → Option (δ × List β)} {f : α → List β} {φ : γ → δ}

def Item.spelled (f : α → List β) (φ : γ → δ) : Item α γ → List (Item β δ)
  | .one a => (f a).map .one
  | .found g => [.found (φ g)]

/-- Where the entries of a list are spelled out and the matches stay the same ones. -/
theorem scan_flatMap (hfind : Takes find) (hfind' : Takes find') (hf : ∀ a, f a ≠ [])
    (hmatch : ∀ l, find' (l.flatMap f) = (find l).map fun p => (φ p.1, p.2.flatMap f))
    (htail : ∀ a, ∀ b ∈ (f a).tail, ∀ m, find' (b :: m) = none) (l : List α) :
    scan find' (l.flatMap f) = (scan find l).flatMap (Item.spelled f φ) := by
  refine scan_induct hfind (motive := fun l items =>
    scan find' (l.flatMap f) = items.flatMap (Item.spelled f φ)) rfl ?_ ?_ l
  · intro a l hnone ih
    obtain ⟨b, bs, hb⟩ := List.exists_cons_of_ne_nil (hf a)
    have hspelled := hmatch (a :: l)
    have hbs := htail a
    rw [hnone, List.flatMap_cons, hb, List.cons_append] at hspelled
    rw [hb, List.tail_cons] at hbs
    rw [List.flatMap_cons, List.flatMap_cons, ← ih, hb, List.cons_append, scan_of_none hspelled,
      scan_append hbs, Item.spelled, hb]
    rfl
  · intro l g rest hfound ih
    have hspelled := hmatch l
    rw [hfound] at hspelled
    rw [scan_of_found hfind' hspelled, ih]
    rfl

end Spell

end Scans
