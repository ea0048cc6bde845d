import Mathlib.Data.Nat.Digits.Defs

/-!
# Decimal numerals of bounded integers

Reading a numeral accepts one sign and at least one digit and fails on a value out of
range.  Writing is canonical, and what is written reads back.
-/

namespace Numerals

/-- A nonempty run of digits. -/
def parseDigits (s : List Char) : Option Nat :=
  if s.isEmpty || !s.all Char.isDigit then none else some (Nat.ofDigitChars 10 s 0)

/-- An unsigned numeral may carry a plus sign. -/
def parseNat : List Char → Option Nat
  | '+' :: digits => parseDigits digits
  | digits => parseDigits digits

def parseInt : List Char → Option Int
  | '-' :: digits => (parseDigits digits).map fun n : Nat => -(n : Int)
  | s => (parseNat s).map fun n : Nat => (n : Int)

def intDigits (z : Int) : List Char :=
  if z < 0 then '-' :: Nat.toDigits 10 z.natAbs else Nat.toDigits 10 z.natAbs

theorem parseDigits_toDigits (n : Nat) : parseDigits (Nat.toDigits 10 n) = some n := by
  have hdigits : (Nat.toDigits 10 n).all Char.isDigit = true :=
    List.all_eq_true.mpr fun c hc =>
      Nat.isDigit_of_mem_toDigits (by decide) (by decide) hc
  simp [parseDigits, hdigits, Nat.toDigits_ne_nil]

/-- A numeral starts with a digit, so it has no sign. -/
theorem toDigits_cons (n : Nat) :
    ∃ c rest, Nat.toDigits 10 n = c :: rest ∧ c ≠ '+' ∧ c ≠ '-' := by
  obtain ⟨c, rest, heq⟩ := List.exists_cons_of_ne_nil (Nat.toDigits_ne_nil (n := n) (b := 10))
  have hdigit : c.isDigit = true :=
    Nat.isDigit_of_mem_toDigits (n := n) (by decide) (by decide) (heq ▸ List.mem_cons_self)
  refine ⟨c, rest, heq, ?_, ?_⟩
  · rintro rfl
    cases hdigit
  · rintro rfl
    cases hdigit

theorem parseNat_toDigits (n : Nat) : parseNat (Nat.toDigits 10 n) = some n := by
  obtain ⟨c, rest, heq, hplus, -⟩ := toDigits_cons n
  rw [← parseDigits_toDigits n, heq, parseNat]
  exact fun digits h => hplus (List.cons.inj h).1

theorem parseInt_intDigits (z : Int) : parseInt (intDigits z) = some z := by
  unfold intDigits
  split
  · rw [parseInt, parseDigits_toDigits, Option.map_some]
    exact congrArg some (by omega)
  · obtain ⟨c, rest, heq, -, hminus⟩ := toDigits_cons z.natAbs
    have hnat := parseNat_toDigits z.natAbs
    rw [heq] at hnat ⊢
    rw [parseInt, hnat, Option.map_some]
    · exact congrArg some (by omega)
    · exact fun digits h => hminus (List.cons.inj h).1

/-- A type whose values have a numeral that reads back. -/
class Numeral (α : Type*) where
  toText : α → List Char
  ofText : List Char → Option α
  ofText_nil : ofText [] = none
  ofText_toText : ∀ a, ofText (toText a) = some a
  toText_ne_nil : ∀ a, toText a ≠ []
  mem_toText : ∀ a, ∀ c ∈ toText a, c.isDigit = true ∨ c = '-'

/-- The unsigned integers below a bound. -/
instance (size : Nat) : Numeral (Fin size) where
  toText n := Nat.toDigits 10 n
  ofText s := (parseNat s).bind fun n => if h : n < size then some ⟨n, h⟩ else none
  ofText_nil := rfl
  ofText_toText n := by simp [parseNat_toDigits]
  toText_ne_nil _ := Nat.toDigits_ne_nil
  mem_toText _ _ hc := .inl (Nat.isDigit_of_mem_toDigits (by decide) (by decide) hc)

/-- The integers of a range. -/
abbrev Ranged (low high : Int) := { z : Int // low ≤ z ∧ z < high }

instance (low high : Int) : Numeral (Ranged low high) where
  toText z := intDigits z
  ofText s := (parseInt s).bind fun z =>
    if h : low ≤ z ∧ z < high then some ⟨z, h⟩ else none
  ofText_nil := rfl
  ofText_toText z := by simp [parseInt_intDigits, z.2]
  toText_ne_nil z := by
    unfold intDigits
    split <;> simp [Nat.toDigits_ne_nil]
  mem_toText z c hc := by
    unfold intDigits at hc
    have hdigit : ∀ n, c ∈ Nat.toDigits 10 n → c.isDigit = true := fun n hc =>
      Nat.isDigit_of_mem_toDigits (by decide) (by decide) hc
    split at hc
    · rcases List.mem_cons.mp hc with rfl | hc
      · exact .inr rfl
      · exact .inl (hdigit _ hc)
    · exact .inl (hdigit _ hc)

end Numerals
