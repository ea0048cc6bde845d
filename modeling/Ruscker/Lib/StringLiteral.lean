import Mathlib.Data.List.Basic
import Mathlib.Data.Nat.Digits.Defs

/-!
# Debug text as a script literal

A text is printed between quotes with the escapes of a debug formatter, and read back as a string
literal of a script.  The two agree but for a null character in front of an octal digit, which the
script takes for one octal escape.
-/

namespace StringLiterals

/-- The formatter's tables. -/
class DebugTables where
  isGraphemeExtended : Char → Bool
  isPrintable : Char → Bool

/-! ## Printing -/

def null : Char := Char.ofNat 0

def unicodeEscape (c : Char) : List Char :=
  ['\\', 'u', '{'] ++ Nat.toDigits 16 c.toNat ++ ['}']

def escapeDebug [DebugTables] (c : Char) : List Char :=
  if c = null then ['\\', '0']
  else if c = '\t' then ['\\', 't']
  else if c = '\r' then ['\\', 'r']
  else if c = '\n' then ['\\', 'n']
  else if c = '\\' ∨ c = '"' then ['\\', c]
  else if 0x20 ≤ c.toNat ∧ c.toNat ≤ 0x7E then [c]
  else if DebugTables.isPrintable c && !DebugTables.isGraphemeExtended c then [c]
  else unicodeEscape c

def debug [DebugTables] (s : List Char) : List Char := s.flatMap escapeDebug

/-! ## Reading -/

def octalValue (c : Char) : Option Nat :=
  if '0' ≤ c ∧ c ≤ '7' then some (c.toNat - '0'.toNat) else none

def hexValue (c : Char) : Option Nat :=
  if '0' ≤ c ∧ c ≤ '9' then some (c.toNat - '0'.toNat)
  else if 'a' ≤ c ∧ c ≤ 'f' then some (c.toNat - 'a'.toNat + 10)
  else if 'A' ≤ c ∧ c ≤ 'F' then some (c.toNat - 'A'.toNat + 10)
  else none

/-- What is being read: a character, the one behind a backslash, an octal escape that may take so
many digits more, or a code point in braces. -/
inductive Reading where
  | plain
  | escape
  | octal (value left : Nat)
  | unicode
  | braces (value : Nat)

def singleEscape : Char → Char
  | 'b' => Char.ofNat 8
  | 't' => '\t'
  | 'n' => '\n'
  | 'v' => Char.ofNat 11
  | 'f' => Char.ofNat 12
  | 'r' => '\r'
  | c => c

def plainStep (c : Char) : Option (List Char × Reading) :=
  if c = '\\' then some ([], .escape)
  else if c = '\n' ∨ c = '\r' then none
  else some ([c], .plain)

/-- The characters that one more completes.  Two-digit and four-digit escapes and continued lines
are not read. -/
def step : Reading → Char → Option (List Char × Reading)
  | .plain, c => plainStep c
  | .escape, c =>
    match octalValue c with
    | some d => some ([], .octal d (if d < 4 then 2 else 1))
    | none =>
      if c = 'u' then some ([], .unicode)
      else if c = 'x' ∨ c = '\n' ∨ c = '\r' then none
      else some ([singleEscape c], .plain)
  | .octal value left, c =>
    match octalValue c, left with
    | some d, left + 1 => some ([], .octal (8 * value + d) left)
    | _, _ => (plainStep c).map fun p => (Char.ofNat value :: p.1, p.2)
  | .unicode, c => if c = '{' then some ([], .braces 0) else none
  | .braces value, c =>
    if c = '}' then if value.isValidChar then some ([Char.ofNat value], .plain) else none
    else (hexValue c).map fun d => ([], .braces (16 * value + d))

/-- The value up to the closing quote, and what follows it. -/
def read : Reading → List Char → Option (List Char × List Char)
  | _, [] => none
  | .plain, '"' :: rest => some ([], rest)
  | .octal value _, '"' :: rest => some ([Char.ofNat value], rest)
  | r, c :: rest =>
    match step r c with
    | none => none
    | some (out, r') => (read r' rest).map fun p => (out ++ p.1, p.2)

/-- What a printed text is read as, behind an octal escape or not. -/
def literalValue : Option (Nat × Nat) → List Char → List Char
  | none, [] => []
  | some (value, _), [] => [Char.ofNat value]
  | state, c :: s =>
    match state, octalValue c with
    | some (value, left + 1), some d => literalValue (some (8 * value + d, left)) s
    | some (value, _), _ =>
      Char.ofNat value ::
        if c = null then literalValue (some (0, 2)) s else c :: literalValue none s
    | none, _ => if c = null then literalValue (some (0, 2)) s else c :: literalValue none s

/-! ## Code points -/

theorem hexValue_digitChar {d : Nat} (h : d < 16) : hexValue d.digitChar = some d := by
  have hall : ∀ d : Fin 16, hexValue d.val.digitChar = some d.val := by decide
  exact hall ⟨d, h⟩

theorem digitChar_ne_brace {d : Nat} (h : d < 16) : d.digitChar ≠ '}' := by
  have hall : ∀ d : Fin 16, d.val.digitChar ≠ '}' := by decide
  exact hall ⟨d, h⟩

/-- A digit in braces is read into the value. -/
theorem read_braces_digit {value d : Nat} (h : d < 16) (s : List Char) :
    read (.braces value) (d.digitChar :: s) = read (.braces (16 * value + d)) s := by
  have hstep : step (.braces value) d.digitChar = some ([], .braces (16 * value + d)) := by
    rw [step, if_neg (digitChar_ne_brace h), hexValue_digitChar h]
    rfl
  simp [read, hstep]

theorem read_braces_digits (n : Nat) (s : List Char) :
    read (.braces 0) (Nat.toDigits 16 n ++ s) = read (.braces n) s := by
  induction n using Nat.strong_induction_on generalizing s with
  | _ n ih =>
    by_cases hn : n < 16
    · rw [Nat.toDigits_of_lt_base hn]
      have hdigit : read (.braces 0) (n.digitChar :: s) = read (.braces (16 * 0 + n)) s :=
        read_braces_digit hn s
      simpa using hdigit
    · rw [Nat.toDigits_of_base_le (by decide) (by omega), List.append_assoc,
        ih (n / 16) (by omega), List.singleton_append, read_braces_digit (by omega)]
      congr 2
      omega

theorem read_unicodeEscape (c : Char) (s : List Char) :
    read .plain (unicodeEscape c ++ s) = (read .plain s).map fun p => (c :: p.1, p.2) := by
  have hvalid : c.toNat.isValidChar := c.valid
  have hdigits := read_braces_digits c.toNat ('}' :: s)
  have hclose : read (.braces c.toNat) ('}' :: s) =
      (read .plain s).map fun p => (c :: p.1, p.2) := by
    rw [read.eq_def]
    simp [step, hvalid, Char.ofNat_toNat]
  rw [← hclose, ← hdigits]
  simp [unicodeEscape, read, step, plainStep, octalValue]

/-! ## Printed characters -/

section Printed

variable {c : Char} {s rest : List Char}

theorem octalValue_eq_some {d : Nat} (h : octalValue c = some d) :
    0x30 ≤ c.toNat ∧ c.toNat ≤ 0x37 ∧ c ≠ '"' := by
  unfold octalValue at h
  split at h
  · next hrange =>
    refine ⟨hrange.1, hrange.2, ?_⟩
    rintro rfl
    exact absurd hrange.1 (by decide)
  · cases h

theorem read_plain (hquote : c ≠ '"') (hslash : c ≠ '\\') (hnewline : c ≠ '\n')
    (hreturn : c ≠ '\r') : read .plain (c :: s) = (read .plain s).map fun p => (c :: p.1, p.2) := by
  simp [read, step, plainStep, hslash, hnewline, hreturn, hquote]

theorem read_single (hoctal : octalValue c = none) (hu : c ≠ 'u') (hx : c ≠ 'x') (hnewline : c ≠ '\n')
    (hreturn : c ≠ '\r') : read .plain ('\\' :: c :: s) =
      (read .plain s).map fun p => (singleEscape c :: p.1, p.2) := by
  simp [read, step, plainStep, hoctal, hu, hx, hnewline, hreturn, Function.comp_def]

theorem read_octal_digit {value left d : Nat} (h : octalValue c = some d) :
    read (.octal value (left + 1)) (c :: s) = read (.octal (8 * value + d) left) s := by
  obtain ⟨-, -, hquote⟩ := octalValue_eq_some h
  simp [read, step, h, hquote]

/-- What takes no digit more ends the escape. -/
theorem read_octal_end {value left : Nat} (h : octalValue c = none ∨ left = 0) :
    read (.octal value left) (c :: s) =
      (read .plain (c :: s)).map fun p => (Char.ofNat value :: p.1, p.2) := by
  by_cases hquote : c = '"'
  · subst hquote
    rfl
  · have hstep : step (.octal value left) c =
        (plainStep c).map fun p => (Char.ofNat value :: p.1, p.2) := by
      rcases h with h | rfl
      · simp [step, h]
      · simp [step]
    rw [read, read, hstep, step]
    · cases plainStep c <;> simp [Function.comp_def]
    all_goals simp [hquote]

theorem literalValue_digit {value left d : Nat} (h : octalValue c = some d) :
    literalValue (some (value, left + 1)) (c :: s) =
      literalValue (some (8 * value + d, left)) s := by
  simp [literalValue, h]

theorem literalValue_end {value left : Nat} (h : octalValue c = none ∨ left = 0) :
    literalValue (some (value, left)) (c :: s) =
      Char.ofNat value :: literalValue none (c :: s) := by
  rcases h with h | rfl
  · simp [literalValue, h]
  · simp [literalValue]

variable [DebugTables]

theorem escapeDebug_of_octal {d : Nat} (h : octalValue c = some d) : escapeDebug c = [c] := by
  obtain ⟨hlow, hhigh, -⟩ := octalValue_eq_some h
  have hne : ∀ b : Char, b.toNat < 0x30 ∨ 0x37 < b.toNat → c ≠ b := by
    rintro b hb rfl
    omega
  unfold escapeDebug
  rw [if_neg (hne _ (by decide)), if_neg (hne _ (by decide)), if_neg (hne _ (by decide)),
    if_neg (hne _ (by decide)), if_neg, if_pos ⟨by omega, by omega⟩]
  rintro (h | h)
  · exact hne _ (by decide) h
  · exact hne _ (by decide) h

/-- A character is printed as an escape or as itself. -/
theorem escapeDebug_cases : (∃ t, escapeDebug c = '\\' :: t) ∨
    escapeDebug c = [c] ∧ c ≠ '\\' ∧ c ≠ '"' ∧ c ≠ '\n' ∧ c ≠ '\r' ∧ c ≠ null := by
  unfold escapeDebug
  split_ifs with hnull htab hreturn hnewline hquote hascii hprintable
  · exact .inl ⟨_, rfl⟩
  · exact .inl ⟨_, rfl⟩
  · exact .inl ⟨_, rfl⟩
  · exact .inl ⟨_, rfl⟩
  · exact .inl ⟨_, rfl⟩
  · push Not at hquote
    exact .inr ⟨rfl, hquote.1, hquote.2, hnewline, hreturn, hnull⟩
  · push Not at hquote
    exact .inr ⟨rfl, hquote.1, hquote.2, hnewline, hreturn, hnull⟩
  · exact .inl ⟨_, rfl⟩

theorem read_null : read .plain (escapeDebug null ++ s) = read (.octal 0 2) s := by
  simp [escapeDebug, read, step, plainStep, octalValue]

/-- A printed character is read back. -/
theorem read_escapeDebug (hc : c ≠ null) : read .plain (escapeDebug c ++ s) =
    (read .plain s).map fun p => (c :: p.1, p.2) := by
  unfold escapeDebug
  rw [if_neg hc]
  split_ifs with htab hreturn hnewline hquote hascii hprintable
  · rw [htab]
    exact read_single (by decide) (by decide) (by decide) (by decide) (by decide)
  · rw [hreturn]
    exact read_single (by decide) (by decide) (by decide) (by decide) (by decide)
  · rw [hnewline]
    exact read_single (by decide) (by decide) (by decide) (by decide) (by decide)
  · rcases hquote with rfl | rfl
    · exact read_single (by decide) (by decide) (by decide) (by decide) (by decide)
    · exact read_single (by decide) (by decide) (by decide) (by decide) (by decide)
  · push Not at hquote
    exact read_plain hquote.2 hquote.1 hnewline hreturn
  · push Not at hquote
    exact read_plain hquote.2 hquote.1 hnewline hreturn
  · exact read_unicodeEscape c s

/-- What is read at a character: with or without an octal escape in front. -/
def reading : Option (Nat × Nat) → Reading
  | none => .plain
  | some (value, left) => .octal value left

theorem debug_cons : debug (c :: s) = escapeDebug c ++ debug s := List.flatMap_cons

/-- **The literal of a printed text.** -/
theorem read_debug (state : Option (Nat × Nat)) (s rest : List Char) :
    read (reading state) (debug s ++ '"' :: rest) = some (literalValue state s, rest) := by
  induction s generalizing state with
  | nil =>
    cases state with
    | none => rfl
    | some p => rfl
  | cons c s ih =>
    have hplain : read .plain (debug (c :: s) ++ '"' :: rest) =
        some (literalValue none (c :: s), rest) := by
      have htail : read .plain (debug s ++ '"' :: rest) = some (literalValue none s, rest) :=
        ih none
      rw [debug_cons, List.append_assoc, literalValue]
      split
      · next hnull =>
        rw [hnull, read_null]
        exact ih (some (0, 2))
      · next hc =>
        rw [read_escapeDebug hc, htail]
        rfl
    cases state with
    | none => exact hplain
    | some p =>
      obtain ⟨value, left⟩ := p
      by_cases hdigit : octalValue c = none ∨ left = 0
      · rw [literalValue_end hdigit]
        obtain ⟨x, t, heq, hx⟩ : ∃ x t, escapeDebug c = x :: t ∧ (octalValue x = none ∨ left = 0) := by
          rcases escapeDebug_cases (c := c) with ⟨t, heq⟩ | ⟨heq, -⟩
          · exact ⟨_, t, heq, .inl rfl⟩
          · exact ⟨c, [], heq, hdigit⟩
        rw [debug_cons, heq, List.cons_append, List.cons_append] at hplain ⊢
        refine (read_octal_end hx).trans ?_
        rw [hplain]
        rfl
      · push Not at hdigit
        obtain ⟨d, hd⟩ := Option.ne_none_iff_exists'.mp hdigit.1
        obtain ⟨k, rfl⟩ := Nat.exists_eq_succ_of_ne_zero hdigit.2
        rw [debug_cons, escapeDebug_of_octal hd, literalValue_digit hd, ← ih]
        exact read_octal_digit hd

end Printed

/-! ## What reads back -/

section ReadBack

variable {c : Char} {s : List Char}

theorem length_literalValue_le (s : List Char) : (literalValue none s).length ≤ s.length ∧
    ∀ value left, (literalValue (some (value, left)) s).length ≤ s.length + 1 := by
  induction s with
  | nil => exact ⟨Nat.le_refl _, fun _ _ => Nat.le_refl _⟩
  | cons c s ih =>
    have hnone : (literalValue none (c :: s)).length ≤ s.length + 1 := by
      rw [literalValue]
      split
      · exact ih.2 0 2
      · simpa using ih.1
    refine ⟨hnone, ?_⟩
    intro value left
    by_cases hdigit : octalValue c = none ∨ left = 0
    · rw [literalValue_end hdigit]
      simpa using hnone
    · push Not at hdigit
      obtain ⟨d, hd⟩ := Option.ne_none_iff_exists'.mp hdigit.1
      obtain ⟨k, rfl⟩ := Nat.exists_eq_succ_of_ne_zero hdigit.2
      rw [literalValue_digit hd]
      have hle := ih.2 (8 * value + d) k
      simp only [List.length_cons]
      omega

/-- A null character stands in front of an octal digit. -/
def Misread (s : List Char) : Prop := ∃ d, (octalValue d).isSome ∧ [null, d] <:+: s

theorem misread_cons : Misread (c :: s) ↔
    (c = null ∧ ∃ d ∈ s.head?, (octalValue d).isSome) ∨ Misread s := by
  constructor
  · rintro ⟨d, hd, hinfix⟩
    rcases List.infix_cons_iff.mp hinfix with hprefix | hinfix
    · obtain ⟨rfl, htail⟩ := List.cons_prefix_cons.mp hprefix
      obtain ⟨rest, rfl⟩ := htail
      exact .inl ⟨rfl, d, rfl, hd⟩
    · exact .inr ⟨d, hd, hinfix⟩
  · rintro (⟨rfl, d, hd, hoctal⟩ | ⟨d, hd, hinfix⟩)
    · obtain ⟨rest, rfl⟩ := List.head?_eq_some_iff.mp hd
      exact ⟨d, hoctal, [], rest, rfl⟩
    · exact ⟨d, hd, List.infix_cons hinfix⟩

/-- A null character is read as one, unless an octal digit follows. -/
theorem literalValue_null (h : ¬ ∃ d ∈ s.head?, (octalValue d).isSome) :
    literalValue none (null :: s) = null :: literalValue none s := by
  rw [literalValue, if_pos rfl]
  cases s with
  | nil => rfl
  | cons d s =>
    refine literalValue_end (.inl ?_)
    by_contra hd
    exact h ⟨d, rfl, Option.isSome_iff_ne_none.mpr hd⟩

theorem literalValue_of_ne (hc : c ≠ null) :
    literalValue none (c :: s) = c :: literalValue none s := by
  rw [literalValue, if_neg hc]

theorem length_literalValue_lt (h : Misread s) : (literalValue none s).length < s.length := by
  induction s with
  | nil =>
    obtain ⟨d, -, hinfix⟩ := h
    cases List.infix_nil.mp hinfix
  | cons c s ih =>
    by_cases hdigit : c = null ∧ ∃ d ∈ s.head?, (octalValue d).isSome
    · obtain ⟨rfl, d, hd, hoctal⟩ := hdigit
      obtain ⟨rest, rfl⟩ := List.head?_eq_some_iff.mp hd
      obtain ⟨v, hv⟩ := Option.isSome_iff_exists.mp hoctal
      have hle := (length_literalValue_le rest).2 (8 * 0 + v) 1
      rw [literalValue, if_pos rfl, literalValue_digit hv]
      simp only [List.length_cons]
      omega
    · have hlt := ih ((misread_cons.mp h).resolve_left hdigit)
      by_cases hc : c = null
      · subst hc
        rw [literalValue_null fun hd => hdigit ⟨rfl, hd⟩]
        simpa using hlt
      · rw [literalValue_of_ne hc]
        simpa using hlt

/-- **A printed text is read back just when no null character is in front of an octal digit.** -/
theorem literalValue_eq_self_iff : literalValue none s = s ↔ ¬ Misread s := by
  constructor
  · intro heq hmisread
    have hlt := length_literalValue_lt hmisread
    rw [heq] at hlt
    omega
  · intro h
    induction s with
    | nil => rfl
    | cons c s ih =>
      rw [misread_cons, not_or] at h
      by_cases hc : c = null
      · subst hc
        rw [literalValue_null fun hd => h.1 ⟨rfl, hd⟩, ih h.2]
      · rw [literalValue_of_ne hc, ih h.2]

end ReadBack

end StringLiterals
