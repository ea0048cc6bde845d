import Mathlib.Data.Char
import Ruscker.Lib.Utf8

/-!
# JSON texts

A text is read as a tree that keeps strings in pieces and numbers as they are written, and a string
is printed with the shortest escapes.  The bytes of a text may stand for its characters.
-/

namespace Json

/-- A piece of a string: a character, or the code unit of a numeric escape. -/
inductive Piece where
  | char (c : Char)
  | unit (u : Nat)
  deriving DecidableEq

inductive Tree where
  | null
  | bool (b : Bool)
  | num (text : List Char)
  | str (pieces : List Piece)
  | arr (items : List Tree)
  | obj (members : List (List Piece × Tree))

def Tree.isComposite : Tree → Bool
  | .arr _ | .obj _ => true
  | _ => false

/-! ## Reading -/

def isBlank (c : Char) : Bool := c = ' ' || c = '\n' || c = '\t' || c = '\r'

def skip (s : List Char) : List Char := s.dropWhile isBlank

def hexValue (c : Char) : Option Nat :=
  if '0' ≤ c ∧ c ≤ '9' then some (c.toNat - '0'.toNat)
  else if 'a' ≤ c ∧ c ≤ 'f' then some (c.toNat - 'a'.toNat + 10)
  else if 'A' ≤ c ∧ c ≤ 'F' then some (c.toNat - 'A'.toNat + 10)
  else none

/-- The character of a simple escape. -/
def unescape : Char → Option Char
  | '"' => some '"'
  | '\\' => some '\\'
  | '/' => some '/'
  | 'b' => some (Char.ofNat 8)
  | 'f' => some (Char.ofNat 12)
  | 'n' => some '\n'
  | 'r' => some '\r'
  | 't' => some '\t'
  | _ => none

/-- The pieces of a string behind its opening quote, and what follows the closing one. -/
def readString : List Char → Option (List Piece × List Char)
  | [] => none
  | '"' :: s => some ([], s)
  | '\\' :: 'u' :: a :: b :: c :: d :: s =>
    match hexValue a, hexValue b, hexValue c, hexValue d with
    | some a, some b, some c, some d =>
      (readString s).map fun p => (.unit (((a * 16 + b) * 16 + c) * 16 + d) :: p.1, p.2)
    | _, _, _, _ => none
  | '\\' :: c :: s =>
    match unescape c with
    | some c => (readString s).map fun p => (.char c :: p.1, p.2)
    | none => none
  | c :: s =>
    if c.toNat < 0x20 || c = '\\' then none
    else (readString s).map fun p => (.char c :: p.1, p.2)

/-- One or more digits. -/
def readDigits (s : List Char) : Option (List Char × List Char) :=
  if s.takeWhile Char.isDigit = [] then none
  else some (s.takeWhile Char.isDigit, s.dropWhile Char.isDigit)

def readMinus : List Char → List Char × List Char
  | '-' :: s => (['-'], s)
  | s => ([], s)

def readSign : List Char → List Char × List Char
  | '+' :: s => (['+'], s)
  | s => readMinus s

/-- An exponent, if there is one. -/
def readExponent : List Char → Option (List Char × List Char)
  | e :: s =>
    if e = 'e' || e = 'E' then
      (readDigits (readSign s).2).map fun p => (e :: ((readSign s).1 ++ p.1), p.2)
    else some ([], e :: s)
  | [] => some ([], [])

/-- A fraction, if there is one. -/
def readFraction : List Char → Option (List Char × List Char)
  | '.' :: s => (readDigits s).map fun p => ('.' :: p.1, p.2)
  | s => some ([], s)

/-- The digits in front of a fraction, without a leading zero. -/
def readInteger : List Char → Option (List Char × List Char)
  | '0' :: s => if s.head?.any Char.isDigit then none else some (['0'], s)
  | s => readDigits s

def readNumber (s : List Char) : Option (List Char × List Char) := do
  let integer ← readInteger (readMinus s).2
  let fraction ← readFraction integer.2
  let exponent ← readExponent fraction.2
  some ((readMinus s).1 ++ (integer.1 ++ (fraction.1 ++ exponent.1)), exponent.2)

mutual

/-- A value, and what follows it. -/
def readValue : Nat → List Char → Option (Tree × List Char)
  | 0, _ => none
  | n + 1, s =>
    match skip s with
    | 'n' :: 'u' :: 'l' :: 'l' :: s => some (.null, s)
    | 't' :: 'r' :: 'u' :: 'e' :: s => some (.bool true, s)
    | 'f' :: 'a' :: 'l' :: 's' :: 'e' :: s => some (.bool false, s)
    | '"' :: s => (readString s).map fun p => (.str p.1, p.2)
    | '[' :: s =>
      match skip s with
      | ']' :: s => some (.arr [], s)
      | s => (readItems n s).map fun p => (.arr p.1, p.2)
    | '{' :: s =>
      match skip s with
      | '}' :: s => some (.obj [], s)
      | s => (readMembers n s).map fun p => (.obj p.1, p.2)
    | s => (readNumber s).map fun p => (.num p.1, p.2)

/-- One or more values and the closing bracket. -/
def readItems : Nat → List Char → Option (List Tree × List Char)
  | 0, _ => none
  | n + 1, s =>
    match readValue n s with
    | none => none
    | some (v, s) =>
      match skip s with
      | ',' :: s => (readItems n s).map fun p => (v :: p.1, p.2)
      | ']' :: s => some ([v], s)
      | _ => none

/-- One or more members and the closing brace. -/
def readMembers : Nat → List Char → Option (List (List Piece × Tree) × List Char)
  | 0, _ => none
  | n + 1, s =>
    match skip s with
    | '"' :: s =>
      match readString s with
      | none => none
      | some (k, s) =>
        match skip s with
        | ':' :: s =>
          match readValue n s with
          | none => none
          | some (v, s) =>
            match skip s with
            | ',' :: s => (readMembers n s).map fun p => ((k, v) :: p.1, p.2)
            | '}' :: s => some ([(k, v)], s)
            | _ => none
        | _ => none
    | _ => none

end

/-- A text that is one value and white space around it. -/
def read (s : List Char) : Option Tree :=
  match readValue (2 * s.length + 2) s with
  | some (v, s) => if skip s = [] then some v else none
  | none => none

section Fuel

variable {s rest : List Char}

theorem length_skip_le : (skip s).length ≤ s.length := (List.dropWhile_suffix _).length_le

theorem length_of_skip {c : Char} (h : skip s = c :: rest) : rest.length + 1 ≤ s.length := by
  have hle := length_skip_le (s := s)
  rw [h, List.length_cons] at hle
  exact hle

theorem length_readString {ps : List Piece} (h : readString s = some (ps, rest)) :
    rest.length < s.length := by
  fun_induction readString s generalizing ps rest with
  | case2 s =>
    cases h
    exact Nat.lt_succ_self _
  | case3 s c₁ c₂ c₃ c₄ a b c d ha hb hc hd ih =>
    obtain ⟨p, hp, heq⟩ := Option.map_eq_some_iff.mp h
    cases heq
    have := ih hp
    simp only [List.length_cons]
    omega
  | case5 s c₁ hu c hc ih =>
    obtain ⟨p, hp, heq⟩ := Option.map_eq_some_iff.mp h
    cases heq
    have := ih hp
    simp only [List.length_cons]
    omega
  | case8 s c hquote hu hslash hplain ih =>
    obtain ⟨p, hp, heq⟩ := Option.map_eq_some_iff.mp h
    cases heq
    have := ih hp
    simp only [List.length_cons]
    omega
  | _ => cases h

theorem length_readDigits {ds : List Char} (h : readDigits s = some (ds, rest)) :
    rest.length ≤ s.length := by
  unfold readDigits at h
  split at h
  · cases h
  · cases h
    exact (List.dropWhile_suffix _).length_le

theorem length_readMinus : (readMinus s).2.length ≤ s.length := by
  unfold readMinus
  split
  · exact Nat.le_succ _
  · exact le_refl _

theorem length_readSign : (readSign s).2.length ≤ s.length := by
  unfold readSign
  split
  · exact Nat.le_succ _
  · exact length_readMinus

theorem length_readExponent {text : List Char} (h : readExponent s = some (text, rest)) :
    rest.length ≤ s.length := by
  unfold readExponent at h
  split at h
  · next e s =>
    split at h
    · obtain ⟨p, hp, heq⟩ := Option.map_eq_some_iff.mp h
      cases heq
      exact le_trans (length_readDigits hp) (le_trans length_readSign (Nat.le_succ _))
    · cases h
      exact le_refl _
  · cases h
    exact le_refl _

theorem length_readFraction {text : List Char} (h : readFraction s = some (text, rest)) :
    rest.length ≤ s.length := by
  unfold readFraction at h
  split at h
  · obtain ⟨p, hp, heq⟩ := Option.map_eq_some_iff.mp h
    cases heq
    exact le_trans (length_readDigits hp) (Nat.le_succ _)
  · cases h
    exact le_refl _

theorem length_readInteger {text : List Char} (h : readInteger s = some (text, rest)) :
    rest.length ≤ s.length := by
  unfold readInteger at h
  split at h
  · split at h
    · cases h
    · cases h
      exact Nat.le_succ _
  · exact length_readDigits h

theorem length_readNumber {text : List Char} (h : readNumber s = some (text, rest)) :
    rest.length ≤ s.length := by
  unfold readNumber at h
  obtain ⟨integer, hinteger, h⟩ := Option.bind_eq_some_iff.mp h
  obtain ⟨fraction, hfraction, h⟩ := Option.bind_eq_some_iff.mp h
  obtain ⟨exponent, hexponent, h⟩ := Option.bind_eq_some_iff.mp h
  cases h
  exact le_trans (length_readExponent hexponent) (le_trans (length_readFraction hfraction)
    (le_trans (length_readInteger hinteger) length_readMinus))

theorem exists_of_map {α β : Type*} {o : Option (α × List Char)} {f : α → β} {b : β}
    (h : (o.map fun p => (f p.1, p.2)) = some (b, rest)) : ∃ a, o = some (a, rest) := by
  obtain ⟨p, hp, heq⟩ := Option.map_eq_some_iff.mp h
  cases heq
  exact ⟨p.1, hp⟩

/-- A reader never gives back more than it was given. -/
def Consumes {α : Type*} (read : List Char → Option (α × List Char)) : Prop :=
  ∀ s a rest, read s = some (a, rest) → rest.length ≤ s.length

theorem consumes_readValue {n : Nat} (hitems : Consumes (readItems n))
    (hmembers : Consumes (readMembers n)) : Consumes (readValue (n + 1)) := by
  intro s a rest h
  have hskip := length_skip_le (s := s)
  unfold readValue at h
  split at h
  · next heq =>
    cases h
    simp only [heq, List.length_cons] at hskip
    omega
  · next heq =>
    cases h
    simp only [heq, List.length_cons] at hskip
    omega
  · next heq =>
    cases h
    simp only [heq, List.length_cons] at hskip
    omega
  · next heq =>
    obtain ⟨ps, hps⟩ := exists_of_map h
    have := length_readString hps
    simp only [heq, List.length_cons] at hskip
    omega
  · next s' heq =>
    have hskip' := length_skip_le (s := s')
    simp only [heq, List.length_cons] at hskip
    split at h
    · next heq' =>
      cases h
      simp only [heq', List.length_cons] at hskip'
      omega
    · obtain ⟨vs, hvs⟩ := exists_of_map h
      have := hitems _ _ _ hvs
      omega
  · next s' heq =>
    have hskip' := length_skip_le (s := s')
    simp only [heq, List.length_cons] at hskip
    split at h
    · next heq' =>
      cases h
      simp only [heq', List.length_cons] at hskip'
      omega
    · obtain ⟨ms, hms⟩ := exists_of_map h
      have := hmembers _ _ _ hms
      omega
  · obtain ⟨text, htext⟩ := exists_of_map h
    exact le_trans (length_readNumber htext) hskip

theorem consumes (n : Nat) :
    Consumes (readValue n) ∧ Consumes (readItems n) ∧ Consumes (readMembers n) := by
  induction n with
  | zero =>
    refine ⟨?_, ?_, ?_⟩
    · intro s a rest h
      cases h
    · intro s a rest h
      cases h
    · intro s a rest h
      cases h
  | succ n ih =>
    obtain ⟨hvalue, hitems, hmembers⟩ := ih
    refine ⟨consumes_readValue hitems hmembers, ?_, ?_⟩
    · intro s a rest h
      unfold readItems at h
      split at h
      · cases h
      · next v s' hv =>
        have := hvalue _ _ _ hv
        split at h
        · next heq =>
          obtain ⟨vs, hvs⟩ := exists_of_map h
          have := length_of_skip heq
          have := hitems _ _ _ hvs
          omega
        · next heq =>
          cases h
          have := length_of_skip heq
          omega
        · cases h
    · intro s a rest h
      unfold readMembers at h
      split at h
      · next heq =>
        have := length_of_skip heq
        split at h
        · cases h
        · next k s' hk =>
          have := length_readString hk
          split at h
          · next heq =>
            have := length_of_skip heq
            split at h
            · cases h
            · next v s' hv =>
              have := hvalue _ _ _ hv
              split at h
              · next heq =>
                obtain ⟨vs, hvs⟩ := exists_of_map h
                have := length_of_skip heq
                have := hmembers _ _ _ hvs
                omega
              · next heq =>
                cases h
                have := length_of_skip heq
                omega
              · cases h
          · cases h
      · cases h

/-- Two units of fuel for each character and two more are enough. -/
theorem fuel_enough (n : Nat) :
    (∀ s : List Char, 2 * s.length + 1 ≤ n → readValue (n + 1) s = readValue n s) ∧
      (∀ s : List Char, 2 * s.length + 2 ≤ n → readItems (n + 1) s = readItems n s) ∧
      ∀ s : List Char, 2 * s.length + 2 ≤ n → readMembers (n + 1) s = readMembers n s := by
  induction n with
  | zero =>
    refine ⟨?_, ?_, ?_⟩
    · intro s h
      omega
    · intro s h
      omega
    · intro s h
      omega
  | succ n ih =>
    obtain ⟨hvalue, hitems, hmembers⟩ := ih
    refine ⟨?_, ?_, ?_⟩
    · intro s h
      have hskip := length_skip_le (s := s)
      rw [readValue, readValue]
      split
      · rfl
      · rfl
      · rfl
      · rfl
      · next s' heq =>
        have hskip' := length_skip_le (s := s')
        simp only [heq, List.length_cons] at hskip
        split
        · rfl
        · rw [hitems _ (by omega)]
      · next s' heq =>
        have hskip' := length_skip_le (s := s')
        simp only [heq, List.length_cons] at hskip
        split
        · rfl
        · rw [hmembers _ (by omega)]
      · rfl
    · intro s h
      rw [readItems, readItems, hvalue s (by omega)]
      cases hv : readValue n s with
      | none => rfl
      | some p =>
        have hle := (consumes n).1 _ _ _ hv
        dsimp only
        split
        · next heq =>
          have := length_of_skip heq
          rw [hitems _ (by omega)]
        · rfl
        · rfl
    · intro s h
      rw [readMembers, readMembers]
      split
      · next heq =>
        have := length_of_skip heq
        split
        · rfl
        · next k s' hk =>
          have := length_readString hk
          split
          · next heq =>
            have := length_of_skip heq
            rw [hvalue _ (by omega)]
            split
            · rfl
            · next v s' hv =>
              have := (consumes n).1 _ _ _ hv
              split
              · next heq =>
                have := length_of_skip heq
                rw [hmembers _ (by omega)]
              · rfl
              · rfl
          · rfl
      · rfl

theorem readValue_nil {n : Nat} : readValue n [] = none := by
  cases n with
  | zero => rfl
  | succ n => rfl

theorem ne_nil_of_readItems {n : Nat} {vs : List Tree} (h : readItems n s = some (vs, rest)) :
    s ≠ [] := by
  rintro rfl
  cases n with
  | zero => cases h
  | succ n =>
    rw [readItems, readValue_nil] at h
    cases h

theorem ne_nil_of_readMembers {n : Nat} {ms : List (List Piece × Tree)}
    (h : readMembers n s = some (ms, rest)) : s ≠ [] := by
  rintro rfl
  cases n with
  | zero => cases h
  | succ n => cases h

/-- Arrays and objects have two brackets. -/
theorem two_le_length_of_readValue {n : Nat} {v : Tree} (hv : v.isComposite = true)
    (h : readValue n s = some (v, rest)) : 2 ≤ s.length := by
  cases n with
  | zero => cases h
  | succ n =>
    have hskip := length_skip_le (s := s)
    unfold readValue at h
    split at h
    · cases h
      cases hv
    · cases h
      cases hv
    · cases h
      cases hv
    · obtain ⟨p, -, heq⟩ := Option.map_eq_some_iff.mp h
      cases heq
      cases hv
    · next s' heq =>
      simp only [heq, List.length_cons] at hskip
      have hlength : s' ≠ [] := by
        rintro rfl
        obtain ⟨vs, hvs⟩ := exists_of_map h
        exact ne_nil_of_readItems hvs rfl
      have := List.length_pos_iff.mpr hlength
      omega
    · next s' heq =>
      simp only [heq, List.length_cons] at hskip
      have hlength : s' ≠ [] := by
        rintro rfl
        obtain ⟨ms, hms⟩ := exists_of_map h
        exact ne_nil_of_readMembers hms rfl
      have := List.length_pos_iff.mpr hlength
      omega
    · obtain ⟨p, -, heq⟩ := Option.map_eq_some_iff.mp h
      cases heq
      cases hv

theorem two_le_length {v : Tree} (hv : v.isComposite = true) (h : read s = some v) :
    2 ≤ s.length := by
  unfold read at h
  split at h
  · next v' rest hvalue =>
    split at h
    · cases h
      exact two_le_length_of_readValue hv hvalue
    · cases h
  · cases h

theorem readValue_fuel {n : Nat} (h : 2 * s.length + 2 ≤ n) :
    readValue n s = readValue (2 * s.length + 2) s := by
  induction n, h using Nat.le_induction with
  | base => rfl
  | succ n h ih => rw [(fuel_enough n).1 s (by omega), ih]

/-- A text is read with any fuel that is enough. -/
theorem read_of_fuel {n : Nat} {v : Tree} (h : 2 * s.length + 2 ≤ n)
    (hread : readValue n s = some (v, rest)) (hrest : skip rest = []) : read s = some v := by
  rw [readValue_fuel h] at hread
  rw [read, hread]
  exact if_pos hrest

end Fuel

/-! ## Strings -/

/-- What pieces stand for: characters, and code points written as one code unit or as two. -/
def assemble {β : Type*} (char code : Char → List β) : List Piece → Option (List β)
  | [] => some []
  | .char c :: ps => (assemble char code ps).map fun s => char c ++ s
  | .unit u :: ps =>
    if u < 0xD800 ∨ 0xDFFF < u then (assemble char code ps).map fun s => code (Char.ofNat u) ++ s
    else if 0xDBFF < u then none
    else
      match ps with
      | .unit w :: ps =>
        if 0xDC00 ≤ w ∧ w ≤ 0xDFFF then
          (assemble char code ps).map fun s =>
            code (Char.ofNat ((u - 0xD800) * 0x400 + (w - 0xDC00) + 0x10000)) ++ s
        else none
      | _ => none

/-- The text of a string. -/
def textOf (pieces : List Piece) : Option (List Char) := assemble (fun c => [c]) (fun c => [c]) pieces

/-- A code unit outside the surrogates is a code point. -/
theorem assemble_unit {β : Type*} {char code : Char → List β} {u : Nat} {ps : List Piece}
    (h : u < 0xD800) : assemble char code (.unit u :: ps) =
      (assemble char code ps).map fun s => code (Char.ofNat u) ++ s := by
  rw [assemble.eq_def]
  dsimp only
  rw [if_pos (.inl h)]

/-! ## Printing -/

def hexDigit (n : Nat) : Char := Char.ofNat (if n < 10 then 0x30 + n else 0x57 + n)

/-- The letter of the simple escape of a control character. -/
def shortEscape (c : Char) : Option Char :=
  if c = '"' ∨ c = '\\' then some c
  else if c.toNat = 8 then some 'b'
  else if c.toNat = 9 then some 't'
  else if c.toNat = 10 then some 'n'
  else if c.toNat = 12 then some 'f'
  else if c.toNat = 13 then some 'r'
  else none

def escape (c : Char) : List Char :=
  match shortEscape c with
  | some e => ['\\', e]
  | none =>
    if c.toNat < 0x20 then
      ['\\', 'u', '0', '0', hexDigit (c.toNat / 16), hexDigit (c.toNat % 16)]
    else [c]

def printString (s : List Char) : List Char := '"' :: (s.flatMap escape ++ ['"'])

/-- The members of an object of strings. -/
def printFields : List (List Char × List Char) → List Char
  | [] => []
  | [m] => printString m.1 ++ ':' :: printString m.2
  | m :: ms => printString m.1 ++ ':' :: (printString m.2 ++ ',' :: printFields ms)

/-- What a printed character is read as. -/
def piece (c : Char) : Piece :=
  if shortEscape c = none ∧ c.toNat < 0x20 then .unit c.toNat else .char c

section Strings

variable {c : Char} {s rest : List Char}

theorem readString_plain (hlow : 0x20 ≤ c.toNat) (hquote : c ≠ '"') (hslash : c ≠ '\\') :
    readString (c :: s) = (readString s).map fun p => (.char c :: p.1, p.2) := by
  have hcontrol : ¬ c.toNat < 0x20 := by omega
  rw [readString]
  all_goals simp [hquote, hslash, hcontrol]

theorem readString_short {e : Char} (h : unescape e = some c) :
    readString ('\\' :: e :: s) = (readString s).map fun p => (.char c :: p.1, p.2) := by
  have he : e ≠ 'u' := by
    rintro rfl
    cases h
  rw [readString, h]
  simp [he]

theorem hexValue_hexDigit {n : Nat} (h : n < 16) : hexValue (hexDigit n) = some n := by
  have hall : ∀ n : Fin 16, hexValue (hexDigit n.val) = some n.val := by decide
  exact hall ⟨n, h⟩

theorem unescape_shortEscape {e : Char} (h : shortEscape c = some e) : unescape e = some c := by
  have hcode : ∀ n, c.toNat = n → Char.ofNat n = c := by
    rintro n rfl
    exact Char.ofNat_toNat c
  unfold shortEscape at h
  split_ifs at h with hself hb ht hn hf hr
  · cases h
    rcases hself with rfl | rfl
    · rfl
    · rfl
  · cases h
    exact congrArg some (hcode 8 hb)
  · cases h
    exact congrArg some (hcode 9 ht)
  · cases h
    exact congrArg some (hcode 10 hn)
  · cases h
    exact congrArg some (hcode 12 hf)
  · cases h
    exact congrArg some (hcode 13 hr)

/-- A printed character is read back. -/
theorem readString_escape : readString (escape c ++ s) =
    (readString s).map fun p => (piece c :: p.1, p.2) := by
  unfold escape piece
  cases hshort : shortEscape c with
  | some e =>
    dsimp only
    rw [if_neg fun h => nomatch h.1]
    exact readString_short (unescape_shortEscape hshort)
  | none =>
    by_cases hlow : c.toNat < 0x20
    · have hhigh := hexValue_hexDigit (n := c.toNat / 16) (by omega)
      have hdigit := hexValue_hexDigit (n := c.toNat % 16) (by omega)
      have hvalue : (c.toNat / 16) * 16 + c.toNat % 16 = c.toNat := by omega
      have hzero : hexValue '0' = some 0 := rfl
      dsimp only
      rw [if_pos hlow, if_pos ⟨rfl, hlow⟩]
      simp only [List.cons_append, List.nil_append]
      rw [readString, hzero, hhigh, hdigit]
      dsimp only
      simp only [Nat.zero_mul, Nat.zero_add, hvalue]
    · have hne : c ≠ '"' ∧ c ≠ '\\' := by
        constructor
        · rintro rfl
          cases hshort
        · rintro rfl
          cases hshort
      simp only [hlow, and_false, if_false]
      exact readString_plain (by omega) hne.1 hne.2

theorem readString_print :
    readString (s.flatMap escape ++ '"' :: rest) = some (s.map piece, rest) := by
  induction s with
  | nil => rfl
  | cons c s ih =>
    rw [List.flatMap_cons, List.append_assoc, readString_escape, ih]
    rfl

theorem piece_cases : (piece c = .unit c.toNat ∧ c.toNat < 0x20) ∨ piece c = .char c := by
  unfold piece
  split
  · next hc => exact .inl ⟨rfl, hc.2⟩
  · exact .inr rfl

/-- A printed string is the text that was printed. -/
theorem textOf_map_piece : textOf (s.map piece) = some s := by
  unfold textOf
  induction s with
  | nil => rfl
  | cons c s ih =>
    rw [List.map_cons]
    rcases piece_cases (c := c) with ⟨heq, hlow⟩ | heq
    · rw [heq, assemble_unit (by omega), ih, Char.ofNat_toNat]
      rfl
    · rw [heq, assemble, ih]
      rfl

end Strings

/-! ## Bytes -/

/-- Bytes as the characters with these codes. -/
def ofBytes (bytes : List UInt8) : List Char := bytes.map fun b => Char.ofNat b.toNat

/-- The byte that a character stands for. -/
def byteOf (c : Char) : List UInt8 := [UInt8.ofNat c.toNat]

/-- The text of a string in bytes, which have to be UTF-8. -/
def bytesTextOf (pieces : List Piece) : Option (List Char) :=
  (assemble byteOf String.utf8EncodeChar pieces).bind Utf8.decode

/-- What the bytes of a printed character are read as. -/
def bytePieces (c : Char) : List Piece :=
  if c.toNat < 128 then [piece c] else (ofBytes (String.utf8EncodeChar c)).map .char

section Bytes

variable {c : Char} {s rest : List Char} {b : UInt8} {bytes bytes' : List UInt8}

@[simp] theorem ofBytes_append : ofBytes (bytes ++ bytes') = ofBytes bytes ++ ofBytes bytes' :=
  List.map_append

theorem toNat_ofBytes : (Char.ofNat b.toNat).toNat = b.toNat := by
  have hvalid : b.toNat.isValidChar := .inl (by have := b.toNat_lt; omega)
  rw [Char.ofNat, dif_pos hvalid]
  rfl

theorem ofBytes_encode_ascii (h : ∀ c ∈ s, c.toNat < 128) : ofBytes (Utf8.encode s) = s := by
  rw [Utf8.encode_ascii h, ofBytes, List.map_map]
  conv_rhs => rw [← List.map_id s]
  apply List.map_congr_left
  intro c hc
  rw [Function.comp_apply, Utf8.toNat_byte (h c hc), Char.ofNat_toNat]
  rfl

theorem escape_ascii (hc : c.toNat < 128) : ∀ d ∈ escape c, d.toNat < 128 := by
  have hdigit : ∀ n : Fin 16, (hexDigit n.val).toNat < 128 := by decide
  have hshort : ∀ e, shortEscape c = some e → e.toNat < 128 := by
    intro e he
    unfold shortEscape at he
    split_ifs at he
    all_goals
      cases he
      first | exact hc | decide
  intro d hd
  unfold escape at hd
  split at hd
  · next e he =>
    rcases List.mem_pair.mp hd with rfl | rfl
    · decide
    · exact hshort _ he
  · split at hd
    · next hlow =>
      simp only [List.mem_cons, List.not_mem_nil, or_false] at hd
      rcases hd with rfl | rfl | rfl | rfl | rfl | rfl
      · decide
      · decide
      · decide
      · decide
      · exact hdigit ⟨_, by omega⟩
      · exact hdigit ⟨_, by omega⟩
    · rw [List.mem_singleton.mp hd]
      exact hc

theorem escape_of_not_ascii (hc : ¬ c.toNat < 128) : escape c = [c] := by
  have hshort : shortEscape c = none := by
    have hne : ∀ d : Char, d.toNat < 128 → c ≠ d := by
      rintro d hd rfl
      exact hc hd
    unfold shortEscape
    rw [if_neg, if_neg (by omega), if_neg (by omega), if_neg (by omega), if_neg (by omega),
      if_neg (by omega)]
    rintro (h | h)
    · exact hne _ (by decide) h
    · exact hne _ (by decide) h
  rw [escape, hshort]
  exact if_neg (by omega)

/-- Bytes beyond ASCII stand in a string as they are. -/
theorem readString_high (h : ∀ b ∈ bytes, 128 ≤ b.toNat) : readString (ofBytes bytes ++ s) =
    (readString s).map fun p => ((ofBytes bytes).map Piece.char ++ p.1, p.2) := by
  induction bytes with
  | nil => simp [ofBytes]
  | cons b bytes ih =>
    have hb := h b List.mem_cons_self
    have hne : ∀ d : Char, d.toNat < 128 → Char.ofNat b.toNat ≠ d := by
      intro d hd heq
      rw [← heq, toNat_ofBytes] at hd
      omega
    have hcons : ofBytes (b :: bytes) = Char.ofNat b.toNat :: ofBytes bytes := rfl
    have hlow : 0x20 ≤ (Char.ofNat b.toNat).toNat := by
      rw [toNat_ofBytes]
      omega
    rw [hcons, List.cons_append, readString_plain hlow (hne _ (by decide)) (hne _ (by decide)),
      ih fun b' hb' => h b' (List.mem_cons_of_mem _ hb'), Option.map_map]
    rfl

theorem readString_bytes : readString (ofBytes (Utf8.encode (escape c)) ++ s) =
    (readString s).map fun p => (bytePieces c ++ p.1, p.2) := by
  unfold bytePieces
  split
  · next hc =>
    rw [ofBytes_encode_ascii (escape_ascii hc)]
    exact readString_escape
  · next hc =>
    rw [escape_of_not_ascii hc, Utf8.encode_cons, Utf8.encode_nil, List.append_nil]
    exact readString_high fun b hb => Utf8.le_of_mem_encodeChar (Nat.le_of_not_lt hc) hb

theorem readString_print_bytes :
    readString (ofBytes (Utf8.encode (s.flatMap escape)) ++ '"' :: rest) =
      some (s.flatMap bytePieces, rest) := by
  induction s with
  | nil => rfl
  | cons c s ih =>
    rw [List.flatMap_cons, Utf8.encode_append, ofBytes_append, List.append_assoc,
      readString_bytes, ih]
    rfl

theorem assemble_chars {ps : List Piece} :
    assemble byteOf String.utf8EncodeChar ((ofBytes bytes).map Piece.char ++ ps) =
      (assemble byteOf String.utf8EncodeChar ps).map fun s => bytes ++ s := by
  induction bytes with
  | nil => simp [ofBytes]
  | cons b bytes ih =>
    have hcons : (ofBytes (b :: bytes)).map Piece.char ++ ps =
        .char (Char.ofNat b.toNat) :: ((ofBytes bytes).map Piece.char ++ ps) := rfl
    rw [hcons, assemble, ih, Option.map_map, byteOf, toNat_ofBytes, UInt8.ofNat_toNat]
    rfl

theorem assemble_bytePieces :
    assemble byteOf String.utf8EncodeChar (s.flatMap bytePieces) = some (Utf8.encode s) := by
  induction s with
  | nil => rfl
  | cons c s ih =>
    rw [List.flatMap_cons, Utf8.encode_cons]
    by_cases hc : c.toNat < 128
    · have hpieces : bytePieces c = [piece c] := if_pos hc
      rw [hpieces, List.singleton_append]
      rcases piece_cases (c := c) with ⟨heq, hlow⟩ | heq
      · rw [heq, assemble_unit (by omega), ih, Char.ofNat_toNat]
        rfl
      · rw [heq, assemble, ih, Utf8.encodeChar_ascii hc]
        rfl
    · have hpieces : bytePieces c = (ofBytes (String.utf8EncodeChar c)).map .char := if_neg hc
      rw [hpieces, assemble_chars, ih]
      rfl

/-- The bytes of a printed string are the text that was printed. -/
theorem bytesTextOf_bytePieces : bytesTextOf (s.flatMap bytePieces) = some s := by
  rw [bytesTextOf, assemble_bytePieces]
  exact Utf8.decode_encode s

@[simp] theorem ofBytes_encode_cons (hc : c.toNat < 128) :
    ofBytes (Utf8.encode (c :: s)) = c :: ofBytes (Utf8.encode s) := by
  rw [Utf8.encode_cons, Utf8.encodeChar_ascii hc, ofBytes_append]
  have hbyte : ofBytes [Utf8.byte c] = [c] := by
    rw [ofBytes, List.map_singleton, Utf8.toNat_byte hc, Char.ofNat_toNat]
  rw [hbyte]
  rfl

theorem bytes_printString : ofBytes (Utf8.encode (printString s)) ++ rest =
    '"' :: (ofBytes (Utf8.encode (s.flatMap escape)) ++ '"' :: rest) := by
  rw [printString, ofBytes_encode_cons (by decide), Utf8.encode_append, ofBytes_append,
    ofBytes_encode_cons (by decide), List.cons_append, List.append_assoc]
  rfl

theorem skip_cons (hc : isBlank c = false) : skip (c :: s) = c :: s :=
  List.dropWhile_cons_of_neg (by simp [hc])

/-- A printed member is read back. -/
theorem readMembers_field {k v : List Char} {n : Nat} :
    readMembers (n + 2) (ofBytes (Utf8.encode (printString k ++ ':' :: printString v)) ++ rest) =
      match skip rest with
      | ',' :: s => (readMembers (n + 1) s).map fun p =>
        ((k.flatMap bytePieces, .str (v.flatMap bytePieces)) :: p.1, p.2)
      | '}' :: s => some ([(k.flatMap bytePieces, .str (v.flatMap bytePieces))], s)
      | _ => none := by
  rw [Utf8.encode_append, ofBytes_append, List.append_assoc, bytes_printString,
    ofBytes_encode_cons (by decide), List.cons_append, bytes_printString, readMembers,
    skip_cons (by decide)]
  simp only [readString_print_bytes, readValue, skip_cons (c := ':') (by decide),
    skip_cons (c := '"') (by decide), Option.map_some]

/-- Printed fields are read back. -/
theorem readMembers_printFields {m : List Char × List Char} {ms : List (List Char × List Char)}
    {n : Nat} (hn : ms.length + 2 ≤ n) :
    readMembers n (ofBytes (Utf8.encode (printFields (m :: ms))) ++ '}' :: rest) =
      some ((m :: ms).map fun m => (m.1.flatMap bytePieces, .str (m.2.flatMap bytePieces)),
        rest) := by
  induction ms generalizing m n with
  | nil =>
    obtain ⟨n, rfl⟩ : ∃ k, n = k + 2 := ⟨n - 2, by omega⟩
    rw [printFields, readMembers_field]
    simp only [skip_cons (c := '}') (by decide)]
    rfl
  | cons m' ms ih =>
    rw [List.length_cons] at hn
    obtain ⟨n, rfl⟩ : ∃ k, n = k + 2 := ⟨n - 2, by omega⟩
    have hfields : printFields (m :: m' :: ms) =
        (printString m.1 ++ ':' :: printString m.2) ++ ',' :: printFields (m' :: ms) := by
      simp [printFields]
    rw [hfields, Utf8.encode_append, ofBytes_append, List.append_assoc,
      ofBytes_encode_cons (by decide), List.cons_append, readMembers_field]
    simp only [skip_cons (c := ',') (by decide)]
    rw [ih (by omega)]
    rfl

/-- An object of strings. -/
def printObject (ms : List (List Char × List Char)) : List Char := '{' :: (printFields ms ++ ['}'])

theorem printFields_cons (m : List Char × List Char) (ms : List (List Char × List Char)) :
    ∃ s, printFields (m :: ms) = '"' :: s := by
  cases ms with
  | nil => exact ⟨_, rfl⟩
  | cons m' ms => exact ⟨_, rfl⟩

/-- A printed object is read back. -/
theorem read_printObject (m : List Char × List Char) (ms : List (List Char × List Char)) :
    read (ofBytes (Utf8.encode (printObject (m :: ms)))) =
      some (.obj ((m :: ms).map fun m => (m.1.flatMap bytePieces,
        .str (m.2.flatMap bytePieces)))) := by
  obtain ⟨s, hs⟩ := printFields_cons m ms
  have hquote : isBlank '"' = false := rfl
  have hbytes : ofBytes (Utf8.encode (printObject (m :: ms))) =
      '{' :: '"' :: (ofBytes (Utf8.encode s) ++ ['}']) := by
    rw [printObject, hs, ofBytes_encode_cons (by decide), Utf8.encode_append, ofBytes_append,
      ofBytes_encode_cons (by decide)]
    rfl
  obtain ⟨n, hfuel, hn⟩ : ∃ n,
      2 * (ofBytes (Utf8.encode (printObject (m :: ms)))).length + 2 ≤ n + 1 ∧
        ms.length + 2 ≤ n :=
    ⟨2 * (ofBytes (Utf8.encode (printObject (m :: ms)))).length + ms.length + 2, by omega,
      by omega⟩
  have hmembers : readMembers n (ofBytes (Utf8.encode (printFields (m :: ms))) ++ ['}']) = some _ :=
    readMembers_printFields hn
  rw [hs, ofBytes_encode_cons (by decide), List.cons_append] at hmembers
  have hskip : skip [] = [] := rfl
  refine read_of_fuel hfuel ?_ hskip
  rw [hbytes]
  simp only [readValue, skip_cons (c := '{') (by decide), skip_cons hquote]
  split
  · next heq =>
    injection heq with hchar
    cases hchar
  · rw [hmembers]
    rfl

end Bytes

end Json
