import Ruscker.Lib.Tokens
import Mathlib.Data.Char

/-!
# Text

The string operations the admin code uses, over lists of characters.  The standard
library's Unicode tables for lower case and character classes enter as a class with
the two facts the code relies on; `asciiUnicode` is its restriction to ASCII texts.
-/

namespace Ruscker

abbrev Str := List Char

instance : LawfulBEq Str := inferInstance

/-- `char::is_whitespace`, the Unicode `White_Space` property. -/
def isWhitespace (c : Char) : Bool :=
  let n := c.toNat
  (9 ≤ n && n ≤ 13) || n = 0x20 || n = 0x85 || n = 0xA0 || n = 0x1680 ||
    (0x2000 ≤ n && n ≤ 0x200A) || n = 0x2028 || n = 0x2029 || n = 0x202F || n = 0x205F ||
    n = 0x3000

theorem isWhitespace_of_isDigit {c : Char} (h : c.isDigit = true) : isWhitespace c = false := by
  have hlow : 48 ≤ c.toNat := by
    simp only [Char.isDigit, Bool.and_eq_true, decide_eq_true_eq] at h
    exact h.1
  have hhigh : c.toNat ≤ 57 := by
    simp only [Char.isDigit, Bool.and_eq_true, decide_eq_true_eq] at h
    exact h.2
  rw [← Bool.not_eq_true, isWhitespace]
  simp only [Bool.or_eq_true, Bool.and_eq_true, decide_eq_true_eq]
  omega

theorem range_of_isAlphanum {c : Char} (h : c.isAlphanum = true) :
    48 ≤ c.toNat ∧ c.toNat ≤ 122 := by
  rcases Bool.or_eq_true_iff.mp h with halpha | hdigit
  · rcases Bool.or_eq_true_iff.mp halpha with hupper | hlower
    · obtain ⟨hlow, hhigh⟩ : 65 ≤ c.toNat ∧ c.toNat ≤ 90 := of_decide_eq_true hupper
      omega
    · obtain ⟨h₁, h₂⟩ := Bool.and_eq_true_iff.mp hlower
      have hlow : 97 ≤ c.toNat := of_decide_eq_true h₁
      have hhigh : c.toNat ≤ 122 := of_decide_eq_true h₂
      omega
  · obtain ⟨h₁, h₂⟩ := Bool.and_eq_true_iff.mp hdigit
    have hlow : 48 ≤ c.toNat := of_decide_eq_true h₁
    have hhigh : c.toNat ≤ 57 := of_decide_eq_true h₂
    omega

namespace Str

def trim (s : Str) : Str := Tokens.trim isWhitespace s

@[simp] theorem trim_trim (s : Str) : s.trim.trim = s.trim := Tokens.trim_trim s

/-- What is decided character by character holds of each of them. -/
theorem forall_mem_of_all {p : Char → Prop} [DecidablePred p] {s : Str}
    (h : (s.all fun c => decide (p c)) = true) : ∀ c ∈ s, p c :=
  fun c hc => of_decide_eq_true (List.all_eq_true.mp h c hc)

def eqIgnoreAsciiCase (s t : Str) : Bool :=
  s.map Char.toLower = t.map Char.toLower

/-- `str::split_once` at a character. -/
def splitOnce (sep : Char) : Str → Option (Str × Str)
  | [] => none
  | c :: s => if c = sep then some ([], s) else (splitOnce sep s).map fun p => (c :: p.1, p.2)

/-- `str::rsplit_once`. -/
def rsplitOnce (sep : Char) (s : Str) : Option (Str × Str) :=
  (splitOnce sep s.reverse).map fun p => (p.2.reverse, p.1.reverse)

theorem splitOnce_append {sep : Char} {s : Str} (h : sep ∉ s) (t : Str) :
    splitOnce sep (s ++ sep :: t) = some (s, t) := by
  induction s with
  | nil => simp [splitOnce]
  | cons c s ih =>
    have hne : c ≠ sep := fun heq => h (heq ▸ List.mem_cons_self)
    rw [List.cons_append, splitOnce, if_neg hne, ih fun hs => h (List.mem_cons_of_mem c hs)]
    rfl

theorem splitOnce_of_notMem {sep : Char} {s : Str} (h : sep ∉ s) : splitOnce sep s = none := by
  induction s with
  | nil => rfl
  | cons c s ih =>
    have hne : c ≠ sep := fun heq => h (heq ▸ List.mem_cons_self)
    rw [splitOnce, if_neg hne, ih fun hs => h (List.mem_cons_of_mem c hs), Option.map_none]

theorem splitOnce_eq_some {sep : Char} {s : Str} {p : Str × Str} (h : splitOnce sep s = some p) :
    s = p.1 ++ sep :: p.2 := by
  induction s generalizing p with
  | nil => cases h
  | cons c s ih =>
    rw [splitOnce] at h
    split at h
    · next hc =>
      cases h
      rw [hc]
      rfl
    · obtain ⟨q, hq, rfl⟩ := Option.map_eq_some_iff.mp h
      rw [List.cons_append, ← ih hq]

theorem splitOnce_concat {sep a : Char} (h : a ≠ sep) (s : Str) :
    splitOnce sep (s ++ [a]) = (splitOnce sep s).map fun p => (p.1, p.2 ++ [a]) := by
  induction s with
  | nil => simp [splitOnce, h]
  | cons c s ih =>
    rw [List.cons_append, splitOnce, splitOnce]
    split
    · rfl
    · rw [ih, Option.map_map, Option.map_map]
      rfl

theorem rsplitOnce_append {sep : Char} {t : Str} (h : sep ∉ t) (s : Str) :
    rsplitOnce sep (s ++ sep :: t) = some (s, t) := by
  have hsplit : splitOnce sep (t.reverse ++ sep :: s.reverse) = some (t.reverse, s.reverse) :=
    splitOnce_append (by simpa using h) _
  have hreverse : (s ++ sep :: t).reverse = t.reverse ++ sep :: s.reverse := by simp
  rw [rsplitOnce, hreverse, hsplit, Option.map_some, List.reverse_reverse, List.reverse_reverse]

theorem rsplitOnce_of_notMem {sep : Char} {s : Str} (h : sep ∉ s) : rsplitOnce sep s = none := by
  rw [rsplitOnce, splitOnce_of_notMem (by simpa using h), Option.map_none]

theorem rsplitOnce_eq_some {sep : Char} {s before after : Str}
    (h : rsplitOnce sep s = some (before, after)) : s = before ++ sep :: after := by
  obtain ⟨q, hq, heq⟩ := Option.map_eq_some_iff.mp h
  cases heq
  have hreverse := congrArg List.reverse (splitOnce_eq_some hq)
  simpa using hreverse

end Str

/-! ## Unicode tables -/

/-- `str::to_lowercase`, idempotent and neutral on white space, and the `char` classes. -/
class Unicode where
  toLowercase : Str → Str
  isUppercase : Char → Bool
  isLowercase : Char → Bool
  isAlphanumeric : Char → Bool
  toLowercase_idem : ∀ s, toLowercase (toLowercase s) = toLowercase s
  trim_toLowercase : ∀ s, Str.trim (toLowercase s) = toLowercase (Str.trim s)

theorem toNat_toLower (c : Char) :
    c.toLower.toNat = if 65 ≤ c.toNat ∧ c.toNat ≤ 90 then c.toNat + 32 else c.toNat := by
  unfold Char.toLower
  split
  · next h =>
    have hlow : 65 ≤ c.toNat := h.1
    have hhigh : c.toNat ≤ 90 := h.2
    rw [if_pos ⟨hlow, hhigh⟩]
    have hval : c.val.toNat = c.toNat := rfl
    show (c.val + ('a'.val - 'A'.val)).toNat = c.toNat + 32
    rw [UInt32.toNat_add]
    simp
    omega
  · next h =>
    rw [if_neg]
    exact fun hrange => h hrange

theorem toLower_toLower (c : Char) : c.toLower.toLower = c.toLower := by
  apply Char.toNat_inj.mp
  rw [toNat_toLower c.toLower, if_neg]
  rw [toNat_toLower]
  split <;> omega

theorem isWhitespace_toLower (c : Char) : isWhitespace c.toLower = isWhitespace c := by
  unfold isWhitespace
  dsimp only
  rw [toNat_toLower]
  split
  · next h =>
    rw [Bool.eq_iff_iff]
    simp only [Bool.or_eq_true, Bool.and_eq_true, decide_eq_true_eq]
    omega
  · rfl

theorem Str.trim_map_toLower (s : Str) :
    Str.trim (s.map Char.toLower) = s.trim.map Char.toLower := by
  have hblank : isWhitespace ∘ Char.toLower = isWhitespace := funext isWhitespace_toLower
  unfold Str.trim Tokens.trim List.rdropWhile
  rw [List.dropWhile_map, hblank, ← List.map_reverse, List.dropWhile_map, hblank,
    List.map_reverse]

@[reducible] def asciiUnicode : Unicode where
  toLowercase s := s.map Char.toLower
  isUppercase := Char.isUpper
  isLowercase := Char.isLower
  isAlphanumeric := Char.isAlphanum
  toLowercase_idem s := by
    rw [List.map_map]
    exact List.map_congr_left fun c _ => toLower_toLower c
  trim_toLowercase := Str.trim_map_toLower

/-- The same tables, with lower case known on ASCII texts. -/
class UnicodeAscii extends Unicode where
  toLowercase_ascii : ∀ s : Str, s.all (fun c => c.toNat < 128) = true →
    toLowercase s = s.map Char.toLower

@[reducible] def asciiUnicodeAscii : UnicodeAscii where
  toUnicode := asciiUnicode
  toLowercase_ascii _ _ := rfl

end Ruscker
