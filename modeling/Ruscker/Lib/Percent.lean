import Mathlib.Data.List.Basic

/-!
# Percent-encoding

A percent sign and two hexadecimal digits stand for a byte.  Whatever else stands in a text
stands for itself, so decoding either leaves a text alone or makes it shorter.
-/

namespace Percent

/-! ## Decoding -/

def hexDigit (b : UInt8) : Option UInt8 :=
  if 48 ≤ b ∧ b ≤ 57 then some (b - 48)
  else if 65 ≤ b ∧ b ≤ 70 then some (b - 55)
  else if 97 ≤ b ∧ b ≤ 102 then some (b - 87)
  else none

/-- The byte that three others stand for. -/
def escape (mark hi lo : UInt8) : Option UInt8 :=
  if mark = 37 then (hexDigit hi).bind fun h => (hexDigit lo).map fun l => h * 16 + l else none

def decode : List UInt8 → List UInt8
  | [] => []
  | [a] => [a]
  | [a, b] => [a, b]
  | a :: hi :: lo :: rest =>
    match escape a hi lo with
    | some b => b :: decode rest
    | none => a :: decode (hi :: lo :: rest)

/-- Some three bytes of the text stand for another. -/
def HasEscape (raw : List UInt8) : Prop :=
  ∃ front mark hi lo back, raw = front ++ mark :: hi :: lo :: back ∧ (escape mark hi lo).isSome

/-! ## Texts without an escape -/

theorem length_decode_le (raw : List UInt8) : (decode raw).length ≤ raw.length := by
  fun_induction decode raw with
  | case1 => exact Nat.le_refl _
  | case2 => exact Nat.le_refl _
  | case3 => exact Nat.le_refl _
  | case4 a hi lo rest b hesc ih =>
    simp only [List.length_cons]
    omega
  | case5 a hi lo rest hesc ih =>
    simp only [List.length_cons] at ih ⊢
    omega

theorem length_decode_lt {raw : List UInt8} (h : HasEscape raw) :
    (decode raw).length < raw.length := by
  obtain ⟨front, mark, hi, lo, back, rfl, hesc⟩ := h
  generalize hraw : front ++ mark :: hi :: lo :: back = raw
  fun_induction decode raw generalizing front with
  | case1 => simp at hraw
  | case2 => cases front <;> simp at hraw
  | case3 => rcases front with _ | ⟨x, _ | ⟨y, front⟩⟩ <;> simp at hraw
  | case4 a hi' lo' rest b hesc' ih =>
    have hle := length_decode_le rest
    simp only [List.length_cons]
    omega
  | case5 a hi' lo' rest hesc' ih =>
    cases front with
    | nil =>
      cases hraw
      rw [hesc'] at hesc
      cases hesc
    | cons x front =>
      have hlt := ih front (List.cons.inj hraw).2
      simp only [List.length_cons] at hlt ⊢
      omega

theorem decode_of_not_hasEscape {raw : List UInt8} (h : ¬ HasEscape raw) : decode raw = raw := by
  fun_induction decode raw with
  | case1 => rfl
  | case2 => rfl
  | case3 => rfl
  | case4 a hi lo rest b hesc ih =>
    exact absurd ⟨[], a, hi, lo, rest, rfl, by rw [hesc]; rfl⟩ h
  | case5 a hi lo rest hesc ih =>
    refine congrArg (a :: ·) (ih fun ⟨front, mark, hi', lo', back, heq, hesc'⟩ => h ?_)
    exact ⟨a :: front, mark, hi', lo', back, congrArg (a :: ·) heq, hesc'⟩

theorem decode_eq_self_iff {raw : List UInt8} : decode raw = raw ↔ ¬ HasEscape raw := by
  refine ⟨fun heq hesc => ?_, decode_of_not_hasEscape⟩
  have hlt := length_decode_lt hesc
  rw [heq] at hlt
  exact Nat.lt_irrefl _ hlt

/-! ## Encoding -/

def upperHex (n : UInt8) : UInt8 := if n < 10 then n + 48 else n + 55

def encodeByte (b : UInt8) : List UInt8 := [37, upperHex (b / 16), upperHex (b % 16)]

/-- Every byte that may not stand for itself is escaped. -/
def encode (keep : UInt8 → Bool) (bytes : List UInt8) : List UInt8 :=
  bytes.flatMap fun b => if keep b then [b] else encodeByte b

theorem escape_encodeByte (b : UInt8) :
    escape 37 (upperHex (b / 16)) (upperHex (b % 16)) = some b := by
  have hall : ∀ n : Fin 256, escape 37 (upperHex (UInt8.ofFin n / 16))
      (upperHex (UInt8.ofFin n % 16)) = some (UInt8.ofFin n) := by decide +kernel
  exact hall b.toFin

theorem decode_cons_of_ne {b : UInt8} (h : b ≠ 37) (rest : List UInt8) :
    decode (b :: rest) = b :: decode rest := by
  match rest with
  | [] => rfl
  | [_] => rfl
  | _ :: _ :: _ => simp [decode, escape, h]

theorem decode_encodeByte (b : UInt8) (rest : List UInt8) :
    decode (encodeByte b ++ rest) = b :: decode rest := by
  simp [encodeByte, decode, escape_encodeByte]

/-- **Writing and reading back.** -/
theorem decode_encode {keep : UInt8 → Bool} (hkeep : keep 37 = false) (bytes : List UInt8) :
    decode (encode keep bytes) = bytes := by
  induction bytes with
  | nil => rfl
  | cons b bytes ih =>
    rw [encode, List.flatMap_cons]
    split
    · next hb =>
      have hne : b ≠ 37 := by
        rintro rfl
        rw [hkeep] at hb
        cases hb
      rw [List.cons_append, List.nil_append, decode_cons_of_ne hne]
      exact congrArg (b :: ·) ih
    · rw [decode_encodeByte]
      exact congrArg (b :: ·) ih

/-- A slash that may not stand for itself does not. -/
theorem slash_notMem_encode {keep : UInt8 → Bool} (hkeep : keep 47 = false) (bytes : List UInt8) :
    47 ∉ encode keep bytes := by
  have hall : ∀ n : Fin 256, 47 ∉ encodeByte (UInt8.ofFin n) := by decide +kernel
  intro hmem
  obtain ⟨b, -, hb⟩ := List.mem_flatMap.mp hmem
  split at hb
  · next hself =>
    obtain rfl := List.mem_singleton.mp hb
    rw [hkeep] at hself
    cases hself
  · exact hall b.toFin hb

theorem encode_ne_nil {keep : UInt8 → Bool} {bytes : List UInt8} (h : bytes ≠ []) :
    encode keep bytes ≠ [] := by
  obtain ⟨b, rest, rfl⟩ := List.exists_cons_of_ne_nil h
  rw [encode, List.flatMap_cons]
  refine List.append_ne_nil_of_left_ne_nil ?_ _
  split
  · exact List.cons_ne_nil _ _
  · exact List.cons_ne_nil _ _

end Percent
