import Mathlib.Data.List.GetD
import Mathlib.Data.List.Nodup

/-!
# Base64 without padding

Three bytes are four symbols of six bits.  The reader is strict: no padding, no other symbol, and no
bits behind the last byte, so that every text it accepts is one that the writer gives.
-/

namespace Base64

/-- Sixty-four distinct symbols. -/
structure Alphabet where
  symbols : List Char
  length_eq : symbols.length = 64
  nodup : symbols.Nodup

namespace Alphabet

variable (A : Alphabet)

def symbol (n : Nat) : Char := A.symbols.getD n '='

def value (c : Char) : Option Nat := A.symbols.findIdx? fun s => s = c

def encode : List UInt8 → List Char
  | [] => []
  | [a] => [A.symbol (a.toNat / 4), A.symbol (a.toNat % 4 * 16)]
  | [a, b] =>
    [A.symbol (a.toNat / 4), A.symbol (a.toNat % 4 * 16 + b.toNat / 16),
      A.symbol (b.toNat % 16 * 4)]
  | a :: b :: c :: rest =>
    A.symbol (a.toNat / 4) :: A.symbol (a.toNat % 4 * 16 + b.toNat / 16) ::
      A.symbol (b.toNat % 16 * 4 + c.toNat / 64) :: A.symbol (c.toNat % 64) :: encode rest

/-- A byte of two neighbouring symbols, the first with so many bits in it. -/
def byte (n : Nat) : UInt8 := UInt8.ofNat n

def decode : List Char → Option (List UInt8)
  | [] => some []
  | [_] => none
  | [x, y] =>
    match A.value x, A.value y with
    | some i, some j => if j % 16 = 0 then some [byte (i * 4 + j / 16)] else none
    | _, _ => none
  | [x, y, z] =>
    match A.value x, A.value y, A.value z with
    | some i, some j, some k =>
      if k % 4 = 0 then some [byte (i * 4 + j / 16), byte (j % 16 * 16 + k / 4)] else none
    | _, _, _ => none
  | x :: y :: z :: w :: rest =>
    match A.value x, A.value y, A.value z, A.value w with
    | some i, some j, some k, some l =>
      (decode rest).map fun bytes =>
        byte (i * 4 + j / 16) :: byte (j % 16 * 16 + k / 4) :: byte (k % 4 * 64 + l) :: bytes
    | _, _, _, _ => none

variable {A}

theorem value_symbol {n : Nat} (h : n < 64) : A.value (A.symbol n) = some n := by
  have hlt : n < A.symbols.length := by
    rw [A.length_eq]
    exact h
  have hget : A.symbol n = A.symbols[n] := by
    rw [symbol, List.getD_eq_getElem _ _ hlt]
  unfold value
  rw [hget, List.findIdx?_eq_some_iff_getElem]
  refine ⟨hlt, by simp, ?_⟩
  intro j hj
  simp only [decide_eq_true_eq]
  exact fun heq => Nat.ne_of_lt hj ((A.nodup.getElem_inj_iff).mp heq)

theorem symbol_of_value {c : Char} {n : Nat} (h : A.value c = some n) :
    n < 64 ∧ A.symbol n = c := by
  obtain ⟨hlt, heq, -⟩ := List.findIdx?_eq_some_iff_getElem.mp h
  refine ⟨A.length_eq ▸ hlt, ?_⟩
  rw [symbol, List.getD_eq_getElem _ _ hlt]
  exact of_decide_eq_true heq

theorem toNat_byte {n : Nat} (h : n < 256) : (byte n).toNat = n := by
  rw [byte, UInt8.toNat_ofNat', Nat.mod_eq_of_lt h]

theorem byte_eq {a : UInt8} {n : Nat} (h : n = a.toNat) : byte n = a := by
  rw [h]
  exact UInt8.ofNat_toNat

/-- **What is written is read back.** -/
theorem decode_encode (bytes : List UInt8) : A.decode (A.encode bytes) = some bytes := by
  fun_induction A.encode bytes with
  | case1 => rfl
  | case2 a =>
    have ha := a.toNat_lt
    rw [decode, value_symbol (by omega), value_symbol (by omega)]
    dsimp only
    rw [if_pos (by omega), byte_eq (a := a) (by omega)]
  | case3 a b =>
    have ha := a.toNat_lt
    have hb := b.toNat_lt
    rw [decode, value_symbol (by omega), value_symbol (by omega), value_symbol (by omega)]
    dsimp only
    rw [if_pos (by omega), byte_eq (a := a) (by omega), byte_eq (a := b) (by omega)]
  | case4 a b c rest ih =>
    have ha := a.toNat_lt
    have hb := b.toNat_lt
    have hc := c.toNat_lt
    rw [decode, value_symbol (by omega), value_symbol (by omega), value_symbol (by omega),
      value_symbol (by omega)]
    dsimp only
    rw [ih, Option.map_some, byte_eq (a := a) (by omega), byte_eq (a := b) (by omega),
      byte_eq (a := c) (by omega)]

/-- **What is read was written.** -/
theorem eq_encode_of_decode {text : List Char} {bytes : List UInt8}
    (h : A.decode text = some bytes) : text = A.encode bytes := by
  fun_induction A.decode text generalizing bytes with
  | case1 =>
    cases h
    rfl
  | case3 x y i j hj hi hzero =>
    cases h
    obtain ⟨hi, rfl⟩ := symbol_of_value hi
    obtain ⟨hj, rfl⟩ := symbol_of_value hj
    have hfirst : (i * 4 + j / 16) / 4 = i := by omega
    have hsecond : (i * 4 + j / 16) % 4 * 16 = j := by omega
    rw [encode, toNat_byte (by omega), hfirst, hsecond]
  | case6 x y z i j k hk hj hi hzero =>
    cases h
    obtain ⟨hi, rfl⟩ := symbol_of_value hi
    obtain ⟨hj, rfl⟩ := symbol_of_value hj
    obtain ⟨hk, rfl⟩ := symbol_of_value hk
    have hfirst : (i * 4 + j / 16) / 4 = i := by omega
    have hsecond : (i * 4 + j / 16) % 4 * 16 + (j % 16 * 16 + k / 4) / 16 = j := by omega
    have hthird : (j % 16 * 16 + k / 4) % 16 * 4 = k := by omega
    rw [encode, toNat_byte (by omega), toNat_byte (by omega), hfirst, hsecond, hthird]
  | case9 x y z w rest i j k l hl hk hj hi ih =>
    obtain ⟨tail, htail, rfl⟩ := Option.map_eq_some_iff.mp h
    obtain ⟨hi, rfl⟩ := symbol_of_value hi
    obtain ⟨hj, rfl⟩ := symbol_of_value hj
    obtain ⟨hk, rfl⟩ := symbol_of_value hk
    obtain ⟨hl, rfl⟩ := symbol_of_value hl
    have hfirst : (i * 4 + j / 16) / 4 = i := by omega
    have hsecond : (i * 4 + j / 16) % 4 * 16 + (j % 16 * 16 + k / 4) / 16 = j := by omega
    have hthird : (j % 16 * 16 + k / 4) % 16 * 4 + (k % 4 * 64 + l) / 64 = k := by omega
    have hfourth : (k % 4 * 64 + l) % 64 = l := by omega
    rw [encode, toNat_byte (by omega), toNat_byte (by omega), toNat_byte (by omega), ih htail,
      hfirst, hsecond, hthird, hfourth]
  | _ => cases h

end Alphabet

end Base64
