import Mathlib.Data.List.Basic

/-!
# ASCII characters in UTF-8

A byte of an encoded text that is ASCII is a character of the text, so the text can be taken apart
at an ASCII character in its bytes as well as in its characters.
-/

namespace Utf8

def encode (s : List Char) : List UInt8 := s.flatMap String.utf8EncodeChar

/-- The byte of an ASCII character. -/
def byte (c : Char) : UInt8 := UInt8.ofNat c.toNat

theorem toNat_byte {c : Char} (hc : c.toNat < 128) : (byte c).toNat = c.toNat := by
  rw [byte, UInt8.toNat_ofNat', Nat.mod_eq_of_lt]
  omega

theorem encodeChar_ascii {c : Char} (hc : c.toNat < 128) : String.utf8EncodeChar c = [byte c] :=
  if_pos (Nat.le_of_lt_succ hc)

theorem le_of_mem_encodeChar {c : Char} (hc : 128 ≤ c.toNat) {b : UInt8}
    (hb : b ∈ String.utf8EncodeChar c) : 128 ≤ b.toNat := by
  have hval : c.val.toNat = c.toNat := rfl
  unfold String.utf8EncodeChar at hb
  dsimp only at hb
  split at hb
  · omega
  · split at hb
    · simp only [List.mem_cons, List.not_mem_nil, or_false] at hb
      rcases hb with rfl | rfl
      · rw [UInt8.toNat_ofNat']
        omega
      · rw [UInt8.toNat_ofNat']
        omega
    · split at hb
      · simp only [List.mem_cons, List.not_mem_nil, or_false] at hb
        rcases hb with rfl | rfl | rfl
        · rw [UInt8.toNat_ofNat']
          omega
        · rw [UInt8.toNat_ofNat']
          omega
        · rw [UInt8.toNat_ofNat']
          omega
      · simp only [List.mem_cons, List.not_mem_nil, or_false] at hb
        rcases hb with rfl | rfl | rfl | rfl
        · rw [UInt8.toNat_ofNat']
          omega
        · rw [UInt8.toNat_ofNat']
          omega
        · rw [UInt8.toNat_ofNat']
          omega
        · rw [UInt8.toNat_ofNat']
          omega

theorem byte_mem_encodeChar {c d : Char} (hc : c.toNat < 128) :
    byte c ∈ String.utf8EncodeChar d ↔ d = c := by
  constructor
  · intro hmem
    by_cases hd : d.toNat < 128
    · rw [encodeChar_ascii hd, List.mem_singleton] at hmem
      apply Char.toNat_inj.mp
      rw [← toNat_byte hd, ← toNat_byte hc, hmem]
    · have hle := le_of_mem_encodeChar (Nat.le_of_not_lt hd) hmem
      rw [toNat_byte hc] at hle
      omega
  · rintro rfl
    rw [encodeChar_ascii hc]
    exact List.mem_singleton_self _

@[simp] theorem encode_nil : encode [] = [] := rfl

@[simp] theorem encode_cons (c : Char) (s : List Char) :
    encode (c :: s) = String.utf8EncodeChar c ++ encode s := rfl

@[simp] theorem encode_append (s t : List Char) : encode (s ++ t) = encode s ++ encode t :=
  List.flatMap_append

theorem byte_mem_encode {c : Char} (hc : c.toNat < 128) {s : List Char} :
    byte c ∈ encode s ↔ c ∈ s := by
  rw [encode, List.mem_flatMap]
  constructor
  · rintro ⟨d, hd, hmem⟩
    exact (byte_mem_encodeChar hc).mp hmem ▸ hd
  · exact fun hmem => ⟨c, hmem, (byte_mem_encodeChar hc).mpr rfl⟩

theorem encode_ascii {s : List Char} (hs : ∀ c ∈ s, c.toNat < 128) : encode s = s.map byte := by
  induction s with
  | nil => rfl
  | cons c s ih =>
    rw [encode_cons, encodeChar_ascii (hs c List.mem_cons_self), List.map_cons,
      ih fun d hd => hs d (List.mem_cons_of_mem c hd)]
    rfl

/-- The text of bytes that are UTF-8. -/
def decode (bytes : List UInt8) : Option (List Char) :=
  bytes.toByteArray.utf8Decode?.map Array.toList

theorem decode_encode (s : List Char) : decode (encode s) = some s := by
  have hencode : (encode s).toByteArray = s.utf8Encode := rfl
  rw [decode, hencode, List.utf8Decode?_utf8Encode]
  rfl

theorem decode_eq_some_iff {bytes : List UInt8} {s : List Char} :
    decode bytes = some s ↔ bytes = encode s := by
  constructor
  · intro h
    obtain ⟨chars, hchars, rfl⟩ := Option.map_eq_some_iff.mp h
    obtain ⟨l, hl⟩ := ByteArray.isSome_utf8Decode?_iff.mp (Option.isSome_of_eq_some hchars)
    rw [hl, List.utf8Decode?_utf8Encode, Option.some.injEq] at hchars
    rw [← hchars]
    exact List.toByteArray_inj.mp hl
  · rintro rfl
    exact decode_encode s

/-! ## Beginnings -/

/-- No text begins inside a character of another. -/
theorem encode_prefix_iff {t s : List Char} : encode t <+: encode s ↔ t <+: s := by
  constructor
  · rintro ⟨rest, h⟩
    refine List.isPrefix_of_utf8Encode_append_eq_utf8Encode rest.toByteArray ?_
    have hbytes := congrArg List.toByteArray h
    rw [List.toByteArray_append] at hbytes
    exact hbytes
  · rintro ⟨rest, rfl⟩
    rw [encode_append]
    exact List.prefix_append _ _

/-- Of two beginnings of a text the one with fewer bytes begins the other. -/
theorem prefix_of_length_encode_le {t u s : List Char} (ht : t <+: s) (hu : u <+: s)
    (h : (encode t).length ≤ (encode u).length) : t <+: u :=
  encode_prefix_iff.mp
    (List.prefix_of_prefix_length_le (encode_prefix_iff.mpr ht) (encode_prefix_iff.mpr hu) h)

end Utf8
