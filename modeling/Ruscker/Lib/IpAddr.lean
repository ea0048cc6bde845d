import Ruscker.Lib.Tokens

/-!
# IP addresses and their texts

The text of an address is canonical: dotted decimals, or hexadecimal groups with the longest run
of zeroes left out.  Reading accepts more, but no blanks and no comma, and neither does writing
put any.
-/

namespace IpAddrs

/-- The eight groups of an address of version six. -/
structure Ipv6 where
  segments : List UInt16
  eight : segments.length = 8
  deriving DecidableEq

inductive IpAddr where
  | v4 (a b c d : UInt8)
  | v6 (addr : Ipv6)
  deriving DecidableEq

/-! ## Writing -/

def dotted (octets : List UInt8) : List Char :=
  ['.'].intercalate (octets.map fun o => Nat.toDigits 10 o.toNat)

def hexGroups (segments : List UInt16) : List Char :=
  [':'].intercalate (segments.map fun s => Nat.toDigits 16 s.toNat)

structure Span where
  start : Nat
  len : Nat
  deriving DecidableEq

/-- The longest run of zeroes, the first of equals; `current` is the run that ends at `i`. -/
def longestZeroes (longest current : Span) (i : Nat) : List UInt16 → Span
  | [] => longest
  | s :: segments =>
    if s = 0 then
      let current := ⟨if current.len = 0 then i else current.start, current.len + 1⟩
      longestZeroes (if longest.len < current.len then current else longest) current (i + 1) segments
    else longestZeroes longest ⟨0, 0⟩ (i + 1) segments

/-- The octets of an address of version four that was mapped to version six. -/
def mappedIpv4 : List UInt16 → Option (List UInt8)
  | [0, 0, 0, 0, 0, 0xffff, hi, lo] =>
    some [(hi >>> 8).toUInt8, hi.toUInt8, (lo >>> 8).toUInt8, lo.toUInt8]
  | _ => none

def Ipv6.text (addr : Ipv6) : List Char :=
  match mappedIpv4 addr.segments with
  | some octets => "::ffff:".toList ++ dotted octets
  | none =>
    let zeroes := longestZeroes ⟨0, 0⟩ ⟨0, 0⟩ 0 addr.segments
    if 1 < zeroes.len then
      hexGroups (addr.segments.take zeroes.start) ++ "::".toList ++
        hexGroups (addr.segments.drop (zeroes.start + zeroes.len))
    else hexGroups addr.segments

def IpAddr.text : IpAddr → List Char
  | .v4 a b c d => dotted [a, b, c, d]
  | .v6 addr => addr.text

/-! ## Reading -/

/-- A reader takes what it reads off the front of a text. -/
abbrev Reader (α : Type) := List Char → Option (α × List Char)

def hexValue (c : Char) : Option Nat :=
  if c.isDigit then some (c.toNat - 48)
  else if 97 ≤ c.toNat ∧ c.toNat ≤ 102 then some (c.toNat - 87)
  else if 65 ≤ c.toNat ∧ c.toNat ≤ 70 then some (c.toNat - 55)
  else none

def digitValue (radix : Nat) (c : Char) : Option Nat := (hexValue c).filter fun d => d < radix

/-- A number of a bounded number of digits, less than `size`. -/
def readNumber (radix maxDigits size : Nat) (zeroPrefix : Bool) : Reader Nat := fun s =>
  let digits := s.takeWhile fun c => (digitValue radix c).isSome
  let n := (digits.filterMap (digitValue radix)).foldl (fun n d => n * radix + d) 0
  if digits = [] ∨ maxDigits < digits.length ∨
      (zeroPrefix = false ∧ digits.head? = some '0' ∧ 1 < digits.length) ∨ size ≤ n then none
  else some (n, s.drop digits.length)

def readChar (c : Char) : Reader Unit
  | [] => none
  | a :: s => if a = c then some ((), s) else none

/-- All but the first of a list come after a separator. -/
def readSeparator {α : Type} (sep : Char) (first : Bool) (inner : Reader α) : Reader α := fun s =>
  if first then inner s else (readChar sep s).bind fun p => inner p.2

/-- The octets of an address of version four. -/
def readOctets : (left : Nat) → (first : Bool) → Reader (List UInt8)
  | 0, _, s => some ([], s)
  | left + 1, first, s =>
    (readSeparator '.' first (readNumber 10 3 256 false) s).bind fun p =>
      (readOctets left false p.2).map fun q => (UInt8.ofNat p.1 :: q.1, q.2)

def readIpv4 : Reader (List UInt8) := readOctets 4 true

def joinOctets (hi lo : UInt8) : UInt16 := (hi.toUInt16 <<< 8) ||| lo.toUInt16

/-- As many groups as there are, and whether the last two were written as version four. -/
def readGroups : (left : Nat) → (first : Bool) → List Char → List UInt16 × Bool × List Char
  | 0, _, s => ([], false, s)
  | left + 1, first, s =>
    match (if 0 < left then readSeparator ':' first readIpv4 s else none) with
    | some ([a, b, c, d], rest) => ([joinOctets a b, joinOctets c d], true, rest)
    | _ =>
      match readSeparator ':' first (readNumber 16 4 65536 true) s with
      | some (n, rest) =>
        let (groups, ipv4, rest) := readGroups left false rest
        (UInt16.ofNat n :: groups, ipv4, rest)
      | none => ([], false, s)

def ofSegments (segments : List UInt16) : Option Ipv6 :=
  if h : segments.length = 8 then some ⟨segments, h⟩ else none

/-- All eight groups, or some on either side of a `::`. -/
def readIpv6 : Reader Ipv6 := fun s =>
  let (head, ipv4, rest) := readGroups 8 true s
  if head.length = 8 then (ofSegments head).map (·, rest)
  else if ipv4 then none
  else (readChar ':' rest).bind fun p => (readChar ':' p.2).bind fun q =>
    let (tail, _, rest) := readGroups (8 - (head.length + 1)) true q.2
    (ofSegments (head ++ List.replicate (8 - head.length - tail.length) 0 ++ tail)).map (·, rest)

/-- The whole text is an address. -/
def parse (s : List Char) : Option IpAddr :=
  match readIpv4 s with
  | some ([a, b, c, d], []) => some (.v4 a b c d)
  | some _ => none
  | none =>
    match readIpv6 s with
    | some (addr, []) => some (.v6 addr)
    | _ => none

example : (parse "2001:DB8:0:0:8:800:200C:417A".toList).map IpAddr.text =
    some "2001:db8::8:800:200c:417a".toList := by decide

example : (parse "::ffff:c000:0280".toList).map IpAddr.text = some "::ffff:192.0.2.128".toList ∧
    parse "192.0.02.1".toList = none ∧ parse "1:2:3:4:5:6:7::8:9".toList = none := by decide

/-! ## What an address is written with -/

/-- A digit, a letter of a group or a separator. -/
def isAddrChar (c : Char) : Bool :=
  c.isDigit || (97 ≤ c.toNat && c.toNat ≤ 102) || c = '.' || c = ':'

theorem isAddrChar_digitChar {n : Nat} (h : n < 16) : isAddrChar n.digitChar = true := by
  have hall : ∀ m ∈ List.range 16, isAddrChar m.digitChar = true := by decide
  exact hall n (List.mem_range.mpr h)

theorem isAddrChar_of_mem_toDigits {base n : Nat} (hbase : 1 < base) (hle : base ≤ 16) {c : Char}
    (hc : c ∈ Nat.toDigits base n) : isAddrChar c = true := by
  induction n using Nat.strongRecOn with
  | ind n ih =>
    by_cases hlt : n < base
    · rw [Nat.toDigits_of_lt_base hlt, List.mem_singleton] at hc
      subst hc
      exact isAddrChar_digitChar (Nat.lt_of_lt_of_le hlt hle)
    · rw [Nat.toDigits_of_base_le hbase (Nat.le_of_not_lt hlt), List.mem_append,
        List.mem_singleton] at hc
      rcases hc with hc | rfl
      · exact ih (n / base) (Nat.div_lt_self (by omega) hbase) hc
      · exact isAddrChar_digitChar (Nat.lt_of_lt_of_le (Nat.mod_lt n (by omega)) hle)

theorem isAddrChar_of_mem_dotted {octets : List UInt8} {c : Char} (hc : c ∈ dotted octets) :
    isAddrChar c = true := by
  rcases Tokens.mem_intercalate hc with hsep | ⟨part, hpart, hc⟩
  · obtain rfl := List.mem_singleton.mp hsep
    rfl
  · obtain ⟨o, -, rfl⟩ := List.mem_map.mp hpart
    exact isAddrChar_of_mem_toDigits (by omega) (by omega) hc

theorem isAddrChar_of_mem_hexGroups {segments : List UInt16} {c : Char}
    (hc : c ∈ hexGroups segments) : isAddrChar c = true := by
  rcases Tokens.mem_intercalate hc with hsep | ⟨part, hpart, hc⟩
  · obtain rfl := List.mem_singleton.mp hsep
    rfl
  · obtain ⟨s, -, rfl⟩ := List.mem_map.mp hpart
    exact isAddrChar_of_mem_toDigits (by omega) (by omega) hc

theorem isAddrChar_of_mem_text {ip : IpAddr} {c : Char} (hc : c ∈ ip.text) :
    isAddrChar c = true := by
  cases ip with
  | v4 a b c d => exact isAddrChar_of_mem_dotted hc
  | v6 addr =>
    rw [IpAddr.text, Ipv6.text] at hc
    split at hc
    · rcases List.mem_append.mp hc with hc | hc
      · exact List.all_eq_true.mp (show "::ffff:".toList.all isAddrChar = true by decide) c hc
      · exact isAddrChar_of_mem_dotted hc
    · dsimp only at hc
      split at hc
      · rcases List.mem_append.mp hc with hc | hc
        · rcases List.mem_append.mp hc with hc | hc
          · exact isAddrChar_of_mem_hexGroups hc
          · exact List.all_eq_true.mp (show "::".toList.all isAddrChar = true by decide) c hc
        · exact isAddrChar_of_mem_hexGroups hc
      · exact isAddrChar_of_mem_hexGroups hc

/-! ## What is read as an address -/

/-- A hexadecimal digit in either case, or a separator. -/
def isReadChar (c : Char) : Bool := (hexValue c).isSome || c = '.' || c = ':'

theorem range_of_isReadChar {c : Char} (h : isReadChar c = true) :
    46 ≤ c.toNat ∧ c.toNat ≤ 102 := by
  have hdigit : c.isDigit = true → 48 ≤ c.toNat ∧ c.toNat ≤ 57 := fun h => by
    simp only [Char.isDigit, Bool.and_eq_true, decide_eq_true_eq] at h
    exact h
  simp only [isReadChar, Bool.or_eq_true, decide_eq_true_eq] at h
  rcases h with (h | rfl) | rfl
  · unfold hexValue at h
    split at h
    · next hd =>
      have hrange := hdigit hd
      omega
    · split at h
      · omega
      · split at h
        · omega
        · cases h
  · decide
  · decide

theorem isReadChar_of_mem_text {ip : IpAddr} {c : Char} (hc : c ∈ ip.text) :
    isReadChar c = true := by
  have haddr := isAddrChar_of_mem_text hc
  simp only [isAddrChar, Bool.or_eq_true, Bool.and_eq_true, decide_eq_true_eq] at haddr
  rcases haddr with ((hdigit | hletter) | rfl) | rfl
  · rw [isReadChar, hexValue, if_pos hdigit]
    rfl
  · have hnot : c.isDigit = false := by
      simp only [Char.isDigit, Bool.and_eq_false_iff, decide_eq_false_iff_not]
      exact .inr fun hle => absurd (Nat.le_trans hletter.1 hle) (by decide)
    rw [isReadChar, hexValue, hnot, if_neg Bool.false_ne_true, if_pos hletter]
    rfl
  · rfl
  · rfl

/-- From `s` on, `rest` is reached by taking such characters only. -/
def Takes (s rest : List Char) : Prop :=
  ∃ taken, s = taken ++ rest ∧ ∀ c ∈ taken, isReadChar c = true

theorem Takes.refl (s : List Char) : Takes s s := ⟨[], rfl, by simp⟩

theorem Takes.trans {s t rest : List Char} (h : Takes s t) (h' : Takes t rest) : Takes s rest := by
  obtain ⟨taken, rfl, htaken⟩ := h
  obtain ⟨more, rfl, hmore⟩ := h'
  refine ⟨taken ++ more, (List.append_assoc _ _ _).symm, fun c hc => ?_⟩
  exact (List.mem_append.mp hc).elim (htaken c) (hmore c)

theorem takes_readNumber {radix maxDigits size n : Nat} {zeroPrefix : Bool} {s rest : List Char}
    (h : readNumber radix maxDigits size zeroPrefix s = some (n, rest)) : Takes s rest := by
  unfold readNumber at h
  dsimp only at h
  split at h
  · cases h
  · cases h
    refine ⟨s.takeWhile fun c => (digitValue radix c).isSome, ?_, fun c hc => ?_⟩
    · exact (List.prefix_iff_eq_append.mp (List.takeWhile_prefix _)).symm
    · have hsome := List.mem_takeWhile_imp hc
      obtain ⟨d, hd⟩ := Option.isSome_iff_exists.mp hsome
      have hhex : hexValue c = some d := (Option.filter_eq_some_iff.mp hd).1
      rw [isReadChar, hhex]
      rfl

theorem takes_readChar {c : Char} (hc : isReadChar c = true) {s rest : List Char} {u : Unit}
    (h : readChar c s = some (u, rest)) : Takes s rest := by
  cases s with
  | nil => cases h
  | cons a s =>
    rw [readChar] at h
    split at h
    · next heq =>
      cases h
      exact ⟨[a], rfl, fun d hd => by rw [List.mem_singleton.mp hd, heq, hc]⟩
    · cases h

theorem takes_readSeparator {α : Type} {sep : Char} (hsep : isReadChar sep = true) {first : Bool}
    {inner : Reader α} (hinner : ∀ s a rest, inner s = some (a, rest) → Takes s rest)
    {s rest : List Char} {a : α} (h : readSeparator sep first inner s = some (a, rest)) :
    Takes s rest := by
  unfold readSeparator at h
  split at h
  · exact hinner s a rest h
  · obtain ⟨⟨u, t⟩, hchar, hin⟩ := Option.bind_eq_some_iff.mp h
    exact (takes_readChar hsep hchar).trans (hinner t a rest hin)

theorem takes_readOctets {left : Nat} {first : Bool} {s rest : List Char} {octets : List UInt8}
    (h : readOctets left first s = some (octets, rest)) : Takes s rest := by
  induction left generalizing first s octets with
  | zero =>
    cases h
    exact Takes.refl rest
  | succ left ih =>
    obtain ⟨⟨n, t⟩, hnumber, hmore⟩ := Option.bind_eq_some_iff.mp h
    obtain ⟨⟨octets', t'⟩, hrest, heq⟩ := Option.map_eq_some_iff.mp hmore
    cases heq
    exact (takes_readSeparator rfl (fun _ _ _ => takes_readNumber) hnumber).trans (ih hrest)

theorem takes_readGroups (left : Nat) (first : Bool) (s : List Char) :
    Takes s (readGroups left first s).2.2 := by
  induction left generalizing first s with
  | zero => exact Takes.refl s
  | succ left ih =>
    rw [readGroups]
    split
    · next a b c d rest hipv4 =>
      split at hipv4
      · exact takes_readSeparator rfl (fun _ _ _ => takes_readOctets) hipv4
      · cases hipv4
    · split
      · next n rest hnumber =>
        exact (takes_readSeparator rfl (fun _ _ _ => takes_readNumber) hnumber).trans (ih false rest)
      · exact Takes.refl s

theorem takes_readIpv6 {s rest : List Char} {addr : Ipv6} (h : readIpv6 s = some (addr, rest)) :
    Takes s rest := by
  have hhead := takes_readGroups 8 true s
  unfold readIpv6 at h
  dsimp only at h
  split at h
  · obtain ⟨addr', -, heq⟩ := Option.map_eq_some_iff.mp h
    cases heq
    exact hhead
  · split at h
    · cases h
    · obtain ⟨⟨u, t⟩, hfirst, h⟩ := Option.bind_eq_some_iff.mp h
      obtain ⟨⟨u', t'⟩, hsecond, h⟩ := Option.bind_eq_some_iff.mp h
      obtain ⟨addr', -, heq⟩ := Option.map_eq_some_iff.mp h
      cases heq
      exact ((hhead.trans (takes_readChar rfl hfirst)).trans (takes_readChar rfl hsecond)).trans
        (takes_readGroups _ true t')

/-- No blank and no comma is part of an address. -/
theorem isReadChar_of_parse {s : List Char} {ip : IpAddr} (h : parse s = some ip) {c : Char}
    (hc : c ∈ s) : isReadChar c = true := by
  have hall : Takes s [] := by
    unfold parse at h
    split at h
    · next hread => exact takes_readOctets hread
    · cases h
    · split at h
      · next hread => exact takes_readIpv6 hread
      · cases h
  obtain ⟨taken, rfl, htaken⟩ := hall
  exact htaken c (by simpa using hc)

end IpAddrs
