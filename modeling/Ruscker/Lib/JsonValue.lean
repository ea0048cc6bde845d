import Ruscker.Lib.JsonReaders
import Ruscker.Lib.ScriptText
import Ruscker.Lib.SortedMap

/-!
# JSON values

What a text stands for: members sorted by key, of equal keys the last, nesting up to a limit, and
numbers as a library has them.  A value is printed without white space.
-/

namespace Json

open SortedMaps

/-- The numbers of a library: what it makes of a text, and how it writes them. -/
class Numbers (ν : Type*) where
  parse : List Char → Option ν
  print : ν → List Char
  print_valid : ∀ n, readNumber (print n) = some (print n, [])

inductive Value (ν : Type*) where
  | null
  | bool (b : Bool)
  | num (n : ν)
  | str (s : List Char)
  | arr (items : List (Value ν))
  | obj (members : List (List Char × Value ν))

variable {ν : Type*}

/-! ## What a tree stands for -/

section Parse

variable [Numbers ν]

mutual

/-- The value of a tree, with so many levels left. -/
def toValue : Nat → Tree → Option (Value ν)
  | _, .null => some .null
  | _, .bool b => some (.bool b)
  | _, .num text => (Numbers.parse text).map .num
  | _, .str pieces => (textOf pieces).map .str
  | d, .arr items => if d ≤ 1 then none else (toItems (d - 1) items).map .arr
  | d, .obj members => if d ≤ 1 then none else (toMembers (d - 1) members []).map .obj

def toItems : Nat → List Tree → Option (List (Value ν))
  | _, [] => some []
  | d, t :: ts =>
    match toValue d t with
    | none => none
    | some v => (toItems d ts).map (v :: ·)

/-- Members go into those that were there before. -/
def toMembers : Nat → List (List Piece × Tree) → List (List Char × Value ν) →
    Option (List (List Char × Value ν))
  | _, [], acc => some acc
  | d, m :: ms, acc =>
    match textOf m.1, toValue d m.2 with
    | some k, some v => toMembers d ms (insertEntry k v acc)
    | _, _ => none

end

/-- The levels that a text may have, and one more. -/
def levels : Nat := 128

def parse (s : List Char) : Option (Value ν) := (read s).bind (toValue levels)

end Parse

/-! ## Printing -/

section Print

variable [Numbers ν]

def comma (first : Bool) : List Char := if first then [] else [',']

mutual

def print : Value ν → List Char
  | .null => "null".toList
  | .bool true => "true".toList
  | .bool false => "false".toList
  | .num n => Numbers.print n
  | .str s => printString s
  | .arr items => '[' :: (printItems true items ++ [']'])
  | .obj members => '{' :: (printMembers true members ++ ['}'])

def printItems : Bool → List (Value ν) → List Char
  | _, [] => []
  | first, v :: vs => comma first ++ (print v ++ printItems false vs)

def printMembers : Bool → List (List Char × Value ν) → List Char
  | _, [] => []
  | first, m :: ms =>
    comma first ++ (printString m.1 ++ ':' :: (print m.2 ++ printMembers false ms))

end

end Print

/-! ## What is in a value -/

mutual

/-- The texts of a value: strings and keys. -/
def texts : Value ν → List (List Char)
  | .str s => [s]
  | .arr items => itemTexts items
  | .obj members => memberTexts members
  | _ => []

def itemTexts : List (Value ν) → List (List Char)
  | [] => []
  | v :: vs => texts v ++ itemTexts vs

def memberTexts : List (List Char × Value ν) → List (List Char)
  | [] => []
  | m :: ms => m.1 :: (texts m.2 ++ memberTexts ms)

end

mutual

def numbers : Value ν → List ν
  | .num n => [n]
  | .arr items => itemNumbers items
  | .obj members => memberNumbers members
  | _ => []

def itemNumbers : List (Value ν) → List ν
  | [] => []
  | v :: vs => numbers v ++ itemNumbers vs

def memberNumbers : List (List Char × Value ν) → List ν
  | [] => []
  | m :: ms => numbers m.2 ++ memberNumbers ms

end

/-! ## Induction -/

/-- A fact about values holds if it goes from the parts to the whole. -/
@[elab_as_elim]
theorem Value.induct {motive : Value ν → Prop} (null : motive .null)
    (bool : ∀ b, motive (.bool b)) (num : ∀ n, motive (.num n)) (str : ∀ s, motive (.str s))
    (arr : ∀ items, (∀ v ∈ items, motive v) → motive (.arr items))
    (obj : ∀ members, (∀ m ∈ members, motive m.2) → motive (.obj members)) (v : Value ν) :
    motive v :=
  @Value.rec ν motive (fun items => ∀ v ∈ items, motive v) (fun ms => ∀ m ∈ ms, motive m.2)
    (fun m => motive m.2) null bool num str arr obj (List.forall_mem_nil _)
    (fun _ _ hv hvs => List.forall_mem_cons.mpr ⟨hv, hvs⟩) (List.forall_mem_nil _)
    (fun _ _ hm hms => List.forall_mem_cons.mpr ⟨hm, hms⟩) (fun _ _ hv => hv) v

@[elab_as_elim]
theorem Tree.induct {motive : Tree → Prop} (null : motive .null) (bool : ∀ b, motive (.bool b))
    (num : ∀ text, motive (.num text)) (str : ∀ pieces, motive (.str pieces))
    (arr : ∀ items, (∀ t ∈ items, motive t) → motive (.arr items))
    (obj : ∀ members, (∀ m ∈ members, motive m.2) → motive (.obj members)) (t : Tree) :
    motive t :=
  @Tree.rec motive (fun items => ∀ t ∈ items, motive t) (fun ms => ∀ m ∈ ms, motive m.2)
    (fun m => motive m.2) null bool num str arr obj (List.forall_mem_nil _)
    (fun _ _ ht hts => List.forall_mem_cons.mpr ⟨ht, hts⟩) (List.forall_mem_nil _)
    (fun _ _ hm hms => List.forall_mem_cons.mpr ⟨hm, hms⟩) (fun _ _ ht => ht) t

theorem mem_memberTexts {s : List Char} {members : List (List Char × Value ν)} :
    s ∈ memberTexts members ↔ ∃ m ∈ members, s = m.1 ∨ s ∈ texts m.2 := by
  induction members with
  | nil => simp [memberTexts]
  | cons m ms ih =>
    rw [memberTexts, List.mem_cons, List.mem_append, ih, List.exists_mem_cons_iff, or_assoc]

theorem mem_itemNumbers {n : ν} {items : List (Value ν)} :
    n ∈ itemNumbers items ↔ ∃ v ∈ items, n ∈ numbers v := by
  induction items with
  | nil => simp [itemNumbers]
  | cons v vs ih => simp [itemNumbers, ih]

theorem mem_memberNumbers {n : ν} {members : List (List Char × Value ν)} :
    n ∈ memberNumbers members ↔ ∃ m ∈ members, n ∈ numbers m.2 := by
  induction members with
  | nil => simp [memberNumbers]
  | cons m ms ih => simp [memberNumbers, ih]

/-! ## The tree of a printed value -/

theorem lt_of_mem_snoc {k : List Char} {v : Value ν} {acc ms : List (List Char × Value ν)}
    (hacc : ∀ a ∈ acc, ∀ m ∈ ms, a.1 < m.1) (hk : ∀ m ∈ ms, k < m.1) :
    ∀ a ∈ acc ++ [(k, v)], ∀ m ∈ ms, a.1 < m.1 := by
  intro a ha m hm
  rcases List.mem_append.mp ha with ha | ha
  · exact hacc a ha m hm
  · rw [List.mem_singleton.mp ha]
    exact hk m hm

section Trees

variable [Numbers ν]

mutual

/-- What a printed value is read as. -/
def tree : Value ν → Tree
  | .null => .null
  | .bool b => .bool b
  | .num n => .num (Numbers.print n)
  | .str s => .str (s.map piece)
  | .arr items => .arr (itemTrees items)
  | .obj members => .obj (memberTrees members)

def itemTrees : List (Value ν) → List Tree
  | [] => []
  | v :: vs => tree v :: itemTrees vs

def memberTrees : List (List Char × Value ν) → List (List Piece × Tree)
  | [] => []
  | m :: ms => (m.1.map piece, tree m.2) :: memberTrees ms

end

variable {rest : List Char}

/-- A value whose text is read back in front of whatever no number goes on into. -/
def ReadsBack (v : Value ν) : Prop :=
  ∃ least, ∀ n ≥ least, ∀ rest, Stops rest → readValue n (print v ++ rest) = some (tree v, rest)

theorem stops_cons {c : Char} (hc : isNumberChar c = false) (t : List Char) : Stops (c :: t) := by
  intro d hd
  cases hd
  exact hc

theorem isBlank_of_isNumberChar {c : Char} (hc : isNumberChar c = true) : isBlank c = false := by
  rw [← Bool.not_eq_true]
  intro hblank
  simp only [isBlank, Bool.or_eq_true, decide_eq_true_eq] at hblank
  rcases hblank with ((rfl | rfl) | rfl) | rfl
  · cases hc
  · cases hc
  · cases hc
  · cases hc

/-- What a printed value starts with. -/
theorem print_head (v : Value ν) :
    ∃ c t, print v = c :: t ∧ isBlank c = false ∧ c ≠ ']' ∧ c ≠ '<' := by
  cases v with
  | null => exact ⟨_, _, rfl, rfl, by decide, by decide⟩
  | bool b =>
    cases b with
    | true => exact ⟨_, _, rfl, rfl, by decide, by decide⟩
    | false => exact ⟨_, _, rfl, rfl, by decide, by decide⟩
  | num n =>
    obtain ⟨c, t, heq, hc⟩ := readNumber_head (Numbers.print_valid n)
    refine ⟨c, t, heq, isBlank_of_isNumberChar hc, ?_, ?_⟩
    · rintro rfl
      cases hc
    · rintro rfl
      cases hc
  | str s => exact ⟨_, _, rfl, rfl, by decide, by decide⟩
  | arr items => exact ⟨_, _, rfl, rfl, by decide, by decide⟩
  | obj members => exact ⟨_, _, rfl, rfl, by decide, by decide⟩

/-- Printed items are read back. -/
theorem readItems_print {items : List (Value ν)} (hne : items ≠ [])
    (h : ∀ v ∈ items, ReadsBack v) :
    ∃ least, ∀ n ≥ least, ∀ rest,
      readItems n (printItems true items ++ ']' :: rest) = some (itemTrees items, rest) := by
  induction items with
  | nil => exact absurd rfl hne
  | cons v vs ih =>
    obtain ⟨least, hv⟩ := h v List.mem_cons_self
    cases vs with
    | nil =>
      refine ⟨least + 1, ?_⟩
      intro n hn rest
      obtain ⟨n, rfl⟩ : ∃ k, n = k + 1 := ⟨n - 1, by omega⟩
      have htext : printItems true [v] ++ ']' :: rest = print v ++ ']' :: rest := by
        simp [printItems, comma]
      rw [htext, readItems, hv n (by omega) (']' :: rest) (stops_cons rfl _)]
      simp only [skip_cons (c := ']') (by decide)]
      rfl
    | cons w ws =>
      obtain ⟨least', hvs⟩ := ih (List.cons_ne_nil _ _) fun x hx => h x (List.mem_cons_of_mem _ hx)
      refine ⟨max least least' + 1, ?_⟩
      intro n hn rest
      obtain ⟨n, rfl⟩ : ∃ k, n = k + 1 := ⟨n - 1, by omega⟩
      have htext : printItems true (v :: w :: ws) ++ ']' :: rest =
          print v ++ ',' :: (printItems true (w :: ws) ++ ']' :: rest) := by
        simp [printItems, comma]
      rw [htext, readItems, hv n (by omega) _ (stops_cons rfl _)]
      simp only [skip_cons (c := ',') (by decide)]
      rw [hvs n (by omega)]
      rfl

/-- Printed members are read back. -/
theorem readMembers_print {members : List (List Char × Value ν)} (hne : members ≠ [])
    (h : ∀ m ∈ members, ReadsBack m.2) :
    ∃ least, ∀ n ≥ least, ∀ rest,
      readMembers n (printMembers true members ++ '}' :: rest) =
        some (memberTrees members, rest) := by
  induction members with
  | nil => exact absurd rfl hne
  | cons m ms ih =>
    obtain ⟨least, hm⟩ := h m List.mem_cons_self
    cases ms with
    | nil =>
      refine ⟨least + 1, ?_⟩
      intro n hn rest
      obtain ⟨n, rfl⟩ : ∃ k, n = k + 1 := ⟨n - 1, by omega⟩
      have htext : printMembers true [m] ++ '}' :: rest =
          '"' :: (m.1.flatMap escape ++ '"' :: ':' :: (print m.2 ++ '}' :: rest)) := by
        simp [printMembers, comma, printString]
      rw [htext, readMembers, skip_cons (by decide)]
      simp only [readString_print, skip_cons (c := ':') (by decide)]
      rw [hm n (by omega) _ (stops_cons rfl _)]
      simp only [skip_cons (c := '}') (by decide)]
      rfl
    | cons m' ms =>
      obtain ⟨least', hms⟩ := ih (List.cons_ne_nil _ _) fun x hx => h x (List.mem_cons_of_mem _ hx)
      refine ⟨max least least' + 1, ?_⟩
      intro n hn rest
      obtain ⟨n, rfl⟩ : ∃ k, n = k + 1 := ⟨n - 1, by omega⟩
      have htext : printMembers true (m :: m' :: ms) ++ '}' :: rest =
          '"' :: (m.1.flatMap escape ++ '"' :: ':' ::
            (print m.2 ++ ',' :: (printMembers true (m' :: ms) ++ '}' :: rest))) := by
        simp [printMembers, comma, printString]
      rw [htext, readMembers, skip_cons (by decide)]
      simp only [readString_print, skip_cons (c := ':') (by decide)]
      rw [hm n (by omega) _ (stops_cons rfl _)]
      simp only [skip_cons (c := ',') (by decide)]
      rw [hms n (by omega)]
      rfl

/-- **A printed value is read back as its tree.** -/
theorem readsBack (v : Value ν) : ReadsBack v := by
  induction v using Value.induct with
  | null =>
    refine ⟨1, ?_⟩
    intro n hn rest _
    obtain ⟨n, rfl⟩ : ∃ k, n = k + 1 := ⟨n - 1, by omega⟩
    rfl
  | bool b =>
    refine ⟨1, ?_⟩
    intro n hn rest _
    obtain ⟨n, rfl⟩ : ∃ k, n = k + 1 := ⟨n - 1, by omega⟩
    cases b with
    | true => rfl
    | false => rfl
  | num m =>
    refine ⟨1, ?_⟩
    intro n hn rest hrest
    obtain ⟨n, rfl⟩ : ∃ k, n = k + 1 := ⟨n - 1, by omega⟩
    obtain ⟨c, t, heq, hc⟩ := readNumber_head (Numbers.print_valid m)
    have hread := readNumber_append hrest (Numbers.print_valid m)
    have hskip : skip (Numbers.print m ++ rest) = Numbers.print m ++ rest := by
      rw [heq]
      exact skip_cons (isBlank_of_isNumberChar hc)
    have hhead : skip (Numbers.print m ++ rest) = c :: (t ++ rest) := by
      rw [hskip, heq, List.cons_append]
    rw [print, readValue_number hhead hc, ← hhead, hskip, hread]
    rfl
  | str s =>
    refine ⟨1, ?_⟩
    intro n hn rest _
    obtain ⟨n, rfl⟩ : ∃ k, n = k + 1 := ⟨n - 1, by omega⟩
    have htext : print (Value.str (ν := ν) s) ++ rest = '"' :: (s.flatMap escape ++ '"' :: rest) := by
      simp [print, printString]
    rw [htext, readValue, skip_cons (by decide)]
    simp only [readString_print]
    rfl
  | arr items ih =>
    cases items with
    | nil =>
      refine ⟨1, ?_⟩
      intro n hn rest _
      obtain ⟨n, rfl⟩ : ∃ k, n = k + 1 := ⟨n - 1, by omega⟩
      rfl
    | cons v vs =>
      obtain ⟨least, hitems⟩ := readItems_print (List.cons_ne_nil v vs) ih
      refine ⟨least + 1, ?_⟩
      intro n hn rest _
      obtain ⟨n, rfl⟩ : ∃ k, n = k + 1 := ⟨n - 1, by omega⟩
      obtain ⟨c, t, heq, hblank, hne, -⟩ := print_head v
      have htext : print (.arr (v :: vs)) ++ rest =
          '[' :: (printItems true (v :: vs) ++ ']' :: rest) := by
        simp [print]
      have hitem : printItems true (v :: vs) = c :: (t ++ printItems false vs) := by
        rw [printItems, heq]
        rfl
      have hskip : skip (printItems true (v :: vs) ++ ']' :: rest) =
          printItems true (v :: vs) ++ ']' :: rest := by
        rw [hitem]
        exact skip_cons hblank
      rw [htext, readValue_array (skip_cons (by decide)), hskip]
      split
      · next heq =>
        rw [hitem] at heq
        exact absurd (List.cons.inj heq).1 hne
      · rw [hitems n (by omega)]
        rfl
  | obj members ih =>
    cases members with
    | nil =>
      refine ⟨1, ?_⟩
      intro n hn rest _
      obtain ⟨n, rfl⟩ : ∃ k, n = k + 1 := ⟨n - 1, by omega⟩
      rfl
    | cons m ms =>
      obtain ⟨least, hmembers⟩ := readMembers_print (List.cons_ne_nil m ms) ih
      refine ⟨least + 1, ?_⟩
      intro n hn rest _
      obtain ⟨n, rfl⟩ : ∃ k, n = k + 1 := ⟨n - 1, by omega⟩
      have htext : print (.obj (m :: ms)) ++ rest =
          '{' :: (printMembers true (m :: ms) ++ '}' :: rest) := by
        simp [print]
      obtain ⟨t, hmember⟩ : ∃ t, printMembers true (m :: ms) = '"' :: t := ⟨_, rfl⟩
      have hskip : skip (printMembers true (m :: ms) ++ '}' :: rest) =
          printMembers true (m :: ms) ++ '}' :: rest := by
        rw [hmember]
        exact skip_cons (by decide)
      rw [htext, readValue_object (skip_cons (by decide)), hskip]
      split
      · next heq =>
        rw [hmember] at heq
        cases (List.cons.inj heq).1
      · rw [hmembers n (by omega)]
        rfl

theorem read_print (v : Value ν) : read (print v) = some (tree v) := by
  obtain ⟨least, hv⟩ := readsBack v
  have hread := hv (max least (2 * (print v).length + 2)) (by omega) [] nofun
  rw [List.append_nil] at hread
  exact read_of_fuel (by omega) hread rfl

/-! ## The value of a printed value -/

/-- A value that a text can stand for, with so many levels left. -/
inductive Fits : Nat → Value ν → Prop where
  | null (d : Nat) : Fits d .null
  | bool (d : Nat) (b : Bool) : Fits d (.bool b)
  | num (d : Nat) (n : ν) : Fits d (.num n)
  | str (d : Nat) (s : List Char) : Fits d (.str s)
  | arr {d : Nat} {items : List (Value ν)} (hd : 1 < d) (hitems : ∀ v ∈ items, Fits (d - 1) v) :
    Fits d (.arr items)
  | obj {d : Nat} {members : List (List Char × Value ν)} (hd : 1 < d) (hsorted : Sorted members)
    (hmembers : ∀ m ∈ members, Fits (d - 1) m.2) : Fits d (.obj members)

/-- Values of items fit if each item's value does. -/
theorem fits_toItems {d : Nat} {ts : List Tree} {vs : List (Value ν)}
    (hfits : ∀ t ∈ ts, ∀ v : Value ν, toValue d t = some v → Fits d v)
    (h : toItems d ts = some vs) : ∀ v ∈ vs, Fits d v := by
  induction ts generalizing vs with
  | nil =>
    cases h
    exact List.forall_mem_nil _
  | cons t ts ih =>
    rw [toItems] at h
    split at h
    · cases h
    · next v hv =>
      obtain ⟨ws, hws, rfl⟩ := Option.map_eq_some_iff.mp h
      have hrest := ih (fun t ht => hfits t (List.mem_cons_of_mem _ ht)) hws
      exact List.forall_mem_cons.mpr ⟨hfits t List.mem_cons_self v hv, hrest⟩

theorem fits_toMembers {d : Nat} {ms : List (List Piece × Tree)}
    {acc members : List (List Char × Value ν)}
    (hfits : ∀ m ∈ ms, ∀ v : Value ν, toValue d m.2 = some v → Fits d v)
    (hacc : ∀ m ∈ acc, Fits d m.2) (hsorted : Sorted acc)
    (h : toMembers d ms acc = some members) :
    Sorted members ∧ ∀ m ∈ members, Fits d m.2 := by
  induction ms generalizing acc with
  | nil =>
    cases h
    exact ⟨hsorted, hacc⟩
  | cons m ms ih =>
    rw [toMembers] at h
    split at h
    · next k v hk hv =>
      refine ih (fun x hx => hfits x (List.mem_cons_of_mem _ hx)) ?_ (sorted_insertEntry hsorted _ _)
        h
      intro e he
      rcases mem_insertEntry he with rfl | he
      · exact hfits m List.mem_cons_self v hv
      · exact hacc e he
    · cases h

/-- What is read fits. -/
theorem fits_toValue {d : Nat} {t : Tree} {v : Value ν} (h : toValue d t = some v) : Fits d v := by
  induction t using Tree.induct generalizing d v with
  | null =>
    cases h
    exact .null d
  | bool b =>
    cases h
    exact .bool d b
  | num text =>
    obtain ⟨n, -, rfl⟩ := Option.map_eq_some_iff.mp h
    exact .num d n
  | str pieces =>
    obtain ⟨s, -, rfl⟩ := Option.map_eq_some_iff.mp h
    exact .str d s
  | arr items ih =>
    rw [toValue] at h
    split at h
    · cases h
    · next hd =>
      obtain ⟨vs, hvs, rfl⟩ := Option.map_eq_some_iff.mp h
      exact .arr (by omega) (fits_toItems (fun t ht v hv => ih t ht hv) hvs)
  | obj members ih =>
    rw [toValue] at h
    split at h
    · cases h
    · next hd =>
      obtain ⟨ms, hms, rfl⟩ := Option.map_eq_some_iff.mp h
      obtain ⟨hsorted, hfits⟩ := fits_toMembers (fun m hm v hv => ih m hm hv)
        (List.forall_mem_nil _) List.Pairwise.nil hms
      exact .obj (by omega) hsorted hfits

/-- The numbers of a value come back from how they are written. -/
def Rereads (v : Value ν) : Prop :=
  ∀ n ∈ numbers v, Numbers.parse (Numbers.print n) = some n

theorem toItems_itemTrees {d : Nat} {vs : List (Value ν)} :
    toItems (ν := ν) d (itemTrees vs) = some vs ↔ ∀ v ∈ vs, toValue d (tree v) = some v := by
  induction vs with
  | nil => exact iff_of_true rfl (List.forall_mem_nil _)
  | cons v vs ih =>
    rw [itemTrees, toItems, List.forall_mem_cons, ← ih]
    cases toValue (ν := ν) d (tree v) with
    | none => simp
    | some w =>
      constructor
      · intro h
        obtain ⟨ws, hws, heq⟩ := Option.map_eq_some_iff.mp h
        cases heq
        exact ⟨rfl, hws⟩
      · rintro ⟨hw, hvs⟩
        cases hw
        exact Option.map_eq_some_iff.mpr ⟨vs, hvs, rfl⟩

/-- A printed member comes behind those with smaller keys. -/
theorem toMembers_memberTrees_cons {d : Nat} {m : List Char × Value ν}
    {ms acc : List (List Char × Value ν)} (hlt : ∀ a ∈ acc, a.1 < m.1) :
    toMembers d (memberTrees (m :: ms)) acc =
      (toValue (ν := ν) d (tree m.2)).bind fun v =>
        toMembers d (memberTrees ms) (acc ++ [(m.1, v)]) := by
  rw [memberTrees, toMembers]
  dsimp only
  rw [textOf_map_piece]
  cases toValue (ν := ν) d (tree m.2) with
  | none => rfl
  | some v =>
    dsimp only
    rw [insertEntry_of_forall_lt hlt]
    rfl

/-- Members that come behind leave what was there. -/
theorem prefix_of_toMembers {d : Nat} {ms acc members : List (List Char × Value ν)}
    (hsorted : Sorted ms) (hlt : ∀ a ∈ acc, ∀ m ∈ ms, a.1 < m.1)
    (h : toMembers d (memberTrees ms) acc = some members) : acc <+: members := by
  induction ms generalizing acc with
  | nil =>
    cases h
    exact List.prefix_refl _
  | cons m ms ih =>
    obtain ⟨hm, hms⟩ := List.pairwise_cons.mp hsorted
    rw [toMembers_memberTrees_cons fun a ha => hlt a ha m List.mem_cons_self] at h
    obtain ⟨v, -, h⟩ := Option.bind_eq_some_iff.mp h
    have hacc := lt_of_mem_snoc (v := v)
      (fun a ha x hx => hlt a ha x (List.mem_cons_of_mem _ hx)) hm
    exact (List.prefix_append _ _).trans (ih hms hacc h)

theorem toMembers_memberTrees {d : Nat} {ms acc : List (List Char × Value ν)}
    (hsorted : Sorted ms) (hlt : ∀ a ∈ acc, ∀ m ∈ ms, a.1 < m.1) :
    toMembers d (memberTrees ms) acc = some (acc ++ ms) ↔
      ∀ m ∈ ms, toValue d (tree m.2) = some m.2 := by
  induction ms generalizing acc with
  | nil => simp [memberTrees, toMembers]
  | cons m ms ih =>
    obtain ⟨k, w⟩ := m
    obtain ⟨hm, hms⟩ := List.pairwise_cons.mp hsorted
    have hacc (v : Value ν) := lt_of_mem_snoc (v := v)
      (fun a ha x hx => hlt a ha x (List.mem_cons_of_mem _ hx)) hm
    have hsplit : acc ++ (k, w) :: ms = acc ++ [(k, w)] ++ ms := by simp
    rw [toMembers_memberTrees_cons fun a ha => hlt a ha _ List.mem_cons_self,
      List.forall_mem_cons, Option.bind_eq_some_iff]
    constructor
    · rintro ⟨v, hv, h⟩
      -- the entry of the key is still there at the end
      have hprefix := (List.prefix_append_right_inj acc).mp (prefix_of_toMembers hms (hacc v) h)
      cases (List.cons_prefix_cons.mp hprefix).1
      rw [hsplit] at h
      exact ⟨hv, (ih hms (hacc w)).mp h⟩
    · rintro ⟨hv, hrest⟩
      refine ⟨w, hv, ?_⟩
      rw [hsplit]
      exact (ih hms (hacc w)).mpr hrest

/-- A value comes back from its tree just when its numbers do. -/
theorem toValue_tree {d : Nat} {v : Value ν} (h : Fits d v) :
    toValue d (tree v) = some v ↔ Rereads v := by
  induction v using Value.induct generalizing d with
  | null => exact iff_of_true rfl nofun
  | bool b => exact iff_of_true rfl nofun
  | num n =>
    rw [tree, toValue, Rereads, numbers, List.forall_mem_singleton]
    simp
  | str s =>
    refine iff_of_true ?_ nofun
    rw [tree, toValue, textOf_map_piece]
    rfl
  | arr items ih =>
    cases h with
    | arr hd hitems =>
      have hiff : toItems (d - 1) (itemTrees items) = some items ↔ Rereads (.arr items) := by
        rw [toItems_itemTrees]
        unfold Rereads
        simp only [numbers, mem_itemNumbers]
        constructor
        · rintro hvs n ⟨v, hv, hn⟩
          exact (ih v hv (hitems v hv)).mp (hvs v hv) n hn
        · intro hns v hv
          exact (ih v hv (hitems v hv)).mpr fun n hn => hns n ⟨v, hv, hn⟩
      rw [← hiff, tree, toValue, if_neg (by omega)]
      simp
  | obj members ih =>
    cases h with
    | obj hd hsorted hmembers =>
      have hiff : toMembers (d - 1) (memberTrees members) [] = some members ↔
          Rereads (.obj members) := by
        have hlist : toMembers (d - 1) (memberTrees members) [] = some ([] ++ members) ↔ _ :=
          toMembers_memberTrees hsorted nofun
        rw [List.nil_append] at hlist
        rw [hlist]
        unfold Rereads
        simp only [numbers, mem_memberNumbers]
        constructor
        · rintro hms n ⟨m, hm, hn⟩
          exact (ih m hm (hmembers m hm)).mp (hms m hm) n hn
        · intro hns m hm
          exact (ih m hm (hmembers m hm)).mpr fun n hn => hns n ⟨m, hm, hn⟩
      rw [← hiff, tree, toValue, if_neg (by omega)]
      simp

/-- **A value comes back from its text just when its numbers do.** -/
theorem parse_print {v : Value ν} (h : Fits levels v) : parse (print v) = some v ↔ Rereads v := by
  rw [parse, read_print, Option.bind_some, toValue_tree h]

end Trees

/-! ## In a script element -/

section Script

open ScriptTexts

theorem toLower_notMem_endTag {c : Char} (hc : c.toNat < 0x20) : c.toLower ∉ endTag := by
  have hself : c.toLower = c := by
    unfold Char.toLower
    split
    · next hupper =>
      have hlow : 65 ≤ c.toNat := hupper.1
      omega
    · rfl
  have hdecided : (endTag.all fun a => decide (0x20 ≤ a.toNat)) = true := by decide
  have hall : ∀ a ∈ endTag, 0x20 ≤ a.toNat :=
    fun a ha => of_decide_eq_true (List.all_eq_true.mp hdecided a ha)
  intro hmem
  rw [hself] at hmem
  exact absurd (hall c hmem) (Nat.not_le.mpr hc)

/-- A character is printed as itself, or as an escape if no end tag has it. -/
theorem escape_cases (c : Char) :
    escape c = [c] ∨ ∃ t, escape c = '\\' :: t ∧ '<' ∉ t ∧ c.toLower ∉ endTag := by
  unfold escape
  cases hshort : shortEscape c with
  | some e =>
    refine .inr ⟨[e], rfl, ?_⟩
    unfold shortEscape at hshort
    split_ifs at hshort with hself hb ht hn hf hr
    · cases hshort
      rcases hself with rfl | rfl
      · exact ⟨by decide, by decide⟩
      · exact ⟨by decide, by decide⟩
    · cases hshort
      exact ⟨by decide, toLower_notMem_endTag (by omega)⟩
    · cases hshort
      exact ⟨by decide, toLower_notMem_endTag (by omega)⟩
    · cases hshort
      exact ⟨by decide, toLower_notMem_endTag (by omega)⟩
    · cases hshort
      exact ⟨by decide, toLower_notMem_endTag (by omega)⟩
    · cases hshort
      exact ⟨by decide, toLower_notMem_endTag (by omega)⟩
  | none =>
    by_cases hlow : c.toNat < 0x20
    · have hdigit : ∀ n : Fin 16, '<' ≠ hexDigit n.val := by decide
      have hhigh := hdigit ⟨c.toNat / 16, by omega⟩
      have hrest := hdigit ⟨c.toNat % 16, by omega⟩
      refine .inr ⟨['u', '0', '0', hexDigit (c.toNat / 16), hexDigit (c.toNat % 16)], ?_, ?_,
        toLower_notMem_endTag hlow⟩
      · exact if_pos hlow
      · simp [hhigh, hrest]
    · exact .inl (if_neg hlow)

theorem prefix_flatMap_escape {w s : List Char} (hw : ∀ a ∈ w, a ∈ endTag) :
    w <+: (s.flatMap escape).map Char.toLower ↔ w <+: s.map Char.toLower := by
  induction w generalizing s with
  | nil => exact iff_of_true List.nil_prefix List.nil_prefix
  | cons a w ih =>
    obtain ⟨ha, hw⟩ := List.forall_mem_cons.mp hw
    cases s with
    | nil => exact Iff.rfl
    | cons c s =>
      rw [List.flatMap_cons, List.map_cons]
      rcases escape_cases c with heq | ⟨t, heq, -, hc⟩
      · rw [heq, List.singleton_append, List.map_cons, List.cons_prefix_cons,
          List.cons_prefix_cons, ih hw]
      · rw [heq, List.cons_append, List.map_cons, List.cons_prefix_cons, List.cons_prefix_cons]
        refine iff_of_false ?_ ?_
        · rintro ⟨rfl, -⟩
          exact absurd ha (by decide)
        · rintro ⟨rfl, -⟩
          exact hc ha

/-- A printed text has an end tag just when the text has. -/
theorem ends_flatMap_escape {s : List Char} : Ends (s.flatMap escape) ↔ Ends s := by
  induction s with
  | nil => exact Iff.rfl
  | cons c s ih =>
    have hat : AtEnd ((c :: s).flatMap escape) ↔ AtEnd (c :: s) :=
      prefix_flatMap_escape fun _ ha => ha
    rw [List.flatMap_cons] at hat ⊢
    rw [ends_cons]
    rcases escape_cases c with heq | ⟨t, heq, ht, hc⟩
    · rw [heq, List.singleton_append] at hat ⊢
      rw [ends_cons, hat, ih]
    · have hnot : ¬ AtEnd (c :: s) := by
        intro h
        have hmem : c.toLower ∈ endTag := by
          rw [← (List.cons_prefix_cons.mp h).1]
          decide
        exact hc hmem
      have hescape : '<' ∉ '\\' :: t := by
        rw [List.mem_cons, not_or]
        exact ⟨by decide, ht⟩
      rw [heq, ends_append_of_notMem hescape, ih, or_iff_right hnot]

theorem ends_printString {s rest : List Char} :
    Ends (printString s ++ rest) ↔ Ends s ∨ Ends rest := by
  have htext : printString s ++ rest = ['"'] ++ (s.flatMap escape ++ '"' :: rest) := by
    simp [printString]
  rw [htext, ends_append_of_notMem (by decide), ends_append_cons (by decide), ends_flatMap_escape]

variable [Numbers ν]

theorem lt_notMem_print (n : ν) : '<' ∉ Numbers.print n := by
  intro hmem
  have hchar := (numeric_readNumber (Numbers.print_valid n)).1.2 _ hmem
  cases hchar

theorem lt_notMem_comma (first : Bool) : '<' ∉ comma first := by
  cases first with
  | true => decide
  | false => decide

/-- A value whose text has the end tags that its texts have. -/
def EndsBy (v : Value ν) : Prop :=
  ∀ rest, Ends (print v ++ rest) ↔ (∃ s ∈ texts v, Ends s) ∨ Ends rest

theorem ends_printItems {items : List (Value ν)} (h : ∀ v ∈ items, EndsBy v) (first : Bool)
    (rest : List Char) : Ends (printItems first items ++ rest) ↔
      (∃ s ∈ itemTexts items, Ends s) ∨ Ends rest := by
  induction items generalizing first with
  | nil => simp [printItems, itemTexts]
  | cons v vs ih =>
    obtain ⟨hv, hvs⟩ := List.forall_mem_cons.mp h
    rw [printItems, List.append_assoc, List.append_assoc,
      ends_append_of_notMem (lt_notMem_comma first), hv, ih hvs, itemTexts]
    simp only [List.mem_append, or_and_right, exists_or, or_assoc]

theorem ends_printMembers {members : List (List Char × Value ν)}
    (h : ∀ m ∈ members, EndsBy m.2) (first : Bool) (rest : List Char) :
    Ends (printMembers first members ++ rest) ↔
      (∃ s ∈ memberTexts members, Ends s) ∨ Ends rest := by
  induction members generalizing first with
  | nil => simp [printMembers, memberTexts]
  | cons m ms ih =>
    obtain ⟨hm, hms⟩ := List.forall_mem_cons.mp h
    have hcolon : ∀ s, Ends (':' :: s) ↔ Ends s :=
      fun s => ends_append_of_notMem (s := [':']) (by decide)
    rw [printMembers, List.append_assoc, ends_append_of_notMem (lt_notMem_comma first),
      List.append_assoc, ends_printString, List.cons_append, hcolon, List.append_assoc, hm, ih hms,
      memberTexts]
    simp only [List.mem_cons, List.mem_append, or_and_right, exists_or, exists_eq_left, or_assoc]

/-- **The text of a value has an end tag just when one of its texts has.** -/
theorem endsBy (v : Value ν) : EndsBy v := by
  induction v using Value.induct with
  | null =>
    intro rest
    rw [print, ends_append_of_notMem (by decide)]
    simp [texts]
  | bool b =>
    intro rest
    cases b with
    | true =>
      rw [print, ends_append_of_notMem (by decide)]
      simp [texts]
    | false =>
      rw [print, ends_append_of_notMem (by decide)]
      simp [texts]
  | num n =>
    intro rest
    rw [print, ends_append_of_notMem (lt_notMem_print n)]
    simp [texts]
  | str s =>
    intro rest
    rw [print, ends_printString]
    simp [texts]
  | arr items ih =>
    intro rest
    have htext : print (.arr items) ++ rest = ['['] ++ (printItems true items ++ ']' :: rest) := by
      simp [print]
    have hclose : Ends (']' :: rest) ↔ Ends rest :=
      ends_append_of_notMem (s := [']']) (by decide)
    rw [htext, ends_append_of_notMem (by decide), ends_printItems ih, hclose, texts]
  | obj members ih =>
    intro rest
    have htext : print (.obj members) ++ rest =
        ['{'] ++ (printMembers true members ++ '}' :: rest) := by
      simp [print]
    have hclose : Ends ('}' :: rest) ↔ Ends rest :=
      ends_append_of_notMem (s := ['}']) (by decide)
    rw [htext, ends_append_of_notMem (by decide), ends_printMembers ih, hclose, texts]

theorem ends_print {v : Value ν} : Ends (print v) ↔ ∃ s ∈ texts v, Ends s := by
  have hend : ¬ Ends [] := by decide
  have hv := endsBy v []
  rw [List.append_nil, or_iff_left hend] at hv
  exact hv

end Script

end Json
