import Mathlib.Data.List.Dedup
import Mathlib.Logic.Equiv.Basic
import Ruscker.Db.LandingBlocks
import Ruscker.Lib.Machine

/-!
# The order of the landing blocks

The positions of a slot are distinct while every list of a reorder leaves no block of the slot at a
position that it hands out.  Then a move exchanges neighbours.
-/

namespace Ruscker.LandingBlocks

open Machines Machines.Machine

/-- The ids of a slot, in the order of the listing. -/
def slotIds (t : List BlockRow) (slot : Str) : List Str :=
  ((listAll t).filter fun b => b.slot = slot).map BlockRow.id

inductive Event where
  | insert (input : BlockInput) (id : Str) (now : Int)
  | update (id : Str) (input : BlockInput)
  | delete (id : Str)
  | moveBlock (id : Str) (up : Bool)
  | reorder (slot : Str) (ids : List Str)
  | replaceAll (blocks : List LandingBlock) (ids : Nat → Str) (now : Int)

/-- An id that is taken fails the insertion, since it is the primary key. -/
def machine : Machine (List BlockRow) Event where
  step t
    | .insert input id now =>
      if id ∈ t.map BlockRow.id then none else some (insert t input id now)
    | .update id input => some (update t id input)
    | .delete id => some (delete t id)
    | .moveBlock id up => some (moveBlock t id up)
    | .reorder slot ids => some (reorder t slot ids).1
    | .replaceAll blocks ids now =>
      if ((replaceAll blocks ids now).map BlockRow.id).Nodup then some (replaceAll blocks ids now)
      else none

/-! ## What is promised -/

/-- Blocks of one slot are at distinct positions. -/
structure Placed (t : List BlockRow) : Prop where
  ids : (t.map BlockRow.id).Nodup
  apart : ∀ b ∈ t, ∀ c ∈ t, b.slot = c.slot → b.position = c.position → b.id = c.id

/-- A move exchanges the block with its neighbour, where there is one. -/
structure Exchanges (t : List BlockRow) (id : Str) (up : Bool) (t' : List BlockRow) : Prop where
  swapped : ∀ slot pre a b post, slotIds t slot = pre ++ a :: b :: post →
    (if up then b else a) = id → slotIds t' slot = pre ++ b :: a :: post
  kept : ∀ slot, (∀ pre a b post, slotIds t slot = pre ++ a :: b :: post →
    (if up then b else a) ≠ id) → slotIds t' slot = slotIds t slot

/-- The listed blocks are in the order of their last mention, the others in their own. -/
structure Reorders (t : List BlockRow) (slot : Str) (ids : List Str) (t' : List BlockRow) :
    Prop where
  listed : (slotIds t' slot).filter (fun id => id ∈ ids) =
    (ids.filter fun id => id ∈ slotIds t slot).dedup
  others : (slotIds t' slot).filter (fun id => id ∉ ids) =
    (slotIds t slot).filter fun id => id ∉ ids
  elsewhere : ∀ slot' ≠ slot, slotIds t' slot' = slotIds t slot'

/-- The place of the last mention. -/
def lastMention : List Str → Str → Option Nat
  | [], _ => none
  | x :: l, id =>
    match lastMention l id with
    | some i => some (i + 1)
    | none => if x = id then some 0 else none

/-- The ids of a list that are blocks of the slot. -/
def mentions (t : List BlockRow) (slot : Str) (ids : List Str) : List Str :=
  ids.filter fun id => t.any fun b => b.id = id ∧ b.slot = slot

/-- No block that a list leaves out stands where the list puts another one. -/
def Clear (t : List BlockRow) : Event → Prop
  | .reorder slot ids => slot ∈ blockSlots → ∀ c ∈ t, c.slot = slot → c.id ∉ ids →
      ∀ id ∈ ids, ∀ i ∈ lastMention (mentions t slot ids) id, c.position ≠ i
  | _ => True

instance (t : List BlockRow) : (e : Event) → Decidable (Clear t e)
  | .reorder slot ids => inferInstanceAs (Decidable (slot ∈ blockSlots → ∀ c ∈ t, c.slot = slot →
      c.id ∉ ids → ∀ id ∈ ids, ∀ i ∈ lastMention (mentions t slot ids) id, c.position ≠ i))
  | .insert .. | .update .. | .delete .. | .moveBlock .. | .replaceAll .. => isTrue trivial

/-! ## Lists of ids by position -/

/-- Of the lists with given members there is one in strict order. -/
theorem eq_of_pairwise_lt {α : Type*} {f : α → Int} {l₁ l₂ : List α} (hnodup : l₁.Nodup)
    (hmem : ∀ a, a ∈ l₁ ↔ a ∈ l₂) (h₁ : l₁.Pairwise fun a b => f a ≤ f b)
    (h₂ : l₂.Pairwise fun a b => f a < f b) : l₁ = l₂ := by
  have hnodup₂ : l₂.Nodup := by
    refine h₂.imp ?_
    rintro a b hlt rfl
    exact Int.lt_irrefl _ hlt
  have hstrict : ∀ a ∈ l₂, ∀ b ∈ l₂, a ≠ b → f a ≠ f b := by
    intro a ha b hb hne
    have hsymm : Std.Symm fun a b : α => f a ≠ f b := ⟨fun _ _ h => h.symm⟩
    exact (h₂.imp fun h => Int.ne_of_lt h).forall ha hb hne
  refine List.Perm.eq_of_pairwise ?_ h₁ (h₂.imp Int.le_of_lt)
    ((List.perm_ext_iff_of_nodup hnodup hnodup₂).mpr hmem)
  intro a b ha hb hab hba
  by_contra hne
  exact hstrict a ((hmem a).mp ha) b hb hne (Int.le_antisymm hab hba)

/-- The position of a block. -/
def posOf (t : List BlockRow) (id : Str) : Int :=
  ((t.find? fun b => b.id = id).map BlockRow.position).getD 0

section Listing

variable {t : List BlockRow} {slot : Str} {id : Str}

theorem eq_of_id_eq (h : (t.map BlockRow.id).Nodup) {b c : BlockRow} (hb : b ∈ t) (hc : c ∈ t)
    (hid : b.id = c.id) : b = c :=
  List.inj_on_of_nodup_map h hb hc hid

theorem find?_of_mem (h : (t.map BlockRow.id).Nodup) {b : BlockRow} (hb : b ∈ t) :
    (t.find? fun c => c.id = b.id) = some b := by
  cases hfind : t.find? fun c => c.id = b.id with
  | none =>
    have hne := List.find?_eq_none.mp hfind b hb
    simp at hne
  | some c =>
    have hid := List.find?_some hfind
    rw [eq_of_id_eq h (List.mem_of_find?_eq_some hfind) hb (of_decide_eq_true hid)]

theorem posOf_of_mem (h : (t.map BlockRow.id).Nodup) {b : BlockRow} (hb : b ∈ t) :
    posOf t b.id = b.position := by
  unfold posOf
  rw [find?_of_mem h hb]
  rfl

theorem mem_slotIds : id ∈ slotIds t slot ↔ ∃ b ∈ t, b.id = id ∧ b.slot = slot := by
  unfold slotIds listAll
  simp only [List.mem_map, List.mem_filter, List.mem_insertionSort, decide_eq_true_eq]
  constructor
  · rintro ⟨b, ⟨hb, hslot⟩, hid⟩
    exact ⟨b, hb, hid, hslot⟩
  · rintro ⟨b, hb, hid, hslot⟩
    exact ⟨b, ⟨hb, hslot⟩, hid⟩

theorem id_mem_slotIds (h : (t.map BlockRow.id).Nodup) {b : BlockRow} (hb : b ∈ t) :
    b.id ∈ slotIds t slot ↔ b.slot = slot := by
  rw [mem_slotIds]
  constructor
  · rintro ⟨c, hc, hid, rfl⟩
    rw [eq_of_id_eq h hc hb hid]
  · rintro rfl
    exact ⟨b, hb, rfl, rfl⟩

theorem nodup_slotIds (h : (t.map BlockRow.id).Nodup) : (slotIds t slot).Nodup := by
  have hsorted : ((listAll t).map BlockRow.id).Nodup :=
    ((List.perm_insertionSort BlockRow.Before t).map _).nodup_iff.mpr h
  exact hsorted.sublist (List.filter_sublist.map _)

theorem position_le_of_before {b c : BlockRow} (h : b.Before c) (hslot : b.slot = c.slot) :
    b.position ≤ c.position := by
  rcases Prod.Lex.le_iff.mp h with hlt | ⟨-, hle⟩
  · exact absurd hslot (ne_of_lt hlt)
  · rcases Prod.Lex.le_iff.mp hle with hlt | ⟨heq, -⟩
    · exact le_of_lt hlt
    · exact le_of_eq heq

/-- A slot is listed by position. -/
theorem pairwise_slotIds (h : (t.map BlockRow.id).Nodup) :
    (slotIds t slot).Pairwise fun a b => posOf t a ≤ posOf t b := by
  unfold slotIds
  rw [List.pairwise_map]
  refine ((List.pairwise_insertionSort BlockRow.Before t).filter _).imp_of_mem ?_
  intro b c hb hc hbefore
  obtain ⟨hb, hbslot⟩ := List.mem_filter.mp hb
  obtain ⟨hc, hcslot⟩ := List.mem_filter.mp hc
  rw [posOf_of_mem h ((List.mem_insertionSort _).mp hb),
    posOf_of_mem h ((List.mem_insertionSort _).mp hc)]
  exact position_le_of_before hbefore
    ((of_decide_eq_true hbslot).trans (of_decide_eq_true hcslot).symm)

theorem Placed.posOf_ne (h : Placed t) {a b : Str} (ha : a ∈ slotIds t slot)
    (hb : b ∈ slotIds t slot) (hne : a ≠ b) : posOf t a ≠ posOf t b := by
  obtain ⟨c, hc, rfl, hcslot⟩ := mem_slotIds.mp ha
  obtain ⟨d, hd, rfl, hdslot⟩ := mem_slotIds.mp hb
  rw [posOf_of_mem h.ids hc, posOf_of_mem h.ids hd]
  exact fun heq => hne (h.apart c hc d hd (hcslot.trans hdslot.symm) heq)

theorem Placed.pairwise_slotIds (h : Placed t) :
    (slotIds t slot).Pairwise fun a b => posOf t a < posOf t b := by
  have hle : (slotIds t slot).Pairwise fun a b => posOf t a ≤ posOf t b :=
    LandingBlocks.pairwise_slotIds h.ids
  have hboth := hle.and (nodup_slotIds h.ids)
  refine hboth.imp_of_mem ?_
  intro a b ha hb hab
  exact lt_of_le_of_ne hab.1 (h.posOf_ne ha hb hab.2)

theorem Placed.of_posOf (hids : (t.map BlockRow.id).Nodup)
    (h : ∀ slot, ∀ a ∈ slotIds t slot, ∀ b ∈ slotIds t slot, posOf t a = posOf t b → a = b) :
    Placed t := by
  refine ⟨hids, ?_⟩
  intro b hb c hc hslot hposition
  refine h c.slot b.id (mem_slotIds.mpr ⟨b, hb, rfl, hslot⟩) c.id
    (mem_slotIds.mpr ⟨c, hc, rfl, rfl⟩) ?_
  rw [posOf_of_mem hids hb, posOf_of_mem hids hc, hposition]

theorem slotIds_eq (hids : (t.map BlockRow.id).Nodup) {l : List Str}
    (hmem : ∀ id, id ∈ slotIds t slot ↔ id ∈ l)
    (hl : l.Pairwise fun a b => posOf t a < posOf t b) : slotIds t slot = l :=
  eq_of_pairwise_lt (nodup_slotIds hids) hmem (LandingBlocks.pairwise_slotIds hids) hl

variable {f : BlockRow → BlockRow}

theorem ids_map (hid : ∀ b, (f b).id = b.id) :
    (t.map f).map BlockRow.id = t.map BlockRow.id := by
  rw [List.map_map]
  exact List.map_congr_left fun b _ => hid b

theorem mem_slotIds_map (hid : ∀ b, (f b).id = b.id) (hslot : ∀ b, (f b).slot = b.slot) :
    id ∈ slotIds (t.map f) slot ↔ id ∈ slotIds t slot := by
  rw [mem_slotIds, mem_slotIds]
  constructor
  · rintro ⟨c, hc, rfl, rfl⟩
    obtain ⟨b, hb, rfl⟩ := List.mem_map.mp hc
    exact ⟨b, hb, (hid b).symm, (hslot b).symm⟩
  · rintro ⟨b, hb, rfl, rfl⟩
    exact ⟨f b, List.mem_map_of_mem hb, hid b, hslot b⟩

theorem posOf_map (hid : ∀ b, (f b).id = b.id) (hids : (t.map BlockRow.id).Nodup) {b : BlockRow}
    (hb : b ∈ t) : posOf (t.map f) b.id = (f b).position := by
  rw [← hid b]
  exact posOf_of_mem (by rwa [ids_map hid]) (List.mem_map_of_mem hb)

end Listing

/-! ## Moves -/

section Move

variable {t : List BlockRow} {slot id : Str} {up : Bool} {me n : BlockRow}

/-- The second position is on the side of the first that a move goes to. -/
def Beside (up : Bool) (p q : Int) : Prop := if up then q < p else p < q

theorem neighbour_some {p : Int} (h : neighbour t slot p up = some n) :
    n ∈ t ∧ n.slot = slot ∧ Beside up p n.position ∧
      ∀ c ∈ t, c.slot = slot → Beside up p c.position → ¬ Beside up c.position n.position := by
  unfold neighbour at h
  have hsorted := List.pairwise_insertionSort (fun a b : BlockRow => a.position ≤ b.position)
    (t.filter fun b => b.slot = slot)
  have hmem : ∀ c, c ∈ (t.filter fun b => b.slot = slot).insertionSort
      (fun a b => a.position ≤ b.position) ↔ c ∈ t ∧ c.slot = slot := by
    intro c
    rw [List.mem_insertionSort, List.mem_filter, decide_eq_true_eq]
  generalize (t.filter fun b => b.slot = slot).insertionSort
    (fun a b => a.position ≤ b.position) = rows at h hsorted hmem
  cases up with
  | true =>
    obtain ⟨front, hfront⟩ := List.getLast?_eq_some_iff.mp h
    have hn : n ∈ rows.filter fun b => b.position < p := by
      rw [hfront]
      exact List.mem_append_right _ List.mem_cons_self
    obtain ⟨hrows, hlt⟩ := List.mem_filter.mp hn
    have hbeside : n.position < p := of_decide_eq_true hlt
    refine ⟨((hmem n).mp hrows).1, ((hmem n).mp hrows).2, hbeside, ?_⟩
    intro c hc hslot hside hnear
    have hcmem : c ∈ rows.filter fun b => b.position < p :=
      List.mem_filter.mpr ⟨(hmem c).mpr ⟨hc, hslot⟩, decide_eq_true hside⟩
    have hpairs := hsorted.filter fun b => b.position < p
    rw [hfront] at hcmem hpairs
    rcases List.mem_append.mp hcmem with hcfront | hclast
    · have hle := (List.pairwise_append.mp hpairs).2.2 c hcfront n List.mem_cons_self
      exact absurd hle (not_le.mpr hnear)
    · rw [List.mem_singleton.mp hclast] at hnear
      exact Int.lt_irrefl _ hnear
  | false =>
    obtain ⟨back, hback⟩ := List.head?_eq_some_iff.mp h
    have hn : n ∈ rows.filter fun b => p < b.position := by
      rw [hback]
      exact List.mem_cons_self
    obtain ⟨hrows, hlt⟩ := List.mem_filter.mp hn
    have hbeside : p < n.position := of_decide_eq_true hlt
    refine ⟨((hmem n).mp hrows).1, ((hmem n).mp hrows).2, hbeside, ?_⟩
    intro c hc hslot hside hnear
    have hcmem : c ∈ rows.filter fun b => p < b.position :=
      List.mem_filter.mpr ⟨(hmem c).mpr ⟨hc, hslot⟩, decide_eq_true hside⟩
    have hpairs := hsorted.filter fun b => p < b.position
    rw [hback] at hcmem hpairs
    rcases List.mem_cons.mp hcmem with rfl | hcback
    · exact Int.lt_irrefl _ hnear
    · have hle := List.rel_of_pairwise_cons hpairs hcback
      exact absurd hle (not_le.mpr hnear)

theorem neighbour_none {p : Int} (h : neighbour t slot p up = none) :
    ∀ c ∈ t, c.slot = slot → ¬ Beside up p c.position := by
  intro c hc hslot hside
  unfold neighbour at h
  have hrow : c ∈ (t.filter fun b => b.slot = slot).insertionSort
      (fun a b => a.position ≤ b.position) := by
    rw [List.mem_insertionSort, List.mem_filter]
    exact ⟨hc, decide_eq_true hslot⟩
  cases up with
  | true =>
    rw [if_pos rfl, List.getLast?_eq_none_iff, List.filter_eq_nil_iff] at h
    exact h c hrow (decide_eq_true hside)
  | false =>
    rw [if_neg (by decide), List.head?_eq_none_iff, List.filter_eq_nil_iff] at h
    exact h c hrow (decide_eq_true hside)

theorem ids_setPosition {p : Int} :
    (setPosition t id p).map BlockRow.id = t.map BlockRow.id := by
  refine ids_map ?_
  intro b
  split <;> rfl

theorem mem_slotIds_setPosition {a : Str} {p : Int} :
    a ∈ slotIds (setPosition t id p) slot ↔ a ∈ slotIds t slot := by
  refine mem_slotIds_map ?_ ?_
  all_goals
    intro b
    split <;> rfl

/-- The rows of a table that exchange their positions. -/
theorem posOf_exchange (hids : (t.map BlockRow.id).Nodup) (hme : me ∈ t) (hn : n ∈ t) (a : Str)
    (ha : ∃ slot, a ∈ slotIds t slot) :
    posOf (setPosition (setPosition t me.id n.position) n.id me.position) a =
      posOf t (Equiv.swap me.id n.id a) := by
  obtain ⟨slot, ha⟩ := ha
  obtain ⟨b, hb, rfl, -⟩ := mem_slotIds.mp ha
  let f (b : BlockRow) : BlockRow := if b.id = me.id then { b with position := n.position } else b
  let g (b : BlockRow) : BlockRow := if b.id = n.id then { b with position := me.position } else b
  have hf : ∀ b, (f b).id = b.id := by
    intro b
    simp only [f]
    split <;> rfl
  have hg : ∀ b, (g b).id = b.id := by
    intro b
    simp only [g]
    split <;> rfl
  have hmap : setPosition (setPosition t me.id n.position) n.id me.position =
      t.map (g ∘ f) := by
    rw [← List.map_map]
    rfl
  rw [hmap, posOf_map (f := g ∘ f) (fun b => (hg _).trans (hf b)) hids hb]
  by_cases hbn : b.id = n.id
  · have hb : g (f b) = { f b with position := me.position } := if_pos ((hf b).trans hbn)
    rw [Function.comp_apply, hb, hbn, Equiv.swap_apply_right, posOf_of_mem hids hme]
  · have hb' : g (f b) = f b := if_neg (by rwa [hf b])
    rw [Function.comp_apply, hb']
    by_cases hbm : b.id = me.id
    · have hb : f b = { b with position := n.position } := if_pos hbm
      rw [hb, hbm, Equiv.swap_apply_left, posOf_of_mem hids hn]
    · have hb' : f b = b := if_neg hbm
      rw [hb', Equiv.swap_apply_of_ne_of_ne hbm hbn, posOf_of_mem hids hb]

/-- So a slot is listed as before, with the two exchanged. -/
theorem slotIds_exchange (h : Placed t) (hme : me ∈ t) (hn : n ∈ t) (hslot : n.slot = me.slot)
    (slot : Str) :
    slotIds (setPosition (setPosition t me.id n.position) n.id me.position) slot =
      (slotIds t slot).map (Equiv.swap me.id n.id) := by
  have hside : ∀ {b : BlockRow}, b ∈ t → (b.id ∈ slotIds t slot ↔ b.slot = slot) :=
    fun hb => id_mem_slotIds h.ids hb
  have hswap : ∀ a, Equiv.swap me.id n.id a ∈ slotIds t slot ↔ a ∈ slotIds t slot := by
    intro a
    by_cases ha : a = me.id
    · rw [ha, Equiv.swap_apply_left, hside hn, hside hme, hslot]
    · by_cases ha' : a = n.id
      · rw [ha', Equiv.swap_apply_right, hside hn, hside hme, hslot]
      · rw [Equiv.swap_apply_of_ne_of_ne ha ha']
  refine slotIds_eq ?_ ?_ ?_
  · rw [ids_setPosition, ids_setPosition]
    exact h.ids
  · intro a
    rw [mem_slotIds_setPosition, mem_slotIds_setPosition, List.mem_map]
    constructor
    · intro ha
      exact ⟨_, (hswap a).mpr ha, Equiv.swap_apply_self _ _ _⟩
    · rintro ⟨b, hb, rfl⟩
      exact (hswap b).mpr hb
  · rw [List.pairwise_map]
    refine h.pairwise_slotIds.imp_of_mem ?_
    intro a b ha hb hlt
    rw [posOf_exchange h.ids hme hn _ ⟨slot, (hswap a).mpr ha⟩,
      posOf_exchange h.ids hme hn _ ⟨slot, (hswap b).mpr hb⟩]
    rwa [Equiv.swap_apply_self, Equiv.swap_apply_self]

theorem map_swap_of_notMem {a b : Str} {l : List Str} (ha : a ∉ l) (hb : b ∉ l) :
    l.map (Equiv.swap a b) = l := by
  conv_rhs => rw [← List.map_id l]
  apply List.map_congr_left
  intro c hc
  apply Equiv.swap_apply_of_ne_of_ne
  · rintro rfl
    exact ha hc
  · rintro rfl
    exact hb hc

theorem map_swap {a b : Str} {pre post : List Str} (h : (pre ++ a :: b :: post).Nodup) :
    (pre ++ a :: b :: post).map (Equiv.swap a b) = pre ++ b :: a :: post := by
  have ha : a ∉ pre ++ b :: post := (List.nodup_cons.mp (List.nodup_middle.mp h)).1
  have hb : b ∉ (pre ++ [a]) ++ post := by
    rw [List.append_cons] at h
    exact (List.nodup_cons.mp (List.nodup_middle.mp h)).1
  simp only [List.mem_append, List.mem_cons, not_or] at ha hb
  rw [List.map_append, List.map_cons, List.map_cons, Equiv.swap_apply_left,
    Equiv.swap_apply_right, map_swap_of_notMem ha.1 hb.1.1, map_swap_of_notMem ha.2.2 hb.2]

/-- The other block of two that a move exchanges is the nearest one on its side. -/
theorem eq_of_nearest {f : Str → Int} {a b c : Str} {pre post : List Str}
    (h : (pre ++ a :: b :: post).Pairwise fun x y => f x < f y) (hc : c ∈ pre ++ a :: b :: post)
    (hside : Beside up (f (if up then b else a)) (f c))
    (hnear : ¬ Beside up (f (if up then a else b)) (f c)) : c = if up then a else b := by
  obtain ⟨-, hpairs, hcross⟩ := List.pairwise_append.mp h
  obtain ⟨ha, hpairs⟩ := List.pairwise_cons.mp hpairs
  have hb := (List.pairwise_cons.mp hpairs).1
  have hab := ha b List.mem_cons_self
  simp only [List.mem_append, List.mem_cons] at hc
  cases up with
  | true =>
    change f c < f b at hside
    change ¬ f c < f a at hnear
    rcases hc with hpre | rfl | rfl | hpost
    · exact absurd (hcross c hpre a List.mem_cons_self) hnear
    · rfl
    · omega
    · have hlt := hb c hpost
      omega
  | false =>
    change f a < f c at hside
    change ¬ f b < f c at hnear
    rcases hc with hpre | rfl | rfl | hpost
    · have hlt := hcross c hpre a List.mem_cons_self
      omega
    · omega
    · rfl
    · exact absurd (hb c hpost) hnear

/-- A block that has another one on its side has a neighbour there. -/
theorem exists_neighbour {f : Str → Int} {l : List Str} {a c : Str}
    (h : l.Pairwise fun x y => f x < f y) (ha : a ∈ l) (hc : c ∈ l)
    (hside : Beside up (f a) (f c)) :
    ∃ pre x y post, l = pre ++ x :: y :: post ∧ (if up then y else x) = a := by
  obtain ⟨pre, post, rfl⟩ := List.append_of_mem ha
  obtain ⟨-, hpairs, hcross⟩ := List.pairwise_append.mp h
  have hback := (List.pairwise_cons.mp hpairs).1
  rw [List.mem_append, List.mem_cons] at hc
  cases up with
  | true =>
    change f c < f a at hside
    rcases hc with hpre | rfl | hpost
    · obtain ⟨front, x, rfl⟩ := List.eq_nil_or_concat pre |>.resolve_left (List.ne_nil_of_mem hpre)
      exact ⟨front, x, a, post, by simp, rfl⟩
    · omega
    · have hlt := hback c hpost
      omega
  | false =>
    change f a < f c at hside
    rcases hc with hpre | rfl | hpost
    · have hlt := hcross c hpre a List.mem_cons_self
      omega
    · omega
    · obtain ⟨y, back, rfl⟩ := List.exists_cons_of_ne_nil (List.ne_nil_of_mem hpost)
      exact ⟨pre, a, y, back, rfl, rfl⟩

/-- What a move does: nothing, or an exchange with the nearest block on its side. -/
theorem moveBlock_cases (hids : (t.map BlockRow.id).Nodup) :
    (moveBlock t id up = t ∧ ∀ me ∈ t, me.id = id → ∀ c ∈ t, c.slot = me.slot →
      ¬ Beside up me.position c.position) ∨
    ∃ me ∈ t, ∃ n ∈ t, me.id = id ∧ n.slot = me.slot ∧ Beside up me.position n.position ∧
      (∀ c ∈ t, c.slot = me.slot → Beside up me.position c.position →
        ¬ Beside up c.position n.position) ∧
      moveBlock t id up = setPosition (setPosition t me.id n.position) n.id me.position := by
  unfold moveBlock
  cases hfind : t.find? fun b => b.id = id with
  | none =>
    refine .inl ⟨rfl, ?_⟩
    rintro me hme rfl
    rw [find?_of_mem hids hme] at hfind
    cases hfind
  | some me =>
    have hme := List.mem_of_find?_eq_some hfind
    have hid : me.id = id := of_decide_eq_true (List.find?_some hfind :)
    dsimp only
    cases hn : neighbour t me.slot me.position up with
    | none =>
      refine .inl ⟨rfl, ?_⟩
      intro me' hme' hid' c hc hslot
      rw [eq_of_id_eq hids hme' hme (hid'.trans hid.symm)] at hslot ⊢
      exact neighbour_none hn c hc hslot
    | some n =>
      obtain ⟨hnmem, hslot, hside, hnear⟩ := neighbour_some hn
      exact .inr ⟨me, hme, n, hnmem, hid, hslot, hside, hnear, by rw [hid]⟩

theorem exchanges_moveBlock (h : Placed t) : Exchanges t id up (moveBlock t id up) := by
  have hcases : moveBlock t id up = t ∧ _ ∨ _ := moveBlock_cases h.ids
  have hrow : ∀ {slot a}, a ∈ slotIds t slot → ∃ b ∈ t, b.id = a ∧ b.slot = slot ∧
      posOf t a = b.position := by
    intro slot a ha
    obtain ⟨b, hb, rfl, hslot⟩ := mem_slotIds.mp ha
    exact ⟨b, hb, rfl, hslot, posOf_of_mem h.ids hb⟩
  rcases hcases with
    ⟨heq, hedge⟩ | ⟨me, hme, n, hn, rfl, hslot, hside, hnear, heq⟩
  · rw [heq]
    refine ⟨?_, fun _ _ => rfl⟩
    rintro slot pre a b post hl hid
    have ha : a ∈ slotIds t slot := by simp [hl]
    have hb : b ∈ slotIds t slot := by simp [hl]
    obtain ⟨ra, hra, haid, haslot, hapos⟩ := hrow ha
    obtain ⟨rb, hrb, hbid, hbslot, hbpos⟩ := hrow hb
    have hpairs : (slotIds t slot).Pairwise fun a b => posOf t a < posOf t b :=
      h.pairwise_slotIds
    rw [hl] at hpairs
    have hlt : posOf t a < posOf t b :=
      List.rel_of_pairwise_cons (List.pairwise_append.mp hpairs).2.1 List.mem_cons_self
    rw [hapos, hbpos] at hlt
    cases up with
    | true => exact absurd hlt (hedge rb hrb (hbid.trans hid) ra hra (haslot.trans hbslot.symm))
    | false => exact absurd hlt (hedge ra hra (haid.trans hid) rb hrb (hbslot.trans haslot.symm))
  · rw [heq]
    have hmem : ∀ {slot} {b : BlockRow}, b ∈ t → (b.id ∈ slotIds t slot ↔ b.slot = slot) :=
      fun hb => id_mem_slotIds h.ids hb
    have hmeids : me.id ∈ slotIds t me.slot := (hmem hme).mpr rfl
    have hnids : n.id ∈ slotIds t me.slot := (hmem hn).mpr hslot
    rw [← posOf_of_mem h.ids hme, ← posOf_of_mem h.ids hn] at hside
    refine ⟨?_, ?_⟩
    · intro slot pre a b post hl hid
      have hmeslot : me.slot = slot := by
        rw [← hmem hme, hl, ← hid]
        cases up <;> simp
      subst hmeslot
      rw [slotIds_exchange h hme hn hslot, hl]
      have hpairs : (slotIds t me.slot).Pairwise fun a b => posOf t a < posOf t b :=
        h.pairwise_slotIds
      have hnodup : (slotIds t me.slot).Nodup := nodup_slotIds h.ids
      rw [hl] at hnids hpairs hnodup
      have hother : (if up then a else b) ∈ slotIds t me.slot := by
        rw [hl]
        cases up <;> simp
      obtain ⟨c, hc, hcid, hcslot, hcpos⟩ := hrow hother
      have hn : n.id = if up then a else b := by
        refine eq_of_nearest hpairs hnids (by rwa [hid]) ?_
        rw [hcpos, posOf_of_mem h.ids hn]
        refine hnear c hc hcslot ?_
        have hlt : posOf t a < posOf t b :=
          List.rel_of_pairwise_cons (List.pairwise_append.mp hpairs).2.1 List.mem_cons_self
        rw [← posOf_of_mem h.ids hme, ← hcpos, ← hid]
        cases up <;> exact hlt
      cases up with
      | true =>
        rw [← hid, hn, Equiv.swap_comm]
        exact map_swap hnodup
      | false =>
        rw [← hid, hn]
        exact map_swap hnodup
    · intro slot hnone
      rw [slotIds_exchange h hme hn hslot]
      by_cases hmeslot : me.slot = slot
      · subst hmeslot
        obtain ⟨pre, x, y, post, hl, hid⟩ :=
          exists_neighbour h.pairwise_slotIds hmeids hnids hside
        exact absurd hid (hnone pre x y post hl)
      · apply map_swap_of_notMem
        · rwa [hmem hme]
        · rwa [hmem hn, hslot]

theorem Placed.exchange (h : Placed t) (hme : me ∈ t) (hn : n ∈ t) (hslot : n.slot = me.slot) :
    Placed (setPosition (setPosition t me.id n.position) n.id me.position) := by
  refine .of_posOf ?_ ?_
  · rw [ids_setPosition, ids_setPosition]
    exact h.ids
  · intro slot a ha b hb heq
    rw [posOf_exchange h.ids hme hn a ⟨slot, by simpa [mem_slotIds_setPosition] using ha⟩,
      posOf_exchange h.ids hme hn b ⟨slot, by simpa [mem_slotIds_setPosition] using hb⟩] at heq
    rw [slotIds_exchange h hme hn hslot, List.mem_map] at ha hb
    obtain ⟨a, ha, rfl⟩ := ha
    obtain ⟨b, hb, rfl⟩ := hb
    rw [Equiv.swap_apply_self, Equiv.swap_apply_self] at heq
    by_contra hne
    exact h.posOf_ne ha hb (fun hab => hne (by rw [hab])) heq

theorem Placed.moveBlock (h : Placed t) : Placed (moveBlock t id up) := by
  have hcases : LandingBlocks.moveBlock t id up = t ∧ _ ∨ _ := moveBlock_cases h.ids
  rcases hcases with
    ⟨heq, -⟩ | ⟨me, hme, n, hn, rfl, hslot, -, -, heq⟩
  · rw [heq]
    exact h
  · rw [heq]
    exact h.exchange hme hn hslot

end Move

/-! ## Reorders -/

section Reorder

variable {t : List BlockRow} {slot id : Str} {ids l : List Str} {i j : Nat}

theorem lastMention_isSome : (lastMention l id).isSome ↔ id ∈ l := by
  induction l with
  | nil => simp [lastMention]
  | cons x l ih =>
    unfold lastMention
    rw [List.mem_cons, ← ih]
    cases h : lastMention l id with
    | none =>
      by_cases hx : x = id
      · simp [hx]
      · simp [hx, Ne.symm hx]
    | some i => simp

theorem lastMention_of_mem {x : Str} (h : id ∈ l) :
    lastMention (x :: l) id = (lastMention l id).map fun i => i + 1 := by
  obtain ⟨i, hi⟩ := Option.isSome_iff_exists.mp (lastMention_isSome.mpr h)
  rw [lastMention, hi]
  rfl

theorem getElem?_lastMention (h : lastMention l id = some i) : l[i]? = some id := by
  induction l generalizing i with
  | nil => cases h
  | cons x l ih =>
    unfold lastMention at h
    split at h
    · next k hk =>
      cases h
      exact ih hk
    · split at h
      · next hx =>
        cases h
        rw [hx]
        rfl
      · cases h

/-- A list without its repetitions is in the order of the last mentions. -/
theorem dedup_lastMention :
    l.dedup.Pairwise fun a b => (lastMention l a).getD 0 < (lastMention l b).getD 0 := by
  induction l with
  | nil => exact .nil
  | cons x l ih =>
    have hsucc : ∀ a ∈ l, (lastMention (x :: l) a).getD 0 = (lastMention l a).getD 0 + 1 := by
      intro a ha
      obtain ⟨i, hi⟩ := Option.isSome_iff_exists.mp (lastMention_isSome.mpr ha)
      rw [lastMention_of_mem ha, hi]
      rfl
    have htail : l.dedup.Pairwise fun a b =>
        (lastMention (x :: l) a).getD 0 < (lastMention (x :: l) b).getD 0 := by
      refine ih.imp_of_mem ?_
      intro a b ha hb hlt
      rw [hsucc a (List.mem_dedup.mp ha), hsucc b (List.mem_dedup.mp hb)]
      omega
    by_cases hx : x ∈ l
    · rwa [List.dedup_cons_of_mem hx]
    · rw [List.dedup_cons_of_notMem hx]
      refine List.pairwise_cons.mpr ⟨?_, htail⟩
      intro a ha
      have hnone : lastMention l x = none := by
        rw [← Option.not_isSome_iff_eq_none, lastMention_isSome]
        exact hx
      rw [hsucc a (List.mem_dedup.mp ha), lastMention, hnone]
      simp

/-- Where a reorder puts a block of the slot. -/
def placed (l : List Str) (pos : Int) (b : BlockRow) : BlockRow :=
  match lastMention l b.id with
  | some i => { b with position := pos + i }
  | none => b

theorem placed_cons {pos : Int} {b : BlockRow} : placed (id :: l) pos b =
    placed l (pos + 1) (if b.id = id then { b with position := pos } else b) := by
  unfold placed
  have hid : (if b.id = id then { b with position := pos } else b).id = b.id := by
    split <;> rfl
  rw [hid, lastMention]
  cases lastMention l b.id with
  | none =>
    by_cases hb : b.id = id
    · simp [hb]
    · simp [hb, Ne.symm hb]
  | some i =>
    have hpos : pos + (i + 1 : Nat) = pos + 1 + i := by omega
    dsimp only
    rw [hpos]
    split <;> rfl

theorem mentions_map {f : BlockRow → BlockRow} (hid : ∀ b, (f b).id = b.id)
    (hslot : ∀ b, (f b).slot = b.slot) : mentions (t.map f) slot ids = mentions t slot ids := by
  unfold mentions
  simp only [List.any_map, Function.comp_def, hid, hslot]

theorem renumber_eq {pos : Int} : renumber slot pos ids t =
    t.map fun b => if b.slot = slot then placed (mentions t slot ids) pos b else b := by
  induction ids generalizing t pos with
  | nil =>
    unfold renumber mentions
    conv_lhs => rw [← List.map_id t]
    apply List.map_congr_left
    intro b _
    split <;> rfl
  | cons id ids ih =>
    unfold renumber
    dsimp only
    rw [ih, List.map_map, mentions_map]
    · apply List.map_congr_left
      intro b hb
      by_cases haffected : (t.any fun b => b.id = id ∧ b.slot = slot) = true
      · have hmentions : mentions t slot (id :: ids) = id :: mentions t slot ids :=
          List.filter_cons_of_pos haffected
        rw [hmentions, placed_cons, if_pos haffected]
        by_cases hslot : b.slot = slot
        · by_cases hid : b.id = id
          · simp [hslot, hid]
          · simp [hslot, hid]
        · simp [hslot]
      · have hmentions : mentions t slot (id :: ids) = mentions t slot ids :=
          List.filter_cons_of_neg haffected
        have hnot : ¬ (b.id = id ∧ b.slot = slot) := by
          intro hrow
          exact haffected (List.any_eq_true.mpr ⟨b, hb, decide_eq_true hrow⟩)
        rw [hmentions, if_neg haffected, Function.comp_apply, if_neg hnot]
    all_goals
      intro b
      split <;> rfl

theorem mem_mentions : id ∈ mentions t slot ids ↔ id ∈ ids ∧ id ∈ slotIds t slot := by
  unfold mentions
  rw [List.mem_filter, mem_slotIds]
  simp [List.any_eq_true]

theorem placed_id {pos : Int} {b : BlockRow} : (placed l pos b).id = b.id := by
  unfold placed
  split <;> rfl

theorem placed_slot {pos : Int} {b : BlockRow} : (placed l pos b).slot = b.slot := by
  unfold placed
  split <;> rfl

theorem ids_renumber {pos : Int} :
    (renumber slot pos ids t).map BlockRow.id = t.map BlockRow.id := by
  rw [renumber_eq]
  refine ids_map ?_
  intro b
  split
  · exact placed_id
  · rfl

theorem mem_slotIds_renumber {pos : Int} {slot' : Str} :
    id ∈ slotIds (renumber slot pos ids t) slot' ↔ id ∈ slotIds t slot' := by
  rw [renumber_eq]
  refine mem_slotIds_map ?_ ?_
  · intro b
    split
    · exact placed_id
    · rfl
  · intro b
    split
    · exact placed_slot
    · rfl

/-- The positions after a reorder. -/
theorem posOf_renumber (hids : (t.map BlockRow.id).Nodup) {slot' : Str}
    (hid : id ∈ slotIds t slot') : posOf (renumber slot 0 ids t) id =
      if slot' = slot ∧ id ∈ ids then (((lastMention (mentions t slot ids) id).getD 0 : Nat) : Int)
      else posOf t id := by
  have hmem := hid
  obtain ⟨b, hb, rfl, rfl⟩ := mem_slotIds.mp hid
  rw [renumber_eq, posOf_map _ hids hb, posOf_of_mem hids hb]
  · by_cases hslot : b.slot = slot
    · subst hslot
      by_cases hlisted : b.id ∈ ids
      · have hmention : b.id ∈ mentions t b.slot ids := mem_mentions.mpr ⟨hlisted, hmem⟩
        obtain ⟨i, hi⟩ := Option.isSome_iff_exists.mp (lastMention_isSome.mpr hmention)
        simp [placed, hi, hlisted]
      · have hnone : lastMention (mentions t b.slot ids) b.id = none := by
          rw [← Option.not_isSome_iff_eq_none, lastMention_isSome, mem_mentions]
          exact fun h => hlisted h.1
        simp [placed, hnone, hlisted]
    · simp [hslot]
  · intro b
    split
    · exact placed_id
    · rfl

theorem mentions_eq : mentions t slot ids = ids.filter fun id => id ∈ slotIds t slot := by
  unfold mentions
  congr 1
  funext id
  rw [Bool.eq_iff_iff, decide_eq_true_eq, mem_slotIds]
  simp [List.any_eq_true]

theorem reorder_of_mem (h : slot ∈ blockSlots) :
    (reorder t slot ids).1 = renumber slot 0 ids t := by
  unfold reorder
  rw [if_pos (List.contains_iff_mem.mpr h)]

theorem reorder_of_notMem (h : slot ∉ blockSlots) : (reorder t slot ids).1 = t := by
  unfold reorder
  rw [if_neg (by simpa using h)]

theorem reorders_reorder (h : Placed t) (hslot : slot ∈ blockSlots) :
    Reorders t slot ids (reorder t slot ids).1 := by
  rw [reorder_of_mem hslot]
  have hids : ((renumber slot 0 ids t).map BlockRow.id).Nodup := by
    rw [ids_renumber]
    exact h.ids
  refine ⟨?_, ?_, ?_⟩
  · rw [← mentions_eq]
    refine eq_of_pairwise_lt
      (f := fun a => (((lastMention (mentions t slot ids) a).getD 0 : Nat) : Int)) ?_ ?_ ?_ ?_
    · exact (nodup_slotIds hids).filter _
    · intro a
      rw [List.mem_filter, mem_slotIds_renumber, List.mem_dedup, mem_mentions,
        decide_eq_true_eq, and_comm]
    · refine ((pairwise_slotIds hids).filter _).imp_of_mem ?_
      intro a b ha hb hle
      obtain ⟨ha, halisted⟩ := List.mem_filter.mp ha
      obtain ⟨hb, hblisted⟩ := List.mem_filter.mp hb
      rw [mem_slotIds_renumber] at ha hb
      rw [posOf_renumber h.ids ha, if_pos ⟨rfl, of_decide_eq_true halisted⟩,
        posOf_renumber h.ids hb, if_pos ⟨rfl, of_decide_eq_true hblisted⟩] at hle
      exact hle
    · refine dedup_lastMention.imp ?_
      intro a b hlt
      exact Int.ofNat_lt.mpr hlt
  · refine eq_of_pairwise_lt (f := posOf t) ?_ ?_ ?_ ?_
    · exact (nodup_slotIds hids).filter _
    · intro a
      rw [List.mem_filter, List.mem_filter, mem_slotIds_renumber]
    · refine ((pairwise_slotIds hids).filter _).imp_of_mem ?_
      intro a b ha hb hle
      obtain ⟨ha, halisted⟩ := List.mem_filter.mp ha
      obtain ⟨hb, hblisted⟩ := List.mem_filter.mp hb
      rw [mem_slotIds_renumber] at ha hb
      rw [posOf_renumber h.ids ha, if_neg fun hl => of_decide_eq_true halisted hl.2,
        posOf_renumber h.ids hb, if_neg fun hl => of_decide_eq_true hblisted hl.2] at hle
      exact hle
    · exact h.pairwise_slotIds.filter _
  · intro slot' hne
    refine slotIds_eq hids ?_ ?_
    · intro a
      exact mem_slotIds_renumber
    · refine h.pairwise_slotIds.imp_of_mem ?_
      intro a b ha hb hlt
      rw [posOf_renumber h.ids ha, if_neg fun hl => hne hl.1, posOf_renumber h.ids hb,
        if_neg fun hl => hne hl.1]
      exact hlt

/-- A reorder keeps the positions of the slot distinct just when it is clear. -/
theorem placed_reorder_iff (h : Placed t) :
    Placed (reorder t slot ids).1 ↔ Clear t (.reorder slot ids) := by
  by_cases hslot : slot ∈ blockSlots
  · rw [reorder_of_mem hslot]
    have hids : ((renumber slot 0 ids t).map BlockRow.id).Nodup := by
      rw [ids_renumber]
      exact h.ids
    constructor
    · intro hplaced _ c hc hcslot hcids id hid i hi hpos
      have hmention := lastMention_isSome.mp (Option.isSome_iff_exists.mpr ⟨i, hi⟩)
      have hidslot := (mem_mentions.mp hmention).2
      have hcmem : c.id ∈ slotIds t slot := mem_slotIds.mpr ⟨c, hc, rfl, hcslot⟩
      refine hplaced.posOf_ne (mem_slotIds_renumber.mpr hidslot) (mem_slotIds_renumber.mpr hcmem)
        (fun heq => hcids (heq ▸ hid)) ?_
      rw [posOf_renumber h.ids hidslot, if_pos ⟨rfl, hid⟩, posOf_renumber h.ids hcmem,
        if_neg fun hl => hcids hl.2, posOf_of_mem h.ids hc, hpos, Option.mem_def.mp hi]
      rfl
    · intro hclear
      have hunlisted : ∀ a ∈ slotIds t slot, a ∉ ids → ∀ b ∈ slotIds t slot, b ∈ ids →
          posOf t a ≠ ((lastMention (mentions t slot ids) b).getD 0 : Nat) := by
        intro a ha haids b hb hbids heq
        obtain ⟨c, hc, rfl, hcslot⟩ := mem_slotIds.mp ha
        rw [posOf_of_mem h.ids hc] at heq
        obtain ⟨i, hi⟩ := Option.isSome_iff_exists.mp
          (lastMention_isSome.mpr (mem_mentions.mpr ⟨hbids, hb⟩))
        rw [hi] at heq
        exact hclear hslot c hc hcslot haids b hbids i hi heq
      refine .of_posOf hids ?_
      intro slot' a ha b hb heq
      rw [mem_slotIds_renumber] at ha hb
      rw [posOf_renumber h.ids ha, posOf_renumber h.ids hb] at heq
      by_cases hsame : slot' = slot
      · subst hsame
        by_cases haids : a ∈ ids
        · rw [if_pos ⟨rfl, haids⟩] at heq
          by_cases hbids : b ∈ ids
          · rw [if_pos ⟨rfl, hbids⟩] at heq
            obtain ⟨i, hi⟩ := Option.isSome_iff_exists.mp
              (lastMention_isSome.mpr (mem_mentions.mpr ⟨haids, ha⟩))
            obtain ⟨j, hj⟩ := Option.isSome_iff_exists.mp
              (lastMention_isSome.mpr (mem_mentions.mpr ⟨hbids, hb⟩))
            rw [hi, hj] at heq
            obtain rfl : i = j := Int.ofNat_inj.mp heq
            exact Option.some.inj ((getElem?_lastMention hi).symm.trans (getElem?_lastMention hj))
          · rw [if_neg fun hl => hbids hl.2] at heq
            exact absurd heq.symm (hunlisted b hb hbids a ha haids)
        · rw [if_neg fun hl => haids hl.2] at heq
          by_cases hbids : b ∈ ids
          · rw [if_pos ⟨rfl, hbids⟩] at heq
            exact absurd heq (hunlisted a ha haids b hb hbids)
          · rw [if_neg fun hl => hbids hl.2] at heq
            by_contra hne
            exact h.posOf_ne ha hb hne heq
      · rw [if_neg fun hl => hsame hl.1, if_neg fun hl => hsame hl.1] at heq
        by_contra hne
        exact h.posOf_ne ha hb hne heq
  · rw [reorder_of_notMem hslot]
    exact iff_of_true h fun hmem => absurd hmem hslot

end Reorder

/-! ## The other operations -/

section Operations

variable {t : List BlockRow} {slot id : Str} {input : BlockInput} {now : Int}

theorem position_lt_nextPosition {b : BlockRow} (hb : b ∈ t) (hslot : b.slot = slot) :
    b.position < nextPosition t slot := by
  have hmem : b.position ∈ (t.filter fun b => b.slot = slot).map BlockRow.position :=
    List.mem_map_of_mem (List.mem_filter.mpr ⟨hb, decide_eq_true hslot⟩)
  unfold nextPosition
  cases hmax : ((t.filter fun b => b.slot = slot).map BlockRow.position).max? with
  | none =>
    rw [List.max?_eq_none_iff.mp hmax] at hmem
    cases hmem
  | some p =>
    have hle := (List.max?_eq_some_iff.mp hmax).2 b.position hmem
    change b.position < p + 1
    omega

theorem Placed.insert (h : Placed t) (hid : id ∉ t.map BlockRow.id) :
    Placed (insert t input id now) := by
  unfold LandingBlocks.insert
  refine ⟨?_, ?_⟩
  · rw [List.map_append]
    refine List.nodup_append.mpr ⟨h.ids, by simp, ?_⟩
    rintro a ha b hb rfl
    rw [List.mem_singleton.mp hb] at ha
    exact hid ha
  · intro b hb c hc hslot hposition
    rcases List.mem_append.mp hb with hb | hb
    · rcases List.mem_append.mp hc with hc | hc
      · exact h.apart b hb c hc hslot hposition
      · rw [List.mem_singleton.mp hc] at hslot hposition
        dsimp only at hslot hposition
        have hlt := position_lt_nextPosition hb hslot
        omega
    · rw [List.mem_singleton.mp hb] at hslot hposition ⊢
      rcases List.mem_append.mp hc with hc | hc
      · dsimp only at hslot hposition
        have hlt := position_lt_nextPosition hc hslot.symm
        omega
      · rw [List.mem_singleton.mp hc]

theorem Placed.delete (h : Placed t) : Placed (delete t id) := by
  refine ⟨h.ids.sublist (List.filter_sublist.map _), ?_⟩
  intro b hb c hc
  exact h.apart b (List.mem_of_mem_filter hb) c (List.mem_of_mem_filter hc)

/-- An update keeps the position in the slot, or goes behind all of its new one. -/
theorem Placed.update (h : Placed t) : Placed (update t id input) := by
  unfold LandingBlocks.update
  split
  · exact h
  · next current hfind =>
    have hcurrent := List.mem_of_find?_eq_some hfind
    have hid : current.id = id := of_decide_eq_true (List.find?_some hfind :)
    dsimp only
    refine ⟨?_, ?_⟩
    · rw [ids_map]
      · exact h.ids
      · intro b
        split <;> rfl
    -- no other block is where the updated one goes
    have hfree : ∀ c ∈ t, c.id ≠ id → c.slot = input.slot →
        c.position ≠ if current.slot = input.slot then current.position
          else nextPosition t input.slot := by
      intro c hc hne hslot
      split
      · next hsame =>
        intro heq
        refine hne ?_
        rw [h.apart c hc current hcurrent (hslot.trans hsame.symm) heq, hid]
      · exact Int.ne_of_lt (position_lt_nextPosition hc hslot)
    intro b' hb' c' hc'
    obtain ⟨b, hb, rfl⟩ := List.mem_map.mp hb'
    obtain ⟨c, hc, rfl⟩ := List.mem_map.mp hc'
    by_cases hbid : b.id = id
    · by_cases hcid : c.id = id
      · simp [hbid, hcid]
      · rw [if_pos hbid, if_neg hcid]
        intro hslot hposition
        exact absurd hposition.symm (hfree c hc hcid hslot.symm)
    · by_cases hcid : c.id = id
      · rw [if_neg hbid, if_pos hcid]
        intro hslot hposition
        exact absurd hposition (hfree b hb hbid hslot)
      · rw [if_neg hbid, if_neg hcid]
        exact h.apart b hb c hc

theorem apart_importRows {ids : Nat → Str} {n : Nat} {next : Str → Int}
    {blocks : List LandingBlock} : (importRows ids now n next blocks).Pairwise fun b c =>
      b.slot = c.slot → b.position ≠ c.position := by
  induction blocks generalizing n next with
  | nil => exact .nil
  | cons block blocks ih =>
    refine List.pairwise_cons.mpr ⟨?_, ih⟩
    intro c hc hslot hposition
    have hle := next_le_position hc
    dsimp only at hslot hposition
    rw [← hslot, Function.update_self] at hle
    omega

theorem placed_replaceAll {blocks : List LandingBlock} {ids : Nat → Str}
    (hids : ((replaceAll blocks ids now).map BlockRow.id).Nodup) :
    Placed (replaceAll blocks ids now) := by
  refine ⟨hids, ?_⟩
  intro b hb c hc hslot hposition
  by_contra hne
  have hsymm : Std.Symm fun b c : BlockRow => b.slot = c.slot → b.position ≠ c.position :=
    ⟨fun _ _ h hslot heq => h hslot.symm heq.symm⟩
  exact apart_importRows.forall hb hc (fun heq => hne (by rw [heq])) hslot hposition

/-- **Step lemma.** -/
theorem Placed.step (h : Placed t) {e : Event} {t' : List BlockRow} (hok : Clear t e)
    (hstep : machine.step t e = some t') : Placed t' := by
  cases e with
  | insert input id now =>
    unfold machine at hstep
    dsimp only at hstep
    split at hstep
    · cases hstep
    · next hid =>
      cases hstep
      exact h.insert hid
  | update id input =>
    cases hstep
    exact h.update
  | delete id =>
    cases hstep
    exact h.delete
  | moveBlock id up =>
    cases hstep
    exact h.moveBlock
  | reorder slot ids =>
    cases hstep
    exact (placed_reorder_iff h).mpr hok
  | replaceAll blocks ids now =>
    unfold machine at hstep
    dsimp only at hstep
    split at hstep
    · next hids =>
      cases hstep
      exact placed_replaceAll hids
    · cases hstep

theorem not_placed_step (h : Placed t) {e : Event} {t' : List BlockRow} (hok : ¬ Clear t e)
    (hstep : machine.step t e = some t') : ¬ Placed t' := by
  cases e with
  | reorder slot ids =>
    cases hstep
    exact fun hplaced => hok ((placed_reorder_iff h).mp hplaced)
  | _ => exact absurd trivial hok

/-- **The order of the blocks.** From no block or a seeded one, the positions of a slot are
distinct in every state, and moves and reorders there do what they promise, just when every reorder
is clear. -/
theorem positions_distinct_iff {seed : Option BlockRow} {events : List Event}
    (hexec : machine.exec seed.toList events = some t) :
    (∀ events' t', events' <+: events → machine.exec seed.toList events' = some t' →
      Placed t' ∧ (∀ id up, Exchanges t' id up (moveBlock t' id up)) ∧
        ∀ slot ∈ blockSlots, ∀ ids, Reorders t' slot ids (reorder t' slot ids).1) ↔
      machine.Run Clear seed.toList events t := by
  have hseed : Placed seed.toList := by
    cases seed with
    | none => exact ⟨List.nodup_nil, nofun⟩
    | some b =>
      refine ⟨List.nodup_singleton _, ?_⟩
      intro c hc d hd _ _
      rw [List.mem_singleton.mp hc, List.mem_singleton.mp hd]
  refine forall_prefix_iff_run (I := Placed) hseed ?_ ?_ ?_ hexec
  · intro t h
    exact ⟨h, fun _ _ => exchanges_moveBlock h, fun _ hslot _ => reorders_reorder h hslot⟩
  · intro t e t' h hok hstep
    exact h.step hok hstep
  · intro t e t' h hok hstep hall
    exact not_placed_step h hok hstep hall.1

/-! ### A list that leaves blocks out -/

/-- A block with a text. -/
def topBlock (title : String) : BlockInput :=
  { slot := "top".toList, enabled := true, title := title.toList, html := [], cspOrigins := [] }

/-- Three blocks of one slot. -/
def threeBlocks : List Event :=
  [.insert (topBlock "a") "a".toList 0, .insert (topBlock "b") "b".toList 1,
    .insert (topBlock "c") "c".toList 2]

theorem positions_distinct_iff_all : ∃ t,
    machine.exec [] (threeBlocks ++ [.reorder "top".toList ["c".toList, "a".toList, "b".toList]]) =
      some t ∧ Placed t ∧ Exchanges t "a".toList true (moveBlock t "a".toList true) := by
  have hrun : machine.Run Clear (none : Option BlockRow).toList (threeBlocks ++
      [.reorder "top".toList ["c".toList, "a".toList, "b".toList]]) _ := run_execIf (by decide)
  have hexec := run_free_iff.mp (hrun.mono fun _ _ _ => trivial)
  have hall := (positions_distinct_iff hexec).mpr hrun _ _ List.prefix_rfl hexec
  exact ⟨_, hexec, hall.1, hall.2.1 _ _⟩

/-- The last block is put first alone, and stands where the first one does. -/
theorem partial_reorder_collides : ∃ t,
    machine.exec [] (threeBlocks ++ [.reorder "top".toList ["c".toList]]) = some t ∧
      t.map BlockRow.position = [0, 1, 0] ∧ ¬ Placed t ∧
      moveBlock t "a".toList true = t ∧ moveBlock t "c".toList true = t := by
  refine ⟨_, rfl, by decide, ?_, by decide, by decide⟩
  intro h
  have hids := h.apart _ List.mem_cons_self _ (.tail _ (.tail _ List.mem_cons_self)) rfl rfl
  exact absurd hids (by decide)

end Operations

end Ruscker.LandingBlocks
