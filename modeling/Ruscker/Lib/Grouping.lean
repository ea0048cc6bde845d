import Mathlib.Algebra.GroupWithZero.Nat
import Mathlib.Algebra.BigOperators.Group.List.Basic
import Mathlib.Data.List.Nodup
import Ruscker.Lib.SortedMap

/-!
# Grouping a list by a key

A list falls into one group for each key, in its own order within a group.  Where the keys are
all there, each once, the groups together are the list, and so are the groups that are not
empty.
-/

namespace Grouping

variable {α κ : Type*} [DecidableEq κ] (key : α → κ)

/-- The elements of a key, in their order. -/
def group (l : List α) (k : κ) : List α := l.filter fun a => key a = k

/-- The keys in the order they are first seen. -/
def firstSeen (l : List α) : List κ := (l.map key).eraseDups

/-- The keys that have an element. -/
def occupied (l : List α) (ks : List κ) : List κ := ks.filter fun k => !(group key l k).isEmpty

variable {key} {l : List α} {ks : List κ} {k : κ} {a : α}

theorem group_sublist : (group key l k).Sublist l := List.filter_sublist

@[simp] theorem mem_group : a ∈ group key l k ↔ a ∈ l ∧ key a = k := by simp [group]

theorem group_eq_nil_iff : group key l k = [] ↔ ∀ a ∈ l, key a ≠ k := by
  simp [group, List.filter_eq_nil_iff]

theorem mem_firstSeen : k ∈ firstSeen key l ↔ ∃ a ∈ l, key a = k := by
  rw [firstSeen, List.mem_eraseDups, List.mem_map]

theorem nodup_firstSeen : (firstSeen key l).Nodup := by
  rw [firstSeen]
  generalize l.map key = ks
  induction hn : ks.length using Nat.strongRecOn generalizing ks with
  | _ n ih =>
    subst hn
    cases ks with
    | nil => exact List.nodup_nil
    | cons k ks =>
      rw [List.eraseDups_cons, List.nodup_cons]
      refine ⟨fun hmem => ?_, ih _ ?_ _ rfl⟩
      · have hne := (List.mem_filter.mp (List.mem_eraseDups.mp hmem)).2
        simp at hne
      · have hle := List.length_filter_le (fun b => !b == k) ks
        rw [List.length_cons]
        omega

theorem group_ne_nil_of_occupied (h : k ∈ occupied key l ks) : group key l k ≠ [] := by
  have hfull := (List.mem_filter.mp h).2
  intro hnil
  simp [hnil] at hfull

/-- The groups of some keys are the elements that have one of these. -/
theorem flatMap_group_perm_filter (h : ks.Nodup) :
    (ks.flatMap (group key l)).Perm (l.filter fun a => key a ∈ ks) := by
  induction ks with
  | nil => simp
  | cons k ks ih =>
    obtain ⟨hk, hks⟩ := List.nodup_cons.mp h
    have hboth := List.filter_append_perm (fun a => key a = k) (l.filter fun a => key a ∈ k :: ks)
    have hhead : (l.filter fun a => key a ∈ k :: ks).filter (fun a => key a = k) =
        group key l k := by
      rw [List.filter_filter, group]
      refine List.filter_congr fun a _ => ?_
      by_cases ha : key a = k <;> simp [ha]
    have hrest : (l.filter fun a => key a ∈ k :: ks).filter (fun a => !decide (key a = k)) =
        l.filter fun a => key a ∈ ks := by
      rw [List.filter_filter]
      refine List.filter_congr fun a _ => ?_
      by_cases ha : key a = k
      · simp [ha, hk]
      · simp [ha]
    rw [hhead, hrest] at hboth
    rw [List.flatMap_cons]
    exact ((ih hks).append_left _).trans hboth

/-- **The groups are the list** where every key is there. -/
theorem flatMap_group_perm (h : ks.Nodup) (hall : ∀ a ∈ l, key a ∈ ks) :
    (ks.flatMap (group key l)).Perm l := by
  have hperm := @flatMap_group_perm_filter _ _ _ key l ks h
  rwa [List.filter_eq_self.mpr fun a ha => decide_eq_true (hall a ha)] at hperm

theorem flatMap_group_occupied :
    (occupied key l ks).flatMap (group key l) = ks.flatMap (group key l) := by
  induction ks with
  | nil => rfl
  | cons k ks ih =>
    have hcons : occupied key l (k :: ks) =
        if group key l k = [] then occupied key l ks else k :: occupied key l ks := by
      cases hgroup : group key l k <;> simp [occupied, hgroup]
    rw [hcons, List.flatMap_cons]
    split
    · next hnil => rw [ih, hnil, List.nil_append]
    · rw [List.flatMap_cons, ih]

/-- What the groups add up to is what the list does. -/
theorem sum_group (h : ks.Nodup) (hall : ∀ a ∈ l, key a ∈ ks) (w : α → Nat) :
    (ks.map fun k => ((group key l k).map w).sum).sum = (l.map w).sum := by
  have hperm := ((flatMap_group_perm h hall).map w).sum_eq
  rw [← hperm, List.map_flatMap, List.flatMap, List.sum_flatten, List.map_map]
  rfl

theorem sum_length_group (h : ks.Nodup) (hall : ∀ a ∈ l, key a ∈ ks) :
    (ks.map fun k => (group key l k).length).sum = l.length := by
  rw [← (flatMap_group_perm h hall).length_eq, List.length_flatMap]

/-- Where the keys are distinct, an element is found under its key. -/
theorem find?_key_eq_some_iff (h : (l.map key).Nodup) :
    l.find? (fun a => key a = k) = some a ↔ a ∈ l ∧ key a = k := by
  constructor
  · intro hfound
    exact ⟨List.mem_of_find?_eq_some hfound, by simpa using List.find?_some hfound⟩
  · rintro ⟨ha, hkey⟩
    cases hfound : l.find? (fun a => key a = k) with
    | none => exact absurd hkey (by simpa using List.find?_eq_none.mp hfound a ha)
    | some b =>
      have hkey' : key b = k := by simpa using List.find?_some hfound
      rw [List.inj_on_of_nodup_map h (List.mem_of_find?_eq_some hfound) ha (hkey'.trans hkey.symm)]

/-! ## Adding up by a key -/

section Tally

variable {α κ : Type*} [LinearOrder κ] (key : α → κ) (weight : α → Nat) (modulus : Nat)

/-- What the elements of each key weigh together, in a counter that wraps around. -/
def tally (l : List α) : SortedMap κ Nat :=
  l.foldl (fun m a => m.insert (key a) (((m.lookup (key a)).getD 0 + weight a) % modulus)) .empty

theorem tally_concat (l : List α) (a : α) : tally key weight modulus (l ++ [a]) =
    (tally key weight modulus l).insert (key a)
      ((((tally key weight modulus l).lookup (key a)).getD 0 + weight a) % modulus) := by
  simp [tally]

/-- A key has an entry when it has an element, and the entry is what its elements weigh. -/
theorem lookup_tally [DecidableEq κ] (l : List α) (k : κ) :
    (tally key weight modulus l).lookup k =
      if group key l k = [] then none else some (((group key l k).map weight).sum % modulus) := by
  induction l using List.reverseRecOn with
  | nil => rfl
  | append_singleton l a ih =>
    have hgroup : group key (l ++ [a]) k =
        if key a = k then group key l k ++ [a] else group key l k := by
      by_cases hk : key a = k <;> simp [group, hk]
    rw [tally_concat, SortedMap.lookup_insert, hgroup]
    by_cases hk : key a = k
    · subst hk
      rw [if_pos rfl, if_pos rfl, if_neg (List.append_ne_nil_of_right_ne_nil _ (by simp)), ih]
      split
      · next hnil => simp [hnil]
      · simp [Nat.add_mod]
    · rw [if_neg (Ne.symm hk), if_neg hk, ih]

theorem mem_tally [DecidableEq κ] {l : List α} {k : κ} {n : Nat} :
    (k, n) ∈ (tally key weight modulus l).entries ↔
      (∃ a ∈ l, key a = k) ∧ n = ((group key l k).map weight).sum % modulus := by
  rw [SortedMap.mem_entries_iff, lookup_tally]
  split
  · next hnil =>
    have hnone := group_eq_nil_iff.mp hnil
    simp only [reduceCtorEq, false_iff, not_and]
    rintro ⟨a, ha, hk⟩
    exact absurd hk (hnone a ha)
  · next hne =>
    obtain ⟨a, ha⟩ := List.exists_mem_of_ne_nil _ hne
    obtain ⟨hmem, hk⟩ := mem_group.mp ha
    rw [Option.some.injEq, eq_comm]
    exact ⟨fun h => ⟨⟨a, hmem, hk⟩, h⟩, fun h => h.2⟩

end Tally

end Grouping
