import Mathlib.Algebra.BigOperators.Group.List.Basic
import Mathlib.Algebra.GroupWithZero.Nat
import Ruscker.Lib.Table

/-!
# Tallies

A tally keeps an amount for each of its keys, and nothing for all others.  Amounts are added under
one key or as a list; what a list owes to a key does not depend on its order.
-/

namespace Tallies

open Tables

variable {κ : Type*} [DecidableEq κ]

abbrev Tally (κ : Type*) := Table κ Nat

def amount (t : Tally κ) (k : κ) : Nat := (t.lookup k).getD 0

def add (t : Tally κ) (k : κ) (n : Nat) : Tally κ := t.upsert k (amount t k + n)

def addAll (t : Tally κ) (l : List (κ × Nat)) : Tally κ := l.foldl (fun t e => add t e.1 e.2) t

/-- The amounts of a tally as a list. -/
def parts (t : Tally κ) : List (κ × Nat) := t.entries.map fun e => (e.1, e.2)

/-- What a list has for a key. -/
def owed (l : List (κ × Nat)) (k : κ) : Nat := (l.map fun e => if e.1 = k then e.2 else 0).sum

variable {t : Tally κ} {k k' : κ} {n : Nat} {l l' : List (κ × Nat)}

@[simp] theorem amount_empty : amount (∅ : Tally κ) k = 0 := rfl

@[simp] theorem owed_nil : owed [] k = 0 := rfl

theorem owed_cons {e : κ × Nat} : owed (e :: l) k = (if e.1 = k then e.2 else 0) + owed l k :=
  List.sum_cons

theorem owed_perm (h : l.Perm l') : owed l k = owed l' k := (h.map _).sum_eq

theorem amount_add : amount (add t k n) k' = amount t k' + if k = k' then n else 0 := by
  rw [amount, add, Table.lookup_upsert]
  by_cases hk : k' = k
  · rw [if_pos hk, if_pos hk.symm, hk]
    rfl
  · rw [if_neg hk, if_neg (Ne.symm hk)]
    rfl

theorem amount_addAll : amount (addAll t l) k = amount t k + owed l k := by
  induction l generalizing t with
  | nil => rfl
  | cons e l ih =>
    have hrest : amount (addAll t (e :: l)) k = amount (add t e.1 e.2) k + owed l k := ih
    rw [hrest, amount_add, owed_cons, Nat.add_assoc]

/-- A tally owes what it has. -/
theorem owed_parts : owed (parts t) k = amount t k := by
  have hlist : ∀ l : List (Sigma fun _ : κ => Nat), l.NodupKeys →
      owed (l.map fun e => (e.1, e.2)) k = (l.dlookup k).getD 0 := by
    intro l hl
    induction l with
    | nil => rfl
    | cons e l ih =>
      obtain ⟨k', n⟩ := e
      obtain ⟨hnot, hrest⟩ := List.nodupKeys_cons.mp hl
      rw [List.map_cons, owed_cons, ih hrest]
      by_cases hk : k' = k
      · subst hk
        rw [if_pos rfl, List.dlookup_cons_eq, List.dlookup_eq_none.mpr hnot]
        rfl
      · rw [if_neg hk, List.dlookup_cons_ne _ _ (Ne.symm hk), Nat.zero_add]
  exact hlist t.entries t.nodupKeys

/-! ## How many keys a tally has -/

section Size

/-- The keys of a list that a tally does not have. -/
def fresh (t : Tally κ) (l : List (κ × Nat)) : Nat := l.countP fun e => (t.lookup e.1).isNone

omit [DecidableEq κ] in
theorem keys_parts_nodup (t : Tally κ) : ((parts t).map Prod.fst).Nodup := by
  rw [parts, List.map_map]
  exact t.nodupKeys

theorem lookup_add : (add t k n).lookup k' = if k' = k then some (amount t k + n) else t.lookup k' :=
  Table.lookup_upsert t k k' (amount t k + n)

/-- A new key takes one more place, and a known one none. -/
theorem length_add : (add t k n).entries.length =
    t.entries.length + if (t.lookup k).isNone then 1 else 0 := by
  rw [add, Table.upsert]
  cases hk : t.lookup k with
  | some m => simp [Table.update, Table.mapRows]
  | none =>
    have hnot : k ∉ t := AList.lookup_eq_none.mp hk
    rw [if_neg (by simp), AList.entries_insert_of_notMem hnot]
    simp

theorem length_addAll (hl : (l.map Prod.fst).Nodup) :
    (addAll t l).entries.length = t.entries.length + fresh t l := by
  induction l generalizing t with
  | nil => rfl
  | cons e l ih =>
    obtain ⟨hnot, hrest⟩ := List.nodup_cons.mp hl
    have hsame : fresh (add t e.1 e.2) l = fresh t l := by
      refine List.countP_congr fun e' he' => ?_
      have hne : e'.1 ≠ e.1 := fun heq => hnot (heq ▸ List.mem_map_of_mem he')
      rw [lookup_add, if_neg hne]
    have hcons : (addAll t (e :: l)).entries.length =
        (addAll (add t e.1 e.2) l).entries.length := rfl
    rw [hcons, ih hrest, hsame, length_add, fresh, fresh, List.countP_cons]
    omega

end Size

end Tallies
