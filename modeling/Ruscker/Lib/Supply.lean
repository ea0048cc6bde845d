import Mathlib.Data.Finset.Card

/-!
# A supply of fresh names

Candidates are numbered and tried in turn, and the first one that is not taken yet is used.
Where no two candidates are equal, one more of them than there are taken names is enough.
-/

namespace Supply

variable {α : Type*} [DecidableEq α] (candidate : Nat → α)

/-- Try the candidates from the `i`-th one on; the counter bounds how many are skipped. -/
def search (used : List α) : Nat → Nat → α
  | 0, i => candidate i
  | skips + 1, i => if candidate i ∈ used then search used skips (i + 1) else candidate i

def fresh (used : List α) : α := search candidate used used.length 0

variable {candidate} {used : List α}

theorem mem_of_search_mem {skips i : Nat} (h : search candidate used skips i ∈ used) :
    ∀ j ≤ skips, candidate (i + j) ∈ used := by
  induction skips generalizing i with
  | zero =>
    intro j hj
    rw [Nat.le_zero.mp hj]
    exact h
  | succ skips ih =>
    by_cases hi : candidate i ∈ used
    · rw [search, if_pos hi] at h
      intro j hj
      cases j with
      | zero => exact hi
      | succ j =>
        have hnext := ih h j (by omega)
        rwa [Nat.add_right_comm] at hnext
    · rw [search, if_neg hi] at h
      exact absurd h hi

theorem exists_search_eq (skips i : Nat) : ∃ n, search candidate used skips i = candidate n := by
  induction skips generalizing i with
  | zero => exact ⟨i, rfl⟩
  | succ skips ih =>
    unfold search
    split
    · exact ih (i + 1)
    · exact ⟨i, rfl⟩

theorem exists_fresh_eq : ∃ n, fresh candidate used = candidate n := exists_search_eq _ 0

/-- The supply never hands out a taken name. -/
theorem fresh_notMem (hinj : Function.Injective candidate) : fresh candidate used ∉ used := by
  intro h
  have hall := mem_of_search_mem h
  have hsub : (Finset.range (used.length + 1)).image candidate ⊆ used.toFinset := by
    intro a ha
    obtain ⟨j, hj, rfl⟩ := Finset.mem_image.mp ha
    have hmem := hall j (Nat.lt_succ_iff.mp (Finset.mem_range.mp hj))
    rw [Nat.zero_add] at hmem
    exact List.mem_toFinset.mpr hmem
  have hcard := Finset.card_le_card hsub
  rw [Finset.card_image_of_injective _ hinj, Finset.card_range] at hcard
  have hlength := used.toFinset_card_le
  omega

end Supply
