import Mathlib.Data.List.TakeWhile

/-!
# Counting events in sliding time windows

A sliding-window limiter keeps the times of recent events in a queue and drops the
expired ones from its front.  Two counts describe such a list of times: the events
from a given moment on, and the events of one closed window.
-/

namespace Windows

/-- Drop the expired times at the front of a queue. -/
def prune (length now : Nat) (times : List Nat) : List Nat :=
  times.dropWhile fun t => length < now - t

/-- The number of events from `start` on. -/
def since (start : Nat) (times : List Nat) : Nat :=
  times.countP fun t => start ≤ t

/-- The number of events in the closed window of `length` that opens at `start`. -/
def within (length start : Nat) (times : List Nat) : Nat :=
  times.countP fun t => start ≤ t && t ≤ start + length

variable {length now start t : Nat} {times : List Nat}

theorem length_prune_le : (prune length now times).length ≤ times.length :=
  (List.dropWhile_sublist _).length_le

/-- Pruning removes nothing of a window that has not closed yet. -/
theorem since_prune (h : now ≤ start + length) :
    since start (prune length now times) = since start times := by
  induction times with
  | nil => rfl
  | cons t times ih =>
    unfold prune at ih ⊢
    rw [List.dropWhile_cons]
    split
    · next hold =>
      have hold' : length < now - t := by simpa using hold
      have hbefore : ¬ start ≤ t := by omega
      rw [ih, since, since, List.countP_cons_of_neg (by simpa using hbefore)]
    · rfl

/-- What has expired stays so. -/
theorem prune_prune {earlier : Nat} (h : earlier ≤ now) :
    prune length now (prune length earlier times) = prune length now times := by
  induction times with
  | nil => rfl
  | cons t times ih =>
    unfold prune at ih ⊢
    by_cases hold : length < earlier - t
    · have hold' : length < now - t := by omega
      rw [List.dropWhile_cons_of_pos (by simpa using hold),
        List.dropWhile_cons_of_pos (by simpa using hold')]
      exact ih
    · rw [List.dropWhile_cons_of_neg (by simpa using hold)]

theorem prune_concat : prune length now (times ++ [now]) = prune length now times ++ [now] := by
  induction times with
  | nil =>
    exact List.dropWhile_cons_of_neg (by simp)
  | cons t times ih =>
    unfold prune at ih ⊢
    rw [List.cons_append, List.dropWhile_cons, List.dropWhile_cons]
    split
    · exact ih
    · rfl

theorem prune_suffix : prune length now times <:+ times := List.dropWhile_suffix _

/-- Where the times ascend, exactly the expired ones are pruned. -/
theorem length_prune (h : times.Pairwise (· ≤ ·)) :
    (prune length now times).length = times.countP fun t => now - t ≤ length := by
  induction times with
  | nil => rfl
  | cons t times ih =>
    obtain ⟨hfirst, hrest⟩ := List.pairwise_cons.mp h
    unfold prune at ih ⊢
    by_cases hold : length < now - t
    · have hnot : ¬ now - t ≤ length := by omega
      rw [List.dropWhile_cons_of_pos (by simpa using hold),
        List.countP_cons_of_neg (by simpa using hnot)]
      exact ih hrest
    · rw [List.dropWhile_cons_of_neg (by simpa using hold)]
      refine (List.countP_eq_length.mpr fun t' ht' => ?_).symm
      have hle : t ≤ t' := by
        rcases List.mem_cons.mp ht' with rfl | hmem
        · exact Nat.le_refl _
        · exact hfirst t' hmem
      simp only [decide_eq_true_eq]
      omega

/-- A queue whose newest time has expired is pruned to nothing. -/
theorem prune_eq_nil (h : times.Pairwise (· ≤ ·)) (hlast : ∀ t ∈ times.getLast?, length < now - t) :
    prune length now times = [] := by
  refine List.dropWhile_eq_nil_iff.mpr fun t ht => ?_
  -- the newest time is the greatest
  obtain rfl | ⟨front, newest, rfl⟩ := List.eq_nil_or_concat times
  · cases ht
  · rw [List.concat_eq_append] at h hlast ht
    have hexpired := hlast newest List.getLast?_concat
    have hle : t ≤ newest := by
      rcases List.mem_append.mp ht with hmem | hmem
      · exact (List.pairwise_append.mp h).2.2 t hmem newest List.mem_cons_self
      · exact Nat.le_of_eq (List.mem_singleton.mp hmem)
    simp only [decide_eq_true_eq]
    omega

theorem since_le_length : since start times ≤ times.length := List.countP_le_length

theorem within_le_since : within length start times ≤ since start times := by
  refine List.countP_mono_left fun t _ ht => ?_
  simp only [Bool.and_eq_true, decide_eq_true_eq] at ht ⊢
  exact ht.1

@[simp] theorem since_append_singleton :
    since start (times ++ [t]) = since start times + if start ≤ t then 1 else 0 := by
  simp [since, List.countP_append, List.countP_cons]

@[simp] theorem within_append_singleton :
    within length start (times ++ [t]) =
      within length start times + if start ≤ t ∧ t ≤ start + length then 1 else 0 := by
  simp [within, List.countP_append, List.countP_cons]

theorem since_eq_zero (h : ∀ t ∈ times, t < start) : since start times = 0 := by
  refine List.countP_eq_zero.mpr fun t ht => ?_
  have hlt := h t ht
  simp only [decide_eq_true_eq]
  omega

end Windows
