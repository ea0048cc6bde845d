import Mathlib.Data.List.Infix
import Mathlib.Data.List.Basic

/-!
# Numbered logs and framed streams

The entries of a log are numbered from zero.  A bounded store keeps the last of them with
their numbers, so a reader that asks from a number on gets the rest of the log, less what is
gone.  A stream is cut into frames behind its terminators, however it arrives.
-/

namespace Journal

variable {α : Type*}

/-! ## Numbered logs -/

def numbered (log : List α) : List (Nat × α) := log.zipIdx.map Prod.swap

/-- What a store of `cap` entries holds. -/
def retained (cap : Nat) (log : List α) : List (Nat × α) :=
  (numbered log).drop (log.length - cap)

@[simp] theorem length_numbered (log : List α) : (numbered log).length = log.length := by
  simp [numbered]

@[simp] theorem map_snd_numbered (log : List α) : (numbered log).map Prod.snd = log := by
  simp only [numbered, List.map_map]
  exact List.zipIdx_map_fst 0 log

theorem numbered_concat (log : List α) (a : α) :
    numbered (log ++ [a]) = numbered log ++ [(log.length, a)] := by
  simp [numbered, List.zipIdx_append]

@[simp] theorem map_snd_retained (cap : Nat) (log : List α) :
    (retained cap log).map Prod.snd = log.drop (log.length - cap) := by
  rw [retained, List.map_drop, map_snd_numbered]

@[simp] theorem length_retained (cap : Nat) (log : List α) :
    (retained cap log).length = min log.length cap := by
  rw [retained, List.length_drop, length_numbered]
  omega

/-- A new entry pushes out the oldest one of a full store. -/
theorem retained_concat (cap : Nat) (log : List α) (a : α) :
    (retained cap log ++ [(log.length, a)]).drop
        ((retained cap log ++ [(log.length, a)]).length - cap) =
      retained cap (log ++ [a]) := by
  have hkept : retained cap log ++ [(log.length, a)] =
      (numbered (log ++ [a])).drop (log.length - cap) := by
    rw [numbered_concat, List.drop_append_of_le_length, retained]
    rw [length_numbered]
    omega
  rw [hkept, List.drop_drop, retained, List.length_drop, length_numbered, List.length_append,
    List.length_singleton]
  congr 1
  omega

theorem filter_numbered (after : Nat) (log : List α) :
    (numbered log).filter (fun e => after ≤ e.1) = (numbered log).drop after := by
  induction log using List.reverseRecOn with
  | nil => simp [numbered]
  | append_singleton log a ih =>
    rw [numbered_concat, List.filter_append, ih]
    by_cases h : after ≤ log.length
    · rw [List.drop_append_of_le_length (by simpa using h)]
      simp [h]
    · have hlong : log.length + 1 ≤ after := by omega
      rw [List.drop_eq_nil_of_le (by simp; omega), List.drop_eq_nil_of_le (by simpa using hlong)]
      simp [h]

/-- A store answers with what is both asked for and kept. -/
theorem since_retained (cap after : Nat) (log : List α) :
    ((retained cap log).filter fun e => after ≤ e.1).map Prod.snd =
      log.drop (max after (log.length - cap)) := by
  have hboth : (retained cap log).filter (fun e => after ≤ e.1) =
      (numbered log).filter fun e => max after (log.length - cap) ≤ e.1 := by
    rw [retained, ← filter_numbered, List.filter_filter]
    congr 1
    funext e
    rw [← Bool.decide_and, decide_eq_decide, Nat.max_le]
  rw [hboth, filter_numbered, List.map_drop, map_snd_numbered]

/-- The first entries of a list in order of rank are those that fewer entries come before. -/
theorem mem_take_iff {rank : α → Nat} {l : List α} (h : l.Pairwise fun a b => rank b < rank a)
    {n : Nat} {a : α} :
    a ∈ l.take n ↔ a ∈ l ∧ l.countP (fun b => rank a < rank b) < n := by
  induction l generalizing n with
  | nil => simp
  | cons b l ih =>
    obtain ⟨hb, hl⟩ := List.pairwise_cons.mp h
    cases n with
    | zero => simp
    | succ n =>
      rw [List.take_succ_cons, List.mem_cons, List.mem_cons, ih hl, List.countP_cons]
      constructor
      · rintro (rfl | ⟨ha, hcount⟩)
        · have hnone : l.countP (fun b => rank a < rank b) = 0 := by
            refine List.countP_eq_zero.mpr fun c hc => ?_
            have hlt := hb c hc
            simp only [decide_eq_true_eq]
            omega
          simp [hnone]
        · refine ⟨.inr ha, ?_⟩
          split <;> omega
      · rintro ⟨rfl | ha, hcount⟩
        · exact .inl rfl
        · have hlt := hb a ha
          rw [if_pos (decide_eq_true hlt)] at hcount
          exact .inr ⟨ha, by omega⟩

/-! ## Framed streams -/

section Frames

variable (stop : α → Bool)

/-- The frames of a stream, each with its terminator, and what is left without one. -/
def frames : List α → List (List α) × List α
  | [] => ([], [])
  | a :: l =>
    if stop a then ([a] :: (frames l).1, (frames l).2)
    else match frames l with
      | ([], rest) => ([], a :: rest)
      | (frame :: more, rest) => ((a :: frame) :: more, rest)

@[simp] theorem frames_nil : frames stop [] = ([], []) := rfl

theorem frames_of_forall {l : List α} (h : ∀ a ∈ l, stop a = false) : frames stop l = ([], l) := by
  induction l with
  | nil => rfl
  | cons a l ih =>
    rw [frames, h a List.mem_cons_self, ih fun b hb => h b (List.mem_cons_of_mem a hb)]
    rfl

theorem frames_append_stop {l : List α} (h : ∀ a ∈ l, stop a = false) {a : α} (ha : stop a = true)
    (m : List α) :
    frames stop (l ++ a :: m) = ((l ++ [a]) :: (frames stop m).1, (frames stop m).2) := by
  induction l with
  | nil => simp [frames, ha]
  | cons b l ih =>
    rw [List.cons_append, frames, h b List.mem_cons_self,
      ih fun c hc => h c (List.mem_cons_of_mem b hc)]
    rfl

/-- A stream has no terminator, or it is one frame and a shorter stream. -/
@[elab_as_elim] theorem framesInduction {motive : List α → Prop}
    (rest : ∀ l, (∀ a ∈ l, stop a = false) → motive l)
    (frame : ∀ l a m, (∀ b ∈ l, stop b = false) → stop a = true → motive m →
      motive (l ++ a :: m)) (l : List α) : motive l := by
  induction hn : l.length using Nat.strong_induction_on generalizing l with
  | _ n ih =>
    subst hn
    cases hfind : l.findIdx? stop with
    | none => exact rest l fun a ha => by simpa using List.findIdx?_eq_none_iff.mp hfind a ha
    | some i =>
      obtain ⟨hi, hstop, hbefore⟩ := List.findIdx?_eq_some_iff_getElem.mp hfind
      have hsplit : l = l.take i ++ l[i] :: l.drop (i + 1) := by simp
      have hlen : (l.drop (i + 1)).length < l.length := by
        rw [List.length_drop]
        omega
      have htail : motive (l.drop (i + 1)) := ih _ hlen _ rfl
      rw [hsplit]
      refine frame _ _ _ (fun b hb => ?_) hstop htail
      obtain ⟨j, hj, rfl⟩ := List.mem_take_iff_getElem.mp hb
      simpa using hbefore j (by omega)

/-- What is left of a stream holds no terminator. -/
theorem stop_of_mem_rest (l : List α) : ∀ a ∈ (frames stop l).2, stop a = false := by
  induction l using framesInduction stop with
  | rest l hl => rwa [frames_of_forall stop hl]
  | frame l a m hl ha ih => rwa [frames_append_stop stop hl ha]

/-- **Chunks do not matter**: a stream that arrives in two parts is cut as if it came at once. -/
theorem frames_append (l m : List α) :
    frames stop (l ++ m) =
      ((frames stop l).1 ++ (frames stop ((frames stop l).2 ++ m)).1,
        (frames stop ((frames stop l).2 ++ m)).2) := by
  induction l using framesInduction stop with
  | rest l hl => simp [frames_of_forall stop hl]
  | frame l a k hl ha ih =>
    rw [List.append_assoc, List.cons_append, frames_append_stop stop hl ha,
      frames_append_stop stop hl ha, ih]
    rfl

end Frames

end Journal
