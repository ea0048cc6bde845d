import Mathlib.Algebra.GroupWithZero.Nat
import Mathlib.Data.List.Basic
import Mathlib.Data.List.Perm.Basic
import Mathlib.Logic.Function.Basic

/-!
# Labelled step machines and guarded runs

A machine is an executable step function that may refuse an event.  A run is a
finite sequence of accepted events, and every event of a *guarded* run also meets
a side condition on the state it fires in.  The condition is what a conditional
safety theorem assumes about a schedule, so the induction rule hands it to the
preservation proof of each step.
-/

namespace Machines

/-- A state machine whose step function refuses an event by returning `none`. -/
structure Machine (σ ε : Type*) where
  step : σ → ε → Option σ

namespace Machine

variable {σ ε : Type*} (M : Machine σ ε)

/-- Execute a list of events from left to right, stopping at the first refusal. -/
def exec : σ → List ε → Option σ
  | s, [] => some s
  | s, e :: es => (M.step s e).bind fun s' => exec s' es

/-- A finite run whose every event meets `ok` in the state it fires in. -/
inductive Run (ok : σ → ε → Prop) : σ → List ε → σ → Prop
  | nil (s : σ) : Run ok s [] s
  | cons {s s' t : σ} {e : ε} {es : List ε} :
      ok s e → M.step s e = some s' → Run ok s' es t → Run ok s (e :: es) t

/-- The side condition that asks nothing: its runs are all the runs. -/
def Free : σ → ε → Prop := fun _ _ => True

variable {M}

namespace Run

variable {ok ok' : σ → ε → Prop} {s t : σ} {es : List ε}

/-- A guarded run meets every condition its guard implies. -/
theorem mono (himp : ∀ s e, ok s e → ok' s e) (h : M.Run ok s es t) :
    M.Run ok' s es t := by
  induction h with
  | nil s => exact .nil s
  | cons hok hstep _ ih => exact .cons (himp _ _ hok) hstep ih

/-- **The invariant rule.** What holds at the start and is preserved by every
guarded step holds at the end of every guarded run. -/
theorem invariant {I : σ → Prop} (h : M.Run ok s es t) (hs : I s)
    (hstep : ∀ s e s', I s → ok s e → M.step s e = some s' → I s') : I t := by
  induction h with
  | nil _ => exact hs
  | cons hok hst _ ih => exact ih (hstep _ _ _ hs hok hst)

/-- **The simulation rule.** A run stays in step with what is folded along its events. -/
theorem simulates {α : Type*} {R : σ → α → Prop} {f : α → ε → α} {a : α} (h : M.Run ok s es t)
    (hs : R s a) (hstep : ∀ s e s' a, R s a → ok s e → M.step s e = some s' → R s' (f a e)) :
    R t (es.foldl f a) := by
  induction h generalizing a with
  | nil _ => exact hs
  | cons hok hst _ ih => exact ih (hstep _ _ _ _ hs hok hst)

theorem cons_iff {s' : σ} {e : ε} (hstep : M.step s e = some s') :
    M.Run ok s (e :: es) t ↔ ok s e ∧ M.Run ok s' es t := by
  constructor
  · intro h
    cases h with
    | cons hok hstep' hrest =>
      cases hstep.symm.trans hstep'
      exact ⟨hok, hrest⟩
  · rintro ⟨hok, hrest⟩
    exact .cons hok hstep hrest

end Run

/-- Execution that also checks the side condition in front of every event. -/
def execIf (M : Machine σ ε) (ok : σ → ε → Prop) [∀ s e, Decidable (ok s e)] :
    σ → List ε → Option σ
  | s, [] => some s
  | s, e :: es =>
    if ok s e then (M.step s e).bind fun s' => execIf M ok s' es else none

theorem run_of_execIf {ok : σ → ε → Prop} [∀ s e, Decidable (ok s e)] {s t : σ}
    {es : List ε} (h : M.execIf ok s es = some t) : M.Run ok s es t := by
  induction es generalizing s with
  | nil =>
    cases h
    exact .nil _
  | cons e es ih =>
    unfold execIf at h
    split at h
    · next hok =>
      obtain ⟨s', hstep, hrest⟩ := Option.bind_eq_some_iff.mp h
      exact .cons hok hstep (ih hrest)
    · cases h

/-- A successful checked execution is a guarded run to the state it computes. -/
theorem run_execIf {ok : σ → ε → Prop} [∀ s e, Decidable (ok s e)] {s : σ} {es : List ε}
    (h : (M.execIf ok s es).isSome = true) : M.Run ok s es ((M.execIf ok s es).get h) :=
  run_of_execIf (Option.some_get h).symm

theorem exec_append (s : σ) (es es' : List ε) :
    M.exec s (es ++ es') = (M.exec s es).bind fun t => M.exec t es' := by
  induction es generalizing s with
  | nil => rfl
  | cons e es ih =>
    rw [List.cons_append, exec, exec, Option.bind_assoc]
    exact congrArg _ (funext fun t => ih t)

/-- Execution and unguarded runs agree. -/
theorem run_free_iff {s t : σ} {es : List ε} :
    M.Run Free s es t ↔ M.exec s es = some t := by
  constructor
  · intro h
    induction h with
    | nil _ => rfl
    | cons _ hstep _ ih => simp [exec, hstep, ih]
  · intro h
    induction es generalizing s with
    | nil =>
      cases h
      exact .nil _
    | cons e es ih =>
      obtain ⟨s', hstep, hrest⟩ := Option.bind_eq_some_iff.mp h
      exact .cons trivial hstep (ih hrest)

/-- Events that meet the condition in every state make a guarded run. -/
theorem run_of_exec {ok : σ → ε → Prop} {s t : σ} {es : List ε} (h : M.exec s es = some t)
    (hok : ∀ s, ∀ e ∈ es, ok s e) : M.Run ok s es t := by
  have hfree : M.Run Free s es t := run_free_iff.mpr h
  induction hfree with
  | nil s => exact .nil s
  | cons _ hstep hrest ih =>
    refine .cons (hok _ _ List.mem_cons_self) hstep (ih (run_free_iff.mp hrest) ?_)
    exact fun s e he => hok s e (List.mem_cons_of_mem _ he)

/-- Where an invariant implies the condition, every run is guarded. -/
theorem run_of_exec_invariant {ok : σ → ε → Prop} {I : σ → Prop} {s t : σ} {es : List ε}
    (h : M.exec s es = some t) (hs : I s) (hok : ∀ s e, I s → ok s e)
    (hstep : ∀ s e s', I s → M.step s e = some s' → I s') : M.Run ok s es t := by
  have hfree : M.Run Free s es t := run_free_iff.mpr h
  induction hfree with
  | nil s => exact .nil s
  | cons _ hst hrest ih =>
    exact .cons (hok _ _ hs) hst (ih (run_free_iff.mp hrest) (hstep _ _ _ hs hst))

/-- **The exactness rule.** Where a step keeps the invariant if it meets the condition and
breaks the property if it does not, the property holds in every state of a run just when every
event of the run meets the condition. -/
theorem forall_prefix_iff_run {ok : σ → ε → Prop} {I P : σ → Prop} {s t : σ} {es : List ε}
    (hs : I s) (hI : ∀ s, I s → P s)
    (hkeep : ∀ s e s', I s → ok s e → M.step s e = some s' → I s')
    (hbreak : ∀ s e s', I s → ¬ ok s e → M.step s e = some s' → ¬ P s')
    (hexec : M.exec s es = some t) :
    (∀ es' s', es' <+: es → M.exec s es' = some s' → P s') ↔ M.Run ok s es t := by
  induction es generalizing s with
  | nil =>
    cases hexec
    refine ⟨fun _ => .nil _, fun _ es' s' hes' hs' => ?_⟩
    obtain rfl := List.prefix_nil.mp hes'
    cases hs'
    exact hI _ hs
  | cons e es ih =>
    obtain ⟨s₁, hstep, hrest⟩ := Option.bind_eq_some_iff.mp hexec
    rw [Run.cons_iff hstep]
    constructor
    · intro hall
      have hok : ok s e := by
        by_contra hnot
        refine hbreak s e s₁ hs hnot hstep (hall [e] s₁ ?_ ?_)
        · exact (List.prefix_append [e] es)
        · rw [exec, hstep]
          rfl
      refine ⟨hok, (ih (hkeep s e s₁ hs hok hstep) hrest).mp fun es' s' hes' hs' => ?_⟩
      refine hall (e :: es') s' (List.cons_prefix_cons.mpr ⟨rfl, hes'⟩) ?_
      rw [exec, hstep]
      exact hs'
    · rintro ⟨hok, hrun⟩ es' s' hes' hs'
      have hall := (ih (hkeep s e s₁ hs hok hstep) hrest).mpr hrun
      rcases List.prefix_cons_iff.mp hes' with rfl | ⟨es₁, rfl, hprefix⟩
      · cases hs'
        exact hI _ hs
      · rw [exec, hstep] at hs'
        exact hall es₁ s' hprefix hs'

end Machine

/-! ## Pools of threads

A pool is the list of its threads' phases, and a thread's move replaces one entry. -/

section Pool

variable {α : Type*} {pool : List α} {i : Nat} {a b c : α}

/-- What holds of every thread and of the phase moved to holds after the move. -/
theorem forall_mem_set {P : α → Prop} (h : ∀ a ∈ pool, P a) (hb : P b) :
    ∀ a ∈ pool.set i b, P a := by
  intro a ha
  rcases List.mem_or_eq_of_mem_set ha with hold | rfl
  · exact h a hold
  · exact hb

theorem forall_mem_concat {P : α → Prop} (h : ∀ a ∈ pool, P a) (hb : P b) :
    ∀ a ∈ pool ++ [b], P a := by
  intro a ha
  rcases List.mem_append.mp ha with hold | hnew
  · exact h a hold
  · rw [List.mem_singleton.mp hnew]
    exact hb

/-- Another thread stays when one leaves. -/
theorem mem_eraseIdx_of_ne (hi : pool[i]? = some a) (hc : c ∈ pool) (hne : c ≠ a) :
    c ∈ pool.eraseIdx i := by
  obtain ⟨j, hj⟩ := List.mem_iff_getElem?.mp hc
  refine List.mem_eraseIdx_iff_getElem?.mpr ⟨j, ?_, hj⟩
  rintro rfl
  exact hne (Option.some.inj (hj.symm.trans hi))

theorem mem_set_of_mem_eraseIdx (hc : c ∈ pool.eraseIdx i) : c ∈ pool.set i b := by
  obtain ⟨j, hne, hj⟩ := List.mem_eraseIdx_iff_getElem?.mp hc
  exact List.mem_iff_getElem?.mpr ⟨j, by rw [List.getElem?_set_ne (Ne.symm hne), hj]⟩

/-- A move only loses the phase it leaves. -/
theorem mem_set_of_ne (hi : pool[i]? = some a) (hc : c ∈ pool) (hne : c ≠ a) :
    c ∈ pool.set i b :=
  mem_set_of_mem_eraseIdx (mem_eraseIdx_of_ne hi hc hne)

/-- After a move a slot holds the phase moved to, or what it held. -/
theorem getElem?_set_cases {j : Nat} (hj : (pool.set i b)[j]? = some c) :
    (j = i ∧ c = b) ∨ (j ≠ i ∧ pool[j]? = some c) := by
  by_cases hij : i = j
  · subst hij
    have hlt : i < pool.length := by simpa using (List.getElem?_eq_some_iff.mp hj).1
    rw [List.getElem?_set_self hlt] at hj
    exact .inl ⟨rfl, (Option.some.inj hj).symm⟩
  · rw [List.getElem?_set_ne hij] at hj
    exact .inr ⟨Ne.symm hij, hj⟩

theorem getElem?_concat_cases {j : Nat} (hj : (pool ++ [b])[j]? = some c) :
    c = b ∨ pool[j]? = some c := by
  by_cases hlt : j < pool.length
  · rw [List.getElem?_append_left hlt] at hj
    exact .inr hj
  · rw [List.getElem?_append_right (Nat.le_of_not_lt hlt)] at hj
    have hmem := List.mem_of_getElem? hj
    exact .inl (List.mem_singleton.mp hmem)

theorem mem_eraseIdx_of_mem_set (hc : c ∈ pool.set i b) : c ∈ pool.eraseIdx i ∨ c = b := by
  obtain ⟨j, hj⟩ := List.mem_iff_getElem?.mp hc
  rcases getElem?_set_cases hj with ⟨-, heq⟩ | ⟨hne, hold⟩
  · exact .inr heq
  · exact .inl (List.mem_eraseIdx_iff_getElem?.mpr ⟨j, hne, hold⟩)

/-- A move takes at most one unit from a count and adds at most one. -/
theorem countP_set_add {p : α → Bool} (hi : pool[i]? = some a) :
    (pool.set i b).countP p + (if p a then 1 else 0) = pool.countP p + (if p b then 1 else 0) := by
  obtain ⟨hlt, rfl⟩ := List.getElem?_eq_some_iff.mp hi
  have hle : (if p pool[i] then 1 else 0) ≤ pool.countP p := List.boole_getElem_le_countP hlt
  rw [List.countP_set hlt]
  omega

/-- A move takes its own share from a sum and adds that of the phase moved to. -/
theorem sum_set_add {w : α → Nat} (hi : pool[i]? = some a) :
    ((pool.set i b).map w).sum + w a = (pool.map w).sum + w b := by
  induction pool generalizing i with
  | nil => cases hi
  | cons c pool ih =>
    cases i with
    | zero =>
      cases hi
      simp only [List.set_cons_zero, List.map_cons, List.sum_cons]
      omega
    | succ i =>
      have hrest := ih hi
      simp only [List.set_cons_succ, List.map_cons, List.sum_cons]
      omega

/-- A thread that leaves takes its unit from a count. -/
theorem countP_eraseIdx_add {p : α → Bool} (hi : pool[i]? = some a) :
    (pool.eraseIdx i).countP p + (if p a then 1 else 0) = pool.countP p := by
  obtain ⟨hlt, rfl⟩ := List.getElem?_eq_some_iff.mp hi
  rw [← (List.getElem_cons_eraseIdx_perm hlt).countP_eq p, List.countP_cons]

end Pool

end Machines
