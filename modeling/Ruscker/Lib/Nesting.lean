import Mathlib.Data.List.Basic

/-!
# Nested frames

Each token of a text opens a frame, closes the innermost one or puts another in its place.  In a
frame that is shut no frame can be opened.
-/

namespace Nesting

/-- What a token does to the open frames, the innermost first. -/
inductive Act (φ : Type*) where
  | push (g : Option φ)
  | turn (f : φ) (g : Option φ)
  deriving DecidableEq

variable {φ ψ : Type*}

def Act.map (k : φ → ψ) : Act φ → Act ψ
  | .push g => .push (g.map k)
  | .turn f g => .turn (k f) (g.map k)

/-- A token that opens a frame or closes it. -/
def Act.About (b : φ) (a : Act φ) : Prop := a = .push (some b) ∨ a = .turn b none

instance [DecidableEq φ] (b : φ) (a : Act φ) : Decidable (a.About b) :=
  inferInstanceAs (Decidable (_ ∨ _))

/-- The innermost frame is not shut. -/
def Open (shut : φ → Bool) (st : List φ) : Prop := st.head?.any shut = false

instance (shut : φ → Bool) (st : List φ) : Decidable (Open shut st) :=
  inferInstanceAs (Decidable (_ = false))

/-- Only the innermost frame can be shut. -/
def Sound (shut : φ → Bool) (st : List φ) : Prop := ∀ f ∈ st.tail, shut f = false

section Stack

variable {shut : φ → Bool} {st : List φ} {f : φ}

theorem Open.nil : Open shut ([] : List φ) := rfl

theorem open_cons : Open shut (f :: st) ↔ shut f = false := Iff.rfl

theorem open_append {pre base : List φ} (hne : pre ≠ []) :
    Open shut (pre ++ base) ↔ Open shut pre := by
  obtain ⟨f, pre, rfl⟩ := List.exists_cons_of_ne_nil hne
  exact Iff.rfl

theorem Sound.not_shut (hsound : Sound shut st) (hopen : Open shut st) :
    ∀ f ∈ st, shut f = false := by
  cases st with
  | nil => exact List.forall_mem_nil _
  | cons f st => exact List.forall_mem_cons.mpr ⟨open_cons.mp hopen, hsound⟩

theorem Sound.nil : Sound shut ([] : List φ) := List.forall_mem_nil _

end Stack

variable [DecidableEq φ]

def step (shut : φ → Bool) (st : List φ) : Act φ → Option (List φ)
  | .push g => if Open shut st then some (g.toList ++ st) else none
  | .turn f g => if st.head? = some f then some (g.toList ++ st.tail) else none

def run (shut : φ → Bool) (st : List φ) (acts : List (Act φ)) : Option (List φ) :=
  acts.foldlM (step shut) st

section Step

variable {shut : φ → Bool} {st st' : List φ} {a : Act φ} {f b : φ} {g : Option φ}

theorem step_push : step shut st (.push g) = some st' ↔ Open shut st ∧ st' = g.toList ++ st := by
  rw [step]
  split_ifs with h
  · simp [h, eq_comm]
  · simp [h]

theorem step_turn : step shut st (.turn f g) = some st' ↔
    ∃ base, st = f :: base ∧ st' = g.toList ++ base := by
  cases st with
  | nil => simp [step]
  | cons f' st =>
    by_cases h : f' = f
    · simp [step, h, eq_comm]
    · simp [step, h]

theorem Sound.step (hsound : Sound shut st) (h : step shut st a = some st') : Sound shut st' := by
  cases a with
  | push g =>
    obtain ⟨hopen, rfl⟩ := step_push.mp h
    cases g with
    | none => exact hsound
    | some g => exact hsound.not_shut hopen
  | turn f g =>
    obtain ⟨base, rfl, rfl⟩ := step_turn.mp h
    cases g with
    | none => exact fun f hf => hsound f (List.mem_of_mem_tail hf)
    | some g => exact hsound

/-- What lies below some open frames is not touched. -/
theorem step_append {pre base : List φ} (hne : pre ≠ []) :
    step shut (pre ++ base) a = (step shut pre a).map (· ++ base) := by
  obtain ⟨f, pre, rfl⟩ := List.exists_cons_of_ne_nil hne
  cases a with
  | push g =>
    by_cases hopen : Open shut (f :: pre)
    · rw [step, step, if_pos hopen, if_pos ((open_append hne).mpr hopen), Option.map_some,
        List.append_assoc]
    · rw [step, step, if_neg hopen, if_neg (mt (open_append hne).mp hopen), Option.map_none]
  | turn f' g =>
    by_cases hf : f = f'
    · simp [step, hf]
    · simp [step, hf]

theorem step_frame {pre pre' base : List φ} (h : step shut pre a = some pre')
    (hbase : Open shut base) : step shut (pre ++ base) a = some (pre' ++ base) := by
  by_cases hne : pre = []
  · subst hne
    cases a with
    | push g =>
      obtain ⟨-, rfl⟩ := step_push.mp h
      refine step_push.mpr ⟨hbase, ?_⟩
      rw [List.append_nil, List.nil_append]
    | turn f g =>
      obtain ⟨_, hnil, -⟩ := step_turn.mp h
      cases hnil
  · rw [step_append hne, h, Option.map_some]

theorem step_unframe {pre base v : List φ} (ha : ∀ g, a ≠ .turn b g)
    (h : step shut (pre ++ b :: base) a = some v) :
    ∃ pre', v = pre' ++ b :: base ∧ step shut pre a = some pre' := by
  by_cases hne : pre = []
  · subst hne
    cases a with
    | push g =>
      obtain ⟨-, rfl⟩ := step_push.mp h
      exact ⟨g.toList, rfl, step_push.mpr ⟨Open.nil, (List.append_nil _).symm⟩⟩
    | turn f g =>
      obtain ⟨base', heq, -⟩ := step_turn.mp h
      rw [List.nil_append] at heq
      cases heq
      exact absurd rfl (ha g)
  · rw [step_append hne] at h
    obtain ⟨pre', hpre, rfl⟩ := Option.map_eq_some_iff.mp h
    exact ⟨pre', rfl, hpre⟩

/-- A token that has nothing to do with a frame does the same without it. -/
theorem step_filter (hsound : Sound shut st) (h : step shut st a = some st')
    (habout : ¬ a.About b) (hturn : ∀ g, a ≠ .turn b (some g))
    (hto : ∀ f, a ≠ .turn f (some b)) :
    step shut (st.filter (· ≠ b)) a = some (st'.filter (· ≠ b)) := by
  cases a with
  | push g =>
    obtain ⟨hopen, rfl⟩ := step_push.mp h
    have hopen' : Open shut (st.filter (· ≠ b)) := by
      cases hst : st.filter (· ≠ b) with
      | nil => exact Open.nil
      | cons f l =>
        have hmem : f ∈ st.filter (· ≠ b) := hst ▸ List.mem_cons_self
        exact open_cons.mpr (hsound.not_shut hopen f (List.mem_of_mem_filter hmem))
    refine step_push.mpr ⟨hopen', ?_⟩
    cases g with
    | none => rfl
    | some g =>
      have hg : g ≠ b := fun heq => habout (.inl (by rw [heq]))
      simp [hg]
  | turn f g =>
    obtain ⟨base, rfl, rfl⟩ := step_turn.mp h
    have hf : f ≠ b := by
      rintro rfl
      cases g with
      | none => exact habout (.inr rfl)
      | some g => exact hturn g rfl
    refine step_turn.mpr ⟨base.filter (· ≠ b), by simp [hf], ?_⟩
    cases g with
    | none => rfl
    | some g =>
      have hg : g ≠ b := fun heq => hto f (by rw [heq])
      simp [hg]

theorem step_map [DecidableEq ψ] {shut' : ψ → Bool} {k : φ → ψ} (hk : ∀ f, shut' (k f) = shut f)
    (h : step shut st a = some st') : step shut' (st.map k) (a.map k) = some (st'.map k) := by
  cases a with
  | push g =>
    obtain ⟨hopen, rfl⟩ := step_push.mp h
    refine step_push.mpr ⟨?_, ?_⟩
    · cases st with
      | nil => exact Open.nil
      | cons f st => exact open_cons.mpr ((hk f).trans (open_cons.mp hopen))
    · cases g <;> rfl
  | turn f g =>
    obtain ⟨base, rfl, rfl⟩ := step_turn.mp h
    refine step_turn.mpr ⟨base.map k, rfl, ?_⟩
    cases g <;> rfl

end Step

section Run

variable {shut : φ → Bool} {st st' : List φ} {a : Act φ} {acts acts' : List (Act φ)} {b : φ}

@[simp] theorem run_nil : run shut st [] = some st := rfl

theorem run_cons : run shut st (a :: acts) = some st' ↔
    ∃ st₁, step shut st a = some st₁ ∧ run shut st₁ acts = some st' := by
  rw [run, List.foldlM_cons]
  exact Option.bind_eq_some_iff

theorem run_append : run shut st (acts ++ acts') = some st' ↔
    ∃ st₁, run shut st acts = some st₁ ∧ run shut st₁ acts' = some st' := by
  rw [run, List.foldlM_append]
  exact Option.bind_eq_some_iff

theorem Sound.run (hsound : Sound shut st) (h : run shut st acts = some st') : Sound shut st' := by
  induction acts generalizing st with
  | nil =>
    cases h
    exact hsound
  | cons a acts ih =>
    obtain ⟨st₁, hstep, hrun⟩ := run_cons.mp h
    exact ih (hsound.step hstep) hrun

/-- **Frame.** A run on some frames is a run above any others. -/
theorem run_frame {pre pre' base : List φ} (h : run shut pre acts = some pre')
    (hbase : Open shut base) : run shut (pre ++ base) acts = some (pre' ++ base) := by
  induction acts generalizing pre with
  | nil =>
    cases h
    rfl
  | cons a acts ih =>
    obtain ⟨pre₁, hstep, hrun⟩ := run_cons.mp h
    exact run_cons.mpr ⟨_, step_frame hstep hbase, ih hrun⟩

/-- A run that never closes a frame goes on above it. -/
theorem run_unframe {pre base v : List φ} (hacts : ∀ g, .turn b g ∉ acts)
    (h : run shut (pre ++ b :: base) acts = some v) :
    ∃ pre', v = pre' ++ b :: base ∧ run shut pre acts = some pre' := by
  induction acts generalizing pre with
  | nil =>
    cases h
    exact ⟨pre, rfl, rfl⟩
  | cons a acts ih =>
    obtain ⟨v₁, hstep, hrun⟩ := run_cons.mp h
    have ha : ∀ g, a ≠ .turn b g := fun g heq => hacts g (heq ▸ List.mem_cons_self)
    obtain ⟨pre₁, rfl, hstep'⟩ := step_unframe ha hstep
    obtain ⟨pre', hv, hrun'⟩ := ih (fun g hg => hacts g (List.mem_cons_of_mem _ hg)) hrun
    exact ⟨pre', hv, run_cons.mpr ⟨pre₁, hstep', hrun'⟩⟩

/-- A frame that is never opened is on no stack. -/
theorem not_mem_of_run (hpush : .push (some b) ∉ acts) (hto : ∀ f, .turn f (some b) ∉ acts)
    (h : run shut st acts = some st') (hb : b ∉ st) : b ∉ st' := by
  induction acts generalizing st with
  | nil =>
    cases h
    exact hb
  | cons a acts ih =>
    obtain ⟨st₁, hstep, hrun⟩ := run_cons.mp h
    refine ih (fun hmem => hpush (List.mem_cons_of_mem _ hmem))
      (fun f hmem => hto f (List.mem_cons_of_mem _ hmem)) hrun ?_
    cases a with
    | push g =>
      obtain ⟨-, rfl⟩ := step_push.mp hstep
      intro hmem
      rcases List.mem_append.mp hmem with hmem | hmem
      · rw [Option.mem_toList] at hmem
        exact hpush (hmem ▸ List.mem_cons_self)
      · exact hb hmem
    | turn f g =>
      obtain ⟨base, rfl, rfl⟩ := step_turn.mp hstep
      intro hmem
      rcases List.mem_append.mp hmem with hmem | hmem
      · rw [Option.mem_toList] at hmem
        exact hto f (hmem ▸ List.mem_cons_self)
      · exact hb (List.mem_cons_of_mem _ hmem)

/-- **Erasure.** Without the tokens that open and close a frame, a run goes on without it. -/
theorem run_filter (hsound : Sound shut st) (h : run shut st acts = some st')
    (hturn : ∀ g, .turn b (some g) ∉ acts) (hto : ∀ f, .turn f (some b) ∉ acts) :
    run shut (st.filter (· ≠ b)) (acts.filter fun a => ¬ a.About b) =
      some (st'.filter (· ≠ b)) := by
  induction acts generalizing st with
  | nil =>
    cases h
    rfl
  | cons a acts ih =>
    obtain ⟨st₁, hstep, hrun⟩ := run_cons.mp h
    have hrest := ih (hsound.step hstep) hrun (fun g hg => hturn g (List.mem_cons_of_mem _ hg))
      (fun f hf => hto f (List.mem_cons_of_mem _ hf))
    by_cases habout : a.About b
    · rw [List.filter_cons_of_neg (by simpa using habout)]
      rcases habout with rfl | rfl
      · obtain ⟨-, rfl⟩ := step_push.mp hstep
        simpa using hrest
      · obtain ⟨base, rfl, rfl⟩ := step_turn.mp hstep
        simpa using hrest
    · rw [List.filter_cons_of_pos (by simpa using habout)]
      refine run_cons.mpr ⟨_, step_filter hsound hstep habout ?_ ?_, hrest⟩
      · rintro g rfl
        exact hturn g List.mem_cons_self
      · rintro f rfl
        exact hto f List.mem_cons_self

end Run

end Nesting
