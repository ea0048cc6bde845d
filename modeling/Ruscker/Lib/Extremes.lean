import Mathlib.Data.List.MinMax
import Mathlib.Order.Compare

/-!
# The best element of a list

A walk over a list keeps the best element it has met, and a later one takes its place when it beats
it.  Whether the first or the last of equals stays depends on whether equals beat each other.
-/

namespace Extremes

variable {α : Type*}

/-- What the walk ends with. -/
def pick (beats : α → α → Bool) : List α → Option α
  | [] => none
  | first :: rest =>
    some (rest.foldl (fun best next => if beats next best then next else best) first)

/-- Beating is transitive, and what beats an element beats whatever does not. -/
structure Ranks (beats : α → α → Bool) : Prop where
  trans : ∀ a b c, beats a b = true → beats b c = true → beats a c = true
  cotrans : ∀ a b c, beats a b = true → beats c b = false → beats a c = true

/-- An element that beats all before it and is beaten by none behind it. -/
def Leads (beats : α → α → Bool) (l : List α) (a : α) : Prop :=
  ∃ before behind, l = before ++ a :: behind ∧ (∀ b ∈ before, beats a b = true) ∧
    ∀ b ∈ behind, beats b a = false

section Pick

variable {beats beats' : α → α → Bool} {l : List α} {a b : α}

@[simp] theorem pick_eq_none : pick beats l = none ↔ l = [] := by
  cases l with
  | nil => simp [pick]
  | cons first rest => simp [pick]

theorem pick_append_singleton (h : pick beats l = some a) :
    pick beats (l ++ [b]) = some (if beats b a then b else a) := by
  cases l with
  | nil => cases h
  | cons first rest =>
    simp only [pick, Option.some.injEq] at h
    rw [List.cons_append, pick, List.foldl_append, h]
    rfl

theorem mem_of_pick (h : pick beats l = some a) : a ∈ l := by
  induction l using List.reverseRecOn generalizing a with
  | nil => cases h
  | append_singleton l b ih =>
    rw [List.mem_append, List.mem_singleton]
    cases hpick : pick beats l with
    | none =>
      rw [pick_eq_none.mp hpick] at h
      cases h
      exact .inr rfl
    | some best =>
      rw [pick_append_singleton hpick, Option.some.injEq] at h
      split at h
      · exact .inr h.symm
      · exact .inl (h ▸ ih hpick)

/-- Walks that compare alike end alike. -/
theorem pick_congr (h : l.Pairwise fun best next => beats next best = beats' next best) :
    pick beats l = pick beats' l := by
  induction l using List.reverseRecOn with
  | nil => rfl
  | append_singleton l b ih =>
    obtain ⟨hl, -, hb⟩ := List.pairwise_append.mp h
    cases hpick : pick beats' l with
    | none =>
      rw [pick_eq_none.mp hpick]
      rfl
    | some a =>
      rw [pick_append_singleton hpick, pick_append_singleton ((ih hl).trans hpick),
        hb a (mem_of_pick hpick) b (List.mem_singleton_self b)]

theorem Leads.mem (h : Leads beats l a) : a ∈ l := by
  obtain ⟨before, behind, rfl, -, -⟩ := h
  exact List.mem_append_right before List.mem_cons_self

/-- Only one element leads. -/
theorem Leads.unique (ha : Leads beats l a) (hb : Leads beats l b) : a = b := by
  obtain ⟨before, behind, rfl, hbefore, hbehind⟩ := ha
  obtain ⟨before', behind', heq, hbefore', hbehind'⟩ := hb
  rcases List.append_eq_append_iff.mp heq with ⟨front, rfl, hback⟩ | ⟨front, rfl, hback⟩
  · cases front with
    | nil =>
      rw [List.nil_append, List.cons.injEq] at hback
      exact hback.1
    | cons c front =>
      rw [List.cons_append, List.cons.injEq] at hback
      obtain ⟨rfl, rfl⟩ := hback
      have hbeats := hbefore' a (List.mem_append_right before List.mem_cons_self)
      rw [hbehind b (List.mem_append_right front List.mem_cons_self)] at hbeats
      cases hbeats
  · cases front with
    | nil =>
      rw [List.nil_append, List.cons.injEq] at hback
      exact hback.1.symm
    | cons c front =>
      rw [List.cons_append, List.cons.injEq] at hback
      obtain ⟨rfl, rfl⟩ := hback
      have hbeats := hbefore b (List.mem_append_right before' List.mem_cons_self)
      rw [hbehind' a (List.mem_append_right front List.mem_cons_self)] at hbeats
      cases hbeats

/-- An element with what lies around it, in a list and in what a filter leaves of it. -/
theorem exists_split_filter {p : α → Bool} {P Q : α → Prop} :
    (∃ before behind, l.filter p = before ++ a :: behind ∧ (∀ b ∈ before, P b) ∧
      ∀ b ∈ behind, Q b) ↔
    ∃ before behind, l = before ++ a :: behind ∧ p a = true ∧ (∀ b ∈ before, p b = true → P b) ∧
      ∀ b ∈ behind, p b = true → Q b := by
  constructor
  · rintro ⟨before, behind, heq, hbefore, hbehind⟩
    obtain ⟨l₁, l₂, rfl, rfl, hl₂⟩ := List.filter_eq_append_iff.mp heq
    obtain ⟨front, back, rfl, hfront, ha, rfl⟩ := List.filter_eq_cons_iff.mp hl₂
    refine ⟨l₁ ++ front, back, by simp, ha, ?_, ?_⟩
    · intro b hb hp
      rcases List.mem_append.mp hb with hb | hb
      · exact hbefore b (List.mem_filter.mpr ⟨hb, hp⟩)
      · exact absurd hp (hfront b hb)
    · intro b hb hp
      exact hbehind b (List.mem_filter.mpr ⟨hb, hp⟩)
  · rintro ⟨before, behind, rfl, ha, hbefore, hbehind⟩
    refine ⟨before.filter p, behind.filter p, ?_, ?_, ?_⟩
    · rw [List.filter_append, List.filter_cons_of_pos ha]
    · intro b hb
      exact hbefore b (List.mem_filter.mp hb).1 (List.mem_filter.mp hb).2
    · intro b hb
      exact hbehind b (List.mem_filter.mp hb).1 (List.mem_filter.mp hb).2

variable (hbeats : Ranks beats)
include hbeats

/-- What beats the leader leads the longer list, and otherwise the leader stays. -/
theorem Leads.append_singleton (h : Leads beats l a) (b : α) :
    Leads beats (l ++ [b]) (if beats b a then b else a) := by
  obtain ⟨before, behind, rfl, hbefore, hbehind⟩ := h
  split
  · next hba =>
    refine ⟨before ++ a :: behind, [], rfl, ?_, fun c hc => absurd hc List.not_mem_nil⟩
    intro c hc
    rcases List.mem_append.mp hc with hc | hc
    · exact hbeats.trans b a c hba (hbefore c hc)
    rcases List.mem_cons.mp hc with rfl | hc
    · exact hba
    · exact hbeats.cotrans b a c hba (hbehind c hc)
  · next hba =>
    refine ⟨before, behind ++ [b], by simp, hbefore, ?_⟩
    intro c hc
    rcases List.mem_append.mp hc with hc | hc
    · exact hbehind c hc
    · rw [List.mem_singleton.mp hc]
      exact Bool.eq_false_iff.mpr hba

theorem leads_of_pick (h : pick beats l = some a) : Leads beats l a := by
  induction l using List.reverseRecOn generalizing a with
  | nil => cases h
  | append_singleton l b ih =>
    cases hpick : pick beats l with
    | none =>
      rw [pick_eq_none.mp hpick] at h ⊢
      cases h
      exact ⟨[], [], rfl, by simp, by simp⟩
    | some best =>
      rw [pick_append_singleton hpick, Option.some.injEq] at h
      rw [← h]
      exact (ih hpick).append_singleton hbeats b

/-- **The walk.** It ends with the element that leads. -/
theorem pick_eq_some_iff : pick beats l = some a ↔ Leads beats l a := by
  constructor
  · exact leads_of_pick hbeats
  · intro h
    cases hpick : pick beats l with
    | none =>
      rw [pick_eq_none.mp hpick] at h
      exact absurd h.mem List.not_mem_nil
    | some best => rw [(leads_of_pick hbeats hpick).unique h]

end Pick

/-! ## Walks by a comparison -/

section Compare

variable (cmp : α → α → Ordering)

/-- `min_by`: a later element has to be less. -/
def minBy : List α → Option α := pick fun next best => (cmp best next).isGT

/-- `max_by`: a later element has to be no less. -/
def maxBy : List α → Option α := pick fun next best => (cmp best next).isLE

variable {cmp} [Std.TransCmp cmp]

theorem ranks_minBy : Ranks fun next best => (cmp best next).isGT where
  trans a b c hab hbc := by
    rw [Ordering.isGT_iff_eq_gt] at *
    exact Std.TransCmp.gt_trans hbc hab
  cotrans a b c hab hcb := by
    have hle : (cmp b c).isLE = true := by
      rw [← Ordering.not_isGT_eq_isLE, hcb]
      rfl
    rw [Ordering.isGT_iff_eq_gt] at *
    exact Std.TransCmp.gt_of_isGE_of_gt (Std.OrientedCmp.isGE_of_isLE hle) hab

theorem ranks_maxBy : Ranks fun next best => (cmp best next).isLE where
  trans _ _ _ hab hbc := Std.TransCmp.isLE_trans hbc hab
  cotrans a b c hab hcb := by
    have hlt : cmp c b = .lt := Std.OrientedCmp.lt_of_not_isLE (by rw [hcb]; decide)
    exact Ordering.isLE_of_eq_lt (Std.TransCmp.lt_of_lt_of_isLE hlt hab)

end Compare

/-! ## Walks by a key -/

section Key

variable {β : Type*} [LinearOrder β] (key : α → β)

def minByKey : List α → Option α := minBy (compareOn key)

def maxByKey : List α → Option α := maxBy (compareOn key)

variable {key} {l : List α} {a : α}

theorem compareOn_isGT {a b : α} : (compareOn key a b).isGT = decide (key b < key a) := by
  rw [Bool.eq_iff_iff, Ordering.isGT_iff_eq_gt, decide_eq_true_iff]
  exact compare_gt_iff_gt

theorem compareOn_isLE {a b : α} : (compareOn key a b).isLE = decide (key a ≤ key b) := by
  rw [← Ordering.not_isGT_eq_isLE, compareOn_isGT, ← decide_not]
  exact decide_eq_decide.mpr not_lt

/-- The first of the elements with the least key. -/
theorem minByKey_iff : minByKey key l = some a ↔
    ∃ before behind, l = before ++ a :: behind ∧ (∀ b ∈ before, key a < key b) ∧
      ∀ b ∈ behind, key a ≤ key b := by
  rw [minByKey, minBy, pick_eq_some_iff ranks_minBy, Leads]
  simp [compareOn_isGT]

/-- The last of the elements with the greatest key. -/
theorem maxByKey_iff : maxByKey key l = some a ↔
    ∃ before behind, l = before ++ a :: behind ∧ (∀ b ∈ before, key b ≤ key a) ∧
      ∀ b ∈ behind, key b < key a := by
  rw [maxByKey, maxBy, pick_eq_some_iff ranks_maxBy, Leads]
  simp [compareOn_isLE]

/-- Mathlib's walk. -/
theorem foldl_argAux_none (r : α → α → Prop) [DecidableRel r] (l : List α) :
    l.foldl (List.argAux r) none = pick (fun next best => decide (r next best)) l := by
  cases l with
  | nil => rfl
  | cons first rest =>
    simp only [List.foldl_cons, pick, decide_eq_true_eq]
    induction rest generalizing first with
    | nil => rfl
    | cons next rest ih =>
      rw [List.foldl_cons, List.foldl_cons, ← ih]
      congr 1
      exact apply_ite some (r next first) next first |>.symm

theorem argmin_eq_minByKey : l.argmin key = minByKey key l := by
  rw [List.argmin, foldl_argAux_none, minByKey, minBy]
  simp only [compareOn_isGT]

theorem ranks_argmax : Ranks fun next best => decide (key best < key next) where
  trans a b c hab hbc := by
    rw [decide_eq_true_eq] at *
    exact hbc.trans hab
  cotrans a b c hab hcb := by
    rw [decide_eq_true_eq] at *
    exact (not_lt.mp (of_decide_eq_false hcb)).trans_lt hab

/-- The first of the elements with the greatest key. -/
theorem argmax_iff : l.argmax key = some a ↔
    ∃ before behind, l = before ++ a :: behind ∧ (∀ b ∈ before, key b < key a) ∧
      ∀ b ∈ behind, key b ≤ key a := by
  rw [List.argmax, foldl_argAux_none, pick_eq_some_iff ranks_argmax, Leads]
  simp

/-- The last of the greatest is the first of them from behind. -/
theorem argmax_reverse_eq_maxByKey : l.reverse.argmax key = maxByKey key l := by
  ext a
  rw [maxByKey_iff, argmax_iff]
  constructor
  · rintro ⟨before, behind, heq, hbefore, hbehind⟩
    refine ⟨behind.reverse, before.reverse, ?_, by simpa using hbehind, by simpa using hbefore⟩
    rw [← List.reverse_reverse l, heq]
    simp
  · rintro ⟨before, behind, rfl, hbefore, hbehind⟩
    exact ⟨behind.reverse, before.reverse, by simp, by simpa using hbehind, by simpa using hbefore⟩

/-- The elements with the greatest key. -/
def greatest (key : α → β) (l : List α) : List α :=
  l.filter fun a => l.all fun b => decide (key b ≤ key a)

section Greatest

variable {before behind : List α}

/-- Elements with a smaller key than another one are left out. -/
theorem filter_greatest_eq_nil (ha : a ∈ l) (h : ∀ b ∈ before, key b < key a) :
    (before.filter fun a => l.all fun b => decide (key b ≤ key a)) = [] := by
  rw [List.filter_eq_nil_iff]
  intro b hb hall
  exact absurd (of_decide_eq_true (List.all_eq_true.mp hall a ha)) (not_le.mpr (h b hb))

theorem all_le_of_split (heq : l = before ++ a :: behind) (hbefore : ∀ b ∈ before, key b ≤ key a)
    (hbehind : ∀ b ∈ behind, key b ≤ key a) : (l.all fun b => decide (key b ≤ key a)) = true := by
  rw [List.all_eq_true]
  intro b hb
  rw [heq, List.mem_append, List.mem_cons] at hb
  rcases hb with hb | rfl | hb
  · exact decide_eq_true (hbefore b hb)
  · exact decide_eq_true le_rfl
  · exact decide_eq_true (hbehind b hb)

/-- The first of them. -/
theorem head?_greatest : (greatest key l).head? = l.argmax key := by
  cases hmax : l.argmax key with
  | none =>
    rw [List.argmax_eq_none.mp hmax]
    rfl
  | some a =>
    obtain ⟨before, behind, heq, hbefore, hbehind⟩ := argmax_iff.mp hmax
    have hall := all_le_of_split heq (fun b hb => (hbefore b hb).le) hbehind
    have hnil := filter_greatest_eq_nil (List.argmax_mem hmax) hbefore
    conv_lhs => rw [greatest, heq, List.filter_append, ← heq, hnil, List.nil_append]
    rw [List.filter_cons_of_pos (p := fun a => l.all fun b => decide (key b ≤ key a)) hall]
    rfl

/-- The last of them. -/
theorem getLast?_greatest : (greatest key l).getLast? = maxByKey key l := by
  cases hmax : maxByKey key l with
  | none =>
    rw [maxByKey, maxBy, pick_eq_none] at hmax
    rw [hmax]
    rfl
  | some a =>
    obtain ⟨before, behind, heq, hbefore, hbehind⟩ := maxByKey_iff.mp hmax
    have hall := all_le_of_split heq hbefore fun b hb => (hbehind b hb).le
    have hnil := filter_greatest_eq_nil (mem_of_pick hmax) hbehind
    conv_lhs => rw [greatest, heq, List.filter_append, ← heq]
    rw [List.filter_cons_of_pos (p := fun a => l.all fun b => decide (key b ≤ key a)) hall, hnil]
    exact List.getLast?_concat

end Greatest

end Key

end Extremes
