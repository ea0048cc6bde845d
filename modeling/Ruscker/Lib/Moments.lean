import Mathlib.Data.List.Basic

/-!
# The moments of a component

A component that other parties watch over a lossy wire is judged by what held at some
moment of an interval, not by what holds when the answer arrives.  A timeline keeps every
state the component went through; a property is *seen* in an interval when one of the
states of the interval has it.  What was seen once stays seen.
-/

namespace Moments

variable {α : Type*}

/-- The states a component went through, the present one last. -/
structure Timeline (α : Type*) where
  past : List α
  now : α

namespace Timeline

def start (a : α) : Timeline α := ⟨[], a⟩

def clock (t : Timeline α) : Nat := t.past.length

def moments (t : Timeline α) : List α := t.past ++ [t.now]

def advance (t : Timeline α) (a : α) : Timeline α := ⟨t.moments, a⟩

/-- Some moment from `began` to `ended` satisfies `p`. -/
def SeenIn (t : Timeline α) (p : α → Prop) (began ended : Nat) : Prop :=
  ∃ k a, began ≤ k ∧ k ≤ ended ∧ t.moments[k]? = some a ∧ p a

/-- Some moment from `began` on satisfies `p`. -/
def SeenSince (t : Timeline α) (p : α → Prop) (began : Nat) : Prop := t.SeenIn p began t.clock

variable {t : Timeline α} {p q : α → Prop} {a b : α} {k began ended : Nat}

@[simp] theorem clock_advance : (t.advance a).clock = t.clock + 1 := by
  simp [clock, advance, moments]

@[simp] theorem now_advance : (t.advance a).now = a := rfl

theorem moments_advance : (t.advance a).moments = t.moments ++ [a] := rfl

theorem getElem?_clock : t.moments[t.clock]? = some t.now := by simp [moments, clock]

/-- The past does not change. -/
theorem getElem?_advance (h : t.moments[k]? = some a) : (t.advance b).moments[k]? = some a := by
  obtain ⟨hk, -⟩ := List.getElem?_eq_some_iff.mp h
  rw [moments_advance, List.getElem?_append_left hk]
  exact h

namespace SeenIn

theorem widen {began' ended' : Nat} (h : t.SeenIn p began ended) (hb : began' ≤ began)
    (he : ended ≤ ended') : t.SeenIn p began' ended' := by
  obtain ⟨k, a, hkb, hke, hk, hp⟩ := h
  exact ⟨k, a, Nat.le_trans hb hkb, Nat.le_trans hke he, hk, hp⟩

/-- What was seen stays seen. -/
theorem advance (h : t.SeenIn p began ended) : (t.advance b).SeenIn p began ended := by
  obtain ⟨k, a, hb, he, hk, hp⟩ := h
  exact ⟨k, a, hb, he, getElem?_advance hk, hp⟩

end SeenIn

namespace SeenSince

theorem now (hp : p t.now) (hb : began ≤ t.clock) : t.SeenSince p began :=
  ⟨t.clock, t.now, hb, Nat.le_refl _, getElem?_clock, hp⟩

theorem advance (h : t.SeenSince p began) : (t.advance b).SeenSince p began := by
  refine (SeenIn.advance h).widen (Nat.le_refl _) ?_
  rw [clock_advance]
  exact Nat.le_succ _

theorem since {began' : Nat} (h : t.SeenSince p began) (hb : began' ≤ began) :
    t.SeenSince p began' :=
  h.widen hb (Nat.le_refl _)

end SeenSince

end Timeline

end Moments
