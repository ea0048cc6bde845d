import Mathlib.Logic.Function.Basic
import Mathlib.Order.Basic

/-!
# Hysteresis with a cooldown

A controller looks at its load once a round.  It fires after `grace` hot rounds in a row; a release
holds it back, and no round is hot for the next `cooldown` ones.  A ledger has the controller's two
counters beside what the rounds have seen.
-/

namespace Hysteresis

/-- What a round has seen and done. -/
structure Seen where
  hot : Bool
  fired : Bool
  released : Bool
  deriving DecidableEq

def Seen.blank : Seen := ⟨false, false, false⟩

structure Ledger where
  /-- the rounds that are over -/
  next : Nat
  streak : Nat
  cool : Nat
  seen : Nat → Seen

namespace Ledger

variable (L : Ledger)

/-- The next round looks at the load. -/
def look (hot fired : Bool) : Ledger where
  next := L.next + 1
  streak := if hot && !fired then L.streak + 1 else 0
  cool := L.cool - 1
  seen := Function.update L.seen L.next ⟨hot, fired, false⟩

/-- The last round releases something. -/
def release (cooldown : Nat) : Ledger :=
  { L with
    cool := if 0 < cooldown then cooldown else L.cool
    seen := Function.update L.seen (L.next - 1) { L.seen (L.next - 1) with released := true } }

/-- A round passes without a look. -/
def skip : Ledger := { L with next := L.next + 1 }

end Ledger

/-- Releases and later firings are apart, and every firing has had its grace. -/
structure Spaced (grace cooldown : Nat) (seen : Nat → Seen) : Prop where
  apart : ∀ i j, (seen i).released = true → (seen j).fired = true → i < j →
    i + cooldown + grace ≤ j
  grace : ∀ j, (seen j).fired = true →
    grace ≤ j + 1 ∧ ∀ k < grace, (seen (j - k)).hot = true

/-- The counters account for what the rounds have seen. -/
structure Sound (grace cooldown : Nat) (L : Ledger) : Prop where
  blank : ∀ i, L.next ≤ i → L.seen i = .blank
  since : ∀ i, (L.seen i).released = true → i + cooldown + L.streak + 1 ≤ L.next + L.cool
  recent : ∀ k < L.streak, k < L.next ∧ (L.seen (L.next - 1 - k)).hot = true
  spaced : Spaced grace cooldown L.seen

namespace Sound

variable {grace cooldown : Nat} {L : Ledger}

theorem released_lt (h : Sound grace cooldown L) {i : Nat} (hi : (L.seen i).released = true) :
    i < L.next := by
  by_contra hnot
  rw [h.blank i (Nat.le_of_not_lt hnot)] at hi
  cases hi

theorem fired_lt (h : Sound grace cooldown L) {j : Nat} (hj : (L.seen j).fired = true) :
    j < L.next := by
  by_contra hnot
  rw [h.blank j (Nat.le_of_not_lt hnot)] at hj
  cases hj

/-- What an earlier round has seen stays. -/
theorem seen_look_of_lt {hot fired : Bool} {i : Nat} (hi : i < L.next) :
    (L.look hot fired).seen i = L.seen i := Function.update_of_ne (Nat.ne_of_lt hi) _ _

theorem seen_look_next {hot fired : Bool} :
    (L.look hot fired).seen L.next = ⟨hot, fired, false⟩ := Function.update_self _ _ _

theorem released_of_look (h : Sound grace cooldown L) {hot fired : Bool} {i : Nat}
    (hi : ((L.look hot fired).seen i).released = true) :
    i < L.next ∧ (L.seen i).released = true := by
  by_cases heq : i = L.next
  · subst heq
    rw [seen_look_next] at hi
    cases hi
  · have hold : (L.look hot fired).seen i = L.seen i := Function.update_of_ne heq _ _
    rw [hold] at hi
    exact ⟨h.released_lt hi, hi⟩

theorem fired_of_look (h : Sound grace cooldown L) {hot fired : Bool} {j : Nat}
    (hj : ((L.look hot fired).seen j).fired = true) :
    (j = L.next ∧ fired = true) ∨ (j < L.next ∧ (L.seen j).fired = true) := by
  by_cases heq : j = L.next
  · subst heq
    rw [seen_look_next] at hj
    exact .inl ⟨rfl, hj⟩
  · have hold : (L.look hot fired).seen j = L.seen j := Function.update_of_ne heq _ _
    rw [hold] at hj
    exact .inr ⟨h.fired_lt hj, hj⟩

/-- The rounds of the streak and a hot one behind them. -/
theorem hot_look (h : Sound grace cooldown L) {fired : Bool} :
    ∀ k < L.streak + 1, k < L.next + 1 ∧ ((L.look true fired).seen (L.next - k)).hot = true := by
  intro k hk
  cases k with
  | zero =>
    rw [Nat.sub_zero, seen_look_next]
    exact ⟨Nat.succ_pos _, rfl⟩
  | succ k =>
    obtain ⟨hlt, hhot⟩ := h.recent k (Nat.lt_of_succ_lt_succ hk)
    have hindex : L.next - (k + 1) = L.next - 1 - k := by omega
    rw [hindex, seen_look_of_lt (by omega)]
    exact ⟨Nat.succ_lt_succ hlt, hhot⟩

/-- **Step lemma.** A round is hot outside the cooldown only, and fires at the end of its grace. -/
theorem look (h : Sound grace cooldown L) (hot fired : Bool) (hhot : hot = true → L.cool = 0)
    (hfired : fired = true → hot = true ∧ grace ≤ L.streak + 1) :
    Sound grace cooldown (L.look hot fired) where
  blank := by
    intro i hi
    have hne : i ≠ L.next := Nat.ne_of_gt hi
    exact (Function.update_of_ne hne _ _).trans (h.blank i (Nat.le_of_succ_le hi))
  since := by
    intro i hi
    obtain ⟨hlt, hreleased⟩ := h.released_of_look hi
    have hsince := h.since i hreleased
    unfold Ledger.look
    dsimp only
    split
    · next hcount =>
      have hcool := hhot (Bool.and_eq_true_iff.mp hcount).1
      omega
    · omega
  recent := by
    intro k hk
    unfold Ledger.look at hk
    dsimp only at hk
    split at hk
    · next hcount =>
      obtain rfl := (Bool.and_eq_true_iff.mp hcount).1
      exact h.hot_look k hk
    · cases hk
  spaced := by
    refine ⟨fun i j hi hj hij => ?_, fun j hj => ?_⟩
    · obtain ⟨-, hreleased⟩ := h.released_of_look hi
      rcases h.fired_of_look hj with ⟨rfl, hnow⟩ | ⟨-, hold⟩
      · obtain ⟨hishot, hgrace⟩ := hfired hnow
        have hcool := hhot hishot
        have hsince := h.since i hreleased
        omega
      · exact h.spaced.apart i j hreleased hold hij
    · rcases h.fired_of_look hj with ⟨rfl, hnow⟩ | ⟨hlt, hold⟩
      · obtain ⟨rfl, hgrace⟩ := hfired hnow
        refine ⟨?_, fun k hk => (h.hot_look k (Nat.lt_of_lt_of_le hk hgrace)).2⟩
        by_contra hshort
        have hlast := (@hot_look grace cooldown L h fired (L.next + 1) (by omega)).1
        omega
      · obtain ⟨hgrace, hhots⟩ := h.spaced.grace j hold
        refine ⟨hgrace, fun k hk => ?_⟩
        rw [seen_look_of_lt (by omega)]
        exact hhots k hk

/-- **Step lemma.** The cooldown starts anew, and there is no streak. -/
theorem release (h : Sound grace cooldown L) (hnext : 0 < L.next) (hstreak : L.streak = 0) :
    Sound grace cooldown (L.release cooldown) where
  blank := by
    intro i hi
    have hlt : L.next ≤ i := hi
    have hne : i ≠ L.next - 1 := by omega
    exact (Function.update_of_ne hne _ _).trans (h.blank i hlt)
  since := by
    intro i hi
    have hpast : i < L.next ∧ (i ≠ L.next - 1 → (L.seen i).released = true) := by
      by_cases heq : i = L.next - 1
      · exact ⟨by omega, fun hne => absurd heq hne⟩
      · have hold : (L.release cooldown).seen i = L.seen i := Function.update_of_ne heq _ _
        rw [hold] at hi
        exact ⟨h.released_lt hi, fun _ => hi⟩
    have hsince := h.since i
    unfold Ledger.release
    dsimp only
    split
    · omega
    · by_cases heq : i = L.next - 1
      · omega
      · have hold := hsince (hpast.2 heq)
        omega
  recent := by
    intro k hk
    have hk' : k < L.streak := hk
    omega
  spaced := by
    have hseen : ∀ j, ((L.release cooldown).seen j).fired = (L.seen j).fired ∧
        ((L.release cooldown).seen j).hot = (L.seen j).hot := by
      intro j
      by_cases heq : j = L.next - 1
      · subst heq
        have hself : (L.release cooldown).seen (L.next - 1) =
            { L.seen (L.next - 1) with released := true } := Function.update_self _ _ _
        rw [hself]
        exact ⟨rfl, rfl⟩
      · have hold : (L.release cooldown).seen j = L.seen j := Function.update_of_ne heq _ _
        rw [hold]
        exact ⟨rfl, rfl⟩
    refine ⟨fun i j hi hj hij => ?_, fun j hj => ?_⟩
    · rw [(hseen j).1] at hj
      have hlt := h.fired_lt hj
      have hne : i ≠ L.next - 1 := by omega
      have hold : (L.release cooldown).seen i = L.seen i := Function.update_of_ne hne _ _
      rw [hold] at hi
      exact h.spaced.apart i j hi hj hij
    · rw [(hseen j).1] at hj
      obtain ⟨hgrace, hhots⟩ := h.spaced.grace j hj
      refine ⟨hgrace, fun k hk => ?_⟩
      rw [(hseen (j - k)).2]
      exact hhots k hk

theorem skip (h : Sound grace cooldown L) (hstreak : L.streak = 0) :
    Sound grace cooldown L.skip where
  blank := fun i hi => h.blank i (Nat.le_of_succ_le hi)
  since := by
    intro i hi
    have hsince := h.since i hi
    unfold Ledger.skip
    dsimp only
    omega
  recent := by
    intro k hk
    have hk' : k < L.streak := hk
    omega
  spaced := h.spaced

theorem start : Sound grace cooldown ⟨0, 0, 0, fun _ => .blank⟩ where
  blank := fun _ _ => rfl
  since := fun _ hi => by cases hi
  recent := fun _ hk => by cases hk
  spaced := ⟨fun _ _ hi => (by cases hi), fun _ hj => (by cases hj)⟩

end Sound

end Hysteresis
