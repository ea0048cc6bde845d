import Mathlib.Data.List.Basic

/-!
# Early returns

A request handler is a chain of checks, each of which may end it with a response of
its own.  Such a chain is an `Except` computation over `ensure` and `getOr`.  The
lemmas below peel an accepted chain apart, one check at a time.
-/

namespace Guards

universe u v

variable {ρ : Type v} {α β : Type u}

/-- Go on when the condition holds, else return `response`. -/
def ensure (condition : Bool) (response : ρ) : Except ρ PUnit.{u + 1} :=
  if condition then .ok ⟨⟩ else .error response

/-- Go on with the value of an option, else return `response`. -/
def getOr (o : Option α) (response : ρ) : Except ρ α :=
  match o with
  | some a => .ok a
  | none => .error response

/-- An accepted chain was accepted at its first check and at the rest. -/
theorem accepted_bind {first : Except ρ α} {rest : α → Except ρ β} {b : β} :
    first >>= rest = .ok b ↔ ∃ a, first = .ok a ∧ rest a = .ok b := by
  refine ⟨fun h => ?_, ?_⟩
  · rcases first with response | a
    · cases h
    · exact ⟨a, rfl, h⟩
  · rintro ⟨a, rfl, h⟩
    exact h

theorem accepted_ensure {condition : Bool} {response : ρ} {u : PUnit.{u + 1}} :
    ensure condition response = .ok u ↔ condition = true := by
  unfold ensure
  split
  · next h => exact ⟨fun _ => h, fun _ => rfl⟩
  · next h => exact ⟨nofun, fun hc => absurd hc h⟩

theorem accepted_getOr {o : Option α} {response : ρ} {a : α} :
    getOr o response = .ok a ↔ o = some a := by
  unfold getOr
  split
  · next b =>
    exact ⟨fun h => congrArg some (Except.ok.inj h), fun h => congrArg _ (Option.some.inj h)⟩
  · exact ⟨nofun, nofun⟩

theorem accepted_pure {a b : α} : (pure a : Except ρ α) = .ok b ↔ a = b :=
  ⟨Except.ok.inj, congrArg Except.ok⟩

end Guards
