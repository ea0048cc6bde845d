import Ruscker.Text

/-!
# App specs and their access rule

A spec is an id, its two access lists and the remaining settings, which the access
and catalog logic only carries along.
-/

namespace Ruscker

/-- The fields of `Spec` the access logic reads; `σ` is everything else. -/
structure Spec (σ : Type*) where
  id : Str
  accessGroups : Option (List Str)
  accessUsers : Option (List Str)
  settings : σ
  deriving DecidableEq

namespace Spec

variable {σ : Type*}

/-- An access list that restricts nothing: absent or empty. -/
def isBlank (list : Option (List Str)) : Bool := list.elim true List.isEmpty

/-- No access list, so visible and reachable by everyone. -/
def isOpen (s : Spec σ) : Bool := isBlank s.accessGroups && isBlank s.accessUsers

/-- May a viewer see and reach this app?  Anonymous viewers have no username. -/
def accessAllows (s : Spec σ) (isAdmin : Bool) (username : Option Str) (groups : List Str) :
    Bool :=
  isAdmin || s.isOpen ||
    username.elim false (fun name => (s.accessUsers.getD []).contains name) ||
    (s.accessGroups.getD []).any groups.contains

theorem isBlank_iff {list : Option (List Str)} : isBlank list = true ↔ list.getD [] = [] := by
  cases list <;> simp [isBlank]

theorem isOpen_iff {s : Spec σ} :
    s.isOpen = true ↔ s.accessGroups.getD [] = [] ∧ s.accessUsers.getD [] = [] := by
  simp [isOpen, isBlank_iff]

theorem accessAllows_iff {s : Spec σ} {isAdmin : Bool} {username : Option Str}
    {groups : List Str} :
    s.accessAllows isAdmin username groups = true ↔
      isAdmin = true ∨ s.isOpen = true ∨
        (∃ name ∈ username, name ∈ s.accessUsers.getD []) ∨
        ∃ g ∈ s.accessGroups.getD [], g ∈ groups := by
  cases username <;> simp [accessAllows, or_assoc]

end Spec

end Ruscker
