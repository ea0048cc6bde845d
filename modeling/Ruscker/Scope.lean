import Ruscker.Config.Spec
import Ruscker.Db.Users
import Mathlib.Data.Char
import Mathlib.Data.List.Dedup
import Mathlib.Data.List.Lex
import Mathlib.Data.List.Sort

/-!
# The group-derived scope of an Editor

Authentication says who the caller is; the scope says which rows that identity may
act on.  Admins are unscoped, an Editor's groups are read from the user table on
every request, and every gate of the admin routes is one of the predicates below.
-/

namespace Ruscker

structure EditorScope where
  role : Role
  actor : Option Str
  groups : List Str
  unscoped : Bool

/-- A collected `BTreeSet<String>` in iteration order: sorted, without duplicates. -/
def btreeSet (l : List Str) : List Str := l.dedup.insertionSort (· ≤ ·)

@[simp] theorem mem_btreeSet {l : List Str} {g : Str} : g ∈ btreeSet l ↔ g ∈ l := by
  simp [btreeSet]

namespace EditorScope

def hasGroup (scope : EditorScope) (group : Str) : Bool := scope.groups.contains group

theorem hasGroup_iff {scope : EditorScope} {group : Str} :
    scope.hasGroup group = true ↔ group ∈ scope.groups := by
  simp [hasGroup]

/-- The scope of a session that passed the Editor guard, from the current user table. -/
def fromEditor [Unicode] (role : Role) (actor : Option Str) (db : Users) : EditorScope :=
  if role = .admin then ⟨role, actor, [], true⟩
  else ⟨role, actor, (actor.bind db.fetch).elim [] UserRow.groups, false⟩

variable (scope : EditorScope)

def mayTouchGroup (group : Str) : Bool := scope.unscoped || scope.hasGroup group

def mayTouchSpec {σ : Type*} (spec : Spec σ) : Bool :=
  scope.unscoped || spec.isOpen || (spec.accessGroups.getD []).any scope.hasGroup

def mayTouchUser [Unicode] (user : UserRow) : Bool :=
  scope.unscoped || (user.role ≠ .admin && user.groups.any scope.hasGroup)

def mayAssignGroups (requested : List Str) : Bool :=
  scope.unscoped || requested.all scope.hasGroup

def mayAssignRole (requested : Role) : Bool :=
  scope.unscoped || requested = .viewer || requested = .editor

/-- Replace the memberships the caller owns and keep the others; an unscoped caller
replaces them all. -/
def mergePreservingOutOfScope (existing requested : List Str) : List Str :=
  if scope.unscoped then btreeSet requested
  else btreeSet ((existing.filter fun g => !scope.hasGroup g) ++
    requested.filter scope.hasGroup)

variable {scope}

theorem mem_merge (hscoped : scope.unscoped = false) {existing requested : List Str} {g : Str} :
    g ∈ scope.mergePreservingOutOfScope existing requested ↔
      (g ∈ existing ∧ g ∉ scope.groups) ∨ (g ∈ requested ∧ g ∈ scope.groups) := by
  simp [mergePreservingOutOfScope, hscoped, hasGroup]

/-- A merge of clean lists is clean. -/
theorem clean_of_mem_merge {existing requested : List Str}
    (hexisting : ∀ g ∈ existing, CleanGroup g) (hrequested : ∀ g ∈ requested, CleanGroup g) :
    ∀ g ∈ scope.mergePreservingOutOfScope existing requested, CleanGroup g := by
  intro g hg
  cases hscoped : scope.unscoped with
  | true =>
    simp only [mergePreservingOutOfScope, hscoped, if_true, mem_btreeSet] at hg
    exact hrequested g hg
  | false =>
    rcases (mem_merge hscoped).mp hg with ⟨h, -⟩ | ⟨h, -⟩
    · exact hexisting g h
    · exact hrequested g h

/-- A stored merge: the caller's groups as requested, the others as they were. -/
theorem mem_stored_merge (hscoped : scope.unscoped = false) {stored : Str}
    {requested : List Str} (hrequested : ∀ g ∈ requested, CleanGroup g) {g : Str} :
    g ∈ parseGroups (joinGroups
        (scope.mergePreservingOutOfScope (parseGroups stored) requested)) ↔
      (g ∈ parseGroups stored ∧ g ∉ scope.groups) ∨ (g ∈ requested ∧ g ∈ scope.groups) := by
  rw [mem_parseGroups_joinGroups, mem_merge hscoped]
  exact clean_of_mem_merge (fun _ hg => clean_of_mem_parseGroups hg) hrequested

theorem mayAssignGroups_iff (hscoped : scope.unscoped = false) {requested : List Str} :
    scope.mayAssignGroups requested = true ↔ ∀ g ∈ requested, g ∈ scope.groups := by
  simp [mayAssignGroups, hscoped, hasGroup]

theorem mayTouchUser_iff [Unicode] (hscoped : scope.unscoped = false) {user : UserRow} :
    scope.mayTouchUser user = true ↔
      user.role ≠ .admin ∧ ∃ g ∈ user.groups, g ∈ scope.groups := by
  simp [mayTouchUser, hscoped, hasGroup]

end EditorScope

end Ruscker
