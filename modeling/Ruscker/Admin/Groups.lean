import Ruscker.Admin.Users
import Ruscker.Db.Specs

/-!
# The group routes of the admin panel

Groups have no table of their own: a group exists as a name in the membership lists
of users and in the access lists of specs.  Adding and removing members is open to
Editors, renaming and deleting rewrites every place the name occurs and is open to
Admins only.
-/

namespace Ruscker.Admin

open Guards Tables

/-- A group name that storage keeps apart: trimmed, nonempty, without a comma. -/
def cleanGroup (raw : Str) : Option Str :=
  let g := raw.trim
  if g.isEmpty || g.any isComma then none else some g

theorem cleanGroup_eq_some {raw g : Str} (h : cleanGroup raw = some g) :
    g = raw.trim ∧ CleanGroup g := by
  unfold cleanGroup at h
  dsimp only at h
  split at h
  · cases h
  · next hok =>
    cases h
    simp only [Bool.or_eq_true, List.isEmpty_iff, List.any_eq_true, not_or, not_exists,
      not_and] at hok
    refine ⟨rfl, hok.1, ?_, Str.trim_trim raw⟩
    intro c hc
    simpa using hok.2 c hc

variable [Unicode]

/-! ## Members -/

structure MemberForm where
  group : Str
  username : Str

section Members

variable (scope : EditorScope) (db : Users)

/-- A derived group begins with its first member, added by an Admin. -/
def createGroup (form : MemberForm) : Except Response UserWrite := do
  ensure (scope.role = .admin) .forbidden
  let group ← getOr (cleanGroup form.group) (.groupsFlash "bad-input")
  let user ← getOr (db.fetch form.username) (.groupsFlash "bad-input")
  return .groups user.username.name (pushNew user.groups group)

/-- The list `add_member` is about to store. -/
def withMember (user : UserRow) (group : Str) : List Str :=
  scope.mergePreservingOutOfScope user.groups
    (pushNew (user.groups.filter scope.mayTouchGroup) group)

def addMember (form : MemberForm) : Except Response UserWrite := do
  let group ← getOr (cleanGroup form.group) (.groupsFlash "bad-input")
  ensure (scope.mayTouchGroup group) .notFound
  let user ← getOr (db.fetch form.username) .notFound
  let groups := withMember scope user group
  -- the row is judged with the proposed membership, which lets a team induct an outsider
  ensure (scope.mayTouchUser { user with groups }) .notFound
  return .groups user.username.name groups

def removeMember (form : MemberForm) : Except Response UserWrite := do
  let group ← getOr (cleanGroup form.group) (.groupsFlash "bad-input")
  ensure (scope.mayTouchGroup group) .notFound
  let user ← getOr (db.fetch form.username) .notFound
  ensure (scope.mayTouchUser user) .notFound
  let requested := user.groups.filter fun g => g ≠ group && scope.mayTouchGroup g
  return .groups user.username.name (scope.mergePreservingOutOfScope user.groups requested)

variable {scope db} {w : UserWrite} {form : MemberForm}

theorem addMember_ok (h : addMember scope db form = .ok w) :
    ∃ user group, db.fetch form.username = some user ∧ CleanGroup group ∧
      scope.mayTouchGroup group = true ∧
      scope.mayTouchUser { user with groups := withMember scope user group } = true ∧
      w = .groups user.username.name (withMember scope user group) := by
  simp only [addMember, accepted_bind, accepted_ensure, accepted_getOr, accepted_pure] at h
  obtain ⟨group, hgroup, -, howned, user, hfetch, -, hmay, rfl⟩ := h
  exact ⟨user, group, hfetch, (cleanGroup_eq_some hgroup).2, howned, hmay, rfl⟩

theorem removeMember_ok (h : removeMember scope db form = .ok w) : Effect scope db w := by
  simp only [removeMember, accepted_bind, accepted_ensure, accepted_getOr, accepted_pure] at h
  obtain ⟨group, -, -, -, user, hfetch, -, hmay, rfl⟩ := h
  refine .groups user _ ⟨fetch_of_fetch hfetch, hmay⟩ ?_ ?_
  · cases hscoped : scope.unscoped with
    | true => simp [EditorScope.mayAssignGroups, hscoped]
    | false =>
      rw [EditorScope.mayAssignGroups_iff hscoped]
      intro g hg
      have hkeep := (List.mem_filter.mp hg).2
      simp only [EditorScope.mayTouchGroup, hscoped, Bool.false_or, Bool.and_eq_true] at hkeep
      exact EditorScope.hasGroup_iff.mp hkeep.2
  · intro g hg
    obtain ⟨stored, -, rfl⟩ := Users.fetch_eq_some.mp hfetch
    exact clean_of_mem_parseGroups (List.mem_of_mem_filter hg)

end Members

/-! ## Rewriting a name everywhere -/

variable {σ : Type}

/-- The two tables the group routes rewrite. -/
structure Store (σ : Type) where
  users : Users
  specs : Specs σ

/-- One list with `old` renamed, or dropped for `new = none`. -/
def rewriteList (old : Str) (new : Option Str) (groups : List Str) : List Str :=
  let kept := groups.filter fun g => g ≠ old
  new.elim kept (pushNew kept)

def rewriteUsers (db : Users) (old : Str) (new : Option Str) : Users :=
  db.listAll.foldl (fun db' user =>
    if user.groups.contains old then
      (db'.setGroups user.username.name (rewriteList old new user.groups)).getD db'
    else db') db

/-- One spec with the name rewritten; an emptied list becomes absent. -/
def rewriteSpec (old : Str) (new : Option Str) (spec : Spec σ) : Spec σ :=
  match spec.accessGroups with
  | none => spec
  | some groups =>
    if groups.contains old then
      let groups := rewriteList old new groups
      { spec with accessGroups := if groups.isEmpty then none else some groups }
    else spec

def rewriteSpecs (db : Specs σ) (old : Str) (new : Option Str) : Specs σ :=
  db.listAll.foldl (fun db' spec =>
    if (spec.accessGroups.getD []).contains old then db'.upsertOne (rewriteSpec old new spec)
    else db') db

/-- Rewrite `old` in every membership list and every access list of the tables. -/
def rewriteGroup (store : Store σ) (old : Str) (new : Option Str) : Store σ where
  users := rewriteUsers store.users old new
  specs := rewriteSpecs store.specs old new

structure RenameForm where
  old : Str
  new : Str

def renameGroup (scope : EditorScope) (store : Store σ) (form : RenameForm) :
    Except Response (Store σ) := do
  ensure (scope.role = .admin) .forbidden
  let old ← getOr (cleanGroup form.old) (.groupsFlash "bad-input")
  let new ← getOr (cleanGroup form.new) (.groupsFlash "bad-input")
  return if old = new then store else rewriteGroup store old (some new)

def deleteGroup (scope : EditorScope) (store : Store σ) (name : Str) :
    Except Response (Store σ) := do
  ensure (scope.role = .admin) .forbidden
  let name ← getOr (cleanGroup name) (.groupsFlash "bad-input")
  return rewriteGroup store name none

end Ruscker.Admin
