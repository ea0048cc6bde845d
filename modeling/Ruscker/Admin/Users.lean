import Ruscker.Lib.Guard
import Ruscker.Scope

/-!
# The user routes of the admin panel

Each handler reads the table, checks its caller, and then makes at most one write.
The two phases are kept apart: a handler below is the part up to its write, and
returns either the response that refuses the request or the write it is about to
make.  The write itself is a transaction of its own on whatever table it meets.
-/

namespace Ruscker.Admin

open Guards Tables

def isBlankField (s : Str) : Bool := s.trim.isEmpty

theorem cleanField_of_blank {s : Str} (h : isBlankField s = true) :
    cleanField (some s) = none := by
  have hnil : s.trim = [] := List.isEmpty_iff.mp h
  simp [cleanField, hnil]

variable [Unicode]

/-- Where a handler sends the browser. -/
inductive Response where
  | usersFlash (flash : String)
  | editFlash (username : Str) (flash : String)
  | groupsFlash (flash : String)
  | notFound
  | forbidden

/-- The argon2 operations; a fresh salt goes into every hash. -/
class PasswordHashing where
  hashPassword : (salt plain : Str) → Str
  verifyPassword : (plain phc : Str) → Bool

/-- Stands for argon2 on concrete inputs: the hash is the salt and the password. -/
@[reducible] def plainHashing : PasswordHashing where
  hashPassword salt plain := salt ++ '$' :: plain
  verifyPassword plain phc := plain.isSuffixOf phc

/-! ## Writes -/

/-- The one write of an accepted request. -/
inductive UserWrite where
  | create (username hash : Str) (role : Role) (groups : List Str) (setor email celular : Str)
  | account (username : Str) (update : Users.AccountUpdate) (roleChanged : Bool)
  | profile (username setor email celular : Str)
  | groups (username : Str) (groups : List Str)
  | role (username : Str) (role : Role)
  | password (username hash : Str)
  | delete (username : Str)

def UserWrite.target : UserWrite → Str
  | .create username .. | .account username .. | .profile username .. | .groups username _
  | .role username _ | .password username _ | .delete username => username

/-- The database call behind a write; a creation fills in the profile when one of its
fields was given. -/
def UserWrite.apply (db : Users) : UserWrite → Option Users
  | .create username hash newRole members setor email celular =>
    (db.create username hash newRole true members).map fun db =>
      if isBlankField setor && isBlankField email && isBlankField celular then db
      else (db.updateProfile username (some setor) (some email) (some celular)).getD db
  | .account username update _ => db.updateAccount username update
  | .profile username setor email celular =>
    db.updateProfile username (some setor) (some email) (some celular)
  | .groups username members => db.setGroups username members
  | .role username newRole => db.setRole username newRole
  | .password username hash => db.setPassword username hash true
  | .delete username => db.delete username

/-- Whose live sessions the handler revokes after the write. -/
def UserWrite.revokes : UserWrite → Option Str
  | .account username _ roleChanged => if roleChanged then some username else none
  | .role username _ | .password username _ | .delete username => some username
  | _ => none

/-- What a write leaves of its target's row. -/
def UserWrite.result (w : UserWrite) (row : Option StoredUser) : Option StoredUser :=
  match w with
  | .create _ hash newRole members setor email celular =>
    some ⟨hash, newRole.asStr, true, joinGroups members, cleanField (some setor),
      cleanField (some email), cleanField (some celular)⟩
  | .account _ update _ => row.map fun row =>
    { row with
      role := update.role.asStr
      groups := joinGroups update.groups
      setor := cleanField update.setor
      email := cleanField update.email
      celular := cleanField update.celular }
  | .profile _ setor email celular => row.map fun row =>
    { row with
      setor := cleanField (some setor)
      email := cleanField (some email)
      celular := cleanField (some celular) }
  | .groups _ members => row.map fun row => { row with groups := joinGroups members }
  | .role _ newRole => row.map fun row => { row with role := newRole.asStr }
  | .password _ hash => row.map fun row =>
    { row with passwordHash := hash, mustChangePassword := true }
  | .delete _ => none

def UserWrite.creates : UserWrite → Bool
  | .create .. => true
  | _ => false

/-- A creation finds its key free, every other write finds its row. -/
theorem UserWrite.lookup_of_apply {db db' : Users} {w : UserWrite}
    (h : w.apply db = some db') :
    (db.lookup (Username.of w.target)).isSome = !w.creates := by
  cases w with
  | create =>
    obtain ⟨db₁, hcreate, -⟩ := Option.map_eq_some_iff.mp h
    simp [UserWrite.target, UserWrite.creates, (Table.insertNew_eq_some hcreate).1]
  | delete =>
    obtain ⟨row, hrow, -⟩ := Table.deleteWhere_eq_some h
    simp [UserWrite.target, UserWrite.creates, hrow]
  | _ =>
    obtain ⟨row, hrow, -⟩ := Table.updateWhere_eq_some h
    simp [UserWrite.target, UserWrite.creates, hrow]

/-- A write touches the row of its target only, and leaves `result` there. -/
theorem UserWrite.lookup_apply {db db' : Users} {w : UserWrite} (h : w.apply db = some db')
    (k : Username) :
    db'.lookup k =
      if k = Username.of w.target then w.result (db.lookup k) else db.lookup k := by
  cases w with
  | create username hash newRole members setor email celular =>
    obtain ⟨db₁, hcreate, rfl⟩ := Option.map_eq_some_iff.mp h
    obtain ⟨-, rfl⟩ := Table.insertNew_eq_some hcreate
    simp only [Users.updateProfile, Table.updateWhere_getD]
    split
    · next hblank =>
      simp only [Bool.and_eq_true] at hblank
      rw [Table.lookup_insert_eq]
      simp [UserWrite.target, UserWrite.result, cleanField_of_blank hblank.1.1,
        cleanField_of_blank hblank.1.2, cleanField_of_blank hblank.2]
    · rw [Table.lookup_update, Table.lookup_insert_eq]
      split
      · next heq => simp [UserWrite.target, UserWrite.result, heq]
      · next hne => simp [UserWrite.target, hne]
  | delete username =>
    obtain ⟨row, -, -, rfl⟩ := Table.deleteWhere_eq_some h
    exact Table.lookup_erase_eq db _ k
  | _ =>
    obtain ⟨row, -, -, rfl⟩ := Table.updateWhere_eq_some h
    exact Table.lookup_update db _ k _

/-! ## Handlers up to their write -/

section Handlers

variable (scope : EditorScope) (db : Users)

/-- The policy every new password has to meet. -/
def passwordMeetsPolicy (password : Str) : Bool :=
  8 ≤ password.length && password.any Unicode.isUppercase &&
    password.any Unicode.isLowercase && password.any Char.isDigit &&
    password.any fun c => !Unicode.isAlphanumeric c

/-- The account a path names, when the caller may touch it. -/
def scopedTarget (rawUsername : Str) : Except Response UserRow := do
  let username := normalizeUsername rawUsername
  ensure (isValidUsername username) .notFound
  let user ← getOr (db.fetch username) .notFound
  ensure (scope.mayTouchUser user) .notFound
  return user

def isScopedSelfEdit (username : Str) : Bool :=
  !scope.unscoped && scope.actor = some username

/-- Would giving `username` this role, or deleting it, leave no admin? -/
def wouldStripLastAdmin (username : Str) (newRole : Option Role) : Bool :=
  (db.fetch username).elim false fun user =>
    user.role = .admin && newRole ≠ some .admin && db.countAdmins ≤ 1

structure CreateForm where
  username : Str
  password : Str
  role : Str
  groups : Str
  setor : Str
  email : Str
  celular : Str

def create [PasswordHashing] (form : CreateForm) (salt : Str) : Except Response UserWrite := do
  let username := normalizeUsername form.username
  let role := (Role.parse form.role).getD .viewer
  ensure (isValidUsername username) (.usersFlash "bad-input")
  ensure (passwordMeetsPolicy form.password) (.usersFlash "weak-password")
  let groups := parseGroups form.groups
  ensure (scope.mayAssignRole role) (.usersFlash "scope-role")
  ensure (scope.mayAssignGroups groups) (.usersFlash "scope-groups")
  ensure (scope.unscoped || !groups.isEmpty) (.usersFlash "group-required")
  return .create username (PasswordHashing.hashPassword salt form.password) role groups
    form.setor form.email form.celular

structure EditForm where
  role : Str
  groups : Str
  setor : Str
  email : Str
  celular : Str

def saveEdit (username : Str) (form : EditForm) : Except Response UserWrite := do
  let current ← scopedTarget scope db username
  let username := current.username.name
  ensure (!isScopedSelfEdit scope username) (.editFlash username "self-edit")
  let role ← getOr (Role.parse form.role) (.editFlash username "bad-input")
  ensure (scope.mayAssignRole role) (.editFlash username "scope-role")
  ensure (!wouldStripLastAdmin db username (some role)) (.editFlash username "last-admin")
  let requested := parseGroups form.groups
  ensure (scope.mayAssignGroups requested) (.editFlash username "scope-groups")
  let groups := scope.mergePreservingOutOfScope current.groups requested
  return .account username ⟨role, groups, some form.setor, some form.email, some form.celular⟩
    (current.role ≠ role)

structure ProfileForm where
  setor : Str
  email : Str
  celular : Str

def setProfile (username : Str) (form : ProfileForm) : Except Response UserWrite := do
  let target ← scopedTarget scope db username
  return .profile target.username.name form.setor form.email form.celular

def setGroups (username groups : Str) : Except Response UserWrite := do
  let target ← scopedTarget scope db username
  ensure (!isScopedSelfEdit scope target.username.name)
    (.editFlash target.username.name "self-edit")
  let requested := parseGroups groups
  ensure (scope.mayAssignGroups requested) (.editFlash target.username.name "scope-groups")
  return .groups target.username.name (scope.mergePreservingOutOfScope target.groups requested)

def setRole (username role : Str) : Except Response UserWrite := do
  let target ← scopedTarget scope db username
  ensure (!isScopedSelfEdit scope target.username.name)
    (.editFlash target.username.name "self-edit")
  let newRole := (Role.parse role).getD .viewer
  ensure (scope.mayAssignRole newRole) (.editFlash target.username.name "scope-role")
  ensure (!wouldStripLastAdmin db target.username.name (some newRole)) (.usersFlash "last-admin")
  return .role target.username.name newRole

def resetPassword [PasswordHashing] (username password salt : Str) : Except Response UserWrite := do
  let target ← scopedTarget scope db username
  ensure (!isScopedSelfEdit scope target.username.name)
    (.editFlash target.username.name "self-edit")
  ensure (passwordMeetsPolicy password) (.editFlash target.username.name "weak-password")
  return .password target.username.name (PasswordHashing.hashPassword salt password)

/-- Deletion is open to Admins only. -/
def delete (username : Str) : Except Response UserWrite := do
  ensure (scope.role = .admin) .forbidden
  let username := normalizeUsername username
  ensure (isValidUsername username) .notFound
  let _ ← getOr (db.fetch username) .notFound
  ensure (!wouldStripLastAdmin db username none) (.usersFlash "last-admin")
  return .delete username

/-! ## What the handlers let through -/

/-- An account of the table that the caller may touch. -/
structure Target (user : UserRow) : Prop where
  fetched : db.fetch user.username.name = some user
  touchable : scope.mayTouchUser user = true

/-- The writes the checks let through, each with what was checked. -/
inductive Effect : UserWrite → Prop
  | create (username hash : Str) (role : Role) (groups : List Str) (setor email celular : Str) :
      scope.mayAssignRole role = true → scope.mayAssignGroups groups = true →
      (scope.unscoped = true ∨ groups ≠ []) → (∀ g ∈ groups, CleanGroup g) →
      Effect (.create username hash role groups setor email celular)
  | account (user : UserRow) (requested : List Str) (update : Users.AccountUpdate)
      (roleChanged : Bool) :
      Target scope db user → scope.mayAssignRole update.role = true →
      scope.mayAssignGroups requested = true → (∀ g ∈ requested, CleanGroup g) →
      update.groups = scope.mergePreservingOutOfScope user.groups requested →
      Effect (.account user.username.name update roleChanged)
  | profile (user : UserRow) (setor email celular : Str) : Target scope db user →
      Effect (.profile user.username.name setor email celular)
  | groups (user : UserRow) (requested : List Str) :
      Target scope db user → scope.mayAssignGroups requested = true →
      (∀ g ∈ requested, CleanGroup g) →
      Effect (.groups user.username.name
        (scope.mergePreservingOutOfScope user.groups requested))
  | role (user : UserRow) (newRole : Role) : Target scope db user →
      scope.mayAssignRole newRole = true → Effect (.role user.username.name newRole)
  | password (user : UserRow) (hash : Str) : Target scope db user →
      Effect (.password user.username.name hash)
  | delete (username : Str) : scope.role = .admin → Effect (.delete username)

variable {scope db} {w : UserWrite}

theorem stored_of_fetch {user : UserRow} (h : db.fetch user.username.name = some user) :
    ∃ stored, db.lookup user.username = some stored ∧ user = rowFrom user.username stored := by
  obtain ⟨stored, hstored, huser⟩ := Users.fetch_eq_some.mp h
  rw [Username.of_name] at hstored huser
  exact ⟨stored, hstored, huser⟩

theorem fetch_of_fetch {username : Str} {user : UserRow}
    (hfetch : db.fetch username = some user) : db.fetch user.username.name = some user := by
  rw [Users.fetch_username hfetch]
  unfold Users.fetch at hfetch ⊢
  rw [Username.of_name]
  exact hfetch

theorem scopedTarget_ok {rawUsername : Str} {user : UserRow}
    (h : scopedTarget scope db rawUsername = .ok user) : Target scope db user := by
  simp only [scopedTarget, accepted_bind, accepted_ensure, accepted_getOr, accepted_pure] at h
  obtain ⟨-, -, fetched, hfetch, -, hmay, rfl⟩ := h
  exact ⟨fetch_of_fetch hfetch, hmay⟩

theorem create_ok [PasswordHashing] {form : CreateForm} {salt : Str}
    (h : create scope form salt = .ok w) : Effect scope db w := by
  simp only [create, accepted_bind, accepted_ensure, accepted_pure] at h
  obtain ⟨-, -, -, -, -, hrole, -, hgroups, -, hteam, rfl⟩ := h
  exact .create _ _ _ _ _ _ _ hrole hgroups (by simpa using hteam)
    fun _ hg => clean_of_mem_parseGroups hg

theorem saveEdit_ok {username : Str} {form : EditForm}
    (h : saveEdit scope db username form = .ok w) : Effect scope db w := by
  simp only [saveEdit, accepted_bind, accepted_ensure, accepted_getOr, accepted_pure] at h
  obtain ⟨current, hcurrent, -, -, role, -, -, hrole, -, -, -, hassign, rfl⟩ := h
  exact .account current _ _ _ (scopedTarget_ok hcurrent) hrole hassign
    (fun _ hg => clean_of_mem_parseGroups hg) rfl

theorem setProfile_ok {username : Str} {form : ProfileForm}
    (h : setProfile scope db username form = .ok w) : Effect scope db w := by
  simp only [setProfile, accepted_bind, accepted_pure] at h
  obtain ⟨target, htarget, rfl⟩ := h
  exact .profile target _ _ _ (scopedTarget_ok htarget)

theorem setGroups_ok {username groups : Str}
    (h : setGroups scope db username groups = .ok w) : Effect scope db w := by
  simp only [setGroups, accepted_bind, accepted_ensure, accepted_pure] at h
  obtain ⟨target, htarget, -, -, -, hassign, rfl⟩ := h
  exact .groups target _ (scopedTarget_ok htarget) hassign
    fun _ hg => clean_of_mem_parseGroups hg

theorem setRole_ok {username role : Str}
    (h : setRole scope db username role = .ok w) : Effect scope db w := by
  simp only [setRole, accepted_bind, accepted_ensure, accepted_pure] at h
  obtain ⟨target, htarget, -, -, -, hrole, -, -, rfl⟩ := h
  exact .role target _ (scopedTarget_ok htarget) hrole

theorem resetPassword_ok [PasswordHashing] {username password salt : Str}
    (h : resetPassword scope db username password salt = .ok w) : Effect scope db w := by
  simp only [resetPassword, accepted_bind, accepted_ensure, accepted_pure] at h
  obtain ⟨target, htarget, -, -, -, -, rfl⟩ := h
  exact .password target _ (scopedTarget_ok htarget)

theorem delete_ok {username : Str}
    (h : delete scope db username = .ok w) : Effect scope db w := by
  simp only [delete, accepted_bind, accepted_ensure, accepted_getOr, accepted_pure] at h
  obtain ⟨-, hadmin, -, -, -, -, -, -, rfl⟩ := h
  exact .delete _ (by simpa using hadmin)

end Handlers

end Ruscker.Admin
