import Ruscker.Auth.Role
import Ruscker.Lib.Table

/-!
# The user table

Accounts are stored under their normalized username, so the key type admits no other.
The role and the group list are stored as text.  Each function below is one
transaction of the table; `none` stands for its error, which rolls the transaction
back.  Password hashes are the PHC strings the caller computed under a fresh salt.
-/

namespace Ruscker

open Tables

/-! ## Group lists -/

def isComma (c : Char) : Bool := c = ','

/-- A group name as it survives storage: trimmed, nonempty, without a comma. -/
abbrev CleanGroup (g : Str) : Prop := Tokens.Clean isComma isWhitespace g

/-- Append a token unless it is there already. -/
def pushNew (out : List Str) (t : Str) : List Str := if t ∈ out then out else out ++ [t]

/-- Parse the stored comma list: trimmed, empties dropped, first of duplicates kept. -/
def parseGroups (stored : Str) : List Str :=
  (Tokens.tokens isComma isWhitespace stored).foldl pushNew []

def joinGroups (groups : List Str) : Str :=
  [','].intercalate (parseGroups ([','].intercalate groups))

theorem mem_pushNew {out : List Str} {t g : Str} : g ∈ pushNew out t ↔ g ∈ out ∨ g = t := by
  unfold pushNew
  split
  · next hin =>
    constructor
    · exact Or.inl
    · rintro (h | rfl)
      · exact h
      · exact hin
  · simp

theorem mem_foldl_pushNew {ts out : List Str} {g : Str} :
    g ∈ ts.foldl pushNew out ↔ g ∈ out ∨ g ∈ ts := by
  induction ts generalizing out with
  | nil => simp
  | cons t ts ih =>
    rw [List.foldl_cons, ih, mem_pushNew, List.mem_cons]
    exact or_assoc

theorem nodup_foldl_pushNew {ts out : List Str} (h : out.Nodup) :
    (ts.foldl pushNew out).Nodup := by
  induction ts generalizing out with
  | nil => exact h
  | cons t ts ih =>
    refine ih ?_
    unfold pushNew
    split
    · exact h
    · next hnew =>
      rw [List.nodup_append]
      exact ⟨h, List.nodup_singleton t, by rintro a ha b hb rfl; simp_all⟩

theorem foldl_pushNew_of_nodup {ts out : List Str} (h : (out ++ ts).Nodup) :
    ts.foldl pushNew out = out ++ ts := by
  induction ts generalizing out with
  | nil => simp
  | cons t ts ih =>
    have hnew : t ∉ out := fun hin => (List.nodup_append.mp h).2.2 t hin t (by simp) rfl
    rw [List.foldl_cons, pushNew, if_neg hnew, ih (by simpa using h)]
    simp

theorem mem_parseGroups {stored g : Str} :
    g ∈ parseGroups stored ↔ g ∈ Tokens.tokens isComma isWhitespace stored := by
  simp [parseGroups, mem_foldl_pushNew]

theorem clean_of_mem_parseGroups {stored g : Str} (h : g ∈ parseGroups stored) :
    CleanGroup g :=
  Tokens.clean_of_mem_tokens (mem_parseGroups.mp h)

theorem tokens_join (groups : List Str) :
    Tokens.tokens isComma isWhitespace ([','].intercalate groups) =
      groups.flatMap (Tokens.tokens isComma isWhitespace) :=
  Tokens.tokens_intercalate_eq_flatMap rfl (by simp) (by simp) groups

/-- **Group lists survive storage.** -/
theorem parseGroups_joinGroups (groups : List Str) :
    parseGroups (joinGroups groups) = parseGroups ([','].intercalate groups) := by
  have hclean : ∀ g ∈ parseGroups ([','].intercalate groups), CleanGroup g :=
    fun _ hg => clean_of_mem_parseGroups hg
  have hnodup : (parseGroups ([','].intercalate groups)).Nodup :=
    nodup_foldl_pushNew List.nodup_nil
  unfold joinGroups
  generalize parseGroups ([','].intercalate groups) = gs at hclean hnodup
  rw [parseGroups, tokens_join, Tokens.flatMap_tokens_of_clean hclean,
    foldl_pushNew_of_nodup (by simpa using hnodup)]
  rfl

/-- Clean names are stored as they are. -/
theorem mem_parseGroups_joinGroups {groups : List Str} {g : Str}
    (h : ∀ g ∈ groups, CleanGroup g) : g ∈ parseGroups (joinGroups groups) ↔ g ∈ groups := by
  rw [parseGroups_joinGroups, mem_parseGroups, tokens_join, Tokens.flatMap_tokens_of_clean h]

/-! ## Usernames -/

def isValidUsername (name : Str) : Bool :=
  !name.isEmpty && name.all fun c => c.isAlphanum || c = '_' || c = '.' || c = '@' || c = '-'

variable [Unicode]

def normalizeUsername (raw : Str) : Str := Unicode.toLowercase raw.trim

theorem normalizeUsername_idem (raw : Str) :
    normalizeUsername (normalizeUsername raw) = normalizeUsername raw := by
  unfold normalizeUsername
  rw [Unicode.trim_toLowercase, Str.trim_trim, Unicode.toLowercase_idem]

/-- A username as stored: trimmed and in lower case. -/
structure Username where
  name : Str
  normalized : normalizeUsername name = name
  deriving DecidableEq

/-- The username a raw text stands for. -/
def Username.of (raw : Str) : Username := ⟨normalizeUsername raw, normalizeUsername_idem raw⟩

@[simp] theorem Username.of_name (u : Username) : Username.of u.name = u := by
  cases u with
  | mk name h => simp [Username.of, h]

/-! ## Rows -/

/-- A row of `users`, as stored. -/
structure StoredUser where
  passwordHash : Str
  role : Str
  mustChangePassword : Bool
  groups : Str
  setor : Option Str
  email : Option Str
  celular : Option Str
  deriving DecidableEq

/-- A row as the code reads it, without the password hash. -/
structure UserRow where
  username : Username
  role : Role
  mustChangePassword : Bool
  groups : List Str
  setor : Option Str
  email : Option Str
  celular : Option Str
  deriving DecidableEq

/-- Blank optional fields are absent. -/
def cleanField (s : Option Str) : Option Str := (s.map Str.trim).filter fun v => !v.isEmpty

/-- `row_from`; a role that does not parse reads as Viewer. -/
def rowFrom (username : Username) (stored : StoredUser) : UserRow where
  username
  role := (Role.parse stored.role).getD .viewer
  mustChangePassword := stored.mustChangePassword
  groups := parseGroups stored.groups
  setor := cleanField stored.setor
  email := cleanField stored.email
  celular := cleanField stored.celular

abbrev Users := Table Username StoredUser

namespace Users

def countAdmins (db : Users) : Nat := Table.count db fun u => u.role = Role.admin.asStr

/-- The last-admin predicate of `update_account` and `set_role`. -/
def keepsAdmin (db : Users) (role : Role) (row : StoredUser) : Bool :=
  row.role ≠ Role.admin.asStr || role = .admin || 1 < db.countAdmins

def fetch (db : Users) (username : Str) : Option UserRow :=
  let username := Username.of username
  (db.lookup username).map (rowFrom username)

/-- `list_all`, in storage order. -/
def listAll (db : Users) : List UserRow := db.entries.reverse.map fun e => rowFrom e.1 e.2

/-- `verify` is the argon2 check of the presented password against a stored hash. -/
def verifyLogin (db : Users) (username : Str) (verify : Str → Bool) : Option UserRow :=
  let username := Username.of username
  (db.lookup username).bind fun stored =>
    if verify stored.passwordHash then some (rowFrom username stored) else none

def create (db : Users) (username hash : Str) (role : Role) (mustChange : Bool)
    (groups : List Str) : Option Users :=
  Table.insertNew db (Username.of username)
    ⟨hash, role.asStr, mustChange, joinGroups groups, none, none, none⟩

def setPassword (db : Users) (username hash : Str) (mustChange : Bool) : Option Users :=
  Table.updateWhere db (Username.of username) (fun _ => true) fun row =>
    { row with passwordHash := hash, mustChangePassword := mustChange }

structure AccountUpdate where
  role : Role
  groups : List Str
  setor : Option Str
  email : Option Str
  celular : Option Str

def updateAccount (db : Users) (username : Str) (update : AccountUpdate) : Option Users :=
  Table.updateWhere db (Username.of username) (db.keepsAdmin update.role) fun row =>
    { row with
      role := update.role.asStr
      groups := joinGroups update.groups
      setor := cleanField update.setor
      email := cleanField update.email
      celular := cleanField update.celular }

def setRole (db : Users) (username : Str) (role : Role) : Option Users :=
  Table.updateWhere db (Username.of username) (db.keepsAdmin role) fun row =>
    { row with role := role.asStr }

def setGroups (db : Users) (username : Str) (groups : List Str) : Option Users :=
  Table.updateWhere db (Username.of username) (fun _ => true) fun row =>
    { row with groups := joinGroups groups }

def updateProfile (db : Users) (username : Str) (setor email celular : Option Str) :
    Option Users :=
  Table.updateWhere db (Username.of username) (fun _ => true) fun row =>
    { row with
      setor := cleanField setor, email := cleanField email, celular := cleanField celular }

def delete (db : Users) (username : Str) : Option Users :=
  Table.deleteWhere db (Username.of username) fun row =>
    row.role ≠ Role.admin.asStr || 1 < db.countAdmins

variable {db db' : Users} {username : Str}

theorem fetch_eq_some {user : UserRow} :
    db.fetch username = some user ↔ ∃ stored, db.lookup (Username.of username) = some stored ∧
      user = rowFrom (Username.of username) stored := by
  simp only [fetch, Option.map_eq_some_iff]
  exact exists_congr fun stored => and_congr_right fun _ => eq_comm

theorem mem_listAll_of_fetch {user : UserRow} (h : db.fetch username = some user) :
    user ∈ db.listAll := by
  obtain ⟨stored, hstored, rfl⟩ := fetch_eq_some.mp h
  refine List.mem_map.mpr ⟨⟨Username.of username, stored⟩, ?_, rfl⟩
  exact List.mem_reverse.mpr (Table.mem_entries_iff.mpr hstored)

theorem fetch_username {user : UserRow} (h : db.fetch username = some user) :
    user.username = Username.of username := by
  obtain ⟨stored, -, rfl⟩ := fetch_eq_some.mp h
  rfl

end Users

end Ruscker
