import Ruscker.Admin.Groups
import Ruscker.Lib.Machine

/-!
# What a delegated Editor can reach

Every handler checks its own target, but the checks depend on memberships that the
same Editor's other requests may change.  This file runs arbitrary sequences of
requests of one session and determines which accounts they can reach.  `add_member`
inducts an outsider into an owned group by design; apart from it an Editor's scope
never grows, so accounts outside the initial scope stay as they are.
-/

namespace Ruscker.Admin

open Guards Tables Machines Machines.Machine

section Delegation

variable [Unicode] {σ : Type}

/-- The role and identity a session cookie resolves to. -/
structure Session where
  role : Role
  actor : Option Str

def Session.scope (session : Session) (db : Users) : EditorScope :=
  EditorScope.fromEditor session.role session.actor db

section Scope

variable {session : Session} {db : Users}

theorem scope_of_editor (hrole : session.role = .editor) (db : Users) :
    (session.scope db).role = .editor ∧ (session.scope db).unscoped = false := by
  simp [Session.scope, EditorScope.fromEditor, hrole]

theorem mem_scope_groups (hrole : session.role = .editor) {g : Str} :
    g ∈ (session.scope db).groups ↔ ∃ name row, session.actor = some name ∧
      db.lookup (Username.of name) = some row ∧ g ∈ parseGroups row.groups := by
  simp only [Session.scope, EditorScope.fromEditor, hrole]
  cases session.actor with
  | none => simp
  | some name =>
    cases hrow : db.lookup (Username.of name) with
    | none => simp [Users.fetch, hrow]
    | some row => simp [Users.fetch, hrow, rowFrom]

end Scope

/-! ## Where memberships come from -/

section Origin

variable {scope : EditorScope} {db : Users} {w : UserWrite} {user : UserRow} {g : Str}

/-- A membership that a write leaves is the caller's to give, or was there before. -/
def Origin (scope : EditorScope) (db : Users) (k : Username) (g : Str) : Prop :=
  g ∈ scope.groups ∨ ∃ row, db.lookup k = some row ∧ g ∈ parseGroups row.groups

theorem origin_of_merge (hscoped : scope.unscoped = false)
    (hfetch : db.fetch user.username.name = some user) {requested : List Str}
    (hclean : ∀ g ∈ requested, CleanGroup g)
    (hg : g ∈ parseGroups (joinGroups
      (scope.mergePreservingOutOfScope user.groups requested))) :
    Origin scope db user.username g := by
  obtain ⟨row, hrow, huser⟩ := stored_of_fetch hfetch
  rw [huser] at hg
  rcases (EditorScope.mem_stored_merge hscoped hclean).mp hg with ⟨hold, -⟩ | ⟨-, hown⟩
  · exact .inr ⟨row, hrow, hold⟩
  · exact .inl hown

theorem Effect.origin (heff : Effect scope db w) (hscoped : scope.unscoped = false)
    {row : StoredUser} (hrow : w.result (db.lookup (Username.of w.target)) = some row)
    (hg : g ∈ parseGroups row.groups) : Origin scope db (Username.of w.target) g := by
  cases heff with
  | create username hash role groups setor email celular _ hassign _ hclean =>
    cases hrow
    rw [mem_parseGroups_joinGroups hclean] at hg
    exact .inl ((EditorScope.mayAssignGroups_iff hscoped).mp hassign g hg)
  | account user requested update roleChanged htarget _ _ hclean hgroups =>
    obtain ⟨old, -, rfl⟩ := Option.map_eq_some_iff.mp hrow
    rw [UserWrite.target, Username.of_name]
    refine origin_of_merge hscoped htarget.fetched hclean ?_
    rwa [← hgroups]
  | groups user requested htarget _ hclean =>
    obtain ⟨old, -, rfl⟩ := Option.map_eq_some_iff.mp hrow
    rw [UserWrite.target, Username.of_name]
    exact origin_of_merge hscoped htarget.fetched hclean hg
  | delete => cases hrow
  | _ =>
    -- the other writes keep the list
    obtain ⟨old, hold, rfl⟩ := Option.map_eq_some_iff.mp hrow
    exact .inr ⟨old, hold, hg⟩

theorem addMember_origin {form : MemberForm} (h : addMember scope db form = .ok w)
    (hscoped : scope.unscoped = false) {row : StoredUser}
    (hrow : w.result (db.lookup (Username.of w.target)) = some row)
    (hg : g ∈ parseGroups row.groups) : Origin scope db (Username.of w.target) g := by
  obtain ⟨user, group, hfetch, hgroup, -, -, rfl⟩ := addMember_ok h
  obtain ⟨old, -, rfl⟩ := Option.map_eq_some_iff.mp hrow
  rw [UserWrite.target, Username.of_name]
  refine origin_of_merge hscoped (fetch_of_fetch hfetch) ?_ hg
  intro g hg
  rcases mem_pushNew.mp hg with hg | rfl
  · obtain ⟨stored, -, rfl⟩ := Users.fetch_eq_some.mp hfetch
    exact clean_of_mem_parseGroups (List.mem_of_mem_filter hg)
  · exact hgroup

/-- An account a scoped Editor may not touch. -/
def Outside (scope : EditorScope) (user : UserRow) : Prop :=
  user.role = .admin ∨ ∀ g ∈ user.groups, g ∉ scope.groups

theorem Outside.not_touchable (hout : Outside scope user) (hscoped : scope.unscoped = false) :
    scope.mayTouchUser user ≠ true := by
  intro hmay
  obtain ⟨hadmin, g, hg, hown⟩ := (EditorScope.mayTouchUser_iff hscoped).mp hmay
  rcases hout with hrole | hdisjoint
  · exact hadmin hrole
  · exact hdisjoint g hg hown

/-- A judged write that creates nothing has a target the caller may touch. -/
theorem Effect.touchable (heff : Effect scope db w) (hadmin : scope.role ≠ .admin)
    (hcreates : w.creates = false) :
    ∃ row, db.lookup (Username.of w.target) = some row ∧
      scope.mayTouchUser (rowFrom (Username.of w.target) row) = true := by
  have hjudged : ∀ {user : UserRow}, Target scope db user →
      ∃ row, db.lookup (Username.of user.username.name) = some row ∧
        scope.mayTouchUser (rowFrom (Username.of user.username.name) row) = true := by
    intro user htarget
    obtain ⟨row, hrow, huser⟩ := stored_of_fetch htarget.fetched
    rw [Username.of_name]
    refine ⟨row, hrow, ?_⟩
    rw [← huser]
    exact htarget.touchable
  cases heff with
  | create => cases hcreates
  | delete _ h => exact absurd h hadmin
  | account _ _ _ _ htarget => exact hjudged htarget
  | profile _ _ _ _ htarget => exact hjudged htarget
  | groups _ _ htarget => exact hjudged htarget
  | role _ _ htarget => exact hjudged htarget
  | password _ _ htarget => exact hjudged htarget

end Origin

inductive Request where
  | createUser (form : CreateForm) (salt : Str)
  | saveEdit (username : Str) (form : EditForm)
  | setProfile (username : Str) (form : ProfileForm)
  | setGroups (username groups : Str)
  | setRole (username role : Str)
  | resetPassword (username password salt : Str)
  | deleteUser (username : Str)
  | createGroup (form : MemberForm)
  | addMember (form : MemberForm)
  | removeMember (form : MemberForm)
  | renameGroup (form : RenameForm)
  | deleteGroup (name : Str)

/-- Carry out the write of an accepted request; a failed transaction changes nothing. -/
def Store.commit (store : Store σ) (w : UserWrite) : Store σ :=
  { store with users := (w.apply store.users).getD store.users }

variable [PasswordHashing]

/-- One request from start to end.  Every route is behind the Editor guard. -/
def serve (session : Session) (store : Store σ) (request : Request) :
    Except Response (Store σ) := do
  ensure (Role.editor ≤ session.role) .forbidden
  let scope := session.scope store.users
  match request with
  | .createUser form salt => return store.commit (← create scope form salt)
  | .saveEdit username form => return store.commit (← saveEdit scope store.users username form)
  | .setProfile username form =>
    return store.commit (← setProfile scope store.users username form)
  | .setGroups username groups =>
    return store.commit (← setGroups scope store.users username groups)
  | .setRole username role => return store.commit (← setRole scope store.users username role)
  | .resetPassword username password salt =>
    return store.commit (← resetPassword scope store.users username password salt)
  | .deleteUser username => return store.commit (← delete scope store.users username)
  | .createGroup form => return store.commit (← createGroup scope store.users form)
  | .addMember form => return store.commit (← addMember scope store.users form)
  | .removeMember form => return store.commit (← removeMember scope store.users form)
  | .renameGroup form => renameGroup scope store form
  | .deleteGroup name => deleteGroup scope store name

/-- The requests of one session, one after the other. -/
def delegation (session : Session) : Machine (Store σ) Request where
  step store request := some ((serve session store request).toOption.getD store)

/-- Is this an `add_member` request for the account that is accepted? -/
def inducts (session : Session) (k : Username) (store : Store σ) : Request → Bool
  | .addMember form => Username.of form.username = k &&
      (addMember (session.scope store.users) store.users form).isOk
  | _ => false

/-- The account is an Admin's, or the request does not induct it. -/
def Uninducted (session : Session) (k : Username) (row : StoredUser) (store : Store σ)
    (request : Request) : Prop :=
  (rowFrom k row).role = .admin ∨ inducts session k store request = false

instance (session : Session) (k : Username) (row : StoredUser) (store : Store σ)
    (request : Request) : Decidable (Uninducted session k row store request) :=
  inferInstanceAs (Decidable (_ ∨ _))

/-! ## One request of a scoped Editor -/

section Steps

variable {session : Session} {store store' : Store σ} {request : Request} {scope : EditorScope}
  {db : Users} {w : UserWrite}

/-- An Editor's request ends in one write, let through by a judged row or by
`add_member`. -/
theorem serve_ok (hrole : session.role = .editor)
    (hserve : serve session store request = .ok store') :
    ∃ w, store' = store.commit w ∧
      (Effect (session.scope store.users) store.users w ∨
        ∃ form, request = .addMember form ∧
          addMember (session.scope store.users) store.users form = .ok w) := by
  have hadmin : (session.scope store.users).role ≠ .admin := by
    simp [scope_of_editor hrole]
  unfold serve at hserve
  obtain ⟨-, -, h⟩ := accepted_bind.mp hserve
  cases request <;> simp only [accepted_bind, accepted_pure] at h
  case createUser =>
    obtain ⟨w, hw, rfl⟩ := h
    exact ⟨w, rfl, .inl (create_ok hw)⟩
  case saveEdit =>
    obtain ⟨w, hw, rfl⟩ := h
    exact ⟨w, rfl, .inl (saveEdit_ok hw)⟩
  case setProfile =>
    obtain ⟨w, hw, rfl⟩ := h
    exact ⟨w, rfl, .inl (setProfile_ok hw)⟩
  case setGroups =>
    obtain ⟨w, hw, rfl⟩ := h
    exact ⟨w, rfl, .inl (setGroups_ok hw)⟩
  case setRole =>
    obtain ⟨w, hw, rfl⟩ := h
    exact ⟨w, rfl, .inl (setRole_ok hw)⟩
  case resetPassword =>
    obtain ⟨w, hw, rfl⟩ := h
    exact ⟨w, rfl, .inl (resetPassword_ok hw)⟩
  case deleteUser =>
    obtain ⟨w, hw, rfl⟩ := h
    exact ⟨w, rfl, .inl (delete_ok hw)⟩
  case addMember form =>
    obtain ⟨w, hw, rfl⟩ := h
    exact ⟨w, rfl, .inr ⟨form, rfl, hw⟩⟩
  case removeMember =>
    obtain ⟨w, hw, rfl⟩ := h
    exact ⟨w, rfl, .inl (removeMember_ok hw)⟩
  case createGroup =>
    obtain ⟨w, hw, -⟩ := h
    simp only [createGroup, accepted_bind, accepted_ensure] at hw
    obtain ⟨-, hrole, -⟩ := hw
    exact absurd (of_decide_eq_true hrole) hadmin
  case renameGroup =>
    simp only [renameGroup, accepted_bind, accepted_ensure] at h
    obtain ⟨-, hrole, -⟩ := h
    exact absurd (of_decide_eq_true hrole) hadmin
  case deleteGroup =>
    simp only [deleteGroup, accepted_bind, accepted_ensure] at h
    obtain ⟨-, hrole, -⟩ := h
    exact absurd (of_decide_eq_true hrole) hadmin

/-- What one request of an Editor can do: nothing, or one write to the user table. -/
theorem step_cases (hrole : session.role = .editor)
    (hstep : (delegation session).step store request = some store') :
    store' = store ∨ ∃ w db, w.apply store.users = some db ∧ store' = { store with users := db } ∧
      (Effect (session.scope store.users) store.users w ∨
        ∃ form, request = .addMember form ∧
          addMember (session.scope store.users) store.users form = .ok w) := by
  cases Option.some.inj hstep
  cases hserve : serve session store request with
  | error response => exact .inl rfl
  | ok store' =>
    obtain ⟨w, rfl, hsource⟩ := serve_ok hrole hserve
    cases happly : w.apply store.users with
    | none => exact .inl (by simp [Except.toOption, Store.commit, happly])
    | some db =>
      exact .inr ⟨w, db, happly, by simp [Except.toOption, Store.commit, happly], hsource⟩

/-- No request of an Editor gives its own account a group it did not have. -/
theorem step_scope (hrole : session.role = .editor)
    (hstep : (delegation session).step store request = some store') {g : Str}
    (hg : g ∈ (session.scope store'.users).groups) : g ∈ (session.scope store.users).groups := by
  obtain rfl | ⟨w, db, happly, rfl, hsource⟩ := step_cases hrole hstep
  · exact hg
  have hscoped := (scope_of_editor hrole store.users).2
  obtain ⟨name, row, hactor, hrow, hmem⟩ := (mem_scope_groups hrole).mp hg
  rw [UserWrite.lookup_apply happly] at hrow
  split at hrow
  · next heq =>
    have horigin : Origin (session.scope store.users) store.users (Username.of name) g := by
      rw [heq] at hrow ⊢
      rcases hsource with heff | ⟨form, -, hadd⟩
      · exact heff.origin hscoped hrow hmem
      · exact addMember_origin hadd hscoped hrow hmem
    rcases horigin with hown | ⟨old, hold, hmem⟩
    · exact hown
    · exact (mem_scope_groups hrole).mpr ⟨name, old, hactor, hold, hmem⟩
  · exact (mem_scope_groups hrole).mpr ⟨name, row, hactor, hrow, hmem⟩

/-- An account outside the scope stays as it is, unless the request inducts it; an
Admin account cannot be inducted. -/
theorem step_outside (hrole : session.role = .editor)
    (hstep : (delegation session).step store request = some store') {k : Username}
    {row : StoredUser} (hrow : store.users.lookup k = some row)
    (hout : Outside (session.scope store.users) (rowFrom k row))
    (hnot : Uninducted session k row store request) :
    store'.users.lookup k = some row := by
  obtain rfl | ⟨w, db, happly, rfl, hsource⟩ := step_cases hrole hstep
  · exact hrow
  have hscope := scope_of_editor hrole store.users
  rw [UserWrite.lookup_apply happly]
  split
  · next heq =>
    exfalso
    subst heq
    rcases hsource with heff | ⟨form, rfl, hadd⟩
    · have hcreates : w.creates = false := by
        simpa [hrow] using UserWrite.lookup_of_apply happly
      obtain ⟨row', hrow', hmay⟩ := heff.touchable (by simp [hscope.1]) hcreates
      rw [hrow] at hrow'
      cases hrow'
      exact hout.not_touchable hscope.2 hmay
    · obtain ⟨user, group, hfetch, -, -, hmay, rfl⟩ := addMember_ok hadd
      have hname : Username.of form.username = user.username := (Users.fetch_username hfetch).symm
      rcases hnot with hadmin | hnot
      · obtain ⟨stored, hstored, rfl⟩ := Users.fetch_eq_some.mp hfetch
        rw [UserWrite.target, Username.of_name, rowFrom, hstored] at hrow
        cases hrow
        exact ((EditorScope.mayTouchUser_iff hscope.2).mp hmay).1 hadmin
      · simp [inducts, hadd, hname, UserWrite.target, Except.isOk, Except.toBool] at hnot
  · exact hrow

/-- **Delegation frame.** Whatever a scoped Editor requests, an account outside its
initial scope stays as it is, an Admin account always and any other as long as no
accepted `add_member` names it. -/
theorem outsider_unchanged {k : Username} {row : StoredUser} {requests : List Request}
    (hrole : session.role = .editor)
    (hrun : (delegation session).Run (Uninducted session k row) store requests store')
    (hrow : store.users.lookup k = some row)
    (hout : Outside (session.scope store.users) (rowFrom k row)) :
    store'.users.lookup k = some row := by
  have hinv := hrun.invariant
    (I := fun s => s.users.lookup k = some row ∧
      ∀ g ∈ (session.scope s.users).groups, g ∈ (session.scope store.users).groups)
    ⟨hrow, fun _ hg => hg⟩
  refine (hinv ?_).1
  rintro s request s' ⟨hlookup, hshrink⟩ hok hstep
  refine ⟨step_outside hrole hstep hlookup ?_ hok, ?_⟩
  · exact hout.imp_right fun hdisjoint g hg hown => hdisjoint g hg (hshrink g hown)
  · exact fun g hg => hshrink g (step_scope hrole hstep hg)

end Steps

end Delegation

/-! ## Induction reaches further -/

section TwoTeams

attribute [local instance] asciiUnicode plainHashing

def account (role : Role) (groups : Str) : StoredUser :=
  ⟨"salt$Secret-1".toList, role.asStr, false, groups, none, none, none⟩

/-- An Editor of `blue`, a Viewer of `green` and an Admin who is in both. -/
def twoTeams : Store Unit where
  users := ((AList.insert (Username.of "eve".toList) (account .editor "blue".toList) ∅).insert
    (Username.of "gil".toList) (account .viewer "green".toList)).insert
    (Username.of "ada".toList) (account .admin "blue,green".toList)
  specs := .empty

def eve : Session := ⟨.editor, some "eve".toList⟩

/-- Add the Viewer to the Editor's team, then set its password. -/
def takeOver : List Request :=
  [.addMember ⟨"blue".toList, "gil".toList⟩,
    .resetPassword "gil".toList "Passw0rd!".toList "salt".toList]

theorem takeOver_reaches_stranger :
    ¬ ∀ (session : Session) (store store' : Store Unit) (requests : List Request)
        (k : Username) (row : StoredUser), session.role = .editor →
      (delegation session).Run Free store requests store' →
      store.users.lookup k = some row →
      (∀ g ∈ (rowFrom k row).groups, g ∉ (session.scope store.users).groups) →
      store'.users.lookup k = some row := by
  intro hclaim
  have h := hclaim eve twoTeams (((delegation eve).exec twoTeams takeOver).get (by decide +kernel))
    takeOver (Username.of "gil".toList) (account .viewer "green".toList) rfl
    (run_free_iff.mpr (Option.some_get _).symm) (by decide +kernel) (by decide +kernel)
  exact absurd h (by decide +kernel)

/-- The Admin of the same team stays out of reach of the same requests. -/
theorem outsider_unchanged_admin :
    ((delegation eve).exec twoTeams (takeOver ++ [.addMember ⟨"blue".toList, "ada".toList⟩])).map
        (fun store => store.users.lookup (Username.of "ada".toList)) =
      some (some (account .admin "blue,green".toList)) := by
  have hsome : ((delegation eve).execIf
      (Uninducted eve (Username.of "ada".toList) (account .admin "blue,green".toList)) twoTeams
      (takeOver ++ [.addMember ⟨"blue".toList, "ada".toList⟩])).isSome = true := by decide
  have hrun := run_execIf hsome
  rw [run_free_iff.mp (hrun.mono fun _ _ _ => trivial)]
  exact congrArg some (outsider_unchanged rfl hrun (by decide) (.inl (by decide)))

end TwoTeams

end Ruscker.Admin
