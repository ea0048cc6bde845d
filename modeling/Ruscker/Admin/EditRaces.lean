import Ruscker.Admin.Delegation

/-!
# Editor requests against changes to the same account

A request of an Editor reads its scope, then the account it is about, checks both and
prepares its write, and writes in a later transaction that looks at neither again.
The machine below lets any other write of the user table commit in between; a ghost
log keeps the account as it stood around every write of an Editor.
-/

namespace Ruscker.Admin.EditRaces

open Guards Tables Machines Machines.Machine

/-! ## Memberships outside a scope -/

def outside (scope : EditorScope) (row : StoredUser) : List Str :=
  (parseGroups row.groups).filter fun g => !scope.hasGroup g

/-- The two rows agree on the groups outside the scope. -/
structure SameOutside (scope : EditorScope) (row row' : StoredUser) : Prop where
  kept : ∀ g ∈ outside scope row, g ∈ outside scope row'
  fresh : ∀ g ∈ outside scope row', g ∈ outside scope row

instance (scope : EditorScope) (row row' : StoredUser) :
    Decidable (SameOutside scope row row') :=
  decidable_of_iff ((∀ g ∈ outside scope row, g ∈ outside scope row') ∧
    ∀ g ∈ outside scope row', g ∈ outside scope row)
    ⟨fun h => ⟨h.1, h.2⟩, fun h => ⟨h.kept, h.fresh⟩⟩

theorem sameOutside_iff {scope : EditorScope} {seen row : StoredUser} : SameOutside scope seen row ↔
    ∀ g, g ∉ scope.groups → (g ∈ parseGroups seen.groups ↔ g ∈ parseGroups row.groups) := by
  constructor
  · intro h g hg
    have hkept := h.kept g
    have hfresh := h.fresh g
    simp only [outside, List.mem_filter, EditorScope.hasGroup, Bool.not_eq_true',
      List.contains_eq_mem, decide_eq_false_iff_not] at hkept hfresh
    exact ⟨fun hin => (hkept ⟨hin, hg⟩).1, fun hin => (hfresh ⟨hin, hg⟩).1⟩
  · intro h
    constructor <;> intro g hg <;>
      simp only [outside, List.mem_filter, EditorScope.hasGroup, Bool.not_eq_true',
        List.contains_eq_mem, decide_eq_false_iff_not] at hg ⊢
    · exact ⟨(h g hg.2).mp hg.1, hg.2⟩
    · exact ⟨(h g hg.2).mpr hg.1, hg.2⟩

theorem sameOutside_merge {scope : EditorScope} {seen row row' : StoredUser}
    (hscoped : scope.unscoped = false) {requested : List Str}
    (hclean : ∀ g ∈ requested, CleanGroup g) (hsame : SameOutside scope row seen)
    (hrow' : row'.groups =
      joinGroups (scope.mergePreservingOutOfScope (parseGroups seen.groups) requested)) :
    SameOutside scope row row' := by
  rw [sameOutside_iff] at hsame ⊢
  intro g hg
  rw [hsame g hg, hrow', EditorScope.mem_stored_merge hscoped hclean]
  simp [hg]

/-- The write carries the memberships outside the scope
of the row it was made for. -/
structure Merging (scope : EditorScope) (seen : StoredUser) (w : UserWrite) : Prop where
  existing : w.creates = false
  result : ∀ row, SameOutside scope row seen →
    ∃ row', w.result (some row) = some row' ∧ SameOutside scope row row'

theorem merging_of_keeps {scope : EditorScope} {seen : StoredUser} {w : UserWrite}
    (hcreates : w.creates = false)
    (hresult : ∀ row, ∃ row', w.result (some row) = some row' ∧ row'.groups = row.groups) :
    Merging scope seen w where
  existing := hcreates
  result row _ := by
    obtain ⟨row', hrow', hgroups⟩ := hresult row
    exact ⟨row', hrow', sameOutside_iff.mpr fun g _ => by rw [hgroups]⟩

section Model

variable [Unicode]

/-! ## Requests and steps -/

/-- The requests of an Editor that change an account. -/
inductive EditRequest where
  | saveEdit (username : Str) (form : EditForm)
  | setGroups (username groups : Str)
  | resetPassword (username password salt : Str)

/-- The handler up to its write.  The last-admin guard reads the table once more, but
for an account an Editor may touch it has nothing to refuse at the read of the row. -/
def EditRequest.check [PasswordHashing] (scope : EditorScope) (db : Users) :
    EditRequest → Except Response UserWrite
  | .saveEdit username form => Admin.saveEdit scope db username form
  | .setGroups username groups => Admin.setGroups scope db username groups
  | .resetPassword username password salt => Admin.resetPassword scope db username password salt

inductive Phase where
  | checking (scope : EditorScope) (request : EditRequest)
  /-- checked on this row, which the write is made for -/
  | writing (scope : EditorScope) (seen : Option StoredUser) (w : UserWrite)
  | finished

/-- The account around a write of an Editor with this scope. -/
structure Commit where
  scope : EditorScope
  account : Username
  before : Option StoredUser
  after : Option StoredUser

structure State where
  users : Users
  pool : List Phase
  /-- ghost -/
  commits : List Commit

inductive Event where
  /-- the write of an Admin's request, or of any other part of the panel -/
  | other (w : UserWrite)
  | arrive (actor : Option Str) (request : EditRequest)
  | check (i : Nat)
  | write (i : Nat)

def State.move (s : State) (i : Nat) (phase : Phase) : State :=
  { s with pool := s.pool.set i phase }

def step [PasswordHashing] (s : State) : Event → Option State
  | .other w => some { s with users := (w.apply s.users).getD s.users }
  | .arrive actor request =>
    let scope := Session.scope ⟨.editor, actor⟩ s.users
    some { s with pool := s.pool ++ [.checking scope request] }
  | .check i =>
    match s.pool[i]? with
    | some (.checking scope request) =>
      match request.check scope s.users with
      | .ok w => some (s.move i (.writing scope (s.users.lookup (Username.of w.target)) w))
      | .error _ => some (s.move i .finished)
    | _ => none
  | .write i =>
    match s.pool[i]? with
    | some (.writing scope _ w) =>
      match w.apply s.users with
      | some users =>
        let k := Username.of w.target
        some { s.move i .finished with
          users
          commits := ⟨scope, k, s.users.lookup k, users.lookup k⟩ :: s.commits }
      | none => some (s.move i .finished)
    | _ => none

def machine [PasswordHashing] : Machine State Event := ⟨step⟩

/-- What an Editor's write owes the account: it may touch it as it stands, and leaves
the memberships outside its scope. -/
def Commit.Respectful (c : Commit) : Prop :=
  ∃ before after, c.before = some before ∧ c.after = some after ∧
    c.scope.mayTouchUser (rowFrom c.account before) = true ∧
    ∀ g, g ∉ c.scope.groups → (g ∈ parseGroups before.groups ↔ g ∈ parseGroups after.groups)

/-! ## Writes that leave what others have read standing -/

/-- The row is still one the scope may touch, with the memberships outside it that the
request saw. -/
def Standing (scope : EditorScope) (k : Username) (seen row : StoredUser) : Prop :=
  scope.mayTouchUser (rowFrom k row) = true ∧ SameOutside scope row seen

instance (scope : EditorScope) (k : Username) (seen row : StoredUser) :
    Decidable (Standing scope k seen row) :=
  inferInstanceAs (Decidable (_ ∧ _))

/-- Would the table serve the prepared write as the one it was checked on? -/
def Phase.stands (db : Users) : Phase → Bool
  | .writing scope seen w =>
    let k := Username.of w.target
    match seen, db.lookup k with
    | some seen, some row => Standing scope k seen row
    | _, _ => true
  | _ => true

/-- The side condition on a write: every other request that has checked its account
still finds it standing. -/
def LeavesStanding (s : State) : Event → Prop
  | .other w => ∀ phase ∈ s.pool, phase.stands ((w.apply s.users).getD s.users) = true
  | .write i =>
    match s.pool[i]? with
    | some (.writing _ _ w) =>
      ∀ phase ∈ s.pool.eraseIdx i, phase.stands ((w.apply s.users).getD s.users) = true
    | _ => True
  | _ => True

instance (s : State) (e : Event) : Decidable (LeavesStanding s e) := by
  unfold LeavesStanding
  split
  · exact inferInstance
  · split
    · exact inferInstance
    · exact instDecidableTrue
  · exact instDecidableTrue

section Steps

variable {s s' : State} {i : Nat} {a b : Phase} {scope : EditorScope} {db : Users}
  {w : UserWrite} {k : Username} {seen row : StoredUser}

/-- A judged write to an existing account merges with the row it was judged on. -/
theorem merging_of_effect (heff : Effect scope db w) (hscoped : scope.unscoped = false)
    (hadmin : scope.role ≠ .admin) (hcreates : w.creates = false)
    (hseen : db.lookup (Username.of w.target) = some seen) : Merging scope seen w := by
  have hgroups : ∀ {user : UserRow}, Target scope db user →
      db.lookup (Username.of user.username.name) = some seen →
      user.groups = parseGroups seen.groups := by
    intro user htarget hseen
    obtain ⟨stored, hstored, huser⟩ := stored_of_fetch htarget.fetched
    rw [Username.of_name, hstored] at hseen
    cases hseen
    rw [huser]
    rfl
  cases heff with
  | create => cases hcreates
  | delete _ h => exact absurd h hadmin
  | account user requested update roleChanged htarget _ _ hclean hupdate =>
    refine ⟨rfl, fun row hsame => ⟨_, rfl, ?_⟩⟩
    refine sameOutside_merge hscoped hclean hsame ?_
    rw [← hgroups htarget hseen, ← hupdate]
  | groups user requested htarget _ hclean =>
    refine ⟨rfl, fun row hsame => ⟨_, rfl, ?_⟩⟩
    refine sameOutside_merge hscoped hclean hsame ?_
    rw [← hgroups htarget hseen]
  | _ => exact merging_of_keeps rfl fun row => ⟨_, rfl, rfl⟩

theorem check_ok [PasswordHashing] {request : EditRequest}
    (h : request.check scope db = .ok w) : Effect scope db w ∧ w.creates = false := by
  cases request with
  | saveEdit username form =>
    refine ⟨saveEdit_ok h, ?_⟩
    simp only [EditRequest.check, saveEdit, accepted_bind, accepted_pure] at h
    obtain ⟨-, -, -, -, -, -, -, -, -, -, -, -, rfl⟩ := h
    rfl
  | setGroups username groups =>
    refine ⟨setGroups_ok h, ?_⟩
    simp only [EditRequest.check, setGroups, accepted_bind, accepted_pure] at h
    obtain ⟨-, -, -, -, -, -, rfl⟩ := h
    rfl
  | resetPassword username password salt =>
    refine ⟨resetPassword_ok h, ?_⟩
    simp only [EditRequest.check, resetPassword, accepted_bind, accepted_pure] at h
    obtain ⟨-, -, -, -, -, -, rfl⟩ := h
    rfl

/-- What a request in flight relies on. -/
def Phase.Sound (db : Users) : Phase → Prop
  | .checking scope _ => scope.role = .editor ∧ scope.unscoped = false
  | .writing scope seen w =>
    ∃ row, seen = some row ∧ Merging scope row w ∧
      ∀ now, db.lookup (Username.of w.target) = some now →
        Standing scope (Username.of w.target) row now
  | .finished => True

structure Inv (s : State) : Prop where
  sound : ∀ phase ∈ s.pool, phase.Sound s.users
  respectful : ∀ c ∈ s.commits, c.Respectful

/-- A request stays sound when the new table still serves what it has read. -/
theorem Phase.Sound.of_stands {db' : Users} (h : a.Sound db) (hstands : a.stands db' = true) :
    a.Sound db' := by
  cases a with
  | writing scope seen w =>
    obtain ⟨row, rfl, hmerging, -⟩ := h
    refine ⟨row, rfl, hmerging, fun now hnow => ?_⟩
    simpa [Phase.stands, hnow] using hstands
  | checking => exact h
  | finished => trivial

theorem Inv.check [PasswordHashing] {request : EditRequest} (h : Inv s)
    (hi : s.pool[i]? = some (.checking scope request))
    (hcheck : request.check scope s.users = .ok w) :
    Inv (s.move i (.writing scope (s.users.lookup (Username.of w.target)) w)) where
  sound := by
    apply forall_mem_set h.sound
    have hscope := h.sound _ (List.mem_of_getElem? hi)
    obtain ⟨heff, hcreates⟩ := check_ok hcheck
    have hadmin : scope.role ≠ .admin := by simp [hscope.1]
    obtain ⟨row, hrow, hmay⟩ := heff.touchable hadmin hcreates
    refine ⟨row, hrow, merging_of_effect heff hscope.2 hadmin hcreates hrow, ?_⟩
    intro now hnow
    obtain rfl : row = now := Option.some.inj (hrow.symm.trans hnow)
    exact ⟨hmay, sameOutside_iff.mpr fun _ _ => Iff.rfl⟩
  respectful := h.respectful

/-- A write on standing ground is respectful. -/
theorem Inv.write {seen : Option StoredUser} {users : Users} (h : Inv s)
    (hi : s.pool[i]? = some (.writing scope seen w)) (happly : w.apply s.users = some users)
    (hstanding : ∀ phase ∈ s.pool.eraseIdx i, phase.stands users = true) :
    Inv { s.move i .finished with
      users
      commits := ⟨scope, Username.of w.target, s.users.lookup (Username.of w.target),
        users.lookup (Username.of w.target)⟩ :: s.commits } where
  sound phase hphase := by
    rcases mem_eraseIdx_of_mem_set hphase with hother | rfl
    · exact (h.sound phase (List.mem_of_mem_eraseIdx hother)).of_stands (hstanding phase hother)
    · trivial
  respectful c hc := by
    rcases List.mem_cons.mp hc with rfl | hold
    · obtain ⟨row, -, hmerging, hground⟩ := h.sound _ (List.mem_of_getElem? hi)
      have hsome := UserWrite.lookup_of_apply happly
      rw [hmerging.existing] at hsome
      obtain ⟨before, hbefore⟩ := Option.isSome_iff_exists.mp hsome
      obtain ⟨hmay, hsame⟩ := hground before hbefore
      obtain ⟨after, hafter, houtside⟩ := hmerging.result before hsame
      refine ⟨before, after, hbefore, ?_, hmay, sameOutside_iff.mp houtside⟩
      rw [UserWrite.lookup_apply happly, if_pos rfl, hbefore, hafter]
    · exact h.respectful c hold

theorem Inv.step [PasswordHashing] {e : Event} (h : Inv s) (hstanding : LeavesStanding s e)
    (hstep : machine.step s e = some s') : Inv s' := by
  have hfinish : ∀ i, Inv (s.move i .finished) :=
    fun i => ⟨forall_mem_set h.sound trivial, h.respectful⟩
  cases e with
  | other w =>
    cases hstep
    exact ⟨fun phase hphase => (h.sound phase hphase).of_stands (hstanding phase hphase),
      h.respectful⟩
  | arrive actor request =>
    cases hstep
    exact ⟨forall_mem_concat h.sound (scope_of_editor rfl s.users), h.respectful⟩
  | check i =>
    simp only [machine, EditRaces.step] at hstep
    split at hstep
    · next scope request hi =>
      split at hstep <;> cases hstep
      · next w hcheck => exact h.check hi hcheck
      · exact hfinish i
    · cases hstep
  | write i =>
    simp only [machine, EditRaces.step] at hstep
    split at hstep
    · next scope seen w hi =>
      split at hstep <;> cases hstep
      · next users happly =>
        refine h.write hi happly ?_
        simpa [LeavesStanding, hi, happly] using hstanding
      · exact hfinish i
    · cases hstep

end Steps

/-- **Editors respect the account as it stands.** In every run whose writes leave what
the requests in flight have read standing, every write of an Editor commits to an account
its scope may touch and keeps the memberships outside that scope. -/
theorem commits_respectful [PasswordHashing] {s s' : State} {es : List Event}
    (hrun : machine.Run LeavesStanding s es s') (hpool : s.pool = []) (hlog : s.commits = []) :
    ∀ c ∈ s'.commits, c.Respectful := by
  have hstart : Inv s := ⟨by simp [hpool], by simp [hlog]⟩
  exact (hrun.invariant hstart fun _ _ _ hinv hstanding hstep =>
    hinv.step hstanding hstep).respectful

end Model

/-! ## A promotion in between -/

section Promotion

attribute [local instance] asciiUnicode plainHashing

/-- An Editor and a Viewer of one team. -/
def oneTeam : State where
  users := (AList.insert (Username.of "eve".toList) (account .editor "blue".toList) ∅).insert
    (Username.of "gil".toList) (account .viewer "blue".toList)
  pool := []
  commits := []

def resetGil : EditRequest := .resetPassword "gil".toList "Passw0rd!".toList "salt".toList

/-- The Viewer becomes an Admin between the check of its row and the new password. -/
def promotedBetween : List Event :=
  [.arrive (some "eve".toList) resetGil, .check 0, .other (.role "gil".toList .admin), .write 0]

theorem promotedBetween_disrespectful :
    ¬ ∀ (s s' : State) (es : List Event), machine.Run Free s es s' → s.pool = [] →
      s.commits = [] → ∀ c ∈ s'.commits, c.Respectful := by
  intro hclaim
  have hsome : (machine.exec oneTeam promotedBetween).isSome = true := by decide +kernel
  have hrespectful := hclaim oneTeam ((machine.exec oneTeam promotedBetween).get hsome)
    promotedBetween (run_free_iff.mpr (Option.some_get hsome).symm) rfl rfl
  let reset : StoredUser :=
    { account .admin "blue".toList with
      passwordHash := "salt$Passw0rd!".toList
      mustChangePassword := true }
  obtain ⟨before, after, hbefore, -, hmay, -⟩ := hrespectful
    ⟨Session.scope ⟨.editor, some "eve".toList⟩ oneTeam.users, Username.of "gil".toList,
      some (account .admin "blue".toList), some reset⟩ (List.mem_cons_self ..)
  cases hbefore
  exact absurd hmay (by decide +kernel)

/-- The profile changes in between, the role only after the write. -/
def promotedAfter : List Event :=
  [.arrive (some "eve".toList) resetGil, .check 0,
    .other (.profile "gil".toList "ops".toList [] []), .write 0, .other (.role "gil".toList .admin)]

theorem commits_respectful_promotedAfter :
    ∃ s', machine.Run LeavesStanding oneTeam promotedAfter s' ∧ s'.commits ≠ [] ∧
      ∀ c ∈ s'.commits, c.Respectful := by
  have hsome : (machine.execIf LeavesStanding oneTeam promotedAfter).isSome = true := by decide
  have hrun := run_execIf hsome
  exact ⟨_, hrun, List.cons_ne_nil _ _, commits_respectful hrun rfl rfl⟩

end Promotion

end Ruscker.Admin.EditRaces
