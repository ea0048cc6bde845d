import Ruscker.Admin.Users
import Ruscker.Auth.Sessions
import Ruscker.Lib.Machine

/-!
# Session roles under concurrent account changes

A login opens its session with the role of the row it read, a password change with the
role of the session it came from, and the account handlers sweep the sessions that
exist after their write.  Nothing orders an insertion after the sweep it should have
met.  The machine below interleaves any number of these requests step by step.
-/

namespace Ruscker.Admin.SessionRoles

open Guards Tables Machines Machines.Machine Auth

section Model

variable [Unicode]

/-- The account handlers that sweep sessions. -/
inductive AccountRequest where
  | setRole (username role : Str)
  | resetPassword (username password salt : Str)
  | delete (username : Str)

/-- Such a handler up to its write, on the table its reads saw. -/
def AccountRequest.check [PasswordHashing] (scope : EditorScope) (seen : Users) :
    AccountRequest → Except Response UserWrite
  | .setRole username role => Admin.setRole scope seen username role
  | .resetPassword username password salt => Admin.resetPassword scope seen username password salt
  | .delete username => Admin.delete scope seen username

structure PasswordForm where
  current : Str
  newPassword : Str
  confirm : Str

/-- What a request does next. -/
inductive Phase where
  /-- login: read the row and verify the password -/
  | verifying (username password : Str)
  /-- login: open a session with the role of this row -/
  | opening (user : UserRow)
  /-- password change: check the form and the current password -/
  | checking (role : Role) (actor : Username) (form : PasswordForm) (salt : Str)
  /-- password change: store the new hash -/
  | storing (role : Role) (actor : Username) (hash : Str)
  /-- password change: sweep the actor's sessions -/
  | renewing (role : Role) (actor : Username)
  /-- password change: open a session with the role of the old one -/
  | reopening (role : Role) (actor : Username)
  /-- account handler: write the user table -/
  | writing (w : UserWrite)
  /-- account handler: sweep the account's sessions -/
  | sweeping (actor : Username)
  | finished

structure State where
  users : Users
  sessions : SessionStore
  now : Nat
  ttl : Nat
  pool : List Phase

inductive Event where
  | tick
  | login (username password : Str)
  | changePassword (id : Str) (form : PasswordForm) (salt : Str)
  /-- the reads of a handler may be older than its write, so what they saw is given -/
  | handle (scope : EditorScope) (seen : Users) (request : AccountRequest)
  | verify (i : Nat)
  | write (i : Nat)
  | sweep (i : Nat)
  | insert (i : Nat) (id : Str)

def State.move (s : State) (i : Nat) (phase : Phase) : State :=
  { s with pool := s.pool.set i phase }

def State.spawn (s : State) (phase : Phase) : State :=
  { s with pool := s.pool ++ [phase] }

def verifies [PasswordHashing] (db : Users) (username password : Str) : Option UserRow :=
  db.verifyLogin username (PasswordHashing.verifyPassword password)

def stepVerify [PasswordHashing] (s : State) (i : Nat) : Phase → Option State
  | .verifying username password =>
    some (s.move i ((verifies s.users username password).elim .finished .opening))
  | .checking role actor form salt =>
    if passwordMeetsPolicy form.newPassword && form.newPassword = form.confirm &&
        (verifies s.users actor.name form.current).isSome then
      some (s.move i
        (.storing role actor (PasswordHashing.hashPassword salt form.newPassword)))
    else some (s.move i .finished)
  | _ => none

def stepWrite (s : State) (i : Nat) : Phase → Option State
  | .storing role actor hash =>
    match s.users.setPassword actor.name hash false with
    | some users => some { s.move i (.renewing role actor) with users }
    | none => some (s.move i .finished)
  | .writing w =>
    match w.apply s.users with
    | some users => some { s.move i (.sweeping (Username.of w.target)) with users }
    | none => some (s.move i .finished)
  | _ => none

def stepSweep (s : State) (i : Nat) : Phase → Option State
  | .renewing role actor =>
    some { s.move i (.reopening role actor) with sessions := s.sessions.revokeByActor actor }
  | .sweeping actor =>
    some { s.move i .finished with sessions := s.sessions.revokeByActor actor }
  | _ => none

def stepInsert (s : State) (i : Nat) (id : Str) : Phase → Option State
  | .opening user =>
    (s.sessions.create s.now s.ttl id user.role (some user.username)).map fun sessions =>
      { s.move i .finished with sessions }
  | .reopening role actor =>
    (s.sessions.create s.now s.ttl id role (some actor)).map fun sessions =>
      { s.move i .finished with sessions }
  | _ => none

def step [PasswordHashing] (s : State) : Event → Option State
  | .tick => some { s with now := s.now + 1 }
  | .login username password => some (s.spawn (.verifying username password))
  | .changePassword id form salt =>
    let (entry, sessions) := s.sessions.validate s.now id
    let s := { s with sessions }
    match entry with
    | some ⟨_, role, some actor⟩ => some (s.spawn (.checking role actor form salt))
    | _ => some s
  | .handle scope seen request =>
    match request.check scope seen with
    | .ok w => some (s.spawn (.writing w))
    | .error _ => some s
  | .verify i => s.pool[i]?.bind (stepVerify s i)
  | .write i => s.pool[i]?.bind (stepWrite s i)
  | .sweep i => s.pool[i]?.bind (stepSweep s i)
  | .insert i id => s.pool[i]?.bind (stepInsert s i id)

def machine [PasswordHashing] : Machine State Event := ⟨step⟩

/-! ## Sweeps that come in time -/

/-- The account exists and its role covers the given one. -/
def covers (db : Users) (u : Username) (role : Role) : Bool :=
  (db.lookup u).elim false fun row => role ≤ (rowFrom u row).role

/-- The account's session a request still has to open would be covered. -/
def Phase.inTime (db : Users) (u : Username) : Phase → Bool
  | .opening user => user.username ≠ u || covers db u user.role
  | .checking role actor .. | .storing role actor _ =>
    -- without its account the change ends before it opens a session
    actor ≠ u || (db.lookup u).isNone || covers db u role
  | .renewing role actor | .reopening role actor => actor ≠ u || covers db u role
  | _ => true

def Phase.sweeps (u : Username) : Phase → Bool
  | .sweeping actor => actor = u
  | _ => false

/-- The side condition on a handler's sweep: a later one follows, or every session of
the account still to be opened is covered. -/
def InTime (s : State) : Event → Prop
  | .sweep i =>
    match s.pool[i]? with
    | some (.sweeping u) =>
      (s.pool.eraseIdx i).any (Phase.sweeps u) = true ∨
        s.pool.all (Phase.inTime s.users u) = true
    | _ => True
  | _ => True

instance (s : State) (e : Event) : Decidable (InTime s e) := by
  unfold InTime
  split
  · split
    · exact inferInstance
    · exact instDecidableTrue
  · exact instDecidableTrue

/-- Every stored session of the account, and every one to come, is covered. -/
structure Sound (s : State) (u : Username) : Prop where
  stored : ∀ id entry, s.sessions.lookup id = some entry → entry.actor = some u →
    covers s.users u entry.role = true
  pending : ∀ phase ∈ s.pool, phase.inTime s.users u = true

/-- What the sweeps maintain for each account. -/
structure Inv (s : State) : Prop where
  sound : ∀ u, (∃ phase ∈ s.pool, phase.sweeps u = true) ∨ Sound s u

section Steps

variable {s s' : State} {i : Nat} {a b : Phase} {u : Username} {users : Users}
  {sessions : SessionStore}

/-- The two tables agree on whether the account exists and on its role. -/
def SameRole (db db' : Users) (u : Username) : Prop :=
  (db'.lookup u).map StoredUser.role = (db.lookup u).map StoredUser.role

theorem SameRole.of_lookup {db db' : Users} (h : db'.lookup u = db.lookup u) :
    SameRole db db' u :=
  congrArg (Option.map StoredUser.role) h

theorem SameRole.covers {db db' : Users} (h : SameRole db db' u) (role : Role) :
    covers db' u role = covers db u role := by
  unfold SameRole at h
  unfold SessionRoles.covers rowFrom
  cases hdb : db.lookup u <;> cases hdb' : db'.lookup u <;> simp_all

theorem SameRole.inTime {db db' : Users} (h : SameRole db db' u) (a : Phase) :
    a.inTime db' u = a.inTime db u := by
  have hnone : (db'.lookup u).isNone = (db.lookup u).isNone := by
    simpa using congrArg Option.isNone h
  cases a <;> simp [Phase.inTime, h.covers, hnone]

/-- A thread's move keeps an account sound when it adds only covered sessions. -/
theorem Sound.move (h : Sound s u) (husers : SameRole s.users users u)
    (hsessions : ∀ id entry, sessions.lookup id = some entry → entry.actor = some u →
      s.sessions.lookup id = some entry ∨ covers s.users u entry.role = true)
    (hb : b.inTime s.users u = true) : Sound { s.move i b with users, sessions } u where
  stored id entry hentry hactor := by
    rw [husers.covers]
    rcases hsessions id entry hentry hactor with hold | hcovered
    · exact h.stored id entry hold hactor
    · exact hcovered
  pending phase hphase := by
    rw [husers.inTime]
    exact forall_mem_set h.pending hb phase hphase

/-- A move that is no handler's sweep may touch an account only if a sweep follows. -/
theorem Inv.move (h : Inv s) (hi : s.pool[i]? = some a) (ha : ∀ u, a.sweeps u = false)
    (husers : ∀ u, b.sweeps u = true ∨ SameRole s.users users u)
    (hsessions : ∀ u, Sound s u → ∀ id entry, sessions.lookup id = some entry →
      entry.actor = some u →
        s.sessions.lookup id = some entry ∨ covers s.users u entry.role = true)
    (hb : ∀ u, Sound s u → b.inTime s.users u = true) :
    Inv { s.move i b with users, sessions } where
  sound u := by
    rcases husers u with hsweeps | hlookup
    · have hlt : i < s.pool.length := (List.getElem?_eq_some_iff.mp hi).1
      exact .inl ⟨b, List.mem_set hlt b, hsweeps⟩
    rcases h.sound u with ⟨phase, hphase, hsweeps⟩ | hsound
    · have hne : phase ≠ a := by
        rintro rfl
        rw [ha u] at hsweeps
        cases hsweeps
      exact .inl ⟨phase, mem_set_of_ne hi hphase hne, hsweeps⟩
    · exact .inr (hsound.move hlookup (hsessions u hsound) (hb u hsound))

theorem Inv.spawn (h : Inv s) (hb : ∀ u, Sound s u → b.inTime s.users u = true) :
    Inv (s.spawn b) where
  sound u := by
    rcases h.sound u with ⟨phase, hphase, hsweeps⟩ | hsound
    · exact .inl ⟨phase, List.mem_append_left _ hphase, hsweeps⟩
    · exact .inr ⟨hsound.stored, forall_mem_concat hsound.pending (hb u hsound)⟩

theorem covers_of_verifies [PasswordHashing] {db : Users} {username password : Str}
    {user : UserRow} (h : verifies db username password = some user) :
    covers db user.username user.role = true := by
  obtain ⟨row, hrow, hverified⟩ := Option.bind_eq_some_iff.mp h
  split at hverified
  · cases hverified
    simp [covers, rowFrom, hrow, Role.le_refl]
  · cases hverified

/-- Verification reads the row, so the role it carries on is the role of that moment. -/
theorem Inv.verify [PasswordHashing] (h : Inv s) (hi : s.pool[i]? = some a)
    (hstep : stepVerify s i a = some s') : Inv s' := by
  cases a with
  | verifying username password =>
    cases hstep
    refine h.move hi (fun _ => rfl) (fun _ => .inr rfl) (fun _ _ _ _ hentry _ => .inl hentry) ?_
    intro u _
    cases hverified : verifies s.users username password with
    | none => rfl
    | some user =>
      have hcovers := covers_of_verifies hverified
      by_cases hu : user.username = u
      · subst hu
        simpa [Phase.inTime] using hcovers
      · simp [Phase.inTime, hu]
  | checking role actor form salt =>
    have hchecking : ∀ u, Sound s u →
        (Phase.checking role actor form salt).inTime s.users u = true :=
      fun u hsound => hsound.pending _ (List.mem_of_getElem? hi)
    simp only [stepVerify] at hstep
    split at hstep <;> cases hstep
    · exact h.move hi (fun _ => rfl) (fun _ => .inr rfl) (fun _ _ _ _ hentry _ => .inl hentry)
        hchecking
    · exact h.move hi (fun _ => rfl) (fun _ => .inr rfl) (fun _ _ _ _ hentry _ => .inl hentry)
        fun _ _ => rfl
  | _ => cases hstep

/-- A write to an account is followed by its sweep; a password change keeps the role. -/
theorem Inv.write (h : Inv s) (hi : s.pool[i]? = some a) (hstep : stepWrite s i a = some s') :
    Inv s' := by
  have hkept : ∀ u, Sound s u → ∀ id entry, s.sessions.lookup id = some entry →
      entry.actor = some u →
      s.sessions.lookup id = some entry ∨ covers s.users u entry.role = true :=
    fun _ _ _ _ hentry _ => .inl hentry
  cases a with
  | storing role actor hash =>
    simp only [stepWrite] at hstep
    split at hstep
    · next users hset =>
      cases hstep
      obtain ⟨row, hrow, -, rfl⟩ := Table.updateWhere_eq_some hset
      rw [Username.of_name] at hrow
      refine h.move hi (fun _ => rfl) (fun u => .inr ?_) hkept ?_
      · unfold SameRole
        rw [Table.lookup_update, Username.of_name]
        split
        · rw [Option.map_map]
          rfl
        · rfl
      · intro u hsound
        have hpending := hsound.pending _ (List.mem_of_getElem? hi)
        by_cases hu : actor = u
        · subst hu
          simpa [Phase.inTime, hrow] using hpending
        · simp [Phase.inTime, hu]
    · cases hstep
      exact h.move hi (fun _ => rfl) (fun _ => .inr rfl) hkept fun _ _ => rfl
  | writing w =>
    simp only [stepWrite] at hstep
    split at hstep
    · next users happly =>
      cases hstep
      refine h.move hi (fun _ => rfl) (fun u => ?_) hkept fun _ _ => rfl
      by_cases hu : Username.of w.target = u
      · exact .inl (by simp [Phase.sweeps, hu])
      · exact .inr (.of_lookup (by rw [UserWrite.lookup_apply happly, if_neg (Ne.symm hu)]))
    · cases hstep
      exact h.move hi (fun _ => rfl) (fun _ => .inr rfl) hkept fun _ _ => rfl
  | _ => cases hstep

/-- A sweep that comes in time leaves its account sound or to a later sweep. -/
theorem Inv.sweep (h : Inv s) (hi : s.pool[i]? = some a) (htime : InTime s (.sweep i))
    (hstep : stepSweep s i a = some s') : Inv s' := by
  cases a with
  | renewing role actor =>
    cases hstep
    refine h.move hi (fun _ => rfl) (fun _ => .inr rfl) ?_ ?_
    · exact fun _ _ _ _ hentry _ => .inl (SessionStore.lookup_revokeByActor.mp hentry).1
    · intro u hsound
      have hpending := hsound.pending _ (List.mem_of_getElem? hi)
      exact hpending
  | sweeping actor =>
    cases hstep
    refine ⟨fun u => ?_⟩
    by_cases hu : actor = u
    · subst hu
      simp only [InTime, hi, List.any_eq_true, List.all_eq_true] at htime
      rcases htime with ⟨phase, hphase, hsweeps⟩ | hpending
      · exact .inl ⟨phase, mem_set_of_mem_eraseIdx hphase, hsweeps⟩
      · refine .inr ⟨fun id entry hentry hactor => ?_, forall_mem_set hpending rfl⟩
        exact absurd hactor (SessionStore.lookup_revokeByActor.mp hentry).2
    · rcases h.sound u with ⟨phase, hphase, hsweeps⟩ | hsound
      · have hne : phase ≠ .sweeping actor := by
          rintro rfl
          exact hu (by simpa [Phase.sweeps] using hsweeps)
        exact .inl ⟨phase, mem_set_of_ne hi hphase hne, hsweeps⟩
      · right
        refine hsound.move (.of_lookup rfl) (fun id entry hentry _ => ?_) rfl
        exact .inl (SessionStore.lookup_revokeByActor.mp hentry).1
  | _ => cases hstep

/-- A covered session is opened, or one whose account is left to a later sweep. -/
theorem Inv.open {role : Role} {actor : Username} {id : Str} (h : Inv s)
    (hi : s.pool[i]? = some a) (ha : ∀ u, a.sweeps u = false)
    (hcreate : s.sessions.create s.now s.ttl id role (some actor) = some sessions)
    (hcovers : ∀ u, Sound s u → actor ≠ u ∨ covers s.users u role = true) :
    Inv { s.move i .finished with sessions } := by
  refine h.move hi ha (fun _ => .inr rfl) ?_ fun _ _ => rfl
  intro u hsound id' entry hentry hactor
  rcases SessionStore.lookup_create hcreate hentry with hold | rfl
  · exact .inl hold
  · rcases hcovers u hsound with hne | hcovered
    · exact absurd (Option.some.inj hactor) hne
    · exact .inr hcovered

theorem Inv.insert {id : Str} (h : Inv s) (hi : s.pool[i]? = some a)
    (hstep : stepInsert s i id a = some s') : Inv s' := by
  have hpending : ∀ u, Sound s u → a.inTime s.users u = true :=
    fun u hsound => hsound.pending a (List.mem_of_getElem? hi)
  cases a with
  | opening user =>
    obtain ⟨sessions, hcreate, rfl⟩ := Option.map_eq_some_iff.mp hstep
    refine h.open hi (fun _ => rfl) hcreate fun u hsound => ?_
    simpa [Phase.inTime] using hpending u hsound
  | reopening role actor =>
    obtain ⟨sessions, hcreate, rfl⟩ := Option.map_eq_some_iff.mp hstep
    refine h.open hi (fun _ => rfl) hcreate fun u hsound => ?_
    simpa [Phase.inTime] using hpending u hsound
  | _ => cases hstep

/-- Every step whose sweeps come in time keeps the invariant. -/
theorem Inv.step [PasswordHashing] {e : Event} (h : Inv s) (htime : InTime s e)
    (hstep : machine.step s e = some s') : Inv s' := by
  cases e with
  | tick =>
    cases hstep
    exact ⟨fun u => (h.sound u).imp_right fun hsound => ⟨hsound.stored, hsound.pending⟩⟩
  | login username password =>
    cases hstep
    exact h.spawn fun _ _ => rfl
  | changePassword id form salt =>
    have hvalidated : Inv { s with sessions := (s.sessions.validate s.now id).2 } := by
      refine ⟨fun u => (h.sound u).imp_right fun hsound => ⟨?_, hsound.pending⟩⟩
      intro id' entry hentry hactor
      exact hsound.stored id' entry (SessionStore.lookup_validate hentry) hactor
    simp only [machine, SessionRoles.step] at hstep
    split at hstep
    · next expiry role actor hentry =>
      cases hstep
      refine hvalidated.spawn fun u hsound => ?_
      have hlookup := SessionStore.lookup_of_validate hentry
      by_cases hu : actor = u
      · subst hu
        simp [Phase.inTime, hsound.stored id _ hlookup rfl]
      · simp [Phase.inTime, hu]
    · cases hstep
      exact hvalidated
  | handle scope seen request =>
    simp only [machine, SessionRoles.step] at hstep
    split at hstep <;> cases hstep
    · exact h.spawn fun _ _ => rfl
    · exact h
  | verify i =>
    obtain ⟨a, hi, hstep⟩ := Option.bind_eq_some_iff.mp hstep
    exact h.verify hi hstep
  | write i =>
    obtain ⟨a, hi, hstep⟩ := Option.bind_eq_some_iff.mp hstep
    exact h.write hi hstep
  | sweep i =>
    obtain ⟨a, hi, hstep⟩ := Option.bind_eq_some_iff.mp hstep
    exact h.sweep hi htime hstep
  | insert i id =>
    obtain ⟨a, hi, hstep⟩ := Option.bind_eq_some_iff.mp hstep
    exact h.insert hi hstep

end Steps

/-- No stored session goes beyond its account. -/
def Covered (s : State) : Prop :=
  ∀ id entry u, s.sessions.lookup id = some entry → entry.actor = some u →
    covers s.users u entry.role = true

/-- Every request has finished. -/
def Quiet (s : State) : Prop := ∀ phase ∈ s.pool, phase = .finished

/-- **Sessions stay within their accounts.** In every run whose sweeps come in time,
once all requests have finished every stored session belongs to an existing account
whose role covers it. -/
theorem covered_of_inTime [PasswordHashing] {s s' : State} {es : List Event}
    (hrun : machine.Run InTime s es s') (hcovered : Covered s) (hquiet : Quiet s)
    (hquiet' : Quiet s') : Covered s' := by
  have hstart : Inv s := by
    refine ⟨fun u => .inr ⟨fun id entry hentry => hcovered id entry u hentry, ?_⟩⟩
    intro phase hphase
    rw [hquiet phase hphase]
    rfl
  have hinv := hrun.invariant hstart fun _ _ _ hinv htime hstep => hinv.step htime hstep
  intro id entry u hentry hactor
  rcases hinv.sound u with ⟨phase, hphase, hsweeps⟩ | hsound
  · rw [hquiet' phase hphase] at hsweeps
    cases hsweeps
  · exact hsound.stored id entry hentry hactor

end Model

/-! ## A login across a demotion -/

section Demotion

attribute [local instance] asciiUnicode plainHashing

def adminRow : StoredUser :=
  ⟨"salt$Secret-1".toList, Role.admin.asStr, false, [], none, none, none⟩

/-- Two Admins and no session. -/
def twoAdmins : State where
  users := (AList.insert (Username.of "ada".toList) adminRow ∅).insert
    (Username.of "bob".toList) adminRow
  sessions := ∅
  now := 0
  ttl := 86400
  pool := []

def breakGlass : EditorScope := ⟨.admin, none, [], true⟩

def demoteBob : Event := .handle breakGlass twoAdmins.users (.setRole "bob".toList "viewer".toList)

/-- The login reads its row before the demotion and opens its session after the sweep. -/
def loginAcross : List Event :=
  [.login "bob".toList "Secret-1".toList, .verify 0, demoteBob, .write 1, .sweep 1,
    .insert 0 "sid".toList]

theorem twoAdmins_covered : Covered twoAdmins ∧ Quiet twoAdmins :=
  ⟨fun _ _ _ hentry => (by cases hentry), fun _ hphase => (by cases hphase)⟩

theorem loginAcross_uncovered :
    ¬ ∀ (s s' : State) (es : List Event), machine.Run Free s es s' → Covered s → Quiet s →
      Quiet s' → Covered s' := by
  intro hclaim
  have hquiet : Quiet ((machine.exec twoAdmins loginAcross).get (by decide)) := by
    have hpool : ((machine.exec twoAdmins loginAcross).get (by decide)).pool =
      [.finished, .finished] := rfl
    intro phase hphase
    rw [hpool] at hphase
    simpa using hphase
  have hcovered := hclaim twoAdmins _ loginAcross (run_free_iff.mpr (Option.some_get _).symm)
    twoAdmins_covered.1 twoAdmins_covered.2 hquiet
  have h := hcovered "sid".toList ⟨86400, .admin, some (Username.of "bob".toList)⟩
    (Username.of "bob".toList) rfl rfl
  exact absurd h (by decide)

/-- The login opens its session before the sweep, and the next one reads the new role. -/
def loginBefore : List Event :=
  [.login "bob".toList "Secret-1".toList, .verify 0, demoteBob, .write 1,
    .insert 0 "sid".toList, .sweep 1, .login "bob".toList "Secret-1".toList, .verify 2,
    .insert 2 "next".toList]

theorem covered_of_inTime_loginBefore :
    ∃ s', machine.Run InTime twoAdmins loginBefore s' ∧ s'.sessions.keys = ["next".toList] ∧
      Covered s' := by
  have hsome : (machine.execIf InTime twoAdmins loginBefore).isSome = true := by decide
  have hrun := run_execIf hsome
  refine ⟨_, hrun, rfl, covered_of_inTime hrun twoAdmins_covered.1 twoAdmins_covered.2 ?_⟩
  have hpool : ((machine.execIf InTime twoAdmins loginBefore).get hsome).pool =
    [.finished, .finished, .finished] := rfl
  intro phase hphase
  rw [hpool] at hphase
  simpa using hphase

end Demotion

end Ruscker.Admin.SessionRoles
