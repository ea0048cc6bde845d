import Ruscker.Db.Users
import Ruscker.Lib.Machine

/-!
# The last administrator

Demoting or deleting an account is one conditional statement whose guard compares the
role column with the text `admin` and counts the rows that hold it.  Everything else
reads the column through `Role.parse`, which takes any casing.  The transactions run
under one lock: the write lock of SQLite, the advisory lock of Postgres.
-/

namespace Ruscker.LastAdmin

open Tables Machines Machines.Machine

/-- A row that reads as an administrator's. -/
def ReadsAdmin (row : StoredUser) : Prop := Role.parse row.role = some .admin

instance (row : StoredUser) : Decidable (ReadsAdmin row) :=
  inferInstanceAs (Decidable (_ = _))

theorem readsAdmin_of_role {row : StoredUser} {role : Role} (h : row.role = role.asStr) :
    ReadsAdmin row ↔ role = .admin := by
  unfold ReadsAdmin
  rw [h, Role.parse_asStr, Option.some_inj]

section Model

variable [Unicode]

/-- Some account reads as Admin. -/
def HasAdmin (db : Users) : Prop := ∃ k row, db.lookup k = some row ∧ ReadsAdmin row

/-- Some account other than `k` reads as Admin. -/
def OtherAdmin (db : Users) (k : Username) : Prop :=
  ∃ e ∈ db.entries, e.1 ≠ k ∧ ReadsAdmin e.2

instance (db : Users) (k : Username) : Decidable (OtherAdmin db k) :=
  inferInstanceAs (Decidable (∃ e ∈ db.entries, _))

/-! ## The guarded operations -/

inductive Op where
  | setRole (username : Str) (role : Role)
  | updateAccount (username : Str) (update : Users.AccountUpdate)
  | delete (username : Str)

namespace Op

def account : Op → Username
  | setRole username _ => Username.of username
  | updateAccount username _ => Username.of username
  | delete username => Username.of username

def run (db : Users) : Op → Option Users
  | setRole username role => db.setRole username role
  | updateAccount username update => db.updateAccount username update
  | delete username => db.delete username

/-- The condition of the statement, on the row of the account. -/
def allowed (db : Users) (row : StoredUser) : Op → Bool
  | setRole _ role => db.keepsAdmin role row
  | updateAccount _ update => db.keepsAdmin update.role row
  | delete _ => row.role ≠ Role.admin.asStr || 1 < db.countAdmins

/-- What the statement makes of the row it affects. -/
def result (row : StoredUser) : Op → Option StoredUser
  | setRole _ role => some { row with role := role.asStr }
  | updateAccount _ update => some { row with
      role := update.role.asStr
      groups := joinGroups update.groups
      setor := cleanField update.setor
      email := cleanField update.email
      celular := cleanField update.celular }
  | delete _ => none

/-- Does the operation leave the account with the Admin role? -/
def keepsRole : Op → Bool
  | setRole _ role => role = .admin
  | updateAccount _ update => update.role = .admin
  | delete _ => false

variable {db db' : Users} {op : Op} {row row' : StoredUser}

omit [Unicode] in
theorem readsAdmin_result (h : op.result row = some row') :
    ReadsAdmin row' ↔ op.keepsRole = true := by
  cases op with
  | setRole _ role =>
    cases h
    rw [readsAdmin_of_role rfl, keepsRole, decide_eq_true_iff]
  | updateAccount _ update =>
    cases h
    rw [readsAdmin_of_role rfl, keepsRole, decide_eq_true_iff]
  | delete _ => cases h

omit [Unicode] in
theorem isSome_result_of_keepsRole (h : op.keepsRole = true) : (op.result row).isSome = true := by
  cases op with
  | setRole => rfl
  | updateAccount => rfl
  | delete => cases h

theorem allowed_eq (op : Op) :
    op.allowed db row = (row.role ≠ Role.admin.asStr || op.keepsRole || 1 < db.countAdmins) := by
  cases op with
  | setRole => rfl
  | updateAccount => rfl
  | delete => simp [allowed, keepsRole]

/-- An accepted operation changes its own account and no other. -/
theorem run_eq_some (h : op.run db = some db') :
    ∃ row, db.lookup op.account = some row ∧ op.allowed db row = true ∧
      ∀ k, db'.lookup k = if k = op.account then op.result row else db.lookup k := by
  cases op with
  | setRole username role =>
    obtain ⟨row, hrow, hcond, rfl⟩ := Table.updateWhere_eq_some h
    exact ⟨row, hrow, hcond, fun k => Table.lookup_update_of_lookup hrow k _⟩
  | updateAccount username update =>
    obtain ⟨row, hrow, hcond, rfl⟩ := Table.updateWhere_eq_some h
    exact ⟨row, hrow, hcond, fun k => Table.lookup_update_of_lookup hrow k _⟩
  | delete username =>
    obtain ⟨row, hrow, hcond, rfl⟩ := Table.deleteWhere_eq_some h
    exact ⟨row, hrow, hcond, fun k => Table.lookup_erase_eq db _ k⟩

/-- An operation on an account that is there is refused by its condition alone. -/
theorem run_eq_none_iff (hrow : db.lookup op.account = some row) :
    op.run db = none ↔ op.allowed db row = false := by
  cases op with
  | setRole username role =>
    have hrun : (setRole username role).run db = _ := Table.updateWhere_of_lookup hrow
    rw [hrun]
    simp [allowed]
  | updateAccount username update =>
    have hrun : (updateAccount username update).run db = _ := Table.updateWhere_of_lookup hrow
    rw [hrun]
    simp [allowed]
  | delete username =>
    have hrun : (delete username).run db = _ := Table.deleteWhere_of_lookup hrow
    rw [hrun]
    simp [allowed]

end Op

/-! ## What one transaction owes -/

/-- Would the operation leave some account that reads as Admin? -/
def LeavesAdmin (db : Users) (op : Op) : Prop :=
  OtherAdmin db op.account ∨
    ∃ row row', db.lookup op.account = some row ∧ op.result row = some row' ∧ ReadsAdmin row'

/-- An accepted operation keeps an administrator, and an operation on an account that
is there is refused only if it would leave none. -/
def Right (db : Users) (op : Op) : Prop :=
  (∀ db', op.run db = some db' → HasAdmin db → HasAdmin db') ∧
    (op.run db = none → (db.lookup op.account).isSome = true → ¬ LeavesAdmin db op)

/-- The side condition on an operation that takes the Admin role from an account: with
the exact text `admin`, the guard counts a second administrator if there is one; with
any other casing, where the guard lets it pass, there is one. -/
def Counted (db : Users) (op : Op) : Prop :=
  ∀ row ∈ db.lookup op.account, ReadsAdmin row → op.keepsRole = false →
    if row.role = Role.admin.asStr then OtherAdmin db op.account → 1 < db.countAdmins
    else OtherAdmin db op.account

instance (db : Users) (op : Op) : Decidable (Counted db op) := by
  unfold Counted
  exact inferInstance

variable {db db' : Users} {op : Op} {k : Username} {row : StoredUser}

theorem otherAdmin_iff :
    OtherAdmin db k ↔ ∃ k' row, k' ≠ k ∧ db.lookup k' = some row ∧ ReadsAdmin row := by
  constructor
  · rintro ⟨⟨k', row⟩, hmem, hne, hreads⟩
    exact ⟨k', row, hne, Table.mem_entries_iff.mp hmem, hreads⟩
  · rintro ⟨k', row, hne, hrow, hreads⟩
    exact ⟨⟨k', row⟩, Table.mem_entries_iff.mpr hrow, hne, hreads⟩

theorem hasAdmin_iff : HasAdmin db ↔ ∃ e ∈ db.entries, ReadsAdmin e.2 := by
  constructor
  · rintro ⟨k, row, hrow, hreads⟩
    exact ⟨⟨k, row⟩, Table.mem_entries_iff.mpr hrow, hreads⟩
  · rintro ⟨⟨k, row⟩, hmem, hreads⟩
    exact ⟨k, row, Table.mem_entries_iff.mp hmem, hreads⟩

instance (db : Users) : Decidable (HasAdmin db) := decidable_of_iff' _ hasAdmin_iff

theorem hasAdmin_iff_of_run (h : op.run db = some db') : HasAdmin db' ↔ LeavesAdmin db op := by
  obtain ⟨row, hrow, -, hlookup⟩ := Op.run_eq_some h
  constructor
  · rintro ⟨k, row', hrow', hreads⟩
    rw [hlookup] at hrow'
    split at hrow'
    · exact .inr ⟨row, row', hrow, hrow', hreads⟩
    · next hne => exact .inl (otherAdmin_iff.mpr ⟨k, row', hne, hrow', hreads⟩)
  · rintro (hother | ⟨row₀, row', hrow₀, hresult, hreads⟩)
    · obtain ⟨k, row', hne, hrow', hreads⟩ := otherAdmin_iff.mp hother
      exact ⟨k, row', by rw [hlookup, if_neg hne, hrow'], hreads⟩
    · obtain rfl : row = row₀ := Option.some.inj (hrow.symm.trans hrow₀)
      exact ⟨op.account, row', by rw [hlookup, if_pos rfl, hresult], hreads⟩

/-- The exact rows are rows that read as Admin. -/
theorem otherAdmin_of_count (hcount : 1 < db.countAdmins) : OtherAdmin db k := by
  by_contra hnone
  have hle : db.entries.countP (fun e => e.2.role = Role.admin.asStr) ≤
      (db.entries.map Sigma.fst).countP (· = k) := by
    rw [List.countP_map]
    refine List.countP_mono_left fun e he hrole => ?_
    by_contra hne
    refine hnone ⟨e, he, by simpa using hne, (readsAdmin_of_role ?_).mpr rfl⟩
    simpa using hrole
  have hone : (db.entries.map Sigma.fst).countP (· = k) ≤ 1 := by
    have hnodup : db.entries.keys.Nodup := db.nodupKeys
    exact List.nodup_iff_count_le_one.mp hnodup k
  have hlt : 1 < db.entries.countP fun e => e.2.role = Role.admin.asStr := hcount
  omega

/-- An operation that keeps the role leaves its own account an administrator. -/
theorem leavesAdmin_of_keepsRole (hrow : db.lookup op.account = some row)
    (hkeeps : op.keepsRole = true) : LeavesAdmin db op := by
  have hsome : (op.result row).isSome = true := Op.isSome_result_of_keepsRole hkeeps
  obtain ⟨row', hresult⟩ := Option.isSome_iff_exists.mp hsome
  exact .inr ⟨row, row', hrow, hresult, (Op.readsAdmin_result hresult).mpr hkeeps⟩

theorem leavesAdmin_iff_of_drops (hdrops : op.keepsRole = false) :
    LeavesAdmin db op ↔ OtherAdmin db op.account := by
  refine ⟨?_, .inl⟩
  rintro (hother | ⟨_, _, -, hresult, hreads⟩)
  · exact hother
  · rw [Op.readsAdmin_result hresult, hdrops] at hreads
    cases hreads

/-- An administrator other than the account stays one whatever happens to the account. -/
theorem otherAdmin_of_hasAdmin (h : HasAdmin db) (hrow : db.lookup op.account = some row)
    (hreads : ¬ ReadsAdmin row) : OtherAdmin db op.account := by
  obtain ⟨k, row', hrow', hreads'⟩ := h
  refine otherAdmin_iff.mpr ⟨k, row', ?_, hrow', hreads'⟩
  rintro rfl
  obtain rfl : row = row' := Option.some.inj (hrow.symm.trans hrow')
  exact hreads hreads'

theorem right_of_counted (h : Counted db op) : Right db op := by
  constructor
  · intro db' hrun hadmin
    obtain ⟨row, hrow, hallowed, -⟩ := Op.run_eq_some hrun
    rw [hasAdmin_iff_of_run hrun]
    cases hkeeps : op.keepsRole with
    | true => exact leavesAdmin_of_keepsRole hrow hkeeps
    | false =>
      by_cases hreads : ReadsAdmin row
      · have hcounted := h row hrow hreads hkeeps
        split at hcounted
        · next hexact =>
          rw [Op.allowed_eq, hkeeps] at hallowed
          exact .inl (otherAdmin_of_count (by simpa [hexact] using hallowed))
        · exact .inl hcounted
      · exact .inl (otherAdmin_of_hasAdmin hadmin hrow hreads)
  · intro hrun hsome hleaves
    obtain ⟨row, hrow⟩ := Option.isSome_iff_exists.mp hsome
    have hrefused := (Op.run_eq_none_iff hrow).mp hrun
    rw [Op.allowed_eq] at hrefused
    obtain ⟨⟨hexact, hdrops⟩, hcount⟩ : (row.role = Role.admin.asStr ∧ op.keepsRole = false) ∧
        db.countAdmins ≤ 1 := by simpa using hrefused
    have hcounted := h row hrow ((readsAdmin_of_role hexact).mpr rfl) hdrops
    rw [if_pos hexact] at hcounted
    have hlt := hcounted ((leavesAdmin_iff_of_drops hdrops).mp hleaves)
    omega

/-- **The guard is right exactly where it counts right.** -/
theorem right_iff_counted (hadmin : HasAdmin db) : Right db op ↔ Counted db op := by
  refine ⟨fun h row hrow hreads hdrops => ?_, right_of_counted⟩
  have hallowed : op.allowed db row = _ := Op.allowed_eq op
  rw [hdrops] at hallowed
  split
  · next hexact =>
    intro hother
    by_contra hle
    have hrun : op.run db = none :=
      (Op.run_eq_none_iff hrow).mpr (by simpa [hexact, hallowed] using hle)
    exact h.2 hrun (by rw [hrow]; rfl) ((leavesAdmin_iff_of_drops hdrops).mpr hother)
  · next hcasing =>
    have hrun : op.run db ≠ none := by
      rw [Ne, Op.run_eq_none_iff hrow, hallowed]
      simp [hcasing]
    obtain ⟨db', hrun⟩ := Option.ne_none_iff_exists'.mp hrun
    exact (leavesAdmin_iff_of_drops hdrops).mp ((hasAdmin_iff_of_run hrun).mp (h.1 db' hrun hadmin))

/-! ## Transactions -/

inductive Phase where
  | waiting (op : Op)
  | locked (op : Op)
  /-- executed, with the table it commits -/
  | written (op : Op) (users : Users)
  | finished

/-- Does the transaction hold the lock? -/
def Phase.holds : Phase → Bool
  | locked _ => true
  | written _ _ => true
  | _ => false

structure State where
  users : Users
  lock : Option Nat
  pool : List Phase
  /-- ghost: the refused operations, with the table they were refused on -/
  refusals : List (Op × Users)

inductive Event where
  | begin (op : Op)
  | acquire (i : Nat)
  | execute (i : Nat)
  | commit (i : Nat)
  /-- a failed statement or a lost connection -/
  | rollback (i : Nat)

def State.move (s : State) (i : Nat) (phase : Phase) : State :=
  { s with pool := s.pool.set i phase }

/-- End a transaction. -/
def State.release (s : State) (i : Nat) : State := { s.move i .finished with lock := none }

def step (s : State) : Event → Option State
  | .begin op => some { s with pool := s.pool ++ [.waiting op] }
  | .acquire i =>
    match s.pool[i]?, s.lock with
    | some (.waiting op), none => some { s.move i (.locked op) with lock := some i }
    | _, _ => none
  | .execute i =>
    match s.pool[i]? with
    | some (.locked op) =>
      match op.run s.users with
      | some users => some (s.move i (.written op users))
      | none => some { s.release i with refusals := (op, s.users) :: s.refusals }
    | _ => none
  | .commit i =>
    match s.pool[i]? with
    | some (.written _ users) => some { s.release i with users }
    | _ => none
  | .rollback i =>
    match s.pool[i]? with
    | some phase => if phase.holds then some (s.release i) else none
    | none => none

def machine : Machine State Event := ⟨step⟩

/-- Every statement executes where its guard counts right. -/
def CountedSteps (s : State) : Event → Prop
  | .execute i =>
    match s.pool[i]? with
    | some (.locked op) => Counted s.users op
    | _ => True
  | _ => True

instance (s : State) (e : Event) : Decidable (CountedSteps s e) := by
  unfold CountedSteps
  split
  · split
    · exact inferInstance
    · exact instDecidableTrue
  · exact instDecidableTrue

/-- No transaction is open. -/
structure Idle (s : State) : Prop where
  lock : s.lock = none
  pool : s.pool = []
  refusals : s.refusals = []

def Justified (r : Op × Users) : Prop :=
  (r.2.lookup r.1.account).isSome = true → ¬ LeavesAdmin r.2 r.1

structure Inv (start : Users) (s : State) : Prop where
  admin : HasAdmin start → HasAdmin s.users
  /-- at most one transaction holds the lock -/
  held : ∀ i phase, s.pool[i]? = some phase → phase.holds = true → s.lock = some i
  kept : ∀ op users, .written op users ∈ s.pool → HasAdmin s.users → HasAdmin users
  justified : ∀ r ∈ s.refusals, Justified r

section Steps

variable {start : Users} {s s' : State} {i : Nat} {phase : Phase} {users : Users}

/-- Nobody else holds the lock of a transaction that holds it, or a free lock. -/
theorem Inv.others_idle (h : Inv start s) (hlock : s.lock = none ∨ s.lock = some i) :
    ∀ j p, j ≠ i → s.pool[j]? = some p → p.holds = false := by
  intro j p hne hj
  by_contra hholds
  have hj' := h.held j p hj (by simpa using hholds)
  rcases hlock with hnone | hsome
  · rw [hnone] at hj'
    cases hj'
  · rw [hsome] at hj'
    exact hne (Option.some.inj hj').symm

theorem of_holds_set {pool : List Phase}
    (hothers : ∀ j p, j ≠ i → pool[j]? = some p → p.holds = false) {j : Nat} {p : Phase}
    (hj : (pool.set i phase)[j]? = some p) (hholds : p.holds = true) : j = i ∧ p = phase := by
  rcases getElem?_set_cases hj with hmoved | ⟨hne, hold⟩
  · exact hmoved
  · rw [hothers j p hne hold] at hholds
    cases hholds

/-- One transaction moves while the lock is its own or free. -/
theorem Inv.moved (h : Inv start s) (hlock : s.lock = none ∨ s.lock = some i)
    {users : Users} {lock : Option Nat} {refusals : List (Op × Users)}
    (hholds : phase.holds = true → lock = some i)
    (hadmin : HasAdmin s.users → HasAdmin users)
    (hkept : ∀ op written, phase = .written op written → HasAdmin users → HasAdmin written)
    (hjustified : ∀ r ∈ refusals, Justified r) :
    Inv start { s.move i phase with users, lock, refusals } where
  admin hstart := hadmin (h.admin hstart)
  held j p hj hp := by
    obtain ⟨rfl, rfl⟩ := of_holds_set (h.others_idle hlock) hj hp
    exact hholds hp
  kept op written hmem hnow := by
    obtain ⟨j, hj⟩ := List.mem_iff_getElem?.mp hmem
    obtain ⟨-, heq⟩ := of_holds_set (h.others_idle hlock) hj rfl
    exact hkept op written heq.symm hnow
  justified := hjustified

theorem Inv.release (h : Inv start s) (hi : s.pool[i]? = some phase)
    (hholds : phase.holds = true) : Inv start (s.release i) :=
  h.moved (.inr (h.held i phase hi hholds)) nofun id nofun h.justified

theorem Inv.step {e : Event} (h : Inv start s) (hcounted : CountedSteps s e)
    (hstep : machine.step s e = some s') : Inv start s' := by
  cases e with
  | begin op =>
    cases hstep
    refine ⟨h.admin, fun i p hi hholds => ?_, fun op' users hmem => ?_, h.justified⟩
    · rcases getElem?_concat_cases hi with rfl | hold
      · cases hholds
      · exact h.held i p hold hholds
    · rcases List.mem_append.mp hmem with hold | hnew
      · exact h.kept op' users hold
      · cases List.mem_singleton.mp hnew
  | acquire i =>
    simp only [machine, LastAdmin.step] at hstep
    split at hstep <;> cases hstep
    next op hi hlock => exact h.moved (.inl hlock) (fun _ => rfl) id nofun h.justified
  | execute i =>
    simp only [machine, LastAdmin.step] at hstep
    split at hstep
    · next op hi =>
      have hlock := h.held i _ hi rfl
      have hright : Right s.users op := right_of_counted (by simpa [CountedSteps, hi] using hcounted)
      split at hstep <;> cases hstep
      · next users hrun =>
        refine h.moved (.inr hlock) (fun _ => hlock) id ?_ h.justified
        rintro op' written ⟨⟩ hadmin
        exact hright.1 users hrun hadmin
      · next hrun =>
        refine h.moved (.inr hlock) nofun id nofun fun r hr => ?_
        rcases List.mem_cons.mp hr with rfl | hold
        · exact hright.2 hrun
        · exact h.justified r hold
    · cases hstep
  | commit i =>
    simp only [machine, LastAdmin.step] at hstep
    split at hstep <;> cases hstep
    next op users hi =>
    refine h.moved (.inr (h.held i _ hi rfl)) nofun ?_ nofun h.justified
    exact h.kept op users (List.mem_of_getElem? hi)
  | rollback i =>
    simp only [machine, LastAdmin.step] at hstep
    split at hstep
    · next phase hi =>
      split at hstep <;> cases hstep
      next hholds => exact h.release hi hholds
    · cases hstep

end Steps

/-- **An administrator stays.** In every run whose statements execute where their guard
counts right, some account reads as Admin as long as one did at the start, and no
operation on an account that is there was refused that would have left one. -/
theorem admin_stays {s s' : State} {es : List Event} (hrun : machine.Run CountedSteps s es s')
    (hidle : Idle s) :
    (HasAdmin s.users → HasAdmin s'.users) ∧ ∀ r ∈ s'.refusals, Justified r := by
  have hstart : Inv s.users s := by
    refine ⟨id, fun i phase hi => ?_, fun op users hmem => ?_, fun r hr => ?_⟩
    · simp [hidle.pool] at hi
    · simp [hidle.pool] at hmem
    · simp [hidle.refusals] at hr
  have hend := hrun.invariant hstart fun _ _ _ hinv hcounted hstep => hinv.step hcounted hstep
  exact ⟨hend.admin, hend.justified⟩

end Model

/-! ## Other casings -/

section Casing

attribute [local instance] asciiUnicode

def withRole (role : Str) : StoredUser := ⟨[], role, false, [], none, none, none⟩

def tableOf (rows : List (Str × Str)) : Users :=
  rows.foldl (fun db r => AList.insert (Username.of r.1) (withRole r.2) db) ∅

def idle (users : Users) : State := ⟨users, none, [], []⟩

/-- An identity provisioner stored the only administrator's role as `Admin`. -/
def soleAdmin : State := idle (tableOf [("ada".toList, "Admin".toList)])

def demotion : List Event :=
  [.begin (.setRole "ada".toList .viewer), .acquire 0, .execute 0, .commit 0]

theorem demotion_leaves_none :
    ¬ ∀ (s s' : State) (es : List Event), machine.Run Free s es s' → Idle s →
      (HasAdmin s.users → HasAdmin s'.users) ∧ ∀ r ∈ s'.refusals, Justified r := by
  intro hclaim
  have hstays := (hclaim soleAdmin ((machine.exec soleAdmin demotion).get (by decide)) demotion
    (run_free_iff.mpr (Option.some_get _).symm) ⟨rfl, rfl, rfl⟩).1
  exact absurd (hstays (by decide)) (by decide)

/-- One administrator is demoted while the other is deleted, beside an Editor of another casing. -/
def twoAdmins : State :=
  idle (tableOf [("ada".toList, "admin".toList), ("bob".toList, "admin".toList),
    ("eve".toList, "EDITOR".toList)])

def demotions : List Event :=
  [.begin (.setRole "ada".toList .viewer), .begin (.delete "bob".toList), .acquire 1, .execute 1,
    .commit 1, .acquire 0, .execute 0]

theorem admin_stays_demotions :
    ∃ s', machine.Run CountedSteps twoAdmins demotions s' ∧ HasAdmin s'.users ∧
      s'.refusals ≠ [] ∧ ∀ r ∈ s'.refusals, Justified r := by
  have hsome : (machine.execIf CountedSteps twoAdmins demotions).isSome = true := by decide
  have hrun := run_execIf hsome
  have hstays := admin_stays hrun ⟨rfl, rfl, rfl⟩
  exact ⟨_, hrun, hstays.1 (by decide), List.cons_ne_nil _ _, hstays.2⟩

end Casing

end Ruscker.LastAdmin
