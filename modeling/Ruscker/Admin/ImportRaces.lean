import Ruscker.Admin.SpecImport
import Ruscker.Lib.Machine

/-!
# Imports against each other

Every import lists the credential names once and then writes one credential after the
other, each in a transaction of its own; the rows of its specs follow in a last one.  Any
number of imports interleave, and any call to the database may fail.
-/

namespace Ruscker.Admin.ImportRaces

open Machines Machines.Machine SpecImport

/-- A credential write of an import. -/
structure Write where
  importer : Nat
  name : Str
  login : Login
  deriving DecidableEq

def newWrites (i : Nat) (x x' : Extraction) : List Write :=
  (x'.byTriple.take (x'.byTriple.length - x.byTriple.length)).map fun e => ⟨i, e.2, e.1⟩

theorem newWrites_self {i : Nat} {x : Extraction} : newWrites i x x = [] := by simp [newWrites]

theorem newWrites_create {i : Nat} {x : Extraction} {login : Login} {name : Str} {used : List Str}
    {created : Nat} :
    newWrites i x { used, byTriple := (login, name) :: x.byTriple, created } =
      [⟨i, name, login⟩] := by
  simp [newWrites]

section Model

variable [Floats]

inductive Phase where
  | listing (specs : List (Spec Settings))
  /-- `todo` is what is left of the loop -/
  | extracting (x : Extraction) (done todo : List (Spec Settings))
  | finished
  deriving DecidableEq

/-- `base` is the store the import began with. -/
structure Import where
  ids : List Str
  base : CredentialStore
  phase : Phase

structure State where
  store : CredentialStore
  imports : List Import
  /-- ghost -/
  writes : List Write
  /-- the spec rows the imports wrote -/
  rows : List (Spec Settings)

inductive Event where
  | begin (ids : List Str) (specs : List (Spec Settings))
  | list (i : Nat) (answered : Bool)
  | extract (i : Nat) (draw : Draw)
  | commit (i : Nat) (answered : Bool)

namespace State

def list (s : State) (i : Nat) (answered : Bool) : Option State :=
  match s.imports[i]? with
  | some ⟨ids, base, .listing specs⟩ =>
    let listing := if answered then some (Credentials.listAll s.store) else none
    some { s with imports := s.imports.set i ⟨ids, base, .extracting (.start listing) [] specs⟩ }
  | _ => none

/-- `import_selected` writes the rows of the selected specs, all or none. -/
def commit (s : State) (i : Nat) (answered : Bool) : Option State :=
  match s.imports[i]? with
  | some ⟨ids, base, .extracting _ done []⟩ =>
    some { s with
      imports := s.imports.set i ⟨ids, base, .finished⟩
      rows := if answered then s.rows ++ done.filter fun spec => ids.contains spec.id
        else s.rows }
  | _ => none

end State

end Model

section Machine

variable [Floats] [Aead]

def State.extract (key : MasterKey) (s : State) (i : Nat) (draw : Draw) : Option State :=
  match s.imports[i]? with
  | some ⟨ids, base, .extracting x done (spec :: todo)⟩ =>
    let one := extractSelected key ids draw x s.store spec
    some { s with
      store := one.2.1
      imports := s.imports.set i ⟨ids, base, .extracting one.1 (done ++ [one.2.2]) todo⟩
      writes := s.writes ++ newWrites i x one.1 }
  | _ => none

def step (key : MasterKey) (s : State) : Event → Option State
  | .begin ids specs =>
    some { s with imports := s.imports ++ [⟨ids, s.store, .listing specs⟩] }
  | .list i answered => s.list i answered
  | .extract i draw => s.extract key i draw
  | .commit i answered => s.commit i answered

def machine (key : MasterKey) : Machine State Event := ⟨step key⟩

end Machine

section Promises

variable [Floats]

def initial (store : CredentialStore) : State := ⟨store, [], [], []⟩

/-! ## What the imports promise -/

/-- No import touches a credential that was there before it, two imports never share a name
for different passwords, and no row carries a password in the clear. -/
structure Guarded (s : State) : Prop where
  preserved : ∀ imp ∈ s.imports, ∀ name row, imp.base.lookup name = some row →
    s.store.lookup name = some row
  apart : ∀ w ∈ s.writes, ∀ w' ∈ s.writes, w.importer ≠ w'.importer → w.name = w'.name →
    w.login.password = w'.login.password
  sealed : ∀ row ∈ s.rows, ∀ password,
    nonEmpty row.settings.dockerRegistryPassword = some password →
    isPureEnvRef password = true

/-- The loop of an import still has specs to go through. -/
def Phase.Busy : Phase → Prop
  | .extracting _ _ todo => todo ≠ []
  | _ => False

instance (phase : Phase) : Decidable phase.Busy := by
  unfold Phase.Busy
  split <;> exact inferInstance

/-- The state of the loop and the spec that is next. -/
def Phase.next : Phase → Option (Extraction × Spec Settings)
  | .extracting x _ (spec :: _) => some (x, spec)
  | _ => none

/-! ## The invariant -/

/-- A selected spec keeps no inline password. -/
def Stripped (ids : List Str) (spec : Spec Settings) : Prop :=
  ids.contains spec.id = true → nonEmpty spec.settings.dockerRegistryPassword = none


/-- A loop that goes on has every stored name in use, and no loop leaves a password. -/
def PhaseOk (ids : List Str) (store : CredentialStore) : Phase → Prop
  | .extracting x done todo =>
    (todo ≠ [] → ∀ name, (store.lookup name).isSome = true → name ∈ x.used) ∧
      ∀ spec ∈ done, Stripped ids spec
  | _ => True

/-- No two imports are in their loops at once. -/
def Alone (imports : List Import) : Prop :=
  ∀ (i j : Nat) (a b : Import), imports[i]? = some a → imports[j]? = some b →
    a.phase.Busy → b.phase.Busy → i = j

structure Inv (s : State) : Prop where
  phases : ∀ imp ∈ s.imports, PhaseOk imp.ids s.store imp.phase
  preserved : ∀ imp ∈ s.imports, ∀ name row, imp.base.lookup name = some row →
    s.store.lookup name = some row
  alone : Alone s.imports
  stored : ∀ w ∈ s.writes, (s.store.lookup w.name).isSome = true
  names : (s.writes.map Write.name).Nodup
  rows : ∀ row ∈ s.rows, nonEmpty row.settings.dockerRegistryPassword = none

theorem inv_initial (store : CredentialStore) : Inv (initial store) where
  phases _ himp := absurd himp List.not_mem_nil
  preserved _ himp := absurd himp List.not_mem_nil
  alone _ _ _ _ ha := nomatch ha
  stored _ hw := absurd hw List.not_mem_nil
  names := List.nodup_nil
  rows _ hrow := absurd hrow List.not_mem_nil

variable {imports : List Import} {i : Nat} {s s' : State}

theorem alone_concat (h : Alone imports) {imp : Import} (hidle : ¬ imp.phase.Busy) :
    Alone (imports ++ [imp]) := by
  intro i j a b ha hb hbusy hbusy'
  rcases getElem?_concat_cases ha with rfl | ha
  · exact absurd hbusy hidle
  · rcases getElem?_concat_cases hb with rfl | hb
    · exact absurd hbusy' hidle
    · exact h i j a b ha hb hbusy hbusy'

/-- A loop may go on while no other one does. -/
theorem alone_set {imp : Import}
    (hothers : ∀ j b, imports[j]? = some b → b.phase.Busy → j = i) :
    Alone (imports.set i imp) := by
  have heq : ∀ j a, (imports.set i imp)[j]? = some a → a.phase.Busy → j = i := by
    intro j a ha hbusy
    rcases getElem?_set_cases ha with ⟨hj, -⟩ | ⟨-, hold⟩
    · exact hj
    · exact hothers j a hold hbusy
  intro j k a b ha hb hbusy hbusy'
  rw [heq j a ha hbusy, heq k b hb hbusy']

theorem alone_set_idle (h : Alone imports) {imp : Import} (hidle : ¬ imp.phase.Busy) :
    Alone (imports.set i imp) := by
  intro j k a b ha hb hbusy hbusy'
  rcases getElem?_set_cases ha with ⟨-, rfl⟩ | ⟨-, ha⟩
  · exact absurd hbusy hidle
  · rcases getElem?_set_cases hb with ⟨-, rfl⟩ | ⟨-, hb⟩
    · exact absurd hbusy' hidle
    · exact h j k a b ha hb hbusy hbusy'

/-! ## Steps -/

theorem inv_begin (hinv : Inv s) (ids : List Str) (specs : List (Spec Settings)) :
    Inv { s with imports := s.imports ++ [⟨ids, s.store, .listing specs⟩] } where
  phases := forall_mem_concat hinv.phases trivial
  preserved := forall_mem_concat hinv.preserved fun _ _ h => h
  alone := alone_concat hinv.alone id
  stored := hinv.stored
  names := hinv.names
  rows := hinv.rows

theorem inv_list (hinv : Inv s) (hidle : ∀ imp ∈ s.imports, ¬ imp.phase.Busy)
    (hstep : s.list i true = some s') : Inv s' := by
  unfold State.list at hstep
  split at hstep
  · next ids base specs hi =>
    have hbase := hinv.preserved _ (List.mem_of_getElem? hi)
    have hothers : ∀ j b, s.imports[j]? = some b → b.phase.Busy → j = i :=
      fun j b hj hbusy => absurd hbusy (hidle b (List.mem_of_getElem? hj))
    have hphase : PhaseOk ids s.store
        (.extracting (.start (some (Credentials.listAll s.store))) [] specs) :=
      ⟨fun _ _ => Credentials.mem_listAll, fun _ hspec => absurd hspec List.not_mem_nil⟩
    cases hstep
    exact ⟨forall_mem_set hinv.phases hphase, forall_mem_set hinv.preserved hbase,
      alone_set hothers, hinv.stored, hinv.names, hinv.rows⟩
  · cases hstep

theorem inv_commit (hinv : Inv s) {answered : Bool} (hstep : s.commit i answered = some s') :
    Inv s' := by
  unfold State.commit at hstep
  split at hstep
  · next ids base x done hi =>
    have hbase := hinv.preserved _ (List.mem_of_getElem? hi)
    have hdone := (hinv.phases _ (List.mem_of_getElem? hi)).2
    cases hstep
    refine ⟨?_, ?_, ?_, hinv.stored, hinv.names, ?_⟩
    · exact forall_mem_set hinv.phases trivial
    · exact forall_mem_set hinv.preserved hbase
    · exact alone_set_idle hinv.alone id
    · intro row hrow
      cases answered with
      | false => exact hinv.rows row hrow
      | true =>
        rcases List.mem_append.mp hrow with hold | hnew
        · exact hinv.rows row hold
        · obtain ⟨hmem, hselected⟩ := List.mem_filter.mp hnew
          exact hdone row hmem hselected
  · cases hstep

/-! ## A loop moves on -/

variable {ids : List Str} {base store' : CredentialStore} {x x' : Extraction}
  {done todo : List (Spec Settings)} {spec spec' : Spec Settings}

/-- What a loop that does not go on asks of the store is nothing. -/
theorem PhaseOk.of_idle {store : CredentialStore} {phase : Phase} (h : PhaseOk ids store phase)
    (hidle : ¬ phase.Busy) : PhaseOk ids store' phase := by
  cases phase with
  | listing specs => trivial
  | extracting x done todo => exact ⟨fun htodo => absurd htodo hidle, h.2⟩
  | finished => trivial

/-- A new credential takes no stored name. -/
theorem Inv.fresh (hinv : Inv s)
    (hi : s.imports[i]? = some ⟨ids, base, .extracting x done (spec :: todo)⟩) (login : Login) :
    s.store.lookup (login.freshName x.used) = none := by
  have hok := hinv.phases _ (List.mem_of_getElem? hi)
  cases hlookup : s.store.lookup (login.freshName x.used) with
  | none => rfl
  | some row =>
    have hused := hok.1 (List.cons_ne_nil _ _) (login.freshName x.used) (by rw [hlookup]; rfl)
    exact absurd hused (login.freshName_notMem x.used)

/-- The store may grow by names the loop has in use, as no other loop goes on. -/
theorem Inv.moveOn (hinv : Inv s)
    (hi : s.imports[i]? = some ⟨ids, base, .extracting x done (spec :: todo)⟩)
    (hgrow : ∀ name row, s.store.lookup name = some row → store'.lookup name = some row)
    (hused : ∀ name, (store'.lookup name).isSome = true → name ∈ x'.used)
    (hstripped : Stripped ids spec') {writes : List Write}
    (hstored : ∀ w ∈ writes, (store'.lookup w.name).isSome = true)
    (hnames : (writes.map Write.name).Nodup) :
    Inv ⟨store', s.imports.set i ⟨ids, base, .extracting x' (done ++ [spec']) todo⟩, writes,
      s.rows⟩ := by
  have hmem := List.mem_of_getElem? hi
  have hphase : PhaseOk ids store' (.extracting x' (done ++ [spec']) todo) :=
    ⟨fun _ => hused, forall_mem_concat (hinv.phases _ hmem).2 hstripped⟩
  have hbase : ∀ name row, base.lookup name = some row → store'.lookup name = some row :=
    fun name row h => hgrow name row (hinv.preserved _ hmem name row h)
  have hothers : ∀ j b, s.imports[j]? = some b → b.phase.Busy → j = i := fun j b hj hbusy =>
    hinv.alone j i b _ hj hi hbusy (List.cons_ne_nil _ _)
  refine ⟨?_, ?_, alone_set hothers, hstored, hnames, hinv.rows⟩
  · intro imp himp
    obtain ⟨j, hj⟩ := List.mem_iff_getElem?.mp himp
    rcases getElem?_set_cases hj with ⟨-, rfl⟩ | ⟨hne, hold⟩
    · exact hphase
    · have hidle : ¬ imp.phase.Busy := fun hbusy => hne (hothers j imp hold hbusy)
      exact (hinv.phases imp (List.mem_of_getElem? hold)).of_idle hidle
  · refine forall_mem_set (fun imp himp name row h => ?_) hbase
    exact hgrow name row (hinv.preserved imp himp name row h)

theorem Inv.guarded (hinv : Inv s) : Guarded s where
  preserved := hinv.preserved
  apart w hw w' hw' hne hname :=
    absurd (congrArg Write.importer (List.inj_on_of_nodup_map hinv.names hw hw' hname)) hne
  sealed row hrow password hpassword := by
    rw [hinv.rows row hrow] at hpassword
    cases hpassword

end Promises

/-! ## Serial runs -/

section Serial

variable [Floats] [Aead] {key : MasterKey} {ids : List Str} {x x' : Extraction}
  {store store' : CredentialStore} {spec spec' : Spec Settings} {s s' : State} {i : Nat}

/-- The login a spec needs a new credential for. -/
def neededLogin (ids : List Str) (x : Extraction) (spec : Spec Settings) : Option Login :=
  if ids.contains spec.id then
    (inlineLogin spec).filter fun login => (x.byTriple.lookup login).isNone
  else none

/-- The side condition: the names are listed while no other import is in its loop, the
listing succeeds, and so does every write of a credential. -/
def Serial (key : MasterKey) (s : State) : Event → Prop
  | .list _ answered => answered = true ∧ ∀ imp ∈ s.imports, ¬ imp.phase.Busy
  | .extract i draw => ∀ imp ∈ s.imports[i]?, ∀ next ∈ imp.phase.next,
      ∀ login ∈ neededLogin imp.ids next.1 next.2, CanStore key draw login
  | _ => True

instance (key : MasterKey) (s : State) (e : Event) : Decidable (Serial key s e) := by
  unfold Serial
  split <;> exact inferInstance

/-- Where the write it needs succeeds, a spec leaves no password behind and creates at most
one credential. -/
theorem extractSelected_cases {draw : Draw}
    (hcan : ∀ login ∈ neededLogin ids x spec, CanStore key draw login)
    (h : extractSelected key ids draw x store spec = (x', store', spec')) :
    Stripped ids spec' ∧ ((x' = x ∧ store' = store) ∨ ∃ login enc,
      x' = { used := login.freshName x.used :: x.used
             byTriple := (login, login.freshName x.used) :: x.byTriple
             created := x.created + 1 } ∧
      store' = store.insert (login.freshName x.used)
        (Credentials.rowOf login.domain login.username enc)) := by
  unfold extractSelected at h
  unfold neededLogin at hcan
  by_cases hselected : ids.contains spec.id = true
  · rw [if_pos hselected] at h hcan
    rcases extractSpec_cases h with ⟨rfl, rfl, rfl, hstays⟩ | ⟨rfl, rfl, hrewired⟩ |
      ⟨login, enc, -, -, rfl, rfl, rfl⟩
    · refine ⟨fun _ => ?_, .inl ⟨rfl, rfl⟩⟩
      cases hpassword : nonEmpty spec'.settings.dockerRegistryPassword with
      | none => rfl
      | some password =>
        cases hlogin : inlineLogin spec' with
        | none => simp [inlineLogin, hpassword] at hlogin
        | some login =>
          obtain ⟨hlookup, hcannot⟩ := hstays login hlogin
          refine absurd (hcan login ?_) hcannot
          rw [hlogin, Option.mem_def, Option.filter_some, hlookup]
          rfl
    · obtain ⟨login, name, -, -, rfl⟩ := hrewired
      exact ⟨fun _ => rfl, .inl ⟨rfl, rfl⟩⟩
    · exact ⟨fun _ => rfl, .inr ⟨login, enc, rfl, rfl⟩⟩
  · rw [if_neg hselected] at h
    cases h
    exact ⟨fun hin => absurd hin hselected, .inl ⟨rfl, rfl⟩⟩

theorem inv_extract (hinv : Inv s) {draw : Draw} (hok : Serial key s (.extract i draw))
    (hstep : s.extract key i draw = some s') : Inv s' := by
  unfold State.extract at hstep
  split at hstep
  · next ids base x done spec todo hi =>
    have hcan := hok _ hi _ rfl
    have hused := (hinv.phases _ (List.mem_of_getElem? hi)).1 (List.cons_ne_nil _ _)
    cases hstep
    generalize hone : extractSelected key ids draw x s.store spec = one
    obtain ⟨x', store', spec'⟩ := one
    obtain ⟨hstripped, ⟨rfl, rfl⟩ | ⟨login, enc, rfl, rfl⟩⟩ := extractSelected_cases hcan hone
    · rw [newWrites_self, List.append_nil]
      exact hinv.moveOn hi (fun _ _ h => h) hused hstripped hinv.stored hinv.names
    · have hfresh := hinv.fresh hi login
      rw [newWrites_create]
      refine hinv.moveOn hi ?_ ?_ hstripped ?_ ?_
      · intro name row h
        have hne : name ≠ login.freshName x.used := by
          rintro rfl
          rw [hfresh] at h
          cases h
        rw [SortedMap.lookup_insert, if_neg hne, h]
      · intro name hname
        by_cases heq : name = login.freshName x.used
        · rw [heq]
          exact List.mem_cons_self
        · rw [SortedMap.lookup_insert, if_neg heq] at hname
          exact List.mem_cons_of_mem _ (hused name hname)
      · refine forall_mem_concat (fun w hw => ?_) (by simp)
        rw [SortedMap.lookup_insert]
        split
        · rfl
        · exact hinv.stored w hw
      · rw [List.map_append, List.map_singleton, List.nodup_append_comm, List.singleton_append,
          List.nodup_cons]
        refine ⟨fun hin => ?_, hinv.names⟩
        obtain ⟨w, hw, heq⟩ := List.mem_map.mp hin
        have hstored := hinv.stored w hw
        rw [heq, hfresh] at hstored
        cases hstored
  · cases hstep

theorem inv_step {e : Event} (hinv : Inv s) (hok : Serial key s e)
    (hstep : (machine key).step s e = some s') : Inv s' := by
  cases e with
  | begin ids specs =>
    cases hstep
    exact inv_begin hinv ids specs
  | list i answered =>
    obtain ⟨rfl, hidle⟩ := hok
    exact inv_list hinv hidle hstep
  | extract i draw => exact inv_extract hinv hok hstep
  | commit i answered => exact inv_commit hinv hstep

/-- **Serial imports.** Whatever stores and specs they start from, and however they
interleave otherwise, imports that list and extract one after the other, without a failed
listing or credential write, keep every promise. -/
theorem guarded_of_serial {store : CredentialStore} {events : List Event}
    (hrun : (machine key).Run (Serial key) (initial store) events s) : Guarded s :=
  (hrun.invariant (inv_initial store) fun _ _ _ => inv_step).guarded

end Serial

/-! ## Two imports of one app -/

section Example

attribute [local instance] wholeFloats openAead

def acmeName : Str := "imported-acme".toList

def beginPull (password : String) : Event := .begin ["a".toList] [pullSpec password]

/-- A failed listing hides the credential that is there. -/
def unlisted : List Event := [beginPull "${PW}", .list 0 false, .extract 0 (zeroDraws 0)]

/-- The second import lists before the first one writes. -/
def crossed : List Event :=
  [beginPull "${PW}", beginPull "${TOKEN}", .list 0 true, .list 1 true,
    .extract 0 (zeroDraws 0), .extract 1 (zeroDraws 0)]

/-- Without a key a password that is not a reference cannot be stored. -/
def unstored : List Event :=
  [beginPull "hunter2", .list 0 true, .extract 0 (zeroDraws 0), .commit 0 true]

/-- The credential an earlier import left. -/
def acmeStore : CredentialStore :=
  SortedMap.empty.insert acmeName ⟨[], "acme".toList, Str.asBytes "${OLD}".toList, []⟩

/-- Each of the three promises is broken by a run. -/
theorem imports_unguarded :
    ¬ ((∀ (key : MasterKey) (store : CredentialStore) (events : List Event) (s : State),
        (machine key).Run Free (initial store) events s →
        ∀ imp ∈ s.imports, ∀ name row, imp.base.lookup name = some row →
          s.store.lookup name = some row) ∨
      (∀ (key : MasterKey) (store : CredentialStore) (events : List Event) (s : State),
        (machine key).Run Free (initial store) events s →
        ∀ w ∈ s.writes, ∀ w' ∈ s.writes, w.importer ≠ w'.importer → w.name = w'.name →
          w.login.password = w'.login.password) ∨
      ∀ (key : MasterKey) (store : CredentialStore) (events : List Event) (s : State),
        (machine key).Run Free (initial store) events s →
        ∀ row ∈ s.rows, ∀ password,
          nonEmpty row.settings.dockerRegistryPassword = some password →
          isPureEnvRef password = true) := by
  rintro (hclaim | hclaim | hclaim)
  · have hkept := hclaim none acmeStore unlisted
      (((machine none).exec (initial acmeStore) unlisted).get (by decide +kernel))
      (run_free_iff.mpr (Option.some_get _).symm)
      ⟨["a".toList], acmeStore, .extracting ⟨[acmeName], _, 1⟩ [_] []⟩ (.head _) acmeName _ rfl
    exact absurd hkept (by decide +kernel)
  · have hsame := hclaim none .empty crossed
      (((machine none).exec (initial .empty) crossed).get (by decide +kernel))
      (run_free_iff.mpr (Option.some_get _).symm)
      ⟨0, acmeName, ⟨[], "acme".toList, "${PW}".toList⟩⟩ (by decide +kernel)
      ⟨1, acmeName, ⟨[], "acme".toList, "${TOKEN}".toList⟩⟩ (by decide +kernel) (by decide +kernel) rfl
    exact absurd hsame (by decide +kernel)
  · have hpure := hclaim none .empty unstored
      (((machine none).exec (initial .empty) unstored).get (by decide +kernel))
      (run_free_iff.mpr (Option.some_get _).symm) (pullSpec "hunter2") (by decide +kernel)
      "hunter2".toList (by decide +kernel)
    exact absurd hpure (by decide +kernel)

/-- The second import lists when the first one has written. -/
def queued : List Event :=
  [beginPull "${PW}", beginPull "${TOKEN}", .list 0 true, .extract 0 (zeroDraws 0),
    .list 1 true, .extract 1 (zeroDraws 0), .commit 1 true, .commit 0 false]

theorem guarded_of_serial_queued :
    ∃ s, (machine none).Run (Serial none) (initial acmeStore) queued s ∧ Guarded s ∧
      s.writes.map Write.name = ["imported-acme-2".toList, "imported-acme-3".toList] := by
  have hsome : ((machine none).execIf (Serial none) (initial acmeStore)
      queued).isSome = true := by decide +kernel
  have hnames : (((machine none).execIf (Serial none) (initial acmeStore) queued).get
      (by decide +kernel)).writes.map Write.name =
        ["imported-acme-2".toList, "imported-acme-3".toList] := by decide +kernel
  exact ⟨_, run_execIf hsome, guarded_of_serial (run_execIf hsome), hnames⟩

end Example

end Ruscker.Admin.ImportRaces
