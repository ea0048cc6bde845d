import Ruscker.Lib.Supply
import Ruscker.Proxy.Spawn

/-!
# Importing inline registry passwords

An import moves the inline registry password of every selected spec into the credential
store and has the spec name the stored login instead.  Equal logins share one credential,
and a new one takes a name that is not in use.
-/

namespace Ruscker.Admin.SpecImport

open Numerals Supply

/-! ## Names -/

def isCredNameChar (c : Char) : Bool := c.isAlphanum || c = '_' || c = '.' || c = '-'

def registryName : Str := "registry".toList

def sanitizeCredName (s : Str) : Str :=
  let cleaned : Str := s.map fun c => if isCredNameChar c then c else '-'
  let trimmed : Str := Tokens.trim (fun c => c = '-') cleaned
  if trimmed.isEmpty then registryName else trimmed

/-- The names tried for a base: `imported-base`, `imported-base-2`, `imported-base-3`. -/
def importedName (base : Str) : Nat → Str
  | 0 => "imported-".toList ++ base
  | n + 1 => "imported-".toList ++ base ++ '-' :: Nat.toDigits 10 (n + 2)

theorem importedName_succ_inj {base : Str} {m n : Nat}
    (h : importedName base (m + 1) = importedName base (n + 1)) : m = n := by
  unfold importedName at h
  have hdigits := congrArg parseNat (List.cons.inj (List.append_cancel_left h)).2
  rw [parseNat_toDigits, parseNat_toDigits] at hdigits
  have heq := Option.some.inj hdigits
  omega

theorem importedName_zero_ne (base : Str) (n : Nat) :
    importedName base 0 ≠ importedName base (n + 1) := by
  intro h
  have hlength := congrArg List.length h
  unfold importedName at hlength
  simp only [List.length_append, List.length_cons] at hlength
  omega

theorem importedName_injective (base : Str) : Function.Injective (importedName base) := by
  intro m n h
  cases m with
  | zero =>
    cases n with
    | zero => rfl
    | succ n => exact absurd h (importedName_zero_ne base n)
  | succ m =>
    cases n with
    | zero => exact absurd h.symm (importedName_zero_ne base m)
    | succ n => exact congrArg Nat.succ (importedName_succ_inj h)

/-! ## The loop over the specs -/

/-- What a credential holds: the key under which equal logins are shared. -/
structure Login where
  domain : Str
  username : Str
  password : Str
  deriving DecidableEq

/-- The name a new credential is given. -/
def Login.freshName (login : Login) (used : List Str) : Str :=
  let base := if !login.domain.isEmpty then login.domain
    else if !login.username.isEmpty then login.username else registryName
  fresh (importedName (sanitizeCredName base)) used

theorem importedName_ne_nil (base : Str) (n : Nat) : importedName base n ≠ [] := by
  cases n with
  | zero => exact List.cons_ne_nil _ _
  | succ n => exact List.cons_ne_nil _ _

theorem Login.freshName_ne_nil (login : Login) (used : List Str) :
    login.freshName used ≠ [] := by
  unfold freshName
  obtain ⟨n, hn⟩ : ∃ n, fresh (importedName _) used = importedName _ n := exists_fresh_eq
  rw [hn]
  exact importedName_ne_nil _ n

theorem Login.freshName_notMem (login : Login) (used : List Str) :
    login.freshName used ∉ used :=
  fresh_notMem (importedName_injective _)

/-- The state of the loop. -/
structure Extraction where
  used : List Str
  byTriple : List (Login × Str)
  created : Nat
  deriving DecidableEq

/-- The names of the listing, and none where it failed. -/
def Extraction.start (listing : Option (List Str)) : Extraction :=
  { used := listing.getD [], byTriple := [], created := 0 }

/-- The nonce of an encryption and whether the database takes the write. -/
structure Draw where
  nonce : Nonce
  answered : Bool

section Logins

variable [Floats]

/-- The inline login of a spec with a password. -/
def inlineLogin (spec : Spec Settings) : Option Login :=
  (nonEmpty spec.settings.dockerRegistryPassword).map fun password =>
    { domain := spec.settings.dockerRegistryDomain.getD []
      username := spec.settings.dockerRegistryUsername.getD [], password }

/-- The spec names the credential and drops the password. -/
def rewire (name : Str) (spec : Spec Settings) : Spec Settings :=
  { spec with settings := { spec.settings with
      dockerRegistryCredential := some name, dockerRegistryPassword := none } }

/-- The spec names a credential the loop made for its login. -/
def Rewired (x : Extraction) (before after : Spec Settings) : Prop :=
  ∃ login name, inlineLogin before = some login ∧ (login, name) ∈ x.byTriple ∧
    after = rewire name before

theorem Rewired.mono {x x' : Extraction} {spec spec' : Spec Settings}
    (h : Rewired x spec spec') (hsub : x.byTriple ⊆ x'.byTriple) : Rewired x' spec spec' := by
  obtain ⟨login, name, hlogin, hmem, heq⟩ := h
  exact ⟨login, name, hlogin, hsub hmem, heq⟩

/-- The inline fields, read as a login. -/
theorem credsFromSpec_of_login {env : Environment} {spec : Spec Settings} {login : Login}
    (h : inlineLogin spec = some login) :
    credsFromSpec env spec = if login.username = [] then .ok none else
      (interpolateValue env login.password).map fun password => some
        { username := login.username, password
          serverAddress := if login.domain = [] then none else some login.domain
          credentialName := none } := by
  obtain ⟨password, hpassword, rfl⟩ := Option.map_eq_some_iff.mp h
  unfold credsFromSpec
  rw [hpassword, nonEmpty_eq, nonEmpty_eq]
  by_cases husername : spec.settings.dockerRegistryUsername.getD [] = []
  · simp only [husername, if_true]
  · simp only [husername, if_false]

theorem credsFromSpec_rewire (env : Environment) (name : Str) (spec : Spec Settings) :
    credsFromSpec env (rewire name spec) = .ok none := by
  unfold credsFromSpec rewire
  cases nonEmpty spec.settings.dockerRegistryUsername with
  | none => rfl
  | some username => rfl

end Logins

section Store

variable [Aead]

def upsertLogin (store : CredentialStore) (key : MasterKey) (draw : Draw) (name : Str)
    (login : Login) : Except CredentialError CredentialStore :=
  if draw.answered then
    (Credentials.upsert store key draw.nonce name login.domain login.username
      login.password).map Prod.fst
  else .error .database

/-- The database takes the write, and the password can be protected. -/
def CanStore (key : MasterKey) (draw : Draw) (login : Login) : Prop :=
  draw.answered = true ∧ (Credentials.protect key draw.nonce login.password).isOk = true

instance (key : MasterKey) (draw : Draw) (login : Login) :
    Decidable (CanStore key draw login) := by
  unfold CanStore; exact inferInstance

/-- The credential of a name holds a login. -/
def Stored (key : MasterKey) (store : CredentialStore) (login : Login) (name : Str) : Prop :=
  ∃ nonce enc, Credentials.protect key nonce login.password = .ok enc ∧
    store.lookup name = some (Credentials.rowOf login.domain login.username enc)

structure Kept (key : MasterKey) (x : Extraction) (store : CredentialStore) : Prop where
  stored : ∀ e ∈ x.byTriple, Stored key store e.1 e.2
  used : ∀ e ∈ x.byTriple, e.2 ∈ x.used
  named : ∀ e ∈ x.byTriple, e.2 ≠ []

variable {key : MasterKey} {x : Extraction} {store : CredentialStore}

theorem kept_start (listing : Option (List Str)) : Kept key (.start listing) store :=
  ⟨nofun, nofun, nofun⟩

theorem Kept.create (hkept : Kept key x store) {login : Login} {nonce : Nonce}
    {enc : Bytes × Bytes} (henc : Credentials.protect key nonce login.password = .ok enc) :
    Kept key
      { used := login.freshName x.used :: x.used
        byTriple := (login, login.freshName x.used) :: x.byTriple, created := x.created + 1 }
      (store.insert (login.freshName x.used)
        (Credentials.rowOf login.domain login.username enc)) := by
  have hfresh : ∀ e ∈ x.byTriple, e.2 ≠ login.freshName x.used := by
    intro e he heq
    exact login.freshName_notMem x.used (heq ▸ hkept.used e he)
  refine ⟨?_, ?_, ?_⟩
  · intro e he
    rcases List.mem_cons.mp he with rfl | he
    · exact ⟨nonce, enc, henc, by simp⟩
    · obtain ⟨nonce', enc', henc', hlookup⟩ := hkept.stored e he
      exact ⟨nonce', enc', henc', by simp [hfresh e he, hlookup]⟩
  · intro e he
    rcases List.mem_cons.mp he with rfl | he
    · exact List.mem_cons_self
    · exact List.mem_cons_of_mem _ (hkept.used e he)
  · intro e he
    rcases List.mem_cons.mp he with rfl | he
    · exact login.freshName_ne_nil x.used
    · exact hkept.named e he

end Store

section Extract

variable [Floats] [Aead]

/-- One selected spec. -/
def extractSpec (key : MasterKey) (draw : Draw) (x : Extraction) (store : CredentialStore)
    (spec : Spec Settings) : Extraction × CredentialStore × Spec Settings :=
  match inlineLogin spec with
  | none => (x, store, spec)
  | some login =>
    match x.byTriple.lookup login with
    | some name => (x, store, rewire name spec)
    | none =>
      let name := login.freshName x.used
      match upsertLogin store key draw name login with
      | .error _ => (x, store, spec)
      | .ok store' =>
        ({ used := name :: x.used, byTriple := (login, name) :: x.byTriple
           created := x.created + 1 }, store', rewire name spec)

/-- A spec that is not selected stays as it is. -/
def extractSelected (key : MasterKey) (ids : List Str) (draw : Draw) (x : Extraction)
    (store : CredentialStore) (spec : Spec Settings) :
    Extraction × CredentialStore × Spec Settings :=
  if ids.contains spec.id then extractSpec key draw x store spec else (x, store, spec)

/-- The specs in the order of the file. -/
def extractSpecs (key : MasterKey) (ids : List Str) :
    (Nat → Draw) → Extraction → CredentialStore → List (Spec Settings) →
      Extraction × CredentialStore × List (Spec Settings)
  | _, x, store, [] => (x, store, [])
  | draws, x, store, spec :: specs =>
    let one := extractSelected key ids (draws 0) x store spec
    let rest := extractSpecs key ids (fun n => draws (n + 1)) one.1 one.2.1 specs
    (rest.1, rest.2.1, one.2.2 :: rest.2.2)

/-- The store and the specs after the extraction, and how many credentials it created. -/
def extractInlineCredentials (key : MasterKey) (ids : List Str) (listing : Option (List Str))
    (draws : Nat → Draw) (store : CredentialStore) (specs : List (Spec Settings)) :
    Nat × CredentialStore × List (Spec Settings) :=
  let done := extractSpecs key ids draws (.start listing) store specs
  (done.1.created, done.2.1, done.2.2)

/-! ## What the loop keeps -/

/-- What one spec can do: nothing, where it has no password or the credential it needs cannot
be stored, share a credential, or create one. -/
theorem extractSpec_cases {key : MasterKey} {draw : Draw} {x x' : Extraction}
    {store store' : CredentialStore} {spec spec' : Spec Settings}
    (h : extractSpec key draw x store spec = (x', store', spec')) :
    (x' = x ∧ store' = store ∧ spec' = spec ∧ ∀ login, inlineLogin spec = some login →
      x.byTriple.lookup login = none ∧ ¬ CanStore key draw login) ∨
    (x' = x ∧ store' = store ∧ Rewired x spec spec') ∨
    ∃ login enc, inlineLogin spec = some login ∧
      Credentials.protect key draw.nonce login.password = .ok enc ∧
      x' = { used := login.freshName x.used :: x.used
             byTriple := (login, login.freshName x.used) :: x.byTriple
             created := x.created + 1 } ∧
      store' = store.insert (login.freshName x.used)
        (Credentials.rowOf login.domain login.username enc) ∧
      spec' = rewire (login.freshName x.used) spec := by
  unfold extractSpec at h
  cases hlogin : inlineLogin spec with
  | none =>
    rw [hlogin] at h
    cases h
    exact .inl ⟨rfl, rfl, rfl, nofun⟩
  | some login =>
    rw [hlogin] at h
    simp only at h
    cases hlookup : x.byTriple.lookup login with
    | some name =>
      rw [hlookup] at h
      cases h
      obtain ⟨l₁, l₂, hl, -⟩ := List.lookup_eq_some_iff.mp hlookup
      refine .inr (.inl ⟨rfl, rfl, login, name, hlogin, ?_, rfl⟩)
      rw [hl]
      exact List.mem_append_right l₁ List.mem_cons_self
    | none =>
      rw [hlookup] at h
      simp only [upsertLogin, Credentials.upsert] at h
      by_cases hanswered : draw.answered = true
      · cases hprotect : Credentials.protect key draw.nonce login.password with
        | error e =>
          simp only [hanswered, hprotect, if_true] at h
          cases h
          have hcannot : ¬ CanStore key draw login := by simp [CanStore, hprotect, Except.isOk,
            Except.toBool]
          exact .inl ⟨rfl, rfl, rfl, fun _ heq => Option.some.inj heq ▸ ⟨hlookup, hcannot⟩⟩
        | ok enc =>
          simp only [hanswered, hprotect, if_true] at h
          cases h
          exact .inr (.inr ⟨login, enc, rfl, hprotect, rfl, rfl, rfl⟩)
      · simp only [hanswered] at h
        cases h
        have hcannot : ¬ CanStore key draw login := fun hcan => hanswered hcan.1
        exact .inl ⟨rfl, rfl, rfl, fun _ heq => Option.some.inj heq ▸ ⟨hlookup, hcannot⟩⟩

variable {key : MasterKey} {x x' : Extraction} {store store' : CredentialStore}
  {spec spec' : Spec Settings}

theorem extractSelected_kept {ids : List Str} {draw : Draw} (hkept : Kept key x store)
    (h : extractSelected key ids draw x store spec = (x', store', spec')) :
    Kept key x' store' ∧ x.byTriple ⊆ x'.byTriple ∧ (spec' = spec ∨ Rewired x' spec spec') := by
  unfold extractSelected at h
  split at h
  · rcases extractSpec_cases h with ⟨rfl, rfl, rfl, -⟩ | ⟨rfl, rfl, hrewired⟩ |
      ⟨login, enc, hlogin, henc, rfl, rfl, rfl⟩
    · exact ⟨hkept, List.Subset.refl _, .inl rfl⟩
    · exact ⟨hkept, List.Subset.refl _, .inr hrewired⟩
    · exact ⟨hkept.create henc, List.subset_cons_self _ _,
        .inr ⟨login, _, hlogin, List.mem_cons_self, rfl⟩⟩
  · cases h
    exact ⟨hkept, List.Subset.refl _, .inl rfl⟩

/-- After the loop every credential it made is still there, and every spec is as it was or
names one of them. -/
theorem extractSpecs_kept {ids : List Str} {draws : Nat → Draw} (specs : List (Spec Settings))
    (hkept : Kept key x store) :
    let done := extractSpecs key ids draws x store specs
    Kept key done.1 done.2.1 ∧ x.byTriple ⊆ done.1.byTriple ∧
      List.Forall₂ (fun before after => after = before ∨ Rewired done.1 before after)
        specs done.2.2 := by
  induction specs generalizing draws x store with
  | nil => exact ⟨hkept, List.Subset.refl _, .nil⟩
  | cons spec specs ih =>
    have hstep : extractSelected key ids (draws 0) x store spec = _ := rfl
    obtain ⟨hone, hsub, hspec⟩ := extractSelected_kept hkept hstep
    obtain ⟨hrest, hsub', hspecs⟩ := @ih _ _ (fun n => draws (n + 1)) hone
    exact ⟨hrest, List.Subset.trans hsub hsub', .cons (hspec.imp id fun h => h.mono hsub') hspecs⟩

end Extract

/-! ## The login before and after -/

/-- What an image pull uses of a login. -/
def pullLogin (creds : RegistryCredentials) : Str × Str × Option Str :=
  (creds.username, creds.password, creds.serverAddress)

theorem serverAddress_eq_iff {domain : Str} :
    Credentials.serverAddress domain = (if domain = [] then none else some domain) ↔
      domain = [] ∨ domain.trim ≠ [] := by
  unfold Credentials.serverAddress
  by_cases hdomain : domain = []
  · subst hdomain
    exact iff_of_true rfl (.inl rfl)
  · by_cases htrim : domain.trim = []
    · simp [hdomain, htrim]
    · simp [hdomain, htrim]

section Reading

variable [Aead] {key : MasterKey} {env : Environment} {login : Login}

/-- What a stored login gives: nothing without a key or with a reference that fails. -/
def storedLogin (env : Environment) (key : MasterKey) (login : Login) :
    Option (Str × Str × Option Str) :=
  if key.isConfigured then
    match Credentials.readBack env login.password with
    | .ok password => some (login.username, password, Credentials.serverAddress login.domain)
    | .error _ => none
  else none

/-- The logins that read the same from the store: an anonymous one where the stored one is
out of reach, and any other one where the key is there, the registry is not blank, and the
password is a pure reference or means itself. -/
def KeepsLogin (env : Environment) (key : MasterKey) (login : Login) : Prop :=
  if login.username = [] then
    key.isConfigured = false ∨
      (isPureEnvRef login.password = true ∧ ∃ e, interpolateValue env login.password = .error e)
  else
    (∃ e, interpolateValue env login.password = .error e) ∨
      (key.isConfigured = true ∧ (login.domain = [] ∨ login.domain.trim ≠ []) ∧
        (isPureEnvRef login.password = true ∨
          interpolateValue env login.password = .ok login.password))

/-- An anonymous pull stays one where the stored login is out of reach. -/
theorem storedLogin_eq_none_iff :
    storedLogin env key login = none ↔ key.isConfigured = false ∨
      (isPureEnvRef login.password = true ∧
        ∃ e, interpolateValue env login.password = .error e) := by
  unfold storedLogin Credentials.readBack
  cases hkey : key.isConfigured with
  | false => simp
  | true =>
    cases hpure : isPureEnvRef login.password with
    | false => simp
    | true => cases interpolateValue env login.password <;> simp [Except.mapError]

/-- The stored login gives the password that the inline fields resolve to. -/
theorem storedLogin_eq_some_iff {password : Str}
    (h : interpolateValue env login.password = .ok password) :
    storedLogin env key login =
        some (login.username, password, if login.domain = [] then none else some login.domain) ↔
      key.isConfigured = true ∧ (login.domain = [] ∨ login.domain.trim ≠ []) ∧
        (isPureEnvRef login.password = true ∨ login.password = password) := by
  unfold storedLogin Credentials.readBack
  rw [← serverAddress_eq_iff, h]
  cases hkey : key.isConfigured with
  | false => simp
  | true =>
    cases hpure : isPureEnvRef login.password with
    | false => simp [and_comm]
    | true => simp [Except.mapError]

end Reading

section Pulls

variable [Floats] [Aead] {key : MasterKey} {store : CredentialStore} {spec : Spec Settings}

/-- Whenever the inline fields gave a login or none, the state now gives the same. -/
def SameLogin (state : SpawnState) (before after : Spec Settings) : Prop :=
  ∀ creds, credsFromSpec state.env before = .ok creds →
    ∃ creds', resolveCreds state after = .ok creds' ∧ creds'.map pullLogin = creds.map pullLogin

theorem resolveCreds_rewire {state : SpawnState} {login : Login} {name : Str}
    (hdb : state.db = some fun name => .ok (store.lookup name))
    (hstored : Stored state.masterKey store login name) (hname : name ≠ []) :
    ∃ creds, resolveCreds state (rewire name spec) = .ok creds ∧
      creds.map pullLogin = storedLogin state.env state.masterKey login := by
  obtain ⟨nonce, enc, henc, hlookup⟩ := hstored
  have hnamed : nonEmpty (rewire name spec).settings.dockerRegistryCredential = some name := by
    rw [nonEmpty_eq]
    exact if_neg hname
  unfold resolveCreds storedCreds storedLogin
  rw [hnamed, Option.bind_some, hdb, credsFromSpec_rewire]
  cases hkey : state.masterKey.isConfigured with
  | false => exact ⟨none, rfl, rfl⟩
  | true =>
    simp only [Except.bind, hlookup, Credentials.resolve_protect henc]
    cases Credentials.readBack state.env login.password with
    | error e => exact ⟨none, rfl, rfl⟩
    | ok password => exact ⟨_, rfl, rfl⟩

/-- A rewired spec pulls with the login it had exactly where the login reads the same from
the store. -/
theorem sameLogin_rewire_iff {state : SpawnState} {login : Login} {name : Str}
    (hdb : state.db = some fun name => .ok (store.lookup name))
    (hlogin : inlineLogin spec = some login) (hstored : Stored state.masterKey store login name)
    (hname : name ≠ []) :
    SameLogin state spec (rewire name spec) ↔ KeepsLogin state.env state.masterKey login := by
  obtain ⟨creds', hcreds', hpull⟩ :
      ∃ creds, resolveCreds state (rewire name spec) = .ok creds ∧ _ :=
    resolveCreds_rewire hdb hstored hname
  have hsame : SameLogin state spec (rewire name spec) ↔
      ∀ creds, credsFromSpec state.env spec = .ok creds →
        storedLogin state.env state.masterKey login = creds.map pullLogin := by
    unfold SameLogin
    rw [← hpull, hcreds']
    simp
  rw [hsame, credsFromSpec_of_login hlogin]
  unfold KeepsLogin
  by_cases husername : login.username = []
  · rw [if_pos husername, if_pos husername, ← storedLogin_eq_none_iff]
    simp
  · rw [if_neg husername, if_neg husername]
    cases hvalue : interpolateValue state.env login.password with
    | error e => exact iff_of_true nofun (.inl ⟨e, rfl⟩)
    | ok password =>
      have hsome : storedLogin state.env state.masterKey login = _ ↔ _ :=
        storedLogin_eq_some_iff hvalue
      simp only [Except.map, Except.ok.injEq, forall_eq', Option.map_some, pullLogin, hsome,
        reduceCtorEq, exists_false, false_or, eq_comm (a := password)]

/-- A spec the import changed names a credential that holds its login. -/
theorem exists_stored_of_ne {ids : List Str} {listing : Option (List Str)} {draws : Nat → Draw}
    {specs : List (Spec Settings)} {n : Nat} {before after : Spec Settings}
    (hbefore : specs[n]? = some before)
    (hafter : (extractInlineCredentials key ids listing draws store specs).2.2[n]? = some after)
    (hne : after ≠ before) :
    ∃ login name, inlineLogin before = some login ∧
      Stored key (extractInlineCredentials key ids listing draws store specs).2.1 login name ∧
      name ≠ [] ∧ after = rewire name before := by
  obtain ⟨hkept, -, hspecs⟩ : Kept key
      (extractSpecs key ids draws (.start listing) store specs).1
      (extractSpecs key ids draws (.start listing) store specs).2.1 ∧ _ :=
    extractSpecs_kept specs (kept_start listing)
  obtain ⟨hn, rfl⟩ := List.getElem?_eq_some_iff.mp hbefore
  obtain ⟨hn', rfl⟩ := List.getElem?_eq_some_iff.mp hafter
  obtain ⟨login, name, hlogin, hmem, heq⟩ :=
    ((List.forall₂_iff_get.mp hspecs).2 n hn hn').resolve_left hne
  exact ⟨login, name, hlogin, hkept.stored _ hmem, hkept.named _ hmem, heq⟩

/-- **Imported logins.** Whatever the config, the selection, the store and the failures of
the import, a spec it rewires pulls with the login it had exactly where the login reads the
same from the store. -/
theorem sameLogin_extract_iff {ids : List Str} {listing : Option (List Str)}
    {draws : Nat → Draw} {specs : List (Spec Settings)} {state : SpawnState} {n : Nat}
    {before after : Spec Settings}
    (hdb : state.db = some fun name =>
      .ok ((extractInlineCredentials state.masterKey ids listing draws store specs).2.1.lookup
        name))
    (hbefore : specs[n]? = some before)
    (hafter : (extractInlineCredentials state.masterKey ids listing draws store
      specs).2.2[n]? = some after)
    (hne : after ≠ before) :
    SameLogin state before after ↔
      ∀ login, inlineLogin before = some login →
        KeepsLogin state.env state.masterKey login := by
  obtain ⟨login, name, hlogin, hstored, hname, rfl⟩ := exists_stored_of_ne hbefore hafter hne
  rw [sameLogin_rewire_iff hdb hlogin hstored hname, hlogin]
  simp

end Pulls

/-! ## A reference and no key -/

section Example

attribute [local instance] wholeFloats openAead

def pullSpec (password : String) : Spec Settings :=
  ⟨"a".toList, none, none,
    { bareSettings "A" .empty with
      dockerRegistryUsername := some "acme".toList
      dockerRegistryPassword := some password.toList }⟩

/-- The variable `PW` is set. -/
def pullEnv : Environment := fun name =>
  if name = "PW".toList then .present "s3cret".toList else .notPresent

def zeroDraws : Nat → Draw := fun _ => ⟨⟨List.replicate 12 0, rfl⟩, true⟩

/-- The state after the import of a spec into an empty store. -/
def pullState (key : MasterKey) (spec : Spec Settings) : SpawnState :=
  { db := some fun name => .ok
      ((extractInlineCredentials key [spec.id] (some []) zeroDraws .empty [spec]).2.1.lookup name)
    masterKey := key, env := pullEnv, basePath := [] }

/-- The stored reference is never consulted without a key, and the inline one is gone. -/
theorem reference_lost_without_key :
    ¬ ∀ (state : SpawnState) (ids : List Str) (listing : Option (List Str)) (draws : Nat → Draw)
      (store : CredentialStore) (specs : List (Spec Settings)) (n : Nat)
      (before after : Spec Settings),
      (state.db = some fun name =>
        .ok ((extractInlineCredentials state.masterKey ids listing draws store
          specs).2.1.lookup name)) →
      specs[n]? = some before →
      (extractInlineCredentials state.masterKey ids listing draws store
        specs).2.2[n]? = some after →
      after ≠ before → SameLogin state before after := by
  intro hclaim
  obtain ⟨creds', hafter, hpull⟩ := hclaim (pullState none (pullSpec "${PW}")) ["a".toList]
    (some []) zeroDraws .empty [pullSpec "${PW}"] 0 (pullSpec "${PW}")
    (rewire "imported-acme".toList (pullSpec "${PW}")) rfl rfl (by decide) (by decide)
    (some ⟨"acme".toList, "s3cret".toList, none, none⟩) (by decide)
  have hnone : resolveCreds (pullState none (pullSpec "${PW}"))
      (rewire "imported-acme".toList (pullSpec "${PW}")) = .ok none := by decide
  rw [hnone] at hafter
  cases hafter
  exact absurd hpull (by decide)

theorem sameLogin_extract_iff_key :
    SameLogin (pullState (some ()) (pullSpec "${PW}")) (pullSpec "${PW}")
        (rewire "imported-acme".toList (pullSpec "${PW}")) ↔
      ∀ login, inlineLogin (pullSpec "${PW}") = some login →
        KeepsLogin pullEnv (some ()) login := by
  have hafter : (extractInlineCredentials (some ()) ["a".toList] (some []) zeroDraws .empty
      [pullSpec "${PW}"]).2.2[0]? =
        some (rewire "imported-acme".toList (pullSpec "${PW}")) := by decide
  exact sameLogin_extract_iff rfl rfl hafter (by decide)

end Example

end Ruscker.Admin.SpecImport
