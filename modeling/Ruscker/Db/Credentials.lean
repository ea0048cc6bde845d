import Ruscker.Config.EnvRefs
import Ruscker.Lib.SortedMap

/-!
# Registry credentials

The store of named registry logins.  A password made of environment references is kept as
it is, with an empty nonce; every other one is encrypted under the master key.
-/

namespace Ruscker

abbrev Bytes := List UInt8

namespace Str

def asBytes (s : Str) : Bytes := s.flatMap String.utf8EncodeChar

def fromUtf8 (b : Bytes) : Option Str := b.toByteArray.utf8Decode?.map Array.toList

@[simp] theorem fromUtf8_asBytes (s : Str) : fromUtf8 s.asBytes = some s := by
  have h : (asBytes s).toByteArray = List.utf8Encode s := rfl
  rw [fromUtf8, h, List.utf8Decode?_utf8Encode]
  simp

end Str

/-- AES-256-GCM: a ciphertext decrypts under the key and nonce it was made with. -/
class Aead where
  Key : Type
  encrypt : Key → Bytes → Bytes → Option Bytes
  decrypt : Key → Bytes → Bytes → Option Bytes
  decrypt_encrypt : ∀ {key nonce plaintext ciphertext},
    encrypt key nonce plaintext = some ciphertext → decrypt key nonce ciphertext = some plaintext

def nonceLen : Nat := 12

/-- A fresh random nonce. -/
abbrev Nonce := { bytes : Bytes // bytes.length = nonceLen }

inductive CredentialError where
  | keyNotConfigured
  | nonceLength (got : Nat)
  | encryptFailed
  | decryptFailed
  | notUtf8
  | env (e : EnvError)
  | database
  deriving DecidableEq

/-- What an image pull logs in with. -/
structure RegistryCredentials where
  username : Str
  password : Str
  serverAddress : Option Str
  credentialName : Option Str
  deriving DecidableEq

structure CredentialRow where
  registry : Str
  username : Str
  passwordEnc : Bytes
  nonce : Bytes
  deriving DecidableEq

/-- The rows by name, in the order they are listed. -/
abbrev CredentialStore := SortedMap Str CredentialRow

/-- The names `list_all` reads; the other columns it reads are not used by the import. -/
def Credentials.listAll (store : CredentialStore) : List Str := store.entries.map Prod.fst

theorem Credentials.mem_listAll {store : CredentialStore} {name : Str}
    (h : (store.lookup name).isSome = true) : name ∈ listAll store := by
  obtain ⟨row, hrow⟩ := Option.isSome_iff_exists.mp h
  exact List.mem_map.mpr ⟨(name, row), SortedMap.mem_entries_iff.mpr hrow, rfl⟩

variable [Aead]

abbrev MasterKey := Option Aead.Key

namespace MasterKey

variable (key : MasterKey)

def isConfigured : Bool := key.isSome

def encrypt (nonce : Nonce) (plaintext : Bytes) : Except CredentialError (Bytes × Bytes) :=
  match key with
  | none => .error .keyNotConfigured
  | some k =>
    match Aead.encrypt k nonce.val plaintext with
    | none => .error .encryptFailed
    | some ciphertext => .ok (ciphertext, nonce.val)

def decrypt (ciphertext nonce : Bytes) : Except CredentialError Bytes :=
  if nonce.length ≠ nonceLen then .error (.nonceLength nonce.length)
  else
    match key with
    | none => .error .keyNotConfigured
    | some k =>
      match Aead.decrypt k nonce ciphertext with
      | none => .error .decryptFailed
      | some plaintext => .ok plaintext

theorem encrypt_eq_ok {key : MasterKey} {nonce : Nonce} {plaintext : Bytes}
    {enc : Bytes × Bytes} (h : key.encrypt nonce plaintext = .ok enc) :
    ∃ k, key = some k ∧ Aead.encrypt k nonce.val plaintext = some enc.1 ∧ enc.2 = nonce.val := by
  unfold encrypt at h
  cases key with
  | none => cases h
  | some k =>
    simp only at h
    split at h
    · cases h
    · next henc =>
      cases h
      exact ⟨k, rfl, henc, rfl⟩

theorem decrypt_encrypt {key : MasterKey} {nonce : Nonce} {plaintext : Bytes}
    {enc : Bytes × Bytes} (h : key.encrypt nonce plaintext = .ok enc) :
    key.decrypt enc.1 enc.2 = .ok plaintext := by
  obtain ⟨k, rfl, henc, hnonce⟩ := encrypt_eq_ok h
  rw [decrypt, hnonce, if_neg fun hne => hne nonce.property]
  simp only [Aead.decrypt_encrypt henc]

theorem encrypt_nonce {key : MasterKey} {nonce : Nonce} {plaintext : Bytes}
    {enc : Bytes × Bytes} (h : key.encrypt nonce plaintext = .ok enc) :
    key.isConfigured = true ∧ enc.2.isEmpty = false := by
  obtain ⟨k, rfl, -, hnonce⟩ := encrypt_eq_ok h
  refine ⟨rfl, ?_⟩
  rw [hnonce, List.isEmpty_eq_false_iff, ← List.length_pos_iff, nonce.property]
  decide

end MasterKey

namespace Credentials

/-- The stored form of a password, with its nonce. -/
def protect (key : MasterKey) (nonce : Nonce) (password : Str) :
    Except CredentialError (Bytes × Bytes) :=
  if isPureEnvRef password then .ok (password.asBytes, []) else key.encrypt nonce password.asBytes

def rowOf (registry username : Str) (enc : Bytes × Bytes) : CredentialRow :=
  { registry, username, passwordEnc := enc.1, nonce := enc.2 }

/-- Inserts or replaces; the flag says that a row was replaced. -/
def upsert (store : CredentialStore) (key : MasterKey) (nonce : Nonce)
    (name registry username password : Str) : Except CredentialError (CredentialStore × Bool) :=
  match protect key nonce password with
  | .error e => .error e
  | .ok enc => .ok (store.insert name (rowOf registry username enc), (store.lookup name).isSome)

/-- The password of a row, in the clear. -/
def reveal (env : Environment) (key : MasterKey) (row : CredentialRow) :
    Except CredentialError Str :=
  if row.nonce.isEmpty then
    match Str.fromUtf8 row.passwordEnc with
    | none => .error .notUtf8
    | some raw => (interpolateValue env raw).mapError .env
  else
    match key.decrypt row.passwordEnc row.nonce with
    | .error e => .error e
    | .ok plaintext => (Str.fromUtf8 plaintext).elim (.error .notUtf8) .ok

/-- A blank registry stands for the default one. -/
def serverAddress (registry : Str) : Option Str :=
  if registry.trim.isEmpty then none else some registry

def resolve (env : Environment) (key : MasterKey) (name : Str) (row : Option CredentialRow) :
    Except CredentialError (Option RegistryCredentials) :=
  match row with
  | none => .ok none
  | some row =>
    (reveal env key row).map fun password => some
      { username := row.username, password, serverAddress := serverAddress row.registry,
        credentialName := some name }

/-- What a stored password reads back as: the references of a pure one, any other verbatim. -/
def readBack (env : Environment) (password : Str) : Except CredentialError Str :=
  if isPureEnvRef password then (interpolateValue env password).mapError .env else .ok password

theorem reveal_protect {env : Environment} {key : MasterKey} {nonce : Nonce} {password : Str}
    {enc : Bytes × Bytes} (h : protect key nonce password = .ok enc) (registry username : Str) :
    reveal env key (rowOf registry username enc) = readBack env password := by
  unfold protect at h
  unfold reveal readBack rowOf
  split at h
  · rename_i hpure
    cases h
    simp [hpure]
  · rename_i hpure
    simp [hpure, (MasterKey.encrypt_nonce h).2, MasterKey.decrypt_encrypt h]

theorem resolve_protect {env : Environment} {key : MasterKey} {nonce : Nonce} {password : Str}
    {enc : Bytes × Bytes} (h : protect key nonce password = .ok enc)
    (name registry username : Str) :
    resolve env key name (some (rowOf registry username enc)) =
      (readBack env password).map fun password => some
        { username, password, serverAddress := serverAddress registry,
          credentialName := some name } := by
  simp only [resolve, reveal_protect h]
  rfl

end Credentials

end Ruscker
