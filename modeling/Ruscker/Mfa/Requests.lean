import Ruscker.Lib.Machine
import Ruscker.Mfa.Store

/-!
# Second-factor requests of one account

Enrollments, challenges, regenerations, revocations and access decisions of one
account, from any number of sessions and nodes, interleaved transaction by
transaction.  The clock readings, the verdict of the TOTP verifier and the random
identifiers are parameters of the events; an event with an identifier that was used
before does not happen.
-/

namespace Ruscker.Mfa

open Guards Tables Machines Machines.Machine

/-- A read of a confirmed factor. -/
structure FactorRead where
  row : MfaRow
  confirmedAt : Nat
  confirmed : row.confirmedAt = some confirmedAt
  /-- ghost: the revocations committed before the read -/
  revocations : Nat

def FactorRead.of (row : MfaRow) (revocations : Nat) : Option FactorRead :=
  match h : row.confirmedAt with
  | some confirmedAt => some ⟨row, confirmedAt, h, revocations⟩
  | none => none

/-- The issuance checked against this read. -/
def FactorRead.request (seen : FactorRead) (binding tokenHash : Str) (verifiedAt : Nat)
    (recoveryId : Option Str) (totpStep : Option Int) : IssueRequest where
  tokenHash
  sessionBinding := binding
  factorConfirmedAt := seen.confirmedAt
  verifiedAt
  expiresAt := verifiedAt + maxMfaValidityDays * nanosPerDay
  expectedEpoch := seen.row.securityEpoch
  consumeRecoveryId := recoveryId
  consumeTotpStep := totpStep

inductive ChallengeForm where
  /-- the step `verify_totp_step` accepts the code for, if any -/
  | totp (accepted : Option Int)
  | recovery (code : Str)
  | other

/-- What an access decision is about: the app, the browser session and its cookie. -/
structure AccessCheck where
  spec : MfaPolicy
  sessionId : Str
  cookie : Option Str

/-- What a request does next. -/
inductive Phase where
  /-- challenge: look for the recovery code -/
  | matching (seen : FactorRead) (binding code : Str)
  /-- challenge, and the end of a confirm: issue the grant -/
  | issuing (seen : FactorRead) (binding : Str) (recoveryId : Option Str) (totpStep : Option Int)
  /-- confirm: record the step -/
  | recording (ceremony : Str) (step : Int) (binding : Str)
  /-- confirm: confirm the enrollment, having recorded the step -/
  | committing (ceremony : Str) (step : Int) (binding : Str) (before after : Account)
  /-- confirm: read the factor back -/
  | granting (binding : Str)
  /-- access decision: read the factor, having read the grant after so many revocations -/
  | evaluating (check : AccessCheck) (token : Str) (grant : GrantRow) (revocations : Nat)
  | finished

structure AcceptedCode where
  id : Str
  /-- the most recently committed set at the acceptance -/
  latest : List Str

/-- A committed issuance: the revocations before the factor read it was checked
against, and before its commit. -/
structure Issuance where
  grant : GrantRow
  factorRead : Nat
  committed : Nat

/-- A decision satisfied by a stored grant: the revocations before the grant was read. -/
structure Answer where
  grant : Str
  grantRead : Nat

structure State where
  db : Account
  pool : List Phase
  -- all that follows is ghost
  ceremonies : List Str
  confirmations : List Nat
  recoveryIds : List Str
  latestCodes : List Str
  revocations : Nat
  acceptedSteps : List (Str × Int)
  acceptedCodes : List AcceptedCode
  /-- the account around the last write of each refused request -/
  refusals : List (Account × Account)
  issues : Table Str Issuance
  answers : List Answer

/-- An account without a factor. -/
def State.initial : State where
  db := ⟨none, ∅, ∅⟩
  pool := []
  ceremonies := []
  confirmations := []
  recoveryIds := []
  latestCodes := []
  revocations := 0
  acceptedSteps := []
  acceptedCodes := []
  refusals := []
  issues := ∅
  answers := []

inductive Event where
  /-- the write of a start -/
  | start (secretEnc nonce : List UInt8) (ceremony : Str) (now : Nat)
  | confirm (cookie : Str) (accepted : Option Int) (binding : Str)
  | record (i : Nat)
  | commit (i : Nat) (codes : List NewCode) (now : Nat)
  | readBack (i : Nat)
  | challenge (form : ChallengeForm) (binding : Str)
  | matchCode (i : Nat)
  | issue (i : Nat) (id tokenHash : Str) (verifiedAt now : Nat)
  | regenerate (codes : List NewCode) (generation : Option Int) (now : Nat)
  | reset
  | revokeAll
  | setPassword
  | forget (id : Str)
  /-- the grant read of an access decision -/
  | evaluate (check : AccessCheck) (now : Nat)
  | judge (i : Nat) (now : Nat)

namespace State

def move (s : State) (i : Nat) (phase : Phase) : State := { s with pool := s.pool.set i phase }

def spawn (s : State) (phase : Phase) : State := { s with pool := s.pool ++ [phase] }

/-- A refusal without a write. -/
def refuse (s : State) : State := { s with refusals := (s.db, s.db) :: s.refusals }

def readFactor (s : State) : Option FactorRead :=
  s.db.mfa.bind fun row => FactorRead.of row s.revocations

/-- The ids of the new codes are distinct and were never used. -/
def Fresh (s : State) (codes : List NewCode) : Prop :=
  (codes.map NewCode.id).Nodup ∧ ∀ id ∈ codes.map NewCode.id, id ∉ s.recoveryIds

instance (s : State) (codes : List NewCode) : Decidable (s.Fresh codes) :=
  inferInstanceAs (Decidable (_ ∧ _))

/-- The new codes become the most recently committed set. -/
def install (s : State) (codes : List NewCode) : State :=
  { s with
    recoveryIds := codes.map NewCode.id ++ s.recoveryIds
    latestCodes := codes.map NewCode.id }

/-- The proof of a challenge is accepted. -/
def accept (s : State) (seen : FactorRead) (recoveryId : Option Str) (totpStep : Option Int) :
    State :=
  { s with
    acceptedSteps := (totpStep.map fun step => (seen.row.ceremony, step)).toList ++ s.acceptedSteps
    acceptedCodes := (recoveryId.map fun id => ⟨id, s.latestCodes⟩).toList ++ s.acceptedCodes }

def start (s : State) (secretEnc nonce : List UInt8) (ceremony : Str) (now : Nat) :
    Option State :=
  if ceremony ∈ s.ceremonies then none
  else match s.db.beginEnrollment secretEnc nonce ceremony now with
    | some db => some { s with db, ceremonies := ceremony :: s.ceremonies }
    | none => some s

def confirm (s : State) (cookie : Str) (accepted : Option Int) (binding : Str) : State :=
  match s.db.mfa.filter fun row => row.confirmedAt.isNone && row.ceremony = cookie, accepted with
  | some row, some step => s.spawn (.recording row.ceremony step binding)
  | _, _ => s.refuse

def commit (s : State) (i : Nat) (codes : List NewCode) (now : Nat) : Phase → Option State
  | .committing ceremony step binding before after =>
    if s.Fresh codes then
      match s.db.confirmWithRecoveryCodes codes ceremony now with
      | some db => some { s.install codes |>.move i (.granting binding) with
          db
          confirmations := now :: s.confirmations
          acceptedSteps := (ceremony, step) :: s.acceptedSteps }
      | none => some { s.move i .finished with refusals := (before, after) :: s.refusals }
    else none
  | _ => none

def challenge [MfaHashing] (s : State) (form : ChallengeForm) (binding : Str) : State :=
  match s.readFactor, form with
  | some seen, .totp (some step) => s.spawn (.issuing seen binding none (some step))
  | some seen, .recovery code => s.spawn (.matching seen binding code)
  | some _, _ => s.refuse
  -- redirected to the enrollment page
  | none, _ => s

def issue (s : State) (i : Nat) (id tokenHash : Str) (verifiedAt now : Nat) :
    Phase → Option State
  | .issuing seen binding recoveryId totpStep =>
    let request := seen.request binding tokenHash verifiedAt recoveryId totpStep
    match s.db.issue request id now with
    | .ok db =>
      (Table.insertNew s.issues id ⟨request.grant id, seen.revocations, s.revocations⟩).map
        fun issues => { s.accept seen recoveryId totpStep |>.move i .finished with db, issues }
    | .error _ => some (s.refuse.move i .finished)
  | _ => none

def regenerate (s : State) (codes : List NewCode) (generation : Option Int) (now : Nat) :
    Option State :=
  if s.Fresh codes then
    match s.db.regenerateRecoveryCodes codes (generation.getD 0) now with
    | .ok db => some { s.install codes with db }
    | .error _ => some s.refuse
  else none

/-- A transaction that ends the trust in every device. -/
def revoke (s : State) (db : Account) : State := { s with db, revocations := s.revocations + 1 }

def evaluate (s : State) (check : AccessCheck) (now : Nat) : State :=
  if check.spec.effectiveRequireMfa then
    match check.cookie.bind deviceCookieParts with
    | some (id, token) =>
      match s.db.fetchValid id now with
      | some grant => s.spawn (.evaluating check token grant s.revocations)
      | none => s
    -- without a device cookie no answer rests on a grant
    | none => s
  else s

end State

def step [MfaHashing] (s : State) : Event → Option State
  | .start secretEnc nonce ceremony now => s.start secretEnc nonce ceremony now
  | .confirm cookie accepted binding => some (s.confirm cookie accepted binding)
  | .record i =>
    match s.pool[i]? with
    | some (.recording ceremony step binding) =>
      match s.db.recordUsedStep step with
      | some db => some { s.move i (.committing ceremony step binding s.db db) with db }
      | none => some (s.refuse.move i .finished)
    | _ => none
  | .commit i codes now => s.pool[i]?.bind (s.commit i codes now)
  | .readBack i =>
    match s.pool[i]? with
    | some (.granting binding) =>
      match s.readFactor with
      | some seen => some (s.move i (.issuing seen binding none none))
      | none => some (s.move i .finished)
    | _ => none
  | .challenge form binding => some (s.challenge form binding)
  | .matchCode i =>
    match s.pool[i]? with
    | some (.matching seen binding code) =>
      match s.db.findRecoveryCandidate code with
      | some id => some (s.move i (.issuing seen binding (some id) none))
      | none => some (s.refuse.move i .finished)
    | _ => none
  | .issue i id tokenHash verifiedAt now =>
    s.pool[i]?.bind (s.issue i id tokenHash verifiedAt now)
  | .regenerate codes generation now => s.regenerate codes generation now
  | .reset => some (s.revoke s.db.reset)
  | .revokeAll => some (s.revoke s.db.revokeAll)
  | .setPassword => some (s.revoke s.db.deleteAll)
  | .forget id => some { s with db := s.db.revokeOne id }
  | .evaluate check now => some (s.evaluate check now)
  | .judge i now =>
    match s.pool[i]? with
    | some (.evaluating check token grant revocations) =>
      match judgeGrant check.spec check.sessionId token grant s.db.mfa now with
      | .satisfied => some { s.move i .finished with
          answers := ⟨grant.id, revocations⟩ :: s.answers }
      | _ => some (s.move i .finished)
    | _ => none

def machine [MfaHashing] : Machine State Event := ⟨step⟩

/-! ## What a step can do -/

/-- The outcomes of a step, each with the facts its reads and writes established. -/
inductive Moved (s : State) : Event → State → Prop where
  | stayed (e : Event) : Moved s e s
  | turnedAway (e : Event) : Moved s e s.refuse
  | closed (e : Event) (i : Nat) : Moved s e (s.move i .finished)
  | refused (e : Event) (i : Nat) : Moved s e (s.refuse.move i .finished)
  | started {secretEnc nonce : List UInt8} {ceremony : Str} {now : Nat} {db : Account}
      (hnew : ceremony ∉ s.ceremonies)
      (hdb : s.db.beginEnrollment secretEnc nonce ceremony now = some db) :
      Moved s (.start secretEnc nonce ceremony now)
        { s with db, ceremonies := ceremony :: s.ceremonies }
  | confirming {row : MfaRow} (e : Event) (step : Int) (binding : Str)
      (hrow : s.db.mfa = some row) : Moved s e (s.spawn (.recording row.ceremony step binding))
  | recorded {i : Nat} {ceremony binding : Str} {step : Int} {db : Account}
      (hi : s.pool[i]? = some (.recording ceremony step binding))
      (hdb : s.db.recordUsedStep step = some db) :
      Moved s (.record i) { s.move i (.committing ceremony step binding s.db db) with db }
  | committed {i : Nat} {ceremony binding : Str} {step : Int} {before after db : Account}
      {codes : List NewCode} {now : Nat}
      (hi : s.pool[i]? = some (.committing ceremony step binding before after))
      (hfresh : s.Fresh codes)
      (hdb : s.db.confirmWithRecoveryCodes codes ceremony now = some db) :
      Moved s (.commit i codes now) { s.install codes |>.move i (.granting binding) with
        db
        confirmations := now :: s.confirmations
        acceptedSteps := (ceremony, step) :: s.acceptedSteps }
  | superseded {i : Nat} {ceremony binding : Str} {step : Int} {before after : Account}
      {codes : List NewCode} {now : Nat}
      (hi : s.pool[i]? = some (.committing ceremony step binding before after))
      (hdb : s.db.confirmWithRecoveryCodes codes ceremony now = none) :
      Moved s (.commit i codes now)
        { s.move i .finished with refusals := (before, after) :: s.refusals }
  | readBack {seen : FactorRead} (i : Nat) (binding : Str) (hseen : s.readFactor = some seen) :
      Moved s (.readBack i) (s.move i (.issuing seen binding none none))
  | challenged {seen : FactorRead} (e : Event) (binding : Str) (step : Int)
      (hseen : s.readFactor = some seen) :
      Moved s e (s.spawn (.issuing seen binding none (some step)))
  | matching {seen : FactorRead} (e : Event) (binding code : Str)
      (hseen : s.readFactor = some seen) : Moved s e (s.spawn (.matching seen binding code))
  | matched {i : Nat} {seen : FactorRead} {binding code : Str} (id : Str)
      (hi : s.pool[i]? = some (.matching seen binding code)) :
      Moved s (.matchCode i) (s.move i (.issuing seen binding (some id) none))
  | issued {i : Nat} {seen : FactorRead} {binding id tokenHash : Str} {verifiedAt now : Nat}
      {recoveryId : Option Str} {totpStep : Option Int} {db : Account} {row : MfaRow}
      (hi : s.pool[i]? = some (.issuing seen binding recoveryId totpStep))
      (hissued : Account.Issued s.db
        (seen.request binding tokenHash verifiedAt recoveryId totpStep) id now row db)
      (hnew : s.issues.lookup id = none) :
      Moved s (.issue i id tokenHash verifiedAt now)
        { s.accept seen recoveryId totpStep |>.move i .finished with
          db
          issues := s.issues.insert id
            ⟨(seen.request binding tokenHash verifiedAt recoveryId totpStep).grant id,
              seen.revocations, s.revocations⟩ }
  | regenerated {codes : List NewCode} {expected : Int} {now : Nat} {db : Account} (e : Event)
      (hfresh : s.Fresh codes)
      (hdb : s.db.regenerateRecoveryCodes codes expected now = .ok db) :
      Moved s e { s.install codes with db }
  | revoked (e : Event) (db : Account) (hdb : db = s.db.reset ∨ db = s.db.deleteAll) :
      Moved s e (s.revoke db)
  | forgot (id : Str) : Moved s (.forget id) { s with db := s.db.revokeOne id }
  | evaluating {grant : GrantRow} {id : Str} {now : Nat} (e : Event) (check : AccessCheck)
      (token : Str) (hgrant : s.db.fetchValid id now = some grant) :
      Moved s e (s.spawn (.evaluating check token grant s.revocations))
  | answered {i : Nat} {check : AccessCheck} {token : Str} {grant : GrantRow} {revocations : Nat}
      {row : MfaRow} {now : Nat}
      (hi : s.pool[i]? = some (.evaluating check token grant revocations))
      (hrow : s.db.mfa = some row) (hconfirmed : row.confirmedAt = some grant.factorConfirmedAt)
      (hepoch : row.securityEpoch = grant.securityEpoch) :
      Moved s (.judge i now)
        { s.move i .finished with answers := ⟨grant.id, revocations⟩ :: s.answers }

theorem moved_of_step [MfaHashing] {s s' : State} {e : Event}
    (h : machine.step s e = some s') : Moved s e s' := by
  change step s e = some s' at h
  cases e with
  | start secretEnc nonce ceremony now =>
    simp only [step, State.start] at h
    split at h
    · cases h
    · next hnew =>
      split at h <;> cases h
      · next hdb => exact .started hnew hdb
      · exact .stayed _
  | confirm cookie accepted binding =>
    cases h
    unfold State.confirm
    split
    · next hrow => exact .confirming _ _ _ (Option.filter_eq_some_iff.mp hrow).1
    · exact .turnedAway _
  | record i =>
    simp only [step] at h
    split at h
    · next hi =>
      split at h <;> cases h
      · next hdb => exact .recorded hi hdb
      · exact .refused _ i
    · cases h
  | commit i codes now =>
    obtain ⟨phase, hi, h⟩ := Option.bind_eq_some_iff.mp h
    unfold State.commit at h
    split at h
    · split at h
      · next hfresh =>
        split at h <;> cases h
        · next hdb => exact .committed hi hfresh hdb
        · next hdb => exact .superseded hi hdb
      · cases h
    · cases h
  | readBack i =>
    simp only [step] at h
    split at h
    · split at h <;> cases h
      · next hseen => exact .readBack i _ hseen
      · exact .closed _ i
    · cases h
  | challenge form binding =>
    cases h
    unfold State.challenge
    split
    · next hseen => exact .challenged _ _ _ hseen
    · next hseen => exact .matching _ _ _ hseen
    · exact .turnedAway _
    · exact .stayed _
  | matchCode i =>
    simp only [step] at h
    split at h
    · next hi =>
      split at h <;> cases h
      · exact .matched _ hi
      · exact .refused _ i
    · cases h
  | issue i id tokenHash verifiedAt now =>
    obtain ⟨phase, hi, h⟩ := Option.bind_eq_some_iff.mp h
    unfold State.issue at h
    split at h
    · dsimp only at h
      split at h
      · next hdb =>
        obtain ⟨issues, hissues, rfl⟩ := Option.map_eq_some_iff.mp h
        obtain ⟨hnew, rfl⟩ := Table.insertNew_eq_some hissues
        obtain ⟨row, hissued⟩ := Account.issue_ok hdb
        exact .issued hi hissued hnew
      · cases h
        exact .refused _ i
    · cases h
  | regenerate codes generation now =>
    simp only [step, State.regenerate] at h
    split at h
    · next hfresh =>
      split at h <;> cases h
      · next hdb => exact .regenerated _ hfresh hdb
      · exact .turnedAway _
    · cases h
  | reset =>
    cases h
    exact .revoked _ _ (.inl rfl)
  | revokeAll =>
    cases h
    exact .revoked _ _ (.inr rfl)
  | setPassword =>
    cases h
    exact .revoked _ _ (.inr rfl)
  | forget id =>
    cases h
    exact .forgot id
  | evaluate check now =>
    cases h
    unfold State.evaluate
    split
    · split
      · split
        · next hgrant => exact .evaluating _ _ _ hgrant
        · exact .stayed _
      · exact .stayed _
    · exact .stayed _
  | judge i now =>
    simp only [step] at h
    split at h
    · next hi =>
      split at h <;> cases h
      · next hsatisfied =>
        obtain ⟨row, hrow, hconfirmed, hepoch⟩ := judgeGrant_satisfied hsatisfied
        exact .answered hi hrow hconfirmed hepoch
      · exact .closed _ i
    · cases h

end Ruscker.Mfa
