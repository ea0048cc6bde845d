import Ruscker.Lib.Guard
import Ruscker.Lib.Table
import Ruscker.Text

/-!
# The second factor of one account

The rows of `user_mfa`, `user_mfa_recovery` and `user_mfa_grants` that belong to one
account.  Each function is one transaction: it commits the whole of its result, and a
refusal rolls everything back.  Times are in nanoseconds.
-/

namespace Ruscker.Mfa

open Guards Tables

/-- The salted digests of recovery codes and device tokens, and that of a session id. -/
class MfaHashing where
  verifyRecoveryCode : (code stored : Str) → Bool
  verifyDeviceToken : (token stored : Str) → Bool
  sessionBinding : (sessionId : Str) → Str

/-- Digests that are the texts themselves, for concrete runs. -/
@[reducible] def plainMfaHashing : MfaHashing where
  verifyRecoveryCode code stored := code = stored
  verifyDeviceToken token stored := token = stored
  sessionBinding sessionId := sessionId

structure MfaRow where
  secretEnc : List UInt8
  secretNonce : List UInt8
  /-- random, minted by each start of an enrollment -/
  ceremony : Str
  /-- absent while the enrollment is pending -/
  confirmedAt : Option Nat
  createdAt : Nat
  updatedAt : Nat
  lastUsedStep : Option Int
  securityEpoch : Int

structure RecoveryRow where
  codeHash : Str
  usedAt : Option Nat
  createdAt : Nat

def RecoveryRow.use (code : RecoveryRow) (now : Nat) : RecoveryRow :=
  { code with usedAt := some now }

structure GrantRow where
  id : Str
  tokenHash : Str
  sessionBinding : Str
  factorConfirmedAt : Nat
  securityEpoch : Int
  mfaVerifiedAt : Nat
  expiresAt : Nat
  createdAt : Nat

/-- A browser session holds at most one grant, so these are keyed by its binding. -/
structure Account where
  mfa : Option MfaRow
  recovery : Table Str RecoveryRow
  grants : Table Str GrantRow

/-- A recovery code to insert: the id of its row and its salted hash. -/
structure NewCode where
  id : Str
  hash : Str

inductive RegenerateOutcome where
  | notEnrolled
  | stale

inductive IssueRefusal where
  | staleEpoch
  | recoverySpent
  | replayed

structure IssueRequest where
  tokenHash : Str
  sessionBinding : Str
  factorConfirmedAt : Nat
  verifiedAt : Nat
  expiresAt : Nat
  expectedEpoch : Int
  consumeRecoveryId : Option Str
  consumeTotpStep : Option Int

def IssueRequest.grant (request : IssueRequest) (id : Str) : GrantRow where
  id
  tokenHash := request.tokenHash
  sessionBinding := request.sessionBinding
  factorConfirmedAt := request.factorConfirmedAt
  securityEpoch := request.expectedEpoch
  mfaVerifiedAt := request.verifiedAt
  expiresAt := request.expiresAt
  createdAt := request.verifiedAt

namespace Account

/-- `UPDATE user_mfa … WHERE cond`: `none` when no row is affected. -/
def updateMfa (db : Account) (cond : MfaRow → Bool) (f : MfaRow → MfaRow) : Option Account :=
  db.mfa.bind fun row => if cond row then some { db with mfa := some (f row) } else none

/-! ## Enrollment -/

/-- Start or replace a pending enrollment.  A replaced row keeps its epoch, a new one
starts with the default of the column. -/
def beginEnrollment (db : Account) (secretEnc nonce : List UInt8) (ceremony : Str) (now : Nat) :
    Option Account :=
  match db.mfa with
  | none => some { db with
      mfa := some
        { secretEnc
          secretNonce := nonce
          ceremony
          confirmedAt := none
          createdAt := now
          updatedAt := now
          lastUsedStep := none
          securityEpoch := 0 } }
  | some _ => db.updateMfa (fun row => row.confirmedAt.isNone) fun row =>
      { row with
        secretEnc
        secretNonce := nonce
        ceremony
        confirmedAt := none
        createdAt := now
        updatedAt := now
        lastUsedStep := none }

/-- Replace every recovery code. -/
def replaceRecoveryCodes (db : Account) (codes : List NewCode) (now : Nat) : Account :=
  { db with recovery := codes.foldl (fun t code => t.insert code.id ⟨code.hash, none, now⟩) ∅ }

/-- The ceremony is the pending one. -/
def confirmable (mfa : Option MfaRow) (ceremony : Str) : Bool :=
  mfa.any fun row => row.confirmedAt.isNone && row.ceremony = ceremony

def confirmWithRecoveryCodes (db : Account) (codes : List NewCode) (ceremony : Str) (now : Nat) :
    Option Account :=
  (db.updateMfa (fun row => row.confirmedAt.isNone && row.ceremony = ceremony) fun row =>
    { row with confirmedAt := some now, updatedAt := now }).map fun db =>
      db.replaceRecoveryCodes codes now

/-- Accept a time step only when it is newer than the last one. -/
def recordUsedStep (db : Account) (step : Int) : Option Account :=
  db.updateMfa (fun row => row.lastUsedStep.all (· < step)) fun row =>
    { row with lastUsedStep := some step }

/-! ## Recovery codes -/

/-- In microseconds, as the status page posts it back. -/
def recoveryGeneration (row : MfaRow) : Int := (row.updatedAt / 1000 : Nat)

def regenerateRecoveryCodes (db : Account) (codes : List NewCode) (expectedGeneration : Int)
    (now : Nat) : Except RegenerateOutcome Account := do
  let row ← getOr (db.mfa.filter fun row => row.confirmedAt.isSome) .notEnrolled
  ensure (recoveryGeneration row = expectedGeneration) .stale
  let db ← getOr (db.updateMfa
    (fun current => current.confirmedAt.isSome && current.updatedAt = row.updatedAt)
    fun current => { current with updatedAt := now }) .stale
  pure (db.replaceRecoveryCodes codes now)

/-- The row of an unused code matching the one typed, which stays unused. -/
def findRecoveryCandidate [MfaHashing] (db : Account) (code : Str) : Option Str :=
  (db.recovery.entries.find? fun e =>
    e.2.usedAt.isNone && MfaHashing.verifyRecoveryCode code e.2.codeHash).map Sigma.fst

/-! ## Grants -/

/-- The epoch moves and every grant goes, in this order. -/
def deleteAll (db : Account) : Account :=
  let db := (db.updateMfa (fun _ => true) fun row =>
    { row with securityEpoch := row.securityEpoch + 1 }).getD db
  { db with grants := ∅ }

def revokeAll (db : Account) : Account := db.deleteAll

/-- Delete the factor, every recovery code and every grant. -/
def reset (db : Account) : Account :=
  { db.deleteAll with recovery := ∅, mfa := none }

def revokeOne (db : Account) (id : Str) : Account :=
  { db with grants := Table.retain db.grants fun _ grant => grant.id ≠ id }

def fetchValid (db : Account) (id : Str) (now : Nat) : Option GrantRow :=
  (db.grants.entries.find? fun e => e.2.id = id && now < e.2.expiresAt).map Sigma.snd

/-- `INSERT … SELECT … FROM user_mfa WHERE security_epoch = ? ON CONFLICT DO UPDATE`. -/
def upsertGrant (db : Account) (request : IssueRequest) (id : Str) : Option Account :=
  db.mfa.bind fun row =>
    if row.securityEpoch = request.expectedEpoch then
      some { db with
        grants := Table.upsert db.grants request.sessionBinding (request.grant id) }
    else none

/-- The TOTP step the challenge was answered with, if it was. -/
def spendStep (db : Account) : Option Int → Option Account
  | some step => db.recordUsedStep step
  | none => some db

/-- The recovery code the challenge was answered with, if it was. -/
def spendRecovery (db : Account) (now : Nat) : Option Str → Option Account
  | some rid =>
    (Table.updateWhere db.recovery rid (fun code => code.usedAt.isNone) fun code =>
      code.use now).map fun recovery => { db with recovery }
  | none => some db

/-- Issue or rotate the grant of one browser session. -/
def issue (db : Account) (request : IssueRequest) (id : Str) (now : Nat) :
    Except IssueRefusal Account := do
  let db ← getOr
    (db.updateMfa (fun row => row.securityEpoch = request.expectedEpoch) fun row => row) .staleEpoch
  let db ← getOr (db.spendStep request.consumeTotpStep) .replayed
  let db ← getOr (db.upsertGrant request id) .staleEpoch
  let db ← getOr (db.spendRecovery now request.consumeRecoveryId) .recoverySpent
  -- expired grants of the account are only ever removed here
  pure { db with grants := Table.retain db.grants fun _ grant => now ≤ grant.expiresAt }

end Account

/-! ## The decision -/

inductive MfaDecision where
  | satisfied
  | challengeRequired
  | enrollmentRequired
deriving DecidableEq

def nanosPerDay : Nat := 24 * 60 * 60 * 1000000000

def defaultMfaValidityDays : Nat := 7

def maxMfaValidityDays : Nat := 30

/-- The two fields of an app's spec that the decision reads. -/
structure MfaPolicy where
  requireMfa : Option Bool
  mfaValidityDays : Option Nat

def MfaPolicy.effectiveRequireMfa (spec : MfaPolicy) : Bool := spec.requireMfa.getD false

def MfaPolicy.effectiveMfaValidityDays (spec : MfaPolicy) : Nat :=
  min (spec.mfaValidityDays.getD defaultMfaValidityDays) maxMfaValidityDays

def isAsciiHexdigit (c : Char) : Bool :=
  c.isDigit || ('a' ≤ c && c ≤ 'f') || ('A' ≤ c && c ≤ 'F')

/-- The grant id and the token of a device cookie. -/
def deviceCookieParts (value : Str) : Option (Str × Str) :=
  match value.span (· ≠ '.') with
  | (_, []) => none
  | (id, _ :: token) =>
    if id.isEmpty || token.length ≠ 64 || !token.all isAsciiHexdigit then none
    else some (id, token)

/-- `evaluate` after its grant read, on the factor it reads next. -/
def judgeGrant [MfaHashing] (spec : MfaPolicy) (sessionId token : Str) (grant : GrantRow)
    (factor : Option MfaRow) (now : Nat) : MfaDecision :=
  match factor.filter fun row => row.confirmedAt.isSome with
  | none => .enrollmentRequired
  | some factor =>
    if !MfaHashing.verifyDeviceToken token grant.tokenHash || grant.expiresAt ≤ now ||
        factor.confirmedAt ≠ some grant.factorConfirmedAt ||
        grant.securityEpoch ≠ factor.securityEpoch then .challengeRequired
    else if spec.effectiveMfaValidityDays = 0 then
      if grant.sessionBinding = MfaHashing.sessionBinding sessionId then .satisfied
      else .challengeRequired
    else if now < grant.mfaVerifiedAt ∨
        spec.effectiveMfaValidityDays * nanosPerDay < now - grant.mfaVerifiedAt then
      .challengeRequired
    else .satisfied

theorem judgeGrant_satisfied [MfaHashing] {spec : MfaPolicy} {sessionId token : Str}
    {grant : GrantRow} {factor : Option MfaRow} {now : Nat}
    (h : judgeGrant spec sessionId token grant factor now = .satisfied) :
    ∃ row, factor = some row ∧ row.confirmedAt = some grant.factorConfirmedAt ∧
      row.securityEpoch = grant.securityEpoch := by
  unfold judgeGrant at h
  split at h
  · cases h
  · next row hrow =>
    split at h
    · cases h
    · next hbad =>
      simp only [Bool.or_eq_true, decide_eq_true_eq, not_or, not_not] at hbad
      exact ⟨row, (Option.filter_eq_some_iff.mp hrow).1, hbad.1.2, hbad.2.symm⟩

namespace Account

variable {db db' : Account} {cond : MfaRow → Bool} {f : MfaRow → MfaRow} {codes : List NewCode}
  {ceremony id : Str} {now : Nat} {step : Int} {grant : GrantRow} {request : IssueRequest}

/-! ## What a transaction can do -/

theorem updateMfa_eq_some (h : db.updateMfa cond f = some db') :
    ∃ row, db.mfa = some row ∧ cond row = true ∧ db' = { db with mfa := some (f row) } := by
  obtain ⟨row, hrow, h⟩ := Option.bind_eq_some_iff.mp h
  split at h
  · next hcond => exact ⟨row, hrow, hcond, (Option.some.inj h).symm⟩
  · cases h

/-- Whatever was there, what a start leaves is pending under its ceremony. -/
theorem beginEnrollment_eq_some {secretEnc nonce : List UInt8}
    (h : db.beginEnrollment secretEnc nonce ceremony now = some db') :
    ∃ row, db' = { db with mfa := some row } ∧ row.ceremony = ceremony ∧
      row.confirmedAt = none := by
  unfold beginEnrollment at h
  split at h
  · cases h
    exact ⟨_, rfl, rfl, rfl⟩
  · obtain ⟨row, -, -, rfl⟩ := updateMfa_eq_some h
    exact ⟨_, rfl, rfl, rfl⟩

theorem confirmWithRecoveryCodes_eq_some
    (h : db.confirmWithRecoveryCodes codes ceremony now = some db') :
    ∃ row, db.mfa = some row ∧ row.confirmedAt = none ∧ row.ceremony = ceremony ∧
      db' = { db.replaceRecoveryCodes codes now with
        mfa := some { row with confirmedAt := some now, updatedAt := now } } := by
  obtain ⟨_, hupdate, rfl⟩ := Option.map_eq_some_iff.mp h
  obtain ⟨row, hrow, hcond, rfl⟩ := updateMfa_eq_some hupdate
  simp only [Bool.and_eq_true, Option.isNone_iff_eq_none, decide_eq_true_eq] at hcond
  exact ⟨row, hrow, hcond.1, hcond.2, rfl⟩

theorem confirmWithRecoveryCodes_isSome :
    (db.confirmWithRecoveryCodes codes ceremony now).isSome = confirmable db.mfa ceremony := by
  unfold confirmWithRecoveryCodes updateMfa confirmable
  cases db.mfa with
  | none => rfl
  | some row =>
    rw [Option.bind_some, Option.isSome_map, Option.any_some]
    split
    · next hcond => exact hcond.symm
    · next hcond => exact (Bool.eq_false_iff.mpr hcond).symm

theorem recordUsedStep_eq_some (h : db.recordUsedStep step = some db') :
    ∃ row, db.mfa = some row ∧ (∀ last, row.lastUsedStep = some last → last < step) ∧
      db' = { db with mfa := some { row with lastUsedStep := some step } } := by
  obtain ⟨row, hrow, hcond, rfl⟩ := updateMfa_eq_some h
  refine ⟨row, hrow, fun last hlast => ?_, rfl⟩
  simpa [hlast] using hcond

theorem regenerateRecoveryCodes_ok {expected : Int}
    (h : db.regenerateRecoveryCodes codes expected now = .ok db') :
    ∃ row, db.mfa = some row ∧ db' = { db.replaceRecoveryCodes codes now with
      mfa := some { row with updatedAt := now } } := by
  simp only [regenerateRecoveryCodes, accepted_bind, accepted_getOr, accepted_pure] at h
  obtain ⟨_, -, _, -, _, hupdate, rfl⟩ := h
  obtain ⟨row, hrow, -, rfl⟩ := updateMfa_eq_some hupdate
  exact ⟨row, hrow, rfl⟩

/-- A replaced set holds the new codes, all unused. -/
theorem lookup_replaceRecoveryCodes {code : RecoveryRow}
    (h : (db.replaceRecoveryCodes codes now).recovery.lookup id = some code) :
    id ∈ codes.map NewCode.id ∧ code.usedAt = none := by
  have hloop : ∀ (t : Table Str RecoveryRow) (l : List NewCode),
      (l.foldl (fun t code => t.insert code.id ⟨code.hash, none, now⟩) t).lookup id = some code →
      t.lookup id = some code ∨ id ∈ l.map NewCode.id ∧ code.usedAt = none := by
    intro t l
    induction l generalizing t with
    | nil => exact .inl
    | cons new l ih =>
      intro h
      rcases ih _ h with h | ⟨hid, hunused⟩
      · rw [Table.lookup_insert_eq] at h
        split at h
        · next heq =>
          obtain rfl := Option.some.inj h
          exact .inr ⟨by simp [heq], rfl⟩
        · exact .inl h
      · exact .inr ⟨List.mem_cons_of_mem _ hid, hunused⟩
  rcases hloop ∅ codes h with h | h
  · simp at h
  · exact h

theorem deleteAll_eq (db : Account) : db.deleteAll =
    { db with
      mfa := db.mfa.map fun row => { row with securityEpoch := row.securityEpoch + 1 }
      grants := ∅ } := by
  unfold deleteAll updateMfa
  cases hrow : db.mfa <;> simp [hrow]

theorem fetchValid_eq_some (h : db.fetchValid id now = some grant) :
    ∃ binding, db.grants.lookup binding = some grant := by
  obtain ⟨⟨binding, found⟩, hfound, rfl⟩ := Option.map_eq_some_iff.mp h
  exact ⟨binding, Table.mem_entries_iff.mp (List.mem_of_find?_eq_some hfound)⟩

theorem spendStep_eq_some {step : Option Int} (h : db.spendStep step = some db') :
    (∀ row, db.mfa = some row → ∀ s, step = some s → ∀ last, row.lastUsedStep = some last →
      last < s) ∧
    db' = { db with mfa := db.mfa.map fun row =>
      { row with lastUsedStep := step <|> row.lastUsedStep } } := by
  cases step with
  | none =>
    cases h
    refine ⟨nofun, ?_⟩
    cases hrow : db.mfa <;> simp [← hrow]
  | some step =>
    obtain ⟨row, hrow, hnewer, rfl⟩ := recordUsedStep_eq_some h
    refine ⟨?_, by simp [hrow]⟩
    intro row' hrow' s hs last hlast
    obtain rfl := Option.some.inj hs
    obtain rfl := Option.some.inj (hrow.symm.trans hrow')
    exact hnewer last hlast

theorem upsertGrant_eq_some (h : db.upsertGrant request id = some db') :
    db' = { db with
      grants := Table.upsert db.grants request.sessionBinding (request.grant id) } := by
  obtain ⟨row, -, h⟩ := Option.bind_eq_some_iff.mp h
  split at h <;> cases h
  rfl

theorem spendRecovery_eq_some {rid : Option Str} (h : db.spendRecovery now rid = some db') :
    (∀ id, rid = some id → ∃ code, db.recovery.lookup id = some code ∧ code.usedAt = none) ∧
    db' = { db with
      recovery := rid.elim db.recovery fun id =>
        Table.update db.recovery id fun code => code.use now } := by
  cases rid with
  | none =>
    cases h
    exact ⟨nofun, rfl⟩
  | some rid =>
    obtain ⟨recovery, hupdate, rfl⟩ := Option.map_eq_some_iff.mp h
    obtain ⟨code, hcode, hunused, rfl⟩ := Table.updateWhere_eq_some hupdate
    refine ⟨?_, rfl⟩
    intro id hid
    obtain rfl := Option.some.inj hid
    exact ⟨code, hcode, by simpa using hunused⟩

/-- Everything an issuance that goes through has checked and written. -/
structure Issued (db : Account) (request : IssueRequest) (id : Str) (now : Nat) (row : MfaRow)
    (db' : Account) : Prop where
  live : db.mfa = some row
  epoch : row.securityEpoch = request.expectedEpoch
  newer : ∀ step, request.consumeTotpStep = some step →
    ∀ last, row.lastUsedStep = some last → last < step
  unused : ∀ rid, request.consumeRecoveryId = some rid →
    ∃ code, db.recovery.lookup rid = some code ∧ code.usedAt = none
  result : db' =
    { mfa := some { row with lastUsedStep := request.consumeTotpStep <|> row.lastUsedStep }
      recovery := request.consumeRecoveryId.elim db.recovery fun rid =>
        Table.update db.recovery rid fun code => code.use now
      grants := Table.retain (Table.upsert db.grants request.sessionBinding (request.grant id))
        fun _ grant => now ≤ grant.expiresAt }

theorem issue_ok (h : db.issue request id now = .ok db') :
    ∃ row, Issued db request id now row db' := by
  simp only [issue, accepted_bind, accepted_getOr, accepted_pure] at h
  obtain ⟨_, hlock, _, hstep, _, hgrant, _, hspent, rfl⟩ := h
  obtain ⟨row, hrow, hepoch, rfl⟩ := updateMfa_eq_some hlock
  obtain ⟨hnewer, rfl⟩ := spendStep_eq_some hstep
  obtain rfl := upsertGrant_eq_some hgrant
  obtain ⟨hunused, rfl⟩ := spendRecovery_eq_some hspent
  refine ⟨row, hrow, by simpa using hepoch, hnewer row rfl, hunused, rfl⟩

end Account

end Ruscker.Mfa
