import Ruscker.Mfa.Requests

/-!
# Trust in devices

A grant carries the confirmation time and the epoch of the factor its challenge was read
from.  Together they date the factor: while it is confirmed at that time, the epoch
counts the revocations since.  An access decision compares both and is never fooled; an
issuance compares the epoch alone, and a later enrollment starts at epoch 0 again.
-/

namespace Ruscker.Mfa.DeviceTrust

open Tables Machines Machines.Machine

/-- What the grants of an account owe its revocations. -/
structure Kept (s : State) : Prop where
  answers : ∀ a ∈ s.answers,
    ∃ issued, s.issues.lookup a.grant = some issued ∧ issued.factorRead = a.grantRead
  issues : ∀ id issued, s.issues.lookup id = some issued → issued.factorRead = issued.committed

/-! ## The schedules -/

/-- No two enrollments are confirmed at the same time. -/
def Distinct (s : State) : Event → Prop
  | .commit i _ now => now ∈ s.confirmations → s.pool[i]?.all (fun
    | .committing ceremony .. => !Account.confirmable s.db.mfa ceremony
    | _ => true) = true
  | _ => True

instance (s : State) (e : Event) : Decidable (Distinct s e) := by
  unfold Distinct
  split <;> exact inferInstance

def Phase.current (mfa : Option MfaRow) : Phase → Bool
  | .issuing seen .. => mfa.all fun row =>
      row.securityEpoch ≠ seen.row.securityEpoch || row.confirmedAt = some seen.confirmedAt
  | _ => true

/-- The side condition on an issuance: it does not meet a later enrollment at the epoch
it has read. -/
def Current (s : State) : Event → Prop
  | .issue i .. => s.pool[i]?.all (Phase.current s.db.mfa) = true
  | _ => True

instance (s : State) (e : Event) : Decidable (Current s e) := by
  unfold Current
  split <;> exact inferInstance

/-! ## Dated factors -/

/-- The factor, the times of all confirmations and the number of revocations so far. -/
structure Timeline where
  mfa : Option MfaRow
  confirmations : List Nat
  revocations : Nat

def timeline (s : State) : Timeline := ⟨s.db.mfa, s.confirmations, s.revocations⟩

variable {s s' : State} {i : Nat} {phase : Phase} {t t' : Timeline} {row row' : MfaRow}
  {confirmedAt factorRead : Nat} {epoch : Int}

/-- A factor confirmed at this time had this epoch after so many revocations. -/
structure Dated (t : Timeline) (confirmedAt : Nat) (epoch : Int) (factorRead : Nat) : Prop where
  confirmed : confirmedAt ∈ t.confirmations
  past : factorRead ≤ t.revocations
  live : ∀ row, t.mfa = some row → row.confirmedAt = some confirmedAt →
    row.securityEpoch + factorRead = epoch + t.revocations

/-- Time moves on: the factor was confirmed just now, or is the old one at an epoch that
moved with the revocations. -/
structure Advances (t t' : Timeline) : Prop where
  confirmations : t.confirmations ⊆ t'.confirmations
  revocations : t.revocations ≤ t'.revocations
  factor : ∀ row' confirmedAt, t'.mfa = some row' → row'.confirmedAt = some confirmedAt →
    (confirmedAt ∈ t'.confirmations ∧ confirmedAt ∉ t.confirmations) ∨
    ∃ row, t.mfa = some row ∧ row.confirmedAt = some confirmedAt ∧
      row'.securityEpoch + t.revocations = row.securityEpoch + t'.revocations

theorem Dated.advance (h : Dated t confirmedAt epoch factorRead) (hadv : Advances t t') :
    Dated t' confirmedAt epoch factorRead where
  confirmed := hadv.confirmations h.confirmed
  past := Nat.le_trans h.past hadv.revocations
  live row' hrow' hconfirmed := by
    rcases hadv.factor row' confirmedAt hrow' hconfirmed with ⟨-, hnew⟩ | ⟨row, hrow, hold, hepoch⟩
    · exact absurd h.confirmed hnew
    · have hlive := h.live row hrow hold
      omega

/-- A factor is dated by a read of it. -/
theorem Dated.read (hconfirmed : confirmedAt ∈ t.confirmations) (hrow : t.mfa = some row) :
    Dated t confirmedAt row.securityEpoch t.revocations where
  confirmed := hconfirmed
  past := Nat.le_refl _
  live row' hrow' _ := by
    obtain rfl := Option.some.inj (hrow.symm.trans hrow')
    rfl

/-- A dated factor at its old epoch has seen no revocation since. -/
theorem Dated.eq_of_epoch (h : Dated t confirmedAt epoch factorRead) (hrow : t.mfa = some row)
    (hconfirmed : row.confirmedAt = some confirmedAt) (hepoch : row.securityEpoch = epoch) :
    factorRead = t.revocations := by
  have hlive := h.live row hrow hconfirmed
  omega

/-! ## Grants on a timeline -/

/-- The grant was issued, by what the log says. -/
def Recorded (issues : Table Str Issuance) (grant : GrantRow) (factorRead : Nat) : Prop :=
  ∃ issued, issues.lookup grant.id = some issued ∧ issued.grant = grant ∧
    issued.factorRead ≤ factorRead

theorem Recorded.insert {issues : Table Str Issuance} {grant : GrantRow} {id : Str}
    {new : Issuance} (h : Recorded issues grant factorRead) (hnew : issues.lookup id = none) :
    Recorded (issues.insert id new) grant factorRead := by
  obtain ⟨issued, hissued, hgrant, hread⟩ := h
  exact ⟨issued, Table.lookup_insert_of_new hnew hissued, hgrant, hread⟩

/-- What a request in flight relies on. -/
def Phase.Sound (t : Timeline) (issues : Table Str Issuance) : Phase → Prop
  | .matching seen .. | .issuing seen .. =>
    Dated t seen.confirmedAt seen.row.securityEpoch seen.revocations
  | .evaluating _ _ grant revocations =>
    revocations ≤ t.revocations ∧ Recorded issues grant revocations
  | _ => True

structure Inv (s : State) : Prop where
  row : ∀ row confirmedAt, s.db.mfa = some row → row.confirmedAt = some confirmedAt →
    confirmedAt ∈ s.confirmations
  phases : ∀ phase ∈ s.pool, Phase.Sound (timeline s) s.issues phase
  grants : ∀ binding grant, s.db.grants.lookup binding = some grant →
    Recorded s.issues grant s.revocations
  issued : ∀ id issued, s.issues.lookup id = some issued →
    Dated (timeline s) issued.grant.factorConfirmedAt issued.grant.securityEpoch
      issued.factorRead
  kept : Kept s

namespace Inv

theorem initial : Inv State.initial where
  row _ _ h := by cases h
  phases _ h := absurd h List.not_mem_nil
  grants _ _ h := by cases h
  issued _ _ h := by cases h
  kept := ⟨fun _ h => absurd h List.not_mem_nil, fun _ _ h => by cases h⟩

theorem frame (h : Inv s) (recovery : Table Str RecoveryRow)
    (ceremonies recoveryIds latestCodes : List Str) (acceptedSteps : List (Str × Int))
    (acceptedCodes : List AcceptedCode) (refusals : List (Account × Account)) :
    Inv { s with
      db := { s.db with recovery }, ceremonies, recoveryIds, latestCodes, acceptedSteps,
      acceptedCodes, refusals } where
  row := h.row
  phases := h.phases
  grants := h.grants
  issued := h.issued
  kept := ⟨h.kept.answers, h.kept.issues⟩

theorem spawn (h : Inv s) (hphase : Phase.Sound (timeline s) s.issues phase) :
    Inv (s.spawn phase) where
  row := h.row
  phases := forall_mem_concat h.phases hphase
  grants := h.grants
  issued := h.issued
  kept := ⟨h.kept.answers, h.kept.issues⟩

theorem move (h : Inv s) (i : Nat) (phase : Phase)
    (hphase : Phase.Sound (timeline s) s.issues phase) : Inv (s.move i phase) where
  row := h.row
  phases := forall_mem_set h.phases hphase
  grants := h.grants
  issued := h.issued
  kept := ⟨h.kept.answers, h.kept.issues⟩

theorem readFactor {seen : FactorRead} (h : Inv s) (hseen : s.readFactor = some seen) :
    Dated (timeline s) seen.confirmedAt seen.row.securityEpoch seen.revocations := by
  obtain ⟨row, hrow, hof⟩ := Option.bind_eq_some_iff.mp hseen
  unfold FactorRead.of at hof
  split at hof <;> cases hof
  next confirmedAt hconfirmed => exact .read (h.row row confirmedAt hrow hconfirmed) hrow

theorem advance (h : Inv s) (mfa : Option MfaRow) (confirmations : List Nat) (revocations : Nat)
    (hadv : Advances (timeline s) ⟨mfa, confirmations, revocations⟩) :
    Inv { s with db := { s.db with mfa }, confirmations, revocations } where
  row row' confirmedAt hrow' hconfirmed := by
    rcases hadv.factor row' confirmedAt hrow' hconfirmed with ⟨hnew, -⟩ | ⟨row, hrow, hold, -⟩
    · exact hnew
    · exact hadv.confirmations (h.row row confirmedAt hrow hold)
  phases phase hphase := by
    have hsound := h.phases phase hphase
    cases phase with
    | matching | issuing => exact hsound.advance hadv
    | evaluating => exact ⟨Nat.le_trans hsound.1 hadv.revocations, hsound.2⟩
    | recording | committing | granting | finished => trivial
  grants binding grant hgrant := by
    obtain ⟨issued, hissued, heq, hle⟩ := h.grants binding grant hgrant
    exact ⟨issued, hissued, heq, Nat.le_trans hle hadv.revocations⟩
  issued id issued hissued := (h.issued id issued hissued).advance hadv
  kept := ⟨h.kept.answers, h.kept.issues⟩

/-- The factor is updated in place, its date apart. -/
theorem follow (h : Inv s) (hrow : s.db.mfa = some row) (row' : MfaRow)
    (hconfirmed : row'.confirmedAt = row.confirmedAt)
    (hepoch : row'.securityEpoch = row.securityEpoch) :
    Inv { s with db := { s.db with mfa := some row' } } := by
  refine h.advance (some row') s.confirmations s.revocations
    ⟨List.Subset.refl _, Nat.le_refl _, fun _ confirmedAt heq hat => .inr ?_⟩
  obtain rfl := Option.some.inj heq
  exact ⟨row, hrow, hconfirmed.symm.trans hat, by rw [hepoch]; rfl⟩

/-- The grants that remain are among the old ones. -/
theorem dropGrants (h : Inv s) (grants : Table Str GrantRow)
    (hsub : ∀ binding grant, grants.lookup binding = some grant →
      s.db.grants.lookup binding = some grant) :
    Inv { s with db := { s.db with grants } } where
  row := h.row
  phases := h.phases
  grants binding grant hgrant := h.grants binding grant (hsub binding grant hgrant)
  issued := h.issued
  kept := ⟨h.kept.answers, h.kept.issues⟩

/-- An issuance by a factor read after the last revocation replaces the grant of its
browser session. -/
theorem record (h : Inv s) (grant : GrantRow) (hnew : s.issues.lookup grant.id = none)
    (hdated : Dated (timeline s) grant.factorConfirmedAt grant.securityEpoch factorRead)
    (hlast : factorRead = s.revocations) (binding : Str) (keep : Str → GrantRow → Bool) :
    Inv { s with
      db := { s.db with
        grants := Table.retain (Table.upsert s.db.grants binding grant) keep }
      issues := s.issues.insert grant.id ⟨grant, factorRead, s.revocations⟩ } where
  row := h.row
  phases phase hphase := by
    have hsound := h.phases phase hphase
    cases phase with
    | evaluating => exact ⟨hsound.1, hsound.2.insert hnew⟩
    | _ => exact hsound
  grants binding' grant' hgrant' := by
    have hgrant' := (Table.lookup_retain.mp hgrant').1
    rw [Table.lookup_upsert] at hgrant'
    split at hgrant'
    · obtain rfl := Option.some.inj hgrant'
      exact ⟨_, AList.lookup_insert _, rfl, hdated.past⟩
    · exact (h.grants binding' grant' hgrant').insert hnew
  issued id issued hissued := by
    rw [Table.lookup_insert_eq] at hissued
    split at hissued
    · obtain rfl := Option.some.inj hissued
      exact hdated
    · exact h.issued id issued hissued
  kept := by
    refine ⟨fun a ha => ?_, fun id issued hissued => ?_⟩
    · obtain ⟨issued, hissued, hread⟩ := h.kept.answers a ha
      exact ⟨issued, Table.lookup_insert_of_new hnew hissued, hread⟩
    · rw [Table.lookup_insert_eq] at hissued
      split at hissued
      · obtain rfl := Option.some.inj hissued
        exact hlast
      · exact h.kept.issues id issued hissued

/-- A grant that matches the live factor was issued after the last revocation. -/
theorem answer {check : AccessCheck} {token : Str} {grant : GrantRow} {revocations : Nat}
    (h : Inv s) (hi : s.pool[i]? = some (.evaluating check token grant revocations))
    (hrow : s.db.mfa = some row) (hconfirmed : row.confirmedAt = some grant.factorConfirmedAt)
    (hepoch : row.securityEpoch = grant.securityEpoch) :
    Inv { s with answers := ⟨grant.id, revocations⟩ :: s.answers } where
  row := h.row
  phases := h.phases
  grants := h.grants
  issued := h.issued
  kept := by
    refine ⟨fun a ha => ?_, h.kept.issues⟩
    rcases List.mem_cons.mp ha with rfl | hold
    · obtain ⟨hpast, issued, hissued, rfl, hread⟩ := h.phases _ (List.mem_of_getElem? hi)
      have hlast := (h.issued _ issued hissued).eq_of_epoch hrow hconfirmed hepoch
      exact ⟨issued, hissued, Nat.le_antisymm hread (hpast.trans (Nat.le_of_eq hlast.symm))⟩
    · exact h.kept.answers a hold

theorem step {e : Event} (h : Inv s) (hdistinct : Distinct s e) (hcurrent : Current s e)
    (hmoved : Moved s e s') : Inv s' := by
  cases hmoved with
  | stayed => exact h
  | turnedAway => exact h.frame s.db.recovery _ _ _ _ _ _
  | closed _ i => exact h.move i .finished trivial
  | refused _ i => exact (h.move i .finished trivial).frame s.db.recovery _ _ _ _ _ _
  | started _ hdb =>
    obtain ⟨row, rfl, -, hpending⟩ := Account.beginEnrollment_eq_some hdb
    refine (h.advance (some row) s.confirmations s.revocations
      ⟨List.Subset.refl _, Nat.le_refl _, fun _ confirmedAt heq hat => ?_⟩).frame
      s.db.recovery _ _ _ _ _ _
    obtain rfl := Option.some.inj heq
    rw [hpending] at hat
    cases hat
  | confirming _ step binding hrow => exact h.spawn trivial
  | @recorded i ceremony binding timeStep _ hi hdb =>
    obtain ⟨row, hrow, -, rfl⟩ := Account.recordUsedStep_eq_some hdb
    have hfollow := h.follow hrow { row with lastUsedStep := some timeStep } rfl rfl
    exact hfollow.move i (.committing ceremony timeStep binding s.db _) trivial
  | @committed i _ binding _ _ _ _ codes now hi _ hdb =>
    obtain ⟨row, hrow, hpending, hceremony, rfl⟩ := Account.confirmWithRecoveryCodes_eq_some hdb
    have hnew : now ∉ s.confirmations := by
      intro hold
      have hrefused := hdistinct hold
      rw [hi] at hrefused
      simp [Account.confirmable, hrow, hpending, hceremony] at hrefused
    refine ((h.advance (some { row with confirmedAt := some now, updatedAt := now })
      (now :: s.confirmations) s.revocations ⟨List.subset_cons_self .., Nat.le_refl _,
        fun _ confirmedAt heq hat => .inl ?_⟩).move i (.granting binding) trivial).frame
      _ _ _ _ _ _ _
    obtain rfl := Option.some.inj heq
    obtain rfl := Option.some.inj hat
    exact ⟨List.mem_cons_self, hnew⟩
  | superseded => exact (h.move _ .finished trivial).frame s.db.recovery _ _ _ _ _ _
  | readBack i binding hseen => exact h.move i _ (h.readFactor hseen)
  | challenged _ binding step hseen => exact h.spawn (h.readFactor hseen)
  | matching _ binding code hseen => exact h.spawn (h.readFactor hseen)
  | @matched i _ _ _ id hi =>
    have hsound := h.phases _ (List.mem_of_getElem? hi)
    exact h.move i _ hsound
  | @issued i seen binding id tokenHash verifiedAt now recoveryId totpStep _ row hi hissued hnew =>
    obtain rfl := hissued.result
    let request := seen.request binding tokenHash verifiedAt recoveryId totpStep
    have hdated : Dated (timeline s) seen.confirmedAt seen.row.securityEpoch seen.revocations :=
      h.phases _ (List.mem_of_getElem? hi)
    have hconfirmed : row.confirmedAt = some seen.confirmedAt := by
      simpa [Current, hi, Phase.current, hissued.live, hissued.epoch, FactorRead.request]
        using hcurrent
    have hlast := hdated.eq_of_epoch hissued.live hconfirmed hissued.epoch
    have hrecord := h.record (request.grant id) hnew hdated hlast binding
      fun _ grant => now ≤ grant.expiresAt
    have hfollow := hrecord.follow hissued.live
      { row with lastUsedStep := totpStep <|> row.lastUsedStep } rfl rfl
    exact (hfollow.move i .finished trivial).frame _ _ _ _ _ _ _
  | @regenerated codes _ now _ _ _ hdb =>
    obtain ⟨row, hrow, rfl⟩ := Account.regenerateRecoveryCodes_ok hdb
    have hfollow := h.follow hrow { row with updatedAt := now } rfl rfl
    exact hfollow.frame _ _ _ _ _ _ _
  | revoked _ db hdb =>
    rcases hdb with rfl | rfl
    · have hgone := h.advance none s.confirmations (s.revocations + 1)
        ⟨List.Subset.refl _, Nat.le_succ _, nofun⟩
      exact (hgone.dropGrants ∅ nofun).frame ∅ _ _ _ _ _ _
    · rw [State.revoke, Account.deleteAll_eq]
      refine (h.advance _ s.confirmations (s.revocations + 1)
        ⟨List.Subset.refl _, Nat.le_succ _, fun row' confirmedAt hrow' hat => .inr ?_⟩).dropGrants
        ∅ nofun
      obtain ⟨row, hrow, rfl⟩ := Option.map_eq_some_iff.mp hrow'
      refine ⟨row, hrow, hat, ?_⟩
      simp only [timeline]
      omega
  | forgot id =>
    exact h.dropGrants _ fun binding grant hgrant => (Table.lookup_retain.mp hgrant).1
  | evaluating _ check token hgrant =>
    obtain ⟨binding, hgrant⟩ := Account.fetchValid_eq_some hgrant
    exact h.spawn ⟨Nat.le_refl _, h.grants binding _ hgrant⟩
  | @answered i _ _ _ _ _ _ hi hrow hconfirmed hepoch =>
    exact (h.answer hi hrow hconfirmed hepoch).move i .finished trivial

end Inv

/-- **Trust ends with every revocation.** In every run in which no issuance meets a later
enrollment at the epoch it has read, a decision satisfied by a stored grant read it with
no revocation since the factor read of its issuance, and every issuance went through
without one. -/
theorem kept_of_current [MfaHashing] {s : State} {es : List Event}
    (hrun : machine.Run (fun s e => Distinct s e ∧ Current s e) State.initial es s) : Kept s :=
  (hrun.invariant Inv.initial fun _ _ _ hinv hok hstep =>
    hinv.step hok.1 hok.2 (moved_of_step hstep)).kept

/-! ## An issuance across a reset -/

section Overwrite

attribute [local instance] plainMfaHashing

/-- An account enrolls in one browser session, and gets its grant. -/
def enrolling (ceremony recovery grant : Str) (i : Nat) (now : Nat) : List Event :=
  [.start [1] [2] ceremony now, .confirm ceremony (some 7) "tab".toList, .record i,
    .commit i [⟨recovery, "code".toList⟩] now, .readBack i,
    .issue i grant (List.replicate 64 '0') now now]

/-- A challenge of the first enrollment issues after the reset, over the grant that the
second enrollment has just got. -/
def issueAfterReset : List Event :=
  enrolling "first".toList "p".toList "f".toList 0 1 ++
    [.challenge (.totp (some 8)) "tab".toList, .reset] ++
    enrolling "second".toList "q".toList "g".toList 2 2 ++
    [.issue 1 "h".toList "t".toList 3 3]

theorem issueAfterReset_overwrites :
    ¬ ∀ (s : State) (es : List Event), machine.Run Distinct State.initial es s → Kept s := by
  intro hclaim
  have hsome : (machine.execIf Distinct State.initial issueAfterReset).isSome = true := by decide
  have hkept := hclaim _ _ (run_execIf hsome)
  have hlog : (((machine.execIf Distinct State.initial issueAfterReset).get
      (by decide)).issues.lookup "h".toList).map
        (fun issued => (issued.factorRead, issued.committed)) = some (0, 1) := by decide
  obtain ⟨issued, hissued, hread⟩ := Option.map_eq_some_iff.mp hlog
  have heq := hkept.issues "h".toList issued hissued
  simp only [Prod.mk.injEq] at hread
  omega

example : ((machine.exec State.initial issueAfterReset).bind fun s =>
    (s.db.grants.lookup "tab".toList).map GrantRow.id) = some "h".toList := by decide

/-- The browser comes back with its cookie, and again after a revocation. -/
def decisions : List Event :=
  let check : AccessCheck :=
    { spec := ⟨some true, none⟩
      sessionId := "tab".toList
      cookie := some ("f.".toList ++ List.replicate 64 '0') }
  enrolling "first".toList "p".toList "f".toList 0 1 ++
    [.evaluate check 2, .judge 1 3, .evaluate check 4, .revokeAll, .judge 2 5, .reset] ++
    enrolling "second".toList "q".toList "g".toList 3 6

theorem kept_of_current_decisions :
    ∃ s, machine.Run (fun s e => Distinct s e ∧ Current s e) State.initial decisions s ∧
      s.answers.length = 1 ∧ Kept s := by
  have hsome : (machine.execIf (fun s e => Distinct s e ∧ Current s e) State.initial
    decisions).isSome = true := by decide
  have hrun := run_execIf hsome
  exact ⟨_, hrun, rfl, kept_of_current hrun⟩

end Overwrite

end Ruscker.Mfa.DeviceTrust
