import Ruscker.Mfa.Requests

/-!
# One-time proofs

A conditional update of the factor's row spends a TOTP step, one of its own row spends
a recovery code.  An issuance knows the enrollment its challenge was read from by the
epoch alone, and a reset lets the next enrollment start at the same epoch; a confirm
spends its step before it knows whether its enrollment is still there.  In runs without
these two encounters every proof is accepted once and every refusal changes nothing.
-/

namespace Ruscker.Mfa.OneTime

open Tables Machines Machines.Machine

/-- What the requests of an account owe its proofs. -/
structure Kept (s : State) : Prop where
  steps : s.acceptedSteps.Nodup
  codes : (s.acceptedCodes.map AcceptedCode.id).Nodup
  latest : ∀ a ∈ s.acceptedCodes, a.id ∈ a.latest
  refusals : ∀ r ∈ s.refusals, r.1 = r.2

/-! ## Meeting the enrollment that was read -/

def Phase.inCeremony (mfa : Option MfaRow) : Phase → Bool
  | .issuing seen _ _ (some _) => mfa.all fun row =>
      row.securityEpoch ≠ seen.row.securityEpoch || row.ceremony = seen.row.ceremony
  | .committing ceremony .. => Account.confirmable mfa ceremony
  | _ => true

/-- The side condition on an issuance and on a confirmation: a TOTP challenge does not
issue against a later enrollment of its epoch, and a confirm that recorded its step
still finds its enrollment pending. -/
def Event.inCeremony (s : State) : Event → Bool
  | .issue i .. | .commit i .. => s.pool[i]?.all (Phase.inCeremony s.db.mfa)
  | _ => true

abbrev InCeremony (s : State) (e : Event) : Prop := Event.inCeremony s e = true

/-! ## Spent proofs stay spent -/

variable {s s' : State} {i : Nat} {phase : Phase} {mfa : Option MfaRow} {row row' : MfaRow}
  {ceremony id : Str} {timeStep : Int}
  {ceremonies : List Str} {codes : List NewCode} {now : Nat}

def Confirmed (mfa : Option MfaRow) (ceremony : Str) : Prop :=
  ∀ row, mfa = some row → row.ceremony = ceremony → row.confirmedAt.isSome = true

/-- The enrollment takes no step up to this one any more. -/
def Reached (mfa : Option MfaRow) (ceremony : Str) (step : Int) : Prop :=
  ∀ row, mfa = some row → row.ceremony = ceremony →
    ∃ last, row.lastUsedStep = some last ∧ step ≤ last

def Spent (recovery : Table Str RecoveryRow) (id : Str) : Prop :=
  ∀ code, recovery.lookup id = some code → code.usedAt.isSome = true

/-- A later version of the same row. -/
structure Follows (row row' : MfaRow) : Prop where
  ceremony : row'.ceremony = row.ceremony
  confirmed : row.confirmedAt.isSome = true → row'.confirmedAt.isSome = true
  step : ∀ last, row.lastUsedStep = some last →
    ∃ last', row'.lastUsedStep = some last' ∧ last ≤ last'

theorem Follows.of_sameStep (hceremony : row'.ceremony = row.ceremony)
    (hconfirmed : row.confirmedAt.isSome = true → row'.confirmedAt.isSome = true)
    (hstep : row'.lastUsedStep = row.lastUsedStep) : Follows row row' :=
  ⟨hceremony, hconfirmed, fun last hlast => ⟨last, hstep.trans hlast, Int.le_refl last⟩⟩

theorem Follows.of_newer (hnewer : ∀ last, row.lastUsedStep = some last → last < timeStep) :
    Follows row { row with lastUsedStep := some timeStep } :=
  ⟨rfl, fun h => h, fun last hlast => ⟨timeStep, rfl, Int.le_of_lt (hnewer last hlast)⟩⟩

/-- The factor is a later version of the old one, or one of a ceremony not seen before. -/
def Advances (ceremonies : List Str) (mfa mfa' : Option MfaRow) : Prop :=
  ∀ row', mfa' = some row' →
    row'.ceremony ∉ ceremonies ∨ ∃ row, mfa = some row ∧ Follows row row'

theorem Confirmed.advance {mfa' : Option MfaRow} (h : Confirmed mfa ceremony)
    (hadv : Advances ceremonies mfa mfa') (hmem : ceremony ∈ ceremonies) :
    Confirmed mfa' ceremony := by
  intro row' hrow' hceremony
  rcases hadv row' hrow' with hnew | ⟨row, hrow, hfollows⟩
  · exact absurd (hceremony ▸ hmem) hnew
  · exact hfollows.confirmed (h row hrow (hfollows.ceremony.symm.trans hceremony))

theorem Reached.advance {mfa' : Option MfaRow} (h : Reached mfa ceremony timeStep)
    (hadv : Advances ceremonies mfa mfa') (hmem : ceremony ∈ ceremonies) :
    Reached mfa' ceremony timeStep := by
  intro row' hrow' hceremony
  rcases hadv row' hrow' with hnew | ⟨row, hrow, hfollows⟩
  · exact absurd (hceremony ▸ hmem) hnew
  · obtain ⟨last, hlast, hle⟩ := h row hrow (hfollows.ceremony.symm.trans hceremony)
    obtain ⟨last', hlast', hle'⟩ := hfollows.step last hlast
    exact ⟨last', hlast', by omega⟩

/-- What a request in flight relies on. -/
def Phase.Sound (ceremonies : List Str) (mfa : Option MfaRow) : Phase → Prop
  | .matching seen .. | .issuing seen .. =>
    seen.row.ceremony ∈ ceremonies ∧ Confirmed mfa seen.row.ceremony
  | .recording ceremony .. => ceremony ∈ ceremonies
  | .committing ceremony step .. => ceremony ∈ ceremonies ∧ Reached mfa ceremony step
  | _ => True

structure Inv (s : State) : Prop where
  row : ∀ row, s.db.mfa = some row → row.ceremony ∈ s.ceremonies
  phases : ∀ phase ∈ s.pool, Phase.Sound s.ceremonies s.db.mfa phase
  stored : ∀ id code, s.db.recovery.lookup id = some code →
    id ∈ s.recoveryIds ∧ id ∈ s.latestCodes
  steps : ∀ a ∈ s.acceptedSteps,
    a.1 ∈ s.ceremonies ∧ Confirmed s.db.mfa a.1 ∧ Reached s.db.mfa a.1 a.2
  codes : ∀ a ∈ s.acceptedCodes, a.id ∈ s.recoveryIds ∧ Spent s.db.recovery a.id
  kept : Kept s

namespace Inv

theorem initial : Inv State.initial where
  row _ h := by cases h
  phases _ h := absurd h List.not_mem_nil
  stored _ _ h := by cases h
  steps _ h := absurd h List.not_mem_nil
  codes _ h := absurd h List.not_mem_nil
  kept := ⟨List.nodup_nil, List.nodup_nil, fun _ h => absurd h List.not_mem_nil,
    fun _ h => absurd h List.not_mem_nil⟩

/-! ### The pool and the log -/

theorem spawn (h : Inv s) (hphase : Phase.Sound s.ceremonies s.db.mfa phase) :
    Inv (s.spawn phase) where
  row := h.row
  phases := forall_mem_concat h.phases hphase
  stored := h.stored
  steps := h.steps
  codes := h.codes
  kept := ⟨h.kept.steps, h.kept.codes, h.kept.latest, h.kept.refusals⟩

theorem move (h : Inv s) (i : Nat) (phase : Phase)
    (hphase : Phase.Sound s.ceremonies s.db.mfa phase) : Inv (s.move i phase) where
  row := h.row
  phases := forall_mem_set h.phases hphase
  stored := h.stored
  steps := h.steps
  codes := h.codes
  kept := ⟨h.kept.steps, h.kept.codes, h.kept.latest, h.kept.refusals⟩

theorem refuse (h : Inv s) : Inv s.refuse where
  row := h.row
  phases := h.phases
  stored := h.stored
  steps := h.steps
  codes := h.codes
  kept := ⟨h.kept.steps, h.kept.codes, h.kept.latest, fun r hr => by
    rcases List.mem_cons.mp hr with rfl | hold
    · rfl
    · exact h.kept.refusals r hold⟩

/-- Neither the grants nor the other ghosts matter here. -/
theorem frame (h : Inv s) (grants : Table Str GrantRow) (confirmations : List Nat)
    (revocations : Nat) (issues : Table Str Issuance) (answers : List Answer) :
    Inv { s with db := { s.db with grants }, confirmations, revocations, issues, answers } where
  row := h.row
  phases := h.phases
  stored := h.stored
  steps := h.steps
  codes := h.codes
  kept := ⟨h.kept.steps, h.kept.codes, h.kept.latest, h.kept.refusals⟩

theorem readFactor {seen : FactorRead} (h : Inv s) (hseen : s.readFactor = some seen) :
    seen.row.ceremony ∈ s.ceremonies ∧ Confirmed s.db.mfa seen.row.ceremony := by
  obtain ⟨row, hrow, hof⟩ := Option.bind_eq_some_iff.mp hseen
  unfold FactorRead.of at hof
  split at hof <;> cases hof
  refine ⟨h.row row hrow, fun row' hrow' _ => ?_⟩
  obtain rfl := Option.some.inj (hrow.symm.trans hrow')
  simp [*]

/-! ### The factor -/

theorem advance (h : Inv s) (mfa : Option MfaRow) (hadv : Advances s.ceremonies s.db.mfa mfa)
    (hsub : s.ceremonies ⊆ ceremonies)
    (hrow : ∀ row, mfa = some row → row.ceremony ∈ ceremonies) :
    Inv { s with db := { s.db with mfa }, ceremonies } where
  row := hrow
  phases phase hphase := by
    have hsound := h.phases phase hphase
    cases phase with
    | matching | issuing => exact ⟨hsub hsound.1, hsound.2.advance hadv hsound.1⟩
    | recording => exact hsub hsound
    | committing => exact ⟨hsub hsound.1, hsound.2.advance hadv hsound.1⟩
    | granting | evaluating | finished => trivial
  stored := h.stored
  steps a ha := by
    obtain ⟨hmem, hconfirmed, hreached⟩ := h.steps a ha
    exact ⟨hsub hmem, hconfirmed.advance hadv hmem, hreached.advance hadv hmem⟩
  codes := h.codes
  kept := ⟨h.kept.steps, h.kept.codes, h.kept.latest, h.kept.refusals⟩

/-- The factor is updated in place. -/
theorem follow (h : Inv s) (hrow : s.db.mfa = some row) (hfollows : Follows row row') :
    Inv { s with db := { s.db with mfa := some row' } } := by
  refine h.advance (some row') (fun _ heq => .inr ⟨row, hrow, Option.some.inj heq ▸ hfollows⟩)
    (List.Subset.refl _) fun _ heq => ?_
  obtain rfl := Option.some.inj heq
  rw [hfollows.ceremony]
  exact h.row row hrow

/-- A step recorded for the enrollment it proves, which is confirmed by now, is new. -/
theorem acceptStep (h : Inv s) (hmem : ceremony ∈ s.ceremonies)
    (hconfirmed : Confirmed s.db.mfa ceremony) (hreached : Reached s.db.mfa ceremony timeStep)
    (hnew : (ceremony, timeStep) ∉ s.acceptedSteps) :
    Inv { s with acceptedSteps := (ceremony, timeStep) :: s.acceptedSteps } where
  row := h.row
  phases := h.phases
  stored := h.stored
  steps a ha := by
    rcases List.mem_cons.mp ha with rfl | hold
    · exact ⟨hmem, hconfirmed, hreached⟩
    · exact h.steps a hold
  codes := h.codes
  kept := ⟨List.nodup_cons.mpr ⟨hnew, h.kept.steps⟩, h.kept.codes, h.kept.latest,
    h.kept.refusals⟩

/-! ### The recovery codes -/

/-- The codes are updated in place. -/
theorem keepCodes (h : Inv s) (recovery : Table Str RecoveryRow)
    (hcodes : ∀ id code', recovery.lookup id = some code' →
      ∃ code, s.db.recovery.lookup id = some code ∧
        (code.usedAt.isSome = true → code'.usedAt.isSome = true)) :
    Inv { s with db := { s.db with recovery } } where
  row := h.row
  phases := h.phases
  stored id code' hcode' := by
    obtain ⟨code, hcode, -⟩ := hcodes id code' hcode'
    exact h.stored id code hcode
  steps := h.steps
  codes a ha := by
    obtain ⟨hmem, hspent⟩ := h.codes a ha
    refine ⟨hmem, fun code' hcode' => ?_⟩
    obtain ⟨code, hcode, hused⟩ := hcodes a.id code' hcode'
    exact hused (hspent code hcode)
  kept := ⟨h.kept.steps, h.kept.codes, h.kept.latest, h.kept.refusals⟩

theorem install (h : Inv s) (now : Nat) (hfresh : s.Fresh codes) :
    Inv { s.install codes with db := s.db.replaceRecoveryCodes codes now } where
  row := h.row
  phases := h.phases
  stored id code hcode := by
    have hid := (Account.lookup_replaceRecoveryCodes hcode).1
    exact ⟨List.mem_append_left _ hid, hid⟩
  steps := h.steps
  codes a ha := by
    obtain ⟨hmem, -⟩ := h.codes a ha
    refine ⟨List.mem_append_right _ hmem, fun code hcode => ?_⟩
    exact absurd hmem (hfresh.2 a.id (Account.lookup_replaceRecoveryCodes hcode).1)
  kept := ⟨h.kept.steps, h.kept.codes, h.kept.latest, h.kept.refusals⟩

theorem acceptCode (h : Inv s) (hmem : id ∈ s.recoveryIds) (hlatest : id ∈ s.latestCodes)
    (hspent : Spent s.db.recovery id) (hnew : id ∉ s.acceptedCodes.map AcceptedCode.id) :
    Inv { s with acceptedCodes := ⟨id, s.latestCodes⟩ :: s.acceptedCodes } where
  row := h.row
  phases := h.phases
  stored := h.stored
  steps := h.steps
  codes a ha := by
    rcases List.mem_cons.mp ha with rfl | hold
    · exact ⟨hmem, hspent⟩
    · exact h.codes a hold
  kept := ⟨h.kept.steps, List.nodup_cons.mpr ⟨hnew, h.kept.codes⟩, fun a ha => by
    rcases List.mem_cons.mp ha with rfl | hold
    · exact hlatest
    · exact h.kept.latest a hold, h.kept.refusals⟩

/-! ### The requests -/

/-- The issued grant aside, an issuance that stays in its ceremony spends its step. -/
theorem issueStep {seen : FactorRead} {binding : Str} {recoveryId : Option Str}
    {totpStep : Option Int} (h : Inv s)
    (hi : s.pool[i]? = some (.issuing seen binding recoveryId totpStep))
    (hrow : s.db.mfa = some row)
    (hnewer : ∀ step, totpStep = some step → ∀ last, row.lastUsedStep = some last → last < step)
    (hsame : ∀ step, totpStep = some step → row.ceremony = seen.row.ceremony) :
    Inv { s with
      db := { s.db with
        mfa := some { row with lastUsedStep := totpStep <|> row.lastUsedStep } }
      acceptedSteps := (totpStep.map fun step => (seen.row.ceremony, step)).toList ++
        s.acceptedSteps } := by
  cases totpStep with
  | none => exact h.follow hrow (.of_sameStep rfl id rfl)
  | some step =>
    have hfollow := h.follow hrow (.of_newer (hnewer step rfl))
    obtain ⟨hmem, hconfirmed⟩ := hfollow.phases _ (List.mem_of_getElem? hi)
    refine hfollow.acceptStep hmem hconfirmed ?_ ?_
    · intro row' hrow' _
      obtain rfl := Option.some.inj hrow'
      exact ⟨step, rfl, Int.le_refl step⟩
    · intro hold
      obtain ⟨last, hlast, hle⟩ := (h.steps _ hold).2.2 row hrow (hsame step rfl)
      have hlt := hnewer step rfl last hlast
      omega

theorem issueCode {recoveryId : Option Str} (h : Inv s) (now : Nat)
    (hunused : ∀ id, recoveryId = some id →
      ∃ code, s.db.recovery.lookup id = some code ∧ code.usedAt = none) :
    Inv { s with
      db := { s.db with
        recovery := recoveryId.elim s.db.recovery fun id =>
          Table.update s.db.recovery id fun code => code.use now }
      acceptedCodes := (recoveryId.map fun id => ⟨id, s.latestCodes⟩).toList ++
        s.acceptedCodes } := by
  cases recoveryId with
  | none => exact h
  | some rid =>
    obtain ⟨code, hcode, hnone⟩ := hunused rid rfl
    obtain ⟨hmem, hlatest⟩ := h.stored rid code hcode
    refine (h.keepCodes _ fun id code' hcode' => ?_).acceptCode hmem hlatest ?_ ?_
    · rw [Option.elim_some, Table.lookup_update] at hcode'
      split at hcode'
      · next heq =>
        subst heq
        rw [hcode] at hcode'
        cases hcode'
        exact ⟨code, hcode, fun _ => rfl⟩
      · exact ⟨code', hcode', fun hused => hused⟩
    · intro code' hcode'
      change (Table.update s.db.recovery rid fun code => code.use now).lookup rid = some code'
        at hcode'
      rw [Table.lookup_update, if_pos rfl, hcode] at hcode'
      cases hcode'
      rfl
    · intro hold
      obtain ⟨a, ha, rfl⟩ := List.mem_map.mp hold
      have hused := (h.codes a ha).2 code hcode
      rw [hnone] at hused
      cases hused

/-- A confirmed enrollment was pending until now, so no step of it was accepted before. -/
theorem commit {binding : Str} {before after : Account} (h : Inv s) (now : Nat)
    (hi : s.pool[i]? = some (.committing ceremony timeStep binding before after))
    (hrow : s.db.mfa = some row) (hpending : row.confirmedAt = none)
    (hceremony : row.ceremony = ceremony) :
    Inv { s with
      db := { s.db with mfa := some { row with confirmedAt := some now, updatedAt := now } }
      acceptedSteps := (ceremony, timeStep) :: s.acceptedSteps } := by
  let confirmed : MfaRow := { row with confirmedAt := some now, updatedAt := now }
  have hfollows : Follows row confirmed := .of_sameStep rfl (fun _ => rfl) rfl
  have hfollow := h.follow hrow hfollows
  obtain ⟨hmem, hreached⟩ := hfollow.phases _ (List.mem_of_getElem? hi)
  refine hfollow.acceptStep hmem ?_ hreached ?_
  · intro row' hrow' _
    obtain rfl := Option.some.inj hrow'
    rfl
  · intro hold
    have hconfirmed := (h.steps _ hold).2.1 row hrow hceremony
    rw [hpending] at hconfirmed
    cases hconfirmed

theorem step {e : Event} (h : Inv s) (hok : InCeremony s e) (hmoved : Moved s e s') : Inv s' := by
  cases hmoved with
  | stayed => exact h
  | turnedAway => exact h.refuse
  | closed _ i => exact h.move i .finished trivial
  | refused _ i => exact h.refuse.move i .finished trivial
  | started hnew hdb =>
    obtain ⟨row, rfl, rfl, -⟩ := Account.beginEnrollment_eq_some hdb
    refine h.advance (some row) (fun row' hrow' => .inl ?_) (List.subset_cons_self ..)
      fun row' hrow' => ?_
    · rw [← Option.some.inj hrow']
      exact hnew
    · rw [← Option.some.inj hrow']
      exact List.mem_cons_self
  | confirming _ step binding hrow => exact h.spawn (h.row _ hrow)
  | @recorded i ceremony binding timeStep _ hi hdb =>
    obtain ⟨row, hrow, hnewer, rfl⟩ := Account.recordUsedStep_eq_some hdb
    have hmem : ceremony ∈ s.ceremonies := h.phases _ (List.mem_of_getElem? hi)
    refine (h.follow hrow (.of_newer hnewer)).move i _ ⟨hmem, fun row' hrow' _ => ?_⟩
    obtain rfl := Option.some.inj hrow'
    exact ⟨timeStep, rfl, Int.le_refl timeStep⟩
  | @committed i _ binding _ _ _ _ codes now hi hfresh hdb =>
    obtain ⟨row, hrow, hpending, hceremony, rfl⟩ := Account.confirmWithRecoveryCodes_eq_some hdb
    have hinstall := (h.commit now hi hrow hpending hceremony).install now hfresh
    exact (hinstall.move i (.granting binding) trivial).frame s.db.grants
      (now :: s.confirmations) s.revocations s.issues s.answers
  | superseded hi hdb =>
    simp only [InCeremony, Event.inCeremony, hi, Option.all_some, Phase.inCeremony] at hok
    rw [← Account.confirmWithRecoveryCodes_isSome, hdb] at hok
    cases hok
  | readBack i binding hseen => exact h.move i _ (h.readFactor hseen)
  | challenged _ binding step hseen => exact h.spawn (h.readFactor hseen)
  | matching _ binding code hseen => exact h.spawn (h.readFactor hseen)
  | @matched i _ _ _ id hi =>
    have hsound := h.phases _ (List.mem_of_getElem? hi)
    exact h.move i _ hsound
  | @issued i seen binding id tokenHash verifiedAt now recoveryId totpStep _ row hi hissued _ =>
    obtain rfl := hissued.result
    have hsame : ∀ step, totpStep = some step → row.ceremony = seen.row.ceremony := by
      rintro step rfl
      simpa [InCeremony, Event.inCeremony, hi, Phase.inCeremony, hissued.live, hissued.epoch,
        FactorRead.request] using hok
    have hstep := h.issueStep hi hissued.live hissued.newer hsame
    have hcode := hstep.issueCode now hissued.unused
    exact (hcode.move i .finished trivial).frame _ s.confirmations s.revocations _ s.answers
  | @regenerated codes _ now _ _ hfresh hdb =>
    obtain ⟨row, hrow, rfl⟩ := Account.regenerateRecoveryCodes_ok hdb
    have hfollows : Follows row { row with updatedAt := now } := .of_sameStep rfl id rfl
    exact (h.follow hrow hfollows).install now hfresh
  | revoked _ db hdb =>
    rcases hdb with rfl | rfl
    · have hgone := h.advance none nofun (List.Subset.refl _) nofun
      exact (hgone.keepCodes ∅ nofun).frame ∅ _ _ _ _
    · rw [State.revoke, Account.deleteAll_eq]
      refine (h.advance _ (fun row' hrow' => .inr ?_) (List.Subset.refl _)
        fun row' hrow' => ?_).frame ∅ _ _ _ _
      all_goals obtain ⟨row, hrow, rfl⟩ := Option.map_eq_some_iff.mp hrow'
      · exact ⟨row, hrow, .of_sameStep rfl id rfl⟩
      · exact h.row row hrow
  | forgot id => exact h.frame _ s.confirmations s.revocations s.issues s.answers
  | evaluating _ check token hgrant => exact h.spawn trivial
  | answered => exact (h.move _ .finished trivial).frame s.db.grants _ _ _ _

end Inv

/-- **Proofs are one-time.** In every run in which a TOTP challenge never issues against
a later enrollment of its epoch and a confirm never loses its enrollment after its step,
no step of an enrollment and no recovery code is accepted twice, a code only from the
most recent set, and a refused request leaves everything as it was. -/
theorem kept_of_inCeremony [MfaHashing] {s : State} {es : List Event}
    (hrun : machine.Run InCeremony State.initial es s) : Kept s :=
  (hrun.invariant Inv.initial fun _ _ _ hinv hok hstep =>
    hinv.step hok (moved_of_step hstep)).kept

/-! ## A challenge across a reset -/

section Replay

attribute [local instance] plainMfaHashing

/-- An account enrolls, answering with the code of step 7. -/
def enrolling : List Event :=
  [.start [1] [2] "first".toList 0, .confirm "first".toList (some 7) "tab".toList, .record 0,
    .commit 0 [⟨"r".toList, "code".toList⟩] 1]

/-- One code answers two challenges.  Between their issuances the factor is reset and a
new enrollment begins, again at epoch 0. -/
def resetBetween : List Event :=
  enrolling ++
    [.challenge (.totp (some 8)) "tab".toList, .challenge (.totp (some 8)) "tab".toList,
      .issue 1 "g".toList "t".toList 2 2, .reset, .start [3] [4] "second".toList 3,
      .issue 2 "h".toList "u".toList 4 4]

theorem resetBetween_replays :
    ¬ ∀ (s : State) (es : List Event), machine.Run Free State.initial es s → Kept s := by
  intro hclaim
  have hkept := hclaim ((machine.exec State.initial resetBetween).get (by decide)) resetBetween
    (run_free_iff.mpr (Option.some_get _).symm)
  exact absurd hkept.steps (by decide)

/-- Two confirms of one enrollment with two valid codes: the refused one has spent its
step all the same. -/
example : ((machine.exec State.initial (enrolling.take 2 ++
    [.confirm "first".toList (some 8) "tab".toList, .record 0, .record 1,
      .commit 0 [⟨"r".toList, "code".toList⟩] 1, .commit 1 [⟨"q".toList, "edoc".toList⟩] 1])).map
    fun s => s.refusals.map fun r => (r.1.mfa.bind MfaRow.lastUsedStep,
      r.2.mfa.bind MfaRow.lastUsedStep)) = some [(some 7, some 8)] := by
  decide

/-- One challenge with a code, one with a recovery code, and the reset after both. -/
def resetAfter : List Event :=
  enrolling ++
    [.readBack 0, .issue 0 "f".toList "s".toList 2 2, .challenge (.totp (some 8)) "tab".toList,
      .issue 1 "g".toList "t".toList 3 3, .challenge (.recovery "code".toList) "tab".toList,
      .matchCode 2, .issue 2 "h".toList "u".toList 4 4, .reset]

theorem kept_of_inCeremony_resetAfter :
    ∃ s, machine.Run InCeremony State.initial resetAfter s ∧ s.acceptedSteps ≠ [] ∧
      s.acceptedCodes ≠ [] ∧ Kept s := by
  have hsome : (machine.execIf InCeremony State.initial resetAfter).isSome = true := by decide
  have hrun := run_execIf hsome
  exact ⟨_, hrun, List.cons_ne_nil _ _, List.cons_ne_nil _ _, kept_of_inCeremony hrun⟩

end Replay

end Ruscker.Mfa.OneTime
