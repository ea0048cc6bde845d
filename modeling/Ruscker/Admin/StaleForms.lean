import Ruscker.Admin.SpecEdits

/-!
# Stale edit forms

Within one life of a row its version names its content, so a save that still finds the
version its form carried finds the row the form was rendered against.  A save whose
statements are torn apart, or whose version belongs to another life, does not.
-/

namespace Ruscker.Admin.SpecEdits

open Machines Machines.Machine SpecRoutes

section Saves

variable [Floats] {id : Str} {s s' : Edits} {seen row : Stored} {life : Nat}

/-- No two submissions with one token succeed, and each writes over the row its form was
rendered against. -/
structure Exclusive (s : Edits) : Prop where
  tokens : (s.successes.map fun success => success.1.token).Nodup
  current : ∀ success ∈ s.successes, success.2 = some success.1.seen

/-- The side condition on a save: its form's two reads saw one row, the version lookup
answered and nothing was written since, the spec was not deleted since the form was
rendered, no save of an earlier life used the version, and the save changes this row. -/
def InTurn (id : Str) (s : Edits) : Event → Prop
  | .save i => ∀ sub ∈ s.submissions[i]?, ∃ row ∈ s.row,
      sub.page.token = some sub.page.seen.version ∧
      sub.phase = .checked (some row.version) ∧
      sub.page.life = s.life ∧
      (∀ success ∈ s.successes, success.1.token = sub.page.token → success.1.life = s.life) ∧
      sub.candidate.id = id ∧ sub.candidate ≠ row.spec
  | _ => True

instance (id : Str) (s : Edits) (e : Event) : Decidable (InTurn id s e) :=
  match e with
  | .save _ => by
    unfold InTurn
    exact inferInstance
  | .openForm .. | .readVersion .. | .submit .. | .check .. | .readRow .. | .writeRow ..
  | .setState .. | .insertNew .. | .delete => isTrue trivial

/-! ## One life -/

/-- A row that was there: it is the current one or has been overwritten since. -/
def Past (s : Edits) (seen : Stored) (life : Nat) : Prop :=
  life ≤ s.life ∧ (life = s.life → ∃ row ∈ s.row, seen = row ∨ seen.version < row.version)

/-- A row that has been overwritten. -/
def Spent (s : Edits) (seen : Stored) (life : Nat) : Prop :=
  life ≤ s.life ∧ (life = s.life → ∃ row ∈ s.row, seen.version < row.version)

/-- What a step can do to the row: keep it, raise its version, or end its life. -/
def Later (s s' : Edits) : Prop :=
  s.life < s'.life ∨ s'.life = s.life ∧
    ∀ row ∈ s.row, ∃ row' ∈ s'.row, row' = row ∨ row.version < row'.version

theorem Later.of_row (hlife : s'.life = s.life) (hrow : s'.row = s.row) : Later s s' :=
  .inr ⟨hlife, fun row h => ⟨row, hrow.trans h, .inl rfl⟩⟩

/-- What a later version of a row keeps is true of the row as long as its life lasts. -/
theorem Later.keep {P : Stored → Prop} (hlater : Later s s')
    (hP : ∀ row row', P row → row' = row ∨ row.version < row'.version → P row')
    (h : life ≤ s.life ∧ (life = s.life → ∃ row ∈ s.row, P row)) :
    life ≤ s'.life ∧ (life = s'.life → ∃ row ∈ s'.row, P row) := by
  obtain ⟨hle, hnow⟩ := h
  rcases hlater with hlt | ⟨hlife, hrows⟩
  · exact ⟨by omega, fun heq => by omega⟩
  · refine ⟨by omega, fun heq => ?_⟩
    obtain ⟨row, hrow, hkept⟩ := hnow (by omega)
    obtain ⟨row', hrow', hstep⟩ := hrows row hrow
    exact ⟨row', hrow', hP row row' hkept hstep⟩

theorem Past.later (h : Past s seen life) (hlater : Later s s') : Past s' seen life := by
  refine hlater.keep (fun row row' hseen hstep => ?_) h
  rcases hseen with rfl | hlt
  · exact hstep.imp_left Eq.symm
  · rcases hstep with rfl | hgt
    · exact .inr hlt
    · exact .inr (by omega)

theorem Spent.later (h : Spent s seen life) (hlater : Later s s') : Spent s' seen life := by
  refine hlater.keep (fun row row' hseen hstep => ?_) h
  rcases hstep with rfl | hgt
  · exact hseen
  · omega

theorem past_current (hrow : s.row = some row) : Past s row s.life :=
  ⟨Nat.le_refl _, fun _ => ⟨row, hrow, .inl rfl⟩⟩

theorem upsertRow_later {spec : Spec Settings} :
    upsertRow (some row) spec = row ∨ row.version < (upsertRow (some row) spec).version := by
  simp only [upsertRow]
  split
  · exact .inl rfl
  · exact .inr (Int.lt_succ row.version)

theorem setState_later {active : Bool} :
    setState active row = row ∨ row.version < (setState active row).version := by
  unfold setState
  split
  · exact .inl rfl
  · exact .inr (Int.lt_succ row.version)

theorem Later.of_upsert {spec : Spec Settings} (hlife : s'.life = s.life)
    (hrow : s'.row = some (upsertRow s.row spec)) : Later s s' := by
  refine .inr ⟨hlife, fun row h => ⟨upsertRow (some row) spec, ?_, upsertRow_later⟩⟩
  rw [hrow, h]
  rfl

/-! ## The invariant -/

structure Inv (s : Edits) : Prop where
  renderings : ∀ r ∈ s.renderings, Past s r.seen r.life
  submissions : ∀ sub ∈ s.submissions, Past s sub.page.seen sub.page.life ∧
    ∀ v, sub.phase = .checked (some v) → isFresh sub.page.token (some v) = true
  spent : ∀ success ∈ s.successes, Spent s success.1.seen success.1.life ∧
    success.1.token = some success.1.seen.version
  exclusive : Exclusive s

/-- What holds before a step holds after it, apart from what the step adds. -/
theorem Inv.extend (h : Inv s) (hlater : Later s s')
    (hrenderings : ∀ r ∈ s'.renderings, r ∈ s.renderings ∨ Past s' r.seen r.life)
    (hsubmissions : ∀ sub ∈ s'.submissions, sub ∈ s.submissions ∨
      Past s' sub.page.seen sub.page.life ∧
        ∀ v, sub.phase = .checked (some v) → isFresh sub.page.token (some v) = true)
    (hsuccesses : s'.successes = s.successes) : Inv s' where
  renderings r hr := by
    rcases hrenderings r hr with hold | hnew
    · exact (h.renderings r hold).later hlater
    · exact hnew
  submissions sub hsub := by
    rcases hsubmissions sub hsub with hold | hnew
    · exact ⟨(h.submissions sub hold).1.later hlater, (h.submissions sub hold).2⟩
    · exact hnew
  spent success hsuccess := by
    rw [hsuccesses] at hsuccess
    exact ⟨(h.spent success hsuccess).1.later hlater, (h.spent success hsuccess).2⟩
  exclusive := by
    constructor
    · rw [hsuccesses]
      exact h.exclusive.tokens
    · rw [hsuccesses]
      exact h.exclusive.current

theorem successes_commit {writer : Writer} {after : Option Stored} (h : writer.page = none) :
    (s.commit writer after).successes = s.successes := by
  simp [Edits.successes, Edits.commit, h]

/-- A commit of any other writer. -/
theorem Inv.commit (h : Inv s) {writer : Writer} {after : Option Stored}
    (hwriter : writer.page = none)
    (hafter : ∀ row ∈ s.row, ∃ row' ∈ after, row' = row ∨ row.version < row'.version) :
    Inv (s.commit writer after) :=
  h.extend (.inr ⟨rfl, hafter⟩) (fun _ hr => .inl hr) (fun _ hsub => .inl hsub)
    (successes_commit hwriter)

theorem inv_openForm (h : Inv s) (scope : EditorScope) : Inv (s.openForm scope) := by
  unfold Edits.openForm
  split
  · next row hrow =>
    split
    · refine h.extend (.of_row rfl rfl) (fun r hr => ?_) (fun sub hsub => .inl hsub) rfl
      rcases List.mem_append.mp hr with hold | hnew
      · exact .inl hold
      · cases List.mem_singleton.mp hnew
        exact .inr (past_current hrow)
    · exact h
  · exact h

theorem inv_readVersion {k : Nat} {answered : Bool} (h : Inv s)
    (hstep : s.readVersion k answered = some s') : Inv s' := by
  unfold Edits.readVersion at hstep
  split at hstep
  · next seen life hk =>
    cases hstep
    refine h.extend (.of_row rfl rfl) (fun r hr => ?_) (fun sub hsub => .inl hsub) rfl
    rcases List.mem_or_eq_of_mem_set hr with hold | rfl
    · exact .inl hold
    · exact .inr ((h.renderings _ (List.mem_of_getElem? hk)).later (.of_row rfl rfl))
  · cases hstep

theorem inv_submit {k : Nat} {scope : EditorScope} {form : SpecForm SettingsFields} {today : Str}
    (h : Inv s) (hstep : s.submit id k scope form today = some s') : Inv s' := by
  unfold Edits.submit at hstep
  split at hstep
  · next page hk =>
    split at hstep
    · split at hstep
      · cases hstep
        refine h.extend (.of_row rfl rfl) (fun r hr => .inl hr) (fun sub hsub => ?_) rfl
        rcases List.mem_append.mp hsub with hold | hnew
        · exact .inl hold
        · cases List.mem_singleton.mp hnew
          exact .inr ⟨(h.renderings _ (List.mem_of_getElem? hk)).later (.of_row rfl rfl), nofun⟩
      · cases hstep
        exact h
    · cases hstep
      exact h
  · cases hstep

theorem inv_check {i : Nat} {answered : Bool} (h : Inv s)
    (hstep : s.check i answered = some s') : Inv s' := by
  unfold Edits.check at hstep
  split at hstep
  · next sub hi =>
    have hpast := (h.submissions sub (List.mem_of_getElem? hi)).1
    split at hstep
    · dsimp only at hstep
      split at hstep
      · next hfresh =>
        cases hstep
        refine h.extend (.of_row rfl rfl) (fun r hr => .inl hr) (fun sub' hsub => ?_) rfl
        rcases List.mem_or_eq_of_mem_set hsub with hold | rfl
        · exact .inl hold
        · refine .inr ⟨hpast.later (.of_row rfl rfl), fun v hv => ?_⟩
          rw [Phase.checked.inj hv] at hfresh
          exact hfresh
      · cases hstep
        refine h.extend (.of_row rfl rfl) (fun r hr => ?_) (fun sub' hsub => ?_) rfl
        · rcases List.mem_append.mp hr with hold | hnew
          · exact .inl hold
          · obtain ⟨row, hrow, rfl⟩ := Option.map_eq_some_iff.mp (Option.mem_toList.mp hnew)
            exact .inr (past_current hrow)
        · rcases List.mem_or_eq_of_mem_set hsub with hold | rfl
          · exact .inl hold
          · exact .inr ⟨hpast.later (.of_row rfl rfl), nofun⟩
    · cases hstep
  · cases hstep

theorem inv_readRow (h : Inv s) (op : Rewrite) : Inv (s.readRow op) := by
  unfold Edits.readRow
  split
  · split
    · exact h.extend (.of_row rfl rfl) (fun r hr => .inl hr) (fun sub hsub => .inl hsub) rfl
    · exact h
  · exact h

theorem inv_writeRow {j : Nat} (h : Inv s) (hstep : s.writeRow j = some s') : Inv s' := by
  unfold Edits.writeRow at hstep
  split at hstep
  · split at hstep
    · cases hstep
    · cases hstep
      exact h.extend (.of_upsert rfl rfl) (fun r hr => .inl hr) (fun sub hsub => .inl hsub)
        (successes_commit rfl)
  · cases hstep

/-- What a save in turn does. -/
theorem saveCandidate_inTurn {i : Nat} {sub : Submission} (h : Inv s)
    (hi : s.submissions[i]? = some sub) (hok : InTurn id s (.save i)) :
    s.row = some sub.page.seen ∧
      (s.saveCandidate id i sub).row = some ⟨sub.candidate, sub.page.seen.version + 1⟩ := by
  obtain ⟨row, hrow, htoken, hphase, hlife, -, hid, hchanges⟩ := hok sub hi
  obtain ⟨hpast, hfresh⟩ := h.submissions sub (List.mem_of_getElem? hi)
  have hversion : row.version = sub.page.seen.version := by
    have hall := hfresh row.version hphase
    rw [htoken] at hall
    simpa [isFresh] using hall
  have hseen : s.row = some sub.page.seen := by
    obtain ⟨row', hrow', hcases⟩ := hpast.2 hlife
    cases Option.some.inj (hrow.symm.trans hrow')
    rcases hcases with rfl | hlt
    · exact hrow
    · omega
  cases Option.some.inj (hrow.symm.trans hseen)
  refine ⟨hseen, ?_⟩
  rw [Edits.saveCandidate, if_pos hid, hseen]
  exact congrArg some (if_neg (Ne.symm hchanges))

/-- A save in turn overwrites the row its form was rendered against. -/
theorem inv_saveCandidate {i : Nat} {sub : Submission} (h : Inv s)
    (hi : s.submissions[i]? = some sub) (hok : InTurn id s (.save i)) :
    Inv (s.saveCandidate id i sub) := by
  obtain ⟨hseen, hafter⟩ := saveCandidate_inTurn h hi hok
  obtain ⟨-, -, htoken, -, hlife, hearlier, -, -⟩ := hok sub hi
  have hpast := (h.submissions sub (List.mem_of_getElem? hi)).1
  have hlater : Later s (s.saveCandidate id i sub) := by
    refine .inr ⟨rfl, fun row hrow => ⟨_, hafter, .inr ?_⟩⟩
    cases Option.some.inj (hseen.symm.trans hrow)
    exact Int.lt_succ _
  have hsuccesses : (s.saveCandidate id i sub).successes =
      s.successes ++ [(sub.page, some sub.page.seen)] := by
    simp [Edits.successes, Edits.saveCandidate, Edits.commit, Writer.page, hseen]
  constructor
  · exact fun r hr => (h.renderings r hr).later hlater
  · intro sub' hsub
    rcases List.mem_or_eq_of_mem_set hsub with hold | rfl
    · exact ⟨(h.submissions sub' hold).1.later hlater, (h.submissions sub' hold).2⟩
    · exact ⟨hpast.later hlater, nofun⟩
  · intro success hsuccess
    rw [hsuccesses] at hsuccess
    rcases List.mem_append.mp hsuccess with hold | hnew
    · exact ⟨(h.spent success hold).1.later hlater, (h.spent success hold).2⟩
    · cases List.mem_singleton.mp hnew
      exact ⟨⟨Nat.le_of_eq hlife, fun _ => ⟨_, hafter, Int.lt_succ _⟩⟩, htoken⟩
  · constructor
    · rw [hsuccesses, List.map_append, List.nodup_append]
      refine ⟨h.exclusive.tokens, List.nodup_singleton _, ?_⟩
      rintro token hmem _ hnew rfl
      obtain ⟨success, hsuccess, rfl⟩ := List.mem_map.mp hmem
      have hsame : success.1.token = sub.page.token := List.mem_singleton.mp hnew
      -- in one life the version has moved on since
      obtain ⟨⟨-, hspent⟩, hown⟩ := h.spent success hsuccess
      obtain ⟨row, hrow, hlt⟩ := hspent (hearlier success hsuccess hsame)
      cases Option.some.inj (hseen.symm.trans hrow)
      rw [hown, htoken] at hsame
      have hversions := Option.some.inj hsame
      omega
    · intro success hsuccess
      rw [hsuccesses] at hsuccess
      rcases List.mem_append.mp hsuccess with hold | hnew
      · exact h.exclusive.current success hold
      · cases List.mem_singleton.mp hnew
        rfl

theorem inv_save {i : Nat} (h : Inv s) (hok : InTurn id s (.save i))
    (hstep : s.save id i = some s') : Inv s' := by
  unfold Edits.save at hstep
  split at hstep
  · next sub hi =>
    split at hstep
    · cases hstep
      exact inv_saveCandidate h hi hok
    · cases hstep
  · cases hstep

theorem inv_step {e : Event} (h : Inv s) (hok : InTurn id s e)
    (hstep : (machine id).step s e = some s') : Inv s' := by
  cases e with
  | openForm scope =>
    cases hstep
    exact inv_openForm h scope
  | readVersion k answered => exact inv_readVersion h hstep
  | submit k scope form today => exact inv_submit h hstep
  | check i answered => exact inv_check h hstep
  | save i => exact inv_save h hok hstep
  | readRow op =>
    cases hstep
    exact inv_readRow h op
  | writeRow j => exact inv_writeRow h hstep
  | setState active =>
    obtain ⟨row, hrow, rfl⟩ := Option.map_eq_some_iff.mp hstep
    refine h.commit rfl fun row' hrow' => ⟨_, rfl, ?_⟩
    rw [hrow] at hrow'
    cases hrow'
    exact setState_later
  | insertNew spec =>
    simp only [machine, step] at hstep
    split at hstep
    · next hnew =>
      cases hstep
      refine h.commit rfl fun row hrow => ?_
      rw [Option.mem_def.mp hrow] at hnew
      simp at hnew
    · cases hstep
  | delete =>
    obtain ⟨row, hrow, rfl⟩ := Option.map_eq_some_iff.mp hstep
    exact h.extend (.inl (Nat.lt_succ_self _)) (fun r hr => .inl hr)
      (fun sub hsub => .inl hsub) (successes_commit rfl)

theorem inv_initial (row : Option Stored) : Inv (initial row) := by
  have hnone : (initial row).successes = [] := rfl
  constructor
  · exact fun r hr => absurd hr List.not_mem_nil
  · exact fun sub hsub => absurd hsub List.not_mem_nil
  · rw [hnone]
    exact fun success hsuccess => absurd hsuccess List.not_mem_nil
  · constructor
    · rw [hnone]
      exact List.nodup_nil
    · rw [hnone]
      exact fun success hsuccess => absurd hsuccess List.not_mem_nil

/-- **One save a token.** Whatever saves, rewrites, deletions and re-creations interleave,
submissions in turn exclude each other and write over what their forms showed. -/
theorem exclusive_of_inTurn {row : Option Stored} {events : List Event}
    (hrun : (machine id).Run (InTurn id) (initial row) events s) : Exclusive s :=
  (hrun.invariant (inv_initial row) fun _ _ _ => inv_step).exclusive

end Saves

/-! ## Two admins -/

section TwoAdmins

attribute [local instance] wholeFloats

def open2 : List Event :=
  [.openForm ada, .openForm ada, .readVersion 0 true, .readVersion 1 true]

/-- Both versions are compared before either save writes. -/
def bothChecked : List Event :=
  open2 ++ [rename 0 "One", rename 1 "Two", .check 0 true, .check 1 true, .save 0, .save 1]

theorem bothChecked_overwrites :
    ¬ ∀ (id : Str) (row : Option Stored) (events : List Event) (s : Edits),
        (machine id).Run Free (initial row) events s → Exclusive s := by
  intro hclaim
  have hexclusive := hclaim appId (some appRow) bothChecked
    (((machine appId).exec (initial (some appRow)) bothChecked).get (by decide))
    (run_free_iff.mpr (Option.some_get _).symm)
  exact absurd hexclusive.tokens (by decide)

/-- The second admin is refused, sees the form again and saves over the first one's row. -/
def secondRefused : List Event :=
  open2 ++ [rename 0 "One", .check 0 true, .save 0, rename 1 "Two", .check 1 true, rename 2 "Two",
    .check 2 true, .save 2]

theorem exclusive_of_inTurn_secondRefused :
    ∃ s, (machine appId).Run (InTurn appId) (initial (some appRow)) secondRefused s ∧
      Exclusive s ∧ s.successes.map (fun success => success.1.token) = [some 1, some 2] := by
  have hsome : ((machine appId).execIf (InTurn appId) (initial (some appRow))
      secondRefused).isSome = true := by decide
  have hrun := run_execIf hsome
  exact ⟨_, hrun, exclusive_of_inTurn hrun, rfl⟩

end TwoAdmins

end Ruscker.Admin.SpecEdits
