import Ruscker.Admin.SpecEdits

/-!
# Saves and whole-row rewrites

The stamp of the image date, the rewrite of a group and the featured toggle write a
whole row back for one changed field.  A save is owed its field changes until a later
save changes them or the spec is deleted.
-/

namespace Ruscker.Admin.SpecEdits

open Machines Machines.Machine SpecRoutes

section Debts

variable [Floats] {α : Type} [DecidableEq α]

/-- What a commit leaves owed of a field: its new value after a save that changes it,
nothing after a delete, and the old debt after any other writer. -/
def owe (field : Spec Settings → α) (debt : Option α) (c : Commit) : Option α :=
  match c.writer with
  | .submission _ =>
    match c.after with
    | some after =>
      if c.before.map (fun row => field row.spec) = some (field after.spec) then debt
      else some (field after.spec)
    | none => debt
  | .delete => none
  | _ => debt

def owed (field : Spec Settings → α) (commits : List Commit) : Option α :=
  commits.foldl (owe field) none

/-- A writer that loaded the row before it writes it. -/
def Writer.isReadModifyWrite : Writer → Bool
  | .submission _ => true
  | .rewriting => true
  | _ => false

/-- The last change a save made to the field is there, and nothing that had read a row
brought it back after its deletion. -/
structure KeepsSaves (field : Spec Settings → α) (s : Edits) : Prop where
  kept : ∀ value ∈ owed field s.commits, ∃ row ∈ s.row, field row.spec = value
  notRecreated : ∀ c ∈ s.commits, c.writer.isReadModifyWrite = true → c.before.isSome = true

/-- The side condition: a save finds a row, a rewrite finds the row it read, and neither a
rewrite nor a state change sets a field to which a save is owed its change. -/
def Unraced (field : Spec Settings → α) (s : Edits) : Event → Prop
  | .save _ => s.row.isSome = true
  | .writeRow j => ∀ w ∈ s.rewritings[j]?, s.row = some w.read ∧
      (owed field s.commits = none ∨ field w.written = field w.read.spec)
  | .setState active => owed field s.commits = none ∨
      ∀ row ∈ s.row, field (setState active row).spec = field row.spec
  | _ => True

instance (field : Spec Settings → α) (s : Edits) (e : Event) :
    Decidable (Unraced field s e) := by
  unfold Unraced
  split
  · exact inferInstance
  · exact inferInstance
  · exact inferInstance
  · exact inferInstance

variable {field : Spec Settings → α} {id : Str} {s s' : Edits}

theorem owed_commit (writer : Writer) (after : Option Stored) :
    owed field (s.commit writer after).commits =
      owe field (owed field s.commits) ⟨writer, s.row, after⟩ := by
  simp [owed, Edits.commit]

theorem spec_upsertRow (row : Option Stored) (spec : Spec Settings) :
    (upsertRow row spec).spec = spec := by
  unfold upsertRow
  split
  · rfl
  · split
    · next h => exact h
    · rfl

/-- Without a row nothing is owed. -/
theorem KeepsSaves.owed_eq_none (h : KeepsSaves field s) (hrow : s.row = none) :
    owed field s.commits = none := by
  refine Option.eq_none_iff_forall_not_mem.mpr fun value hvalue => ?_
  obtain ⟨row, hmem, -⟩ := h.kept value hvalue
  rw [hrow] at hmem
  cases hmem

theorem KeepsSaves.commit (h : KeepsSaves field s) (writer : Writer) (after : Option Stored)
    (hkept : ∀ value ∈ owe field (owed field s.commits) ⟨writer, s.row, after⟩,
      ∃ row ∈ after, field row.spec = value)
    (hrow : writer.isReadModifyWrite = true → s.row.isSome = true) :
    KeepsSaves field (s.commit writer after) where
  kept value hvalue := by
    rw [owed_commit] at hvalue
    exact hkept value hvalue
  notRecreated c hc hwriter := by
    rcases List.mem_append.mp hc with hold | hnew
    · exact h.notRecreated c hold hwriter
    · cases List.mem_singleton.mp hnew
      exact hrow hwriter

/-- Nothing but the row and the commits matters. -/
theorem KeepsSaves.of_eq (h : KeepsSaves field s) (hrow : s'.row = s.row)
    (hcommits : s'.commits = s.commits) : KeepsSaves field s' := by
  constructor
  · rw [hcommits, hrow]
    exact h.kept
  · rw [hcommits]
    exact h.notRecreated

/-- A save pays its debt where it incurs it. -/
theorem keepsSaves_saveCandidate {i : Nat} {sub : Submission} (h : KeepsSaves field s)
    (hrow : s.row.isSome = true) : KeepsSaves field (s.saveCandidate id i sub) := by
  obtain ⟨row, hrow'⟩ := Option.isSome_iff_exists.mp hrow
  refine (h.commit (.submission sub.page)
    (if sub.candidate.id = id then some (upsertRow s.row sub.candidate) else s.row) ?_
    fun _ => hrow).of_eq rfl rfl
  intro value hvalue
  by_cases hid : sub.candidate.id = id
  · rw [if_pos hid] at hvalue ⊢
    simp only [owe] at hvalue
    refine ⟨_, rfl, ?_⟩
    split at hvalue
    · next hsame =>
      obtain ⟨row', hmem, hvalue'⟩ := h.kept value hvalue
      cases Option.some.inj (hrow'.symm.trans hmem)
      rw [hrow'] at hsame
      rw [hrow', ← Option.some.inj hsame]
      exact hvalue'
    · exact Option.some.inj hvalue
  · rw [if_neg hid] at hvalue ⊢
    simp only [owe, hrow', Option.map_some, if_true] at hvalue
    exact h.kept value hvalue

theorem keepsSaves_writeRow {j : Nat} (h : KeepsSaves field s)
    (hok : Unraced field s (.writeRow j)) (hstep : s.writeRow j = some s') :
    KeepsSaves field s' := by
  unfold Edits.writeRow at hstep
  split at hstep
  · next w hj =>
    obtain ⟨hrow, hfield⟩ := hok w hj
    split at hstep
    · cases hstep
    · cases hstep
      refine (h.commit .rewriting (some (upsertRow s.row w.written)) ?_
        fun _ => by rw [hrow]; rfl).of_eq rfl rfl
      intro value hvalue
      refine ⟨_, rfl, ?_⟩
      rw [spec_upsertRow]
      rcases hfield with hnone | hsame
      · rw [owe, hnone] at hvalue
        cases hvalue
      · obtain ⟨row, hmem, hvalue'⟩ := h.kept value hvalue
        cases Option.some.inj (hrow.symm.trans hmem)
        rw [hsame]
        exact hvalue'
  · cases hstep

theorem keepsSaves_step {e : Event} (h : KeepsSaves field s) (hok : Unraced field s e)
    (hstep : (machine id).step s e = some s') : KeepsSaves field s' := by
  cases e with
  | openForm scope =>
    cases hstep
    unfold Edits.openForm
    split
    · split
      · exact h.of_eq rfl rfl
      · exact h
    · exact h
  | readVersion k answered =>
    simp only [machine, step, Edits.readVersion] at hstep
    split at hstep
    · cases hstep
      exact h.of_eq rfl rfl
    · cases hstep
  | submit k scope form today =>
    simp only [machine, step, Edits.submit] at hstep
    split at hstep
    · split at hstep
      · split at hstep
        · cases hstep
          exact h.of_eq rfl rfl
        · cases hstep
          exact h
      · cases hstep
        exact h
    · cases hstep
  | check i answered =>
    simp only [machine, step, Edits.check] at hstep
    split at hstep
    · split at hstep
      · split at hstep
        · cases hstep
          exact h.of_eq rfl rfl
        · cases hstep
          exact h.of_eq rfl rfl
      · cases hstep
    · cases hstep
  | save i =>
    simp only [machine, step, Edits.save] at hstep
    split at hstep
    · split at hstep
      · cases hstep
        exact keepsSaves_saveCandidate h hok
      · cases hstep
    · cases hstep
  | readRow op =>
    cases hstep
    unfold Edits.readRow
    split
    · split
      · exact h.of_eq rfl rfl
      · exact h
    · exact h
  | writeRow j => exact keepsSaves_writeRow h hok hstep
  | setState active =>
    obtain ⟨row, hrow, rfl⟩ := Option.map_eq_some_iff.mp hstep
    refine h.commit .stateChange _ (fun value hvalue => ⟨_, rfl, ?_⟩) nofun
    rcases hok with hnone | hsame
    · rw [owe, hnone] at hvalue
      cases hvalue
    · obtain ⟨row', hmem, hvalue'⟩ := h.kept value hvalue
      cases Option.some.inj (hrow.symm.trans hmem)
      rw [hsame row hrow]
      exact hvalue'
  | insertNew spec =>
    simp only [machine, step] at hstep
    split at hstep
    · next hnew =>
      cases hstep
      simp only [Bool.and_eq_true, Option.isNone_iff_eq_none] at hnew
      refine h.commit .create _ (fun value hvalue => ?_) nofun
      rw [owe, h.owed_eq_none hnew.2] at hvalue
      cases hvalue
    · cases hstep
  | delete =>
    obtain ⟨row, hrow, rfl⟩ := Option.map_eq_some_iff.mp hstep
    refine (h.commit .delete none (fun value hvalue => ?_) nofun).of_eq rfl rfl
    cases hvalue

theorem keepsSaves_initial (row : Option Stored) : KeepsSaves field (initial row) := by
  constructor
  · exact fun value hvalue => by cases hvalue
  · exact fun c hc => absurd hc List.not_mem_nil

/-- **No lost save.** Whatever rewrites, saves and deletions interleave, unraced ones keep
every field change of a save, and none brings a deleted spec back. -/
theorem keepsSaves_of_unraced {row : Option Stored} {events : List Event}
    (hrun : (machine id).Run (Unraced field) (initial row) events s) : KeepsSaves field s :=
  hrun.invariant (keepsSaves_initial row) fun _ _ _ => keepsSaves_step

end Debts

/-! ## A toggle across a save -/

section Toggle

attribute [local instance] wholeFloats

def displayName (spec : Spec Settings) : Option Str := spec.settings.displayName

/-- A form checked and ready to save under a new name. -/
def readyToSave : List Event :=
  [.openForm ada, .readVersion 0 true, rename 0 "New", .check 0 true]

/-- The toggle reads the row in front of the save and writes it back behind. -/
def toggleAcross : List Event :=
  readyToSave ++ [.readRow (.toggleFeatured ada), .save 0, .writeRow 0]

theorem toggleAcross_loses :
    ¬ ∀ (field : Spec Settings → Option Str) (id : Str) (row : Option Stored)
        (events : List Event) (s : Edits),
        (machine id).Run Free (initial row) events s → KeepsSaves field s := by
  intro hclaim
  have hkeeps := hclaim displayName appId (some appRow) toggleAcross
    (((machine appId).exec (initial (some appRow)) toggleAcross).get (by decide +kernel))
    (run_free_iff.mpr (Option.some_get _).symm)
  obtain ⟨row, hrow, hname⟩ := hkeeps.kept (some "New".toList) rfl
  cases hrow
  exact absurd hname (by decide +kernel)

/-- A toggle in front of the save and one behind it. -/
def toggleAround : List Event :=
  [.readRow (.toggleFeatured ada), .writeRow 0] ++ readyToSave ++
    [.save 0, .readRow (.toggleFeatured ada), .writeRow 1]

theorem keepsSaves_of_unraced_toggleAround :
    ∃ s, (machine appId).Run (Unraced displayName) (initial (some appRow))
        toggleAround s ∧
      KeepsSaves displayName s ∧ owed displayName s.commits = some (some "New".toList) := by
  have hsome : ((machine appId).execIf (Unraced displayName)
      (initial (some appRow)) toggleAround).isSome = true := by decide +kernel
  have hrun := run_execIf hsome
  exact ⟨_, hrun, keepsSaves_of_unraced hrun, rfl⟩

end Toggle

end Ruscker.Admin.SpecEdits
