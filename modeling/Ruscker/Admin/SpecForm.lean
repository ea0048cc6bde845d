import Ruscker.Db.Specs
import Ruscker.Lib.Guard
import Ruscker.Lib.Machine
import Ruscker.Scope

/-!
# Creating and editing specs

The form owns the id and the two access lists; its other fields enter as a class that
checks them and merges them onto the spec being edited.  Scope is judged on the row of
the table and uniqueness on the table alone, while the runtime serves the table
together with the YAML specs it does not shadow.
-/

namespace Ruscker.Admin.SpecRoutes

open Guards Tables Machines Machines.Machine

/-- The other fields of the form: their checks, as message keys, and their merge onto
the settings of a base spec.  `today` fills in an empty date. -/
class SettingsForm (φ : Type) (σ : outParam Type) where
  validate : φ → List String
  build : (today : Str) → (base : Option σ) → Role → φ → σ

structure SpecForm (φ : Type) where
  id : Str
  accessGroups : Str
  accessUsers : Str
  /-- the parsed `base-version` token, if there is one -/
  baseVersion : Option Int
  fields : φ

inductive SpecResponse where
  | notFound
  | formErrors (errors : List String)

/-- The spec table with the version counter of each row. -/
structure SpecDb (σ : Type) where
  specs : Specs σ
  versions : Table Str Int

inductive Request (φ : Type) where
  | create (form : SpecForm φ) (today : Str)
  | update (id : Str) (form : SpecForm φ) (today : Str)

section Handlers

variable {φ σ : Type} [DecidableEq σ] [SettingsForm φ σ]

def isListSeparator (c : Char) : Bool := c = ',' || c = '\n'

def listToVec (s : Str) : Option (List Str) :=
  let v := Tokens.tokens isListSeparator isWhitespace s
  if v.isEmpty then none else some v

def isKebabId (s : Str) : Bool :=
  !s.isEmpty && s.all (fun c => c.isAlphanum || c = '_' || c = '-') &&
    s.head?.elim false Char.isAlpha

def SpecForm.validate (form : SpecForm φ) : List String :=
  (if form.id.trim.isEmpty then ["spec-form-error-id-required"]
    else if isKebabId form.id.trim then [] else ["spec-form-error-id-shape"]) ++
  SettingsForm.validate form.fields

def SpecForm.intoSpec (form : SpecForm φ) (today : Str) (base : Option (Spec σ)) (role : Role) :
    Spec σ where
  id := form.id.trim
  accessGroups := listToVec form.accessGroups
  accessUsers := listToVec form.accessUsers
  settings := SettingsForm.build today (base.map Spec.settings) role form.fields

/-- `upsert_one`: an unchanged spec keeps its version. -/
def SpecDb.upsertOne (db : SpecDb σ) (spec : Spec σ) : SpecDb σ where
  specs := db.specs.upsertOne spec
  versions := match db.specs.fetchOne spec.id with
    | none => Table.upsert db.versions spec.id 1
    | some old => if old = spec then db.versions else Table.update db.versions spec.id (· + 1)

/-- `insert_new` refuses an id of the table. -/
def SpecDb.insertNew (db : SpecDb σ) (spec : Spec σ) : Option (SpecDb σ) :=
  if (db.specs.fetchOne spec.id).isSome then none else some (db.upsertOne spec)

def create (scope : EditorScope) (db : SpecDb σ) (form : SpecForm φ) (today : Str) :
    Except SpecResponse (SpecDb σ) := do
  ensure form.validate.isEmpty (.formErrors form.validate)
  let candidate := form.intoSpec today none scope.role
  ensure (scope.mayAssignGroups (candidate.accessGroups.getD []) && scope.mayTouchSpec candidate)
    (.formErrors ["spec-form-error-editor-scope"])
  ensure (db.specs.fetchOne form.id.trim).isNone (.formErrors ["spec-form-error-id-duplicate"])
  getOr (db.insertNew candidate) (.formErrors ["spec-form-error-id-duplicate"])

def update (scope : EditorScope) (db : SpecDb σ) (id : Str) (form : SpecForm φ) (today : Str) :
    Except SpecResponse (SpecDb σ) := do
  -- the URL id wins over the form id
  let form := { form with id }
  let base ← getOr (db.specs.fetchOne id) .notFound
  ensure (scope.mayTouchSpec base) .notFound
  ensure form.validate.isEmpty (.formErrors form.validate)
  let candidate := form.intoSpec today (some base) scope.role
  let requested := candidate.accessGroups.getD []
  ensure (scope.mayAssignGroups requested) (.formErrors ["spec-form-error-editor-scope"])
  let merged := scope.mergePreservingOutOfScope (base.accessGroups.getD []) requested
  let spec := { candidate with accessGroups := if merged.isEmpty then none else some merged }
  ensure (scope.mayTouchSpec spec) (.formErrors ["spec-form-error-editor-scope"])
  ensure (form.baseVersion.all fun submitted =>
      (db.versions.lookup id).all fun current => current = submitted)
    (.formErrors ["spec-form-error-stale"])
  return db.upsertOne spec

def serve (scope : EditorScope) (db : SpecDb σ) : Request φ → Except SpecResponse (SpecDb σ)
  | .create form today => create scope db form today
  | .update id form today => update scope db id form today

/-- The spec requests of one caller, one after the other. -/
def machine (φ : Type) [SettingsForm φ σ] (scope : EditorScope) :
    Machine (SpecDb σ) (Request φ) where
  step db request := some ((serve scope db request).toOption.getD db)

/-! ## Requests that shadow nothing -/

/-- The side condition on a request: no spec outside the scope that the stored id would
reach is left for it to shadow or overwrite. -/
def Unshadowing (scope : EditorScope) (yaml : List (Spec σ)) (db : SpecDb σ) :
    Request φ → Prop
  | .create form _ => ∀ spec ∈ yaml, spec.id = form.id.trim →
      db.specs.fetchOne spec.id = none → scope.mayTouchSpec spec = true
  | .update id _ _ => id.trim = id ∨ ∀ spec ∈ effectiveSpecs db.specs yaml,
      spec.id = id.trim → scope.mayTouchSpec spec = true

instance (scope : EditorScope) (yaml : List (Spec σ)) (db : SpecDb σ) (request : Request φ) :
    Decidable (Unshadowing scope yaml db request) := by
  unfold Unshadowing
  split
  · exact inferInstance
  · exact inferInstance

section Steps

variable {scope : EditorScope} {yaml : List (Spec σ)} {db db' : SpecDb σ} {spec : Spec σ}

theorem insertNew_eq_some (h : db.insertNew spec = some db') :
    db.specs.fetchOne spec.id = none ∧ db' = db.upsertOne spec := by
  unfold SpecDb.insertNew at h
  split at h
  · cases h
  · next hnone => exact ⟨by simpa using hnone, (Option.some.inj h).symm⟩

/-- Saving a spec only reaches the catalog entry of its own id. -/
theorem mem_effectiveSpecs_upsertOne (hspec : spec ∈ effectiveSpecs db.specs yaml)
    {saved : Spec σ} (hid : spec.id ≠ saved.id) :
    spec ∈ effectiveSpecs (db.upsertOne saved).specs yaml := by
  rw [mem_effectiveSpecs] at hspec ⊢
  simpa [SpecDb.upsertOne, Specs.fetchOne_upsertOne, hid] using hspec

theorem create_ok {form : SpecForm φ} {today : Str} (h : create scope db form today = .ok db') :
    ∃ saved : Spec σ, saved.id = form.id.trim ∧ db.specs.fetchOne saved.id = none ∧
      db' = db.upsertOne saved := by
  simp only [create, accepted_bind, accepted_ensure, accepted_getOr] at h
  obtain ⟨-, -, -, -, -, -, hinsert⟩ := h
  obtain ⟨hnone, rfl⟩ := insertNew_eq_some hinsert
  exact ⟨_, rfl, hnone, rfl⟩

theorem update_ok {id : Str} {form : SpecForm φ} {today : Str}
    (h : update scope db id form today = .ok db') :
    ∃ base saved : Spec σ, db.specs.fetchOne id = some base ∧ scope.mayTouchSpec base = true ∧
      saved.id = id.trim ∧ db' = db.upsertOne saved := by
  simp only [update, accepted_bind, accepted_ensure, accepted_getOr, accepted_pure] at h
  obtain ⟨base, hbase, -, hmay, -, -, -, -, -, -, -, -, rfl⟩ := h
  exact ⟨base, _, hbase, hmay, rfl, rfl⟩

/-- A spec outside the scope keeps its place in the catalog. -/
theorem serve_ok {request : Request φ} (hok : Unshadowing scope yaml db request)
    (hserve : serve scope db request = .ok db') (hspec : spec ∈ effectiveSpecs db.specs yaml)
    (hforeign : scope.mayTouchSpec spec = false) : spec ∈ effectiveSpecs db'.specs yaml := by
  cases request with
  | create form today =>
    obtain ⟨saved, hsaved, hnone, rfl⟩ := create_ok hserve
    refine mem_effectiveSpecs_upsertOne hspec fun hid => ?_
    rcases mem_effectiveSpecs.mp hspec with hrow | ⟨hyaml, hunshadowed⟩
    · rw [hid, hnone] at hrow
      cases hrow
    · rw [hok spec hyaml (hid.trans hsaved) hunshadowed] at hforeign
      cases hforeign
  | update id form today =>
    obtain ⟨base, saved, hbase, hmay, hsaved, rfl⟩ := update_ok hserve
    refine mem_effectiveSpecs_upsertOne hspec fun hid => ?_
    rcases hok with htrimmed | hfree
    · rw [hsaved, htrimmed] at hid
      rcases mem_effectiveSpecs.mp hspec with hrow | ⟨-, hunshadowed⟩
      · rw [hid, hbase] at hrow
        cases hrow
        rw [hmay] at hforeign
        cases hforeign
      · rw [hid, hbase] at hunshadowed
        cases hunshadowed
    · rw [hfree spec hspec (hid.trans hsaved)] at hforeign
      cases hforeign

/-- **The foreign catalog stays.** In every sequence of requests that shadow nothing, the
effective specs outside the caller's scope stay in the catalog as they were. -/
theorem foreign_mem_effectiveSpecs {requests : List (Request φ)}
    (hrun : (machine φ scope).Run (Unshadowing scope yaml) db requests db') :
    ∀ spec ∈ effectiveSpecs db.specs yaml, scope.mayTouchSpec spec = false →
      spec ∈ effectiveSpecs db'.specs yaml := by
  intro spec hspec hforeign
  refine hrun.invariant (I := fun db => spec ∈ effectiveSpecs db.specs yaml) hspec ?_
  intro db request db' hspec hok hstep
  cases Option.some.inj hstep
  cases hserve : serve scope db request with
  | error response => exact hspec
  | ok saved => exact serve_ok hok hserve hspec hforeign

end Steps

end Handlers

/-! ## A new spec over a YAML id -/

section Finance

/-- A form without further fields. -/
instance : SettingsForm Unit Unit := ⟨fun _ => [], fun _ _ _ _ => ()⟩

def devEditor : EditorScope := ⟨.editor, some "eve".toList, ["dev".toList], false⟩

def finance : Spec Unit := ⟨"finance".toList, some ["fin".toList], none, ()⟩

def emptyDb : SpecDb Unit := ⟨.empty, ∅⟩

def newSpec (id : Str) : Request Unit := .create ⟨id, "dev".toList, [], none, ()⟩ []

theorem newSpec_shadows :
    ¬ ∀ (scope : EditorScope) (yaml : List (Spec Unit)) (db db' : SpecDb Unit)
        (requests : List (Request Unit)), scope.unscoped = false →
      (machine Unit scope).Run Free db requests db' →
      ∀ spec ∈ effectiveSpecs db.specs yaml, scope.mayTouchSpec spec = false →
        spec ∈ effectiveSpecs db'.specs yaml := by
  intro hclaim
  have h := hclaim devEditor [finance] emptyDb
    (((machine Unit devEditor).exec emptyDb [newSpec "finance".toList]).get (by decide))
    [newSpec "finance".toList] rfl (run_free_iff.mpr (Option.some_get _).symm) finance
    (by decide) (by decide)
  exact absurd h (by decide)

/-- Under an id of its own the new spec may be created and edited again. -/
theorem foreign_mem_effectiveSpecs_report :
    ∃ db, (machine Unit devEditor).Run (Unshadowing devEditor [finance]) emptyDb
        [newSpec "report".toList,
          .update "report".toList ⟨[], "dev".toList, "eve".toList, some 1, ()⟩ []] db ∧
      db.specs.fetchOne "report".toList =
        some ⟨"report".toList, some ["dev".toList], some ["eve".toList], ()⟩ ∧
      finance ∈ effectiveSpecs db.specs [finance] := by
  have hsome : ((machine Unit devEditor).execIf (Unshadowing devEditor [finance]) emptyDb
      [newSpec "report".toList,
        .update "report".toList ⟨[], "dev".toList, "eve".toList, some 1, ()⟩ []]).isSome =
      true := by decide
  have hrun := run_execIf hsome
  exact ⟨_, hrun, rfl, foreign_mem_effectiveSpecs hrun finance (by decide) (by decide)⟩

end Finance

end Ruscker.Admin.SpecRoutes
