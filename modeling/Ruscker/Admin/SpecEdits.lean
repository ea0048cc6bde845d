import Ruscker.Admin.SettingsFields

/-!
# The life of one spec row

A row carries a version that an edit form shows and an update checks.  The form reads
the row and then its version, an update loads the row, looks the version up and writes
in three statements, and the operations that rewrite a row read it in one statement and
write it back whole in another.  Requests interleave at these statements.
-/

namespace Ruscker.Admin.SpecEdits

open Guards Tables Machines Machines.Machine SpecRoutes

section Rows

variable [Floats]

/-- A row of the `specs` table. -/
structure Stored where
  spec : Spec Settings
  version : Int
  deriving DecidableEq

/-- `upsert_one` on the row of the spec's id: an unchanged spec keeps its version. -/
def upsertRow (row : Option Stored) (spec : Spec Settings) : Stored :=
  match row with
  | none => ⟨spec, 1⟩
  | some old => if old.spec = spec then old else ⟨spec, old.version + 1⟩

def setProperty (spec : Spec Settings) (key : String) (value : Str) : Spec Settings :=
  { spec with settings := { spec.settings with
    templateProperties := spec.settings.templateProperties.setStr key.toList value } }

/-- `set_state` leaves a row that has the state. -/
def setState (active : Bool) (row : Stored) : Stored :=
  if row.spec.settings.templateProperties.isActive = active then row
  else
    ⟨setProperty row.spec "state" (if active then "active".toList else "inactive".toList),
      row.version + 1⟩

/-! ## The edit handler in statements -/

/-- Everything `update` does between loading the row and looking its version up. -/
def prepare (scope : EditorScope) (base : Spec Settings) (id : Str)
    (form : SpecForm SettingsFields) (today : Str) : Except SpecResponse (Spec Settings) := do
  let form := { form with id }
  ensure (scope.mayTouchSpec base) .notFound
  ensure form.validate.isEmpty (.formErrors form.validate)
  let candidate := form.intoSpec today (some base) scope.role
  let requested := candidate.accessGroups.getD []
  ensure (scope.mayAssignGroups requested) (.formErrors ["spec-form-error-editor-scope"])
  let merged := scope.mergePreservingOutOfScope (base.accessGroups.getD []) requested
  let spec := { candidate with accessGroups := if merged.isEmpty then none else some merged }
  ensure (scope.mayTouchSpec spec) (.formErrors ["spec-form-error-editor-scope"])
  return spec

/-- A blank token, or no version found, skips the comparison. -/
def isFresh (token current : Option Int) : Bool :=
  token.all fun submitted => current.all fun v => v = submitted

/-- Without interleaving the statements are the handler. -/
theorem update_eq_prepare (scope : EditorScope) (db : SpecDb Settings) (id : Str)
    (form : SpecForm SettingsFields) (today : Str) :
    update scope db id form today = (do
      let base ← getOr (db.specs.fetchOne id) .notFound
      let spec ← prepare scope base id form today
      ensure (isFresh form.baseVersion (db.versions.lookup id))
        (.formErrors ["spec-form-error-stale"])
      return db.upsertOne spec) := by
  simp only [update, prepare, isFresh, bind_assoc, pure_bind]

/-- The row of an id, put together from the two tables. -/
def storedRow (db : SpecDb Settings) (id : Str) : Option Stored :=
  (db.specs.fetchOne id).bind fun spec =>
    (db.versions.lookup id).map fun version => ⟨spec, version⟩

/-- The row statements are those of the tables. -/
theorem storedRow_upsertOne {db : SpecDb Settings} {spec : Spec Settings}
    (hversions : (db.specs.fetchOne spec.id).isSome = (db.versions.lookup spec.id).isSome) :
    storedRow (db.upsertOne spec) spec.id = some (upsertRow (storedRow db spec.id) spec) := by
  have hspec : (db.upsertOne spec).specs.fetchOne spec.id = some spec := by
    rw [SpecDb.upsertOne, Specs.fetchOne_upsertOne, if_pos rfl]
  unfold storedRow
  rw [hspec]
  cases hold : db.specs.fetchOne spec.id with
  | none =>
    have hlookup : (db.upsertOne spec).versions.lookup spec.id = some 1 := by
      rw [SpecDb.upsertOne, hold, Table.lookup_upsert, if_pos rfl]
    rw [hlookup]
    rfl
  | some old =>
    rw [hold, Option.isSome_some] at hversions
    obtain ⟨v, hv⟩ := Option.isSome_iff_exists.mp hversions.symm
    rw [hv, Option.bind_some, Option.bind_some, Option.map_some, upsertRow]
    by_cases heq : old = spec
    · have hlookup : (db.upsertOne spec).versions.lookup spec.id = some v := by
        rw [SpecDb.upsertOne, hold]
        simp only [heq, if_true, hv]
      rw [hlookup, if_pos heq, heq]
      rfl
    · have hlookup : (db.upsertOne spec).versions.lookup spec.id = some (v + 1) := by
        rw [SpecDb.upsertOne, hold]
        simp only [heq, if_false, Table.lookup_update_of_lookup hv, if_true]
      rw [hlookup, if_neg heq]
      rfl

/-! ## Operations that rewrite a row -/

inductive Rewrite where
  | setUpdatedIfAbsent (date : Str)
  /-- a group renamed, or deleted for `none` -/
  | rewriteGroup (old : Str) (new : Option Str)
  | toggleFeatured (scope : EditorScope)

def rewriteGroups (old : Str) (new : Option Str) (groups : List Str) : List Str :=
  let kept := groups.filter fun g => g ≠ old
  new.elim kept fun n => if kept.contains n then kept else kept ++ [n]

/-- What an operation writes back for the row it read; `none` where it writes nothing. -/
def Rewrite.apply (op : Rewrite) (spec : Spec Settings) : Option (Spec Settings) :=
  match op with
  | .setUpdatedIfAbsent date =>
    if (spec.settings.templateProperties.getStr "updated".toList).any fun s => !isBlankText s
    then none
    else some (setProperty spec "updated" date)
  | .rewriteGroup old new =>
    if (spec.accessGroups.getD []).contains old then
      let groups := rewriteGroups old new (spec.accessGroups.getD [])
      some { spec with accessGroups := if groups.isEmpty then none else some groups }
    else none
  | .toggleFeatured scope =>
    if scope.mayTouchSpec spec then
      some { spec with settings :=
        { spec.settings with featured := if spec.settings.isFeatured then none else some true } }
    else none

/-! ## Interleaving -/

/-- A rendered form: the row it was rendered against, the token it carries, and the life
of the row at its first read. -/
structure Page where
  seen : Stored
  token : Option Int
  life : Nat
  deriving DecidableEq

inductive Rendering where
  | reading (seen : Stored) (life : Nat)
  | shown (page : Page)

inductive Phase where
  | loaded
  | checked (current : Option Int)
  | refused
  | saved
  deriving DecidableEq

def Rendering.seen : Rendering → Stored
  | .reading seen _ => seen
  | .shown page => page.seen

def Rendering.life : Rendering → Nat
  | .reading _ life => life
  | .shown page => page.life

structure Submission where
  page : Page
  candidate : Spec Settings
  phase : Phase

structure Rewriting where
  read : Stored
  written : Spec Settings
  committed : Bool

inductive Writer where
  | submission (page : Page)
  | rewriting
  | stateChange
  | create
  | delete

def Writer.page : Writer → Option Page
  | .submission page => some page
  | _ => none

structure Commit where
  writer : Writer
  before : Option Stored
  after : Option Stored

/-- The row of the id with the requests in flight; `life` counts its deletions. -/
structure Edits where
  row : Option Stored
  life : Nat
  renderings : List Rendering
  submissions : List Submission
  rewritings : List Rewriting
  commits : List Commit

inductive Event where
  | openForm (scope : EditorScope)
  | readVersion (k : Nat) (answered : Bool)
  | submit (k : Nat) (scope : EditorScope) (form : SpecForm SettingsFields) (today : Str)
  | check (i : Nat) (answered : Bool)
  | save (i : Nat)
  | readRow (op : Rewrite)
  | writeRow (j : Nat)
  | setState (active : Bool)
  | insertNew (spec : Spec Settings)
  | delete

namespace Edits

/-- The forms whose submission succeeded, each with the row its write replaced. -/
def successes (s : Edits) : List (Page × Option Stored) :=
  s.commits.filterMap fun c => c.writer.page.map fun page => (page, c.before)

def commit (s : Edits) (writer : Writer) (after : Option Stored) : Edits :=
  { s with row := after, commits := s.commits ++ [⟨writer, s.row, after⟩] }

/-- A token of a failed lookup is blank. -/
def lookupVersion (s : Edits) (answered : Bool) : Option Int :=
  if answered then s.row.map Stored.version else none

def openForm (s : Edits) (scope : EditorScope) : Edits :=
  match s.row with
  | some row =>
    if scope.mayTouchSpec row.spec then
      { s with renderings := s.renderings ++ [.reading row s.life] }
    else s
  | none => s

def readVersion (s : Edits) (k : Nat) (answered : Bool) : Option Edits :=
  match s.renderings[k]? with
  | some (.reading seen life) =>
    some { s with renderings :=
      s.renderings.set k (.shown ⟨seen, s.lookupVersion answered, life⟩) }
  | _ => none

/-- The POST of a shown form, up to its checks; `form` is what the admin made of it. -/
def submit (id : Str) (s : Edits) (k : Nat) (scope : EditorScope)
    (form : SpecForm SettingsFields) (today : Str) : Option Edits :=
  match s.renderings[k]? with
  | some (.shown page) =>
    match s.row with
    | some base =>
      match prepare scope base.spec id { form with baseVersion := page.token } today with
      | .ok candidate => some { s with submissions := s.submissions ++ [⟨page, candidate, .loaded⟩] }
      | .error _ => some s
    | none => some s
  | _ => none

/-- A stale form is shown again with the version found. -/
def check (s : Edits) (i : Nat) (answered : Bool) : Option Edits :=
  match s.submissions[i]? with
  | some sub =>
    if sub.phase = .loaded then
      let current := s.lookupVersion (sub.page.token.isSome && answered)
      if isFresh sub.page.token current then
        some { s with submissions := s.submissions.set i { sub with phase := .checked current } }
      else
        some { s with
          submissions := s.submissions.set i { sub with phase := .refused }
          renderings := s.renderings ++
            (s.row.map fun row => Rendering.shown ⟨row, current, s.life⟩).toList }
    else none
  | none => none

/-- The upsert of a candidate; it reaches this row only under the row's own id. -/
def saveCandidate (id : Str) (s : Edits) (i : Nat) (sub : Submission) : Edits :=
  { s.commit (.submission sub.page)
      (if sub.candidate.id = id then some (upsertRow s.row sub.candidate) else s.row) with
    submissions := s.submissions.set i { sub with phase := .saved } }

def save (id : Str) (s : Edits) (i : Nat) : Option Edits :=
  match s.submissions[i]? with
  | some sub =>
    match sub.phase with
    | .checked _ => some (s.saveCandidate id i sub)
    | _ => none
  | none => none

def readRow (s : Edits) (op : Rewrite) : Edits :=
  match s.row with
  | some row =>
    match op.apply row.spec with
    | some written => { s with rewritings := s.rewritings ++ [⟨row, written, false⟩] }
    | none => s
  | none => s

def writeRow (s : Edits) (j : Nat) : Option Edits :=
  match s.rewritings[j]? with
  | some w =>
    if w.committed then none
    else some { s.commit .rewriting (some (upsertRow s.row w.written)) with
      rewritings := s.rewritings.set j { w with committed := true } }
  | none => none

end Edits

def step (id : Str) (s : Edits) : Event → Option Edits
  | .openForm scope => some (s.openForm scope)
  | .readVersion k answered => s.readVersion k answered
  | .submit k scope form today => s.submit id k scope form today
  | .check i answered => s.check i answered
  | .save i => s.save id i
  | .readRow op => some (s.readRow op)
  | .writeRow j => s.writeRow j
  | .setState active => s.row.map fun row => s.commit .stateChange (some (setState active row))
  | .insertNew spec =>
    if spec.id = id && s.row.isNone then some (s.commit .create (some ⟨spec, 1⟩)) else none
  | .delete => s.row.map fun _ => { s.commit .delete none with life := s.life + 1 }

def machine (id : Str) : Machine Edits Event := ⟨step id⟩

/-- No request in flight. -/
def initial (row : Option Stored) : Edits := ⟨row, 0, [], [], [], []⟩

end Rows

/-! ## One app -/

section App

attribute [local instance] wholeFloats

def ada : EditorScope := ⟨.admin, some "ada".toList, [], true⟩

def appId : Str := "app".toList

def app (name : String) : Spec Settings := ⟨appId, none, none, bareSettings name .empty⟩

def appRow : Stored := ⟨app "Old", 1⟩

/-- The form of the app submitted under a new name. -/
def rename (k : Nat) (name : String) : Event :=
  .submit k ada (SpecForm.fromSpec (app name)) "01/02/2026".toList

end App

end Ruscker.Admin.SpecEdits
