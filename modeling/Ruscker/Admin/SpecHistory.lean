import Ruscker.Admin.Disk
import Ruscker.Admin.SpecEdits
import Ruscker.Lib.Guard
import Ruscker.Lib.Json
import Ruscker.Lib.Machine
import Ruscker.Lib.Table

/-!
# The history of a spec

A spec row holds the JSON of its spec, and `spec_versions` the JSON of each of its versions.  The
two tables are written by four calls, each in a transaction of several statements of which any may
fail.
-/

namespace Ruscker.Admin.SpecHistory

open Guards Tables Machines Machines.Machine

/-! ## The tables -/

/-- The columns of a `specs` row that its JSON has to agree with. -/
structure Row where
  configJson : Str
  state : Str
  version : Nat
  deriving DecidableEq

structure AuditRow where
  actor : Option Str
  action : Str
  target : Str

/-- A version belongs to a spec that is there. -/
structure Db where
  specs : Table Str Row
  versions : Table (Str × Nat) Str
  images : List Str
  audit : List AuditRow
  references : ∀ id v json, versions.lookup (id, v) = some json → (specs.lookup id).isSome = true

inductive Failure where
  | unique | other
  deriving DecidableEq

/-- What a transaction waits for. -/
inductive Statement where
  | start | existence | image | lookup | specs | versions | audit | commit
  deriving DecidableEq

inductive UpsertOutcome where
  | created | updated | unchanged
  deriving DecidableEq

namespace Db

variable (db : Db) (id : Str) (row : Row)

def insertSpec : Except Failure Db :=
  if (db.specs.lookup id).isSome then .error .unique
  else .ok { db with
    specs := db.specs.insert id row
    references := fun id' v json h => by
      rw [Table.lookup_insert_eq]
      split
      · rfl
      · exact db.references id' v json h }

def updateSpec : Db :=
  { db with
    specs := Table.update db.specs id fun _ => row
    references := fun id' v json h => by
      rw [Table.lookup_update]
      have hsome := db.references id' v json h
      split
      · rw [Option.isSome_map]
        exact hsome
      · exact hsome }

/-- The foreign key and the primary key are checked. -/
def insertVersion (v : Nat) (json : Str) : Except Failure Db :=
  if hspec : (db.specs.lookup id).isSome = true then
    if (db.versions.lookup (id, v)).isSome then .error .unique
    else .ok { db with
      versions := db.versions.insert (id, v) json
      references := fun id' v' json' h => by
        rw [Table.lookup_insert_eq] at h
        split at h
        · next heq =>
          cases heq
          exact hspec
        · exact db.references id' v' json' h }
  else .error .other

/-- `ON DELETE CASCADE`. -/
def deleteSpec : Db :=
  { db with
    specs := db.specs.erase id
    versions := Table.retain db.versions fun k _ => decide (k.1 ≠ id)
    references := fun id' v json h => by
      rw [Table.lookup_retain] at h
      have hne : id' ≠ id := of_decide_eq_true h.2
      rw [Table.lookup_erase_eq, if_neg hne]
      exact db.references id' v json h.1 }

def record (actor : Option Str) (action : Str) : Db :=
  { db with audit := db.audit ++ [⟨actor, action, "spec:".toList ++ id⟩] }

variable {db} {db' : Db} {id row} {v : Nat} {json : Str}

theorem insertSpec_eq_ok (h : db.insertSpec id row = .ok db') :
    db'.specs = db.specs.insert id row ∧ db'.versions = db.versions := by
  unfold insertSpec at h
  split at h
  · cases h
  · obtain rfl := Except.ok.inj h
    exact ⟨rfl, rfl⟩

theorem insertVersion_eq_ok (h : db.insertVersion id v json = .ok db') :
    db'.specs = db.specs ∧ db'.versions = db.versions.insert (id, v) json := by
  unfold insertVersion at h
  split at h
  · split at h
    · cases h
    · obtain rfl := Except.ok.inj h
      exact ⟨rfl, rfl⟩
  · cases h

@[simp] theorem updateSpec_specs :
    (db.updateSpec id row).specs = Table.update db.specs id fun _ => row := rfl
@[simp] theorem updateSpec_versions : (db.updateSpec id row).versions = db.versions := rfl
@[simp] theorem deleteSpec_specs : (db.deleteSpec id).specs = db.specs.erase id := rfl
@[simp] theorem deleteSpec_versions : (db.deleteSpec id).versions =
    Table.retain db.versions fun k _ => decide (k.1 ≠ id) := rfl

end Db

/-- The column knows two states. -/
def stateColumn (active : Bool) : Str := if active then "active".toList else "inactive".toList

theorem stateColumn_eq_active (active : Bool) :
    decide (stateColumn active = "active".toList) = active := by
  cases active with
  | true => rfl
  | false => rfl

/-! ## Transactions -/

/-- What the body of a transaction ends with. -/
inductive Ending (α : Type) where
  | commit (db : Db) (a : α)
  | rollback (a : α)

/-- A transaction that is dropped leaves the tables as they were. -/
def transaction {α : Type} (fails : Statement → Bool) (db : Db)
    (body : Except Failure (Ending α)) : Except Failure α × Db :=
  match body with
  | .ok (.commit db' a) => if fails .commit then (.error .other, db) else (.ok a, db')
  | .ok (.rollback a) => (.ok a, db)
  | .error failure => (.error failure, db)

theorem transaction_of_failed {α : Type} {fails : Statement → Bool} {db : Db}
    {body : Except Failure (Ending α)} {failure : Failure}
    (h : (transaction fails db body).1 = .error failure) : (transaction fails db body).2 = db := by
  unfold transaction at h ⊢
  split at h
  · split at h
    · next hfails => simp [hfails]
    · cases h
  · cases h
  · rfl

/-- The tables are those before, or what the body commits. -/
theorem transaction_cases {α : Type} (fails : Statement → Bool) (db : Db)
    (body : Except Failure (Ending α)) : (transaction fails db body).2 = db ∨
      ∃ db' a, body = .ok (.commit db' a) ∧ (transaction fails db body).2 = db' := by
  unfold transaction
  split
  · next db' a =>
    split
    · exact .inl rfl
    · exact .inr ⟨db', a, rfl, rfl⟩
  · exact .inl rfl
  · exact .inl rfl

/-! ## The calls -/

section Calls

variable [Floats]

/-- A spec as JSON, and what a JSON text reads back as. -/
structure Codec where
  canonicalJson : Spec Settings → Option Str
  fromStr : Str → Option (Spec Settings)

def stateOf (spec : Spec Settings) : Str := spec.settings.templateProperties.state

def isActive (spec : Spec Settings) : Bool := spec.settings.templateProperties.isActive

/-- What was written reads back, with its state. -/
def Codec.Faithful (codec : Codec) : Prop :=
  ∀ spec json, codec.canonicalJson spec = some json →
    ∃ spec', codec.fromStr json = some spec' ∧ stateOf spec' = stateOf spec

variable (codec : Codec) (fails : Statement → Bool) (db : Db)

def query (stmt : Statement) : Except Failure PUnit := ensure (!fails stmt) .other

def recordImage (spec : Spec Settings) : Except Failure Db := do
  if (spec.settings.containerImage.map Str.trim).any fun img => !img.isEmpty then
    query fails .image
  return { db with images := Disk.recordImage db.images spec }

def upsertInTx (spec : Spec Settings) : Except Failure (Db × UpsertOutcome) := do
  let configJson ← getOr (codec.canonicalJson spec) .other
  let state := stateColumn (isActive spec)
  let db ← recordImage fails db spec
  query fails .lookup
  match db.specs.lookup spec.id with
  | none =>
    query fails .specs
    let db ← db.insertSpec spec.id ⟨configJson, state, 1⟩
    query fails .versions
    let db ← db.insertVersion spec.id 1 configJson
    return (db, .created)
  | some row =>
    if row.configJson = configJson then return (db, .unchanged)
    else
      let nextVersion := row.version + 1
      query fails .specs
      let db := db.updateSpec spec.id ⟨configJson, state, nextVersion⟩
      query fails .versions
      let db ← db.insertVersion spec.id nextVersion configJson
      return (db, .updated)

def upsertAuditAction : UpsertOutcome → Option String
  | .created => some "spec.create"
  | .updated => some "spec.update"
  | .unchanged => none

def insertNew (spec : Spec Settings) (actor : Option Str) : Except Failure Bool × Db :=
  transaction fails db do
    query fails .start
    query fails .existence
    if (db.specs.lookup spec.id).isSome then return .rollback false
    else match upsertInTx codec fails db spec with
      | .error .unique => return .rollback false
      | .error .other => throw .other
      | .ok (db, _) =>
        query fails .audit
        return .commit (db.record spec.id actor "spec.create".toList) true

def upsertOne (spec : Spec Settings) (actor : Option Str) :
    Except Failure UpsertOutcome × Db :=
  transaction fails db do
    query fails .start
    let (db, outcome) ← upsertInTx codec fails db spec
    match upsertAuditAction outcome with
    | none => return .commit db outcome
    | some action =>
      query fails .audit
      return .commit (db.record spec.id actor action.toList) outcome

/-- The JSON with the new state, and whether it had it. -/
def patch (active : Bool) (json : Str) : Except Failure (Spec Settings × Str × Bool) := do
  let spec ← getOr (codec.fromStr json) .other
  let already := isActive spec == active
  let spec := SpecEdits.setProperty spec "state" (stateColumn active)
  let out ← getOr (codec.canonicalJson spec) .other
  return (spec, out, already)

def setState (id : Str) (active : Bool) (actor : Option Str) : Except Failure Bool × Db :=
  transaction fails db do
    query fails .start
    query fails .lookup
    match db.specs.lookup id with
    | none => return .rollback false
    | some row =>
      let (_, configJson, already) ← patch codec active row.configJson
      if already then return .rollback true
      else
        let nextVersion := row.version + 1
        query fails .specs
        let db := db.updateSpec id ⟨configJson, stateColumn active, nextVersion⟩
        query fails .versions
        let db ← db.insertVersion id nextVersion configJson
        query fails .audit
        let action := if active then "spec.unarchive" else "spec.archive"
        return .commit (db.record id actor action.toList) true

def deleteOne (id : Str) (actor : Option Str) : Except Failure Bool × Db :=
  transaction fails db do
    query fails .start
    query fails .specs
    let removed := (db.specs.lookup id).isSome
    let db := db.deleteSpec id
    if removed then
      query fails .audit
      return .commit (db.record id actor "spec.delete".toList) true
    else return .commit db false

end Calls

/-! ## What a call can do to the tables -/

section Changes

variable [Floats] {codec : Codec} {fails : Statement → Bool} {db db' : Db} {spec : Spec Settings}
  {id json : Str} {row : Row} {v : Nat}

/-- Nothing, a first version, a next one with another JSON, or everything of a spec gone. -/
inductive Change (codec : Codec) (db db' : Db) : Prop
  | same (hspecs : db'.specs = db.specs) (hversions : db'.versions = db.versions)
  | created (spec : Spec Settings) (json : Str) (hjson : codec.canonicalJson spec = some json)
      (hnew : db.specs.lookup spec.id = none)
      (hspecs : db'.specs = db.specs.insert spec.id ⟨json, stateColumn (isActive spec), 1⟩)
      (hversions : db'.versions = db.versions.insert (spec.id, 1) json)
  | updated (id : Str) (row : Row) (spec : Spec Settings) (json : Str)
      (hjson : codec.canonicalJson spec = some json) (hrow : db.specs.lookup id = some row)
      (hne : row.configJson ≠ json)
      (hspecs : db'.specs = Table.update db.specs id
        fun _ => ⟨json, stateColumn (isActive spec), row.version + 1⟩)
      (hversions : db'.versions = db.versions.insert (id, row.version + 1) json)
  | deleted (id : Str) (hspecs : db'.specs = db.specs.erase id)
      (hversions : db'.versions = Table.retain db.versions fun k _ => decide (k.1 ≠ id))

/-- Only the two tables matter. -/
theorem Change.congr {db₁ db₂ : Db} (h : Change codec db₁ db₂)
    (hspecs : db₁.specs = db.specs) (hversions : db₁.versions = db.versions)
    (hspecs' : db'.specs = db₂.specs) (hversions' : db'.versions = db₂.versions) :
    Change codec db db' := by
  cases h with
  | same hs hv => exact .same (by rw [hspecs', hs, hspecs]) (by rw [hversions', hv, hversions])
  | created spec json hjson hnew hs hv =>
    exact .created spec json hjson (hspecs ▸ hnew) (by rw [hspecs', hs, hspecs])
      (by rw [hversions', hv, hversions])
  | updated id row spec json hjson hrow hne hs hv =>
    exact .updated id row spec json hjson (hspecs ▸ hrow) hne (by rw [hspecs', hs, hspecs])
      (by rw [hversions', hv, hversions])
  | deleted id hs hv =>
    exact .deleted id (by rw [hspecs', hs, hspecs]) (by rw [hversions', hv, hversions])

theorem recordImage_eq_ok (h : recordImage fails db spec = .ok db') :
    db'.specs = db.specs ∧ db'.versions = db.versions := by
  unfold recordImage at h
  split at h
  · obtain ⟨_, -, h⟩ := accepted_bind.mp h
    obtain rfl := accepted_pure.mp h
    exact ⟨rfl, rfl⟩
  · obtain rfl := accepted_pure.mp h
    exact ⟨rfl, rfl⟩

theorem upsertInTx_change {outcome : UpsertOutcome}
    (h : upsertInTx codec fails db spec = .ok (db', outcome)) : Change codec db db' := by
  unfold upsertInTx at h
  obtain ⟨json, hjson, h⟩ := accepted_bind.mp h
  obtain ⟨db₁, himage, h⟩ := accepted_bind.mp h
  obtain ⟨_, -, h⟩ := accepted_bind.mp h
  obtain ⟨hspecs₁, hversions₁⟩ := recordImage_eq_ok himage
  rw [accepted_getOr] at hjson
  rw [hspecs₁] at h
  split at h
  · next hnew =>
    obtain ⟨_, -, h⟩ := accepted_bind.mp h
    obtain ⟨db₂, hinsert, h⟩ := accepted_bind.mp h
    obtain ⟨_, -, h⟩ := accepted_bind.mp h
    obtain ⟨db₃, hversion, h⟩ := accepted_bind.mp h
    obtain ⟨hspecs₂, hversions₂⟩ := Db.insertSpec_eq_ok hinsert
    obtain ⟨hspecs₃, hversions₃⟩ := Db.insertVersion_eq_ok hversion
    cases accepted_pure.mp h
    exact .created spec json hjson hnew (by rw [hspecs₃, hspecs₂, hspecs₁])
      (by rw [hversions₃, hversions₂, hversions₁])
  · next row hrow =>
    split at h
    · cases accepted_pure.mp h
      exact .same hspecs₁ hversions₁
    · next hne =>
      obtain ⟨_, -, h⟩ := accepted_bind.mp h
      obtain ⟨_, -, h⟩ := accepted_bind.mp h
      obtain ⟨db₃, hversion, h⟩ := accepted_bind.mp h
      obtain ⟨hspecs₃, hversions₃⟩ := Db.insertVersion_eq_ok hversion
      cases accepted_pure.mp h
      refine .updated spec.id row spec json hjson hrow hne ?_ ?_
      · rw [hspecs₃, Db.updateSpec_specs, hspecs₁]
      · rw [hversions₃, Db.updateSpec_versions, hversions₁]

/-- A state that was set is the one that is read. -/
theorem stateOf_setProperty (spec : Spec Settings) (value : Str) :
    stateOf (SpecEdits.setProperty spec "state" value) = value := by
  rw [stateOf, SpecEdits.setProperty, TemplateProperties.state, TemplateProperties.getStr_setStr,
    if_pos rfl]
  rfl

theorem isActive_eq (spec : Spec Settings) :
    isActive spec = decide (stateOf spec = "active".toList) := rfl

/-- Only what the body commits can change anything. -/
theorem transaction_change {α : Type} {body : Except Failure (Ending α)}
    (h : ∀ db' a, body = .ok (.commit db' a) → Change codec db db') :
    Change codec db (transaction fails db body).2 := by
  rcases transaction_cases fails db body with hsame | ⟨db', a, hbody, hdb⟩
  · rw [hsame]
    exact .same rfl rfl
  · rw [hdb]
    exact h db' a hbody

section Calls

variable {actor : Option Str} {active : Bool}

theorem insertNew_change : Change codec db (insertNew codec fails db spec actor).2 := by
  unfold insertNew
  refine transaction_change fun db' flag hbody => ?_
  obtain ⟨_, -, hbody⟩ := accepted_bind.mp hbody
  obtain ⟨_, -, hbody⟩ := accepted_bind.mp hbody
  split at hbody
  · cases hbody
  · split at hbody
    · cases hbody
    · cases hbody
    · next db₁ outcome hupsert =>
      obtain ⟨_, -, hbody⟩ := accepted_bind.mp hbody
      cases accepted_pure.mp hbody
      exact (upsertInTx_change hupsert).congr rfl rfl rfl rfl

theorem upsertOne_change : Change codec db (upsertOne codec fails db spec actor).2 := by
  unfold upsertOne
  refine transaction_change fun db' outcome hbody => ?_
  obtain ⟨_, -, hbody⟩ := accepted_bind.mp hbody
  obtain ⟨⟨db₁, outcome₁⟩, hupsert, hbody⟩ := accepted_bind.mp hbody
  dsimp only at hbody
  split at hbody
  · cases accepted_pure.mp hbody
    exact upsertInTx_change hupsert
  · obtain ⟨_, -, hbody⟩ := accepted_bind.mp hbody
    cases accepted_pure.mp hbody
    exact (upsertInTx_change hupsert).congr rfl rfl rfl rfl

theorem patch_eq_ok {out : Str} {already : Bool}
    (h : patch codec active json = .ok (spec, out, already)) :
    ∃ old, codec.fromStr json = some old ∧ already = (isActive old == active) ∧
      spec = SpecEdits.setProperty old "state" (stateColumn active) ∧
      codec.canonicalJson spec = some out := by
  unfold patch at h
  obtain ⟨old, hold, h⟩ := accepted_bind.mp h
  obtain ⟨out', hout, h⟩ := accepted_bind.mp h
  cases accepted_pure.mp h
  exact ⟨old, accepted_getOr.mp hold, rfl, rfl, accepted_getOr.mp hout⟩

/-- The JSON of a state that is changed is another one. -/
theorem patch_ne (hcodec : codec.Faithful) {out : Str}
    (h : patch codec active json = .ok (spec, out, false)) : json ≠ out := by
  obtain ⟨old, hold, halready, rfl, hout⟩ := patch_eq_ok h
  rintro rfl
  obtain ⟨spec', hread, hstate⟩ := hcodec _ _ hout
  obtain rfl := Option.some.inj (hold.symm.trans hread)
  rw [stateOf_setProperty] at hstate
  rw [isActive_eq, hstate, stateColumn_eq_active, beq_self_eq_true] at halready
  cases halready

theorem setState_change (hcodec : codec.Faithful) :
    Change codec db (setState codec fails db id active actor).2 := by
  unfold setState
  refine transaction_change fun db' flag hbody => ?_
  obtain ⟨_, -, hbody⟩ := accepted_bind.mp hbody
  obtain ⟨_, -, hbody⟩ := accepted_bind.mp hbody
  split at hbody
  · cases hbody
  · next row hrow =>
    obtain ⟨⟨spec, json, already⟩, hpatch, hbody⟩ := accepted_bind.mp hbody
    dsimp only at hbody
    cases already with
    | true => cases hbody
    | false =>
      rw [if_neg Bool.false_ne_true] at hbody
      obtain ⟨_, -, hbody⟩ := accepted_bind.mp hbody
      obtain ⟨_, -, hbody⟩ := accepted_bind.mp hbody
      obtain ⟨db₁, hversion, hbody⟩ := accepted_bind.mp hbody
      obtain ⟨_, -, hbody⟩ := accepted_bind.mp hbody
      obtain ⟨hspecs, hversions⟩ := Db.insertVersion_eq_ok hversion
      obtain ⟨old, -, -, hspec, hjson⟩ := patch_eq_ok hpatch
      have hactive : isActive spec = active := by
        rw [isActive_eq, hspec, stateOf_setProperty, stateColumn_eq_active]
      cases accepted_pure.mp hbody
      refine .updated id row spec json hjson hrow (patch_ne hcodec hpatch) ?_ ?_
      · rw [hactive]
        exact hspecs
      · exact hversions

theorem deleteOne_change : Change codec db (deleteOne fails db id actor).2 := by
  unfold deleteOne
  refine transaction_change fun db' flag hbody => ?_
  obtain ⟨_, -, hbody⟩ := accepted_bind.mp hbody
  obtain ⟨_, -, hbody⟩ := accepted_bind.mp hbody
  dsimp only at hbody
  split at hbody
  · obtain ⟨_, -, hbody⟩ := accepted_bind.mp hbody
    cases accepted_pure.mp hbody
    exact .deleted id rfl rfl
  · cases accepted_pure.mp hbody
    exact .deleted id rfl rfl

end Calls

end Changes

/-! ## Histories -/

section Histories

variable [Floats] {codec : Codec} {db db' : Db} {id : Str} {row : Row}

/-- The history of a row: one version each, the last with the row's JSON, each one other than the
one before, and the column with what the JSON says of the state. -/
structure Kept (codec : Codec) (db : Db) (id : Str) (row : Row) : Prop where
  version : 1 ≤ row.version
  whole : ∀ v, (db.versions.lookup (id, v)).isSome = true ↔ 1 ≤ v ∧ v ≤ row.version
  last : db.versions.lookup (id, row.version) = some row.configJson
  differ : ∀ v, 1 ≤ v → v < row.version →
    db.versions.lookup (id, v) ≠ db.versions.lookup (id, v + 1)
  state : ∃ spec, codec.fromStr row.configJson = some spec ∧
    row.state = stateColumn (isActive spec)

theorem Kept.congr (h : Kept codec db id row)
    (hversions : ∀ v, db'.versions.lookup (id, v) = db.versions.lookup (id, v)) :
    Kept codec db' id row := by
  refine ⟨h.version, ?_, ?_, ?_, h.state⟩
  · intro v
    rw [hversions]
    exact h.whole v
  · rw [hversions]
    exact h.last
  · intro v hv hlt
    rw [hversions, hversions]
    exact h.differ v hv hlt

omit [Floats] in
/-- A spec that is not there has no versions. -/
theorem lookup_versions_of_none (hnew : db.specs.lookup id = none) (v : Nat) :
    db.versions.lookup (id, v) = none := by
  cases hlookup : db.versions.lookup (id, v) with
  | none => rfl
  | some json =>
    have hsome := db.references id v json hlookup
    rw [hnew] at hsome
    cases hsome

theorem state_of_faithful (hcodec : codec.Faithful) {spec : Spec Settings} {json : Str}
    (hjson : codec.canonicalJson spec = some json) :
    ∃ spec', codec.fromStr json = some spec' ∧
      stateColumn (isActive spec) = stateColumn (isActive spec') := by
  obtain ⟨spec', hread, hstate⟩ := hcodec spec json hjson
  exact ⟨spec', hread, by rw [isActive_eq, isActive_eq, hstate]⟩

theorem Kept.first (hcodec : codec.Faithful) {spec : Spec Settings} {json : Str}
    (hjson : codec.canonicalJson spec = some json)
    (hversions : ∀ v, db'.versions.lookup (id, v) = if v = 1 then some json else none) :
    Kept codec db' id ⟨json, stateColumn (isActive spec), 1⟩ := by
  refine ⟨Nat.le_refl 1, ?_, ?_, ?_, state_of_faithful hcodec hjson⟩
  · intro v
    rw [hversions]
    by_cases hv : v = 1
    · simp [hv]
    · simp only [hv, if_false, Option.isSome_none, Bool.false_eq_true, false_iff]
      omega
  · rw [hversions, if_pos rfl]
  · intro v hv hlt
    exact absurd hlt (Nat.not_lt_of_le hv)

theorem Kept.next (hkept : Kept codec db id row) (hcodec : codec.Faithful) {spec : Spec Settings}
    {json : Str} (hjson : codec.canonicalJson spec = some json) (hne : row.configJson ≠ json)
    (hversions : ∀ v, db'.versions.lookup (id, v) =
      if v = row.version + 1 then some json else db.versions.lookup (id, v)) :
    Kept codec db' id ⟨json, stateColumn (isActive spec), row.version + 1⟩ := by
  refine ⟨Nat.le_add_left 1 row.version, ?_, ?_, ?_, state_of_faithful hcodec hjson⟩
  · intro v
    rw [hversions]
    change _ ↔ 1 ≤ v ∧ v ≤ row.version + 1
    by_cases hv : v = row.version + 1
    · simp [hv]
    · rw [if_neg hv, hkept.whole]
      omega
  · rw [hversions, if_pos rfl]
  · intro v hv hlt
    change v < row.version + 1 at hlt
    rw [hversions, hversions, if_neg (Nat.ne_of_lt hlt)]
    by_cases hlast : v = row.version
    · subst hlast
      rw [if_pos rfl, hkept.last]
      exact fun heq => hne (Option.some.inj heq)
    · rw [if_neg (by omega)]
      exact hkept.differ v hv (by omega)

/-- **Step lemma.** -/
theorem kept_of_change (hcodec : codec.Faithful) (hchange : Change codec db db')
    (h : ∀ row, db.specs.lookup id = some row → Kept codec db id row)
    (hrow : db'.specs.lookup id = some row) : Kept codec db' id row := by
  cases hchange with
  | same hspecs hversions =>
    rw [hspecs] at hrow
    exact (h row hrow).congr fun v => by rw [hversions]
  | created spec json hjson hnew hspecs hversions =>
    rw [hspecs, Table.lookup_insert_eq] at hrow
    have hlookup : ∀ id v, db'.versions.lookup (id, v) =
        if (id, v) = (spec.id, 1) then some json else db.versions.lookup (id, v) := by
      intro id v
      rw [hversions, Table.lookup_insert_eq]
    split at hrow
    · next hid =>
      subst hid
      obtain rfl := Option.some.inj hrow
      refine Kept.first hcodec hjson fun v => ?_
      rw [hlookup, lookup_versions_of_none hnew]
      simp
    · next hid =>
      refine (h row hrow).congr fun v => ?_
      rw [hlookup, if_neg]
      exact fun heq => hid (Prod.mk.inj heq).1
  | updated id' old spec json hjson hold hne hspecs hversions =>
    rw [hspecs, Table.lookup_update_of_lookup hold] at hrow
    have hlookup : ∀ id v, db'.versions.lookup (id, v) =
        if (id, v) = (id', old.version + 1) then some json else db.versions.lookup (id, v) := by
      intro id v
      rw [hversions, Table.lookup_insert_eq]
    split at hrow
    · next hid =>
      subst hid
      obtain rfl := Option.some.inj hrow
      refine (h old hold).next hcodec hjson hne fun v => ?_
      rw [hlookup]
      simp
    · next hid =>
      refine (h row hrow).congr fun v => ?_
      rw [hlookup, if_neg]
      exact fun heq => hid (Prod.mk.inj heq).1
  | deleted id' hspecs hversions =>
    rw [hspecs, Table.lookup_erase_eq] at hrow
    split at hrow
    · cases hrow
    · next hid =>
      refine (h row hrow).congr fun v => ?_
      rw [hversions]
      refine Option.ext fun json => ?_
      rw [Table.lookup_retain]
      simp [hid]

end Histories

/-! ## Runs of calls -/

section Runs

variable [Floats]

inductive Call where
  | insertNew (spec : Spec Settings) (actor : Option Str)
  | upsertOne (spec : Spec Settings) (actor : Option Str)
  | setState (id : Str) (active : Bool) (actor : Option Str)
  | deleteOne (id : Str) (actor : Option Str)

/-- What a call returns. -/
inductive Answer where
  | flag (b : Bool)
  | outcome (o : UpsertOutcome)

/-- A call, and the statements of it that fail. -/
structure Event where
  call : Call
  fails : Statement → Bool

variable (codec : Codec)

def run (db : Db) (e : Event) : Except Failure Answer × Db :=
  match e.call with
  | .insertNew spec actor => (insertNew codec e.fails db spec actor).map (·.map .flag) id
  | .upsertOne spec actor => (upsertOne codec e.fails db spec actor).map (·.map .outcome) id
  | .setState id' active actor =>
    (setState codec e.fails db id' active actor).map (·.map .flag) id
  | .deleteOne id' actor => (deleteOne e.fails db id' actor).map (·.map .flag) id

def machine : Machine Db Event := ⟨fun db e => some (run codec db e).2⟩

variable {codec} {db db' : Db} {e : Event} {es : List Event} {id : Str}

theorem run_change (hcodec : codec.Faithful) : Change codec db (run codec db e).2 := by
  unfold run
  split
  · exact insertNew_change
  · exact upsertOne_change
  · exact setState_change hcodec
  · exact deleteOne_change

omit [Floats] in
theorem error_of_map {α : Type} {r : Except Failure α} {f : α → Answer} {failure : Failure}
    (h : r.map f = .error failure) : r = .error failure := by
  cases r with
  | error failure' =>
    cases h
    rfl
  | ok a => cases h

theorem run_of_failed {failure : Failure} (h : (run codec db e).1 = .error failure) :
    (run codec db e).2 = db := by
  unfold run at h ⊢
  split at h
  · exact transaction_of_failed (error_of_map h)
  · exact transaction_of_failed (error_of_map h)
  · exact transaction_of_failed (error_of_map h)
  · exact transaction_of_failed (error_of_map h)

/-- **Histories.** However calls follow each other and fail, a row that is there has its whole
history, and a call that fails has changed nothing. -/
theorem history_kept (hcodec : codec.Faithful) (hnew : db.specs.lookup id = none)
    (hexec : (machine codec).exec db es = some db') :
    (∀ row, db'.specs.lookup id = some row → Kept codec db' id row) ∧
      ∀ e failure, (run codec db' e).1 = .error failure → (run codec db' e).2 = db' := by
  refine ⟨?_, fun e failure => run_of_failed⟩
  have hrun : (machine codec).Run Free db es db' := run_free_iff.mpr hexec
  refine hrun.invariant (I := fun db => ∀ row, db.specs.lookup id = some row →
    Kept codec db id row) ?_ ?_
  · intro row hrow
    rw [hnew] at hrow
    cases hrow
  · intro s e s' h _ hstep row hrow
    cases hstep
    exact kept_of_change hcodec (run_change hcodec) h hrow

end Runs

/-! ## One app -/

section OneApp

attribute [local instance] wholeFloats

def lab (properties : TemplateProperties) : Spec Settings :=
  ⟨"lab".toList, none, none, bareSettings "Lab" properties⟩

def stateProperty (value : String) : TemplateProperties :=
  TemplateProperties.setStr .empty "state".toList value.toList

/-- Members without a value, each with its comma. -/
def nulls (keys : List String) : Str :=
  keys.flatMap fun key => ['"'] ++ key.toList ++ "\":null,".toList

/-- The JSON of the app, its keys in order. -/
def labJson (properties : String) : Str :=
  "\x7b".toList ++ nulls
    ["access-groups", "access-users", "add-default-http-headers", "anti-affinity", "api",
     "concurrent-requests-per-replica", "container-cmd", "container-cpu-limit",
     "container-cpu-request", "container-env"] ++
  "\"container-image\":\"r:1\",".toList ++ nulls
    ["container-lifetime", "container-memory-limit", "container-memory-request",
     "container-network", "container-port", "container-volumes", "container-wait-time",
     "description"] ++
  "\"display-name\":\"Lab\",".toList ++ nulls
    ["docker-registry-credential", "docker-registry-domain", "docker-registry-password",
     "docker-registry-username", "drain-timeout", "featured", "heartbeat-timeout"] ++
  "\"id\":\"lab\",".toList ++ nulls
    ["identity-claims", "inject-base-href", "labels", "max-body-size", "max-lifetime",
     "max-replicas", "mfa-validity-days", "min-replicas", "placement", "platform", "require-mfa",
     "routing-strategy", "scale-down-cooldown-secs", "scale-down-grace", "scale-down-threshold",
     "scale-up-threshold", "seats-per-container", "stop-on-logout"] ++
  "\"template-properties\":".toList ++ properties.toList ++ ",\"type\":null\x7d".toList

/-- The app with each state it is given, and its JSON. -/
def labTexts : List (Spec Settings × Str) :=
  [(lab .empty, labJson "\x7b\x7d"),
    (lab (stateProperty "inactive"), labJson "\x7b\"state\":\"inactive\"\x7d"),
    (lab (stateProperty "hidden"), labJson "\x7b\"state\":\"hidden\"\x7d")]

def labCodec : Codec :=
  ⟨fun spec => (labTexts.find? fun text => decide (text.1 = spec)).map (·.2),
    fun json => (labTexts.find? fun text => decide (text.2 = json)).map (·.1)⟩

theorem labJson_inj {a b : String} : labJson a = labJson b ↔ a = b := by
  unfold labJson
  rw [List.append_left_inj, List.append_right_inj, String.toList_inj]

/-- A row is found by what no other one has. -/
theorem find?_snd_of_nodup {α β : Type} [DecidableEq β] {l : List (α × β)} {a : α} {b : β}
    (hnodup : (l.map Prod.snd).Nodup) (h : (a, b) ∈ l) :
    l.find? (fun row => decide (row.2 = b)) = some (a, b) := by
  induction l with
  | nil => cases h
  | cons row rows ih =>
    rw [List.map_cons, List.nodup_cons] at hnodup
    rcases List.mem_cons.mp h with rfl | h
    · simp
    · have hne : row.2 ≠ b := by
        rintro rfl
        exact hnodup.1 (List.mem_map.mpr ⟨(a, row.2), h, rfl⟩)
      rw [List.find?_cons_of_neg (by simpa using hne), ih hnodup.2 h]

theorem fromStr_labTexts {spec : Spec Settings} {json : Str} (h : (spec, json) ∈ labTexts) :
    labCodec.fromStr json = some spec := by
  have hinj : Function.Injective labJson := fun _ _ => labJson_inj.mp
  have hnodup : (["\x7b\x7d", "\x7b\"state\":\"inactive\"\x7d",
      "\x7b\"state\":\"hidden\"\x7d"].map labJson).Nodup :=
    List.Nodup.map hinj (by decide)
  have hfind : labTexts.find? (fun text => decide (text.2 = json)) = some (spec, json) :=
    find?_snd_of_nodup hnodup h
  exact congrArg (Option.map (·.1)) hfind

theorem labCodec_faithful : labCodec.Faithful := by
  intro spec json h
  obtain ⟨text, hfind, rfl⟩ := Option.map_eq_some_iff.mp h
  have hspec := List.find?_some hfind
  obtain rfl := of_decide_eq_true hspec
  exact ⟨text.1, fromStr_labTexts (List.mem_of_find?_eq_some hfind), rfl⟩

def emptyDb : Db := ⟨∅, ∅, [], [], fun _ _ _ h => by cases h⟩

def soundly (call : Call) : Event := ⟨call, fun _ => false⟩

/-- Created, hidden, deleted and created again. -/
def relived : List Event :=
  [soundly (.insertNew (lab .empty) none), soundly (.setState "lab".toList false none),
    soundly (.deleteOne "lab".toList none), soundly (.upsertOne (lab .empty) none),
    soundly (.upsertOne (lab (stateProperty "inactive")) none)]

theorem history_kept_relived :
    ∃ db', (machine labCodec).exec emptyDb relived = some db' ∧
      (db'.specs.lookup "lab".toList).map Row.version = some 2 ∧
      (∀ row, db'.specs.lookup "lab".toList = some row → Kept labCodec db' "lab".toList row) ∧
      ∀ e failure, (run labCodec db' e).1 = .error failure → (run labCodec db' e).2 = db' := by
  have hversion : ((machine labCodec).exec emptyDb relived).map (fun db =>
      (db.specs.lookup "lab".toList).map Row.version) = some (some 2) := by
    delta labCodec labTexts labJson
    simp only [nulls, List.flatMap_cons, List.flatMap_nil]
    repeat rw [String.toList_ofList]
    decide +kernel
  obtain ⟨db', hexec, hrow⟩ := Option.map_eq_some_iff.mp hversion
  exact ⟨db', hexec, hrow, history_kept labCodec_faithful rfl hexec⟩

/-- The column has no other state than the two, and the JSON has. -/
theorem hidden_is_inactive :
    ¬ ∀ (codec : Codec) (db db' : Db) (id : Str) (es : List Event), codec.Faithful →
        db.specs.lookup id = none → (machine codec).exec db es = some db' →
        (∀ row, db'.specs.lookup id = some row → Kept codec db' id row ∧
          ∃ spec, codec.fromStr row.configJson = some spec ∧ row.state = stateOf spec) ∧
        ∀ e failure, (run codec db' e).1 = .error failure → (run codec db' e).2 = db' := by
  intro hclaim
  obtain ⟨hrows, -⟩ := hclaim labCodec emptyDb _ "lab".toList
    [soundly (.upsertOne (lab (stateProperty "hidden")) none)] labCodec_faithful rfl rfl
  obtain ⟨-, spec, hspec, hstate⟩ :=
    hrows ⟨labJson "\x7b\"state\":\"hidden\"\x7d", "inactive".toList, 1⟩ rfl
  have hread : labCodec.fromStr (labJson "\x7b\"state\":\"hidden\"\x7d") =
      some (lab (stateProperty "hidden")) :=
    fromStr_labTexts (by simp [labTexts])
  cases hspec.symm.trans hread
  revert hstate
  decide

end OneApp

end Ruscker.Admin.SpecHistory
