import Ruscker.Db.Schedules
import Ruscker.Docker.Spawn

/-!
# Labels of containers

The daemon keeps no other record of what a container is for than its labels.  A replica and a
job each get the labels of their spec first and some of `ruscker.*` over them; every reader of
the containers goes by one key.
-/

namespace Ruscker.Docker

open Numerals

variable {ι γ α : Type*}

def labelSpecId : Str := "ruscker.spec_id".toList
def labelReplicaId : Str := "ruscker.replica_id".toList
def labelJob : Str := "ruscker.job".toList
def labelInnerPort : Str := "ruscker.inner_port".toList

def defaultInnerPort : U16 := ⟨3838, by decide⟩

abbrev Labels := SortedMap Str Str

/-- Ids of replicas, and their text in a label. -/
class Uuid (ι : Type*) where
  text : ι → Str
  parse : Str → Option ι
  parse_text : ∀ id, parse (text id) = some id

/-! ## What the daemon lists -/

inductive ContainerState where
  | created | running | paused | restarting | removing | exited | dead
  deriving DecidableEq

structure Container (γ : Type*) where
  id : γ
  name : Str
  image : Str
  labels : Labels
  status : Str
  state : Option ContainerState
  -- the ports inside, and those they are published on
  ports : List (U16 × Option U16)
  created : Option Nat
  -- what an inspection of a stopped container says
  finishedAt : Option Int

structure ManagedContainer (γ : Type*) where
  id : γ
  name : Str
  image : Str
  specId : Option Str
  status : Str
  running : Bool
  finishedAt : Option Int
  deriving DecidableEq

inductive Liveness where
  | running | stopped | missing | unknown
  deriving DecidableEq

structure LivenessQuery (ι γ : Type*) where
  replicaId : ι
  containerId : γ
  host : Option Str

structure LivenessReport (ι γ α : Type*) where
  observations : List (ι × Liveness)
  running : List (Hosted ι γ α)
  managed : List (ManagedContainer γ)

def stateFromEnum : Option ContainerState → ReplicaState
  | some .running => .ready
  | some .created | some .restarting => .starting
  | some .paused => .draining
  | some .exited | some .dead | some .removing => .stopped
  | none => .starting

namespace Container

variable (c : Container γ)

def isRunning : Bool := c.state = some .running

/-- The filter `label=ruscker.replica_id` of the daemon. -/
def isManaged : Bool := (c.labels.lookup labelReplicaId).isSome

def managedRow : ManagedContainer γ where
  id := c.id
  name := c.name
  image := c.image
  specId := c.labels.lookup labelSpecId
  status := c.status
  running := c.isRunning
  finishedAt := if c.isRunning then none else c.finishedAt.filter fun t => 0 < t

/-- A replica as its container tells of it; none without the labels or a published port. -/
def replicaRow [Uuid ι] (resolve : U16 → Option α) (now : Nat) : Option (Hosted ι γ α) :=
  let innerPort := ((c.labels.lookup labelInnerPort).bind Numeral.ofText).getD defaultInnerPort
  (c.labels.lookup labelSpecId).bind fun specId =>
  ((c.labels.lookup labelReplicaId).bind Uuid.parse).bind fun id =>
  (((c.ports.find? fun p => p.1 = innerPort).bind Prod.snd).bind resolve).map fun upstream =>
    { id, specId
      state := stateFromEnum c.state
      startedAt := c.created.getD now
      sessionsActive := 0
      sessionsMax := 0
      containerId := c.id
      upstream }

end Container

section Readers

variable (host : List (Container γ))

/-- `list_managed_containers`. -/
def listManaged : List (ManagedContainer γ) :=
  (host.filter Container.isManaged).map Container.managedRow

def list [Uuid ι] (resolve : U16 → Option α) (now : Nat) : List (Hosted ι γ α) :=
  (host.filter Container.isManaged).filterMap fun c => c.replicaRow resolve now

/-- How one known replica is doing, by its container. -/
def classify [DecidableEq γ] (managed : List (ManagedContainer γ)) (container : γ) : Liveness :=
  match managed.find? fun c => c.id = container with
  | some c => if c.running then .running else .stopped
  | none => .missing

def replicaLiveness [Uuid ι] [DecidableEq γ] (resolve : U16 → Option α) (now : Nat)
    (known : List (LivenessQuery ι γ)) : LivenessReport ι γ α where
  observations := known.map fun q => (q.replicaId, classify (listManaged host) q.containerId)
  running := (list host resolve now).filter fun r => r.state = .ready
  managed := listManaged host

/-- The containers that are left, and how many were removed; a removal can fail. -/
def pruneStopped (removal : γ → Bool) : List (Container γ) × Nat :=
  let removed (c : Container γ) := c.isManaged && !c.isRunning && removal c.id
  (host.filter fun c => !removed c, host.countP removed)

end Readers

/-! ## The labels of a new container -/

section Builders

variable [Floats] (req : SpawnRequest)

/-- The labels of the spec; a later one wins. -/
def operatorLabels : Labels := .ofList req.labels

def spawnLabels [Uuid ι] (id : ι) : Labels :=
  (((operatorLabels req).insert labelSpecId req.specId).insert labelReplicaId
    (Uuid.text id)).insert labelInnerPort (Numeral.toText (req.innerPort.getD defaultInnerPort))

/-- The labels of `run_job`. -/
def jobLabels : Labels :=
  ((operatorLabels req).insert labelSpecId req.specId).insert labelJob "true".toList

def withJobTimeout (secs : U64) : SpawnRequest := { req with jobTimeoutSecs := some secs }

/-- The override of the command, where its JSON reads as one. -/
def cmdOverride (parseArgv : Str → Option (List Str)) (schedule : Schedule) : Option (List Str) :=
  schedule.cmdJson.bind parseArgv

def jobRequest [Aead] (parseArgv : Str → Option (List Str)) (state : SpawnState)
    (spec : Spec Settings) (schedule : Schedule) : Except SpawnError SpawnRequest :=
  (spawnInputs state spec).map fun (image, creds, env) =>
    (SpawnRequest.new spec.id image).withLimits (limitsFromSpec spec)
      |>.withVolumes (spec.settings.volumes.getD [])
      |>.withEnv env
      |>.withSome spec.settings.platform SpawnRequest.withPlatform
      |>.withSome ((cmdOverride parseArgv schedule).or spec.settings.containerCmd)
        SpawnRequest.withCmd
      |>.withSome spec.settings.effectiveContainerNetwork SpawnRequest.withNetwork
      |>.withEffectiveLabels spec.settings.effectiveLabels
      |>.withSome creds SpawnRequest.withCreds
      |>.withSome (schedule.timeoutSecs.filter fun t => 0 < t) fun req t =>
        withJobTimeout req ⟨t.toNat % 2 ^ 64, Nat.mod_lt _ (by decide)⟩

end Builders

/-! ## Looking a label up -/

section Lookups

variable {key : Str}

theorem lookup_ofList_eq_none {l : List (Str × Str)} :
    (SortedMap.ofList l).lookup key = none ↔ ∀ e ∈ l, e.1 ≠ key := by
  have hfold : ∀ m : Labels, (l.foldl (fun m e => m.insert e.1 e.2) m).lookup key = none ↔
      m.lookup key = none ∧ ∀ e ∈ l, e.1 ≠ key := by
    induction l with
    | nil => simp
    | cons e l ih =>
      intro m
      rw [List.foldl_cons, ih, SortedMap.lookup_insert]
      split
      · next h => simp [h]
      · next h => simp [Ne.symm h]
  rw [SortedMap.ofList, hfold]
  exact and_iff_right rfl

/-- A job only covers the spec and its own mark. -/
theorem lookup_jobLabels [Floats] {req : SpawnRequest} (hspec : key ≠ labelSpecId)
    (hjob : key ≠ labelJob) :
    (jobLabels req).lookup key = (operatorLabels req).lookup key := by
  rw [jobLabels, SortedMap.lookup_insert, if_neg hjob, SortedMap.lookup_insert, if_neg hspec]

/-- What a container says of its replica. -/
structure Carries [Uuid ι] (labels : Labels) (row : Replica ι) (innerPort : U16) : Prop where
  specId : labels.lookup labelSpecId = some row.specId
  replicaId : labels.lookup labelReplicaId = some (Uuid.text row.id)
  innerPort : labels.lookup labelInnerPort = some (Numeral.toText innerPort)

theorem carries_spawnLabels [Floats] [Uuid ι] {req : SpawnRequest} (row : Replica ι)
    (hrow : row.specId = req.specId) :
    Carries (spawnLabels req row.id) row (req.innerPort.getD defaultInnerPort) where
  specId := by
    rw [spawnLabels, SortedMap.lookup_insert, if_neg (by decide), SortedMap.lookup_insert,
      if_neg (by decide), SortedMap.lookup_insert, if_pos rfl, hrow]
  replicaId := by
    rw [spawnLabels, SortedMap.lookup_insert, if_neg (by decide), SortedMap.lookup_insert,
      if_pos rfl]
  innerPort := by rw [spawnLabels, SortedMap.lookup_insert, if_pos rfl]

/-- A container that carries a replica is listed as that replica, while its port is published. -/
theorem Carries.replicaRow [Uuid ι] {c : Container γ} {row : Replica ι} {innerPort port : U16}
    (h : Carries c.labels row innerPort) {resolve : U16 → Option α} {now : Nat} {upstream : α}
    (hport : c.ports.find? (fun p => p.1 = innerPort) = some (innerPort, some port))
    (hresolve : resolve port = some upstream) :
    ∃ listed : Hosted ι γ α, c.replicaRow resolve now = some listed ∧ listed.id = row.id ∧
      listed.specId = row.specId ∧ listed.containerId = c.id ∧ listed.upstream = upstream := by
  unfold Container.replicaRow
  rw [h.specId, h.replicaId, h.innerPort]
  simp only [Option.bind_some, Uuid.parse_text, Numeral.ofText_toText, Option.getD_some, hport,
    hresolve, Option.map_some]
  exact ⟨_, rfl, rfl, rfl, rfl, rfl⟩

end Lookups

/-! ## Jobs next to replicas -/

section Isolation

/-- The readers of replicas see the host as if the container were not there, and leave it. -/
structure Unseen (ι : Type*) [Uuid ι] [DecidableEq γ] (resolve : U16 → Option α) (now : Nat)
    (c : Container γ) : Prop where
  list : ∀ front back, (list (front ++ c :: back) resolve now : List (Hosted ι γ α)) =
    Docker.list (front ++ back) resolve now
  managed : ∀ front back, listManaged (front ++ c :: back) = listManaged (front ++ back)
  liveness : ∀ (known : List (LivenessQuery ι γ)) front back,
    replicaLiveness (front ++ c :: back) resolve now known =
      replicaLiveness (front ++ back) resolve now known
  prune : ∀ removal front back, (pruneStopped (front ++ c :: back) removal).1 =
    (pruneStopped front removal).1 ++ c :: (pruneStopped back removal).1

theorem unseen_of_not_managed [Uuid ι] [DecidableEq γ] {resolve : U16 → Option α} {now : Nat}
    {c : Container γ} (h : c.isManaged = false) : Unseen ι resolve now c := by
  have hfilter : ∀ front back, (front ++ c :: back).filter Container.isManaged =
      (front ++ back).filter Container.isManaged := by
    intro front back
    rw [List.filter_append, List.filter_cons_of_neg (by simp [h]), ← List.filter_append]
  have hlist : ∀ front back, (list (front ++ c :: back) resolve now : List (Hosted ι γ α)) =
      list (front ++ back) resolve now := by
    intro front back
    rw [list, hfilter, ← list]
  have hmanaged : ∀ front back, listManaged (front ++ c :: back) = listManaged (front ++ back) := by
    intro front back
    rw [listManaged, hfilter, ← listManaged]
  refine ⟨hlist, hmanaged, ?_, ?_⟩
  · intro known front back
    rw [replicaLiveness, hlist, hmanaged, ← replicaLiveness]
  · intro removal front back
    dsimp only [pruneStopped]
    rw [List.filter_append, List.filter_cons_of_pos (by simp [h])]

variable [Floats] [Aead] {parseArgv : Str → Option (List Str)} {state : SpawnState}
  {spec : Spec Settings} {schedule : Schedule} {req : SpawnRequest}

theorem labels_jobRequest (h : jobRequest parseArgv state spec schedule = .ok req) :
    req.labels = spec.settings.effectiveLabels := by
  unfold jobRequest at h
  cases hin : spawnInputs state spec with
  | error e =>
    rw [hin] at h
    cases h
  | ok inputs =>
    rw [hin] at h
    cases h
    refine SpawnRequest.withSome_keeps SpawnRequest.labels ?_ fun _ _ => rfl
    refine SpawnRequest.withSome_keeps SpawnRequest.labels ?_ fun _ _ => rfl
    have hnone : ∀ base : SpawnRequest, base.labels = [] →
        (base.withEffectiveLabels spec.settings.effectiveLabels).labels =
          spec.settings.effectiveLabels := by
      intro base hbase
      unfold SpawnRequest.withEffectiveLabels
      split
      · next hempty => rw [hbase, List.isEmpty_iff.mp hempty]
      · rfl
    refine hnone _ ?_
    refine SpawnRequest.withSome_keeps SpawnRequest.labels ?_ fun _ _ => rfl
    refine SpawnRequest.withSome_keeps SpawnRequest.labels ?_ fun _ _ => rfl
    exact SpawnRequest.withSome_keeps SpawnRequest.labels rfl fun _ _ => rfl

end Isolation

/-! ## A spec with a label of its own -/

section Example

attribute [local instance] wholeFloats openAead

/-- The nil id only. -/
@[reducible] def nilUuid : Uuid Unit where
  text _ := "00000000-0000-0000-0000-000000000000".toList
  parse s := if s = "00000000-0000-0000-0000-000000000000".toList then some () else none
  parse_text _ := rfl

attribute [local instance] nilUuid

def etlSpec (key : String) : Spec Settings :=
  { id := "etl".toList, accessGroups := none, accessUsers := none
    settings := { bareSettings "Etl" .empty with
      containerImage := some "r:1".toList
      labels := some (SortedMap.empty.insert key.toList "mine".toList) } }

def nightly : Schedule := ⟨1, "etl".toList, "0 3 * * *".toList, none, true, none, none, 0, 0⟩

def etlRequest (key : String) : SpawnRequest :=
  { SpawnRequest.new "etl".toList "r:1".toList with
    labels := [(key.toList, "mine".toList)] }

/-- A job that runs, or that was just created. -/
def etlJob (key : String) (state : ContainerState) : Container Nat :=
  { id := 7, name := "ruscker-job-etl-7".toList, image := "r:1".toList
    labels := jobLabels (etlRequest key), status := [], state := some state, ports := []
    created := none, finishedAt := none }

end Example

end Ruscker.Docker
