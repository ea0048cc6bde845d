import Ruscker.Proxy.Calls
import Ruscker.Proxy.Spawn

/-!
# The waiting page and the spawn behind it

A visitor without a replica sees a page that a container is starting, or one that the app is
full.  `at_capacity` decides which, from the replicas that are starting, ready or draining;
`spawn_one` counts every row of the spec against the same limit.
-/

namespace Ruscker.Proxy.Splash

open Calls

variable {ι : Type*}

/-! ## The two limits -/

def isLive (r : Replica ι) : Bool :=
  r.state = .starting || r.state = .ready || r.state = .draining

def liveOf (replicas : Registry ι) (spec : Str) : Nat :=
  ((replicas.replicasOf spec).filter isLive).length

/-- A replica that takes the visitor, or will. -/
def isAvailable (r : Replica ι) : Bool := r.state = .starting || r.isAccepting

theorem liveOf_le (replicas : Registry ι) (spec : Str) :
    liveOf replicas spec ≤ (replicas.replicasOf spec).length :=
  List.length_filter_le _ _

section Limits

variable [Floats]

def atCapacity (replicas : Registry ι) (spec : Spec Settings) : Bool :=
  spec.settings.effectiveMaxReplicas.val ≤ liveOf replicas spec.id

def isFull (settings : Settings) (rows : List (Replica ι)) : Bool :=
  settings.effectiveMaxReplicas.val ≤ rows.length

/-- `ensure_replica_available`, up to the request it hands to the backend. -/
def ensureReplicaAvailable [Aead] (state : SpawnState) (replicas : Registry ι)
    (spec : Spec Settings) : Except SpawnError (Option SpawnRequest) :=
  let rows := replicas.replicasOf spec.id
  if rows.any isAvailable then .ok none
  else if isFull spec.settings rows then .ok none
  else (spawnOneRequest state spec).map some

/-- A request is handed to the backend. -/
def Spawns [Aead] (state : SpawnState) (replicas : Registry ι) (spec : Spec Settings) : Prop :=
  ∃ req, ensureReplicaAvailable state replicas spec = .ok (some req)

/-! ## Where the page keeps its word -/

section Agreement

variable {replicas : Registry ι} {spec : Spec Settings}

theorem atCapacity_eq_false_iff :
    atCapacity replicas spec = false ↔
      liveOf replicas spec.id < spec.settings.effectiveMaxReplicas.val := by
  rw [atCapacity, decide_eq_false_iff_not, Nat.not_le]

variable [Aead] {state : SpawnState}

/-- Of a spec whose request can be made, every row counts. -/
theorem spawns_iff {req : SpawnRequest} (hrunnable : spawnOneRequest state spec = .ok req)
    (hnone : ∀ r ∈ replicas.replicasOf spec.id, isAvailable r = false) :
    Spawns state replicas spec ↔
      (replicas.replicasOf spec.id).length < spec.settings.effectiveMaxReplicas.val := by
  have hany : (replicas.replicasOf spec.id).any isAvailable = false :=
    List.any_eq_false.mpr fun r hr => Bool.eq_false_iff.mp (hnone r hr)
  unfold Spawns ensureReplicaAvailable
  dsimp only
  rw [hany, if_neg Bool.false_ne_true, hrunnable, isFull]
  by_cases hfull : spec.settings.effectiveMaxReplicas.val ≤ (replicas.replicasOf spec.id).length
  · rw [if_pos (decide_eq_true hfull)]
    exact ⟨fun ⟨_, h⟩ => (by cases h), fun h => absurd hfull (Nat.not_le.mpr h)⟩
  · rw [if_neg (by simpa using hfull)]
    exact ⟨fun _ => Nat.not_le.mp hfull, fun _ => ⟨req, rfl⟩⟩

/-- **The page promises a start that is refused exactly where stopped rows fill the limit that
live ones leave open.** -/
theorem atCapacity_agrees_iff {req : SpawnRequest}
    (hrunnable : spawnOneRequest state spec = .ok req)
    (hnone : ∀ r ∈ replicas.replicasOf spec.id, isAvailable r = false) :
    (atCapacity replicas spec = false ↔ Spawns state replicas spec) ↔
      ¬ (liveOf replicas spec.id < spec.settings.effectiveMaxReplicas.val ∧
        spec.settings.effectiveMaxReplicas.val ≤ (replicas.replicasOf spec.id).length) := by
  have hle := liveOf_le replicas spec.id
  rw [spawns_iff hrunnable hnone, atCapacity_eq_false_iff]
  omega

end Agreement

end Limits

/-! ### A replica that is held during a restart -/

section Example

attribute [local instance] wholeFloats openAead

theorem one_lt_replicas : 1 < 2 ^ 32 := by decide

def replicaLimit : U32 := ⟨1, one_lt_replicas⟩

def oneReplica : Spec Settings :=
  { labSpec "start" with
    settings := { (labSpec "start").settings with maxReplicas := some replicaLimit } }

def labReplicaIn (state : ReplicaState) : Replica Nat := ⟨0, "lab".toList, state, 0, 0, 1⟩

theorem empty_pool_is_started :
    atCapacity ([] : Registry Nat) oneReplica = false ↔
      Spawns boxState ([] : Registry Nat) oneReplica := by
  have hrunnable : spawnOneRequest boxState oneReplica = .ok (labRequest "start") := by decide
  exact (atCapacity_agrees_iff hrunnable (fun r hr => by cases hr)).mpr (by decide)

theorem stopped_replica_is_promised :
    (labReplicaIn .stopped).isAccepting = false ∧
      atCapacity [labReplicaIn .stopped] oneReplica = false ∧
      ensureReplicaAvailable boxState [labReplicaIn .stopped] oneReplica = .ok none ∧
      ¬ Spawns boxState [labReplicaIn .stopped] oneReplica := by
  have hrefused : ensureReplicaAvailable boxState [labReplicaIn .stopped] oneReplica = .ok none := by
    decide
  refine ⟨rfl, by decide, hrefused, ?_⟩
  rintro ⟨req, hreq⟩
  cases hrefused.symm.trans hreq

end Example

end Ruscker.Proxy.Splash
