import Ruscker.Docker.MultiHost

/-!
# The cap of a host

A spawn takes its host by the map of placements, reads it one shard after another, and writes its
own entry when the container is up.  Listings write and prune the same map from what the hosts
answered before.
-/

namespace Ruscker.Docker

open Tables Machines Machines.Machine

namespace Capped

variable {ι γ α : Type*}

/-! ## Choosing a host -/

structure HostLoad where
  count : Nat
  max : Option U32
  weight : U32
  runsSpec : Bool

namespace HostLoad

def isEligible (l : HostLoad) : Bool := l.max.all fun m => l.count < m.val

/-- `Spread`: less for its weight. -/
def isLighter (a b : HostLoad) : Bool :=
  a.count * Nat.max b.weight.val 1 < b.count * Nat.max a.weight.val 1

/-- `BinPack`. -/
def isFuller (a b : HostLoad) : Bool := b.count < a.count

end HostLoad

/-- The first of the best in a pool. -/
def bestOf (better : HostLoad → HostLoad → Bool) : List (HostLoad × Nat) → Option (HostLoad × Nat)
  | [] => none
  | first :: rest => some (rest.foldl (fun best next => if better next.1 best.1 then next else best)
      first)

def chooseHost (loads : List HostLoad) (placement : Placement) (antiAffinity : Bool) : Option Nat :=
  let eligible := loads.zipIdx.filter fun l => l.1.isEligible
  let free := eligible.filter fun l => !l.1.runsSpec
  let pool := if antiAffinity && !free.isEmpty then free else eligible
  let better := match placement with
    | .spread => HostLoad.isLighter
    | .binPack => HostLoad.isFuller
  (bestOf better pool).map Prod.snd

/-- Of the hosts with one id, `pick_host` counts for the last. -/
def idxOf (hosts : List (HostEntry γ)) (id : Str) : Option Nat :=
  (hosts.zipIdx.reverse.find? fun h => h.1.id = id).map Prod.snd

/-- How many of the entries are counted for a host. -/
def counted (hosts : List (HostEntry γ)) (seen : List (Str × Str)) (i : Nat) : Nat :=
  seen.countP fun place => idxOf hosts place.1 = some i

def loads (hosts : List (HostEntry γ)) (seen : List (Str × Str)) (specId : Str) : List HostLoad :=
  hosts.mapIdx fun i h =>
    { count := counted hosts seen i
      max := h.maxContainers
      weight := h.weight
      runsSpec := seen.any fun place => idxOf hosts place.1 = some i && place.2 = specId }

def pickHost [Floats] (hosts : List (HostEntry γ)) (seen : List (Str × Str)) (req : SpawnRequest) :
    Option Nat :=
  chooseHost (loads hosts seen req.specId) req.placement req.antiAffinity

/-! ## The calls under way -/

/-- The shards of the map; a loop over it locks one after the other. -/
structure Shards (ι : Type*) where
  count : Nat
  of : ι → Fin count

inductive Task (ι γ α : Type*) [Floats] where
  -- `pick_host`, with the entries it has read
  | picking (spec : Spec Settings) (req : SpawnRequest) (shard : Nat) (seen : List (Str × Str))
  | spawning (spec : Spec Settings) (req : SpawnRequest) (host : Nat) (id : ι) (phase : Phase ι γ α)
  -- `stop`, at the host of the replica or on the walk over all
  | finding (id : ι) (host : Nat) (walk : Bool)
  | killing (id : ι) (host : Nat) (walk : Bool) (container : γ)
  | forgetting (id : ι)
  -- `list` and `replica_liveness`, with the answer of each host so far
  | asking (slots : List (Option (Option (List (ι × Str)))))
  | tagging (todo : List (ι × Str × Str)) (live : List ι) (failed : List Str)
  | pruning (shard : Nat) (live : List ι) (failed : List Str)
  | done

structure State (ι γ α : Type*) [Floats] where
  cl : Cluster ι γ
  tasks : List (Task ι γ α)

/-- What the outside contributes to a step. -/
structure Outside (ι γ α : Type*) where
  -- the id of a new replica
  id : ι
  -- what the daemon says to a spawn, and whether it does what else it is asked
  reply : Reply γ α
  serves : Bool
  -- the host whose list arrives
  host : Nat
  resolve : U16 → Option α
  now : Nat

inductive Event (ι γ α : Type*) [Floats] where
  | spawn (spec : Spec Settings) (req : SpawnRequest)
  | stop (id : ι)
  | list
  | advance (task : Nat) (outside : Outside ι γ α)
  -- a container changes by itself
  | changes (host : Nat) (container : γ) (status : Str) (state : Option ContainerState)
      (ports : List (U16 × Option U16)) (finishedAt : Option Int)

section Steps

variable [Floats] [Uuid ι] [DecidableEq ι] [DecidableEq γ]

/-- Rewrite the containers of one host. -/
def onHost (cl : Cluster ι γ) (i : Nat) (f : List (Container γ) → List (Container γ)) :
    Cluster ι γ :=
  { cl with hosts := cl.hosts.modify i fun h => { h with containers := f h.containers } }

def newContainer (req : SpawnRequest) (id : ι) (c : γ) (now : Nat) : Container γ where
  id := c
  name := "ruscker-".toList ++ req.specId ++ ['-'] ++ (Uuid.text id).take 8
  image := req.image
  labels := spawnLabels req id
  status := []
  state := some .created
  ports := []
  created := some now
  finishedAt := none

/-- The containers of the host of a spawn once its daemon has served the request. -/
def servedAt (req : SpawnRequest) (id : ι) (o : Outside ι γ α) (p : Phase ι γ α)
    (containers : List (Container γ)) : List (Container γ) :=
  match p, o.reply with
  | .creating, .created c => newContainer req id c o.now :: containers
  | .removing c _ _, .ok => containers.filter fun d => d.id ≠ c
  | _, _ => containers

/-- After a host could not stop the replica. -/
def afterMiss (cl : Cluster ι γ) (id : ι) (host : Nat) (walk : Bool) : Task ι γ α :=
  if walk && decide (host + 1 < cl.hosts.length) then .finding id (host + 1) true
  else .forgetting id

/-- The entries a shard of the map holds. -/
def readShard (shards : Shards ι) (cl : Cluster ι γ) (k : Nat) : List (Str × Str) :=
  (cl.placement.entries.filter fun e => (shards.of e.1).val = k).map fun e => e.2

/-- `retain_confirmed_or_unknown_placements` on one shard. -/
def pruneShard (shards : Shards ι) (cl : Cluster ι γ) (k : Nat) (live : List ι)
    (failed : List Str) : Cluster ι γ :=
  { cl with placement := cl.placement.retain fun id place =>
      (shards.of id).val ≠ k || live.contains id || failed.contains place.1 }

/-- The answers, once all of them are there. -/
def afterAsking (cl : Cluster ι γ) (answers : List (Option (List (ι × Str)))) : Task ι γ α :=
  let slots := cl.hosts.zip answers
  let reported := slots.filterMap fun slot => slot.2.map fun rows => (slot.1.id, rows)
  let failed := (slots.filter fun slot => slot.2.isNone).map fun slot => slot.1.id
  if reported.isEmpty then .done
  else .tagging (reported.flatMap fun host => host.2.map fun row => (row.1, host.1, row.2))
    (reported.flatMap fun host => host.2.map Prod.fst) failed

/-- What one host answers to a list: the replicas its containers tell of. -/
def answerOf (h : HostEntry γ) (o : Outside ι γ α) : Option (List (ι × Str)) :=
  if o.serves then
    some ((Docker.list h.containers o.resolve o.now : List (Hosted ι γ α)).map fun row =>
      (row.id, row.specId))
  else none

/-- One step of a call, with what it does to the cluster. -/
def advance (shards : Shards ι) (cl : Cluster ι γ) (o : Outside ι γ α) :
    Task ι γ α → Option (Cluster ι γ × Task ι γ α)
  | .picking spec req k seen =>
    if k < shards.count then some (cl, .picking spec req (k + 1) (seen ++ readShard shards cl k))
    else some (cl, match pickHost cl.hosts seen req with
      | some i => .spawning spec req i o.id .inspectingImage
      | none => .done)
  | .spawning _ req i id (.inserting _ _ _) =>
    some ({ cl with placement := (cl.hosts[i]?).elim cl.placement fun h =>
      cl.placement.insert id (h.id, req.specId) }, .done)
  | .spawning _ _ _ _ (.ended _) => some (cl, .done)
  | .spawning spec req i id p =>
    (next spec req id p o.reply).map fun q =>
      (onHost cl i (servedAt req id o p), .spawning spec req i id q)
  | .finding id i walk =>
    some (cl, match cl.hosts[i]? with
      | none => .forgetting id
      | some h =>
        if o.serves then
          match h.containers.find? fun c => c.carries id with
          | none => .forgetting id
          | some c => .killing id i walk c.id
        else afterMiss cl id i walk)
  | .killing id i walk c =>
    -- the removal fails, too, where the container is gone by then
    if o.serves && (cl.hosts[i]?).any fun h => h.containers.any fun d => d.id = c then
      some (onHost cl i fun containers => containers.filter fun d => d.id ≠ c, .forgetting id)
    else some (cl, afterMiss cl id i walk)
  | .forgetting id => some ({ cl with placement := cl.placement.erase id }, .done)
  | .asking slots =>
    match slots[o.host]?, cl.hosts[o.host]? with
    | some none, some h => some (cl, .asking (slots.set o.host (some (answerOf h o))))
    | _, _ => if slots.all Option.isSome then some (cl, afterAsking cl slots.reduceOption) else none
  | .tagging [] live failed => some (cl, .pruning 0 live failed)
  | .tagging ((id, place) :: todo) live failed =>
    some ({ cl with placement := cl.placement.insert id place }, .tagging todo live failed)
  | .pruning k live failed =>
    if k < shards.count then
      some (pruneShard shards cl k live failed, .pruning (k + 1) live failed)
    else some (cl, .done)
  | .done => none

/-- The first step of `stop`. -/
def startStop (cl : Cluster ι γ) (id : ι) : Task ι γ α :=
  match cl.placed id with
  | some i => .finding id i false
  | none => .finding id 0 true

def machine (shards : Shards ι) : Machine (State ι γ α) (Event ι γ α) where
  step s
    | .spawn spec req => some { s with tasks := s.tasks ++ [.picking spec req 0 []] }
    | .stop id => some { s with tasks := s.tasks ++ [startStop s.cl id] }
    | .list => some { s with tasks := s.tasks ++ [.asking (s.cl.hosts.map fun _ => none)] }
    | .advance i o => (s.tasks[i]?).bind fun t =>
        (advance shards s.cl o t).map fun (cl, t') => ⟨cl, s.tasks.set i t'⟩
    | .changes i c status state ports finishedAt =>
      some { s with cl := onHost s.cl i fun containers => containers.map fun d =>
        if d.id = c then { d with status, state, ports, finishedAt } else d }

end Steps

/-! ## Containers, and spawns on their way -/

section Loads

variable (cl : Cluster ι γ) (i : Nat)

def capOf : Option U32 := (cl.hosts[i]?).bind HostEntry.maxContainers

def size : Nat := (cl.hosts[i]?).elim 0 fun h => h.containers.length

/-- A spawn that has its host and no container yet. -/
def Task.isBoundFor [Floats] : Task ι γ α → Bool
  | .spawning _ _ j _ p => j = i && p.container.isNone && !p.hasEnded
  | _ => false

/-- What a host has and what is on its way to it. -/
def State.load [Floats] (s : State ι γ α) : Nat := size s.cl i + s.tasks.countP (Task.isBoundFor i)

variable [Floats]

/-- The host a spawn is about to take, and what it has counted for it. -/
def choice (shards : Shards ι) (s : State ι γ α) : Event ι γ α → Option (Nat × Nat)
  | .advance i _ =>
    match s.tasks[i]? with
    | some (.picking _ req k seen) =>
      if k < shards.count then none
      else (pickHost s.cl.hosts seen req).map fun i => (i, counted s.cl.hosts seen i)
    | _ => none
  | _ => none

/-- A spawn that takes a host with a cap has read an entry for each of its containers and for
each spawn on its way there. -/
def Accounted (shards : Shards ι) (s : State ι γ α) (e : Event ι γ α) : Prop :=
  ∀ taken ∈ choice shards s e, (capOf s.cl taken.1).isSome → s.load taken.1 ≤ taken.2

instance (shards : Shards ι) (s : State ι γ α) (e : Event ι γ α) :
    Decidable (Accounted shards s e) :=
  inferInstanceAs (Decidable (∀ taken ∈ choice shards s e,
    (capOf s.cl taken.1).isSome → s.load taken.1 ≤ taken.2))

def Within (s : State ι γ α) : Prop := ∀ i m, capOf s.cl i = some m → s.load i ≤ m.val

end Loads

/-! ### The choice -/

section Choice

variable {placement : Placement} {antiAffinity : Bool} {i : Nat}

theorem bestOf_mem {better : HostLoad → HostLoad → Bool} {pool : List (HostLoad × Nat)}
    {best : HostLoad × Nat} (h : bestOf better pool = some best) : best ∈ pool := by
  cases pool with
  | nil => cases h
  | cons first rest =>
    cases h
    have hfold : ∀ first : HostLoad × Nat, rest.foldl
        (fun best next => if better next.1 best.1 then next else best) first ∈ first :: rest := by
      induction rest with
      | nil => exact fun first => List.mem_singleton_self first
      | cons next rest ih =>
        intro first
        rw [List.foldl_cons]
        split
        · exact List.mem_cons_of_mem first (ih next)
        · rcases List.mem_cons.mp (ih first) with heq | hmem
          · rw [heq]
            exact List.mem_cons_self
          · exact List.mem_cons_of_mem first (List.mem_cons_of_mem next hmem)
    exact hfold first

/-- A host that is chosen has room by its load. -/
theorem eligible_of_chooseHost {loads : List HostLoad}
    (h : chooseHost loads placement antiAffinity = some i) :
    ∃ l, loads[i]? = some l ∧ l.isEligible = true := by
  obtain ⟨⟨l, j⟩, hbest, rfl⟩ := Option.map_eq_some_iff.mp h
  have hpool := bestOf_mem hbest
  have heligible : (l, j) ∈ loads.zipIdx.filter fun l => l.1.isEligible := by
    split at hpool
    · exact (List.mem_filter.mp hpool).1
    · exact hpool
  obtain ⟨hmem, hl⟩ := List.mem_filter.mp heligible
  exact ⟨l, List.mk_mem_zipIdx_iff_getElem?.mp hmem, hl⟩

/-- `pick_host` counts fewer entries for the host it takes than the cap allows. -/
theorem counted_lt_of_pickHost [Floats] {cl : Cluster ι γ} {seen : List (Str × Str)}
    {req : SpawnRequest} {m : U32} (h : pickHost cl.hosts seen req = some i)
    (hcap : capOf cl i = some m) : counted cl.hosts seen i < m.val := by
  obtain ⟨l, hl, heligible⟩ := eligible_of_chooseHost h
  rw [loads, List.getElem?_mapIdx] at hl
  obtain ⟨entry, hentry, rfl⟩ := Option.map_eq_some_iff.mp hl
  rw [capOf, hentry, Option.bind_some] at hcap
  simpa [HostLoad.isEligible, hcap] using heligible

end Choice

/-! ### One step of a call -/

section Step

variable {cl cl' : Cluster ι γ} {i j n : Nat}

theorem capOf_onHost (f : List (Container γ) → List (Container γ)) :
    capOf (onHost cl i f) j = capOf cl j := by
  unfold capOf onHost
  rw [List.getElem?_modify]
  cases cl.hosts[j]? with
  | none => rfl
  | some h =>
    by_cases hij : i = j
    · simp [hij]
    · simp [hij]

theorem size_onHost_le {f : List (Container γ) → List (Container γ)}
    (hf : ∀ l, (f l).length ≤ l.length + n) :
    size (onHost cl i f) j ≤ size cl j + if i = j then n else 0 := by
  unfold size onHost
  rw [List.getElem?_modify]
  cases cl.hosts[j]? with
  | none => simp
  | some h =>
    by_cases hij : i = j
    · simpa [hij] using hf h.containers
    · simp [hij]

variable [Floats] {t t' : Task ι γ α}

/-- A step that brings no container and no spawn to any host. -/
structure Calm (cl cl' : Cluster ι γ) (t t' : Task ι γ α) : Prop where
  cap : ∀ i, capOf cl' i = capOf cl i
  load : ∀ i, size cl' i + (if t'.isBoundFor i then 1 else 0) ≤
    size cl i + if t.isBoundFor i then 1 else 0

/-- Only the map changes, or nothing does, and the call is not bound for a host after it. -/
theorem Calm.of_hosts (hhosts : cl'.hosts = cl.hosts) (ht' : ∀ i, t'.isBoundFor i = false) :
    Calm cl cl' t t' where
  cap i := by rw [capOf, capOf, hhosts]
  load i := by
    rw [size, size, hhosts, ht']
    exact Nat.le_add_right _ _

/-- A removal. -/
theorem Calm.of_onHost {f : List (Container γ) → List (Container γ)}
    (hf : ∀ l, (f l).length ≤ l.length) (ht' : ∀ i, t'.isBoundFor i = false) :
    Calm cl (onHost cl i f) t t' where
  cap _ := capOf_onHost f
  load j := by
    have hsize : size (onHost cl i f) j ≤ size cl j + if i = j then 0 else 0 :=
      size_onHost_le hf
    rw [ht']
    simp only [ite_self, Nat.add_zero] at hsize
    simp only [Bool.false_eq_true, if_false]
    omega

theorem not_bound_afterMiss {id : ι} (walk : Bool) :
    (afterMiss cl id i walk : Task ι γ α).isBoundFor j = false := by
  unfold afterMiss
  split <;> rfl

theorem not_bound_startStop [DecidableEq ι] {id : ι} :
    (startStop cl id : Task ι γ α).isBoundFor j = false := by
  unfold startStop
  split <;> rfl

theorem not_bound_afterAsking (answers : List (Option (List (ι × Str)))) :
    (afterAsking cl answers : Task ι γ α).isBoundFor j = false := by
  unfold afterAsking
  dsimp only
  split <;> rfl

variable [Uuid ι] [DecidableEq γ] {spec : Spec Settings} {req : SpawnRequest} {id : ι}
  {o : Outside ι γ α} {p q : Phase ι γ α}

/-- The container of a spawn comes when its daemon makes it, and the spawn was on its way. -/
theorem Calm.spawning (h : next spec req id p o.reply = some q)
    (hinserting : ∀ c upstream startedAt, p ≠ .inserting c upstream startedAt) :
    Calm cl (onHost cl i (servedAt req id o p)) (.spawning spec req i id p)
      (.spawning spec req i id q) where
  cap _ := capOf_onHost _
  load j := by
    rcases next_cases h with ⟨c, rfl, hr, rfl⟩ | ⟨c, upstream, startedAt, rfl, -⟩ |
      ⟨c, failure, log, rfl, -, rfl⟩ | hkeeps
    · have hsize : size (onHost cl i (servedAt req id o .creating)) j ≤
          size cl j + if i = j then 1 else 0 := by
        refine size_onHost_le fun l => ?_
        simp [servedAt, hr]
      by_cases hij : i = j
      · simp_all [Task.isBoundFor, Phase.container, Phase.hasEnded]
      · simp_all [Task.isBoundFor, Phase.container, Phase.hasEnded]
    · exact absurd rfl (hinserting c upstream startedAt)
    · have hsize : size (onHost cl i (servedAt req id o (.removing c failure log))) j ≤
          size cl j + if i = j then 0 else 0 := by
        refine size_onHost_le fun l => ?_
        unfold servedAt
        split
        · next hp _ => cases hp
        · exact List.length_filter_le _ l
        · exact Nat.le_refl _
      simp only [ite_self, Nat.add_zero] at hsize
      simp only [Task.isBoundFor, Phase.hasEnded, Bool.not_true, Bool.and_false,
        Bool.false_eq_true, if_false]
      omega
    · have hsize : size (onHost cl i (servedAt req id o p)) j ≤
          size cl j + if i = j then 0 else 0 := by
        refine size_onHost_le fun l => ?_
        unfold servedAt
        split
        · next c hcreated => exact absurd hcreated (hkeeps.uncreated rfl c)
        · exact List.length_filter_le _ l
        · exact Nat.le_refl _
      have hlive : p.hasEnded = false := by
        cases p with
        | ended outcome => cases o.reply <;> cases h
        | _ => rfl
      have hbound : (Task.spawning spec req i id q).isBoundFor j = true →
          (Task.spawning spec req i id p).isBoundFor j = true := by
        simp only [Task.isBoundFor, hkeeps.container, hlive, Bool.and_eq_true, decide_eq_true_eq,
          Bool.not_false, and_true]
        exact And.left
      simp only [ite_self, Nat.add_zero] at hsize
      split
      · next hq =>
        rw [if_pos (hbound hq)]
        omega
      · omega

/-- A call that takes a host for its spawn, or a calm step. -/
theorem advance_cases [DecidableEq ι] {shards : Shards ι}
    (h : advance shards cl o t = some (cl', t')) :
    Calm cl cl' t t' ∨
    ∃ spec req k seen i, t = .picking spec req k seen ∧ ¬ k < shards.count ∧
      pickHost cl.hosts seen req = some i ∧ cl' = cl ∧
      t' = .spawning spec req i o.id .inspectingImage := by
  unfold advance at h
  split at h
  · next spec req k seen =>
    split at h
    · cases h
      exact .inl (.of_hosts rfl fun _ => rfl)
    · next hk =>
      cases hpick : pickHost cl.hosts seen req with
      | none =>
        rw [hpick] at h
        cases h
        exact .inl (.of_hosts rfl fun _ => rfl)
      | some i =>
        rw [hpick] at h
        cases h
        exact .inr ⟨spec, req, k, seen, i, rfl, hk, hpick, rfl, rfl⟩
  · cases h
    exact .inl (.of_hosts rfl fun _ => rfl)
  · cases h
    exact .inl (.of_hosts rfl fun _ => rfl)
  · next hinserting hended =>
    obtain ⟨q, hnext, heq⟩ := Option.map_eq_some_iff.mp h
    cases heq
    exact .inl (.spawning hnext hinserting)
  · next id i walk =>
    refine .inl ?_
    split at h
    · cases h
      exact .of_hosts rfl fun _ => rfl
    · split at h
      · split at h
        · cases h
          exact .of_hosts rfl fun _ => rfl
        · cases h
          exact .of_hosts rfl fun _ => rfl
      · cases h
        exact .of_hosts rfl fun _ => not_bound_afterMiss walk
  · next id i walk c =>
    refine .inl ?_
    split at h
    · cases h
      exact .of_onHost (fun l => List.length_filter_le _ l) fun _ => rfl
    · cases h
      exact .of_hosts rfl fun _ => not_bound_afterMiss walk
  · cases h
    exact .inl (.of_hosts rfl fun _ => rfl)
  · refine .inl ?_
    split at h
    · cases h
      exact .of_hosts rfl fun _ => rfl
    · split at h
      · cases h
        exact .of_hosts rfl fun _ => not_bound_afterAsking _
      · cases h
  · cases h
    exact .inl (.of_hosts rfl fun _ => rfl)
  · cases h
    exact .inl (.of_hosts rfl fun _ => rfl)
  · split at h
    · cases h
      exact .inl (.of_hosts rfl fun _ => rfl)
    · cases h
      exact .inl (.of_hosts rfl fun _ => rfl)
  · cases h

end Step

/-! ### Runs -/

section Runs

variable [Floats] {shards : Shards ι} {s s' t : State ι γ α} {e : Event ι γ α}
  {es : List (Event ι γ α)}

/-- A new call is not on its way to a host. -/
theorem load_start {new : Task ι γ α} {i : Nat} (hnew : new.isBoundFor i = false) :
    State.load i { s with tasks := s.tasks ++ [new] } = s.load i := by
  unfold State.load
  rw [List.countP_append, List.countP_singleton, hnew]
  simp

/-- A call's step changes the load of a host by what its own share changes. -/
theorem load_set {i k : Nat} {p : Task ι γ α} (hp : s.tasks[k]? = some p)
    (cl' : Cluster ι γ) (q : Task ι γ α) :
    State.load i ⟨cl', s.tasks.set k q⟩ + (size s.cl i + if p.isBoundFor i then 1 else 0) =
      s.load i + (size cl' i + if q.isBoundFor i then 1 else 0) := by
  have hcount := countP_set_add (p := Task.isBoundFor i) (b := q) hp
  unfold State.load
  dsimp only
  omega

variable [Uuid ι] [DecidableEq ι] [DecidableEq γ]

/-- **Step lemma.** An accounted step keeps every host within its cap. -/
theorem Within.step (hs : Within s) (hok : Accounted shards s e)
    (hstep : (machine shards).step s e = some s') : Within s' := by
  cases e with
  | spawn spec req =>
    cases hstep
    intro i m hm
    exact (load_start rfl).trans_le (hs i m hm)
  | stop id =>
    cases hstep
    intro i m hm
    exact (load_start not_bound_startStop).trans_le (hs i m hm)
  | list =>
    cases hstep
    intro i m hm
    exact (load_start rfl).trans_le (hs i m hm)
  | changes host c status state ports finishedAt =>
    cases hstep
    intro i m hm
    rw [capOf_onHost] at hm
    have hsize : size (onHost s.cl host fun containers => containers.map fun d =>
        if d.id = c then { d with status, state, ports, finishedAt } else d) i ≤
        size s.cl i + if host = i then 0 else 0 := size_onHost_le fun l => by simp
    have hload := hs i m hm
    unfold State.load at hload ⊢
    simp only [ite_self, Nat.add_zero] at hsize
    dsimp only
    omega
  | advance k o =>
    obtain ⟨p, hp, hstep⟩ := Option.bind_eq_some_iff.mp hstep
    obtain ⟨⟨cl', q⟩, hadvance, hstep⟩ := Option.map_eq_some_iff.mp hstep
    cases hstep
    intro i m hm
    have hset := load_set (i := i) hp cl' q
    change State.load i ⟨cl', s.tasks.set k q⟩ ≤ m.val
    rcases advance_cases hadvance with
      hcalm | ⟨spec, req, shard, seen, j, rfl, hend, hpick, rfl, rfl⟩
    · have hload := hs i m ((hcalm.cap i).symm.trans hm)
      have hcalm := hcalm.load i
      omega
    · have hload := hs i m hm
      by_cases hij : j = i
      · -- the entries it counted cover the host, and there are fewer of them than the cap
        subst hij
        have hchoice : choice shards s (.advance k o) =
            some (j, counted s.cl.hosts seen j) := by
          simp only [choice, hp, if_neg hend, hpick, Option.map_some]
        have hcovered : s.load j ≤ counted s.cl.hosts seen j := hok _ hchoice (by rw [hm]; rfl)
        have hroom := counted_lt_of_pickHost hpick hm
        have hone : (if (Task.spawning spec req j o.id .inspectingImage : Task ι γ α).isBoundFor j
          then 1 else 0) ≤ 1 := by split <;> decide
        omega
      · have hother : (Task.spawning spec req j o.id .inspectingImage : Task ι γ α).isBoundFor i =
            false := by simp [Task.isBoundFor, hij]
        rw [hother] at hset
        simp only [Task.isBoundFor, Bool.false_eq_true, if_false] at hset
        omega

/-- No call yet. -/
def booted (hosts : List (HostEntry γ)) : State ι γ α := ⟨⟨hosts, ∅⟩, []⟩

/-- **Caps.** From hosts without containers, no host exceeds its cap while every spawn that takes a
host has read an entry for each container there and for each spawn on its way there. -/
theorem within_cap {hosts : List (HostEntry γ)} (hempty : ∀ h ∈ hosts, h.containers = [])
    (hrun : (machine shards).Run (Accounted shards) (booted hosts) es t) {i : Nat}
    {h : HostEntry γ} {m : U32} (hh : t.cl.hosts[i]? = some h) (hm : h.maxContainers = some m) :
    h.containers.length ≤ m.val := by
  have hstart : Within (booted hosts : State ι γ α) := by
    intro j cap hcap
    obtain ⟨entry, hentry, -⟩ := Option.bind_eq_some_iff.mp hcap
    have hnone := hempty entry (List.mem_of_getElem? hentry)
    have hzero : (booted hosts : State ι γ α).load j = 0 := by
      simp only [State.load, size, booted]
      rw [show hosts[j]? = some entry from hentry]
      simp [hnone]
    rw [hzero]
    exact Nat.zero_le _
  have hwithin := hrun.invariant hstart fun s e s' hI hok hst => hI.step hok hst
  have hload := hwithin i m (by rw [capOf, hh, Option.bind_some, hm])
  have hsize : size t.cl i = h.containers.length := by rw [size, hh]; rfl
  unfold State.load at hload
  omega

end Runs

/-! ### One host for one container -/

section Example

attribute [local instance] wholeFloats

@[reducible] def bitUuid : Uuid Bool where
  text b := if b then ['1'] else ['0']
  parse s := if s = ['1'] then some true else if s = ['0'] then some false else none
  parse_text := by decide

attribute [local instance] bitUuid

def oneShard : Shards Bool := ⟨1, fun _ => ⟨0, Nat.one_pos⟩⟩

def smallHost : HostEntry Nat := ⟨"a".toList, some ⟨1, one_lt_u32⟩, ⟨1, one_lt_u32⟩, []⟩

def answering (id : Bool) (reply : Reply Nat Nat) : Outside Bool Nat Nat :=
  ⟨id, reply, true, 0, some ∘ Fin.val, 0⟩

/-- Reading the map and taking a host. -/
def picks (task : Nat) (id : Bool) : List (Event Bool Nat Nat) :=
  [.spawn labSpec labRequest, .advance task (answering id .ok), .advance task (answering id .ok)]

def creates (task : Nat) (id : Bool) (c : Nat) : List (Event Bool Nat Nat) :=
  [.ok, .created c].map fun reply => .advance task (answering id reply)

def settles (task : Nat) (id : Bool) : List (Event Bool Nat Nat) :=
  [.ok, .inspected (some (some "32768".toList)) (some (some 32768)), .ok, .serving 0, .ok].map
    fun reply => .advance task (answering id reply)

/-- The second spawn comes when the first is on the map. -/
def inTurn : List (Event Bool Nat Nat) :=
  picks 0 false ++ creates 0 false 7 ++ settles 0 false ++ picks 1 true

theorem within_cap_inTurn : ∃ h, (((machine oneShard).execIf (Accounted oneShard)
    (booted [smallHost]) inTurn).bind fun s => s.cl.hosts[0]?) = some h ∧
      h.containers.map Container.id = [7] ∧ h.containers.length ≤ 1 := by
  have hsome : ((machine oneShard).execIf (Accounted oneShard)
      (booted [smallHost]) inTurn).isSome = true := by decide
  have hrun := run_execIf hsome
  refine ⟨_, rfl, by decide, ?_⟩
  exact within_cap (by decide) hrun (i := 0) rfl rfl

/-- Two spawns that read the map before either is on it. -/
def together : List (Event Bool Nat Nat) :=
  picks 0 false ++ picks 1 true ++ creates 0 false 7 ++ creates 1 true 8

theorem together_exceeds : ∃ h, (((machine oneShard).exec (booted [smallHost]) together).bind
    fun s => s.cl.hosts[0]?) = some h ∧ h.maxContainers = some ⟨1, one_lt_u32⟩ ∧
      h.containers.map Container.id = [8, 7] := by
  exact ⟨_, rfl, rfl, rfl⟩

end Example

end Capped

end Ruscker.Docker
