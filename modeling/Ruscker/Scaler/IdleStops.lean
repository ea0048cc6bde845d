import Ruscker.Proxy.Moves

/-!
# Replicas stopped as idle

A tick of the scaler reads the rows of a spec, chooses which of them to stop, and stops them one
after another.  Between the reading and the removal of a row lies at least one call of the
backend, and a visitor may come to the replica meanwhile, since its row is still ready.
-/

namespace Ruscker.Scaler.IdleStops

open Tables Machines Machines.Machine Proxy.Calls

variable {ι κ : Type*}

/-! ## What a tick decides on -/

/-- The arguments of `tick_with_interval`, and whether the pool utilization of so many active
sessions on so many seats is above or below a threshold. -/
structure Scaling [Floats] where
  dropAfterTicks : Nat
  spawnAfterSaturatedTicks : Nat
  defaultCooldownTicks : Option Nat
  intervalSecs : Nat
  above : (active seats : Nat) → F64 → Bool
  below : (active seats : Nat) → F64 → Bool

def graceSecsToTicks (secs intervalSecs : Nat) : Nat :=
  let iv := max intervalSecs 1
  min (max ((secs + iv - 1) / iv) 1) u32Max

def cooldownSecsToTicks (secs intervalSecs : Nat) : Nat :=
  if secs = 0 then 0 else graceSecsToTicks secs intervalSecs

section Decisions

variable [Floats] (scaling : Scaling) (settings : Settings) (snap : List (Replica ι)) (now : Nat)

def cooldownTicksForSpec : Nat :=
  match settings.scaleDownCooldownSecs with
  | some secs => cooldownSecsToTicks secs.val scaling.intervalSecs
  | none => scaling.defaultCooldownTicks.getD
      (cooldownSecsToTicks settings.effectiveScaleDownCooldownSecs.val scaling.intervalSecs)

/-- The requests in flight stand in for the sessions of an API. -/
def overlayRequestCapacity (inflight : ι → Nat) : List (Replica ι) :=
  if settings.kind = .api then
    snap.map fun r => { r with
      sessionsActive := inflight r.id
      sessionsMax := settings.effectiveConcurrentRequestsPerReplica.val }
  else snap

def ageSecs (r : Replica ι) : Int := ((now : Int) - r.startedAt).tdiv 1000

def pastHardCap (r : Replica ι) : Bool :=
  settings.effectiveMaxLifetimeSecs.any fun cap =>
    decide ((if r.sessionsActive = 0 then cap
      else saturateI64 (cap + settings.effectiveDrainTimeoutSecs)) ≤ ageSecs now r)

def pastSoftCap (r : Replica ι) : Bool :=
  settings.effectiveContainerLifetimeSecs.any fun cap =>
    decide (cap ≤ ageSecs now r) && decide (r.sessionsActive = 0)

def lifetimeReapCandidates : List (Replica ι) :=
  snap.filter fun r => pastHardCap settings now r || pastSoftCap settings now r

def allSaturated : Bool := !snap.isEmpty && snap.all fun r => r.availableSeats = 0

def scaleUpTriggered : Bool :=
  match settings.scaleUpThreshold with
  | some t => !snap.isEmpty &&
      scaling.above (snap.map Replica.sessionsActive).sum (snap.map Replica.sessionsMax).sum t
  | none => allSaturated snap

/-- Idle for long enough, as many as the pool can do without. -/
def dropCandidates (idleTicks : ι → Nat) : List (Replica ι) :=
  let dropAfter := settings.scaleDownGrace.elim scaling.dropAfterTicks fun secs =>
    graceSecsToTicks secs.val 10
  let underutilized := settings.scaleDownThreshold.elim true
    (scaling.below (snap.map Replica.sessionsActive).sum (snap.map Replica.sessionsMax).sum)
  if underutilized then
    (snap.filter fun r => decide (r.sessionsActive = 0) && decide (dropAfter ≤ idleTicks r.id)).take
      (snap.length - settings.effectiveMinReplicas.val)
  else []

/-- What a tick does with a spec.  A replica to stop comes with whether it is stopped as idle. -/
inductive Verdict (ι : Type*) where
  | reap (aged : List (ι × Bool))
  | spawn (n : Nat)
  | hold (saturated : Nat)
  | drop (idle : List ι)

/-- The scale passes; `saturated` are the ticks the spec has been saturated for. -/
def scalePasses (idleTicks : ι → Nat) (saturated : Nat) (cooling : Bool) : Verdict ι :=
  let count := snap.length
  let min := settings.effectiveMinReplicas.val
  if count < min then .spawn (min - count)
  else if count < settings.effectiveMaxReplicas.val && scaleUpTriggered scaling settings snap then
    if cooling then .hold 0
    else if scaling.spawnAfterSaturatedTicks ≤ saturated + 1 then .spawn 1
    else .hold (saturated + 1)
  else if min < count then
    .drop ((dropCandidates scaling settings snap idleTicks).map Replica.id)
  else .drop []

/-- The lifetime reap, or else the scale passes. -/
def firstPass (idleTicks : ι → Nat) (saturated : Nat) (cooling : Bool) : Verdict ι :=
  match lifetimeReapCandidates settings snap now with
  | [] => scalePasses scaling settings snap idleTicks saturated cooling
  | aged => .reap (aged.map fun r => (r.id, pastSoftCap settings now r))

/-- The replicas that are stopped as idle. -/
def Verdict.idle : Verdict ι → List ι
  | .reap aged => (aged.filter fun v => v.2).map Prod.fst
  | .drop idle => idle
  | _ => []

end Decisions

/-- A replica that has just become ready is not counted as idle. -/
def updateIdleTicks [DecidableEq ι] (idleTicks : ι → Nat) (snap : List (Replica ι)) (now : Nat) :
    ι → Nat :=
  snap.foldl (fun ticks r => Function.update ticks r.id
      (if r.sessionsActive = 0 && decide (r.startedAt + 60000 ≤ now) then ticks r.id + 1 else 0))
    fun id => if snap.any fun r => r.id = id then idleTicks id else 0

/-! ## Ticks -/

/-- What comes after the stops. -/
inductive Sequel where
  | recount (cooling : Bool)
  | cool (stoppedAny : Bool)

def Sequel.note : Sequel → Bool → Sequel
  | .cool stoppedAny, stopped => .cool (stoppedAny || stopped)
  | sequel, _ => sequel

/-- Where the loop is with its spec.  The calls it waits for are those of `spawn_one` and of
`cleanup_replica_state`. -/
inductive Stage (ι : Type*) where
  | looking
  | recounting (cooling : Bool)
  | growing (left : Nat)
  | awaiting (call left : Nat)
  -- the backend is stopping the first of them
  | stopping (todo : List (ι × Bool)) (sequel : Sequel)
  | cleaning (call : Nat) (r : ι) (idle : Bool) (todo : List (ι × Bool)) (sequel : Sequel)

/-- The spec that the loop is at and those after it. -/
structure Tick (ι : Type*) where
  specs : List Str
  stage : Stage ι

structure State (ι κ : Type*) where
  base : Proxy.Calls.State ι κ
  idleTicks : ι → Nat
  saturationTicks : Str → Nat
  cooldown : Str → Nat
  tick : Option (Tick ι)

def boot (rows : Registry ι) : State ι κ :=
  ⟨Proxy.Calls.boot rows, fun _ => 0, fun _ => 0, fun _ => 0, none⟩

/-- The requests in flight at the replicas of an API, and whether a spawn or a stop succeeded. -/
structure Answer (ι : Type*) where
  inflight : ι → Nat
  ok : Bool

/-- The calls are those of requests, and of the liveness passes of the tick and of the watcher. -/
inductive Event (ι κ : Type*) where
  | call (e : Proxy.Calls.Event ι κ)
  | tick (specs : List Str)
  | scale (a : Answer ι)

section Steps

namespace State

variable (s : State ι κ) (spec : Str) (rest : List Str)

/-- On to the next spec. -/
def next : State ι κ := { s with tick := some ⟨rest, .looking⟩ }

def stay (stage : Stage ι) : State ι κ := { s with tick := some ⟨spec :: rest, stage⟩ }

/-- A call begins that the loop waits for. -/
def begin (p : Phase ι κ) (stage : Stage ι) : State ι κ :=
  { s with base := s.base.begin spec p, tick := some ⟨spec :: rest, stage⟩ }

def act (cooling : Bool) : Verdict ι → State ι κ
  | .reap aged => s.stay spec rest (.stopping aged (.recount cooling))
  | .spawn n => s.stay spec rest (.growing n)
  | .hold saturated =>
    { s with saturationTicks := Function.update s.saturationTicks spec saturated }.next rest
  | .drop idle =>
    { s with saturationTicks := Function.update s.saturationTicks spec 0 }.stay spec rest
      (.stopping (idle.map fun r => (r, true)) (.cool false))

end State

variable [Floats] (node : Node κ) (scaling : Scaling)

/-- The spec has containers to scale. -/
def isScaled (settings : Settings) : Bool :=
  !decide (settings.kind = .external) && settings.containerImage.isSome

/-- The rows of the spec as the passes see them. -/
def snapshot (s : State ι κ) (spec : Str) (a : Answer ι) : List (Replica ι) :=
  overlayRequestCapacity (node.settings spec) (s.base.replicas.replicasOf spec) a.inflight

/-- What the tick makes of the rows that it reads now, if it reads any. -/
def verdict (s : State ι κ) (a : Answer ι) : Option (Verdict ι) :=
  s.tick.bind fun t => match t.specs, t.stage with
    | spec :: _, .looking =>
      if isScaled (node.settings spec) then
        some (firstPass scaling (node.settings spec) (snapshot node s spec a) s.base.now s.idleTicks
          (s.saturationTicks spec) (decide (0 < s.cooldown spec)))
      else none
    | spec :: _, .recounting cooling =>
      some (scalePasses scaling (node.settings spec) (snapshot node s spec a) s.idleTicks
        (s.saturationTicks spec) cooling)
    | _, _ => none

variable [DecidableEq ι]

/-- The loop of the tick goes on. -/
def scale (s : State ι κ) (a : Answer ι) : Option (State ι κ) :=
  s.tick.bind fun t => match t.specs with
    | [] => some { s with tick := none }
    | spec :: rest => match t.stage with
      | .looking =>
        let cooled := { s with
          cooldown := Function.update s.cooldown spec (s.cooldown spec - 1) }
        match verdict node scaling s a with
        | some v => some (cooled.act spec rest (decide (0 < s.cooldown spec)) v)
        | none => some (s.next rest)
      | .recounting cooling => (verdict node scaling s a).map (s.act spec rest cooling)
      | .growing 0 =>
        some ({ s with
          saturationTicks := Function.update s.saturationTicks spec 0 }.next rest)
      | .growing (left + 1) =>
        some (s.begin spec rest (.queued .addCapacity) (.awaiting s.base.calls.length left))
      | .awaiting call left =>
        if s.base.hasEnded call then some (s.stay spec rest (.growing (if a.ok then left else 0)))
        else none
      | .stopping [] (.recount cooling) => some (s.stay spec rest (.recounting cooling))
      | .stopping [] (.cool stoppedAny) =>
        let ticks := cooldownTicksForSpec scaling (node.settings spec)
        some ({ s with
          cooldown := if stoppedAny && decide (0 < ticks) then
            Function.update s.cooldown spec ticks else s.cooldown }.next rest)
      | .stopping ((r, idle) :: todo) sequel =>
        some (s.begin spec rest (.removing r)
          (.cleaning s.base.calls.length r idle todo (sequel.note a.ok)))
      | .cleaning call r _ todo sequel =>
        if s.base.hasEnded call then
          some ({ s with idleTicks := Function.update s.idleTicks r 0 }.stay spec rest
            (.stopping todo sequel))
        else none

variable [DecidableEq κ]

def step (s : State ι κ) : Event ι κ → Option (State ι κ)
  | .call e => ((Proxy.Calls.machine node).step s.base e).map fun base => { s with base }
  | .tick specs =>
    if s.tick.isNone then
      some { s with
        idleTicks :=
          updateIdleTicks s.idleTicks (specs.flatMap s.base.replicas.replicasOf) s.base.now
        saturationTicks := fun spec => if specs.contains spec then s.saturationTicks spec else 0
        cooldown := fun spec => if specs.contains spec then s.cooldown spec else 0
        tick := some ⟨specs, .looking⟩ }
    else none
  | .scale a => scale node scaling s a

def machine : Machine (State ι κ) (Event ι κ) := ⟨step node scaling⟩

end Steps

/-! ## Replicas that are to be stopped as idle -/

/-- Chosen as idle, and its cleanup is not over. -/
def Stage.watched : Stage ι → List ι
  | .stopping todo _ => (todo.filter fun v => v.2).map Prod.fst
  | .cleaning _ r idle todo _ => (((r, idle) :: todo).filter fun v => v.2).map Prod.fst
  | _ => []

def State.watched (s : State ι κ) : List ι := s.tick.elim [] fun t => t.stage.watched

/-- The cleanup of a replica that was stopped as idle is under way as this call. -/
def State.cleansIdle (s : State ι κ) (call : Nat) (r : ι) : Prop :=
  ∃ specs todo sequel, s.tick = some ⟨specs, .cleaning call r true todo sequel⟩

theorem mem_watched_of_cleansIdle {s : State ι κ} {call : Nat} {r : ι} (h : s.cleansIdle call r) :
    r ∈ s.watched := by
  obtain ⟨specs, todo, sequel, htick⟩ := h
  rw [State.watched, htick]
  exact List.mem_cons_self

section Property

variable [DecidableEq ι] [DecidableEq κ]

/-- What the cleanup of a replica stopped as idle is about to take: a row that counts no session,
and no session. -/
def Harmless (s : State ι κ) : Prop :=
  ∀ call r c, s.cleansIdle call r → s.base.calls[call]? = some c → match c.phase with
    | .removing x => Unused s.base x
    | .purging _ found => ∀ sid ∈ found, s.base.sessions.lookup sid = none
    | _ => True

/-- No visitor is at the replica, and none is about to register a session there. -/
structure Unvisited (b : Proxy.Calls.State ι κ) (r : ι) : Prop where
  row : Unused b r
  sessions : bound b.sessions r = 0
  calls : ∀ c ∈ b.calls, c.phase.comesTo r = false

instance (b : Proxy.Calls.State ι κ) (r : ι) : Decidable (Unvisited b r) :=
  decidable_of_iff (Unused b r ∧ bound b.sessions r = 0 ∧ ∀ c ∈ b.calls, c.phase.comesTo r = false)
    ⟨fun ⟨hrow, hsessions, hcalls⟩ => ⟨hrow, hsessions, hcalls⟩,
      fun h => ⟨h.row, h.sessions, h.calls⟩⟩

variable [Floats] (node : Node κ) (scaling : Scaling)

/-- A replica is chosen as idle only while no visitor is there, and then no request is taken to
it; a replica the backend has just started is a new one. -/
def Undisturbed (s : State ι κ) : Event ι κ → Prop
  | .call (.advance i o) => ∀ c ∈ s.base.calls[i]?,
      (∀ r ∈ target node s.base c o, r ∉ s.watched) ∧
        ∀ x ∈ c.phase.added, (∀ y ∈ s.base.replicas, y.id ≠ x.id) ∧ x.id ∉ s.watched
  | .scale a => ∀ v ∈ verdict node scaling s a, ∀ r ∈ v.idle, Unvisited s.base r
  | _ => True

instance (s : State ι κ) (e : Event ι κ) : Decidable (Undisturbed node scaling s e) := by
  cases e with
  | call e =>
    cases e with
    | advance i o => exact inferInstanceAs (Decidable (∀ c ∈ s.base.calls[i]?,
        (∀ r ∈ target node s.base c o, r ∉ s.watched) ∧
          ∀ x ∈ c.phase.added, (∀ y ∈ s.base.replicas, y.id ≠ x.id) ∧ x.id ∉ s.watched))
    | _ => exact isTrue trivial
  | tick specs => exact isTrue trivial
  | scale a => exact inferInstanceAs (Decidable (∀ v ∈ verdict node scaling s a, ∀ r ∈ v.idle,
      Unvisited s.base r))

end Property

/-! ## Replicas without a visitor -/

section Unvisited

variable [DecidableEq ι] {b b' : Proxy.Calls.State ι κ} {i : Nat} {c : Call ι κ}
  {o : Outside ι κ} {r : ι}

namespace Unvisited

theorem start (h : Unvisited b r) {d : Call ι κ} (hd : d.phase.comesTo r = false) :
    Unvisited { b with calls := b.calls ++ [d] } r :=
  ⟨h.row, h.sessions, forall_mem_concat h.calls hd⟩

theorem drop (h : Unvisited b r) : Unvisited (b.goto i c .done) r :=
  ⟨h.row, h.sessions, forall_mem_set h.calls rfl⟩

theorem tick (h : Unvisited b r) (ms : Nat) : Unvisited { b with now := b.now + ms } r :=
  ⟨h.row, h.sessions, h.calls⟩

end Unvisited

variable [Floats] [DecidableEq κ] {node : Node κ}

theorem comesTo_of_canStart {spec : Str} {p : Phase ι κ} (h : b.canStart node spec p = true) :
    p.comesTo r = false := by
  cases p with
  | holding sid x seatReserved => cases h
  | counting x => cases h
  | _ => rfl

/-- The cleanup of a replica that has no session. -/
def Sheds (r : ι) : Phase ι κ → Prop
  | .removing x => x = r
  | .collecting x _ found | .purging x found => x = r ∧ found = []
  | .done => True
  | _ => False

theorem inShard_eq_nil (h : bound b.sessions r = 0) (k : Nat) :
    inShard node b.sessions k (fun e => e.replicaId = r) = [] := by
  rw [List.eq_nil_iff_forall_not_mem]
  intro v hv
  obtain ⟨e, he, -⟩ := List.mem_map.mp hv
  obtain ⟨hmem, hr⟩ := List.mem_filter.mp he
  have hreplica : e.2.replicaId = r := of_decide_eq_true (Bool.and_eq_true_iff.mp hr).2
  exact bound_eq_zero.mp h e.1 e.2 (AList.mem_lookup_iff.mpr hmem) hreplica

theorem Sheds.advance (h : Sheds r c.phase) (hbound : bound b.sessions r = 0)
    (hstep : advance node b i c o = some b') :
    ∃ q, b'.calls = b.calls.set i { c with phase := q } ∧ Sheds r q := by
  unfold Proxy.Calls.advance at hstep
  cases hphase : c.phase with
  | removing x =>
    simp only [hphase] at h hstep
    cases hstep
    exact ⟨_, rfl, h, rfl⟩
  | collecting x k found =>
    simp only [hphase] at h hstep
    obtain ⟨rfl, rfl⟩ := h
    cases hstep
    refine ⟨_, rfl, ?_⟩
    split
    · exact ⟨rfl, by rw [inShard_eq_nil hbound, List.map_nil, List.append_nil]⟩
    · exact ⟨rfl, rfl⟩
  | purging x found =>
    simp only [hphase] at h hstep
    obtain ⟨rfl, rfl⟩ := h
    cases hstep
    exact ⟨_, rfl, trivial⟩
  | done =>
    simp only [hphase] at hstep
    cases hstep
  | _ =>
    rw [hphase] at h
    cases h

namespace Unvisited

theorem advance (h : Unvisited b r) (hcoherent : Coherent node b) (hc : b.calls[i]? = some c)
    (hstep : advance node b i c o = some b') (htarget : target node b c o ≠ some r)
    (hnew : ∀ x ∈ c.phase.added, x.id ≠ r) : Unvisited b' r := by
  have hcomes := h.calls c (List.mem_of_getElem? hc)
  refine ⟨h.row.advance hcoherent hc hstep htarget hcomes hnew, ?_, ?_⟩
  · have hle := bound_advance_le hc hstep hcomes
    rw [h.sessions] at hle
    exact Nat.le_zero.mp hle
  · obtain ⟨q, hcalls, hleads⟩ := calls_of_advance hstep
    rw [hcalls]
    refine forall_mem_set h.calls ?_
    by_contra hq
    rcases hleads.comes r (Bool.not_eq_false _ ▸ hq) with hold | hnew
    · rw [hcomes] at hold
      cases hold
    · exact htarget hnew

end Unvisited

end Unvisited

/-! ## Runs -/

section Runs

variable [Floats] [DecidableEq ι] [DecidableEq κ] {node : Node κ} {scaling : Scaling}
  {s s' : State ι κ} {i : Nat} {c : Call ι κ} {o : Outside ι κ} {a : Answer ι}

/-- Nobody is at a replica that is to be stopped as idle, and its cleanup finds no session. -/
structure Spared (node : Node κ) (s : State ι κ) : Prop where
  coherent : Coherent node s.base
  unvisited : ∀ r ∈ s.watched, Unvisited s.base r
  sheds : ∀ call r, s.cleansIdle call r → ∃ c, s.base.calls[call]? = some c ∧ Sheds r c.phase

namespace Spared

variable (h : Spared node s)
include h

theorem harmless : Harmless s := by
  intro call r c hcleans hc
  obtain ⟨d, hd, hsheds⟩ := h.sheds call r hcleans
  cases hc.symm.trans hd
  cases hphase : c.phase with
  | removing x =>
    rw [hphase] at hsheds
    obtain rfl : x = r := hsheds
    exact (h.unvisited x (mem_watched_of_cleansIdle hcleans)).row
  | purging x found =>
    rw [hphase] at hsheds
    obtain ⟨-, rfl⟩ : x = r ∧ found = [] := hsheds
    intro sid hsid
    cases hsid
  | _ => trivial

/-- The calls go on, and the loop stays where it is. -/
theorem call {b : Proxy.Calls.State ι κ} (hcoherent : Coherent node b)
    (hunvisited : ∀ r ∈ s.watched, Unvisited b r)
    (hcalls : ∀ (j : Nat) (d : Call ι κ) (r : ι), s.base.calls[j]? = some d → Sheds r d.phase →
      r ∈ s.watched → ∃ d' : Call ι κ, b.calls[j]? = some d' ∧ Sheds r d'.phase) :
    Spared node { s with base := b } where
  coherent := hcoherent
  unvisited := hunvisited
  sheds j r hcleans := by
    obtain ⟨d, hd, hsheds⟩ := h.sheds j r hcleans
    exact hcalls j d r hd hsheds (mem_watched_of_cleansIdle hcleans)

/-- A call moves on, and a cleanup of an idle replica goes on without a session. -/
theorem move {b : Proxy.Calls.State ι κ} {q : Phase ι κ} (hc : s.base.calls[i]? = some c)
    (hcoherent : Coherent node b) (hunvisited : ∀ r ∈ s.watched, Unvisited b r)
    (hcalls : b.calls = s.base.calls.set i { c with phase := q })
    (hsheds : ∀ r ∈ s.watched, Sheds r c.phase → Sheds r q) : Spared node { s with base := b } := by
  refine h.call hcoherent hunvisited fun j d r hd hdsheds hr => ?_
  rw [hcalls]
  by_cases hj : j = i
  · subst hj
    cases hd.symm.trans hc
    have hlt : j < s.base.calls.length := (List.getElem?_eq_some_iff.mp hc).1
    exact ⟨_, List.getElem?_set_self hlt, hsheds r hr hdsheds⟩
  · exact ⟨d, by rw [List.getElem?_set_ne (Ne.symm hj), hd], hdsheds⟩

/-- The loop goes on without a call. -/
theorem go (hbase : s'.base = s.base) (hunvisited : ∀ r ∈ s'.watched, Unvisited s.base r)
    (hcleans : ∀ specs call r todo sequel,
      s'.tick ≠ some ⟨specs, .cleaning call r true todo sequel⟩) : Spared node s' where
  coherent := hbase ▸ h.coherent
  unvisited := hbase ▸ hunvisited
  sheds call r hr := by
    obtain ⟨specs, todo, sequel, htick⟩ := hr
    exact absurd htick (hcleans specs call r todo sequel)

/-- The loop decides. -/
theorem act {spec : Str} {rest : List Str} {cooling : Bool} {v : Verdict ι} {s₀ : State ι κ}
    (hbase : s₀.base = s.base) (hv : ∀ r ∈ v.idle, Unvisited s.base r) :
    Spared node (s₀.act spec rest cooling v) := by
  cases v with
  | reap aged => exact h.go hbase hv nofun
  | spawn n => exact h.go hbase nofun nofun
  | hold saturated => exact h.go hbase nofun nofun
  | drop idle =>
    refine h.go hbase (fun r hr => hv r ?_) nofun
    simpa [State.watched, State.act, State.stay, Stage.watched, Verdict.idle] using hr

/-- The loop begins a call. -/
theorem begin {spec : Str} {rest : List Str} {p : Phase ι κ} {stage : Stage ι}
    (hstart : s.base.canStart node spec p = true) (hwatched : ∀ r ∈ stage.watched, r ∈ s.watched)
    (hsheds : ∀ call r todo sequel, stage = .cleaning call r true todo sequel →
      call = s.base.calls.length ∧ Sheds r p) : Spared node (s.begin spec rest p stage) where
  coherent := h.coherent.start hstart
  unvisited r hr := (h.unvisited r (hwatched r hr)).start (comesTo_of_canStart hstart)
  sheds call r hcleans := by
    obtain ⟨specs, todo, sequel, htick⟩ := hcleans
    cases htick
    obtain ⟨rfl, hp⟩ := hsheds call r todo sequel rfl
    exact ⟨⟨spec, p⟩, List.getElem?_concat_length, hp⟩

/-- The loop of the tick goes on. -/
theorem scale (hok : ∀ v ∈ verdict node scaling s a, ∀ r ∈ v.idle, Unvisited s.base r)
    (hstep : IdleStops.scale node scaling s a = some s') : Spared node s' := by
  obtain ⟨⟨specs, stage⟩, htick, hstep⟩ := Option.bind_eq_some_iff.mp hstep
  have hwatched : ∀ r ∈ stage.watched, Unvisited s.base r := by
    intro r hr
    refine h.unvisited r ?_
    rw [State.watched, htick]
    exact hr
  cases specs with
  | nil =>
    cases hstep
    exact h.go rfl nofun nofun
  | cons spec rest =>
    cases stage with
    | looking =>
      dsimp only at hstep
      split at hstep
      · next v hv =>
        cases hstep
        exact h.act rfl (hok v hv)
      · cases hstep
        exact h.go rfl nofun nofun
    | recounting cooling =>
      obtain ⟨v, hv, rfl⟩ := Option.map_eq_some_iff.mp hstep
      exact h.act rfl (hok v hv)
    | growing left =>
      cases left with
      | zero =>
        cases hstep
        exact h.go rfl nofun nofun
      | succ left =>
        cases hstep
        exact h.begin rfl nofun nofun
    | awaiting call left =>
      dsimp only at hstep
      split at hstep
      · cases hstep
        exact h.go rfl nofun nofun
      · cases hstep
    | stopping todo sequel =>
      cases todo with
      | nil =>
        cases sequel with
        | recount cooling =>
          cases hstep
          exact h.go rfl nofun nofun
        | cool stoppedAny =>
          cases hstep
          exact h.go rfl nofun nofun
      | cons v todo =>
        obtain ⟨x, idle⟩ := v
        cases hstep
        refine h.begin rfl (fun r hr => ?_) ?_
        · rw [State.watched, htick]
          exact hr
        · intro call r todo' sequel' hstage
          cases hstage
          exact ⟨rfl, rfl⟩
    | cleaning call r idle todo sequel =>
      dsimp only at hstep
      split at hstep
      · cases hstep
        refine h.go rfl (fun x hx => hwatched x ?_) nofun
        obtain ⟨v, hv, rfl⟩ := List.mem_map.mp hx
        obtain ⟨hmem, hidle⟩ := List.mem_filter.mp hv
        exact List.mem_map.mpr ⟨v, List.mem_filter.mpr ⟨List.mem_cons_of_mem _ hmem, hidle⟩, rfl⟩
      · cases hstep

theorem step {e : Event ι κ} (hok : Undisturbed node scaling s e)
    (hstep : (machine node scaling).step s e = some s') : Spared node s' := by
  cases e with
  | call e =>
    obtain ⟨b, hb, rfl⟩ := Option.map_eq_some_iff.mp hstep
    cases e with
    | start spec p =>
      simp only [Proxy.Calls.machine] at hb
      split at hb
      · next hstart =>
        cases hb
        refine h.call (h.coherent.start hstart)
          (fun r hr => (h.unvisited r hr).start (comesTo_of_canStart hstart)) ?_
        intro j d r hd hsheds hr
        have hlt : j < s.base.calls.length := (List.getElem?_eq_some_iff.mp hd).1
        exact ⟨d, by rw [List.getElem?_append_left hlt, hd], hsheds⟩
      · cases hb
    | advance i o =>
      obtain ⟨c, hc, hadvance⟩ := Option.bind_eq_some_iff.mp hb
      obtain ⟨htarget, hnew⟩ := hok c hc
      have hunvisited : ∀ r ∈ s.watched, Unvisited b r := by
        intro r hr
        exact (h.unvisited r hr).advance h.coherent hc hadvance (fun heq => htarget r heq hr)
          fun x hx heq => (hnew x hx).2 (heq ▸ hr)
      obtain ⟨q, hcalls, -⟩ := calls_of_advance hadvance
      have hcoherent : Coherent node b := by
        refine h.coherent.effect hc (fun visit x hphase => ?_) (advance_effect hc hadvance)
        exact (hnew x (by rw [hphase]; rfl)).1
      refine h.move hc hcoherent hunvisited hcalls fun r hr hsheds => ?_
      obtain ⟨q', hcalls', hq'⟩ := hsheds.advance (h.unvisited r hr).sessions hadvance
      have hlt : i < s.base.calls.length := (List.getElem?_eq_some_iff.mp hc).1
      have hsame := congrArg (·[i]?) (hcalls.symm.trans hcalls')
      simp only [List.getElem?_set_self hlt, Option.some.injEq, Call.mk.injEq] at hsame
      exact hsame.2 ▸ hq'
    | drop i =>
      obtain ⟨c, hc, hdrop⟩ := Option.bind_eq_some_iff.mp hb
      split at hdrop
      · cases hdrop
        exact h.move hc (h.coherent.goto hc trivial rfl fun hq => by cases hq)
          (fun r hr => (h.unvisited r hr).drop) rfl fun _ _ _ => trivial
      · cases hdrop
    | tick ms =>
      cases hb
      exact h.call (h.coherent.tick ms) (fun r hr => (h.unvisited r hr).tick ms)
        fun j d r hd hsheds _ => ⟨d, hd, hsheds⟩
  | tick specs =>
    simp only [machine, IdleStops.step] at hstep
    split at hstep
    · cases hstep
      exact h.go rfl nofun nofun
    · cases hstep
  | scale a => exact h.scale hok hstep

end Spared

/-- **Idle stops.** While a replica is chosen as idle only when no visitor is there and no request
is taken to it afterwards, what the tick stops as idle has no session. -/
theorem harmless_of_undisturbed {rows : Registry ι} {es : List (Event ι κ)}
    (hrows : rows.Distinct)
    (hrun : (machine node scaling).Run (Undisturbed node scaling) (boot rows) es s) :
    Harmless s := by
  have hstart : Spared node (boot rows : State ι κ) := by
    refine ⟨Coherent.boot hrows, fun r hr => ?_, fun call r hcleans => ?_⟩
    · cases hr
    · obtain ⟨specs, todo, sequel, htick⟩ := hcleans
      cases htick
  exact (hrun.invariant hstart fun _ _ _ hI hok hstep => hI.step hok hstep).harmless

end Runs

/-! ## A visit between the choice and the stop -/

section Example

attribute [local instance] wholeFloats

/-- One idle tick is enough. -/
def eager : Scaling := ⟨1, 2, none, 10, fun _ _ _ => false, fun _ _ _ => false⟩

def stopped : Answer Nat := ⟨fun _ => 0, true⟩

/-- The only replica is old enough, and the tick chooses it. -/
def chooses : List (Event Nat Nat) := [.call (.tick 60000), .tick [labId], .scale stopped]

theorem harmless_of_undisturbed_chooses : ∃ s : State Nat Nat,
    (machine labNode eager).exec (boot [labReplica 7]) (chooses ++ [.scale stopped]) = some s ∧
      s.cleansIdle 0 7 ∧ Harmless s := by
  have hrows : Registry.Distinct [labReplica 7] := List.nodup_singleton _
  have hsome : ((machine labNode eager).execIf (Undisturbed labNode eager) (boot [labReplica 7])
      (chooses ++ [.scale stopped])).isSome = true := by decide
  exact ⟨_, rfl, ⟨_, _, _, rfl⟩, harmless_of_undisturbed hrows (run_execIf hsome)⟩

/-- While the backend stops it, a visitor gets its seat and opens a session. -/
def visits : List (Event Nat Nat) :=
  [.call (.start labId .fast), .call (.advance 0 (labOutside 42 none)),
    .call (.advance 0 (labOutside 0 none)), .scale stopped]

theorem visitBeforeStop_killed : ∃ s t : State Nat Nat,
    (machine labNode eager).exec (boot [labReplica 7]) (chooses ++ visits) = some s ∧
      s.cleansIdle 1 7 ∧ s.base.replicas = [{ labReplica 7 with sessionsActive := 1 }] ∧
      ¬ Harmless s ∧
      (machine labNode eager).exec s (List.replicate 5 (.call (.advance 1 (labOutside 0 none)))) =
        some t ∧
      s.base.sessions.lookup 42 = some ⟨labId, 7, 60000⟩ ∧ t.base.sessions.lookup 42 = none := by
  refine ⟨_, _, rfl, ⟨_, _, _, rfl⟩, rfl, fun h => ?_, rfl, rfl, rfl⟩
  have hunused := h 1 7 _ ⟨_, _, _, rfl⟩ rfl
  exact absurd (hunused _ List.mem_cons_self rfl) Nat.one_ne_zero

end Example

end Ruscker.Scaler.IdleStops
