import Ruscker.Core.Registry
import Ruscker.Lib.Machine
import Ruscker.Lib.Table

/-!
# Calls on the replica registry and the session store

Requests, spawns, readoptions, removals and session sweeps of one node run side by side.  Each
is a call that goes from one critical section to the next: a phase names the section it
enters next, and a step runs that section whole.  The registry lock is held inside a section
only, the spec mutex across those phases that say so.
-/

namespace Ruscker.Proxy.Calls

open Tables Machines

variable {ι κ : Type*}

/-! ## Choosing a replica -/

/-- The counters of the process that `select` looks at. -/
structure Load (ι : Type*) where
  turn : Nat
  inflight : ι → Nat

/-- Of equals the first one with the fewest requests, or the last one with the most seats. -/
def select (candidates : List (Replica ι)) (routing : RoutingStrategy) (api : Bool)
    (load : Load ι) : Option (Replica ι) :=
  match routing with
  | .roundRobin => candidates[load.turn % candidates.length]?
  | _ =>
    if api then candidates.argmin fun r => load.inflight r.id
    else candidates.reverse.argmax Replica.availableSeats

/-- A ready replica with a free seat. -/
def pickAccepting (replicas : List (Replica ι)) (routing : RoutingStrategy) (api : Bool)
    (load : Load ι) : Option (Replica ι) :=
  select (replicas.filter Replica.isAccepting) routing api load

/-- Failing that, any ready replica. -/
def pickReplica (replicas : List (Replica ι)) (routing : RoutingStrategy) (api : Bool)
    (load : Load ι) : Option (Replica ι) :=
  (pickAccepting replicas routing api load).or
    (select (replicas.filter fun r => r.state = .ready) routing api load)

section Select

variable {candidates replicas : List (Replica ι)} {routing : RoutingStrategy} {api : Bool}
  {load : Load ι} {r : Replica ι}

theorem select_eq_none : select candidates routing api load = none ↔ candidates = [] := by
  have hleast : (if api then candidates.argmin fun r => load.inflight r.id
      else candidates.reverse.argmax Replica.availableSeats) = none ↔ candidates = [] := by
    split
    · exact List.argmin_eq_none
    · rw [List.argmax_eq_none, List.reverse_eq_nil_iff]
  cases routing with
  | roundRobin =>
    rw [select, List.getElem?_eq_none_iff]
    constructor
    · intro h
      by_contra hne
      exact absurd (Nat.mod_lt load.turn (List.length_pos_iff.mpr hne)) (Nat.not_lt.mpr h)
    · rintro rfl
      simp
  | leastConnections => exact hleast
  | weightedRandom => exact hleast
  | resourceAware => exact hleast

theorem mem_of_select (h : select candidates routing api load = some r) : r ∈ candidates := by
  have hleast (hpick : (if api then candidates.argmin fun r => load.inflight r.id
      else candidates.reverse.argmax Replica.availableSeats) = some r) : r ∈ candidates := by
    split at hpick
    · exact List.argmin_mem hpick
    · exact List.mem_reverse.mp (List.argmax_mem hpick)
  cases routing with
  | roundRobin => exact List.mem_of_getElem? h
  | leastConnections => exact hleast h
  | weightedRandom => exact hleast h
  | resourceAware => exact hleast h

/-- A strict pick is a ready replica with a free seat. -/
theorem accepting_of_pickAccepting (h : pickAccepting replicas routing api load = some r) :
    r ∈ replicas ∧ r.isAccepting = true :=
  List.mem_filter.mp (mem_of_select h)

/-- With a ready replica there is always one to pick. -/
theorem pickReplica_ne_none (hmem : r ∈ replicas) (hready : r.state = .ready) :
    pickReplica replicas routing api load ≠ none := by
  intro h
  obtain ⟨-, hnone⟩ := Option.or_eq_none_iff.mp h
  have hempty := select_eq_none.mp hnone
  have hr : r ∈ replicas.filter fun r => r.state = .ready :=
    List.mem_filter.mpr ⟨hmem, decide_eq_true hready⟩
  rw [hempty] at hr
  cases hr

end Select

/-! ## The session store of one process -/

structure SessionEntry (ι : Type*) where
  specId : Str
  replicaId : ι
  lastSeen : Nat

abbrev SessionStore (ι κ : Type*) := Table κ (SessionEntry ι)

/-- A node: its specs, and the shards of its session map. -/
structure Node (κ : Type*) [Floats] where
  settings : Str → Settings
  shards : Nat
  shardOf : κ → Fin shards

/-- A sticky cookie that verifies. -/
structure Cookie (ι κ : Type*) where
  session : κ
  specId : Str
  replica : ι
  deriving DecidableEq

section Store

variable [DecidableEq ι] [DecidableEq κ]

/-- The sessions of a replica. -/
def bound (st : SessionStore ι κ) (r : ι) : Nat := st.count fun e => e.replicaId = r

section Bound

variable {st : SessionStore ι κ} {sid : κ} {e : SessionEntry ι} {r : ι}

theorem bound_insert (hnew : st.lookup sid = none) :
    bound (st.insert sid e) r = bound st r + if e.replicaId = r then 1 else 0 := by
  simpa [bound] using Table.count_insert (p := fun e : SessionEntry ι => e.replicaId = r) hnew

theorem bound_erase (hlookup : st.lookup sid = some e) :
    bound (st.erase sid) r + (if e.replicaId = r then 1 else 0) = bound st r := by
  simpa [bound] using Table.count_erase (p := fun e : SessionEntry ι => e.replicaId = r) hlookup

theorem bound_erase_of_none (hlookup : st.lookup sid = none) :
    bound (st.erase sid) r = bound st r := by
  rw [Table.erase_eq_self hlookup]

theorem bound_touch {now : Nat} :
    bound (Table.update st sid fun e => { e with lastSeen := now }) r = bound st r :=
  Table.count_update fun _ => rfl

theorem bound_eq_zero :
    bound st r = 0 ↔ ∀ sid e, st.lookup sid = some e → e.replicaId ≠ r := by
  rw [bound, Table.count_eq_zero]
  simp

end Bound

/-- The new store, and whether the session was registered. -/
def touchOrRegister (st : SessionStore ι κ) (sid : κ) (spec : Str) (r : ι) (now : Nat) :
    SessionStore ι κ × Bool :=
  match st.lookup sid with
  | some _ => (st.update sid fun e => { e with lastSeen := now }, false)
  | none => (st.insert sid ⟨spec, r, now⟩, true)

/-- An idle session of a spec whose sessions expire. -/
def isExpired (globalMs : Int) (overrides : Str → Option Int) (now : Nat)
    (e : SessionEntry ι) : Bool :=
  let eff := (overrides e.specId).getD globalMs
  decide (0 ≤ eff) && decide (eff < (now - e.lastSeen : Nat))

/-- The entries of one shard that meet `p`; an iteration holds one shard at a time. -/
def inShard [Floats] (node : Node κ) (st : SessionStore ι κ) (k : Nat)
    (p : SessionEntry ι → Bool) : List (κ × ι) :=
  (st.entries.filter fun e => decide ((node.shardOf e.1 : Nat) = k) && p e.2).map
    fun e => (e.1, e.2.replicaId)

end Store

/-! ## Calls -/

/-- Why a call waits for the spec mutex. -/
inductive Growth (ι : Type*) where
  | visit
  | ensureAvailable
  | addCapacity
  | readopt (r : Replica ι)

/-- What a call does next. -/
inductive Phase (ι κ : Type*) where
  -- `resolve_replica` and `pick_or_spawn`
  | sticky (c : Cookie ι κ) (visit : Bool)
  | ride
  | fast
  | queued (g : Growth ι)
  | recheck
  -- `spawn_one`; the spawn itself is that of `pick_or_spawn` too
  | ensuring
  | capping
  | spawning (visit : Bool)
  | adding (visit : Bool) (r : Replica ι)
  -- `readopt_running_replica`
  | looking (r : Replica ι)
  | readying (r : Replica ι) (sameIdPresent : Bool)
  | upserting (r : Replica ι)
  -- `touch_or_register`
  | holding (sid : κ) (r : ι) (seatReserved : Bool)
  | counting (r : ι)
  -- `mark_restart_detected`, `cleanup_replica_state` and the `drop_replica` of both
  | marking (r : ι) (observedAt : Nat)
  | removing (r : ι)
  | collecting (r : ι) (shard : Nat) (found : List κ)
  | purging (r : ι) (found : List κ)
  -- `sweep` and `end_session`
  | sweeping (globalMs : Int) (overrides : Str → Option Int) (shard : Nat) (found : List (κ × ι))
  | evicting (victims : List (κ × ι))
  | ending (sid : κ)
  | releasing (r : ι)
  | done

namespace Phase

/-- The call holds the mutex of its spec. -/
def locks : Phase ι κ → Bool
  | .recheck | .ensuring | .capping | .spawning _ | .adding _ _ | .looking _ | .readying _ _
  | .upserting _ => true
  | _ => false

/-- The call waits for a lock, for the backend or for a query, where its future can be
dropped.  From the reservation of a seat to the registration of its session there is no such
point, and none from a restart mark or a removal to the end of its `drop_replica`. -/
def suspended : Phase ι κ → Bool
  | .holding _ _ _ | .collecting _ _ _ | .purging _ _ | .sweeping _ _ _ _ | .ending _ | .done =>
    false
  | _ => true

/-- The session id a new visit brought, until its session is registered. -/
def minted : Phase ι κ → Option κ
  | .holding sid _ true => some sid
  | _ => none

/-- The call is a request on its way to a replica. -/
def isVisit : Phase ι κ → Bool
  | .sticky _ _ | .ride | .fast | .queued .visit | .recheck | .spawning true | .adding true _ => true
  | _ => false

/-- A request, a spawn or a removal. -/
def ofRequest : Phase ι κ → Bool
  | .queued (.readopt _) | .looking _ | .readying _ _ | .upserting _ | .marking _ _
  | .sweeping _ _ _ _ | .evicting _ | .ending _ | .releasing _ => false
  | _ => true

end Phase

structure Call (ι κ : Type*) where
  spec : Str
  phase : Phase ι κ

/-- What a section gets from outside: the counters of `select`, the id of a new session, the
replica the backend started, whether a container became ready. -/
structure Outside (ι κ : Type*) where
  load : Load ι
  session : κ
  spawned : Option (Replica ι)
  ready : Bool

structure State (ι κ : Type*) where
  replicas : Registry ι
  sessions : SessionStore ι κ
  cookies : List (Cookie ι κ)
  now : Nat
  calls : List (Call ι κ)

/-- A node that has just found its containers. -/
def boot (rows : Registry ι) : State ι κ := ⟨rows, ∅, [], 0, []⟩

inductive Event (ι κ : Type*) where
  | start (spec : Str) (p : Phase ι κ)
  | advance (i : Nat) (o : Outside ι κ)
  | drop (i : Nat)
  | tick (ms : Nat)

def needsSticky (kind : SpecKind) : Bool := kind = .shiny || kind = .interactiveApp

namespace State

variable [Floats]

def goto (s : State ι κ) (i : Nat) (c : Call ι κ) (p : Phase ι κ) : State ι κ :=
  { s with calls := s.calls.set i { c with phase := p } }

/-- Nobody holds the mutex of the spec. -/
def isFree (s : State ι κ) (spec : Str) : Bool :=
  s.calls.all fun c => !(c.phase.locks && decide (c.spec = spec))

/-- A session id that no cookie and no visit has. -/
def isNewSession [DecidableEq κ] (s : State ι κ) (sid : κ) : Bool :=
  s.cookies.all (fun c => decide (c.session ≠ sid)) &&
    s.calls.all fun c => decide (c.phase.minted ≠ some sid)

/-- What a request may start as: with a usable cookie, as part of a page, as a visit. -/
def canStart [DecidableEq ι] [DecidableEq κ] (node : Node κ) (s : State ι κ) (spec : Str) :
    Phase ι κ → Bool
  | .sticky c _ => decide (c ∈ s.cookies) && decide ((node.settings spec).kind ≠ .external)
  | .ride | .fast => decide ((node.settings spec).kind ≠ .external)
  | .queued .ensureAvailable | .queued .addCapacity | .queued (.readopt _) => true
  | .marking _ _ | .removing _ | .sweeping _ _ 0 [] | .ending _ => true
  | _ => false

end State

/-! ### Requests -/

section Requests

variable [Floats] [DecidableEq ι] [DecidableEq κ] (node : Node κ)

/-- On to the session tracker, which only some kinds of spec need. -/
def track (spec : Str) (sid : κ) (r : ι) (seatReserved : Bool) : Phase ι κ :=
  if needsSticky (node.settings spec).kind then .holding sid r seatReserved else .done

/-- The replica of a cookie, while it can still serve the session. -/
def stickyReplica (s : State ι κ) (spec : Str) (c : Cookie ι κ) : Option (Replica ι) :=
  if c.specId = spec then
    ((s.replicas.replicasOf spec).find? fun r => r.id = c.replica).filter fun r =>
      r.state = .ready || r.state = .draining
  else none

def afterSticky (s : State ι κ) (spec : Str) (c : Cookie ι κ) (visit : Bool) : Phase ι κ :=
  match stickyReplica s spec c with
  | some r => track node spec c.session r.id false
  | none => if visit then .fast else .ride

/-- `pick_or_spawn` hands out a replica, with its seat reserved unless the spec is an API. -/
def handOut (s : State ι κ) (i : Nat) (c : Call ι κ) (sid : κ) (r : ι) : Option (State ι κ) :=
  if s.isNewSession sid then
    if (node.settings c.spec).kind = .api then some (s.goto i c (track node c.spec sid r false))
    else some { s.goto i c (track node c.spec sid r true) with
      replicas := s.replicas.incSessions r }
  else none

/-- What the second look under the spec mutex finds: a replica with a free seat, one that is
coming up with a free seat, or any ready one at the cap. -/
def recheckPick (s : State ι κ) (spec : Str) (load : Load ι) : Option (Replica ι) :=
  let settings := node.settings spec
  let api := settings.kind = .api
  let replicas := s.replicas.replicasOf spec
  ((pickAccepting replicas settings.effectiveRouting api load).or
      (replicas.find? fun r => r.state = .starting && decide (0 < r.availableSeats))).or <|
    if api || decide (settings.effectiveMaxReplicas.val ≤ replicas.length) then
      pickReplica replicas settings.effectiveRouting api load
    else none

/-- The new row, and for a visit its first seat. -/
def addReplica (s : State ι κ) (i : Nat) (c : Call ι κ) (visit : Bool) (r : Replica ι) (sid : κ) :
    Option (State ι κ) :=
  let s' := { s with replicas := s.replicas.add r }
  if visit then handOut node s' i c sid r.id else some (s'.goto i c .done)

/-- The session of a new visit comes with its cookie. -/
def register (s : State ι κ) (i : Nat) (c : Call ι κ) (sid : κ) (r : ι) (seatReserved : Bool) :
    State ι κ :=
  let (sessions, registered) := touchOrRegister s.sessions sid c.spec r s.now
  { s.goto i c (if registered && !seatReserved then .counting r else .done) with
    sessions
    cookies := if seatReserved then ⟨sid, c.spec, r⟩ :: s.cookies else s.cookies }

end Requests

/-! ### Steps -/

section Steps

variable [Floats] [DecidableEq ι] [DecidableEq κ] (node : Node κ)

def afterLock : Growth ι → Phase ι κ
  | .visit => .recheck
  | .ensureAvailable => .ensuring
  | .addCapacity => .capping
  | .readopt r => .looking r

/-- `readopt_running_replica` under the mutex; an orphan beyond the cap is stopped. -/
def afterLook (s : State ι κ) (spec : Str) (r : Replica ι) : Phase ι κ :=
  let replicas := s.replicas.replicasOf spec
  let sameIdPresent := replicas.any fun known => known.id = r.id
  if replicas.any fun known => known.id = r.id && known.state = .ready then .done
  else if !sameIdPresent && decide ((node.settings spec).effectiveMaxReplicas.val ≤
    replicas.length) then .done
  else .readying r sameIdPresent

/-- One section of call `i`. -/
def advance (s : State ι κ) (i : Nat) (c : Call ι κ) (o : Outside ι κ) : Option (State ι κ) :=
  let settings := node.settings c.spec
  let replicas := s.replicas.replicasOf c.spec
  let api : Bool := settings.kind = .api
  match c.phase with
  | .sticky cookie visit => some (s.goto i c (afterSticky node s c.spec cookie visit))
  | .ride => some (s.goto i c <|
      if (pickReplica replicas settings.effectiveRouting api o.load).isSome then .done else .fast)
  | .fast =>
    match pickAccepting replicas settings.effectiveRouting api o.load with
    | some r => handOut node s i c o.session r.id
    | none => some (s.goto i c (.queued .visit))
  | .queued g => if s.isFree c.spec then some (s.goto i c (afterLock g)) else none
  | .recheck =>
    match recheckPick node s c.spec o.load with
    | some r => handOut node s i c o.session r.id
    | none => some (s.goto i c (.spawning true))
  | .ensuring => some (s.goto i c <|
      if replicas.any fun r => r.state = .starting || r.isAccepting then .done else .capping)
  | .capping => some (s.goto i c <|
      if settings.effectiveMaxReplicas.val ≤ replicas.length then .done else .spawning false)
  | .spawning visit => some (s.goto i c <|
      match o.spawned with
      | some r => .adding visit { r with sessionsMax := settings.effectiveSeats.val }
      | none => .done)
  | .adding visit r => addReplica node s i c visit r o.session
  | .looking r => some (s.goto i c (afterLook node s c.spec r))
  | .readying r sameIdPresent => some (s.goto i c <|
      if o.ready then .upserting { r with
        state := .ready, sessionsActive := 0, sessionsMax := settings.effectiveSeats.val }
      else if sameIdPresent then .removing r.id else .done)
  | .upserting r => some { s.goto i c .done with replicas := s.replicas.upsert r }
  | .holding sid r seatReserved => some (register s i c sid r seatReserved)
  | .counting r => some { s.goto i c .done with replicas := s.replicas.incSessions r }
  | .marking r observedAt =>
    match s.replicas.markRestarting r observedAt with
    | some replicas => some { s.goto i c (.collecting r 0 []) with replicas }
    | none => some (s.goto i c .done)
  | .removing r => some { s.goto i c (.collecting r 0 []) with replicas := s.replicas.remove r }
  | .collecting r k found => some (s.goto i c <|
      if k < node.shards then
        .collecting r (k + 1)
          (found ++ (inShard node s.sessions k fun e => e.replicaId = r).map Prod.fst)
      else .purging r found)
  | .purging _ [] => some (s.goto i c .done)
  | .purging r (sid :: rest) =>
    some { s.goto i c (.purging r rest) with sessions := s.sessions.erase sid }
  | .sweeping globalMs overrides k found => some (s.goto i c <|
      if k < node.shards then
        .sweeping globalMs overrides (k + 1)
          (found ++ inShard node s.sessions k (isExpired globalMs overrides s.now))
      else .evicting found)
  | .evicting [] => some (s.goto i c .done)
  | .evicting ((sid, r) :: rest) =>
    if (s.sessions.lookup sid).isSome then
      some { s.goto i c (.evicting rest) with
        sessions := s.sessions.erase sid, replicas := s.replicas.decSessions r }
    else some (s.goto i c (.evicting rest))
  | .ending sid =>
    match s.sessions.lookup sid with
    | some e => some { s.goto i c (.releasing e.replicaId) with sessions := s.sessions.erase sid }
    | none => some (s.goto i c .done)
  | .releasing r => some { s.goto i c .done with replicas := s.replicas.decSessions r }
  | .done => none

def machine : Machine (State ι κ) (Event ι κ) where
  step s
    | .start spec p =>
      if s.canStart node spec p then some { s with calls := s.calls ++ [⟨spec, p⟩] } else none
    | .advance i o => (s.calls[i]?).bind fun c => advance node s i c o
    | .drop i => (s.calls[i]?).bind fun c =>
      if c.phase.suspended then some (s.goto i c .done) else none
    | .tick ms => some { s with now := s.now + ms }

end Steps

/-! ## What the decisions can be -/

section Decisions

variable {s s' : State ι κ} {i : Nat} {c : Call ι κ} {spec : Str} {sid : κ} {r : ι}
  {seatReserved : Bool}

theorem track_cases [Floats] (node : Node κ) (spec : Str) (sid : κ) (r : ι) (seatReserved : Bool) :
    (needsSticky (node.settings spec).kind = true ∧
      track node spec sid r seatReserved = .holding sid r seatReserved) ∨
    (needsSticky (node.settings spec).kind = false ∧
      (track node spec sid r seatReserved : Phase ι κ) = .done) := by
  unfold track
  split
  · next h => exact .inl ⟨h, rfl⟩
  · next h => exact .inr ⟨Bool.not_eq_true _ ▸ h, rfl⟩

theorem locks_track [Floats] {node : Node κ} (spec : Str) (sid : κ) (r : ι)
    (seatReserved : Bool) : (track node spec sid r seatReserved).locks = false := by
  rcases track_cases node spec sid r seatReserved with ⟨-, h⟩ | ⟨-, h⟩
  · rw [h]
    rfl
  · rw [h]
    rfl

/-- A visit of a spec that is no API holds a seat for a session to come. -/
theorem track_of_visit [Floats] {node : Node κ} {spec : Str} {sid : κ} {r : ι}
    (hapi : (node.settings spec).kind ≠ .api) (hexternal : (node.settings spec).kind ≠ .external)
    (seatReserved : Bool) :
    track node spec sid r seatReserved = .holding sid r seatReserved := by
  refine if_pos ?_
  cases hkind : (node.settings spec).kind with
  | shiny => rfl
  | interactiveApp => rfl
  | api => exact absurd hkind hapi
  | external => exact absurd hkind hexternal

/-- An API only gets a replica; any other spec gets a seat of it too. -/
theorem handOut_cases [Floats] [DecidableEq ι] [DecidableEq κ] {node : Node κ}
    (h : handOut node s i c sid r = some s') :
    s.isNewSession sid = true ∧
      (((node.settings c.spec).kind = .api ∧ s' = s.goto i c .done) ∨
        ((node.settings c.spec).kind ≠ .api ∧
          s' = { s.goto i c (track node c.spec sid r true) with
            replicas := s.replicas.incSessions r })) := by
  unfold handOut at h
  split at h
  · next hnew =>
    refine ⟨hnew, ?_⟩
    split at h
    · next hapi =>
      refine .inl ⟨hapi, ?_⟩
      rw [track, hapi] at h
      exact (Option.some.inj h).symm
    · next hapi => exact .inr ⟨hapi, (Option.some.inj h).symm⟩
  · cases h

/-- A cookie leads to its own replica, while that is up. -/
theorem stickyReplica_spec [DecidableEq ι] {cookie : Cookie ι κ} {x : Replica ι}
    (h : stickyReplica s spec cookie = some x) :
    x ∈ s.replicas ∧ x.id = cookie.replica ∧ (x.state = .ready ∨ x.state = .draining) := by
  unfold stickyReplica at h
  split at h
  · obtain ⟨hfound, hstate⟩ := Option.filter_eq_some_iff.mp h
    have hmem := (List.mem_filter.mp (List.mem_of_find?_eq_some hfound)).1
    have hid : x.id = cookie.replica := by simpa using List.find?_some hfound
    exact ⟨hmem, hid, by simpa using hstate⟩
  · cases h

/-- A cookie is honoured, the spec tracks no sessions, or the request goes on without it. -/
theorem afterSticky_cases [Floats] [DecidableEq ι] (node : Node κ) (s : State ι κ) (spec : Str)
    (cookie : Cookie ι κ) (visit : Bool) :
    (∃ x, stickyReplica s spec cookie = some x ∧
      afterSticky node s spec cookie visit = .holding cookie.session x.id false) ∨
    afterSticky node s spec cookie visit = .done ∨ afterSticky node s spec cookie visit = .fast ∨
      afterSticky node s spec cookie visit = .ride := by
  unfold afterSticky
  split
  · next x hx =>
    rcases track_cases node spec cookie.session x.id false with ⟨-, hq⟩ | ⟨-, hq⟩
    · exact .inl ⟨x, hx, hq⟩
    · exact .inr (.inl hq)
  · split
    · exact .inr (.inr (.inl rfl))
    · exact .inr (.inr (.inr rfl))

end Decisions

/-! ## A small node -/

section Lab

attribute [local instance] wholeFloats

def labId : Str := "lab".toList

/-- One seat a container, and one container. -/
def labNode : Node Nat where
  settings _ := { bareSettings "Lab" .empty with
    seatsPerContainer := some ⟨1, by decide⟩, maxReplicas := some ⟨1, by decide⟩ }
  shards := 1
  shardOf _ := ⟨0, Nat.one_pos⟩

def labReplica (id : Nat) : Replica Nat := ⟨id, labId, .ready, 0, 0, 1⟩

/-- A new session id, and maybe a container. -/
def labOutside (session : Nat) (spawned : Option (Replica Nat)) : Outside Nat Nat :=
  ⟨⟨0, fun _ => 0⟩, session, spawned, true⟩

end Lab

end Ruscker.Proxy.Calls
