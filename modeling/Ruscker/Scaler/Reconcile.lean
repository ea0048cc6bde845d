import Ruscker.Proxy.Moves

/-!
# Reconcile passes

A pass reads the rows of its specs and an inventory of the backend, and then goes through what it
has read: it prunes the rows whose container is gone, marks those whose container has stopped,
stops and prunes those stopped for too long, readopts what runs again, and removes the stopped
containers that nobody has a row of.  The tick of the scaler makes passes, and so does the
watcher of the backend's events.
-/

namespace Ruscker.Scaler.Reconcile

open Tables Machines Machines.Machine Proxy.Calls

variable {ι κ : Type*}

/-! ## What a pass reads -/

/-- A container, which goes by the id of its replica. -/
structure Container where
  createdAt : Nat
  running : Bool
  finishedAt : Option Nat
  deriving DecidableEq

inductive Liveness where
  | running | stopped | missing | unknown

/-- In milliseconds. -/
def externalRestartGrace : Nat := 30000

/-- What a pass does next.  A readoption takes the mutex of the spec. -/
inductive Task (ι : Type*) where
  | listing (managed running : Bool)
  | walking
  | waiting (spec : Str) (r : Replica ι)
  | looking (spec : Str) (r : Replica ι)
  | excess (spec : Str) (r : Replica ι)
  | readying (spec : Str) (r : Replica ι) (sameIdPresent : Bool)
  | timedOut (spec : Str) (r : Replica ι) (sameIdPresent : Bool)
  | upserting (spec : Str) (r : Replica ι)
  -- the backend is stopping it
  | expiring (r : ι)
  -- the calls of `prune_dead_replica`, maybe under a mutex, and of `mark_restart_detected`
  | pruning (call : Nat) (r : ι) (spec : Option Str)
  | marking (call : Nat)
  | reaping (todo : List ι)
  | ended

/-- The specs and the rows that the pass has read, the rows it has still to visit, and what the
hosts that it reached have reported: the containers, and those that run as replicas. -/
structure Pass (ι : Type*) where
  specs : List Str
  reached : ι → Bool
  snap : List (Replica ι)
  rows : List (Replica ι)
  managed : List (ι × Container)
  running : List (Replica ι)
  now : Nat
  task : Task ι

/-- The mutex that the pass is in. -/
def Task.lock : Task ι → Option Str
  | .looking spec _ | .excess spec _ | .readying spec _ _ | .timedOut spec _ _
  | .upserting spec _ => some spec
  | .pruning _ _ spec => spec
  | _ => none

namespace Pass

variable [DecidableEq ι] (p : Pass ι)

def liveness (x : Replica ι) : Liveness :=
  if p.running.any fun r => r.id = x.id then .running
  else match p.managed.find? fun e => e.1 = x.id with
    | some e => if e.2.running then .running else .stopped
    | none => if p.reached x.id then .missing else .unknown

def expired (since : Nat) : Bool := since + externalRestartGrace ≤ p.now

/-- Stopped containers that are in neither registry; `known` is the one of this moment. -/
def stoppedOrphans (known : Registry ι) : List ι :=
  (p.managed.filter fun e => !e.2.running && !(p.snap ++ known).any (fun x => x.id = e.1) &&
    e.2.finishedAt.any p.expired).map Prod.fst

end Pass

/-! ## Steps -/

structure State (ι κ : Type*) where
  base : Proxy.Calls.State ι κ
  containers : Table ι Container
  passes : List (Pass ι)

def boot (rows : Registry ι) (containers : Table ι Container) : State ι κ :=
  ⟨Proxy.Calls.boot rows, containers, []⟩

/-- Which of the two listings is first; the running containers that are listed with an address;
which replica is next; and whether the backend's answer is a good one. -/
structure Answer (ι : Type*) where
  managed : Bool
  listed : ι → Bool
  pick : ι
  ok : Bool

/-- Containers also start, exit and go without the node. -/
inductive Event (ι κ : Type*) where
  | call (e : Proxy.Calls.Event ι κ)
  | create (r : ι)
  | start (r : ι)
  | exit (r : ι)
  | destroy (r : ι)
  | begin (specs : List Str) (reached : ι → Bool)
  | pass (i : Nat) (a : Answer ι)

section Steps

namespace State

variable (s : State ι κ)

def put (i : Nat) (p : Pass ι) : State ι κ := { s with passes := s.passes.set i p }

/-- A call begins that the pass waits for. -/
def begin (i : Nat) (p : Pass ι) (spec : Str) (phase : Phase ι κ) (task : Nat → Task ι) :
    State ι κ :=
  { s with
    base := s.base.begin spec phase
    passes := s.passes.set i { p with task := task s.base.calls.length } }

def isFree (spec : Str) : Bool :=
  s.base.isFree spec && s.passes.all fun p => decide (p.task.lock ≠ some spec)

variable [DecidableEq ι]

/-- The backend reports the container as running. -/
def runs (r : ι) : Bool := (s.containers.lookup r).any Container.running

/-- `stop` and `remove_container` of the backend. -/
def stop (r : ι) (ok : Bool) : State ι κ :=
  if ok then { s with containers := s.containers.erase r } else s

end State

/-- The replica of a running container, as `list` makes it up. -/
def discovered (specOf : ι → Str) (r : ι) (c : Container) : Replica ι :=
  ⟨r, specOf r, .ready, c.createdAt, 0, 0⟩

variable [DecidableEq ι] (specOf : ι → Str)

/-- A pass that has read the rows of its specs. -/
def State.snapshot (s : State ι κ) (specs : List Str) (reached : ι → Bool) : Pass ι :=
  let snap := specs.flatMap s.base.replicas.replicasOf
  ⟨specs, reached, snap, snap, [], [], s.base.now, .listing false false⟩

/-- One of the two listings; with the second one the inventory is complete. -/
def list (s : State ι κ) (p : Pass ι) (managed running : Bool) (a : Answer ι) : Pass ι :=
  let reached := s.containers.entries.filter fun e => p.reached e.1
  if !managed && (a.managed || running) then
    { p with
      managed := reached.map fun e => (e.1, e.2)
      now := s.base.now
      task := if running then .walking else .listing true false }
  else
    { p with
      running := (reached.filter fun e => e.2.running && a.listed e.1).map fun e =>
        discovered specOf e.1 e.2
      now := s.base.now
      task := if managed then .walking else .listing false true }

/-- What the pass has then read, if the backend answers. -/
def listed (s : State ι κ) (p : Pass ι) (a : Answer ι) : Option (Pass ι) :=
  match p.task with
  | .listing managed running => if a.ok then some (list specOf s p managed running a) else none
  | _ => none

variable [Floats] (node : Node κ)

/-- The pass comes to a row of its snapshot. -/
def visit (s : State ι κ) (i : Nat) (p : Pass ι) (x : Replica ι) (rest : List (Replica ι)) :
    State ι κ :=
  let p' := { p with rows := rest }
  match p.liveness x with
  | .running =>
    if x.state = .stopped then
      let p'' := { p' with running := p.running.eraseP fun r => r.id = x.id }
      match p.running.find? fun r => r.id = x.id with
      | some r =>
        if p.specs.contains x.specId then s.put i { p'' with task := .waiting x.specId r }
        else s.put i p''
      | none => s.put i p''
    else s.put i p'
  | .unknown => s.put i p'
  | .missing => s.begin i p' x.specId (.removing x.id) (.pruning · x.id none)
  | .stopped =>
    if x.state ≠ .stopped then s.begin i p' x.specId (.marking x.id p.now) .marking
    else if p.expired x.startedAt then s.put i { p' with task := .expiring x.id }
    else s.put i p'

/-- The rows are done, and the pass takes one of the running replicas that are left. -/
def adopt (s : State ι κ) (i : Nat) (p : Pass ι) (pick : ι) : Option (State ι κ) :=
  match p.running with
  | [] => some (s.put i { p with task := .reaping (p.stoppedOrphans s.base.replicas) })
  | _ => (p.running.find? fun r => r.id = pick).map fun r =>
      let p' := { p with running := p.running.eraseP fun r => r.id = pick }
      let settings := node.settings r.specId
      if p.specs.contains r.specId && !decide (settings.kind = .external) &&
        settings.containerImage.isSome then s.put i { p' with task := .waiting r.specId r }
      else s.put i p'

/-- `readopt_running_replica` under the mutex. -/
def look (s : State ι κ) (spec : Str) (r : Replica ι) : Task ι :=
  let replicas := s.base.replicas.replicasOf spec
  let sameIdPresent := replicas.any fun known => known.id = r.id
  if replicas.any fun known => known.id = r.id && known.state = .ready then .walking
  else if !sameIdPresent && decide ((node.settings spec).effectiveMaxReplicas.val ≤
    replicas.length) then .excess spec r
  else .readying spec r sameIdPresent

def advance (s : State ι κ) (i : Nat) (p : Pass ι) (a : Answer ι) : Option (State ι κ) :=
  match p.task with
  | .listing _ _ =>
    some (s.put i ((listed specOf s p a).getD { p with rows := [], task := .ended }))
  | .walking =>
    match p.rows with
    | x :: rest => some (visit s i p x rest)
    | [] => adopt node s i p a.pick
  | .waiting spec r =>
    if s.isFree spec then some (s.put i { p with task := .looking spec r }) else none
  | .looking spec r => some (s.put i { p with task := look node s spec r })
  | .excess _ r => some ((s.stop r.id a.ok).put i { p with task := .walking })
  | .readying spec r sameIdPresent => some <| s.put i { p with
      task := if a.ok then .upserting spec r else .timedOut spec r sameIdPresent }
  | .timedOut spec r sameIdPresent => some <|
      if sameIdPresent then
        (s.stop r.id a.ok).begin i p spec (.removing r.id) (.pruning · r.id (some spec))
      else (s.stop r.id a.ok).put i { p with task := .walking }
  | .upserting spec r => some { s.put i { p with task := .walking } with
      base := { s.base with replicas := s.base.replicas.upsert { r with
        state := .ready
        sessionsActive := 0
        sessionsMax := (node.settings spec).effectiveSeats.val } } }
  | .expiring r =>
    some ((s.stop r a.ok).begin i p (specOf r) (.removing r) (.pruning · r none))
  | .pruning call _ _ =>
    if s.base.hasEnded call then some (s.put i { p with task := .walking }) else none
  | .marking call =>
    if s.base.hasEnded call then some (s.put i { p with task := .walking }) else none
  | .reaping [] => some (s.put i { p with task := .ended })
  | .reaping (r :: todo) => some ((s.stop r a.ok).put i { p with task := .reaping todo })
  | .ended => none

/-- A spawn is of the spec it was asked for, and no pass is in the mutex that a call takes. -/
def admits (s : State ι κ) (c : Call ι κ) (o : Outside ι κ) : Bool :=
  (!c.phase.isQueued || s.passes.all fun p => decide (p.task.lock ≠ some c.spec)) &&
    o.spawned.all fun x => decide (x.specId = c.spec) && decide (specOf x.id = c.spec)

variable [DecidableEq κ]

/-- Calls are requests, spawns, cleanups and session sweeps; a container comes from a spawn. -/
def step (s : State ι κ) : Event ι κ → Option (State ι κ)
  | .call (.start spec p) =>
    if p.readopts then none
    else ((Proxy.Calls.machine node).step s.base (.start spec p)).map fun base => { s with base }
  | .call (.advance j o) => (s.base.calls[j]?).bind fun c =>
      if admits specOf s c o then
        (Proxy.Calls.advance node s.base j c o).map fun base => { s with base }
      else none
  | .call e => ((Proxy.Calls.machine node).step s.base e).map fun base => { s with base }
  | .create r =>
    if (s.containers.lookup r).isNone && s.base.calls.any (fun c => match c.phase with
        | .spawning _ => decide (c.spec = specOf r)
        | _ => false) then
      some { s with containers := s.containers.insert r ⟨s.base.now, false, none⟩ }
    else none
  | .start r => (s.containers.lookup r).map fun _ => { s with
      containers := s.containers.update r fun c => { c with running := true, finishedAt := none } }
  | .exit r => some { s with
      containers := s.containers.update r fun c =>
        { c with running := false, finishedAt := some s.base.now } }
  | .destroy r => some { s with containers := s.containers.erase r }
  | .begin specs reached => some { s with passes := s.passes ++ [s.snapshot specs reached] }
  | .pass i a => (s.passes[i]?).bind fun p => advance specOf node s i p a

def machine : Machine (State ι κ) (Event ι κ) := ⟨step specOf node⟩

end Steps

/-! ## What a pass has in hand -/

namespace Task

/-- The replica that is to be readopted or has been looked for, with the spec of its mutex. -/
def subject : Task ι → Option (Str × ι)
  | .waiting spec r | .looking spec r | .excess spec r | .readying spec r _ | .timedOut spec r _
  | .upserting spec r => some (spec, r.id)
  | .pruning _ r spec => spec.map fun spec => (spec, r)
  | _ => none

/-- The row that a readoption is going to write. -/
def found : Task ι → Option (Replica ι)
  | .waiting _ r | .looking _ r | .excess _ r | .readying _ r _ | .timedOut _ r _
  | .upserting _ r => some r
  | _ => none

/-- The mutex it is waiting for. -/
def waits : Task ι → Option Str
  | .waiting spec _ => some spec
  | _ => none

end Task

/-- The rows and replicas a pass has in hand are of their specs. -/
structure Pass.Labelled (specOf : ι → Str) (p : Pass ι) : Prop where
  rows : ∀ x ∈ p.rows, x.specId = specOf x.id
  running : ∀ x ∈ p.running, x.specId = specOf x.id
  subject : ∀ spec r, p.task.subject = some (spec, r) → spec = specOf r
  found : ∀ x ∈ p.task.found, x.specId = specOf x.id

theorem Pass.Labelled.go {specOf : ι → Str} {p p' : Pass ι} (h : p.Labelled specOf)
    (hrows : ∀ x ∈ p'.rows, x ∈ p.rows) (hrunning : ∀ x ∈ p'.running, x ∈ p.running)
    (hsubject : ∀ spec r, p'.task.subject = some (spec, r) → spec = specOf r)
    (hfound : ∀ x ∈ p'.task.found, x.specId = specOf x.id) : p'.Labelled specOf :=
  ⟨fun x hx => h.rows x (hrows x hx), fun x hx => h.running x (hrunning x hx), hsubject, hfound⟩

/-- The pass goes on with the rows and replicas it has. -/
theorem Pass.Labelled.proceed {specOf : ι → Str} {p : Pass ι} {task : Task ι}
    (h : p.Labelled specOf)
    (hsubject : ∀ spec r, task.subject = some (spec, r) → spec = specOf r)
    (hfound : ∀ x ∈ task.found, x.specId = specOf x.id) :
    Pass.Labelled specOf { p with task } :=
  h.go (fun _ hx => hx) (fun _ hx => hx) hsubject hfound

/-! ## One turn of a pass -/

section Turns

variable [DecidableEq ι] {specOf : ι → Str} {s s' s₀ : State ι κ} {i : Nat} {p p' : Pass ι} {r : ι}

/-- Containers have gone maybe, and the rest is as it was. -/
structure Cut (s s₀ : State ι κ) : Prop where
  base : s₀.base = s.base
  passes : s₀.passes = s.passes
  containers : ∀ r, (s₀.containers.lookup r).isSome = true →
    s₀.containers.lookup r = s.containers.lookup r

theorem Cut.refl (s : State ι κ) : Cut s s := ⟨rfl, rfl, fun _ _ => rfl⟩

theorem Cut.stop (s : State ι κ) (r : ι) (ok : Bool) : Cut s (s.stop r ok) := by
  unfold State.stop
  split
  · refine ⟨rfl, rfl, fun x hx => ?_⟩
    dsimp only at hx ⊢
    rw [Table.lookup_erase_eq] at hx ⊢
    split at hx
    · cases hx
    · next hne => rw [if_neg hne]
  · exact .refl s

theorem Cut.passes_begin (h : Cut s s₀) {spec : Str} {phase : Phase ι κ} {task : Nat → Task ι} :
    (s₀.begin i p spec phase task).passes =
      s.passes.set i { p with task := task s.base.calls.length } := by
  rw [State.begin, h.base, h.passes]

/-- What a turn does to the registry and the calls. -/
inductive Touch (b : Proxy.Calls.State ι κ) (t : Task ι) : Proxy.Calls.State ι κ → Prop where
  | keep : Touch b t b
  | remove (spec : Str) (r : ι) : Touch b t (b.begin spec (.removing r))
  | mark (spec : Str) (r : ι) (observedAt : Nat) : Touch b t (b.begin spec (.marking r observedAt))
  | upsert (spec : Str) (r x : Replica ι) (htask : t = .upserting spec r) (hid : x.id = r.id)
      (hspec : x.specId = r.specId) : Touch b t { b with replicas := b.replicas.upsert x }

namespace Touch

variable {b b' : Proxy.Calls.State ι κ} {task : Task ι} (t : Touch b task b')
include t

/-- Of the calls only a new one changes, which neither grows the registry nor takes a mutex. -/
theorem calls : ∀ c ∈ b'.calls, c ∈ b.calls ∨
    c.phase.locks = false ∧ c.phase.added = none ∧ c.phase.readopts = false := by
  cases t with
  | keep => exact fun c hc => .inl hc
  | remove spec x => exact forall_mem_concat (fun c hc => .inl hc) (.inr ⟨rfl, rfl, rfl⟩)
  | mark spec x observedAt =>
    exact forall_mem_concat (fun c hc => .inl hc) (.inr ⟨rfl, rfl, rfl⟩)
  | upsert spec x y htask hid hspec => exact fun c hc => .inl hc

/-- A row that is new is the one the pass had in hand. -/
theorem rows : ∀ y ∈ b'.replicas, y ∈ b.replicas ∨
    ∃ spec x, task = .upserting spec x ∧ y.id = x.id ∧ y.specId = x.specId := by
  cases t with
  | upsert spec x z htask hid hspec =>
    intro y hy
    rcases Registry.mem_add.mp hy with hold | rfl
    · exact .inl (Registry.mem_of_mem_remove hold)
    · exact .inr ⟨spec, x, htask, hid, hspec⟩
  | _ => exact fun y hy => .inl hy

/-- The calls under way stay as they are. -/
theorem getElem? {j : Nat} {c : Call ι κ} (hc : b.calls[j]? = some c) : b'.calls[j]? = some c := by
  have hlt : j < b.calls.length := (List.getElem?_eq_some_iff.mp hc).1
  cases t with
  | keep => exact hc
  | remove spec x => exact (List.getElem?_append_left hlt).trans hc
  | mark spec x observedAt => exact (List.getElem?_append_left hlt).trans hc
  | upsert spec x y htask hid hspec => exact hc

theorem coherent [Floats] [DecidableEq κ] {node : Node κ} (h : Coherent node b) :
    Coherent node b' := by
  cases t with
  | keep => exact h
  | remove spec x => exact h.start rfl
  | mark spec x observedAt => exact h.start rfl
  | upsert spec x y htask hid hspec => exact h.setReplicas h.distinct.upsert

end Touch

/-- What a turn makes of the state.  A pass comes to a mutex only if it was waiting for it. -/
structure Turn (s s' : State ι κ) (i : Nat) (p p' : Pass ι) : Prop where
  passes : s'.passes = s.passes.set i p'
  base : Touch s.base p.task s'.base
  containers : ∀ r, (s'.containers.lookup r).isSome = true →
    s'.containers.lookup r = s.containers.lookup r
  lock : ∀ spec, p'.task.lock = some spec → p.task.lock = some spec ∨
    p.task.waits = some spec ∧ s.isFree spec = true

namespace Turn

theorem put (hcut : Cut s s₀) (hlock : ∀ spec, p'.task.lock = some spec →
    p.task.lock = some spec ∨ p.task.waits = some spec ∧ s.isFree spec = true) :
    Turn s (s₀.put i p') i p p' where
  passes := congrArg (·.set i p') hcut.passes
  base := by
    have hkeep : Touch s.base p.task s₀.base := hcut.base ▸ .keep
    exact hkeep
  containers := hcut.containers
  lock := hlock

/-- The call that a pass begins is a removal or a restart mark. -/
theorem begin {spec : Str} {phase : Phase ι κ} {task : Nat → Task ι} (hcut : Cut s s₀)
    (hphase : ∀ b : Proxy.Calls.State ι κ, Touch b p.task (b.begin spec phase))
    (hlock : ∀ spec, (task s.base.calls.length).lock = some spec → p.task.lock = some spec) :
    Turn s (s₀.begin i p' spec phase task) i p { p' with task := task s.base.calls.length } where
  passes := hcut.passes_begin
  base := by
    have hbegin : Touch s.base p.task (s₀.base.begin spec phase) := hcut.base ▸ hphase s.base
    exact hbegin
  containers := hcut.containers
  lock spec hspec := .inl (hlock spec hspec)

variable (t : Turn s s' i p p')
include t

theorem runs (h : s'.runs r = true) : s.runs r = true := by
  unfold State.runs at h ⊢
  cases hlookup : s'.containers.lookup r with
  | none =>
    rw [hlookup] at h
    cases h
  | some c =>
    rw [← t.containers r (by rw [hlookup]; rfl)]
    exact h

end Turn

variable {a : Answer ι}

/-- The pass comes to its next row. -/
theorem turn_of_visit {x : Replica ι} {rest : List (Replica ι)} (hlabels : p.Labelled specOf)
    (hrows : p.rows = x :: rest) :
    ∃ p', Turn s (visit s i p x rest) i p p' ∧ p'.Labelled specOf := by
  have hrest : ∀ y ∈ rest, y ∈ p.rows := fun y hy => hrows ▸ List.mem_cons_of_mem x hy
  have hnext : ∃ p', Turn s (s.put i { p with rows := rest }) i p p' ∧ p'.Labelled specOf :=
    ⟨_, .put (.refl s) fun spec hspec => .inl hspec,
      hlabels.go hrest (fun _ hy => hy) hlabels.subject hlabels.found⟩
  unfold visit
  dsimp only
  split
  · split
    · have hfewer : ∀ y ∈ p.running.eraseP fun r => decide (r.id = x.id), y ∈ p.running :=
        fun _ => List.mem_of_mem_eraseP
      have htaken : ∃ p', Turn s (s.put i { p with
          rows := rest, running := p.running.eraseP fun r => r.id = x.id }) i p p' ∧
          p'.Labelled specOf :=
        ⟨_, .put (.refl s) fun spec hspec => .inl hspec,
          hlabels.go hrest hfewer hlabels.subject hlabels.found⟩
      split
      · next r hr =>
        split
        · have hid : r.id = x.id := by simpa using List.find?_some hr
          refine ⟨_, .put (.refl s) nofun, hlabels.go hrest hfewer ?_ ?_⟩
          · intro spec r' hsubject
            cases hsubject
            rw [hid]
            exact hlabels.rows x (hrows ▸ List.mem_cons_self)
          · intro y hy
            cases hy
            exact hlabels.running r (List.mem_of_find?_eq_some hr)
        · exact htaken
      · exact htaken
    · exact hnext
  · exact hnext
  · exact ⟨_, .begin (.refl s) (fun _ => .remove _ _) nofun,
      hlabels.go hrest (fun _ hy => hy) nofun nofun⟩
  · split
    · exact ⟨_, .begin (.refl s) (fun _ => .mark _ _ _) nofun,
        hlabels.go hrest (fun _ hy => hy) nofun nofun⟩
    · split
      · exact ⟨_, .put (.refl s) nofun, hlabels.go hrest (fun _ hy => hy) nofun nofun⟩
      · exact hnext

/-- One of the listings. -/
theorem turn_of_list {managed running : Bool} (hlabels : p.Labelled specOf) :
    ∃ p', Turn s (s.put i (list specOf s p managed running a)) i p p' ∧ p'.Labelled specOf := by
  unfold list
  split
  · refine ⟨_, .put (.refl s) ?_, hlabels.go (fun _ hy => hy) (fun _ hy => hy) ?_ ?_⟩
    · dsimp only
      split <;> nofun
    · dsimp only
      split <;> nofun
    · dsimp only
      split <;> nofun
  · refine ⟨_, .put (.refl s) ?_, ⟨hlabels.rows, fun x hx => ?_, ?_, ?_⟩⟩
    · dsimp only
      split <;> nofun
    · obtain ⟨e, -, rfl⟩ := List.mem_map.mp hx
      rfl
    · dsimp only
      split <;> nofun
    · dsimp only
      split <;> nofun

variable [Floats] {node : Node κ}

/-- The pass takes a replica that is left, or looks for stopped containers without a row. -/
theorem turn_of_adopt {pick : ι} (hlabels : p.Labelled specOf)
    (hstep : adopt node s i p pick = some s') :
    ∃ p', Turn s s' i p p' ∧ p'.Labelled specOf := by
  unfold adopt at hstep
  split at hstep
  · cases hstep
    exact ⟨_, .put (.refl s) nofun, hlabels.proceed nofun nofun⟩
  · obtain ⟨r, hr, hstep⟩ := Option.map_eq_some_iff.mp hstep
    have hrspec := hlabels.running r (List.mem_of_find?_eq_some hr)
    have hfewer : ∀ y ∈ p.running.eraseP fun r => decide (r.id = pick), y ∈ p.running :=
      fun _ => List.mem_of_mem_eraseP
    dsimp only at hstep
    split at hstep
    · cases hstep
      refine ⟨_, .put (.refl s) nofun, hlabels.go (fun _ hy => hy) hfewer ?_ ?_⟩
      · intro spec r' hsubject
        cases hsubject
        exact hrspec
      · intro y hy
        cases hy
        exact hrspec
    · cases hstep
      exact ⟨_, .put (.refl s) fun spec hspec => .inl hspec,
        hlabels.go (fun _ hy => hy) hfewer hlabels.subject hlabels.found⟩

/-- **What a turn of a pass does**, whatever it comes across. -/
theorem turn_of_advance (hlabels : p.Labelled specOf)
    (hstep : advance specOf node s i p a = some s') :
    ∃ p', Turn s s' i p p' ∧ p'.Labelled specOf := by
  -- inside the mutex the subject stays the same
  have hinside : ∀ {spec : Str} {r : Replica ι}, p.task.subject = some (spec, r.id) →
      ∀ spec' r', some (spec, r.id) = some (spec', r') → spec' = specOf r' :=
    fun hsubject spec' r' heq => hlabels.subject spec' r' (hsubject.trans heq)
  have hfound : ∀ {r : Replica ι}, p.task.found = some r →
      ∀ x, some r = some x → x.specId = specOf x.id :=
    fun hr x heq => hlabels.found x (hr.trans heq)
  unfold advance at hstep
  cases htask : p.task with
  | listing managed running =>
    simp only [htask] at hstep
    cases hstep
    unfold listed
    simp only [htask]
    split
    · exact turn_of_list hlabels
    · exact ⟨_, .put (.refl s) nofun, nofun, hlabels.running, nofun, nofun⟩
  | walking =>
    simp only [htask] at hstep
    split at hstep
    · next x rest hrows =>
      cases hstep
      exact turn_of_visit hlabels hrows
    · exact turn_of_adopt hlabels hstep
  | waiting spec r =>
    simp only [htask] at hstep
    split at hstep
    · next hfree =>
      cases hstep
      refine ⟨_, .put (.refl s) fun spec' hspec' => .inr ?_,
        hlabels.proceed (hinside (by rw [htask]; rfl)) (hfound (by rw [htask]; rfl))⟩
      cases hspec'
      exact ⟨by rw [htask]; rfl, hfree⟩
    · cases hstep
  | looking spec r =>
    simp only [htask] at hstep
    cases hstep
    unfold look
    dsimp only
    have hlock : ∀ spec', some spec = some spec' → p.task.lock = some spec' ∨
        p.task.waits = some spec' ∧ s.isFree spec' = true :=
      fun spec' hspec' => .inl (by rw [htask]; exact hspec')
    split
    · exact ⟨_, .put (.refl s) nofun, hlabels.proceed nofun nofun⟩
    · split
      · exact ⟨_, .put (.refl s) hlock,
          hlabels.proceed (hinside (by rw [htask]; rfl)) (hfound (by rw [htask]; rfl))⟩
      · exact ⟨_, .put (.refl s) hlock,
          hlabels.proceed (hinside (by rw [htask]; rfl)) (hfound (by rw [htask]; rfl))⟩
  | excess spec r =>
    simp only [htask] at hstep
    cases hstep
    exact ⟨_, .put (.stop s r.id a.ok) nofun, hlabels.proceed nofun nofun⟩
  | readying spec r sameIdPresent =>
    simp only [htask] at hstep
    cases hstep
    have hlock : ∀ spec', some spec = some spec' → p.task.lock = some spec' ∨
        p.task.waits = some spec' ∧ s.isFree spec' = true :=
      fun spec' hspec' => .inl (by rw [htask]; exact hspec')
    split
    · exact ⟨_, .put (.refl s) hlock,
        hlabels.proceed (hinside (by rw [htask]; rfl)) (hfound (by rw [htask]; rfl))⟩
    · exact ⟨_, .put (.refl s) hlock,
        hlabels.proceed (hinside (by rw [htask]; rfl)) (hfound (by rw [htask]; rfl))⟩
  | timedOut spec r sameIdPresent =>
    simp only [htask] at hstep
    cases hstep
    split
    · refine ⟨_, .begin (.stop s r.id a.ok) (fun _ => .remove _ _) fun spec' hspec' => ?_,
        hlabels.go (fun _ hy => hy) (fun _ hy => hy) (hinside (by rw [htask]; rfl)) nofun⟩
      rw [htask]
      exact hspec'
    · exact ⟨_, .put (.stop s r.id a.ok) nofun, hlabels.proceed nofun nofun⟩
  | upserting spec r =>
    simp only [htask] at hstep
    cases hstep
    exact ⟨{ p with task := .walking }, ⟨rfl, .upsert spec r _ htask rfl rfl, fun _ _ => rfl,
      nofun⟩, hlabels.proceed nofun nofun⟩
  | expiring r =>
    simp only [htask] at hstep
    cases hstep
    exact ⟨_, .begin (.stop s r a.ok) (fun _ => .remove _ _) nofun,
      hlabels.go (fun _ hy => hy) (fun _ hy => hy) nofun nofun⟩
  | pruning call r spec =>
    simp only [htask] at hstep
    split at hstep
    · cases hstep
      exact ⟨_, .put (.refl s) nofun, hlabels.proceed nofun nofun⟩
    · cases hstep
  | marking call =>
    simp only [htask] at hstep
    split at hstep
    · cases hstep
      exact ⟨_, .put (.refl s) nofun, hlabels.proceed nofun nofun⟩
    · cases hstep
  | reaping todo =>
    cases todo with
    | nil =>
      simp only [htask] at hstep
      cases hstep
      exact ⟨_, .put (.refl s) nofun, hlabels.proceed nofun nofun⟩
    | cons r todo =>
      simp only [htask] at hstep
      cases hstep
      exact ⟨_, .put (.stop s r a.ok) nofun, hlabels.proceed nofun nofun⟩
  | ended =>
    simp only [htask] at hstep
    cases hstep

end Turns

/-! ## What every run keeps -/

section Regular

variable [Floats] [DecidableEq κ] {node : Node κ} {specOf : ι → Str} {s s' : State ι κ}

/-- A replica that the backend has just started is a new one. -/
def AddsNew (s : State ι κ) : Event ι κ → Prop
  | .call (.advance j _) => ∀ c ∈ s.base.calls[j]?, ∀ x ∈ c.phase.added,
      ∀ y ∈ s.base.replicas, y.id ≠ x.id
  | _ => True

instance [DecidableEq ι] (s : State ι κ) : (e : Event ι κ) → Decidable (AddsNew s e)
  | .call (.advance j _) => inferInstanceAs (Decidable (∀ c ∈ s.base.calls[j]?, ∀ x ∈ c.phase.added,
      ∀ y ∈ s.base.replicas, y.id ≠ x.id))
  | .call (.start _ _) | .call (.drop _) | .call (.tick _) | .create _ | .start _ | .exit _
  | .destroy _ | .begin _ _ | .pass _ _ => isTrue trivial

/-- Rows, spawns and passes agree on the specs, and a mutex has one holder. -/
structure Regular (node : Node κ) (specOf : ι → Str) (s : State ι κ) : Prop where
  coherent : Coherent node s.base
  rows : ∀ x ∈ s.base.replicas, x.specId = specOf x.id
  added : ∀ c ∈ s.base.calls, ∀ x ∈ c.phase.added, x.specId = c.spec ∧ specOf x.id = c.spec
  readopts : ∀ c ∈ s.base.calls, c.phase.readopts = false
  passes : ∀ p ∈ s.passes, p.Labelled specOf
  alone : ∀ p ∈ s.passes, ∀ spec, p.task.lock = some spec →
    ∀ c ∈ s.base.calls, c.phase.locks = true → c.spec ≠ spec
  apart : ∀ (i j : Nat) (p q : Pass ι) (spec : Str), s.passes[i]? = some p →
    s.passes[j]? = some q → p.task.lock = some spec → q.task.lock = some spec → i = j

theorem Regular.boot {rows : Registry ι} {containers : Table ι Container} (hrows : rows.Distinct)
    (hspecs : ∀ x ∈ rows, x.specId = specOf x.id) :
    Regular node specOf (boot rows containers : State ι κ) :=
  ⟨.boot hrows, hspecs, nofun, nofun, nofun, nofun, fun _ _ _ _ _ hp => by cases hp⟩

namespace Regular

variable (h : Regular node specOf s)
include h

/-- What the calls and the containers do to the rows and the passes leaves them as they are. -/
theorem frame (hreplicas : s'.base.replicas = s.base.replicas) (hpasses : s'.passes = s.passes)
    (hcoherent : Coherent node s'.base) (hcalls : ∀ c ∈ s'.base.calls, c ∈ s.base.calls ∨
      c.phase.locks = false ∧ c.phase.added = none ∧ c.phase.readopts = false) :
    Regular node specOf s' where
  coherent := hcoherent
  rows := hreplicas ▸ h.rows
  added d hd x hx := by
    rcases hcalls d hd with hold | ⟨-, hadded, -⟩
    · exact h.added d hold x hx
    · rw [hadded] at hx
      cases hx
  readopts d hd := by
    rcases hcalls d hd with hold | ⟨-, -, hreadopts⟩
    · exact h.readopts d hold
    · exact hreadopts
  passes := hpasses ▸ h.passes
  alone p hp spec hlock d hd hlocks := by
    rw [hpasses] at hp
    rcases hcalls d hd with hold | ⟨hfree, -, -⟩
    · exact h.alone p hp spec hlock d hold hlocks
    · rw [hfree] at hlocks
      cases hlocks
  apart := hpasses ▸ h.apart

/-- A pass begins with the rows of its specs. -/
theorem begin (specs : List Str) (reached : ι → Bool) :
    Regular node specOf { s with passes := s.passes ++ [s.snapshot specs reached] } := by
  have hmem : ∀ q ∈ s.passes ++ [s.snapshot specs reached], q ∈ s.passes ∨ q.task.lock = none :=
    forall_mem_concat (fun q hq => .inl hq) (.inr rfl)
  refine ⟨h.coherent, h.rows, h.added, h.readopts,
    forall_mem_concat h.passes ⟨fun x hx => ?_, nofun, nofun, nofun⟩, ?_, ?_⟩
  · obtain ⟨spec, -, hxspec⟩ := List.mem_flatMap.mp hx
    exact h.rows x (List.mem_filter.mp hxspec).1
  · intro p hp spec hlock
    rcases hmem p hp with hold | hnone
    · exact h.alone p hold spec hlock
    · rw [hnone] at hlock
      cases hlock
  · have hold : ∀ {j : Nat} {q : Pass ι} {spec : Str}, (s.passes ++
        [s.snapshot specs reached])[j]? = some q → q.task.lock = some spec →
        s.passes[j]? = some q := by
      intro j q spec hq hlock
      refine (getElem?_concat_cases hq).resolve_left ?_
      rintro rfl
      cases hlock
    intro j k q₁ q₂ spec hq₁ hq₂ hlock₁ hlock₂
    exact h.apart j k q₁ q₂ spec (hold hq₁ hlock₁) (hold hq₂ hlock₂) hlock₁ hlock₂

end Regular

variable [DecidableEq ι] {i : Nat} {c : Call ι κ} {o : Outside ι κ} {p p' : Pass ι} {e : Event ι κ}

/-- A row after a section of a call stems from one before it, or the call had it in hand. -/
theorem stems_of_call {b b' : Proxy.Calls.State ι κ}
    (hreadopts : c.phase.readopts = false) (hc : b.calls[i]? = some c)
    (hstep : Proxy.Calls.advance node b i c o = some b') : ∀ y ∈ b'.replicas,
    Stems b.replicas y ∨ ∃ x ∈ c.phase.added, x.id = y.id ∧ x.specId = y.specId := by
  intro y hy
  rcases stems_of_advance hc hstep hy with hold | hadded | hphase
  · exact .inl hold
  · exact .inr hadded
  · rw [hphase] at hreadopts
    cases hreadopts

omit [Floats] [DecidableEq ι] [DecidableEq κ] in
theorem locks_of_added {x : Replica ι} (h : x ∈ c.phase.added) : c.phase.locks = true := by
  cases hphase : c.phase with
  | adding visit y => rfl
  | _ =>
    rw [hphase] at h
    cases h

namespace Regular

variable (h : Regular node specOf s)
include h

/-- A pass takes its turn. -/
theorem turn (t : Turn s s' i p p') (hp : s.passes[i]? = some p) (hlabels : p'.Labelled specOf) :
    Regular node specOf s' where
  coherent := t.base.coherent h.coherent
  rows y hy := by
    rcases t.base.rows y hy with hold | ⟨spec, x, htask, hid, hspec⟩
    · exact h.rows y hold
    · rw [hspec, hid]
      exact (h.passes p (List.mem_of_getElem? hp)).found x (by rw [htask]; rfl)
  added c hc x hx := by
    rcases t.base.calls c hc with hold | ⟨-, hadded, -⟩
    · exact h.added c hold x hx
    · rw [hadded] at hx
      cases hx
  readopts c hc := by
    rcases t.base.calls c hc with hold | ⟨-, -, hreadopts⟩
    · exact h.readopts c hold
    · exact hreadopts
  passes := by
    rw [t.passes]
    exact forall_mem_set h.passes hlabels
  alone q hq spec hspec d hd hlocks heq := by
    have hold : d ∈ s.base.calls := by
      rcases t.base.calls d hd with hold | ⟨hfree, -, -⟩
      · exact hold
      · rw [hfree] at hlocks
        cases hlocks
    rw [t.passes] at hq
    rcases List.mem_or_eq_of_mem_set hq with hqold | rfl
    · exact h.alone q hqold spec hspec d hold hlocks heq
    · rcases t.lock spec hspec with hheld | ⟨-, hfree⟩
      · exact h.alone p (List.mem_of_getElem? hp) spec hheld d hold hlocks heq
      · have hcall := List.all_eq_true.mp (Bool.and_eq_true_iff.mp hfree).1 d hold
        simp [hlocks, heq] at hcall
  apart := by
    have hother : ∀ j q spec, p'.task.lock = some spec → s.passes[j]? = some q →
        q.task.lock = some spec → j = i := by
      intro j q spec hspec hq hqspec
      rcases t.lock spec hspec with hheld | ⟨-, hfree⟩
      · exact h.apart j i q p spec hq hp hqspec hheld
      · have hpass := List.all_eq_true.mp (Bool.and_eq_true_iff.mp hfree).2 q
          (List.mem_of_getElem? hq)
        exact absurd hqspec (of_decide_eq_true hpass)
    intro j k q₁ q₂ spec hq₁ hq₂ hspec₁ hspec₂
    rw [t.passes] at hq₁ hq₂
    rcases getElem?_set_cases hq₁ with ⟨rfl, rfl⟩ | ⟨hj, hold₁⟩ <;>
      rcases getElem?_set_cases hq₂ with ⟨rfl, rfl⟩ | ⟨hk, hold₂⟩
    · rfl
    · exact absurd (hother k q₂ spec hspec₁ hold₂ hspec₂) hk
    · exact absurd (hother j q₁ spec hspec₂ hold₁ hspec₁) hj
    · exact h.apart j k q₁ q₂ spec hold₁ hold₂ hspec₁ hspec₂

/-- **One section of a call.** A row that it adds is of the spec whose mutex it holds. -/
theorem call (hc : s.base.calls[i]? = some c) (hadmits : admits specOf s c o = true)
    (hnew : AddsNew s (.call (.advance i o))) {b : Proxy.Calls.State ι κ}
    (hstep : Proxy.Calls.advance node s.base i c o = some b) :
    Regular node specOf { s with base := b } := by
  have hmem := List.mem_of_getElem? hc
  obtain ⟨q, hcalls, hleads⟩ := calls_of_advance hstep
  obtain ⟨hqueued, hspawned⟩ := Bool.and_eq_true_iff.mp hadmits
  have hlabel := h.added c hmem
  refine ⟨h.coherent.effect hc (fun visit x hphase => ?_) (advance_effect hc hstep), ?_, ?_, ?_,
    h.passes, ?_, h.apart⟩
  · exact hnew c hc x (by rw [hphase]; rfl)
  · intro y hy
    rcases stems_of_call (h.readopts c hmem) hc hstep y hy with
      ⟨x, hx, hid, hspec, -⟩ | ⟨x, hx, hid, hspec⟩
    · rw [← hspec, ← hid]
      exact h.rows x hx
    · rw [← hspec, ← hid, (hlabel x hx).1, (hlabel x hx).2]
  · change ∀ d ∈ b.calls, _
    rw [hcalls]
    refine forall_mem_set h.added fun x hx => ?_
    obtain ⟨y, hy, hid, hspec⟩ := hleads.added x hx
    rw [hy, Option.all_some, Bool.and_eq_true, decide_eq_true_eq, decide_eq_true_eq] at hspawned
    rw [hspec, hid]
    exact hspawned
  · change ∀ d ∈ b.calls, _
    rw [hcalls]
    refine forall_mem_set h.readopts ?_
    by_contra hq
    have hnot := h.readopts c hmem
    rw [hleads.readopts (Bool.not_eq_false _ ▸ hq)] at hnot
    cases hnot
  · intro p hp spec hlock
    change ∀ d ∈ b.calls, _
    rw [hcalls]
    refine forall_mem_set (h.alone p hp spec hlock) fun hq heq => ?_
    cases hwaits : c.phase.isQueued with
    | false => exact h.alone p hp spec hlock c hmem (hleads.locks hwaits hq) heq
    | true =>
      rw [hwaits, Bool.not_true, Bool.false_or] at hqueued
      exact of_decide_eq_true (List.all_eq_true.mp hqueued p hp) (heq ▸ hlock)

end Regular

/-- **What a step does.** -/
inductive Step (node : Node κ) (specOf : ι → Str) (s : State ι κ) :
    Event ι κ → State ι κ → Prop where
  | quiet (e : Proxy.Calls.Event ι κ) (b : Proxy.Calls.State ι κ)
      (hreplicas : b.replicas = s.base.replicas)
      (hcoherent : Coherent node s.base → Coherent node b)
      (hcalls : ∀ c ∈ b.calls, c ∈ s.base.calls ∨
        c.phase.locks = false ∧ c.phase.added = none ∧ c.phase.readopts = false)
      (hkeep : ∀ (j : Nat) (c : Call ι κ), e ≠ .drop j → s.base.calls[j]? = some c →
        b.calls[j]? = some c) : Step node specOf s (.call e) { s with base := b }
  | advance (j : Nat) (o : Outside ι κ) (c : Call ι κ) (b : Proxy.Calls.State ι κ)
      (hc : s.base.calls[j]? = some c) (hadmits : admits specOf s c o = true)
      (hadvance : Proxy.Calls.advance node s.base j c o = some b) :
      Step node specOf s (.call (.advance j o)) { s with base := b }
  | create (r : ι) (c : Call ι κ) (hc : c ∈ s.base.calls) (hlocks : c.phase.locks = true)
      (hspec : c.spec = specOf r) : Step node specOf s (.create r)
        { s with containers := s.containers.insert r ⟨s.base.now, false, none⟩ }
  | start (r : ι) : Step node specOf s (.start r) { s with
      containers := s.containers.update r fun c => { c with running := true, finishedAt := none } }
  | exit (r : ι) : Step node specOf s (.exit r) { s with
      containers := s.containers.update r fun c =>
        { c with running := false, finishedAt := some s.base.now } }
  | destroy (r : ι) : Step node specOf s (.destroy r)
      { s with containers := s.containers.erase r }
  | begin (specs : List Str) (reached : ι → Bool) : Step node specOf s (.begin specs reached)
      { s with passes := s.passes ++ [s.snapshot specs reached] }
  | pass (i : Nat) (a : Answer ι) (p : Pass ι) (s' : State ι κ) (hp : s.passes[i]? = some p)
      (hadvance : advance specOf node s i p a = some s') : Step node specOf s (.pass i a) s'

theorem step_cases (hstep : (machine specOf node).step s e = some s') :
    Step node specOf s e s' := by
  cases e with
  | call e =>
    cases e with
    | start spec phase =>
      simp only [machine, Reconcile.step] at hstep
      split at hstep
      · cases hstep
      · next hreadopts =>
        obtain ⟨b, hb, rfl⟩ := Option.map_eq_some_iff.mp hstep
        simp only [Proxy.Calls.machine] at hb
        split at hb
        · next hstart =>
          cases hb
          refine .quiet _ _ rfl (fun h => h.start hstart) (forall_mem_concat (fun c hc => .inl hc)
            (.inr ⟨?_, ?_, Bool.not_eq_true _ ▸ hreadopts⟩)) fun j c _ hc => ?_
          · cases phase <;> first | rfl | cases hstart
          · cases phase <;> first | rfl | cases hstart
          · exact (List.getElem?_append_left (List.getElem?_eq_some_iff.mp hc).1).trans hc
        · cases hb
    | advance j o =>
      obtain ⟨c, hc, hstep⟩ := Option.bind_eq_some_iff.mp hstep
      split at hstep
      · next hadmits =>
        obtain ⟨b, hb, rfl⟩ := Option.map_eq_some_iff.mp hstep
        exact .advance j o c b hc hadmits hb
      · cases hstep
    | drop j =>
      obtain ⟨b, hb, rfl⟩ := Option.map_eq_some_iff.mp hstep
      obtain ⟨c, hc, hdrop⟩ := Option.bind_eq_some_iff.mp hb
      split at hdrop
      · cases hdrop
        refine .quiet _ _ rfl (fun h => h.goto hc trivial rfl fun hq => by cases hq)
          (forall_mem_set (fun d hd => .inl hd) (.inr ⟨rfl, rfl, rfl⟩)) fun k d hk hd => ?_
        have hne : j ≠ k := by
          rintro rfl
          exact hk rfl
        exact (List.getElem?_set_ne hne).trans hd
      · cases hdrop
    | tick ms =>
      cases hstep
      exact .quiet _ _ rfl (fun h => h.tick ms) (fun c hc => .inl hc) fun _ _ _ hc => hc
  | create r =>
    simp only [machine, Reconcile.step] at hstep
    split at hstep
    · next hspawns =>
      cases hstep
      obtain ⟨c, hc, hphase⟩ := List.any_eq_true.mp (Bool.and_eq_true_iff.mp hspawns).2
      split at hphase
      · next hspawning =>
        exact .create r c hc (by rw [hspawning]; rfl) (of_decide_eq_true hphase)
      · cases hphase
    · cases hstep
  | start r =>
    obtain ⟨container, -, rfl⟩ := Option.map_eq_some_iff.mp hstep
    exact .start r
  | exit r =>
    cases hstep
    exact .exit r
  | destroy r =>
    cases hstep
    exact .destroy r
  | begin specs reached =>
    cases hstep
    exact .begin specs reached
  | pass i a =>
    obtain ⟨p, hp, hstep⟩ := Option.bind_eq_some_iff.mp hstep
    exact .pass i a p s' hp hstep

/-- **Step lemma.** -/
theorem Regular.step (h : Regular node specOf s) (hnew : AddsNew s e)
    (hstep : (machine specOf node).step s e = some s') : Regular node specOf s' := by
  cases step_cases hstep with
  | quiet e b hreplicas hcoherent hcalls hkeep =>
    exact h.frame hreplicas rfl (hcoherent h.coherent) hcalls
  | advance j o c b hc hadmits hadvance => exact h.call hc hadmits hnew hadvance
  | create r c hc hlocks hspec => exact h.frame rfl rfl h.coherent fun c hc => .inl hc
  | start r => exact h.frame rfl rfl h.coherent fun c hc => .inl hc
  | exit r => exact h.frame rfl rfl h.coherent fun c hc => .inl hc
  | destroy r => exact h.frame rfl rfl h.coherent fun c hc => .inl hc
  | begin specs reached => exact h.begin specs reached
  | pass i a p s' hp hadvance =>
    obtain ⟨p', t, hlabels⟩ := turn_of_advance (h.passes p (List.mem_of_getElem? hp)) hadvance
    exact h.turn t hp hlabels

end Regular

end Ruscker.Scaler.Reconcile
