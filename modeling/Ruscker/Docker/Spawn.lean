import Ruscker.Core.Registry
import Ruscker.Lib.Machine
import Ruscker.Lib.Numeral
import Ruscker.Proxy.Spawn

/-!
# Spawning a container for a visit

`pick_or_spawn` waits for the daemon at every step of `spawn_request`.  Each wait is a phase;
the answer decides the next one.  The future of the request can be dropped at any of them, and
the daemon may have served the request it was waiting on by then.
-/

namespace Ruscker.Docker

open Machines Machines.Machine Numerals

variable {ι γ α : Type*}

/-! ## The steps of a spawn -/

/-- The two phases of `wait_for_ready`. -/
inductive Stage where
  | tcp | http
  deriving DecidableEq

/-- What the error of a failed spawn names. -/
inductive Failure (α : Type*) where
  | request
  | pullImage
  | createNetwork
  | createContainer
  | startContainer
  | inspectContainer
  | notPublished (exitCode : Option Int)
  | noHostPort
  | parseHostPort (port : Str)
  | resolveUpstream
  | noAddress
  | exited (stage : Stage) (upstream : α) (code : Int)
  | neverReady (stage : Stage) (upstream : α)
  deriving DecidableEq

/-- A row of the registry with its container. -/
structure Hosted (ι γ α : Type*) extends Replica ι where
  containerId : γ
  upstream : α
  deriving DecidableEq

inductive Outcome (ι γ α : Type*) where
  | found
  | spawned (row : Hosted ι γ α)
  | failed (failure : Failure α) (log : List Str)
  | dropped

/-- What the call waits for. -/
inductive Phase (ι γ α : Type*) where
  -- `pick_or_spawn` up to the request
  | fast
  | queued
  | recheck
  | resolving
  -- `ensure_image_pulled` and `ensure_network`
  | inspectingImage
  | pulling
  | inspectingNetwork
  | creatingNetwork
  | reinspectingNetwork
  -- the container
  | creating
  | starting (container : γ)
  | inspecting (container : γ)
  | diagnosing (container : γ)
  -- `wait_for_ready`
  | trying (container : γ) (upstream : α) (stage : Stage)
  | checking (container : γ) (upstream : α) (stage : Stage)
  | sleeping (container : γ) (upstream : α) (stage : Stage)
  -- `readiness_failure`, the removal after an error, and the write lock of the registry
  | logging (container : γ) (failure : Failure α)
  | removing (container : γ) (failure : Failure α) (log : List Str)
  | inserting (container : γ) (upstream : α) (startedAt : Nat)
  | ended (outcome : Outcome ι γ α)

inductive Reply (γ α : Type*) where
  | ok
  | failed
  -- a replica that takes the visit
  | found
  -- one more event of a stream
  | more
  | created (container : γ)
  -- the bindings of the inner port, and the address of the published one
  | inspected (bindings : Option (Option Str)) (resolved : Option (Option α))
  -- of a container that stopped, and whether the deadline is past
  | exitCode (code : Option Int) (late : Bool)
  | serving (now : Nat)
  | logs (lines : List Str)
  deriving DecidableEq

namespace Phase

/-- The container the call has made and neither registered nor removed. -/
def container : Phase ι γ α → Option γ
  | .starting c | .inspecting c | .diagnosing c | .trying c _ _ | .checking c _ _ | .sleeping c _ _
  | .logging c _ | .removing c _ _ | .inserting c _ _ => some c
  | _ => none

def hasEnded : Phase ι γ α → Bool
  | .ended _ => true
  | _ => false

end Phase

section Steps

variable [Floats] (spec : Spec Settings) (req : SpawnRequest) (id : ι)

/-- The network is only looked at when the request names one. -/
def afterImage : Phase ι γ α := if req.network.isSome then .inspectingNetwork else .creating

/-- A port that is bound and an address for it, or the container goes. -/
def afterInspect (c : γ) (bindings : Option (Option Str)) (resolved : Option (Option α)) :
    Phase ι γ α :=
  match bindings with
  | none => .diagnosing c
  | some none => .removing c .noHostPort []
  | some (some port) =>
    if (parseNat port).all fun n => decide (2 ^ 16 ≤ n) then .removing c (.parseHostPort port) []
    else match resolved with
      | none => .removing c .resolveUpstream []
      | some none => .removing c .noAddress []
      | some (some upstream) => .trying c upstream .tcp

/-- The new row; its first seat is that of the visit, unless the spec is an API. -/
def newRow (c : γ) (upstream : α) (startedAt : Nat) : Hosted ι γ α where
  id
  specId := req.specId
  state := .ready
  startedAt
  sessionsActive := if spec.settings.kind = .api then 0 else 1
  sessionsMax := spec.settings.effectiveSeats.val
  containerId := c
  upstream

/-- The phase after a reply; `none` where the reply answers something else. -/
def next : Phase ι γ α → Reply γ α → Option (Phase ι γ α)
  | .fast, .found => some (.ended .found)
  | .fast, .ok => some .queued
  | .queued, .ok => some .recheck
  | .recheck, .found => some (.ended .found)
  | .recheck, .ok => some .resolving
  | .resolving, .ok => some .inspectingImage
  | .resolving, .failed => some (.ended (.failed .request []))
  | .inspectingImage, .ok => some (afterImage req)
  | .inspectingImage, .failed => some .pulling
  | .pulling, .more => some .pulling
  | .pulling, .ok => some (afterImage req)
  | .pulling, .failed => some (.ended (.failed .pullImage []))
  | .inspectingNetwork, .ok => some .creating
  | .inspectingNetwork, .failed => some .creatingNetwork
  | .creatingNetwork, .ok => some .creating
  | .creatingNetwork, .failed => some .reinspectingNetwork
  | .reinspectingNetwork, .ok => some .creating
  | .reinspectingNetwork, .failed => some (.ended (.failed .createNetwork []))
  | .creating, .created c => some (.starting c)
  | .creating, .failed => some (.ended (.failed .createContainer []))
  | .starting c, .ok => some (.inspecting c)
  | .starting c, .failed => some (.removing c .startContainer [])
  | .inspecting c, .inspected bindings resolved => some (afterInspect c bindings resolved)
  | .inspecting c, .failed => some (.removing c .inspectContainer [])
  | .diagnosing c, .exitCode code _ => some (.logging c (.notPublished code))
  | .trying c upstream .tcp, .ok => some (.trying c upstream .http)
  | .trying c upstream .http, .serving now => some (.inserting c upstream now)
  | .trying c upstream stage, .failed => some (.checking c upstream stage)
  | .checking c upstream stage, .exitCode (some code) _ =>
    some (.logging c (.exited stage upstream code))
  | .checking c upstream stage, .exitCode none late =>
    some (if late then .logging c (.neverReady stage upstream) else .sleeping c upstream stage)
  | .sleeping c upstream stage, .ok => some (.trying c upstream stage)
  | .logging c failure, .logs lines => some (.removing c failure lines)
  | .logging c failure, .failed => some (.removing c failure [])
  -- a failed removal is only logged
  | .removing _ failure log, .ok => some (.ended (.failed failure log))
  | .removing _ failure log, .failed => some (.ended (.failed failure log))
  | .inserting c upstream startedAt, .ok =>
    some (.ended (.spawned (newRow spec req id c upstream startedAt)))
  | _, _ => none

end Steps

/-! ## The call on its host -/

/-- The call, its daemon's containers, those the call made, and the registry. -/
structure State (ι γ α : Type*) where
  phase : Phase ι γ α
  host : List γ
  created : List γ
  replicas : List (Hosted ι γ α)

inductive Event (ι γ α : Type*) where
  | reply (r : Reply γ α)
  -- the future is dropped; the daemon may have served the request by then
  | drop (served : Option (Reply γ α))
  -- what other calls do meanwhile
  | others (host : List γ) (replicas : List (Hosted ι γ α))

def Registered (replicas : List (Hosted ι γ α)) (c : γ) : Prop :=
  ∃ row ∈ replicas, row.containerId = c

instance [DecidableEq γ] (replicas : List (Hosted ι γ α)) (c : γ) :
    Decidable (Registered replicas c) :=
  inferInstanceAs (Decidable (∃ row ∈ replicas, row.containerId = c))

section Machine

variable [DecidableEq γ]

/-- The containers once the daemon has served a request. -/
def served (p : Phase ι γ α) (r : Reply γ α) (host : List γ) : List γ :=
  match p, r with
  | .creating, .created c => c :: host
  | .removing c _ _, .ok => host.filter fun c' => c' ≠ c
  | _, _ => host

def made (p : Phase ι γ α) (r : Reply γ α) (created : List γ) : List γ :=
  match p, r with
  | .creating, .created c => c :: created
  | _, _ => created

/-- The daemon never gives an id twice. -/
def isNewId (s : State ι γ α) : Reply γ α → Bool
  | .created c => decide (c ∉ s.host) && decide (¬ Registered s.replicas c)
  | _ => true

/-- Only the last step of a spawn writes to the registry. -/
def enrolled (q : Phase ι γ α) (replicas : List (Hosted ι γ α)) : List (Hosted ι γ α) :=
  match q with
  | .ended (.spawned row) => replicas ++ [row]
  | _ => replicas

/-- The other calls leave a container alone that is not theirs. -/
def leaves (s : State ι γ α) (host : List γ) (replicas : List (Hosted ι γ α)) : Bool :=
  s.created.all fun c => decide (c ∈ host ↔ c ∈ s.host) &&
    decide (Registered replicas c ↔ Registered s.replicas c)

variable [Floats] (spec : Spec Settings) (req : SpawnRequest) (id : ι)

def machine : Machine (State ι γ α) (Event ι γ α) where
  step s
    | .reply r => if isNewId s r then (next spec req id s.phase r).map fun q =>
        ⟨q, served s.phase r s.host, made s.phase r s.created, enrolled q s.replicas⟩
      else none
    | .drop none => if s.phase.hasEnded then none else some { s with phase := .ended .dropped }
    | .drop (some r) => if isNewId s r && (next spec req id s.phase r).isSome then some
        { s with
          phase := .ended .dropped
          host := served s.phase r s.host
          created := made s.phase r s.created }
      else none
    | .others host replicas => if leaves s host replicas then some { s with host, replicas } else none

end Machine

/-- Every container the call made is in the registry or off the host. -/
def Unleaked (s : State ι γ α) : Prop := ∀ c ∈ s.created, Registered s.replicas c ∨ c ∉ s.host

/-- A removal that is attempted succeeds. -/
def RemovalWorks (s : State ι γ α) : Event ι γ α → Prop
  | .reply r | .drop (some r) => ∀ c failure log, s.phase = .removing c failure log → r ≠ .failed
  | _ => True

/-- The call has no container where it is dropped.  At the creation the daemon must not have
served it yet, at the removal it must have. -/
def MayDrop (p : Phase ι γ α) (answer : Option (Reply γ α)) : Prop :=
  match p, answer with
  | .creating, some (.created _) => False
  | .removing _ _ _, some .ok => True
  | p, _ => p.container = none

/-- The call is only dropped where it may be. -/
def Uncut (s : State ι γ α) : Event ι γ α → Prop
  | .drop answer => MayDrop s.phase answer
  | _ => True

/-! ## What a step does to the call's container -/

section Containers

variable {p q : Phase ι γ α} {r : Reply γ α}

theorem container_afterInspect (c : γ) (bindings : Option (Option Str))
    (resolved : Option (Option α)) :
    (afterInspect c bindings resolved : Phase ι γ α).container = some c := by
  unfold afterInspect
  split
  · rfl
  · rfl
  · split
    · rfl
    · split
      · rfl
      · rfl
      · rfl

/-- A step that neither makes, registers nor removes a container: it keeps the one there is, and
only a call without one ends. -/
structure Keeps (p q : Phase ι γ α) (r : Reply γ α) : Prop where
  container : q.container = p.container
  ended : q.hasEnded = true → p.container = none
  unregistered : ∀ row, q ≠ .ended (.spawned row)
  uncreated : p = .creating → ∀ c, r ≠ .created c
  unremoved : ∀ c failure log, p ≠ .removing c failure log

/-- Before the creation. -/
theorem Keeps.early (hp : p.container = none) (hcreating : p ≠ .creating)
    (hq : q.container = none) (hrow : ∀ row, q ≠ .ended (.spawned row)) : Keeps p q r where
  container := hq.trans hp.symm
  ended _ := hp
  unregistered := hrow
  uncreated h := absurd h hcreating
  unremoved := by
    rintro c failure log rfl
    cases hp

/-- Between the creation and the last step. -/
theorem Keeps.late {c : γ} (hp : p.container = some c)
    (hremoving : ∀ c failure log, p ≠ .removing c failure log) (hq : q.container = some c) :
    Keeps p q r where
  container := hq.trans hp.symm
  ended h := by
    cases q with
    | ended outcome => cases hq
    | _ => cases h
  unregistered := by
    rintro row rfl
    cases hq
  uncreated := by
    rintro rfl
    cases hp
  unremoved := hremoving

variable [Floats] {spec : Spec Settings} {req : SpawnRequest} {id : ι}

theorem container_afterImage (req : SpawnRequest) : (afterImage req : Phase ι γ α).container = none ∧
    ∀ row, afterImage req ≠ (.ended (.spawned row) : Phase ι γ α) := by
  unfold afterImage
  split
  · exact ⟨rfl, nofun⟩
  · exact ⟨rfl, nofun⟩

/-- A container comes with the creation, stays with the call, and goes with its last step. -/
theorem next_cases (h : next spec req id p r = some q) :
    (∃ c, p = .creating ∧ r = .created c ∧ q = .starting c) ∨
    (∃ c upstream startedAt, p = .inserting c upstream startedAt ∧
      q = .ended (.spawned (newRow spec req id c upstream startedAt))) ∨
    (∃ c failure log, p = .removing c failure log ∧ (r = .ok ∨ r = .failed) ∧
      q = .ended (.failed failure log)) ∨
    Keeps p q r := by
  have himage : (afterImage req : Phase ι γ α).container = none ∧
      ∀ row, afterImage req ≠ (.ended (.spawned row) : Phase ι γ α) := container_afterImage req
  obtain ⟨hnone, hrow⟩ := himage
  cases p with
  | creating =>
    cases r with
    | created c =>
      cases h
      exact .inl ⟨c, rfl, rfl, rfl⟩
    | failed =>
      cases h
      exact .inr (.inr (.inr ⟨rfl, fun _ => rfl, nofun, nofun, nofun⟩))
    | _ => cases h
  | inserting c upstream startedAt =>
    cases r with
    | ok =>
      cases h
      exact .inr (.inl ⟨c, upstream, startedAt, rfl, rfl⟩)
    | _ => cases h
  | removing c failure log =>
    cases r with
    | ok =>
      cases h
      exact .inr (.inr (.inl ⟨c, failure, log, rfl, .inl rfl, rfl⟩))
    | failed =>
      cases h
      exact .inr (.inr (.inl ⟨c, failure, log, rfl, .inr rfl, rfl⟩))
    | _ => cases h
  | ended outcome => cases r <;> cases h
  | inspectingImage =>
    refine .inr (.inr (.inr ?_))
    cases r with
    | ok =>
      cases h
      exact .early rfl nofun hnone hrow
    | failed =>
      cases h
      exact .early rfl nofun rfl nofun
    | _ => cases h
  | pulling =>
    refine .inr (.inr (.inr ?_))
    cases r with
    | ok =>
      cases h
      exact .early rfl nofun hnone hrow
    | more =>
      cases h
      exact .early rfl nofun rfl nofun
    | failed =>
      cases h
      exact .early rfl nofun rfl nofun
    | _ => cases h
  | inspecting c =>
    refine .inr (.inr (.inr ?_))
    cases r with
    | inspected bindings resolved =>
      cases h
      exact .late rfl nofun (container_afterInspect c bindings resolved)
    | failed =>
      cases h
      exact .late rfl nofun rfl
    | _ => cases h
  | trying c upstream stage =>
    refine .inr (.inr (.inr ?_))
    cases stage <;> cases r <;> cases h
    all_goals exact .late rfl nofun rfl
  | checking c upstream stage =>
    refine .inr (.inr (.inr ?_))
    cases r with
    | exitCode code late =>
      cases code with
      | none =>
        cases h
        cases late
        · exact .late rfl nofun rfl
        · exact .late rfl nofun rfl
      | some code =>
        cases h
        exact .late rfl nofun rfl
    | _ => cases h
  | starting c =>
    refine .inr (.inr (.inr ?_))
    cases r <;> cases h
    all_goals exact .late rfl nofun rfl
  | diagnosing c =>
    refine .inr (.inr (.inr ?_))
    cases r <;> cases h
    exact .late rfl nofun rfl
  | sleeping c upstream stage =>
    refine .inr (.inr (.inr ?_))
    cases r <;> cases h
    exact .late rfl nofun rfl
  | logging c failure =>
    refine .inr (.inr (.inr ?_))
    cases r <;> cases h
    all_goals exact .late rfl nofun rfl
  | _ =>
    refine .inr (.inr (.inr ?_))
    cases r <;> cases h
    all_goals exact .early rfl nofun rfl nofun

end Containers

/-! ## Runs of a call -/

section Runs

variable {s s' : State ι γ α} {e : Event ι γ α} {p q : Phase ι γ α} {r : Reply γ α}

namespace Keeps

theorem made (h : Keeps p q r) (created : List γ) : made p r created = created := by
  unfold Docker.made
  split
  · exact absurd rfl (h.uncreated rfl _)
  · rfl

theorem enrolled (h : Keeps p q r) (replicas : List (Hosted ι γ α)) :
    enrolled q replicas = replicas := by
  unfold Docker.enrolled
  split
  · exact absurd rfl (h.unregistered _)
  · rfl

theorem served [DecidableEq γ] (h : Keeps p q r) (host : List γ) : served p r host = host := by
  unfold Docker.served
  split
  · exact absurd rfl (h.uncreated rfl _)
  · exact absurd rfl (h.unremoved _ _ _)
  · rfl

/-- A drop anywhere else than at the creation or the removal. -/
theorem mayDrop_iff (h : Keeps p q r) : MayDrop p (some r) ↔ p.container = none := by
  unfold MayDrop
  split
  · next heq =>
    cases heq
    exact absurd rfl (h.uncreated rfl _)
  · exact absurd rfl (h.unremoved _ _ _)
  · exact Iff.rfl

end Keeps

theorem mayDrop_none_iff : MayDrop p (none : Option (Reply γ α)) ↔ p.container = none := by
  unfold MayDrop
  split
  · next heq => cases heq
  · next heq => cases heq
  · exact Iff.rfl

/-- A call under way: its container is on the host, and not in the registry. -/
structure Open (s : State ι γ α) : Prop where
  going : s.phase.hasEnded = false
  created : s.created = s.phase.container.toList
  alive : ∀ c ∈ s.created, c ∈ s.host ∧ ¬ Registered s.replicas c

namespace Open

variable (h : Open s)
include h

/-- A call that ends without a container leaks none. -/
theorem unleaked_of_none (hnone : s.phase.container = none) (hcreated : s'.created = s.created) :
    Unleaked s' := by
  intro c hc
  rw [hcreated, h.created, hnone] at hc
  cases hc

/-- A call that ends with a container, and leaves host and registry as they are, leaks it. -/
theorem leaked_of_some (hsome : s.phase.container ≠ none) (hcreated : s'.created = s.created)
    (hhost : s'.host = s.host) (hreplicas : s'.replicas = s.replicas) : ¬ Unleaked s' := by
  intro hunleaked
  obtain ⟨c, hc⟩ := Option.ne_none_iff_exists'.mp hsome
  have hmem : c ∈ s.created := by
    rw [h.created, hc]
    exact List.mem_singleton_self c
  obtain ⟨halive, hfree⟩ := h.alive c hmem
  rcases hunleaked c (hcreated ▸ hmem) with hregistered | hgone
  · exact hfree (hreplicas ▸ hregistered)
  · exact hgone (hhost ▸ halive)

theorem created_of_container {c : γ} (hc : s.phase.container = some c) : s.created = [c] := by
  rw [h.created, hc]
  rfl

variable [DecidableEq γ] [Floats] {spec : Spec Settings} {req : SpawnRequest} {id : ι}

/-- The daemon answers, and the call goes on. -/
theorem reply (hworks : RemovalWorks s (.reply r))
    (hstep : (machine spec req id).step s (.reply r) = some s') :
    Open s' ∨ (s'.phase.hasEnded = true ∧ Unleaked s') := by
  change (if _ then _ else _) = _ at hstep
  split at hstep
  · next hid =>
    obtain ⟨q, hnext, rfl⟩ := Option.map_eq_some_iff.mp hstep
    rcases next_cases hnext with ⟨c, hphase, rfl, rfl⟩ | ⟨c, upstream, startedAt, hphase, rfl⟩ |
      ⟨c, failure, log, hphase, hr, rfl⟩ | hkeeps
    · -- the creation
      left
      have hcreated : s.created = [] := by
        rw [h.created, hphase]
        rfl
      obtain ⟨-, hfree⟩ := (Bool.and_eq_true _ _).mp hid
      rw [hphase, hcreated]
      refine ⟨rfl, rfl, fun c' hc' => ?_⟩
      rw [List.mem_singleton.mp hc']
      exact ⟨List.mem_cons_self, of_decide_eq_true hfree⟩
    · -- the registration
      right
      have hcreated := h.created_of_container (c := c) (by rw [hphase]; rfl)
      rw [hphase, hcreated]
      refine ⟨rfl, fun c' hc' => .inl ?_⟩
      rw [List.mem_singleton.mp (hc' : c' ∈ [c])]
      exact ⟨_, List.mem_append_right _ (List.mem_singleton_self _), rfl⟩
    · -- the removal
      right
      have hcreated := h.created_of_container (c := c) (by rw [hphase]; rfl)
      obtain rfl : r = .ok := hr.resolve_right (hworks c failure log hphase)
      rw [hphase, hcreated]
      refine ⟨rfl, fun c' hc' => .inr fun hhost => ?_⟩
      rw [List.mem_singleton.mp (hc' : c' ∈ [c])] at hhost
      simp [served] at hhost
    · rw [hkeeps.served, hkeeps.made, hkeeps.enrolled]
      cases hended : q.hasEnded with
      | true => exact .inr ⟨rfl, h.unleaked_of_none (hkeeps.ended hended) rfl⟩
      | false =>
        refine .inl ⟨hended, ?_, h.alive⟩
        change s.created = q.container.toList
        rw [hkeeps.container]
        exact h.created
  · cases hstep

/-- The future is dropped. -/
theorem drop {answer : Option (Reply γ α)} (hworks : RemovalWorks s (.drop answer))
    (hstep : (machine spec req id).step s (.drop answer) = some s') :
    s'.phase.hasEnded = true ∧ (Unleaked s' ↔ Uncut s (.drop answer)) := by
  cases answer with
  | none =>
    change (if _ then _ else _) = _ at hstep
    split at hstep
    · cases hstep
    · cases hstep
      refine ⟨rfl, ?_⟩
      change _ ↔ MayDrop s.phase none
      rw [mayDrop_none_iff]
      by_cases hnone : s.phase.container = none
      · exact iff_of_true (h.unleaked_of_none hnone rfl) hnone
      · exact iff_of_false (h.leaked_of_some hnone rfl rfl rfl) hnone
  | some r =>
    change (if _ then _ else _) = _ at hstep
    split at hstep
    · next hserved =>
      cases hstep
      obtain ⟨hid, hnext⟩ := (Bool.and_eq_true _ _).mp hserved
      obtain ⟨q, hnext⟩ := Option.isSome_iff_exists.mp hnext
      refine ⟨rfl, ?_⟩
      rcases next_cases hnext with ⟨c, hphase, rfl, rfl⟩ |
        ⟨c, upstream, startedAt, hphase, rfl⟩ | ⟨c, failure, log, hphase, hr, rfl⟩ | hkeeps
      · -- the container is there, and nobody knows its id
        obtain ⟨-, hfree⟩ := (Bool.and_eq_true _ _).mp hid
        refine iff_of_false (fun hunleaked => ?_) (fun huncut => ?_)
        · rcases hunleaked c (by simp [made, hphase]) with hregistered | hgone
          · exact of_decide_eq_true hfree hregistered
          · exact hgone (by simp [served, hphase])
        · change MayDrop s.phase _ at huncut
          rw [hphase] at huncut
          exact huncut
      · have hsome : s.phase.container ≠ none := by rw [hphase]; nofun
        refine iff_of_false (h.leaked_of_some hsome ?_ ?_ rfl) (fun huncut => ?_)
        · rw [hphase]
          rfl
        · rw [hphase]
          rfl
        · change MayDrop s.phase _ at huncut
          rw [hphase] at huncut
          cases huncut
      · -- the removal is served
        have hcreated := h.created_of_container (c := c) (by rw [hphase]; rfl)
        obtain rfl : r = .ok := hr.resolve_right (hworks c failure log hphase)
        refine iff_of_true (fun c' hc' => .inr fun hhost => ?_) ?_
        · rw [hphase, hcreated] at hc'
          rw [List.mem_singleton.mp (hc' : c' ∈ [c]), hphase] at hhost
          simp [served] at hhost
        · change MayDrop s.phase _
          rw [hphase]
          trivial
      · change _ ↔ MayDrop s.phase (some r)
        rw [hkeeps.mayDrop_iff, hkeeps.served, hkeeps.made]
        by_cases hnone : s.phase.container = none
        · exact iff_of_true (h.unleaked_of_none hnone rfl) hnone
        · exact iff_of_false (h.leaked_of_some hnone rfl rfl rfl) hnone
    · cases hstep

end Open

section Others

variable [DecidableEq γ] {host : List γ} {replicas : List (Hosted ι γ α)} {c : γ}

theorem mem_iff_of_leaves (h : leaves s host replicas = true) (hc : c ∈ s.created) :
    (c ∈ host ↔ c ∈ s.host) ∧ (Registered replicas c ↔ Registered s.replicas c) := by
  obtain ⟨hhost, hreplicas⟩ := (Bool.and_eq_true _ _).mp (List.all_eq_true.mp h c hc)
  exact ⟨of_decide_eq_true hhost, of_decide_eq_true hreplicas⟩

/-- What the other calls do does not matter. -/
theorem unleaked_iff_of_leaves (h : leaves s host replicas = true) :
    Unleaked { s with host, replicas } ↔ Unleaked s := by
  constructor
  · intro hunleaked c hc
    obtain ⟨hhost, hreplicas⟩ := mem_iff_of_leaves h hc
    exact (hunleaked c hc).imp hreplicas.mp (mt hhost.mpr)
  · intro hunleaked c hc
    obtain ⟨hhost, hreplicas⟩ := mem_iff_of_leaves h hc
    exact (hunleaked c hc).imp hreplicas.mpr (mt hhost.mp)

theorem Open.others (h : Open s) (hleaves : leaves s host replicas = true) :
    Open { s with host, replicas } where
  going := h.going
  created := h.created
  alive c hc := by
    obtain ⟨hhost, hreplicas⟩ := mem_iff_of_leaves hleaves hc
    obtain ⟨halive, hfree⟩ := h.alive c hc
    exact ⟨hhost.mpr halive, mt hreplicas.mp hfree⟩

variable [Floats] {spec : Spec Settings} {req : SpawnRequest} {id : ι}

/-- Every step of a call under way leaves it so, or ends it. -/
theorem Open.step (h : Open s) (hworks : RemovalWorks s e)
    (hstep : (machine spec req id).step s e = some s') :
    (Uncut s e ∧ Open s') ∨ (s'.phase.hasEnded = true ∧ (Unleaked s' ↔ Uncut s e)) := by
  cases e with
  | reply r =>
    rcases h.reply hworks hstep with hopen | ⟨hended, hunleaked⟩
    · exact .inl ⟨trivial, hopen⟩
    · exact .inr ⟨hended, iff_of_true hunleaked trivial⟩
  | drop answer => exact .inr (h.drop hworks hstep)
  | others host replicas =>
    change (if _ then _ else _) = _ at hstep
    split at hstep
    · next hleaves =>
      cases hstep
      exact .inl ⟨trivial, h.others hleaves⟩
    · cases hstep

/-- A call that has ended does nothing any more. -/
theorem step_of_ended (hended : s.phase.hasEnded = true)
    (hstep : (machine spec req id).step s e = some s') :
    Uncut s e ∧ s'.phase.hasEnded = true ∧ (Unleaked s' ↔ Unleaked s) := by
  obtain ⟨outcome, hphase⟩ : ∃ outcome, s.phase = .ended outcome := by
    cases hphase : s.phase with
    | ended outcome => exact ⟨outcome, rfl⟩
    | _ =>
      rw [hphase] at hended
      cases hended
  have hnext : ∀ r, next spec req id s.phase r = none := by
    intro r
    rw [hphase]
    cases r <;> rfl
  cases e with
  | reply r =>
    change (if _ then _ else _) = _ at hstep
    rw [hnext] at hstep
    split at hstep <;> cases hstep
  | drop answer =>
    cases answer with
    | none =>
      change (if _ then _ else _) = _ at hstep
      rw [if_pos hended] at hstep
      cases hstep
    | some r =>
      change (if _ then _ else _) = _ at hstep
      rw [hnext] at hstep
      split at hstep
      · next hserved => exact absurd ((Bool.and_eq_true _ _).mp hserved).2 nofun
      · cases hstep
  | others host replicas =>
    change (if _ then _ else _) = _ at hstep
    split at hstep
    · next hleaves =>
      cases hstep
      exact ⟨trivial, hended, unleaked_iff_of_leaves hleaves⟩
    · cases hstep

theorem run_of_ended {ok : State ι γ α → Event ι γ α → Prop} {es : List (Event ι γ α)}
    (hended : s.phase.hasEnded = true) (h : (machine spec req id).Run ok s es s') :
    (Unleaked s' ↔ Unleaked s) ∧ (machine spec req id).Run Uncut s es s' := by
  induction h with
  | nil s => exact ⟨Iff.rfl, .nil s⟩
  | cons _ hstep _ ih =>
    obtain ⟨huncut, hended', hsame⟩ := step_of_ended hended hstep
    obtain ⟨hrest, hrun⟩ := ih hended'
    exact ⟨hrest.trans hsame, .cons huncut hstep hrun⟩

theorem Open.run {es : List (Event ι γ α)} (h : Open s)
    (hrun : (machine spec req id).Run RemovalWorks s es s') (hended : s'.phase.hasEnded = true) :
    Unleaked s' ↔ (machine spec req id).Run Uncut s es s' := by
  induction hrun with
  | nil s =>
    rw [h.going] at hended
    cases hended
  | cons hworks hstep hrest ih =>
    rw [Run.cons_iff hstep]
    rcases h.step hworks hstep with ⟨huncut, hopen⟩ | ⟨hend, hiff⟩
    · rw [ih hopen hended]
      exact (and_iff_right huncut).symm
    · obtain ⟨hsame, hrun⟩ := run_of_ended hend hrest
      rw [hsame, hiff]
      exact (and_iff_left hrun).symm

/-- **No container is left behind.** With removals that work, a call of `pick_or_spawn` that has
ended has registered or removed every container it made exactly when it was not dropped while it
had one. -/
theorem unleaked_iff_uncut {es : List (Event ι γ α)} (hfast : s.phase = .fast)
    (hnone : s.created = []) (h : (machine spec req id).Run RemovalWorks s es s')
    (hended : s'.phase.hasEnded = true) :
    Unleaked s' ↔ (machine spec req id).Run Uncut s es s' := by
  have hopen : Open s := by
    refine ⟨?_, ?_, ?_⟩
    · rw [hfast]
      rfl
    · rw [hfast, hnone]
      rfl
    · rw [hnone]
      exact fun c hc => absurd hc List.not_mem_nil
  exact hopen.run h hended

end Others

end Runs

/-! ## A container that never gets ready -/

section Example

attribute [local instance] wholeFloats

def labSpec : Spec Settings := ⟨"lab".toList, none, none, bareSettings "Lab" .empty⟩

def labRequest : SpawnRequest := .new "lab".toList "lab:1".toList

def atRest : State Nat Nat Nat := ⟨.fast, [], [], []⟩

/-- The container is made and started. -/
def started : List (Event Nat Nat Nat) :=
  [.reply .ok, .reply .ok, .reply .ok, .reply .ok, .reply .ok, .reply (.created 1), .reply .ok]

/-- It exits before it publishes its port; its log is read, and it is removed. -/
def exitsAtOnce : List (Event Nat Nat Nat) :=
  started ++ [.reply (.inspected none none), .reply (.exitCode (some 1) false),
    .reply (.logs ["no database".toList]), .reply .ok]

theorem unleaked_iff_uncut_exitsAtOnce : ∃ s : State Nat Nat Nat,
    s.created = [1] ∧ s.host = [] ∧ Unleaked s := by
  have hrun : ∃ s, (machine labSpec labRequest 0).exec atRest exitsAtOnce = some s ∧
      s.phase.hasEnded = true ∧ s.created = [1] ∧ s.host = [] := ⟨_, rfl, rfl, rfl, rfl⟩
  obtain ⟨s, hexec, hended, hcreated, hhost⟩ := hrun
  have hreplies : ∀ e ∈ exitsAtOnce, ∃ r, e = .reply r ∧ r ≠ .failed := by
    simp [exitsAtOnce, started]
  have hworks : (machine labSpec labRequest 0).Run RemovalWorks atRest exitsAtOnce s := by
    refine run_of_exec hexec fun s e he => ?_
    obtain ⟨r, rfl, hr⟩ := hreplies e he
    exact fun _ _ _ _ => hr
  have huncut : (machine labSpec labRequest 0).Run Uncut atRest exitsAtOnce s := by
    refine run_of_exec hexec fun s e he => ?_
    obtain ⟨r, rfl, -⟩ := hreplies e he
    trivial
  exact ⟨s, hcreated, hhost, (unleaked_iff_uncut rfl rfl hworks hended).mpr huncut⟩

/-- The visitor leaves while the call waits for the port. -/
def leftWaiting : List (Event Nat Nat Nat) :=
  started ++ [.reply (.inspected (some (some "32768".toList)) (some (some 32768))),
    .reply .failed, .reply (.exitCode none false), .drop none]

theorem leftWaiting_leaks : ∃ s : State Nat Nat Nat,
    (machine labSpec labRequest 0).exec atRest leftWaiting = some s ∧ s.phase.hasEnded = true ∧
      s.host = [1] ∧ s.replicas = [] ∧ ¬ Unleaked s := by
  refine ⟨_, rfl, rfl, rfl, rfl, fun hunleaked => ?_⟩
  rcases hunleaked 1 (List.mem_singleton_self 1) with hregistered | hgone
  · obtain ⟨row, hrow, -⟩ := hregistered
    cases hrow
  · exact hgone (List.mem_singleton_self 1)

end Example

end Ruscker.Docker
