import Ruscker.Proxy.Calls

/-!
# Seats and the shared session table

With the Postgres store the sessions are rows of a table, and the registry only has a count of
them.  A seat is reserved in the count first.  Registering, ending and sweeping sessions read
the rows of a replica and then write what they read over the count.
-/

namespace Ruscker.Proxy.SeatsPg

open Tables Machines Machines.Machine Calls

variable {ι κ : Type*}

/-- A DELETE of a sweep: of the specs without a timeout of their own, or of one spec. -/
inductive Eviction where
  | global (ms : Int) (overridden : List Str)
  | ofSpec (ms : Int) (spec : Str)

inductive Phase (ι κ : Type*) where
  -- `pick_or_spawn`
  | fast
  | queued
  | recheck
  | spawning
  | adding (r : ι) (startedAt : Nat)
  -- `touch_or_register` with a reserved seat
  | holding (sid : κ) (r : ι)
  | ending (sid : κ)
  -- `count_for_replica` and `set_session_count`
  | reading (r : ι)
  | setting (r : ι) (n : Nat)
  -- `sweep`
  | evicting (todo : List Eviction)
  | tallying
  | settingAll (counts : ι → Nat)
  | done

structure Task (ι κ : Type*) where
  spec : Str
  phase : Phase ι κ

structure State (ι κ : Type*) where
  replicas : Registry ι
  rows : SessionStore ι κ
  now : Nat
  tasks : List (Task ι κ)

/-- The counters of `select`, the ids of a new session and of a new replica. -/
structure Outside (ι κ : Type*) where
  load : Load ι
  session : κ
  spawned : Option ι

inductive Event (ι κ : Type*) where
  | visit (spec : Str)
  | endSession (sid : κ)
  | sweep (globalMs : Int) (overrides : List (Str × Int)) (isLeader : Bool)
  | advance (i : Nat) (o : Outside ι κ)
  | tick (ms : Nat)

namespace Phase

/-- The call holds the mutex of its spec. -/
def locks : Phase ι κ → Bool
  | .recheck | .spawning | .adding _ _ => true
  | _ => false

/-- The count the call is about to write for a replica. -/
def writes [DecidableEq ι] (r : ι) : Phase ι κ → Option Nat
  | .setting r' n => if r' = r then some n else none
  | .settingAll counts => some (counts r)
  | _ => none

/-- The call is about to read the rows of a replica. -/
def reads [DecidableEq ι] (r : ι) : Phase ι κ → Bool
  | .reading r' => r' = r
  | .tallying => true
  | _ => false

/-- A seat of the replica is reserved for the call and has no row yet. -/
def holds [DecidableEq ι] (r : ι) : Phase ι κ → Bool
  | .holding _ r' => r' = r
  | _ => false

/-- The call has to do with the replica. -/
def concerns [DecidableEq ι] (r : ι) : Phase ι κ → Bool
  | .holding _ r' | .reading r' | .setting r' _ => r' = r
  | _ => false

end Phase

/-- The DELETEs of a sweep; only the leader runs them, and a negative timeout is none. -/
def evictions (globalMs : Int) (overrides : List (Str × Int)) (isLeader : Bool) : List Eviction :=
  if isLeader then
    (if 0 ≤ globalMs then [.global globalMs (overrides.map Prod.fst)] else []) ++
      (overrides.filter fun e => decide (0 ≤ e.2)).map fun e => .ofSpec e.2 e.1
  else []

/-- The rows a DELETE takes. -/
def Eviction.takes (now : Nat) (e : SessionEntry ι) : Eviction → Bool
  | .global ms overridden => decide ((e.lastSeen : Int) < now - ms) && !overridden.contains e.specId
  | .ofSpec ms spec => decide ((e.lastSeen : Int) < now - ms) && decide (e.specId = spec)

namespace State

variable (s : State ι κ)

def goto (i : Nat) (c : Task ι κ) (p : Phase ι κ) : State ι κ :=
  { s with tasks := s.tasks.set i { c with phase := p } }

/-- Nobody holds the mutex of the spec. -/
def isFree (spec : Str) : Bool :=
  s.tasks.all fun c => !(c.phase.locks && decide (c.spec = spec))

variable [DecidableEq ι]

/-- The seats of a replica that are reserved and have no row yet. -/
def pending (r : ι) : Nat := s.tasks.countP fun c => c.phase.holds r

/-- An id nobody has: replicas have UUIDs. -/
def isNewReplica (r : ι) : Bool :=
  s.replicas.all (fun x => decide (x.id ≠ r)) &&
    s.rows.entries.all (fun e => decide (e.2.replicaId ≠ r)) &&
      s.tasks.all fun c => !c.phase.concerns r

end State

section Steps

variable [Floats] [DecidableEq ι] [DecidableEq κ] (node : Node κ) (s : State ι κ) (i : Nat)
  (c : Task ι κ)

/-- A replica, with a seat of it unless the spec is an API. -/
def handOut (sid : κ) (r : ι) : State ι κ :=
  if (node.settings c.spec).kind = .api then s.goto i c .done
  else { s.goto i c (.holding sid r) with replicas := s.replicas.incSessions r }

/-- `SELECT count(*)`, as a `u32`. -/
def countForReplica (r : ι) : Nat := bound s.rows r % 2 ^ 32

/-- One section or statement of call `i`. -/
def advance (o : Outside ι κ) : Option (State ι κ) :=
  let settings := node.settings c.spec
  match c.phase with
  | .fast =>
    match pickAccepting (s.replicas.replicasOf c.spec) settings.effectiveRouting
      (settings.kind = .api) o.load with
    | some r => some (handOut node s i c o.session r.id)
    | none => some (s.goto i c .queued)
  | .queued => if s.isFree c.spec then some (s.goto i c .recheck) else none
  | .recheck =>
    match recheckPick node (boot s.replicas : Calls.State ι κ) c.spec o.load with
    | some r => some (handOut node s i c o.session r.id)
    | none => some (s.goto i c .spawning)
  | .spawning => some (s.goto i c <|
      match o.spawned with
      | some r => .adding r s.now
      | none => .done)
  | .adding r startedAt =>
    let row := ⟨r, c.spec, .ready, startedAt, 0, settings.effectiveSeats.val⟩
    if s.isNewReplica r then
      some (handOut node { s with replicas := s.replicas.add row } i c o.session r)
    else none
  | .holding sid r =>
    let (rows, inserted) := touchOrRegister s.rows sid c.spec r s.now
    some { s.goto i c (if inserted then .reading r else .done) with rows }
  | .ending sid =>
    match s.rows.lookup sid with
    | some e => some { s.goto i c (.reading e.replicaId) with rows := s.rows.erase sid }
    | none => some (s.goto i c .done)
  | .reading r => some (s.goto i c (.setting r (countForReplica s r)))
  | .setting r n => some { s.goto i c .done with replicas := s.replicas.setSessionCount r n }
  | .evicting [] => some (s.goto i c .tallying)
  | .evicting (d :: todo) => some { s.goto i c (.evicting todo) with
      rows := s.rows.retain fun _ e => !d.takes s.now e }
  | .tallying => some (s.goto i c (.settingAll (countForReplica s)))
  | .settingAll counts => some { s.goto i c .done with
      replicas := s.replicas.setSessionCounts counts }
  | .done => none

def machine : Machine (State ι κ) (Event ι κ) where
  step s
    | .visit spec => some { s with tasks := s.tasks ++ [⟨spec, .fast⟩] }
    | .endSession sid => some { s with tasks := s.tasks ++ [⟨[], .ending sid⟩] }
    | .sweep globalMs overrides isLeader => some { s with
        tasks := s.tasks ++ [⟨[], .evicting (evictions globalMs overrides isLeader)⟩] }
    | .advance i o => (s.tasks[i]?).bind fun c => advance node s i c o
    | .tick ms => some { s with now := s.now + ms }

/-- The replica whose seat a step reserves. -/
def reserves (o : Outside ι κ) : Option ι :=
  let settings := node.settings c.spec
  if settings.kind = .api then none
  else match c.phase with
    | .fast => (pickAccepting (s.replicas.replicasOf c.spec) settings.effectiveRouting
        (settings.kind = .api) o.load).map Replica.id
    | .recheck =>
      (recheckPick node (boot s.replicas : Calls.State ι κ) c.spec o.load).map Replica.id
    | .adding r _ => some r
    | _ => none

end Steps

/-! ## Seats that are taken -/

section Covered

variable [DecidableEq ι]

/-- The count of a replica covers its rows and the seats reserved without one. -/
def Covers (s : State ι κ) (x : Replica ι) : Prop :=
  bound s.rows x.id + s.pending x.id ≤ x.sessionsActive

/-- The rows of a replica are read while no seat of it is reserved without a row, and none is
reserved until the count is written.  A count at the top of its range takes no more seats. -/
def Untorn [Floats] [DecidableEq κ] (node : Node κ) (s : State ι κ) : Event ι κ → Prop
  | .advance i o => ∀ c ∈ s.tasks[i]?,
      (∀ r ∈ reserves node s c o, (∀ d ∈ s.tasks, d.phase.writes r = none) ∧
        ∀ x ∈ s.replicas, x.id = r → x.sessionsActive < u32Max) ∧
      ∀ x ∈ s.replicas, c.phase.reads x.id = true → s.pending x.id = 0
  | _ => True

instance [Floats] [DecidableEq κ] (node : Node κ) (s : State ι κ) (e : Event ι κ) :
    Decidable (Untorn node s e) :=
  match e with
  | .advance i o => inferInstanceAs (Decidable (∀ c ∈ s.tasks[i]?,
      (∀ r ∈ reserves node s c o, (∀ d ∈ s.tasks, d.phase.writes r = none) ∧
        ∀ x ∈ s.replicas, x.id = r → x.sessionsActive < u32Max) ∧
      ∀ x ∈ s.replicas, c.phase.reads x.id = true → s.pending x.id = 0))
  | .visit _ | .endSession _ | .sweep _ _ _ | .tick _ => isTrue trivial

/-- What holds of a replica's row: its count covers its seats, and so will any count that is on
its way to the row. -/
structure Row (s : State ι κ) (x : Replica ι) : Prop where
  covers : Covers s x
  small : x.sessionsActive ≤ u32Max
  written : ∀ c ∈ s.tasks, ∀ n, c.phase.writes x.id = some n →
    s.pending x.id = 0 ∧ bound s.rows x.id ≤ n

structure Sound (s : State ι κ) : Prop where
  distinct : s.replicas.Distinct
  range : ∀ c ∈ s.tasks, ∀ r n, c.phase.writes r = some n → n ≤ u32Max
  rows : ∀ x ∈ s.replicas, Row s x

variable {s s' : State ι κ} {i : Nat} {c : Task ι κ} {q : Phase ι κ} {r : ι} {sid : κ}
  {x x' : Replica ι}

theorem pending_move (hc : s.tasks[i]? = some c)
    (htasks : s'.tasks = s.tasks.set i { c with phase := q }) (r : ι) :
    s'.pending r + (if c.phase.holds r then 1 else 0) =
      s.pending r + if q.holds r then 1 else 0 := by
  rw [State.pending, htasks]
  exact countP_set_add (p := fun c : Task ι κ => c.phase.holds r) hc

theorem pending_goto (hc : s.tasks[i]? = some c) (q : Phase ι κ) (r : ι) :
    (s.goto i c q).pending r + (if c.phase.holds r then 1 else 0) =
      s.pending r + if q.holds r then 1 else 0 := pending_move hc rfl r

theorem bound_retain_le {st : SessionStore ι κ} {p : κ → SessionEntry ι → Bool} :
    bound (st.retain p) r ≤ bound st r :=
  List.filter_sublist.countP_le

theorem countForReplica_le : countForReplica s r ≤ u32Max :=
  Nat.le_sub_one_of_lt (Nat.mod_lt _ (by decide))

/-- A count in range is read as it is. -/
theorem Row.countForReplica_eq (h : Row s x) : countForReplica s x.id = bound s.rows x.id := by
  have hcovers := h.covers
  have hsmall := h.small
  unfold Covers at hcovers
  refine Nat.mod_eq_of_lt ?_
  unfold u32Max at hsmall
  omega

/-- A replica's row after a step of one call, whose new phase writes no count. -/
theorem Row.move (htasks : s'.tasks = s.tasks.set i { c with phase := q }) (h : Row s x)
    (hid : x'.id = x.id) (hcovers : Covers s' x') (hsmall : x'.sessionsActive ≤ u32Max)
    (hrows : ∀ d ∈ s.tasks, ∀ n, d.phase.writes x.id = some n →
      s'.pending x.id ≤ s.pending x.id ∧ bound s'.rows x.id ≤ bound s.rows x.id)
    (hq : q.writes x.id = none) : Row s' x' where
  covers := hcovers
  small := hsmall
  written := by
    rw [htasks, hid]
    refine forall_mem_set (fun d hd n hn => ?_) fun n hn => ?_
    · obtain ⟨hpending, hbound⟩ := h.written d hd n hn
      obtain ⟨hpending', hbound'⟩ := hrows d hd n hn
      exact ⟨Nat.eq_zero_of_le_zero (hpending ▸ hpending'), Nat.le_trans hbound' hbound⟩
    · rw [hq] at hn
      cases hn

namespace Sound

variable (h : Sound s)
include h

theorem range_move (htasks : s'.tasks = s.tasks.set i { c with phase := q })
    (hq : ∀ r n, q.writes r = some n → n ≤ u32Max) :
    ∀ d ∈ s'.tasks, ∀ r n, d.phase.writes r = some n → n ≤ u32Max := by
  rw [htasks]
  exact forall_mem_set h.range hq

variable (hc : s.tasks[i]? = some c)
include hc

/-- A step that takes no seat and writes no count; rows may go. -/
theorem calm (hreplicas : s'.replicas = s.replicas)
    (htasks : s'.tasks = s.tasks.set i { c with phase := q })
    (hrows : ∀ r, bound s'.rows r ≤ bound s.rows r) (hholds : ∀ r, q.holds r = false)
    (hwrites : ∀ r, q.writes r = none) : Sound s' where
  distinct := hreplicas ▸ h.distinct
  range := h.range_move htasks fun r n hn => by
    rw [hwrites] at hn
    cases hn
  rows x hx := by
    rw [hreplicas] at hx
    have hrow := h.rows x hx
    have hcovers := hrow.covers
    have hpending := pending_move hc htasks x.id
    rw [hholds] at hpending
    simp only [Bool.false_eq_true, if_false, Nat.add_zero] at hpending
    refine hrow.move htasks rfl ?_ hrow.small (fun d hd n hn => ⟨by omega, hrows x.id⟩) (hwrites _)
    have hbound := hrows x.id
    unfold Covers at hcovers ⊢
    omega

/-- A seat more for a replica that no count is on its way to. -/
theorem reserve (hholds : ∀ r, c.phase.holds r = false)
    (hfree : ∀ d ∈ s.tasks, d.phase.writes r = none)
    (hroom : ∀ x ∈ s.replicas, x.id = r → x.sessionsActive < u32Max) :
    Sound { s.goto i c (.holding sid r) with replicas := s.replicas.incSessions r } where
  distinct := h.distinct.update fun _ => rfl
  range := h.range_move rfl fun _ _ hn => by cases hn
  rows := by
    have hpending := pending_goto hc (.holding sid r)
    refine h.distinct.forall_mem_update (fun x hx hne => ?_) fun x hx hid => ?_
    · have hrow := h.rows x hx
      have hcovers := hrow.covers
      have hother : (Phase.holding sid r : Phase ι κ).holds x.id = false :=
        decide_eq_false (Ne.symm hne)
      have hsame := hpending x.id
      rw [hholds, hother] at hsame
      refine hrow.move rfl rfl ?_ hrow.small (fun d hd n hn => ⟨hsame.le, Nat.le_refl _⟩) rfl
      exact (congrArg (bound s.rows x.id + ·) hsame).le.trans hcovers
    · have hrow := h.rows x hx
      have hcovers := hrow.covers
      have hself : (Phase.holding sid r : Phase ι κ).holds x.id = true :=
        decide_eq_true hid.symm
      have hmore := hpending x.id
      rw [hholds, hself] at hmore
      refine hrow.move rfl rfl ?_ (Nat.min_le_right ..) (fun d hd n hn => ?_) rfl
      · unfold Covers
        rw [Replica.inc_sessionsActive x (hroom x hx hid)]
        exact (congrArg (bound s.rows x.id + ·) hmore).le.trans (Nat.succ_le_succ hcovers)
      · rw [hid, hfree d hd] at hn
        cases hn

/-- The seat of the call becomes a row. -/
theorem openRow (hphase : c.phase = .holding sid r) (hreplicas : s'.replicas = s.replicas)
    (htasks : s'.tasks = s.tasks.set i { c with phase := q })
    (hrows : ∀ x, bound s'.rows x ≤ bound s.rows x + if r = x then 1 else 0)
    (hholds : ∀ r, q.holds r = false) (hwrites : ∀ r, q.writes r = none) : Sound s' where
  distinct := hreplicas ▸ h.distinct
  range := h.range_move htasks fun r n hn => by
    rw [hwrites] at hn
    cases hn
  rows x hx := by
    rw [hreplicas] at hx
    have hrow := h.rows x hx
    have hcovers := hrow.covers
    have hpending : s'.pending x.id + (if r = x.id then 1 else 0) = s.pending x.id := by
      have hmoved := pending_move hc htasks x.id
      rw [hphase, hholds] at hmoved
      simpa [Phase.holds] using hmoved
    have hbound := hrows x.id
    refine hrow.move htasks rfl ?_ hrow.small (fun d hd n hn => ?_) (hwrites _)
    · unfold Covers at hcovers ⊢
      omega
    · -- a count on its way would have come without the seat
      obtain ⟨hnone, -⟩ := hrow.written d hd n hn
      omega

/-- The counts that are read are those of the rows, where no seat lacks its row. -/
theorem read (hholds : ∀ r, q.holds r = false)
    (hwrites : ∀ x n, q.writes x = some n → n = countForReplica s x)
    (hnone : ∀ x ∈ s.replicas, ∀ n, q.writes x.id = some n → s.pending x.id = 0) :
    Sound (s.goto i c q) where
  distinct := h.distinct
  range := h.range_move rfl fun x n hn => by
    rw [hwrites x n hn]
    exact countForReplica_le
  rows x hx := by
    have hrow := h.rows x hx
    have hcovers := hrow.covers
    have hpending := pending_goto hc q x.id
    rw [hholds] at hpending
    simp only [Bool.false_eq_true, if_false, Nat.add_zero] at hpending
    refine ⟨?_, hrow.small, forall_mem_set (fun d hd n hn => ?_) fun n hn => ?_⟩
    · unfold Covers at hcovers ⊢
      exact Nat.le_trans (Nat.add_le_add_left (by omega) _) hcovers
    · obtain ⟨hzero, hbound⟩ := hrow.written d hd n hn
      exact ⟨by omega, hbound⟩
    · have hzero := hnone x hx n hn
      refine ⟨by omega, ?_⟩
      rw [hwrites _ n hn, hrow.countForReplica_eq]
      exact Nat.le_refl _

/-- A count that was on its way covers the seats there are. -/
theorem write (hx : x ∈ s.replicas) {n : Nat} (hn : c.phase.writes x.id = some n)
    (hholds : ∀ r, c.phase.holds r = false) :
    Row (s.goto i c .done) { x with sessionsActive := n } := by
  have hrow := h.rows x hx
  obtain ⟨hzero, hbound⟩ := hrow.written c (List.mem_of_getElem? hc) n hn
  have hpending := pending_goto hc .done x.id
  rw [hholds] at hpending
  have hgone : (s.goto i c .done).pending x.id = 0 := hpending.trans hzero
  refine ⟨?_, h.range c (List.mem_of_getElem? hc) _ n hn, ?_⟩
  · unfold Covers
    rw [hgone]
    exact hbound
  · refine forall_mem_set (fun d hd m hm => ?_) fun m hm => by cases hm
    exact ⟨hgone, (hrow.written d hd m hm).2⟩

omit hc in
/-- A new replica has no rows, and no count of its own is on its way. -/
theorem add [DecidableEq κ] (hnew : s.isNewReplica x.id = true)
    (hsmall : x.sessionsActive ≤ u32Max) : Sound { s with replicas := s.replicas.add x } := by
  simp only [State.isNewReplica, Bool.and_eq_true, List.all_eq_true, decide_eq_true_eq,
    Bool.not_eq_true'] at hnew
  obtain ⟨⟨hreplicas, hrows⟩, htasks⟩ := hnew
  have hbound : bound s.rows x.id = 0 :=
    bound_eq_zero.mpr fun sid e he => hrows ⟨sid, e⟩ (Table.mem_entries_iff.mpr he)
  have hpending : s.pending x.id = 0 := by
    refine List.countP_eq_zero.mpr fun c hc => ?_
    have hnone := htasks c hc
    cases hphase : c.phase <;> simp_all [Phase.holds, Phase.concerns]
  refine ⟨h.distinct.add hreplicas, h.range, fun y hy => ?_⟩
  rcases Registry.mem_add.mp hy with hold | rfl
  · have hrow := h.rows y hold
    exact ⟨hrow.covers, hrow.small, hrow.written⟩
  · refine ⟨?_, hsmall, fun _ _ n _ => ⟨hpending, ?_⟩⟩
    · exact (congrArg₂ (· + ·) hbound hpending).le.trans (Nat.zero_le _)
    · exact hbound.le.trans (Nat.zero_le n)

theorem handOut [Floats] {node : Node κ} (hholds : ∀ r, c.phase.holds r = false)
    (hok : (node.settings c.spec).kind ≠ .api → (∀ d ∈ s.tasks, d.phase.writes r = none) ∧
      ∀ x ∈ s.replicas, x.id = r → x.sessionsActive < u32Max) :
    Sound (SeatsPg.handOut node s i c sid r) := by
  unfold SeatsPg.handOut
  split
  · exact h.calm hc rfl rfl (fun _ => Nat.le_refl _) (fun _ => rfl) fun _ => rfl
  · next hapi => exact h.reserve hc hholds (hok hapi).1 (hok hapi).2

/-- **Step lemma** for one call. -/
theorem advance [Floats] [DecidableEq κ] {node : Node κ} {o : Outside ι κ}
    (hok : Untorn node s (.advance i o)) (hstep : SeatsPg.advance node s i c o = some s') :
    Sound s' := by
  obtain ⟨htakes, hreads⟩ := hok c hc
  unfold SeatsPg.advance at hstep
  cases hphase : c.phase with
  | fast =>
    simp only [hphase] at hstep
    have hholds : ∀ r, c.phase.holds r = false := fun r => by rw [hphase]; rfl
    split at hstep
    · next r hpick =>
      cases hstep
      refine h.handOut hc hholds fun hapi => htakes r.id (Option.mem_def.mpr ?_)
      simp only [reserves, hphase, if_neg hapi, hpick, Option.map_some]
    · cases hstep
      exact h.calm hc rfl rfl (fun _ => Nat.le_refl _) (fun _ => rfl) fun _ => rfl
  | queued =>
    simp only [hphase] at hstep
    split at hstep
    · cases hstep
      exact h.calm hc rfl rfl (fun _ => Nat.le_refl _) (fun _ => rfl) fun _ => rfl
    · cases hstep
  | recheck =>
    simp only [hphase] at hstep
    have hholds : ∀ r, c.phase.holds r = false := fun r => by rw [hphase]; rfl
    split at hstep
    · next r hpick =>
      cases hstep
      refine h.handOut hc hholds fun hapi => htakes r.id (Option.mem_def.mpr ?_)
      simp only [reserves, hphase, if_neg hapi, hpick, Option.map_some]
    · cases hstep
      exact h.calm hc rfl rfl (fun _ => Nat.le_refl _) (fun _ => rfl) fun _ => rfl
  | spawning =>
    simp only [hphase] at hstep
    split at hstep
    · cases hstep
      exact h.calm hc rfl rfl (fun _ => Nat.le_refl _) (fun _ => rfl) fun _ => rfl
    · cases hstep
      exact h.calm hc rfl rfl (fun _ => Nat.le_refl _) (fun _ => rfl) fun _ => rfl
  | adding r startedAt =>
    simp only [hphase] at hstep
    have hholds : ∀ r, c.phase.holds r = false := fun r => by rw [hphase]; rfl
    split at hstep
    · next hnew =>
      cases hstep
      refine (h.add (x := ⟨r, _, _, _, 0, _⟩) hnew (Nat.zero_le _)).handOut hc hholds fun hapi => ?_
      have hreserves : reserves node s c o = some r := by
        simp only [reserves, hphase, if_neg hapi]
      obtain ⟨hfree, hroom⟩ := htakes r hreserves
      refine ⟨hfree, fun y hy hid => ?_⟩
      rcases Registry.mem_add.mp hy with hold | rfl
      · exact hroom y hold hid
      · exact Nat.zero_lt_of_lt (by decide : 1 < u32Max)
    · cases hstep
  | holding sid r =>
    simp only [hphase] at hstep
    cases hlookup : s.rows.lookup sid with
    | some e =>
      have htouch : touchOrRegister s.rows sid c.spec r s.now =
          (s.rows.update sid fun e => { e with lastSeen := s.now }, false) := by
        rw [touchOrRegister, hlookup]
      rw [htouch] at hstep
      cases hstep
      refine h.openRow hc hphase rfl rfl (fun x => ?_) (fun _ => rfl) fun _ => rfl
      exact bound_touch.le.trans (Nat.le_add_right _ _)
    | none =>
      have htouch : touchOrRegister s.rows sid c.spec r s.now =
          (s.rows.insert sid ⟨c.spec, r, s.now⟩, true) := by
        rw [touchOrRegister, hlookup]
      rw [htouch] at hstep
      cases hstep
      exact h.openRow hc hphase rfl rfl (fun x => (bound_insert hlookup).le) (fun _ => rfl)
        fun _ => rfl
  | ending sid =>
    simp only [hphase] at hstep
    split at hstep
    · next e hlookup =>
      cases hstep
      refine h.calm hc rfl rfl (fun r => ?_) (fun _ => rfl) fun _ => rfl
      exact (Nat.le_add_right _ _).trans (bound_erase hlookup).le
    · cases hstep
      exact h.calm hc rfl rfl (fun _ => Nat.le_refl _) (fun _ => rfl) fun _ => rfl
  | reading r =>
    simp only [hphase] at hstep
    cases hstep
    refine h.read hc (fun _ => rfl) (fun x n hn => ?_) fun x hx n hn => ?_
    · obtain ⟨rfl, heq⟩ := Option.ite_none_right_eq_some.mp hn
      exact (Option.some.inj heq).symm
    · obtain ⟨heq, -⟩ := Option.ite_none_right_eq_some.mp hn
      exact hreads x hx (by rw [hphase]; exact decide_eq_true heq)
  | setting r n =>
    simp only [hphase] at hstep
    cases hstep
    have hholds : ∀ r, c.phase.holds r = false := fun r => by rw [hphase]; rfl
    refine ⟨h.distinct.update fun _ => rfl, h.range_move rfl fun _ _ hn => (by cases hn), ?_⟩
    refine h.distinct.forall_mem_update (fun x hx hne => ?_) fun x hx hid => ?_
    · have hcalm : Sound (s.goto i c .done) :=
        h.calm hc rfl rfl (fun _ => Nat.le_refl _) (fun _ => rfl) fun _ => rfl
      have hrow := hcalm.rows x hx
      exact ⟨hrow.covers, hrow.small, hrow.written⟩
    · have hrow := h.write hc hx (n := n) (by rw [hphase]; exact if_pos hid.symm) hholds
      exact ⟨hrow.covers, hrow.small, hrow.written⟩
  | evicting todo =>
    simp only [hphase] at hstep
    cases todo with
    | nil =>
      cases hstep
      exact h.calm hc rfl rfl (fun _ => Nat.le_refl _) (fun _ => rfl) fun _ => rfl
    | cons d todo =>
      cases hstep
      exact h.calm hc rfl rfl (fun _ => bound_retain_le) (fun _ => rfl) fun _ => rfl
  | tallying =>
    simp only [hphase] at hstep
    cases hstep
    refine h.read hc (fun _ => rfl) (fun x n hn => (Option.some.inj hn).symm) fun x hx n _ => ?_
    exact hreads x hx (by rw [hphase]; rfl)
  | settingAll counts =>
    simp only [hphase] at hstep
    cases hstep
    have hholds : ∀ r, c.phase.holds r = false := fun r => by rw [hphase]; rfl
    have hids : (s.replicas.setSessionCounts counts).map Replica.id =
        s.replicas.map Replica.id := by
      rw [Registry.setSessionCounts, List.map_map]
      rfl
    refine ⟨?_, h.range_move rfl fun _ _ hn => (by cases hn), fun y hy => ?_⟩
    · rw [Registry.Distinct, hids]
      exact h.distinct
    · obtain ⟨x, hx, rfl⟩ := List.mem_map.mp hy
      have hrow := h.write hc hx (n := counts x.id) (by rw [hphase]; rfl) hholds
      exact ⟨hrow.covers, hrow.small, hrow.written⟩
  | done =>
    simp only [hphase] at hstep
    cases hstep

omit hc in
/-- A call that has not begun. -/
theorem start (hholds : ∀ r, c.phase.holds r = false) (hwrites : ∀ r, c.phase.writes r = none) :
    Sound { s with tasks := s.tasks ++ [c] } where
  distinct := h.distinct
  range := forall_mem_concat h.range fun r n hn => by
    rw [hwrites] at hn
    cases hn
  rows x hx := by
    have hrow := h.rows x hx
    have hpending : State.pending { s with tasks := s.tasks ++ [c] } x.id = s.pending x.id := by
      unfold State.pending
      rw [List.countP_append, List.countP_singleton, hholds]
      rfl
    refine ⟨?_, hrow.small, forall_mem_concat (fun d hd n hn => ?_) fun n hn => ?_⟩
    · unfold Covers
      rw [hpending]
      exact hrow.covers
    · rw [hpending]
      exact hrow.written d hd n hn
    · rw [hwrites] at hn
      cases hn

omit hc in
/-- **Step lemma.** -/
theorem step [Floats] [DecidableEq κ] {node : Node κ} {e : Event ι κ} (hok : Untorn node s e)
    (hstep : (machine node).step s e = some s') : Sound s' := by
  cases e with
  | visit spec =>
    cases hstep
    exact h.start (fun _ => rfl) fun _ => rfl
  | endSession sid =>
    cases hstep
    exact h.start (fun _ => rfl) fun _ => rfl
  | sweep globalMs overrides isLeader =>
    cases hstep
    exact h.start (fun _ => rfl) fun _ => rfl
  | advance i o =>
    obtain ⟨c, hc, hstep⟩ := Option.bind_eq_some_iff.mp hstep
    exact h.advance hc hok hstep
  | tick ms =>
    cases hstep
    refine ⟨h.distinct, h.range, fun x hx => ?_⟩
    have hrow := h.rows x hx
    exact ⟨hrow.covers, hrow.small, hrow.written⟩

end Sound

/-- No call yet, and no session. -/
def atRest (replicas : Registry ι) (now : Nat) : State ι κ := ⟨replicas, ∅, now, []⟩

/-- **Seats of the shared table.** While no count is read over a seat without a row, and none
written over a seat reserved since, every count covers the sessions and the seats on their way to
one, so that a strict pick finds a seat that is free. -/
theorem covers_of_untorn [Floats] [DecidableEq κ] {node : Node κ} {replicas : Registry ι}
    {now : Nat} {es : List (Event ι κ)} (hdistinct : replicas.Distinct)
    (hsmall : ∀ x ∈ replicas, x.sessionsActive ≤ u32Max)
    (hrun : (machine node).Run (Untorn node) (atRest replicas now) es s) :
    (∀ x ∈ s.replicas, Covers s x) ∧
      ∀ spec routing load x,
        pickAccepting (s.replicas.replicasOf spec) routing false load = some x →
          bound s.rows x.id + s.pending x.id < x.sessionsMax := by
  have hstart : Sound (atRest replicas now : State ι κ) := by
    refine ⟨hdistinct, fun _ hc => (by cases hc), fun x hx => ?_⟩
    exact ⟨Nat.zero_le _, hsmall x hx, fun _ hc => (by cases hc)⟩
  have hsound := hrun.invariant hstart fun _ _ _ hI hok hstep => hI.step hok hstep
  have hcovers : ∀ x ∈ s.replicas, Covers s x := fun x hx => (hsound.rows x hx).covers
  refine ⟨hcovers, fun spec routing load x hpick => ?_⟩
  obtain ⟨hmem, haccepting⟩ := accepting_of_pickAccepting hpick
  have hseat : 0 < x.availableSeats := by
    simp only [Replica.isAccepting, Bool.and_eq_true, decide_eq_true_eq] at haccepting
    exact haccepting.2
  have hcover := hcovers x (List.mem_filter.mp hmem).1
  unfold Replica.availableSeats at hseat
  unfold Covers at hcover
  omega

end Covered

/-! ## Two visits for two seats -/

section Example

attribute [local instance] wholeFloats

def twoSeats : Registry Nat := [{ labReplica 0 with sessionsMax := 2 }]

def runs (task session : Nat) (steps : Nat) : List (Event Nat Nat) :=
  List.replicate steps (.advance task ⟨⟨0, fun _ => 0⟩, session, none⟩)

/-- The second visit comes when the first has its session. -/
def inTurn : List (Event Nat Nat) :=
  .visit labId :: runs 0 7 4 ++ .visit labId :: runs 1 8 1

theorem covers_of_untorn_inTurn : ∃ s : State Nat Nat,
    (machine labNode).exec (atRest twoSeats 0) inTurn = some s ∧
      s.replicas.map Replica.sessionsActive = [2] ∧ ∀ x ∈ s.replicas, Covers s x := by
  have hsome : ((machine labNode).execIf (Untorn labNode)
      (atRest twoSeats 0 : State Nat Nat) inTurn).isSome = true := by decide
  have hrun := run_execIf hsome
  have hdistinct : twoSeats.Distinct := List.nodup_singleton _
  exact ⟨_, rfl, rfl, (covers_of_untorn hdistinct (by decide) hrun).1⟩

/-- Both visits reserve a seat before the first has its row. -/
def sideBySide : List (Event Nat Nat) :=
  [.visit labId, .visit labId] ++ runs 0 7 1 ++ runs 1 8 1 ++ runs 0 7 3

theorem sideBySide_uncovered : ∃ s : State Nat Nat,
    (machine labNode).exec (atRest twoSeats 0) sideBySide = some s ∧
      s.replicas.map Replica.sessionsActive = [1] ∧ bound s.rows 0 = 1 ∧ s.pending 0 = 1 ∧
      (pickAccepting (s.replicas.replicasOf labId) .roundRobin false
        ⟨0, fun _ => 0⟩).map Replica.sessionsMax = some 2 :=
  ⟨_, rfl, rfl, rfl, rfl, rfl⟩

end Example

end Ruscker.Proxy.SeatsPg
