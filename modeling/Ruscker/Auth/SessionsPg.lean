import Ruscker.Auth.Role
import Ruscker.Lib.Machine

/-!
# The Postgres session store of one node

Sessions live in a Postgres table, and each node keeps a cache of recent answers in
front of it.  `validate` reads the cache, then the table, then writes the cache back;
`remove` and `revoke_by_actor` delete rows and then evict.  Every SQL statement and
every cache operation below is one step, so calls interleave between any two of them.
Wall clock and monotonic clock are one clock that advances by `tick`.
-/

namespace Ruscker.Auth.SessionsPg

open Machines Machines.Machine

structure SessionInfo where
  role : Role
  actor : Option Str
  deriving DecidableEq

/-- A row of `admin_sessions` under its session id. -/
structure Row where
  role : Str
  actor : Option Str
  expiresAt : Nat

/-- A cached answer; `info = none` is a known-invalid id. -/
structure CachedEntry where
  info : Option SessionInfo
  validUntil : Nat

/-- What `remove` and `revoke_by_actor` are asked to end. -/
inductive Removal where
  | session (id : Str)
  | actor (name : Str)
  deriving DecidableEq

def Removal.covers (r : Removal) (id : Str) (actor : Option Str) : Prop :=
  match r with
  | .session removed => id = removed
  | .actor name => actor = some name

instance (r : Removal) (id : Str) (actor : Option Str) : Decidable (r.covers id actor) :=
  match r with
  | .session removed => inferInstanceAs (Decidable (id = removed))
  | .actor name => inferInstanceAs (Decidable (actor = some name))

/-! ## Calls in flight -/

inductive ValidatePhase where
  | looking
  | selecting
  /-- the `SELECT` found this row -/
  | fetched (row : Row)
  /-- the row was expired, its lazy `DELETE` is in flight -/
  | collecting
  /-- inside `clip_to_expiry`, before its wall clock reading -/
  | clipping (info : SessionInfo) (expiresAt : Nat)
  /-- between the two clock readings; `none` when the row had expired by then -/
  | clipped (info : SessionInfo) (delta : Option Nat)
  | storing (info : Option SessionInfo) (validUntil : Nat)
  | answered

/-- A `validate` call: its id, the clock at its start, and the removals that had
returned by then. -/
structure ValidateCall where
  id : Str
  asked : Nat
  before : List Removal
  phase : ValidatePhase

/-- The session a call has read from the table and not cached yet. -/
def ValidateCall.held (c : ValidateCall) : Option SessionInfo :=
  match c.phase with
  | .fetched row => (Role.fromStr row.role).map fun role => ⟨role, row.actor⟩
  | .clipping info _ => some info
  | .clipped info _ => some info
  | .storing info _ => info
  | _ => none

inductive RemovalPhase where
  | deleting
  /-- the `DELETE` is over; did it succeed? -/
  | evicting (ok : Bool)
  | tombstoning (ok : Bool)
  | returned
  deriving DecidableEq

structure RemovalCall where
  removal : Removal
  phase : RemovalPhase

/-- What a `validate` call returned, and when. -/
structure Answer where
  id : Str
  before : List Removal
  info : Option SessionInfo
  time : Nat
  deriving DecidableEq

structure State where
  now : Nat
  rows : Str → Option Row
  cache : Str → Option CachedEntry
  sinceSweep : Nat
  validates : List ValidateCall
  removals : List RemovalCall
  /-- removals whose `DELETE` succeeded and whose call has returned -/
  completed : List Removal
  answers : List Answer

inductive Event where
  | tick (elapsed : Nat)
  | validate (id : Str)
  | lookup (i : Nat)
  | select (i : Nat) (ok : Bool)
  | judge (i : Nat)
  | collect (i : Nat) (ok : Bool)
  | readWall (i : Nat)
  | readInstant (i : Nat)
  | store (i : Nat)
  | remove (r : Removal)
  | delete (j : Nat) (ok : Bool)
  | evict (j : Nat)
  | tombstone (j : Nat)

/-! ## Steps -/

/-- `SWEEP_EVERY` -/
def sweepEvery : Nat := 512

def State.setPhase (s : State) (i : Nat) (c : ValidateCall) (phase : ValidatePhase) : State :=
  { s with validates := s.validates.set i { c with phase } }

def State.answer (s : State) (i : Nat) (c : ValidateCall) (info : Option SessionInfo) : State :=
  { s.setPhase i c .answered with
    answers := s.answers ++ [⟨c.id, c.before, info, s.now⟩] }

def State.setRemoval (s : State) (j : Nat) (c : RemovalCall) (phase : RemovalPhase) : State :=
  { s with removals := s.removals.set j { c with phase } }

/-- A removal returns; it counts as completed when its `DELETE` succeeded. -/
def State.return (s : State) (j : Nat) (c : RemovalCall) (ok : Bool) : State :=
  { s.setRemoval j c .returned with
    completed := if ok then c.removal :: s.completed else s.completed }

/-- `cache.retain` -/
def retain (keep : CachedEntry → Bool) (cache : Str → Option CachedEntry) :
    Str → Option CachedEntry := fun id => (cache id).filter keep

/-- The amortized sweep at the start of `validate`. -/
def State.sweep (s : State) (now : Nat) : State :=
  if s.sinceSweep + 1 ≥ sweepEvery then
    { s with sinceSweep := 0, cache := retain (fun e => now < e.validUntil) s.cache }
  else { s with sinceSweep := s.sinceSweep + 1 }

def State.deleteRows (s : State) (r : Removal) : State :=
  { s with rows := fun id => (s.rows id).filter fun row => ¬ r.covers id row.actor }

def State.cacheInsert (s : State) (id : Str) (e : CachedEntry) : State :=
  { s with cache := Function.update s.cache id (some e) }

/-- `clip_to_expiry` after its second reading. -/
def clip (cacheUntil now : Nat) : Option Nat → Nat
  | none => now
  | some delta => min cacheUntil (now + delta)

def stepValidate (cacheTtl : Nat) (s : State) (i : Nat) (c : ValidateCall) :
    Event → Option State
  | .lookup _ =>
    match c.phase with
    | .looking =>
      let s := s.sweep c.asked
      match s.cache c.id with
      | some e =>
        if c.asked < e.validUntil then some (s.answer i c e.info)
        else some (s.setPhase i c .selecting)
      | none => some (s.setPhase i c .selecting)
    | _ => none
  | .select _ ok =>
    match c.phase with
    | .selecting =>
      if ok then
        match s.rows c.id with
        | some row => some (s.setPhase i c (.fetched row))
        | none => some (s.setPhase i c (.storing none (c.asked + cacheTtl)))
      else some (s.answer i c none)
    | _ => none
  | .judge _ =>
    match c.phase with
    | .fetched row =>
      match Role.fromStr row.role with
      | none => some (s.setPhase i c (.storing none (c.asked + cacheTtl)))
      | some role =>
        if row.expiresAt ≤ s.now then some (s.setPhase i c .collecting)
        else some (s.setPhase i c (.clipping ⟨role, row.actor⟩ row.expiresAt))
    | _ => none
  | .collect _ ok =>
    match c.phase with
    | .collecting =>
      let s := if ok then s.deleteRows (.session c.id) else s
      some (s.setPhase i c (.storing none (c.asked + cacheTtl)))
    | _ => none
  | .readWall _ =>
    match c.phase with
    | .clipping info expiresAt =>
      let delta := if expiresAt ≤ s.now then none else some (expiresAt - s.now)
      some (s.setPhase i c (.clipped info delta))
    | _ => none
  | .readInstant _ =>
    match c.phase with
    | .clipped info delta =>
      some (s.setPhase i c (.storing (some info) (clip (c.asked + cacheTtl) s.now delta)))
    | _ => none
  | .store _ =>
    match c.phase with
    | .storing info validUntil =>
      some ((s.cacheInsert c.id ⟨info, validUntil⟩).answer i c info)
    | _ => none
  | _ => none

def stepRemoval (cacheTtl : Nat) (s : State) (j : Nat) (c : RemovalCall) :
    Event → Option State
  | .delete _ ok =>
    if c.phase = .deleting then
      let s := if ok then s.deleteRows c.removal else s
      some (s.setRemoval j c (.evicting ok))
    else none
  | .evict _ =>
    match c.phase, c.removal with
    | .evicting ok, .session id =>
      some { s.setRemoval j c (.tombstoning ok) with cache := Function.update s.cache id none }
    | .evicting ok, .actor name =>
      some { s.return j c ok with
        cache := retain (fun e => e.info.bind SessionInfo.actor ≠ some name) s.cache }
    | _, _ => none
  | .tombstone _ =>
    match c.phase, c.removal with
    | .tombstoning ok, .session id =>
      some ((s.return j c ok).cacheInsert id ⟨none, s.now + cacheTtl⟩)
    | _, _ => none
  | _ => none

def step (cacheTtl : Nat) (s : State) (e : Event) : Option State :=
  match e with
  | .tick elapsed => some { s with now := s.now + elapsed }
  | .validate id =>
    some { s with validates := s.validates ++ [⟨id, s.now, s.completed, .looking⟩] }
  | .remove r => some { s with removals := s.removals ++ [⟨r, .deleting⟩] }
  | .lookup i | .select i _ | .judge i | .collect i _ | .readWall i | .readInstant i
  | .store i => (s.validates[i]?).bind fun c => stepValidate cacheTtl s i c e
  | .delete j _ | .evict j | .tombstone j =>
    (s.removals[j]?).bind fun c => stepRemoval cacheTtl s j c e

def machine (cacheTtl : Nat) : Machine State Event := ⟨step cacheTtl⟩

/-! ## What an answer owes -/

/-- An answer is safe when no removal that had returned before the call covers the
session, and the session has not expired when it is returned. -/
structure Answer.Safe (expiry : Str → Nat) (a : Answer) : Prop where
  notRemoved : ∀ info, a.info = some info → ∀ r ∈ a.before, ¬ r.covers a.id info.actor
  notExpired : ∀ info, a.info = some info → a.time < expiry a.id

/-- The removal an event brings to its end, when its `DELETE` succeeded. -/
def State.finishing (s : State) : Event → Option Removal
  | .evict j =>
    match s.removals[j]? with
    | some ⟨.actor name, .evicting true⟩ => some (.actor name)
    | _ => none
  | .tombstone j =>
    match s.removals[j]? with
    | some ⟨.session id, .tombstoning true⟩ => some (.session id)
    | _ => none
  | _ => none

/-- Does the clock move while the call is between the two readings of
`clip_to_expiry`, or across the expiry of a call's session? -/
def ValidateCall.DisturbedBy (expiry : Str → Nat) (now elapsed : Nat) (c : ValidateCall) :
    Prop :=
  match c.phase with
  | .answered => False
  | .clipped _ _ => 0 < elapsed
  | _ => now < expiry c.id ∧ expiry c.id ≤ now + elapsed

instance (expiry : Str → Nat) (now elapsed : Nat) (c : ValidateCall) :
    Decidable (c.DisturbedBy expiry now elapsed) := by
  unfold ValidateCall.DisturbedBy
  split <;> infer_instance

/-- The side condition on a step.  A removal returns only while no `validate` holds a
session it covers, and the clock does not disturb a call in flight. -/
def Undisturbed (expiry : Str → Nat) (s : State) (e : Event) : Prop :=
  (∀ r ∈ s.finishing e, ∀ c ∈ s.validates, ∀ info ∈ c.held, ¬ r.covers c.id info.actor) ∧
    match e with
    | .tick elapsed => ∀ c ∈ s.validates, ¬ c.DisturbedBy expiry s.now elapsed
    | _ => True

instance (expiry : Str → Nat) (s : State) (e : Event) : Decidable (Undisturbed expiry s e) := by
  unfold Undisturbed
  cases e <;> infer_instance

/-! ## The invariant -/

/-- What a call's phase says about the expiry of its session. -/
def PhaseInv (expiry now : Nat) : ValidatePhase → Prop
  | .fetched row => row.expiresAt = expiry
  | .clipping _ expiresAt => expiresAt = expiry ∧ now < expiry
  | .clipped _ delta => delta = some (expiry - now) ∧ now < expiry
  | .storing (some _) validUntil => validUntil ≤ expiry ∧ now < expiry
  | _ => True

structure CallInv (expiry : Str → Nat) (now : Nat) (completed : List Removal)
    (c : ValidateCall) : Prop where
  before_sub : ∀ r ∈ c.before, r ∈ completed
  timely : c.phase = .looking → c.asked < expiry c.id → now < expiry c.id
  phase : PhaseInv (expiry c.id) now c.phase
  held : ∀ info, c.held = some info → ∀ r ∈ completed, ¬ r.covers c.id info.actor

def RemovalInv (rows : Str → Option Row) (c : RemovalCall) : Prop :=
  c.phase = .evicting true ∨ c.phase = .tombstoning true →
    ∀ id row, rows id = some row → ¬ c.removal.covers id row.actor

structure Inv (expiry : Str → Nat) (s : State) : Prop where
  rows_expiry : ∀ id row, s.rows id = some row → row.expiresAt = expiry id
  rows_gone : ∀ r ∈ s.completed, ∀ id row, s.rows id = some row → ¬ r.covers id row.actor
  cache_clipped : ∀ id e info, s.cache id = some e → e.info = some info →
    e.validUntil ≤ expiry id
  cache_gone : ∀ r ∈ s.completed, ∀ id e info, s.cache id = some e → e.info = some info →
    ¬ r.covers id info.actor
  calls : ∀ c ∈ s.validates, CallInv expiry s.now s.completed c
  removals : ∀ c ∈ s.removals, RemovalInv s.rows c
  answers : ∀ a ∈ s.answers, a.Safe expiry

/-- A node that has served no call yet: its table and cache agree with the expiries. -/
structure Consistent (expiry : Str → Nat) (s : State) : Prop where
  rows_expiry : ∀ id row, s.rows id = some row → row.expiresAt = expiry id
  cache_clipped : ∀ id e info, s.cache id = some e → e.info = some info →
    e.validUntil ≤ expiry id
  idle : s.validates = [] ∧ s.removals = [] ∧ s.completed = [] ∧ s.answers = []

theorem Consistent.inv {expiry : Str → Nat} {s : State} (h : Consistent expiry s) :
    Inv expiry s := by
  obtain ⟨hvalidates, hremovals, hcompleted, hanswers⟩ := h.idle
  refine ⟨h.rows_expiry, ?_, h.cache_clipped, ?_, ?_, ?_, ?_⟩
  · simp [hcompleted]
  · simp [hcompleted]
  · simp [hvalidates]
  · simp [hremovals]
  · simp [hanswers]

namespace Inv

variable {expiry : Str → Nat} {s : State}

/-! ### One piece of state at a time -/

theorem setPhase (h : Inv expiry s) {i : Nat} {c : ValidateCall} {phase : ValidatePhase}
    (hc : CallInv expiry s.now s.completed { c with phase }) :
    Inv expiry (s.setPhase i c phase) where
  rows_expiry := h.rows_expiry
  rows_gone := h.rows_gone
  cache_clipped := h.cache_clipped
  cache_gone := h.cache_gone
  calls := forall_mem_set h.calls hc
  removals := h.removals
  answers := h.answers

theorem answer (h : Inv expiry s) {i : Nat} {c : ValidateCall} {info : Option SessionInfo}
    (hc : c ∈ s.validates) (hsafe : Answer.Safe expiry ⟨c.id, c.before, info, s.now⟩) :
    Inv expiry (s.answer i c info) := by
  have hcall := h.calls c hc
  have hset : Inv expiry (s.setPhase i c .answered) :=
    h.setPhase ⟨hcall.before_sub, by simp, trivial, by simp [ValidateCall.held]⟩
  exact { hset with answers := forall_mem_concat h.answers hsafe }

theorem deleteRows (h : Inv expiry s) (r : Removal) : Inv expiry (s.deleteRows r) := by
  have hrow : ∀ id row, (s.deleteRows r).rows id = some row → s.rows id = some row :=
    fun id row hid => (Option.filter_eq_some_iff.mp hid).1
  exact { h with
    rows_expiry := fun id row hid => h.rows_expiry id row (hrow id row hid)
    rows_gone := fun r' hr' id row hid => h.rows_gone r' hr' id row (hrow id row hid)
    removals := fun c hc hphase id row hid => h.removals c hc hphase id row (hrow id row hid) }

/-- Any cache whose positive entries come from the old one keeps the invariant. -/
theorem shrinkCache (h : Inv expiry s) {cache : Str → Option CachedEntry}
    (hsub : ∀ id e info, cache id = some e → e.info = some info → s.cache id = some e) :
    Inv expiry { s with cache } :=
  { h with
    cache_clipped := fun id e info he hinfo =>
      h.cache_clipped id e info (hsub id e info he hinfo) hinfo
    cache_gone := fun r hr id e info he hinfo =>
      h.cache_gone r hr id e info (hsub id e info he hinfo) hinfo }

theorem retain (h : Inv expiry s) (keep : CachedEntry → Bool) :
    Inv expiry { s with cache := SessionsPg.retain keep s.cache } :=
  h.shrinkCache fun _ _ _ he _ => (Option.filter_eq_some_iff.mp he).1

theorem sweep (h : Inv expiry s) (now : Nat) : Inv expiry (s.sweep now) := by
  unfold State.sweep
  split
  · exact { h.retain (fun e => now < e.validUntil) with }
  · exact { h with }

theorem cacheInsert (h : Inv expiry s) {id : Str} {entry : CachedEntry}
    (hentry : ∀ info, entry.info = some info →
      entry.validUntil ≤ expiry id ∧ ∀ r ∈ s.completed, ¬ r.covers id info.actor) :
    Inv expiry (s.cacheInsert id entry) := by
  have hcases : ∀ id' e, (s.cacheInsert id entry).cache id' = some e →
      (id' = id ∧ e = entry) ∨ s.cache id' = some e := by
    intro id' e he
    unfold State.cacheInsert at he
    by_cases hid : id' = id
    · subst hid
      exact .inl ⟨rfl, by simpa using he.symm⟩
    · exact .inr (by simpa [Function.update_of_ne hid] using he)
  refine { h with cache_clipped := ?_, cache_gone := ?_ }
  · intro id' e info he hinfo
    rcases hcases id' e he with ⟨rfl, rfl⟩ | he
    · exact (hentry info hinfo).1
    · exact h.cache_clipped id' e info he hinfo
  · intro r hr id' e info he hinfo
    rcases hcases id' e he with ⟨rfl, rfl⟩ | he
    · exact (hentry info hinfo).2 r hr
    · exact h.cache_gone r hr id' e info he hinfo

theorem setRemoval (h : Inv expiry s) {j : Nat} {c : RemovalCall} {phase : RemovalPhase}
    (hc : RemovalInv s.rows { c with phase }) : Inv expiry (s.setRemoval j c phase) :=
  { h with removals := forall_mem_set h.removals hc }

/-- A removal may be counted as completed once nothing it covers is left anywhere. -/
theorem complete (h : Inv expiry s) {r : Removal}
    (hrows : ∀ id row, s.rows id = some row → ¬ r.covers id row.actor)
    (hcache : ∀ id e info, s.cache id = some e → e.info = some info →
      ¬ r.covers id info.actor)
    (hheld : ∀ c ∈ s.validates, ∀ info ∈ c.held, ¬ r.covers c.id info.actor) :
    Inv expiry { s with completed := r :: s.completed } where
  rows_expiry := h.rows_expiry
  rows_gone r' hr' id row hid := by
    rcases List.mem_cons.mp hr' with rfl | hr'
    · exact hrows id row hid
    · exact h.rows_gone r' hr' id row hid
  cache_clipped := h.cache_clipped
  cache_gone r' hr' id e info he hinfo := by
    rcases List.mem_cons.mp hr' with rfl | hr'
    · exact hcache id e info he hinfo
    · exact h.cache_gone r' hr' id e info he hinfo
  calls c hc := by
    have hcall := h.calls c hc
    refine { hcall with before_sub := ?_, held := ?_ }
    · exact fun r' hr' => List.mem_cons_of_mem r (hcall.before_sub r' hr')
    · intro info hinfo r' hr'
      rcases List.mem_cons.mp hr' with rfl | hr'
      · exact hheld c hc info hinfo
      · exact hcall.held info hinfo r' hr'
  removals := h.removals
  answers := h.answers

/-! ### Whole steps -/

theorem tick (h : Inv expiry s) {elapsed : Nat}
    (hquiet : ∀ c ∈ s.validates, ¬ c.DisturbedBy expiry s.now elapsed) :
    Inv expiry { s with now := s.now + elapsed } := by
  refine { h with calls := ?_ }
  intro c hc
  have hcall := h.calls c hc
  have hquiet := hquiet c hc
  refine { hcall with timely := ?_, phase := ?_ }
  · intro hphase hasked
    have hnow := hcall.timely hphase hasked
    simp only [ValidateCall.DisturbedBy, hphase] at hquiet
    show s.now + elapsed < expiry c.id
    omega
  · have hphase := hcall.phase
    unfold ValidateCall.DisturbedBy at hquiet
    unfold PhaseInv at hphase ⊢
    cases hc : c.phase with
    | clipping info expiresAt =>
      simp only [hc] at hquiet hphase ⊢
      refine ⟨hphase.1, ?_⟩
      omega
    | clipped info delta =>
      simp only [hc] at hquiet hphase ⊢
      have hzero : elapsed = 0 := by omega
      simpa [hzero] using hphase
    | storing info validUntil =>
      cases info with
      | none => trivial
      | some info =>
        simp only [hc] at hquiet hphase ⊢
        refine ⟨hphase.1, ?_⟩
        omega
    | fetched row => simpa [hc] using hphase
    | _ => trivial

theorem arrive (h : Inv expiry s) (id : Str) :
    Inv expiry { s with validates := s.validates ++ [⟨id, s.now, s.completed, .looking⟩] } := by
  refine { h with calls := forall_mem_concat h.calls ?_ }
  exact ⟨fun r hr => hr, fun _ hasked => hasked, trivial, by simp [ValidateCall.held]⟩

/-- A cached answer is safe: removals evict it, and its lifetime was clipped. -/
theorem lookup (h : Inv expiry s) {i : Nat} {c : ValidateCall} {e : CachedEntry}
    (hc : c ∈ s.validates) (hphase : c.phase = .looking) (he : s.cache c.id = some e)
    (hfresh : c.asked < e.validUntil) : Inv expiry (s.answer i c e.info) := by
  have hcall := h.calls c hc
  refine h.answer hc ⟨?_, ?_⟩
  · intro info hinfo r hr
    exact h.cache_gone r (hcall.before_sub r hr) c.id e info he hinfo
  · intro info hinfo
    have hclip := h.cache_clipped c.id e info he hinfo
    exact hcall.timely hphase (by omega)

/-- A negative result may be cached at any time. -/
theorem toStoringNone (h : Inv expiry s) {i : Nat} {c : ValidateCall} (hc : c ∈ s.validates)
    (validUntil : Nat) : Inv expiry (s.setPhase i c (.storing none validUntil)) :=
  h.setPhase ⟨(h.calls c hc).before_sub, by simp, trivial, by simp [ValidateCall.held]⟩

theorem judge (h : Inv expiry s) {i : Nat} {c : ValidateCall} {row : Row} {role : Role}
    (hc : c ∈ s.validates) (hphase : c.phase = .fetched row)
    (hrole : Role.fromStr row.role = some role) (hlive : ¬ row.expiresAt ≤ s.now) :
    Inv expiry (s.setPhase i c (.clipping ⟨role, row.actor⟩ row.expiresAt)) := by
  have hcall := h.calls c hc
  have hexpiry : row.expiresAt = expiry c.id := by
    have hinv := hcall.phase
    rw [hphase] at hinv
    exact hinv
  refine h.setPhase ⟨hcall.before_sub, by simp, ⟨hexpiry, by simp only; omega⟩, ?_⟩
  intro info hinfo
  refine hcall.held info ?_
  simp only [ValidateCall.held] at hinfo ⊢
  simpa [hphase, hrole] using hinfo

theorem readWall (h : Inv expiry s) {i : Nat} {c : ValidateCall} {info : SessionInfo}
    {expiresAt : Nat} (hc : c ∈ s.validates) (hphase : c.phase = .clipping info expiresAt) :
    Inv expiry (s.setPhase i c (.clipped info
      (if expiresAt ≤ s.now then none else some (expiresAt - s.now)))) := by
  have hcall := h.calls c hc
  have hinv := hcall.phase
  rw [hphase] at hinv
  obtain ⟨hexpiry, hlive⟩ := hinv
  have hnot : ¬ expiresAt ≤ s.now := by omega
  rw [if_neg hnot, hexpiry]
  refine h.setPhase ⟨hcall.before_sub, by simp, ⟨rfl, hlive⟩, ?_⟩
  simpa [ValidateCall.held, hphase] using hcall.held

theorem readInstant (h : Inv expiry s) {cacheTtl i : Nat} {c : ValidateCall}
    {info : SessionInfo} {delta : Option Nat} (hc : c ∈ s.validates)
    (hphase : c.phase = .clipped info delta) :
    Inv expiry (s.setPhase i c
      (.storing (some info) (clip (c.asked + cacheTtl) s.now delta))) := by
  have hcall := h.calls c hc
  have hinv := hcall.phase
  rw [hphase] at hinv
  obtain ⟨rfl, hlive⟩ := hinv
  have hclip : clip (c.asked + cacheTtl) s.now (some (expiry c.id - s.now)) ≤ expiry c.id := by
    have hmin := Nat.min_le_right (c.asked + cacheTtl) (s.now + (expiry c.id - s.now))
    exact hmin.trans (by omega)
  refine h.setPhase ⟨hcall.before_sub, by simp, ⟨hclip, hlive⟩, ?_⟩
  simpa [ValidateCall.held, hphase] using hcall.held

theorem store (h : Inv expiry s) {i : Nat} {c : ValidateCall} {info : Option SessionInfo}
    {validUntil : Nat} (hc : c ∈ s.validates) (hphase : c.phase = .storing info validUntil) :
    Inv expiry ((s.cacheInsert c.id ⟨info, validUntil⟩).answer i c info) := by
  have hcall := h.calls c hc
  have hinv := hcall.phase
  have hheld : c.held = info := by simp [ValidateCall.held, hphase]
  rw [hphase] at hinv
  have hcached : Inv expiry (s.cacheInsert c.id ⟨info, validUntil⟩) := by
    refine h.cacheInsert ?_
    intro info' hinfo
    subst hinfo
    exact ⟨hinv.1, hcall.held info' hheld⟩
  refine hcached.answer hc ⟨?_, ?_⟩
  · intro info' hinfo r hr
    exact hcall.held info' (hheld.trans hinfo) r (hcall.before_sub r hr)
  · intro info' hinfo
    subst hinfo
    exact hinv.2

theorem stepValidate {cacheTtl i : Nat} {c : ValidateCall} {e : Event} {s' : State}
    (h : Inv expiry s) (hc : c ∈ s.validates)
    (hstep : SessionsPg.stepValidate cacheTtl s i c e = some s') : Inv expiry s' := by
  unfold SessionsPg.stepValidate at hstep
  split at hstep
  · -- lookup
    split at hstep
    · next hphase =>
      have hswept := h.sweep c.asked
      have hmem : c ∈ (s.sweep c.asked).validates := by
        unfold State.sweep
        split <;> exact hc
      have hselect : Inv expiry ((s.sweep c.asked).setPhase i c .selecting) :=
        hswept.setPhase ⟨(hswept.calls c hmem).before_sub, by simp, trivial,
          by simp [ValidateCall.held]⟩
      dsimp only at hstep
      split at hstep
      · next entry hentry =>
        split at hstep
        · next hfresh =>
          cases hstep
          exact hswept.lookup hmem hphase hentry hfresh
        · cases hstep
          exact hselect
      · cases hstep
        exact hselect
    · cases hstep
  · -- select
    split at hstep
    · next hphase =>
      split at hstep
      · split at hstep
        · next row hrow =>
          cases hstep
          refine h.setPhase ⟨(h.calls c hc).before_sub, by simp,
            h.rows_expiry c.id row hrow, ?_⟩
          intro info hinfo r hr
          simp only [ValidateCall.held, Option.map_eq_some_iff] at hinfo
          obtain ⟨role, -, rfl⟩ := hinfo
          exact h.rows_gone r hr c.id row hrow
        · cases hstep
          exact h.toStoringNone hc _
      · cases hstep
        exact h.answer hc ⟨by simp, by simp⟩
    · cases hstep
  · -- judge
    split at hstep
    · next row hphase =>
      split at hstep
      · cases hstep
        exact h.toStoringNone hc _
      · next role hrole =>
        split at hstep
        · cases hstep
          exact h.setPhase ⟨(h.calls c hc).before_sub, by simp, trivial,
            by simp [ValidateCall.held]⟩
        · next hlive =>
          cases hstep
          exact h.judge hc hphase hrole hlive
    · cases hstep
  · -- collect
    split at hstep
    · cases hstep
      split
      · exact (h.deleteRows (.session c.id)).toStoringNone hc _
      · exact h.toStoringNone hc _
    · cases hstep
  · -- readWall
    split at hstep
    · next hphase =>
      cases hstep
      exact h.readWall hc hphase
    · cases hstep
  · -- readInstant
    split at hstep
    · next hphase =>
      cases hstep
      exact h.readInstant hc hphase
    · cases hstep
  · -- store
    split at hstep
    · next hphase =>
      cases hstep
      exact h.store hc hphase
    · cases hstep
  · cases hstep

theorem delete (h : Inv expiry s) {j : Nat} {c : RemovalCall} :
    Inv expiry ((s.deleteRows c.removal).setRemoval j c (.evicting true)) := by
  refine (h.deleteRows c.removal).setRemoval ?_
  intro _ id row hid
  simpa using (Option.filter_eq_some_iff.mp hid).2

theorem «return» (h : Inv expiry s) {j : Nat} {c : RemovalCall} {ok : Bool}
    (hrows : ok = true → ∀ id row, s.rows id = some row → ¬ c.removal.covers id row.actor)
    (hcache : ok = true → ∀ id e info, s.cache id = some e → e.info = some info →
      ¬ c.removal.covers id info.actor)
    (hheld : ok = true → ∀ v ∈ s.validates, ∀ info ∈ v.held,
      ¬ c.removal.covers v.id info.actor) :
    Inv expiry (s.return j c ok) := by
  have hset : Inv expiry (s.setRemoval j c .returned) :=
    h.setRemoval (by simp [RemovalInv])
  cases ok with
  | false => exact hset
  | true => exact hset.complete (hrows rfl) (hcache rfl) (hheld rfl)

/-- What an undisturbed end of a removal gives: no call holds a session it covers. -/
theorem held_of_finishing {e : Event} {r : Removal} (hok : Undisturbed expiry s e)
    (hfin : s.finishing e = some r) :
    ∀ v ∈ s.validates, ∀ info ∈ v.held, ¬ r.covers v.id info.actor :=
  hok.1 r hfin

theorem evictActor (h : Inv expiry s) {j : Nat} {name : Str} {ok : Bool}
    (hc : (⟨.actor name, .evicting ok⟩ : RemovalCall) ∈ s.removals)
    (hheld : ok = true → ∀ v ∈ s.validates, ∀ info ∈ v.held, info.actor ≠ some name) :
    Inv expiry { s.return j ⟨.actor name, .evicting ok⟩ ok with
      cache := SessionsPg.retain (fun e => e.info.bind SessionInfo.actor ≠ some name)
        s.cache } := by
  have hkept := h.retain fun e => e.info.bind SessionInfo.actor ≠ some name
  refine hkept.return ?_ ?_ hheld
  · intro hok id row hrow
    exact h.removals _ hc (.inl (by rw [hok])) id row hrow
  · intro _ id e info he hinfo hcovers
    have hactor : info.actor = some name := hcovers
    have hkeep := (Option.filter_eq_some_iff.mp he).2
    simp [hinfo, hactor] at hkeep

theorem evictSession (h : Inv expiry s) {j : Nat} {id : Str} {ok : Bool}
    (hc : (⟨.session id, .evicting ok⟩ : RemovalCall) ∈ s.removals) :
    Inv expiry { s.setRemoval j ⟨.session id, .evicting ok⟩ (.tombstoning ok) with
      cache := Function.update s.cache id none } := by
  have hset : Inv expiry (s.setRemoval j ⟨.session id, .evicting ok⟩ (.tombstoning ok)) := by
    refine h.setRemoval fun hphase => ?_
    have hdone : ok = true := by simpa using hphase
    exact h.removals ⟨.session id, .evicting ok⟩ hc (.inl (by rw [hdone]))
  refine hset.shrinkCache ?_
  intro id' e info he _
  by_cases hid : id' = id
  · simp [hid] at he
  · rw [Function.update_of_ne hid] at he
    exact he

theorem tombstone (h : Inv expiry s) {j validUntil : Nat} {id : Str} {ok : Bool}
    (hc : (⟨.session id, .tombstoning ok⟩ : RemovalCall) ∈ s.removals)
    (hheld : ok = true → ∀ v ∈ s.validates, ∀ info ∈ v.held, v.id ≠ id) :
    Inv expiry ((s.return j ⟨.session id, .tombstoning ok⟩ ok).cacheInsert id
      ⟨none, validUntil⟩) := by
  have hdead : Inv expiry (s.cacheInsert id ⟨none, validUntil⟩) :=
    h.cacheInsert (by simp)
  refine hdead.return ?_ ?_ hheld
  · intro hok id' row hrow
    exact h.removals _ hc (.inr (by rw [hok])) id' row hrow
  · intro _ id' e info he hinfo hid
    have hid : id' = id := hid
    subst hid
    have hnone : e = ⟨none, validUntil⟩ := by
      simpa [State.cacheInsert] using he.symm
    simp [hnone] at hinfo

theorem stepRemoval {cacheTtl j : Nat} {c : RemovalCall} {e : Event} {s' : State}
    (h : Inv expiry s) (hj : s.removals[j]? = some c) (hok : Undisturbed expiry s e)
    (he : e = .evict j ∨ e = .tombstone j ∨ ∃ ok, e = .delete j ok)
    (hstep : SessionsPg.stepRemoval cacheTtl s j c e = some s') : Inv expiry s' := by
  have hc : c ∈ s.removals := List.mem_of_getElem? hj
  obtain ⟨removal, phase⟩ := c
  rcases he with rfl | rfl | ⟨ok, rfl⟩
  · simp only [SessionsPg.stepRemoval] at hstep
    split at hstep
    · cases hstep
      exact h.evictSession hc
    · next ok name =>
      cases hstep
      refine h.evictActor hc fun hdone => ?_
      subst hdone
      exact held_of_finishing (r := .actor name) hok (by simp [State.finishing, hj])
    · cases hstep
  · simp only [SessionsPg.stepRemoval] at hstep
    split at hstep
    · next ok id =>
      cases hstep
      refine h.tombstone hc fun hdone => ?_
      subst hdone
      exact held_of_finishing (r := .session id) hok (by simp [State.finishing, hj])
    · cases hstep
  · simp only [SessionsPg.stepRemoval] at hstep
    split at hstep
    · cases hstep
      cases ok with
      | true => exact h.delete (c := ⟨removal, phase⟩)
      | false => exact h.setRemoval (by simp [RemovalInv])
    · cases hstep

/-- Every undisturbed step keeps the invariant. -/
theorem step {cacheTtl : Nat} {e : Event} {s' : State} (h : Inv expiry s)
    (hok : Undisturbed expiry s e) (hstep : (machine cacheTtl).step s e = some s') :
    Inv expiry s' := by
  simp only [machine, SessionsPg.step] at hstep
  split at hstep
  case h_1 =>
    cases hstep
    exact h.tick hok.2
  case h_2 id =>
    cases hstep
    exact h.arrive id
  case h_3 r =>
    cases hstep
    exact { h with removals := forall_mem_concat h.removals (by simp [RemovalInv]) }
  all_goals
    obtain ⟨c, hc, hcall⟩ := Option.bind_eq_some_iff.mp hstep
  case h_11 => exact h.stepRemoval hc hok (.inr (.inr ⟨_, rfl⟩)) hcall
  case h_12 => exact h.stepRemoval hc hok (.inl rfl) hcall
  case h_13 => exact h.stepRemoval hc hok (.inr (.inl rfl)) hcall
  all_goals exact h.stepValidate (List.mem_of_getElem? hc) hcall

end Inv

/-- **Revocation and expiry on one node.** In every run whose steps are undisturbed, no
answer serves a session that a removal returned before the call covers, and none serves
a session at or after its expiry. -/
theorem answers_safe {expiry : Str → Nat} {cacheTtl : Nat} {s₀ s : State} {es : List Event}
    (h₀ : Consistent expiry s₀) (h : (machine cacheTtl).Run (Undisturbed expiry) s₀ es s) :
    ∀ a ∈ s.answers, a.Safe expiry :=
  (h.invariant h₀.inv fun _ _ _ hinv hok hstep => hinv.step hok hstep).answers

/-! ## A logout against a validation in flight -/

/-- One admin session in the table, an empty cache, no call yet. -/
def oneSession : State where
  now := 0
  rows := fun id =>
    if id = "sid".toList then some ⟨Role.admin.asStr, some "ana".toList, 1000⟩ else none
  cache := fun _ => none
  sinceSweep := 0
  validates := []
  removals := []
  completed := []
  answers := []

theorem oneSession_consistent : Consistent (fun _ => 1000) oneSession where
  rows_expiry id row hrow := by
    unfold oneSession at hrow
    dsimp only at hrow
    split at hrow
    · cases hrow
      rfl
    · cases hrow
  cache_clipped id e info he := by simp [oneSession] at he
  idle := ⟨rfl, rfl, rfl, rfl⟩

/-- A validation from the table, a later one from the cache, a logout, a last validation. -/
def validateThenLogout : List Event :=
  [.validate "sid".toList, .lookup 0, .select 0 true, .judge 0, .readWall 0, .readInstant 0,
   .store 0, .tick 2, .validate "sid".toList, .lookup 1,
   .remove (.session "sid".toList), .delete 0 true, .evict 0, .tombstone 0,
   .validate "sid".toList, .lookup 2]

theorem validateThenLogout_safe :
    ∃ s, (machine 5).Run (Undisturbed fun _ => 1000) oneSession validateThenLogout s ∧
      ∀ a ∈ s.answers, a.Safe fun _ => 1000 :=
  have hsome : ((machine 5).execIf (Undisturbed fun _ => 1000) oneSession
    validateThenLogout).isSome = true := by decide
  have hrun := run_execIf hsome
  ⟨_, hrun, answers_safe oneSession_consistent hrun⟩

/-- The logout runs from its `DELETE` to its tombstone while a validation holds the row. -/
def logoutDuringValidate : List Event :=
  [.validate "sid".toList, .lookup 0, .select 0 true,
   .remove (.session "sid".toList), .delete 0 true, .evict 0, .tombstone 0,
   .judge 0, .readWall 0, .readInstant 0, .store 0,
   .validate "sid".toList, .lookup 1]

/-- The validation in flight overwrites the tombstone, and the next one is served the
session that was removed. -/
theorem logoutDuringValidate_unsafe :
    ¬ ∀ (expiry : Str → Nat) (cacheTtl : Nat) (s₀ s : State) (es : List Event),
      Consistent expiry s₀ → (machine cacheTtl).exec s₀ es = some s →
      ∀ a ∈ s.answers, a.Safe expiry := by
  intro hsafe
  have hrun : ((machine 5).exec oneSession logoutDuringValidate).map State.answers =
      some [⟨"sid".toList, [], some ⟨.admin, some "ana".toList⟩, 0⟩,
        ⟨"sid".toList, [.session "sid".toList], some ⟨.admin, some "ana".toList⟩, 0⟩] := by
    decide
  obtain ⟨s, hs, hanswers⟩ := Option.map_eq_some_iff.mp hrun
  have hlast := hsafe _ 5 oneSession s logoutDuringValidate oneSession_consistent hs
    ⟨"sid".toList, [.session "sid".toList], some ⟨.admin, some "ana".toList⟩, 0⟩
    (by simp [hanswers])
  exact hlast.notRemoved _ rfl (.session "sid".toList) (by simp) rfl

end Ruscker.Auth.SessionsPg
