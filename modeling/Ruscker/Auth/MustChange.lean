import Ruscker.Auth.SessionsPg
import Ruscker.Db.Users
import Ruscker.Lib.Table

/-!
# The forced password change

A guard in front of the admin routes resolves the session, then the account, and sends a
session whose account still carries an initial password to the password page.  It keeps
its answer per session for five minutes.  The session store has a cache of its own and
answers a failed `SELECT` with "no session".
-/

namespace Ruscker.Auth.MustChange

open Tables Machines Machines.Machine
open SessionsPg (Row SessionInfo CachedEntry sweepEvery)

/-- `MUST_CHANGE_TTL`, in seconds -/
def mustChangeTtl : Nat := 300

/-- `MUST_CHANGE_CACHE_CAP` -/
def mustChangeCacheCap : Nat := 256

def gated (path : Str) : Bool :=
  "/admin/".toList.isPrefixOf path && path ≠ "/admin/account/password".toList &&
    !"/admin/login".toList.isPrefixOf path && !"/admin/logout".toList.isPrefixOf path &&
    !"/admin/setup".toList.isPrefixOf path

inductive Phase where
  /-- in the guard, before its cache -/
  | arrived
  /-- in `validate`, before the cache of the store -/
  | looking
  | selecting (asked : Nat)
  | fetched (asked : Nat) (row : Option Row)
  /-- in the guard, before the account -/
  | fetching (actor : Str)
  | finished

/-- A lookup of a session, by the guard for a gated request or by another part of the
panel; ghost: did a query of it fail? -/
structure Call where
  id : Str
  guarded : Bool
  failed : Bool
  phase : Phase

/-- ghost: a gated request the guard let through -/
structure Pass where
  id : Str
  failed : Bool
  deriving DecidableEq

deriving instance DecidableEq for SessionsPg.Row

section Model

variable [Unicode]

structure State where
  now : Nat
  rows : Str → Option Row
  users : Users
  cache : Str → Option CachedEntry
  sinceSweep : Nat
  /-- `MUST_CHANGE_CACHE` -/
  mustChange : Table Str (Nat × Bool)
  pool : List Call
  passes : List Pass

inductive Event where
  | tick (elapsed : Nat)
  /-- any other change of the user table -/
  | users (db : Users)
  /-- any change of the session table by another node -/
  | rows (rows : Str → Option Row)
  | create (id : Str) (role : Role) (actor : Option Str) (expiresAt : Nat) (inserted : Bool)
  | remove (id : Str) (deleted : Bool)
  | revoke (actor : Str) (deleted : Bool)
  | request (path id : Str)
  | validate (id : Str)
  | gate (i : Nat)
  | lookup (i : Nat)
  | select (i : Nat) (ok : Bool)
  | judge (i : Nat) (collected : Bool)
  | fetch (i : Nat) (ok : Bool)

/-! ## Steps -/

def State.set (s : State) (i : Nat) (c : Call) : State := { s with pool := s.pool.set i c }

def fresh (now : Nat) (e : Nat × Bool) : Bool := now < e.1 + mustChangeTtl

/-- Keep the guard's answer; at the cap the stale ones are dropped first. -/
def State.keepAnswer (s : State) (id : Str) (must : Bool) : State :=
  let kept := if mustChangeCacheCap ≤ s.mustChange.entries.length
    then Table.retain s.mustChange fun _ e => fresh s.now e else s.mustChange
  { s with mustChange := kept.insert id (s.now, must) }

/-- The guard bounces the request or lets it through. -/
def State.decide (s : State) (i : Nat) (c : Call) (must : Bool) : State :=
  let s := s.set i { c with phase := .finished }
  if must then s else { s with passes := ⟨c.id, c.failed⟩ :: s.passes }

/-- `validate` returns to its caller. -/
def State.answer (s : State) (i : Nat) (c : Call) (info : Option SessionInfo) : State :=
  if c.guarded then
    match info.bind SessionInfo.actor with
    | some actor => s.set i { c with phase := .fetching actor }
    -- no actor: nothing to rotate, kept as a definitive answer
    | none => (s.keepAnswer c.id false).decide i c false
  else s.set i { c with phase := .finished }

/-- The amortized sweep at the start of `validate`. -/
def State.sweep (s : State) : State :=
  if s.sinceSweep + 1 ≥ sweepEvery then
    { s with
      sinceSweep := 0
      cache := SessionsPg.retain (fun e => s.now < e.validUntil) s.cache }
  else { s with sinceSweep := s.sinceSweep + 1 }

def State.cacheInsert (s : State) (id : Str) (info : Option SessionInfo) (validUntil : Nat) :
    State :=
  { s with cache := Function.update s.cache id (some ⟨info, validUntil⟩) }

def State.deleteRows (s : State) (p : Str → Row → Bool) : State :=
  { s with rows := fun id => (s.rows id).filter fun row => !p id row }

def stepCall (cacheTtl : Nat) (s : State) (i : Nat) (c : Call) : Event → Option State
  | .gate _ =>
    match c.phase with
    | .arrived =>
      match (s.mustChange.lookup c.id).filter (fresh s.now) with
      | some (_, must) => some (s.decide i c must)
      | none => some (s.set i { c with phase := .looking })
    | _ => none
  | .lookup _ =>
    match c.phase with
    | .looking =>
      let s' := s.sweep
      match (s'.cache c.id).filter fun e => s.now < e.validUntil with
      | some e => some (s'.answer i c e.info)
      | none => some (s'.set i { c with phase := .selecting s.now })
    | _ => none
  | .select _ ok =>
    match c.phase with
    | .selecting asked =>
      if ok then some (s.set i { c with phase := .fetched asked (s.rows c.id) })
      -- "fall back to unknown": not kept by the store
      else some (s.answer i { c with failed := true } none)
    | _ => none
  | .judge _ collected =>
    match c.phase with
    | .fetched asked none => some ((s.cacheInsert c.id none (asked + cacheTtl)).answer i c none)
    | .fetched asked (some row) =>
      match Role.fromStr row.role with
      | none => some ((s.cacheInsert c.id none (asked + cacheTtl)).answer i c none)
      | some role =>
        if row.expiresAt ≤ s.now then
          let s' := if collected then s.deleteRows fun id _ => id = c.id else s
          some ((s'.cacheInsert c.id none (asked + cacheTtl)).answer i c none)
        else
          let info : SessionInfo := ⟨role, row.actor⟩
          let validUntil := min (asked + cacheTtl) row.expiresAt
          some ((s.cacheInsert c.id (some info) validUntil).answer i c (some info))
    | _ => none
  | .fetch _ ok =>
    match c.phase with
    | .fetching actor =>
      if ok then
        let must := ((s.users.fetch actor).map UserRow.mustChangePassword).getD false
        some ((s.keepAnswer c.id must).decide i c must)
      -- let through once, and not kept
      else some (s.decide i { c with failed := true } false)
    | _ => none
  | _ => none

def step (cacheTtl : Nat) (s : State) (e : Event) : Option State :=
  match e with
  | .tick elapsed => some { s with now := s.now + elapsed }
  | .users db => some { s with users := db }
  | .rows rows => some { s with rows }
  | .create id role actor expiresAt inserted =>
    if (s.rows id).isNone then
      let s' := if inserted
        then { s with rows := Function.update s.rows id (some ⟨role.asStr, actor, expiresAt⟩) }
        else s
      some (s'.cacheInsert id (some ⟨role, actor⟩) (min (s.now + cacheTtl) expiresAt))
    else none
  | .remove id deleted =>
    let s' := if deleted then s.deleteRows fun id' _ => id' = id else s
    some (s'.cacheInsert id none (s.now + cacheTtl))
  | .revoke actor deleted =>
    let s' := if deleted then s.deleteRows fun _ row => row.actor = some actor else s
    some { s' with
      cache := SessionsPg.retain (fun e => e.info.bind SessionInfo.actor ≠ some actor) s'.cache }
  | .request path id =>
    if gated path then some { s with pool := s.pool ++ [⟨id, true, false, .arrived⟩] } else none
  | .validate id => some { s with pool := s.pool ++ [⟨id, false, false, .looking⟩] }
  | .gate i | .lookup i | .select i _ | .judge i _ | .fetch i _ =>
    (s.pool[i]?).bind fun c => stepCall cacheTtl s i c e

def machine (cacheTtl : Nat) : Machine State Event := ⟨step cacheTtl⟩

/-! ## Conditions on a run -/

/-- The session is live, of an account that must change its password. -/
structure Pending (sid : Str) (row : Row) (actor : Str) (s : State) : Prop where
  found : s.rows sid = some row
  parses : (Role.fromStr row.role).isSome = true
  named : row.actor = some actor
  live : s.now < row.expiresAt
  flag : ((s.users.fetch actor).map UserRow.mustChangePassword) = some true

/-- The guard's lookup of the session is answered with the session: the query of a gated
request does not fail, and no fresh negative entry of the store answers it. -/
def Answered (sid : Str) (s : State) : Event → Prop
  | .select i ok => ∀ c ∈ s.pool[i]?, c.guarded = true → c.id = sid → ok = true
  | .lookup i => ∀ c ∈ s.pool[i]?, c.guarded = true → c.id = sid →
      ∀ e ∈ s.cache sid, s.now < e.validUntil → e.info.isSome = true
  | _ => True

instance (sid : Str) (row : Row) (actor : Str) (s : State) : Decidable (Pending sid row actor s) :=
  decidable_of_iff (s.rows sid = some row ∧ (Role.fromStr row.role).isSome = true ∧
    row.actor = some actor ∧ s.now < row.expiresAt ∧
      (s.users.fetch actor).map UserRow.mustChangePassword = some true)
    ⟨fun ⟨found, parses, named, live, flag⟩ => ⟨found, parses, named, live, flag⟩,
      fun ⟨found, parses, named, live, flag⟩ => ⟨found, parses, named, live, flag⟩⟩

instance (sid : Str) (s : State) (e : Event) : Decidable (Answered sid s e) := by
  unfold Answered
  split <;> infer_instance

/-- Nothing is known of the session but what opening it has left in the store's cache. -/
structure Start (sid actor : Str) (s : State) : Prop where
  answers : s.mustChange.lookup sid = none
  cached : ∀ e ∈ s.cache sid, e.info.bind SessionInfo.actor = some actor
  pool : s.pool = []
  passes : s.passes = []

/-! ## The invariant -/

section Steps

variable {sid actor : Str} {row : Row} {s s' : State} {i : Nat} {c : Call}
  {info : Option SessionInfo} {must : Bool}

def Phase.Sound (row : Row) (actor : Str) : Phase → Prop
  | .fetched _ found => found = some row
  | .fetching name => name = actor
  | _ => True

structure Inv (sid : Str) (row : Row) (actor : Str) (s : State) : Prop where
  answers : ∀ e ∈ s.mustChange.lookup sid, e.2 = true
  cached : ∀ e ∈ s.cache sid, ∀ info ∈ e.info, info.actor = some actor
  calls : ∀ c ∈ s.pool, c.id = sid → c.phase.Sound row actor
  passes : ∀ p ∈ s.passes, p.id = sid → p.failed = true

theorem Inv.set (h : Inv sid row actor s) (hc : c.id = sid → c.phase.Sound row actor) :
    Inv sid row actor (s.set i c) :=
  ⟨h.answers, h.cached, forall_mem_set h.calls hc, h.passes⟩

theorem lookup_keepAnswer {id : Str} {e : Nat × Bool}
    (h : e ∈ (s.keepAnswer id must).mustChange.lookup sid) :
    (id = sid ∧ e.2 = must) ∨ e ∈ s.mustChange.lookup sid := by
  simp only [State.keepAnswer, Option.mem_def, Table.lookup_insert_eq] at h
  split at h
  · next hid =>
    cases h
    exact .inl ⟨hid.symm, rfl⟩
  · split at h
    · exact .inr (Table.lookup_retain.mp h).1
    · exact .inr h

theorem Inv.keepAnswer {id : Str} (h : Inv sid row actor s) (hmust : id = sid → must = true) :
    Inv sid row actor (s.keepAnswer id must) := by
  refine ⟨fun e he => ?_, h.cached, h.calls, h.passes⟩
  rcases lookup_keepAnswer he with ⟨hid, heq⟩ | hold
  · rw [heq]
    exact hmust hid
  · exact h.answers e hold

theorem Inv.decide (h : Inv sid row actor s)
    (hpass : c.id = sid → must = true ∨ c.failed = true) :
    Inv sid row actor (s.decide i c must) := by
  have hset : Inv sid row actor (s.set i { c with phase := .finished }) := h.set fun _ => trivial
  unfold State.decide
  split
  · exact hset
  · next hfalse =>
    refine ⟨hset.answers, hset.cached, hset.calls, fun p hp hid => ?_⟩
    rcases List.mem_cons.mp hp with rfl | hold
    · exact (hpass hid).resolve_left hfalse
    · exact hset.passes p hold hid

/-- A session that is answered with its actor goes on to the account. -/
theorem Inv.answer (h : Inv sid row actor s)
    (hinfo : c.guarded = true → c.id = sid → info.bind SessionInfo.actor = some actor) :
    Inv sid row actor (s.answer i c info) := by
  unfold State.answer
  split
  · next hguarded =>
    split
    · next name hname =>
      refine h.set fun hid => ?_
      rw [hinfo hguarded hid] at hname
      exact (Option.some.inj hname).symm
    · next hnone =>
      have hother : c.id ≠ sid := by
        intro hid
        rw [hinfo hguarded hid] at hnone
        cases hnone
      exact (h.keepAnswer fun hid => absurd hid hother).decide fun hid => absurd hid hother
  · exact h.set fun _ => trivial

theorem Inv.cacheInsert {id : Str} {validUntil : Nat} (h : Inv sid row actor s)
    (hinfo : id = sid → ∀ found ∈ info, found.actor = some actor) :
    Inv sid row actor (s.cacheInsert id info validUntil) := by
  refine ⟨h.answers, fun e he found hfound => ?_, h.calls, h.passes⟩
  by_cases hid : sid = id
  · subst hid
    simp only [State.cacheInsert, Function.update_self] at he
    cases he
    exact hinfo rfl found hfound
  · simp only [State.cacheInsert, Function.update_of_ne hid] at he
    exact h.cached e he found hfound

theorem Inv.retain {keep : CachedEntry → Bool} {sinceSweep : Nat} (h : Inv sid row actor s) :
    Inv sid row actor { s with cache := SessionsPg.retain keep s.cache, sinceSweep } :=
  ⟨h.answers, fun e he => h.cached e (Option.mem_filter_iff.mp he).1, h.calls, h.passes⟩

theorem Inv.sweep (h : Inv sid row actor s) : Inv sid row actor s.sweep := by
  unfold State.sweep
  split
  · exact h.retain
  · exact ⟨h.answers, h.cached, h.calls, h.passes⟩

theorem mem_cache_sweep {id : Str} {e : CachedEntry} (h : e ∈ s.sweep.cache id) :
    e ∈ s.cache id := by
  unfold State.sweep at h
  split at h
  · exact (Option.mem_filter_iff.mp h).1
  · exact h

variable {cacheTtl : Nat}

theorem Inv.gate (h : Inv sid row actor s)
    (hstep : stepCall cacheTtl s i c (.gate i) = some s') : Inv sid row actor s' := by
  simp only [stepCall] at hstep
  split at hstep
  · split at hstep <;> cases hstep
    · next kept must hkept =>
      refine h.decide fun hid => .inl ?_
      rw [hid] at hkept
      exact h.answers _ (Option.mem_filter_iff.mp hkept).1
    · exact h.set fun _ => trivial
  · cases hstep

theorem Inv.lookup (h : Inv sid row actor s) (hanswered : Answered sid s (.lookup i))
    (hi : s.pool[i]? = some c) (hstep : stepCall cacheTtl s i c (.lookup i) = some s') :
    Inv sid row actor s' := by
  simp only [stepCall] at hstep
  split at hstep
  · split at hstep <;> cases hstep
    · next entry hentry =>
      refine h.sweep.answer fun hguarded hid => ?_
      rw [hid] at hentry
      obtain ⟨hmem, hfresh⟩ := Option.mem_filter_iff.mp hentry
      have hold := mem_cache_sweep hmem
      have hsome := hanswered c hi hguarded hid entry hold (by simpa using hfresh)
      obtain ⟨info, hinfo⟩ := Option.isSome_iff_exists.mp hsome
      rw [hinfo]
      exact h.cached entry hold info hinfo
    · exact h.sweep.set fun _ => trivial
  · cases hstep

theorem Inv.select {ok : Bool} (h : Inv sid row actor s) (hpending : Pending sid row actor s)
    (hanswered : Answered sid s (.select i ok)) (hi : s.pool[i]? = some c)
    (hstep : stepCall cacheTtl s i c (.select i ok) = some s') : Inv sid row actor s' := by
  simp only [stepCall] at hstep
  split at hstep
  · split at hstep <;> cases hstep
    · refine h.set fun hid => ?_
      show s.rows c.id = some row
      rw [hid]
      exact hpending.found
    · next hfailed =>
      exact h.answer fun hguarded hid => absurd (hanswered c hi hguarded hid) hfailed
  · cases hstep

/-- Any answer but the row of the pending session is about another one. -/
theorem Inv.negative (h : Inv sid row actor s) (hother : c.id ≠ sid) {validUntil : Nat} :
    Inv sid row actor ((s.cacheInsert c.id none validUntil).answer i c none) :=
  (h.cacheInsert fun hid => absurd hid hother).answer fun _ hid => absurd hid hother

theorem Inv.deleteRows {p : Str → Row → Bool} (h : Inv sid row actor s) :
    Inv sid row actor (s.deleteRows p) :=
  ⟨h.answers, h.cached, h.calls, h.passes⟩

theorem Inv.judge {collected : Bool} (h : Inv sid row actor s)
    (hpending : Pending sid row actor s) (hi : s.pool[i]? = some c)
    (hstep : stepCall cacheTtl s i c (.judge i collected) = some s') : Inv sid row actor s' := by
  have hsound : c.id = sid → c.phase.Sound row actor := h.calls c (List.mem_of_getElem? hi)
  simp only [stepCall] at hstep
  split at hstep
  · next asked hphase =>
    cases hstep
    rw [hphase] at hsound
    exact h.negative fun hid => by cases hsound hid
  · next asked found hphase =>
    rw [hphase] at hsound
    have hrow : c.id = sid → found = row := fun hid => Option.some.inj (hsound hid)
    split at hstep
    · next hrole =>
      cases hstep
      refine h.negative fun hid => ?_
      have hparses := hpending.parses
      rw [← hrow hid, hrole] at hparses
      cases hparses
    · next role hrole =>
      split at hstep <;> cases hstep
      · next hexpired =>
        have hother : c.id ≠ sid := by
          intro hid
          have hlive := hpending.live
          rw [← hrow hid] at hlive
          omega
        split
        · exact h.deleteRows.negative hother
        · exact h.negative hother
      · have hnamed : c.id = sid → found.actor = some actor := by
          intro hid
          rw [hrow hid]
          exact hpending.named
        refine (h.cacheInsert fun hid info hinfo => ?_).answer fun _ hid => hnamed hid
        cases hinfo
        exact hnamed hid
  · cases hstep

theorem Inv.fetch {ok : Bool} (h : Inv sid row actor s) (hpending : Pending sid row actor s)
    (hi : s.pool[i]? = some c) (hstep : stepCall cacheTtl s i c (.fetch i ok) = some s') :
    Inv sid row actor s' := by
  have hsound : c.id = sid → c.phase.Sound row actor := h.calls c (List.mem_of_getElem? hi)
  simp only [stepCall] at hstep
  split at hstep
  · next name hphase =>
    rw [hphase] at hsound
    split at hstep <;> cases hstep
    · have hmust : c.id = sid →
          ((s.users.fetch name).map UserRow.mustChangePassword).getD false = true := by
        intro hid
        rw [show name = actor from hsound hid, hpending.flag]
        rfl
      exact (h.keepAnswer hmust).decide fun hid => .inl (hmust hid)
    · exact h.decide fun _ => .inr rfl
  · cases hstep

theorem Inv.step {e : Event} (h : Inv sid row actor s) (hpending : Pending sid row actor s)
    (hanswered : Answered sid s e) (hstep : (machine cacheTtl).step s e = some s') :
    Inv sid row actor s' := by
  cases e with
  | tick elapsed =>
    cases hstep
    exact ⟨h.answers, h.cached, h.calls, h.passes⟩
  | users db =>
    cases hstep
    exact ⟨h.answers, h.cached, h.calls, h.passes⟩
  | rows rows =>
    cases hstep
    exact ⟨h.answers, h.cached, h.calls, h.passes⟩
  | create id role name expiresAt inserted =>
    simp only [machine, MustChange.step] at hstep
    split at hstep <;> cases hstep
    next hnew =>
    have hother : id ≠ sid := by
      rintro rfl
      rw [hpending.found] at hnew
      cases hnew
    refine Inv.cacheInsert ?_ fun hid => absurd hid hother
    split
    · exact ⟨h.answers, h.cached, h.calls, h.passes⟩
    · exact h
  | remove id deleted =>
    cases hstep
    refine Inv.cacheInsert ?_ nofun
    split
    · exact h.deleteRows
    · exact h
  | revoke name deleted =>
    cases hstep
    refine Inv.retain ?_
    split
    · exact h.deleteRows
    · exact h
  | request path id =>
    simp only [machine, MustChange.step] at hstep
    split at hstep <;> cases hstep
    exact ⟨h.answers, h.cached, forall_mem_concat h.calls fun _ => trivial, h.passes⟩
  | validate id =>
    cases hstep
    exact ⟨h.answers, h.cached, forall_mem_concat h.calls fun _ => trivial, h.passes⟩
  | gate i =>
    obtain ⟨c, -, hstep⟩ := Option.bind_eq_some_iff.mp hstep
    exact h.gate hstep
  | lookup i =>
    obtain ⟨c, hi, hstep⟩ := Option.bind_eq_some_iff.mp hstep
    exact h.lookup hanswered hi hstep
  | select i ok =>
    obtain ⟨c, hi, hstep⟩ := Option.bind_eq_some_iff.mp hstep
    exact h.select hpending hanswered hi hstep
  | judge i collected =>
    obtain ⟨c, hi, hstep⟩ := Option.bind_eq_some_iff.mp hstep
    exact h.judge hpending hi hstep
  | fetch i ok =>
    obtain ⟨c, hi, hstep⟩ := Option.bind_eq_some_iff.mp hstep
    exact h.fetch hpending hi hstep

end Steps

/-- **A pending session passes on failed lookups only.** In every run in which the session
stays live and its account has to change its password throughout, and whose guard finds
the session each time it asks for it, each gated request of the session that is let
through had a failed query of its own. -/
theorem passes_failed {cacheTtl : Nat} {sid actor : Str} {row : Row} {s s' : State}
    {es : List Event} (hstart : Start sid actor s)
    (hrun : (machine cacheTtl).Run
      (fun s e => Pending sid row actor s ∧ Answered sid s e) s es s') :
    ∀ p ∈ s'.passes, p.id = sid → p.failed = true := by
  have hinv : Inv sid row actor s := by
    refine ⟨?_, fun e he info hinfo => ?_, ?_, ?_⟩
    · simp [hstart.answers]
    · have hactor := hstart.cached e he
      rw [Option.mem_def.mp hinfo] at hactor
      exact hactor
    · simp [hstart.pool]
    · simp [hstart.passes]
  exact (hrun.invariant hinv fun _ _ _ hinv hok hstep => hinv.step hok.1 hok.2 hstep).passes

end Model

/-! ## A failed session query -/

section Blip

attribute [local instance] asciiUnicode

def anaRow : Row := ⟨Role.viewer.asStr, some "ana".toList, 86400⟩

/-- The session of an account with its initial password. -/
def firstLogin : State where
  now := 0
  rows := Function.update (fun _ => none) "sid".toList (some anaRow)
  users := AList.insert (Username.of "ana".toList)
    ⟨[], Role.viewer.asStr, true, [], none, none, none⟩ ∅
  cache := fun _ => none
  sinceSweep := 0
  mustChange := ∅
  pool := []
  passes := []

theorem start_firstLogin : Start "sid".toList "ana".toList firstLogin :=
  ⟨rfl, by simp [firstLogin], rfl, rfl⟩

def dashboard : Event := .request "/admin/dashboard".toList "sid".toList

/-- The query of the first request fails, and the second asks nobody. -/
def failedSelect : List Event :=
  [dashboard, .gate 0, .lookup 0, .select 0 false, .tick 10, dashboard, .gate 1]

theorem failedSelect_passes_later :
    ¬ ∀ (cacheTtl : Nat) (sid actor : Str) (row : Row) (s s' : State) (es : List Event),
      Start sid actor s →
      (machine cacheTtl).Run (fun s _ => Pending sid row actor s) s es s' →
      ∀ p ∈ s'.passes, p.id = sid → p.failed = true := by
  intro hclaim
  have hsome : ((machine 5).execIf (fun s _ => Pending "sid".toList anaRow "ana".toList s)
      firstLogin failedSelect).isSome = true := by decide +kernel
  have hrun := run_execIf hsome
  have hfailed := hclaim 5 _ _ _ _ _ _ start_firstLogin hrun ⟨"sid".toList, false⟩
    (List.mem_cons_self ..) rfl
  cases hfailed

/-- The query for the account fails once, and the next request is bounced. -/
def failedFetch : List Event :=
  [dashboard, .gate 0, .lookup 0, .select 0 true, .judge 0 false, .fetch 0 false, dashboard,
    .gate 1, .lookup 1, .fetch 1 true, dashboard, .gate 2]

theorem passes_failed_failedFetch :
    ∃ s', (machine 5).Run (fun s e => Pending "sid".toList anaRow "ana".toList s ∧
        Answered "sid".toList s e) firstLogin failedFetch s' ∧
      s'.passes = [⟨"sid".toList, true⟩] ∧
      ∀ p ∈ s'.passes, p.id = "sid".toList → p.failed = true := by
  have hsome : ((machine 5).execIf (fun s e => Pending "sid".toList anaRow "ana".toList s ∧
      Answered "sid".toList s e) firstLogin failedFetch).isSome = true := by decide +kernel
  have hrun := run_execIf hsome
  exact ⟨_, hrun, rfl, passes_failed start_firstLogin hrun⟩

end Blip

end Ruscker.Auth.MustChange
