import Ruscker.Lib.Machine
import Ruscker.Lib.Moments

/-!
# Leader election over a session lock

Any number of electors compete for one advisory lock.  The lock belongs to a session of
the server, and the elector only keeps a connection and a flag about it.  Each round trip
may end without an answer before or after the server carried it out, and a connection the
elector dropped is a session the server ends later.
-/

namespace Ruscker.Leader

open Machines Machines.Machine Moments

variable {ι : Type*}

/-! ## The elector -/

/-- `conn` is the session of the kept connection. -/
structure LockState where
  conn : Option Nat
  holds : Bool
  deriving DecidableEq

inductive Round where
  | connect
  | ping
  | tryLock
  deriving DecidableEq

/-- What `is_leader` does next: wait for a round trip, or return. -/
inductive Next where
  | await (r : Round)
  | ret (leads : Bool)
  deriving DecidableEq

namespace LockState

/-- `PgLeaderLock::new` -/
def new : LockState := ⟨none, false⟩

/-- The connection is there: re-validate a held lock, else try to acquire. -/
def probe (st : LockState) : Round := if st.holds then .ping else .tryLock

def isLeader (st : LockState) : Next :=
  match st.conn with
  | none => .await .connect
  | some _ => .await st.probe

def onConnect (st : LockState) : Option Nat → LockState × Next
  | some sid =>
    let st : LockState := ⟨some sid, false⟩
    (st, .await st.probe)
  | none => (st, .ret false)

def onPing (st : LockState) (alive : Bool) : LockState × Next :=
  if alive then (st, .ret true) else (⟨none, false⟩, .ret false)

def onTryLock (st : LockState) : Option Bool → LockState × Next
  | some got => ({ st with holds := got }, .ret got)
  | none => ({ st with conn := none }, .ret false)

end LockState

/-! ## The server -/

inductive Command where
  | ping
  | tryLock
  deriving DecidableEq

inductive Reply where
  | pong
  | got (locked : Bool)
  deriving DecidableEq

/-- The one command or reply a session has in flight. -/
inductive Wire where
  | quiet
  | sent (c : Command)
  | replied (r : Reply)
  deriving DecidableEq

structure Session (ι : Type*) where
  client : ι
  alive : Bool
  wire : Wire

/-- Sessions are named by their position; `owner` is the session that has the lock. -/
structure Server (ι : Type*) where
  sessions : List (Session ι)
  owner : Option Nat

namespace Server

def setWire (srv : Server ι) (sid : Nat) (w : Wire) : Server ι :=
  { srv with sessions := srv.sessions.modify sid fun x => { x with wire := w } }

/-- A new session of `i`. -/
def accept (srv : Server ι) (i : ι) : Server ι :=
  { srv with sessions := srv.sessions ++ [⟨i, true, .quiet⟩] }

/-- `pg_try_advisory_lock` answers `true` again to the session that has the lock. -/
def execute (srv : Server ι) (sid : Nat) : Command → Reply × Option Nat
  | .ping => (.pong, srv.owner)
  | .tryLock =>
    match srv.owner with
    | none => (.got true, some sid)
    | some o => (.got (o == sid), some o)

/-- The server carries out the command a live session has in flight. -/
def serve (srv : Server ι) (sid : Nat) : Option (Server ι) :=
  match srv.sessions[sid]? with
  | some ⟨_, true, .sent c⟩ =>
    let (r, owner) := srv.execute sid c
    some { srv.setWire sid (.replied r) with owner }
  | _ => none

/-- A session ends and its lock is released. -/
def close (srv : Server ι) (sid : Nat) : Server ι :=
  { sessions := srv.sessions.modify sid fun x => { x with alive := false }
    owner := if srv.owner = some sid then none else srv.owner }

/-- What a round puts on the wire of the kept connection. -/
def post (srv : Server ι) (conn : Option Nat) : Round → Server ι
  | .connect => srv
  | .ping => conn.elim srv fun sid => srv.setWire sid (.sent .ping)
  | .tryLock => conn.elim srv fun sid => srv.setWire sid (.sent .tryLock)

end Server

/-! ## The system -/

inductive Phase where
  | idle
  | awaiting (r : Round) (began : Nat)
  deriving DecidableEq

/-- `last` is what the last finished call returned. -/
structure Elector where
  st : LockState
  phase : Phase
  last : Option Bool
  deriving DecidableEq

/-- A finished call: the moments of the server it lasted and the connection kept after it. -/
structure Return (ι : Type*) where
  elector : ι
  leads : Bool
  kept : Option Nat
  began : Nat
  ended : Nat

structure State (ι : Type*) where
  server : Timeline (Server ι)
  electors : ι → Elector
  /-- ghost -/
  returns : List (Return ι)

inductive Event (ι : Type*) where
  | call (i : ι)
  | connected (i : ι)
  /-- an error or a timeout; `opened` when the server had opened the session -/
  | connectFailed (i : ι) (opened : Bool)
  | serve (sid : Nat)
  | answered (i : ι)
  /-- an error or a timeout of a ping or a lock query, at any time after it was sent -/
  | lost (i : ι)
  | close (sid : Nat)

namespace State

variable [DecidableEq ι] (s : State ι)

def initial : State ι := ⟨.start ⟨[], none⟩, fun _ => ⟨.new, .idle, none⟩, []⟩

/-- `i` goes on to its next round trip or returns, with the server at `srv`. -/
def resume (i : ι) (srv : Server ι) (began : Nat) : LockState × Next → State ι
  | (st, .await r) =>
    { s with
      server := s.server.advance (srv.post st.conn r)
      electors := Function.update s.electors i
        { s.electors i with st, phase := .awaiting r began } }
  | (st, .ret leads) =>
    { server := s.server.advance srv
      electors := Function.update s.electors i ⟨st, .idle, some leads⟩
      returns := s.returns ++ [⟨i, leads, st.conn, began, s.server.clock⟩] }

def call (i : ι) : Option (State ι) :=
  match (s.electors i).phase with
  | .idle =>
    let st := (s.electors i).st
    some (s.resume i s.server.now (s.server.clock + 1) (st, st.isLeader))
  | _ => none

def connected (i : ι) : Option (State ι) :=
  match (s.electors i).phase with
  | .awaiting .connect began =>
    some (s.resume i (s.server.now.accept i) began
      ((s.electors i).st.onConnect (some s.server.now.sessions.length)))
  | _ => none

def connectFailed (i : ι) (opened : Bool) : Option (State ι) :=
  match (s.electors i).phase with
  | .awaiting .connect began =>
    let srv := if opened then s.server.now.accept i else s.server.now
    some (s.resume i srv began ((s.electors i).st.onConnect none))
  | _ => none

/-- The reply of the session `sid` in flight to its client. -/
def replyTo (sid : Nat) : Option Reply :=
  match s.server.now.sessions[sid]? with
  | some ⟨_, _, .replied r⟩ => some r
  | _ => none

def answered (i : ι) : Option (State ι) :=
  match s.electors i with
  | ⟨⟨some sid, holds⟩, .awaiting r began, _⟩ =>
    let srv := s.server.now.setWire sid .quiet
    match r, s.replyTo sid with
    | .ping, some .pong => some (s.resume i srv began (LockState.onPing ⟨some sid, holds⟩ true))
    | .tryLock, some (.got b) =>
      some (s.resume i srv began (LockState.onTryLock ⟨some sid, holds⟩ (some b)))
    | _, _ => none
  | _ => none

def lost (i : ι) : Option (State ι) :=
  match (s.electors i).phase with
  | .awaiting .ping began =>
    some (s.resume i s.server.now began ((s.electors i).st.onPing false))
  | .awaiting .tryLock began =>
    some (s.resume i s.server.now began ((s.electors i).st.onTryLock none))
  | _ => none

def step : Event ι → Option (State ι)
  | .call i => s.call i
  | .connected i => s.connected i
  | .connectFailed i opened => s.connectFailed i opened
  | .serve sid => (s.server.now.serve sid).map fun srv => { s with server := s.server.advance srv }
  | .answered i => s.answered i
  | .lost i => s.lost i
  | .close sid => some { s with server := s.server.advance (s.server.now.close sid) }

end State

def machine (ι : Type*) [DecidableEq ι] : Machine (State ι) (Event ι) := ⟨State.step⟩

/-! ## What an election promises -/

/-- The live session `sid` of `i` owns the lock. -/
def Leads (i : ι) (sid : Nat) (srv : Server ι) : Prop :=
  srv.owner = some sid ∧ ∃ x, srv.sessions[sid]? = some x ∧ x.client = i ∧ x.alive = true

/-- A call that returned true kept a connection whose live session owned the lock at a
moment of the call. -/
def Return.Earned (t : Timeline (Server ι)) (r : Return ι) : Prop :=
  r.leads = true → ∃ sid, r.kept = some sid ∧ t.SeenIn (Leads r.elector sid) r.began r.ended

structure Elector.Honest (t : Timeline (Server ι)) (i : ι) (el : Elector) : Prop where
  acquired : el.st.holds = true →
    ∃ sid, el.st.conn = some sid ∧ t.SeenSince (Leads i sid) 0
  free : el.phase = .idle → el.last = some false →
    ∀ sid, el.st.conn = some sid → t.now.owner ≠ some sid

structure Sound (s : State ι) : Prop where
  earned : ∀ r ∈ s.returns, r.Earned s.server
  honest : ∀ i, (s.electors i).Honest s.server i

/-! ## The server step by step -/

namespace Server

variable {srv srv' : Server ι} {sid o : Nat} {w : Wire} {x y : Session ι} {i : ι}

/-- A step that is not about `sid` leaves its session and its lock alone. -/
structure Spares (srv srv' : Server ι) (sid : Nat) : Prop where
  session : ∀ x, srv.sessions[sid]? = some x → srv'.sessions[sid]? = some x
  owner : srv'.owner = some sid ↔ srv.owner = some sid

/-- The owner of the lock is one of the sessions. -/
def Owned (srv : Server ι) : Prop := ∀ o, srv.owner = some o → o < srv.sessions.length

@[simp] theorem owner_setWire : (srv.setWire sid w).owner = srv.owner := rfl

@[simp] theorem length_setWire :
    (srv.setWire sid w).sessions.length = srv.sessions.length := by
  simp [setWire]

theorem getElem?_setWire (h : srv.sessions[sid]? = some x) :
    (srv.setWire sid w).sessions[sid]? = some { x with wire := w } := by
  simp [setWire, h]

theorem Spares.refl : srv.Spares srv sid := ⟨fun _ h => h, Iff.rfl⟩

theorem Spares.trans {srv'' : Server ι} (h : srv.Spares srv' sid) (h' : srv'.Spares srv'' sid) :
    srv.Spares srv'' sid :=
  ⟨fun x hx => h'.session x (h.session x hx), h'.owner.trans h.owner⟩

theorem setWire_spares (hne : sid ≠ o) : srv.Spares (srv.setWire sid w) o := by
  refine ⟨fun x hx => ?_, Iff.rfl⟩
  simp [setWire, hne, hx]

theorem accept_spares : srv.Spares (srv.accept i) sid := by
  refine ⟨fun x hx => ?_, Iff.rfl⟩
  obtain ⟨hlt, -⟩ := List.getElem?_eq_some_iff.mp hx
  simp only [accept, List.getElem?_append_left hlt, hx]

theorem getElem?_accept :
    (srv.accept i).sessions[srv.sessions.length]? = some ⟨i, true, .quiet⟩ := by
  simp [accept]

theorem close_spares (hne : sid ≠ o) : srv.Spares (srv.close sid) o := by
  refine ⟨fun x hx => ?_, ?_⟩
  · simp [close, hne, hx]
  · by_cases howner : srv.owner = some sid
    · simp [close, howner, hne]
    · simp [close, howner]

theorem getElem?_close (h : srv.sessions[sid]? = some x) :
    (srv.close sid).sessions[sid]? = some { x with alive := false } := by
  simp [close, h]

theorem owner_close_ne : (srv.close sid).owner ≠ some sid := by
  unfold close
  split
  · simp
  · next hne => exact hne

/-- A served session was alive and had a command in flight. -/
theorem serve_cases (h : srv.serve sid = some srv') :
    ∃ i c, srv.sessions[sid]? = some ⟨i, true, .sent c⟩ ∧
      srv' = { srv.setWire sid (.replied (srv.execute sid c).1) with
        owner := (srv.execute sid c).2 } := by
  unfold serve at h
  split at h
  · next i c hx => exact ⟨i, c, hx, (Option.some.inj h).symm⟩
  · cases h

/-- A command gives the lock to the session that sent it or to nobody new. -/
theorem execute_owner (srv : Server ι) (sid : Nat) (c : Command) :
    (srv.execute sid c).2 = srv.owner ∨
      srv.owner = none ∧ (srv.execute sid c).2 = some sid := by
  cases c with
  | ping => exact .inl rfl
  | tryLock =>
    unfold execute
    cases howner : srv.owner with
    | none => exact .inr ⟨rfl, rfl⟩
    | some o => exact .inl rfl

theorem serve_spares (h : srv.serve sid = some srv') (hne : sid ≠ o) : srv.Spares srv' o := by
  obtain ⟨i, c, hx, rfl⟩ := serve_cases h
  refine ⟨(setWire_spares hne).session, ?_⟩
  rcases execute_owner srv sid c with hsame | ⟨hnone, hnew⟩
  · simp [hsame]
  · simp [hnone, hnew, hne]

/-! ### The owner is a session -/

theorem Owned.setWire (h : srv.Owned) : (srv.setWire sid w).Owned := by
  intro o ho
  rw [length_setWire]
  exact h o ho

theorem Owned.accept (h : srv.Owned) : (srv.accept i).Owned := by
  intro o ho
  have hlt := h o ho
  simp only [Server.accept, List.length_append, List.length_singleton]
  omega

theorem Owned.close (h : srv.Owned) : (srv.close sid).Owned := by
  intro o ho
  simp only [Server.close, List.length_modify] at ho ⊢
  split at ho
  · cases ho
  · exact h o ho

theorem Owned.serve (h : srv.Owned) (hserve : srv.serve sid = some srv') : srv'.Owned := by
  obtain ⟨i, c, hx, rfl⟩ := serve_cases hserve
  obtain ⟨hlt, -⟩ := List.getElem?_eq_some_iff.mp hx
  intro o ho
  simp only [length_setWire]
  rcases execute_owner srv sid c with hsame | ⟨-, hnew⟩
  · exact h o (hsame ▸ ho)
  · cases hnew ▸ ho
    exact hlt

theorem Owned.post (h : srv.Owned) {conn : Option Nat} {r : Round} : (srv.post conn r).Owned := by
  cases r <;> cases conn
  all_goals first | exact h | exact h.setWire

end Server

/-! ## What an elector knows of its session -/

/-- The session got the lock once and keeps it as long as it lives. -/
structure Held (t : Timeline (Server ι)) (i : ι) (sid : Nat) (x : Session ι) : Prop where
  keeps : x.alive = true → t.now.owner = some sid
  acquired : t.SeenSince (Leads i sid) 0

/-- The flag and the phase of an elector against the kept session `x`. -/
inductive Knows (t : Timeline (Server ι)) (i : ι) (sid : Nat) (x : Session ι) :
    Bool → Phase → Prop
  | leader : x.wire = .quiet → Held t i sid x → Knows t i sid x true .idle
  | follower : x.wire = .quiet → t.now.owner ≠ some sid → Knows t i sid x false .idle
  | pinging {b : Nat} : x.wire = .sent .ping → Held t i sid x → b ≤ t.clock →
      Knows t i sid x true (.awaiting .ping b)
  | ponged {b : Nat} : x.wire = .replied .pong → Held t i sid x → t.SeenSince (Leads i sid) b →
      Knows t i sid x true (.awaiting .ping b)
  | asking {b : Nat} : x.wire = .sent .tryLock → t.now.owner ≠ some sid → b ≤ t.clock →
      Knows t i sid x false (.awaiting .tryLock b)
  | won {b : Nat} : x.wire = .replied (.got true) → Held t i sid x →
      t.SeenSince (Leads i sid) b → Knows t i sid x false (.awaiting .tryLock b)
  | refused {b : Nat} : x.wire = .replied (.got false) → t.now.owner ≠ some sid →
      Knows t i sid x false (.awaiting .tryLock b)

section Sessions

variable {t : Timeline (Server ι)} {srv : Server ι} {i : ι} {sid : Nat} {x y : Session ι}
  {holds : Bool} {ph : Phase}

theorem Held.advance (h : Held t i sid x) (halive : y.alive = true → x.alive = true)
    (howner : t.now.owner = some sid → srv.owner = some sid) :
    Held (t.advance srv) i sid y :=
  ⟨fun hy => howner (h.keeps (halive hy)), h.acquired.advance⟩

namespace Knows

/-- A step that leaves the wire of the session alone. -/
theorem map (h : Knows t i sid x holds ph) (hwire : y.wire = x.wire)
    (hheld : Held t i sid x → Held (t.advance srv) i sid y)
    (hfree : t.now.owner ≠ some sid → srv.owner ≠ some sid) :
    Knows (t.advance srv) i sid y holds ph := by
  have hclock : ∀ b, b ≤ t.clock → b ≤ (t.advance srv).clock := by
    intro b hb
    rw [Timeline.clock_advance]
    omega
  cases h with
  | leader hw hh => exact .leader (hwire.trans hw) (hheld hh)
  | follower hw hne => exact .follower (hwire.trans hw) (hfree hne)
  | pinging hw hh hb => exact .pinging (hwire.trans hw) (hheld hh) (hclock _ hb)
  | ponged hw hh hs => exact .ponged (hwire.trans hw) (hheld hh) hs.advance
  | asking hw hne hb => exact .asking (hwire.trans hw) (hfree hne) (hclock _ hb)
  | won hw hh hs => exact .won (hwire.trans hw) (hheld hh) hs.advance
  | refused hw hne => exact .refused (hwire.trans hw) (hfree hne)

theorem advance (h : Knows t i sid x holds ph) (hsp : t.now.Spares srv sid) :
    Knows (t.advance srv) i sid x holds ph := by
  refine h.map rfl (fun hh => hh.advance id hsp.owner.mpr) fun hne heq => ?_
  exact hne (hsp.owner.mp heq)

/-- The server ends the kept session. -/
theorem close (h : Knows t i sid x holds ph) :
    Knows (t.advance (t.now.close sid)) i sid { x with alive := false } holds ph :=
  h.map rfl (fun hh => ⟨nofun, hh.acquired.advance⟩) fun _ => Server.owner_close_ne

/-- The server carries out the command of the kept session. -/
theorem serve (h : Knows t i sid x holds ph) (hx : t.now.sessions[sid]? = some x)
    (hclient : x.client = i) (hserve : t.now.serve sid = some srv) :
    ∃ y, srv.sessions[sid]? = some y ∧ y.client = i ∧
      Knows (t.advance srv) i sid y holds ph := by
  obtain ⟨j, c, hj, rfl⟩ := Server.serve_cases hserve
  obtain rfl : x = ⟨j, true, .sent c⟩ := Option.some.inj (hx.symm.trans hj)
  refine ⟨_, Server.getElem?_setWire hj, hclient, ?_⟩
  have hclock : ∀ b, b ≤ t.clock → b ≤ t.clock + 1 := fun b hb => by omega
  cases h with
  | leader hw _ => cases hw
  | follower hw _ => cases hw
  | ponged hw _ _ => cases hw
  | won hw _ _ => cases hw
  | refused hw _ => cases hw
  | pinging hw hh hb =>
    cases hw
    have hleads : Leads i sid { t.now.setWire sid (.replied .pong) with owner := t.now.owner } :=
      ⟨hh.keeps rfl, _, Server.getElem?_setWire hj, hclient, rfl⟩
    refine .ponged rfl (hh.advance (fun _ => rfl) id) (.now hleads ?_)
    rw [Timeline.clock_advance]
    exact hclock _ hb
  | asking hw hne hb =>
    cases hw
    cases howner : t.now.owner with
    | none =>
      -- a free lock: the session has it from this moment on
      have hleads : Leads i sid { t.now.setWire sid (.replied (.got true)) with
          owner := some sid } := ⟨rfl, _, Server.getElem?_setWire hj, hclient, rfl⟩
      have hseen := Timeline.SeenSince.now (t := t.advance _) hleads
        (Timeline.clock_advance.symm ▸ hclock _ hb)
      simp only [Server.execute, howner]
      exact .won rfl ⟨fun _ => rfl, hseen.since (Nat.zero_le _)⟩ hseen
    | some o =>
      have hother : o ≠ sid := by
        rintro rfl
        exact hne howner
      simp only [Server.execute, howner, beq_eq_false_iff_ne.mpr hother]
      exact .refused rfl (by simpa using hother)

end Knows

end Sessions

/-! ## The invariant -/

/-- An elector against the server. -/
inductive Follows (t : Timeline (Server ι)) (i : ι) : LockState → Phase → Prop
  | detached : Follows t i ⟨none, false⟩ .idle
  | connecting {b : Nat} : b ≤ t.clock → Follows t i ⟨none, false⟩ (.awaiting .connect b)
  | attached {sid : Nat} {holds : Bool} {ph : Phase} {x : Session ι} :
      t.now.sessions[sid]? = some x → x.client = i → Knows t i sid x holds ph →
      Follows t i ⟨some sid, holds⟩ ph

structure Inv (s : State ι) : Prop where
  owned : s.server.now.Owned
  follows : ∀ i, Follows s.server i (s.electors i).st (s.electors i).phase
  /-- an idle elector that returned false has a flag that says so -/
  told : ∀ i, (s.electors i).phase = .idle → (s.electors i).last = some false →
    (s.electors i).st.holds = false
  earned : ∀ r ∈ s.returns, r.Earned s.server

theorem Return.Earned.advance {t : Timeline (Server ι)} {r : Return ι} {srv : Server ι}
    (h : r.Earned t) : r.Earned (t.advance srv) := by
  intro hleads
  obtain ⟨sid, hkept, hseen⟩ := h hleads
  exact ⟨sid, hkept, hseen.advance⟩

namespace Follows

variable {t : Timeline (Server ι)} {i : ι} {st : LockState} {ph : Phase} {srv : Server ι}
  {sid : Nat}

/-- What a step leaves of the kept session. -/
theorem map (h : Follows t i st ph)
    (hkept : ∀ o x holds, t.now.sessions[o]? = some x → x.client = i → Knows t i o x holds ph →
      ∃ y, srv.sessions[o]? = some y ∧ y.client = i ∧ Knows (t.advance srv) i o y holds ph) :
    Follows (t.advance srv) i st ph := by
  cases h with
  | detached => exact .detached
  | connecting hb =>
    refine .connecting ?_
    rw [Timeline.clock_advance]
    omega
  | attached hx hclient hk =>
    obtain ⟨y, hy, hyclient, hyk⟩ := hkept _ _ _ hx hclient hk
    exact .attached hy hyclient hyk

/-- A step that spares every session of `i` leaves what `i` knows. -/
theorem advance (h : Follows t i st ph)
    (hsp : ∀ o x, t.now.sessions[o]? = some x → x.client = i → t.now.Spares srv o) :
    Follows (t.advance srv) i st ph := by
  refine h.map fun o x _ hx hclient hk => ?_
  have hspares := hsp o x hx hclient
  exact ⟨x, hspares.session x hx, hclient, hk.advance hspares⟩

theorem close (h : Follows t i st ph) :
    Follows (t.advance (t.now.close sid)) i st ph := by
  refine h.map fun o x _ hx hclient hk => ?_
  by_cases ho : sid = o
  · subst ho
    exact ⟨_, Server.getElem?_close hx, hclient, hk.close⟩
  · have hspares : t.now.Spares (t.now.close sid) o := Server.close_spares ho
    exact ⟨x, hspares.session x hx, hclient, hk.advance hspares⟩

theorem serve (h : Follows t i st ph) (hserve : t.now.serve sid = some srv) :
    Follows (t.advance srv) i st ph := by
  refine h.map fun o x _ hx hclient hk => ?_
  by_cases ho : sid = o
  · subst ho
    exact hk.serve hx hclient hserve
  · have hspares := Server.serve_spares hserve ho
    exact ⟨x, hspares.session x hx, hclient, hk.advance hspares⟩

end Follows

/-! ## Steps -/

theorem Server.setWire_spares_client {srv : Server ι} {i : ι} {sid o : Nat} {x y : Session ι}
    {w : Wire} (hx : srv.sessions[sid]? = some x) (hclient : x.client = i)
    (hy : srv.sessions[o]? = some y) (hne : y.client ≠ i) :
    srv.Spares (srv.setWire sid w) o := by
  apply Server.setWire_spares
  rintro rfl
  cases hx.symm.trans hy
  exact hne hclient

theorem State.replyTo_replied {s : State ι} {sid : Nat} {x : Session ι} {r : Reply}
    (hx : s.server.now.sessions[sid]? = some x) (hw : x.wire = .replied r) :
    s.replyTo sid = some r := by
  obtain ⟨client, alive, wire⟩ := x
  cases hw
  simp only [State.replyTo, hx]

theorem State.replyTo_sent {s : State ι} {sid : Nat} {x : Session ι} {c : Command}
    (hx : s.server.now.sessions[sid]? = some x) (hw : x.wire = .sent c) :
    s.replyTo sid = none := by
  obtain ⟨client, alive, wire⟩ := x
  cases hw
  simp only [State.replyTo, hx]

namespace Inv

variable {s s' : State ι} {i : ι} {srv : Server ι} {st : LockState} {began sid : Nat}

theorem initial : Inv (State.initial : State ι) where
  owned := nofun
  follows _ := .detached
  told _ _ h := nomatch h
  earned := nofun

/-- A step of the server alone. -/
theorem server (hinv : Inv s) (howned : srv.Owned)
    (hfollows : ∀ i st ph, Follows s.server i st ph → Follows (s.server.advance srv) i st ph) :
    Inv { s with server := s.server.advance srv } where
  owned := howned
  follows i := hfollows i _ _ (hinv.follows i)
  told := hinv.told
  earned r hr := (hinv.earned r hr).advance

/-- The invariant says what an elector was promised. -/
theorem sound (hinv : Inv s) : Sound s := by
  refine ⟨hinv.earned, fun i => ⟨?_, ?_⟩⟩
  · intro hholds
    have hf := hinv.follows i
    generalize (s.electors i).st = st at hf hholds ⊢
    generalize (s.electors i).phase = ph at hf
    cases hf with
    | detached => cases hholds
    | connecting _ => cases hholds
    | attached _ _ hk =>
      refine ⟨_, rfl, ?_⟩
      cases hk with
      | leader _ hh => exact hh.acquired
      | pinging _ hh _ => exact hh.acquired
      | ponged _ hh _ => exact hh.acquired
      | follower _ _ => cases hholds
      | asking _ _ _ => cases hholds
      | won _ _ _ => cases hholds
      | refused _ _ => cases hholds
  · intro hidle hlast sid hconn
    have hf := hinv.follows i
    have hfree := hinv.told i hidle hlast
    rw [hidle] at hf
    generalize (s.electors i).st = st at hf hfree hconn
    cases hf with
    | detached => cases hconn
    | attached _ _ hk =>
      cases hconn
      cases hk with
      | leader _ _ => cases hfree
      | follower _ hne => exact hne

variable [DecidableEq ι]

/-- A step of `i` that spares the sessions of the others. -/
theorem move {el : Elector} {returns : List (Return ι)} (hinv : Inv s) (howned : srv.Owned)
    (hsp : ∀ o x, s.server.now.sessions[o]? = some x → x.client ≠ i → s.server.now.Spares srv o)
    (hself : Follows (s.server.advance srv) i el.st el.phase)
    (htold : el.phase = .idle → el.last = some false → el.st.holds = false)
    (hreturns : ∀ r ∈ returns, r ∈ s.returns ∨ r.Earned (s.server.advance srv)) :
    Inv ⟨s.server.advance srv, Function.update s.electors i el, returns⟩ where
  owned := howned
  follows j := by
    by_cases hj : j = i
    · subst hj
      simpa using hself
    · simp only [Function.update_of_ne hj]
      exact (hinv.follows j).advance fun o x hx hclient => hsp o x hx (hclient ▸ hj)
  told j := by
    by_cases hj : j = i
    · subst hj
      simpa using htold
    · simpa only [Function.update_of_ne hj] using hinv.told j
  earned r hr := by
    rcases hreturns r hr with hold | hnew
    · exact (hinv.earned r hold).advance
    · exact hnew

/-- `i` waits for its next round trip. -/
theorem await {r : Round} (hinv : Inv s) (howned : srv.Owned)
    (hsp : ∀ o x, s.server.now.sessions[o]? = some x → x.client ≠ i →
      s.server.now.Spares (srv.post st.conn r) o)
    (hself : Follows (s.server.advance (srv.post st.conn r)) i st (.awaiting r began)) :
    Inv (s.resume i srv began (st, .await r)) :=
  hinv.move howned.post hsp hself nofun fun _ hr => .inl hr

/-- The call of `i` returns. -/
theorem ret {leads : Bool} (hinv : Inv s) (howned : srv.Owned)
    (hsp : ∀ o x, s.server.now.sessions[o]? = some x → x.client ≠ i → s.server.now.Spares srv o)
    (hself : Follows (s.server.advance srv) i st .idle)
    (htold : leads = false → st.holds = false)
    (hearned : leads = true →
      ∃ sid, st.conn = some sid ∧ s.server.SeenSince (Leads i sid) began) :
    Inv (s.resume i srv began (st, .ret leads)) := by
  refine hinv.move howned hsp hself (fun _ hlast => htold (Option.some.inj hlast)) fun r hr => ?_
  rcases List.mem_append.mp hr with hold | hnew
  · exact .inl hold
  · rw [List.mem_singleton.mp hnew]
    refine .inr fun hleads => ?_
    obtain ⟨sid, hkept, hseen⟩ := hearned hleads
    exact ⟨sid, hkept, Timeline.SeenIn.advance hseen⟩

theorem call (hinv : Inv s) (h : s.call i = some s') : Inv s' := by
  unfold State.call at h
  split at h
  · next hidle =>
    cases h
    have hf := hinv.follows i
    rw [hidle] at hf
    generalize (s.electors i).st = st at hf ⊢
    have hbegan : ∀ srv : Server ι, s.server.clock + 1 ≤ (s.server.advance srv).clock :=
      fun srv => Nat.le_of_eq Timeline.clock_advance.symm
    cases hf with
    | detached =>
      exact hinv.await hinv.owned (fun _ _ _ _ => .refl) (.connecting (hbegan _))
    | attached hx hclient hk =>
      have hsp := fun w o y => Server.setWire_spares_client (o := o) (y := y) (w := w) hx hclient
      cases hk with
      | leader hw hh =>
        refine hinv.await hinv.owned (hsp _)
          (.attached (Server.getElem?_setWire hx) hclient (.pinging rfl ?_ (hbegan _)))
        exact hh.advance id id
      | follower hw hne =>
        exact hinv.await hinv.owned (hsp _)
          (.attached (Server.getElem?_setWire hx) hclient (.asking rfl hne (hbegan _)))
  · cases h

theorem connected (hinv : Inv s) (h : s.connected i = some s') : Inv s' := by
  unfold State.connected at h
  split at h
  · next began hphase =>
    cases h
    have hf := hinv.follows i
    rw [hphase] at hf
    generalize (s.electors i).st = st at hf ⊢
    cases hf with
    | attached _ _ hk => cases hk
    | connecting hb =>
      -- the new session is beyond every session that may own the lock
      have hnew : s.server.now.owner ≠ some s.server.now.sessions.length := by
        intro howner
        have hlt := hinv.owned _ howner
        omega
      refine hinv.await hinv.owned.accept (fun o x hx _ => ?_)
        (.attached (Server.getElem?_setWire Server.getElem?_accept) rfl (.asking rfl hnew ?_))
      · obtain ⟨hlt, -⟩ := List.getElem?_eq_some_iff.mp hx
        exact Server.accept_spares.trans (Server.setWire_spares (by omega))
      · rw [Timeline.clock_advance]
        omega
  · cases h

theorem connectFailed {opened : Bool} (hinv : Inv s) (h : s.connectFailed i opened = some s') :
    Inv s' := by
  unfold State.connectFailed at h
  split at h
  · next began hphase =>
    cases h
    have hf := hinv.follows i
    rw [hphase] at hf
    generalize (s.electors i).st = st at hf ⊢
    cases hf with
    | attached _ _ hk => cases hk
    | connecting hb =>
      cases opened with
      | false => exact hinv.ret hinv.owned (fun _ _ _ _ => .refl) .detached (fun _ => rfl) nofun
      | true =>
        exact hinv.ret hinv.owned.accept (fun _ _ _ _ => Server.accept_spares) .detached
          (fun _ => rfl) nofun
  · cases h

theorem lost (hinv : Inv s) (h : s.lost i = some s') : Inv s' := by
  have hgone : ∀ began, Inv (s.resume i s.server.now began (⟨none, false⟩, .ret false)) :=
    fun began => hinv.ret hinv.owned (fun _ _ _ _ => .refl) .detached (fun _ => rfl) nofun
  unfold State.lost at h
  split at h
  · next began hphase =>
    cases h
    exact hgone began
  · next began hphase =>
    cases h
    have hf := hinv.follows i
    rw [hphase] at hf
    generalize (s.electors i).st = st at hf ⊢
    cases hf with
    | attached _ _ hk => cases hk <;> exact hgone began
  · cases h

theorem answered (hinv : Inv s) (h : s.answered i = some s') : Inv s' := by
  unfold State.answered at h
  split at h
  · next sid holds r began last hel =>
    have hf := hinv.follows i
    rw [hel] at hf
    cases hf with
    | attached hx hclient hk =>
      have hsp := fun o y => Server.setWire_spares_client (o := o) (y := y) (w := .quiet) hx hclient
      have hquiet := Server.getElem?_setWire (w := .quiet) hx
      cases hk with
      | pinging hw _ _ => simp [State.replyTo_sent hx hw] at h
      | asking hw _ _ => simp [State.replyTo_sent hx hw] at h
      | ponged hw hh hs =>
        simp only [State.replyTo_replied hx hw] at h
        cases h
        refine hinv.ret hinv.owned.setWire hsp (.attached hquiet hclient (.leader rfl ?_))
          nofun fun _ => ⟨sid, rfl, hs⟩
        exact hh.advance id id
      | won hw hh hs =>
        simp only [State.replyTo_replied hx hw] at h
        cases h
        refine hinv.ret hinv.owned.setWire hsp (.attached hquiet hclient (.leader rfl ?_))
          nofun fun _ => ⟨sid, rfl, hs⟩
        exact hh.advance id id
      | refused hw hne =>
        simp only [State.replyTo_replied hx hw] at h
        cases h
        exact hinv.ret hinv.owned.setWire hsp
          (.attached hquiet hclient (.follower rfl hne)) (fun _ => rfl) nofun
  · cases h

theorem step {e : Event ι} (hinv : Inv s) (h : (machine ι).step s e = some s') : Inv s' := by
  cases e with
  | call i => exact hinv.call h
  | connected i => exact hinv.connected h
  | connectFailed i opened => exact hinv.connectFailed h
  | answered i => exact hinv.answered h
  | lost i => exact hinv.lost h
  | serve sid =>
    obtain ⟨srv, hserve, rfl⟩ := Option.map_eq_some_iff.mp h
    exact hinv.server (hinv.owned.serve hserve) fun _ _ _ hf => hf.serve hserve
  | close sid =>
    cases h
    exact hinv.server hinv.owned.close fun _ _ _ hf => hf.close

end Inv

/-- **Elections over one session lock.**  For every number of electors and every run, with
round trips lost before or after the server carried them out, a call that returned true
owned the lock through its own live session at a moment of the call, the flag stands only
for the connection that acquired the lock, and an elector told false keeps no connection
that owns it. -/
theorem election_sound [DecidableEq ι] {es : List (Event ι)} {s : State ι}
    (hrun : (machine ι).Run Free State.initial es s) : Sound s :=
  (hrun.invariant Inv.initial fun _ _ _ hinv _ hstep => hinv.step hstep).sound

/-- The first elector leads; the second is refused; the first loses its connection after
the server carried out its ping, and the second takes over. -/
def takeover : List (Event Bool) :=
  [.call true, .connected true, .serve 0, .answered true,
    .call false, .connected false, .serve 1, .answered false,
    .call true, .serve 0, .lost true, .close 0,
    .call false, .serve 1, .answered false]

theorem election_sound_takeover :
    ∃ s, (machine Bool).exec .initial takeover = some s ∧
      s.returns.map (fun r => (r.elector, r.leads)) =
        [(true, true), (false, false), (true, false), (false, true)] ∧ Sound s := by
  have hreturns : (((machine Bool).exec .initial takeover).get (by decide)).returns.map
      (fun r => (r.elector, r.leads)) =
        [(true, true), (false, false), (true, false), (false, true)] := by decide
  have hsome := (Option.some_get (show ((machine Bool).exec .initial takeover).isSome = true by
    decide)).symm
  exact ⟨_, hsome, hreturns, election_sound (run_free_iff.mpr hsome)⟩

end Ruscker.Leader
