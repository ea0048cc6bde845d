import Ruscker.Proxy.Calls

/-!
# Seats, sessions and the calls between them

A seat is counted in the row of its replica, its session is an entry of the store, and the two
are written in different sections.  What a call has done to one and not yet to the other is
read off its phase.
-/

namespace Ruscker.Proxy.Calls

open Tables Machines Machines.Machine

variable {ι κ : Type*}

/-! ## What a call owes a replica -/

namespace Phase

section Owes

variable [DecidableEq ι] (r : ι)

/-- A seat was counted and its session is still to be registered. -/
def reserves : Phase ι κ → Bool
  | .holding _ r' true => r' = r
  | _ => false

/-- A session was registered and its seat is still to be counted. -/
def countsIn : Phase ι κ → Bool
  | .counting r' => r' = r
  | _ => false

/-- A session has ended and its seat is still to be given back. -/
def countsOut : Phase ι κ → Bool
  | .releasing r' => r' = r
  | _ => false

/-- The sessions of the replica are being dropped. -/
def drops : Phase ι κ → Bool
  | .collecting r' _ _ | .purging r' _ => r' = r
  | _ => false

/-- The call is half-way with the replica. -/
def concerns : Phase ι κ → Bool
  | .holding _ r' true | .counting r' | .releasing r' | .collecting r' _ _ | .purging r' _ =>
    r' = r
  | _ => false

variable {r} {p : Phase ι κ}

theorem owes_of_not_concerns (h : p.concerns r = false) :
    p.reserves r = false ∧ p.countsIn r = false ∧ p.countsOut r = false ∧ p.drops r = false := by
  cases p with
  | holding sid r' seatReserved =>
    cases seatReserved with
    | true => exact ⟨h, rfl, rfl, rfl⟩
    | false => exact ⟨rfl, rfl, rfl, rfl⟩
  | counting r' => exact ⟨rfl, h, rfl, rfl⟩
  | releasing r' => exact ⟨rfl, rfl, h, rfl⟩
  | collecting r' k found => exact ⟨rfl, rfl, rfl, h⟩
  | purging r' found => exact ⟨rfl, rfl, rfl, h⟩
  | _ => exact ⟨rfl, rfl, rfl, rfl⟩

end Owes

/-- Between its first write and its last. -/
def halfWay : Phase ι κ → Bool
  | .holding _ _ true | .counting _ | .releasing _ | .collecting _ _ _ | .purging _ _ => true
  | _ => false

theorem concerns_of_not_halfWay [DecidableEq ι] {r : ι} {p : Phase ι κ} (h : p.halfWay = false) :
    p.concerns r = false := by
  cases p with
  | holding sid r' seatReserved =>
    cases seatReserved with
    | true => cases h
    | false => rfl
  | counting r' => cases h
  | releasing r' => cases h
  | collecting r' k found => cases h
  | purging r' found => cases h
  | _ => rfl

end Phase

namespace State

variable {s s' : State ι κ} {i : Nat} {c : Call ι κ} {q : Phase ι κ}

/-- How many calls are in a phase that meets `f`. -/
def tally (s : State ι κ) (f : Phase ι κ → Bool) : Nat := s.calls.countP fun c => f c.phase

theorem tally_move (f : Phase ι κ → Bool) (hc : s.calls[i]? = some c)
    (hcalls : s'.calls = s.calls.set i { c with phase := q }) :
    s'.tally f + (if f c.phase then 1 else 0) = s.tally f + if f q then 1 else 0 := by
  rw [tally, hcalls]
  exact countP_set_add (p := fun c : Call ι κ => f c.phase) hc

theorem tally_eq_zero {f : Phase ι κ → Bool} (h : ∀ c ∈ s.calls, f c.phase = false) :
    s.tally f = 0 :=
  List.countP_eq_zero.mpr fun c hc => by simp [h c hc]

section Tallies

variable [DecidableEq ι] (s) (r : ι)

/-- Seats of requests that have not registered their session yet. -/
def reserved : Nat := s.tally (Phase.reserves r)

/-- Sessions whose seat is not counted yet. -/
def uncounted : Nat := s.tally (Phase.countsIn r)

/-- Seats of sessions that have ended. -/
def unreleased : Nat := s.tally (Phase.countsOut r)

def sessionsOf : Nat := bound s.sessions r

/-- No call drops the sessions of the replica. -/
def Undropped : Prop := ∀ c ∈ s.calls, c.phase.drops r = false

/-- No call is half-way with a seat of the replica. -/
def Settled : Prop := s.reserved r = 0 ∧ s.uncounted r = 0 ∧ s.unreleased r = 0

/-- Nobody has to do with the replica. -/
def Clear : Prop := s.sessionsOf r = 0 ∧ s.Settled r ∧ s.Undropped r

def Registered : Prop := ∃ x ∈ s.replicas, x.id = r

end Tallies

section Move

variable [DecidableEq ι] {r : ι} (hc : s.calls[i]? = some c)
  (hcalls : s'.calls = s.calls.set i { c with phase := q })
include hc hcalls

/-- A call that owes the same before and after. -/
theorem tallies_same (hreserves : c.phase.reserves r = q.reserves r)
    (hcountsIn : c.phase.countsIn r = q.countsIn r)
    (hcountsOut : c.phase.countsOut r = q.countsOut r) :
    s'.reserved r = s.reserved r ∧ s'.uncounted r = s.uncounted r ∧
      s'.unreleased r = s.unreleased r := by
  have hreserved := tally_move (Phase.reserves r) hc hcalls
  have huncounted := tally_move (Phase.countsIn r) hc hcalls
  have hunreleased := tally_move (Phase.countsOut r) hc hcalls
  rw [hreserves] at hreserved
  rw [hcountsIn] at huncounted
  rw [hcountsOut] at hunreleased
  exact ⟨Nat.add_right_cancel hreserved, Nat.add_right_cancel huncounted,
    Nat.add_right_cancel hunreleased⟩

/-- What a call comes to owe. -/
theorem tallies_to (hp : c.phase.concerns r = false) :
    s'.reserved r = s.reserved r + (if q.reserves r then 1 else 0) ∧
      s'.uncounted r = s.uncounted r + (if q.countsIn r then 1 else 0) ∧
      s'.unreleased r = s.unreleased r + if q.countsOut r then 1 else 0 := by
  obtain ⟨hp₁, hp₂, hp₃, -⟩ := Phase.owes_of_not_concerns hp
  have hreserved := tally_move (Phase.reserves r) hc hcalls
  have huncounted := tally_move (Phase.countsIn r) hc hcalls
  have hunreleased := tally_move (Phase.countsOut r) hc hcalls
  rw [hp₁] at hreserved
  rw [hp₂] at huncounted
  rw [hp₃] at hunreleased
  exact ⟨hreserved, huncounted, hunreleased⟩

/-- What a call no longer owes. -/
theorem tallies_from (hq : q.concerns r = false) :
    s'.reserved r + (if c.phase.reserves r then 1 else 0) = s.reserved r ∧
      s'.uncounted r + (if c.phase.countsIn r then 1 else 0) = s.uncounted r ∧
      s'.unreleased r + (if c.phase.countsOut r then 1 else 0) = s.unreleased r := by
  obtain ⟨hq₁, hq₂, hq₃, -⟩ := Phase.owes_of_not_concerns hq
  have hreserved := tally_move (Phase.reserves r) hc hcalls
  have huncounted := tally_move (Phase.countsIn r) hc hcalls
  have hunreleased := tally_move (Phase.countsOut r) hc hcalls
  rw [hq₁] at hreserved
  rw [hq₂] at huncounted
  rw [hq₃] at hunreleased
  exact ⟨hreserved, huncounted, hunreleased⟩

/-- A call that has nothing to do with a replica leaves its tallies. -/
theorem tallies_frame (hp : c.phase.concerns r = false) (hq : q.concerns r = false) :
    s'.reserved r = s.reserved r ∧ s'.uncounted r = s.uncounted r ∧
      s'.unreleased r = s.unreleased r := by
  obtain ⟨hp₁, hp₂, hp₃, -⟩ := Phase.owes_of_not_concerns hp
  obtain ⟨hq₁, hq₂, hq₃, -⟩ := Phase.owes_of_not_concerns hq
  exact tallies_same hc hcalls (hp₁.trans hq₁.symm) (hp₂.trans hq₂.symm) (hp₃.trans hq₃.symm)

end Move

end State

/-! ## Sessions and their cookies -/

section Cookies

/-- The session was opened on the replica. -/
def Issued (cookies : List (Cookie ι κ)) (sid : κ) (r : ι) : Prop :=
  ∃ c ∈ cookies, c.session = sid ∧ c.replica = r

/-- What a call carries along is of sessions that were opened; a new one is not among them. -/
def Known (cookies : List (Cookie ι κ)) : Phase ι κ → Prop
  | .sticky c _ => c ∈ cookies
  | .holding sid _ true => ∀ c ∈ cookies, c.session ≠ sid
  | .holding sid r false => Issued cookies sid r
  | .collecting r _ found | .purging r found => ∀ sid ∈ found, Issued cookies sid r
  | .sweeping _ _ _ found | .evicting found => ∀ v ∈ found, Issued cookies v.1 v.2
  | .upserting r => r.sessionsActive = 0
  | _ => True

theorem Issued.cons {cookies : List (Cookie ι κ)} {sid : κ} {r : ι} (h : Issued cookies sid r)
    (cookie : Cookie ι κ) : Issued (cookie :: cookies) sid r := by
  obtain ⟨c, hc, hsid⟩ := h
  exact ⟨c, List.mem_cons_of_mem _ hc, hsid⟩

theorem Known.cons {cookies : List (Cookie ι κ)} {cookie : Cookie ι κ} {p : Phase ι κ}
    (h : Known cookies p) (hnew : p.minted ≠ some cookie.session) : Known (cookie :: cookies) p := by
  cases p with
  | sticky c visit => exact List.mem_cons_of_mem _ h
  | holding sid r seatReserved =>
    cases seatReserved with
    | true =>
      intro c hc hsid
      rcases List.mem_cons.mp hc with rfl | hc
      · exact hnew (congrArg some hsid.symm)
      · exact h c hc hsid
    | false => exact Issued.cons h _
  | collecting r k found => exact fun sid hsid => (h sid hsid).cons _
  | purging r found => exact fun sid hsid => (h sid hsid).cons _
  | sweeping globalMs overrides k found => exact fun v hv => (h v hv).cons _
  | evicting victims => exact fun v hv => (h v hv).cons _
  | upserting r => exact h
  | _ => trivial

/-- A session belongs to one replica, in the store and in every call. -/
structure Coherent [Floats] [DecidableEq κ] (node : Node κ) (s : State ι κ) : Prop where
  distinct : s.replicas.Distinct
  oneReplica : ∀ c ∈ s.cookies, ∀ c' ∈ s.cookies, c.session = c'.session → c.replica = c'.replica
  entries : ∀ sid e, s.sessions.lookup sid = some e → Issued s.cookies sid e.replicaId
  known : ∀ c ∈ s.calls, Known s.cookies c.phase
  oneVisit : ∀ (i j : Nat) (c d : Call ι κ) (sid : κ), s.calls[i]? = some c →
    s.calls[j]? = some d → c.phase.minted = some sid → d.phase.minted = some sid → i = j
  routed : ∀ c ∈ s.calls, c.phase.isVisit = true → (node.settings c.spec).kind ≠ .external

end Cookies

namespace Coherent

section Moves

variable [Floats] [DecidableEq κ] {node : Node κ} {s s' : State ι κ} {i : Nat} {c : Call ι κ}
  {q : Phase ι κ} {sid : κ} {r r' : ι}

/-- Nothing is known of any session yet. -/
theorem boot {rows : Registry ι} (hrows : rows.Distinct) :
    Coherent node (boot rows : State ι κ) where
  distinct := hrows
  oneReplica := by simp [Calls.boot]
  entries sid e he := by cases he
  known := by simp [Calls.boot]
  oneVisit := by simp [Calls.boot]
  routed := by simp [Calls.boot]

theorem issued_unique (h : Coherent node s) (hr : Issued s.cookies sid r)
    (hr' : Issued s.cookies sid r') : r = r' := by
  obtain ⟨c, hc, hsid, rfl⟩ := hr
  obtain ⟨c', hc', hsid', rfl⟩ := hr'
  exact h.oneReplica c hc c' hc' (hsid.trans hsid'.symm)

/-- A call goes on and opens no session. -/
theorem move (h : Coherent node s) (hc : s.calls[i]? = some c)
    (hcalls : s'.calls = s.calls.set i { c with phase := q }) (hcookies : s'.cookies = s.cookies)
    (hdistinct : s'.replicas.Distinct)
    (hentries : ∀ sid e, s'.sessions.lookup sid = some e → Issued s.cookies sid e.replicaId)
    (hknown : Known s.cookies q)
    (hminted : ∀ sid, q.minted = some sid → ∀ d ∈ s.calls, d.phase.minted ≠ some sid)
    (hvisit : q.isVisit = true → c.phase.isVisit = true) : Coherent node s' where
  distinct := hdistinct
  oneReplica := by
    rw [hcookies]
    exact h.oneReplica
  entries := by
    rw [hcookies]
    exact hentries
  known := by
    rw [hcookies, hcalls]
    exact forall_mem_set h.known hknown
  oneVisit := by
    intro j k d e sid hd he hdsid hesid
    rw [hcalls] at hd he
    rcases getElem?_set_cases hd with ⟨rfl, rfl⟩ | ⟨hj, hd'⟩ <;>
      rcases getElem?_set_cases he with ⟨rfl, rfl⟩ | ⟨hk, he'⟩
    · rfl
    · exact absurd hesid (hminted sid hdsid e (List.mem_of_getElem? he'))
    · exact absurd hdsid (hminted sid hesid d (List.mem_of_getElem? hd'))
    · exact h.oneVisit j k d e sid hd' he' hdsid hesid
  routed := by
    rw [hcalls]
    refine forall_mem_set h.routed fun hq => ?_
    exact h.routed c (List.mem_of_getElem? hc) (hvisit hq)

/-- A call goes on and writes nothing. -/
theorem goto (h : Coherent node s) (hc : s.calls[i]? = some c) (hknown : Known s.cookies q)
    (hminted : q.minted = none) (hvisit : q.isVisit = true → c.phase.isVisit = true) :
    Coherent node (s.goto i c q) := by
  refine h.move hc rfl rfl h.distinct h.entries hknown ?_ hvisit
  intro sid hsid
  rw [hminted] at hsid
  cases hsid

/-- A call goes on and writes to the registry. -/
theorem setReplicas {reg : Registry ι} (h : Coherent node s) (hreg : reg.Distinct) :
    Coherent node { s with replicas := reg } :=
  { h with distinct := hreg }

/-- A session ends. -/
theorem erase (h : Coherent node s) (sid : κ) :
    Coherent node { s with sessions := s.sessions.erase sid } where
  distinct := h.distinct
  oneReplica := h.oneReplica
  entries sid' e he := by
    rw [Table.lookup_erase_eq] at he
    split at he
    · cases he
    · exact h.entries sid' e he
  known := h.known
  oneVisit := h.oneVisit
  routed := h.routed

/-- Time goes by. -/
theorem tick (h : Coherent node s) (ms : Nat) : Coherent node { s with now := s.now + ms } :=
  ⟨h.distinct, h.oneReplica, h.entries, h.known, h.oneVisit, h.routed⟩

/-- An entry found in a shard belongs to an opened session. -/
theorem issued_of_mem_inShard (h : Coherent node s) {k : Nat} {p : SessionEntry ι → Bool}
    {v : κ × ι} (hv : v ∈ inShard node s.sessions k p) : Issued s.cookies v.1 v.2 := by
  obtain ⟨e, he, rfl⟩ := List.mem_map.mp hv
  exact h.entries e.1 e.2 (AList.mem_lookup_iff.mpr (List.mem_filter.mp he).1)

/-- A new session is registered, one that ended is registered again, or one is touched. -/
theorem register_cases (h : Coherent node s) {seatReserved : Bool} (hc : s.calls[i]? = some c)
    (hphase : c.phase = .holding sid r seatReserved) :
    (seatReserved = true ∧ (∀ cookie ∈ s.cookies, cookie.session ≠ sid) ∧
      s.sessions.lookup sid = none ∧
      register s i c sid r seatReserved = { s.goto i c .done with
        sessions := s.sessions.insert sid ⟨c.spec, r, s.now⟩
        cookies := ⟨sid, c.spec, r⟩ :: s.cookies }) ∨
    (seatReserved = false ∧ Issued s.cookies sid r ∧ s.sessions.lookup sid = none ∧
      register s i c sid r seatReserved = { s.goto i c (.counting r) with
        sessions := s.sessions.insert sid ⟨c.spec, r, s.now⟩ }) ∨
    (seatReserved = false ∧ (∃ e, s.sessions.lookup sid = some e) ∧
      register s i c sid r seatReserved = { s.goto i c .done with
        sessions := s.sessions.update sid fun e => { e with lastSeen := s.now } }) := by
  have hknown := h.known c (List.mem_of_getElem? hc)
  rw [hphase] at hknown
  cases hlookup : s.sessions.lookup sid with
  | none =>
    cases seatReserved with
    | true => exact .inl ⟨rfl, hknown, rfl, by simp [Calls.register, touchOrRegister, hlookup]⟩
    | false =>
      exact .inr (.inl ⟨rfl, hknown, rfl, by simp [Calls.register, touchOrRegister, hlookup]; rfl⟩)
  | some e =>
    cases seatReserved with
    | true =>
      obtain ⟨cookie, hcookie, hsid, -⟩ := h.entries sid e hlookup
      exact absurd hsid (hknown cookie hcookie)
    | false =>
      exact .inr (.inr ⟨rfl, ⟨e, rfl⟩, by simp [Calls.register, touchOrRegister, hlookup]; rfl⟩)

/-- A new visit opens its session. -/
theorem openSession (h : Coherent node s) (hc : s.calls[i]? = some c)
    (hphase : c.phase = .holding sid r true) {e : SessionEntry ι} (he : e.replicaId = r)
    (hnew : ∀ cookie ∈ s.cookies, cookie.session ≠ sid) :
    Coherent node { s.goto i c .done with
      sessions := s.sessions.insert sid e
      cookies := ⟨sid, c.spec, r⟩ :: s.cookies } where
  distinct := h.distinct
  oneReplica := by
    intro a ha b hb hsid
    rcases List.mem_cons.mp ha with rfl | ha <;> rcases List.mem_cons.mp hb with rfl | hb
    · rfl
    · exact absurd hsid.symm (hnew b hb)
    · exact absurd hsid (hnew a ha)
    · exact h.oneReplica a ha b hb hsid
  entries sid' e' he' := by
    rw [Table.lookup_insert_eq] at he'
    split at he'
    · next hsid =>
      cases he'
      exact ⟨_, List.mem_cons_self, hsid.symm, he.symm⟩
    · exact (h.entries sid' e' he').cons _
  known := by
    intro d hd
    obtain ⟨j, hj⟩ := List.mem_iff_getElem?.mp hd
    rcases getElem?_set_cases hj with ⟨-, rfl⟩ | ⟨hne, hold⟩
    · trivial
    · refine (h.known d (List.mem_of_getElem? hold)).cons fun hsid => hne ?_
      exact h.oneVisit j i d c sid hold hc hsid (by rw [hphase]; rfl)
  oneVisit := by
    intro j k d e sid' hd he hdsid hesid
    have hold : ∀ {j : Nat} {d : Call ι κ},
        (s.calls.set i { c with phase := Phase.done })[j]? = some d →
          d.phase.minted = some sid' → s.calls[j]? = some d := by
      intro j d hd hdsid
      rcases getElem?_set_cases hd with ⟨-, rfl⟩ | ⟨-, hd⟩
      · cases hdsid
      · exact hd
    exact h.oneVisit j k d e sid' (hold hd hdsid) (hold he hesid) hdsid hesid
  routed := forall_mem_set h.routed fun hq => by cases hq

/-- Only the registration of a new visit opens a session. -/
theorem register (h : Coherent node s) {seatReserved : Bool} (hc : s.calls[i]? = some c)
    (hphase : c.phase = .holding sid r seatReserved) :
    Coherent node (register s i c sid r seatReserved) := by
  rcases h.register_cases hc hphase with ⟨hseat, hnew, -, heq⟩ | ⟨-, hissued, -, heq⟩ |
    ⟨-, -, heq⟩
  · rw [heq]
    subst hseat
    exact h.openSession hc hphase rfl hnew
  · rw [heq]
    refine h.move hc rfl rfl h.distinct ?_ trivial (fun _ hsid => by cases hsid) (fun hq => by cases hq)
    intro sid' e he
    rw [Table.lookup_insert_eq] at he
    split at he
    · next hsid =>
      cases he
      exact hsid ▸ hissued
    · exact h.entries sid' e he
  · rw [heq]
    refine h.move hc rfl rfl h.distinct ?_ trivial (fun _ hsid => by cases hsid) (fun hq => by cases hq)
    intro sid' e he
    rw [Table.lookup_update] at he
    split at he
    · obtain ⟨e', he', rfl⟩ := Option.map_eq_some_iff.mp he
      exact h.entries sid' e' he'
    · exact h.entries sid' e he

variable [DecidableEq ι]

/-- Handing out a replica opens no session yet. -/
theorem handOut (h : Coherent node s) (hc : s.calls[i]? = some c)
    (hvisit : c.phase.isVisit = true) (hstep : handOut node s i c sid r = some s') :
    Coherent node s' := by
  obtain ⟨hnew, ⟨-, rfl⟩ | ⟨hapi, rfl⟩⟩ := handOut_cases hstep
  · exact h.goto hc trivial rfl fun _ => hvisit
  · have hkind := h.routed c (List.mem_of_getElem? hc) hvisit
    obtain ⟨hcookies, hcalls⟩ := (Bool.and_eq_true _ _).mp hnew
    have hdistinct : (s.replicas.incSessions r).Distinct := h.distinct.update fun _ => rfl
    rcases track_cases node c.spec sid r true with ⟨-, hq⟩ | ⟨-, hq⟩
    · rw [hq]
      refine h.move hc rfl rfl hdistinct h.entries ?_ ?_ fun _ => hvisit
      · intro cookie hcookie
        exact of_decide_eq_true (List.all_eq_true.mp hcookies cookie hcookie)
      · intro sid' hsid' d hd
        cases hsid'
        exact of_decide_eq_true (List.all_eq_true.mp hcalls d hd)
    · rw [hq]
      have hdone : Coherent node (s.goto i c .done) := h.goto hc trivial rfl fun _ => hvisit
      exact hdone.setReplicas hdistinct

/-- A new row, of a replica that has none yet. -/
theorem addReplica (h : Coherent node s) (hc : s.calls[i]? = some c) {visit : Bool}
    {x : Replica ι} (hphase : c.phase = .adding visit x) (hnew : ∀ y ∈ s.replicas, y.id ≠ x.id)
    (hstep : addReplica node s i c visit x sid = some s') : Coherent node s' := by
  have hadded := h.setReplicas (h.distinct.add hnew)
  unfold Calls.addReplica at hstep
  split at hstep
  · next hvisit =>
    refine Coherent.handOut hadded hc ?_ hstep
    rw [hphase, hvisit]
    rfl
  · cases hstep
    exact hadded.goto hc trivial rfl fun hq => by cases hq

end Moves

end Coherent

/-! ## What one section can do -/

section Effects

variable [Floats] [DecidableEq ι] [DecidableEq κ]

/-- A call goes on and writes nothing, or makes the write that its phase is for. -/
inductive Effect (node : Node κ) (s : State ι κ) (i : Nat) (c : Call ι κ) : State ι κ → Prop
  | quiet (q : Phase ι κ) (hp : ∀ r, c.phase.concerns r = false) (hq : ∀ r, q.concerns r = false)
      (hminted : q.minted = none) (hvisit : q.isVisit = true → c.phase.isVisit = true)
      (hrequest : c.phase.ofRequest = true → q.ofRequest = true)
      (hknown : Coherent node s → Known s.cookies q) : Effect node s i c (s.goto i c q)
  | handOut {s' : State ι κ} (sid : κ) (r : ι) (hp : ∀ r, c.phase.concerns r = false)
      (hvisit : c.phase.isVisit = true) (hstep : handOut node s i c sid r = some s') :
      Effect node s i c s'
  | addReplica {s' : State ι κ} (visit : Bool) (x : Replica ι) (sid : κ)
      (hphase : c.phase = .adding visit x) (hstep : addReplica node s i c visit x sid = some s') :
      Effect node s i c s'
  | register (sid : κ) (r : ι) (seatReserved : Bool) (hphase : c.phase = .holding sid r seatReserved) :
      Effect node s i c (register s i c sid r seatReserved)
  | countIn (r : ι) (hphase : c.phase = .counting r) :
      Effect node s i c { s.goto i c .done with replicas := s.replicas.incSessions r }
  | countOut (r : ι) (hphase : c.phase = .releasing r) :
      Effect node s i c { s.goto i c .done with replicas := s.replicas.decSessions r }
  | upsert (x : Replica ι) (hphase : c.phase = .upserting x) :
      Effect node s i c { s.goto i c .done with replicas := s.replicas.upsert x }
  | mark (r : ι) (observedAt : Nat) (hphase : c.phase = .marking r observedAt) :
      Effect node s i c { s.goto i c (.collecting r 0 []) with
        replicas := s.replicas.update r fun x => x.restarting observedAt }
  | remove (r : ι) (hphase : c.phase = .removing r) :
      Effect node s i c { s.goto i c (.collecting r 0 []) with replicas := s.replicas.remove r }
  | collect (r : ι) (k : Nat) (found : List κ) (hphase : c.phase = .collecting r k found)
      (hk : k < node.shards) :
      Effect node s i c (s.goto i c (.collecting r (k + 1)
        (found ++ (inShard node s.sessions k fun e => e.replicaId = r).map Prod.fst)))
  | collected (r : ι) (k : Nat) (found : List κ) (hphase : c.phase = .collecting r k found)
      (hk : ¬ k < node.shards) : Effect node s i c (s.goto i c (.purging r found))
  | purge (r : ι) (sid : κ) (rest : List κ) (hphase : c.phase = .purging r (sid :: rest)) :
      Effect node s i c { s.goto i c (.purging r rest) with sessions := s.sessions.erase sid }
  | purged (r : ι) (hphase : c.phase = .purging r []) : Effect node s i c (s.goto i c .done)
  | evict (sid : κ) (r : ι) (rest : List (κ × ι)) (hphase : c.phase = .evicting ((sid, r) :: rest))
      (hsome : (s.sessions.lookup sid).isSome = true) :
      Effect node s i c { s.goto i c (.evicting rest) with
        sessions := s.sessions.erase sid, replicas := s.replicas.decSessions r }
  | endSession (sid : κ) (e : SessionEntry ι) (hphase : c.phase = .ending sid)
      (hlookup : s.sessions.lookup sid = some e) :
      Effect node s i c { s.goto i c (.releasing e.replicaId) with
        sessions := s.sessions.erase sid }

variable {node : Node κ} {s s' : State ι κ} {i : Nat} {c : Call ι κ} {o : Outside ι κ}

/-- Most phases only lead to another one that knows of no session. -/
theorem Effect.pass {q : Phase ι κ} (hp : ∀ r, c.phase.concerns r = false)
    (hq : ∀ r, q.concerns r = false) (hminted : q.minted = none)
    (hvisit : q.isVisit = true → c.phase.isVisit = true)
    (hrequest : c.phase.ofRequest = true → q.ofRequest = true)
    (hknown : Known s.cookies q) : Effect node s i c (s.goto i c q) :=
  .quiet q hp hq hminted hvisit hrequest fun _ => hknown

/-- Any call that writes nothing may end. -/
theorem Effect.finish (hp : ∀ r, c.phase.concerns r = false) :
    Effect node s i c (s.goto i c .done) :=
  .pass hp (fun _ => rfl) rfl (fun hq => by cases hq) (fun _ => rfl) trivial

theorem advance_effect (hc : s.calls[i]? = some c) (hstep : advance node s i c o = some s') :
    Effect node s i c s' := by
  have hmem := List.mem_of_getElem? hc
  have hconcerns : ∀ {p : Phase ι κ}, c.phase = p → (∀ r, p.concerns r = false) →
      ∀ r, c.phase.concerns r = false := fun hphase hp r => hphase ▸ hp r
  unfold advance at hstep
  cases hphase : c.phase with
  | sticky cookie visit =>
    rw [hphase] at hstep
    cases hstep
    have hp := hconcerns hphase fun _ => rfl
    have hvisit : c.phase.isVisit = true := by rw [hphase]; rfl
    rcases afterSticky_cases node s c.spec cookie visit with ⟨x, hx, hq⟩ | hq | hq | hq
    · rw [hq]
      refine .quiet _ hp (fun _ => rfl) rfl (fun _ => hvisit) (fun _ => rfl) fun h => ?_
      have hcookie := h.known c hmem
      rw [hphase] at hcookie
      exact ⟨cookie, hcookie, rfl, (stickyReplica_spec hx).2.1.symm⟩
    · rw [hq]
      exact .finish hp
    · rw [hq]
      exact .pass hp (fun _ => rfl) rfl (fun _ => hvisit) (fun _ => rfl) trivial
    · rw [hq]
      exact .pass hp (fun _ => rfl) rfl (fun _ => hvisit) (fun _ => rfl) trivial
  | ride =>
    rw [hphase] at hstep
    cases hstep
    have hp := hconcerns hphase fun _ => rfl
    split
    · exact .finish hp
    · exact .pass hp (fun _ => rfl) rfl (fun _ => by rw [hphase]; rfl) (fun _ => rfl) trivial
  | fast =>
    rw [hphase] at hstep
    have hp := hconcerns hphase fun _ => rfl
    have hvisit : c.phase.isVisit = true := by rw [hphase]; rfl
    dsimp only at hstep
    split at hstep
    · exact .handOut _ _ hp hvisit hstep
    · cases hstep
      exact .pass hp (fun _ => rfl) rfl (fun _ => hvisit) (fun _ => rfl) trivial
  | queued g =>
    rw [hphase] at hstep
    have hp := hconcerns hphase fun _ => rfl
    dsimp only at hstep
    split at hstep
    · cases hstep
      cases g with
      | visit =>
        exact .pass hp (fun _ => rfl) rfl (fun _ => by rw [hphase]; rfl) (fun _ => rfl) trivial
      | ensureAvailable =>
        exact .pass hp (fun _ => rfl) rfl (fun hq => by cases hq) (fun _ => rfl) trivial
      | addCapacity =>
        exact .pass hp (fun _ => rfl) rfl (fun hq => by cases hq) (fun _ => rfl) trivial
      | readopt x =>
        refine .pass hp (fun _ => rfl) rfl (fun hq => by cases hq) (fun hrequest => ?_) trivial
        rw [hphase] at hrequest
        cases hrequest
    · cases hstep
  | recheck =>
    rw [hphase] at hstep
    have hp := hconcerns hphase fun _ => rfl
    have hvisit : c.phase.isVisit = true := by rw [hphase]; rfl
    dsimp only at hstep
    split at hstep
    · exact .handOut _ _ hp hvisit hstep
    · cases hstep
      exact .pass hp (fun _ => rfl) rfl (fun _ => hvisit) (fun _ => rfl) trivial
  | ensuring =>
    rw [hphase] at hstep
    cases hstep
    have hp := hconcerns hphase fun _ => rfl
    split
    · exact .finish hp
    · exact .pass hp (fun _ => rfl) rfl (fun hq => by cases hq) (fun _ => rfl) trivial
  | capping =>
    rw [hphase] at hstep
    cases hstep
    have hp := hconcerns hphase fun _ => rfl
    split
    · exact .finish hp
    · exact .pass hp (fun _ => rfl) rfl (fun hq => by cases hq) (fun _ => rfl) trivial
  | spawning visit =>
    rw [hphase] at hstep
    cases hstep
    have hp := hconcerns hphase fun _ => rfl
    cases o.spawned with
    | none => exact .finish hp
    | some x =>
      refine .pass hp (fun _ => rfl) rfl (fun hq => ?_) (fun _ => rfl) trivial
      rw [hphase]
      cases visit with
      | true => rfl
      | false => cases hq
  | adding visit x =>
    rw [hphase] at hstep
    exact .addReplica visit x o.session hphase hstep
  | looking x =>
    rw [hphase] at hstep
    cases hstep
    have hp := hconcerns hphase fun _ => rfl
    have hrequest : c.phase.ofRequest = false := by rw [hphase]; rfl
    unfold afterLook
    dsimp only
    split
    · exact .finish hp
    · split
      · exact .finish hp
      · refine .pass hp (fun _ => rfl) rfl (fun hq => by cases hq) (fun hreq => ?_) trivial
        rw [hrequest] at hreq
        cases hreq
  | readying x same =>
    rw [hphase] at hstep
    cases hstep
    have hp := hconcerns hphase fun _ => rfl
    have hrequest : c.phase.ofRequest = false := by rw [hphase]; rfl
    split
    · refine .pass (q := .upserting _) hp (fun _ => rfl) rfl (fun hq => by cases hq) (fun hreq => ?_)
        rfl
      rw [hrequest] at hreq
      cases hreq
    · split
      · exact .pass hp (fun _ => rfl) rfl (fun hq => by cases hq) (fun _ => rfl) trivial
      · exact .finish hp
  | upserting x =>
    rw [hphase] at hstep
    cases hstep
    exact .upsert x hphase
  | holding sid r seatReserved =>
    rw [hphase] at hstep
    cases hstep
    exact .register sid r seatReserved hphase
  | counting r =>
    rw [hphase] at hstep
    cases hstep
    exact .countIn r hphase
  | marking r observedAt =>
    rw [hphase] at hstep
    dsimp only [Registry.markRestarting] at hstep
    split at hstep
    · next hmarked =>
      cases hstep
      split at hmarked
      · cases hmarked
        exact .mark r observedAt hphase
      · cases hmarked
    · cases hstep
      exact .finish (hconcerns hphase fun _ => rfl)
  | removing r =>
    rw [hphase] at hstep
    cases hstep
    exact .remove r hphase
  | collecting r k found =>
    rw [hphase] at hstep
    cases hstep
    split
    · next hk => exact .collect r k found hphase hk
    · next hk => exact .collected r k found hphase hk
  | purging r found =>
    rw [hphase] at hstep
    cases found with
    | nil =>
      cases hstep
      exact .purged r hphase
    | cons sid rest =>
      cases hstep
      exact .purge r sid rest hphase
  | sweeping globalMs overrides k found =>
    rw [hphase] at hstep
    cases hstep
    have hp := hconcerns hphase fun _ => rfl
    have hrequest : ¬ c.phase.ofRequest = true := by rw [hphase]; nofun
    split
    · refine .quiet _ hp (fun _ => rfl) rfl (fun hq => by cases hq)
        (fun hreq => absurd hreq hrequest) fun h v hv => ?_
      have hfound := h.known c hmem
      rw [hphase] at hfound
      rcases List.mem_append.mp hv with hold | hshard
      · exact hfound v hold
      · exact h.issued_of_mem_inShard hshard
    · refine .quiet _ hp (fun _ => rfl) rfl (fun hq => by cases hq)
        (fun hreq => absurd hreq hrequest) fun h => ?_
      have hfound := h.known c hmem
      rw [hphase] at hfound
      exact hfound
  | evicting victims =>
    rw [hphase] at hstep
    have hp := hconcerns hphase fun _ => rfl
    cases victims with
    | nil =>
      cases hstep
      exact .finish hp
    | cons v rest =>
      dsimp only at hstep
      split at hstep
      · next hsome =>
        cases hstep
        exact .evict v.1 v.2 rest hphase hsome
      · cases hstep
        have hrequest : ¬ c.phase.ofRequest = true := by rw [hphase]; nofun
        refine .quiet _ hp (fun _ => rfl) rfl (fun hq => by cases hq)
          (fun hreq => absurd hreq hrequest) fun h v' hv' => ?_
        have hfound := h.known c hmem
        rw [hphase] at hfound
        exact hfound v' (List.mem_cons_of_mem _ hv')
  | ending sid =>
    rw [hphase] at hstep
    dsimp only at hstep
    split at hstep
    · next e hlookup =>
      cases hstep
      exact .endSession sid e hphase hlookup
    · cases hstep
      exact .finish (hconcerns hphase fun _ => rfl)
  | releasing r =>
    rw [hphase] at hstep
    cases hstep
    exact .countOut r hphase
  | done =>
    rw [hphase] at hstep
    cases hstep

end Effects

namespace Coherent

section Steps

variable [Floats] [DecidableEq ι] [DecidableEq κ] {node : Node κ} {s s' : State ι κ} {i : Nat}
  {c : Call ι κ}

/-- One section of a call, in which no replica gets a second row. -/
theorem effect (h : Coherent node s) (hc : s.calls[i]? = some c)
    (hnew : ∀ visit x, c.phase = .adding visit x → ∀ y ∈ s.replicas, y.id ≠ x.id)
    (heffect : Effect node s i c s') : Coherent node s' := by
  have hknown := h.known c (List.mem_of_getElem? hc)
  have hdone : Coherent node (s.goto i c .done) :=
    h.goto hc trivial rfl fun hq => by cases hq
  have hdrop : ∀ r, Coherent node (s.goto i c (.collecting r 0 [])) := fun r =>
    h.goto hc (fun sid hsid => by cases hsid) rfl fun hq => by cases hq
  cases heffect with
  | quiet q hp hq hminted hvisit hrequest hknown => exact h.goto hc (hknown h) hminted hvisit
  | handOut sid r hp hvisit hstep => exact h.handOut hc hvisit hstep
  | addReplica visit x sid hphase hstep => exact h.addReplica hc hphase (hnew visit x hphase) hstep
  | register sid r seatReserved hphase => exact h.register hc hphase
  | countIn r hphase => exact hdone.setReplicas (h.distinct.update fun _ => rfl)
  | countOut r hphase => exact hdone.setReplicas (h.distinct.update fun _ => rfl)
  | upsert x hphase => exact hdone.setReplicas h.distinct.upsert
  | mark r observedAt hphase => exact (hdrop r).setReplicas (h.distinct.update fun _ => rfl)
  | remove r hphase => exact (hdrop r).setReplicas h.distinct.remove
  | collect r k found hphase hk =>
    rw [hphase] at hknown
    refine h.goto hc (fun sid hsid => ?_) rfl fun hq => by cases hq
    rcases List.mem_append.mp hsid with hold | hshard
    · exact hknown sid hold
    · obtain ⟨v, hv, rfl⟩ := List.mem_map.mp hshard
      have hr : v.2 = r := by
        obtain ⟨e, he, rfl⟩ := List.mem_map.mp hv
        simpa using (Bool.and_eq_true_iff.mp (List.mem_filter.mp he).2).2
      exact hr ▸ h.issued_of_mem_inShard hv
  | collected r k found hphase hk =>
    rw [hphase] at hknown
    exact h.goto hc hknown rfl fun hq => by cases hq
  | purge r sid rest hphase =>
    rw [hphase] at hknown
    have hrest : Coherent node (s.goto i c (.purging r rest)) :=
      h.goto hc (fun sid' hsid' => hknown sid' (List.mem_cons_of_mem _ hsid')) rfl
        fun hq => by cases hq
    exact hrest.erase sid
  | purged r hphase => exact hdone
  | evict sid r rest hphase hsome =>
    rw [hphase] at hknown
    have hrest : Coherent node (s.goto i c (.evicting rest)) :=
      h.goto hc (fun v' hv' => hknown v' (List.mem_cons_of_mem _ hv')) rfl fun hq => by cases hq
    exact (hrest.erase sid).setReplicas (h.distinct.update fun _ => rfl)
  | endSession sid e hphase hlookup =>
    have hreleasing : Coherent node (s.goto i c (.releasing e.replicaId)) :=
      h.goto hc trivial rfl fun hq => by cases hq
    exact hreleasing.erase sid

theorem known_of_canStart {spec : Str} {p : Phase ι κ} (hstart : s.canStart node spec p = true) :
    Known s.cookies p ∧ p.minted = none ∧
      (p.isVisit = true → (node.settings spec).kind ≠ .external) := by
  cases p with
  | sticky cookie visit =>
    obtain ⟨hcookie, hkind⟩ := Bool.and_eq_true_iff.mp hstart
    have hmem : cookie ∈ s.cookies := of_decide_eq_true hcookie
    exact ⟨hmem, rfl, fun _ => of_decide_eq_true hkind⟩
  | ride => exact ⟨trivial, rfl, fun _ => of_decide_eq_true hstart⟩
  | fast => exact ⟨trivial, rfl, fun _ => of_decide_eq_true hstart⟩
  | queued g =>
    cases g with
    | visit => cases hstart
    | ensureAvailable => exact ⟨trivial, rfl, fun hq => by cases hq⟩
    | addCapacity => exact ⟨trivial, rfl, fun hq => by cases hq⟩
    | readopt x => exact ⟨trivial, rfl, fun hq => by cases hq⟩
  | sweeping globalMs overrides k found =>
    cases k with
    | zero =>
      cases found with
      | nil => exact ⟨fun v hv => absurd hv List.not_mem_nil, rfl, fun hq => by cases hq⟩
      | cons v rest => cases hstart
    | succ k => cases hstart
  | marking r observedAt => exact ⟨trivial, rfl, fun hq => by cases hq⟩
  | removing r => exact ⟨trivial, rfl, fun hq => by cases hq⟩
  | ending sid => exact ⟨trivial, rfl, fun hq => by cases hq⟩
  | _ => cases hstart

theorem start (h : Coherent node s) {spec : Str} {p : Phase ι κ}
    (hstart : s.canStart node spec p = true) :
    Coherent node { s with calls := s.calls ++ [⟨spec, p⟩] } := by
  obtain ⟨hknown, hminted, hvisit⟩ := known_of_canStart hstart
  refine ⟨h.distinct, h.oneReplica, h.entries, forall_mem_concat h.known hknown, ?_,
    forall_mem_concat h.routed hvisit⟩
  intro j k d e sid hd he hdsid hesid
  have hold : ∀ {j : Nat} {d : Call ι κ}, (s.calls ++ [⟨spec, p⟩])[j]? = some d →
      d.phase.minted = some sid → s.calls[j]? = some d := by
    intro j d hd hdsid
    refine (getElem?_concat_cases hd).resolve_left ?_
    rintro rfl
    rw [hminted] at hdsid
    cases hdsid
  exact h.oneVisit j k d e sid (hold hd hdsid) (hold he hesid) hdsid hesid

end Steps

end Coherent

/-! ## Calls that begin, and sessions that end -/

section Lists

variable [DecidableEq ι] {s : State ι κ} {r : ι}

/-- A call that begins owes nothing. -/
theorem tallies_start {d : Call ι κ} (hd : d.phase.concerns r = false) :
    State.reserved { s with calls := s.calls ++ [d] } r = s.reserved r ∧
      State.uncounted { s with calls := s.calls ++ [d] } r = s.uncounted r ∧
      State.unreleased { s with calls := s.calls ++ [d] } r = s.unreleased r := by
  obtain ⟨hd₁, hd₂, hd₃, -⟩ := Phase.owes_of_not_concerns hd
  refine ⟨?_, ?_, ?_⟩
  · simp [State.reserved, State.tally, hd₁]
  · simp [State.uncounted, State.tally, hd₂]
  · simp [State.unreleased, State.tally, hd₃]

theorem concerns_of_canStart [Floats] [DecidableEq κ] {node : Node κ} {spec : Str} {p : Phase ι κ}
    (h : s.canStart node spec p = true) : p.concerns r = false := by
  cases p with
  | holding sid r' seatReserved => cases h
  | counting r' => cases h
  | releasing r' => cases h
  | collecting r' k found => cases h
  | purging r' found => cases h
  | _ => rfl

/-- Only the sessions of the call's own replica change when one of them ends. -/
theorem sessionsOf_erase [Floats] [DecidableEq κ] {node : Node κ} (h : Coherent node s) {sid : κ}
    (hissued : Issued s.cookies sid r) {x : ι} (hx : x ≠ r) :
    bound (s.sessions.erase sid) x = bound s.sessions x := by
  cases hlookup : s.sessions.lookup sid with
  | none => exact bound_erase_of_none hlookup
  | some e =>
    have hreplica : e.replicaId = r := h.issued_unique (h.entries sid e hlookup) hissued
    have hother : e.replicaId ≠ x := fun heq => hx (heq.symm.trans hreplica)
    have hbound := bound_erase (r := x) hlookup
    rwa [if_neg hother] at hbound

/-- A replica the backend has just started: nobody knows of it. -/
def IsNew (s : State ι κ) (x : Replica ι) : Prop :=
  x.sessionsActive = 0 ∧ ¬ s.Registered x.id ∧ s.Clear x.id

end Lists

end Ruscker.Proxy.Calls
