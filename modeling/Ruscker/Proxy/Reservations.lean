import Ruscker.Proxy.Seats

/-!
# Reserved seats

`pick_or_spawn` counts a seat for a visit before its session exists.  Requests, the spawns they
start and the removals they make may fail or be dropped wherever they wait, and no seat stays
counted without a session or a request for it.
-/

namespace Ruscker.Proxy.Calls

open Tables Machines Machines.Machine

variable {ι κ : Type*}

/-! ## Covered seats -/

section Covered

variable [DecidableEq ι] {s s' : State ι κ} {i : Nat} {c : Call ι κ} {q : Phase ι κ}
  {x : Replica ι}

/-- Every seat of the row is that of a session or of a request on its way to one. -/
def Covered (s : State ι κ) (x : Replica ι) : Prop :=
  x.sessionsActive + s.uncounted x.id ≤ s.sessionsOf x.id + s.reserved x.id

theorem Covered.frame (h : Covered s x) (hc : s.calls[i]? = some c)
    (hcalls : s'.calls = s.calls.set i { c with phase := q })
    (hp : c.phase.concerns x.id = false) (hq : q.concerns x.id = false)
    (hsessions : s'.sessionsOf x.id = s.sessionsOf x.id) : Covered s' x := by
  obtain ⟨hreserved, huncounted, -⟩ := State.tallies_frame hc hcalls hp hq
  rw [Covered, hreserved, huncounted, hsessions]
  exact h

/-- Requests only, and a backend whose replicas are new. -/
def OfRequests (s : State ι κ) : Event ι κ → Prop
  | .start _ p => p.ofRequest = true
  | .advance i _ => ∀ c visit x, s.calls[i]? = some c → c.phase = .adding visit x → IsNew s x
  | _ => True

theorem IsNew.covered (h : IsNew s x) : Covered s x := by
  obtain ⟨hactive, -, hsessions, ⟨-, huncounted, -⟩, -⟩ := h
  rw [Covered, hactive, huncounted]
  exact Nat.zero_le _

end Covered

/-! ## The invariant -/

section Accounted

variable [Floats] [DecidableEq ι] [DecidableEq κ]

structure Accounted (node : Node κ) (s : State ι κ) : Prop where
  coherent : Coherent node s
  requests : ∀ c ∈ s.calls, c.phase.ofRequest = true
  seats : ∀ x ∈ s.replicas, Covered s x
  gone : ∀ c ∈ s.calls, ∀ x ∈ s.replicas, c.phase.drops x.id = false

variable {node : Node κ} {s s' : State ι κ} {i : Nat} {c : Call ι κ} {q : Phase ι κ}
  {x : Replica ι} {r : ι} {sid : κ}

namespace Accounted

variable (h : Accounted node s)
include h

/-- A call that writes nothing and concerns no replica before or after. -/
theorem quiet (hc : s.calls[i]? = some c) (hcoherent : Coherent node (s.goto i c q))
    (hp : ∀ r, c.phase.concerns r = false) (hq : ∀ r, q.concerns r = false)
    (hrequest : q.ofRequest = true) : Accounted node (s.goto i c q) where
  coherent := hcoherent
  requests := forall_mem_set h.requests hrequest
  seats x hx := (h.seats x hx).frame hc rfl (hp x.id) (hq x.id) rfl
  gone := forall_mem_set h.gone fun x _ => (Phase.owes_of_not_concerns (hq x.id)).2.2.2

/-- A row that nobody knows of. -/
theorem addRow (hcoherent : Coherent node { s with replicas := s.replicas.add x })
    (hnew : IsNew s x) : Accounted node { s with replicas := s.replicas.add x } where
  coherent := hcoherent
  requests := h.requests
  seats y hy := by
    rcases Registry.mem_add.mp hy with hold | rfl
    · exact h.seats y hold
    · exact hnew.covered
  gone d hd y hy := by
    rcases Registry.mem_add.mp hy with hold | rfl
    · exact h.gone d hd y hold
    · exact hnew.2.2.2.2 d hd

/-- A call moves on with the replicas of before: only the seats are left to see to. -/
theorem settle (hcoherent : Coherent node s')
    (hcalls : s'.calls = s.calls.set i { c with phase := q }) (hrequest : q.ofRequest = true)
    (hdrops : ∀ r, q.drops r = false) (hids : ∀ y ∈ s'.replicas, ∃ x ∈ s.replicas, x.id = y.id)
    (hseats : ∀ y ∈ s'.replicas, Covered s' y) : Accounted node s' where
  coherent := hcoherent
  requests := by
    rw [hcalls]
    exact forall_mem_set h.requests hrequest
  seats := hseats
  gone := by
    rw [hcalls]
    refine forall_mem_set ?_ fun y _ => hdrops y.id
    intro d hd y hy
    obtain ⟨x, hx, hid⟩ := hids y hy
    exact hid ▸ h.gone d hd x hx

/-- A seat is counted together with the request it is for. -/
theorem reserve (hc : s.calls[i]? = some c) (hcoherent : Coherent node s')
    (hcalls : s'.calls = s.calls.set i { c with phase := .holding sid r true })
    (hreplicas : s'.replicas = s.replicas.incSessions r) (hsessions : s'.sessions = s.sessions)
    (hp : ∀ r, c.phase.concerns r = false) : Accounted node s' := by
  have hids : ∀ y ∈ s'.replicas, ∃ x ∈ s.replicas, x.id = y.id := fun y hy =>
    (Registry.mem_ids_update Replica.inc_id).mp ⟨y, hreplicas ▸ hy, rfl⟩
  refine h.settle hcoherent hcalls rfl (fun _ => rfl) hids ?_
  rw [hreplicas]
  refine h.coherent.distinct.forall_mem_update ?_ ?_
  · intro y hy hne
    refine (h.seats y hy).frame hc hcalls (hp y.id) ?_ (congrArg (bound · y.id) hsessions)
    exact decide_eq_false (Ne.symm hne)
  · intro y hy hid
    obtain ⟨hreserved, huncounted, -⟩ := State.tallies_to hc hcalls (hp y.id)
    have hseats := h.seats y hy
    have hinc := y.inc_sessionsActive_le
    simp only [Covered, State.sessionsOf, Replica.inc_id, hid, hsessions] at hseats ⊢
    simp [Phase.reserves, Phase.countsIn, hid] at hreserved huncounted
    omega

theorem handOut (hc : s.calls[i]? = some c) (hcoherent : Coherent node s')
    (hvisit : c.phase.isVisit = true) (hp : ∀ r, c.phase.concerns r = false)
    (hstep : Calls.handOut node s i c sid r = some s') : Accounted node s' := by
  obtain ⟨-, ⟨-, rfl⟩ | ⟨hapi, rfl⟩⟩ := handOut_cases hstep
  · exact h.quiet hc hcoherent hp (fun _ => rfl) rfl
  · have hexternal := h.coherent.routed c (List.mem_of_getElem? hc) hvisit
    rw [track_of_visit hapi hexternal] at hcoherent ⊢
    exact h.reserve hc hcoherent rfl rfl rfl hp

theorem addReplica (hc : s.calls[i]? = some c) {visit : Bool} (hphase : c.phase = .adding visit x)
    (hnew : IsNew s x) (hcoherent : Coherent node s')
    (hstep : Calls.addReplica node s i c visit x sid = some s') : Accounted node s' := by
  have hadded := h.addRow (h.coherent.setReplicas (h.coherent.distinct.add fun y hy hid =>
    hnew.2.1 ⟨y, hy, hid⟩)) hnew
  have hp : ∀ r, c.phase.concerns r = false := fun r => by rw [hphase]; rfl
  unfold Calls.addReplica at hstep
  split at hstep
  · next hvisit =>
    refine hadded.handOut hc hcoherent ?_ hp hstep
    rw [hphase, hvisit]
    rfl
  · cases hstep
    exact hadded.quiet hc hcoherent hp (fun _ => rfl) rfl

/-- A seat goes over to its session. -/
theorem openSession (hc : s.calls[i]? = some c) (hcoherent : Coherent node s')
    (hphase : c.phase = .holding sid r true)
    (hcalls : s'.calls = s.calls.set i { c with phase := .done })
    (hreplicas : s'.replicas = s.replicas) {e : SessionEntry ι} (he : e.replicaId = r)
    (hsessions : s'.sessions = s.sessions.insert sid e) (hnone : s.sessions.lookup sid = none) :
    Accounted node s' := by
  have hids : ∀ y ∈ s'.replicas, ∃ x ∈ s.replicas, x.id = y.id := fun y hy =>
    ⟨y, hreplicas ▸ hy, rfl⟩
  refine h.settle hcoherent hcalls rfl (fun _ => rfl) hids ?_
  rw [hreplicas]
  intro y hy
  have hseats := h.seats y hy
  obtain ⟨hreserved, huncounted, -⟩ := State.tallies_from hc hcalls (q := .done) (r := y.id) rfl
  have hbound := bound_insert (e := e) (r := y.id) hnone
  simp only [Covered, State.sessionsOf, hsessions] at hseats ⊢
  simp [hphase, Phase.reserves, Phase.countsIn, he] at hreserved huncounted hbound
  omega

/-- A session is put down before its seat is counted. -/
theorem reopenSession (hc : s.calls[i]? = some c) (hcoherent : Coherent node s')
    (hp : ∀ r, c.phase.concerns r = false)
    (hcalls : s'.calls = s.calls.set i { c with phase := .counting r })
    (hreplicas : s'.replicas = s.replicas) {e : SessionEntry ι} (he : e.replicaId = r)
    (hsessions : s'.sessions = s.sessions.insert sid e) (hnone : s.sessions.lookup sid = none) :
    Accounted node s' := by
  have hids : ∀ y ∈ s'.replicas, ∃ x ∈ s.replicas, x.id = y.id := fun y hy =>
    ⟨y, hreplicas ▸ hy, rfl⟩
  refine h.settle hcoherent hcalls rfl (fun _ => rfl) hids ?_
  rw [hreplicas]
  intro y hy
  have hseats := h.seats y hy
  obtain ⟨hreserved, huncounted, -⟩ := State.tallies_to hc hcalls (hp y.id)
  have hbound := bound_insert (e := e) (r := y.id) hnone
  simp only [Covered, State.sessionsOf, hsessions] at hseats ⊢
  simp [Phase.reserves, Phase.countsIn, he] at hreserved huncounted hbound
  omega

theorem register (hc : s.calls[i]? = some c) {seatReserved : Bool}
    (hphase : c.phase = .holding sid r seatReserved)
    (hcoherent : Coherent node (Calls.register s i c sid r seatReserved)) :
    Accounted node (Calls.register s i c sid r seatReserved) := by
  rcases h.coherent.register_cases hc hphase with ⟨hseat, -, hnone, heq⟩ |
    ⟨hseat, -, hnone, heq⟩ | ⟨hseat, -, heq⟩
  · rw [heq] at hcoherent ⊢
    subst hseat
    exact h.openSession hc hcoherent hphase rfl rfl rfl rfl hnone
  · rw [heq] at hcoherent ⊢
    subst hseat
    exact h.reopenSession hc hcoherent (fun _ => by rw [hphase]; rfl) rfl rfl rfl rfl hnone
  · rw [heq] at hcoherent ⊢
    subst hseat
    refine ⟨hcoherent, forall_mem_set h.requests rfl, fun y hy => ?_,
      forall_mem_set h.gone fun _ _ => rfl⟩
    exact (h.seats y hy).frame (q := .done) hc rfl (by rw [hphase]; rfl) rfl bound_touch

/-- The seat of a session that is put down already. -/
theorem countIn (hc : s.calls[i]? = some c) (hcoherent : Coherent node s')
    (hphase : c.phase = .counting r)
    (hcalls : s'.calls = s.calls.set i { c with phase := .done })
    (hreplicas : s'.replicas = s.replicas.incSessions r) (hsessions : s'.sessions = s.sessions) :
    Accounted node s' := by
  have hids : ∀ y ∈ s'.replicas, ∃ x ∈ s.replicas, x.id = y.id := fun y hy =>
    (Registry.mem_ids_update Replica.inc_id).mp ⟨y, hreplicas ▸ hy, rfl⟩
  refine h.settle hcoherent hcalls rfl (fun _ => rfl) hids ?_
  rw [hreplicas]
  refine h.coherent.distinct.forall_mem_update ?_ ?_
  · intro y hy hne
    refine (h.seats y hy).frame hc hcalls ?_ rfl (congrArg (bound · y.id) hsessions)
    rw [hphase]
    exact decide_eq_false (Ne.symm hne)
  · intro y hy hid
    obtain ⟨hreserved, huncounted, -⟩ :=
      State.tallies_from hc hcalls (q := .done) (r := y.id) rfl
    have hseats := h.seats y hy
    have hinc := y.inc_sessionsActive_le
    simp only [Covered, State.sessionsOf, Replica.inc_id, hid, hsessions] at hseats ⊢
    simp [hphase, Phase.reserves, Phase.countsIn, hid] at hreserved huncounted
    omega

/-- A replica leaves the registry, and its sessions are dropped. -/
theorem removeReplica (hc : s.calls[i]? = some c) (hcoherent : Coherent node s')
    (hp : ∀ r, c.phase.concerns r = false)
    (hcalls : s'.calls = s.calls.set i { c with phase := .collecting r 0 [] })
    (hreplicas : s'.replicas = s.replicas.remove r) (hsessions : s'.sessions = s.sessions) :
    Accounted node s' where
  coherent := hcoherent
  requests := by
    rw [hcalls]
    exact forall_mem_set h.requests rfl
  seats := by
    rw [hreplicas]
    intro y hy
    have hne := h.coherent.distinct.id_ne_of_mem_remove hy
    refine (h.seats y (Registry.mem_of_mem_remove hy)).frame hc hcalls (hp y.id) ?_
      (congrArg (bound · y.id) hsessions)
    exact decide_eq_false (Ne.symm hne)
  gone := by
    rw [hcalls, hreplicas]
    refine forall_mem_set (fun d hd y hy => h.gone d hd y (Registry.mem_of_mem_remove hy)) ?_
    intro y hy
    exact decide_eq_false (Ne.symm (h.coherent.distinct.id_ne_of_mem_remove hy))

/-- A drop goes on with a replica that is not in the registry. -/
theorem dropOn (hc : s.calls[i]? = some c) (hcoherent : Coherent node s')
    (hp : ∀ x : ι, x ≠ r → c.phase.concerns x = false) (hdrops : c.phase.drops r = true)
    (hq : ∀ x : ι, x ≠ r → q.concerns x = false) (hrequest : q.ofRequest = true)
    (hcalls : s'.calls = s.calls.set i { c with phase := q })
    (hreplicas : s'.replicas = s.replicas)
    (hsessions : ∀ x, x ≠ r → s'.sessionsOf x = s.sessionsOf x) : Accounted node s' := by
  have hmem := List.mem_of_getElem? hc
  have hne : ∀ y ∈ s.replicas, y.id ≠ r := by
    intro y hy hid
    have hgone := h.gone c hmem y hy
    rw [hid, hdrops] at hgone
    cases hgone
  refine ⟨hcoherent, ?_, ?_, ?_⟩
  · rw [hcalls]
    exact forall_mem_set h.requests hrequest
  · rw [hreplicas]
    intro y hy
    exact (h.seats y hy).frame hc hcalls (hp y.id (hne y hy)) (hq y.id (hne y hy))
      (hsessions y.id (hne y hy))
  · rw [hcalls, hreplicas]
    exact forall_mem_set h.gone fun y hy =>
      (Phase.owes_of_not_concerns (hq y.id (hne y hy))).2.2.2

/-- One section of a request, a spawn or a removal. -/
theorem effect (hc : s.calls[i]? = some c)
    (hnew : ∀ visit x, c.phase = .adding visit x → IsNew s x) (heffect : Effect node s i c s') :
    Accounted node s' := by
  have hcoherent := h.coherent.effect hc (fun visit x hphase y hy hid =>
    (hnew visit x hphase).2.1 ⟨y, hy, hid⟩) heffect
  have hknown := h.coherent.known c (List.mem_of_getElem? hc)
  have hreq := h.requests c (List.mem_of_getElem? hc)
  cases heffect with
  | quiet q hp hq hminted hvisit hrequest => exact h.quiet hc hcoherent hp hq (hrequest hreq)
  | handOut sid r hp hvisit hstep => exact h.handOut hc hcoherent hvisit hp hstep
  | addReplica visit x sid hphase hstep =>
    exact h.addReplica hc hphase (hnew visit x hphase) hcoherent hstep
  | register sid r seatReserved hphase => exact h.register hc hphase hcoherent
  | countIn r hphase => exact h.countIn hc hcoherent hphase rfl rfl rfl
  | remove r hphase =>
    exact h.removeReplica hc hcoherent (fun _ => by rw [hphase]; rfl) rfl rfl rfl
  | collect r k found hphase hk =>
    refine h.dropOn (r := r) hc hcoherent (fun x hx => ?_)
      (by rw [hphase]; exact decide_eq_true rfl) (fun x hx => ?_) rfl rfl rfl fun _ _ => rfl
    · rw [hphase]
      exact decide_eq_false (Ne.symm hx)
    · exact decide_eq_false (Ne.symm hx)
  | collected r k found hphase hk =>
    refine h.dropOn (r := r) hc hcoherent (fun x hx => ?_)
      (by rw [hphase]; exact decide_eq_true rfl) (fun x hx => ?_) rfl rfl rfl fun _ _ => rfl
    · rw [hphase]
      exact decide_eq_false (Ne.symm hx)
    · exact decide_eq_false (Ne.symm hx)
  | purge r sid rest hphase =>
    rw [hphase] at hknown
    refine h.dropOn (q := .purging r rest) hc hcoherent (fun x hx => ?_)
      (by rw [hphase]; exact decide_eq_true rfl) (fun x hx => ?_) rfl rfl rfl fun x hx => ?_
    · rw [hphase]
      exact decide_eq_false (Ne.symm hx)
    · exact decide_eq_false (Ne.symm hx)
    · exact sessionsOf_erase h.coherent (hknown sid List.mem_cons_self) hx
  | purged r hphase =>
    refine h.dropOn (r := r) (q := .done) hc hcoherent (fun x hx => ?_)
      (by rw [hphase]; exact decide_eq_true rfl) (fun _ _ => rfl) rfl rfl rfl fun _ _ => rfl
    rw [hphase]
    exact decide_eq_false (Ne.symm hx)
  | countOut r hphase =>
    rw [hphase] at hreq
    cases hreq
  | upsert x hphase =>
    rw [hphase] at hreq
    cases hreq
  | mark r observedAt hphase =>
    rw [hphase] at hreq
    cases hreq
  | evict sid r rest hphase =>
    rw [hphase] at hreq
    cases hreq
  | endSession sid e hphase =>
    rw [hphase] at hreq
    cases hreq

/-- A call begins. -/
theorem start {spec : Str} {p : Phase ι κ} (hstart : s.canStart node spec p = true)
    (hrequest : p.ofRequest = true) :
    Accounted node { s with calls := s.calls ++ [⟨spec, p⟩] } where
  coherent := h.coherent.start hstart
  requests := forall_mem_concat h.requests hrequest
  seats x hx := by
    obtain ⟨hreserved, huncounted, -⟩ := tallies_start (s := s) (d := ⟨spec, p⟩) (r := x.id)
      (concerns_of_canStart hstart)
    rw [Covered, hreserved, huncounted]
    exact h.seats x hx
  gone := forall_mem_concat h.gone fun _ _ =>
    (Phase.owes_of_not_concerns (concerns_of_canStart hstart)).2.2.2

/-- A call is dropped where it waits: no seat is on its way there. -/
theorem drop (hc : s.calls[i]? = some c) (hsuspended : c.phase.suspended = true) :
    Accounted node (s.goto i c .done) where
  coherent := h.coherent.goto hc trivial rfl fun hq => by cases hq
  requests := forall_mem_set h.requests rfl
  seats x hx := by
    have hseats := h.seats x hx
    obtain ⟨hreserved, huncounted, -⟩ := State.tallies_from (r := x.id) hc
      (rfl : (s.goto i c .done).calls = _) rfl
    have hfree : c.phase.reserves x.id = false := by
      cases hphase : c.phase with
      | holding sid r seatReserved =>
        rw [hphase] at hsuspended
        cases hsuspended
      | _ => rfl
    rw [hfree] at hreserved
    have hsame : (s.goto i c .done).reserved x.id = s.reserved x.id := hreserved
    change _ + _ ≤ s.sessionsOf x.id + _
    rw [hsame]
    unfold Covered at hseats
    omega
  gone := forall_mem_set h.gone fun _ _ => rfl

theorem step {e : Event ι κ} (hok : OfRequests s e)
    (hstep : (machine node).step s e = some s') : Accounted node s' := by
  cases e with
  | start spec p =>
    change (if _ then _ else _) = _ at hstep
    split at hstep
    · next hstart =>
      cases hstep
      exact h.start hstart hok
    · cases hstep
  | advance i o =>
    obtain ⟨c, hc, hstep⟩ := Option.bind_eq_some_iff.mp hstep
    exact h.effect hc (fun visit x => hok c visit x hc) (advance_effect hc hstep)
  | drop i =>
    obtain ⟨c, hc, hstep⟩ := Option.bind_eq_some_iff.mp hstep
    split at hstep
    · next hsuspended =>
      cases hstep
      exact h.drop hc hsuspended
    · cases hstep
  | tick ms =>
    cases hstep
    exact ⟨h.coherent.tick ms, h.requests, h.seats, h.gone⟩

end Accounted

/-- **Reserved seats.** In every run of requests every counted seat is that of a session or of
a request on its way to one, so that none is left over once all have ended. -/
theorem seats_of_requests {es : List (Event ι κ)} (hcalls : s.calls = [])
    (hcoherent : Coherent node s)
    (hseats : ∀ x ∈ s.replicas, x.sessionsActive ≤ s.sessionsOf x.id)
    (h : (machine node).Run OfRequests s es s') :
    (∀ x ∈ s'.replicas, x.sessionsActive ≤ s'.sessionsOf x.id + s'.reserved x.id) ∧
      ((∀ c ∈ s'.calls, c.phase = .done) →
        ∀ x ∈ s'.replicas, x.sessionsActive ≤ s'.sessionsOf x.id) := by
  have hstart : Accounted node s := by
    refine ⟨hcoherent, ?_, fun x hx => ?_, ?_⟩
    · simp [hcalls]
    · have htally : ∀ f : Phase ι κ → Bool, s.tally f = 0 := fun f => by
        rw [State.tally, hcalls]
        rfl
      rw [Covered, State.uncounted, State.reserved, htally, htally]
      exact hseats x hx
    · simp [hcalls]
  have hend : Accounted node s' :=
    h.invariant hstart fun _ _ _ hinv hok hstep => hinv.step hok hstep
  have hcovered : ∀ x ∈ s'.replicas,
      x.sessionsActive ≤ s'.sessionsOf x.id + s'.reserved x.id :=
    fun x hx => Nat.le_trans (Nat.le_add_right _ _) (hend.seats x hx)
  refine ⟨hcovered, fun hdone x hx => ?_⟩
  have hnone : s'.reserved x.id = 0 := State.tally_eq_zero fun c hc => by
    rw [hdone c hc]
    rfl
  have hseat := hcovered x hx
  omega

end Accounted

/-! ## Two visits for one seat -/

section Example

attribute [local instance] wholeFloats

/-- The first visit gets the seat; the second waits for the spec mutex and is dropped there. -/
def twoVisits : List (Event Nat Nat) :=
  [.start labId .fast, .advance 0 (labOutside 7 none), .start labId .fast,
    .advance 1 (labOutside 8 none), .advance 0 (labOutside 7 none), .drop 1]

theorem twoVisits_runs : ∃ s, (machine labNode).Run OfRequests (boot [labReplica 0]) twoVisits s ∧
    (∀ c ∈ s.calls, c.phase = .done) ∧ s.replicas.map Replica.sessionsActive = [1] := by
  refine ⟨_, .cons rfl rfl (.cons ?_ rfl (.cons rfl rfl (.cons ?_ rfl (.cons ?_ rfl
    (.cons trivial rfl (.nil _)))))), ?_, rfl⟩
  · rintro c visit x hc hphase
    cases hc
    cases hphase
  · rintro c visit x hc hphase
    cases hc
    cases hphase
  · rintro c visit x hc hphase
    cases hc
    cases hphase
  · intro c hc
    rcases List.mem_cons.mp hc with rfl | hc
    · rfl
    · rw [List.mem_singleton.mp hc]

theorem seats_of_requests_twoVisits : ∃ s : State Nat Nat,
    s.replicas.map Replica.sessionsActive = [1] ∧
      ∀ x ∈ s.replicas, x.sessionsActive ≤ s.sessionsOf x.id := by
  obtain ⟨s, hrun, hdone, hactive⟩ := twoVisits_runs
  have hrows : Registry.Distinct [labReplica 0] := List.nodup_singleton _
  refine ⟨s, hactive, (seats_of_requests rfl (.boot hrows) ?_ hrun).2 hdone⟩
  intro x hx
  rw [List.mem_singleton.mp hx]
  exact Nat.zero_le _

end Example

end Ruscker.Proxy.Calls
