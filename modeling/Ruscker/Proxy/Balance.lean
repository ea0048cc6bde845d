import Ruscker.Proxy.Drops

/-!
# Counts and sessions

The count of a replica and its sessions in the store are kept in step by increments,
decrements and resets.  They come apart when a reset meets a seat that another call is
half-way with, when a drop takes a session the count was not reset for, and when a seat is
given back before it was counted.
-/

namespace Ruscker.Proxy.Calls

open Tables Machines Machines.Machine

variable {ι κ : Type*}

/-! ## Sessions that stay -/

section Doomed

variable [Floats] (node : Node κ)

/-- A drop that is under way will take the session. -/
def Doomed (s : State ι κ) (r : ι) (sid : κ) : Prop := ∃ c ∈ s.calls, Ahead node r sid c.phase

variable {node} {s s' : State ι κ} {i : Nat} {c : Call ι κ} {q : Phase ι κ} {r : ι} {sid : κ}

/-- A move changes what is doomed only as far as its own call does. -/
theorem doomed_iff_of_move (hc : s.calls[i]? = some c)
    (hcalls : s'.calls = s.calls.set i { c with phase := q })
    (h : Ahead node r sid c.phase ↔ Ahead node r sid q) :
    Doomed node s' r sid ↔ Doomed node s r sid := by
  rw [Doomed, hcalls]
  constructor
  · rintro ⟨d, hd, hahead⟩
    rcases List.mem_or_eq_of_mem_set hd with hold | rfl
    · exact ⟨d, hold, hahead⟩
    · exact ⟨c, List.mem_of_getElem? hc, h.mpr hahead⟩
  · rintro ⟨d, hd, hahead⟩
    by_cases hdc : d = c
    · subst hdc
      have hlt : i < s.calls.length := (List.getElem?_eq_some_iff.mp hc).1
      exact ⟨_, List.mem_set hlt _, h.mp hahead⟩
    · exact ⟨d, mem_set_of_ne hc hd hdc, hahead⟩

variable [DecidableEq ι]

theorem not_ahead_of_not_drops {p : Phase ι κ} (h : p.drops r = false) : ¬ Ahead node r sid p := by
  intro hahead
  rw [hahead.drops] at h
  cases h

/-- A call that drops nothing of the replica before or after. -/
theorem doomed_frame (hc : s.calls[i]? = some c)
    (hcalls : s'.calls = s.calls.set i { c with phase := q }) (hp : c.phase.drops r = false)
    (hq : q.drops r = false) (sid : κ) : Doomed node s' r sid ↔ Doomed node s r sid :=
  doomed_iff_of_move hc hcalls
    (iff_of_false (not_ahead_of_not_drops hp) (not_ahead_of_not_drops hq))

end Doomed

section Kept

variable [Floats] [DecidableEq ι] [DecidableEq κ] (node : Node κ)

instance decidableAhead (r : ι) (sid : κ) : DecidablePred (Ahead node r sid : Phase ι κ → Prop)
  | .collecting r' k found =>
    inferInstanceAs (Decidable (r' = r ∧ (k ≤ (node.shardOf sid : Nat) ∨ sid ∈ found)))
  | .purging r' found => inferInstanceAs (Decidable (r' = r ∧ sid ∈ found))
  | .sticky _ _ | .ride | .fast | .queued _ | .recheck | .ensuring | .capping | .spawning _
  | .adding _ _ | .looking _ | .readying _ _ | .upserting _ | .holding _ _ _ | .counting _
  | .marking _ _ | .removing _ | .sweeping _ _ _ _ | .evicting _ | .ending _ | .releasing _
  | .done => .isFalse id

instance decidableDoomed (s : State ι κ) (r : ι) (sid : κ) : Decidable (Doomed node s r sid) :=
  inferInstanceAs (Decidable (∃ c ∈ s.calls, Ahead node r sid c.phase))

/-- The sessions of the replica that no drop under way will take. -/
def kept (s : State ι κ) (r : ι) : Nat :=
  s.sessions.tally fun sid e => decide (e.replicaId = r ∧ ¬ Doomed node s r sid)

variable {node} {s s' : State ι κ} {i : Nat} {c : Call ι κ} {q : Phase ι κ} {r : ι} {sid : κ}
  {e : SessionEntry ι}

/-- With no drop under way every session stays. -/
theorem kept_of_undropped (h : s.Undropped r) : kept node s r = s.sessionsOf r := by
  refine Table.tally_congr fun sid e _ => decide_eq_decide.mpr (and_iff_left ?_)
  rintro ⟨c, hc, hahead⟩
  exact not_ahead_of_not_drops (h c hc) hahead

/-- The same sessions, and the same of them doomed. -/
theorem kept_congr (hsessions : s'.sessions = s.sessions)
    (h : ∀ sid e, s.sessions.lookup sid = some e → e.replicaId = r →
      (Doomed node s' r sid ↔ Doomed node s r sid)) : kept node s' r = kept node s r := by
  rw [kept, hsessions]
  refine Table.tally_congr fun sid e he => decide_eq_decide.mpr (and_congr_right fun hr => ?_)
  exact not_congr (h sid e he hr)

theorem kept_eq_zero (h : ∀ sid e, s.sessions.lookup sid = some e → e.replicaId = r →
    Doomed node s r sid) : kept node s r = 0 := by
  refine Table.tally_eq_zero.mpr fun sid e he => decide_eq_false ?_
  rintro ⟨hr, hstays⟩
  exact hstays (h sid e he hr)

section Frame

variable (hdoomed : ∀ sid, Doomed node s' r sid ↔ Doomed node s r sid)
include hdoomed

theorem kept_eq_tally :
    kept node s' r =
      s'.sessions.tally fun sid e => decide (e.replicaId = r ∧ ¬ Doomed node s r sid) :=
  Table.tally_congr fun sid _ _ =>
    decide_eq_decide.mpr (and_congr_right fun _ => not_congr (hdoomed sid))

theorem kept_insert (hsessions : s'.sessions = s.sessions.insert sid e)
    (hnone : s.sessions.lookup sid = none) :
    kept node s' r =
      kept node s r + if e.replicaId = r ∧ ¬ Doomed node s r sid then 1 else 0 := by
  rw [kept_eq_tally hdoomed, hsessions, Table.tally_insert hnone]
  simp only [decide_eq_true_eq]
  rfl

theorem kept_erase (hsessions : s'.sessions = s.sessions.erase sid)
    (hlookup : s.sessions.lookup sid = some e) :
    kept node s' r + (if e.replicaId = r ∧ ¬ Doomed node s r sid then 1 else 0) =
      kept node s r := by
  have herase := Table.tally_erase
    (P := fun sid e => decide (e.replicaId = r ∧ ¬ Doomed node s r sid)) hlookup
  rw [kept_eq_tally hdoomed, hsessions]
  simp only [decide_eq_true_eq] at herase
  exact herase

theorem kept_touch {now : Nat}
    (hsessions : s'.sessions = s.sessions.update sid fun e => { e with lastSeen := now }) :
    kept node s' r = kept node s r := by
  rw [kept_eq_tally hdoomed, hsessions]
  exact Table.tally_update fun _ _ => rfl

end Frame

end Kept

/-! ## The invariant -/

section Even

variable [Floats] [DecidableEq ι] [DecidableEq κ]

/-- Seats counted and sessions that stay agree, save for what calls are half-way with. -/
def Even (node : Node κ) (s : State ι κ) (x : Replica ι) : Prop :=
  x.sessionsActive + s.uncounted x.id = kept node s x.id + s.reserved x.id + s.unreleased x.id

structure Balanced (node : Node κ) (s : State ι κ) : Prop where
  coherent : Coherent node s
  even : ∀ x ∈ s.replicas, Even node s x

/-- The replica's count is not zero. -/
def Counted (s : State ι κ) (r : ι) : Prop := ∀ x ∈ s.replicas, x.id = r → 0 < x.sessionsActive

/-- A count is reset only when a fresh count is right, no session is registered or ended that a
drop under way will take, no seat is given back before it was counted, and no call is dropped
between a session and its seat.  No count is at its limit, and the backend's replicas are new. -/
def Apart (node : Node κ) (s : State ι κ) : Event ι κ → Prop
  | .advance i _ => (∀ x ∈ s.replicas, x.sessionsActive < u32Max) ∧
    ∀ c, s.calls[i]? = some c → match c.phase with
      | .adding _ x => IsNew s x
      | .upserting x =>
        s.uncounted x.id = kept node s x.id + s.reserved x.id + s.unreleased x.id
      | .marking r _ => s.Registered r → s.uncounted r = s.reserved r + s.unreleased r
      | .holding sid r _ => s.Registered r → s.sessions.lookup sid = none → ¬ Doomed node s r sid
      | .ending sid => ∀ e, s.sessions.lookup sid = some e →
        s.Registered e.replicaId → ¬ Doomed node s e.replicaId sid
      | .evicting ((sid, r) :: _) => (s.sessions.lookup sid).isSome = true →
        s.Registered r → ¬ Doomed node s r sid ∧ Counted s r
      | .releasing r => Counted s r
      | _ => True
  | .drop i => ∀ c, s.calls[i]? = some c → ∀ x ∈ s.replicas,
      c.phase.countsIn x.id = false ∧ c.phase.countsOut x.id = false
  | _ => True

variable {node : Node κ} {s s' : State ι κ} {i : Nat} {c : Call ι κ} {q : Phase ι κ}
  {x : Replica ι} {r : ι} {sid : κ}

theorem Even.frame (h : Even node s x) (hc : s.calls[i]? = some c)
    (hcalls : s'.calls = s.calls.set i { c with phase := q })
    (hp : c.phase.concerns x.id = false) (hq : q.concerns x.id = false)
    (hkept : kept node s' x.id = kept node s x.id) : Even node s' x := by
  obtain ⟨hreserved, huncounted, hunreleased⟩ := State.tallies_frame hc hcalls hp hq
  rw [Even, hreserved, huncounted, hunreleased, hkept]
  exact h

/-- The count, the sessions and what the call owes move together. -/
theorem Even.move {y : Replica ι} (h : Even node s x) (hy : y.id = x.id)
    (hc : s.calls[i]? = some c) (hcalls : s'.calls = s.calls.set i { c with phase := q })
    (hledger : y.sessionsActive + kept node s x.id + ((if q.countsIn x.id then 1 else 0) +
        (if c.phase.reserves x.id then 1 else 0) + if c.phase.countsOut x.id then 1 else 0) =
      x.sessionsActive + kept node s' x.id + ((if c.phase.countsIn x.id then 1 else 0) +
        (if q.reserves x.id then 1 else 0) + if q.countsOut x.id then 1 else 0)) :
    Even node s' y := by
  have hreserved := State.tally_move (Phase.reserves x.id) hc hcalls
  have huncounted := State.tally_move (Phase.countsIn x.id) hc hcalls
  have hunreleased := State.tally_move (Phase.countsOut x.id) hc hcalls
  unfold Even State.uncounted State.reserved State.unreleased at h ⊢
  rw [hy]
  omega

/-- A replica nobody has to do with. -/
theorem IsNew.even (h : IsNew s x) : Even node s x := by
  obtain ⟨hactive, -, hsessions, ⟨hreserved, huncounted, hunreleased⟩, hundropped⟩ := h
  rw [Even, kept_of_undropped hundropped, hactive, hsessions, hreserved, huncounted, hunreleased]

namespace Balanced

variable (h : Balanced node s)
include h

/-- A move that concerns one replica, and may write to its row. -/
theorem move {f : Replica ι → Replica ι} (hc : s.calls[i]? = some c) (hcoherent : Coherent node s')
    (hcalls : s'.calls = s.calls.set i { c with phase := q })
    (hreplicas : s'.replicas = s.replicas.update r f)
    (hp : ∀ x, x ≠ r → c.phase.concerns x = false) (hq : ∀ x, x ≠ r → q.concerns x = false)
    (hkept : ∀ x, x ≠ r → kept node s' x = kept node s x)
    (hself : ∀ x ∈ s.replicas, x.id = r → Even node s x → Even node s' (f x)) :
    Balanced node s' where
  coherent := hcoherent
  even := by
    rw [hreplicas]
    refine h.coherent.distinct.forall_mem_update ?_ ?_
    · intro x hx hne
      exact (h.even x hx).frame hc hcalls (hp x.id hne) (hq x.id hne) (hkept x.id hne)
    · intro x hx hid
      exact hself x hx hid (h.even x hx)

/-- A move that owes the same before and after, and takes or leaves what was to be taken. -/
theorem steady (hc : s.calls[i]? = some c) (hcoherent : Coherent node s')
    (hcalls : s'.calls = s.calls.set i { c with phase := q }) (hreplicas : s'.replicas = s.replicas)
    (hreserves : ∀ x, c.phase.reserves x = q.reserves x)
    (hcountsIn : ∀ x, c.phase.countsIn x = q.countsIn x)
    (hcountsOut : ∀ x, c.phase.countsOut x = q.countsOut x)
    (hkept : ∀ x, kept node s' x = kept node s x) : Balanced node s' where
  coherent := hcoherent
  even := by
    rw [hreplicas]
    intro x hx
    obtain ⟨hreserved, huncounted, hunreleased⟩ :=
      State.tallies_same hc hcalls (hreserves x.id) (hcountsIn x.id) (hcountsOut x.id)
    rw [Even, hreserved, huncounted, hunreleased, hkept]
    exact h.even x hx

/-- A call that writes nothing and concerns no replica before or after. -/
theorem quiet (hc : s.calls[i]? = some c) (hcoherent : Coherent node (s.goto i c q))
    (hp : ∀ r, c.phase.concerns r = false) (hq : ∀ r, q.concerns r = false) :
    Balanced node (s.goto i c q) where
  coherent := hcoherent
  even x hx := by
    refine (h.even x hx).frame hc rfl (hp x.id) (hq x.id) (kept_congr rfl fun sid _ _ _ => ?_)
    exact doomed_frame hc rfl (Phase.owes_of_not_concerns (hp x.id)).2.2.2
      (Phase.owes_of_not_concerns (hq x.id)).2.2.2 sid

/-- A seat is counted together with the request it is for. -/
theorem handOut (hc : s.calls[i]? = some c) (hcoherent : Coherent node s')
    (hvisit : c.phase.isVisit = true) (hp : ∀ r, c.phase.concerns r = false)
    (hlimit : ∀ x ∈ s.replicas, x.sessionsActive < u32Max)
    (hstep : Calls.handOut node s i c sid r = some s') : Balanced node s' := by
  obtain ⟨-, ⟨-, rfl⟩ | ⟨hapi, rfl⟩⟩ := handOut_cases hstep
  · exact h.quiet hc hcoherent hp fun _ => rfl
  · have hexternal := h.coherent.routed c (List.mem_of_getElem? hc) hvisit
    rw [track_of_visit hapi hexternal] at hcoherent ⊢
    have hkept : ∀ x, kept node { s.goto i c (.holding sid r true) with
        replicas := s.replicas.incSessions r } x = kept node s x := fun x =>
      kept_congr rfl fun sid _ _ _ =>
        doomed_frame hc rfl (Phase.owes_of_not_concerns (hp x)).2.2.2 rfl sid
    refine h.move hc hcoherent rfl rfl (fun x _ => hp x)
      (fun x hx => decide_eq_false (Ne.symm hx)) (fun x _ => hkept x) ?_
    intro x hx hid heven
    obtain ⟨hp₁, hp₂, hp₃, -⟩ := Phase.owes_of_not_concerns (hp x.id)
    refine heven.move rfl hc rfl ?_
    rw [x.inc_sessionsActive (hlimit x hx), hp₁, hp₂, hp₃, hkept]
    simp [Phase.reserves, Phase.countsIn, Phase.countsOut, hid]
    omega

/-- A row that nobody knows of. -/
theorem addRow (hcoherent : Coherent node { s with replicas := s.replicas.add x })
    (hnew : IsNew s x) : Balanced node { s with replicas := s.replicas.add x } where
  coherent := hcoherent
  even y hy := by
    rcases Registry.mem_add.mp hy with hold | rfl
    · exact h.even y hold
    · exact hnew.even

theorem addReplica (hc : s.calls[i]? = some c) {visit : Bool} (hphase : c.phase = .adding visit x)
    (hnew : IsNew s x) (hlimit : ∀ x ∈ s.replicas, x.sessionsActive < u32Max)
    (hcoherent : Coherent node s')
    (hstep : Calls.addReplica node s i c visit x sid = some s') : Balanced node s' := by
  have hadded := h.addRow (h.coherent.setReplicas (h.coherent.distinct.add fun y hy hid =>
    hnew.2.1 ⟨y, hy, hid⟩)) hnew
  have hp : ∀ r, c.phase.concerns r = false := fun r => by rw [hphase]; rfl
  unfold Calls.addReplica at hstep
  split at hstep
  · next hvisit =>
    refine hadded.handOut hc hcoherent ?_ hp ?_ hstep
    · rw [hphase, hvisit]
      rfl
    · intro y hy
      rcases Registry.mem_add.mp hy with hold | rfl
      · exact hlimit y hold
      · rw [hnew.1]
        decide
  · cases hstep
    exact hadded.quiet hc hcoherent hp fun _ => rfl

/-- A session that stays is put down: its seat was counted before, or is counted next. -/
theorem putDown (hc : s.calls[i]? = some c) (hcoherent : Coherent node s') {seatReserved : Bool}
    (hphase : c.phase = .holding sid r seatReserved)
    (hcalls : s'.calls =
      s.calls.set i { c with phase := if seatReserved then .done else .counting r })
    (hreplicas : s'.replicas = s.replicas) {e : SessionEntry ι} (he : e.replicaId = r)
    (hsessions : s'.sessions = s.sessions.insert sid e) (hnone : s.sessions.lookup sid = none)
    (hstays : s.Registered r → ¬ Doomed node s r sid) : Balanced node s' := by
  have hdoomed : ∀ r' sid', Doomed node s' r' sid' ↔ Doomed node s r' sid' := fun r' sid' => by
    refine doomed_frame hc hcalls ?_ ?_ sid'
    · rw [hphase]
      rfl
    · cases seatReserved <;> rfl
  have hkept : ∀ x, kept node s' x =
      kept node s x + if e.replicaId = x ∧ ¬ Doomed node s x sid then 1 else 0 := fun x =>
    kept_insert (hdoomed x) hsessions hnone
  refine h.move (f := fun x => x) hc hcoherent hcalls
    (hreplicas.trans (Registry.update_self _ r).symm) (fun x hx => ?_) (fun x hx => ?_)
    (fun x hx => ?_) ?_
  · rw [hphase]
    cases seatReserved
    · rfl
    · exact decide_eq_false (Ne.symm hx)
  · cases seatReserved
    · exact decide_eq_false (Ne.symm hx)
    · rfl
  · rw [hkept, if_neg fun hself => hx (hself.1.symm.trans he)]
    rfl
  · intro x hx hid heven
    have hnew : e.replicaId = x.id ∧ ¬ Doomed node s x.id sid :=
      ⟨he.trans hid.symm, hid ▸ hstays ⟨x, hx, hid⟩⟩
    refine heven.move rfl hc hcalls ?_
    rw [hkept, if_pos hnew, hphase]
    cases seatReserved <;>
      simp [Phase.reserves, Phase.countsIn, Phase.countsOut, hid] <;> omega

theorem register (hc : s.calls[i]? = some c) {seatReserved : Bool}
    (hphase : c.phase = .holding sid r seatReserved)
    (hstays : s.Registered r → s.sessions.lookup sid = none → ¬ Doomed node s r sid)
    (hcoherent : Coherent node (Calls.register s i c sid r seatReserved)) :
    Balanced node (Calls.register s i c sid r seatReserved) := by
  rcases h.coherent.register_cases hc hphase with ⟨hseat, -, hnone, heq⟩ |
    ⟨hseat, -, hnone, heq⟩ | ⟨hseat, -, heq⟩
  · rw [heq] at hcoherent ⊢
    subst hseat
    exact h.putDown hc hcoherent hphase rfl rfl rfl rfl hnone fun hr => hstays hr hnone
  · rw [heq] at hcoherent ⊢
    subst hseat
    exact h.putDown hc hcoherent hphase rfl rfl rfl rfl hnone fun hr => hstays hr hnone
  · rw [heq] at hcoherent ⊢
    subst hseat
    refine ⟨hcoherent, fun x hx => ?_⟩
    refine (h.even x hx).frame (q := .done) hc rfl (by rw [hphase]; rfl) rfl (kept_touch ?_ rfl)
    exact doomed_frame hc rfl (by rw [hphase]; rfl) rfl

/-- A write to the count of one row, by a call that drops nothing. -/
theorem recount {f : Replica ι → Replica ι} (hc : s.calls[i]? = some c)
    (hcoherent : Coherent node s') (hcalls : s'.calls = s.calls.set i { c with phase := .done })
    (hreplicas : s'.replicas = s.replicas.update r f) (hf : ∀ x : Replica ι, (f x).id = x.id)
    (hsessions : s'.sessions = s.sessions) (hp : ∀ x, x ≠ r → c.phase.concerns x = false)
    (hdrops : ∀ x, c.phase.drops x = false)
    (hledger : ∀ x ∈ s.replicas, x.id = r → (f x).sessionsActive +
        ((if c.phase.reserves x.id then 1 else 0) + if c.phase.countsOut x.id then 1 else 0) =
      x.sessionsActive + if c.phase.countsIn x.id then 1 else 0) : Balanced node s' := by
  have hkept : ∀ x, kept node s' x = kept node s x := fun x =>
    kept_congr hsessions fun sid _ _ _ => doomed_frame hc hcalls (hdrops x) rfl sid
  refine h.move hc hcoherent hcalls hreplicas hp (fun _ _ => rfl) (fun x _ => hkept x) ?_
  intro x hx hid heven
  refine heven.move (hf x) hc hcalls ?_
  have hrow := hledger x hx hid
  obtain ⟨hq₁, hq₂, hq₃, -⟩ := Phase.owes_of_not_concerns (r := x.id) (p := (.done : Phase ι κ)) rfl
  rw [hkept, hq₁, hq₂, hq₃]
  simp only [Bool.false_eq_true, if_false]
  omega

/-- The seat of a session that is put down already. -/
theorem countIn (hc : s.calls[i]? = some c) (hcoherent : Coherent node s')
    (hphase : c.phase = .counting r)
    (hcalls : s'.calls = s.calls.set i { c with phase := .done })
    (hreplicas : s'.replicas = s.replicas.incSessions r) (hsessions : s'.sessions = s.sessions)
    (hlimit : ∀ x ∈ s.replicas, x.sessionsActive < u32Max) : Balanced node s' := by
  refine h.recount hc hcoherent hcalls hreplicas (fun _ => rfl) hsessions (fun x hx => ?_)
    (fun x => by rw [hphase]; rfl) fun x hx hid => ?_
  · rw [hphase]
    exact decide_eq_false (Ne.symm hx)
  · rw [x.inc_sessionsActive (hlimit x hx), hphase]
    simp [Phase.reserves, Phase.countsIn, Phase.countsOut, hid]

/-- The seat of a session that has ended. -/
theorem countOut (hc : s.calls[i]? = some c) (hcoherent : Coherent node s')
    (hphase : c.phase = .releasing r)
    (hcalls : s'.calls = s.calls.set i { c with phase := .done })
    (hreplicas : s'.replicas = s.replicas.decSessions r) (hsessions : s'.sessions = s.sessions)
    (hcounted : Counted s r) : Balanced node s' := by
  refine h.recount hc hcoherent hcalls hreplicas (fun _ => rfl) hsessions (fun x hx => ?_)
    (fun x => by rw [hphase]; rfl) fun x hx hid => ?_
  · rw [hphase]
    exact decide_eq_false (Ne.symm hx)
  · have hpos := hcounted x hx hid
    rw [Replica.dec_sessionsActive, hphase]
    simp [Phase.reserves, Phase.countsIn, Phase.countsOut, hid]
    omega

/-- A session that stays ends, and its seat is given back at once or by this call. -/
theorem takeAway {f : Replica ι → Replica ι} {e : SessionEntry ι} (hc : s.calls[i]? = some c)
    (hcoherent : Coherent node s') (hcalls : s'.calls = s.calls.set i { c with phase := q })
    (hreplicas : s'.replicas = s.replicas.update r f) (hf : ∀ x : Replica ι, (f x).id = x.id)
    (hlookup : s.sessions.lookup sid = some e) (he : e.replicaId = r)
    (hsessions : s'.sessions = s.sessions.erase sid) (hp : ∀ x, c.phase.concerns x = false)
    (hq : ∀ x, x ≠ r → q.concerns x = false) (hdrops : ∀ x, q.drops x = false)
    (hstays : s.Registered r → ¬ Doomed node s r sid)
    (hledger : ∀ x ∈ s.replicas, x.id = r → (f x).sessionsActive + 1 +
        (if q.countsIn x.id then 1 else 0) =
      x.sessionsActive + ((if q.reserves x.id then 1 else 0) + if q.countsOut x.id then 1 else 0)) :
    Balanced node s' := by
  have hkept : ∀ x, kept node s' x +
      (if e.replicaId = x ∧ ¬ Doomed node s x sid then 1 else 0) = kept node s x := fun x =>
    kept_erase (doomed_frame hc hcalls (Phase.owes_of_not_concerns (hp x)).2.2.2 (hdrops x))
      hsessions hlookup
  refine h.move hc hcoherent hcalls hreplicas (fun x _ => hp x) hq (fun x hx => ?_) ?_
  · rw [← hkept x, if_neg fun hself => hx (hself.1.symm.trans he)]
    rfl
  · intro x hx hid heven
    have hgone : e.replicaId = x.id ∧ ¬ Doomed node s x.id sid :=
      ⟨he.trans hid.symm, hid ▸ hstays ⟨x, hx, hid⟩⟩
    obtain ⟨hp₁, hp₂, hp₃, -⟩ := Phase.owes_of_not_concerns (hp x.id)
    have hrow := hledger x hx hid
    refine heven.move (hf x) hc hcalls ?_
    rw [← hkept x.id, if_pos hgone, hp₁, hp₂, hp₃]
    simp only [Bool.false_eq_true, if_false]
    omega

/-- A count that is reset, together with the sessions. -/
theorem mark (hc : s.calls[i]? = some c) (hcoherent : Coherent node s') {observedAt : Nat}
    (hp : ∀ x, c.phase.concerns x = false)
    (hcalls : s'.calls = s.calls.set i { c with phase := .collecting r 0 [] })
    (hreplicas : s'.replicas = s.replicas.update r fun x => x.restarting observedAt)
    (hsessions : s'.sessions = s.sessions)
    (hreset : s.Registered r → s.uncounted r = s.reserved r + s.unreleased r) :
    Balanced node s' := by
  refine h.move hc hcoherent hcalls hreplicas (fun x _ => hp x)
    (fun x hx => decide_eq_false (Ne.symm hx)) (fun x hx => ?_) ?_
  · refine kept_congr hsessions fun sid _ _ _ => doomed_frame hc hcalls ?_ ?_ sid
    · exact (Phase.owes_of_not_concerns (hp x)).2.2.2
    · exact decide_eq_false (Ne.symm hx)
  · intro x hx hid _
    subst hid
    obtain ⟨hp₁, hp₂, hp₃, -⟩ := Phase.owes_of_not_concerns (hp x.id)
    obtain ⟨hreserved, huncounted, hunreleased⟩ :=
      State.tallies_same (r := x.id) hc hcalls hp₁ hp₂ hp₃
    have hnone : kept node s' x.id = 0 := by
      refine kept_eq_zero fun sid e _ _ => ⟨{ c with phase := .collecting x.id 0 [] }, ?_, rfl,
        .inl (Nat.zero_le _)⟩
      rw [hcalls]
      exact List.mem_set (List.getElem?_eq_some_iff.mp hc).1 _
    rw [Even, Replica.restarting_id, hreserved, huncounted, hunreleased, hnone,
      Replica.restarting_sessionsActive, hreset ⟨x, hx, rfl⟩]
    omega

/-- A replica leaves the registry, and its sessions are dropped. -/
theorem removeReplica (hc : s.calls[i]? = some c) (hcoherent : Coherent node s')
    (hp : ∀ x, c.phase.concerns x = false)
    (hcalls : s'.calls = s.calls.set i { c with phase := .collecting r 0 [] })
    (hreplicas : s'.replicas = s.replicas.remove r) (hsessions : s'.sessions = s.sessions) :
    Balanced node s' where
  coherent := hcoherent
  even := by
    rw [hreplicas]
    intro x hx
    have hne := h.coherent.distinct.id_ne_of_mem_remove hx
    have hq : (Phase.collecting r 0 [] : Phase ι κ).drops x.id = false :=
      decide_eq_false (Ne.symm hne)
    refine (h.even x (Registry.mem_of_mem_remove hx)).frame hc hcalls (hp x.id) hq
      (kept_congr hsessions fun sid _ _ _ => ?_)
    exact doomed_frame hc hcalls (Phase.owes_of_not_concerns (hp x.id)).2.2.2 hq sid

/-- A replica that comes back, with the fresh count that is right for it. -/
theorem upsert (hc : s.calls[i]? = some c) (hcoherent : Coherent node s')
    (hp : ∀ x, c.phase.concerns x = false)
    (hcalls : s'.calls = s.calls.set i { c with phase := .done })
    (hreplicas : s'.replicas = s.replicas.upsert x) (hsessions : s'.sessions = s.sessions)
    (hactive : x.sessionsActive = 0)
    (hfresh : s.uncounted x.id = kept node s x.id + s.reserved x.id + s.unreleased x.id) :
    Balanced node s' := by
  have hframe : ∀ y, Even node s y → Even node s' y := fun y heven =>
    heven.frame hc hcalls (hp y.id) rfl (kept_congr hsessions fun sid _ _ _ =>
      doomed_frame hc hcalls (Phase.owes_of_not_concerns (hp y.id)).2.2.2 rfl sid)
  refine ⟨hcoherent, ?_⟩
  rw [hreplicas]
  intro y hy
  rcases Registry.mem_add.mp hy with hold | rfl
  · exact hframe y (h.even y (Registry.mem_of_mem_remove hold))
  · refine hframe y ?_
    rw [Even, hactive, hfresh]
    omega

/-- A drop goes on and will take the same. -/
theorem dropOn (hc : s.calls[i]? = some c) (hcoherent : Coherent node (s.goto i c q))
    (hp : ∀ x, c.phase.reserves x = false ∧ c.phase.countsIn x = false ∧
      c.phase.countsOut x = false)
    (hq : ∀ x, q.reserves x = false ∧ q.countsIn x = false ∧ q.countsOut x = false)
    (hahead : ∀ x sid e, s.sessions.lookup sid = some e → e.replicaId = x →
      (Ahead node x sid c.phase ↔ Ahead node x sid q)) : Balanced node (s.goto i c q) := by
  refine h.steady hc hcoherent rfl rfl (fun x => ?_) (fun x => ?_) (fun x => ?_) fun x => ?_
  · exact (hp x).1.trans (hq x).1.symm
  · exact (hp x).2.1.trans (hq x).2.1.symm
  · exact (hp x).2.2.trans (hq x).2.2.symm
  · exact kept_congr rfl fun sid e he hr => doomed_iff_of_move hc rfl (hahead x sid e he hr)

/-- A drop takes a session it has found. -/
theorem purge {rest : List κ} (hc : s.calls[i]? = some c)
    (hphase : c.phase = .purging r (sid :: rest))
    (hcoherent : Coherent node { s.goto i c (.purging r rest) with
      sessions := s.sessions.erase sid }) :
    Balanced node { s.goto i c (.purging r rest) with sessions := s.sessions.erase sid } := by
  have hissued := h.coherent.known c (List.mem_of_getElem? hc)
  rw [hphase] at hissued
  refine h.steady hc hcoherent rfl rfl (fun x => ?_) (fun x => ?_) (fun x => ?_) fun x => ?_
  · rw [hphase]
    rfl
  · rw [hphase]
    rfl
  · rw [hphase]
    rfl
  · -- the session was doomed, and any other is so behind this step if it was before
    have hothers : ∀ sid' e, (s.sessions.erase sid).lookup sid' = some e →
        (Doomed node { s.goto i c (.purging r rest) with sessions := s.sessions.erase sid } x sid' ↔
          Doomed node s x sid') := by
      intro sid' e he
      refine doomed_iff_of_move hc rfl ?_
      rw [Table.lookup_erase_eq] at he
      split at he
      · cases he
      · next hne =>
        rw [hphase]
        constructor
        · rintro ⟨hr, hfound⟩
          exact ⟨hr, (List.mem_cons.mp hfound).resolve_left hne⟩
        · rintro ⟨hr, hfound⟩
          exact ⟨hr, List.mem_cons_of_mem _ hfound⟩
    have hkept : kept node { s.goto i c (.purging r rest) with sessions := s.sessions.erase sid } x =
        Table.tally (s.sessions.erase sid) fun sid e =>
          decide (e.replicaId = x ∧ ¬ Doomed node s x sid) :=
      Table.tally_congr fun sid' e he =>
        decide_eq_decide.mpr (and_congr_right fun _ => not_congr (hothers sid' e he))
    rw [hkept]
    cases hlookup : s.sessions.lookup sid with
    | none =>
      rw [Table.erase_eq_self hlookup]
      rfl
    | some e =>
      have herase := Table.tally_erase
        (P := fun sid e => decide (e.replicaId = x ∧ ¬ Doomed node s x sid)) hlookup
      have hr : e.replicaId = r := h.coherent.issued_unique (h.coherent.entries sid e hlookup)
        (hissued sid List.mem_cons_self)
      have htaken : decide (e.replicaId = x ∧ ¬ Doomed node s x sid) = false := by
        refine decide_eq_false ?_
        rintro ⟨rfl, hstays⟩
        refine hstays ⟨c, List.mem_of_getElem? hc, ?_⟩
        rw [hphase]
        exact ⟨hr.symm, List.mem_cons_self⟩
      rw [htaken] at herase
      exact herase

/-- A call begins. -/
theorem start {spec : Str} {p : Phase ι κ} (hstart : s.canStart node spec p = true) :
    Balanced node { s with calls := s.calls ++ [⟨spec, p⟩] } where
  coherent := h.coherent.start hstart
  even x hx := by
    have hp := concerns_of_canStart (r := x.id) hstart
    obtain ⟨hreserved, huncounted, hunreleased⟩ := tallies_start (s := s) (d := ⟨spec, p⟩) hp
    have hkept : kept node { s with calls := s.calls ++ [⟨spec, p⟩] } x.id = kept node s x.id := by
      refine kept_congr rfl fun sid _ _ _ => ?_
      constructor
      · rintro ⟨d, hd, hahead⟩
        rcases List.mem_append.mp hd with hold | hnew
        · exact ⟨d, hold, hahead⟩
        · rw [List.mem_singleton.mp hnew] at hahead
          exact absurd hahead
            (not_ahead_of_not_drops (Phase.owes_of_not_concerns hp).2.2.2)
      · rintro ⟨d, hd, hahead⟩
        exact ⟨d, List.mem_append_left _ hd, hahead⟩
    rw [Even, hreserved, huncounted, hunreleased, hkept]
    exact h.even x hx

/-- A call is dropped where it waits, with no seat of a registered replica to count. -/
theorem drop (hc : s.calls[i]? = some c) (hsuspended : c.phase.suspended = true)
    (hseats : ∀ x ∈ s.replicas, c.phase.countsIn x.id = false ∧ c.phase.countsOut x.id = false) :
    Balanced node (s.goto i c .done) where
  coherent := h.coherent.goto hc trivial rfl fun hq => by cases hq
  even x hx := by
    have hp : c.phase.concerns x.id = false := by
      obtain ⟨hcountsIn, hcountsOut⟩ := hseats x hx
      cases hphase : c.phase with
      | counting r =>
        rw [hphase] at hcountsIn
        exact hcountsIn
      | releasing r =>
        rw [hphase] at hcountsOut
        exact hcountsOut
      | holding sid r seatReserved =>
        rw [hphase] at hsuspended
        cases hsuspended
      | collecting r k found =>
        rw [hphase] at hsuspended
        cases hsuspended
      | purging r found =>
        rw [hphase] at hsuspended
        cases hsuspended
      | _ => rfl
    refine (h.even x hx).frame hc rfl hp rfl (kept_congr rfl fun sid _ _ _ => ?_)
    exact doomed_frame hc rfl (Phase.owes_of_not_concerns hp).2.2.2 rfl sid

/-- One section of a call. -/
theorem effect {o : Outside ι κ} (hc : s.calls[i]? = some c) (hok : Apart node s (.advance i o))
    (heffect : Effect node s i c s') : Balanced node s' := by
  obtain ⟨hlimit, happart⟩ := hok
  have happart := happart c hc
  have hcoherent := h.coherent.effect hc (fun visit x hphase y hy hid => by
    rw [hphase] at happart
    exact happart.2.1 ⟨y, hy, hid⟩) heffect
  have hknown := h.coherent.known c (List.mem_of_getElem? hc)
  cases heffect with
  | quiet q hp hq => exact h.quiet hc hcoherent hp hq
  | handOut sid r hp hvisit hstep => exact h.handOut hc hcoherent hvisit hp hlimit hstep
  | addReplica visit x sid hphase hstep =>
    rw [hphase] at happart
    exact h.addReplica hc hphase happart hlimit hcoherent hstep
  | register sid r seatReserved hphase =>
    rw [hphase] at happart
    exact h.register hc hphase happart hcoherent
  | countIn r hphase => exact h.countIn hc hcoherent hphase rfl rfl rfl hlimit
  | countOut r hphase =>
    rw [hphase] at happart
    exact h.countOut hc hcoherent hphase rfl rfl rfl happart
  | upsert x hphase =>
    rw [hphase] at happart hknown
    exact h.upsert hc hcoherent (fun _ => by rw [hphase]; rfl) rfl rfl rfl hknown happart
  | mark r observedAt hphase =>
    rw [hphase] at happart
    exact h.mark hc hcoherent (fun _ => by rw [hphase]; rfl) rfl rfl rfl happart
  | remove r hphase =>
    exact h.removeReplica hc hcoherent (fun _ => by rw [hphase]; rfl) rfl rfl rfl
  | collect r k found hphase hk =>
    refine h.dropOn hc hcoherent (fun _ => ?_) (fun _ => ⟨rfl, rfl, rfl⟩) fun x sid e he hr => ?_
    · rw [hphase]
      exact ⟨rfl, rfl, rfl⟩
    · rw [hphase]
      exact ⟨fun hahead => hahead.collect he hr, fun hahead => hahead.of_collect⟩
  | collected r k found hphase hk =>
    refine h.dropOn hc hcoherent (fun _ => ?_) (fun _ => ⟨rfl, rfl, rfl⟩) fun x sid e he hr => ?_
    · rw [hphase]
      exact ⟨rfl, rfl, rfl⟩
    · rw [hphase]
      exact ⟨fun hahead => hahead.collected hk, fun hahead => ⟨hahead.1, .inr hahead.2⟩⟩
  | purge r sid rest hphase => exact h.purge hc hphase hcoherent
  | purged r hphase =>
    refine h.dropOn hc hcoherent (fun _ => ?_) (fun _ => ⟨rfl, rfl, rfl⟩) fun x sid e he hr => ?_
    · rw [hphase]
      exact ⟨rfl, rfl, rfl⟩
    · rw [hphase]
      exact iff_of_false (fun hahead => List.not_mem_nil hahead.2) id
  | evict sid r rest hphase hsome =>
    rw [hphase] at happart hknown
    obtain ⟨e, hlookup⟩ := Option.isSome_iff_exists.mp hsome
    have he : e.replicaId = r := h.coherent.issued_unique (h.coherent.entries sid e hlookup)
      (hknown (sid, r) List.mem_cons_self)
    refine h.takeAway (q := .evicting rest) hc hcoherent rfl rfl (fun _ => rfl) hlookup he rfl
      (fun _ => by rw [hphase]; rfl) (fun _ _ => rfl) (fun _ => rfl)
      (fun hr => (happart hsome hr).1) fun x hx hid => ?_
    have hpos := (happart hsome ⟨x, hx, hid⟩).2 x hx hid
    rw [Replica.dec_sessionsActive]
    simp [Phase.countsIn, Phase.reserves, Phase.countsOut]
    omega
  | endSession sid e hphase hlookup =>
    rw [hphase] at happart
    refine h.takeAway (f := fun x => x) (q := .releasing e.replicaId) hc hcoherent rfl
      (Registry.update_self _ _).symm (fun _ => rfl) hlookup rfl rfl
      (fun _ => by rw [hphase]; rfl) (fun x hx => decide_eq_false (Ne.symm hx)) (fun _ => rfl)
      (happart e hlookup) fun x hx hid => ?_
    simp [Phase.countsIn, Phase.reserves, Phase.countsOut, hid]

theorem step {e : Event ι κ} (hok : Apart node s e)
    (hstep : (machine node).step s e = some s') : Balanced node s' := by
  cases e with
  | start spec p =>
    change (if _ then _ else _) = _ at hstep
    split at hstep
    · next hstart =>
      cases hstep
      exact h.start hstart
    · cases hstep
  | advance i o =>
    obtain ⟨c, hc, hstep⟩ := Option.bind_eq_some_iff.mp hstep
    exact h.effect hc hok (advance_effect hc hstep)
  | drop i =>
    obtain ⟨c, hc, hstep⟩ := Option.bind_eq_some_iff.mp hstep
    split at hstep
    · next hsuspended =>
      cases hstep
      exact h.drop hc hsuspended (hok c hc)
    · cases hstep
  | tick ms =>
    cases hstep
    exact ⟨h.coherent.tick ms, h.even⟩

end Balanced

/-- With no call half-way, seats counted and sessions kept are the same. -/
theorem even_iff_of_quiet (hquiet : ∀ c ∈ s.calls, c.phase.halfWay = false) :
    Even node s x ↔ x.sessionsActive = s.sessionsOf x.id := by
  have howes : ∀ c ∈ s.calls, c.phase.concerns x.id = false := fun c hc =>
    Phase.concerns_of_not_halfWay (hquiet c hc)
  have hundropped : s.Undropped x.id := fun c hc => (Phase.owes_of_not_concerns (howes c hc)).2.2.2
  have hreserved : s.reserved x.id = 0 := State.tally_eq_zero fun c hc =>
    (Phase.owes_of_not_concerns (howes c hc)).1
  have huncounted : s.uncounted x.id = 0 := State.tally_eq_zero fun c hc =>
    (Phase.owes_of_not_concerns (howes c hc)).2.1
  have hunreleased : s.unreleased x.id = 0 := State.tally_eq_zero fun c hc =>
    (Phase.owes_of_not_concerns (howes c hc)).2.2.1
  rw [Even, kept_of_undropped hundropped, hreserved, huncounted, hunreleased]
  rfl

/-- **Counts are sessions.** In every run that keeps calls apart, the count of every replica is
the number of its sessions whenever no call is half-way. -/
theorem active_eq_sessionsOf {es : List (Event ι κ)} (hcalls : s.calls = [])
    (hcoherent : Coherent node s)
    (hcounts : ∀ x ∈ s.replicas, x.sessionsActive = s.sessionsOf x.id)
    (h : (machine node).Run (Apart node) s es s')
    (hquiet : ∀ c ∈ s'.calls, c.phase.halfWay = false) :
    ∀ x ∈ s'.replicas, x.sessionsActive = s'.sessionsOf x.id := by
  have hstart : Balanced node s := by
    refine ⟨hcoherent, fun x hx => (even_iff_of_quiet ?_).mpr (hcounts x hx)⟩
    simp [hcalls]
  have hend : Balanced node s' :=
    h.invariant hstart fun _ _ _ hinv hok hstep => hinv.step hok hstep
  intro x hx
  exact (even_iff_of_quiet hquiet).mp (hend.even x hx)

end Even

/-! ## A visit, a logout and a restart -/

section Example

attribute [local instance] wholeFloats

/-- A session is opened and ended by a logout. -/
def visitThenLogout : List (Event Nat Nat) :=
  [.start labId .fast, .advance 0 (labOutside 7 none), .advance 0 (labOutside 7 none),
    .start labId (.ending 7), .advance 1 (labOutside 7 none), .advance 1 (labOutside 7 none)]

theorem active_eq_sessionsOf_visitThenLogout : ∃ s : State Nat Nat,
    s.replicas = [labReplica 0] ∧ s.cookies = [⟨7, labId, 0⟩] ∧
      ∀ x ∈ s.replicas, x.sessionsActive = s.sessionsOf x.id := by
  have hrun : ∃ s : State Nat Nat,
      (machine labNode).Run (Apart labNode) (boot [labReplica 0]) visitThenLogout s ∧
        (∀ c ∈ s.calls, c.phase.halfWay = false) ∧
        s.replicas = [labReplica 0] ∧ s.cookies = [⟨7, labId, 0⟩] := by
    refine ⟨_, .cons trivial rfl (.cons ⟨by decide, ?_⟩ rfl (.cons ⟨by decide, ?_⟩ rfl (.cons trivial
      rfl (.cons ⟨by decide, ?_⟩ rfl (.cons ⟨by decide, ?_⟩ rfl (.nil _)))))), ?_, rfl, rfl⟩
    · rintro c hc
      cases hc
      trivial
    · rintro c hc
      cases hc
      exact fun _ _ => by decide
    · rintro c hc
      cases hc
      rintro e - - ⟨d, hd, hahead⟩
      rcases List.mem_cons.mp hd with rfl | hd
      · exact hahead
      · rw [List.mem_singleton.mp hd] at hahead
        exact hahead
    · rintro c hc
      cases hc
      intro x hx _
      have hrow : x ∈ [{ labReplica 0 with sessionsActive := 1 }] := hx
      rw [List.mem_singleton.mp hrow]
      exact Nat.one_pos
    · decide
  obtain ⟨s, hrun, hquiet, hreplicas, hcookies⟩ := hrun
  have hrows : Registry.Distinct [labReplica 0] := List.nodup_singleton _
  refine ⟨s, hreplicas, hcookies, active_eq_sessionsOf rfl (.boot hrows) ?_ hrun hquiet⟩
  intro x hx
  rw [List.mem_singleton.mp hx]
  rfl

/-- A visit reserves a seat, the replica is marked restarting and its sessions are dropped, and
then the session is registered. -/
def visitAcrossRestart : List (Event Nat Nat) :=
  [.start labId .fast, .advance 0 (labOutside 7 none), .start labId (.marking 0 5),
    .advance 1 (labOutside 0 none), .advance 1 (labOutside 0 none), .advance 1 (labOutside 0 none),
    .advance 1 (labOutside 0 none), .advance 0 (labOutside 0 none)]

theorem visitAcrossRestart_uncounted : ∃ s,
    (machine labNode).exec (boot [labReplica 0]) visitAcrossRestart = some s ∧
      (∀ c ∈ s.calls, c.phase = .done) ∧
      ¬ ∀ x ∈ s.replicas, x.sessionsActive = s.sessionsOf x.id := by
  refine ⟨_, rfl, ?_, ?_⟩
  · intro c hc
    rcases List.mem_cons.mp hc with rfl | hc
    · rfl
    · rw [List.mem_singleton.mp hc]
  · decide

end Example

end Ruscker.Proxy.Calls
