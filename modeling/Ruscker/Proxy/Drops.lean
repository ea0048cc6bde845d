import Ruscker.Proxy.Seats

/-!
# The sessions of a removed replica

`cleanup_replica_state` takes a replica out of the registry and then its sessions out of the
store.  A request that chose the replica before may register its session behind that.
-/

namespace Ruscker.Proxy.Calls

open Tables Machines Machines.Machine

variable {ι κ : Type*}

/-! ## What a section does to the store -/

section Sessions

variable [Floats] [DecidableEq ι] [DecidableEq κ] {node : Node κ} {s s' : State ι κ} {i : Nat}
  {c : Call ι κ} {o : Outside ι κ}

/-- A section leaves the store, ends one session, or touches or registers that of its call. -/
def StoreStep (s : State ι κ) (c : Call ι κ) (sessions : SessionStore ι κ) : Prop :=
  sessions = s.sessions ∨ (∃ sid, sessions = s.sessions.erase sid) ∨
    ∃ sid r seatReserved, c.phase = .holding sid r seatReserved ∧
      sessions = (touchOrRegister s.sessions sid c.spec r s.now).1

theorem handOut_sessions {sid : κ} {r : ι} (h : handOut node s i c sid r = some s') :
    ∃ q, s'.calls = s.calls.set i { c with phase := q } ∧ s'.sessions = s.sessions := by
  obtain ⟨-, ⟨-, rfl⟩ | ⟨-, rfl⟩⟩ := handOut_cases h
  · exact ⟨_, rfl, rfl⟩
  · exact ⟨_, rfl, rfl⟩

theorem Effect.sessions (h : Effect node s i c s') :
    ∃ q, s'.calls = s.calls.set i { c with phase := q } ∧ StoreStep s c s'.sessions := by
  cases h with
  | quiet q => exact ⟨q, rfl, .inl rfl⟩
  | handOut sid r hp hvisit hstep =>
    obtain ⟨q, hcalls, hsessions⟩ := handOut_sessions hstep
    exact ⟨q, hcalls, .inl hsessions⟩
  | addReplica visit x sid hphase hstep =>
    unfold Calls.addReplica at hstep
    split at hstep
    · obtain ⟨q, hcalls, hsessions⟩ := handOut_sessions hstep
      exact ⟨q, hcalls, .inl hsessions⟩
    · cases hstep
      exact ⟨_, rfl, .inl rfl⟩
  | register sid r seatReserved hphase =>
    exact ⟨_, rfl, .inr (.inr ⟨sid, r, seatReserved, hphase, rfl⟩)⟩
  | purge r sid => exact ⟨_, rfl, .inr (.inl ⟨sid, rfl⟩)⟩
  | evict sid => exact ⟨_, rfl, .inr (.inl ⟨sid, rfl⟩)⟩
  | endSession sid => exact ⟨_, rfl, .inr (.inl ⟨sid, rfl⟩)⟩
  | _ => exact ⟨_, rfl, .inl rfl⟩

end Sessions

/-! ## Sessions that are still to be dropped -/

section Ahead

variable [Floats] (node : Node κ) (r : ι) (sid : κ)

/-- The drop has found the session, or has still to look through its shard. -/
def Ahead : Phase ι κ → Prop
  | .collecting r' k found => r' = r ∧ (k ≤ node.shardOf sid ∨ sid ∈ found)
  | .purging r' found => r' = r ∧ sid ∈ found
  | _ => False

variable {node r sid} {p : Phase ι κ} {k : Nat} {found : List κ}

theorem Ahead.drops [DecidableEq ι] (h : Ahead node r sid p) : p.drops r = true := by
  cases p with
  | collecting r' k found => exact decide_eq_true h.1
  | purging r' found => exact decide_eq_true h.1
  | _ => exact h.elim

variable {r' : ι}

/-- A look through one more shard finds what it has of the replica. -/
theorem Ahead.collect [DecidableEq ι] [DecidableEq κ] {st : SessionStore ι κ} {e : SessionEntry ι}
    (h : Ahead node r sid (.collecting r' k found : Phase ι κ))
    (hlookup : st.lookup sid = some e) (hr : e.replicaId = r) :
    Ahead node r sid (.collecting r' (k + 1) (found ++
      (inShard node st k fun e => e.replicaId = r').map Prod.fst) : Phase ι κ) := by
  obtain ⟨rfl, hahead⟩ := h
  refine ⟨rfl, ?_⟩
  rcases hahead with hshard | hfound
  · rcases Nat.eq_or_lt_of_le hshard with rfl | hlt
    · refine .inr (List.mem_append_right _ (List.mem_map.mpr ⟨(sid, e.replicaId), ?_, rfl⟩))
      refine List.mem_map.mpr ⟨⟨sid, e⟩, ?_, rfl⟩
      exact List.mem_filter.mpr ⟨AList.mem_lookup_iff.mp hlookup, by simp [hr]⟩
    · exact .inl hlt
  · exact .inr (List.mem_append_left _ hfound)

theorem Ahead.of_collect [DecidableEq ι] [DecidableEq κ] {st : SessionStore ι κ}
    (h : Ahead node r sid (.collecting r' (k + 1) (found ++
      (inShard node st k fun e => e.replicaId = r').map Prod.fst) : Phase ι κ)) :
    Ahead node r sid (.collecting r' k found : Phase ι κ) := by
  obtain ⟨rfl, hshard | hfound⟩ := h
  · exact ⟨rfl, .inl (Nat.le_of_succ_le hshard)⟩
  · rcases List.mem_append.mp hfound with hold | hnew
    · exact ⟨rfl, .inr hold⟩
    · obtain ⟨v, hv, rfl⟩ := List.mem_map.mp hnew
      obtain ⟨e, he, rfl⟩ := List.mem_map.mp hv
      have hk := (Bool.and_eq_true_iff.mp (List.mem_filter.mp he).2).1
      exact ⟨rfl, .inl (Nat.le_of_eq (of_decide_eq_true hk).symm)⟩

/-- Behind the last shard everything has been found. -/
theorem Ahead.collected (h : Ahead node r sid (.collecting r' k found : Phase ι κ))
    (hk : ¬ k < node.shards) : Ahead node r sid (.purging r' found : Phase ι κ) := by
  obtain ⟨rfl, hshard | hfound⟩ := h
  · exact absurd (Nat.lt_of_le_of_lt hshard (node.shardOf sid).isLt) hk
  · exact ⟨rfl, hfound⟩

end Ahead

/-! ## The invariant -/

section Dropped

variable [Floats] [DecidableEq κ] (node : Node κ) (r : ι)

/-- Every session of the replica is still to be dropped. -/
def AllAhead (s : State ι κ) : Prop :=
  ∀ sid e, s.sessions.lookup sid = some e → e.replicaId = r →
    ∃ c ∈ s.calls, Ahead node r sid c.phase

/-- A request registers a session for the replica only while one that drops the replica's
sessions will come across it. -/
def InTime (s : State ι κ) : Event ι κ → Prop
  | .advance i _ => ∀ c sid seatReserved, s.calls[i]? = some c →
      c.phase = .holding sid r seatReserved → s.sessions.lookup sid = none →
        ∃ d ∈ s.calls, Ahead node r sid d.phase
  | _ => True

variable {node r} {s s' : State ι κ} {i : Nat} {c : Call ι κ} {q : Phase ι κ} {o : Outside ι κ}

/-- The calls that drop go on doing so. -/
theorem allAhead_of_calls (hc : s.calls[i]? = some c)
    (hcalls : s'.calls = s.calls.set i { c with phase := q })
    (hmet : ∀ sid e, s'.sessions.lookup sid = some e → e.replicaId = r →
      ∃ d ∈ s.calls, Ahead node r sid d.phase)
    (hahead : ∀ sid e, s'.sessions.lookup sid = some e → e.replicaId = r →
      Ahead node r sid c.phase → Ahead node r sid q) : AllAhead node r s' := by
  intro sid e he hr
  obtain ⟨d, hd, hdahead⟩ := hmet sid e he hr
  rw [hcalls]
  by_cases hdc : d = c
  · subst hdc
    have hlt : i < s.calls.length := (List.getElem?_eq_some_iff.mp hc).1
    exact ⟨_, List.mem_set hlt _, hahead sid e he hr hdahead⟩
  · exact ⟨d, mem_set_of_ne hc hd hdc, hdahead⟩

namespace AllAhead

variable (h : AllAhead node r s)
include h

/-- Only a registration puts down a session, and that in time. -/
theorem met {sessions : SessionStore ι κ} (hok : InTime node r s (.advance i o))
    (hc : s.calls[i]? = some c) (hstore : StoreStep s c sessions) :
    ∀ sid e, sessions.lookup sid = some e → e.replicaId = r →
      ∃ d ∈ s.calls, Ahead node r sid d.phase := by
  intro sid e he hr
  rcases hstore with rfl | ⟨gone, rfl⟩ | ⟨sid', r', seatReserved, hphase, rfl⟩
  · exact h sid e he hr
  · rw [Table.lookup_erase_eq] at he
    split at he
    · cases he
    · exact h sid e he hr
  · unfold touchOrRegister at he
    split at he
    · rw [Table.lookup_update] at he
      split at he
      · obtain ⟨e', he', rfl⟩ := Option.map_eq_some_iff.mp he
        exact h sid e' he' hr
      · exact h sid e he hr
    · next hnone =>
      rw [Table.lookup_insert_eq] at he
      split at he
      · next hsid =>
        cases he
        cases hr
        exact hsid ▸ hok c sid' seatReserved hc hphase hnone
      · exact h sid e he hr

variable [DecidableEq ι]

/-- One section of a call. -/
theorem effect (hok : InTime node r s (.advance i o)) (hc : s.calls[i]? = some c)
    (heffect : Effect node s i c s') : AllAhead node r s' := by
  obtain ⟨q, hcalls, hstore⟩ := heffect.sessions
  have hmet := h.met hok hc hstore
  -- a call that drops nothing leaves what is ahead to the others
  have hother : c.phase.drops r = false → AllAhead node r s' := fun hdrops =>
    allAhead_of_calls hc hcalls hmet fun _ _ _ _ hahead => by
      rw [hahead.drops] at hdrops
      cases hdrops
  cases heffect with
  | collect r' k found hphase hk =>
    refine allAhead_of_calls hc rfl hmet fun sid e he hr hahead => ?_
    rw [hphase] at hahead
    exact hahead.collect he hr
  | collected r' k found hphase hk =>
    refine allAhead_of_calls hc rfl hmet fun sid e he hr hahead => ?_
    rw [hphase] at hahead
    exact hahead.collected hk
  | purge r' gone rest hphase =>
    refine allAhead_of_calls hc rfl hmet fun sid e he hr hahead => ?_
    rw [hphase] at hahead
    refine ⟨hahead.1, (List.mem_cons.mp hahead.2).resolve_left ?_⟩
    rintro rfl
    have hgone : (s.sessions.erase sid).lookup sid = some e := he
    rw [AList.lookup_erase] at hgone
    cases hgone
  | purged r' hphase =>
    refine allAhead_of_calls hc rfl hmet fun sid e he hr hahead => ?_
    rw [hphase] at hahead
    cases hahead.2
  | quiet q hp => exact hother (Phase.owes_of_not_concerns (hp r)).2.2.2
  | handOut sid r' hp => exact hother (Phase.owes_of_not_concerns (hp r)).2.2.2
  | addReplica visit x sid hphase => exact hother (by rw [hphase]; rfl)
  | register sid r' seatReserved hphase => exact hother (by rw [hphase]; rfl)
  | countIn r' hphase => exact hother (by rw [hphase]; rfl)
  | countOut r' hphase => exact hother (by rw [hphase]; rfl)
  | upsert x hphase => exact hother (by rw [hphase]; rfl)
  | mark r' observedAt hphase => exact hother (by rw [hphase]; rfl)
  | remove r' hphase => exact hother (by rw [hphase]; rfl)
  | evict sid r' rest hphase => exact hother (by rw [hphase]; rfl)
  | endSession sid e hphase => exact hother (by rw [hphase]; rfl)

theorem step {e : Event ι κ} (hok : InTime node r s e) (hstep : (machine node).step s e = some s') :
    AllAhead node r s' := by
  cases e with
  | start spec p =>
    change (if _ then _ else _) = _ at hstep
    split at hstep
    · cases hstep
      intro sid e he hr
      obtain ⟨d, hd, hahead⟩ := h sid e he hr
      exact ⟨d, List.mem_append_left _ hd, hahead⟩
    · cases hstep
  | advance i o =>
    obtain ⟨c, hc, hstep⟩ := Option.bind_eq_some_iff.mp hstep
    exact h.effect hok hc (advance_effect hc hstep)
  | drop i =>
    obtain ⟨c, hc, hstep⟩ := Option.bind_eq_some_iff.mp hstep
    split at hstep
    · next hsuspended =>
      cases hstep
      refine allAhead_of_calls hc rfl h fun sid e he hr hahead => ?_
      cases hphase : c.phase with
      | collecting r' k found =>
        rw [hphase] at hsuspended
        cases hsuspended
      | purging r' found =>
        rw [hphase] at hsuspended
        cases hsuspended
      | _ =>
        rw [hphase] at hahead
        cases hahead
    · cases hstep
  | tick ms =>
    cases hstep
    exact h

end AllAhead

/-- **No session is left.** After the cleanup of a replica, in every run in which a request
registers a session for it only while the cleanup will come across it, none is left once all
calls have ended. -/
theorem bound_eq_zero_of_inTime [DecidableEq ι] {spec : Str} {s₁ : State ι κ} {es : List (Event ι κ)}
    (hcleanup : s.calls[i]? = some ⟨spec, .removing r⟩)
    (hremove : (machine node).step s (.advance i o) = some s₁)
    (h : (machine node).Run (InTime node r) s₁ es s') (hdone : ∀ c ∈ s'.calls, c.phase = .done) :
    bound s'.sessions r = 0 := by
  have hstart : AllAhead node r s₁ := by
    obtain ⟨c, hc, hremove⟩ := Option.bind_eq_some_iff.mp hremove
    cases hc.symm.trans hcleanup
    cases hremove
    intro sid e he hr
    have hlt : i < s.calls.length := (List.getElem?_eq_some_iff.mp hc).1
    exact ⟨_, List.mem_set hlt _, rfl, .inl (Nat.zero_le _)⟩
  have hend : AllAhead node r s' :=
    h.invariant hstart fun _ _ _ hinv hok hstep => hinv.step hok hstep
  refine bound_eq_zero.mpr fun sid e he hr => ?_
  obtain ⟨c, hc, hahead⟩ := hend sid e he hr
  rw [hdone c hc] at hahead
  exact hahead

end Dropped

/-! ## A visit around a cleanup -/

section Example

attribute [local instance] wholeFloats

/-- A visit holds the seat of a replica whose cleanup begins. -/
def heldAtCleanup : State Nat Nat where
  replicas := [{ labReplica 0 with sessionsActive := 1 }]
  sessions := ∅
  cookies := []
  now := 0
  calls := [⟨labId, .holding 7 0 true⟩, ⟨labId, .removing 0⟩]

/-- The session is registered before the cleanup has looked through its shard. -/
theorem bound_eq_zero_of_inTime_visit : ∃ s : State Nat Nat,
    (∀ c ∈ s.calls, c.phase = .done) ∧ s.cookies = [⟨7, labId, 0⟩] ∧ bound s.sessions 0 = 0 := by
  have hrun : ∃ s₁ s, (machine labNode).step heldAtCleanup (.advance 1 (labOutside 0 none)) =
      some s₁ ∧ (machine labNode).Run (InTime labNode 0) s₁
        [.advance 0 (labOutside 0 none), .advance 1 (labOutside 0 none),
          .advance 1 (labOutside 0 none), .advance 1 (labOutside 0 none),
          .advance 1 (labOutside 0 none)] s ∧
      (∀ c ∈ s.calls, c.phase = .done) ∧ s.cookies = [⟨7, labId, 0⟩] := by
    refine ⟨_, _, rfl, .cons ?_ rfl (.cons ?_ rfl (.cons ?_ rfl (.cons ?_ rfl (.cons ?_ rfl
      (.nil _))))), ?_, rfl⟩
    · rintro c sid seatReserved hc hphase -
      exact ⟨_, List.mem_cons_of_mem _ List.mem_cons_self, rfl, .inl (Nat.zero_le _)⟩
    · rintro c sid seatReserved hc hphase -
      cases hc
      cases hphase
    · rintro c sid seatReserved hc hphase -
      cases hc
      cases hphase
    · rintro c sid seatReserved hc hphase -
      cases hc
      cases hphase
    · rintro c sid seatReserved hc hphase -
      cases hc
      cases hphase
    · intro c hc
      rcases List.mem_cons.mp hc with rfl | hc
      · rfl
      · rw [List.mem_singleton.mp hc]
  obtain ⟨s₁, s, hremove, hrun, hdone, hcookies⟩ := hrun
  exact ⟨s, hdone, hcookies, bound_eq_zero_of_inTime rfl hremove hrun hdone⟩

/-- The visit chooses the replica, the whole cleanup runs, and the session is registered. -/
def lateVisit : List (Event Nat Nat) :=
  [.start labId .fast, .advance 0 (labOutside 7 none), .start labId (.removing 0),
    .advance 1 (labOutside 0 none), .advance 1 (labOutside 0 none), .advance 1 (labOutside 0 none),
    .advance 1 (labOutside 0 none), .advance 0 (labOutside 0 none)]

theorem lateVisit_leaves : ∃ s, (machine labNode).exec (boot [labReplica 0]) lateVisit = some s ∧
    (∀ c ∈ s.calls, c.phase = .done) ∧ s.replicas = [] ∧ ¬ bound s.sessions 0 = 0 := by
  refine ⟨_, rfl, ?_, rfl, ?_⟩
  · intro c hc
    rcases List.mem_cons.mp hc with rfl | hc
    · rfl
    · rw [List.mem_singleton.mp hc]
  · decide

end Example

end Ruscker.Proxy.Calls
