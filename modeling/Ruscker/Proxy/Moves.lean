import Ruscker.Proxy.Seats

/-!
# One step of a call, seen from a replica

A request comes to a replica in one step, by a cookie or by a pick, and no other step makes a
replica busier or gives it a session.
-/

namespace Ruscker.Proxy.Calls

open Tables Machines Machines.Machine

variable {ι κ : Type*}

namespace Phase

def isQueued : Phase ι κ → Bool
  | .queued _ => true
  | _ => false

/-- The call is about to register a session of the replica, or to count one. -/
def comesTo [DecidableEq ι] (r : ι) : Phase ι κ → Bool
  | .holding _ r' _ | .counting r' => r' = r
  | _ => false

/-- A readoption. -/
def readopts : Phase ι κ → Bool
  | .queued (.readopt _) | .looking _ | .readying _ _ | .upserting _ => true
  | _ => false

/-- The row that the call is about to add. -/
def added : Phase ι κ → Option (Replica ι)
  | .adding _ r => some r
  | _ => none

end Phase

/-! ## Calls that somebody waits for -/

namespace State

/-- A call begins. -/
def begin (s : State ι κ) (spec : Str) (p : Phase ι κ) : State ι κ :=
  { s with calls := s.calls ++ [⟨spec, p⟩] }

def hasEnded (s : State ι κ) (call : Nat) : Bool :=
  (s.calls[call]?).any fun c => match c.phase with
    | .done => true
    | _ => false

end State

/-! ## Rows without a session -/

section Rows

variable [DecidableEq ι] {s s' : State ι κ} {r : ι}

theorem mem_update {reg : Registry ι} {id : ι} {f : Replica ι → Replica ι} {y : Replica ι}
    (h : y ∈ reg.update id f) : y ∈ reg ∨ ∃ x ∈ reg, x.id = id ∧ y = f x := by
  induction reg with
  | nil => cases h
  | cons x rest ih =>
    rw [Registry.update] at h
    split at h
    · next hid =>
      rcases List.mem_cons.mp h with rfl | hrest
      · exact .inr ⟨x, List.mem_cons_self, hid, rfl⟩
      · exact .inl (List.mem_cons_of_mem x hrest)
    · rcases List.mem_cons.mp h with rfl | hrest
      · exact .inl List.mem_cons_self
      · rcases ih hrest with hold | ⟨z, hz, hid, rfl⟩
        · exact .inl (List.mem_cons_of_mem x hold)
        · exact .inr ⟨z, List.mem_cons_of_mem x hz, hid, rfl⟩

/-- The row is one of the registry's, if not as ready there maybe. -/
def Stems (reg : Registry ι) (y : Replica ι) : Prop :=
  ∃ x ∈ reg, x.id = y.id ∧ x.specId = y.specId ∧ (y.state = .ready → x.state = .ready)

namespace Stems

variable {reg : Registry ι} {y : Replica ι}

omit [DecidableEq ι] in
theorem of_mem (h : y ∈ reg) : Stems reg y := ⟨y, h, rfl, rfl, id⟩

theorem of_mem_update {id : ι} {f : Replica ι → Replica ι} (hid : ∀ x : Replica ι, (f x).id = x.id)
    (hspec : ∀ x : Replica ι, (f x).specId = x.specId)
    (hstate : ∀ x : Replica ι, (f x).state = .ready → x.state = .ready)
    (h : y ∈ reg.update id f) : Stems reg y := by
  rcases mem_update h with hold | ⟨x, hx, -, rfl⟩
  · exact of_mem hold
  · exact ⟨x, hx, (hid x).symm, (hspec x).symm, hstate x⟩

end Stems

/-- No row of the replica counts a session. -/
def Unused (s : State ι κ) (r : ι) : Prop := ∀ x ∈ s.replicas, x.id = r → x.sessionsActive = 0

instance (s : State ι κ) (r : ι) : Decidable (Unused s r) :=
  inferInstanceAs (Decidable (∀ x ∈ s.replicas, x.id = r → x.sessionsActive = 0))

theorem Unused.update {id : ι} {f : Replica ι → Replica ι} (h : Unused s r)
    (hreplicas : s'.replicas = s.replicas.update id f)
    (hf : id = r → ∀ x : Replica ι, x.sessionsActive = 0 → (f x).sessionsActive = 0)
    (hid : ∀ x : Replica ι, (f x).id = x.id) : Unused s' r := by
  intro y hy hyr
  rw [hreplicas] at hy
  rcases mem_update hy with hold | ⟨x, hx, hxid, rfl⟩
  · exact h y hold hyr
  · rw [hid] at hyr
    exact hf (hxid.symm.trans hyr) x (h x hx hyr)

end Rows

/-! ## The calls after a step -/

section Steps

variable [Floats] [DecidableEq ι] {node : Node κ} {s s' : State ι κ} {i : Nat} {c : Call ι κ}
  {o : Outside ι κ} {q : Phase ι κ} {sid : κ} {r : ι}

/-- The replica a step takes a request to; requests of an API leave no trace in the row. -/
def target (node : Node κ) (s : State ι κ) (c : Call ι κ) (o : Outside ι κ) : Option ι :=
  let settings := node.settings c.spec
  if settings.kind = .api then none
  else match c.phase with
    | .sticky cookie _ => (stickyReplica s c.spec cookie).map Replica.id
    | .fast => (pickAccepting (s.replicas.replicasOf c.spec) settings.effectiveRouting
        (settings.kind = .api) o.load).map Replica.id
    | .recheck => (recheckPick node s c.spec o.load).map Replica.id
    | .adding true r => some r.id
    | _ => none

/-- The call goes on to a mutex only from the queue, to a replica only as its target, to a new
row only from the backend, and it does not become a readoption. -/
structure Leads (node : Node κ) (s : State ι κ) (c : Call ι κ) (o : Outside ι κ)
    (q : Phase ι κ) : Prop where
  locks : c.phase.isQueued = false → q.locks = true → c.phase.locks = true
  comes : ∀ r, q.comesTo r = true → c.phase.comesTo r = true ∨ target node s c o = some r
  readopts : q.readopts = true → c.phase.readopts = true
  added : ∀ x ∈ q.added, ∃ r ∈ o.spawned, x.id = r.id ∧ x.specId = r.specId

namespace Leads

theorem idle (hlocks : q.locks = false) (hreadopts : q.readopts = false)
    (hcomes : ∀ r, q.comesTo r = false) : Leads node s c o q where
  locks _ h := by
    rw [hlocks] at h
    cases h
  comes r h := by
    rw [hcomes] at h
    cases h
  readopts h := by
    rw [hreadopts] at h
    cases h
  added x hx := by
    cases q with
    | adding visit y => cases hlocks
    | _ => cases hx

theorem inside (hlocks : c.phase.locks = true)
    (hreadopts : q.readopts = true → c.phase.readopts = true) (hcomes : ∀ r, q.comesTo r = false)
    (hadded : q.added = none) : Leads node s c o q where
  locks _ _ := hlocks
  comes r h := by
    rw [hcomes] at h
    cases h
  readopts := hreadopts
  added x hx := by
    rw [hadded] at hx
    cases hx

theorem track [DecidableEq κ] {seatReserved : Bool}
    (htarget : (node.settings c.spec).kind ≠ .api → target node s c o = some r) :
    Leads node s c o (track node c.spec sid r seatReserved) := by
  rcases track_cases node c.spec sid r seatReserved with ⟨hsticky, hq⟩ | ⟨-, hq⟩
  · rw [hq]
    refine ⟨fun _ h => (by cases h), fun r' h => .inr ?_, fun h => (by cases h),
      fun x h => (by cases h)⟩
    rw [← of_decide_eq_true h]
    refine htarget fun hapi => ?_
    rw [hapi] at hsticky
    cases hsticky
  · rw [hq]
    exact idle rfl rfl fun _ => rfl

end Leads

variable [DecidableEq κ]

theorem calls_of_handOut (h : handOut node s i c sid r = some s')
    (htarget : (node.settings c.spec).kind ≠ .api → target node s c o = some r) :
    ∃ q, s'.calls = s.calls.set i { c with phase := q } ∧ Leads node s c o q := by
  obtain ⟨-, ⟨-, rfl⟩ | ⟨-, rfl⟩⟩ := handOut_cases h
  · exact ⟨_, rfl, .idle rfl rfl fun _ => rfl⟩
  · exact ⟨_, rfl, .track htarget⟩

/-- What a step makes of the calls. -/
theorem calls_of_advance (h : advance node s i c o = some s') :
    ∃ q, s'.calls = s.calls.set i { c with phase := q } ∧ Leads node s c o q := by
  unfold advance at h
  cases hphase : c.phase with
  | sticky cookie visit =>
    simp only [hphase] at h
    cases h
    refine ⟨_, rfl, ?_⟩
    unfold afterSticky
    split
    · next x hx =>
      refine .track fun hapi => ?_
      simp only [target, hphase, if_neg hapi, hx, Option.map_some]
    · split
      · exact .idle rfl rfl fun _ => rfl
      · exact .idle rfl rfl fun _ => rfl
  | ride =>
    simp only [hphase] at h
    cases h
    refine ⟨_, rfl, ?_⟩
    split
    · exact .idle rfl rfl fun _ => rfl
    · exact .idle rfl rfl fun _ => rfl
  | fast =>
    simp only [hphase] at h
    split at h
    · next x hpick =>
      refine calls_of_handOut h fun hapi => ?_
      simp only [target, hphase, if_neg hapi, hpick, Option.map_some]
    · cases h
      exact ⟨_, rfl, .idle rfl rfl fun _ => rfl⟩
  | queued g =>
    simp only [hphase] at h
    split at h
    · cases h
      refine ⟨_, rfl, fun hqueued => ?_, fun r hr => ?_, fun hreadopts => ?_, fun x hx => ?_⟩
      · rw [hphase] at hqueued
        cases hqueued
      · cases g <;> cases hr
      · rw [hphase]
        cases g with
        | readopt x => rfl
        | _ => cases hreadopts
      · cases g <;> cases hx
    · cases h
  | recheck =>
    simp only [hphase] at h
    split at h
    · next x hpick =>
      refine calls_of_handOut h fun hapi => ?_
      simp only [target, hphase, if_neg hapi, hpick, Option.map_some]
    · cases h
      exact ⟨_, rfl, .inside (by rw [hphase]; rfl) (fun h => (by cases h)) (fun _ => rfl) rfl⟩
  | ensuring =>
    simp only [hphase] at h
    cases h
    refine ⟨_, rfl, ?_⟩
    split
    · exact .idle rfl rfl fun _ => rfl
    · exact .inside (by rw [hphase]; rfl) (fun h => by cases h) (fun _ => rfl) rfl
  | capping =>
    simp only [hphase] at h
    cases h
    refine ⟨_, rfl, ?_⟩
    split
    · exact .idle rfl rfl fun _ => rfl
    · exact .inside (by rw [hphase]; rfl) (fun h => by cases h) (fun _ => rfl) rfl
  | spawning visit =>
    simp only [hphase] at h
    cases h
    refine ⟨_, rfl, ?_⟩
    cases hspawned : o.spawned with
    | none => exact .idle rfl rfl fun _ => rfl
    | some x =>
      refine ⟨fun _ _ => by rw [hphase]; rfl, fun r hr => (by cases hr), fun hr => (by cases hr),
        fun y hy => ?_⟩
      cases hy
      exact ⟨x, hspawned, rfl, rfl⟩
  | adding visit x =>
    simp only [hphase] at h
    unfold addReplica at h
    dsimp only at h
    split at h
    · next hvisit =>
      obtain ⟨-, ⟨-, rfl⟩ | ⟨-, rfl⟩⟩ := handOut_cases h
      · exact ⟨_, rfl, .idle rfl rfl fun _ => rfl⟩
      · refine ⟨_, rfl, .track fun hapi => ?_⟩
        simp only [target, hphase, if_neg hapi, hvisit]
    · cases h
      exact ⟨_, rfl, .idle rfl rfl fun _ => rfl⟩
  | looking x =>
    simp only [hphase] at h
    cases h
    refine ⟨_, rfl, ?_⟩
    unfold afterLook
    dsimp only
    split
    · exact .idle rfl rfl fun _ => rfl
    · split
      · exact .idle rfl rfl fun _ => rfl
      · exact .inside (by rw [hphase]; rfl) (fun _ => by rw [hphase]; rfl) (fun _ => rfl) rfl
  | readying x sameIdPresent =>
    simp only [hphase] at h
    cases h
    refine ⟨_, rfl, ?_⟩
    split
    · exact .inside (by rw [hphase]; rfl) (fun _ => by rw [hphase]; rfl) (fun _ => rfl) rfl
    · split
      · exact .idle rfl rfl fun _ => rfl
      · exact .idle rfl rfl fun _ => rfl
  | upserting x =>
    simp only [hphase] at h
    cases h
    exact ⟨_, rfl, .idle rfl rfl fun _ => rfl⟩
  | holding sid r seatReserved =>
    simp only [hphase] at h
    cases h
    have hnext : ∀ counts : Bool,
        Leads node s c o (if counts then .counting r else .done) := by
      intro counts
      cases counts with
      | false => exact .idle rfl rfl fun _ => rfl
      | true =>
        exact ⟨fun _ hq => (by cases hq), fun r' hr => .inl (by rw [hphase]; exact hr),
          fun hq => (by cases hq), fun x hx => (by cases hx)⟩
    exact ⟨_, rfl, hnext _⟩
  | marking r observedAt =>
    simp only [hphase] at h
    split at h
    · cases h
      exact ⟨_, rfl, .idle rfl rfl fun _ => rfl⟩
    · cases h
      exact ⟨_, rfl, .idle rfl rfl fun _ => rfl⟩
  | collecting r k found =>
    simp only [hphase] at h
    cases h
    refine ⟨_, rfl, ?_⟩
    split
    · exact .idle rfl rfl fun _ => rfl
    · exact .idle rfl rfl fun _ => rfl
  | purging r found =>
    simp only [hphase] at h
    cases found with
    | nil =>
      cases h
      exact ⟨_, rfl, .idle rfl rfl fun _ => rfl⟩
    | cons sid rest =>
      cases h
      exact ⟨_, rfl, .idle rfl rfl fun _ => rfl⟩
  | sweeping globalMs overrides k found =>
    simp only [hphase] at h
    cases h
    refine ⟨_, rfl, ?_⟩
    split
    · exact .idle rfl rfl fun _ => rfl
    · exact .idle rfl rfl fun _ => rfl
  | evicting victims =>
    simp only [hphase] at h
    cases victims with
    | nil =>
      cases h
      exact ⟨_, rfl, .idle rfl rfl fun _ => rfl⟩
    | cons v rest =>
      dsimp only at h
      split at h
      · cases h
        exact ⟨_, rfl, .idle rfl rfl fun _ => rfl⟩
      · cases h
        exact ⟨_, rfl, .idle rfl rfl fun _ => rfl⟩
  | ending sid =>
    simp only [hphase] at h
    split at h
    · cases h
      exact ⟨_, rfl, .idle rfl rfl fun _ => rfl⟩
    · cases h
      exact ⟨_, rfl, .idle rfl rfl fun _ => rfl⟩
  | done =>
    simp only [hphase] at h
    cases h
  | _ =>
    simp only [hphase] at h
    cases h
    exact ⟨_, rfl, .idle rfl rfl fun _ => rfl⟩

/-! ## Where a row comes from -/

/-- A row after a step stems from one before it, or the call had it in hand. -/
theorem stems_of_advance (hc : s.calls[i]? = some c) (hstep : advance node s i c o = some s')
    {y : Replica ι} (hy : y ∈ s'.replicas) :
    Stems s.replicas y ∨ (∃ x ∈ c.phase.added, x.id = y.id ∧ x.specId = y.specId) ∨
      c.phase = .upserting y := by
  have hinc : ∀ {reg : Registry ι} {id : ι}, y ∈ reg.incSessions id → Stems reg y :=
    Stems.of_mem_update (f := Replica.inc) (fun _ => rfl) (fun _ => rfl) fun _ h => h
  have hdec : ∀ {reg : Registry ι} {id : ι}, y ∈ reg.decSessions id → Stems reg y :=
    Stems.of_mem_update (f := Replica.dec) (fun _ => rfl) (fun _ => rfl) fun _ h => h
  cases advance_effect hc hstep with
  | handOut sid x hp hvisit hhandOut =>
    obtain ⟨-, ⟨-, rfl⟩ | ⟨-, rfl⟩⟩ := handOut_cases hhandOut
    · exact .inl (.of_mem hy)
    · exact .inl (hinc hy)
  | addReplica visit x sid hphase hadd =>
    have hstems : Stems (s.replicas.add x) y := by
      unfold addReplica at hadd
      dsimp only at hadd
      split at hadd
      · obtain ⟨-, ⟨-, rfl⟩ | ⟨-, rfl⟩⟩ := handOut_cases hadd
        · exact .of_mem hy
        · exact hinc hy
      · cases hadd
        exact .of_mem hy
    obtain ⟨z, hz, hid, hspec, hstate⟩ := hstems
    rcases Registry.mem_add.mp hz with hold | rfl
    · exact .inl ⟨z, hold, hid, hspec, hstate⟩
    · exact .inr (.inl ⟨z, by rw [hphase]; rfl, hid, hspec⟩)
  | countIn x hphase => exact .inl (hinc hy)
  | countOut x hphase => exact .inl (hdec hy)
  | upsert x hphase =>
    rcases Registry.mem_add.mp hy with hold | rfl
    · exact .inl (.of_mem (Registry.mem_of_mem_remove hold))
    · exact .inr (.inr hphase)
  | mark x observedAt hphase =>
    refine .inl (Stems.of_mem_update (f := fun x => x.restarting observedAt) (fun _ => rfl)
      (fun _ => rfl) (fun _ h => ?_) hy)
    cases h
  | remove x hphase => exact .inl (.of_mem (Registry.mem_of_mem_remove hy))
  | evict sid x rest hphase hsome => exact .inl (hdec hy)
  | _ => exact .inl (.of_mem hy)

/-! ## A replica no request comes to -/

/-- Only a request that comes to a replica makes its row busier. -/
theorem Unused.advance (h : Unused s r) (hcoherent : Coherent node s)
    (hc : s.calls[i]? = some c) (hstep : advance node s i c o = some s')
    (htarget : target node s c o ≠ some r) (hcomes : c.phase.comesTo r = false)
    (hnew : ∀ x ∈ c.phase.added, x.id ≠ r) : Unused s' r := by
  have hmem := List.mem_of_getElem? hc
  have hknown := hcoherent.known c hmem
  -- a visit of a spec with sessions ends up holding a seat of its target
  have hhand : ∀ {sid x}, c.phase.isVisit = true → handOut node s i c sid x = some s' → x ≠ r ∨
      s'.replicas = s.replicas := by
    intro sid x hvisit hhand
    obtain ⟨-, ⟨-, rfl⟩ | ⟨hapi, rfl⟩⟩ := handOut_cases hhand
    · exact .inr rfl
    · refine .inl fun hx => ?_
      obtain ⟨q, hcalls, hleads⟩ := calls_of_advance hstep
      have hlt : i < s.calls.length := (List.getElem?_eq_some_iff.mp hc).1
      have hq : q = track node c.spec sid x true := by
        have hat : ({ c with phase := q } : Call ι κ) =
            { c with phase := track node c.spec sid x true } := by
          have hset := congrArg (·[i]?) hcalls
          simp only [State.goto, List.getElem?_set_self hlt] at hset
          exact (Option.some.inj hset).symm
        exact congrArg Call.phase hat
      rw [track_of_visit hapi (hcoherent.routed c hmem hvisit)] at hq
      rcases hleads.comes r (by rw [hq]; exact decide_eq_true hx) with hold | hnew
      · rw [hcomes] at hold
        cases hold
      · exact htarget hnew
  cases advance_effect hc hstep with
  | quiet q => exact h
  | handOut sid x hp hvisit hhandOut =>
    rcases hhand hvisit hhandOut with hx | hsame
    · obtain ⟨-, ⟨-, rfl⟩ | ⟨-, rfl⟩⟩ := handOut_cases hhandOut
      · exact h
      · exact h.update rfl (fun heq => absurd heq hx) fun _ => rfl
    · intro y hy
      rw [hsame] at hy
      exact h y hy
  | addReplica visit x sid hphase hadd =>
    have hother := hnew x (by rw [hphase]; rfl)
    have hadded : Unused { s with replicas := s.replicas.add x } r := by
      intro y hy hyr
      rcases Registry.mem_add.mp hy with hold | rfl
      · exact h y hold hyr
      · exact absurd hyr hother
    unfold addReplica at hadd
    dsimp only at hadd
    split at hadd
    · obtain ⟨-, ⟨-, rfl⟩ | ⟨-, rfl⟩⟩ := handOut_cases hadd
      · exact hadded
      · exact hadded.update rfl (fun heq => absurd heq hother) fun _ => rfl
    · cases hadd
      exact hadded
  | register sid x seatReserved hphase => exact h
  | countIn x hphase =>
    refine h.update rfl (fun heq => ?_) fun _ => rfl
    rw [hphase, Phase.comesTo] at hcomes
    exact absurd heq (of_decide_eq_false hcomes)
  | countOut x hphase =>
    exact h.update rfl (fun _ y hy => by rw [Replica.dec_sessionsActive, hy]) fun _ => rfl
  | upsert x hphase =>
    intro y hy hyr
    rw [hphase] at hknown
    rcases Registry.mem_add.mp hy with hold | rfl
    · exact h y (Registry.mem_of_mem_remove hold) hyr
    · exact hknown
  | mark x observedAt hphase => exact h.update rfl (fun _ _ _ => rfl) fun _ => rfl
  | remove x hphase => exact fun y hy => h y (Registry.mem_of_mem_remove hy)
  | collect => exact h
  | collected => exact h
  | purge => exact h
  | purged => exact h
  | evict sid x rest hphase hsome =>
    exact h.update rfl (fun _ y hy => by rw [Replica.dec_sessionsActive, hy]) fun _ => rfl
  | endSession => exact h

/-- Only a request that has come to a replica gives it a session. -/
theorem bound_advance_le (hc : s.calls[i]? = some c) (hstep : advance node s i c o = some s')
    (hcomes : c.phase.comesTo r = false) : bound s'.sessions r ≤ bound s.sessions r := by
  have herase : ∀ sid, bound (s.sessions.erase sid) r ≤ bound s.sessions r := by
    intro sid
    cases hlookup : s.sessions.lookup sid with
    | none => exact (bound_erase_of_none hlookup).le
    | some e => exact (Nat.le_add_right _ _).trans (bound_erase hlookup).le
  cases advance_effect hc hstep with
  | register sid x seatReserved hphase =>
    rw [hphase, Phase.comesTo] at hcomes
    cases hlookup : s.sessions.lookup sid with
    | none =>
      have hsessions : (register s i c sid x seatReserved).sessions =
          s.sessions.insert sid ⟨c.spec, x, s.now⟩ := by
        simp [register, touchOrRegister, hlookup]
      rw [hsessions, bound_insert hlookup, if_neg (of_decide_eq_false hcomes)]
      exact Nat.le_refl _
    | some e =>
      have hsessions : (register s i c sid x seatReserved).sessions =
          s.sessions.update sid fun e => { e with lastSeen := s.now } := by
        simp [register, touchOrRegister, hlookup]
      rw [hsessions]
      exact bound_touch.le
  | handOut sid x hp hvisit hhandOut =>
    obtain ⟨-, ⟨-, rfl⟩ | ⟨-, rfl⟩⟩ := handOut_cases hhandOut
    · exact Nat.le_refl _
    · exact Nat.le_refl _
  | addReplica visit x sid hphase hadd =>
    unfold addReplica at hadd
    dsimp only at hadd
    split at hadd
    · obtain ⟨-, ⟨-, rfl⟩ | ⟨-, rfl⟩⟩ := handOut_cases hadd
      · exact Nat.le_refl _
      · exact Nat.le_refl _
    · cases hadd
      exact Nat.le_refl _
  | purge x sid rest hphase => exact herase sid
  | evict sid x rest hphase hsome => exact herase sid
  | endSession sid e hphase hlookup => exact herase sid
  | _ => exact Nat.le_refl _

end Steps

end Ruscker.Proxy.Calls
