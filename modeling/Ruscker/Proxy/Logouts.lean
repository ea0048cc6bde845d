import Ruscker.Proxy.Seats

/-!
# Stop on logout

A request registers its session in the store and then writes the session's id to the user's
entry of the logout index.  A logout takes that entry and ends its sessions one by one.  All
requests and logouts here are those of one user.
-/

namespace Ruscker.Proxy.Logouts

open Tables Machines Machines.Machine Calls

variable {ι κ : Type*}

inductive LogoutPhase (ι κ : Type*) where
  | validating
  | taking
  -- `end_session` for what is left of the entry: out of the store, then out of the count
  | ending (todo : List κ)
  | releasing (r : ι) (todo : List κ)
  -- `admin_sessions.remove`
  | removing
  | done

namespace LogoutPhase

/-- The logout has taken the entry of the user. -/
def hasTaken : LogoutPhase ι κ → Bool
  | .validating | .taking => false
  | _ => true

def isTaking : LogoutPhase ι κ → Bool
  | .taking => true
  | _ => false

def todo : LogoutPhase ι κ → List κ
  | .ending todo | .releasing _ todo => todo
  | _ => []

end LogoutPhase

structure Logout (ι κ : Type*) where
  -- the calls that began before it
  since : Nat
  phase : LogoutPhase ι κ

/-- The node; the user's entry of the index, which is never an empty set; the calls that have
registered a session and not indexed it; who registered a session; the logouts. -/
structure State (ι κ : Type*) where
  base : Calls.State ι κ
  index : List κ
  unindexed : List (Nat × κ)
  registrar : κ → Option Nat
  logouts : List (Logout ι κ)

def boot (rows : Registry ι) : State ι κ := ⟨Calls.boot rows, [], [], fun _ => none, []⟩

inductive Event (ι κ : Type*) where
  | call (e : Calls.Event ι κ)
  | index (i : Nat) (sid : κ)
  | logout
  -- with the session an `ending` logout comes to next
  | proceed (k : Nat) (sid : κ)

section Steps

variable [Floats] [DecidableEq ι] [DecidableEq κ] (node : Node κ)

/-- The session and the spec of a call that is about to register, not only touch, its session. -/
def registration (s : Calls.State ι κ) (i : Nat) : Option (κ × Str) :=
  (s.calls[i]?).bind fun c =>
    match c.phase with
    | .holding sid _ _ => if (s.sessions.lookup sid).isNone then some (sid, c.spec) else none
    | _ => none

def stops (spec : Str) : Bool := (node.settings spec).effectiveStopOnLogout

/-- What becomes of a call with its step. -/
def recordCall (s : State ι κ) (base : Calls.State ι κ) : Calls.Event ι κ → State ι κ
  | .advance i _ =>
    match registration s.base i with
    | some (sid, spec) =>
      { s with
        base
        registrar := Function.update s.registrar sid (some i)
        unindexed := if stops node spec then (i, sid) :: s.unindexed else s.unindexed }
    | none => { s with base }
  -- a request that is dropped at the write lock of its count never gets to the index
  | .drop i => { s with base, unindexed := s.unindexed.filter fun u => u.1 ≠ i }
  | _ => { s with base }

def State.to (s : State ι κ) (k : Nat) (l : Logout ι κ) (p : LogoutPhase ι κ) : State ι κ :=
  { s with logouts := s.logouts.set k { l with phase := p } }

/-- One step of a logout. -/
def proceed (s : State ι κ) (k : Nat) (l : Logout ι κ) (sid : κ) : Option (State ι κ) :=
  match l.phase with
  | .validating => some (s.to k l .taking)
  | .taking => some { s.to k l (.ending s.index) with index := [] }
  | .ending [] => some (s.to k l .removing)
  | .ending todo =>
    let rest := todo.filter fun other => other ≠ sid
    if sid ∈ todo then
      match s.base.sessions.lookup sid with
      | some e => some { s.to k l (.releasing e.replicaId rest) with
          base := { s.base with sessions := s.base.sessions.erase sid } }
      | none => some (s.to k l (.ending rest))
    else none
  | .releasing r todo => some { s.to k l (.ending todo) with
      base := { s.base with replicas := s.base.replicas.decSessions r } }
  | .removing => some (s.to k l .done)
  | .done => none

/-- The call has only its entry in the index to make. -/
def hasRegistered (s : Calls.State ι κ) (i : Nat) : Bool :=
  (s.calls[i]?).any fun c => match c.phase with
    | .done => true
    | _ => false

def machine : Machine (State ι κ) (Event ι κ) where
  step s
    | .call e => ((Calls.machine node).step s.base e).map fun base => recordCall node s base e
    | .index i sid =>
      if (i, sid) ∈ s.unindexed && hasRegistered s.base i then
        some { s with
          index := if sid ∈ s.index then s.index else sid :: s.index
          unindexed := s.unindexed.filter fun u => u ≠ (i, sid) }
      else none
    | .logout => some { s with logouts := s.logouts ++ [⟨s.base.calls.length, .validating⟩] }
    | .proceed k sid => (s.logouts[k]?).bind fun l => proceed s k l sid

/-- A request registers its session, and indexes it, before any logout that began after it takes
the entry; a logout takes the entry while no other one is still ending sessions; and no request
is dropped between the store and the index. -/
def Orderly (s : State ι κ) : Event ι κ → Prop
  | .call (.advance i _) => ∀ reg ∈ registration s.base i, stops node reg.2 = true →
      ∀ l ∈ s.logouts, l.phase.hasTaken = true → l.since ≤ i
  | .call (.drop i) => ∀ u ∈ s.unindexed, u.1 ≠ i
  | .proceed k _ => ∀ l ∈ s.logouts[k]?, l.phase.isTaking = true →
      (∀ u ∈ s.unindexed, l.since ≤ u.1) ∧ ∀ other ∈ s.logouts, other.phase.todo = []
  | _ => True

instance (s : State ι κ) (e : Event ι κ) : Decidable (Orderly node s e) :=
  match e with
  | .call (.advance i _) => inferInstanceAs (Decidable (∀ reg ∈ registration s.base i,
      stops node reg.2 = true → ∀ l ∈ s.logouts, l.phase.hasTaken = true → l.since ≤ i))
  | .call (.drop i) => inferInstanceAs (Decidable (∀ u ∈ s.unindexed, u.1 ≠ i))
  | .proceed k _ => inferInstanceAs (Decidable (∀ l ∈ s.logouts[k]?, l.phase.isTaking = true →
      (∀ u ∈ s.unindexed, l.since ≤ u.1) ∧ ∀ other ∈ s.logouts, other.phase.todo = []))
  | .call (.start _ _) | .call (.tick _) | .index _ _ | .logout => isTrue trivial

end Steps

/-! ## Where the user's sessions are known -/

section Invariant

variable [Floats] [DecidableEq κ]

/-- Call `i` registered a session of the store on a spec that stops on logout. -/
def Registered (node : Node κ) (s : State ι κ) (sid : κ) (i : Nat) : Prop :=
  s.registrar sid = some i ∧
    ∃ e, s.base.sessions.lookup sid = some e ∧ stops node e.specId = true

/-- Every such session is in the index, on its way there, or in the hands of a logout; and those
of requests before a logout are in its own hands, once it has taken the entry. -/
structure Known (node : Node κ) (s : State ι κ) : Prop where
  somewhere : ∀ sid i, Registered node s sid i →
    sid ∈ s.index ∨ (i, sid) ∈ s.unindexed ∨ ∃ l ∈ s.logouts, sid ∈ l.phase.todo
  taken : ∀ l ∈ s.logouts, l.phase.hasTaken = true →
    ∀ sid i, Registered node s sid i → i < l.since → sid ∈ l.phase.todo

variable {node : Node κ} {s s' : State ι κ} {i k : Nat} {sid : κ} {l : Logout ι κ}

/-- Only a registration or a touch adds to the store. -/
theorem sessions_of_effect [DecidableEq ι] {b b' : Calls.State ι κ} {c : Call ι κ}
    (h : Effect node b i c b') :
    (∃ sid r seatReserved, c.phase = .holding sid r seatReserved ∧
      b' = register b i c sid r seatReserved) ∨
    ∀ sid e, b'.sessions.lookup sid = some e → b.sessions.lookup sid = some e := by
  have herase : ∀ victim sid (e : SessionEntry ι),
      (b.sessions.erase victim).lookup sid = some e → b.sessions.lookup sid = some e := by
    intro victim sid e he
    rw [Table.lookup_erase_eq] at he
    split at he
    · cases he
    · exact he
  cases h with
  | register sid r seatReserved hphase => exact .inl ⟨sid, r, seatReserved, hphase, rfl⟩
  | handOut sid r hp hvisit hstep =>
    obtain ⟨-, ⟨-, rfl⟩ | ⟨-, rfl⟩⟩ := handOut_cases hstep
    · exact .inr fun _ _ he => he
    · exact .inr fun _ _ he => he
  | addReplica visit x sid hphase hstep =>
    unfold addReplica at hstep
    dsimp only at hstep
    split at hstep
    · obtain ⟨-, ⟨-, rfl⟩ | ⟨-, rfl⟩⟩ := handOut_cases hstep
      · exact .inr fun _ _ he => he
      · exact .inr fun _ _ he => he
    · cases hstep
      exact .inr fun _ _ he => he
  | purge r sid rest hphase => exact .inr (herase sid)
  | evict sid r rest hphase hsome => exact .inr (herase sid)
  | endSession sid e hphase hlookup => exact .inr (herase sid)
  | _ => exact .inr fun _ _ he => he

/-- The store after a call's step: it registers its session, or no session is new. -/
theorem sessions_of_advance [DecidableEq ι] {b b' : Calls.State ι κ} {o : Outside ι κ}
    {c : Call ι κ} (hc : b.calls[i]? = some c) (hstep : Calls.advance node b i c o = some b') :
    (∃ sid e, registration b i = some (sid, c.spec) ∧ e.specId = c.spec ∧
      b'.sessions = b.sessions.insert sid e) ∨
    (registration b i = none ∧ ∀ sid e, b'.sessions.lookup sid = some e →
      ∃ e', b.sessions.lookup sid = some e' ∧ e'.specId = e.specId) := by
  cases hphase : c.phase with
  | holding sid r seatReserved =>
    simp only [Calls.advance, hphase] at hstep
    cases hstep
    cases hlookup : b.sessions.lookup sid with
    | none =>
      refine .inl ⟨sid, ⟨c.spec, r, b.now⟩, ?_, rfl, ?_⟩
      · simp [registration, hc, hphase, hlookup]
      · simp [register, touchOrRegister, hlookup]
    | some old =>
      refine .inr ⟨by simp [registration, hc, hphase, hlookup], fun sid' e he => ?_⟩
      have hsessions : (register b i c sid r seatReserved).sessions =
          b.sessions.update sid fun e => { e with lastSeen := b.now } := by
        simp [register, touchOrRegister, hlookup]
      rw [hsessions, Table.lookup_update] at he
      split at he
      · next heq =>
        subst heq
        obtain ⟨e', he', rfl⟩ := Option.map_eq_some_iff.mp he
        exact ⟨e', he', rfl⟩
      · exact ⟨e, he, rfl⟩
  | _ =>
    refine .inr ⟨by simp [registration, hc, hphase], fun sid e he => ⟨e, ?_, rfl⟩⟩
    rcases sessions_of_effect (advance_effect hc hstep) with ⟨_, _, _, hholding, -⟩ | hold
    · rw [hphase] at hholding
      cases hholding
    · exact hold sid e he

namespace Known

variable (h : Known node s)
include h

/-- The store only loses sessions, and what is known of them stays. -/
theorem shrink (hregistrar : s'.registrar = s.registrar)
    (hsessions : ∀ sid e, s'.base.sessions.lookup sid = some e →
      ∃ e', s.base.sessions.lookup sid = some e' ∧ e'.specId = e.specId)
    (hindex : s'.index = s.index) (hunindexed : s'.unindexed = s.unindexed)
    (hlogouts : s'.logouts = s.logouts) : Known node s' := by
  have hold : ∀ sid i, Registered node s' sid i → Registered node s sid i := by
    rintro sid i ⟨hi, e, he, hstops⟩
    obtain ⟨e', he', hspec⟩ := hsessions sid e he
    exact ⟨hregistrar ▸ hi, e', he', hspec ▸ hstops⟩
  refine ⟨fun sid i hreg => ?_, ?_⟩
  · rw [hindex, hunindexed, hlogouts]
    exact h.somewhere sid i (hold sid i hreg)
  · rw [hlogouts]
    exact fun l hl htaken sid i hreg => h.taken l hl htaken sid i (hold sid i hreg)

/-- A request registers its session while no logout that counts it has taken the entry. -/
theorem register {b : Calls.State ι κ} {spec : Str} {e : SessionEntry ι} (hspec : e.specId = spec)
    (hsessions : b.sessions = s.base.sessions.insert sid e)
    (hearly : stops node spec = true → ∀ l ∈ s.logouts, l.phase.hasTaken = true → l.since ≤ i) :
    Known node { s with
      base := b
      registrar := Function.update s.registrar sid (some i)
      unindexed := if stops node spec then (i, sid) :: s.unindexed else s.unindexed } := by
  have hcases : ∀ sid' j, Registered node { s with
      base := b
      registrar := Function.update s.registrar sid (some i)
      unindexed := if stops node spec then (i, sid) :: s.unindexed else s.unindexed } sid' j →
      (sid' = sid ∧ j = i ∧ stops node spec = true) ∨ Registered node s sid' j := by
    rintro sid' j ⟨hj, e', he', hstops⟩
    dsimp only at hj he'
    rw [hsessions, Table.lookup_insert_eq] at he'
    by_cases heq : sid' = sid
    · subst heq
      rw [Function.update_self] at hj
      rw [if_pos rfl] at he'
      cases he'
      exact .inl ⟨rfl, (Option.some.inj hj).symm, hspec ▸ hstops⟩
    · rw [Function.update_of_ne heq] at hj
      rw [if_neg heq] at he'
      exact .inr ⟨hj, e', he', hstops⟩
  refine ⟨fun sid' j hreg => ?_, fun l hl htaken sid' j hreg hj => ?_⟩
  · rcases hcases sid' j hreg with ⟨rfl, rfl, hstops⟩ | hreg
    · refine .inr (.inl ?_)
      dsimp only
      rw [if_pos hstops]
      exact List.mem_cons_self
    · rcases h.somewhere sid' j hreg with hindex | hunindexed | htodo
      · exact .inl hindex
      · refine .inr (.inl ?_)
        dsimp only
        split
        · exact List.mem_cons_of_mem _ hunindexed
        · exact hunindexed
      · exact .inr (.inr htodo)
  · rcases hcases sid' j hreg with ⟨rfl, rfl, hstops⟩ | hreg
    · exact absurd (hearly hstops l hl htaken) (Nat.not_le.mpr hj)
    · exact h.taken l hl htaken sid' j hreg hj

/-- The entry in the index is made. -/
theorem enter : Known node { s with
    index := if sid ∈ s.index then s.index else sid :: s.index
    unindexed := s.unindexed.filter fun u => u ≠ (i, sid) } := by
  refine ⟨fun sid' j hreg => ?_, h.taken⟩
  dsimp only
  by_cases heq : sid' = sid
  · refine .inl ?_
    subst heq
    split
    · next hmem => exact hmem
    · exact List.mem_cons_self
  · rcases h.somewhere sid' j hreg with hindex | hunindexed | htodo
    · refine .inl ?_
      split
      · exact hindex
      · exact List.mem_cons_of_mem _ hindex
    · refine .inr (.inl (List.mem_filter.mpr ⟨hunindexed, decide_eq_true ?_⟩))
      exact fun hpair => heq (Prod.ext_iff.mp hpair).2
    · exact .inr (.inr htodo)

/-- A logout that is under way keeps what it has to end, as far as that is still in the store. -/
theorem move {p : LogoutPhase ι κ} (hl : s.logouts[k]? = some l)
    (hlogouts : s'.logouts = s.logouts.set k { l with phase := p })
    (hreg : ∀ sid i, Registered node s' sid i → Registered node s sid i)
    (hindex : s'.index = s.index) (hunindexed : s'.unindexed = s.unindexed)
    (htaken : p.hasTaken = l.phase.hasTaken)
    (htodo : ∀ sid i, Registered node s' sid i → sid ∈ l.phase.todo → sid ∈ p.todo) :
    Known node s' := by
  have hlt : k < s.logouts.length := (List.getElem?_eq_some_iff.mp hl).1
  refine ⟨fun sid i hs' => ?_, ?_⟩
  · rw [hindex, hunindexed, hlogouts]
    rcases h.somewhere sid i (hreg sid i hs') with hmem | hmem | ⟨other, hother, hmem⟩
    · exact .inl hmem
    · exact .inr (.inl hmem)
    · refine .inr (.inr ?_)
      by_cases heq : other = l
      · exact ⟨_, List.mem_set hlt _, htodo sid i hs' (heq ▸ hmem)⟩
      · exact ⟨other, mem_set_of_ne hl hother heq, hmem⟩
  · rw [hlogouts]
    refine forall_mem_set (fun other hother htaken sid i hs' => ?_) fun hp sid i hs' hi => ?_
    · exact h.taken other hother htaken sid i (hreg sid i hs')
    · have hmem := h.taken l (List.mem_of_getElem? hl) (htaken ▸ hp) sid i (hreg sid i hs') hi
      exact htodo sid i hs' hmem

/-- A logout takes the entry while the requests before it have indexed their sessions, and no
other logout has some to end. -/
theorem take (hl : s.logouts[k]? = some l)
    (hunindexed : ∀ u ∈ s.unindexed, l.since ≤ u.1)
    (hothers : ∀ other ∈ s.logouts, other.phase.todo = []) :
    Known node { s.to k l (.ending s.index) with index := [] } := by
  have hlt : k < s.logouts.length := (List.getElem?_eq_some_iff.mp hl).1
  refine ⟨fun sid i hreg => ?_, ?_⟩
  · rcases h.somewhere sid i hreg with hmem | hmem | ⟨other, hother, hmem⟩
    · exact .inr (.inr ⟨_, List.mem_set hlt _, hmem⟩)
    · exact .inr (.inl hmem)
    · rw [hothers other hother] at hmem
      cases hmem
  · refine forall_mem_set h.taken fun _ sid i hreg hi => ?_
    rcases h.somewhere sid i hreg with hmem | hmem | ⟨other, hother, hmem⟩
    · exact hmem
    · exact absurd (hunindexed _ hmem) (Nat.not_le.mpr hi)
    · rw [hothers other hother] at hmem
      cases hmem

theorem start (since : Nat) :
    Known node { s with logouts := s.logouts ++ [⟨since, .validating⟩] } := by
  refine ⟨fun sid i hreg => ?_, forall_mem_concat h.taken fun hp => by cases hp⟩
  rcases h.somewhere sid i hreg with hmem | hmem | ⟨other, hother, hmem⟩
  · exact .inl hmem
  · exact .inr (.inl hmem)
  · exact .inr (.inr ⟨other, List.mem_append_left _ hother, hmem⟩)

/-- One step of a logout. -/
theorem proceed [DecidableEq ι] (hl : s.logouts[k]? = some l)
    (hok : l.phase.isTaking = true →
      (∀ u ∈ s.unindexed, l.since ≤ u.1) ∧ ∀ other ∈ s.logouts, other.phase.todo = [])
    (hstep : Logouts.proceed s k l sid = some s') : Known node s' := by
  unfold Logouts.proceed at hstep
  split at hstep
  · next hphase =>
    cases hstep
    exact h.move hl rfl (fun _ _ hreg => hreg) rfl rfl (by rw [hphase]; rfl)
      fun _ _ _ hmem => by rw [hphase] at hmem; exact hmem
  · next hphase =>
    cases hstep
    obtain ⟨hunindexed, hothers⟩ := hok (by rw [hphase]; rfl)
    exact h.take hl hunindexed hothers
  · next hphase =>
    cases hstep
    exact h.move hl rfl (fun _ _ hreg => hreg) rfl rfl (by rw [hphase]; rfl)
      fun _ _ _ hmem => by rw [hphase] at hmem; exact hmem
  · next todo _ hphase =>
    dsimp only at hstep
    split at hstep
    · split at hstep
      · next e hlookup =>
        cases hstep
        -- the session it ends is out of the store
        have hlookups : ∀ sid' e', (s.base.sessions.erase sid).lookup sid' = some e' →
            sid' ≠ sid ∧ s.base.sessions.lookup sid' = some e' := by
          intro sid' e' he'
          rw [Table.lookup_erase_eq] at he'
          split at he'
          · cases he'
          · next hne => exact ⟨hne, he'⟩
        refine h.move hl rfl ?_ rfl rfl (by rw [hphase]; rfl) ?_
        · rintro sid' i ⟨hi, e', he', hstops⟩
          exact ⟨hi, e', (hlookups sid' e' he').2, hstops⟩
        · rintro sid' i ⟨-, e', he', -⟩ hmem
          rw [hphase] at hmem
          exact List.mem_filter.mpr ⟨hmem, decide_eq_true (hlookups sid' e' he').1⟩
      · next hlookup =>
        cases hstep
        refine h.move hl rfl (fun _ _ hreg => hreg) rfl rfl (by rw [hphase]; rfl) ?_
        rintro sid' i ⟨-, e', he', -⟩ hmem
        rw [hphase] at hmem
        refine List.mem_filter.mpr ⟨hmem, decide_eq_true ?_⟩
        rintro rfl
        exact absurd (hlookup.symm.trans he') nofun
    · cases hstep
  · next hphase =>
    cases hstep
    exact h.move hl rfl (fun _ _ hreg => hreg) rfl rfl (by rw [hphase]; rfl)
      fun _ _ _ hmem => by rw [hphase] at hmem; exact hmem
  · next hphase =>
    cases hstep
    exact h.move hl rfl (fun _ _ hreg => hreg) rfl rfl (by rw [hphase]; rfl)
      fun _ _ _ hmem => by rw [hphase] at hmem; exact hmem
  · cases hstep

/-- **Step lemma.** -/
theorem step [DecidableEq ι] {e : Event ι κ} (hok : Orderly node s e)
    (hstep : (machine node).step s e = some s') : Known node s' := by
  cases e with
  | call e =>
    obtain ⟨b, hb, hstep⟩ := Option.map_eq_some_iff.mp hstep
    cases e with
    | start spec p =>
      cases hstep
      have hsessions : b.sessions = s.base.sessions := by
        simp only [Calls.machine] at hb
        split at hb
        · cases hb
          rfl
        · cases hb
      exact h.shrink rfl (fun _ e he => ⟨e, hsessions ▸ he, rfl⟩) rfl rfl rfl
    | advance i o =>
      obtain ⟨c, hc, hb⟩ := Option.bind_eq_some_iff.mp hb
      rcases sessions_of_advance hc hb with ⟨sid, e, hreg, hspec, hsessions⟩ | ⟨hnone, hkeep⟩
      · simp only [recordCall, hreg] at hstep
        cases hstep
        exact h.register hspec hsessions (hok _ hreg)
      · simp only [recordCall, hnone] at hstep
        cases hstep
        exact h.shrink rfl hkeep rfl rfl rfl
    | drop i =>
      cases hstep
      have hsessions : b.sessions = s.base.sessions := by
        obtain ⟨c, hc, hb⟩ := Option.bind_eq_some_iff.mp hb
        split at hb
        · cases hb
          rfl
        · cases hb
      refine h.shrink rfl (fun _ e he => ⟨e, hsessions ▸ he, rfl⟩) rfl ?_ rfl
      exact List.filter_eq_self.mpr fun u hu => decide_eq_true (hok u hu)
    | tick ms =>
      cases hstep
      cases hb
      exact h.shrink rfl (fun _ e he => ⟨e, he, rfl⟩) rfl rfl rfl
  | index i sid =>
    simp only [machine] at hstep
    split at hstep
    · cases hstep
      exact h.enter
    · cases hstep
  | logout =>
    cases hstep
    exact h.start _
  | proceed k sid =>
    obtain ⟨l, hl, hstep⟩ := Option.bind_eq_some_iff.mp hstep
    exact h.proceed hl (hok l hl) hstep

end Known

/-- **Logging out.** Once a logout is over, no session that a request before it registered on a
spec that stops on logout is in the store. -/
theorem none_left [DecidableEq ι] {rows : Registry ι} {es : List (Event ι κ)}
    (hrun : (machine node).Run (Orderly node) (boot rows) es s) (hl : l ∈ s.logouts)
    (hdone : l.phase = .done) : ∀ sid i, i < l.since → ¬ Registered node s sid i := by
  have hstart : Known node (boot rows : State ι κ) := by
    refine ⟨fun sid i hreg => ?_, fun l hl => by cases hl⟩
    obtain ⟨hnone, -⟩ := hreg
    cases hnone
  have hknown := hrun.invariant hstart fun _ _ _ hI hok hstep => hI.step hok hstep
  intro sid i hi hreg
  have hmem := hknown.taken l hl (by rw [hdone]; rfl) sid i hreg hi
  rw [hdone] at hmem
  cases hmem

end Invariant

/-! ## One visit and one logout -/

section Example

attribute [local instance] wholeFloats

def exitNode : Node Nat :=
  { labNode with settings := fun spec => { labNode.settings spec with stopOnLogout := some true } }

def visits : List (Event Nat Nat) :=
  [.call (.start labId .fast), .call (.advance 0 (labOutside 7 none))]

def registers : List (Event Nat Nat) := [.call (.advance 0 (labOutside 7 none)), .index 0 7]

/-- A logout with a number of sessions to end, each in two steps. -/
def logsOut (sessions : Nat) : List (Event Nat Nat) :=
  .logout :: List.replicate (4 + 2 * sessions) (.proceed 0 7)

theorem none_left_afterVisit : ∃ s : State Nat Nat,
    (machine exitNode).exec (boot [labReplica 0]) (visits ++ registers ++ logsOut 1) = some s ∧
      ∃ l ∈ s.logouts, l.phase = .done ∧ l.since = 1 ∧
        ∀ sid i, i < l.since → ¬ Registered exitNode s sid i := by
  have hsome : ((machine exitNode).execIf (Orderly exitNode)
      (boot [labReplica 0]) (visits ++ registers ++ logsOut 1)).isSome = true := by decide
  exact ⟨_, rfl, _, List.mem_cons_self, rfl, rfl,
    none_left (run_execIf hsome) List.mem_cons_self rfl⟩

/-- The visit gets its seat before the logout, and registers after it. -/
theorem visitAcrossLogout_left : ∃ s : State Nat Nat,
    (machine exitNode).exec (boot [labReplica 0]) (visits ++ logsOut 0 ++ registers) = some s ∧
      (∃ l ∈ s.logouts, l.phase = .done ∧ l.since = 1) ∧
      s.base.calls = [⟨labId, .done⟩] ∧ s.unindexed = [] ∧ Registered exitNode s 7 0 :=
  ⟨_, rfl, ⟨_, List.mem_cons_self, rfl, rfl⟩, rfl, rfl, rfl, _, rfl, rfl⟩

end Example

end Ruscker.Proxy.Logouts
