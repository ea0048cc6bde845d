import Ruscker.Proxy.Sweeps

/-!
# What happens during a sweep

A sweep of the store of one process goes over the shards, waits for the registry lock and then
removes the sessions that it has met, by their ids.  A session that comes back in between is
touched in the store, and removed all the same.
-/

namespace Ruscker.Proxy.SweepWindow

open Tables Calls Machines Machines.Machine Sweeps

variable {ι κ : Type*}

/-! ## One sweep among requests -/

/-- Where the sweep is.  It holds the registry lock while it evicts. -/
inductive Stage (ι κ : Type*) where
  | waiting
  | collecting (startedAt shard : Nat) (found : List (κ × ι))
  | evicting (startedAt : Nat) (left : List (κ × ι))
  | finished

/-- The sessions that are to be removed. -/
def Stage.victims : Stage ι κ → List (κ × ι)
  | .collecting _ _ found => found
  | .evicting _ left => left
  | _ => []

/-- What was removed and when, and whether it was touched since the sweep began. -/
structure Removal (ι κ : Type*) where
  session : κ
  entry : SessionEntry ι
  time : Nat
  touched : Bool

/-- `counting` are the replicas of registrations that have yet to count their seat. -/
structure State (ι κ : Type*) where
  replicas : Registry ι
  sessions : SessionStore ι κ
  now : Nat
  counting : List ι
  stage : Stage ι κ
  touched : List κ
  removals : List (Removal ι κ)

/-- The store in any state, before the sweep. -/
def idle (replicas : Registry ι) (sessions : SessionStore ι κ) (now : Nat) (counting : List ι) :
    State ι κ := ⟨replicas, sessions, now, counting, .waiting, [], []⟩

/-- A shard is met in some order. -/
inductive Event (ι κ : Type*) where
  | tick (nanos : Nat)
  | touchOrRegister (sid : κ) (spec : Str) (r : ι) (seatReserved : Bool)
  | incSessions (i : Nat)
  | start
  | collect (met : List (κ × ι))
  | lock
  | remove

section Steps

variable [Floats] [DecidableEq ι] [DecidableEq κ] (node : Node κ) (globalMs : Int)
  (overrides : Overrides)

/-- The registry lock is free, or the sweep has it. -/
def count (s : State ι κ) (i : Nat) : Option (State ι κ) :=
  match s.stage with
  | .evicting _ _ => none
  | _ => (s.counting[i]?).map fun r =>
    { s with replicas := s.replicas.incSessions r, counting := s.counting.eraseIdx i }

def touch (s : State ι κ) (sid : κ) (spec : Str) (r : ι) (seatReserved : Bool) : State ι κ :=
  let (sessions, registered) := Calls.touchOrRegister s.sessions sid spec r s.now
  { s with
    sessions
    counting := if registered && !seatReserved then r :: s.counting else s.counting
    touched := sid :: s.touched }

/-- The sweep goes on to the next shard, which it looks at as it is then. -/
def collect (s : State ι κ) (met : List (κ × ι)) : Option (State ι κ) :=
  match s.stage with
  | .collecting t k found =>
    if k < node.shards ∧
        met.Perm (inShard node s.sessions k (expired globalMs overrides t)) then
      some { s with stage := .collecting t (k + 1) (found ++ met) }
    else none
  | _ => none

def lock (s : State ι κ) : Option (State ι κ) :=
  match s.stage with
  | .collecting t k found =>
    if k < node.shards then none
    else some { s with stage := if found.isEmpty then .finished else .evicting t found }
  | _ => none

def remove (s : State ι κ) : Option (State ι κ) :=
  match s.stage with
  | .evicting _ [] => some { s with stage := .finished }
  | .evicting t (v :: left) =>
    let swept := evict ⟨s.replicas, s.sessions⟩ v
    some { s with
      replicas := swept.replicas
      sessions := swept.sessions
      stage := .evicting t left
      removals := (s.sessions.lookup v.1).elim s.removals fun e =>
        ⟨v.1, e, s.now, decide (v.1 ∈ s.touched)⟩ :: s.removals }
  | _ => none

def machine : Machine (State ι κ) (Event ι κ) where
  step s
    | .tick nanos => some { s with now := s.now + nanos }
    | .touchOrRegister sid spec r seatReserved => some (touch s sid spec r seatReserved)
    | .incSessions i => count s i
    | .start => match s.stage with
      | .waiting => some { s with stage := .collecting s.now 0 [], touched := [] }
      | _ => none
    | .collect met => collect node globalMs overrides s met
    | .lock => lock node s
    | .remove => remove s

/-! ## What is removed rightly -/

/-- Not touched since the sweep began, and idle for too long when it goes. -/
def Removal.Right (x : Removal ι κ) : Prop :=
  x.touched = false ∧ expired globalMs overrides x.time x.entry = true

/-- Nobody comes back to a session between its collection and its removal. -/
def Undisturbed (s : State ι κ) : Event ι κ → Prop
  | .touchOrRegister sid _ _ _ => sid ∉ s.stage.victims.map Prod.fst
  | _ => True

instance (s : State ι κ) : DecidablePred (Undisturbed s)
  | .touchOrRegister sid _ _ _ =>
    inferInstanceAs (Decidable (sid ∉ s.stage.victims.map Prod.fst))
  | .tick _ | .incSessions _ | .start | .collect _ | .lock | .remove => .isTrue trivial

/-- What has been removed was removed rightly, and so will be what is to be removed. -/
structure Sound (s : State ι κ) : Prop where
  victims : ∀ v ∈ s.stage.victims, v.1 ∉ s.touched
  removals : ∀ x ∈ s.removals, x.Right globalMs overrides

/-- A sweep since `t` knows its victims: each is in the store, touched or idle for too long. -/
structure Tracked (s : State ι κ) (t : Nat) (victims : List (κ × ι)) : Prop where
  started : t ≤ s.now
  fresh : ∀ sid ∈ s.touched, ∀ e, s.sessions.lookup sid = some e → t ≤ e.lastSeen
  nodup : (victims.map Prod.fst).Nodup
  kept : ∀ v ∈ victims, ∃ e, s.sessions.lookup v.1 = some e ∧
    (v.1 ∈ s.touched ∨ expired globalMs overrides t e = true)

def WellFormed (s : State ι κ) : Prop :=
  match s.stage with
  | .collecting t k found =>
    Tracked globalMs overrides s t found ∧ ∀ v ∈ found, (node.shardOf v.1 : Nat) < k
  | .evicting t left => Tracked globalMs overrides s t left
  | _ => True

end Steps

/-! ## What a shard holds -/

section Shards

variable [Floats] {node : Node κ} {k : Nat} {v : κ × ι} {st : SessionStore ι κ}
  {p : SessionEntry ι → Bool}

theorem map_fst_inShard : ((inShard node st k p).map Prod.fst).Nodup := by
  have hkeys : (inShard node st k p).map Prod.fst = (st.entries.filter fun e =>
      decide ((node.shardOf e.1 : Nat) = k) && p e.2).keys := by
    rw [inShard, List.map_map]
    rfl
  rw [hkeys]
  exact st.nodupKeys.sublist List.filter_sublist

theorem mem_inShard [DecidableEq κ] :
    v ∈ inShard node st k p ↔ (node.shardOf v.1 : Nat) = k ∧
      ∃ e, st.lookup v.1 = some e ∧ p e = true ∧ e.replicaId = v.2 := by
  rw [inShard, List.mem_map]
  constructor
  · rintro ⟨⟨sid, e⟩, hmem, rfl⟩
    obtain ⟨he, hshard⟩ := List.mem_filter.mp hmem
    rw [Bool.and_eq_true, decide_eq_true_eq] at hshard
    exact ⟨hshard.1, e, Table.mem_entries_iff.mp he, hshard.2, rfl⟩
  · rintro ⟨hshard, e, he, hp, hr⟩
    refine ⟨⟨v.1, e⟩, List.mem_filter.mpr ⟨Table.mem_entries_iff.mpr he, ?_⟩, by rw [hr]⟩
    rw [hp, Bool.and_true]
    exact decide_eq_true hshard

end Shards

/-! ## What each step does to the victims -/

section Victims

variable [DecidableEq κ] {globalMs : Int} {overrides : Overrides} {s s' : State ι κ} {t k : Nat}
  {v : κ × ι} {found left met : List (κ × ι)} {sid : κ} {spec : Str} {r : ι} {seatReserved : Bool}

/-- What is idle for too long stays so while nobody comes. -/
theorem expired_mono {now : Nat} {e : SessionEntry ι} (hnow : t ≤ now)
    (h : expired globalMs overrides t e = true) : expired globalMs overrides now e = true := by
  rw [expired_iff] at h ⊢
  omega

theorem lookup_touch_self : ∃ e, (touch s sid spec r seatReserved).sessions.lookup sid = some e ∧
    e.lastSeen = s.now := by
  unfold touch Calls.touchOrRegister
  cases hlookup : s.sessions.lookup sid with
  | some e =>
    refine ⟨{ e with lastSeen := s.now }, ?_, rfl⟩
    exact (Table.lookup_update_of_lookup hlookup sid _).trans (if_pos rfl)
  | none => exact ⟨⟨spec, r, s.now⟩, AList.lookup_insert s.sessions, rfl⟩

theorem lookup_touch_of_ne {sid' : κ} (hne : sid' ≠ sid) :
    (touch s sid spec r seatReserved).sessions.lookup sid' = s.sessions.lookup sid' := by
  unfold touch Calls.touchOrRegister
  cases hlookup : s.sessions.lookup sid with
  | some e => exact (Table.lookup_update_of_lookup hlookup sid' _).trans (if_neg hne)
  | none => exact AList.lookup_insert_ne hne

namespace Tracked

variable (h : Tracked globalMs overrides s t found)
include h

/-- A step that leaves the store and what was touched. -/
theorem frame (hnow : s.now ≤ s'.now) (hsessions : s'.sessions = s.sessions)
    (htouched : s'.touched = s.touched) : Tracked globalMs overrides s' t found := by
  refine ⟨h.started.trans hnow, ?_, h.nodup, ?_⟩
  · rw [hsessions, htouched]
    exact h.fresh
  · rw [hsessions, htouched]
    exact h.kept

theorem touch : Tracked globalMs overrides (touch s sid spec r seatReserved) t found := by
  have hself : ∃ e, (SweepWindow.touch s sid spec r seatReserved).sessions.lookup sid = some e ∧
      e.lastSeen = s.now := lookup_touch_self
  obtain ⟨e, he, hseen⟩ := hself
  refine ⟨h.started, ?_, h.nodup, ?_⟩
  · intro sid' hsid' e' he'
    by_cases hne : sid' = sid
    · subst hne
      obtain rfl := Option.some.inj (he.symm.trans he')
      rw [hseen]
      exact h.started
    · rw [lookup_touch_of_ne hne] at he'
      exact h.fresh sid' ((List.mem_cons.mp hsid').resolve_left hne) e' he'
  · intro v hv
    by_cases hne : v.1 = sid
    · exact ⟨e, hne ▸ he, .inl (hne ▸ List.mem_cons_self)⟩
    · obtain ⟨e', he', hwhy⟩ := h.kept v hv
      refine ⟨e', (lookup_touch_of_ne hne).trans he', ?_⟩
      exact hwhy.imp_left (List.mem_cons_of_mem sid)

/-- The sessions of the next shard. -/
theorem collect [Floats] {node : Node κ} (hshards : ∀ v ∈ found, (node.shardOf v.1 : Nat) < k)
    (hmet : met.Perm (inShard node s.sessions k (expired globalMs overrides t))) :
    Tracked globalMs overrides s t (found ++ met) ∧
      ∀ v ∈ found ++ met, (node.shardOf v.1 : Nat) < k + 1 := by
  refine ⟨⟨h.started, h.fresh, ?_, ?_⟩, ?_⟩
  · rw [List.map_append, List.nodup_append]
    refine ⟨h.nodup, (hmet.map Prod.fst).nodup_iff.mpr map_fst_inShard, ?_⟩
    intro a ha b hb hab
    obtain ⟨v, hv, rfl⟩ := List.mem_map.mp ha
    obtain ⟨w, hw, rfl⟩ := List.mem_map.mp hb
    have hlt := hshards v hv
    have heq := (mem_inShard.mp (hmet.mem_iff.mp hw)).1
    rw [hab] at hlt
    omega
  · intro v hv
    rcases List.mem_append.mp hv with hv | hv
    · exact h.kept v hv
    · obtain ⟨-, e, he, hexpired, -⟩ := mem_inShard.mp (hmet.mem_iff.mp hv)
      exact ⟨e, he, .inr hexpired⟩
  · intro v hv
    rcases List.mem_append.mp hv with hv | hv
    · exact (hshards v hv).trans (Nat.lt_succ_self k)
    · exact (mem_inShard.mp (hmet.mem_iff.mp hv)).1 ▸ Nat.lt_succ_self _

/-- A session that was touched is not met afterwards. -/
theorem not_touched_of_met [Floats] {node : Node κ}
    (hmet : met.Perm (inShard node s.sessions k (expired globalMs overrides t))) :
    ∀ v ∈ met, v.1 ∉ s.touched := by
  intro v hv htouched
  obtain ⟨-, e, he, hexpired, -⟩ := mem_inShard.mp (hmet.mem_iff.mp hv)
  have hfresh := h.fresh v.1 htouched e he
  rw [expired_iff] at hexpired
  omega

end Tracked

/-- What a removal does. -/
theorem remove_cases [DecidableEq ι] (h : Tracked globalMs overrides s t (v :: left))
    (hstage : s.stage = .evicting t (v :: left)) (hstep : remove s = some s') :
    ∃ e, s.sessions.lookup v.1 = some e ∧
      (v.1 ∈ s.touched ∨ expired globalMs overrides t e = true) ∧
      s' = { s with
        replicas := s.replicas.decSessions v.2
        sessions := s.sessions.erase v.1
        stage := .evicting t left
        removals := ⟨v.1, e, s.now, decide (v.1 ∈ s.touched)⟩ :: s.removals } := by
  obtain ⟨e, he, hwhy⟩ := h.kept v List.mem_cons_self
  refine ⟨e, he, hwhy, ?_⟩
  have hevict : evict ⟨s.replicas, s.sessions⟩ v =
      ⟨s.replicas.decSessions v.2, s.sessions.erase v.1⟩ := if_pos (by rw [he]; rfl)
  rw [remove, hstage] at hstep
  dsimp only at hstep
  rw [hevict, he] at hstep
  exact (Option.some.inj hstep).symm

theorem Tracked.remove (h : Tracked globalMs overrides s t (v :: left))
    (hnow : s'.now = s.now) (hsessions : s'.sessions = s.sessions.erase v.1)
    (htouched : s'.touched = s.touched) : Tracked globalMs overrides s' t left := by
  obtain ⟨hnot, hnodup⟩ := List.nodup_cons.mp h.nodup
  refine ⟨hnow ▸ h.started, ?_, hnodup, ?_⟩
  · intro sid hsid e he
    rw [hsessions, Table.lookup_erase_eq] at he
    split at he
    · cases he
    · exact h.fresh sid (htouched ▸ hsid) e he
  · intro w hw
    obtain ⟨e, he, hwhy⟩ := h.kept w (List.mem_cons_of_mem v hw)
    have hne : w.1 ≠ v.1 := fun heq => hnot (heq ▸ List.mem_map_of_mem hw)
    refine ⟨e, ?_, htouched ▸ hwhy⟩
    rw [hsessions, Table.lookup_erase_eq, if_neg hne]
    exact he

end Victims

/-! ## Runs -/

section Moves

variable [Floats] [DecidableEq ι] [DecidableEq κ] (node : Node κ) (globalMs : Int)
  (overrides : Overrides)

/-- All that a step can do. -/
inductive Move (s : State ι κ) : Event ι κ → State ι κ → Prop
  | quiet {e : Event ι κ} {s' : State ι κ} (hstage : s'.stage = s.stage) (hnow : s.now ≤ s'.now)
      (hsessions : s'.sessions = s.sessions) (htouched : s'.touched = s.touched)
      (hremovals : s'.removals = s.removals) : Move s e s'
  | touch (sid : κ) (spec : Str) (r : ι) (seatReserved : Bool) :
      Move s (.touchOrRegister sid spec r seatReserved) (touch s sid spec r seatReserved)
  | start (hs : s.stage = .waiting) :
      Move s .start { s with stage := .collecting s.now 0 [], touched := [] }
  | collect {t k : Nat} {found met : List (κ × ι)} (hs : s.stage = .collecting t k found)
      (hmet : met.Perm (inShard node s.sessions k (expired globalMs overrides t))) :
      Move s (.collect met) { s with stage := .collecting t (k + 1) (found ++ met) }
  | nothing {t k : Nat} (hs : s.stage = .collecting t k []) :
      Move s .lock { s with stage := .finished }
  | lock {t k : Nat} {found : List (κ × ι)} (hs : s.stage = .collecting t k found) :
      Move s .lock { s with stage := .evicting t found }
  | finish {t : Nat} (hs : s.stage = .evicting t []) : Move s .remove { s with stage := .finished }
  | remove {t : Nat} {v : κ × ι} {left : List (κ × ι)} {e : SessionEntry ι}
      (hs : s.stage = .evicting t (v :: left))
      (hwhy : v.1 ∈ s.touched ∨ expired globalMs overrides t e = true) :
      Move s .remove { s with
        replicas := s.replicas.decSessions v.2
        sessions := s.sessions.erase v.1
        stage := .evicting t left
        removals := ⟨v.1, e, s.now, decide (v.1 ∈ s.touched)⟩ :: s.removals }

end Moves

section Runs

variable [Floats] [DecidableEq κ] {node : Node κ} {globalMs : Int} {overrides : Overrides}
  {s s' t : State ι κ} {e : Event ι κ} {es : List (Event ι κ)}

theorem WellFormed.collecting (h : WellFormed node globalMs overrides s) {t k : Nat}
    {found : List (κ × ι)} (hs : s.stage = .collecting t k found) :
    Tracked globalMs overrides s t found ∧ ∀ v ∈ found, (node.shardOf v.1 : Nat) < k := by
  rw [WellFormed, hs] at h
  exact h

theorem WellFormed.evicting (h : WellFormed node globalMs overrides s) {t : Nat}
    {left : List (κ × ι)} (hs : s.stage = .evicting t left) :
    Tracked globalMs overrides s t left := by
  rw [WellFormed, hs] at h
  exact h

variable [DecidableEq ι]

theorem WellFormed.move (h : WellFormed node globalMs overrides s)
    (hstep : (machine node globalMs overrides).step s e = some s') :
    Move node globalMs overrides s e s' := by
  cases e with
  | tick nanos =>
    cases hstep
    exact .quiet rfl (Nat.le_add_right _ _) rfl rfl rfl
  | touchOrRegister sid spec r seatReserved =>
    cases hstep
    exact .touch sid spec r seatReserved
  | incSessions i =>
    have hcount : count s i = some s' := hstep
    unfold count at hcount
    split at hcount
    · cases hcount
    · obtain ⟨r, -, rfl⟩ := Option.map_eq_some_iff.mp hcount
      exact .quiet rfl (Nat.le_refl _) rfl rfl rfl
  | start =>
    simp only [machine] at hstep
    split at hstep
    · next hs =>
      cases hstep
      exact .start hs
    · cases hstep
  | collect met =>
    have hcollect : collect node globalMs overrides s met = some s' := hstep
    unfold collect at hcollect
    split at hcollect
    · next t k found hs =>
      split at hcollect
      · next hmet =>
        cases hcollect
        exact .collect hs hmet.2
      · cases hcollect
    · cases hcollect
  | lock =>
    have hlock : lock node s = some s' := hstep
    unfold lock at hlock
    split at hlock
    · next t k found hs =>
      split at hlock
      · cases hlock
      · cases hlock
        cases found with
        | nil => exact .nothing hs
        | cons v found => exact .lock hs
    · cases hlock
  | remove =>
    have hremove : remove s = some s' := hstep
    cases hs : s.stage with
    | evicting t left =>
      cases left with
      | nil =>
        rw [remove, hs] at hremove
        cases hremove
        exact .finish hs
      | cons v left =>
        obtain ⟨e, -, hwhy, rfl⟩ := remove_cases (h.evicting hs) hs hremove
        exact .remove hs hwhy
    | waiting | collecting _ _ _ | finished =>
      rw [remove, hs] at hremove
      cases hremove

/-- **Step lemma.** -/
theorem WellFormed.step (h : WellFormed node globalMs overrides s)
    (hstep : (machine node globalMs overrides).step s e = some s') :
    WellFormed node globalMs overrides s' := by
  cases h.move hstep with
  | quiet hstage hnow hsessions htouched _ =>
    cases hs : s.stage with
    | collecting t k found =>
      rw [WellFormed, hstage, hs]
      obtain ⟨htracked, hshards⟩ := h.collecting hs
      exact ⟨htracked.frame hnow hsessions htouched, hshards⟩
    | evicting t left =>
      rw [WellFormed, hstage, hs]
      exact (h.evicting hs).frame hnow hsessions htouched
    | waiting | finished =>
      rw [WellFormed, hstage, hs]
      trivial
  | touch sid spec r seatReserved =>
    have hstage : (touch s sid spec r seatReserved).stage = s.stage := rfl
    cases hs : s.stage with
    | collecting t k found =>
      rw [WellFormed, hstage, hs]
      obtain ⟨htracked, hshards⟩ := h.collecting hs
      exact ⟨htracked.touch, hshards⟩
    | evicting t left =>
      rw [WellFormed, hstage, hs]
      exact (h.evicting hs).touch
    | waiting | finished =>
      rw [WellFormed, hstage, hs]
      trivial
  | start _ => exact ⟨⟨Nat.le_refl _, nofun, List.nodup_nil, nofun⟩, nofun⟩
  | collect hs hmet =>
    obtain ⟨htracked, hshards⟩ := h.collecting hs
    obtain ⟨htracked, hshards⟩ := htracked.collect hshards hmet
    exact ⟨htracked.frame (Nat.le_refl _) rfl rfl, hshards⟩
  | nothing _ => trivial
  | lock hs => exact (h.collecting hs).1.frame (Nat.le_refl _) rfl rfl
  | finish _ => trivial
  | remove hs _ => exact (h.evicting hs).remove rfl rfl rfl

/-- While nobody comes back to a victim, what goes goes rightly. -/
theorem Sound.step (h : Sound globalMs overrides s) (hwf : WellFormed node globalMs overrides s)
    (hok : Undisturbed s e) (hstep : (machine node globalMs overrides).step s e = some s') :
    Sound globalMs overrides s' := by
  have hvictims := h.victims
  cases hwf.move hstep with
  | quiet hstage _ _ htouched hremovals =>
    refine ⟨?_, hremovals ▸ h.removals⟩
    rw [hstage, htouched]
    exact hvictims
  | touch sid spec r seatReserved =>
    refine ⟨fun v hv htouched => ?_, h.removals⟩
    rcases List.mem_cons.mp htouched with heq | hold
    · exact hok (heq ▸ List.mem_map_of_mem hv)
    · exact hvictims v hv hold
  | start _ => exact ⟨nofun, h.removals⟩
  | collect hs hmet =>
    refine ⟨fun v hv => ?_, h.removals⟩
    rw [hs] at hvictims
    rcases List.mem_append.mp hv with hv | hv
    · exact hvictims v hv
    · exact (hwf.collecting hs).1.not_touched_of_met hmet v hv
  | nothing _ => exact ⟨nofun, h.removals⟩
  | lock hs =>
    rw [hs] at hvictims
    exact ⟨hvictims, h.removals⟩
  | finish _ => exact ⟨nofun, h.removals⟩
  | @remove t v left e hs hwhy =>
    rw [hs] at hvictims
    have hnot := hvictims v List.mem_cons_self
    refine ⟨fun w hw => hvictims w (List.mem_cons_of_mem v hw), fun x hx => ?_⟩
    rcases List.mem_cons.mp hx with rfl | hold
    · have hstarted := (hwf.evicting hs).started
      exact ⟨decide_eq_false hnot, expired_mono hstarted (hwhy.resolve_left hnot)⟩
    · exact h.removals x hold

/-- What has gone wrong stays wrong, and a victim that was touched will go. -/
theorem Sound.of_step (hwf : WellFormed node globalMs overrides s)
    (hstep : (machine node globalMs overrides).step s e = some s')
    (h : Sound globalMs overrides s') : Sound globalMs overrides s := by
  have hvictims := h.victims
  cases hwf.move hstep with
  | quiet hstage _ _ htouched hremovals =>
    rw [hstage, htouched] at hvictims
    exact ⟨hvictims, hremovals ▸ h.removals⟩
  | touch sid spec r seatReserved =>
    refine ⟨fun v hv htouched => ?_, h.removals⟩
    exact hvictims v hv (List.mem_cons_of_mem sid htouched)
  | start hs =>
    refine ⟨fun v hv => ?_, h.removals⟩
    rw [hs] at hv
    cases hv
  | collect hs _ =>
    refine ⟨fun v hv => ?_, h.removals⟩
    rw [hs] at hv
    exact hvictims v (List.mem_append_left _ hv)
  | nothing hs =>
    refine ⟨fun v hv => ?_, h.removals⟩
    rw [hs] at hv
    cases hv
  | lock hs =>
    refine ⟨fun v hv => ?_, h.removals⟩
    rw [hs] at hv
    exact hvictims v hv
  | finish hs =>
    refine ⟨fun v hv => ?_, h.removals⟩
    rw [hs] at hv
    cases hv
  | @remove t v left e hs _ =>
    have hright := h.removals _ List.mem_cons_self
    refine ⟨fun w hw => ?_, fun x hx => h.removals x (List.mem_cons_of_mem _ hx)⟩
    rw [hs] at hw
    rcases List.mem_cons.mp hw with rfl | hw
    · exact of_decide_eq_false hright.1
    · exact hvictims w hw

/-- Who comes back to a victim is a victim that was touched. -/
theorem not_sound_of_disturbed (hnot : ¬ Undisturbed s e)
    (hstep : (machine node globalMs overrides).step s e = some s') :
    ¬ Sound globalMs overrides s' := by
  intro h
  cases e with
  | touchOrRegister sid spec r seatReserved =>
    cases hstep
    refine hnot fun hmem => ?_
    obtain ⟨v, hv, rfl⟩ := List.mem_map.mp hmem
    exact h.victims v hv List.mem_cons_self
  | tick _ | incSessions _ | start | collect _ | lock | remove => exact hnot trivial

/-- **Run lemma.** -/
theorem Sound.of_exec (hwf : WellFormed node globalMs overrides s)
    (hexec : (machine node globalMs overrides).exec s es = some t)
    (h : Sound globalMs overrides t) :
    ∀ es' s', es' <+: es → (machine node globalMs overrides).exec s es' = some s' →
      Sound globalMs overrides s' := by
  induction es generalizing s with
  | nil =>
    cases hexec
    intro es' s' hes' hs'
    obtain rfl := List.prefix_nil.mp hes'
    cases hs'
    exact h
  | cons e es ih =>
    obtain ⟨s₁, hstep, hrest⟩ := Option.bind_eq_some_iff.mp hexec
    have hprefixes := ih (hwf.step hstep) hrest
    intro es' s' hes' hs'
    rcases List.prefix_cons_iff.mp hes' with rfl | ⟨es₁, rfl, hes₁⟩
    · cases hs'
      exact Sound.of_step hwf hstep (hprefixes [] s₁ (List.nil_prefix) rfl)
    · rw [exec, hstep] at hs'
      exact hprefixes es₁ s' hes₁ hs'

variable {replicas : Registry ι} {sessions : SessionStore ι κ} {now : Nat} {counting : List ι}

/-- **Sweeps and visitors.** While nobody comes back to a session between its collection and its
removal, no session goes that was touched or is not idle for too long; and where somebody does,
such a session has gone by the end of the sweep. -/
theorem removed_rightly_iff_undisturbed
    (hexec : (machine node globalMs overrides).exec (idle replicas sessions now counting) es =
      some t) :
    ((machine node globalMs overrides).Run Undisturbed (idle replicas sessions now counting) es t →
        ∀ x ∈ t.removals, x.Right globalMs overrides) ∧
      (t.stage = .finished → ((∀ x ∈ t.removals, x.Right globalMs overrides) ↔
        (machine node globalMs overrides).Run Undisturbed (idle replicas sessions now counting)
          es t)) := by
  have hwf : WellFormed node globalMs overrides (idle replicas sessions now counting) := trivial
  have hsound : Sound globalMs overrides (idle replicas sessions now counting) := ⟨nofun, nofun⟩
  have hiff : (∀ es' s', es' <+: es → (machine node globalMs overrides).exec
        (idle replicas sessions now counting) es' = some s' → Sound globalMs overrides s') ↔
      (machine node globalMs overrides).Run Undisturbed (idle replicas sessions now counting)
        es t := by
    have hstart : WellFormed node globalMs overrides (idle replicas sessions now counting) ∧
      Sound globalMs overrides (idle replicas sessions now counting) := ⟨hwf, hsound⟩
    refine forall_prefix_iff_run
      (I := fun s => WellFormed node globalMs overrides s ∧ Sound globalMs overrides s)
      hstart (fun s h => h.2) ?_ ?_ hexec
    · intro s e s' h hok hstep
      exact ⟨h.1.step hstep, h.2.step h.1 hok hstep⟩
    · intro s e s' _ hnot hstep
      exact not_sound_of_disturbed hnot hstep
  have hrightly (hrun : (machine node globalMs overrides).Run Undisturbed
      (idle replicas sessions now counting) es t) :
      ∀ x ∈ t.removals, x.Right globalMs overrides :=
    (hiff.mpr hrun es t (List.prefix_refl es) hexec).removals
  refine ⟨hrightly, fun hfinished => ⟨fun h => hiff.mp (Sound.of_exec hwf hexec ⟨?_, h⟩), hrightly⟩⟩
  rw [hfinished]
  exact nofun

end Runs

/-! ## A visitor who comes back -/

section Example

attribute [local instance] wholeFloats

/-- A session of two seconds ago, and a timeout of one. -/
def labSession : SessionStore Nat Nat := (∅ : SessionStore Nat Nat).insert 7 ⟨labId, 0, 0⟩

def before : State Nat Nat := idle [busy] labSession 2000000000 []
where busy : Replica Nat := { labReplica 0 with sessionsActive := 1 }

def swept : List (Event Nat Nat) := [.start, .collect [(7, 0)], .lock, .remove, .remove]

theorem idle_session_goes : ∃ t : State Nat Nat,
    (machine labNode 1000 ∅).exec before swept = some t ∧
      ∀ x ∈ t.removals, x.Right 1000 ∅ := by
  have hsome : ((machine labNode 1000 ∅).execIf Undisturbed before swept).isSome = true := by
    decide
  have hrun := run_execIf hsome
  have hexec := run_free_iff.mp (hrun.mono fun _ _ _ => trivial)
  exact ⟨_, hexec, (removed_rightly_iff_undisturbed hexec).1 hrun⟩

/-- Between the look at the shard and the lock the visitor sends a heartbeat. -/
def heartbeat : List (Event Nat Nat) :=
  [.start, .collect [(7, 0)], .touchOrRegister 7 labId 0 false, .lock, .remove, .remove]

theorem touched_session_goes : ∃ t : State Nat Nat,
    (machine labNode 1000 ∅).exec before heartbeat = some t ∧ t.sessions.lookup 7 = none ∧
      ∃ x ∈ t.removals, x.session = 7 ∧ x.touched = true ∧ x.time - x.entry.lastSeen = 0 :=
  ⟨_, rfl, rfl, _, List.mem_singleton_self _, rfl, rfl, rfl⟩

end Example

end Ruscker.Proxy.SweepWindow
