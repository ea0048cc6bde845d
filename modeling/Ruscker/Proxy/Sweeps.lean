import Ruscker.Proxy.SeatsPg

/-!
# Two sweeps

The store of one process looks up the timeout of each session, and takes a seat back for each
that it evicts.  The shared store deletes the idle rows of all specs without a timeout of their
own, then those of each spec that has one, and writes the rows it has left over the counts.
Times are in nanoseconds.
-/

namespace Ruscker.Proxy.Sweeps

open Tables Calls SeatsPg

variable {ι κ : Type*}

/-! ## The sweep of one process -/

/-- The timeouts that specs have of their own; a negative one means never. -/
abbrev Overrides := Table Str Int

def nanos (ms : Int) : Int := ms * 1000000

structure Swept (ι κ : Type*) where
  replicas : Registry ι
  sessions : SessionStore ι κ

/-- The timeout of a spec. -/
def timeoutOf (globalMs : Int) (overrides : Overrides) (spec : Str) : Int :=
  ((overrides.lookup spec).map nanos).getD (nanos globalMs)

def expired (globalMs : Int) (overrides : Overrides) (now : Nat) (e : SessionEntry ι) : Bool :=
  isExpired (nanos globalMs) (fun spec => (overrides.lookup spec).map nanos) now e

/-- The sessions to evict, in the order of the table. -/
def victims (st : SessionStore ι κ) (globalMs : Int) (overrides : Overrides) (now : Nat) :
    List (κ × ι) :=
  (st.entries.filter fun e => expired globalMs overrides now e.2).map fun e =>
    (e.1, e.2.replicaId)

section Sweep

def evict [DecidableEq ι] [DecidableEq κ] (s : Swept ι κ) (victim : κ × ι) : Swept ι κ :=
  if (s.sessions.lookup victim.1).isSome then
    ⟨s.replicas.decSessions victim.2, s.sessions.erase victim.1⟩
  else s

/-- `InMemorySessionStore::sweep`, with its victims in the order they were met. -/
def sweepInMemory [DecidableEq ι] [DecidableEq κ] (replicas : Registry ι)
    (st : SessionStore ι κ) (found : List (κ × ι)) : Swept ι κ :=
  found.foldl evict ⟨replicas, st⟩

/-! ## The sweep of the shared table -/

/-- The DELETEs of a leader, with the overrides in the order they were met. -/
def deletes (globalMs : Int) (met : List (Str × Int)) : List Eviction :=
  evictions (nanos globalMs) (met.map fun e => (e.1, nanos e.2)) true

/-- `try_sweep` of the leader, all of its statements successful. -/
def sweepPostgres [DecidableEq ι] (replicas : Registry ι) (rows : SessionStore ι κ)
    (ds : List Eviction) (now : Nat) : Swept ι κ :=
  let rows := ds.foldl (fun rows d => rows.retain fun _ e => !d.takes now e) rows
  ⟨replicas.setSessionCounts fun r => bound rows r % 2 ^ 32, rows⟩

/-! ## Which sessions go -/

section Deleted

variable {globalMs : Int} {overrides : Overrides} {met : List (Str × Int)} {now : Nat}
  {e : SessionEntry ι} {st : SessionStore ι κ}

/-- The map of overrides is met in some order. -/
def Meets (met : List (Str × Int)) (overrides : Overrides) : Prop :=
  met.Perm (overrides.entries.map fun e => (e.1, e.2))

theorem mem_met_iff (h : Meets met overrides) {spec : Str} {ms : Int} :
    (spec, ms) ∈ met ↔ overrides.lookup spec = some ms := by
  have hperm : met.Perm (overrides.entries.map fun e => (e.1, e.2)) := h
  rw [hperm.mem_iff, List.mem_map, ← Table.mem_entries_iff]
  constructor
  · rintro ⟨e, he, heq⟩
    cases heq
    exact he
  · exact fun he => ⟨_, he, rfl⟩

theorem contains_met_iff (h : Meets met overrides) {spec : Str} :
    (met.map Prod.fst).contains spec = true ↔ ∃ ms, overrides.lookup spec = some ms := by
  rw [List.contains_iff_mem, List.mem_map]
  constructor
  · rintro ⟨e, he, rfl⟩
    exact ⟨e.2, (mem_met_iff h).mp he⟩
  · rintro ⟨ms, hms⟩
    exact ⟨(spec, ms), (mem_met_iff h).mpr hms, rfl⟩

theorem lt_sub_iff {lastSeen now : Nat} {t : Int} (ht : 0 ≤ t) :
    (lastSeen : Int) < now - t ↔ t < (now - lastSeen : Nat) := by
  omega

/-- The DELETE of the other specs takes an idle session of a spec without a timeout. -/
theorem takes_global_iff (h : Meets met overrides) {t : Int} (ht : 0 ≤ t) :
    (Eviction.global t (met.map Prod.fst)).takes now e = true ↔
      overrides.lookup e.specId = none ∧ t < (now - e.lastSeen : Nat) := by
  have hnone : (!(met.map Prod.fst).contains e.specId) = true ↔
      overrides.lookup e.specId = none := by
    rw [Bool.not_eq_true', ← Bool.not_eq_true, contains_met_iff h,
      Option.eq_none_iff_forall_not_mem, not_exists]
    rfl
  rw [Eviction.takes, Bool.and_eq_true, hnone, decide_eq_true_eq, lt_sub_iff ht, and_comm]

theorem takes_ofSpec_iff {t : Int} (ht : 0 ≤ t) {spec : Str} :
    (Eviction.ofSpec t spec).takes now e = true ↔
      e.specId = spec ∧ t < (now - e.lastSeen : Nat) := by
  rw [Eviction.takes, Bool.and_eq_true, decide_eq_true_eq, decide_eq_true_eq, lt_sub_iff ht,
    and_comm]

theorem mem_deletes {d : Eviction} :
    d ∈ deletes globalMs met ↔
      0 ≤ nanos globalMs ∧ d = .global (nanos globalMs) (met.map Prod.fst) ∨
        ∃ o ∈ met, 0 ≤ nanos o.2 ∧ d = .ofSpec (nanos o.2) o.1 := by
  have hkeys : (met.map fun o => (o.1, nanos o.2)).map Prod.fst = met.map Prod.fst := by
    rw [List.map_map]
    rfl
  rw [deletes, evictions, if_pos rfl, hkeys, List.mem_append]
  refine or_congr ?_ ?_
  · split
    · next hglobal => simp [hglobal]
    · next hglobal => simp [hglobal]
  · simp only [List.mem_map, List.mem_filter, decide_eq_true_eq]
    constructor
    · rintro ⟨_, ⟨⟨o, ho, rfl⟩, hms⟩, rfl⟩
      exact ⟨o, ho, hms, rfl⟩
    · rintro ⟨o, ho, hms, rfl⟩
      exact ⟨_, ⟨⟨o, ho, rfl⟩, hms⟩, rfl⟩

theorem expired_iff :
    expired globalMs overrides now e = true ↔
      0 ≤ timeoutOf globalMs overrides e.specId ∧
        timeoutOf globalMs overrides e.specId < (now - e.lastSeen : Nat) := by
  unfold expired isExpired
  rw [Bool.and_eq_true, decide_eq_true_eq, decide_eq_true_eq]
  rfl

/-- A session meets the DELETE of its spec's own timeout, or the one of the global timeout. -/
theorem exists_takes_iff (h : Meets met overrides) :
    (∃ d ∈ deletes globalMs met, d.takes now e = true) ↔
      expired globalMs overrides now e = true := by
  rw [expired_iff, timeoutOf]
  constructor
  · rintro ⟨d, hd, htakes⟩
    rcases mem_deletes.mp hd with ⟨hms, rfl⟩ | ⟨o, ho, hms, rfl⟩
    · obtain ⟨hnone, hidle⟩ := (takes_global_iff h hms).mp htakes
      rw [hnone]
      exact ⟨hms, hidle⟩
    · obtain ⟨hspec, hidle⟩ := (takes_ofSpec_iff hms).mp htakes
      rw [hspec, (mem_met_iff h).mp ho]
      exact ⟨hms, hidle⟩
  · cases hown : overrides.lookup e.specId with
    | none =>
      rintro ⟨hms, hidle⟩
      exact ⟨_, mem_deletes.mpr (.inl ⟨hms, rfl⟩), (takes_global_iff h hms).mpr ⟨hown, hidle⟩⟩
    | some ms =>
      rintro ⟨hms, hidle⟩
      refine ⟨_, mem_deletes.mpr (.inr ⟨(e.specId, ms), (mem_met_iff h).mpr hown, hms, rfl⟩), ?_⟩
      exact (takes_ofSpec_iff hms).mpr ⟨rfl, hidle⟩

/-- Some DELETEs in turn are one. -/
theorem foldl_retain (ds : List Eviction) (rows : SessionStore ι κ) :
    ds.foldl (fun rows d => rows.retain fun _ e => !d.takes now e) rows =
      rows.retain fun _ e => !ds.any fun d => d.takes now e := by
  induction ds generalizing rows with
  | nil => exact (Table.retain_true rows).symm
  | cons d ds ih =>
    rw [List.foldl_cons, ih, Table.retain_retain]
    refine congrArg rows.retain (funext fun _ => funext fun e => ?_)
    rw [List.any_cons, Bool.not_or, Bool.and_comm]

theorem any_takes (h : Meets met overrides) (e : SessionEntry ι) :
    ((deletes globalMs met).any fun d => d.takes now e) = expired globalMs overrides now e := by
  rw [Bool.eq_iff_iff, List.any_eq_true]
  exact exists_takes_iff h

theorem sessions_sweepPostgres [DecidableEq ι] (h : Meets met overrides) (replicas : Registry ι)
    (rows : SessionStore ι κ) :
    (sweepPostgres replicas rows (deletes globalMs met) now).sessions =
      rows.retain fun _ e => !expired globalMs overrides now e := by
  unfold sweepPostgres
  rw [foldl_retain]
  simp only [any_takes h]

end Deleted

/-! ## What is evicted in turn -/

section Evicted

variable {st : SessionStore ι κ} {replicas : Registry ι} {found : List (κ × ι)}

/-- Distinct victims that are all there go one after the other. -/
theorem sweepInMemory_eq [DecidableEq ι] [DecidableEq κ] (hnodup : (found.map Prod.fst).Nodup)
    (hthere : ∀ v ∈ found, (st.lookup v.1).isSome = true) :
    sweepInMemory replicas st found =
      ⟨found.foldl (fun reg v => reg.decSessions v.2) replicas,
        found.foldl (fun st v => st.erase v.1) st⟩ := by
  unfold sweepInMemory
  induction found generalizing replicas st with
  | nil => rfl
  | cons v found ih =>
    obtain ⟨hnot, hrest⟩ := List.nodup_cons.mp hnodup
    have hv : evict ⟨replicas, st⟩ v = ⟨replicas.decSessions v.2, st.erase v.1⟩ :=
      if_pos (hthere v List.mem_cons_self)
    rw [List.foldl_cons, hv]
    refine ih hrest fun w hw => ?_
    have hne : w.1 ≠ v.1 := fun heq => hnot (heq ▸ List.mem_map_of_mem hw)
    rw [Table.lookup_erase_eq, if_neg hne]
    exact hthere w (List.mem_cons_of_mem v hw)

theorem lookup_foldl_erase [DecidableEq κ] (st : SessionStore ι κ) (found : List (κ × ι))
    (sid : κ) :
    (found.foldl (fun st v => st.erase v.1) st).lookup sid =
      if sid ∈ found.map Prod.fst then none else st.lookup sid := by
  induction found generalizing st with
  | nil => rfl
  | cons v found ih =>
    rw [List.foldl_cons, ih, Table.lookup_erase_eq]
    have hcons : sid ∈ (v :: found).map Prod.fst ↔ sid = v.1 ∨ sid ∈ found.map Prod.fst :=
      List.mem_cons
    by_cases hmem : sid ∈ found.map Prod.fst
    · rw [if_pos hmem, if_pos (hcons.mpr (.inr hmem))]
    · rw [if_neg hmem]
      by_cases heq : sid = v.1
      · rw [if_pos heq, if_pos (hcons.mpr (.inl heq))]
      · rw [if_neg heq, if_neg fun h => (hcons.mp h).elim heq hmem]

/-- Each victim takes a seat off its replica's count. -/
theorem foldl_decSessions [DecidableEq ι] (hdistinct : replicas.Distinct) (found : List (κ × ι)) :
    found.foldl (fun reg v => reg.decSessions v.2) replicas =
      replicas.map fun x =>
        { x with sessionsActive := x.sessionsActive - found.countP fun v => v.2 = x.id } := by
  induction found generalizing replicas with
  | nil => exact (List.map_id' replicas).symm
  | cons v found ih =>
    have hdec : (replicas.decSessions v.2).Distinct := hdistinct.update fun _ => rfl
    rw [List.foldl_cons, ih hdec, Registry.decSessions, hdistinct.update_eq_map, List.map_map]
    refine List.map_congr_left fun x _ => ?_
    rw [Function.comp_apply, List.countP_cons]
    by_cases hid : x.id = v.2
    · rw [if_pos hid, if_pos (decide_eq_true hid.symm), Replica.dec_id, Replica.dec]
      simp only [Nat.sub_sub, Nat.add_comm]
    · rw [if_neg hid, if_neg (by simpa using Ne.symm hid), Nat.add_zero]

end Evicted

/-! ## Both sweeps -/

section Both

variable {globalMs : Int} {overrides : Overrides} {met : List (Str × Int)}
  {now : Nat} {st : SessionStore ι κ} {replicas : Registry ι} {found : List (κ × ι)}

/-- The sessions of a replica that a sweep evicts. -/
def expiredOn [DecidableEq ι] (globalMs : Int) (overrides : Overrides) (now : Nat)
    (st : SessionStore ι κ) (r : ι) : Nat :=
  st.count fun e => decide (e.replicaId = r) && expired globalMs overrides now e

/-- The sessions of a replica that it keeps. -/
def keptOn [DecidableEq ι] (globalMs : Int) (overrides : Overrides) (now : Nat)
    (st : SessionStore ι κ) (r : ι) : Nat :=
  st.count fun e => decide (e.replicaId = r) && !expired globalMs overrides now e

/-- The count is that of the replica's sessions, or no session and no seat is left. -/
def CountsSessions [DecidableEq ι] (globalMs : Int) (overrides : Overrides) (now : Nat)
    (st : SessionStore ι κ) (x : Replica ι) : Prop :=
  x.sessionsActive =
      expiredOn globalMs overrides now st x.id + keptOn globalMs overrides now st x.id % 2 ^ 32 ∨
    keptOn globalMs overrides now st x.id % 2 ^ 32 = 0 ∧
      x.sessionsActive ≤ expiredOn globalMs overrides now st x.id

theorem map_fst_victims (st : SessionStore ι κ) (globalMs : Int) (overrides : Overrides)
    (now : Nat) : ((victims st globalMs overrides now).map Prod.fst).Nodup := by
  have hkeys : (victims st globalMs overrides now).map Prod.fst =
      (st.entries.filter fun e => expired globalMs overrides now e.2).keys := by
    rw [victims, List.map_map]
    rfl
  rw [hkeys]
  exact st.nodupKeys.sublist List.filter_sublist

theorem mem_victims [DecidableEq κ] {v : κ × ι} :
    v ∈ victims st globalMs overrides now ↔
      ∃ e, st.lookup v.1 = some e ∧ expired globalMs overrides now e = true ∧ e.replicaId = v.2 := by
  rw [victims, List.mem_map]
  constructor
  · rintro ⟨⟨sid, e⟩, hmem, rfl⟩
    obtain ⟨he, hexpired⟩ := List.mem_filter.mp hmem
    exact ⟨e, Table.mem_entries_iff.mp he, hexpired, rfl⟩
  · rintro ⟨e, he, hexpired, hr⟩
    exact ⟨⟨v.1, e⟩, List.mem_filter.mpr ⟨Table.mem_entries_iff.mpr he, hexpired⟩, by rw [hr]⟩

theorem countP_victims [DecidableEq ι] (r : ι) :
    (victims st globalMs overrides now).countP (fun v => v.2 = r) =
      expiredOn globalMs overrides now st r := by
  rw [victims, List.countP_map, List.countP_filter]
  rfl

theorem bound_retain [DecidableEq ι] (r : ι) :
    bound (st.retain fun _ e => !expired globalMs overrides now e) r =
      keptOn globalMs overrides now st r :=
  List.countP_filter

theorem mem_found_iff [DecidableEq κ] (hfound : found.Perm (victims st globalMs overrides now))
    (sid : κ) : sid ∈ found.map Prod.fst ↔
      ∃ e, st.lookup sid = some e ∧ expired globalMs overrides now e = true := by
  rw [List.mem_map]
  constructor
  · rintro ⟨v, hv, rfl⟩
    obtain ⟨e, he, hexpired, -⟩ := mem_victims.mp (hfound.mem_iff.mp hv)
    exact ⟨e, he, hexpired⟩
  · rintro ⟨e, he, hexpired⟩
    exact ⟨(sid, e.replicaId), hfound.mem_iff.mpr (mem_victims.mpr ⟨e, he, hexpired, rfl⟩), rfl⟩

/-- Nothing that was found is gone before its turn. -/
theorem sweepInMemory_victims [DecidableEq ι] [DecidableEq κ] (replicas : Registry ι)
    (hfound : found.Perm (victims st globalMs overrides now)) :
    sweepInMemory replicas st found =
      ⟨found.foldl (fun reg v => reg.decSessions v.2) replicas,
        found.foldl (fun st v => st.erase v.1) st⟩ := by
  refine sweepInMemory_eq ?_ fun v hv => ?_
  · exact (hfound.map Prod.fst).nodup_iff.mpr (map_fst_victims st globalMs overrides now)
  · obtain ⟨e, he, -⟩ := mem_victims.mp (hfound.mem_iff.mp hv)
    rw [he]
    rfl

/-- What the evictions in turn leave is what does not expire. -/
theorem lookup_sweepInMemory [DecidableEq ι] [DecidableEq κ] (replicas : Registry ι)
    (hfound : found.Perm (victims st globalMs overrides now)) (sid : κ) :
    (sweepInMemory replicas st found).sessions.lookup sid =
      (st.retain fun _ e => !expired globalMs overrides now e).lookup sid := by
  rw [sweepInMemory_victims replicas hfound, lookup_foldl_erase]
  refine Option.ext fun e => ?_
  rw [Table.lookup_retain]
  split
  · next hmem =>
    obtain ⟨e', he', hexpired⟩ := (mem_found_iff hfound sid).mp hmem
    refine ⟨fun h => (by cases h), fun ⟨he, hkept⟩ => ?_⟩
    obtain rfl := Option.some.inj (he'.symm.trans he)
    rw [hexpired] at hkept
    cases hkept
  · next hmem =>
    refine ⟨fun he => ⟨he, ?_⟩, And.left⟩
    rw [Bool.not_eq_true', ← Bool.not_eq_true]
    exact fun hexpired => hmem ((mem_found_iff hfound sid).mpr ⟨e, he, hexpired⟩)

/-- The row's count is set to the sessions that are left. -/
theorem replicas_sweepPostgres [DecidableEq ι] (hmet : Meets met overrides)
    (replicas : Registry ι) (st : SessionStore ι κ) :
    (sweepPostgres replicas st (deletes globalMs met) now).replicas =
      replicas.setSessionCounts fun r => keptOn globalMs overrides now st r % 2 ^ 32 := by
  have hset : (sweepPostgres replicas st (deletes globalMs met) now).replicas =
      replicas.setSessionCounts fun r =>
        bound (sweepPostgres replicas st (deletes globalMs met) now).sessions r % 2 ^ 32 := rfl
  rw [hset, sessions_sweepPostgres hmet replicas st]
  simp only [bound_retain]

/-- **Both stores evict the same sessions, and leave the same counts where these are those of the
sessions.** -/
theorem sweeps_agree_iff [DecidableEq ι] [DecidableEq κ] (hdistinct : replicas.Distinct)
    (hmet : Meets met overrides) (hfound : found.Perm (victims st globalMs overrides now)) :
    (∀ sid, (sweepInMemory replicas st found).sessions.lookup sid =
      (sweepPostgres replicas st (deletes globalMs met) now).sessions.lookup sid) ∧
    ((sweepInMemory replicas st found).replicas =
        (sweepPostgres replicas st (deletes globalMs met) now).replicas ↔
      ∀ x ∈ replicas, CountsSessions globalMs overrides now st x) := by
  constructor
  · intro sid
    rw [lookup_sweepInMemory replicas hfound, sessions_sweepPostgres hmet replicas st]
  · rw [replicas_sweepPostgres hmet, sweepInMemory_victims replicas hfound,
      foldl_decSessions hdistinct, Registry.setSessionCounts, List.map_inj_left]
    refine forall_congr' fun x => forall_congr' fun _ => ?_
    rw [hfound.countP_eq, countP_victims, CountsSessions, Replica.mk.injEq]
    simp only [true_and, and_true]
    omega

end Both

/-! ### A seat without a session yet -/

section Example

attribute [local instance] wholeFloats

/-- One session, and how many seats are counted. -/
def counted (seats : Nat) : Registry Nat := [{ labReplica 0 with sessionsActive := seats }]

def oneSession : SessionStore Nat Nat := (∅ : SessionStore Nat Nat).insert 7 ⟨labId, 0, 0⟩

theorem idle_session_is_swept :
    (sweepInMemory (counted 1) oneSession [(7, 0)]).replicas =
      (sweepPostgres (counted 1) oneSession (deletes 1000 []) 2000000000).replicas := by
  have hdistinct : (counted 1).Distinct := List.nodup_singleton _
  have hagree := @sweeps_agree_iff Nat Nat 1000 ∅ [] 2000000000 oneSession (counted 1) [(7, 0)] _ _
    hdistinct (List.Perm.refl []) (List.Perm.refl [(7, 0)])
  refine hagree.2.mpr fun x hx => ?_
  obtain rfl := List.mem_singleton.mp hx
  exact .inl rfl

/-- A second seat is reserved, and its session is on its way. -/
theorem reserved_seat_is_lost :
    (sweepInMemory (counted 2) oneSession []).replicas.map Replica.sessionsActive = [2] ∧
      (sweepPostgres (counted 2) oneSession (deletes 1000 []) 0).replicas.map
        Replica.sessionsActive = [1] ∧
      victims oneSession 1000 ∅ 0 = [] := by
  decide

end Example

end Sweep

end Ruscker.Proxy.Sweeps
