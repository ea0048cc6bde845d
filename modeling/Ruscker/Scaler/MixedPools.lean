import Ruscker.Scaler.IdleStops

/-!
# Pools that are not all ready

The scaler counts a replica that is out of routing like any other.  Its free seats keep a pool
from being saturated, and a ready replica may be stopped as idle in its stead.
-/

namespace Ruscker.Scaler.MixedPools

open IdleStops Proxy.Calls

variable {ι : Type*}

/-! ## Saturation -/

section Saturation

variable {pool : List (Replica ι)} {r : Replica ι}

theorem isAccepting_iff : r.isAccepting = true ↔ r.state = .ready ∧ 0 < r.availableSeats := by
  simp [Replica.isAccepting]

theorem isAccepting_eq_false_iff :
    r.isAccepting = false ↔ (r.state = .ready → r.availableSeats = 0) := by
  rw [← Bool.not_eq_true, isAccepting_iff, not_and, Nat.pos_iff_ne_zero, not_not]

/-- A strict pick fails just when no replica is accepting. -/
theorem pickAccepting_eq_none_iff {routing : RoutingStrategy} {api : Bool} {load : Load ι} :
    pickAccepting pool routing api load = none ↔ ∀ r ∈ pool, r.isAccepting = false := by
  rw [pickAccepting, select_eq_none, List.filter_eq_nil_iff]
  simp

theorem allSaturated_iff (hpool : pool ≠ []) :
    allSaturated pool = true ↔ ∀ r ∈ pool, r.availableSeats = 0 := by
  simp [allSaturated, hpool]

/-- A saturated pool has nobody who accepts. -/
theorem not_accepting_of_saturated (h : ∀ r ∈ pool, r.availableSeats = 0) :
    ∀ r ∈ pool, r.isAccepting = false :=
  fun r hr => isAccepting_eq_false_iff.mpr fun _ => h r hr

theorem saturated_iff_not_accepting :
    ((∀ r ∈ pool, r.availableSeats = 0) ↔ ∀ r ∈ pool, r.isAccepting = false) ↔
      (∃ r ∈ pool, r.isAccepting = true) ∨
        ∀ r ∈ pool, r.state ≠ .ready → r.availableSeats = 0 := by
  constructor
  · intro h
    by_cases haccepting : ∃ r ∈ pool, r.isAccepting = true
    · exact .inl haccepting
    · simp only [not_exists, not_and, Bool.not_eq_true] at haccepting
      exact .inr fun r hr _ => h.mpr haccepting r hr
  · rintro (⟨r, hr, haccepting⟩ | houtside)
    · have hseat : 0 < r.availableSeats := (isAccepting_iff.mp haccepting).2
      refine iff_of_false (fun h => ?_) (fun h => ?_)
      · exact absurd (h r hr) hseat.ne'
      · rw [h r hr] at haccepting
        cases haccepting
    · refine ⟨not_accepting_of_saturated, fun h r hr => ?_⟩
      by_cases hready : r.state = .ready
      · exact isAccepting_eq_false_iff.mp (h r hr) hready
      · exact houtside r hr hready

variable [Floats] (scaling : Scaling) (settings : Settings) (inflight : ι → Nat)

theorem overlayRequestCapacity_of_ne_api (hkind : settings.kind ≠ .api) :
    overlayRequestCapacity settings pool inflight = pool := by
  rw [overlayRequestCapacity, if_neg hkind]

/-- **Saturation and seats.** Where seats are counted by sessions and no threshold is set, the
trigger tells whether a visitor can be seated just when one can, or no free seat is out of
routing. -/
theorem scaleUpTriggered_agrees_iff (hkind : settings.kind ≠ .api)
    (hthreshold : settings.scaleUpThreshold = none) (hpool : pool ≠ []) :
    (scaleUpTriggered scaling settings (overlayRequestCapacity settings pool inflight) = true ↔
        ∀ r ∈ pool, r.isAccepting = false) ↔
      (∃ r ∈ pool, r.isAccepting = true) ∨
        ∀ r ∈ pool, r.state ≠ .ready → r.availableSeats = 0 := by
  have htrigger : scaleUpTriggered scaling settings
      (overlayRequestCapacity settings pool inflight) = allSaturated pool := by
    rw [overlayRequestCapacity_of_ne_api settings inflight hkind, scaleUpTriggered, hthreshold]
  rw [htrigger, allSaturated_iff hpool]
  exact saturated_iff_not_accepting

end Saturation

/-! ## Counting what is taken from the front -/

section Counting

variable {α : Type*} {l : List α} {p q : α → Bool}

theorem forall_split_cons {P : List α → α → Prop} {x : α} :
    (∀ front a back, x :: l = front ++ a :: back → P front a) ↔
      P [] x ∧ ∀ front a back, l = front ++ a :: back → P (x :: front) a := by
  constructor
  · intro h
    refine ⟨h [] x l rfl, fun front a back heq => h (x :: front) a back ?_⟩
    rw [heq, List.cons_append]
  · rintro ⟨hx, h⟩ front a back heq
    cases front with
    | nil =>
      obtain ⟨rfl, rfl⟩ := List.cons.inj heq
      exact hx
    | cons y front =>
      obtain ⟨rfl, rfl⟩ := List.cons.inj heq
      exact h front a back rfl

/-- All that meet `q` are among the first `k` that meet `p`. -/
theorem countP_take_filter_eq_iff {k : Nat} :
    ((l.filter p).take k).countP q = l.countP q ↔
      ∀ front a back, l = front ++ a :: back → q a = true → p a = true ∧ front.countP p < k := by
  induction l generalizing k with
  | nil => simp
  | cons x rest ih =>
    rw [forall_split_cons (P := fun front a => q a = true → p a = true ∧ front.countP p < k)]
    by_cases hp : p x = true
    · cases k with
      | zero =>
        simp only [List.take_zero, List.countP_nil, Nat.not_lt_zero, and_false]
        rw [eq_comm, List.countP_eq_zero]
        constructor
        · intro h
          refine ⟨h x List.mem_cons_self, fun front a back heq hq => ?_⟩
          refine h a (List.mem_cons_of_mem x ?_) hq
          exact heq ▸ List.mem_append_right front List.mem_cons_self
        · rintro ⟨hx, h⟩ a ha hq
          rcases List.mem_cons.mp ha with rfl | ha
          · exact hx hq
          · obtain ⟨front, back, heq⟩ := List.append_of_mem ha
            exact h front a back heq hq
      | succ k =>
        rw [List.filter_cons_of_pos hp, List.take_succ_cons, List.countP_cons, List.countP_cons,
          Nat.add_right_cancel_iff, ih]
        simp only [List.countP_cons_of_pos hp, Nat.add_lt_add_iff_right]
        constructor
        · exact fun h => ⟨fun _ => ⟨hp, Nat.succ_pos k⟩, h⟩
        · exact And.right
    · have hle : ((rest.filter p).take k).countP q ≤ rest.countP q :=
        ((List.take_sublist _ _).trans List.filter_sublist).countP_le
      rw [List.filter_cons_of_neg hp, List.countP_cons]
      simp only [List.countP_cons_of_neg hp]
      by_cases hx : q x = true
      · rw [if_pos hx]
        constructor
        · intro h
          omega
        · exact fun h => absurd (h.1 hx).1 hp
      · rw [if_neg hx, Nat.add_zero, ih]
        constructor
        · exact fun h => ⟨fun hq => absurd hq hx, h⟩
        · exact And.right

/-- As many are taken as leave `m`, and at least `m` of those in `q` stay. -/
theorem countP_take_filter_le_iff {m : Nat} (hm : m ≤ l.countP q) :
    ((l.filter p).take (l.length - m)).countP q ≤ l.countP q - m ↔
      m ≤ l.countP (fun a => q a && !p a) ∨
        ((l.filter p).take (l.length - m)).countP (fun a => !q a) = l.countP fun a => !q a := by
  have hsplit : l.countP q = (l.filter p).countP q + l.countP fun a => q a && !p a := by
    rw [List.countP_eq_countP_filter_add l q p, List.countP_filter (p := q) (q := fun a => !p a)]
  have hall := List.length_eq_countP_add_countP q (l := l)
  have hfilter := List.length_eq_countP_add_countP q (l := l.filter p)
  have hlength := List.length_take (i := l.length - m) (l := l.filter p)
  have hsublist := List.take_sublist (l.length - m) (l.filter p)
  have hwhole := List.take_of_length_le (i := l.length - m) (l := l.filter p)
  generalize (l.filter p).take (l.length - m) = taken at *
  have htaken := List.length_eq_countP_add_countP q (l := taken)
  have hfew : taken.countP q ≤ (l.filter p).countP q := hsublist.countP_le
  have hothers : taken.countP (fun a => !q a) ≤ l.countP fun a => !q a :=
    (hsublist.trans List.filter_sublist).countP_le
  simp only [Bool.not_eq_true, Bool.decide_eq_false] at hall htaken hfilter
  by_cases hfits : (l.filter p).length ≤ l.length - m
  · obtain rfl := hwhole hfits
    omega
  · omega

end Counting

/-! ## The floor -/

/-- The replicas that visitors are taken to. -/
def readyCount (pool : List (Replica ι)) : Nat := pool.countP fun r => r.state = .ready

section Removal

variable {α β : Type*} [DecidableEq β] {l d : List α} {f : α → β}

/-- Those of a list whose keys are those of a sublist. -/
theorem filter_key_mem_of_sublist (hsub : d.Sublist l) (hnodup : (l.map f).Nodup) :
    (l.filter fun a => f a ∈ d.map f) = d := by
  induction hsub with
  | slnil => rfl
  | cons a hsub ih =>
    obtain ⟨hnot, hrest⟩ := List.nodup_cons.mp hnodup
    rw [List.filter_cons_of_neg, ih hrest]
    rw [decide_eq_true_eq]
    exact fun hmem => hnot ((hsub.map f).subset hmem)
  | cons_cons a hsub ih =>
    obtain ⟨hnot, hrest⟩ := List.nodup_cons.mp hnodup
    rw [List.filter_cons_of_pos (by simp)]
    refine congrArg (a :: ·) ((List.filter_congr fun b hb => ?_).trans (ih hrest))
    have hne : f b ≠ f a := fun heq => hnot (heq ▸ List.mem_map_of_mem hb)
    simp [hne]

variable [DecidableEq ι] {reg : Registry ι} {spec : Str}

theorem remove_eq_filter (hreg : reg.Distinct) (id : ι) :
    reg.remove id = reg.filter fun r => r.id ≠ id := by
  induction reg with
  | nil => rfl
  | cons r rest ih =>
    obtain ⟨hnot, hrest⟩ := List.nodup_cons.mp hreg
    by_cases hid : r.id = id
    · subst hid
      rw [Registry.remove, List.eraseP_cons_of_pos (by simp),
        List.filter_cons_of_neg (by simp)]
      refine (List.filter_eq_self.mpr fun x hx => ?_).symm
      exact decide_eq_true fun hxid => hnot (List.mem_map.mpr ⟨x, hx, hxid⟩)
    · rw [Registry.remove, List.eraseP_cons_of_neg (by simpa using hid),
        List.filter_cons_of_pos (by simpa using hid)]
      exact congrArg (r :: ·) (ih hrest)

/-- The stops of a pass, one after another. -/
theorem foldl_remove (hreg : reg.Distinct) (ids : List ι) :
    ids.foldl Registry.remove reg = reg.filter fun r => r.id ∉ ids := by
  induction ids generalizing reg with
  | nil => simp
  | cons id ids ih =>
    rw [List.foldl_cons, ih hreg.remove, remove_eq_filter hreg, List.filter_filter]
    refine List.filter_congr fun r _ => ?_
    simp [Bool.and_comm]

/-- What the stops leave of the ready replicas. -/
theorem readyCount_foldl_remove {view : Replica ι → Replica ι} (hreg : reg.Distinct)
    (hid : ∀ r, (view r).id = r.id) (hstate : ∀ r, (view r).state = r.state)
    {dropped : List (Replica ι)}
    (hsub : dropped.Sublist ((reg.replicasOf spec).map view)) :
    readyCount (((dropped.map Replica.id).foldl Registry.remove reg).replicasOf spec) +
      readyCount dropped = readyCount (reg.replicasOf spec) := by
  have hview : ∀ p : List (Replica ι), readyCount (p.map view) = readyCount p := by
    intro p
    simp [readyCount, List.countP_map, Function.comp_def, hstate]
  have hnodup : (((reg.replicasOf spec).map view).map Replica.id).Nodup := by
    rw [List.map_map, Function.comp_def]
    simp only [hid]
    exact (List.filter_sublist.map Replica.id).nodup hreg
  have hkept : ((dropped.map Replica.id).foldl Registry.remove reg).replicasOf spec =
      (reg.replicasOf spec).filter fun r => r.id ∉ dropped.map Replica.id := by
    rw [foldl_remove hreg, Registry.replicasOf, Registry.replicasOf, List.filter_filter,
      List.filter_filter]
    exact List.filter_congr fun r _ => Bool.and_comm _ _
  have hdropped := filter_key_mem_of_sublist hsub hnodup
  rw [List.filter_map] at hdropped
  have htaken : readyCount dropped =
      readyCount ((reg.replicasOf spec).filter fun r => r.id ∈ dropped.map Replica.id) := by
    conv_lhs => rw [← hdropped]
    rw [hview, Function.comp_def]
    simp only [hid]
  rw [htaken, hkept, readyCount, readyCount, readyCount,
    List.countP_eq_countP_filter_add (reg.replicasOf spec) _
      fun r => decide (r.id ∈ dropped.map Replica.id), Nat.add_comm]
  simp only [decide_not]

end Removal

section Floor

variable [Floats] (scaling : Scaling) (settings : Settings)

/-- Idle for as many ticks as the spec asks for. -/
def pastGrace (idleTicks : ι → Nat) (r : Replica ι) : Bool :=
  let dropAfter := settings.scaleDownGrace.elim scaling.dropAfterTicks fun secs =>
    graceSecsToTicks secs.val 10
  decide (r.sessionsActive = 0) && decide (dropAfter ≤ idleTicks r.id)

/-- More replicas than the minimum, nothing to scale up for, and a utilization that is low
enough. -/
def scalesDown (snap : List (Replica ι)) : Bool :=
  decide (settings.effectiveMinReplicas.val < snap.length) &&
    !(decide (snap.length < settings.effectiveMaxReplicas.val) &&
      scaleUpTriggered scaling settings snap) &&
    settings.scaleDownThreshold.elim true
      (scaling.below (snap.map Replica.sessionsActive).sum (snap.map Replica.sessionsMax).sum)

/-- Every replica out of routing is past its grace, and of those that are early enough to be
stopped. -/
def UnroutedFirst (idleTicks : ι → Nat) (snap : List (Replica ι)) : Prop :=
  ∀ front r back, snap = front ++ r :: back → r.state ≠ .ready →
    pastGrace scaling settings idleTicks r = true ∧
      front.countP (pastGrace scaling settings idleTicks) <
        snap.length - settings.effectiveMinReplicas.val

section Passes

variable {snap : List (Replica ι)} {idleTicks : ι → Nat} {saturated : Nat} {cooling : Bool}

theorem dropCandidates_eq : dropCandidates scaling settings snap idleTicks =
    if settings.scaleDownThreshold.elim true
        (scaling.below (snap.map Replica.sessionsActive).sum (snap.map Replica.sessionsMax).sum)
    then (snap.filter (pastGrace scaling settings idleTicks)).take
      (snap.length - settings.effectiveMinReplicas.val)
    else [] := rfl

theorem idle_scalePasses_of_scalesDown (h : scalesDown scaling settings snap = true) :
    (scalePasses scaling settings snap idleTicks saturated cooling).idle =
      ((snap.filter (pastGrace scaling settings idleTicks)).take
        (snap.length - settings.effectiveMinReplicas.val)).map Replica.id := by
  rw [scalesDown, Bool.and_eq_true, Bool.and_eq_true, decide_eq_true_eq, Bool.not_eq_true'] at h
  obtain ⟨⟨hmin, hup⟩, hlow⟩ := h
  rw [scalePasses, if_neg (Nat.not_lt.mpr hmin.le), if_neg (by rw [hup]; exact Bool.false_ne_true),
    if_pos hmin, dropCandidates_eq, if_pos hlow]
  rfl

theorem idle_scalePasses_of_not_scalesDown (h : ¬ scalesDown scaling settings snap = true) :
    (scalePasses scaling settings snap idleTicks saturated cooling).idle = [] := by
  unfold scalePasses
  dsimp only
  split
  · rfl
  · split
    · split
      · rfl
      · split
        · rfl
        · rfl
    · next hup =>
      split
      · next hmin =>
        rw [dropCandidates_eq, if_neg]
        · rfl
        · intro hlow
          refine h ?_
          rw [Bool.not_eq_true] at hup
          rw [scalesDown, hup, hlow, decide_eq_true hmin]
          rfl
      · rfl

/-- How many ready replicas may go, and which of the pool have to go with them. -/
theorem readyCount_taken_le_iff (hfloor : settings.effectiveMinReplicas.val ≤ readyCount snap) :
    readyCount ((snap.filter (pastGrace scaling settings idleTicks)).take
        (snap.length - settings.effectiveMinReplicas.val)) ≤
          readyCount snap - settings.effectiveMinReplicas.val ↔
      settings.effectiveMinReplicas.val ≤
          readyCount (snap.filter fun r => !pastGrace scaling settings idleTicks r) ∨
        UnroutedFirst scaling settings idleTicks snap := by
  unfold readyCount at hfloor ⊢
  rw [countP_take_filter_le_iff hfloor, countP_take_filter_eq_iff, List.countP_filter]
  simp only [UnroutedFirst, Bool.not_eq_true', decide_eq_false_iff_not]

end Passes

theorem overlayRequestCapacity_eq_map (inflight : ι → Nat) (pool : List (Replica ι)) :
    ∃ view : Replica ι → Replica ι, (∀ r, (view r).id = r.id) ∧ (∀ r, (view r).state = r.state) ∧
      overlayRequestCapacity settings pool inflight = pool.map view := by
  by_cases hkind : settings.kind = .api
  · refine ⟨fun r => { r with
      sessionsActive := inflight r.id
      sessionsMax := settings.effectiveConcurrentRequestsPerReplica.val }, fun _ => rfl,
      fun _ => rfl, ?_⟩
    rw [overlayRequestCapacity, if_pos hkind]
  · rw [overlayRequestCapacity, if_neg hkind]
    exact ⟨fun r => r, fun _ => rfl, fun _ => rfl, (List.map_id' pool).symm⟩

variable [DecidableEq ι] (reg : Registry ι) (spec : Str) (inflight idleTicks : ι → Nat)
  (saturated : Nat) (cooling : Bool)

/-- The rows after the replicas that a tick stops as idle are gone.  A row goes whether or not its
container could be stopped. -/
def idleScaleDown : Registry ι :=
  (scalePasses scaling settings (overlayRequestCapacity settings (reg.replicasOf spec) inflight)
    idleTicks saturated cooling).idle.foldl Registry.remove reg

variable {reg}

/-- **The floor.** The idle scale-down leaves the minimum of ready replicas just when that many
are not past their grace, or all that are out of routing are, and early enough in the pool. -/
theorem idleScaleDown_keeps_floor_iff (hreg : reg.Distinct) :
    (settings.effectiveMinReplicas.val ≤ readyCount (reg.replicasOf spec) →
        settings.effectiveMinReplicas.val ≤ readyCount ((idleScaleDown scaling settings reg spec
          inflight idleTicks saturated cooling).replicasOf spec)) ↔
      (settings.effectiveMinReplicas.val ≤ readyCount (reg.replicasOf spec) →
        let snap := overlayRequestCapacity settings (reg.replicasOf spec) inflight
        scalesDown scaling settings snap = true →
          settings.effectiveMinReplicas.val ≤
              readyCount (snap.filter fun r => !pastGrace scaling settings idleTicks r) ∨
            UnroutedFirst scaling settings idleTicks snap) := by
  refine imp_congr_right fun hfloor => ?_
  obtain ⟨view, hid, hstate, hview⟩ :=
    overlayRequestCapacity_eq_map settings inflight (reg.replicasOf spec)
  have hready : readyCount ((reg.replicasOf spec).map view) = readyCount (reg.replicasOf spec) := by
    simp [readyCount, List.countP_map, Function.comp_def, hstate]
  simp only [idleScaleDown, hview]
  by_cases hdown : scalesDown scaling settings ((reg.replicasOf spec).map view) = true
  · have hsub : ((((reg.replicasOf spec).map view).filter
        (pastGrace scaling settings idleTicks)).take (((reg.replicasOf spec).map view).length -
          settings.effectiveMinReplicas.val)).Sublist ((reg.replicasOf spec).map view) :=
      (List.take_sublist _ _).trans List.filter_sublist
    have hleft := readyCount_foldl_remove hreg hid hstate hsub
    have hfloor' : settings.effectiveMinReplicas.val ≤
        readyCount ((reg.replicasOf spec).map view) := hready.symm ▸ hfloor
    have hiff := @readyCount_taken_le_iff _ _ scaling settings _ idleTicks hfloor'
    rw [idle_scalePasses_of_scalesDown scaling settings hdown]
    rw [hready] at hiff
    constructor
    · intro h _
      refine hiff.mp ?_
      omega
    · intro h
      have hfew := hiff.mpr (h hdown)
      omega
  · rw [idle_scalePasses_of_not_scalesDown scaling settings hdown, List.foldl_nil]
    exact iff_of_true hfloor fun h => absurd h hdown

end Floor

/-! ## A replica that Docker restarts -/

section Example

attribute [local instance] wholeFloats

/-- At least two replicas. -/
def pair : Settings := { bareSettings "Lab" .empty with minReplicas := some ⟨2, by decide⟩ }

/-- Idle after three ticks. -/
def patient : Scaling := ⟨3, 2, none, 10, fun _ _ _ => false, fun _ _ _ => false⟩

def busyReplica (id : Nat) : Replica Nat := { labReplica id with sessionsActive := 1 }

/-- The watcher has just seen that the container of the last replica is down. -/
def restartingPool (now : Nat) : List (Replica Nat) :=
  [busyReplica 1, (labReplica 2).restarting now]

theorem scaleUpTriggered_agrees_iff_full :
    scaleUpTriggered patient pair (overlayRequestCapacity pair [busyReplica 1] fun _ => 0) = true ↔
      ∀ r ∈ [busyReplica 1], r.isAccepting = false := by
  have hkind : pair.kind ≠ .api := by decide
  refine (scaleUpTriggered_agrees_iff patient pair (fun _ => 0) hkind rfl (by simp)).mpr (.inr ?_)
  intro r hr hstate
  obtain rfl := List.mem_singleton.mp hr
  exact absurd rfl hstate

/-- Nobody can be seated, and the pool is not seen as saturated. -/
theorem restarting_pool_not_saturated :
    (∀ r ∈ restartingPool 60000, r.isAccepting = false) ∧
      scaleUpTriggered patient pair
        (overlayRequestCapacity pair (restartingPool 60000) fun _ => 0) = false := by
  decide

def idlePool (now : Nat) : Registry Nat :=
  [labReplica 1, labReplica 2, (labReplica 3).restarting now]

/-- Two idle replicas have had two idle ticks before. -/
def ticked (reg : Registry Nat) (now : Nat) : Nat → Nat := updateIdleTicks (fun _ => 2) reg now

theorem idleScaleDown_keeps_floor_three :
    2 ≤ readyCount ((idleScaleDown patient pair [labReplica 1, labReplica 2, labReplica 3] labId
      (fun _ => 0) (ticked [labReplica 1, labReplica 2, labReplica 3] 60000) 0 false).replicasOf
        labId) := by
  have hreg : Registry.Distinct [labReplica 1, labReplica 2, labReplica 3] := by
    unfold Registry.Distinct
    decide
  refine (idleScaleDown_keeps_floor_iff patient pair labId (fun _ => 0) _ 0 false hreg).mpr ?_
    (by decide)
  intro _ _ _
  right
  intro front r back heq hstate
  have hmem : r ∈ [labReplica 1, labReplica 2, labReplica 3] := by
    have hmem : r ∈ front ++ r :: back := List.mem_append_right _ List.mem_cons_self
    rw [← heq] at hmem
    exact hmem
  have hready : ∀ r ∈ [labReplica 1, labReplica 2, labReplica 3], r.state = .ready := by decide
  exact absurd (hready r hmem) hstate

/-- A ready replica is stopped while another one is out of routing. -/
theorem floor_broken_by_restart :
    pair.effectiveMinReplicas.val = 2 ∧ readyCount ((idlePool 60000).replicasOf labId) = 2 ∧
      readyCount ((idleScaleDown patient pair (idlePool 60000) labId (fun _ => 0)
        (ticked (idlePool 60000) 60000) 0 false).replicasOf labId) = 1 := by
  decide

end Example

end Ruscker.Scaler.MixedPools
