import Mathlib.Algebra.Group.Nat.Defs
import Ruscker.Lib.Machine

/-!
# The identity cache

Proxied requests read a user's identity through a cache whose entries carry the generation
that was current in front of their database read.  An edit commits and then invalidates:
it bumps the generation and clears the map shard by shard.  A fill may land after the clear;
it is served only while its generation is the current one.

The counter has 64 bits.  Beside it the machine keeps when each invalidation that has bumped
it began, so an entry can say how many of them its generation counts.
-/

namespace Ruscker.Proxy.IdentityCache

open Machines Machines.Machine

variable {κ ι : Type}

/-- `AtomicU64` wraps. -/
def generations : Nat := 2 ^ 64

/-- A generation as read in front of a database read. -/
structure Snapshot where
  generation : Nat
  /-- the bumps the counter had seen -/
  bumps : Nat
  deriving DecidableEq

/-- An identity and the moment its database read began. -/
structure Fill (ι : Type) where
  snapshot : Snapshot
  identity : ι
  began : Nat
  deriving DecidableEq

structure Entry (ι : Type) where
  fill : Fill ι
  filledAt : Nat
  deriving DecidableEq

/-- A call of `resolve_identity` between its steps. -/
inductive Phase (ι : Type) where
  | getting
  | found (entry : Entry ι)
  | missed
  | snapped (snapshot : Snapshot)
  | reading (snapshot : Snapshot) (began : Nat)
  | filling (fill : Fill ι)
  | done
  deriving DecidableEq

/-- The entry a get holds. -/
def Phase.entry : Phase ι → Option (Entry ι)
  | .found e => some e
  | _ => none

structure Lookup (κ ι : Type) where
  user : κ
  asked : Nat
  phase : Phase ι
  deriving DecidableEq

/-- A call of `invalidate`; it clears one shard of the map after the other. -/
inductive Progress where
  | begun
  | clearing (shard : Nat)
  deriving DecidableEq

structure Invalidation where
  began : Nat
  progress : Progress
  deriving DecidableEq

/-- An invalidation that has returned. -/
structure Return where
  began : Nat
  returned : Nat
  deriving DecidableEq

/-- A get that yielded an identity, and the moment the identity's read began. -/
structure Hit where
  asked : Nat
  read : Nat
  deriving DecidableEq

structure State (κ ι : Type) where
  moment : Nat
  clock : Nat
  users : κ → Option ι
  generation : Nat
  map : κ → Option (Entry ι)
  lookups : List (Lookup κ ι)
  invalidations : List Invalidation
  bumped : List Nat
  returns : List Return
  hits : List Hit

inductive Event (κ ι : Type) where
  | get (user : κ)
  | find (i : Nat)
  | check (i : Nat)
  | snapshot (i : Nat)
  | beginRead (i : Nat)
  | endRead (i : Nat) (answered : Bool)
  | store (i : Nat)
  | commit (user : κ) (row : Option ι)
  | invalidate
  | bump (j : Nat)
  | clear (j : Nat)
  | finish (j : Nat)
  | tick (d : Nat)

/-- The time to live and the shards of the map. -/
structure Params (κ : Type) where
  ttl : Nat
  shards : Nat
  shardOf : κ → Nat

section Steps

variable [DecidableEq κ] [Inhabited ι] (P : Params κ)

namespace State

variable (s : State κ ι)

/-- Move a lookup to another phase. -/
def setPhase (i : Nat) (l : Lookup κ ι) (phase : Phase ι) : State κ ι :=
  { s with lookups := s.lookups.set i { l with phase } }

/-- `get` compares the generation of the entry it holds with the current one. -/
def serves (e : Entry ι) : Bool :=
  e.fill.snapshot.generation = s.generation && s.clock - e.filledAt < P.ttl

def stepLookup (i : Nat) (f : Lookup κ ι → Option (State κ ι)) : Option (State κ ι) :=
  s.lookups[i]?.bind f

def apply : Event κ ι → Option (State κ ι)
  | .get user => some { s with lookups := s.lookups ++ [⟨user, s.moment, .getting⟩] }
  | .find i => s.stepLookup i fun l =>
    match l.phase with
    | .getting => some (s.setPhase i l ((s.map l.user).elim .missed .found))
    | _ => none
  | .check i => s.stepLookup i fun l =>
    match l.phase with
    | .found e =>
      if s.serves P e then
        some { s.setPhase i l .done with hits := s.hits ++ [⟨l.asked, e.fill.began⟩] }
      else some (s.setPhase i l .missed)
    | _ => none
  | .snapshot i => s.stepLookup i fun l =>
    match l.phase with
    | .missed => some (s.setPhase i l (.snapped ⟨s.generation, s.bumped.length⟩))
    | _ => none
  | .beginRead i => s.stepLookup i fun l =>
    match l.phase with
    | .snapped snap => some (s.setPhase i l (.reading snap s.moment))
    | _ => none
  -- an account that is not there reads as the default identity, a failed read is not stored
  | .endRead i answered => s.stepLookup i fun l =>
    match l.phase with
    | .reading snap began =>
      if answered then
        some (s.setPhase i l (.filling ⟨snap, (s.users l.user).getD default, began⟩))
      else some (s.setPhase i l .done)
    | _ => none
  | .store i => s.stepLookup i fun l =>
    match l.phase with
    | .filling fill =>
      some { s.setPhase i l .done with map := Function.update s.map l.user (some ⟨fill, s.clock⟩) }
    | _ => none
  | .commit user row => some { s with users := Function.update s.users user row }
  | .invalidate => some { s with invalidations := s.invalidations ++ [⟨s.moment, .begun⟩] }
  | .bump j => s.invalidations[j]?.bind fun v =>
    match v.progress with
    | .begun => some { s with
        generation := (s.generation + 1) % generations
        bumped := s.bumped ++ [v.began]
        invalidations := s.invalidations.set j ⟨v.began, .clearing 0⟩ }
    | _ => none
  | .clear j => s.invalidations[j]?.bind fun v =>
    match v.progress with
    | .clearing k =>
      if k < P.shards then
        some { s with
          map := fun u => if P.shardOf u = k then none else s.map u
          invalidations := s.invalidations.set j ⟨v.began, .clearing (k + 1)⟩ }
      else none
    | _ => none
  | .finish j => s.invalidations[j]?.bind fun v =>
    if v.progress = .clearing P.shards then
      some { s with
        invalidations := s.invalidations.eraseIdx j
        returns := s.returns ++ [⟨v.began, s.moment⟩] }
    else none
  | .tick d => some { s with clock := s.clock + d }

end State

/-- Every event happens at a moment of its own. -/
def step (s : State κ ι) (e : Event κ ι) : Option (State κ ι) :=
  (s.apply P e).map fun s' => { s' with moment := s.moment + 1 }

def machine : Machine (State κ ι) (Event κ ι) := ⟨step P⟩

def init (users : κ → Option ι) : State κ ι :=
  ⟨0, 0, users, 0, fun _ => none, [], [], [], [], []⟩

end Steps

/-- No get that started after an invalidation had returned yielded an identity read from
before that invalidation. -/
def Fresh (s : State κ ι) : Prop :=
  ∀ h ∈ s.hits, ∀ r ∈ s.returns, r.returned ≤ h.asked → r.began ≤ h.read

/-- Fewer bumps than the counter has values fall between the snapshot of an entry and the
check that serves it. -/
def InRange (s : State κ ι) : Event κ ι → Prop
  | .check i => ∀ l ∈ s.lookups[i]?, ∀ e ∈ l.phase.entry,
    s.bumped.length < e.fill.snapshot.bumps + generations
  | _ => True

instance (s : State κ ι) (e : Event κ ι) : Decidable (InRange s e) :=
  match e with
  | .check _ => by
    unfold InRange
    exact inferInstance
  | .get _ | .find _ | .snapshot _ | .beginRead _ | .endRead .. | .store _ | .commit .. |
    .invalidate | .bump _ | .clear _ | .finish _ | .tick _ => isTrue trivial

/-! ## The invariant -/

/-- The snapshot counts the first invalidations of the list. -/
def Snapshot.Counts (snap : Snapshot) (bumped : List Nat) : Prop :=
  snap.generation = snap.bumps % generations ∧ snap.bumps ≤ bumped.length

/-- Every invalidation the snapshot counts began in front of the read. -/
def Ordered (bumped : List Nat) (snap : Snapshot) (began : Nat) : Prop :=
  snap.Counts bumped ∧ ∀ b ∈ bumped.take snap.bumps, b ≤ began

def Phase.Good (bumped : List Nat) : Phase ι → Prop
  | .found e => Ordered bumped e.fill.snapshot e.fill.began
  | .snapped snap => snap.Counts bumped
  | .reading snap began => Ordered bumped snap began
  | .filling fill => Ordered bumped fill.snapshot fill.began
  | _ => True

theorem Snapshot.Counts.concat {snap : Snapshot} {bumped : List Nat} (h : snap.Counts bumped)
    (b : Nat) : snap.Counts (bumped ++ [b]) := by
  refine ⟨h.1, ?_⟩
  rw [List.length_append]
  exact Nat.le_trans h.2 (Nat.le_add_right _ _)

theorem Ordered.concat {bumped : List Nat} {snap : Snapshot} {began : Nat}
    (h : Ordered bumped snap began) (b : Nat) : Ordered (bumped ++ [b]) snap began := by
  refine ⟨h.1.concat b, ?_⟩
  rw [List.take_append_of_le_length h.1.2]
  exact h.2

theorem Phase.Good.concat {bumped : List Nat} {phase : Phase ι} (h : phase.Good bumped) (b : Nat) :
    phase.Good (bumped ++ [b]) := by
  cases phase with
  | found e => exact Ordered.concat h b
  | snapped snap => exact Snapshot.Counts.concat h b
  | reading snap began => exact Ordered.concat h b
  | filling fill => exact Ordered.concat h b
  | getting => trivial
  | missed => trivial
  | done => trivial

/-- What holds in front of the moment `n`. -/
structure Inv (n : Nat) (s : State κ ι) : Prop where
  counted : s.generation = s.bumped.length % generations
  bumped : ∀ b ∈ s.bumped, b < n
  invalidations : ∀ v ∈ s.invalidations, v.began < n ∧ (v.progress ≠ .begun → v.began ∈ s.bumped)
  lookups : ∀ l ∈ s.lookups, l.asked < n ∧ l.phase.Good s.bumped
  entries : ∀ u e, s.map u = some e → Ordered s.bumped e.fill.snapshot e.fill.began
  returns : ∀ r ∈ s.returns, r.began ∈ s.bumped
  hits : ∀ h ∈ s.hits, h.asked < n
  fresh : Fresh s

namespace Inv

variable {n : Nat} {s : State κ ι}

theorem mono {m : Nat} (h : Inv n s) (hnm : n ≤ m) : Inv m s where
  counted := h.counted
  bumped b hb := Nat.lt_of_lt_of_le (h.bumped b hb) hnm
  invalidations v hv := ⟨Nat.lt_of_lt_of_le (h.invalidations v hv).1 hnm, (h.invalidations v hv).2⟩
  lookups l hl := ⟨Nat.lt_of_lt_of_le (h.lookups l hl).1 hnm, (h.lookups l hl).2⟩
  entries := h.entries
  returns := h.returns
  hits a ha := Nat.lt_of_lt_of_le (h.hits a ha) hnm
  fresh := h.fresh

theorem setPhase {i : Nat} {l : Lookup κ ι} {phase : Phase ι} (h : Inv n s)
    (hl : s.lookups[i]? = some l) (hphase : phase.Good s.bumped) :
    Inv n (s.setPhase i l phase) :=
  { h with
    lookups := forall_mem_set h.lookups
      ⟨(h.lookups l (List.mem_of_getElem? hl)).1, hphase⟩ }

/-- The generation of a served entry counts every bump. -/
theorem bumps_eq {e : Entry ι} (h : Inv n s)
    (hentry : Ordered s.bumped e.fill.snapshot e.fill.began)
    (hrange : s.bumped.length < e.fill.snapshot.bumps + generations)
    (hserves : e.fill.snapshot.generation = s.generation) :
    e.fill.snapshot.bumps = s.bumped.length := by
  have hmod : e.fill.snapshot.bumps % generations = s.bumped.length % generations := by
    rw [← hentry.1.1, hserves, h.counted]
  have hle := hentry.1.2
  have hgap : (s.bumped.length - e.fill.snapshot.bumps) % generations = 0 :=
    Nat.sub_mod_eq_zero_of_mod_eq hmod.symm
  rw [Nat.mod_eq_of_lt (by omega)] at hgap
  omega

theorem hit {i : Nat} {l : Lookup κ ι} {e : Entry ι} (h : Inv n s)
    (hl : s.lookups[i]? = some l) (hphase : l.phase = .found e)
    (hrange : s.bumped.length < e.fill.snapshot.bumps + generations)
    (hserves : e.fill.snapshot.generation = s.generation) :
    Inv n { s.setPhase i l .done with hits := s.hits ++ [⟨l.asked, e.fill.began⟩] } := by
  have hlookup := h.lookups l (List.mem_of_getElem? hl)
  have hentry : Ordered s.bumped e.fill.snapshot e.fill.began := by
    have hgood := hlookup.2
    rw [hphase] at hgood
    exact hgood
  have hdone : Inv n (s.setPhase i l .done) := h.setPhase hl trivial
  refine { hdone with
    hits := forall_mem_concat h.hits hlookup.1
    fresh := ?_ }
  refine forall_mem_concat h.fresh fun r hr _ => ?_
  have hall : s.bumped.take e.fill.snapshot.bumps = s.bumped := by
    rw [h.bumps_eq hentry hrange hserves, List.take_length]
  refine hentry.2 r.began ?_
  rw [hall]
  exact h.returns r hr

theorem store {i : Nat} {l : Lookup κ ι} {fill : Fill ι} [DecidableEq κ] (h : Inv n s)
    (hl : s.lookups[i]? = some l) (hfill : Ordered s.bumped fill.snapshot fill.began) :
    Inv n { s.setPhase i l .done with
      map := Function.update s.map l.user (some ⟨fill, s.clock⟩) } := by
  have hdone : Inv n (s.setPhase i l .done) := h.setPhase hl trivial
  refine { hdone with entries := ?_ }
  intro u e he
  dsimp only at he ⊢
  by_cases hu : u = l.user
  · subst hu
    rw [Function.update_self] at he
    cases he
    exact hfill
  · rw [Function.update_of_ne hu] at he
    exact h.entries u e he

/-- A bump makes every generation that is about a stale one. -/
theorem bump {j : Nat} {v : Invalidation} (h : Inv n s) (hv : s.invalidations[j]? = some v) :
    Inv n { s with
      generation := (s.generation + 1) % generations
      bumped := s.bumped ++ [v.began]
      invalidations := s.invalidations.set j ⟨v.began, .clearing 0⟩ } where
  counted := by
    dsimp only
    rw [h.counted, List.length_append, List.length_singleton, Nat.mod_add_mod]
  bumped := forall_mem_concat h.bumped (h.invalidations v (List.mem_of_getElem? hv)).1
  invalidations := by
    refine forall_mem_set (fun w hw => ⟨(h.invalidations w hw).1, fun hne => ?_⟩)
      ⟨(h.invalidations v (List.mem_of_getElem? hv)).1, fun _ => ?_⟩
    · exact List.mem_append_left _ ((h.invalidations w hw).2 hne)
    · exact List.mem_append_right _ List.mem_cons_self
  lookups l hl := ⟨(h.lookups l hl).1, (h.lookups l hl).2.concat v.began⟩
  entries u e he := (h.entries u e he).concat v.began
  returns r hr := List.mem_append_left _ (h.returns r hr)
  hits := h.hits
  fresh := h.fresh

theorem clear {j k : Nat} {v : Invalidation} (h : Inv n s) (hv : s.invalidations[j]? = some v)
    (hprogress : v.progress = .clearing k) (p : κ → Bool) :
    Inv n { s with
      map := fun u => if p u then none else s.map u
      invalidations := s.invalidations.set j ⟨v.began, .clearing (k + 1)⟩ } := by
  have hold := h.invalidations v (List.mem_of_getElem? hv)
  refine { h with
    invalidations := forall_mem_set h.invalidations ⟨hold.1, fun _ => hold.2 (by simp [hprogress])⟩
    entries := fun u e he => ?_ }
  dsimp only at he
  split at he
  · cases he
  · exact h.entries u e he

/-- An invalidation returns later than every get that has yielded was asked for. -/
theorem finish {j : Nat} {v : Invalidation} (h : Inv s.moment s)
    (hv : s.invalidations[j]? = some v) (hprogress : v.progress ≠ .begun) :
    Inv s.moment { s with
      invalidations := s.invalidations.eraseIdx j
      returns := s.returns ++ [⟨v.began, s.moment⟩] } := by
  have hold := h.invalidations v (List.mem_of_getElem? hv)
  refine { h with
    invalidations := fun w hw => h.invalidations w (List.mem_of_mem_eraseIdx hw)
    returns := forall_mem_concat h.returns (hold.2 hprogress)
    fresh := ?_ }
  intro a ha
  refine forall_mem_concat (h.fresh a ha) fun hreturned => ?_
  exact absurd (h.hits a ha) (Nat.not_lt.mpr hreturned)

end Inv

theorem inv_init (users : κ → Option ι) : Inv 0 (init users : State κ ι) where
  counted := rfl
  bumped b hb := absurd hb List.not_mem_nil
  invalidations v hv := absurd hv List.not_mem_nil
  lookups l hl := absurd hl List.not_mem_nil
  entries u e he := by cases he
  returns r hr := absurd hr List.not_mem_nil
  hits a ha := absurd ha List.not_mem_nil
  fresh a ha := absurd ha List.not_mem_nil

/-- A step of a lookup: the lookup it moves, and what it does with it. -/
theorem stepLookup_eq_some {s s' : State κ ι} {i : Nat} {f : Lookup κ ι → Option (State κ ι)}
    (h : s.stepLookup i f = some s') : ∃ l, s.lookups[i]? = some l ∧ f l = some s' :=
  Option.bind_eq_some_iff.mp h

section Run

variable [DecidableEq κ] [Inhabited ι] {P : Params κ} {s s' : State κ ι} {e : Event κ ι}

theorem inv_apply (h : Inv s.moment s) (hrange : InRange s e) (happly : s.apply P e = some s') :
    Inv (s.moment + 1) s' := by
  have hnext : Inv (s.moment + 1) s := h.mono (Nat.le_succ _)
  cases e with
  | get user =>
    cases happly
    exact { hnext with
      lookups := forall_mem_concat hnext.lookups ⟨Nat.lt_succ_self _, trivial⟩ }
  | find i =>
    obtain ⟨l, hl, happly⟩ := stepLookup_eq_some happly
    split at happly
    · cases happly
      refine hnext.setPhase hl ?_
      cases hmap : s.map l.user with
      | none => trivial
      | some e => exact h.entries _ e hmap
    · cases happly
  | check i =>
    obtain ⟨l, hl, happly⟩ := stepLookup_eq_some happly
    split at happly
    · next e hphase =>
      split at happly
      · next hserves =>
        cases happly
        rw [State.serves, Bool.and_eq_true, decide_eq_true_eq] at hserves
        exact hnext.hit hl hphase (hrange l hl e (by rw [hphase]; rfl)) hserves.1
      · cases happly
        exact hnext.setPhase hl trivial
    · cases happly
  | snapshot i =>
    obtain ⟨l, hl, happly⟩ := stepLookup_eq_some happly
    split at happly
    · cases happly
      exact hnext.setPhase hl ⟨h.counted, Nat.le_refl _⟩
    · cases happly
  | beginRead i =>
    obtain ⟨l, hl, happly⟩ := stepLookup_eq_some happly
    split at happly
    · next snap hphase =>
      cases happly
      have hgood := (h.lookups l (List.mem_of_getElem? hl)).2
      rw [hphase] at hgood
      exact hnext.setPhase hl ⟨hgood, fun b hb => Nat.le_of_lt (h.bumped b (List.mem_of_mem_take hb))⟩
    · cases happly
  | endRead i answered =>
    obtain ⟨l, hl, happly⟩ := stepLookup_eq_some happly
    split at happly
    · next snap began hphase =>
      have hgood := (h.lookups l (List.mem_of_getElem? hl)).2
      rw [hphase] at hgood
      split at happly
      · cases happly
        exact hnext.setPhase hl hgood
      · cases happly
        exact hnext.setPhase hl trivial
    · cases happly
  | store i =>
    obtain ⟨l, hl, happly⟩ := stepLookup_eq_some happly
    split at happly
    · next fill hphase =>
      cases happly
      have hgood := (h.lookups l (List.mem_of_getElem? hl)).2
      rw [hphase] at hgood
      exact hnext.store hl hgood
    · cases happly
  | commit user row =>
    cases happly
    exact { hnext with }
  | invalidate =>
    cases happly
    exact { hnext with
      invalidations := forall_mem_concat hnext.invalidations
        ⟨Nat.lt_succ_self _, fun hne => absurd rfl hne⟩ }
  | bump j =>
    obtain ⟨v, hv, happly⟩ := Option.bind_eq_some_iff.mp happly
    split at happly
    · cases happly
      exact hnext.bump hv
    · cases happly
  | clear j =>
    obtain ⟨v, hv, happly⟩ := Option.bind_eq_some_iff.mp happly
    split at happly
    · next k hprogress =>
      split at happly
      · cases happly
        simpa using hnext.clear hv hprogress fun u => decide (P.shardOf u = k)
      · cases happly
    · cases happly
  | finish j =>
    obtain ⟨v, hv, happly⟩ := Option.bind_eq_some_iff.mp happly
    split at happly
    · next hprogress =>
      cases happly
      exact (h.finish hv (by simp [hprogress])).mono (Nat.le_succ _)
    · cases happly
  | tick d =>
    cases happly
    exact { hnext with }

theorem inv_step (h : Inv s.moment s) (hrange : InRange s e)
    (hstep : (machine P).step s e = some s') : Inv s'.moment s' := by
  obtain ⟨s₁, happly, rfl⟩ := Option.map_eq_some_iff.mp hstep
  exact { inv_apply h hrange happly with }

/-- **Freshness.** While the counter does not come round between a snapshot and the check of
its entry, a get that starts after an invalidation returned yields nothing older. -/
theorem fresh_of_inRange {users : κ → Option ι} {events : List (Event κ ι)}
    (h : (machine P).Run InRange (init users) events s) : Fresh s :=
  (h.invariant (I := fun s => Inv s.moment s) (inv_init users)
    fun _ _ _ hinv hrange hstep => inv_step hinv hrange hstep).fresh

end Run

/-! ## Runs -/

section Example

def oneShard : Params Unit := ⟨30000, 1, fun _ => 0⟩

/-- A fill that began in front of the invalidation lands after it and is not served. -/
def lateFill : List (Event Unit Nat) :=
  [.get (), .find 0, .snapshot 0, .beginRead 0, .endRead 0 true, .commit () (some 2),
    .invalidate, .bump 0, .clear 0, .finish 0, .store 0, .get (), .find 1, .check 1]

theorem lateFill_runs : ((machine oneShard).execIf InRange (init fun _ => some 1)
    lateFill).isSome = true := by
  decide

theorem fresh_lateFill : Fresh (((machine oneShard).execIf InRange (init fun _ => some 1)
    lateFill).get lateFill_runs) :=
  fresh_of_inRange (run_execIf lateFill_runs)

/-- A whole edit of the account and the invalidation after it. -/
def edit : List (Event Unit Nat) :=
  [.commit () (some 2), .invalidate, .bump 0, .clear 0, .finish 0]

/-- As many edits as the counter has values between a read and its fill. -/
def wrapRun : List (Event Unit Nat) :=
  [.get (), .find 0, .snapshot 0, .beginRead 0, .endRead 0 true] ++
    (List.replicate generations edit).flatten ++ [.store 0, .get (), .find 1, .check 1]

theorem exec_edit {s : State Unit Nat} (hs : s.invalidations = []) :
    ∃ s', (machine oneShard).exec s edit = some s' ∧ s'.moment = s.moment + 5 ∧
      s'.clock = s.clock ∧ s'.generation = (s.generation + 1) % generations ∧
      s'.lookups = s.lookups ∧ s'.invalidations = [] ∧
      s'.returns = s.returns ++ [⟨s.moment + 1, s.moment + 4⟩] := by
  obtain ⟨moment, clock, users, generation, map, lookups, invalidations, bumped, returns, hits⟩ := s
  cases hs
  exact ⟨_, rfl, rfl, rfl, rfl, rfl, rfl, rfl⟩

theorem exec_edits (n : Nat) {s : State Unit Nat} (hs : s.invalidations = [])
    (hgeneration : s.generation < generations) :
    ∃ s', (machine oneShard).exec s (List.replicate (n + 1) edit).flatten = some s' ∧
      s'.clock = s.clock ∧ s'.generation = (s.generation + (n + 1)) % generations ∧
      s'.lookups = s.lookups ∧ s'.invalidations = [] ∧
      ∃ r ∈ s'.returns, s.moment < r.began ∧ r.returned < s'.moment := by
  induction n generalizing s with
  | zero =>
    obtain ⟨s', hexec, hmoment, hclock, hgen, hlookups, hinv, hreturns⟩ := exec_edit hs
    refine ⟨s', hexec, hclock, hgen, hlookups, hinv, ⟨s.moment + 1, s.moment + 4⟩, ?_, ?_, ?_⟩
    · rw [hreturns]
      exact List.mem_append_right _ List.mem_cons_self
    · exact Nat.lt_succ_self _
    · dsimp only
      omega
  | succ n ih =>
    obtain ⟨s₁, hexec, hmoment, hclock, hgen, hlookups, hinv, -⟩ := exec_edit hs
    have hlt : s₁.generation < generations := hgen ▸ Nat.mod_lt _ (by decide)
    obtain ⟨s', hexec', hclock', hgen', hlookups', hinv', r, hr, hbegan, hreturned⟩ := ih hinv hlt
    refine ⟨s', ?_, hclock'.trans hclock, ?_, hlookups'.trans hlookups, hinv', r, hr, ?_, hreturned⟩
    · rw [List.replicate_succ, List.flatten_cons, exec_append, hexec]
      exact hexec'
    · rw [hgen', hgen, Nat.mod_add_mod]
      congr 1
      omega
    · omega

/-- The state after the first read, in front of its fill. -/
def afterRead : State Unit Nat :=
  { (init fun _ => some 1 : State Unit Nat) with
    moment := 5
    lookups := [⟨(), 0, .filling ⟨⟨0, 0⟩, 1, 3⟩⟩] }

theorem exec_lastGet {s : State Unit Nat} (hclock : s.clock = 0) (hgen : s.generation = 0)
    (hlookups : s.lookups = afterRead.lookups) :
    ∃ s', (machine oneShard).exec s [.store 0, .get (), .find 1, .check 1] = some s' ∧
      s'.hits = s.hits ++ [⟨s.moment + 1, 3⟩] ∧ s'.returns = s.returns := by
  obtain ⟨moment, clock, users, generation, map, lookups, invalidations, bumped, returns, hits⟩ := s
  cases hclock
  cases hgen
  cases hlookups
  exact ⟨_, rfl, rfl, rfl⟩

/-- After a whole round of the counter the fill of the first read is served. -/
theorem wrapRun_stale : ∃ s, (machine oneShard).exec (init fun _ => some 1) wrapRun = some s ∧
    ¬ Fresh s := by
  obtain ⟨n, hn⟩ : ∃ n, generations = n + 1 := ⟨2 ^ 64 - 1, by decide⟩
  have hread : (machine oneShard).exec (init fun _ => some 1)
      [.get (), .find 0, .snapshot 0, .beginRead 0, .endRead 0 true] = some afterRead := rfl
  obtain ⟨s, hedits, hclock, hgen, hlookups, -, r, hr, hbegan, hreturned⟩ :=
    exec_edits n (s := afterRead) rfl (by decide)
  have hround : s.generation = 0 := by
    rw [hgen, ← hn, show afterRead.generation = 0 from rfl, Nat.zero_add, Nat.mod_self]
  obtain ⟨s', hlast, hhits, hreturns⟩ := exec_lastGet hclock hround hlookups
  refine ⟨s', ?_, fun hfresh => ?_⟩
  · rw [wrapRun, hn, exec_append, exec_append, hread, Option.bind_some, hedits, Option.bind_some,
      hlast]
  · have hstale := hfresh ⟨s.moment + 1, 3⟩
      (hhits ▸ List.mem_append_right _ List.mem_cons_self) r (hreturns ▸ hr)
      (Nat.le_succ_of_le (Nat.le_of_lt hreturned))
    have hmoment : afterRead.moment = 5 := rfl
    dsimp only at hstale
    omega

end Example

end Ruscker.Proxy.IdentityCache
