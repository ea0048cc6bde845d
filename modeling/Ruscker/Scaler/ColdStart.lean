import Ruscker.Proxy.Moves

/-!
# Cold starts

The splash of a spec asks for a replica with `ensure_replica_available`, one call for each visitor.
A call waits for the spawn mutex of the spec and looks for a replica then, so that those that come
after a successful spawn find what it has brought, and those after a failed one try again.
-/

namespace Ruscker.Scaler.ColdStart

open Machines Machines.Machine Proxy.Calls

variable {ι κ : Type*}

/-! ## Calls for one spec -/

/-- A replica as the backend starts it: of the spec, up or coming up, and without a session. -/
structure Fresh (ι : Type*) (spec : Str) where
  replica : Replica ι
  ofSpec : replica.specId = spec
  up : replica.state = .ready ∨ replica.state = .starting
  unused : replica.sessionsActive = 0

/-- What becomes of the spawns, by the number of the call.  One fails when its request cannot be
made, too. -/
inductive Entry where
  | tried (call : Nat)
  | failed (call : Nat)
  | succeeded (call : Nat)
  deriving DecidableEq

def Entry.isSuccess : Entry → Bool
  | .succeeded _ => true
  | _ => false

/-- The calls, the spawns so far, and of each call whether it has returned `Ok` or an error. -/
structure State (ι κ : Type*) where
  base : Proxy.Calls.State ι κ
  log : List Entry
  answers : Nat → Option Bool

inductive Event (ι κ : Type*) (spec : Str) where
  | call
  -- a call goes on, and its spawn fails or brings a replica
  | advance (call : Nat) (o : Outside ι κ) (spawned : Option (Fresh ι spec))

def Event.isCall {spec : Str} : Event ι κ spec → Bool
  | .call => true
  | .advance _ _ _ => false

/-- What a step from one phase to another says about a spawn. -/
def note (call : Nat) : Phase ι κ → Phase ι κ → List Entry
  | .capping, .spawning _ => [.tried call]
  | .spawning _, .adding _ _ => [.succeeded call]
  | .spawning _, .done => [.failed call]
  | _, _ => []

/-- A call returns an error where its spawn has failed, and else `Ok`. -/
def answer : Phase ι κ → Phase ι κ → Option Bool
  | .spawning _, .done => some false
  | _, .done => some true
  | _, _ => none

section Steps

variable [Floats] [DecidableEq ι] [DecidableEq κ] (node : Node κ) (spec : Str)

/-- A section of `spawn_one`. -/
def advanceCall (s : State ι κ) (i : Nat) (c : Call ι κ) (o : Outside ι κ) : Option (State ι κ) :=
  (advance node s.base i c o).map fun base =>
    let q := (base.calls[i]?).elim .done Call.phase
    { base
      log := s.log ++ note i c.phase q
      answers := Function.update s.answers i (answer c.phase q) }

def machine : Machine (State ι κ) (Event ι κ spec) where
  step s
    | .call => ((Proxy.Calls.machine node).step s.base (.start spec (.queued .ensureAvailable))).map
        fun base => { s with base }
    | .advance i o spawned => (s.base.calls[i]?).bind fun c =>
        advanceCall node s i c { o with spawned := spawned.map Fresh.replica }

/-- No call yet. -/
def boot (rows : Registry ι) : State ι κ := ⟨Proxy.Calls.boot rows, [], fun _ => none⟩

end Steps

/-! ## What a step can be -/

/-- A replica that the calls to come are content with. -/
def IsContent (r : Replica ι) : Prop := r.state = .starting ∨ r.isAccepting = true

def IsAvailable (spec : Str) (rows : Registry ι) : Prop := ∃ r ∈ rows.replicasOf spec, IsContent r

theorem isAvailable_iff {spec : Str} {rows : Registry ι} :
    ((rows.replicasOf spec).any fun r => r.state = .starting || r.isAccepting) = true ↔
      IsAvailable spec rows := by
  simp [IsAvailable, IsContent]

/-- The phases of `ensure_replica_available`. -/
def OfEnsure (spec : Str) : Phase ι κ → Prop
  | .queued .ensureAvailable | .ensuring | .capping | .spawning false | .done => True
  | .adding false r => r.specId = spec ∧ IsContent r
  | _ => False

/-- The steps of a call: its phases before and after, the rows after it, what it says about a spawn
and the answer of the call. -/
inductive Hop [Floats] (node : Node κ) (spec : Str) (s : Proxy.Calls.State ι κ) (i : Nat) :
    Phase ι κ → Phase ι κ → Registry ι → List Entry → Option Bool → Prop
  | lock : s.isFree spec = true →
    Hop node spec s i (.queued .ensureAvailable) .ensuring s.replicas [] none
  | coalesce : IsAvailable spec s.replicas →
    Hop node spec s i .ensuring .done s.replicas [] (some true)
  | look : ¬ IsAvailable spec s.replicas → Hop node spec s i .ensuring .capping s.replicas [] none
  | full : Hop node spec s i .capping .done s.replicas [] (some true)
  | attempt : Hop node spec s i .capping (.spawning false) s.replicas [.tried i] none
  | fail : Hop node spec s i (.spawning false) .done s.replicas [.failed i] (some false)
  | succeed (r : Fresh ι spec) : Hop node spec s i (.spawning false)
    (.adding false { r.replica with sessionsMax := (node.settings spec).effectiveSeats.val })
    s.replicas [.succeeded i] none
  | add (r : Replica ι) :
    Hop node spec s i (.adding false r) .done (s.replicas.add r) [] (some true)

/-- The state after a step. -/
def State.after (s : State ι κ) (i : Nat) (c : Call ι κ) (q : Phase ι κ) (rows : Registry ι)
    (entries : List Entry) (ans : Option Bool) : State ι κ where
  base := { s.base.goto i c q with replicas := rows }
  log := s.log ++ entries
  answers := Function.update s.answers i ans

theorem phase_goto {base : Proxy.Calls.State ι κ} {i : Nat} {c : Call ι κ}
    (hc : base.calls[i]? = some c) (q : Phase ι κ) :
    ((base.goto i c q).calls[i]?).elim .done Call.phase = q := by
  have hlt := (List.getElem?_eq_some_iff.mp hc).1
  rw [State.goto, List.getElem?_set_self hlt]
  rfl

section Hops

variable [Floats] [DecidableEq ι] [DecidableEq κ] {node : Node κ} {spec : Str} {s s' : State ι κ}
  {i : Nat} {c : Call ι κ} {o : Outside ι κ} {spawned : Option (Fresh ι spec)}

/-- A section leads to a state by its phase and its rows. -/
theorem advanceCall_of_goto (hc : s.base.calls[i]? = some c) {q : Phase ι κ} {rows : Registry ι}
    (h : advance node s.base i c o = some { s.base.goto i c q with replicas := rows }) :
    advanceCall node s i c o = some (s.after i c q rows (note i c.phase q) (answer c.phase q)) := by
  rw [advanceCall, h]
  have hphase := phase_goto hc q
  simp only [Option.map_some, State.after]
  rw [show ({ s.base.goto i c q with replicas := rows } : Proxy.Calls.State ι κ).calls =
    (s.base.goto i c q).calls from rfl, hphase]

theorem hop_of_advanceCall (hc : s.base.calls[i]? = some c) (hspec : c.spec = spec)
    (hphase : OfEnsure spec c.phase)
    (h : advanceCall node s i c { o with spawned := spawned.map Fresh.replica } = some s') :
    ∃ q rows entries ans, Hop node spec s.base i c.phase q rows entries ans ∧
      s' = s.after i c q rows entries ans := by
  have hafter : ∀ {q : Phase ι κ} {rows : Registry ι},
      Hop node spec s.base i c.phase q rows (note i c.phase q) (answer c.phase q) →
      advance node s.base i c { o with spawned := spawned.map Fresh.replica } =
        some { s.base.goto i c q with replicas := rows } →
      ∃ q rows entries ans, Hop node spec s.base i c.phase q rows entries ans ∧
        s' = s.after i c q rows entries ans := by
    intro q rows hhop hadvance
    rw [advanceCall_of_goto hc hadvance, Option.some.injEq] at h
    exact ⟨q, rows, _, _, hhop, h.symm⟩
  obtain ⟨cspec, p⟩ := c
  obtain rfl : cspec = spec := hspec
  cases p with
  | queued g =>
    cases g with
    | ensureAvailable =>
      by_cases hfree : s.base.isFree cspec = true
      · exact hafter (.lock hfree) (by simp only [advance, hfree, if_pos]; rfl)
      · simp [advanceCall, advance, hfree] at h
    | _ => exact hphase.elim
  | ensuring =>
    by_cases havailable : IsAvailable cspec s.base.replicas
    · refine hafter (.coalesce havailable) ?_
      simp only [advance, if_pos (isAvailable_iff.mpr havailable)]
      rfl
    · refine hafter (.look havailable) ?_
      simp only [advance, if_neg fun hany => havailable (isAvailable_iff.mp hany)]
      rfl
  | capping =>
    by_cases hfull : (node.settings cspec).effectiveMaxReplicas.val ≤
        (s.base.replicas.replicasOf cspec).length
    · exact hafter .full (by simp only [advance, if_pos hfull]; rfl)
    · exact hafter .attempt (by simp only [advance, if_neg hfull]; rfl)
  | spawning visit =>
    cases visit with
    | true => exact hphase.elim
    | false =>
      cases spawned with
      | none => exact hafter .fail rfl
      | some r => exact hafter (.succeed r) rfl
  | adding visit r =>
    cases visit with
    | true => exact hphase.elim
    | false => exact hafter (.add r) rfl
  | done => cases h
  | _ => exact hphase.elim

end Hops

/-! ### What every step has in common -/

namespace Hop

variable [Floats] {node : Node κ} {spec : Str} {s : Proxy.Calls.State ι κ} {i : Nat}
  {p q : Phase ι κ} {rows : Registry ι} {entries : List Entry} {ans : Option Bool}
  (h : Hop node spec s i p q rows entries ans)
include h

theorem ne_done : p ≠ .done := by
  cases h <;> exact nofun

/-- The mutex is taken while it is free. -/
theorem locks (hq : q.locks = true) : p.locks = true ∨ s.isFree spec = true := by
  cases h with
  | lock hfree => exact .inr hfree
  | coalesce => cases hq
  | full => cases hq
  | fail => cases hq
  | add => cases hq
  | _ => exact .inl rfl

/-- Rows are only added. -/
theorem available (havailable : IsAvailable spec s.replicas) : IsAvailable spec rows := by
  cases h with
  | add r =>
    obtain ⟨x, hx, hcontent⟩ := havailable
    refine ⟨x, ?_, hcontent⟩
    rw [Registry.replicasOf, Registry.add, List.filter_append]
    exact List.mem_append_left _ hx
  | _ => exact havailable

/-- Only a call that holds the mutex and has found no replica has a spawn. -/
theorem spawns (hentries : entries ≠ []) : p = .capping ∨ p = .spawning false := by
  cases h with
  | attempt => exact .inl rfl
  | fail => exact .inr rfl
  | succeed r => exact .inr rfl
  | _ => exact absurd rfl hentries

theorem entries_cases : entries = [] ∨ ∃ e, entries = [e] := by
  cases h with
  | attempt => exact .inr ⟨_, rfl⟩
  | fail => exact .inr ⟨_, rfl⟩
  | succeed r => exact .inr ⟨_, rfl⟩
  | _ => exact .inl rfl

theorem answers : ans = none ↔ q ≠ .done := by
  cases h <;> simp

/-- A call fails by its own spawn. -/
theorem fails (j : Nat) : Entry.failed j ∈ entries ↔ j = i ∧ ans = some false := by
  cases h <;> simp

/-- What a spawn brings contents the calls to come. -/
theorem ofEnsure (hseats : 1 ≤ (node.settings spec).effectiveSeats.val) : OfEnsure spec q := by
  cases h with
  | succeed r =>
    refine ⟨r.ofSpec, ?_⟩
    rcases r.up with hready | hstarting
    · refine .inr ?_
      rw [Replica.isAccepting, Bool.and_eq_true, decide_eq_true_eq, decide_eq_true_eq]
      refine ⟨hready, ?_⟩
      rw [Replica.availableSeats]
      dsimp only
      rw [r.unused]
      exact hseats
    · exact .inl hstarting
  | _ => trivial

end Hop

/-! ## Runs -/

/-- The calls are of one spec, one at a time is in the mutex, and after a successful spawn there is
a replica, or its call is about to add it, and no other call is on its way to a spawn. -/
structure Sound (spec : Str) (s : State ι κ) : Prop where
  shape : ∀ c ∈ s.base.calls, c.spec = spec ∧ OfEnsure spec c.phase
  exclusive : s.base.calls.countP (fun c => c.phase.locks) ≤ 1
  provided : ∀ j, .succeeded j ∈ s.log →
    IsAvailable spec s.base.replicas ∨ ∃ c ∈ s.base.calls, ∃ r, c.phase = .adding false r
  quiet : ∀ j, .succeeded j ∈ s.log →
    ∀ c ∈ s.base.calls, c.phase ≠ .capping ∧ c.phase ≠ .spawning false
  last : ∀ front j back, s.log = front ++ .succeeded j :: back → back = []
  pending : ∀ j, s.answers j = none ↔ ∀ c ∈ s.base.calls[j]?, c.phase ≠ .done
  failures : ∀ j, s.answers j = some false ↔ .failed j ∈ s.log

section Runs

section Call

variable {spec : Str} {s : State ι κ}

theorem Sound.boot (rows : Registry ι) : Sound spec (boot rows : State ι κ) where
  shape _ hc := absurd hc List.not_mem_nil
  exclusive := Nat.zero_le 1
  provided _ hj := absurd hj List.not_mem_nil
  quiet _ hj := absurd hj List.not_mem_nil
  last front _ _ heq := absurd heq.symm (by simp [ColdStart.boot])
  pending _ := by simp [ColdStart.boot, Proxy.Calls.boot]
  failures _ := by simp [ColdStart.boot]

/-- A new call waits. -/
theorem Sound.call (h : Sound spec s) :
    Sound spec { s with base := s.base.begin spec (.queued .ensureAvailable) } where
  shape := forall_mem_concat h.shape ⟨rfl, trivial⟩
  exclusive := by
    simp only [Proxy.Calls.State.begin]
    rw [List.countP_append]
    exact h.exclusive
  provided j hj := by
    rcases h.provided j hj with havailable | ⟨c, hc, hadding⟩
    · exact .inl havailable
    · exact .inr ⟨c, List.mem_append_left _ hc, hadding⟩
  quiet j hj := forall_mem_concat (h.quiet j hj) ⟨nofun, nofun⟩
  last := h.last
  pending j := by
    rw [h.pending j]
    simp only [Proxy.Calls.State.begin]
    constructor
    · intro hold c hc
      rcases getElem?_concat_cases hc with rfl | hc
      · exact nofun
      · exact hold c hc
    · intro hnew c hc
      refine hnew c ?_
      rw [List.getElem?_append_left (List.getElem?_eq_some_iff.mp hc).1]
      exact hc
  failures := h.failures

/-- Where a call holds the mutex, no other does. -/
theorem Sound.alone (h : Sound spec s) {i : Nat} {c : Call ι κ} (hc : s.base.calls[i]? = some c)
    (hlocks : c.phase.locks = true) : ∀ d ∈ s.base.calls.eraseIdx i, d.phase.locks = false := by
  have hcount := countP_eraseIdx_add (p := fun c : Call ι κ => c.phase.locks) hc
  have hexclusive := h.exclusive
  rw [if_pos hlocks] at hcount
  have hzero : (s.base.calls.eraseIdx i).countP (fun c => c.phase.locks) = 0 := by omega
  intro d hd
  simpa using List.countP_eq_zero.mp hzero d hd

/-- At most one spawn succeeds, none is tried after that, and a call returns `Ok` unless its own
spawn has failed. -/
structure SingleFlight (s : State ι κ) : Prop where
  once : s.log.countP Entry.isSuccess ≤ 1
  last : ∀ front j back, s.log = front ++ .succeeded j :: back → back = []
  answers : ∀ i ok, s.answers i = some ok → (ok = true ↔ .failed i ∉ s.log)

theorem Sound.singleFlight (h : Sound spec s) : SingleFlight s where
  once := by
    by_cases hsome : ∃ e ∈ s.log, e.isSuccess = true
    · obtain ⟨e, he, hsuccess⟩ := hsome
      obtain ⟨first, front, back, hfront, hfirst, heq, -⟩ := List.exists_of_eraseP he hsuccess
      have hback : back = [] := by
        cases first with
        | succeeded j => exact h.last front j back heq
        | tried j => cases hfirst
        | failed j => cases hfirst
      have hnone : front.countP Entry.isSuccess = 0 := List.countP_eq_zero.mpr hfront
      rw [heq, hback, List.countP_append, hnone, List.countP_singleton, if_pos hfirst]
    · have hnone : s.log.countP Entry.isSuccess = 0 :=
        List.countP_eq_zero.mpr fun e he hsuccess => hsome ⟨e, he, hsuccess⟩
      omega
  last := h.last
  answers i ok hok := by
    rw [← h.failures i, hok]
    cases ok with
    | true => simp
    | false => simp

end Call

variable [Floats] {node : Node κ} {spec : Str} {s s' t : State ι κ} {i : Nat} {c : Call ι κ}
  {q : Phase ι κ} {rows : Registry ι} {entries : List Entry} {ans : Option Bool}

section Hop

variable (h : Sound spec s) (hc : s.base.calls[i]? = some c)
  (hhop : Hop node spec s.base i c.phase q rows entries ans)
include h hc hhop

/-- No call goes on to a spawn once one has succeeded. -/
theorem Sound.no_spawn {j : Nat} (hj : .succeeded j ∈ s.log) :
    entries = [] ∧ q ≠ .capping ∧ q ≠ .spawning false := by
  have hmem := List.mem_of_getElem? hc
  have hquiet := h.quiet j hj c hmem
  have hentries : entries = [] := by
    by_contra hne
    exact (hhop.spawns hne).elim hquiet.1 hquiet.2
  refine ⟨hentries, ?_⟩
  generalize hp : c.phase = p at hhop hquiet
  cases hhop with
  | look hnone =>
    -- the replica is there, or its call holds the mutex that this one holds
    rcases h.provided j hj with havailable | ⟨d, hd, r, hadding⟩
    · exact absurd havailable hnone
    · have hlocks : c.phase.locks = true := by rw [hp]; rfl
      have hother : d ∈ s.base.calls.eraseIdx i := by
        refine mem_eraseIdx_of_ne hc hd fun heq => ?_
        rw [heq, hp] at hadding
        cases hadding
      have hfree := h.alone hc hlocks d hother
      rw [hadding] at hfree
      cases hfree
  | attempt => exact absurd rfl hquiet.1
  | succeed r => exact absurd rfl hquiet.2
  | _ => exact ⟨nofun, nofun⟩

theorem Sound.exclusive_after : (s.base.calls.set i { c with phase := q }).countP
    (fun c => c.phase.locks) ≤ 1 := by
  have hcount := countP_set_add (p := fun c : Call ι κ => c.phase.locks)
    (b := { c with phase := q }) hc
  have hexclusive := h.exclusive
  dsimp only at hcount
  by_cases hq : q.locks = true
  · rcases hhop.locks hq with hp | hfree
    · rw [if_pos hp, if_pos hq] at hcount
      omega
    · have hzero : s.base.calls.countP (fun c => c.phase.locks) = 0 := by
        rw [List.countP_eq_zero]
        intro d hd hlocks
        have hnobody := List.all_eq_true.mp hfree d hd
        rw [hlocks, (h.shape d hd).1] at hnobody
        simp at hnobody
      have hone : (if q.locks = true then 1 else 0) ≤ 1 := by split <;> omega
      omega
  · rw [if_neg hq] at hcount
    omega

/-- A successful spawn has a replica, or the call that adds it. -/
theorem Sound.provided_after {j : Nat} (hj : .succeeded j ∈ s.log ++ entries) :
    IsAvailable spec rows ∨
      ∃ d ∈ s.base.calls.set i { c with phase := q }, ∃ r, d.phase = .adding false r := by
  rcases List.mem_append.mp hj with hold | hnew
  · rcases h.provided j hold with havailable | ⟨d, hd, r, hadding⟩
    · exact .inl (hhop.available havailable)
    by_cases hdc : d = c
    · subst hdc
      have hshape := (h.shape d hd).2
      rw [hadding] at hhop hshape
      cases hhop with
      | add =>
        refine .inl ⟨r, ?_, hshape.2⟩
        exact List.mem_filter.mpr ⟨Registry.mem_add.mpr (.inr rfl), decide_eq_true hshape.1⟩
    · exact .inr ⟨d, mem_set_of_ne hc hd hdc, r, hadding⟩
  · have hlt := (List.getElem?_eq_some_iff.mp hc).1
    generalize c.phase = p at hhop
    cases hhop with
    | succeed r => exact .inr ⟨_, List.mem_set hlt _, _, rfl⟩
    | _ => simp at hnew

/-- Nobody else is in the mutex when a spawn succeeds. -/
theorem Sound.quiet_after {j : Nat} (hj : .succeeded j ∈ s.log ++ entries) :
    ∀ d ∈ s.base.calls.set i { c with phase := q },
      d.phase ≠ .capping ∧ d.phase ≠ .spawning false := by
  rcases List.mem_append.mp hj with hold | hnew
  · exact forall_mem_set (h.quiet j hold) (h.no_spawn hc hhop hold).2
  · intro d hd
    generalize hp : c.phase = p at hhop
    cases hhop with
    | succeed r =>
      rcases mem_eraseIdx_of_mem_set hd with hother | rfl
      · have hlocks : c.phase.locks = true := by rw [hp]; rfl
        have hfree := h.alone hc hlocks d hother
        constructor <;> intro heq <;> rw [heq] at hfree <;> cases hfree
      · exact ⟨nofun, nofun⟩
    | _ => simp at hnew

theorem Sound.last_after {front back : List Entry} {j : Nat}
    (heq : s.log ++ entries = front ++ .succeeded j :: back) : back = [] := by
  rcases hhop.entries_cases with rfl | ⟨e, rfl⟩
  · rw [List.append_nil] at heq
    exact h.last front j back heq
  · rcases List.eq_nil_or_concat back with rfl | ⟨back', b, rfl⟩
    · rfl
    · rw [List.concat_eq_append, ← List.cons_append, ← List.append_assoc] at heq
      have hlog := (List.append_inj' heq rfl).1
      have hj : .succeeded j ∈ s.log := by
        rw [hlog]
        exact List.mem_append_right front List.mem_cons_self
      exact absurd (h.no_spawn hc hhop hj).1 (List.cons_ne_nil e [])

/-- A call that goes on has not answered before. -/
theorem Sound.unanswered : s.answers i = none := by
  rw [h.pending i, hc]
  intro d hd
  cases hd
  exact hhop.ne_done

theorem Sound.after (hseats : 1 ≤ (node.settings spec).effectiveSeats.val) :
    Sound spec (s.after i c q rows entries ans) where
  shape := forall_mem_set h.shape ⟨(h.shape c (List.mem_of_getElem? hc)).1, hhop.ofEnsure hseats⟩
  exclusive := h.exclusive_after hc hhop
  provided _ hj := h.provided_after hc hhop hj
  quiet _ hj := h.quiet_after hc hhop hj
  last _ _ _ heq := h.last_after hc hhop heq
  pending j := by
    by_cases hj : j = i
    · subst hj
      have hlt := (List.getElem?_eq_some_iff.mp hc).1
      simp only [State.after, Proxy.Calls.State.goto, Function.update_self,
        List.getElem?_set_self hlt]
      simpa using hhop.answers
    · simp only [State.after, Proxy.Calls.State.goto, Function.update_of_ne hj,
        List.getElem?_set_ne (Ne.symm hj)]
      exact h.pending j
  failures j := by
    simp only [State.after, List.mem_append, hhop.fails j]
    by_cases hj : j = i
    · subst hj
      have hnot : .failed j ∉ s.log := by
        rw [← h.failures, h.unanswered hc hhop]
        exact (Option.some_ne_none false).symm
      simp [hnot]
    · rw [Function.update_of_ne hj, h.failures]
      simp [hj]

end Hop

/-- The steps a call has before it. -/
def rank : Phase ι κ → Nat
  | .queued _ => 5
  | .ensuring => 4
  | .capping => 3
  | .spawning _ => 2
  | .adding _ _ => 1
  | _ => 0

theorem Hop.rank_lt {s : Proxy.Calls.State ι κ} {p : Phase ι κ}
    (h : Hop node spec s i p q rows entries ans) : rank q < rank p := by
  cases h <;> simp [rank]

variable [DecidableEq ι] [DecidableEq κ] {e : Event ι κ spec} {es : List (Event ι κ spec)}

/-- A step is a new call, or a call that goes on. -/
theorem step_cases (h : Sound spec s) (hstep : (machine node spec).step s e = some s') :
    e = .call ∧ s' = { s with base := s.base.begin spec (.queued .ensureAvailable) } ∨
    ∃ i o spawned c q rows entries ans, e = .advance i o spawned ∧ s.base.calls[i]? = some c ∧
      Hop node spec s.base i c.phase q rows entries ans ∧ s' = s.after i c q rows entries ans := by
  cases e with
  | call =>
    cases hstep
    exact .inl ⟨rfl, rfl⟩
  | advance i o spawned =>
    obtain ⟨c, hc, hadvance⟩ := Option.bind_eq_some_iff.mp hstep
    obtain ⟨hspec, hphase⟩ := h.shape c (List.mem_of_getElem? hc)
    obtain ⟨q, rows, entries, ans, hhop, hs'⟩ := hop_of_advanceCall hc hspec hphase hadvance
    exact .inr ⟨i, o, spawned, c, q, rows, entries, ans, rfl, hc, hhop, hs'⟩

/-- **Step lemma.** -/
theorem Sound.step (hseats : 1 ≤ (node.settings spec).effectiveSeats.val) (h : Sound spec s)
    (hstep : (machine node spec).step s e = some s') : Sound spec s' := by
  rcases step_cases h hstep with
    ⟨-, rfl⟩ | ⟨i, o, spawned, c, q, rows, entries, ans, -, hc, hhop, rfl⟩
  · exact h.call
  · exact h.after hc hhop hseats

/-! ### Every call ends -/

/-- The steps that calls have taken, and those that are left. -/
theorem advances_add_rank_le (h : Sound spec s)
    (hseats : 1 ≤ (node.settings spec).effectiveSeats.val)
    (hexec : (machine node spec).exec s es = some t) :
    es.countP (fun e => !e.isCall) + (t.base.calls.map fun c => rank c.phase).sum ≤
      5 * es.countP Event.isCall + (s.base.calls.map fun c => rank c.phase).sum := by
  induction es generalizing s with
  | nil =>
    cases hexec
    simp
  | cons e es ih =>
    obtain ⟨s', hstep, hrest⟩ := Option.bind_eq_some_iff.mp hexec
    have hih := ih (h.step hseats hstep) hrest
    rcases step_cases h hstep with
      ⟨rfl, rfl⟩ | ⟨i, o, spawned, c, q, rows, entries, ans, rfl, hc, hhop, rfl⟩
    · have hbegin : ((s.base.begin spec (.queued .ensureAvailable)).calls.map
          fun c => rank c.phase).sum = (s.base.calls.map fun c => rank c.phase).sum + 5 := by
        simp [Proxy.Calls.State.begin, rank]
      rw [List.countP_cons_of_neg (by simp [Event.isCall]), List.countP_cons_of_pos rfl]
      dsimp only at hih
      omega
    · have hmove : ((s.after i c q rows entries ans).base.calls.map fun c => rank c.phase).sum +
          rank c.phase = (s.base.calls.map fun c => rank c.phase).sum + rank q := sum_set_add hc
      have hrank := hhop.rank_lt
      rw [List.countP_cons_of_pos rfl, List.countP_cons_of_neg (by simp [Event.isCall])]
      omega

/-- A call goes on when it holds the mutex, or when that is free. -/
theorem advanceCall_isSome {o : Outside ι κ} (hspec : c.spec = spec)
    (hphase : OfEnsure spec c.phase) (hdone : c.phase ≠ .done)
    (hgo : c.phase.locks = true ∨ s.base.isFree spec = true) :
    (advanceCall node s i c o).isSome = true := by
  rw [advanceCall, Option.isSome_map]
  obtain ⟨cspec, p⟩ := c
  obtain rfl : cspec = spec := hspec
  cases p with
  | queued g =>
    cases g with
    | ensureAvailable =>
      have hfree : s.base.isFree cspec = true := hgo.resolve_left nofun
      simp [advance, hfree]
    | _ => exact hphase.elim
  | spawning visit =>
    cases visit with
    | true => exact hphase.elim
    | false => rfl
  | adding visit r =>
    cases visit with
    | true => exact hphase.elim
    | false => rfl
  | ensuring => rfl
  | capping => rfl
  | done => exact absurd rfl hdone
  | _ => exact hphase.elim

/-- Some call can go on, whatever its spawn brings, until all have answered. -/
theorem Sound.progress (h : Sound spec s) :
    (∀ i < s.base.calls.length, s.answers i ≠ none) ∨
      ∃ i, ∀ o spawned, ∃ s', (machine node spec).step s (.advance i o spawned) = some s' := by
  have hadvance : ∀ {i : Nat} {c : Call ι κ}, s.base.calls[i]? = some c → c.phase ≠ .done →
      c.phase.locks = true ∨ s.base.isFree spec = true →
      ∃ i, ∀ o spawned, ∃ s', (machine node spec).step s (.advance i o spawned) = some s' := by
    intro i c hc hdone hgo
    refine ⟨i, fun o spawned => ?_⟩
    obtain ⟨hspec, hphase⟩ := h.shape c (List.mem_of_getElem? hc)
    have hsome : (advanceCall node s i c
        { o with spawned := spawned.map Fresh.replica }).isSome = true :=
      advanceCall_isSome hspec hphase hdone hgo
    obtain ⟨s', hs'⟩ := Option.isSome_iff_exists.mp hsome
    exact ⟨s', Option.bind_eq_some_iff.mpr ⟨c, hc, hs'⟩⟩
  by_cases hlocked : ∃ c ∈ s.base.calls, c.phase.locks = true
  · obtain ⟨c, hc, hlocks⟩ := hlocked
    obtain ⟨i, hi⟩ := List.mem_iff_getElem?.mp hc
    refine .inr (hadvance hi (fun hdone => ?_) (.inl hlocks))
    rw [hdone] at hlocks
    cases hlocks
  · have hfree : s.base.isFree spec = true := by
      refine List.all_eq_true.mpr fun c hc => ?_
      have hnot : c.phase.locks = false := by
        by_contra hlocks
        exact hlocked ⟨c, hc, Bool.eq_true_of_not_eq_false hlocks⟩
      rw [hnot]
      rfl
    by_cases hall : ∀ i < s.base.calls.length, s.answers i ≠ none
    · exact .inl hall
    · push Not at hall
      obtain ⟨i, hlt, hnone⟩ := hall
      have hc : s.base.calls[i]? = some s.base.calls[i] := List.getElem?_eq_getElem hlt
      exact .inr (hadvance hc ((h.pending i).mp hnone _ hc) (.inr hfree))

/-- **Cold starts.** Whatever the order of the calls and whichever spawns fail, they fly as one, and
no call is left waiting. -/
theorem ensure_replica_available_singleFlight (rows : Registry ι)
    (hseats : 1 ≤ (node.settings spec).effectiveSeats.val)
    (hexec : (machine node spec).exec (boot rows) es = some t) :
    SingleFlight t ∧
      ((∀ i < t.base.calls.length, t.answers i ≠ none) ∨
        ∃ i, ∀ o spawned, ∃ s', (machine node spec).step t (.advance i o spawned) = some s') ∧
      es.countP (fun e => !e.isCall) ≤ 5 * es.countP Event.isCall := by
  have hsound : Sound spec t := (run_free_iff.mpr hexec).invariant (.boot rows)
    fun _ _ _ h _ hstep => h.step hseats hstep
  have hsteps := advances_add_rank_le (.boot rows) hseats hexec
  refine ⟨hsound.singleFlight, hsound.progress, ?_⟩
  have hzero : ((boot rows : State ι κ).base.calls.map fun c => rank c.phase).sum = 0 := rfl
  omega

end Runs

section Example

attribute [local instance] wholeFloats

def labAdvance (call : Nat) (spawned : Option (Fresh Nat labId)) : Event Nat Nat labId :=
  .advance call (labOutside 0 none) spawned

/-- Three visitors; the first spawn fails, and the third call finds the replica of the second. -/
def threeVisitors : List (Event Nat Nat labId) :=
  [.call, .call, .call] ++ List.replicate 4 (labAdvance 0 none) ++
    List.replicate 3 (labAdvance 1 none) ++
    [labAdvance 1 (some ⟨labReplica 7, rfl, .inl rfl, rfl⟩), labAdvance 1 none] ++
    List.replicate 2 (labAdvance 2 none)

theorem threeVisitors_singleFlight : ∃ t : State Nat Nat,
    (machine labNode labId).exec (boot []) threeVisitors = some t ∧ SingleFlight t ∧
      t.log = [.tried 0, .failed 0, .tried 1, .succeeded 1] ∧
      [t.answers 0, t.answers 1, t.answers 2] = [some false, some true, some true] := by
  have hexec : (machine labNode labId).exec (boot []) threeVisitors = some _ := rfl
  exact ⟨_, hexec, (ensure_replica_available_singleFlight [] (by decide) hexec).1, rfl, rfl⟩

end Example

end Ruscker.Scaler.ColdStart
