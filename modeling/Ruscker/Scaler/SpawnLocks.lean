import Ruscker.Lib.KeyedLocks
import Ruscker.Proxy.Moves

/-!
# The spawn mutexes and their collection

A call takes the mutex of its spec from a map and keeps a copy of it while it waits for the mutex
and while it holds it.  Each tick of the scaler drops the mutexes of the specs that are not in
the catalog it has just read, which is the YAML alone where the database did not answer.
-/

namespace Ruscker.Scaler.SpawnLocks

open Tables Machines Machines.Machine KeyedLocks Proxy.Calls

variable {ι κ : Type*}

/-- The shards of the map of mutexes, and the specs of the YAML. -/
structure Config where
  shards : Nat
  shardOf : Str → Fin shards
  yaml : List Str

/-- The node, the mutexes and which call has a copy of which; the specs of the database; and of
a tick that collects, the specs it read and the shard it comes to. -/
structure State (ι κ : Type*) where
  base : Proxy.Calls.State ι κ
  locks : Locks Str
  copies : Nat → Option Nat
  db : List Str
  collecting : Option (List Str × Nat)

def boot (rows : Registry ι) (db : List Str) : State ι κ :=
  ⟨Proxy.Calls.boot rows, ⟨∅, 0⟩, fun _ => none, db, none⟩

inductive Event (ι κ : Type*) where
  | call (e : Proxy.Calls.Event ι κ)
  -- the catalog is edited
  | edit (db : List Str)
  | tick (dbFails : Bool)
  | collect

/-- What a call has to do with the mutexes. -/
def State.clients (s : State ι κ) (i : Nat) : Option (Client Str) :=
  (s.base.calls[i]?).map fun c => ⟨c.spec, s.copies i, c.phase.locks⟩

/-- The specs that `effective_specs` returns. -/
def effectiveSpecs (config : Config) (db : List Str) (dbFails : Bool) : List Str :=
  if dbFails then config.yaml
  else db ++ config.yaml.filter fun id => !db.contains id

/-- Nobody is inside the mutex. -/
def State.isFree (s : State ι κ) (id : Nat) : Bool :=
  (List.range s.base.calls.length).all fun j =>
    !((s.base.calls[j]?).any fun c => c.phase.locks) || decide (s.copies j ≠ some id)

section Steps

variable [Floats] [DecidableEq ι] [DecidableEq κ] (node : Node κ) (config : Config)

/-- A call lets its copy go with the mutex. -/
def State.after (s : State ι κ) (i : Nat) (base : Proxy.Calls.State ι κ) : State ι κ :=
  { s with
    base
    copies := if (base.calls[i]?).any fun c => c.phase.locks then s.copies
      else Function.update s.copies i none }

/-- A waiting call takes its copy, and then the mutex. -/
def wait (s : State ι κ) (i : Nat) (c : Call ι κ) (g : Growth ι) : Option (State ι κ) :=
  match s.copies i with
  | none =>
    let (locks, id) := intern s.locks c.spec
    some { s with locks, copies := Function.update s.copies i (some id) }
  | some id =>
    if s.isFree id then some { s with base := s.base.goto i c (afterLock g) } else none

def step (s : State ι κ) : Event ι κ → Option (State ι κ)
  | .call (.advance i o) => (s.base.calls[i]?).bind fun c =>
      match c.phase with
      | .queued g => wait s i c g
      | _ => (advance node s.base i c o).map (s.after i)
  | .call (.start spec p) =>
    ((Proxy.Calls.machine node).step s.base (.start spec p)).map (s.after s.base.calls.length)
  | .call (.drop i) => ((Proxy.Calls.machine node).step s.base (.drop i)).map (s.after i)
  | .call (.tick ms) => some { s with base := { s.base with now := s.base.now + ms } }
  | .edit db => some { s with db }
  | .tick dbFails =>
    if s.collecting.isNone then
      some { s with collecting := some (effectiveSpecs config s.db dbFails, 0) }
    else none
  | .collect => s.collecting.map fun (known, k) =>
      if k < config.shards then
        { s with
          locks := collect s.locks fun id =>
            decide ((config.shardOf id : Nat) ≠ k) || known.contains id
          collecting := some (known, k + 1) }
      else { s with collecting := none }

def machine : Machine (State ι κ) (Event ι κ) := ⟨step node config⟩

/-- The specs whose mutex a step drops. -/
def drops (s : State ι κ) : Event ι κ → Str → Bool
  | .collect, spec => s.collecting.any fun (known, k) =>
      decide (k < config.shards) && decide ((config.shardOf spec : Nat) = k) && !known.contains spec
  | _, _ => false

/-- No mutex is dropped that a call waits for or holds. -/
def Kept (s : State ι κ) (e : Event ι κ) : Prop :=
  ∀ i < s.base.calls.length, ∀ c ∈ s.base.calls[i]?, s.copies i ≠ none →
    drops config s e c.spec = false

instance (s : State ι κ) (e : Event ι κ) : Decidable (Kept config s e) :=
  inferInstanceAs (Decidable (∀ i < s.base.calls.length, ∀ c ∈ s.base.calls[i]?,
    s.copies i ≠ none → drops config s e c.spec = false))

end Steps

/-! ## Runs -/

section Runs

variable {s s' : State ι κ} {i : Nat} {c : Call ι κ}

/-- The clients agree with the map, and only the calls that wait or hold have a copy. -/
structure Apart (s : State ι κ) : Prop where
  sound : Sound s.locks s.clients
  idle : ∀ i, s.copies i ≠ none → ∃ c, s.base.calls[i]? = some c ∧
    (c.phase.isQueued = true ∨ c.phase.locks = true)

theorem clients_of_ne {base : Proxy.Calls.State ι κ} {d : Call ι κ} {copies : Nat → Option Nat}
    (hcalls : base.calls = s.base.calls.set i d) (hcopies : ∀ j, j ≠ i → copies j = s.copies j)
    {j : Nat} (hj : j ≠ i) :
    State.clients { s with base, copies } j = s.clients j := by
  unfold State.clients
  dsimp only
  rw [hcalls, List.getElem?_set_ne (Ne.symm hj), hcopies j hj]

theorem clients_self {d : Call ι κ} {copies : Nat → Option Nat} (base : Proxy.Calls.State ι κ)
    (hc : s.base.calls[i]? = some c) (hcalls : base.calls = s.base.calls.set i d) :
    State.clients { s with base, copies } i = some ⟨d.spec, copies i, d.phase.locks⟩ := by
  have hlt : i < s.base.calls.length := (List.getElem?_eq_some_iff.mp hc).1
  unfold State.clients
  dsimp only
  rw [hcalls, List.getElem?_set_self hlt, Option.map_some]

theorem free_of_isFree {id : Nat} (h : s.isFree id = true) :
    ∀ j d, s.clients j = some d → d.holds = true → d.copy ≠ some id := by
  intro j d hj hd
  obtain ⟨e, he, rfl⟩ := Option.map_eq_some_iff.mp hj
  have hlt : j < s.base.calls.length := (List.getElem?_eq_some_iff.mp he).1
  have hfree := List.all_eq_true.mp h j (List.mem_range.mpr hlt)
  have hlocks : e.phase.locks = true := hd
  simpa [he, hlocks] using hfree

namespace Apart

variable (h : Apart s)
include h

/-- The call has its copy while its phase asks for one. -/
theorem idle_move {base : Proxy.Calls.State ι κ} {d : Call ι κ} {copies : Nat → Option Nat}
    (hc : s.base.calls[i]? = some c) (hcalls : base.calls = s.base.calls.set i d)
    (hcopies : ∀ j, j ≠ i → copies j = s.copies j)
    (hself : copies i ≠ none → d.phase.isQueued = true ∨ d.phase.locks = true) :
    ∀ j, copies j ≠ none → ∃ c, base.calls[j]? = some c ∧
      (c.phase.isQueued = true ∨ c.phase.locks = true) := by
  intro j hj
  rw [hcalls]
  by_cases hji : j = i
  · subst hji
    have hlt : j < s.base.calls.length := (List.getElem?_eq_some_iff.mp hc).1
    exact ⟨d, List.getElem?_set_self hlt, hself hj⟩
  · rw [hcopies j hji] at hj
    rw [List.getElem?_set_ne (Ne.symm hji)]
    exact h.idle j hj

/-- A call that holds the mutex moves on with it, and any other without a copy. -/
theorem move {base : Proxy.Calls.State ι κ} {q : Phase ι κ} (hc : s.base.calls[i]? = some c)
    (hcalls : base.calls = s.base.calls.set i { c with phase := q })
    (hlocks : q.locks = true → c.phase.locks = true) : Apart (s.after i base) := by
  have hlt : i < s.base.calls.length := (List.getElem?_eq_some_iff.mp hc).1
  have hi : base.calls[i]? = some { c with phase := q } := by
    rw [hcalls, List.getElem?_set_self hlt]
  unfold State.after
  rw [hi, Option.any_some]
  cases hq : q.locks with
  | true =>
    rw [if_pos rfl]
    refine ⟨?_, h.idle_move hc hcalls (fun _ _ => rfl) fun _ => .inr hq⟩
    have hold : s.clients i = some ⟨c.spec, s.copies i, true⟩ := by
      rw [State.clients, hc, Option.map_some, hlocks hq]
    refine h.sound.stay hold (fun j hj => clients_of_ne hcalls (fun _ _ => rfl) hj) ?_
    rw [clients_self _ hc hcalls]
    exact congrArg some (congrArg (Client.mk c.spec (s.copies i)) hq)
  | false =>
    rw [if_neg Bool.false_ne_true]
    have hother : ∀ j, j ≠ i → Function.update s.copies i none j = s.copies j :=
      fun j hj => Function.update_of_ne hj _ _
    refine ⟨?_, h.idle_move hc hcalls hother fun hself => ?_⟩
    · refine h.sound.outside (fun j hj => clients_of_ne hcalls hother hj)
        (clients_self _ hc hcalls) (fun id hid => ?_) hq
      rw [Function.update_self] at hid
      cases hid
    · exact absurd (Function.update_self ..) hself

/-- A new call has no copy. -/
theorem start {base : Proxy.Calls.State ι κ} {d : Call ι κ}
    (hcalls : base.calls = s.base.calls ++ [d]) (hd : d.phase.locks = false) :
    Apart (s.after s.base.calls.length base) := by
  have hself : base.calls[s.base.calls.length]? = some d := by
    rw [hcalls, List.getElem?_append_right (Nat.le_refl _), Nat.sub_self]
    rfl
  have hother : ∀ j, j ≠ s.base.calls.length → base.calls[j]? = s.base.calls[j]? := by
    intro j hj
    rw [hcalls]
    by_cases hlt : j < s.base.calls.length
    · exact List.getElem?_append_left hlt
    · rw [List.getElem?_eq_none, List.getElem?_eq_none (by omega)]
      rw [List.length_append, List.length_singleton]
      omega
  unfold State.after
  rw [hself, Option.any_some, hd, if_neg Bool.false_ne_true]
  refine ⟨h.sound.outside (i := s.base.calls.length) (c := ⟨d.spec, none, false⟩)
    (fun j hj => ?_) ?_ (fun id hid => by cases hid) rfl, fun j hj => ?_⟩
  · unfold State.clients
    dsimp only
    rw [hother j hj, Function.update_of_ne hj]
  · unfold State.clients
    dsimp only
    rw [hself, Option.map_some, Function.update_self, hd]
  · by_cases hlast : j = s.base.calls.length
    · subst hlast
      exact absurd (Function.update_self ..) hj
    · dsimp only at hj
      rw [Function.update_of_ne hlast] at hj
      obtain ⟨e, he, hphase⟩ := h.idle j hj
      exact ⟨e, (hother j hlast).trans he, hphase⟩

/-- A waiting call takes its copy or the mutex. -/
theorem wait {g : Growth ι} (hc : s.base.calls[i]? = some c) (hphase : c.phase = .queued g)
    (hstep : SpawnLocks.wait s i c g = some s') : Apart s' := by
  have hwaits : s.clients i = some ⟨c.spec, s.copies i, false⟩ := by
    rw [State.clients, hc, Option.map_some, hphase]
    rfl
  unfold SpawnLocks.wait at hstep
  split at hstep
  · cases hstep
    refine ⟨h.sound.intern (i := i) c.spec (fun j hj => ?_) ?_, fun j hj => ?_⟩
    · unfold State.clients
      dsimp only
      rw [Function.update_of_ne hj]
    · unfold State.clients
      dsimp only
      rw [hc, Option.map_some, Function.update_self, hphase]
      rfl
    · by_cases hji : j = i
      · subst hji
        exact ⟨c, hc, .inl (by rw [hphase]; rfl)⟩
      · dsimp only at hj
        rw [Function.update_of_ne hji] at hj
        exact h.idle j hj
  · next id hid =>
    split at hstep
    · next hfree =>
      cases hstep
      have hlocks : (afterLock g : Phase ι κ).locks = true := by cases g <;> rfl
      refine ⟨h.sound.enter hwaits hid (free_of_isFree hfree)
        (fun j hj => clients_of_ne rfl (fun _ _ => rfl) hj) ?_, h.idle_move hc rfl (fun _ _ => rfl)
          fun _ => .inr hlocks⟩
      rw [clients_self (s.base.goto i c (afterLock g)) hc rfl]
      exact congrArg some (congrArg (Client.mk c.spec (s.copies i)) hlocks)
    · cases hstep

variable [Floats] [DecidableEq ι] [DecidableEq κ] {node : Node κ} {config : Config}

/-- **Step lemma.** -/
theorem step {e : Event ι κ} (hok : Kept config s e)
    (hstep : (machine node config).step s e = some s') : Apart s' := by
  cases e with
  | call e =>
    cases e with
    | start spec p =>
      obtain ⟨b, hb, rfl⟩ := Option.map_eq_some_iff.mp hstep
      simp only [Proxy.Calls.machine] at hb
      split at hb
      · next hstart =>
        cases hb
        refine h.start rfl ?_
        cases p with
        | queued g => rfl
        | _ => first | rfl | cases hstart
      · cases hb
    | advance i o =>
      obtain ⟨c, hc, hstep⟩ := Option.bind_eq_some_iff.mp hstep
      split at hstep
      · next g hphase => exact h.wait hc hphase hstep
      · next hnot =>
        obtain ⟨b, hb, rfl⟩ := Option.map_eq_some_iff.mp hstep
        obtain ⟨q, hcalls, hleads⟩ := calls_of_advance hb
        refine h.move hc hcalls (hleads.locks ?_)
        cases hphase : c.phase with
        | queued g => exact absurd hphase (hnot g)
        | _ => rfl
    | drop i =>
      obtain ⟨b, hb, rfl⟩ := Option.map_eq_some_iff.mp hstep
      obtain ⟨c, hc, hb⟩ := Option.bind_eq_some_iff.mp hb
      split at hb
      · cases hb
        exact h.move hc rfl fun hq => by cases hq
      · cases hb
    | tick ms =>
      cases hstep
      exact ⟨h.sound, h.idle⟩
  | edit db =>
    cases hstep
    exact ⟨h.sound, h.idle⟩
  | tick dbFails =>
    simp only [machine, SpawnLocks.step] at hstep
    split at hstep
    · cases hstep
      exact ⟨h.sound, h.idle⟩
    · cases hstep
  | collect =>
    obtain ⟨⟨known, k⟩, hcollecting, hstep⟩ := Option.map_eq_some_iff.mp hstep
    dsimp only at hstep
    split at hstep
    · next hk =>
      cases hstep
      refine ⟨h.sound.collect fun i client hi hcopy => ?_, h.idle⟩
      obtain ⟨c, hc, rfl⟩ := Option.map_eq_some_iff.mp hi
      have hlt : i < s.base.calls.length := (List.getElem?_eq_some_iff.mp hc).1
      have hkept := hok i hlt c hc hcopy
      simp only [drops, hcollecting, Option.any_some, decide_eq_true hk, Bool.true_and] at hkept
      simpa [or_iff_not_imp_left] using hkept
    · cases hstep
      exact ⟨h.sound, h.idle⟩

end Apart

/-- **One call a spec.** While no tick drops a mutex that a call waits for or holds, no two calls
of one spec hold its mutex. -/
theorem exclusive [Floats] [DecidableEq ι] [DecidableEq κ] {node : Node κ} {config : Config}
    {rows : Registry ι} {db : List Str} {es : List (Event ι κ)}
    (hrun : (machine node config).Run (Kept config) (boot rows db) es s) {j : Nat} {d : Call ι κ}
    (hc : s.base.calls[i]? = some c) (hd : s.base.calls[j]? = some d)
    (hclocks : c.phase.locks = true) (hdlocks : d.phase.locks = true) (hspec : c.spec = d.spec) :
    i = j := by
  have hstart : Apart (boot rows db : State ι κ) := by
    refine ⟨⟨fun i c id hi => ?_, fun i c hi => ?_, fun i j c d hi => ?_⟩, fun i hi => ?_⟩
    · cases hi
    · cases hi
    · cases hi
    · exact absurd rfl hi
  have hapart := hrun.invariant hstart fun _ _ _ hI hok hstep => hI.step hok hstep
  have hi : s.clients i = some ⟨c.spec, s.copies i, c.phase.locks⟩ := by
    rw [State.clients, hc, Option.map_some]
  have hj : s.clients j = some ⟨d.spec, s.copies j, d.phase.locks⟩ := by
    rw [State.clients, hd, Option.map_some]
  exact hapart.sound.one_holder hi hj hclocks hdlocks hspec

end Runs

/-! ## A database that does not answer -/

section Example

attribute [local instance] wholeFloats

/-- The lab is only in the database. -/
def bareYaml : Config := ⟨1, fun _ => ⟨0, Nat.one_pos⟩, []⟩

def lab : State Nat Nat := boot [] [labId]

/-- A call for one more replica, up to its spawn. -/
def grows (i : Nat) : List (Event Nat Nat) :=
  .call (.start labId (.queued .addCapacity)) ::
    List.replicate 3 (.call (.advance i (labOutside 7 none)))

def collects (dbFails : Bool) : List (Event Nat Nat) := [.tick dbFails, .collect, .collect]

/-- The second call waits for the first. -/
def oneByOne : List (Event Nat Nat) :=
  grows 0 ++ collects false ++ (grows 1).take 2

theorem exclusive_oneByOne : ∃ s : State Nat Nat,
    (machine labNode bareYaml).exec lab oneByOne = some s ∧
      (s.base.calls.map fun c => c.phase.locks) = [true, false] ∧
      ∀ (i j : Nat) (c d : Call Nat Nat), s.base.calls[i]? = some c → s.base.calls[j]? = some d →
        c.phase.locks = true → d.phase.locks = true → c.spec = d.spec → i = j := by
  have hsome : ((machine labNode bareYaml).execIf (Kept bareYaml) lab oneByOne).isSome = true := by
    decide
  exact ⟨_, rfl, rfl, fun _ _ _ _ => exclusive (run_execIf hsome)⟩

/-- The tick reads the YAML alone and drops the mutex the first call is in. -/
theorem growsTwice_together : ∃ s : State Nat Nat,
    (machine labNode bareYaml).exec lab (grows 0 ++ collects true ++ grows 1) = some s ∧
      s.base.calls = [⟨labId, .spawning false⟩, ⟨labId, .spawning false⟩] :=
  ⟨_, rfl, rfl⟩

end Example

end Ruscker.Scaler.SpawnLocks
