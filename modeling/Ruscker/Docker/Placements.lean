import Mathlib.Data.List.ReduceOption
import Ruscker.Docker.HostCaps

/-!
# Passes across a spawn

A pass prunes the map by what the hosts said when it asked them.  A spawn that returns in between
has its entry on the map by then, and the pass may not have heard of its container.
-/

namespace Ruscker.Docker

open Tables Machines Machines.Machine

namespace Capped

variable {ι γ α : Type*}

def names (cl : Cluster ι γ) : List Str := cl.hosts.map HostEntry.id

/-! ## What a pass under way has heard -/

section Heard

/-- The rows a host has answered to a pass. -/
def heard (slots : List (Option (Option (List (ι × Str))))) (j : Nat) : Option (List (ι × Str)) :=
  ((slots[j]?).join).join

variable [Floats] (shards : Shards ι) (hosts : List Str) (id : ι) (i : Nat) (host : Str)

/-- No call under way takes the replica of a host off the map: none stops it or has its id too,
and a pass that has the answer of the host was told of the replica, or has failed there, or is
past its shard. -/
def Task.Spares : Task ι γ α → Prop
  | .spawning _ _ _ r _ => r ≠ id
  | .finding r _ _ => r ≠ id
  | .killing r _ _ _ => r ≠ id
  | .forgetting r => r ≠ id
  | .asking slots => i < slots.length ∧ (∀ rows, heard slots i = some rows → id ∈ rows.map Prod.fst) ∧
      ∀ j rows, heard slots j = some rows → id ∈ rows.map Prod.fst → hosts[j]? = some host
  | .tagging todo live failed => (id ∈ live ∨ host ∈ failed) ∧
      ∀ place, (id, place) ∈ todo → place.1 = host
  | .pruning k live failed => id ∈ live ∨ host ∈ failed ∨ (shards.of id).val < k
  | .picking _ _ _ _ | .done => True

/-- A host that answers a pass tells of the replica if it is the host of it, and no other host
does. -/
def Tells [Uuid ι] (h : HostEntry γ) (o : Outside ι γ α) : Prop :=
  ∀ rows ∈ answerOf h o,
    (o.host = i → id ∈ rows.map Prod.fst) ∧ (id ∈ rows.map Prod.fst → h.id = host)

/-- No new replica gets the id of one that was returned, and its host lists it. -/
def Task.Tends [Uuid ι] (entries : List (HostEntry γ)) (o : Outside ι γ α) : Task ι γ α → Prop
  | .picking _ _ _ _ => o.id ≠ id
  | .asking _ => ∀ h ∈ entries[o.host]?, Tells id i host h o
  | _ => True

/-- What may happen to a replica that was returned: nobody stops it either. -/
def Tended [Uuid ι] (s : State ι γ α) : Event ι γ α → Prop
  | .stop r => r ≠ id
  | .advance k o => ∀ t ∈ s.tasks[k]?, t.Tends id i host s.cl.hosts o
  | _ => True

instance [Uuid ι] [DecidableEq ι] (entries : List (HostEntry γ)) (o : Outside ι γ α) :
    (t : Task ι γ α) → Decidable (t.Tends id i host entries o)
  | .picking _ _ _ _ => inferInstanceAs (Decidable (o.id ≠ id))
  | .asking _ => inferInstanceAs (Decidable (∀ h ∈ entries[o.host]?, ∀ rows ∈ answerOf h o,
      (o.host = i → id ∈ rows.map Prod.fst) ∧ (id ∈ rows.map Prod.fst → h.id = host)))
  | .spawning _ _ _ _ _ | .finding _ _ _ | .killing _ _ _ _ | .forgetting _ | .tagging _ _ _
  | .pruning _ _ _ | .done => isTrue trivial

instance [Uuid ι] [DecidableEq ι] (s : State ι γ α) :
    (e : Event ι γ α) → Decidable (Tended id i host s e)
  | .stop r => inferInstanceAs (Decidable (r ≠ id))
  | .advance k o =>
    inferInstanceAs (Decidable (∀ t ∈ s.tasks[k]?, t.Tends id i host s.cl.hosts o))
  | .spawn _ _ | .list | .changes _ _ _ _ _ _ => isTrue trivial

/-- The replica is on the map, and no call under way takes it off. -/
structure Kept [DecidableEq ι] (s : State ι γ α) : Prop where
  named : (names s.cl)[i]? = some host
  placed : ∃ place, s.cl.placement.lookup id = some place ∧ place.1 = host
  spared : ∀ t ∈ s.tasks, t.Spares shards (names s.cl) id i host

end Heard

/-! ### The answers of a pass -/

section Answers

variable {slots : List (Option (Option (List (ι × Str))))} {cl : Cluster ι γ} {shards : Shards ι}
  {id : ι} {i : Nat} {host : Str}

theorem heard_set {answer : Option (List (ι × Str))} {j k : Nat} (hj : slots[j]? = some none) :
    heard (slots.set j (some answer)) k = if k = j then answer else heard slots k := by
  unfold heard
  split
  · next h =>
    subst h
    obtain ⟨hlt, -⟩ := List.getElem?_eq_some_iff.mp hj
    rw [List.getElem?_set_self hlt]
    rfl
  · next h => rw [List.getElem?_set_ne (Ne.symm h)]

theorem map_some_reduceOption {τ : Type*} {l : List (Option τ)} (h : l.all Option.isSome = true) :
    l.reduceOption.map some = l := by
  induction l with
  | nil => rfl
  | cons a l ih =>
    rw [List.all_cons, Bool.and_eq_true] at h
    obtain ⟨a, rfl⟩ := Option.isSome_iff_exists.mp h.1
    rw [List.reduceOption_cons_of_some, List.map_cons, ih h.2]

theorem heard_of_all (h : slots.all Option.isSome = true) {j : Nat} :
    heard slots j = (slots.reduceOption[j]?).join := by
  conv_lhs => rw [heard, ← map_some_reduceOption h, List.getElem?_map]
  cases slots.reduceOption[j]? with
  | none => rfl
  | some answer => rfl

variable [Floats]

/-- A pass that has all answers spares what it spared while it asked. -/
theorem spares_afterAsking (hhost : (names cl)[i]? = some host)
    (hall : slots.all Option.isSome = true)
    (h : (Task.asking slots : Task ι γ α).Spares shards (names cl) id i host) :
    (afterAsking cl slots.reduceOption : Task ι γ α).Spares shards (names cl) id i host := by
  obtain ⟨hlt, hlisted, honly⟩ := h
  have hlength : slots.reduceOption.length = slots.length := by
    conv_rhs => rw [← map_some_reduceOption hall, List.length_map]
  obtain ⟨entry, hentry, hid⟩ : ∃ h, cl.hosts[i]? = some h ∧ h.id = host := by
    unfold names at hhost
    rw [List.getElem?_map] at hhost
    exact Option.map_eq_some_iff.mp hhost
  unfold afterAsking
  dsimp only
  split
  · trivial
  · constructor
    · -- the slot of the host holds its rows, or it has failed
      have hslot : (cl.hosts.zip slots.reduceOption)[i]? =
          some (entry, slots.reduceOption.get ⟨i, hlength ▸ hlt⟩) := by
        rw [List.getElem?_zip_eq_some]
        exact ⟨hentry, List.getElem?_eq_getElem _⟩
      have hmem := List.mem_of_getElem? hslot
      cases hanswer : slots.reduceOption.get ⟨i, hlength ▸ hlt⟩ with
      | some rows =>
        left
        rw [hanswer] at hmem
        have hrows : heard slots i = some rows := by
          rw [heard_of_all hall, List.getElem?_eq_getElem (hlength ▸ hlt)]
          exact hanswer
        refine List.mem_flatMap.mpr ⟨(entry.id, rows), ?_, hlisted rows hrows⟩
        exact List.mem_filterMap.mpr ⟨_, hmem, rfl⟩
      | none =>
        right
        rw [hanswer] at hmem
        rw [← hid]
        exact List.mem_map.mpr ⟨_, List.mem_filter.mpr ⟨hmem, rfl⟩, rfl⟩
    · intro place hplace
      obtain ⟨⟨name, rows⟩, hreported, hrow⟩ := List.mem_flatMap.mp hplace
      obtain ⟨row, hmem, heq⟩ := List.mem_map.mp hrow
      cases heq
      obtain ⟨⟨h, answer⟩, hslot, hsome⟩ := List.mem_filterMap.mp hreported
      obtain ⟨rows', rfl, heq⟩ := Option.map_eq_some_iff.mp hsome
      cases heq
      obtain ⟨j, hj⟩ := List.mem_iff_getElem?.mp hslot
      obtain ⟨hh, hanswer⟩ := List.getElem?_zip_eq_some.mp hj
      have hrows : heard slots j = some rows := by
        rw [heard_of_all hall, hanswer]
        rfl
      have hname := honly j rows hrows (List.mem_map.mpr ⟨row, hmem, rfl⟩)
      unfold names at hname
      rw [List.getElem?_map, hh] at hname
      exact Option.some.inj hname

end Answers

/-! ### One step -/

section Map

variable {cl : Cluster ι γ} {shards : Shards ι} {id : ι} {host : Str}

theorem names_onHost (f : List (Container γ) → List (Container γ)) (j : Nat) :
    names (onHost cl j f) = names cl := by
  unfold names onHost
  apply List.ext_getElem?
  intro k
  rw [List.getElem?_map, List.getElem?_map, List.getElem?_modify]
  cases cl.hosts[k]? with
  | none => rfl
  | some h =>
    by_cases hjk : j = k
    · simp [hjk]
    · simp [hjk]

variable [DecidableEq ι]

/-- An entry of another replica, or one of this replica on its host. -/
theorem placed_insert {r : ι} {place : Str × Str}
    (hplaced : ∃ place, cl.placement.lookup id = some place ∧ place.1 = host)
    (hplace : r = id → place.1 = host) :
    ∃ place', (cl.placement.insert r place).lookup id = some place' ∧ place'.1 = host := by
  rw [Table.lookup_insert_eq]
  split
  · next heq => exact ⟨place, rfl, hplace heq.symm⟩
  · exact hplaced

theorem placed_erase {r : ι} (hne : r ≠ id)
    (hplaced : ∃ place, cl.placement.lookup id = some place ∧ place.1 = host) :
    ∃ place, (cl.placement.erase r).lookup id = some place ∧ place.1 = host := by
  rw [Table.lookup_erase_eq, if_neg (Ne.symm hne)]
  exact hplaced

theorem placed_pruneShard {k : Nat} {live : List ι} {failed : List Str}
    (hplaced : ∃ place, cl.placement.lookup id = some place ∧ place.1 = host)
    (hspares : id ∈ live ∨ host ∈ failed ∨ (shards.of id).val < k) :
    ∃ place, (pruneShard shards cl k live failed).placement.lookup id = some place ∧
      place.1 = host := by
  obtain ⟨place, hplace, rfl⟩ := hplaced
  refine ⟨place, ?_, rfl⟩
  have hkept : ((shards.of id).val ≠ k || live.contains id || failed.contains place.1) = true := by
    rcases hspares with hlive | hfailed | hpast
    · simp [hlive]
    · simp [hfailed]
    · have hne : (shards.of id).val ≠ k := Nat.ne_of_lt hpast
      simp [hne]
  rw [pruneShard, Table.lookup_retain, hplace]
  exact ⟨rfl, hkept⟩

end Map

section Step

variable [Floats] {cl cl' : Cluster ι γ} {shards : Shards ι} {id : ι} {i : Nat} {host : Str}
  {o : Outside ι γ α} {t t' : Task ι γ α}

theorem spares_afterMiss {r : ι} (hne : r ≠ id) (j : Nat) (walk : Bool) (hosts : List Str) :
    (afterMiss cl r j walk : Task ι γ α).Spares shards hosts id i host := by
  unfold afterMiss
  split
  · exact hne
  · exact hne

variable [DecidableEq ι]

/-- What a step of a call leaves of a kept replica. -/
structure Spared (shards : Shards ι) (id : ι) (i : Nat) (host : Str) (cl cl' : Cluster ι γ)
    (t' : Task ι γ α) : Prop where
  named : names cl' = names cl
  placed : ∃ place, cl'.placement.lookup id = some place ∧ place.1 = host
  spares : t'.Spares shards (names cl) id i host

variable [Uuid ι] [DecidableEq γ]

/-- **Step lemma of a call.** -/
theorem spared_advance (hnamed : (names cl)[i]? = some host)
    (hplaced : ∃ place, cl.placement.lookup id = some place ∧ place.1 = host)
    (hspares : t.Spares shards (names cl) id i host)
    (htends : t.Tends id i host cl.hosts o) (hstep : advance shards cl o t = some (cl', t')) :
    Spared shards id i host cl cl' t' := by
  unfold advance at hstep
  split at hstep
  · next spec req k seen =>
    split at hstep
    · cases hstep
      exact ⟨rfl, hplaced, trivial⟩
    · cases hstep
      refine ⟨rfl, hplaced, ?_⟩
      split
      · exact htends
      · trivial
  · next req j r _ _ _ =>
    cases hstep
    refine ⟨rfl, ?_, trivial⟩
    cases hj : cl.hosts[j]? with
    | none => exact hplaced
    | some h => exact placed_insert hplaced fun heq => absurd heq hspares
  · cases hstep
    exact ⟨rfl, hplaced, trivial⟩
  · next req j r p _ _ =>
    obtain ⟨q, -, heq⟩ := Option.map_eq_some_iff.mp hstep
    cases heq
    exact ⟨names_onHost _ _, hplaced, hspares⟩
  · next r j walk =>
    split at hstep
    · cases hstep
      exact ⟨rfl, hplaced, hspares⟩
    · split at hstep
      · split at hstep
        · cases hstep
          exact ⟨rfl, hplaced, hspares⟩
        · cases hstep
          exact ⟨rfl, hplaced, hspares⟩
      · cases hstep
        exact ⟨rfl, hplaced, spares_afterMiss hspares _ _ _⟩
  · next r j walk c =>
    split at hstep
    · cases hstep
      exact ⟨names_onHost _ _, hplaced, hspares⟩
    · cases hstep
      exact ⟨rfl, hplaced, spares_afterMiss hspares _ _ _⟩
  · next r =>
    cases hstep
    exact ⟨rfl, placed_erase hspares hplaced, trivial⟩
  · next slots =>
    split at hstep
    · next h hslot hh =>
      cases hstep
      obtain ⟨hlt, hlisted, honly⟩ := hspares
      have htells := htends h hh
      refine ⟨rfl, hplaced, ?_, ?_, ?_⟩
      · rw [List.length_set]
        exact hlt
      · intro rows hrows
        rw [heard_set hslot] at hrows
        split at hrows
        · next heq => exact (htells rows hrows).1 heq.symm
        · exact hlisted rows hrows
      · intro j rows hrows hmem
        rw [heard_set hslot] at hrows
        split at hrows
        · next heq =>
          subst heq
          rw [names, List.getElem?_map, hh, Option.map_some, (htells rows hrows).2 hmem]
        · exact honly j rows hrows hmem
    · split at hstep
      · next hall =>
        cases hstep
        exact ⟨rfl, hplaced, spares_afterAsking hnamed hall hspares⟩
      · cases hstep
  · next live failed =>
    cases hstep
    refine ⟨rfl, hplaced, ?_⟩
    rcases hspares.1 with hlive | hfailed
    · exact .inl hlive
    · exact .inr (.inl hfailed)
  · next r place todo live failed =>
    cases hstep
    obtain ⟨htold, htodo⟩ := hspares
    refine ⟨rfl, ?_, htold, fun p hp => htodo p (List.mem_cons_of_mem _ hp)⟩
    refine placed_insert hplaced fun heq => ?_
    subst heq
    exact htodo place List.mem_cons_self
  · next k live failed =>
    split at hstep
    · cases hstep
      refine ⟨rfl, placed_pruneShard hplaced hspares, ?_⟩
      rcases hspares with hlive | hfailed | hpast
      · exact .inl hlive
      · exact .inr (.inl hfailed)
      · exact .inr (.inr (Nat.lt_succ_of_lt hpast))
    · cases hstep
      exact ⟨rfl, hplaced, trivial⟩
  · cases hstep

end Step

/-! ### Runs -/

section Runs

variable [Floats] [DecidableEq ι] {shards : Shards ι} {id : ι} {i : Nat} {host : Str}
  {s s' t : State ι γ α} {e : Event ι γ α} {es : List (Event ι γ α)}

/-- A new call that spares the replica. -/
theorem Kept.start (hs : Kept shards id i host s) {new : Task ι γ α}
    (hnew : new.Spares shards (names s.cl) id i host) :
    Kept shards id i host { s with tasks := s.tasks ++ [new] } :=
  ⟨hs.named, hs.placed, forall_mem_concat hs.spared hnew⟩

variable [Uuid ι] [DecidableEq γ]

/-- **Step lemma.** A replica that is tended stays on the map. -/
theorem Kept.step (hs : Kept shards id i host s) (hok : Tended id i host s e)
    (hstep : (machine shards).step s e = some s') : Kept shards id i host s' := by
  cases e with
  | spawn spec req =>
    cases hstep
    exact hs.start trivial
  | stop r =>
    cases hstep
    apply hs.start
    unfold startStop
    split
    · exact hok
    · exact hok
  | list =>
    cases hstep
    apply hs.start
    have hnone : ∀ j, heard (s.cl.hosts.map fun _ => none) j = (none : Option (List (ι × Str))) := by
      intro j
      rw [heard, List.getElem?_map]
      cases s.cl.hosts[j]? with
      | none => rfl
      | some h => rfl
    refine ⟨?_, ?_, ?_⟩
    · have hlt := (List.getElem?_eq_some_iff.mp hs.named).1
      rw [names, List.length_map] at hlt
      rw [List.length_map]
      exact hlt
    · intro rows hrows
      rw [hnone] at hrows
      cases hrows
    · intro j rows hrows
      rw [hnone] at hrows
      cases hrows
  | changes j c status state ports finishedAt =>
    cases hstep
    have hnames : names (onHost s.cl j fun containers => containers.map fun d =>
        if d.id = c then { d with status, state, ports, finishedAt } else d) = names s.cl :=
      names_onHost _ j
    refine ⟨?_, hs.placed, ?_⟩
    · rw [hnames]
      exact hs.named
    · intro task htask
      rw [hnames]
      exact hs.spared task htask
  | advance k o =>
    obtain ⟨task, htask, hstep⟩ := Option.bind_eq_some_iff.mp hstep
    obtain ⟨⟨cl', task'⟩, hadvance, heq⟩ := Option.map_eq_some_iff.mp hstep
    cases heq
    have hspared := spared_advance hs.named hs.placed
      (hs.spared task (List.mem_of_getElem? htask)) (hok task htask) hadvance
    refine ⟨?_, hspared.placed, ?_⟩
    · rw [hspared.named]
      exact hs.named
    · rw [hspared.named]
      exact forall_mem_set hs.spared hspared.spares

/-- **The map.** When a spawn returns a replica while no other call under way takes it off the
map, it is on the map in every state of every run in which it is tended. -/
theorem placed_of_spared {k : Nat} {spec : Spec Settings} {req : SpawnRequest} {c : γ}
    {upstream : α} {startedAt : Nat} {o : Outside ι γ α} {h : HostEntry γ}
    (htask : s.tasks[k]? = some (.spawning spec req i id (.inserting c upstream startedAt)))
    (hhost : s.cl.hosts[i]? = some h)
    (hspared : ∀ j task, j ≠ k → s.tasks[j]? = some task →
      task.Spares shards (names s.cl) id i h.id)
    (hreturn : (machine shards).step s (.advance k o) = some s')
    (hrun : (machine shards).Run (Tended id i h.id) s' es t) :
    (t.cl.placement.lookup id).isSome = true := by
  have hkept : Kept shards id i h.id s' := by
    obtain ⟨task, htask', hstep⟩ := Option.bind_eq_some_iff.mp hreturn
    cases htask.symm.trans htask'
    obtain ⟨⟨cl', task'⟩, hadvance, heq⟩ := Option.map_eq_some_iff.mp hstep
    cases heq
    cases hadvance
    refine ⟨?_, ⟨(h.id, req.specId), ?_, rfl⟩, ?_⟩
    · change (names s.cl)[i]? = some h.id
      rw [names, List.getElem?_map, hhost, Option.map_some]
    · rw [hhost]
      exact AList.lookup_insert _
    · intro task hmem
      obtain ⟨j, hj⟩ := List.mem_iff_getElem?.mp hmem
      rcases getElem?_set_cases hj with ⟨-, rfl⟩ | ⟨hne, hj⟩
      · trivial
      · exact hspared j task hne hj
  have hend := hrun.invariant hkept fun s e s' hI hok hst => hI.step hok hst
  obtain ⟨place, hplace, -⟩ := hend.placed
  rw [hplace]
  rfl

end Runs

/-! ### A listing across a spawn -/

section Example

attribute [local instance] wholeFloats bitUuid

/-- A spawn up to its last step, while a listing is under way. -/
def spawnsDuring (asked : List (Event Bool Nat Nat)) : List (Event Bool Nat Nat) :=
  .list :: asked ++ picks 1 false ++ creates 1 false 7 ++ (settles 1 false).dropLast

/-- The one step of a call that is left to it, or the next one. -/
def goesOn (task : Nat) : Event Bool Nat Nat := .advance task (answering false .ok)

/-- The container runs, and its port is published. -/
def runs : Event Bool Nat Nat :=
  .changes 0 7 [] (some .running) [(defaultInnerPort, some defaultInnerPort)] none

def runningHost : HostEntry Nat :=
  { smallHost with containers := [{ newContainer labRequest false 7 0 with
      state := some .running, ports := [(defaultInnerPort, some defaultInnerPort)] }] }

/-- The spawn is about to return, and a listing has not asked yet. -/
def returning : State Bool Nat Nat :=
  ⟨⟨[runningHost], ∅⟩, [.asking [none], .spawning labSpec labRequest 0 false (.inserting 7 0 0)]⟩

def returned : State Bool Nat Nat :=
  ⟨⟨[runningHost], AList.insert false (['a'], "lab".toList) ∅⟩, [.asking [none], .done]⟩

/-- The listing asks the host when the spawn has returned. -/
theorem placed_of_spared_askedLater : ∃ t,
    (machine oneShard).Run (Tended false 0 ['a']) returned [goesOn 0, goesOn 0, goesOn 0, goesOn 0] t ∧
    (t.cl.placement.lookup false).isSome = true := by
  have hsome : ((machine oneShard).execIf (Tended false 0 ['a']) returned
      [goesOn 0, goesOn 0, goesOn 0, goesOn 0]).isSome = true := by decide +kernel
  have hrun := run_execIf hsome
  refine ⟨_, hrun, placed_of_spared (s := returning) (k := 1) (o := answering false .ok)
    rfl rfl ?_ rfl hrun⟩
  intro j task hne hj
  match j, hj with
  | 0, hj =>
    cases hj
    refine ⟨by decide +kernel, ?_, ?_⟩
    · intro rows hrows
      cases hrows
    · intro j rows hrows
      match j, hrows with
      | 0, hrows => cases hrows
  | 1, hj => exact absurd rfl hne

/-- The listing has asked the host before, and prunes the replica of a container that runs. -/
theorem listing_drops_returned : ∃ s t,
    (machine oneShard).exec (booted [smallHost])
      (spawnsDuring [goesOn 0] ++ [goesOn 1, runs]) = some s ∧
    s.cl.placement.lookup false = some (['a'], "lab".toList) ∧
    (machine oneShard).exec s [goesOn 0, goesOn 0, goesOn 0] = some t ∧
    t.cl.hosts.map (fun h => h.containers.map Container.isRunning) = [[true]] ∧
    t.cl.placement.lookup false = none := by
  refine ⟨_, _, rfl, ?_, rfl, ?_, ?_⟩
  · decide
  · decide
  · decide

end Example

end Capped

end Ruscker.Docker
