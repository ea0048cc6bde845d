import Ruscker.Scaler.Reconcile

/-!
# The deletion of a spec

The handler removes the row of the spec, and `stop_spec` then stops those replicas that the
registry has of the spec at that moment.  Requests, spawns and passes that hold the spec or a
catalog with it go on, and `find_spec` may find it in its cache for a while.
-/

namespace Ruscker.Scaler.Deletion

open Tables Machines Machines.Machine Proxy.Calls Reconcile

variable {ι κ : Type*}

/-! ## Who has the spec -/

/-- In milliseconds. -/
def specCacheTtl : Nat := 1000

inductive Reader where
  -- `find_spec` goes to the database; what the lookup has given
  | loading
  | loaded (found : Bool)
  -- a request with the spec, and the tasks it spawns
  | holding
  -- a tick or the watcher, with the specs it has listed
  | listing (specs : List Str)

/-- Calls that begin with the spec in hand. -/
def needsSpec (p : Phase ι κ) : Bool := p.isVisit || p.isQueued

def Reader.canStart (x : Str) : Reader → Phase ι κ → Bool
  | .holding, p => needsSpec p
  | .listing specs, .queued .addCapacity => specs.contains x
  | _, _ => false

/-! ## Steps -/

/-- How far the deletion is. -/
inductive Progress (ι : Type*) where
  | pending
  -- the row is gone; the registry is read next
  | reading
  | stopping (todo : List ι)
  -- the calls of `cleanup_replica_state`
  | cleaning (call : Nat) (r : ι) (todo : List ι)
  | ended

namespace Progress

def isReading : Progress ι → Bool
  | .reading => true
  | _ => false

def hasRead : Progress ι → Bool
  | .pending | .reading => false
  | _ => true

def waitsFor (call : Nat) : Progress ι → Bool
  | .cleaning call' _ _ => call' = call
  | _ => false

end Progress

/-- `stored` is the row of the spec in the database, `cachedAt` its entry in the cache. -/
structure State (ι κ : Type*) where
  world : Reconcile.State ι κ
  stored : Bool
  cachedAt : Option Nat
  readers : List Reader
  deletion : Progress ι

def boot (rows : Registry ι) (containers : Table ι Container) : State ι κ :=
  ⟨Reconcile.boot rows containers, true, none, [], .pending⟩

inductive Event (ι κ : Type*) where
  | world (e : Reconcile.Event ι κ)
  | find
  | load (i : Nat) (answered : Bool)
  | settle (i : Nat)
  | list (specs : List Str) (answered : Bool)
  | start (i : Nat) (p : Phase ι κ)
  | begin (i : Nat) (reached : ι → Bool)
  | delete

section Steps

variable [DecidableEq ι]

namespace State

variable (s : State ι κ)

def isCached : Bool := s.cachedAt.any fun t => decide (s.world.base.now - t < specCacheTtl)

/-- What goes on without the spec in hand; the deletion is not dropped. -/
def mayHappen (x : Str) : Reconcile.Event ι κ → Bool
  | .call (.start spec p) => !(needsSpec p && decide (spec = x))
  | .call (.drop j) => !s.deletion.waitsFor j
  | .begin _ _ => false
  | _ => true

/-- `delete` of the handler and `stop_spec`, whose stops succeed. -/
def delete (x : Str) : Option (State ι κ) :=
  match s.deletion with
  | .pending => some { s with stored := false, deletion := .reading }
  | .reading => some { s with
      deletion := .stopping ((s.world.base.replicas.replicasOf x).map Replica.id) }
  | .stopping [] => some { s with deletion := .ended }
  | .stopping (r :: todo) => some { s with
      world := { s.world.stop r true with base := s.world.base.begin x (.removing r) }
      deletion := .cleaning s.world.base.calls.length r todo }
  | .cleaning call _ todo =>
    if s.world.base.hasEnded call then some { s with deletion := .stopping todo } else none
  | .ended => none

end State

variable [Floats] [DecidableEq κ] (specOf : ι → Str) (node : Node κ) (x : Str) (inYaml : Bool)

/-- The YAML config may have the spec too; it is what remains where the database is silent. -/
def step (s : State ι κ) : Event ι κ → Option (State ι κ)
  | .world e =>
    if s.mayHappen x e then
      ((Reconcile.machine specOf node).step s.world e).map fun world => { s with world }
    else none
  | .find => some { s with readers := s.readers ++ [if s.isCached then .holding else .loading] }
  | .load i answered => (s.readers[i]?).bind fun
    | .loading => some { s with
        readers := s.readers.set i (.loaded (answered && s.stored || inYaml)) }
    | _ => none
  | .settle i => (s.readers[i]?).bind fun
    | .loaded true => some { s with
        readers := s.readers.set i .holding, cachedAt := some s.world.base.now }
    | .loaded false => some { s with readers := s.readers.eraseIdx i, cachedAt := none }
    | _ => none
  | .list specs answered =>
    if specs.contains x = (answered && s.stored || inYaml) then
      some { s with readers := s.readers ++ [.listing specs] }
    else none
  | .start i p => (s.readers[i]?).bind fun reader =>
    if reader.canStart x p then
      ((Reconcile.machine specOf node).step s.world (.call (.start x p))).map fun world =>
        { s with world }
    else none
  | .begin i reached => (s.readers[i]?).bind fun
    | .listing specs =>
      ((Reconcile.machine specOf node).step s.world (.begin specs reached)).map fun world =>
        { s with world }
    | _ => none
  | .delete => s.delete x

def machine : Machine (State ι κ) (Event ι κ) := ⟨step specOf node x inYaml⟩

end Steps

/-! ## What is left of the spec -/

section Property

variable (specOf : ι → Str) (x : Str)

/-- Neither the registry nor the backend has a replica of the spec. -/
def Reaped [DecidableEq ι] (s : State ι κ) : Prop :=
  (∀ y ∈ s.world.base.replicas, y.specId ≠ x) ∧
    ∀ r, specOf r = x → s.world.containers.lookup r = none

/-- A call or a pass is in the mutex of the spec. -/
def Inside (w : Reconcile.State ι κ) : Prop :=
  (∃ c ∈ w.base.calls, c.spec = x ∧ c.phase.locks = true) ∨ ∃ p ∈ w.passes, p.task.lock = some x

instance (w : Reconcile.State ι κ) : Decidable (Inside x w) :=
  inferInstanceAs (Decidable (_ ∨ _))

/-- A call or a pass goes from the queue into the mutex. -/
def Enters (w : Reconcile.State ι κ) : Reconcile.Event ι κ → Prop
  | .call (.advance j _) => ∃ c ∈ w.base.calls[j]?, c.spec = x ∧ c.phase.isQueued = true
  | .pass i _ => ∃ p ∈ w.passes[i]?, p.task.waits = some x
  | _ => False

/-- When `stop_spec` reads the registry nobody is in the mutex of the spec and every container of
the spec has its row, and from then on nobody goes into the mutex.  A replica that the backend
has just started is a new one. -/
def Undisturbed (s : State ι κ) : Event ι κ → Prop
  | .world e => (s.deletion.hasRead = true → ¬ Enters x s.world e) ∧ AddsNew s.world e
  | .delete => s.deletion.isReading = true → ¬ Inside x s.world ∧
      ∀ e ∈ s.world.containers.entries, specOf e.1 = x →
        ∃ y ∈ s.world.base.replicas, y.id = e.1
  | _ => True

instance (w : Reconcile.State ι κ) : (e : Reconcile.Event ι κ) → Decidable (Enters x w e)
  | .call (.advance j _) => inferInstanceAs (Decidable (∃ c ∈ w.base.calls[j]?,
      c.spec = x ∧ c.phase.isQueued = true))
  | .pass i _ => inferInstanceAs (Decidable (∃ p ∈ w.passes[i]?, p.task.waits = some x))
  | .call (.start _ _) | .call (.drop _) | .call (.tick _) | .create _ | .start _ | .exit _
  | .destroy _ | .begin _ _ => isFalse id

instance [DecidableEq ι] (s : State ι κ) : (e : Event ι κ) → Decidable (Undisturbed specOf x s e)
  | .world e => inferInstanceAs (Decidable (_ ∧ AddsNew s.world e))
  | .delete => inferInstanceAs (Decidable (s.deletion.isReading = true → ¬ Inside x s.world ∧
      ∀ e ∈ s.world.containers.entries, specOf e.1 = x →
        ∃ y ∈ s.world.base.replicas, y.id = e.1))
  | .find | .load _ _ | .settle _ | .list _ _ | .start _ _ | .begin _ _ => isTrue trivial

end Property

/-! ## Nobody in the mutex -/

section Closed

variable [DecidableEq ι] {specOf : ι → Str} {x : Str} {w w' : Reconcile.State ι κ}

/-- Nobody is in the mutex of the spec, and its rows and containers are among those listed. -/
structure Closed (specOf : ι → Str) (x : Str) (w : Reconcile.State ι κ)
    (rows containers : List ι) : Prop where
  outside : ¬ Inside x w
  rows : ∀ y ∈ w.base.replicas, y.specId = x → y.id ∈ rows
  containers : ∀ r, specOf r = x → (w.containers.lookup r).isSome = true → r ∈ containers

/-- A removal takes its replica off the list. -/
theorem Closed.remove {r : ι} {rows containers : List ι}
    (h : Closed specOf x w' (r :: rows) containers) (hdistinct : w.base.replicas.Distinct)
    (hreplicas : w'.base.replicas = w.base.replicas.remove r) :
    Closed specOf x w' rows containers where
  outside := h.outside
  rows y hy hspec := by
    rcases List.mem_cons.mp (h.rows y hy hspec) with hid | hrest
    · rw [hreplicas] at hy
      exact absurd hid (hdistinct.id_ne_of_mem_remove hy)
    · exact hrest
  containers := h.containers

variable [Floats] [DecidableEq κ] {node : Node κ} {e : Reconcile.Event ι κ}

/-- A step takes nobody into the mutex who was not waiting for it. -/
theorem inside_step (hregular : Regular node specOf w)
    (hstep : (Reconcile.machine specOf node).step w e = some w') (h : Inside x w') :
    Inside x w ∨ Enters x w e := by
  cases step_cases hstep with
  | quiet e b hreplicas hcoherent hcalls hkeep =>
    rcases h with ⟨c, hc, hspec, hlocks⟩ | hpass
    · rcases hcalls c hc with hold | ⟨hfree, -, -⟩
      · exact .inl (.inl ⟨c, hold, hspec, hlocks⟩)
      · rw [hfree] at hlocks
        cases hlocks
    · exact .inl (.inr hpass)
  | advance j o c b hc hadmits hadvance =>
    rcases h with ⟨d, hd, hspec, hlocks⟩ | hpass
    · obtain ⟨q, hcalls, hleads⟩ := calls_of_advance hadvance
      change d ∈ b.calls at hd
      rw [hcalls] at hd
      rcases List.mem_or_eq_of_mem_set hd with hold | rfl
      · exact .inl (.inl ⟨d, hold, hspec, hlocks⟩)
      · cases hqueued : c.phase.isQueued with
        | true => exact .inr ⟨c, hc, hspec, hqueued⟩
        | false =>
          exact .inl (.inl ⟨c, List.mem_of_getElem? hc, hspec, hleads.locks hqueued hlocks⟩)
    · exact .inl (.inr hpass)
  | create r c hc hlocks hspec => exact .inl h
  | start r => exact .inl h
  | exit r => exact .inl h
  | destroy r => exact .inl h
  | begin specs reached =>
    rcases h with hcall | ⟨p, hp, hlock⟩
    · exact .inl (.inl hcall)
    · rcases List.mem_append.mp hp with hold | hnew
      · exact .inl (.inr ⟨p, hold, hlock⟩)
      · rw [List.mem_singleton.mp hnew] at hlock
        cases hlock
  | pass i a p w' hp hadvance =>
    obtain ⟨p', t, -⟩ :=
      turn_of_advance (hregular.passes p (List.mem_of_getElem? hp)) hadvance
    rcases h with ⟨c, hc, hspec, hlocks⟩ | ⟨q, hq, hlock⟩
    · rcases t.base.calls c hc with hold | ⟨hfree, -, -⟩
      · exact .inl (.inl ⟨c, hold, hspec, hlocks⟩)
      · rw [hfree] at hlocks
        cases hlocks
    · rw [t.passes] at hq
      rcases List.mem_or_eq_of_mem_set hq with hold | rfl
      · exact .inl (.inr ⟨q, hold, hlock⟩)
      · rcases t.lock x hlock with hheld | ⟨hwaits, -⟩
        · exact .inl (.inr ⟨p, List.mem_of_getElem? hp, hheld⟩)
        · exact .inr ⟨p, hp, hwaits⟩

/-- With nobody in the mutex no row of the spec is added. -/
theorem rows_step (hregular : Regular node specOf w) (hout : ¬ Inside x w)
    (hstep : (Reconcile.machine specOf node).step w e = some w') :
    ∀ y ∈ w'.base.replicas, y.specId = x →
      ∃ z ∈ w.base.replicas, z.id = y.id ∧ z.specId = x := by
  intro y hy hspec
  cases step_cases hstep with
  | quiet e b hreplicas hcoherent hcalls hkeep => exact ⟨y, hreplicas ▸ hy, rfl, hspec⟩
  | advance j o c b hc hadmits hadvance =>
    have hmem := List.mem_of_getElem? hc
    rcases stems_of_call (hregular.readopts c hmem) hc hadvance y hy with
      ⟨z, hz, hid, hzspec, -⟩ | ⟨z, hz, hid, hzspec⟩
    · exact ⟨z, hz, hid, hzspec.trans hspec⟩
    · have hlabel := (hregular.added c hmem z hz).1
      exact absurd (.inl ⟨c, hmem, hlabel.symm.trans (hzspec.trans hspec), locks_of_added hz⟩) hout
  | create r c hc hlocks hspec' => exact ⟨y, hy, rfl, hspec⟩
  | start r => exact ⟨y, hy, rfl, hspec⟩
  | exit r => exact ⟨y, hy, rfl, hspec⟩
  | destroy r => exact ⟨y, hy, rfl, hspec⟩
  | begin specs reached => exact ⟨y, hy, rfl, hspec⟩
  | pass i a p w' hp hadvance =>
    have hmem := List.mem_of_getElem? hp
    have hlabels := hregular.passes p hmem
    obtain ⟨p', t, -⟩ := turn_of_advance hlabels hadvance
    rcases t.base.rows y hy with hold | ⟨spec, z, htask, hid, hzspec⟩
    · exact ⟨y, hold, rfl, hspec⟩
    · have hz : z.specId = specOf z.id := hlabels.found z (by rw [htask]; rfl)
      have hlabel : spec = specOf z.id := hlabels.subject spec z.id (by rw [htask]; rfl)
      refine absurd (.inr ⟨p, hmem, ?_⟩) hout
      rw [htask, ← hspec, hzspec, hz, ← hlabel]
      rfl

/-- With nobody in the mutex the backend gets no container of the spec. -/
theorem containers_step (hregular : Regular node specOf w) (hout : ¬ Inside x w)
    (hstep : (Reconcile.machine specOf node).step w e = some w') {r : ι} (hspec : specOf r = x)
    (h : (w'.containers.lookup r).isSome = true) : (w.containers.lookup r).isSome = true := by
  cases step_cases hstep with
  | quiet e b hreplicas hcoherent hcalls hkeep => exact h
  | advance j o c b hc hadmits hadvance => exact h
  | create r' c hc hlocks hcspec =>
    dsimp only at h
    rw [Table.lookup_insert_eq] at h
    split at h
    · next heq =>
      subst heq
      exact absurd (.inl ⟨c, hc, hcspec.trans hspec, hlocks⟩) hout
    · exact h
  | start r' =>
    dsimp only at h
    rw [Table.lookup_update] at h
    split at h
    · simpa using h
    · exact h
  | exit r' =>
    dsimp only at h
    rw [Table.lookup_update] at h
    split at h
    · simpa using h
    · exact h
  | destroy r' =>
    dsimp only at h
    rw [Table.lookup_erase_eq] at h
    split at h
    · cases h
    · exact h
  | begin specs reached => exact h
  | pass i a p w' hp hadvance =>
    obtain ⟨p', t, -⟩ :=
      turn_of_advance (hregular.passes p (List.mem_of_getElem? hp)) hadvance
    rw [← t.containers r h]
    exact h

/-- A removal that is under way stays so until it has taken the row out. -/
theorem removing_step (hregular : Regular node specOf w) {j : Nat} {c : Call ι κ} {r : ι}
    (hc : w.base.calls[j]? = some c) (hphase : c.phase = .removing r)
    (hdrop : e ≠ .call (.drop j)) (hstep : (Reconcile.machine specOf node).step w e = some w') :
    w'.base.calls[j]? = some c ∨ w'.base.replicas = w.base.replicas.remove r := by
  cases step_cases hstep with
  | quiet e b hreplicas hcoherent hcalls hkeep =>
    exact .inl (hkeep j c (fun heq => hdrop (congrArg _ heq)) hc)
  | advance k o d b hd hadmits hadvance =>
    by_cases hjk : k = j
    · subst hjk
      cases hc.symm.trans hd
      simp only [Proxy.Calls.advance, hphase] at hadvance
      cases hadvance
      exact .inr rfl
    · obtain ⟨q, hcalls, -⟩ := calls_of_advance hadvance
      change b.calls[j]? = some c ∨ _
      rw [hcalls, List.getElem?_set_ne hjk]
      exact .inl hc
  | create r' d hd hlocks hspec => exact .inl hc
  | start r' => exact .inl hc
  | exit r' => exact .inl hc
  | destroy r' => exact .inl hc
  | begin specs reached => exact .inl hc
  | pass i a p w' hp hadvance =>
    obtain ⟨p', t, -⟩ :=
      turn_of_advance (hregular.passes p (List.mem_of_getElem? hp)) hadvance
    exact .inl (t.base.getElem? hc)

theorem Closed.step {rows containers : List ι} (h : Closed specOf x w rows containers)
    (hregular : Regular node specOf w) (hquiet : ¬ Enters x w e)
    (hstep : (Reconcile.machine specOf node).step w e = some w') :
    Closed specOf x w' rows containers where
  outside hin := (inside_step hregular hstep hin).elim h.outside hquiet
  rows y hy hspec := by
    obtain ⟨z, hz, hid, hzspec⟩ := rows_step hregular h.outside hstep y hy hspec
    exact hid ▸ h.rows z hz hzspec
  containers r hspec hsome :=
    h.containers r hspec (containers_step hregular h.outside hstep hspec hsome)

end Closed

/-! ## Runs -/

section Runs

variable [DecidableEq ι] {specOf : ι → Str} {x : Str}

/-- What is left of the spec once its rows have been read: the replicas still to be stopped, and
the row of one whose container has just gone. -/
def Clears (specOf : ι → Str) (x : Str) (s : State ι κ) : Prop :=
  match s.deletion with
  | .pending | .reading => True
  | .stopping todo => Closed specOf x s.world todo todo
  | .cleaning call r todo => Closed specOf x s.world todo todo ∨
      Closed specOf x s.world (r :: todo) todo ∧
        ∃ c, s.world.base.calls[call]? = some c ∧ c.phase = .removing r
  | .ended => Closed specOf x s.world [] []

variable [Floats] [DecidableEq κ] {node : Node κ} {inYaml : Bool} {s s' : State ι κ}
  {e : Event ι κ}

structure Sound (node : Node κ) (specOf : ι → Str) (x : Str) (s : State ι κ) : Prop where
  regular : Regular node specOf s.world
  clears : Clears specOf x s

namespace Sound

variable (h : Sound node specOf x s)
include h

/-- A step of the rest, which nobody uses to go into the mutex. -/
theorem world {w : Reconcile.State ι κ} {e : Reconcile.Event ι κ}
    (hquiet : s.deletion.hasRead = true → ¬ Enters x s.world e) (hnew : AddsNew s.world e)
    (hdrop : ∀ j, s.deletion.waitsFor j = true → e ≠ .call (.drop j))
    (hstep : (Reconcile.machine specOf node).step s.world e = some w) :
    Sound node specOf x { s with world := w } := by
  refine ⟨h.regular.step hnew hstep, ?_⟩
  have hclears := h.clears
  unfold Clears at hclears ⊢
  dsimp only
  cases hdeletion : s.deletion with
  | pending => trivial
  | reading => trivial
  | stopping todo =>
    rw [hdeletion] at hclears hquiet
    exact hclears.step h.regular (hquiet rfl) hstep
  | cleaning call r todo =>
    rw [hdeletion] at hclears hquiet hdrop
    rcases hclears with hgone | ⟨hclosed, c, hc, hphase⟩
    · exact .inl (hgone.step h.regular (hquiet rfl) hstep)
    · have hclosed' := hclosed.step h.regular (hquiet rfl) hstep
      rcases removing_step h.regular hc hphase (hdrop call (decide_eq_true rfl)) hstep with
        hstill | hremoved
      · exact .inr ⟨hclosed', c, hstill, hphase⟩
      · exact .inl (hclosed'.remove h.regular.coherent.distinct hremoved)
  | ended =>
    rw [hdeletion] at hclears hquiet
    exact hclears.step h.regular (hquiet rfl) hstep

/-- The container of the next replica goes, and its cleanup begins. -/
theorem stop {r : ι} {todo : List ι} (hdeletion : s.deletion = .stopping (r :: todo)) :
    Sound node specOf x { s with
      world := { s.world.stop r true with base := s.world.base.begin x (.removing r) }
      deletion := .cleaning s.world.base.calls.length r todo } := by
  have hclosed : Closed specOf x s.world (r :: todo) (r :: todo) := by
    have hclears := h.clears
    unfold Clears at hclears
    rw [hdeletion] at hclears
    exact hclears
  refine ⟨h.regular.frame rfl rfl (h.regular.coherent.start rfl)
    (forall_mem_concat (fun c hc => .inl hc) (.inr ⟨rfl, rfl, rfl⟩)), .inr ⟨⟨?_, hclosed.rows, ?_⟩,
      ⟨x, .removing r⟩, List.getElem?_concat_length, rfl⟩⟩
  · rintro (⟨c, hc, hspec, hlocks⟩ | hpass)
    · rcases List.mem_append.mp hc with hold | hnew
      · exact hclosed.outside (.inl ⟨c, hold, hspec, hlocks⟩)
      · rw [List.mem_singleton.mp hnew] at hlocks
        cases hlocks
    · exact hclosed.outside (.inr hpass)
  · intro r' hspec hsome
    change ((s.world.containers.erase r).lookup r').isSome = true at hsome
    rw [Table.lookup_erase_eq] at hsome
    split at hsome
    · cases hsome
    · next hne =>
      exact (List.mem_cons.mp (hclosed.containers r' hspec hsome)).resolve_left hne

theorem delete (hok : Undisturbed specOf x s (.delete : Event ι κ))
    (hstep : s.delete x = some s') : Sound node specOf x s' := by
  have hclears := h.clears
  unfold Clears at hclears
  unfold State.delete at hstep
  cases hdeletion : s.deletion with
  | pending =>
    rw [hdeletion] at hstep
    cases hstep
    exact ⟨h.regular, trivial⟩
  | reading =>
    rw [hdeletion] at hstep
    cases hstep
    obtain ⟨hout, hall⟩ := hok (by rw [hdeletion]; rfl)
    have hrow : ∀ y ∈ s.world.base.replicas, y.specId = x →
        y.id ∈ (s.world.base.replicas.replicasOf x).map Replica.id := fun y hy hspec =>
      List.mem_map_of_mem (List.mem_filter.mpr ⟨hy, decide_eq_true hspec⟩)
    refine ⟨h.regular, hout, hrow, fun r hspec hsome => ?_⟩
    obtain ⟨c, hc⟩ := Option.isSome_iff_exists.mp hsome
    obtain ⟨y, hy, rfl⟩ := hall ⟨r, c⟩ (Table.mem_entries_iff.mpr hc) hspec
    exact hrow y hy ((h.regular.rows y hy).trans hspec)
  | stopping todo =>
    rw [hdeletion] at hstep hclears
    cases todo with
    | nil =>
      cases hstep
      exact ⟨h.regular, hclears⟩
    | cons r todo =>
      cases hstep
      exact h.stop hdeletion
  | cleaning call r todo =>
    rw [hdeletion] at hstep hclears
    dsimp only at hstep
    split at hstep
    · next hended =>
      cases hstep
      refine ⟨h.regular, hclears.resolve_right ?_⟩
      -- a cleanup that has ended has removed the row
      rintro ⟨-, c, hc, hphase⟩
      unfold State.hasEnded at hended
      rw [hc, Option.any_some, hphase] at hended
      cases hended
    · cases hstep
  | ended =>
    rw [hdeletion] at hstep
    cases hstep

/-- **Step lemma.** -/
theorem step (hok : Undisturbed specOf x s e)
    (hstep : (machine specOf node x inYaml).step s e = some s') : Sound node specOf x s' := by
  cases e with
  | world e =>
    simp only [machine, Deletion.step] at hstep
    split at hstep
    · next hmay =>
      obtain ⟨w, hw, rfl⟩ := Option.map_eq_some_iff.mp hstep
      refine h.world hok.1 hok.2 (fun j hj heq => ?_) hw
      rw [heq] at hmay
      simp [State.mayHappen, hj] at hmay
    · cases hstep
  | find =>
    cases hstep
    exact ⟨h.regular, h.clears⟩
  | load i answered =>
    obtain ⟨reader, -, hstep⟩ := Option.bind_eq_some_iff.mp hstep
    cases reader with
    | loading =>
      cases hstep
      exact ⟨h.regular, h.clears⟩
    | _ => cases hstep
  | settle i =>
    obtain ⟨reader, -, hstep⟩ := Option.bind_eq_some_iff.mp hstep
    cases reader with
    | loaded found =>
      cases found with
      | true =>
        cases hstep
        exact ⟨h.regular, h.clears⟩
      | false =>
        cases hstep
        exact ⟨h.regular, h.clears⟩
    | _ => cases hstep
  | list specs answered =>
    simp only [machine, Deletion.step] at hstep
    split at hstep
    · cases hstep
      exact ⟨h.regular, h.clears⟩
    · cases hstep
  | start i p =>
    obtain ⟨reader, -, hstep⟩ := Option.bind_eq_some_iff.mp hstep
    split at hstep
    · obtain ⟨w, hw, rfl⟩ := Option.map_eq_some_iff.mp hstep
      have hnew : AddsNew s.world (.call (.start x p)) := trivial
      exact h.world (fun _ => id) hnew (fun _ _ heq => by cases heq) hw
    · cases hstep
  | begin i reached =>
    obtain ⟨reader, -, hstep⟩ := Option.bind_eq_some_iff.mp hstep
    cases reader with
    | listing specs =>
      obtain ⟨w, hw, rfl⟩ := Option.map_eq_some_iff.mp hstep
      have hnew : AddsNew s.world (.begin specs reached) := trivial
      exact h.world (fun _ => id) hnew (fun _ _ heq => by cases heq) hw
    | _ => cases hstep
  | delete => exact h.delete hok hstep

end Sound

/-- **A deletion leaves nothing behind** if nobody is in the mutex of the spec when `stop_spec`
reads the registry, every container of the spec then has its row, and nobody goes into the mutex
afterwards: once it is over, neither the registry nor the backend has a replica of the spec, now
or later. -/
theorem reaped_of_undisturbed {rows : Registry ι} {containers : Table ι Container}
    {es : List (Event ι κ)} (hrows : rows.Distinct) (hspecs : ∀ y ∈ rows, y.specId = specOf y.id)
    (hrun : (machine specOf node x inYaml).Run (Undisturbed specOf x) (boot rows containers) es s)
    (hended : s.deletion = .ended) : Reaped specOf x s := by
  have hstart : Sound node specOf x (boot rows containers : State ι κ) :=
    ⟨.boot hrows hspecs, trivial⟩
  have hclosed : Closed specOf x s.world [] [] := by
    have hclears := (hrun.invariant hstart fun _ _ _ hI hok hstep => hI.step hok hstep).clears
    unfold Clears at hclears
    rw [hended] at hclears
    exact hclears
  refine ⟨fun y hy hspec => ?_, fun r hspec => ?_⟩
  · exact absurd (hclosed.rows y hy hspec) List.not_mem_nil
  · rw [← Option.not_isSome_iff_eq_none]
    exact fun hsome => absurd (hclosed.containers r hspec hsome) List.not_mem_nil

end Runs

/-! ## A spawn across the deletion -/

section Example

attribute [local instance] wholeFloats

/-- Every call, every pass and the deletion have come to their end. -/
def finished (s : State ι κ) : Bool :=
  (match s.deletion with
    | .ended => true
    | _ => false) &&
  (s.world.base.calls.all fun c => match c.phase with
    | .done => true
    | _ => false) &&
  s.world.passes.all fun p => match p.task with
    | .ended => true
    | _ => false

theorem ended_of_finished {s : State ι κ} (h : finished s = true) : s.deletion = .ended := by
  unfold finished at h
  cases hdeletion : s.deletion with
  | ended => rfl
  | _ =>
    rw [hdeletion] at h
    cases h

abbrev labMachine : Machine (State Nat Nat) (Event Nat Nat) :=
  machine (fun _ => labId) labNode labId false

def call (j : Nat) (spawned : Option (Replica Nat)) : Event Nat Nat :=
  .world (.call (.advance j (labOutside 42 spawned)))

def turn (i : Nat) : Event Nat Nat := .world (.pass i ⟨true, fun _ => true, 7, true⟩)

/-- A request finds the spec. -/
def finds : List (Event Nat Nat) := [.find, .load 0 true, .settle 0]

def warm : State Nat Nat := boot [labReplica 7] ((∅ : Table Nat Container).insert 7 ⟨0, true, none⟩)

/-- A visitor has a session on the replica, and a tick has listed the spec; the deletion stops the
replica and drops the session; then the tick makes its pass. -/
def retires : List (Event Nat Nat) :=
  finds ++ [.list [labId] true, .start 0 .fast, call 0 none, call 0 none, .delete, .delete,
    .delete] ++ List.replicate 5 (call 1 none) ++ [.delete, .delete, .begin 1 fun _ => true] ++
    List.replicate 4 (turn 0)

theorem reaped_of_undisturbed_retires : ∃ s : State Nat Nat,
    labMachine.Run (Undisturbed (fun _ => labId) labId) warm retires s ∧ finished s = true ∧
      Reaped (fun _ => labId) labId s := by
  have hrows : Registry.Distinct [labReplica 7] := List.nodup_singleton _
  have hspecs : ∀ y ∈ [labReplica 7], y.specId = labId := by
    intro y hy
    rw [List.mem_singleton.mp hy]
    rfl
  have hfinished : (labMachine.execIf (Undisturbed (fun _ => labId) labId) warm retires).map
      finished = some true := by decide
  obtain ⟨s, hs, hend⟩ := Option.map_eq_some_iff.mp hfinished
  have hrun := run_of_execIf hs
  exact ⟨s, hrun, hend, reaped_of_undisturbed hrows hspecs hrun (ended_of_finished hend)⟩

/-- The first visitor of the spec has it spawned.  The deletion finds no replica to stop; then the
container is up, and its row is added. -/
def spawns : List (Event Nat Nat) :=
  finds ++ [.start 0 (.queued .ensureAvailable), call 0 none, call 0 none, call 0 none,
    .world (.create 7), .delete, .delete, .delete, .world (.start 7),
    call 0 (some (labReplica 7)), call 0 none]

/-- A tick lists a catalog without the spec and makes its pass. -/
def tick : List (Event Nat Nat) :=
  [.list [] true, .begin 1 fun _ => true] ++ List.replicate 5 (turn 0)

theorem spawned_left : ∃ s t : State Nat Nat,
    labMachine.exec (boot [] ∅) spawns = some s ∧ finished s = true ∧
      labMachine.exec s tick = some t ∧ finished t = true ∧
      t.world.base.replicas = [labReplica 7] ∧ t.world.runs 7 = true ∧
      ¬ Reaped (fun _ => labId) labId t := by
  refine ⟨_, _, rfl, rfl, rfl, rfl, rfl, rfl, fun h => ?_⟩
  exact h.1 (labReplica 7) List.mem_cons_self rfl

end Example

end Ruscker.Scaler.Deletion
