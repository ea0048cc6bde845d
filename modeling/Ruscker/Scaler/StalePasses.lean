import Ruscker.Scaler.Reconcile

/-!
# Passes and replicas in use

A pass stops and prunes on what it has read.  It does no harm as long as no replica that it is
going to stop or prune comes into use meanwhile.
-/

namespace Ruscker.Scaler.Reconcile

open Tables Machines Machines.Machine Proxy.Calls

variable {ι κ : Type*}

/-! ## What a pass is going to do -/

namespace Task

/-- What it has come to and stops, prunes or removes without another look. -/
def condemns : Task ι → List ι
  | .expiring r => [r]
  | .pruning _ r none => [r]
  | .reaping todo => todo
  | _ => []

def isListing : Task ι → Bool
  | .listing _ _ => true
  | _ => false

/-- The replica whose row it is about to write as ready. -/
def publishes : Task ι → Option ι
  | .upserting _ r => some r.id
  | _ => none

/-- Looked for under the mutex, and not ready. -/
def checked : Task ι → List ι
  | .excess _ r | .readying _ r _ | .timedOut _ r _ => [r.id]
  | .pruning _ r (some _) => [r]
  | _ => []

/-- What was looked for is the subject, and its mutex is held. -/
theorem lock_of_checked {t : Task ι} {r : ι} (h : r ∈ t.checked) :
    ∃ spec, t.lock = some spec ∧ t.subject = some (spec, r) := by
  cases t with
  | excess spec x =>
    obtain rfl := List.mem_singleton.mp h
    exact ⟨spec, rfl, rfl⟩
  | readying spec x same =>
    obtain rfl := List.mem_singleton.mp h
    exact ⟨spec, rfl, rfl⟩
  | timedOut spec x same =>
    obtain rfl := List.mem_singleton.mp h
    exact ⟨spec, rfl, rfl⟩
  | pruning call x spec =>
    cases spec with
    | none => cases h
    | some spec =>
      obtain rfl := List.mem_singleton.mp h
      exact ⟨spec, rfl, rfl⟩
  | _ => cases h

end Task

namespace Pass

variable [DecidableEq ι] (p : Pass ι)

/-- The row is pruned when the pass comes to it. -/
def dooms (x : Replica ι) : Bool :=
  match p.liveness x with
  | .missing => true
  | .stopped => decide (x.state = .stopped) && p.expired x.startedAt
  | _ => false

/-- What the pass is going to stop or to prune because of what it has read. -/
def condemned : List ι :=
  p.task.condemns ++ if p.task.isListing then [] else (p.rows.filter p.dooms).map Replica.id

end Pass

/-! ## Replicas in use -/

section Property

variable [DecidableEq ι]

/-- A row of the replica is ready. -/
def Ready (b : Proxy.Calls.State ι κ) (r : ι) : Prop :=
  ∃ x ∈ b.replicas, x.id = r ∧ x.state = .ready

instance (b : Proxy.Calls.State ι κ) (r : ι) : Decidable (Ready b r) :=
  inferInstanceAs (Decidable (∃ x ∈ b.replicas, x.id = r ∧ x.state = .ready))

/-- Ready in the registry, and its container runs. -/
def InUse (s : State ι κ) (r : ι) : Prop := Ready s.base r ∧ s.runs r = true

instance (s : State ι κ) (r : ι) : Decidable (InUse s r) :=
  inferInstanceAs (Decidable (Ready s.base r ∧ s.runs r = true))

/-- What a pass stops or prunes in this step. -/
def kills (s : State ι κ) : Event ι κ → List ι
  | .pass i _ => (s.passes[i]?).elim [] fun p => match p.task with
    | .excess _ r | .timedOut _ r _ => [r.id]
    | .expiring r => [r]
    | .reaping todo => todo.take 1
    | _ => []
  | .call (.advance j _) => s.passes.flatMap fun p => match p.task with
    | .pruning call r _ => if call = j && (s.base.calls[j]?).any (fun c => match c.phase with
        | .removing _ => true
        | _ => false) then [r] else []
    | _ => []
  | _ => []

/-- No pass stops or prunes a replica in use. -/
def Spares (s : State ι κ) (e : Event ι κ) : Prop := ∀ r ∈ kills s e, ¬ InUse s r

variable (specOf : ι → Str)

/-- A replica comes into use only while no pass is going to stop or prune it because of what it
has read, and none is in use when the inventory that condemns it is complete.  A catalog has no
spec twice, and a replica the backend has just started is a new one. -/
def Steady (s : State ι κ) : Event ι κ → Prop
  | .start r => Ready s.base r → ∀ p ∈ s.passes, r ∉ p.condemned
  | .call (.advance j _) => ∀ c ∈ s.base.calls[j]?, ∀ x ∈ c.phase.added,
      (∀ y ∈ s.base.replicas, y.id ≠ x.id) ∧
        (s.runs x.id = true → ∀ p ∈ s.passes, x.id ∉ p.condemned)
  | .pass i a => ∀ p ∈ s.passes[i]?,
      (∀ r ∈ p.task.publishes, s.runs r = true → ∀ p' ∈ s.passes, r ∉ p'.condemned) ∧
        ∀ p' ∈ listed specOf s p a, ∀ r ∈ p'.condemned, ¬ InUse s r
  | .begin specs _ => specs.Nodup
  | _ => True

instance (s : State ι κ) : (e : Event ι κ) → Decidable (Steady specOf s e)
  | .call (.advance j _) => inferInstanceAs (Decidable (∀ c ∈ s.base.calls[j]?, ∀ x ∈ c.phase.added,
      (∀ y ∈ s.base.replicas, y.id ≠ x.id) ∧
        (s.runs x.id = true → ∀ p ∈ s.passes, x.id ∉ p.condemned)))
  | .start r => inferInstanceAs (Decidable (Ready s.base r → ∀ p ∈ s.passes, r ∉ p.condemned))
  | .pass i a => inferInstanceAs (Decidable (∀ p ∈ s.passes[i]?,
      (∀ r ∈ p.task.publishes, s.runs r = true → ∀ p' ∈ s.passes, r ∉ p'.condemned) ∧
        ∀ p' ∈ listed specOf s p a, ∀ r ∈ p'.condemned, ¬ InUse s r))
  | .begin specs _ => inferInstanceAs (Decidable specs.Nodup)
  | .call (.start _ _) | .call (.drop _) | .call (.tick _) | .create _ | .exit _ | .destroy _ =>
    isTrue trivial

end Property

/-! ## Rows that become ready -/

section Ready

variable [DecidableEq ι] {c : Call ι κ} {b b' : Proxy.Calls.State ι κ} {r : ι}

theorem Touch.ready {task : Task ι} (t : Touch b task b') (h : Ready b' r) :
    Ready b r ∨ ∃ spec x, task = .upserting spec x ∧ r = x.id := by
  obtain ⟨y, hy, rfl, hready⟩ := h
  rcases t.rows y hy with hold | ⟨spec, x, htask, hid, -⟩
  · exact .inl ⟨y, hold, rfl, hready⟩
  · exact .inr ⟨spec, x, htask, hid⟩

theorem ready_of_call [Floats] [DecidableEq κ] {node : Node κ} {i : Nat} {o : Outside ι κ}
    (hreadopts : c.phase.readopts = false)
    (hc : b.calls[i]? = some c) (hstep : Proxy.Calls.advance node b i c o = some b')
    (h : Ready b' r) : Ready b r ∨ ∃ x ∈ c.phase.added, x.id = r := by
  obtain ⟨y, hy, rfl, hready⟩ := h
  rcases stems_of_call hreadopts hc hstep y hy with ⟨x, hx, hid, -, hstate⟩ | ⟨x, hx, hid, -⟩
  · exact .inl ⟨x, hx, hid, hstate hready⟩
  · exact .inr ⟨x, hx, hid⟩

end Ready

/-! ## What is kept of a pass -/

section Kept

variable [DecidableEq ι] {s s' s₀ : State ι κ} {i : Nat} {p p' : Pass ι} {r : ι}

/-- What a pass has looked for is not ready, and what it is going to stop or prune is not in
use. -/
structure Kept (s : State ι κ) (p : Pass ι) : Prop where
  distinct : (p.rows.map Replica.id).Nodup
  checked : ∀ r ∈ p.task.checked, ¬ Ready s.base r
  stale : ∀ r ∈ p.condemned, ¬ InUse s r

theorem Kept.mono (h : Kept s p)
    (hchecked : ∀ r ∈ p.task.checked, Ready s'.base r → Ready s.base r)
    (hstale : ∀ r ∈ p.condemned, InUse s' r → InUse s r) : Kept s' p where
  distinct := h.distinct
  checked r hr hready := h.checked r hr (hchecked r hr hready)
  stale r hr huse := h.stale r hr (hstale r hr huse)

theorem mem_condemned : r ∈ p.condemned ↔
    r ∈ p.task.condemns ∨ p.task.isListing = false ∧ ∃ x ∈ p.rows, p.dooms x = true ∧ x.id = r := by
  rw [Pass.condemned, List.mem_append]
  refine or_congr_right ?_
  cases p.task.isListing with
  | true => simp
  | false => simp [and_assoc]

theorem any_eraseP_of_ne {l : List (Replica ι)} {x y : ι} (hne : x ≠ y) :
    ((l.eraseP fun r => r.id = x).any fun r => r.id = y) = l.any fun r => r.id = y := by
  induction l with
  | nil => rfl
  | cons z rest ih =>
    by_cases hz : z.id = x
    · simp [hz, hne]
    · simp only [List.eraseP_cons, hz, decide_false, cond_false, List.any_cons, ih]

/-- Another replica may be taken from those that run. -/
theorem dooms_eraseP {x : ι} {y : Replica ι} (hne : x ≠ y.id) :
    Pass.dooms { p with running := p.running.eraseP fun r => r.id = x } y = p.dooms y := by
  unfold Pass.dooms Pass.liveness
  rw [any_eraseP_of_ne hne]
  rfl

/-- A pass goes on with no more rows than it had. -/
theorem Kept.go (h : Kept s p) {p' : Pass ι} (hlisting : p.task.isListing = false)
    (hrows : p'.rows.Sublist p.rows)
    (hdooms : ∀ x ∈ p'.rows, p'.dooms x = true → p.dooms x = true)
    (hchecked : ∀ r ∈ p'.task.checked, ¬ Ready s.base r)
    (hcondemns : ∀ r ∈ p'.task.condemns, ¬ InUse s r) : Kept s p' where
  distinct := (hrows.map Replica.id).nodup h.distinct
  checked := hchecked
  stale r hr := by
    rcases mem_condemned.mp hr with hown | ⟨-, x, hx, hdoom, rfl⟩
    · exact hcondemns r hown
    · exact h.stale x.id (mem_condemned.mpr (.inr ⟨hlisting, x, hrows.subset hx,
        hdooms x hx hdoom, rfl⟩))

/-- The pass goes on in its task, with the rows it had. -/
theorem Kept.proceed {task : Task ι} (h : Kept s p) (hlisting : p.task.isListing = false)
    (hchecked : ∀ r ∈ task.checked, ¬ Ready s.base r)
    (hcondemns : ∀ r ∈ task.condemns, ¬ InUse s r) : Kept s { p with task } :=
  h.go hlisting (List.Sublist.refl _) (fun _ _ hdoom => hdoom) hchecked hcondemns

end Kept

section Runs

variable {specOf : ι → Str} {s s' : State ι κ} {i : Nat} {p : Pass ι} {a : Answer ι}

theorem checked_of_list {managed running : Bool} :
    (list specOf s p managed running a).task.checked = [] := by
  unfold list
  split
  · dsimp only
    split <;> rfl
  · dsimp only
    split <;> rfl

variable [DecidableEq ι] {e : Event ι κ}

/-- The pass comes to its next row. -/
theorem kept_of_visit {x : Replica ι} {rest : List (Replica ι)} (h : Kept s p)
    (htask : p.task = .walking) (hrows : p.rows = x :: rest) :
    ∃ q, (visit s i p x rest).passes = s.passes.set i q ∧ Kept s q := by
  have hlisting : p.task.isListing = false := by rw [htask]; rfl
  have hrest : rest.Sublist p.rows := hrows ▸ List.sublist_cons_self x rest
  have hdoomed : p.dooms x = true → ¬ InUse s x.id := fun hdoom =>
    h.stale x.id (mem_condemned.mpr (.inr ⟨hlisting, x, hrows ▸ List.mem_cons_self, hdoom, rfl⟩))
  have hdistinct : ∀ y ∈ rest, x.id ≠ y.id := by
    have hnodup := h.distinct
    rw [hrows] at hnodup
    intro y hy heq
    exact (List.nodup_cons.mp hnodup).1 (List.mem_map.mpr ⟨y, hy, heq.symm⟩)
  have hnext : Kept s { p with rows := rest } :=
    h.go hlisting hrest (fun _ _ hdoom => hdoom) h.checked fun r hr =>
      h.stale r (mem_condemned.mpr (.inl hr))
  unfold visit
  dsimp only
  split
  · split
    · have hfewer : ∀ y ∈ rest, Pass.dooms { p with
          rows := rest, running := p.running.eraseP fun r => r.id = x.id } y = true →
          p.dooms y = true := fun y hy hdoom => (dooms_eraseP (hdistinct y hy)).symm.trans hdoom
      have htaken : Kept s { p with
          rows := rest, running := p.running.eraseP fun r => r.id = x.id } :=
        h.go hlisting hrest hfewer h.checked fun r hr => h.stale r (mem_condemned.mpr (.inl hr))
      split
      · split
        · exact ⟨_, rfl, h.go hlisting hrest hfewer nofun nofun⟩
        · exact ⟨_, rfl, htaken⟩
      · exact ⟨_, rfl, htaken⟩
    · exact ⟨_, rfl, hnext⟩
  · exact ⟨_, rfl, hnext⟩
  · next hliveness =>
    refine ⟨_, rfl, h.go hlisting hrest (fun _ _ hdoom => hdoom) nofun fun r hr => ?_⟩
    obtain rfl := List.mem_singleton.mp hr
    exact hdoomed (by rw [Pass.dooms, hliveness])
  · next hliveness =>
    split
    · exact ⟨_, rfl, h.go hlisting hrest (fun _ _ hdoom => hdoom) nofun nofun⟩
    · next hstopped =>
      split
      · next hexpired =>
        refine ⟨_, rfl, h.go hlisting hrest (fun _ _ hdoom => hdoom) nofun fun r hr => ?_⟩
        obtain rfl := List.mem_singleton.mp hr
        refine hdoomed ?_
        simp only [Pass.dooms, hliveness, hexpired, Bool.and_true, decide_eq_true_eq]
        exact not_not.mp hstopped
      · exact ⟨_, rfl, hnext⟩

theorem distinct_of_list {managed running : Bool} (h : Kept s p) :
    ((list specOf s p managed running a).rows.map Replica.id).Nodup := by
  unfold list
  split <;> exact h.distinct

theorem addsNew_of_steady (h : Steady specOf s e) : AddsNew s e := by
  cases e with
  | call e =>
    cases e with
    | advance j o => exact fun c hc x hx => (h c hc x hx).1
    | _ => trivial
  | _ => trivial

variable [Floats] {node : Node κ}

/-- An orphan is in neither registry, and what is left to take has no row any more. -/
theorem kept_of_adopt {pick : ι} (h : Kept s p) (htask : p.task = .walking) (hrows : p.rows = [])
    (hstep : adopt node s i p pick = some s') :
    ∃ q, s'.passes = s.passes.set i q ∧ Kept s q := by
  have hlisting : p.task.isListing = false := by rw [htask]; rfl
  have hnone : ∀ {q : Pass ι} (x : Replica ι), x ∈ p.rows → q.dooms x = true →
      p.dooms x = true := by
    intro q x hx
    rw [hrows] at hx
    cases hx
  unfold adopt at hstep
  split at hstep
  · cases hstep
    refine ⟨_, rfl, h.proceed hlisting nofun fun r hr huse => ?_⟩
    obtain ⟨e, he, rfl⟩ := List.mem_map.mp hr
    obtain ⟨⟨x, hx, hid, -⟩, -⟩ := huse
    have horphan := (List.mem_filter.mp he).2
    simp only [Bool.and_eq_true, Bool.not_eq_true', List.any_eq_false] at horphan
    exact horphan.1.2 x (List.mem_append_right _ hx) (decide_eq_true hid)
  · obtain ⟨r, -, hstep⟩ := Option.map_eq_some_iff.mp hstep
    dsimp only at hstep
    split at hstep
    · cases hstep
      exact ⟨_, rfl, h.go hlisting (List.Sublist.refl _) hnone nofun nofun⟩
    · cases hstep
      exact ⟨_, rfl, h.go hlisting (List.Sublist.refl _) hnone h.checked fun r hr =>
        h.stale r (mem_condemned.mpr (.inl hr))⟩

variable [DecidableEq κ]

/-- What the pass has looked for under the mutex is not ready. -/
theorem not_ready_of_look {spec : Str} {r : Replica ι} (h : Regular node specOf s)
    (hspec : spec = specOf r.id) (hlook : ¬ (s.base.replicas.replicasOf spec).any
      (fun known => decide (known.id = r.id) && decide (known.state = .ready)) = true) :
    ¬ Ready s.base r.id := by
  rintro ⟨x, hx, hid, hready⟩
  refine hlook (List.any_eq_true.mpr ⟨x, List.mem_filter.mpr ⟨hx, ?_⟩, by simp [hid, hready]⟩)
  rw [decide_eq_true_eq, h.rows x hx, hid, hspec]

/-- **What a turn has in view next** was not in use, or not ready, in front of it. -/
theorem kept_of_advance (h : Kept s p) (hregular : Regular node specOf s)
    (hlabels : p.Labelled specOf)
    (hlisted : ∀ p' ∈ listed specOf s p a, ∀ r ∈ p'.condemned, ¬ InUse s r)
    (hstep : advance specOf node s i p a = some s') :
    ∃ q, s'.passes = s.passes.set i q ∧ Kept s q := by
  have hstop : ∀ {q : Pass ι} {r : ι}, ((s.stop r a.ok).put i q).passes = s.passes.set i q :=
    fun {q r} => congrArg (·.set i q) (Cut.stop s r a.ok).passes
  unfold advance at hstep
  cases htask : p.task with
  | listing managed running =>
    simp only [htask] at hstep
    cases hstep
    cases hanswer : listed specOf s p a with
    | none => exact ⟨_, rfl, List.nodup_nil, nofun, nofun⟩
    | some p' =>
      refine ⟨_, rfl, ?_, ?_, hlisted p' hanswer⟩
      · unfold listed at hanswer
        simp only [htask] at hanswer
        split at hanswer
        · cases hanswer
          exact distinct_of_list h
        · cases hanswer
      · unfold listed at hanswer
        simp only [htask] at hanswer
        split at hanswer
        · cases hanswer
          rw [Option.getD_some, checked_of_list]
          nofun
        · cases hanswer
  | walking =>
    simp only [htask] at hstep
    split at hstep
    · next x rest hrows =>
      cases hstep
      exact kept_of_visit h htask hrows
    · next hrows => exact kept_of_adopt h htask hrows hstep
  | waiting spec r =>
    simp only [htask] at hstep
    split at hstep
    · cases hstep
      exact ⟨_, rfl, h.proceed (by rw [htask]; rfl) nofun nofun⟩
    · cases hstep
  | looking spec r =>
    simp only [htask] at hstep
    cases hstep
    refine ⟨_, rfl, ?_⟩
    have hlabel : spec = specOf r.id := hlabels.subject spec r.id (by rw [htask]; rfl)
    unfold look
    dsimp only
    split
    · exact h.proceed (by rw [htask]; rfl) nofun nofun
    · next hlook =>
      have hchecked : ∀ y ∈ [r.id], ¬ Ready s.base y := by
        intro y hy
        obtain rfl := List.mem_singleton.mp hy
        exact not_ready_of_look hregular hlabel hlook
      split
      · exact h.proceed (by rw [htask]; rfl) hchecked nofun
      · exact h.proceed (by rw [htask]; rfl) hchecked nofun
  | excess spec r =>
    simp only [htask] at hstep
    cases hstep
    exact ⟨_, hstop, h.proceed (by rw [htask]; rfl) nofun nofun⟩
  | readying spec r sameIdPresent =>
    simp only [htask] at hstep
    cases hstep
    refine ⟨_, rfl, ?_⟩
    split
    · exact h.proceed (by rw [htask]; rfl) nofun nofun
    · refine h.proceed (by rw [htask]; rfl) (fun y hy => h.checked y ?_) nofun
      rw [htask]
      exact hy
  | timedOut spec r sameIdPresent =>
    simp only [htask] at hstep
    cases hstep
    split
    · refine ⟨_, (Cut.stop s r.id a.ok).passes_begin,
        h.proceed (by rw [htask]; rfl) (fun y hy => h.checked y ?_) nofun⟩
      rw [htask]
      exact hy
    · exact ⟨_, hstop, h.proceed (by rw [htask]; rfl) nofun nofun⟩
  | upserting spec r =>
    simp only [htask] at hstep
    cases hstep
    exact ⟨_, rfl, h.proceed (by rw [htask]; rfl) nofun nofun⟩
  | expiring r =>
    simp only [htask] at hstep
    cases hstep
    refine ⟨_, (Cut.stop s r a.ok).passes_begin,
      h.proceed (by rw [htask]; rfl) nofun fun y hy => h.stale y (mem_condemned.mpr (.inl ?_))⟩
    rw [htask]
    exact hy
  | pruning call r spec =>
    simp only [htask] at hstep
    split at hstep
    · cases hstep
      exact ⟨_, rfl, h.proceed (by rw [htask]; rfl) nofun nofun⟩
    · cases hstep
  | marking call =>
    simp only [htask] at hstep
    split at hstep
    · cases hstep
      exact ⟨_, rfl, h.proceed (by rw [htask]; rfl) nofun nofun⟩
    · cases hstep
  | reaping todo =>
    cases todo with
    | nil =>
      simp only [htask] at hstep
      cases hstep
      exact ⟨_, rfl, h.proceed (by rw [htask]; rfl) nofun nofun⟩
    | cons r todo =>
      simp only [htask] at hstep
      cases hstep
      refine ⟨_, hstop, h.proceed (by rw [htask]; rfl) nofun fun y hy => ?_⟩
      refine h.stale y (mem_condemned.mpr (.inl ?_))
      rw [htask]
      exact List.mem_cons_of_mem _ hy
  | ended =>
    simp only [htask] at hstep
    cases hstep

/-- Every pass has kept what it was sure of. -/
structure Sound (node : Node κ) (specOf : ι → Str) (s : State ι κ) : Prop where
  regular : Regular node specOf s
  kept : ∀ p ∈ s.passes, Kept s p

namespace Sound

variable (h : Sound node specOf s)
include h

/-- **One turn of a pass.** -/
theorem pass (hp : s.passes[i]? = some p) (hok : Steady specOf s (.pass i a))
    (hstep : advance specOf node s i p a = some s') : ∀ q ∈ s'.passes, Kept s' q := by
  have hmem := List.mem_of_getElem? hp
  have hlabels := h.regular.passes p hmem
  obtain ⟨hpublishes, hlisted⟩ := hok p hp
  obtain ⟨p', t, -⟩ := turn_of_advance hlabels hstep
  obtain ⟨q, hq, hself⟩ := kept_of_advance (h.kept p hmem) h.regular hlabels hlisted hstep
  -- a row that the turn writes is of a replica that nobody is going to stop
  have hkept : ∀ q, Kept s q → (∀ spec x, p.task = .upserting spec x →
      x.id ∉ q.task.checked ∧ (s.runs x.id = true → x.id ∉ q.condemned)) → Kept s' q := by
    intro q hq hnot
    refine hq.mono (fun r hr hready => ?_) fun r hr huse => ?_
    · rcases t.base.ready hready with hold | ⟨spec, x, htask, rfl⟩
      · exact hold
      · exact absurd hr (hnot spec x htask).1
    · rcases t.base.ready huse.1 with hold | ⟨spec, x, htask, rfl⟩
      · exact ⟨hold, t.runs huse.2⟩
      · exact absurd hr ((hnot spec x htask).2 (t.runs huse.2))
  rw [hq]
  intro d hd
  obtain ⟨j, hj⟩ := List.mem_iff_getElem?.mp hd
  rcases getElem?_set_cases hj with ⟨-, rfl⟩ | ⟨hne, hold⟩
  · refine hkept d hself fun spec x htask => ?_
    have hwalking : d = { p with task := .walking } := by
      simp only [advance, htask] at hstep
      cases hstep
      have hlt := (List.getElem?_eq_some_iff.mp hp).1
      have heq := congrArg (·[i]?) hq
      simpa [State.put, List.getElem?_set_self hlt] using heq.symm
    subst hwalking
    refine ⟨nofun, fun hruns hx => hpublishes x.id (by rw [htask]; rfl) hruns p hmem ?_⟩
    rcases mem_condemned.mp hx with hown | ⟨-, hdoomed⟩
    · cases hown
    · exact mem_condemned.mpr (.inr ⟨by rw [htask]; rfl, hdoomed⟩)
  · refine hkept d (h.kept d (List.mem_of_getElem? hold)) fun spec x htask => ⟨fun hx => ?_, ?_⟩
    · obtain ⟨spec', hlock, hsubject⟩ := Task.lock_of_checked hx
      have hlabel : spec = specOf x.id := hlabels.subject spec x.id (by rw [htask]; rfl)
      have hother : spec' = specOf x.id :=
        (h.regular.passes d (List.mem_of_getElem? hold)).subject spec' x.id hsubject
      exact hne (h.regular.apart j i d p spec hold hp (hlabel ▸ hother ▸ hlock)
        (by rw [htask]; rfl))
    · exact fun hruns => hpublishes x.id (by rw [htask]; rfl) hruns d (List.mem_of_getElem? hold)

/-- **Step lemma.** -/
theorem step (hok : Steady specOf s e) (hstep : (machine specOf node).step s e = some s') :
    Sound node specOf s' := by
  refine ⟨h.regular.step (addsNew_of_steady hok) hstep, ?_⟩
  cases step_cases hstep with
  | quiet e b hreplicas hcoherent hcalls hkeep =>
    have hready : ∀ r, Ready b r → Ready s.base r := by
      rintro r ⟨x, hx, hid⟩
      exact ⟨x, hreplicas ▸ hx, hid⟩
    exact fun p hp => (h.kept p hp).mono (fun r _ => hready r) fun r _ huse =>
      ⟨hready r huse.1, huse.2⟩
  | advance j o c b hc hadmits hadvance =>
    have hmem := List.mem_of_getElem? hc
    have hready := fun {r : ι} => ready_of_call (r := r) (h.regular.readopts c hmem) hc hadvance
    refine fun p hp => (h.kept p hp).mono (fun r hr hrready => ?_) fun r hr huse => ?_
    · rcases hready hrready with hold | ⟨x, hx, rfl⟩
      · exact hold
      · obtain ⟨spec, hlock, hsubject⟩ := Task.lock_of_checked hr
        have hspec : c.spec = spec := ((h.regular.added c hmem x hx).2).symm.trans
          ((h.regular.passes p hp).subject spec x.id hsubject).symm
        exact absurd hspec (h.regular.alone p hp spec hlock c hmem (locks_of_added hx))
    · rcases hready huse.1 with hold | ⟨x, hx, rfl⟩
      · exact ⟨hold, huse.2⟩
      · exact absurd hr ((hok c hc x hx).2 huse.2 p hp)
  | create r c hc hlocks hspec =>
    refine fun p hp => (h.kept p hp).mono (fun _ _ hready => hready) fun y _ huse =>
      ⟨huse.1, ?_⟩
    have hrun := huse.2
    unfold State.runs at hrun
    dsimp only at hrun
    rw [Table.lookup_insert_eq] at hrun
    split at hrun
    · cases hrun
    · exact hrun
  | start r =>
    refine fun p hp => (h.kept p hp).mono (fun _ _ hready => hready) fun y hy huse =>
      ⟨huse.1, ?_⟩
    have hrun := huse.2
    unfold State.runs at hrun
    dsimp only at hrun
    rw [Table.lookup_update] at hrun
    split at hrun
    · next hyr =>
      subst hyr
      exact absurd hy (hok huse.1 p hp)
    · exact hrun
  | exit r =>
    refine fun p hp => (h.kept p hp).mono (fun _ _ hready => hready) fun y _ huse =>
      ⟨huse.1, ?_⟩
    have hrun := huse.2
    unfold State.runs at hrun
    dsimp only at hrun
    rw [Table.lookup_update] at hrun
    split at hrun
    · cases hlookup : s.containers.lookup y with
      | none =>
        rw [hlookup] at hrun
        cases hrun
      | some container =>
        rw [hlookup] at hrun
        cases hrun
    · exact hrun
  | destroy r =>
    refine fun p hp => (h.kept p hp).mono (fun _ _ hready => hready) fun y _ huse =>
      ⟨huse.1, ?_⟩
    have hrun := huse.2
    unfold State.runs at hrun
    dsimp only at hrun
    rw [Table.lookup_erase_eq] at hrun
    split at hrun
    · cases hrun
    · exact hrun
  | begin specs reached =>
    exact forall_mem_concat (fun p hp => (h.kept p hp).mono (fun _ _ hready => hready)
      fun _ _ huse => huse) ⟨h.regular.coherent.distinct.flatMap hok, nofun, nofun⟩
  | pass i a p s' hp hadvance => exact h.pass hp hok hadvance

theorem spares (e : Event ι κ) : Spares s e := by
  intro r hr huse
  cases e with
  | pass i a =>
    cases hp : s.passes[i]? with
    | none =>
      rw [kills, hp] at hr
      cases hr
    | some p =>
      have hkept := h.kept p (List.mem_of_getElem? hp)
      rw [kills, hp, Option.elim_some] at hr
      cases htask : p.task with
      | excess spec x =>
        rw [htask] at hr
        exact hkept.checked r (by rw [htask]; exact hr) huse.1
      | timedOut spec x same =>
        rw [htask] at hr
        exact hkept.checked r (by rw [htask]; exact hr) huse.1
      | expiring x =>
        rw [htask] at hr
        exact hkept.stale r (mem_condemned.mpr (.inl (by rw [htask]; exact hr))) huse
      | reaping todo =>
        rw [htask] at hr
        refine hkept.stale r (mem_condemned.mpr (.inl ?_)) huse
        rw [htask]
        exact List.mem_of_mem_take hr
      | _ =>
        rw [htask] at hr
        cases hr
  | call e =>
    cases e with
    | advance j o =>
      obtain ⟨p, hp, hr⟩ := List.mem_flatMap.mp hr
      have hkept := h.kept p hp
      cases htask : p.task with
      | pruning call x spec =>
        rw [htask] at hr
        dsimp only at hr
        split at hr
        · obtain rfl := List.mem_singleton.mp hr
          cases spec with
          | none => exact hkept.stale r (mem_condemned.mpr (.inl (by rw [htask]; exact hr))) huse
          | some spec => exact hkept.checked r (by rw [htask]; exact hr) huse.1
        · cases hr
      | _ =>
        rw [htask] at hr
        cases hr
    | _ => cases hr
  | _ => cases hr

end Sound

/-- **Passes spare what is in use.** While no replica comes into use that a pass under way is going
to stop or prune because of what it has read, no pass stops or prunes a replica in use. -/
theorem spares_of_steady {rows : Registry ι} {containers : Table ι Container}
    {es : List (Event ι κ)} (hrows : rows.Distinct) (hspecs : ∀ x ∈ rows, x.specId = specOf x.id)
    (hrun : (machine specOf node).Run (Steady specOf) (boot rows containers) es s)
    (e : Event ι κ) : Spares s e := by
  have hstart : Sound node specOf (boot rows containers : State ι κ) :=
    ⟨.boot hrows hspecs, nofun⟩
  exact (hrun.invariant hstart fun _ _ _ hI hok hstep => hI.step hok hstep).spares e

end Runs

/-! ## A container that comes back -/

section Example

attribute [local instance] wholeFloats

/-- The only replica has been stopped for long. -/
def idleLab : State Nat Nat :=
  boot [{ labReplica 7 with state := .stopped }]
    ((∅ : Table Nat Container).insert 7 ⟨0, false, some 0⟩)

def answer : Answer Nat := ⟨true, fun _ => true, 7, true⟩

/-- A pass reads the rows and both listings. -/
def reads (i : Nat) : List (Event Nat Nat) :=
  [.begin [labId] fun _ => true, .pass i answer, .pass i answer]

/-- The pass finds that the container has been stopped for too long. -/
def expires : List (Event Nat Nat) := .call (.tick 30000) :: (reads 0 ++ [.pass 0 answer])

theorem spares_of_steady_expires : ∃ s : State Nat Nat,
    (machine (fun _ => labId) labNode).Run (Steady fun _ => labId) idleLab expires s ∧
      kills s (.pass 0 answer) = [7] ∧ Spares s (.pass 0 answer) := by
  have hrows : Registry.Distinct [{ labReplica 7 with state := .stopped }] :=
    List.nodup_singleton _
  have hspecs : ∀ x ∈ [{ labReplica 7 with state := .stopped }], x.specId = labId := by
    intro x hx
    rw [List.mem_singleton.mp hx]
    rfl
  have hkills : ((machine (fun _ => labId) labNode).execIf (Steady fun _ => labId) idleLab
      expires).map (kills · (.pass 0 answer)) = some [7] := by decide
  obtain ⟨s, hs, hseven⟩ := Option.map_eq_some_iff.mp hkills
  have hrun := run_of_execIf hs
  exact ⟨s, hrun, hseven, spares_of_steady hrows hspecs hrun _⟩

/-- The container starts again, and a second pass readopts it before the first one comes to it. -/
def returns : List (Event Nat Nat) :=
  .call (.tick 30000) :: (reads 0 ++ .start 7 :: (reads 1 ++
    List.replicate 5 (.pass 1 answer) ++ [.pass 0 answer]))

theorem readopted_stopped : ∃ s t : State Nat Nat,
    (machine (fun _ => labId) labNode).exec idleLab returns = some s ∧
      s.base.replicas = [labReplica 7] ∧ s.runs 7 = true ∧ ¬ Spares s (.pass 0 answer) ∧
      (machine (fun _ => labId) labNode).exec s [.pass 0 answer,
        .call (.advance 0 (labOutside 0 none))] = some t ∧
      t.base.replicas = [] ∧ t.containers.lookup 7 = none := by
  refine ⟨_, _, rfl, rfl, rfl, fun h => ?_, rfl, rfl, rfl⟩
  exact h 7 List.mem_cons_self ⟨⟨_, List.mem_cons_self, rfl, rfl⟩, rfl⟩

end Example

end Ruscker.Scaler.Reconcile
