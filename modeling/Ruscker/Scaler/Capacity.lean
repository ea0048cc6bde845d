import Ruscker.Proxy.Calls

/-!
# The replica cap

`spawn_one` and `readopt_running_replica` count the rows of a spec under its mutex and leave a
full pool alone.  `pick_or_spawn` looks for a replica it can use before it minds the cap, and
when there is none it spawns over a full pool.
-/

namespace Ruscker.Scaler

open Machines Machines.Machine Proxy.Calls

variable {ι κ : Type*}

/-! ## Pools that do not grow -/

section Shrinks

/-- No more rows of the spec than before, and one less for a replica that is gone. -/
structure Shrinks (spec : Str) (reg reg' : Registry ι) : Prop where
  le : reg'.held spec ≤ reg.held spec
  kept : ∀ x ∈ reg, x.specId = spec →
    (∃ y ∈ reg', y.specId = spec ∧ y.id = x.id) ∨ reg'.held spec < reg.held spec

variable {spec : Str} {reg reg' reg'' : Registry ι} {r : Replica ι}

namespace Shrinks

theorem refl (spec : Str) (reg : Registry ι) : Shrinks spec reg reg :=
  ⟨Nat.le_refl _, fun x hx hspec => .inl ⟨x, hx, hspec, rfl⟩⟩

theorem trans (h : Shrinks spec reg reg') (h' : Shrinks spec reg' reg'') :
    Shrinks spec reg reg'' := by
  refine ⟨Nat.le_trans h'.le h.le, ?_⟩
  intro x hx hspec
  rcases h.kept x hx hspec with ⟨y, hy, hyspec, hyid⟩ | hlt
  · rcases h'.kept y hy hyspec with ⟨z, hz, hzspec, hzid⟩ | hlt
    · exact .inl ⟨z, hz, hzspec, hzid.trans hyid⟩
    · exact .inr (Nat.lt_of_lt_of_le hlt h.le)
  · exact .inr (Nat.lt_of_le_of_lt h'.le hlt)

/-- A row of another spec. -/
theorem add (hr : r.specId ≠ spec) : Shrinks spec reg (reg.add r) := by
  refine ⟨?_, ?_⟩
  · rw [Registry.held_add, if_neg hr]
    exact Nat.le_refl _
  · intro x hx hspec
    exact .inl ⟨x, Registry.mem_add.mpr (.inl hx), hspec, rfl⟩

variable [DecidableEq ι] {id : ι} {f : Replica ι → Replica ι}

theorem update (hspec : ∀ r : Replica ι, (f r).specId = r.specId)
    (hid : ∀ r : Replica ι, (f r).id = r.id) : Shrinks spec reg (reg.update id f) := by
  refine ⟨Nat.le_of_eq (Registry.held_update hspec), ?_⟩
  intro x hx hxspec
  left
  induction reg with
  | nil => cases hx
  | cons r rest ih =>
    rw [Registry.update]
    rcases List.mem_cons.mp hx with rfl | hrest
    · split
      · exact ⟨f x, List.mem_cons_self, (hspec x).trans hxspec, hid x⟩
      · exact ⟨x, List.mem_cons_self, hxspec, rfl⟩
    · split
      · exact ⟨x, List.mem_cons_of_mem _ hrest, hxspec, rfl⟩
      · obtain ⟨y, hy, hyspec, hyid⟩ := ih hrest
        exact ⟨y, List.mem_cons_of_mem _ hy, hyspec, hyid⟩

theorem remove : Shrinks spec reg (reg.remove id) := by
  refine ⟨Registry.held_remove_le, ?_⟩
  intro x hx hspec
  by_cases hkept : x ∈ reg.remove id
  · exact .inl ⟨x, hkept, hspec, rfl⟩
  · right
    rcases List.exists_or_eq_self_of_eraseP (fun r : Replica ι => r.id = id) reg with
      hsame | ⟨a, front, back, -, -, heq, hrest⟩
    · rw [Registry.remove, hsame] at hkept
      exact absurd hx hkept
    · rw [Registry.remove, hrest] at hkept ⊢
      rw [heq] at hx ⊢
      have ha : x = a := by
        rcases List.mem_append.mp hx with hfront | hback
        · exact absurd (List.mem_append_left _ hfront) hkept
        · rcases List.mem_cons.mp hback with rfl | hback
          · rfl
          · exact absurd (List.mem_append_right _ hback) hkept
      subst ha
      simp [Registry.held, Registry.replicasOf, hspec]

theorem upsert (hr : r.specId ≠ spec) : Shrinks spec reg (reg.upsert r) := remove.trans (add hr)

end Shrinks

end Shrinks

/-! ## Room for one more -/

section Room

variable {spec : Str} {cap : Nat} {reg reg' : Registry ι}

/-- What a call that is about to let a spec grow knows of its rows. -/
def HasRoom (spec : Str) (cap : Nat) (reg : Registry ι) : Phase ι κ → Prop
  | .spawning _ | .adding _ _ => reg.held spec < cap
  | .readying r _ | .upserting r =>
    (∀ x ∈ reg, x.specId = spec → x.id ≠ r.id) → reg.held spec < cap
  | _ => True

/-- What the backend gave is of the spec it was asked for. -/
def OfSpec (spec : Str) : Phase ι κ → Prop
  | .adding _ r => r.specId = spec
  | _ => True

theorem HasRoom.shrink {p : Phase ι κ} (h : HasRoom spec cap reg p) (hcap : reg.held spec ≤ cap)
    (hshrinks : Shrinks spec reg reg') : HasRoom spec cap reg' p := by
  have hfree : reg.held spec < cap → reg'.held spec < cap := Nat.lt_of_le_of_lt hshrinks.le
  have hslot : ∀ r : Replica ι,
      ((∀ x ∈ reg, x.specId = spec → x.id ≠ r.id) → reg.held spec < cap) →
      (∀ x ∈ reg', x.specId = spec → x.id ≠ r.id) → reg'.held spec < cap := by
    intro r hroom hgone
    by_cases hmem : ∃ x ∈ reg, x.specId = spec ∧ x.id = r.id
    · obtain ⟨x, hx, hspec, hid⟩ := hmem
      rcases hshrinks.kept x hx hspec with ⟨y, hy, hyspec, hyid⟩ | hlt
      · exact absurd (hyid.trans hid) (hgone y hy hyspec)
      · omega
    · exact hfree (hroom fun x hx hspec hid => hmem ⟨x, hx, hspec, hid⟩)
  cases p with
  | spawning visit => exact hfree h
  | adding visit r => exact hfree h
  | readying r same => exact hslot r h
  | upserting r => exact hslot r h
  | _ => trivial

theorem hasRoom_of_not_locks {p : Phase ι κ} (h : p.locks = false) : HasRoom spec cap reg p := by
  cases p with
  | spawning visit => cases h
  | adding visit r => cases h
  | readying r same => cases h
  | upserting r => cases h
  | _ => trivial

end Room

/-! ## The invariant -/

section Cap

variable [Floats] (node : Node κ) (spec : Str)

/-- `max-replicas` of the spec. -/
def maxReplicas : Nat := (node.settings spec).effectiveMaxReplicas.val

/-- The pool of the spec is within its cap, and whoever holds the mutex keeps it so. -/
structure Capped (s : State ι κ) : Prop where
  held : s.replicas.held spec ≤ maxReplicas node spec
  rooms : ∀ c ∈ s.calls, c.spec = spec →
    HasRoom spec (maxReplicas node spec) s.replicas c.phase
  ofSpec : ∀ c ∈ s.calls, OfSpec c.spec c.phase
  alone : ∀ (i j : Nat) (c d : Call ι κ), s.calls[i]? = some c → s.calls[j]? = some d →
    c.phase.locks = true → d.phase.locks = true → c.spec = spec → d.spec = spec → i = j

/-- A replica that a visit can use. -/
def Usable (s : State ι κ) : Prop :=
  ∃ r ∈ s.replicas.replicasOf spec,
    r.state = .ready ∨ (r.state = .starting ∧ 0 < r.availableSeats)

/-- A visit that looks again at a full pool finds a replica it can use, and the backend gives
replicas of the spec it was asked for. -/
def Roomy (s : State ι κ) : Event ι κ → Prop
  | .advance i o => ∀ c, s.calls[i]? = some c → match c.phase with
    | .recheck => c.spec = spec → maxReplicas node spec ≤ s.replicas.held spec → Usable spec s
    | .spawning _ => ∀ r, o.spawned = some r → r.specId = c.spec
    | .upserting r => r.specId = c.spec ∧ ∀ x ∈ s.replicas, x.id = r.id → x.specId = c.spec
    | _ => True
  | _ => True

variable {node spec} {s s' : State ι κ} {i : Nat} {c : Call ι κ} {q : Phase ι κ}

namespace Capped

/-- A call that leaves the pool no larger. -/
theorem keep (h : Capped node spec s) (hc : s.calls[i]? = some c)
    (hcalls : s'.calls = s.calls.set i { c with phase := q })
    (hshrinks : Shrinks spec s.replicas s'.replicas)
    (hlocks : q.locks = true → c.phase.locks = true ∨ s.isFree c.spec = true)
    (hroom : c.spec = spec → HasRoom spec (maxReplicas node spec) s'.replicas q)
    (hof : OfSpec c.spec q) : Capped node spec s' where
  held := Nat.le_trans hshrinks.le h.held
  rooms d hd hspec := by
    rw [hcalls] at hd
    rcases List.mem_or_eq_of_mem_set hd with hold | rfl
    · exact (h.rooms d hold hspec).shrink h.held hshrinks
    · exact hroom hspec
  ofSpec := by
    rw [hcalls]
    exact forall_mem_set h.ofSpec hof
  alone := by
    have hothers : ∀ j d, q.locks = true → c.spec = spec → s.calls[j]? = some d →
        d.phase.locks = true → d.spec = spec → j = i := by
      intro j d hq hcspec hd hdlocks hdspec
      rcases hlocks hq with hheld | hfree
      · exact h.alone j i d c hd hc hdlocks hheld hdspec hcspec
      · have hfreed := List.all_eq_true.mp hfree d (List.mem_of_getElem? hd)
        simp [hdlocks, hdspec, hcspec] at hfreed
    intro j k d e hd he hdlocks helocks hdspec hespec
    rw [hcalls] at hd he
    rcases getElem?_set_cases hd with ⟨rfl, rfl⟩ | ⟨hj, hold⟩ <;>
      rcases getElem?_set_cases he with ⟨rfl, rfl⟩ | ⟨hk, hold'⟩
    · rfl
    · exact absurd (hothers k e hdlocks hdspec hold' helocks hespec) hk
    · exact absurd (hothers j d helocks hespec hold hdlocks hdspec) hj
    · exact h.alone j k d e hold hold' hdlocks helocks hdspec hespec

/-- The holder of the mutex adds a row within the cap and gives the mutex back. -/
theorem grow (h : Capped node spec s) (hc : s.calls[i]? = some c)
    (hcalls : s'.calls = s.calls.set i { c with phase := q }) (hspec : c.spec = spec)
    (hheld : c.phase.locks = true) (hq : q.locks = false)
    (hcap : s'.replicas.held spec ≤ maxReplicas node spec) (hof : OfSpec c.spec q) :
    Capped node spec s' where
  held := hcap
  rooms d hd hdspec := by
    refine hasRoom_of_not_locks ?_
    obtain ⟨j, hj⟩ := List.mem_iff_getElem?.mp hd
    rw [hcalls] at hj
    rcases getElem?_set_cases hj with ⟨-, rfl⟩ | ⟨hne, hold⟩
    · exact hq
    · by_contra hlocks
      rw [Bool.not_eq_false] at hlocks
      exact hne (h.alone j i d c hold hc hlocks hheld hdspec hspec)
  ofSpec := by
    rw [hcalls]
    exact forall_mem_set h.ofSpec hof
  alone := by
    intro j k d e hd he hdlocks helocks hdspec hespec
    rw [hcalls] at hd he
    have hlocked : ∀ {j : Nat} {d : Call ι κ},
        (s.calls.set i { c with phase := q })[j]? = some d → d.phase.locks = true →
          s.calls[j]? = some d := by
      intro j d hd hdlocks
      rcases getElem?_set_cases hd with ⟨-, rfl⟩ | ⟨-, hd⟩
      · rw [hq] at hdlocks
        cases hdlocks
      · exact hd
    exact h.alone j k d e (hlocked hd hdlocks) (hlocked he helocks) hdlocks helocks hdspec hespec

/-- A call outside the mutex takes no row and adds none. -/
theorem pass (h : Capped node spec s) (hc : s.calls[i]? = some c)
    (hcalls : s'.calls = s.calls.set i { c with phase := q })
    (hshrinks : Shrinks spec s.replicas s'.replicas) (hq : q.locks = false) :
    Capped node spec s' := by
  refine h.keep hc hcalls hshrinks (fun hlocks => ?_) (fun _ => hasRoom_of_not_locks hq) ?_
  · rw [hq] at hlocks
    cases hlocks
  · cases q with
    | adding visit r => cases hq
    | _ => trivial

/-- A call begins outside the mutex. -/
theorem start {d : Call ι κ} (h : Capped node spec s) (hd : d.phase.locks = false) :
    Capped node spec { s with calls := s.calls ++ [d] } where
  held := h.held
  rooms := forall_mem_concat h.rooms fun _ => hasRoom_of_not_locks hd
  ofSpec := by
    refine forall_mem_concat h.ofSpec ?_
    cases hphase : d.phase with
    | adding visit r =>
      rw [hphase] at hd
      cases hd
    | _ => trivial
  alone := by
    have hold : ∀ {j : Nat} {e : Call ι κ}, (s.calls ++ [d])[j]? = some e →
        e.phase.locks = true → s.calls[j]? = some e := by
      intro j e he helocks
      refine (getElem?_concat_cases he).resolve_left ?_
      rintro rfl
      rw [hd] at helocks
      cases helocks
    intro j k e f he hf helocks hflocks hespec hfspec
    exact h.alone j k e f (hold he helocks) (hold hf hflocks) helocks hflocks hespec hfspec

end Capped

end Cap

/-! ## Steps -/

section Steps

variable [Floats] {node : Node κ} {spec : Str} {s s' : State ι κ} {i : Nat} {c : Call ι κ}
  {o : Outside ι κ}

/-- Handing a replica out changes one count at most. -/
theorem handOut_spec [DecidableEq ι] [DecidableEq κ] {sid : κ} {r : ι}
    (h : handOut node s i c sid r = some s') :
    ∃ q : Phase ι κ, q.locks = false ∧ s'.calls = s.calls.set i { c with phase := q } ∧
      Shrinks spec s.replicas s'.replicas ∧ s'.replicas.held spec = s.replicas.held spec := by
  obtain ⟨-, ⟨-, rfl⟩ | ⟨-, rfl⟩⟩ := handOut_cases h
  · exact ⟨.done, rfl, rfl, .refl _ _, rfl⟩
  · exact ⟨_, locks_track .., rfl, .update (fun _ => rfl) fun _ => rfl,
      Registry.held_update fun _ => rfl⟩

/-- At the cap a replica that can be used is picked. -/
theorem recheckPick_ne_none {load : Load ι} (hcap : maxReplicas node spec ≤ s.replicas.held spec)
    (h : Usable spec s) : recheckPick node s spec load ≠ none := by
  obtain ⟨r, hr, hready | ⟨hstarting, hseats⟩⟩ := h
  · intro hnone
    obtain ⟨-, hpick⟩ := Option.or_eq_none_iff.mp hnone
    have hfull : (decide ((node.settings spec).kind = .api) ||
        decide ((node.settings spec).effectiveMaxReplicas.val ≤
          (s.replicas.replicasOf spec).length)) = true :=
      Bool.or_eq_true_iff.mpr (.inr (decide_eq_true hcap))
    rw [if_pos hfull] at hpick
    exact pickReplica_ne_none hr hready hpick
  · intro hnone
    obtain ⟨hfirst, -⟩ := Option.or_eq_none_iff.mp hnone
    obtain ⟨-, hfind⟩ := Option.or_eq_none_iff.mp hfirst
    have hnot := List.find?_eq_none.mp hfind r hr
    simp [hstarting, hseats] at hnot

namespace Capped

variable (h : Capped node spec s) (hc : s.calls[i]? = some c)
include h hc

/-- A new row: a place was kept for it, or it is of another spec. -/
theorem addReplica [DecidableEq ι] [DecidableEq κ] {visit : Bool} {r : Replica ι} {sid : κ}
    (hphase : c.phase = .adding visit r)
    (hstep : addReplica node s i c visit r sid = some s') : Capped node spec s' := by
  have hmem := List.mem_of_getElem? hc
  have hrspec : r.specId = c.spec := by
    have hof := h.ofSpec c hmem
    rwa [hphase] at hof
  have hgrown : ∃ q : Phase ι κ, q.locks = false ∧ s'.calls = s.calls.set i { c with phase := q } ∧
      Shrinks spec (s.replicas.add r) s'.replicas ∧
      s'.replicas.held spec = (s.replicas.add r).held spec := by
    unfold Proxy.Calls.addReplica at hstep
    split at hstep
    · exact handOut_spec hstep
    · cases hstep
      exact ⟨.done, rfl, rfl, .refl _ _, rfl⟩
  obtain ⟨q, hq, hcalls, hshrinks, hheld⟩ := hgrown
  by_cases hspec : c.spec = spec
  · have hroom := h.rooms c hmem hspec
    rw [hphase] at hroom
    refine h.grow hc hcalls hspec (by rw [hphase]; rfl) hq ?_ ?_
    · rw [hheld, Registry.held_add, if_pos (hrspec.trans hspec)]
      exact hroom
    · cases q with
      | adding visit r => cases hq
      | _ => trivial
  · exact h.pass hc hcalls ((Shrinks.add (hrspec ▸ hspec)).trans hshrinks) hq

/-- A replica that comes back takes its own row, or the place that was kept for it. -/
theorem upsert [DecidableEq ι] {r : Replica ι} (hphase : c.phase = .upserting r)
    (hok : r.specId = c.spec ∧ ∀ x ∈ s.replicas, x.id = r.id → x.specId = c.spec) :
    Capped node spec { s.goto i c .done with replicas := s.replicas.upsert r } := by
  by_cases hspec : c.spec = spec
  · have hroom := h.rooms c (List.mem_of_getElem? hc) hspec
    rw [hphase] at hroom
    refine h.grow hc rfl hspec (by rw [hphase]; rfl) rfl ?_ trivial
    exact Registry.held_upsert_le h.held hroom
      (fun x hx hid => (hok.2 x hx hid).trans hok.1.symm) (hok.1.trans hspec)
  · exact h.pass hc rfl (.upsert (hok.1 ▸ hspec)) rfl

/-- Under the mutex a readoption finds the row of its replica, or room for one. -/
theorem look [DecidableEq ι] {r : Replica ι} (hphase : c.phase = .looking r) :
    Capped node spec (s.goto i c (afterLook node s c.spec r)) := by
  have hheld : c.phase.locks = true := by rw [hphase]; rfl
  unfold afterLook
  dsimp only
  split
  · exact h.pass hc rfl (.refl _ _) rfl
  · split
    · exact h.pass hc rfl (.refl _ _) rfl
    · next hplace =>
      refine h.keep hc rfl (.refl _ _) (fun _ => .inl hheld) (fun hspec hgone => ?_) trivial
      rw [hspec] at hplace
      have hnone : ((s.replicas.replicasOf spec).any fun known => known.id = r.id) = false := by
        rw [List.any_eq_false]
        intro x hx
        obtain ⟨hx, hxspec⟩ := List.mem_filter.mp hx
        simpa using hgone x hx (of_decide_eq_true hxspec)
      rw [hnone] at hplace
      by_contra hfull
      exact hplace (decide_eq_true (Nat.le_of_not_lt hfull))

/-- The mutex is taken only while nobody holds it. -/
theorem lock {g : Growth ι} (hfree : s.isFree c.spec = true) :
    Capped node spec (s.goto i c (afterLock g)) := by
  refine h.keep hc rfl (.refl _ _) (fun _ => .inr hfree) (fun _ => ?_) ?_
  · cases g <;> trivial
  · cases g <;> trivial

end Capped

/-- One section of a call keeps the pool within its cap. -/
theorem advance_capped [DecidableEq ι] [DecidableEq κ] (h : Capped node spec s)
    (hc : s.calls[i]? = some c) (hok : Roomy node spec s (.advance i o))
    (hstep : advance node s i c o = some s') :
    Capped node spec s' := by
  have hroomy := hok c hc
  have hwithin : ∀ {p q : Phase ι κ}, c.phase = p → p.locks = true →
      (c.spec = spec → HasRoom spec (maxReplicas node spec) s.replicas q) → OfSpec c.spec q →
      Capped node spec (s.goto i c q) := by
    intro p q hp hlocks hroom hof
    exact h.keep hc rfl (.refl _ _) (fun _ => .inl (hp ▸ hlocks)) hroom hof
  unfold advance at hstep
  cases hphase : c.phase with
  | sticky cookie visit =>
    rw [hphase] at hstep
    cases hstep
    refine h.pass hc rfl (.refl _ _) ?_
    rcases afterSticky_cases node s c.spec cookie visit with ⟨x, -, hq⟩ | hq | hq | hq <;>
      rw [hq] <;> rfl
  | ride =>
    rw [hphase] at hstep
    cases hstep
    refine h.pass hc rfl (.refl _ _) ?_
    split <;> rfl
  | fast =>
    rw [hphase] at hstep
    dsimp only at hstep
    split at hstep
    · obtain ⟨q, hq, hcalls, hshrinks, -⟩ := handOut_spec hstep
      exact h.pass hc hcalls hshrinks hq
    · cases hstep
      exact h.pass hc rfl (.refl _ _) rfl
  | queued g =>
    rw [hphase] at hstep
    dsimp only at hstep
    split at hstep
    · next hfree =>
      cases hstep
      exact h.lock hc hfree
    · cases hstep
  | recheck =>
    rw [hphase] at hstep hroomy
    dsimp only at hstep
    split at hstep
    · obtain ⟨q, hq, hcalls, hshrinks, -⟩ := handOut_spec hstep
      exact h.pass hc hcalls hshrinks hq
    · next hnone =>
      cases hstep
      refine hwithin hphase rfl (fun hspec => ?_) trivial
      rw [hspec] at hnone
      by_contra hfull
      have hcap := Nat.le_of_not_lt hfull
      exact recheckPick_ne_none hcap (hroomy hspec hcap) hnone
  | ensuring =>
    rw [hphase] at hstep
    cases hstep
    split
    · exact h.pass hc rfl (.refl _ _) rfl
    · exact hwithin hphase rfl (fun _ => trivial) trivial
  | capping =>
    rw [hphase] at hstep
    cases hstep
    split
    · exact h.pass hc rfl (.refl _ _) rfl
    · next hroom =>
      refine hwithin hphase rfl (fun hspec => ?_) trivial
      rw [hspec] at hroom
      exact Nat.lt_of_not_le hroom
  | spawning visit =>
    rw [hphase] at hstep hroomy
    cases hstep
    have hroom := h.rooms c (List.mem_of_getElem? hc)
    rw [hphase] at hroom
    cases hspawned : o.spawned with
    | none => exact h.pass hc rfl (.refl _ _) rfl
    | some r => exact hwithin hphase rfl hroom (hroomy r hspawned)
  | adding visit r =>
    rw [hphase] at hstep
    exact h.addReplica hc hphase hstep
  | looking r =>
    rw [hphase] at hstep
    cases hstep
    exact h.look hc hphase
  | readying r same =>
    rw [hphase] at hstep
    cases hstep
    have hroom := h.rooms c (List.mem_of_getElem? hc)
    rw [hphase] at hroom
    split
    · exact hwithin hphase rfl hroom trivial
    · refine h.pass hc rfl (.refl _ _) ?_
      cases same <;> rfl
  | upserting r =>
    rw [hphase] at hstep hroomy
    cases hstep
    exact h.upsert hc hphase hroomy
  | holding sid r seatReserved =>
    rw [hphase] at hstep
    cases hstep
    refine h.pass hc rfl (.refl _ _) ?_
    split
    · rfl
    · cases seatReserved <;> rfl
  | counting r =>
    rw [hphase] at hstep
    cases hstep
    exact h.pass hc rfl (.update (fun _ => rfl) fun _ => rfl) rfl
  | marking r observedAt =>
    rw [hphase] at hstep
    dsimp only [Registry.markRestarting] at hstep
    split at hstep
    · next hmarked =>
      cases hstep
      split at hmarked
      · cases hmarked
        exact h.pass hc rfl (.update (fun _ => rfl) fun _ => rfl) rfl
      · cases hmarked
    · cases hstep
      exact h.pass hc rfl (.refl _ _) rfl
  | removing r =>
    rw [hphase] at hstep
    cases hstep
    exact h.pass hc rfl .remove rfl
  | collecting r k found =>
    rw [hphase] at hstep
    cases hstep
    refine h.pass hc rfl (.refl _ _) ?_
    split <;> rfl
  | purging r found =>
    rw [hphase] at hstep
    cases found with
    | nil =>
      cases hstep
      exact h.pass hc rfl (.refl _ _) rfl
    | cons sid rest =>
      cases hstep
      exact h.pass hc rfl (.refl _ _) rfl
  | sweeping globalMs overrides k found =>
    rw [hphase] at hstep
    cases hstep
    refine h.pass hc rfl (.refl _ _) ?_
    split <;> rfl
  | evicting victims =>
    rw [hphase] at hstep
    cases victims with
    | nil =>
      cases hstep
      exact h.pass hc rfl (.refl _ _) rfl
    | cons v rest =>
      dsimp only at hstep
      split at hstep
      · cases hstep
        exact h.pass hc rfl (.update (fun _ => rfl) fun _ => rfl) rfl
      · cases hstep
        exact h.pass hc rfl (.refl _ _) rfl
  | ending sid =>
    rw [hphase] at hstep
    dsimp only at hstep
    split at hstep
    · cases hstep
      exact h.pass hc rfl (.refl _ _) rfl
    · cases hstep
      exact h.pass hc rfl (.refl _ _) rfl
  | releasing r =>
    rw [hphase] at hstep
    cases hstep
    exact h.pass hc rfl (.update (fun _ => rfl) fun _ => rfl) rfl
  | done =>
    rw [hphase] at hstep
    cases hstep

theorem step_capped [DecidableEq ι] [DecidableEq κ] {e : Event ι κ} (h : Capped node spec s)
    (hok : Roomy node spec s e) (hstep : (machine node).step s e = some s') :
    Capped node spec s' := by
  cases e with
  | start name p =>
    change (if _ then _ else _) = _ at hstep
    split at hstep
    · next hstart =>
      cases hstep
      have hp : p.locks = false := by
        cases p with
        | queued g => rfl
        | sweeping globalMs overrides k found => rfl
        | _ => first | rfl | cases hstart
      exact h.start hp
    · cases hstep
  | advance i o =>
    obtain ⟨c, hc, hstep⟩ := Option.bind_eq_some_iff.mp hstep
    exact advance_capped h hc hok hstep
  | drop i =>
    obtain ⟨c, hc, hstep⟩ := Option.bind_eq_some_iff.mp hstep
    split at hstep
    · cases hstep
      exact h.pass hc rfl (.refl _ _) rfl
    · cases hstep
  | tick ms =>
    cases hstep
    exact ⟨h.held, h.rooms, h.ofSpec, h.alone⟩

/-- **The cap.** A pool that starts within its cap stays within it in every run in which
visits that find it full can use it. -/
theorem held_le_of_roomy [DecidableEq ι] [DecidableEq κ] {es : List (Event ι κ)}
    (hstart : s.calls = []) (hcap : s.replicas.held spec ≤ maxReplicas node spec)
    (h : (machine node).Run (Roomy node spec) s es s') :
    s'.replicas.held spec ≤ maxReplicas node spec := by
  have hcapped : Capped node spec s := by
    refine ⟨hcap, ?_, ?_, ?_⟩
    · simp [hstart]
    · simp [hstart]
    · simp [hstart]
  exact (h.invariant hcapped fun _ _ _ hinv hok hstep => step_capped hinv hok hstep).held

end Steps

/-! ## A restart at the cap -/

section Example

attribute [local instance] wholeFloats

/-- A visit that starts the only container. -/
def firstVisit : List (Event Nat Nat) :=
  [.start labId .fast, .advance 0 (labOutside 7 none), .advance 0 (labOutside 7 none),
    .advance 0 (labOutside 7 none), .advance 0 (labOutside 7 (some (labReplica 0))),
    .advance 0 (labOutside 7 none), .advance 0 (labOutside 7 none)]

theorem held_le_of_roomy_firstVisit : ∃ s, (machine labNode).exec (boot []) firstVisit = some s ∧
    s.replicas.held labId = 1 ∧ s.replicas.held labId ≤ maxReplicas labNode labId := by
  have hrun : ∃ s, (machine labNode).Run (Roomy labNode labId) (boot []) firstVisit s ∧
      s.replicas.held labId = 1 := by
    refine ⟨_, .cons trivial rfl (.cons ?_ rfl (.cons ?_ rfl (.cons ?_ rfl (.cons ?_ rfl
      (.cons ?_ rfl (.cons ?_ rfl (.nil _))))))), rfl⟩
    · rintro c hc
      cases hc
      trivial
    · rintro c hc
      cases hc
      trivial
    · rintro c hc
      cases hc
      exact fun _ hfull => absurd hfull (by decide)
    · rintro c hc
      cases hc
      rintro r hr
      cases hr
      rfl
    · rintro c hc
      cases hc
      trivial
    · rintro c hc
      cases hc
      trivial
  obtain ⟨s, hrun, hheld⟩ := hrun
  exact ⟨s, run_free_iff.mp (hrun.mono fun _ _ _ => trivial), hheld,
    held_le_of_roomy rfl (Nat.zero_le _) hrun⟩

/-- The only container restarts.  A visit finds nothing it can use and starts another one;
then the first is back, and has its row already. -/
def restartVisit : List (Event Nat Nat) :=
  [.start labId (.marking 0 5), .advance 0 (labOutside 0 none), .advance 0 (labOutside 0 none),
    .advance 0 (labOutside 0 none), .advance 0 (labOutside 0 none),
    .start labId .fast, .advance 1 (labOutside 7 none), .advance 1 (labOutside 7 none),
    .advance 1 (labOutside 7 none), .advance 1 (labOutside 7 (some (labReplica 1))),
    .advance 1 (labOutside 7 none), .advance 1 (labOutside 7 none),
    .start labId (.queued (.readopt (labReplica 0))), .advance 2 (labOutside 0 none),
    .advance 2 (labOutside 0 none), .advance 2 (labOutside 0 none), .advance 2 (labOutside 0 none)]

/-- One replica is allowed, two are up. -/
theorem restartVisit_overruns :
    Registry.held [labReplica 0] labId = maxReplicas labNode labId ∧
    ∃ s, (machine labNode).exec (boot [labReplica 0]) restartVisit = some s ∧
      ¬ s.replicas.held labId ≤ maxReplicas labNode labId ∧
      s.replicas.map Replica.state = [.ready, .ready] := by
  refine ⟨rfl, _, rfl, ?_, rfl⟩
  decide

end Example

end Ruscker.Scaler
