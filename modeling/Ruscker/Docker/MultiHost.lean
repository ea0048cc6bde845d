import Ruscker.Docker.Labels

/-!
# Containers on several hosts

One backend for each host, and a map from replicas to the hosts they were placed on.  The map
is written after a container has started, and a listing drops the replicas that no host reports.
-/

namespace Ruscker.Docker

open Tables Machines Machines.Machine

variable {ι γ α : Type*}

structure HostEntry (γ : Type*) where
  id : Str
  maxContainers : Option U32
  weight : U32
  containers : List (Container γ)

/-- The connected hosts in config order, and for each replica its host and its spec. -/
structure Cluster (ι γ : Type*) where
  hosts : List (HostEntry γ)
  placement : Table ι (Str × Str)

/-- What a daemon does with a call: it may not answer, and it may refuse a removal. -/
structure Answers (γ : Type*) where
  reachable : Bool
  removal : γ → Bool

/-! ## Stopping a replica -/

section Stop

variable [Uuid ι]

/-- The filter `label=ruscker.replica_id=…` of the daemon. -/
def Container.carries (c : Container γ) (r : ι) : Bool :=
  c.labels.lookup labelReplicaId = some (Uuid.text r)

/-- `LocalDockerBackend::stop`: the first container of the replica goes, and there may be none.
`none` is an error, which leaves them all. -/
def HostEntry.stop (h : HostEntry γ) (answers : Answers γ) (r : ι) : Option (HostEntry γ) :=
  if answers.reachable then
    match h.containers.find? fun c => c.carries r with
    | none => some h
    | some c =>
      if answers.removal c.id then
        some { h with containers := h.containers.eraseP fun c => c.carries r }
      else none
  else none

/-- The first host whose stop succeeds is the last one that is asked. -/
def stopAny (answers : Nat → Answers γ) (r : ι) : Nat → List (HostEntry γ) → List (HostEntry γ)
  | _, [] => []
  | i, h :: rest =>
    match h.stop (answers i) r with
    | some h' => h' :: rest
    | none => h :: stopAny answers r (i + 1) rest

namespace Cluster

variable [DecidableEq ι] (cl : Cluster ι γ) (answers : Nat → Answers γ) (r : ι)

/-- The host of a replica by the map. -/
def placed : Option Nat :=
  (cl.placement.lookup r).bind fun place => cl.hosts.findIdx? fun h => h.id = place.1

/-- `MultiHostDockerBackend::stop`, and whether it reports success. -/
def stop : Cluster ι γ × Bool :=
  let placement := cl.placement.erase r
  match cl.placed r with
  | some i =>
    match (cl.hosts[i]?).bind fun h => h.stop (answers i) r with
    | some h => (⟨cl.hosts.set i h, placement⟩, true)
    | none => (⟨cl.hosts, placement⟩, false)
  | none => (⟨stopAny answers r 0 cl.hosts, placement⟩, true)

/-- The host that is asked first. -/
def asked : Nat := (cl.placed r).getD 0

/-- No host has a container of the replica. -/
def Gone : Prop := ∀ h ∈ cl.hosts, ∀ c ∈ h.containers, c.carries r = false

/-- The host asked first is the only one with a container of the replica, it has one at most,
and it removes that. -/
def Sole : Prop := ∀ i h, cl.hosts[i]? = some h → ∀ c ∈ h.containers, c.carries r = true →
  i = cl.asked r ∧ (answers i).removal c.id = true ∧
    h.containers.countP (fun c => c.carries r) ≤ 1

end Cluster

/-! ### One host -/

namespace HostEntry

variable {h h' : HostEntry γ} {answers : Answers γ} {r : ι} {c : Container γ}

/-- A host without the replica, one that removes it, and one that refuses to. -/
theorem stop_cases (hreach : answers.reachable = true) :
    (h.containers.find? (fun c => c.carries r) = none ∧ h.stop answers r = some h) ∨
    (∃ c, h.containers.find? (fun c => c.carries r) = some c ∧ answers.removal c.id = true ∧
      h.stop answers r = some { h with containers := h.containers.eraseP fun c => c.carries r }) ∨
    (∃ c, h.containers.find? (fun c => c.carries r) = some c ∧ answers.removal c.id = false ∧
      h.stop answers r = none) := by
  unfold stop
  rw [if_pos hreach]
  cases h.containers.find? fun c => c.carries r with
  | none => exact .inl ⟨rfl, rfl⟩
  | some c =>
    cases hremoval : answers.removal c.id with
    | true => exact .inr (.inl ⟨c, rfl, hremoval, if_pos hremoval⟩)
    | false =>
      refine .inr (.inr ⟨c, rfl, hremoval, if_neg ?_⟩)
      rw [hremoval]
      exact Bool.false_ne_true

theorem carries_of_find? (hfind : h.containers.find? (fun c => c.carries r) = some c) :
    c ∈ h.containers ∧ c.carries r = true :=
  ⟨List.mem_of_find?_eq_some hfind, List.find?_some (p := fun c : Container γ => c.carries r) hfind⟩

theorem countP_eraseP : (h.containers.eraseP fun c => c.carries r).countP
    (fun c : Container γ => c.carries r) = h.containers.countP (fun c => c.carries r) - 1 := by
  induction h.containers with
  | nil => rfl
  | cons c rest ih =>
    cases hc : c.carries r with
    | true => simp [hc]
    | false => simp [hc, ih]

/-- With one container of the replica at most, its removal takes the last one. -/
theorem clean_eraseP_iff : (∀ c ∈ h.containers.eraseP fun c => c.carries r, c.carries r = false) ↔
    h.containers.countP (fun c => c.carries r) ≤ 1 := by
  have hclean : (∀ c ∈ h.containers.eraseP fun c => c.carries r, c.carries r = false) ↔
      (h.containers.eraseP fun c => c.carries r).countP (fun c => c.carries r) = 0 := by
    rw [List.countP_eq_zero]
    simp
  rw [hclean, countP_eraseP]
  omega

/-- One container of the replica is the one that is found. -/
theorem find?_eq_of_countP_le_one {l : List (Container γ)}
    (hone : l.countP (fun c => c.carries r) ≤ 1) (hc : c ∈ l) (hcarries : c.carries r = true) :
    l.find? (fun c => c.carries r) = some c := by
  induction l with
  | nil => cases hc
  | cons d rest ih =>
    cases hd : d.carries r with
    | true =>
      rw [List.countP_cons, if_pos hd] at hone
      have hrest : rest.countP (fun c => c.carries r) = 0 := by omega
      rcases List.mem_cons.mp hc with rfl | hmem
      · exact List.find?_cons_of_pos (p := fun c : Container γ => c.carries r) hd
      · exact absurd hcarries (List.countP_eq_zero.mp hrest c hmem)
    | false =>
      rw [List.countP_cons, if_neg (by simp [hd]), Nat.add_zero] at hone
      rw [List.find?_cons_of_neg (by simp [hd])]
      refine ih hone ?_
      rcases List.mem_cons.mp hc with rfl | hmem
      · rw [hd] at hcarries
        cases hcarries
      · exact hmem

/-- A stop that succeeds leaves the host clean just when it removes the only container. -/
theorem clean_stop_iff (hreach : answers.reachable = true) (hstop : h.stop answers r = some h') :
    (∀ c ∈ h'.containers, c.carries r = false) ↔
      ∀ c ∈ h.containers, c.carries r = true → answers.removal c.id = true ∧
        h.containers.countP (fun c => c.carries r) ≤ 1 := by
  rcases stop_cases (h := h) (r := r) hreach with ⟨hnone, heq⟩ | ⟨c₁, hfind, hremoval, heq⟩ |
    ⟨-, -, -, heq⟩
  · cases hstop.symm.trans heq
    have habsent : ∀ c ∈ h.containers, c.carries r = false := fun c hc => by
      simpa using List.find?_eq_none.mp hnone c hc
    refine ⟨fun _ c hc hcarries => ?_, fun _ => habsent⟩
    rw [habsent c hc] at hcarries
    cases hcarries
  · cases hstop.symm.trans heq
    rw [clean_eraseP_iff]
    constructor
    · intro hone c hc hcarries
      cases hfind.symm.trans (find?_eq_of_countP_le_one hone hc hcarries)
      exact ⟨hremoval, hone⟩
    · intro hall
      obtain ⟨hmem, hcarries⟩ := carries_of_find? hfind
      exact (hall c₁ hmem hcarries).2
  · cases hstop.symm.trans heq

end HostEntry

/-! ### All hosts -/

section Cluster

variable [DecidableEq ι] {cl : Cluster ι γ} {answers : Nat → Answers γ} {r : ι}

/-- The host that is asked first is asked alone. -/
theorem gone_set_iff {i : Nat} {h h' : HostEntry γ} (hi : cl.hosts[i]? = some h)
    (hreach : (answers i).reachable = true) (hstop : h.stop (answers i) r = some h')
    (hasked : cl.asked r = i) (placement : Table ι (Str × Str)) :
    Cluster.Gone ⟨cl.hosts.set i h', placement⟩ r ↔ cl.Sole answers r := by
  have hlt : i < cl.hosts.length := (List.getElem?_eq_some_iff.mp hi).1
  have hclean := HostEntry.clean_stop_iff hreach hstop
  constructor
  · intro hgone j g hj c hc hcarries
    by_cases hij : j = i
    · subst hij
      cases hi.symm.trans hj
      exact ⟨hasked.symm, hclean.mp (hgone h' (List.mem_set hlt h')) c hc hcarries⟩
    · have hkept : g ∈ cl.hosts.set i h' :=
        List.mem_iff_getElem?.mpr ⟨j, by rw [List.getElem?_set_ne (Ne.symm hij), hj]⟩
      rw [hgone g hkept c hc] at hcarries
      cases hcarries
  · intro hsole g hg c hc
    obtain ⟨j, hj⟩ := List.mem_iff_getElem?.mp hg
    rcases getElem?_set_cases hj with ⟨-, rfl⟩ | ⟨hij, hj⟩
    · exact hclean.mpr (fun c hc hcarries => (hsole i h hi c hc hcarries).2) c hc
    · by_contra hcarries
      exact hij ((hsole j g hj c hc (by simpa using hcarries)).1.trans hasked)

/-- **A stop that reports success.** With every host reachable, the replica is gone from all
hosts just when its only container was on the host asked first. -/
theorem gone_iff_sole (hreach : ∀ i, (answers i).reachable = true)
    (hok : (cl.stop answers r).2 = true) :
    (cl.stop answers r).1.Gone r ↔ cl.Sole answers r := by
  unfold Cluster.stop at hok ⊢
  cases hplaced : cl.placed r with
  | some i =>
    have hasked : cl.asked r = i := by rw [Cluster.asked, hplaced, Option.getD_some]
    obtain ⟨place, -, hfind⟩ := Option.bind_eq_some_iff.mp hplaced
    obtain ⟨hlt, -⟩ := List.findIdx?_eq_some_iff_getElem.mp hfind
    have hi := List.getElem?_eq_getElem hlt
    simp only [hplaced, hi, Option.bind_some] at hok ⊢
    cases hstop : cl.hosts[i].stop (answers i) r with
    | some h' => exact gone_set_iff hi (hreach i) hstop hasked _
    | none =>
      rw [hstop] at hok
      cases hok
  | none =>
    have hasked : cl.asked r = 0 := by rw [Cluster.asked, hplaced, Option.getD_none]
    simp only
    cases hhosts : cl.hosts with
    | nil => simp [stopAny, Cluster.Gone, Cluster.Sole, hhosts]
    | cons h rest =>
      have hi : cl.hosts[0]? = some h := by rw [hhosts, List.getElem?_cons_zero]
      rw [stopAny]
      cases hstop : h.stop (answers 0) r with
      | some h' =>
        have hset : h' :: rest = cl.hosts.set 0 h' := by rw [hhosts, List.set_cons_zero]
        simp only [hset]
        exact gone_set_iff hi (hreach 0) hstop hasked _
      | none =>
        rcases HostEntry.stop_cases (h := h) (r := r) (hreach 0) with ⟨-, heq⟩ | ⟨-, -, -, heq⟩ |
          ⟨c, hfind, hremoval, -⟩
        · cases hstop.symm.trans heq
        · cases hstop.symm.trans heq
        · obtain ⟨hmem, hcarries⟩ := HostEntry.carries_of_find? hfind
          refine iff_of_false (fun hgone => ?_) fun hsole => ?_
          · rw [hgone h List.mem_cons_self c hmem] at hcarries
            cases hcarries
          · rw [(hsole 0 h hi c hmem hcarries).2.1] at hremoval
            cases hremoval

/-! ### A replica the map does not know -/

attribute [local instance] nilUuid

/-- A container of the one replica there is. -/
def ownContainer : Container Nat :=
  { id := 7, name := [], image := [], status := [], state := some .running, ports := []
    labels := SortedMap.empty.insert labelReplicaId (Uuid.text ()), created := none
    finishedAt := none }

theorem one_lt_u32 : 1 < 2 ^ 32 := by decide

def bareHost (id : String) (containers : List (Container Nat)) : HostEntry Nat :=
  ⟨id.toList, none, ⟨1, one_lt_u32⟩, containers⟩

def allWell : Nat → Answers Nat := fun _ => ⟨true, fun _ => true⟩

/-- The container is on the second host. -/
def secondHost (placement : Table Unit (Str × Str)) : Cluster Unit Nat :=
  ⟨[bareHost "a" [], bareHost "b" [ownContainer]], placement⟩

theorem gone_iff_sole_placed :
    ((secondHost (AList.insert () ("b".toList, []) ∅)).stop allWell ()).2 = true ∧
    ((secondHost (AList.insert () ("b".toList, []) ∅)).stop allWell ()).1.Gone () := by
  have hok : ((secondHost (AList.insert () ("b".toList, []) ∅)).stop allWell ()).2 = true := by
    decide +kernel
  refine ⟨hok, (gone_iff_sole (fun _ => rfl) hok).mpr ?_⟩
  intro i h hi c hc hcarries
  match i, hi with
  | 0, hi =>
    cases hi
    cases hc
  | 1, hi =>
    cases hi
    exact ⟨by decide +kernel, rfl, by decide +kernel⟩

/-- The first host has nothing to stop and says so with success, and no other is asked. -/
theorem stop_unplaced_leaves :
    ((secondHost ∅).stop allWell ()).2 = true ∧ ¬ ((secondHost ∅).stop allWell ()).1.Gone () := by
  refine ⟨by decide, fun hgone => ?_⟩
  have hleft : bareHost "b" [ownContainer] ∈ ((secondHost ∅).stop allWell ()).1.hosts :=
    List.mem_cons_of_mem _ List.mem_cons_self
  have hfree := hgone _ hleft ownContainer List.mem_cons_self
  revert hfree
  decide

end Cluster

end Stop

end Ruscker.Docker
