import Ruscker.Docker.MultiHost

/-!
# Which replicas are gone

A pass asks every connected host at once.  A host either answers with all it has or has failed
for this pass, and a replica counts as missing only where the answers can tell.
-/

namespace Ruscker.Docker

open Tables

variable {ι γ α : Type*}

/-- What a host answers to one pass. -/
structure HostRuntimeInventory (ι γ α : Type*) where
  managed : List (ManagedContainer γ)
  replicas : List (Hosted ι γ α)

/-- The answers of the hosts that answered, and the ids of those that did not. -/
structure HostBatch (τ : Type*) where
  reported : List (Str × τ)
  failedHosts : List Str

section Calls

variable {τ : Type*}

/-- The answers in the order of the hosts. -/
def reportedBy (answers : Nat → Option τ) : Nat → List (HostEntry γ) → List (Str × τ)
  | _, [] => []
  | i, h :: rest =>
    match answers i with
    | some answer => (h.id, answer) :: reportedBy answers (i + 1) rest
    | none => reportedBy answers (i + 1) rest

/-- The ids of the hosts without an answer: an error, or none in time. -/
def failedAmong (answers : Nat → Option τ) : Nat → List (HostEntry γ) → List Str
  | _, [] => []
  | i, h :: rest =>
    match answers i with
    | some _ => failedAmong answers (i + 1) rest
    | none => h.id :: failedAmong answers (i + 1) rest

/-- `host_calls_with_timeout`: an outage of all hosts is an error. -/
def hostCalls (hosts : List (HostEntry γ)) (answers : Nat → Option τ) : Option (HostBatch τ) :=
  let batch := ⟨reportedBy answers 0 hosts, failedAmong answers 0 hosts⟩
  if batch.reported.isEmpty then none else some batch

end Calls

/-! ## The judgement -/

section Pass

variable [DecidableEq ι] [DecidableEq γ]

/-- `retain_confirmed_or_unknown_placements` -/
def retainConfirmedOrUnknown (placement : Table ι (Str × Str)) (live : List ι)
    (failedHosts : List Str) : Table ι (Str × Str) :=
  placement.retain fun id place => live.contains id || failedHosts.contains place.1

/-- The host a replica is said to be on: by the replica, or else by the map. -/
def ownerOf (placement : Table ι (Str × Str)) (q : LivenessQuery ι γ) : Option Str :=
  q.host.or ((placement.lookup q.replicaId).map Prod.fst)

/-- `classify_multihost_liveness` of one replica. -/
def livenessOf (batch : HostBatch (HostRuntimeInventory ι γ α)) (placement : Table ι (Str × Str))
    (q : LivenessQuery ι γ) : Liveness :=
  match ownerOf placement q with
  | some owner =>
    if batch.failedHosts.contains owner then .unknown
    else
      match batch.reported.find? fun answer => answer.1 = owner with
      | some answer => classify answer.2.managed q.containerId
      -- the host has left the configuration, or it did not connect at the start
      | none => .unknown
  | none =>
    match (batch.reported.flatMap fun answer => answer.2.managed).find? fun c =>
        c.id = q.containerId with
    | some c => if c.running then .running else .stopped
    | none => if batch.failedHosts.isEmpty then .missing else .unknown

def classifyMultihostLiveness (known : List (LivenessQuery ι γ))
    (batch : HostBatch (HostRuntimeInventory ι γ α)) (placement : Table ι (Str × Str)) :
    List (ι × Liveness) :=
  known.map fun q => (q.replicaId, livenessOf batch placement q)

/-- The replicas of a batch with the hosts that reported them. -/
def listed (batch : HostBatch (HostRuntimeInventory ι γ α)) : List (Str × Hosted ι γ α) :=
  batch.reported.flatMap fun answer => answer.2.replicas.map fun row => (answer.1, row)

/-- The map once every reported replica has its host in it. -/
def tag (placement : Table ι (Str × Str)) (rows : List (Str × Hosted ι γ α)) :
    Table ι (Str × Str) :=
  rows.foldl (fun placement row => placement.insert row.2.id (row.1, row.2.specId)) placement

namespace Cluster

variable (cl : Cluster ι γ)

/-- `MultiHostDockerBackend::replica_liveness` -/
def replicaLiveness (known : List (LivenessQuery ι γ))
    (answers : Nat → Option (HostRuntimeInventory ι γ α)) :
    Option (LivenessReport ι γ α × Cluster ι γ) :=
  (hostCalls cl.hosts answers).map fun batch =>
    let rows := listed batch
    let placement := retainConfirmedOrUnknown (tag cl.placement rows)
      (rows.map fun row => row.2.id) batch.failedHosts
    ({ observations := classifyMultihostLiveness known batch cl.placement
       running := (rows.map Prod.snd).filter fun row => row.state = .ready
       managed := batch.reported.flatMap fun answer => answer.2.managed },
      { cl with placement })

end Cluster

end Pass

/-! ## What a pass is told -/

namespace HostEntry

/-- The daemon of the host has the container. -/
def Has (h : HostEntry γ) (c : γ) : Prop := ∃ d ∈ h.containers, d.isManaged = true ∧ d.id = c

/-- An answer with all managed containers of the host. -/
def Reports (h : HostEntry γ) (inventory : HostRuntimeInventory ι γ α) : Prop :=
  ∀ c, h.Has c → ∃ row ∈ inventory.managed, row.id = c

end HostEntry

namespace Cluster

variable [DecidableEq ι] (cl : Cluster ι γ) (answers : Nat → Option (HostRuntimeInventory ι γ α))

/-- A host of the id is connected and has not answered. -/
def Failed (id : Str) : Prop := ∃ i h, cl.hosts[i]? = some h ∧ h.id = id ∧ answers i = none

/-- A host that answered has the replica in its list. -/
def Listed (r : ι) : Prop := ∃ i h inventory, cl.hosts[i]? = some h ∧
  answers i = some inventory ∧ ∃ row ∈ inventory.replicas, row.id = r

/-- A recorded owner is the host the container lives on. -/
def Recorded (q : LivenessQuery ι γ) : Prop :=
  ∀ owner, ownerOf cl.placement q = some owner → ∀ i h, cl.hosts[i]? = some h →
    h.Has q.containerId → cl.hosts.findIdx? (fun h => h.id = owner) = some i

/-- What an answer of `Missing` is worth. -/
structure Judged (q : LivenessQuery ι γ) (liveness : Liveness) : Prop where
  absent : cl.Recorded q → liveness = .missing → ∀ h ∈ cl.hosts, ¬ h.Has q.containerId
  owner : ∀ owner, ownerOf cl.placement q = some owner →
    (cl.Failed answers owner ∨ ∀ h ∈ cl.hosts, h.id ≠ owner) → liveness ≠ .missing
  unowned : ownerOf cl.placement q = none → (∃ owner, cl.Failed answers owner) →
    liveness ≠ .missing

/-- Which entries of the map a pass leaves there. -/
structure KeepsPlacements (cl' : Cluster ι γ) : Prop where
  listed : ∀ r, cl.Listed answers r → ∃ i h inventory row, cl.hosts[i]? = some h ∧
    answers i = some inventory ∧ row ∈ inventory.replicas ∧ row.id = r ∧
      cl'.placement.lookup r = some (h.id, row.specId)
  failed : ∀ r place, cl.placement.lookup r = some place → cl.Failed answers place.1 →
    ¬ cl.Listed answers r → cl'.placement.lookup r = some place

end Cluster

/-! ### The batch -/

section Batch

variable {τ : Type*} {answers : Nat → Option τ} {hosts : List (HostEntry γ)} {id : Str}

theorem mem_failedAmong {i : Nat} : id ∈ failedAmong answers i hosts ↔
    ∃ j h, hosts[j]? = some h ∧ h.id = id ∧ answers (i + j) = none := by
  induction hosts generalizing i with
  | nil => simp [failedAmong]
  | cons h rest ih =>
    have hrest : (∃ j g, (h :: rest)[j]? = some g ∧ g.id = id ∧ answers (i + j) = none) ↔
        (h.id = id ∧ answers i = none) ∨
          ∃ j g, rest[j]? = some g ∧ g.id = id ∧ answers (i + 1 + j) = none := by
      constructor
      · rintro ⟨j, g, hj, hid, hnone⟩
        cases j with
        | zero =>
          cases hj
          exact .inl ⟨hid, hnone⟩
        | succ j =>
          refine .inr ⟨j, g, hj, hid, ?_⟩
          rw [← hnone]
          congr 1
          omega
      · rintro (⟨hid, hnone⟩ | ⟨j, g, hj, hid, hnone⟩)
        · exact ⟨0, h, rfl, hid, hnone⟩
        · refine ⟨j + 1, g, hj, hid, ?_⟩
          rw [← hnone]
          congr 1
          omega
    rw [hrest, ← ih, failedAmong]
    cases ha : answers i with
    | some answer => simp
    | none => simp [eq_comm]

theorem mem_reportedBy {i : Nat} {answer : Str × τ} : answer ∈ reportedBy answers i hosts ↔
    ∃ j h, hosts[j]? = some h ∧ h.id = answer.1 ∧ answers (i + j) = some answer.2 := by
  induction hosts generalizing i with
  | nil => simp [reportedBy]
  | cons h rest ih =>
    have hrest : (∃ j g, (h :: rest)[j]? = some g ∧ g.id = answer.1 ∧
        answers (i + j) = some answer.2) ↔ (h.id = answer.1 ∧ answers i = some answer.2) ∨
          ∃ j g, rest[j]? = some g ∧ g.id = answer.1 ∧ answers (i + 1 + j) = some answer.2 := by
      constructor
      · rintro ⟨j, g, hj, hid, hsome⟩
        cases j with
        | zero =>
          cases hj
          exact .inl ⟨hid, hsome⟩
        | succ j =>
          refine .inr ⟨j, g, hj, hid, ?_⟩
          rw [← hsome]
          congr 1
          omega
      · rintro (⟨hid, hsome⟩ | ⟨j, g, hj, hid, hsome⟩)
        · exact ⟨0, h, rfl, hid, hsome⟩
        · refine ⟨j + 1, g, hj, hid, ?_⟩
          rw [← hsome]
          congr 1
          omega
    rw [hrest, ← ih, reportedBy]
    cases ha : answers i with
    | none => simp
    | some found =>
      obtain ⟨name, value⟩ := answer
      simp [eq_comm]

/-- Where no host of an id has failed, its first answer is that of its first host. -/
theorem find?_reportedBy {i : Nat} (hanswers : id ∉ failedAmong answers i hosts) :
    (reportedBy answers i hosts).find? (fun answer => answer.1 = id) =
      (hosts.findIdx? fun h => h.id = id).bind fun j =>
        (answers (i + j)).map fun answer => (id, answer) := by
  induction hosts generalizing i with
  | nil => rfl
  | cons h rest ih =>
    rw [failedAmong] at hanswers
    rw [reportedBy, List.findIdx?_cons]
    cases ha : answers i with
    | some answer =>
      rw [ha] at hanswers
      by_cases hid : h.id = id
      · simp [hid, ha]
      · rw [List.find?_cons_of_neg (by simpa using hid), ih hanswers]
        simp only [hid, decide_false, Bool.false_eq_true, if_false, Option.bind_map]
        congr 1
        funext j
        simp only [Function.comp_apply]
        congr 2
        omega
    | none =>
      rw [ha, List.mem_cons, not_or] at hanswers
      rw [ih hanswers.2]
      simp only [Ne.symm hanswers.1, decide_false, Bool.false_eq_true, if_false, Option.bind_map]
      congr 1
      funext j
      simp only [Function.comp_apply]
      congr 2
      omega

theorem hostCalls_eq_some {batch : HostBatch τ} (h : hostCalls hosts answers = some batch) :
    batch.reported = reportedBy answers 0 hosts ∧
      batch.failedHosts = failedAmong answers 0 hosts := by
  unfold hostCalls at h
  dsimp only at h
  split at h
  · cases h
  · cases h
    exact ⟨rfl, rfl⟩

end Batch

section Inventories

variable {cl : Cluster ι γ} {answers : Nat → Option (HostRuntimeInventory ι γ α)}
  {batch : HostBatch (HostRuntimeInventory ι γ α)}

theorem failed_iff (h : hostCalls cl.hosts answers = some batch) {id : Str} :
    batch.failedHosts.contains id = true ↔ cl.Failed answers id := by
  rw [(hostCalls_eq_some h).2, List.contains_iff_mem, mem_failedAmong]
  simp [Cluster.Failed]

theorem mem_listed_iff (hcalls : hostCalls cl.hosts answers = some batch)
    {row : Str × Hosted ι γ α} : row ∈ listed batch ↔ ∃ i h inventory, cl.hosts[i]? = some h ∧
      answers i = some inventory ∧ row.2 ∈ inventory.replicas ∧ row.1 = h.id := by
  unfold listed
  rw [(hostCalls_eq_some hcalls).1]
  constructor
  · intro hrow
    obtain ⟨answer, hanswer, hrow⟩ := List.mem_flatMap.mp hrow
    obtain ⟨inner, hinner, rfl⟩ := List.mem_map.mp hrow
    obtain ⟨i, h, hi, hid, hsome⟩ := mem_reportedBy.mp hanswer
    rw [Nat.zero_add] at hsome
    exact ⟨i, h, answer.2, hi, hsome, hinner, hid.symm⟩
  · rintro ⟨i, h, inventory, hi, hsome, hinner, hid⟩
    refine List.mem_flatMap.mpr ⟨(h.id, inventory), ?_, List.mem_map.mpr ⟨row.2, hinner, ?_⟩⟩
    · exact mem_reportedBy.mpr ⟨i, h, hi, rfl, by rw [Nat.zero_add, hsome]⟩
    · rw [← hid]

theorem listed_iff (hcalls : hostCalls cl.hosts answers = some batch) {r : ι} :
    (∃ row ∈ listed batch, row.2.id = r) ↔ cl.Listed answers r := by
  constructor
  · rintro ⟨row, hrow, hid⟩
    obtain ⟨i, h, inventory, hi, hsome, hinner, -⟩ := (mem_listed_iff hcalls).mp hrow
    exact ⟨i, h, inventory, hi, hsome, row.2, hinner, hid⟩
  · rintro ⟨i, h, inventory, hi, hsome, row, hinner, hid⟩
    exact ⟨(h.id, row), (mem_listed_iff hcalls).mpr ⟨i, h, inventory, hi, hsome, hinner, rfl⟩, hid⟩

end Inventories

/-! ### The judgement -/

section Judgement

variable [DecidableEq ι] [DecidableEq γ] {cl : Cluster ι γ} {q : LivenessQuery ι γ}
  {answers : Nat → Option (HostRuntimeInventory ι γ α)}
  {batch : HostBatch (HostRuntimeInventory ι γ α)}

/-- A list of managed containers without one of them says that it is missing. -/
theorem classify_eq_missing {managed : List (ManagedContainer γ)} {c : γ} :
    classify managed c = .missing ↔ ∀ row ∈ managed, row.id ≠ c := by
  unfold classify
  split
  · next row hfind =>
    have hrow := List.mem_of_find?_eq_some hfind
    have hid := List.find?_some hfind
    refine iff_of_false ?_ fun hall => hall row hrow (by simpa using hid)
    split <;> exact nofun
  · next hnone =>
    refine iff_of_true rfl ?_
    intro row hrow
    simpa using List.find?_eq_none.mp hnone row hrow

/-- `Missing` comes from the answer of the recorded owner, or from those of all hosts. -/
theorem livenessOf_eq_missing (hcalls : hostCalls cl.hosts answers = some batch)
    (h : livenessOf batch cl.placement q = .missing) :
    (∃ owner i host inventory, ownerOf cl.placement q = some owner ∧
      ¬ cl.Failed answers owner ∧ cl.hosts.findIdx? (fun h => h.id = owner) = some i ∧
      cl.hosts[i]? = some host ∧ answers i = some inventory ∧
      ∀ row ∈ inventory.managed, row.id ≠ q.containerId) ∨
    (ownerOf cl.placement q = none ∧ (∀ owner, ¬ cl.Failed answers owner) ∧
      ∀ i inventory, i < cl.hosts.length → answers i = some inventory →
        ∀ row ∈ inventory.managed, row.id ≠ q.containerId) := by
  obtain ⟨hreported, hfailed⟩ := hostCalls_eq_some hcalls
  unfold livenessOf at h
  split at h
  · next owner howner =>
    left
    split at h
    · cases h
    · next hnot =>
      have hout : owner ∉ failedAmong answers 0 cl.hosts := by
        rw [← hfailed, ← List.contains_iff_mem]
        exact hnot
      rw [hreported, find?_reportedBy hout] at h
      cases hidx : cl.hosts.findIdx? fun h => h.id = owner with
      | none =>
        rw [hidx] at h
        cases h
      | some i =>
        obtain ⟨hlt, -⟩ := List.findIdx?_eq_some_iff_getElem.mp hidx
        rw [hidx] at h
        cases hanswer : answers i with
        | none =>
          simp only [Option.bind_some, Nat.zero_add, hanswer, Option.map_none] at h
          cases h
        | some inventory =>
          simp only [Option.bind_some, Nat.zero_add, hanswer, Option.map_some] at h
          refine ⟨owner, i, cl.hosts[i], inventory, howner, ?_, hidx, ?_, hanswer, ?_⟩
          · rw [← failed_iff hcalls]
            exact hnot
          · exact List.getElem?_eq_getElem hlt
          · exact classify_eq_missing.mp h
  · next howner =>
    right
    split at h
    · split at h <;> cases h
    · next hnone =>
      split at h
      · next hempty =>
        refine ⟨howner, ?_, ?_⟩
        · intro owner hfails
          rw [← failed_iff hcalls, List.isEmpty_iff.mp hempty] at hfails
          cases hfails
        · intro i inventory hlt hanswer row hrow heq
          have hmem : (cl.hosts[i].id, inventory) ∈ batch.reported := by
            rw [hreported, mem_reportedBy]
            exact ⟨i, cl.hosts[i], List.getElem?_eq_getElem hlt, rfl, by rw [Nat.zero_add, hanswer]⟩
          have hall := List.find?_eq_none.mp hnone row
            (List.mem_flatMap.mpr ⟨_, hmem, hrow⟩)
          simp [heq] at hall
      · cases h

/-- The judgement of one replica, with answers that leave out no container. -/
theorem judged_livenessOf (hcalls : hostCalls cl.hosts answers = some batch)
    (hreports : ∀ i h inventory, cl.hosts[i]? = some h → answers i = some inventory →
      h.Reports inventory) : cl.Judged answers q (livenessOf batch cl.placement q) where
  absent := by
    intro hrecorded hmissing h hh hhas
    obtain ⟨i, hi⟩ := List.mem_iff_getElem?.mp hh
    rcases livenessOf_eq_missing hcalls hmissing with
      ⟨owner, j, host, inventory, howner, -, hidx, hhost, hanswer, hnot⟩ | ⟨-, hanswered, hnot⟩
    · -- the record names the host of the container, and the answer of that host was read
      cases hidx.symm.trans (hrecorded owner howner i h hi hhas)
      obtain ⟨row, hrow, hid⟩ := hreports i h inventory hi hanswer q.containerId hhas
      exact hnot row hrow hid
    · cases hanswer : answers i with
      | none => exact hanswered h.id ⟨i, h, hi, rfl, hanswer⟩
      | some inventory =>
        obtain ⟨row, hrow, hid⟩ := hreports i h inventory hi hanswer q.containerId hhas
        exact hnot i inventory (List.getElem?_eq_some_iff.mp hi).1 hanswer row hrow hid
  owner := by
    intro owner howner hunknown hmissing
    rcases livenessOf_eq_missing hcalls hmissing with
      ⟨owner', j, host, inventory, howner', hanswered, hidx, hhost, -, -⟩ | ⟨hnone, -, -⟩
    · cases howner.symm.trans howner'
      rcases hunknown with hfailed | hgone
      · exact hanswered hfailed
      · have hid := List.findIdx?_eq_some_iff_getElem.mp hidx
        obtain ⟨hlt, hid, -⟩ := hid
        exact hgone _ (List.getElem_mem hlt) (by simpa using hid)
    · rw [howner] at hnone
      cases hnone
  unowned := by
    rintro hnone ⟨owner, hfailed⟩ hmissing
    rcases livenessOf_eq_missing hcalls hmissing with ⟨_, _, _, _, howner, -⟩ | ⟨-, hanswered, -⟩
    · rw [hnone] at howner
      cases howner
    · exact hanswered owner hfailed

end Judgement

/-! ### The map -/

section Map

variable [DecidableEq ι] {cl cl' : Cluster ι γ}
  {answers : Nat → Option (HostRuntimeInventory ι γ α)} {known : List (LivenessQuery ι γ)}
  {batch : HostBatch (HostRuntimeInventory ι γ α)} {report : LivenessReport ι γ α}

theorem lookup_retainConfirmedOrUnknown {placement : Table ι (Str × Str)} {live : List ι}
    {failedHosts : List Str} {r : ι} {place : Str × Str}
    (hplace : placement.lookup r = some place)
    (hkeep : r ∈ live ∨ place.1 ∈ failedHosts) :
    (retainConfirmedOrUnknown placement live failedHosts).lookup r = some place := by
  rw [retainConfirmedOrUnknown, Table.lookup_retain, hplace]
  simp [hkeep]

theorem lookup_tag_of_not_mem {placement : Table ι (Str × Str)} {r : ι}
    {rows : List (Str × Hosted ι γ α)} (h : ∀ row ∈ rows, row.2.id ≠ r) :
    (tag placement rows).lookup r = placement.lookup r := by
  induction rows generalizing placement with
  | nil => rfl
  | cons row rows ih =>
    have hrest : ∀ placement, (tag placement rows).lookup r = placement.lookup r :=
      fun placement => ih fun row' hrow' => h row' (List.mem_cons_of_mem row hrow')
    rw [tag, List.foldl_cons, ← tag, hrest, Table.lookup_insert_eq, if_neg]
    exact Ne.symm (h row List.mem_cons_self)

/-- A listed replica is on a host that lists it. -/
theorem lookup_tag_of_mem {placement : Table ι (Str × Str)} {r : ι}
    {rows : List (Str × Hosted ι γ α)} (h : ∃ row ∈ rows, row.2.id = r) :
    ∃ row ∈ rows, row.2.id = r ∧
      (tag placement rows).lookup r = some (row.1, row.2.specId) := by
  induction rows generalizing placement with
  | nil =>
    obtain ⟨row, hrow, -⟩ := h
    cases hrow
  | cons row rows ih =>
    rw [tag, List.foldl_cons, ← tag]
    by_cases hrest : ∃ row' ∈ rows, row'.2.id = r
    · obtain ⟨row', hrow', hid, hlookup⟩ := ih hrest
      exact ⟨row', List.mem_cons_of_mem row hrow', hid, hlookup⟩
    · obtain ⟨row', hrow', hid⟩ := h
      rcases List.mem_cons.mp hrow' with rfl | hmem
      · refine ⟨row', hrow', hid, ?_⟩
        rw [lookup_tag_of_not_mem, Table.lookup_insert_eq, if_pos hid.symm]
        intro other hother heq
        exact hrest ⟨other, hother, heq⟩
      · exact absurd ⟨row', hmem, hid⟩ hrest

variable [DecidableEq γ]

theorem keepsPlacements (hpass : cl.replicaLiveness known answers = some (report, cl')) :
    cl.KeepsPlacements answers cl' := by
  obtain ⟨batch, hcalls, heq⟩ := Option.map_eq_some_iff.mp hpass
  cases heq
  constructor
  · intro r hlisted
    have hplaced : ∃ row ∈ listed batch, row.2.id = r ∧
        (tag cl.placement (listed batch)).lookup r = some (row.1, row.2.specId) :=
      lookup_tag_of_mem ((listed_iff hcalls).mpr hlisted)
    obtain ⟨row, hrow, hid, hplace⟩ := hplaced
    obtain ⟨i, h, inventory, hi, hsome, hinner, hhost⟩ := (mem_listed_iff hcalls).mp hrow
    refine ⟨i, h, inventory, row.2, hi, hsome, hinner, hid, ?_⟩
    rw [← hhost]
    exact lookup_retainConfirmedOrUnknown hplace (.inl (List.mem_map.mpr ⟨row, hrow, hid⟩))
  · intro r place hplace hfailed hunlisted
    apply lookup_retainConfirmedOrUnknown
    · rw [lookup_tag_of_not_mem, hplace]
      intro row hrow hid
      exact hunlisted ((listed_iff hcalls).mp ⟨row, hrow, hid⟩)
    · right
      rw [← List.contains_iff_mem]
      exact (failed_iff hcalls).mpr hfailed

/-- **A pass never loses a replica that is there.** Whichever hosts fail, with answers that leave
out no container, `Missing` is said of no replica with a container on a connected host, nor of
one whose owner has failed or is not connected; and a replica that a host lists, or whose owner
has failed, stays on the map. -/
theorem liveness_sound
    (hreports : ∀ i h inventory, cl.hosts[i]? = some h → answers i = some inventory →
      h.Reports inventory)
    (hpass : cl.replicaLiveness known answers = some (report, cl')) :
    List.Forall₂ (fun q observation => observation.1 = q.replicaId ∧
      cl.Judged answers q observation.2) known report.observations ∧
    cl.KeepsPlacements answers cl' := by
  refine ⟨?_, keepsPlacements hpass⟩
  obtain ⟨batch, hcalls, heq⟩ := Option.map_eq_some_iff.mp hpass
  cases heq
  rw [classifyMultihostLiveness, List.forall₂_map_right_iff, List.forall₂_same]
  intro q _
  exact ⟨rfl, judged_livenessOf hcalls hreports⟩

end Map

/-! ### One host fails -/

section Example

attribute [local instance] nilUuid

/-- The second host does not answer, and the first has nothing. -/
def firstOnly : Nat → Option (HostRuntimeInventory Unit Nat Nat)
  | 0 => some ⟨[], []⟩
  | _ => none

def onSecond : Cluster Unit Nat := secondHost (AList.insert () ("b".toList, []) ∅)

/-- The replica of the second host is not judged missing and stays on the map. -/
theorem liveness_sound_secondFails :
    ∃ report cl', onSecond.replicaLiveness [⟨(), 7, none⟩] firstOnly = some (report, cl') ∧
      report.observations = [((), .unknown)] ∧
      List.Forall₂ (fun q observation => observation.1 = q.replicaId ∧
        onSecond.Judged firstOnly q observation.2) [⟨(), 7, none⟩] report.observations ∧
      onSecond.KeepsPlacements firstOnly cl' := by
  refine ⟨_, _, rfl, by decide, liveness_sound ?_ rfl⟩
  intro i h inventory hi hanswer c hhas
  match i, hi with
  | 0, hi =>
    cases hi
    obtain ⟨d, hd, -⟩ := hhas
    cases hd
  | 1, hi => cases hanswer

end Example

end Ruscker.Docker
