import Ruscker.Admin.MetricsCache
import Ruscker.Core.Registry
import Ruscker.Lib.Extremes
import Ruscker.Lib.Grouping
import Ruscker.Scope

/-!
# The dashboard and its shared snapshots

A snapshot lists the replicas a caller may see.  It is built in steps, kept for a few seconds
and shared by the callers of one locale and one scope, whose key is made of the sorted groups.
The page groups the rows by app, and the actions on a replica resolve its spec once more.
-/

namespace Ruscker.Admin.Dashboard

open Machines MetricsCache

/-! ## Texts -/

/-- The formats of numbers that are no integers, the translations and the mount prefix. -/
structure Texts (φ Λ : Type) where
  percent : φ → Str
  gigabytes : Nat → Str
  translate : Λ → Str → Str
  basePath : Str

def digits (n : Nat) : Str := Nat.toDigits 10 n

section Texts

variable {φ Λ : Type} (texts : Texts φ Λ)

def formatBytes (bytes : Nat) : Str :=
  if bytes < 1024 then digits bytes ++ [' ', 'B']
  else if bytes < 1024 ^ 2 then digits (bytes / 1024) ++ [' ', 'K', 'B']
  else if bytes < 1024 ^ 3 then digits (bytes / 1024 ^ 2) ++ [' ', 'M', 'B']
  else texts.gigabytes bytes ++ [' ', 'G', 'B']

end Texts

/-- A container that started in the future shows no time. -/
def formatUptime (secs : Int) : Str :=
  let secs := secs.toNat
  let mins := secs / 60
  let hours := mins / 60
  if secs < 60 then digits secs ++ ['s']
  else if mins < 60 then digits mins ++ ['m']
  else if hours < 24 then
    digits hours ++ ['h', ' '] ++ (if mins % 60 < 10 then ['0'] else []) ++ digits (mins % 60) ++
      ['m']
  else digits (hours / 24) ++ ['d', ' '] ++ digits (hours % 24) ++ ['h']

/-- The name of a state in the page's data and its dot. -/
def stateCodes : ReplicaState → Str × Str
  | .ready => ("ready".toList, "dot-on".toList)
  | .starting => ("starting".toList, "dot-pulse".toList)
  | .draining => ("draining".toList, "dot-warm".toList)
  | .stopped => ("stopped".toList, "dot-off".toList)
  | .failed => ("failed".toList, "dot-off".toList)

def stateLabelKey (s : ReplicaState) : Str := "admin-dashboard-state-".toList ++ (stateCodes s).1

/-! ## A snapshot -/

def sparkLen : Nat := 30

def refreshIntervalSecs : Nat := 5

def u64Max : Nat := 2 ^ 64 - 1

/-- A row of the registry with its container. -/
structure Container (ι : Type) where
  replica : Replica ι
  containerId : Str
  host : Option Str

structure ReplicaRow (ι φ : Type) where
  replicaId : ι
  specId : Str
  displayName : Str
  logo : Option Str
  state : Str
  stateDot : Str
  stateLabel : Str
  uptime : Str
  sessionsActive : Nat
  sessionsMax : Nat
  containerShort : Str
  cpuDisplay : Option Str
  memoryDisplay : Option Str
  cpuHistory : List φ
  memHistory : List Nat
  host : Str

structure DashboardSnapshot (ι φ : Type) where
  historyStepSecs : Nat
  backendConnected : Bool
  totalContainers : Nat
  totalSessions : Nat
  specCount : Nat
  trackerSessions : Nat
  totalMemoryBytes : Nat
  totalMemoryDisplay : Str
  rows : List (ReplicaRow ι φ)

/-- What a build reads at its end; the sessions are those of the whole store. -/
structure Readings (ι φ : Type) where
  backendConnected : Bool
  metrics : Cache ι φ
  sessions : Nat
  wall : Nat

section Model

variable [Floats] {ι φ Λ : Type}

abbrev Catalog : Type := List (Spec Settings)

def Catalog.spec (catalog : Catalog) (id : Str) : Option (Spec Settings) :=
  catalog.find? fun spec => spec.id = id

/-- A replica without a spec is nobody's but the unscoped caller's. -/
def visible (scope : EditorScope) (catalog : Catalog) (c : Container ι) : Bool :=
  scope.unscoped || (catalog.spec c.replica.specId).any scope.mayTouchSpec

def displayName (catalog : Catalog) (specId : Str) : Str :=
  ((catalog.spec specId).bind fun spec => spec.settings.displayName).getD specId

def logo (basePath : Str) (catalog : Catalog) (specId : Str) : Option Str :=
  ((catalog.spec specId).bind fun spec =>
    spec.settings.templateProperties.getStr "logo".toList).map fun l =>
      if ['h', 't', 't', 'p'].isPrefixOf l then l else basePath ++ l

def replicaRow (texts : Texts φ Λ) (locale : Λ) (catalog : Catalog) (readings : Readings ι φ)
    (c : Container ι) : ReplicaRow ι φ :=
  let cached := readings.metrics c.replica.id
  { replicaId := c.replica.id
    specId := c.replica.specId
    displayName := displayName catalog c.replica.specId
    logo := logo texts.basePath catalog c.replica.specId
    state := (stateCodes c.replica.state).1
    stateDot := (stateCodes c.replica.state).2
    stateLabel := texts.translate locale (stateLabelKey c.replica.state)
    uptime := formatUptime (readings.wall - c.replica.startedAt)
    sessionsActive := c.replica.sessionsActive
    sessionsMax := c.replica.sessionsMax
    containerShort := c.containerId.take 12
    cpuDisplay := cached.map fun e => texts.percent e.metrics.cpuPercent
    memoryDisplay := cached.map fun e => formatBytes texts e.metrics.memoryBytes
    cpuHistory := cached.elim [] fun e => tail sparkLen e.cpuHistory
    memHistory := cached.elim [] fun e => tail sparkLen e.memHistory
    host := c.host.getD [] }

/-- The last reading of every replica that has one, added up without overflow. -/
def totalMemory (metrics : Cache ι φ) (snap : List (Container ι)) : Nat :=
  snap.foldl (fun total c =>
    (metrics c.replica.id).elim total fun e => min (total + e.metrics.memoryBytes) u64Max) 0

def buildSnapshotUncached (texts : Texts φ Λ) (locale : Λ) (scope : EditorScope)
    (containers : List (Container ι)) (catalog : Catalog) (readings : Readings ι φ) :
    DashboardSnapshot ι φ :=
  let snap := containers.filter (visible scope catalog)
  let totalSessions := (snap.map fun c => c.replica.sessionsActive).sum
  let totalMemoryBytes := totalMemory readings.metrics snap
  { historyStepSecs := refreshIntervalSecs
    backendConnected := readings.backendConnected
    totalContainers := snap.length
    totalSessions
    specCount := (snap.map fun c => c.replica.specId).dedup.length
    trackerSessions := if scope.unscoped then readings.sessions else totalSessions
    totalMemoryBytes
    totalMemoryDisplay := if 0 < totalMemoryBytes then formatBytes texts totalMemoryBytes else ['—']
    rows := snap.map (replicaRow texts locale catalog readings) }

/-- The replica of an action with its spec; a scoped caller cannot tell a foreign replica from
one that is not there. -/
def scopedReplicaSpec [DecidableEq ι] (scope : EditorScope) (containers : List (Container ι))
    (catalog : Catalog) (id : ι) : Except (Nat × Str) (Option Str × Option (Spec Settings)) :=
  match containers.find? fun c => c.replica.id = id with
  | none =>
    if scope.unscoped then .ok (none, none) else .error (404, "replica not found".toList)
  | some c =>
    if scope.unscoped || (catalog.spec c.replica.specId).any scope.mayTouchSpec then
      .ok (some c.replica.specId, catalog.spec c.replica.specId)
    else .error (404, "replica not found".toList)

/-! ## What a scoped caller can tell -/

section Blind

variable {texts : Texts φ Λ} {locale : Λ} {scope : EditorScope} {catalog catalog' : Catalog}
  {containers containers' : List (Container ι)} {readings readings' : Readings ι φ}
  {c : Container ι}

theorem visible_iff (hscoped : scope.unscoped = false) :
    visible scope catalog c = true ↔
      ∃ spec, catalog.spec c.replica.specId = some spec ∧ scope.mayTouchSpec spec = true := by
  rw [visible, hscoped, Bool.false_or, Option.any_eq_true]

/-- Two worlds that look alike to a caller: the same visible replicas, with the same specs and
the same metrics.  The other replicas, specs, metrics and sessions may be any. -/
structure LooksAlike (scope : EditorScope) (containers containers' : List (Container ι))
    (catalog catalog' : Catalog) (readings readings' : Readings ι φ) : Prop where
  visible : containers.filter (visible scope catalog) =
    containers'.filter (visible scope catalog')
  spec : ∀ c ∈ containers.filter (Dashboard.visible scope catalog),
    catalog.spec c.replica.specId = catalog'.spec c.replica.specId
  metrics : ∀ c ∈ containers.filter (Dashboard.visible scope catalog),
    readings.metrics c.replica.id = readings'.metrics c.replica.id
  backendConnected : readings.backendConnected = readings'.backendConnected
  wall : readings.wall = readings'.wall

theorem replicaRow_congr (hspec : catalog.spec c.replica.specId = catalog'.spec c.replica.specId)
    (hmetrics : readings.metrics c.replica.id = readings'.metrics c.replica.id)
    (hwall : readings.wall = readings'.wall) :
    replicaRow texts locale catalog readings c = replicaRow texts locale catalog' readings' c := by
  simp only [replicaRow, displayName, logo, hspec, hmetrics, hwall]

omit [Floats] in
theorem totalMemory_congr {metrics metrics' : Cache ι φ} {snap : List (Container ι)}
    (h : ∀ c ∈ snap, metrics c.replica.id = metrics' c.replica.id) :
    totalMemory metrics snap = totalMemory metrics' snap := by
  unfold totalMemory
  refine List.foldl_ext _ _ 0 fun total c hc => ?_
  rw [h c hc]

theorem buildSnapshot_blind (hscoped : scope.unscoped = false)
    (h : LooksAlike scope containers containers' catalog catalog' readings readings') :
    buildSnapshotUncached texts locale scope containers catalog readings =
      buildSnapshotUncached texts locale scope containers' catalog' readings' := by
  have hrows : (containers.filter (visible scope catalog)).map
        (replicaRow texts locale catalog readings) =
      (containers.filter (visible scope catalog)).map
        (replicaRow texts locale catalog' readings') :=
    List.map_congr_left fun c hc => replicaRow_congr (h.spec c hc) (h.metrics c hc) h.wall
  have hmemory := totalMemory_congr h.metrics
  rw [h.visible] at hrows hmemory
  simp only [buildSnapshotUncached, hscoped, hrows, hmemory, h.visible, h.backendConnected,
    Bool.false_eq_true, if_false]

variable [DecidableEq ι] {id : ι}

/-- What a scoped caller may act on is what the snapshot shows. -/
theorem scopedReplicaSpec_eq_ok (hscoped : scope.unscoped = false)
    (hdistinct : (containers.map fun c => c.replica.id).Nodup)
    {found : Option Str × Option (Spec Settings)} :
    scopedReplicaSpec scope containers catalog id = .ok found ↔
      ∃ c ∈ containers.filter (visible scope catalog), c.replica.id = id ∧
        found = (some c.replica.specId, catalog.spec c.replica.specId) := by
  have hfind : ∀ c, containers.find? (fun c => c.replica.id = id) = some c ↔
      c ∈ containers ∧ c.replica.id = id :=
    fun _ => Grouping.find?_key_eq_some_iff hdistinct
  unfold scopedReplicaSpec
  cases hsome : containers.find? (fun c => c.replica.id = id) with
  | none =>
    simp only [hscoped, Bool.false_eq_true, if_false, reduceCtorEq, false_iff, not_exists, not_and]
    intro c hc hid
    rw [(hfind c).mpr ⟨List.mem_of_mem_filter hc, hid⟩] at hsome
    cases hsome
  | some c =>
    obtain ⟨hc, hid⟩ := (hfind c).mp hsome
    have honly : ∀ c', c' ∈ containers → c'.replica.id = id → c' = c := fun c' hc' hid' =>
      Option.some.inj ((hfind c').mpr ⟨hc', hid'⟩ |>.symm.trans hsome)
    dsimp only
    split
    · next hvisible =>
      constructor
      · intro h
        cases h
        exact ⟨c, List.mem_filter.mpr ⟨hc, hvisible⟩, hid, rfl⟩
      · rintro ⟨c', hc', hid', rfl⟩
        rw [honly c' (List.mem_of_mem_filter hc') hid']
    · next hinvisible =>
      constructor
      · intro h
        cases h
      · rintro ⟨c', hc', hid', -⟩
        obtain ⟨hmem, hvisible⟩ := List.mem_filter.mp hc'
        rw [honly c' hmem hid'] at hvisible
        exact absurd hvisible hinvisible

theorem scopedReplicaSpec_error {e : Nat × Str}
    (h : scopedReplicaSpec scope containers catalog id = .error e) :
    e = (404, "replica not found".toList) := by
  unfold scopedReplicaSpec at h
  split at h
  · split at h
    · cases h
    · cases h
      rfl
  · split at h
    · cases h
    · cases h
      rfl

/-- **What a scoped caller can tell.** In worlds that look alike a scoped caller sees the same
snapshot, and every action on any replica resolves alike or fails alike. -/
theorem scoped_blind (texts : Texts φ Λ) (locale : Λ) (scope : EditorScope)
    {containers containers' : List (Container ι)} {catalog catalog' : Catalog}
    {readings readings' : Readings ι φ} (hscoped : scope.unscoped = false)
    (hdistinct : (containers.map fun c => c.replica.id).Nodup)
    (hdistinct' : (containers'.map fun c => c.replica.id).Nodup)
    (h : LooksAlike scope containers containers' catalog catalog' readings readings') :
    buildSnapshotUncached texts locale scope containers catalog readings =
        buildSnapshotUncached texts locale scope containers' catalog' readings' ∧
      ∀ id, scopedReplicaSpec scope containers catalog id =
        scopedReplicaSpec scope containers' catalog' id := by
  refine ⟨buildSnapshot_blind hscoped h, fun id => ?_⟩
  have hok : ∀ found, scopedReplicaSpec scope containers catalog id = .ok found ↔
      scopedReplicaSpec scope containers' catalog' id = .ok found := by
    intro found
    rw [scopedReplicaSpec_eq_ok hscoped hdistinct, scopedReplicaSpec_eq_ok hscoped hdistinct',
      ← h.visible]
    refine exists_congr fun c => and_congr_right fun hc => ?_
    rw [h.spec c hc]
  cases hleft : scopedReplicaSpec scope containers catalog id with
  | ok found => exact ((hok found).mp hleft).symm
  | error e =>
    cases hright : scopedReplicaSpec scope containers' catalog' id with
    | ok found =>
      rw [(hok found).mpr hright] at hleft
      cases hleft
    | error e' => rw [scopedReplicaSpec_error hleft, scopedReplicaSpec_error hright]

end Blind

/-! ## Shared snapshots -/

abbrev ScopeKey := Option Str

def unitSeparator : Char := Char.ofNat 0x1f

/-- The groups sorted, each once, and joined; an unscoped caller has no groups. -/
def scopeKey (scope : EditorScope) : ScopeKey :=
  if scope.unscoped then none else some ([unitSeparator].intercalate (btreeSet scope.groups))

/-- Groups that keep apart when they are joined. -/
def Separable (scope : EditorScope) : Prop := ∀ g ∈ scope.groups, g ≠ [] ∧ unitSeparator ∉ g

/-- One authorization: the role and the name of the caller play no part in it. -/
structure SameScope (scope scope' : EditorScope) : Prop where
  unscoped : scope.unscoped = scope'.unscoped
  groups : scope.unscoped = false → ∀ g, g ∈ scope.groups ↔ g ∈ scope'.groups

omit [Floats] in
theorem intercalate_inj {ls ms : List Str} (hls : ∀ g ∈ ls, g ≠ [] ∧ unitSeparator ∉ g)
    (hms : ∀ g ∈ ms, g ≠ [] ∧ unitSeparator ∉ g)
    (h : [unitSeparator].intercalate ls = [unitSeparator].intercalate ms) : ls = ms := by
  have hne : ∀ ls : List Str, (∀ g ∈ ls, g ≠ [] ∧ unitSeparator ∉ g) → ls ≠ [] →
      [unitSeparator].intercalate ls ≠ [] := by
    intro ls hls hne hnil
    obtain ⟨g, ls, rfl⟩ := List.exists_cons_of_ne_nil hne
    have hg := (hls g List.mem_cons_self).1
    cases ls with
    | nil => exact hg (by simpa using hnil)
    | cons g' ls => simp [List.intercalate, List.intersperse] at hnil
  have hsplit : ∀ ls : List Str, (∀ g ∈ ls, g ≠ [] ∧ unitSeparator ∉ g) → ls ≠ [] →
      ([unitSeparator].intercalate ls).splitOnP (· = unitSeparator) = ls := by
    intro ls hls hne
    refine Tokens.splitOnP_intercalate (by simp) (fun g hg a ha => ?_) hne
    exact decide_eq_false fun heq => (hls g hg).2 (heq ▸ ha)
  by_cases hlnil : ls = []
  · by_cases hmnil : ms = []
    · rw [hlnil, hmnil]
    · refine absurd ?_ (hne ms hms hmnil)
      rw [← h, hlnil]
      rfl
  · by_cases hmnil : ms = []
    · refine absurd ?_ (hne ls hls hlnil)
      rw [h, hmnil]
      rfl
    · rw [← hsplit ls hls hlnil, h, hsplit ms hms hmnil]

omit [Floats] in
/-- **The key is the scope.** -/
theorem sameScope_of_scopeKey {scope scope' : EditorScope} (hscope : Separable scope)
    (hscope' : Separable scope') (h : scopeKey scope = scopeKey scope') :
    SameScope scope scope' := by
  unfold scopeKey at h
  cases hleft : scope.unscoped with
  | true =>
    cases hright : scope'.unscoped with
    | true => exact ⟨by rw [hleft, hright], fun hscoped => by simp [hleft] at hscoped⟩
    | false => simp [hleft, hright] at h
  | false =>
    cases hright : scope'.unscoped with
    | true => simp [hleft, hright] at h
    | false =>
      simp only [hleft, hright, Bool.false_eq_true, if_false, Option.some.injEq] at h
      have hsets := intercalate_inj (fun g hg => hscope g (mem_btreeSet.mp hg))
        (fun g hg => hscope' g (mem_btreeSet.mp hg)) h
      refine ⟨by rw [hleft, hright], fun _ g => ?_⟩
      rw [← mem_btreeSet, hsets, mem_btreeSet]

theorem SameScope.mayTouchSpec {scope scope' : EditorScope} (h : SameScope scope scope')
    (spec : Spec Settings) : scope.mayTouchSpec spec = scope'.mayTouchSpec spec := by
  rw [EditorScope.mayTouchSpec, EditorScope.mayTouchSpec, ← h.unscoped]
  cases hscoped : scope.unscoped with
  | true => rfl
  | false =>
    have hgroup : scope.hasGroup = scope'.hasGroup := by
      funext g
      rw [Bool.eq_iff_iff, EditorScope.hasGroup_iff, EditorScope.hasGroup_iff, h.groups hscoped]
    rw [hgroup]

/-- Callers of one scope are shown the same. -/
theorem SameScope.buildSnapshot {scope scope' : EditorScope} (h : SameScope scope scope')
    (texts : Texts φ Λ) (locale : Λ) (containers : List (Container ι)) (catalog : Catalog)
    (readings : Readings ι φ) :
    buildSnapshotUncached texts locale scope containers catalog readings =
      buildSnapshotUncached texts locale scope' containers catalog readings := by
  have hvisible : visible (ι := ι) scope catalog = visible scope' catalog := by
    funext c
    rw [visible, visible, h.unscoped, funext h.mayTouchSpec]
  simp only [buildSnapshotUncached, hvisible, h.unscoped]

/-- What a build may read, at one moment. -/
structure World (ι φ : Type) where
  containers : List (Container ι)
  catalog : Catalog
  readings : Readings ι φ

/-- Where a build stands: it reads the registry, then the catalog, then the rest. -/
inductive Stage (ι : Type) where
  | registry
  | catalog (containers : List (Container ι))
  | assemble (containers : List (Container ι)) (catalog : Catalog)

structure Build (ι Λ : Type) where
  locale : Λ
  scope : EditorScope
  stage : Stage ι

/-- An answer: when its snapshot was built and when it was given. -/
structure Served (ι φ Λ : Type) where
  locale : Λ
  scope : EditorScope
  snapshot : DashboardSnapshot ι φ
  builtAt : Nat
  givenAt : Nat

structure Server (ι φ Λ : Type) where
  world : World ι φ
  /-- the worlds so far, the present one included -/
  worlds : List (World ι φ)
  /-- in milliseconds -/
  now : Nat
  cache : Λ × ScopeKey → Option (Nat × DashboardSnapshot ι φ)
  builds : List (Build ι Λ)
  served : List (Served ι φ Λ)

inductive Event (ι φ Λ : Type) where
  | pass (millis : Nat)
  | change (world : World ι φ)
  | request (locale : Λ) (scope : EditorScope)
  | readRegistry (i : Nat)
  | readCatalog (i : Nat)
  | finish (i : Nat)

/-- `SSE_INTERVAL`, in milliseconds. -/
def sseInterval : Nat := 5000

section Server

variable [DecidableEq Λ] (texts : Texts φ Λ) (s : Server ι φ Λ)

/-- A fresh entry is given away, else a build begins; nobody waits for the builds of others. -/
def request (locale : Λ) (scope : EditorScope) : Server ι φ Λ :=
  match (s.cache (locale, scopeKey scope)).filter fun e => s.now - e.1 < sseInterval with
  | some (builtAt, snapshot) =>
    { s with served := s.served ++ [⟨locale, scope, snapshot, builtAt, s.now⟩] }
  | none => { s with builds := s.builds ++ [⟨locale, scope, .registry⟩] }

def finishBuild (i : Nat) (b : Build ι Λ) (containers : List (Container ι)) (catalog : Catalog) :
    Server ι φ Λ :=
  let snapshot := buildSnapshotUncached texts b.locale b.scope containers catalog s.world.readings
  { s with
    cache := Function.update s.cache (b.locale, scopeKey b.scope) (some (s.now, snapshot))
    builds := s.builds.eraseIdx i
    served := s.served ++ [⟨b.locale, b.scope, snapshot, s.now, s.now⟩] }

def step : Event ι φ Λ → Option (Server ι φ Λ)
  | .pass millis => some { s with now := s.now + millis }
  | .change world => some { s with world, worlds := s.worlds ++ [world] }
  | .request locale scope => some (request s locale scope)
  | .readRegistry i => do
    let b ← s.builds[i]?
    match b.stage with
    | .registry => return { s with
        builds := s.builds.set i { b with stage := .catalog s.world.containers } }
    | _ => none
  | .readCatalog i => do
    let b ← s.builds[i]?
    match b.stage with
    | .catalog containers => return { s with
        builds := s.builds.set i { b with stage := .assemble containers s.world.catalog } }
    | _ => none
  | .finish i => do
    let b ← s.builds[i]?
    match b.stage with
    | .assemble containers catalog => return finishBuild texts s i b containers catalog
    | _ => none

def machine : Machine (Server ι φ Λ) (Event ι φ Λ) := ⟨step texts⟩

def initial (world : World ι φ) : Server ι φ Λ := ⟨world, [world], 0, fun _ => none, [], []⟩

end Server

/-! ### Every answer is the caller's own -/

/-- A snapshot as it is built for this caller, from what was there at three moments. -/
def Shown (texts : Texts φ Λ) (worlds : List (World ι φ)) (locale : Λ) (scope : EditorScope)
    (snapshot : DashboardSnapshot ι φ) : Prop :=
  ∃ w₁ ∈ worlds, ∃ w₂ ∈ worlds, ∃ w₃ ∈ worlds, snapshot =
    buildSnapshotUncached texts locale scope w₁.containers w₂.catalog w₃.readings

/-- What a build has read was there. -/
def Stage.From (worlds : List (World ι φ)) : Stage ι → Prop
  | .registry => True
  | .catalog containers => ∃ w ∈ worlds, w.containers = containers
  | .assemble containers specs =>
    (∃ w ∈ worlds, w.containers = containers) ∧ ∃ w ∈ worlds, w.catalog = specs

/-- Only scopes ask whose groups keep apart. -/
def Apart (_ : Server ι φ Λ) : Event ι φ Λ → Prop
  | .request _ scope => Separable scope
  | _ => True

/-- Fresh for less than the interval. -/
def Timely (r : Served ι φ Λ) : Prop :=
  r.builtAt ≤ r.givenAt ∧ r.givenAt < r.builtAt + sseInterval

structure Sound (texts : Texts φ Λ) (s : Server ι φ Λ) : Prop where
  present : s.world ∈ s.worlds
  cache : ∀ locale key builtAt snapshot, s.cache (locale, key) = some (builtAt, snapshot) →
    builtAt ≤ s.now ∧ ∃ scope, Separable scope ∧ scopeKey scope = key ∧
      Shown texts s.worlds locale scope snapshot
  builds : ∀ b ∈ s.builds, Separable b.scope ∧ b.stage.From s.worlds
  served : ∀ r ∈ s.served, Timely r ∧ Shown texts s.worlds r.locale r.scope r.snapshot

section Sound

variable {texts : Texts φ Λ} {worlds worlds' : List (World ι φ)} {locale : Λ}
  {scope : EditorScope} {snapshot : DashboardSnapshot ι φ} {s s' : Server ι φ Λ}

theorem Shown.mono (h : Shown texts worlds locale scope snapshot)
    (hsub : ∀ w ∈ worlds, w ∈ worlds') : Shown texts worlds' locale scope snapshot := by
  obtain ⟨w₁, h₁, w₂, h₂, w₃, h₃, heq⟩ := h
  exact ⟨w₁, hsub w₁ h₁, w₂, hsub w₂ h₂, w₃, hsub w₃ h₃, heq⟩

theorem Shown.of_sameScope {scope' : EditorScope} (h : Shown texts worlds locale scope snapshot)
    (hsame : SameScope scope scope') : Shown texts worlds locale scope' snapshot := by
  obtain ⟨w₁, h₁, w₂, h₂, w₃, h₃, rfl⟩ := h
  exact ⟨w₁, h₁, w₂, h₂, w₃, h₃, hsame.buildSnapshot _ _ _ _ _⟩

theorem Stage.From.mono {stage : Stage ι} (h : stage.From worlds)
    (hsub : ∀ w ∈ worlds, w ∈ worlds') : stage.From worlds' := by
  cases stage with
  | registry => trivial
  | catalog containers =>
    obtain ⟨w, hw, heq⟩ := h
    exact ⟨w, hsub w hw, heq⟩
  | assemble containers catalog =>
    obtain ⟨⟨w, hw, heq⟩, w', hw', heq'⟩ := h
    exact ⟨⟨w, hsub w hw, heq⟩, w', hsub w' hw', heq'⟩

theorem sound_initial (world : World ι φ) : Sound texts (initial world : Server ι φ Λ) where
  present := List.mem_singleton_self world
  cache _ _ _ _ h := by cases h
  builds _ h := by cases h
  served _ h := by cases h

theorem sound_setStage (h : Sound texts s) {i : Nat} {b : Build ι Λ} {stage : Stage ι}
    (hb : s.builds[i]? = some b) (hstage : stage.From s.worlds) :
    Sound texts { s with builds := s.builds.set i { b with stage } } := by
  refine ⟨h.present, h.cache, fun b' hb' => ?_, h.served⟩
  rcases List.mem_or_eq_of_mem_set hb' with hold | rfl
  · exact h.builds b' hold
  · exact ⟨(h.builds b (List.mem_of_getElem? hb)).1, hstage⟩

theorem sound_request (h : Sound texts s) (hscope : Separable scope) :
    Sound texts (request s locale scope) := by
  unfold request
  split
  · next builtAt snapshot hhit =>
    obtain ⟨hentry, hfresh⟩ := Option.filter_eq_some_iff.mp hhit
    obtain ⟨hle, scope', hscope', hkey, hshown⟩ := h.cache locale _ builtAt snapshot hentry
    refine ⟨h.present, h.cache, h.builds, fun r hr => ?_⟩
    rcases List.mem_append.mp hr with hold | hnew
    · exact h.served r hold
    · obtain rfl := List.mem_singleton.mp hnew
      refine ⟨⟨hle, ?_⟩, hshown.of_sameScope (sameScope_of_scopeKey hscope' hscope hkey)⟩
      have hlt : s.now - builtAt < sseInterval := by simpa using hfresh
      dsimp only
      omega
  · refine ⟨h.present, h.cache, fun b hb => ?_, h.served⟩
    rcases List.mem_append.mp hb with hold | hnew
    · exact h.builds b hold
    · obtain rfl := List.mem_singleton.mp hnew
      exact ⟨hscope, trivial⟩

variable [DecidableEq Λ]

theorem sound_finishBuild (h : Sound texts s) {i : Nat} {b : Build ι Λ}
    {containers : List (Container ι)} {catalog : Catalog} (hb : s.builds[i]? = some b)
    (hstage : b.stage = .assemble containers catalog) :
    Sound texts (finishBuild texts s i b containers catalog) := by
  obtain ⟨hscope, hfrom⟩ := h.builds b (List.mem_of_getElem? hb)
  rw [hstage] at hfrom
  obtain ⟨⟨w₁, h₁, rfl⟩, w₂, h₂, rfl⟩ := hfrom
  have hshown : Shown texts s.worlds b.locale b.scope (buildSnapshotUncached texts b.locale
      b.scope w₁.containers w₂.catalog s.world.readings) :=
    ⟨w₁, h₁, w₂, h₂, s.world, h.present, rfl⟩
  refine ⟨h.present, fun locale key builtAt snapshot hentry => ?_,
    fun b' hb' => h.builds b' (List.mem_of_mem_eraseIdx hb'), fun r hr => ?_⟩
  · dsimp only [finishBuild] at hentry
    by_cases hkey : (locale, key) = (b.locale, scopeKey b.scope)
    · rw [hkey, Function.update_self] at hentry
      cases hentry
      cases hkey
      exact ⟨Nat.le_refl _, b.scope, hscope, rfl, hshown⟩
    · rw [Function.update_of_ne hkey] at hentry
      exact h.cache locale key builtAt snapshot hentry
  · rcases List.mem_append.mp hr with hold | hnew
    · exact h.served r hold
    · obtain rfl := List.mem_singleton.mp hnew
      exact ⟨⟨Nat.le_refl _, Nat.lt_add_of_pos_right (by decide)⟩, hshown⟩

theorem sound_step (h : Sound texts s) {e : Event ι φ Λ} (hok : Apart s e)
    (hstep : step texts s e = some s') : Sound texts s' := by
  cases e with
  | pass millis =>
    cases hstep
    refine ⟨h.present, fun locale key builtAt snapshot hentry => ?_, h.builds, h.served⟩
    obtain ⟨hle, hscope⟩ := h.cache locale key builtAt snapshot hentry
    exact ⟨Nat.le_add_right_of_le hle, hscope⟩
  | change world =>
    cases hstep
    have hsub : ∀ w ∈ s.worlds, w ∈ s.worlds ++ [world] := fun w hw => List.mem_append_left _ hw
    refine ⟨by simp, fun locale key builtAt snapshot hentry => ?_, fun b hb => ?_, fun r hr => ?_⟩
    · obtain ⟨hle, scope, hscope, hkey, hshown⟩ := h.cache locale key builtAt snapshot hentry
      exact ⟨hle, scope, hscope, hkey, hshown.mono hsub⟩
    · exact ⟨(h.builds b hb).1, (h.builds b hb).2.mono hsub⟩
    · exact ⟨(h.served r hr).1, (h.served r hr).2.mono hsub⟩
  | request locale scope =>
    cases hstep
    exact sound_request h hok
  | readRegistry i =>
    obtain ⟨b, hb, hrest⟩ := Option.bind_eq_some_iff.mp hstep
    split at hrest
    · cases hrest
      exact sound_setStage h hb ⟨s.world, h.present, rfl⟩
    · cases hrest
  | readCatalog i =>
    obtain ⟨b, hb, hrest⟩ := Option.bind_eq_some_iff.mp hstep
    split at hrest
    · next containers hstage =>
      cases hrest
      have hfrom := (h.builds b (List.mem_of_getElem? hb)).2
      rw [hstage] at hfrom
      exact sound_setStage h hb ⟨hfrom, s.world, h.present, rfl⟩
    · cases hrest
  | finish i =>
    obtain ⟨b, hb, hrest⟩ := Option.bind_eq_some_iff.mp hstep
    split at hrest
    · next containers catalog hstage =>
      cases hrest
      exact sound_finishBuild h hb hstage
    · cases hrest

/-- A snapshot that holds what a scoped caller may see, and counts nothing else. -/
structure InScope (scope : EditorScope) (containers : List (Container ι)) (catalog : Catalog)
    (snapshot : DashboardSnapshot ι φ) : Prop where
  rows : snapshot.rows.map ReplicaRow.replicaId =
    (containers.filter (visible scope catalog)).map fun c => c.replica.id
  touch : ∀ row ∈ snapshot.rows,
    ∃ spec ∈ catalog, spec.id = row.specId ∧ scope.mayTouchSpec spec = true
  totalContainers : snapshot.totalContainers = snapshot.rows.length
  totalSessions : snapshot.totalSessions = (snapshot.rows.map ReplicaRow.sessionsActive).sum
  trackerSessions : snapshot.trackerSessions = snapshot.totalSessions

omit [DecidableEq Λ] in
theorem inScope_build (hscoped : scope.unscoped = false) (containers : List (Container ι))
    (catalog : Catalog) (readings : Readings ι φ) :
    InScope scope containers catalog
      (buildSnapshotUncached texts locale scope containers catalog readings) where
  rows := by
    rw [buildSnapshotUncached, List.map_map]
    rfl
  touch row hrow := by
    obtain ⟨c, hc, rfl⟩ := List.mem_map.mp hrow
    obtain ⟨spec, hspec, htouch⟩ := (visible_iff hscoped).mp (List.mem_filter.mp hc).2
    have hid : spec.id = c.replica.specId := by simpa using List.find?_some hspec
    exact ⟨spec, List.mem_of_find?_eq_some hspec, hid, htouch⟩
  totalContainers := by simp [buildSnapshotUncached]
  totalSessions := by
    simp only [buildSnapshotUncached, List.map_map]
    rfl
  trackerSessions := by simp [buildSnapshotUncached, hscoped]

/-- **Shared, and still one's own.** Every answer, shared or built for its caller, is a snapshot
built for the caller's own scope no longer ago than the interval; a scoped caller finds no
replica in it, and none counted, that they may not touch. -/
theorem served_in_scope (texts : Texts φ Λ) {world : World ι φ} {es : List (Event ι φ Λ)}
    {s : Server ι φ Λ} (h : (machine texts).Run Apart (initial world) es s) :
    ∀ r ∈ s.served, r.builtAt ≤ r.givenAt ∧ r.givenAt < r.builtAt + sseInterval ∧
      ∃ w₁ ∈ s.worlds, ∃ w₂ ∈ s.worlds, ∃ w₃ ∈ s.worlds,
        r.snapshot = buildSnapshotUncached texts r.locale r.scope w₁.containers w₂.catalog
          w₃.readings ∧
        (r.scope.unscoped = false → InScope r.scope w₁.containers w₂.catalog r.snapshot) := by
  intro r hr
  have hsound := h.invariant (sound_initial world) fun _ _ _ hs hok hstep => sound_step hs hok hstep
  obtain ⟨⟨hle, hlt⟩, w₁, h₁, w₂, h₂, w₃, h₃, heq⟩ := hsound.served r hr
  refine ⟨hle, hlt, w₁, h₁, w₂, h₂, w₃, h₃, heq, fun hscoped => ?_⟩
  rw [heq]
  exact inScope_build hscoped _ _ _

end Sound

/-! ## The rows by app -/

/-- The higher, the more it asks for attention. -/
def severity (state : Str) : Nat :=
  if state = "failed".toList then 4
  else if state = "stopped".toList then 3
  else if state = "draining".toList then 2
  else if state = "starting".toList then 1
  else 0

structure AppGroup (ι φ : Type) where
  specId : Str
  displayName : Str
  logo : Option Str
  n : Nat
  stateDot : Str
  stateLabel : Str
  sessionsActive : Nat
  sessionsMax : Nat
  memoryDisplay : Str
  replicas : List (ReplicaRow ι φ)

def appGroup (texts : Texts φ Λ) (rows : List (ReplicaRow ι φ)) (specId : Str) : AppGroup ι φ :=
  let reps := Grouping.group ReplicaRow.specId rows specId
  let worst := Extremes.maxByKey (fun r => severity r.state) reps
  let memory := (reps.filterMap fun r => r.memHistory.getLast?).sum
  { specId
    displayName := reps.head?.elim specId ReplicaRow.displayName
    logo := reps.head?.bind ReplicaRow.logo
    n := reps.length
    stateDot := worst.elim "dot-off".toList ReplicaRow.stateDot
    stateLabel := worst.elim [] ReplicaRow.stateLabel
    sessionsActive := (reps.map ReplicaRow.sessionsActive).sum
    sessionsMax := (reps.map ReplicaRow.sessionsMax).sum
    memoryDisplay := if 0 < memory then formatBytes texts memory else []
    replicas := reps }

/-- The apps in the order of their first rows. -/
def groupRows (texts : Texts φ Λ) (rows : List (ReplicaRow ι φ)) : List (AppGroup ι φ) :=
  (Grouping.firstSeen ReplicaRow.specId rows).map (appGroup texts rows)

section Groups

variable {texts : Texts φ Λ} {rows : List (ReplicaRow ι φ)}

omit [Floats] in
theorem mem_firstSeen_of_mem : ∀ r ∈ rows, r.specId ∈ Grouping.firstSeen ReplicaRow.specId rows :=
  fun r hr => Grouping.mem_firstSeen.mpr ⟨r, hr, rfl⟩

omit [Floats] in
/-- The worst replica of a group speaks for it. -/
theorem exists_worst {reps : List (ReplicaRow ι φ)} (hne : reps ≠ []) :
    ∃ row ∈ reps, Extremes.maxByKey (fun r => severity r.state) reps = some row ∧
      ∀ other ∈ reps, severity other.state ≤ severity row.state := by
  cases hworst : Extremes.maxByKey (fun r : ReplicaRow ι φ => severity r.state) reps with
  | none => exact absurd (Extremes.pick_eq_none.mp hworst) hne
  | some row =>
    obtain ⟨before, behind, rfl, hbefore, hbehind⟩ := Extremes.maxByKey_iff.mp hworst
    refine ⟨row, by simp, rfl, fun other hother => ?_⟩
    simp only [List.mem_append, List.mem_cons] at hother
    rcases hother with h | rfl | h
    · exact hbefore other h
    · exact Nat.le_refl _
    · exact Nat.le_of_lt (hbehind other h)

/-- A group of the page and the rows it stands for. -/
structure Accounts (rows : List (ReplicaRow ι φ)) (g : AppGroup ι φ) : Prop where
  nonempty : g.replicas ≠ []
  ordered : g.replicas.Sublist rows
  own : ∀ row ∈ g.replicas, row.specId = g.specId
  n : g.n = g.replicas.length
  worst : ∃ row ∈ g.replicas, g.stateDot = row.stateDot ∧ g.stateLabel = row.stateLabel ∧
    ∀ other ∈ g.replicas, severity other.state ≤ severity row.state

omit [Floats] in
theorem accounts_appGroup {specId : Str}
    (h : specId ∈ Grouping.firstSeen ReplicaRow.specId rows) :
    Accounts rows (appGroup texts rows specId) := by
  obtain ⟨r, hr, heq⟩ := Grouping.mem_firstSeen.mp h
  have hne : Grouping.group ReplicaRow.specId rows specId ≠ [] :=
    List.ne_nil_of_mem (Grouping.mem_group.mpr ⟨hr, heq⟩)
  obtain ⟨row, hrow, hworst, hle⟩ := exists_worst hne
  refine ⟨hne, Grouping.group_sublist, fun r' hr' => (Grouping.mem_group.mp hr').2, rfl,
    row, hrow, ?_, ?_, hle⟩
  · simp only [appGroup, hworst, Option.elim_some]
  · simp only [appGroup, hworst, Option.elim_some]

end Groups

end Model

section Example

attribute [local instance] wholeFloats

def redApp : Spec Settings where
  id := ['a']
  accessGroups := some [['r', 'e', 'd']]
  accessUsers := none
  settings := bareSettings "A" .empty

def blueApp : Spec Settings :=
  { redApp with id := ['b'], accessGroups := some [['b', 'l', 'u', 'e']] }

def plainTexts : Texts Nat Unit where
  percent := digits
  gigabytes := digits
  translate _ key := key
  basePath := []

def redContainer : Container Nat := ⟨⟨0, ['a'], .ready, 0, 2, 5⟩, ['x'], none⟩

def blueContainer : Container Nat := ⟨⟨1, ['b'], .ready, 0, 3, 5⟩, ['y'], none⟩

def bothApps : World Nat Nat where
  containers := [redContainer, blueContainer]
  catalog := [redApp, blueApp]
  readings := ⟨true, fun _ => none, 5, 60⟩

def redEditor (name : Str) (groups : List Str) : EditorScope := ⟨.editor, some name, groups, false⟩

theorem looksAlike_red :
    LooksAlike (redEditor [] [['r', 'e', 'd']]) [redContainer] [redContainer, blueContainer]
      [redApp] [redApp, blueApp] ⟨true, fun _ => none, 2, 60⟩ bothApps.readings where
  visible := rfl
  spec := by
    rintro c (_ | ⟨_, ⟨⟩⟩)
    rfl
  metrics _ _ := rfl
  backendConnected := rfl
  wall := rfl

/-- The blue app makes no difference to a red Editor. -/
theorem scoped_blind_red :
    (buildSnapshotUncached plainTexts () (redEditor [] [['r', 'e', 'd']]) bothApps.containers
      bothApps.catalog bothApps.readings).trackerSessions = 2 ∧
    scopedReplicaSpec (redEditor [] [['r', 'e', 'd']]) bothApps.containers bothApps.catalog 1 =
      .error (404, "replica not found".toList) := by
  obtain ⟨hsnapshot, hactions⟩ := scoped_blind plainTexts () (redEditor [] [['r', 'e', 'd']]) rfl
    (by decide) (by decide) looksAlike_red
  exact ⟨hsnapshot ▸ rfl, (hactions 1).symm.trans rfl⟩

/-- Two Editors with the same groups share one build. -/
def sharedRun : List (Event Nat Nat Unit) :=
  [.request () (redEditor ['c'] [['r', 'e', 'd'], ['x']]), .readRegistry 0, .readCatalog 0,
    .finish 0, .pass 4999, .request () (redEditor ['d'] [['x'], ['r', 'e', 'd']])]

theorem served_in_scope_sharedRun :
    ∃ s, (machine plainTexts).exec (initial bothApps) sharedRun = some s ∧ s.served.length = 2 ∧
      ∀ r ∈ s.served, r.givenAt < r.builtAt + sseInterval := by
  have hcount : ((machine plainTexts).exec (initial bothApps) sharedRun).map
      (fun s => s.served.length) = some 2 := by decide +kernel
  obtain ⟨s, hs, hlength⟩ := Option.map_eq_some_iff.mp hcount
  have hrun := @Machine.run_of_exec _ _ _ Apart _ _ _ hs (by
    intro s e he
    simp only [sharedRun, List.mem_cons, List.not_mem_nil, or_false] at he
    rcases he with rfl | rfl | rfl | rfl | rfl | rfl <;>
      simp [Apart, Separable, redEditor, unitSeparator])
  exact ⟨s, hs, hlength, fun r hr => (served_in_scope plainTexts hrun r hr).2.1⟩

end Example

end Ruscker.Admin.Dashboard
