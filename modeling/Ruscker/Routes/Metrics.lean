import Mathlib.Data.Prod.Lex
import Ruscker.Admin.MetricsCache
import Ruscker.Core.Registry
import Ruscker.Lib.Exposition
import Ruscker.Lib.Grouping

/-!
# The metrics endpoint

A scraper is shown the registry and the readings of the metrics cache as one text: how many
replicas each spec has in each state, its sessions, and what every replica last used.  The id of
a spec is any text, so that it is escaped; what the scraper reads is what the registry has.
-/

namespace Ruscker.Routes.Metrics

open Admin.MetricsCache Exposition

/-! ## The text -/

/-- The texts of ids and percentages. -/
structure Texts (ι φ : Type) where
  id : ι → Str
  percent : φ → Str
  id_injective : Function.Injective id
  id_plain : ∀ i, ∀ c ∈ id i, c ≠ '\\' ∧ c ≠ '"' ∧ c ≠ '\n'
  percent_line : ∀ x, '\n' ∉ percent x

def stateLabel : ReplicaState → Str
  | .starting => "starting".toList
  | .ready => "ready".toList
  | .draining => "draining".toList
  | .stopped => "stopped".toList
  | .failed => "failed".toList

def escChar : Char → Str
  | '\\' => "\\\\".toList
  | '"' => "\\\"".toList
  | '\n' => "\\n".toList
  | c => [c]

def esc (v : Str) : Str := v.foldl (fun out c => out ++ escChar c) []

def up : Str := "ruscker_up".toList
def replicasTotal : Str := "ruscker_replicas_total".toList
def sessionsTracked : Str := "ruscker_sessions_tracked".toList
def replicasGauge : Str := "ruscker_replicas".toList
def sessionsActive : Str := "ruscker_sessions_active".toList
def cpuPercent : Str := "ruscker_replica_cpu_percent".toList
def memoryBytes : Str := "ruscker_replica_memory_bytes".toList

def specKey : Str := "spec".toList
def stateKey : Str := "state".toList
def replicaKey : Str := "replica".toList

def helpMark : Str := " HELP ".toList
def typeMark : Str := " TYPE ".toList
def gaugeMark : Str := " gauge".toList

def family (name help : Str) : Str :=
  '#' :: helpMark ++ name ++ ' ' :: help ++ '\n' :: '#' :: typeMark ++ name ++ gaugeMark ++ ['\n']

def plainLine (name value : Str) : Str := name ++ ' ' :: value ++ ['\n']

def specLine (name spec value : Str) : Str :=
  name ++ "\x7bspec=\"".toList ++ esc spec ++ "\"\x7d ".toList ++ value ++ ['\n']

/-- Only the id of the spec is escaped. -/
def pairLine (name spec key text value : Str) : Str :=
  name ++ "\x7bspec=\"".toList ++ esc spec ++ "\",".toList ++ key ++ "=\"".toList ++ text ++
    "\"\x7d ".toList ++ value ++ ['\n']

section Encode

variable {ι φ : Type} (texts : Texts ι φ) (replicas : Registry ι) (cache : Cache ι φ)

/-- The replicas of each spec and state. -/
def bySpecState : SortedMap (Str ×ₗ Str) Nat :=
  Grouping.tally (fun r : Replica ι => toLex (r.specId, stateLabel r.state)) (fun _ => 1) (2 ^ 32)
    replicas

def sessionsBySpec : SortedMap Str Nat :=
  Grouping.tally Replica.specId Replica.sessionsActive (2 ^ 32) replicas

/-- The lines of the two readings of a replica that has them, each behind those before. -/
def readingLines (acc : Str × Str) (r : Replica ι) : Str × Str :=
  match cache r.id with
  | some c =>
    (acc.1 ++ pairLine cpuPercent r.specId replicaKey (texts.id r.id)
        (texts.percent c.metrics.cpuPercent),
      acc.2 ++ pairLine memoryBytes r.specId replicaKey (texts.id r.id)
        (Nat.toDigits 10 c.metrics.memoryBytes))
  | none => acc

def encode (trackedSessions : Nat) (backendConnected : Bool) : Str :=
  let out := family up "Container backend connected (1) or absent (0).".toList ++
    plainLine up (Nat.toDigits 10 backendConnected.toNat) ++
    family replicasTotal "Running replicas across all specs.".toList ++
    plainLine replicasTotal (Nat.toDigits 10 replicas.length) ++
    family sessionsTracked "Sticky sessions currently tracked.".toList ++
    plainLine sessionsTracked (Nat.toDigits 10 trackedSessions) ++
    family replicasGauge "Running replicas by spec and state.".toList ++
    (bySpecState replicas).entries.flatMap (fun e => pairLine replicasGauge (ofLex e.1).1
      stateKey (ofLex e.1).2 (Nat.toDigits 10 e.2)) ++
    family sessionsActive "Active sessions by spec.".toList ++
    (sessionsBySpec replicas).entries.flatMap (fun e => specLine sessionsActive e.1
      (Nat.toDigits 10 e.2)) ++
    family cpuPercent "Per-replica CPU usage (percent).".toList
  let lines := replicas.foldl (readingLines texts cache) (out, [])
  lines.1 ++ family memoryBytes "Per-replica memory usage (bytes).".toList ++ lines.2

/-- The route is there when the setting is on. -/
def metrics (metricsEnabled : Bool) (trackedSessions : Nat) (backendConnected : Bool) :
    Nat × Str :=
  if metricsEnabled then (200, encode texts replicas cache trackedSessions backendConnected)
  else (404, "metrics disabled".toList)

end Encode

/-! ## Its samples -/

theorem esc_eq (v : Str) : esc v = Exposition.esc v := by
  have hchar : ∀ c, escChar c = Exposition.esc [c] := by
    intro c
    unfold escChar Exposition.esc
    rw [List.flatMap_singleton]
    split <;> simp_all
  induction v using List.reverseRecOn with
  | nil => rfl
  | append_singleton v c ih =>
    rw [esc, List.foldl_append, List.foldl_cons, List.foldl_nil, ← esc, ih, hchar]
    simp [Exposition.esc]

/-- A family of samples: their labels and values. -/
structure Family where
  name : Str
  help : Str
  series : List (List (Str × Str) × Str)

namespace Family

variable (f : Family)

def samples : List Sample := f.series.map fun s => ⟨f.name, s.1, s.2⟩

def lines : List Line :=
  .comment (helpMark ++ f.name ++ ' ' :: f.help) ::
    .comment (typeMark ++ f.name ++ gaugeMark) :: f.samples.map .sample

variable {f}

theorem filterMap_lines : f.lines.filterMap Line.sample? = f.samples := by
  rw [lines, List.filterMap_cons_none rfl, List.filterMap_cons_none rfl, List.filterMap_map]
  exact List.filterMap_some

theorem write_lines : write f.lines = family f.name f.help ++
    f.series.flatMap fun s => (Sample.mk f.name s.1 s.2).text ++ ['\n'] := by
  rw [lines, write, List.flatMap_cons, List.flatMap_cons, samples, List.flatMap_map,
    List.flatMap_map, family]
  simp only [Line.text, List.cons_append, List.append_assoc, List.nil_append]

end Family

section Samples

variable {ι φ : Type} (texts : Texts ι φ) (replicas : Registry ι) (cache : Cache ι φ)

/-- The replicas with a reading. -/
def readings : List (Replica ι × CachedMetrics φ) :=
  replicas.filterMap fun r => (cache r.id).map (r, ·)

def pairLabels (spec key text : Str) : List (Str × Str) := [(specKey, spec), (key, text)]

def families (trackedSessions : Nat) (backendConnected : Bool) : List Family :=
  [⟨up, "Container backend connected (1) or absent (0).".toList,
      [([], Nat.toDigits 10 backendConnected.toNat)]⟩,
    ⟨replicasTotal, "Running replicas across all specs.".toList,
      [([], Nat.toDigits 10 replicas.length)]⟩,
    ⟨sessionsTracked, "Sticky sessions currently tracked.".toList,
      [([], Nat.toDigits 10 trackedSessions)]⟩,
    ⟨replicasGauge, "Running replicas by spec and state.".toList,
      (bySpecState replicas).entries.map fun e =>
        (pairLabels (ofLex e.1).1 stateKey (ofLex e.1).2, Nat.toDigits 10 e.2)⟩,
    ⟨sessionsActive, "Active sessions by spec.".toList,
      (sessionsBySpec replicas).entries.map fun e =>
        ([(specKey, e.1)], Nat.toDigits 10 e.2)⟩,
    ⟨cpuPercent, "Per-replica CPU usage (percent).".toList,
      (readings replicas cache).map fun p =>
        (pairLabels p.1.specId replicaKey (texts.id p.1.id),
          texts.percent p.2.metrics.cpuPercent)⟩,
    ⟨memoryBytes, "Per-replica memory usage (bytes).".toList,
      (readings replicas cache).map fun p =>
        (pairLabels p.1.specId replicaKey (texts.id p.1.id),
          Nat.toDigits 10 p.2.metrics.memoryBytes)⟩]

variable {texts replicas cache} {trackedSessions : Nat} {backendConnected : Bool}

theorem plainLine_eq (name value : Str) :
    plainLine name value = (Sample.mk name [] value).text ++ ['\n'] := by
  simp [plainLine, Sample.text, labelsText]

theorem specLine_eq (name spec value : Str) :
    specLine name spec value = (Sample.mk name [(specKey, spec)] value).text ++ ['\n'] := by
  simp [specLine, Sample.text, labelsText, labelText, specKey, esc_eq]

theorem pairLine_eq {text : Str} (h : Exposition.esc text = text) (name spec key value : Str) :
    pairLine name spec key text value =
      (Sample.mk name (pairLabels spec key text) value).text ++ ['\n'] := by
  simp [pairLine, Sample.text, labelsText, labelText, pairLabels, specKey, esc_eq, h,
    List.intercalate_cons_cons]

theorem esc_stateLabel (st : ReplicaState) : Exposition.esc (stateLabel st) = stateLabel st := by
  cases st <;> decide +kernel

theorem esc_id (i : ι) : Exposition.esc (texts.id i) = texts.id i := esc_eq_self (texts.id_plain i)

theorem write_append (l m : List Line) : write (l ++ m) = write l ++ write m := List.flatMap_append

theorem foldl_readingLines (acc : Str × Str) :
    replicas.foldl (readingLines texts cache) acc =
      (acc.1 ++ (readings replicas cache).flatMap fun p => pairLine cpuPercent p.1.specId
          replicaKey (texts.id p.1.id) (texts.percent p.2.metrics.cpuPercent),
        acc.2 ++ (readings replicas cache).flatMap fun p => pairLine memoryBytes p.1.specId
          replicaKey (texts.id p.1.id) (Nat.toDigits 10 p.2.metrics.memoryBytes)) := by
  induction replicas generalizing acc with
  | nil => simp [readings]
  | cons r replicas ih =>
    have hcons : readings (r :: replicas) cache =
        ((cache r.id).map (r, ·)).toList ++ readings replicas cache := by
      cases hr : cache r.id <;> simp [readings, hr]
    rw [List.foldl_cons, ih, hcons, readingLines]
    cases cache r.id with
    | none => rfl
    | some c => simp

theorem mem_bySpecState {spec state : Str} {n : Nat} :
    (toLex (spec, state), n) ∈ (bySpecState replicas).entries ↔
      (∃ r ∈ replicas, r.specId = spec ∧ stateLabel r.state = state) ∧
        n = (replicas.filter fun r => r.specId = spec ∧ stateLabel r.state = state).length
          % 2 ^ 32 := by
  rw [bySpecState, Grouping.mem_tally]
  simp [Grouping.group]

theorem mem_sessionsBySpec {spec : Str} {n : Nat} :
    (spec, n) ∈ (sessionsBySpec replicas).entries ↔ (∃ r ∈ replicas, r.specId = spec) ∧
      n = ((replicas.replicasOf spec).map Replica.sessionsActive).sum % 2 ^ 32 := by
  rw [sessionsBySpec, Grouping.mem_tally]
  rfl

theorem encode_eq : encode texts replicas cache trackedSessions backendConnected =
    write ((families texts replicas cache trackedSessions backendConnected).flatMap
      Family.lines) := by
  have hstates : (bySpecState replicas).entries.flatMap (fun e => pairLine replicasGauge
        (ofLex e.1).1 stateKey (ofLex e.1).2 (Nat.toDigits 10 e.2)) =
      (bySpecState replicas).entries.flatMap fun e =>
        (Sample.mk replicasGauge (pairLabels (ofLex e.1).1 stateKey (ofLex e.1).2)
          (Nat.toDigits 10 e.2)).text ++ ['\n'] := by
    refine List.flatMap_congr fun e he => pairLine_eq ?_ _ _ _ _
    obtain ⟨⟨r, -, -, hstate⟩, -⟩ := mem_bySpecState.mp he
    exact hstate ▸ esc_stateLabel r.state
  rw [encode, foldl_readingLines, families]
  simp only [List.flatMap_cons, List.flatMap_nil, write_append, Family.write_lines,
    List.flatMap_map, plainLine_eq, specLine_eq, pairLine_eq (esc_id _), List.append_nil,
    List.append_assoc, List.nil_append, hstates]

/-! ### What the lines are made of -/

def names : List Str :=
  [up, replicasTotal, sessionsTracked, replicasGauge, sessionsActive, cpuPercent, memoryBytes]

theorem map_name_families :
    (families texts replicas cache trackedSessions backendConnected).map Family.name = names := rfl

theorem nodup_names : names.Nodup := by decide +kernel

theorem names_plain : ∀ n ∈ names, (n ≠ [] ∧ n.head? ≠ some '#') ∧
    ∀ c ∈ n, endsName c = false ∧ c ≠ '\n' := by
  have hall : (names.all fun n => (!n.isEmpty && n.head? ≠ some '#') &&
      n.all fun c => !endsName c && c ≠ '\n') = true := by decide +kernel
  simpa using hall

theorem keys_plain : ∀ k ∈ [specKey, stateKey, replicaKey], ∀ c ∈ k, c ≠ '=' ∧ c ≠ '\n' := by
  have hall : ([specKey, stateKey, replicaKey].all fun k =>
      k.all fun c => c ≠ '=' && c ≠ '\n') = true := by decide +kernel
  simpa using hall

theorem marks_plain : '\n' ∉ helpMark ∧ '\n' ∉ typeMark ∧ '\n' ∉ gaugeMark := by decide +kernel

theorem notMem_toDigits (n : Nat) : '\n' ∉ Nat.toDigits 10 n := fun h =>
  absurd (Nat.isDigit_of_mem_toDigits (by decide) (by decide) h) (by decide)

variable {f : Family}

theorem help_plain (h : f ∈ families texts replicas cache trackedSessions backendConnected) :
    '\n' ∉ f.help := by
  simp only [families, List.mem_cons, List.not_mem_nil, or_false] at h
  rcases h with rfl | rfl | rfl | rfl | rfl | rfl | rfl <;> dsimp only <;> decide +kernel

theorem single_plain {n : Nat} {s : List (Str × Str) × Str}
    (hs : s ∈ [(([] : List (Str × Str)), Nat.toDigits 10 n)]) :
    (∀ l ∈ s.1, l.1 ∈ [specKey, stateKey, replicaKey]) ∧ '\n' ∉ s.2 := by
  cases List.mem_singleton.mp hs
  exact ⟨fun l hl => absurd hl List.not_mem_nil, notMem_toDigits _⟩

theorem series_plain (h : f ∈ families texts replicas cache trackedSessions backendConnected)
    {s : List (Str × Str) × Str} (hs : s ∈ f.series) :
    (∀ l ∈ s.1, l.1 ∈ [specKey, stateKey, replicaKey]) ∧ '\n' ∉ s.2 := by
  simp only [families, List.mem_cons, List.not_mem_nil, or_false] at h
  rcases h with rfl | rfl | rfl | rfl | rfl | rfl | rfl
  · exact single_plain hs
  · exact single_plain hs
  · exact single_plain hs
  · obtain ⟨e, -, rfl⟩ := List.mem_map.mp hs
    exact ⟨by simp [pairLabels], notMem_toDigits _⟩
  · obtain ⟨e, -, rfl⟩ := List.mem_map.mp hs
    exact ⟨by simp, notMem_toDigits _⟩
  · obtain ⟨e, -, rfl⟩ := List.mem_map.mp hs
    exact ⟨by simp [pairLabels], texts.percent_line _⟩
  · obtain ⟨e, -, rfl⟩ := List.mem_map.mp hs
    exact ⟨by simp [pairLabels], notMem_toDigits _⟩

theorem wellFormed_lines (h : f ∈ families texts replicas cache trackedSessions backendConnected)
    {l : Line} (hl : l ∈ f.lines) : l.WellFormed := by
  have hname : f.name ∈ names := by
    rw [← @map_name_families _ _ texts replicas cache trackedSessions backendConnected]
    exact List.mem_map_of_mem h
  obtain ⟨hnamed, hchars⟩ := names_plain f.name hname
  obtain ⟨hhelp, htype, hgauge⟩ := marks_plain
  have hline : '\n' ∉ f.name := fun hmem => (hchars _ hmem).2 rfl
  rw [Family.lines, List.mem_cons, List.mem_cons, List.mem_map] at hl
  rcases hl with rfl | rfl | ⟨s, hs, rfl⟩
  · simp [Line.WellFormed, hhelp, hline, help_plain h]
  · simp [Line.WellFormed, htype, hline, hgauge]
  · obtain ⟨p, hp, rfl⟩ := List.mem_map.mp hs
    obtain ⟨hkeys, hvalue⟩ := series_plain h hp
    exact ⟨hnamed, hchars, fun l hl => keys_plain _ (hkeys l hl), hvalue⟩

theorem read_encode : read (encode texts replicas cache trackedSessions backendConnected) =
    some ((families texts replicas cache trackedSessions backendConnected).flatMap
      Family.samples) := by
  rw [encode_eq, read_write, List.filterMap_flatMap]
  · simp only [Family.filterMap_lines]
  · intro l hl
    obtain ⟨f, hf, hl⟩ := List.mem_flatMap.mp hl
    exact wellFormed_lines hf hl

/-! ### What is read -/

theorem mem_samples (h : f ∈ families texts replicas cache trackedSessions backendConnected)
    {labels : List (Str × Str)} {value : Str} :
    ⟨f.name, labels, value⟩ ∈
        (families texts replicas cache trackedSessions backendConnected).flatMap Family.samples ↔
      (labels, value) ∈ f.series := by
  have hnodup : ((families texts replicas cache trackedSessions backendConnected).map
      Family.name).Nodup := nodup_names
  rw [List.mem_flatMap]
  constructor
  · rintro ⟨g, hg, hmem⟩
    obtain ⟨s, hs, heq⟩ := List.mem_map.mp hmem
    cases (Sample.mk.injEq ..).mp heq with
    | intro hname hrest =>
      obtain ⟨rfl, rfl⟩ := hrest
      cases List.inj_on_of_nodup_map hnodup hg h hname
      exact hs
  · intro hs
    exact ⟨f, h, List.mem_map.mpr ⟨_, hs, rfl⟩⟩

theorem nodup_readings (hdistinct : Registry.Distinct replicas) :
    ((readings replicas cache).map fun p =>
      pairLabels p.1.specId replicaKey (texts.id p.1.id)).Nodup := by
  rw [List.Nodup, List.pairwise_map, readings, List.pairwise_filterMap]
  refine (List.pairwise_map.mp hdistinct).imp ?_
  intro r r' hne p hp p' hp' heq
  obtain ⟨c, -, rfl⟩ := Option.map_eq_some_iff.mp hp
  obtain ⟨c', -, rfl⟩ := Option.map_eq_some_iff.mp hp'
  have htext : texts.id r.id = texts.id r'.id := by
    simp only [pairLabels, List.cons.injEq, Prod.mk.injEq] at heq
    exact heq.2.1.2
  exact hne (texts.id_injective htext)

theorem nodup_series (hdistinct : Registry.Distinct replicas)
    (h : f ∈ families texts replicas cache trackedSessions backendConnected) :
    (f.series.map Prod.fst).Nodup := by
  simp only [families, List.mem_cons, List.not_mem_nil, or_false] at h
  rcases h with rfl | rfl | rfl | rfl | rfl | rfl | rfl
  · exact List.nodup_singleton _
  · exact List.nodup_singleton _
  · exact List.nodup_singleton _
  · rw [List.map_map]
    have hlabels : Function.Injective fun k : Str ×ₗ Str =>
        pairLabels (ofLex k).1 stateKey (ofLex k).2 := by
      intro a b hab
      simpa [pairLabels, ← Prod.ext_iff] using hab
    have hkeys := (bySpecState replicas).nodup_keys.map hlabels
    rwa [List.map_map] at hkeys
  · have hlabels : Function.Injective fun k : Str => [(specKey, k)] := fun a b hab => by
      simpa using hab
    have hkeys := (sessionsBySpec replicas).nodup_keys.map hlabels
    rwa [List.map_map] at hkeys ⊢
  · rw [List.map_map]
    exact nodup_readings hdistinct
  · rw [List.map_map]
    exact nodup_readings hdistinct

theorem nodup_samples (hdistinct : Registry.Distinct replicas) :
    (((families texts replicas cache trackedSessions backendConnected).flatMap
      Family.samples).map fun s => (s.name, s.labels)).Nodup := by
  rw [List.map_flatMap, List.nodup_flatMap]
  constructor
  · intro f hf
    have hlabels : Function.Injective fun labels : List (Str × Str) => (f.name, labels) :=
      fun a b hab => (Prod.mk.inj hab).2
    have hseries := (nodup_series hdistinct hf).map hlabels
    rw [List.map_map] at hseries
    rwa [Family.samples, List.map_map]
  · have hnames : ((families texts replicas cache trackedSessions backendConnected).map
        Family.name).Nodup := nodup_names
    refine (List.pairwise_map.mp hnames).imp ?_
    intro f g hne s hs hs'
    obtain ⟨a, ha, rfl⟩ := List.mem_map.mp hs
    obtain ⟨b, hb, heq⟩ := List.mem_map.mp hs'
    obtain ⟨a, -, rfl⟩ := List.mem_map.mp ha
    obtain ⟨b, -, rfl⟩ := List.mem_map.mp hb
    exact hne (Prod.mk.inj heq).1.symm

theorem stateLabel_injective : Function.Injective stateLabel := by
  intro a b hab
  cases a <;> cases b <;> first | rfl | exact absurd hab (by decide +kernel)

variable (texts replicas cache) (trackedSessions backendConnected)

/-- What a scraper makes of the samples it has read. -/
structure Scraped (samples : List Sample) : Prop where
  distinct : (samples.map fun s => (s.name, s.labels)).Nodup
  up : ∀ v, ⟨Metrics.up, [], v⟩ ∈ samples ↔ v = Nat.toDigits 10 backendConnected.toNat
  total : ∀ v, ⟨replicasTotal, [], v⟩ ∈ samples ↔ v = Nat.toDigits 10 replicas.length
  tracked : ∀ v, ⟨sessionsTracked, [], v⟩ ∈ samples ↔ v = Nat.toDigits 10 trackedSessions
  states : ∀ spec st v,
    ⟨replicasGauge, [(specKey, spec), (stateKey, stateLabel st)], v⟩ ∈ samples ↔
      (∃ r ∈ replicas, r.specId = spec ∧ r.state = st) ∧ v = Nat.toDigits 10
        ((replicas.filter fun r => r.specId = spec ∧ r.state = st).length % 2 ^ 32)
  sessions : ∀ spec v, ⟨sessionsActive, [(specKey, spec)], v⟩ ∈ samples ↔
    (∃ r ∈ replicas, r.specId = spec) ∧ v = Nat.toDigits 10
      (((replicas.replicasOf spec).map Replica.sessionsActive).sum % 2 ^ 32)
  cpu : ∀ spec id v,
    ⟨cpuPercent, [(specKey, spec), (replicaKey, texts.id id)], v⟩ ∈ samples ↔
      ∃ r ∈ replicas, r.specId = spec ∧ r.id = id ∧
        ∃ c, cache id = some c ∧ v = texts.percent c.metrics.cpuPercent
  memory : ∀ spec id v,
    ⟨memoryBytes, [(specKey, spec), (replicaKey, texts.id id)], v⟩ ∈ samples ↔
      ∃ r ∈ replicas, r.specId = spec ∧ r.id = id ∧
        ∃ c, cache id = some c ∧ v = Nat.toDigits 10 c.metrics.memoryBytes

variable {texts replicas cache trackedSessions backendConnected}

theorem mem_readings (value : CachedMetrics φ → Str) {spec : Str} {id : ι} {v : Str} :
    (pairLabels spec replicaKey (texts.id id), v) ∈ (readings replicas cache).map (fun p =>
        (pairLabels p.1.specId replicaKey (texts.id p.1.id), value p.2)) ↔
      ∃ r ∈ replicas, r.specId = spec ∧ r.id = id ∧ ∃ c, cache id = some c ∧ v = value c := by
  rw [List.mem_map]
  constructor
  · rintro ⟨p, hp, heq⟩
    obtain ⟨r, hr, hp⟩ := List.mem_filterMap.mp hp
    obtain ⟨c, hc, rfl⟩ := Option.map_eq_some_iff.mp hp
    simp only [pairLabels, Prod.mk.injEq, List.cons.injEq, true_and, and_true] at heq
    obtain ⟨⟨hspec, htext⟩, hvalue⟩ := heq
    have hid := texts.id_injective htext
    exact ⟨r, hr, hspec, hid, c, hid ▸ hc, hvalue.symm⟩
  · rintro ⟨r, hr, rfl, rfl, c, hc, rfl⟩
    exact ⟨(r, c), List.mem_filterMap.mpr ⟨r, hr, by rw [hc]; rfl⟩, rfl⟩

theorem mem_stateSeries {spec : Str} {st : ReplicaState} {v : Str} :
    (pairLabels spec stateKey (stateLabel st), v) ∈ (bySpecState replicas).entries.map (fun e =>
        (pairLabels (ofLex e.1).1 stateKey (ofLex e.1).2, Nat.toDigits 10 e.2)) ↔
      (∃ r ∈ replicas, r.specId = spec ∧ r.state = st) ∧ v = Nat.toDigits 10
        ((replicas.filter fun r => r.specId = spec ∧ r.state = st).length % 2 ^ 32) := by
  have hmem := @mem_bySpecState _ replicas spec (stateLabel st)
  simp only [stateLabel_injective.eq_iff] at hmem
  rw [List.mem_map]
  constructor
  · rintro ⟨⟨k, n⟩, he, heq⟩
    simp only [pairLabels, Prod.mk.injEq, List.cons.injEq, true_and, and_true] at heq
    obtain ⟨⟨hspec, hstate⟩, rfl⟩ := heq
    have hkey : k = toLex (spec, stateLabel st) := Prod.ext hspec hstate
    rw [hkey, hmem] at he
    exact ⟨he.1, by rw [he.2]⟩
  · rintro ⟨hany, rfl⟩
    exact ⟨_, hmem.mpr ⟨hany, rfl⟩, rfl⟩

theorem mem_specSeries {spec v : Str} :
    ([(specKey, spec)], v) ∈ (sessionsBySpec replicas).entries.map (fun e =>
        ([(specKey, e.1)], Nat.toDigits 10 e.2)) ↔
      (∃ r ∈ replicas, r.specId = spec) ∧ v = Nat.toDigits 10
        (((replicas.replicasOf spec).map Replica.sessionsActive).sum % 2 ^ 32) := by
  rw [List.mem_map]
  constructor
  · rintro ⟨⟨k, n⟩, he, heq⟩
    simp only [Prod.mk.injEq, List.cons.injEq, true_and, and_true] at heq
    obtain ⟨rfl, rfl⟩ := heq
    obtain ⟨hany, hn⟩ := mem_sessionsBySpec.mp he
    exact ⟨hany, by rw [hn]⟩
  · rintro ⟨hany, rfl⟩
    exact ⟨_, mem_sessionsBySpec.mpr ⟨hany, rfl⟩, rfl⟩

theorem scraped_samples (hdistinct : Registry.Distinct replicas) :
    Scraped texts replicas cache trackedSessions backendConnected
      ((families texts replicas cache trackedSessions backendConnected).flatMap
        Family.samples) where
  distinct := nodup_samples hdistinct
  up v := (mem_samples (List.getElem_mem (show 0 < 7 by decide))).trans (by simp [families])
  total v := (mem_samples (List.getElem_mem (show 1 < 7 by decide))).trans (by simp [families])
  tracked v := (mem_samples (List.getElem_mem (show 2 < 7 by decide))).trans (by simp [families])
  states spec st v := (mem_samples (List.getElem_mem (show 3 < 7 by decide))).trans mem_stateSeries
  sessions spec v := (mem_samples (List.getElem_mem (show 4 < 7 by decide))).trans mem_specSeries
  cpu spec id v := (mem_samples (List.getElem_mem (show 5 < 7 by decide))).trans
    (mem_readings fun c => texts.percent c.metrics.cpuPercent)
  memory spec id v := (mem_samples (List.getElem_mem (show 6 < 7 by decide))).trans
    (mem_readings fun c => Nat.toDigits 10 c.metrics.memoryBytes)

end Samples

/-! A spec whose id ends its own sample and starts another one. -/

def digitTexts : Texts Nat Nat where
  id := Nat.toDigits 10
  percent := Nat.toDigits 10
  id_injective m n h := by
    have hparse := congrArg Numerals.parseNat h
    rwa [Numerals.parseNat_toDigits, Numerals.parseNat_toDigits, Option.some.injEq] at hparse
  id_plain n c hc := by
    have hdigit := Nat.isDigit_of_mem_toDigits (by decide) (by decide) hc
    refine ⟨?_, ?_, ?_⟩ <;> rintro rfl <;> exact absurd hdigit (by decide)
  percent_line := notMem_toDigits

def forgedSpec : Str := "a\"\x7d 9\nruscker_up 0".toList

def forgedRegistry : Registry Nat :=
  [⟨1, forgedSpec, .ready, 0, 2, 5⟩, ⟨2, "api".toList, .starting, 0, 0, 5⟩,
    ⟨3, forgedSpec, .draining, 0, 3, 5⟩]

end Ruscker.Routes.Metrics
