import Ruscker.Lib.Machine
import Ruscker.Text

/-!
# The metrics cache

One task refreshes what the dashboard shows of every replica.  It takes the ids from the
registry, asks the backend for all of them with a few calls at a time, and then drops what the
registry no longer had and appends the new samples one by one.  Containers come and go
meanwhile, and the liveness pass forgets a replica whenever it likes.
-/

namespace Ruscker.Admin.MetricsCache

open Machines Function

def historyLen : Nat := 360

theorem historyLen_pos : 0 < historyLen := by decide

-- A length is compared with it, never unfolded to it.
attribute [irreducible] historyLen

def maxConcurrentStats : Nat := 8

/-- A reading of the backend; `φ` is the type of its percentages. -/
structure ReplicaMetrics (φ : Type) where
  cpuPercent : φ
  memoryBytes : Nat
  networkRxBytes : Nat
  networkTxBytes : Nat
  deriving DecidableEq

structure CachedMetrics (φ : Type) where
  metrics : ReplicaMetrics φ
  observedAt : Nat
  cpuHistory : List φ
  memHistory : List Nat
  deriving DecidableEq

/-- The last `n` items, oldest first. -/
def tail {α : Type*} (n : Nat) (l : List α) : List α := l.drop (l.length - n)

section Tail

variable {α : Type*} {n : Nat} {l : List α}

@[simp] theorem tail_nil : tail n ([] : List α) = [] := List.drop_nil

theorem tail_suffix : tail n l <:+ l := List.drop_suffix _ _

/-- Cutting before an append does not show in what is left after it. -/
theorem tail_tail_append (m : List α) : tail n (tail n l ++ m) = tail n (l ++ m) := by
  have hsplit : tail n l ++ m = (l ++ m).drop (l.length - n) := by
    rw [tail, List.drop_append_of_le_length (Nat.sub_le _ _)]
  rw [hsplit, tail, tail, List.drop_drop, List.length_drop, List.length_append]
  congr 1
  omega

theorem tail_concat (hn : 0 < n) (a : α) :
    ∃ m, tail n (l ++ [a]) = m ++ [a] ∧ m.length < n := by
  have hdrop : (l ++ [a]).length - n ≤ l.length := by
    rw [List.length_append, List.length_singleton]
    omega
  refine ⟨l.drop ((l ++ [a]).length - n), List.drop_append_of_le_length hdrop, ?_⟩
  rw [List.length_drop, List.length_append, List.length_singleton]
  omega

end Tail

section Model

variable {ι φ : Type} [DecidableEq ι]

abbrev Cache (ι φ : Type) : Type := ι → Option (CachedMetrics φ)

def remove (cache : Cache ι φ) (id : ι) : Cache ι φ := update cache id none

def retain (cache : Cache ι φ) (kept : List ι) : Cache ι φ :=
  fun id => if id ∈ kept then cache id else none

/-- The prior histories, empty without an entry. -/
def histories (cache : Cache ι φ) (id : ι) : List φ × List Nat :=
  (cache id).elim ([], []) fun e => (e.cpuHistory, e.memHistory)

/-- The new entry: the carried histories with this sample, both cut by the length of the first. -/
def append (carried : List φ × List Nat) (m : ReplicaMetrics φ) (now : Nat) : CachedMetrics φ :=
  let cpuHistory := carried.1 ++ [m.cpuPercent]
  let memHistory := carried.2 ++ [m.memoryBytes]
  let drop := cpuHistory.length - historyLen
  ⟨m, now, cpuHistory.drop drop, memHistory.drop drop⟩

/-! ## The refresher and its surroundings -/

/-- Where the refresher stands; an answer is missing where the call failed. -/
inductive Phase (ι φ : Type) where
  | idle
  | sampling (waiting running : List (ι × Str)) (results : List (ι × Option (ReplicaMetrics φ)))
  /-- the samples not yet written, and the histories read for the first of them -/
  | writing (now : Nat) (fresh : List (ι × ReplicaMetrics φ))
      (carried : Option (List φ × List Nat))

structure System (ι φ : Type) where
  /-- the ids of the replicas and of their containers -/
  registry : List (ι × Str)
  cache : Cache ι φ
  phase : Phase ι φ
  now : Nat
  /-- every sample that has been written for a replica, oldest first -/
  written : ι → List (ReplicaMetrics φ)

inductive Event (ι φ : Type) where
  | tick
  | add (id : ι) (containerId : Str)
  | drop (id : ι)
  /-- the liveness pass forgets a replica -/
  | forget (id : ι)
  | snapshot
  | call
  | answer (i : Nat) (result : Option (ReplicaMetrics φ))
  | keep
  | read
  | insert
  | finish

def fresh (results : List (ι × Option (ReplicaMetrics φ))) : List (ι × ReplicaMetrics φ) :=
  results.filterMap fun r => r.2.map (r.1, ·)

variable (s : System ι φ)

def snapshot : Option (System ι φ) :=
  match s.phase with
  | .idle =>
    if s.registry.isEmpty then some { s with cache := retain s.cache [] }
    else some { s with phase := .sampling s.registry [] [] }
  | _ => none

def call : Option (System ι φ) :=
  match s.phase with
  | .sampling (target :: waiting) running results =>
    if running.length < maxConcurrentStats then
      some { s with phase := .sampling waiting (running ++ [target]) results }
    else none
  | _ => none

/-- The calls end in any order. -/
def answer (i : Nat) (result : Option (ReplicaMetrics φ)) : Option (System ι φ) :=
  match s.phase with
  | .sampling waiting running results =>
    running[i]?.map fun target =>
      { s with phase := .sampling waiting (running.eraseIdx i) (results ++ [(target.1, result)]) }
  | _ => none

/-- `replace_keeping` up to its loop: sampled or not, what was in the registry is kept. -/
def keep : Option (System ι φ) :=
  match s.phase with
  | .sampling [] [] results =>
    some { s with
      cache := retain s.cache (results.map Prod.fst)
      phase := .writing s.now (fresh results) none }
  | _ => none

def read : Option (System ι φ) :=
  match s.phase with
  | .writing now ((id, m) :: fresh) none =>
    some { s with phase := .writing now ((id, m) :: fresh) (some (histories s.cache id)) }
  | _ => none

def insert : Option (System ι φ) :=
  match s.phase with
  | .writing now ((id, m) :: fresh) (some carried) =>
    some { s with
      cache := update s.cache id (some (append carried m now))
      phase := .writing now fresh none
      written := update s.written id (s.written id ++ [m]) }
  | _ => none

def finish : Option (System ι φ) :=
  match s.phase with
  | .writing _ [] _ => some { s with phase := .idle }
  | _ => none

def step : Event ι φ → Option (System ι φ)
  | .tick => some { s with now := s.now + 1 }
  | .add id containerId => some { s with registry := s.registry ++ [(id, containerId)] }
  | .drop id => some { s with registry := s.registry.filter fun r => r.1 ≠ id }
  | .forget id => some { s with cache := remove s.cache id }
  | .snapshot => snapshot s
  | .call => call s
  | .answer i result => answer s i result
  | .keep => keep s
  | .read => read s
  | .insert => insert s
  | .finish => finish s

def machine : Machine (System ι φ) (Event ι φ) := ⟨step⟩

def initial : System ι φ := ⟨[], fun _ => none, .idle, 0, fun _ => []⟩

/-! ### What the refresher can do -/

section Moves

variable {s} {s' : System ι φ} {target : ι × Str} {i : Nat} {result : Option (ReplicaMetrics φ)}

theorem snapshot_eq_some (h : snapshot s = some s') :
    s.phase = .idle ∧
      (s.registry = [] ∧ s' = { s with cache := retain s.cache [] } ∨
        s' = { s with phase := .sampling s.registry [] [] }) := by
  unfold snapshot at h
  split at h
  · next hphase =>
    split at h
    · next hempty =>
      cases h
      exact ⟨hphase, .inl ⟨List.isEmpty_iff.mp hempty, rfl⟩⟩
    · cases h
      exact ⟨hphase, .inr rfl⟩
  · cases h

omit [DecidableEq ι] in
theorem call_eq_some (h : call s = some s') :
    ∃ target waiting running results, s.phase = .sampling (target :: waiting) running results ∧
      running.length < maxConcurrentStats ∧
      s' = { s with phase := .sampling waiting (running ++ [target]) results } := by
  unfold call at h
  split at h
  · next target waiting running results hphase =>
    split at h
    · next hfree =>
      cases h
      exact ⟨target, waiting, running, results, hphase, hfree, rfl⟩
    · cases h
  · cases h

omit [DecidableEq ι] in
theorem answer_eq_some (h : answer s i result = some s') :
    ∃ waiting running results target, s.phase = .sampling waiting running results ∧
      running[i]? = some target ∧
      s' = { s with
        phase := .sampling waiting (running.eraseIdx i) (results ++ [(target.1, result)]) } := by
  unfold answer at h
  split at h
  · next waiting running results hphase =>
    obtain ⟨target, htarget, rfl⟩ := Option.map_eq_some_iff.mp h
    exact ⟨waiting, running, results, target, hphase, htarget, rfl⟩
  · cases h

theorem keep_eq_some (h : keep s = some s') :
    ∃ results, s.phase = .sampling [] [] results ∧
      s' = { s with
        cache := retain s.cache (results.map Prod.fst)
        phase := .writing s.now (fresh results) none } := by
  unfold keep at h
  split at h
  · next results hphase =>
    cases h
    exact ⟨results, hphase, rfl⟩
  · cases h

omit [DecidableEq ι] in
theorem read_eq_some (h : read s = some s') :
    ∃ now id m fresh, s.phase = .writing now ((id, m) :: fresh) none ∧
      s' = { s with phase := .writing now ((id, m) :: fresh) (some (histories s.cache id)) } := by
  unfold read at h
  split at h
  · next now id m fresh hphase =>
    cases h
    exact ⟨now, id, m, fresh, hphase, rfl⟩
  · cases h

theorem insert_eq_some (h : insert s = some s') :
    ∃ now id m fresh carried, s.phase = .writing now ((id, m) :: fresh) (some carried) ∧
      s' = { s with
        cache := update s.cache id (some (append carried m now))
        phase := .writing now fresh none
        written := update s.written id (s.written id ++ [m]) } := by
  unfold insert at h
  split at h
  · next now id m fresh carried hphase =>
    cases h
    exact ⟨now, id, m, fresh, carried, hphase, rfl⟩
  · cases h

omit [DecidableEq ι] in
theorem finish_eq_some (h : finish s = some s') :
    ∃ now carried, s.phase = .writing now [] carried ∧ s' = { s with phase := .idle } := by
  unfold finish at h
  split at h
  · next now carried hphase =>
    cases h
    exact ⟨now, carried, hphase, rfl⟩
  · cases h

end Moves

/-! ## What an entry shows -/

/-- An entry shows a stretch of samples, at most the length of a history, that ends with the
newest one written; its two histories are of these samples. -/
structure Reports (written : List (ReplicaMetrics φ)) (e : CachedMetrics φ)
    (l : List (ReplicaMetrics φ)) : Prop where
  newest : l ++ [e.metrics] <:+ written
  short : l.length < historyLen
  cpu : e.cpuHistory = (l ++ [e.metrics]).map ReplicaMetrics.cpuPercent
  mem : e.memHistory = (l ++ [e.metrics]).map ReplicaMetrics.memoryBytes

/-- The two histories of a list of samples. -/
def pair (l : List (ReplicaMetrics φ)) : List φ × List Nat :=
  (l.map ReplicaMetrics.cpuPercent, l.map ReplicaMetrics.memoryBytes)

theorem append_pair (l : List (ReplicaMetrics φ)) (m : ReplicaMetrics φ) (now : Nat) :
    append (pair l) m now =
      ⟨m, now, (pair (tail historyLen (l ++ [m]))).1, (pair (tail historyLen (l ++ [m]))).2⟩ := by
  simp [append, pair, tail, List.map_drop]

theorem reports_append {written l : List (ReplicaMetrics φ)} (hl : l <:+ written)
    (m : ReplicaMetrics φ) (now : Nat) :
    ∃ l', Reports (written ++ [m]) (append (pair l) m now) l' := by
  obtain ⟨l', htail, hshort⟩ := tail_concat (l := l) historyLen_pos m
  obtain ⟨k, hk⟩ := hl
  have hsuffix : l' ++ [m] <:+ written ++ [m] := by
    rw [← htail, ← hk, List.append_assoc]
    exact tail_suffix.trans (List.suffix_append k _)
  rw [append_pair, htail]
  exact ⟨l', hsuffix, hshort, rfl, rfl⟩

/-- Histories are carried from the cache to the next entry; a replica may be forgotten between. -/
structure Sound (s : System ι φ) : Prop where
  entries : ∀ id e, s.cache id = some e → ∃ l, Reports (s.written id) e l
  carried : ∀ now id m fresh c, s.phase = .writing now ((id, m) :: fresh) (some c) →
    ∃ l, l <:+ s.written id ∧ c = pair l

omit [DecidableEq ι] in
theorem sound_initial : Sound (initial : System ι φ) where
  entries _ _ h := by cases h
  carried _ _ _ _ _ h := by cases h

section Steps

variable {s} {s' : System ι φ} {e : Event ι φ}

omit [DecidableEq ι] in
/-- Only dropped entries and a phase without carried histories. -/
theorem Sound.frame (h : Sound s)
    (hcache : ∀ id e, s'.cache id = some e → s.cache id = some e)
    (hwritten : s'.written = s.written)
    (hphase : ∀ now id m fresh c, s'.phase = .writing now ((id, m) :: fresh) (some c) →
      s.phase = .writing now ((id, m) :: fresh) (some c)) : Sound s' where
  entries id e he := by
    rw [hwritten]
    exact h.entries id e (hcache id e he)
  carried now id m fresh c hc := by
    rw [hwritten]
    exact h.carried now id m fresh c (hphase now id m fresh c hc)

omit [DecidableEq ι] in
theorem pair_histories {written : List (ReplicaMetrics φ)} {cache : Cache ι φ} {id : ι}
    (h : ∀ e, cache id = some e → ∃ l, Reports written e l) :
    ∃ l, l <:+ written ∧ histories cache id = pair l := by
  unfold histories
  cases hentry : cache id with
  | none => exact ⟨[], List.nil_suffix, rfl⟩
  | some e =>
    obtain ⟨l, hl⟩ := h e hentry
    exact ⟨l ++ [e.metrics], hl.newest, by rw [Option.elim_some, hl.cpu, hl.mem, pair]⟩

theorem retain_eq_some {cache : Cache ι φ} {kept : List ι} {id : ι} {e : CachedMetrics φ}
    (h : retain cache kept id = some e) : id ∈ kept ∧ cache id = some e := by
  unfold retain at h
  split at h
  · next hkept => exact ⟨hkept, h⟩
  · cases h

theorem sound_insert (h : Sound s) {now : Nat} {id : ι} {m : ReplicaMetrics φ}
    {fresh : List (ι × ReplicaMetrics φ)} {c : List φ × List Nat}
    (hphase : s.phase = .writing now ((id, m) :: fresh) (some c)) :
    Sound { s with
      cache := update s.cache id (some (append c m now))
      phase := .writing now fresh none
      written := update s.written id (s.written id ++ [m]) } where
  entries j e he := by
    dsimp only at he ⊢
    by_cases hj : j = id
    · subst hj
      rw [update_self] at he ⊢
      cases he
      obtain ⟨l, hl, rfl⟩ := h.carried now j m fresh c hphase
      exact reports_append hl m now
    · rw [update_of_ne hj] at he ⊢
      exact h.entries j e he
  carried _ _ _ _ _ hc := by cases hc

theorem sound_step (h : Sound s) (hstep : step s e = some s') : Sound s' := by
  cases e with
  | tick =>
    cases hstep
    exact h.frame (fun _ _ he => he) rfl fun _ _ _ _ _ hc => hc
  | add id containerId =>
    cases hstep
    exact h.frame (fun _ _ he => he) rfl fun _ _ _ _ _ hc => hc
  | drop id =>
    cases hstep
    exact h.frame (fun _ _ he => he) rfl fun _ _ _ _ _ hc => hc
  | forget id =>
    cases hstep
    refine h.frame (fun j e he => ?_) rfl fun _ _ _ _ _ hc => hc
    by_cases hj : j = id
    · subst hj
      simp [remove] at he
    · simpa [remove, update_of_ne hj] using he
  | snapshot =>
    obtain ⟨hphase, ⟨-, rfl⟩ | rfl⟩ := snapshot_eq_some hstep
    · refine h.frame (fun id e he => ?_) rfl fun _ _ _ _ _ hc => hc
      dsimp only at he
      exact (retain_eq_some he).2
    · exact h.frame (fun _ _ he => he) rfl fun _ _ _ _ _ hc => by cases hc
  | call =>
    obtain ⟨_, _, _, _, -, -, rfl⟩ := call_eq_some hstep
    exact h.frame (fun _ _ he => he) rfl fun _ _ _ _ _ hc => by cases hc
  | answer i result =>
    obtain ⟨_, _, _, _, -, -, rfl⟩ := answer_eq_some hstep
    exact h.frame (fun _ _ he => he) rfl fun _ _ _ _ _ hc => by cases hc
  | keep =>
    obtain ⟨_, -, rfl⟩ := keep_eq_some hstep
    exact h.frame (fun _ _ he => by exact (retain_eq_some he).2) rfl
      fun _ _ _ _ _ hc => by simp at hc
  | read =>
    obtain ⟨now, id, m, fresh, -, rfl⟩ := read_eq_some hstep
    refine ⟨h.entries, fun _ _ _ _ _ hc => ?_⟩
    cases hc
    exact pair_histories (h.entries id)
  | insert =>
    obtain ⟨now, id, m, fresh, c, hphase, rfl⟩ := insert_eq_some hstep
    exact sound_insert h hphase
  | finish =>
    obtain ⟨_, _, -, rfl⟩ := finish_eq_some hstep
    exact h.frame (fun _ _ he => he) rfl fun _ _ _ _ _ hc => by cases hc

end Steps

/-! ## Nothing is lost -/

/-- What the guard asks for a replica: it is not forgotten, and from its first sample on it is in
the registry whenever a refresh begins. -/
def Watched (id : ι) (s : System ι φ) : Event ι φ → Prop
  | .forget j => j ≠ id
  | .snapshot => s.written id = [] ∨ id ∈ s.registry.map Prod.fst
  | _ => True

instance (id : ι) (s : System ι φ) [DecidableEq φ] (e : Event ι φ) : Decidable (Watched id s e) := by
  unfold Watched
  split <;> infer_instance

/-- The targets of a refresh that is still sampling. -/
def Phase.targets : Phase ι φ → Option (List ι)
  | .sampling waiting running results =>
    some (waiting.map Prod.fst ++ running.map Prod.fst ++ results.map Prod.fst)
  | _ => none

/-- The histories of a replica are those of all its samples, cut to their length. -/
structure Whole (id : ι) (s : System ι φ) : Prop where
  whole : histories s.cache id = pair (tail historyLen (s.written id))
  target : ∀ ids, s.phase.targets = some ids → s.written id = [] ∨ id ∈ ids
  carried : ∀ now m fresh c, s.phase = .writing now ((id, m) :: fresh) (some c) →
    c = pair (tail historyLen (s.written id))

section Steps

variable {s} {s' : System ι φ} {e : Event ι φ} {id : ι}

omit [DecidableEq ι] in
theorem whole_initial : Whole id (initial : System ι φ) where
  whole := by simp [initial, histories, pair]
  target _ h := by cases h
  carried _ _ _ _ h := by cases h

theorem histories_retain {cache : Cache ι φ} {kept : List ι} {written : List (ReplicaMetrics φ)}
    (h : histories cache id = pair (tail historyLen written)) (hkept : written = [] ∨ id ∈ kept) :
    histories (retain cache kept) id = pair (tail historyLen written) := by
  by_cases hid : id ∈ kept
  · rw [← h, histories, histories, retain, if_pos hid]
  · obtain rfl := hkept.resolve_right hid
    rw [histories, retain, if_neg hid, tail_nil]
    rfl

theorem whole_insert (h : Whole id s) {now : Nat} {j : ι} {m : ReplicaMetrics φ}
    {fresh : List (ι × ReplicaMetrics φ)} {c : List φ × List Nat}
    (hphase : s.phase = .writing now ((j, m) :: fresh) (some c)) :
    Whole id { s with
      cache := update s.cache j (some (append c m now))
      phase := .writing now fresh none
      written := update s.written j (s.written j ++ [m]) } where
  whole := by
    dsimp only
    by_cases hj : id = j
    · subst hj
      rw [update_self, histories, update_self, h.carried now m fresh c hphase, append_pair,
        tail_tail_append]
      rfl
    · rw [update_of_ne hj, histories, update_of_ne hj]
      exact h.whole
  target _ hids := by cases hids
  carried _ _ _ _ hc := by cases hc

theorem whole_step (h : Whole id s) (hok : Watched id s e) (hstep : step s e = some s') :
    Whole id s' := by
  cases e with
  | tick =>
    cases hstep
    exact ⟨h.whole, h.target, h.carried⟩
  | add j containerId =>
    cases hstep
    exact ⟨h.whole, h.target, h.carried⟩
  | drop j =>
    cases hstep
    exact ⟨h.whole, h.target, h.carried⟩
  | forget j =>
    cases hstep
    refine ⟨?_, h.target, h.carried⟩
    have hj : id ≠ j := Ne.symm hok
    dsimp only
    rw [← h.whole, histories, histories, remove, update_of_ne hj]
  | snapshot =>
    obtain ⟨hphase, ⟨hempty, rfl⟩ | rfl⟩ := snapshot_eq_some hstep
    · have hnone : s.written id = [] ∨ id ∈ ([] : List ι) := by
        simpa [Watched, hempty] using hok
      refine ⟨?_, h.target, h.carried⟩
      dsimp only
      exact histories_retain h.whole hnone
    · refine ⟨h.whole, fun ids hids => ?_, nofun⟩
      cases hids
      simpa [Watched] using hok
  | call =>
    obtain ⟨target, waiting, running, results, hphase, -, rfl⟩ := call_eq_some hstep
    refine ⟨h.whole, fun ids hids => ?_, nofun⟩
    cases hids
    refine (h.target _ (by rw [hphase]; rfl)).imp_right fun hmem => ?_
    simp only [List.map_cons, List.mem_append, List.mem_cons, List.map_append] at hmem ⊢
    tauto
  | answer i result =>
    obtain ⟨waiting, running, results, target, hphase, hi, rfl⟩ := answer_eq_some hstep
    refine ⟨h.whole, fun ids hids => ?_, nofun⟩
    cases hids
    refine (h.target _ (by rw [hphase]; rfl)).imp_right fun hmem => ?_
    simp only [List.mem_append, List.map_append, List.map_cons, List.map_nil,
      List.mem_singleton] at hmem ⊢
    rcases hmem with (hwaiting | hrunning) | hresult
    · exact .inl (.inl hwaiting)
    · obtain ⟨t, ht, rfl⟩ := List.mem_map.mp hrunning
      by_cases heq : t = target
      · exact .inr (.inr (congrArg Prod.fst heq))
      · exact .inl (.inr (List.mem_map_of_mem (mem_eraseIdx_of_ne hi ht heq)))
    · exact .inr (.inl hresult)
  | keep =>
    obtain ⟨results, hphase, rfl⟩ := keep_eq_some hstep
    have htarget := h.target _ (by rw [hphase]; rfl)
    refine ⟨histories_retain h.whole (by simpa using htarget), nofun, fun _ _ _ _ hc => ?_⟩
    simp at hc
  | read =>
    obtain ⟨now, j, m, fresh, -, rfl⟩ := read_eq_some hstep
    refine ⟨h.whole, nofun, fun _ _ _ _ hc => ?_⟩
    cases hc
    exact h.whole
  | insert =>
    obtain ⟨now, j, m, fresh, c, hphase, rfl⟩ := insert_eq_some hstep
    exact whole_insert h hphase
  | finish =>
    obtain ⟨_, _, -, rfl⟩ := finish_eq_some hstep
    exact ⟨h.whole, nofun, nofun⟩

end Steps

/-- **What a history shows.** Whatever calls fail and whenever a replica is forgotten, its two
histories are of the same last samples, and its metrics are the newest one; a replica that is
watched has lost none of the last samples. -/
theorem history_shows (id : ι) {es : List (Event ι φ)} {s : System ι φ}
    (h : machine.exec initial es = some s) :
    (∀ e, s.cache id = some e → ∃ l, Reports (s.written id) e l) ∧
    (machine.Run (Watched id) initial es s →
      histories s.cache id = pair (tail historyLen (s.written id))) := by
  have hrun : machine.Run Machine.Free initial es s := Machine.run_free_iff.mpr h
  refine ⟨?_, fun hwatched => ?_⟩
  · exact (hrun.invariant sound_initial fun _ _ _ hs _ hstep => sound_step hs hstep).entries id
  · exact (hwatched.invariant whole_initial fun _ _ _ hs hok hstep =>
      whole_step hs hok hstep).whole

/-! ## Nothing stays -/

/-- Nobody registers the replica again. -/
def Gone (id : ι) (_ : System ι φ) (e : Event ι φ) : Prop := ∀ containerId, e ≠ .add id containerId

/-- A replica that is in no registry is not asked for, and its entry goes with the refresh. -/
structure Leaving (id : ι) (s : System ι φ) : Prop where
  registry : id ∉ s.registry.map Prod.fst
  target : ∀ ids, s.phase.targets = some ids → id ∉ ids
  fresh : ∀ now l c, s.phase = .writing now l c → id ∉ l.map Prod.fst
  entry : s.phase.targets = none → s.cache id = none

section Steps

variable {s} {s' : System ι φ} {e : Event ι φ} {id : ι}

theorem retain_of_notMem {cache : Cache ι φ} {kept : List ι} (h : id ∉ kept) :
    retain cache kept id = none := if_neg h

omit [DecidableEq ι] in
theorem mem_of_mem_fresh {results : List (ι × Option (ReplicaMetrics φ))}
    (h : id ∈ (fresh results).map Prod.fst) : id ∈ results.map Prod.fst := by
  obtain ⟨p, hp, rfl⟩ := List.mem_map.mp h
  obtain ⟨r, hr, hsome⟩ := List.mem_filterMap.mp hp
  obtain ⟨m, -, rfl⟩ := Option.map_eq_some_iff.mp hsome
  exact List.mem_map_of_mem hr

theorem leaving_step (h : Leaving id s) (hok : Gone id s e) (hstep : step s e = some s') :
    Leaving id s' := by
  cases e with
  | tick =>
    cases hstep
    exact ⟨h.registry, h.target, h.fresh, h.entry⟩
  | add j containerId =>
    cases hstep
    refine ⟨?_, h.target, h.fresh, h.entry⟩
    have hj : id ≠ j := fun heq => hok containerId (by rw [heq])
    have hold := h.registry
    simp only [List.map_append, List.map_cons, List.map_nil, List.mem_append, List.mem_singleton,
      not_or]
    exact ⟨hold, hj⟩
  | drop j =>
    cases hstep
    refine ⟨fun hmem => h.registry ?_, h.target, h.fresh, h.entry⟩
    obtain ⟨r, hr, rfl⟩ := List.mem_map.mp hmem
    exact List.mem_map_of_mem (List.mem_of_mem_filter hr)
  | forget j =>
    cases hstep
    refine ⟨h.registry, h.target, h.fresh, fun hidle => ?_⟩
    dsimp only
    by_cases hj : id = j
    · rw [hj, remove, update_self]
    · rw [remove, update_of_ne hj]
      exact h.entry hidle
  | snapshot =>
    obtain ⟨hphase, ⟨hempty, rfl⟩ | rfl⟩ := snapshot_eq_some hstep
    · refine ⟨h.registry, h.target, h.fresh, fun _ => ?_⟩
      dsimp only
      exact retain_of_notMem List.not_mem_nil
    · refine ⟨h.registry, fun ids hids => ?_, nofun, nofun⟩
      cases hids
      simpa using h.registry
  | call =>
    obtain ⟨target, waiting, running, results, hphase, -, rfl⟩ := call_eq_some hstep
    refine ⟨h.registry, fun ids hids hmem => h.target _ (by rw [hphase]; rfl) ?_, nofun, nofun⟩
    cases hids
    simp only [List.map_cons, List.mem_append, List.mem_cons, List.map_append, List.map_nil,
      List.not_mem_nil, or_false] at hmem ⊢
    tauto
  | answer i result =>
    obtain ⟨waiting, running, results, target, hphase, hi, rfl⟩ := answer_eq_some hstep
    refine ⟨h.registry, fun ids hids hmem => h.target _ (by rw [hphase]; rfl) ?_, nofun, nofun⟩
    cases hids
    simp only [List.mem_append, List.map_append, List.map_cons, List.map_nil,
      List.mem_singleton] at hmem ⊢
    rcases hmem with (hwaiting | hrunning) | hresult | rfl
    · exact .inl (.inl hwaiting)
    · obtain ⟨t, ht, rfl⟩ := List.mem_map.mp hrunning
      exact .inl (.inr (List.mem_map_of_mem (List.mem_of_mem_eraseIdx ht)))
    · exact .inr hresult
    · exact .inl (.inr (List.mem_map_of_mem (List.mem_of_getElem? hi)))
  | keep =>
    obtain ⟨results, hphase, rfl⟩ := keep_eq_some hstep
    have hnot := h.target _ (by rw [hphase]; rfl)
    rw [List.map_nil, List.nil_append, List.nil_append] at hnot
    refine ⟨h.registry, nofun, fun _ _ _ hl hmem => ?_, fun _ => retain_of_notMem hnot⟩
    cases hl
    exact hnot (mem_of_mem_fresh hmem)
  | read =>
    obtain ⟨now, j, m, fresh, hphase, rfl⟩ := read_eq_some hstep
    refine ⟨h.registry, nofun, fun _ _ _ hl => ?_, fun _ => h.entry (by rw [hphase]; rfl)⟩
    cases hl
    exact h.fresh _ _ _ hphase
  | insert =>
    obtain ⟨now, j, m, fresh, c, hphase, rfl⟩ := insert_eq_some hstep
    have hnot := h.fresh _ _ _ hphase
    rw [List.map_cons, List.mem_cons, not_or] at hnot
    refine ⟨h.registry, nofun, fun _ _ _ hl => ?_, fun _ => ?_⟩
    · cases hl
      exact hnot.2
    · dsimp only
      rw [update_of_ne hnot.1]
      exact h.entry (by rw [hphase]; rfl)
  | finish =>
    obtain ⟨_, _, hphase, rfl⟩ := finish_eq_some hstep
    exact ⟨h.registry, nofun, nofun, fun _ => h.entry (by rw [hphase]; rfl)⟩

end Steps

/-- **Eviction.** A refresh that begins when a replica has left the registry evicts it, whatever
fails, and it does not come back unless it is registered again. -/
theorem evicted (id : ι) {s t : System ι φ} {es : List (Event ι φ)} (hidle : s.phase = .idle)
    (hgone : id ∉ s.registry.map Prod.fst)
    (hrun : machine.Run (Gone id) s (.snapshot :: es) t) (hdone : t.phase = .idle) :
    t.cache id = none := by
  have hbegun : ∀ s₁, snapshot s = some s₁ → Leaving id s₁ := by
    intro s₁ hstep
    obtain ⟨-, ⟨-, rfl⟩ | rfl⟩ := snapshot_eq_some hstep
    · refine ⟨hgone, ?_, ?_, fun _ => ?_⟩
      · rw [hidle]
        nofun
      · rw [hidle]
        nofun
      · dsimp only
        exact retain_of_notMem List.not_mem_nil
    · refine ⟨hgone, fun ids hids => ?_, nofun, nofun⟩
      cases hids
      simpa using hgone
  cases hrun with
  | cons _ hstep hrest =>
    have hend := hrest.invariant (hbegun _ hstep) fun _ _ _ hs hok hstep => leaving_step hs hok hstep
    exact hend.entry (by rw [hdone]; rfl)

end Model

section Example

/-- A sample and a failed call. -/
def flakyRun : List (Event Nat Nat) :=
  [.add 0 [], .snapshot, .call, .answer 0 (some ⟨7, 100, 0, 0⟩), .keep, .read, .insert, .finish,
    .snapshot, .call, .answer 0 none, .keep, .finish]

theorem history_shows_flakyRun :
    ∃ s : System Nat Nat, machine.exec initial flakyRun = some s ∧
      s.written 0 = [⟨7, 100, 0, 0⟩] ∧
      histories s.cache 0 = pair (tail historyLen (s.written 0)) := by
  have hwatched := @Machine.run_execIf _ _ machine (Watched 0) _
    (initial : System Nat Nat) flakyRun (by decide +kernel)
  have hexec := Machine.run_free_iff.mp (hwatched.mono fun _ _ _ => trivial)
  refine ⟨_, hexec, by decide +kernel, (history_shows 0 hexec).2 hwatched⟩

/-- A replica that left while another one stays. -/
def leftBehind : System Nat Nat where
  registry := [(1, [])]
  cache := update (fun _ => none) 0 (some ⟨⟨7, 100, 0, 0⟩, 0, [7], [100]⟩)
  phase := .idle
  now := 5
  written := update (fun _ => []) 0 [⟨7, 100, 0, 0⟩]

theorem evicted_leftBehind :
    ∃ t, machine.exec leftBehind [.snapshot, .call, .answer 0 none, .keep, .finish] = some t ∧
      t.cache 0 = none := by
  obtain ⟨t, ht, hdone⟩ : ∃ t, machine.exec leftBehind
      [.snapshot, .call, .answer 0 none, .keep, .finish] = some t ∧ t.phase = .idle :=
    ⟨_, rfl, rfl⟩
  have hrun := @Machine.run_of_exec _ _ _ (Gone 0) _ _ _ ht (by simp [Gone])
  exact ⟨t, ht, evicted 0 rfl (by decide) hrun hdone⟩

end Example

end Ruscker.Admin.MetricsCache
