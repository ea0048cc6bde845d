import Ruscker.Admin.Alerts

/-!
# Failed spawns in the log and in the alerts

A spec whose image is wrong fails on every tick.  The first failure is loud, the same error is
then quiet for a while, and another error or a spawn in between makes the next failure loud
again.  A loud failure is an alert too, and alerts of a spec have a cooldown of their own.
-/

namespace Ruscker.Scaler.SpawnFailures

open Admin.Alerts Tables Machines Machines.Machine

/-- `FAILURE_WARN_WINDOW`, in nanoseconds. -/
def failureWarnWindow : Nat := 300 * 10 ^ 9

structure FailState where
  hash : Nat
  count : Nat
  nextWarn : Nat

inductive FailVerdict where
  | warn (count : Nat)
  | quiet (count : Nat)
  deriving DecidableEq

abbrev FailureLog := Table Str FailState

namespace FailureLog

variable (log : FailureLog)

def rearm (specId : Str) (hash now : Nat) : FailureLog × FailVerdict :=
  (log.insert specId ⟨hash, 1, now + failureWarnWindow⟩, .warn 1)

/-- One failure; its error is known by its hash. -/
def observe (specId : Str) (hash now : Nat) : FailureLog × FailVerdict :=
  match log.lookup specId with
  | some st =>
    if st.hash = hash then
      let count := (st.count + 1) % 2 ^ 32
      if st.nextWarn ≤ now then
        (log.insert specId ⟨st.hash, count, now + failureWarnWindow⟩, .warn count)
      else (log.insert specId { st with count }, .quiet count)
    else log.rearm specId hash now
  | none => log.rearm specId hash now

def clear (specId : Str) : FailureLog := log.erase specId

end FailureLog

/-! ## Runs -/

/-- A failure and its verdict, or a spawn that went well. -/
inductive Attempt where
  | failed (spec error : Str) (moment : Nat) (verdict : FailVerdict)
  | spawned (spec : Str)
  deriving DecidableEq

/-- The two logs and all attempts so far, the last one first. -/
structure State where
  failures : FailureLog
  alerts : Admin.Alerts.State
  attempts : List Attempt

inductive Event where
  /-- `log_spawn_failure`, with the moments at which the failure is observed and at which the
  alert is -/
  | failed (spec phase error : Str) (now later : Nat)
  | cleared (spec : Str)
  /-- an alert of another place, and what happens to the queue -/
  | alerts (e : Admin.Alerts.Event)

def State.initial : State := ⟨∅, .initial, []⟩

def alertOf (spec phase error : Str) (count : Nat) : AlertEvent where
  kind := .spawnFailed
  spec
  replica := none
  message := phase ++ " spawn failed (".toList ++ Nat.toDigits 10 count ++
    " failure(s)): ".toList ++ error

section Machine

variable (hash : Str → Nat)

/-- `DefaultHasher` of the error's text is a parameter. -/
def machine : Machine State Event where
  step s
    | .failed spec phase error now later =>
      if later < now then none
      else
        let (failures, verdict) := s.failures.observe spec (hash error) now
        let s' : State := { s with
          failures, attempts := .failed spec error now verdict :: s.attempts }
        match verdict with
        | .warn count =>
          (Admin.Alerts.machine.step s.alerts (.notify (alertOf spec phase error count) later)).map
            fun alerts => { s' with alerts }
        | .quiet _ => some s'
    | .cleared spec => some { s with
        failures := s.failures.clear spec, attempts := .spawned spec :: s.attempts }
    | .alerts e =>
      (Admin.Alerts.machine.step s.alerts e).map fun alerts => { s with alerts }

/-! ## What the attempts say -/

namespace Attempt

def spec : Attempt → Str
  | .failed spec .. => spec
  | .spawned spec => spec

/-- The attempt failed with an error of this hash. -/
def isFailure (h : Nat) : Attempt → Bool
  | .failed _ error .. => hash error = h
  | .spawned _ => false

def loudMoment : Attempt → Option Nat
  | .failed _ _ moment (.warn _) => some moment
  | _ => none

end Attempt

/-- The last failures of a spec with one error: nothing else has come of the spec since. -/
def streak (spec : Str) (h : Nat) : List Attempt → List Attempt
  | [] => []
  | a :: older =>
    if a.spec = spec then if a.isFailure hash h then a :: streak spec h older else []
    else streak spec h older

/-- The last moment of a streak that was loud. -/
def lastLoud (attempts : List Attempt) : Option Nat := attempts.findSome? Attempt.loudMoment

/-- What a failure should be: quiet while a loud one of its streak is less than a window old. -/
def verdictOf (spec error : Str) (now : Nat) (older : List Attempt) : FailVerdict :=
  let before := streak hash spec (hash error) older
  let count := (before.length + 1) % 2 ^ 32
  if (lastLoud before).any fun moment => now < moment + failureWarnWindow then .quiet count
  else .warn count

/-- Every failure is what it should be. -/
def Deserved : List Attempt → Prop
  | [] => True
  | .failed spec error now verdict :: older =>
    verdict = verdictOf hash spec error now older ∧ Deserved older
  | .spawned _ :: older => Deserved older

/-- The log knows the streak of each spec. -/
structure Knows (failures : FailureLog) (attempts : List Attempt) : Prop where
  unknown : ∀ spec, failures.lookup spec = none → ∀ h, streak hash spec h attempts = []
  other : ∀ spec st, failures.lookup spec = some st → ∀ h ≠ st.hash,
    streak hash spec h attempts = []
  count : ∀ spec st, failures.lookup spec = some st →
    st.count = (streak hash spec st.hash attempts).length % 2 ^ 32
  loud : ∀ spec st, failures.lookup spec = some st →
    ∃ moment, lastLoud (streak hash spec st.hash attempts) = some moment ∧
      st.nextWarn = moment + failureWarnWindow

/-- Behind every loud failure an alert of its spec has passed the cooldown, less than a cooldown
before. -/
def Alerted (s : State) : Prop :=
  ∀ spec error moment count, Attempt.failed spec error moment (.warn count) ∈ s.attempts →
    ∃ n ∈ s.alerts.log, n.Passed ∧ n.event.key = (.spawnFailed, spec) ∧
      moment < n.moment + alertCooldown

structure Inv (s : State) : Prop where
  alerts : Admin.Alerts.Inv s.alerts
  deserved : Deserved hash s.attempts
  knows : Knows hash s.failures s.attempts
  alerted : Alerted s

/-! ### Streaks -/

section Streak

variable {hash} {spec spec' error : Str} {h now : Nat} {verdict : FailVerdict}
  {attempts : List Attempt} {failures : FailureLog} {st : FailState}

theorem streak_failed_of_ne (hne : spec' ≠ spec) :
    streak hash spec' h (.failed spec error now verdict :: attempts) =
      streak hash spec' h attempts := by
  rw [streak]
  simp [Attempt.spec, Ne.symm hne]

theorem streak_failed : streak hash spec h (.failed spec error now verdict :: attempts) =
    if hash error = h then .failed spec error now verdict :: streak hash spec h attempts
    else [] := by
  rw [streak]
  simp [Attempt.spec, Attempt.isFailure]

theorem streak_spawned : streak hash spec h (.spawned spec' :: attempts) =
    if spec' = spec then [] else streak hash spec h attempts := by
  rw [streak]
  simp [Attempt.spec, Attempt.isFailure]

theorem lastLoud_warn {count : Nat} :
    lastLoud (.failed spec error now (.warn count) :: attempts) = some now := rfl

theorem lastLoud_quiet {count : Nat} :
    lastLoud (.failed spec error now (.quiet count) :: attempts) = lastLoud attempts := rfl

/-- The entry of a spec after a failure. -/
theorem Knows.insert (hknows : Knows hash failures attempts) {count next : Nat}
    (hcount : count = ((streak hash spec (hash error) attempts).length + 1) % 2 ^ 32)
    (hloud : ∃ moment, lastLoud (.failed spec error now verdict ::
      streak hash spec (hash error) attempts) = some moment ∧ next = moment + failureWarnWindow) :
    Knows hash (failures.insert spec ⟨hash error, count, next⟩)
      (.failed spec error now verdict :: attempts) := by
  have hlookup : ∀ spec' st',
      (failures.insert spec ⟨hash error, count, next⟩).lookup spec' = some st' →
        (spec' = spec ∧ st' = ⟨hash error, count, next⟩) ∨
          (spec' ≠ spec ∧ failures.lookup spec' = some st') := by
    intro spec' st' hst'
    rw [Table.lookup_insert_eq] at hst'
    split at hst'
    · next heq => exact .inl ⟨heq, (Option.some.inj hst').symm⟩
    · next hne => exact .inr ⟨hne, hst'⟩
  refine ⟨?_, ?_, ?_, ?_⟩
  · intro spec' hnone h
    rw [Table.lookup_insert_eq] at hnone
    split at hnone
    · cases hnone
    · next hne => rw [streak_failed_of_ne hne, hknows.unknown spec' hnone]
  · intro spec' st' hst' h hother
    rcases hlookup spec' st' hst' with ⟨rfl, rfl⟩ | ⟨hne, hst'⟩
    · rw [streak_failed, if_neg (Ne.symm hother)]
    · rw [streak_failed_of_ne hne, hknows.other spec' st' hst' h hother]
  · intro spec' st' hst'
    rcases hlookup spec' st' hst' with ⟨rfl, rfl⟩ | ⟨hne, hst'⟩
    · rw [streak_failed, if_pos rfl, List.length_cons]
      exact hcount
    · rw [streak_failed_of_ne hne, hknows.count spec' st' hst']
  · intro spec' st' hst'
    rcases hlookup spec' st' hst' with ⟨rfl, rfl⟩ | ⟨hne, hst'⟩
    · rw [streak_failed, if_pos rfl]
      exact hloud
    · rw [streak_failed_of_ne hne]
      exact hknows.loud spec' st' hst'

theorem verdictOf_of_lastLoud {moment : Nat}
    (hloud : lastLoud (streak hash spec (hash error) attempts) = some moment) :
    verdictOf hash spec error now attempts =
      if moment + failureWarnWindow ≤ now then
        .warn (((streak hash spec (hash error) attempts).length + 1) % 2 ^ 32)
      else .quiet (((streak hash spec (hash error) attempts).length + 1) % 2 ^ 32) := by
  unfold verdictOf
  dsimp only
  rw [hloud, Option.any_some]
  -- the window is a large literal, which is not to be counted down
  generalize failureWarnWindow = window
  by_cases hdue : moment + window ≤ now
  · rw [if_pos hdue, if_neg (by simpa using hdue)]
  · rw [if_neg hdue, if_pos (by simpa using hdue)]

theorem Knows.rearm (hknows : Knows hash failures attempts)
    (hnew : streak hash spec (hash error) attempts = []) :
    (failures.rearm spec (hash error) now).2 = verdictOf hash spec error now attempts ∧
      Knows hash (failures.rearm spec (hash error) now).1
        (.failed spec error now (failures.rearm spec (hash error) now).2 :: attempts) := by
  refine ⟨?_, hknows.insert ?_ ⟨now, lastLoud_warn, rfl⟩⟩
  · simp [FailureLog.rearm, verdictOf, hnew, lastLoud]
  · simp [hnew]

/-- **One failure.** Its verdict is what the attempts before it make of it. -/
theorem Knows.observe (hknows : Knows hash failures attempts) (spec error : Str) (now : Nat) :
    (failures.observe spec (hash error) now).2 = verdictOf hash spec error now attempts ∧
      Knows hash (failures.observe spec (hash error) now).1
        (.failed spec error now (failures.observe spec (hash error) now).2 :: attempts) := by
  unfold FailureLog.observe
  cases hlookup : failures.lookup spec with
  | none => exact hknows.rearm (hknows.unknown spec hlookup _)
  | some st =>
    dsimp only
    split
    · next hsame =>
      have hcount := hknows.count spec st hlookup
      obtain ⟨moment, hloud, hnext⟩ := hknows.loud spec st hlookup
      rw [hsame] at hcount hloud
      have hnew : (st.count + 1) % 2 ^ 32 =
          ((streak hash spec (hash error) attempts).length + 1) % 2 ^ 32 := by
        rw [hcount, Nat.mod_add_mod]
      have hverdict : verdictOf hash spec error now attempts =
          if st.nextWarn ≤ now then .warn ((st.count + 1) % 2 ^ 32)
          else .quiet ((st.count + 1) % 2 ^ 32) := by
        rw [verdictOf_of_lastLoud hloud, hnew, hnext]
      split
      · next hdue =>
        rw [hverdict, if_pos hdue, hsame]
        exact ⟨rfl, hknows.insert hnew ⟨now, lastLoud_warn, rfl⟩⟩
      · next hearly =>
        rw [hverdict, if_neg hearly, hsame]
        exact ⟨rfl, hknows.insert hnew ⟨moment, lastLoud_quiet.trans hloud, hnext⟩⟩
    · next hother => exact hknows.rearm (hknows.other spec st hlookup _ (Ne.symm hother))

theorem Knows.clear (hknows : Knows hash failures attempts) (spec : Str) :
    Knows hash (failures.clear spec) (.spawned spec :: attempts) := by
  have hlookup : ∀ spec' st', (failures.clear spec).lookup spec' = some st' →
      spec' ≠ spec ∧ failures.lookup spec' = some st' := by
    intro spec' st' hst'
    rw [FailureLog.clear, Table.lookup_erase_eq] at hst'
    split at hst'
    · cases hst'
    · next hne => exact ⟨hne, hst'⟩
  have hstreak : ∀ spec' h, spec' ≠ spec →
      streak hash spec' h (.spawned spec :: attempts) = streak hash spec' h attempts := by
    intro spec' h hne
    rw [streak_spawned, if_neg (Ne.symm hne)]
  refine ⟨?_, ?_, ?_, ?_⟩
  · intro spec' hnone h
    rw [FailureLog.clear, Table.lookup_erase_eq] at hnone
    rw [streak_spawned]
    split
    · rfl
    · next hne =>
      rw [if_neg (Ne.symm hne)] at hnone
      exact hknows.unknown spec' hnone h
  · intro spec' st' hst' h hother
    obtain ⟨hne, hst'⟩ := hlookup spec' st' hst'
    rw [hstreak spec' h hne, hknows.other spec' st' hst' h hother]
  · intro spec' st' hst'
    obtain ⟨hne, hst'⟩ := hlookup spec' st' hst'
    rw [hstreak spec' _ hne, hknows.count spec' st' hst']
  · intro spec' st' hst'
    obtain ⟨hne, hst'⟩ := hlookup spec' st' hst'
    rw [hstreak spec' _ hne]
    exact hknows.loud spec' st' hst'

theorem mem_of_mem_streak {a : Attempt} (ha : a ∈ streak hash spec h attempts) :
    a ∈ attempts ∧ a.spec = spec := by
  induction attempts with
  | nil => cases ha
  | cons b older ih =>
    rw [streak] at ha
    split at ha
    · next hspec =>
      split at ha
      · rcases List.mem_cons.mp ha with rfl | hold
        · exact ⟨List.mem_cons_self, hspec⟩
        · exact ⟨List.mem_cons_of_mem _ (ih hold).1, (ih hold).2⟩
      · cases ha
    · exact ⟨List.mem_cons_of_mem _ (ih ha).1, (ih ha).2⟩

theorem exists_of_lastLoud {moment : Nat}
    (hloud : lastLoud (streak hash spec h attempts) = some moment) :
    ∃ error count, Attempt.failed spec error moment (.warn count) ∈ attempts := by
  obtain ⟨a, ha, hmoment⟩ := List.exists_of_findSome?_eq_some hloud
  obtain ⟨hmem, hspec⟩ := mem_of_mem_streak ha
  match a, hmoment with
  | .failed spec' error _ (.warn count), rfl => exact ⟨error, count, hspec ▸ hmem⟩

end Streak

/-! ### Steps -/

section Steps

variable {hash} {s s' : State} {e : Event} {spec phase error : Str} {now later : Nat}

theorem step_failed (h : (machine hash).step s (.failed spec phase error now later) = some s') :
    now ≤ later ∧ s'.failures = (s.failures.observe spec (hash error) now).1 ∧
      s'.attempts = .failed spec error now (s.failures.observe spec (hash error) now).2 ::
        s.attempts ∧
      match (s.failures.observe spec (hash error) now).2 with
      | .warn count => Admin.Alerts.machine.step s.alerts
          (.notify (alertOf spec phase error count) later) = some s'.alerts
      | .quiet _ => s'.alerts = s.alerts := by
  unfold machine at h
  dsimp only at h
  split at h
  · cases h
  · next horder =>
    refine ⟨Nat.le_of_not_lt horder, ?_⟩
    split at h
    · next count hverdict =>
      obtain ⟨alerts, halerts, rfl⟩ := Option.map_eq_some_iff.mp h
      exact ⟨rfl, rfl, by rw [hverdict]; exact halerts⟩
    · next count hverdict =>
      cases h
      exact ⟨rfl, rfl, by rw [hverdict]⟩

/-- The calls of `notify` so far stay. -/
theorem mem_log_of_step {a a' : Admin.Alerts.State} {e : Admin.Alerts.Event}
    (h : Admin.Alerts.machine.step a e = some a') {n : Notice} (hn : n ∈ a.log) : n ∈ a'.log := by
  cases e with
  | notify event now =>
    obtain ⟨-, rfl⟩ := step_notify h
    exact List.mem_cons_of_mem _ hn
  | drain =>
    cases h
    exact hn
  | close =>
    cases h
    exact hn

/-- An alert of a failed spawn passes the cooldown, or one of its spec has just done so. -/
theorem passed_of_notify {a a' : Admin.Alerts.State} {count : Nat} (ha : Admin.Alerts.Inv a)
    (h : Admin.Alerts.machine.step a (.notify (alertOf spec phase error count) later) = some a') :
    ∃ n ∈ a'.log, n.Passed ∧ n.event.key = (.spawnFailed, spec) ∧
      later < n.moment + alertCooldown := by
  obtain ⟨hnow, rfl⟩ := step_notify h
  have hkind : (alertOf spec phase error count).kind ≠ .test := nofun
  have hpos := cooldown_pos
  have hcases : (alertOf spec phase error count).kind = .test ∧
      (a.sink.notify (alertOf spec phase error count) later).1.recent = a.sink.recent ∧ _ ∨ _ :=
    notify_cases
  rcases hcases with ⟨htest, -⟩ | ⟨-, hcooling, -⟩ | ⟨-, -, -, hout⟩
  · exact absurd htest hkind
  · obtain ⟨n, hn, hpassed, hkey, hlt⟩ := (ha.isCooling_iff hnow).mp hcooling
    exact ⟨n, List.mem_cons_of_mem _ hn, hpassed, hkey, hlt⟩
  · exact ⟨_, List.mem_cons_self, ⟨hkind, hout⟩, rfl, Nat.lt_add_of_pos_right hpos⟩

theorem Inv.initial : Inv hash State.initial where
  alerts := Admin.Alerts.Inv.initial
  deserved := trivial
  knows := ⟨fun _ _ _ => rfl, nofun, nofun, nofun⟩
  alerted := nofun

/-- **Step lemma.** -/
theorem Inv.step (hs : Inv hash s) (hstep : (machine hash).step s e = some s') : Inv hash s' := by
  cases e with
  | cleared spec =>
    cases hstep
    refine ⟨hs.alerts, hs.deserved, hs.knows.clear spec, ?_⟩
    intro spec' error moment count hmem
    rcases List.mem_cons.mp hmem with heq | hold
    · cases heq
    · exact hs.alerted spec' error moment count hold
  | alerts e =>
    obtain ⟨alerts, halerts, rfl⟩ := Option.map_eq_some_iff.mp hstep
    refine ⟨hs.alerts.step halerts, hs.deserved, hs.knows, ?_⟩
    intro spec error moment count hmem
    obtain ⟨n, hn, hpassed⟩ := hs.alerted spec error moment count hmem
    exact ⟨n, mem_log_of_step halerts hn, hpassed⟩
  | failed spec phase error now later =>
    obtain ⟨horder, hfailures, hattempts, halerts⟩ := step_failed hstep
    obtain ⟨hverdict, hknows⟩ := hs.knows.observe spec error now
    have hdeserved : Deserved hash s'.attempts := by
      rw [hattempts]
      exact ⟨hverdict, hs.deserved⟩
    rw [← hfailures, ← hattempts] at hknows
    cases hloud : (s.failures.observe spec (hash error) now).2 with
    | warn count =>
      rw [hloud] at halerts hattempts
      dsimp only at halerts
      refine ⟨hs.alerts.step halerts, hdeserved, hknows, ?_⟩
      intro spec' error' moment count' hmem
      rw [hattempts] at hmem
      rcases List.mem_cons.mp hmem with heq | hold
      · cases heq
        obtain ⟨n, hn, hpassed, hkey, hlt⟩ := passed_of_notify hs.alerts halerts
        exact ⟨n, hn, hpassed, hkey, by omega⟩
      · obtain ⟨n, hn, hpassed⟩ := hs.alerted spec' error' moment count' hold
        exact ⟨n, mem_log_of_step halerts hn, hpassed⟩
    | quiet count =>
      rw [hloud] at halerts hattempts
      dsimp only at halerts
      refine ⟨halerts ▸ hs.alerts, hdeserved, hknows, ?_⟩
      intro spec' error' moment count' hmem
      rw [hattempts] at hmem
      rw [halerts]
      rcases List.mem_cons.mp hmem with heq | hold
      · cases heq
      · exact hs.alerted spec' error' moment count' hold

theorem inv_of_exec {events : List Event} (h : (machine hash).exec State.initial events = some s) :
    Inv hash s :=
  (run_free_iff.mpr h).invariant Inv.initial fun _ _ _ hI _ hstep => hI.step hstep

end Steps

/-- **Verdicts.** In every run a failure is loud unless a loud failure of its spec, with the same
error and no spawn or other error in between, is less than a window old, and its number is how
often the error has come in a row. -/
theorem verdicts_deserved {events : List Event} {s : State}
    (h : (machine hash).exec State.initial events = some s) : Deserved hash s.attempts :=
  (inv_of_exec h).deserved

/-! A spec that fails and fails again; its error is known by its length. -/

def failsAt (seconds : Nat) : Event :=
  .failed "app".toList "scale-up".toList "pull: not found".toList (seconds * 10 ^ 9)
    (seconds * 10 ^ 9)

def crashLoop : List Event := [failsAt 0, failsAt 10, failsAt 310]

def verdicts (s : State) : List FailVerdict :=
  s.attempts.filterMap fun
    | .failed _ _ _ verdict => some verdict
    | .spawned _ => none

theorem verdicts_deserved_crashLoop :
    ∃ s, (machine List.length).exec State.initial crashLoop = some s ∧
      verdicts s = [.warn 3, .quiet 2, .warn 1] ∧ Deserved List.length s.attempts := by
  have hany : ((machine List.length).exec State.initial crashLoop).any (fun s =>
      verdicts s = [.warn 3, .quiet 2, .warn 1]) = true := by
    decide +kernel
  obtain ⟨s, hs, hverdicts⟩ := (Option.any_eq_true _ _).mp hany
  exact ⟨s, hs, of_decide_eq_true hverdicts, verdicts_deserved List.length hs⟩

/-- **No failing spec is left in silence.** When a spawn fails, quietly or not, an alert of its
spec has been queued less than a window and a cooldown before, where the queue has refused none. -/
theorem failing_reported {events : List Event} {s : State} {spec phase error : Str}
    {now later : Nat} (h : (machine hash).exec State.initial
      (events ++ [.failed spec phase error now later]) = some s)
    (hroom : ∀ n ∈ s.alerts.log, n.event.key = (.spawnFailed, spec) → n.outcome ≠ .dropped) :
    ∃ n ∈ s.alerts.log, n.outcome = .queued ∧ n.event.key = (.spawnFailed, spec) ∧
      now < n.moment + (failureWarnWindow + alertCooldown) := by
  have hs := inv_of_exec h
  rw [exec_append] at h
  obtain ⟨s₁, -, hlast⟩ := Option.bind_eq_some_iff.mp h
  obtain ⟨s₂, hstep, hdone⟩ := Option.bind_eq_some_iff.mp hlast
  cases hdone
  obtain ⟨-, -, hattempts, -⟩ := step_failed hstep
  have hdeserved := hs.deserved
  rw [hattempts] at hdeserved
  obtain ⟨hverdict, -⟩ := hdeserved
  -- the failure itself is loud, or a loud one of its streak is less than a window old
  obtain ⟨error', moment, count, hmem, hlt⟩ : ∃ error' moment count,
      Attempt.failed spec error' moment (.warn count) ∈ s.attempts ∧
        now < moment + failureWarnWindow := by
    rw [hattempts]
    unfold verdictOf at hverdict
    dsimp only at hverdict
    split at hverdict
    · next hquiet =>
      obtain ⟨moment, hloud, hlt⟩ := (Option.any_eq_true _ _).mp hquiet
      obtain ⟨error', count, hmem⟩ := exists_of_lastLoud hloud
      exact ⟨error', moment, count, List.mem_cons_of_mem _ hmem, of_decide_eq_true hlt⟩
    · rw [hverdict]
      exact ⟨error, now, _, List.mem_cons_self, by simp [failureWarnWindow]⟩
  obtain ⟨n, hn, hpassed, hkey, hlt'⟩ := hs.alerted spec error' moment count hmem
  refine ⟨n, hn, ?_, hkey, by omega⟩
  cases hout : n.outcome with
  | queued => rfl
  | suppressed => exact absurd hout hpassed.2
  | dropped => exact absurd hout (hroom n hn hkey)

theorem failing_reported_crashLoop :
    ∃ s, (machine List.length).exec State.initial (crashLoop ++ [failsAt 320]) = some s ∧
      s.alerts.log.map Notice.outcome = [.suppressed, .queued] ∧
      ∃ n ∈ s.alerts.log, n.outcome = .queued ∧ n.event.key = (.spawnFailed, "app".toList) ∧
        320 * 10 ^ 9 < n.moment + (failureWarnWindow + alertCooldown) := by
  have hany : ((machine List.length).exec State.initial (crashLoop ++ [failsAt 320])).any (fun s =>
      s.alerts.log.map Notice.outcome = [.suppressed, .queued]) = true := by
    decide +kernel
  obtain ⟨s, hs, hlog⟩ := (Option.any_eq_true _ _).mp hany
  have houtcomes := of_decide_eq_true hlog
  refine ⟨s, hs, houtcomes, failing_reported List.length hs ?_⟩
  intro n hn _ hdropped
  have hmem : n.outcome ∈ s.alerts.log.map Notice.outcome := List.mem_map_of_mem hn
  rw [houtcomes, hdropped] at hmem
  simp at hmem

end Machine

end Ruscker.Scaler.SpawnFailures
