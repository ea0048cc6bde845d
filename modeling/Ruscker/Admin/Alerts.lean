import Ruscker.Lib.Machine
import Ruscker.Lib.Table
import Ruscker.Text

/-!
# Alerts

An alert is queued for the task that sends them, unless one of its kind and spec came less than
a cooldown before.  The moment is noted before the queue takes the alert, and the queue may be
full.
-/

namespace Ruscker.Admin.Alerts

open Tables Machines Machines.Machine

inductive AlertKind where
  | spawnFailed | replicaDown | saturated | jobFailed | test
  deriving DecidableEq

structure AlertEvent where
  kind : AlertKind
  spec : Str
  replica : Option Str
  message : Str
  deriving DecidableEq

abbrev AlertKey := AlertKind × Str

def AlertEvent.key (e : AlertEvent) : AlertKey := (e.kind, e.spec)

/-- `ALERT_COOLDOWN`, in nanoseconds. -/
def alertCooldown : Nat := 15 * 60 * 10 ^ 9

/-- `QUEUE_DEPTH` -/
def queueDepth : Nat := 64

/-- The channel with its receiver, and the last moment of each kind and spec. -/
structure AlertSink where
  queue : List AlertEvent
  isOpen : Bool
  recent : Table AlertKey Nat

/-- Why `notify` says yes or no. -/
inductive Outcome where
  | queued | suppressed | dropped
  deriving DecidableEq

namespace AlertSink

def initial : AlertSink := ⟨[], true, ∅⟩

/-- `try_send` -/
def trySend (sink : AlertSink) (event : AlertEvent) : AlertSink × Outcome :=
  if sink.isOpen && decide (sink.queue.length < queueDepth) then
    ({ sink with queue := sink.queue ++ [event] }, .queued)
  else (sink, .dropped)

/-- A key that came less than a cooldown ago. -/
def isCooling (sink : AlertSink) (key : AlertKey) (now : Nat) : Bool :=
  (sink.recent.lookup key).any fun last => now - last < alertCooldown

def note (sink : AlertSink) (key : AlertKey) (now : Nat) : AlertSink :=
  { sink with recent := Table.retain (sink.recent.insert key now) fun _ t =>
      now - t < alertCooldown }

def notify (sink : AlertSink) (event : AlertEvent) (now : Nat) : AlertSink × Outcome :=
  if event.kind = .test then sink.trySend event
  else if sink.isCooling event.key now then (sink, .suppressed)
  else (sink.note event.key now).trySend event

end AlertSink

/-! ## Runs -/

/-- A call of `notify` and what came of it. -/
structure Notice where
  event : AlertEvent
  moment : Nat
  outcome : Outcome
  deriving DecidableEq

/-- The sink, the time of the last call, and all calls so far, the last one first. -/
structure State where
  sink : AlertSink
  now : Nat
  log : List Notice

inductive Event where
  | notify (event : AlertEvent) (now : Nat)
  -- the sender takes an alert, or is gone
  | drain
  | close

def State.initial : State := ⟨AlertSink.initial, 0, []⟩

/-- Time does not go back. -/
def machine : Machine State Event where
  step s
    | .notify event now =>
      if now < s.now then none
      else
        let (sink, outcome) := s.sink.notify event now
        some ⟨sink, now, ⟨event, now, outcome⟩ :: s.log⟩
    | .drain => some { s with sink := { s.sink with queue := s.sink.queue.tail } }
    | .close => some { s with sink := { s.sink with isOpen := false } }

/-! ## What the cooldown promises -/

/-- Two calls of one key. -/
def Notice.Alike (n m : Notice) : Prop := n.event.kind ≠ .test ∧ n.event.key = m.event.key

/-- Two queued alerts of one kind and spec are a cooldown apart. -/
def Spaced (log : List Notice) : Prop :=
  log.Pairwise fun newer older => newer.outcome = .queued → older.outcome = .queued →
    newer.Alike older → older.moment + alertCooldown ≤ newer.moment

/-- What is suppressed follows a queued alert of its kind and spec within a cooldown. -/
def Justified : List Notice → Prop
  | [] => True
  | n :: older => (n.outcome = .suppressed → ∃ m ∈ older, m.outcome = .queued ∧ n.Alike m ∧
      n.moment < m.moment + alertCooldown) ∧ Justified older

instance (n m : Notice) : Decidable (n.Alike m) :=
  inferInstanceAs (Decidable (_ ∧ _))

instance decidableJustified : (log : List Notice) → Decidable (Justified log)
  | [] => isTrue trivial
  | _ :: older =>
    have := decidableJustified older
    inferInstanceAs (Decidable (_ ∧ _))

/-- An alert of a kind and spec comes a cooldown or more after each that the queue refused. -/
def Heard (s : State) : Event → Prop
  | .notify event now => event.kind ≠ .test → ∀ n ∈ s.log, n.outcome = .dropped →
      n.event.key = event.key → n.moment + alertCooldown ≤ now
  | _ => True

instance (s : State) : (e : Event) → Decidable (Heard s e)
  | .notify event now => inferInstanceAs (Decidable (event.kind ≠ .test → ∀ n ∈ s.log,
      n.outcome = .dropped → n.event.key = event.key → n.moment + alertCooldown ≤ now))
  | .drain | .close => isTrue trivial

/-! ### The sink and the calls -/

/-- A call that passed the cooldown. -/
def Notice.Passed (n : Notice) : Prop := n.event.kind ≠ .test ∧ n.outcome ≠ .suppressed

/-- The noted moments are those of the calls that passed, for a cooldown. -/
structure Inv (s : State) : Prop where
  past : ∀ n ∈ s.log, n.moment ≤ s.now
  noted : ∀ n ∈ s.log, n.Passed → s.now < n.moment + alertCooldown →
    s.sink.recent.lookup n.event.key = some n.moment
  passed : ∀ key moment, s.sink.recent.lookup key = some moment →
    ∃ n ∈ s.log, n.Passed ∧ n.event.key = key ∧ n.moment = moment
  apart : s.log.Pairwise fun newer older => newer.Passed → older.Passed →
    newer.event.key = older.event.key → older.moment + alertCooldown ≤ newer.moment

section Sink

variable {sink : AlertSink} {event : AlertEvent} {now : Nat} {key : AlertKey}

theorem cooldown_pos : 0 < alertCooldown := by decide

theorem recent_trySend : (sink.trySend event).1.recent = sink.recent := by
  unfold AlertSink.trySend
  split <;> rfl

theorem outcome_trySend : (sink.trySend event).2 ≠ .suppressed := by
  unfold AlertSink.trySend
  split <;> exact nofun

theorem isCooling_iff : sink.isCooling key now = true ↔
    ∃ last, sink.recent.lookup key = some last ∧ now - last < alertCooldown := by
  unfold AlertSink.isCooling
  simp [Option.any_eq_true]

/-- A moment noted for a key: the one of the call, or an earlier one that has not lapsed. -/
theorem lookup_note {key' : AlertKey} {moment : Nat} :
    (sink.note key now).recent.lookup key' = some moment ↔
      (key' = key ∧ moment = now) ∨
        (key' ≠ key ∧ sink.recent.lookup key' = some moment ∧ now - moment < alertCooldown) := by
  have hpos := cooldown_pos
  unfold AlertSink.note
  rw [Table.lookup_retain, Table.lookup_insert_eq, decide_eq_true_eq]
  split
  · next hkey =>
    constructor
    · rintro ⟨heq, -⟩
      exact .inl ⟨hkey, (Option.some.inj heq).symm⟩
    · rintro (⟨-, rfl⟩ | ⟨hne, -⟩)
      · exact ⟨rfl, by omega⟩
      · exact absurd hkey hne
  · next hkey => simp [hkey]

/-- A test, a call that is suppressed, and one that passes the cooldown. -/
theorem notify_cases :
    (event.kind = .test ∧ (sink.notify event now).1.recent = sink.recent ∧
      (sink.notify event now).2 ≠ .suppressed) ∨
    (event.kind ≠ .test ∧ sink.isCooling event.key now = true ∧
      sink.notify event now = (sink, .suppressed)) ∨
    (event.kind ≠ .test ∧ sink.isCooling event.key now = false ∧
      (sink.notify event now).1.recent = (sink.note event.key now).recent ∧
      (sink.notify event now).2 ≠ .suppressed) := by
  unfold AlertSink.notify
  split
  · next htest => exact .inl ⟨htest, recent_trySend, outcome_trySend⟩
  · next htest =>
    right
    split
    · next hcooling => exact .inl ⟨htest, hcooling, rfl⟩
    · next hcooling =>
      exact .inr ⟨htest, Bool.eq_false_iff.mpr hcooling, recent_trySend, outcome_trySend⟩

end Sink

/-! ### Steps -/

section Steps

variable {s s' : State} {e : Event} {event : AlertEvent} {now : Nat}

theorem step_notify (h : machine.step s (.notify event now) = some s') : s.now ≤ now ∧
    s' = ⟨(s.sink.notify event now).1, now, ⟨event, now, (s.sink.notify event now).2⟩ :: s.log⟩ := by
  unfold machine at h
  dsimp only at h
  split at h
  · cases h
  · next hnow =>
    cases h
    exact ⟨Nat.le_of_not_lt hnow, rfl⟩

theorem Inv.initial : Inv State.initial where
  past := nofun
  noted := nofun
  passed := nofun
  apart := .nil

/-- A key cools down exactly while a call of it that passed is less than a cooldown old. -/
theorem Inv.isCooling_iff (hs : Inv s) (hnow : s.now ≤ now) {key : AlertKey} :
    s.sink.isCooling key now = true ↔
      ∃ n ∈ s.log, n.Passed ∧ n.event.key = key ∧ now < n.moment + alertCooldown := by
  rw [Alerts.isCooling_iff]
  constructor
  · rintro ⟨last, hlast, hlt⟩
    obtain ⟨n, hn, hpassed, hkey, rfl⟩ := hs.passed key last hlast
    refine ⟨n, hn, hpassed, hkey, ?_⟩
    have hpast := hs.past n hn
    omega
  · rintro ⟨n, hn, hpassed, rfl, hlt⟩
    refine ⟨n.moment, hs.noted n hn hpassed (by omega), ?_⟩
    have hpos := cooldown_pos
    omega

theorem Inv.past_cons (hs : Inv s) (hnow : s.now ≤ now) (outcome : Outcome) :
    ∀ n ∈ (⟨event, now, outcome⟩ :: s.log : List Notice), n.moment ≤ now := by
  intro n hn
  rcases List.mem_cons.mp hn with rfl | hold
  · exact Nat.le_refl now
  · exact (hs.past n hold).trans hnow

/-- A call that does not pass the cooldown leaves the noted moments alone. -/
theorem Inv.stay (hs : Inv s) (hnow : s.now ≤ now) {sink : AlertSink} {outcome : Outcome}
    (hrecent : sink.recent = s.sink.recent) (hnot : ¬ Notice.Passed ⟨event, now, outcome⟩) :
    Inv ⟨sink, now, ⟨event, now, outcome⟩ :: s.log⟩ := by
  refine ⟨hs.past_cons hnow outcome, ?_, ?_, ?_⟩
  · intro n hn hpassed hlt
    dsimp only at hlt ⊢
    rcases List.mem_cons.mp hn with rfl | hold
    · exact absurd hpassed hnot
    · rw [hrecent]
      exact hs.noted n hold hpassed (by omega)
  · intro key moment hlookup
    dsimp only at hlookup
    rw [hrecent] at hlookup
    obtain ⟨n, hn, hfound⟩ := hs.passed key moment hlookup
    exact ⟨n, List.mem_cons_of_mem _ hn, hfound⟩
  · refine List.pairwise_cons.mpr ⟨?_, hs.apart⟩
    intro older _ hpassed
    exact absurd hpassed hnot

/-- A call that passes is noted, and those of its key before it are a cooldown old. -/
theorem Inv.pass (hs : Inv s) (hnow : s.now ≤ now) {sink : AlertSink} {outcome : Outcome}
    (hcooling : s.sink.isCooling event.key now = false)
    (hrecent : sink.recent = (s.sink.note event.key now).recent)
    (hpassed : Notice.Passed ⟨event, now, outcome⟩) :
    Inv ⟨sink, now, ⟨event, now, outcome⟩ :: s.log⟩ := by
  have hfree : ∀ n ∈ s.log, n.Passed → n.event.key = event.key →
      n.moment + alertCooldown ≤ now := by
    intro n hn hpassed hkey
    by_contra hlt
    have hcools := (hs.isCooling_iff hnow).mpr ⟨n, hn, hpassed, hkey, Nat.lt_of_not_le hlt⟩
    rw [hcooling] at hcools
    cases hcools
  refine ⟨hs.past_cons hnow outcome, ?_, ?_, ?_⟩
  · intro n hn hp hlt
    dsimp only at hlt ⊢
    rw [hrecent, lookup_note]
    rcases List.mem_cons.mp hn with rfl | hold
    · exact .inl ⟨rfl, rfl⟩
    · by_cases hkey : n.event.key = event.key
      · have hle := hfree n hold hp hkey
        omega
      · have hpos := cooldown_pos
        exact .inr ⟨hkey, hs.noted n hold hp (by omega), by omega⟩
  · intro key moment hlookup
    dsimp only at hlookup
    rw [hrecent, lookup_note] at hlookup
    rcases hlookup with ⟨rfl, rfl⟩ | ⟨-, hlookup, -⟩
    · exact ⟨_, List.mem_cons_self, hpassed, rfl, rfl⟩
    · obtain ⟨n, hn, hfound⟩ := hs.passed key moment hlookup
      exact ⟨n, List.mem_cons_of_mem _ hn, hfound⟩
  · refine List.pairwise_cons.mpr ⟨?_, hs.apart⟩
    intro older holder _ hp hkey
    exact hfree older holder hp hkey.symm

/-- **Step lemma.** -/
theorem Inv.step (hs : Inv s) (hstep : machine.step s e = some s') : Inv s' := by
  cases e with
  | drain =>
    cases hstep
    exact ⟨hs.past, hs.noted, hs.passed, hs.apart⟩
  | close =>
    cases hstep
    exact ⟨hs.past, hs.noted, hs.passed, hs.apart⟩
  | notify event now =>
    obtain ⟨hnow, rfl⟩ := step_notify hstep
    have hcases : event.kind = .test ∧ (s.sink.notify event now).1.recent = s.sink.recent ∧ _ ∨ _ :=
      notify_cases
    rcases hcases with
      ⟨htest, hrecent, -⟩ | ⟨-, -, heq⟩ | ⟨hkind, hcooling, hrecent, hout⟩
    · exact hs.stay hnow hrecent fun hpassed => hpassed.1 htest
    · rw [heq]
      exact hs.stay hnow rfl fun hpassed => hpassed.2 rfl
    · exact hs.pass hnow hcooling hrecent ⟨hkind, hout⟩

/-- Two calls of one key that passed are a cooldown apart, whichever was first. -/
theorem Inv.apart_of_ne (hs : Inv s) {n m : Notice} (hn : n ∈ s.log) (hm : m ∈ s.log)
    (hne : n ≠ m) (hnp : n.Passed) (hmp : m.Passed) (hkey : n.event.key = m.event.key) :
    n.moment + alertCooldown ≤ m.moment ∨ m.moment + alertCooldown ≤ n.moment := by
  let R (a b : Notice) : Prop := a.Passed → b.Passed → a.event.key = b.event.key →
    a.moment + alertCooldown ≤ b.moment ∨ b.moment + alertCooldown ≤ a.moment
  have hsymm : Std.Symm R := ⟨fun a b hab ha hb heq => (hab hb ha heq.symm).symm⟩
  have hall : s.log.Pairwise R := hs.apart.imp fun happart ha hb heq => .inr (happart ha hb heq)
  exact hall.forall hn hm hne hnp hmp hkey

/-- Queued alerts of one key have passed. -/
theorem Inv.spaced (hs : Inv s) : Spaced s.log := by
  refine hs.apart.imp ?_
  intro newer older happart hnewer holder halike
  have hkind : newer.event.kind = older.event.kind := congrArg Prod.fst halike.2
  refine happart ⟨halike.1, ?_⟩ ⟨?_, ?_⟩ halike.2
  · rw [hnewer]
    exact nofun
  · rw [← hkind]
    exact halike.1
  · rw [holder]
    exact nofun

/-- In every run queued alerts of one kind and spec are a cooldown apart. -/
theorem spaced_of_exec {events : List Event} (h : machine.exec State.initial events = some s) :
    Spaced s.log :=
  ((run_free_iff.mpr h).invariant Inv.initial fun _ _ _ hI _ hstep => hI.step hstep).spaced

/-- A call that is heard is suppressed with reason. -/
theorem justified_step (hs : Inv s) (hjust : Justified s.log) (hok : Heard s e)
    (hstep : machine.step s e = some s') : Justified s'.log := by
  cases e with
  | drain =>
    cases hstep
    exact hjust
  | close =>
    cases hstep
    exact hjust
  | notify event now =>
    obtain ⟨hnow, rfl⟩ := step_notify hstep
    refine ⟨?_, hjust⟩
    intro hsuppressed
    dsimp only at hsuppressed
    have hcases : event.kind = .test ∧ (s.sink.notify event now).1.recent = s.sink.recent ∧ _ ∨ _ :=
      notify_cases
    rcases hcases with
      ⟨-, -, hout⟩ | ⟨hkind, hcooling, -⟩ | ⟨-, -, -, hout⟩
    · exact absurd hsuppressed hout
    · obtain ⟨n, hn, hpassed, hkey, hlt⟩ := (hs.isCooling_iff hnow).mp hcooling
      refine ⟨n, hn, ?_, ⟨hkind, hkey.symm⟩, hlt⟩
      cases hout : n.outcome with
      | queued => rfl
      | suppressed => exact absurd hout hpassed.2
      | dropped =>
        have hle := hok hkind n hn hout hkey
        omega
    · exact absurd hsuppressed hout

/-- A call that is not heard is suppressed after an alert the queue refused, and after no other. -/
theorem not_justified_step (hs : Inv s) (hok : ¬ Heard s e)
    (hstep : machine.step s e = some s') : ¬ Justified s'.log := by
  cases e with
  | drain => exact absurd trivial hok
  | close => exact absurd trivial hok
  | notify event now =>
    obtain ⟨hnow, rfl⟩ := step_notify hstep
    unfold Heard at hok
    push Not at hok
    obtain ⟨hkind, n, hn, hdropped, hkey, hlt⟩ := hok
    have hnkind : n.event.kind = event.kind := congrArg Prod.fst hkey
    have hpassed : n.Passed := by
      refine ⟨?_, ?_⟩
      · rw [hnkind]
        exact hkind
      · rw [hdropped]
        exact nofun
    have hcooling := (hs.isCooling_iff hnow).mpr ⟨n, hn, hpassed, hkey, hlt⟩
    have hnotify : s.sink.notify event now = (s.sink, .suppressed) := by
      rw [AlertSink.notify, if_neg hkind, if_pos hcooling]
    rw [hnotify]
    rintro ⟨hjust, -⟩
    obtain ⟨m, hm, hqueued, halike, hmlt⟩ := hjust rfl
    have hmkind : event.kind = m.event.kind := congrArg Prod.fst halike.2
    have hmpassed : m.Passed := by
      refine ⟨?_, ?_⟩
      · rw [← hmkind]
        exact hkind
      · rw [hqueued]
        exact nofun
    -- both are noted under the key, so they are one call
    have hkeys : n.event.key = m.event.key := hkey.trans halike.2
    have hnoted := hs.noted n hn hpassed (by omega)
    rw [hkeys, hs.noted m hm hmpassed (by dsimp only at hmlt; omega)] at hnoted
    have hmoment : m.moment = n.moment := Option.some.inj hnoted
    have hne : n ≠ m := by
      rintro rfl
      rw [hdropped] at hqueued
      cases hqueued
    have hpos := cooldown_pos
    rcases hs.apart_of_ne hn hm hne hpassed hmpassed hkeys with hle | hle
    · omega
    · omega

/-- **Alerts.** In every state of a run queued alerts of one kind and spec are a cooldown apart and
the suppressed ones follow a queued one, just when no alert comes within a cooldown of one of its
kind and spec that the queue refused. -/
theorem suppressed_with_reason_iff {events : List Event}
    (hexec : machine.exec State.initial events = some s) :
    (∀ events' s', events' <+: events → machine.exec State.initial events' = some s' →
      Spaced s'.log ∧ Justified s'.log) ↔ machine.Run Heard State.initial events s := by
  refine forall_prefix_iff_run (I := fun s => Inv s ∧ Justified s.log) ⟨.initial, trivial⟩ ?_ ?_ ?_
    hexec
  · rintro s ⟨hs, hjust⟩
    exact ⟨hs.spaced, hjust⟩
  · rintro s e s' ⟨hs, hjust⟩ hok hstep
    exact ⟨hs.step hstep, justified_step hs hjust hok hstep⟩
  · rintro s e s' ⟨hs, -⟩ hok hstep ⟨-, hjust⟩
    exact not_justified_step hs hok hstep hjust

/-! ### A full queue -/

def alert (kind : AlertKind) (spec : String) : AlertEvent := ⟨kind, spec.toList, none, []⟩

/-- The queue takes the alert. -/
def roomy : List Event :=
  [.notify (alert .saturated "a") 0, .drain, .notify (alert .saturated "a") 1]

theorem suppressed_with_reason_iff_roomy : ∃ s, machine.exec State.initial roomy = some s ∧
    s.log.map Notice.outcome = [.suppressed, .queued] ∧
    ∀ events' s', events' <+: roomy → machine.exec State.initial events' = some s' →
      Spaced s'.log ∧ Justified s'.log := by
  have hrun : machine.Run Heard State.initial roomy
      ((machine.execIf Heard State.initial roomy).get (by decide)) := run_execIf _
  exact ⟨_, rfl, by decide, (suppressed_with_reason_iff rfl).mpr hrun⟩

/-- Tests fill the queue, an alert is refused, and one more when there is room again. -/
def crowded : List Event :=
  List.replicate queueDepth (.notify (alert .test "-") 0) ++
    [.notify (alert .saturated "a") 0, .drain, .notify (alert .saturated "a") 1]

theorem refused_alert_silences : ∃ s, machine.exec State.initial crowded = some s ∧
    (s.log.take 2).map Notice.outcome = [.suppressed, .dropped] ∧ ¬ Justified s.log := by
  have hany : (machine.exec State.initial crowded).any (fun s =>
      (s.log.take 2).map Notice.outcome = [.suppressed, .dropped] ∧ ¬ Justified s.log) = true := by
    decide
  obtain ⟨s, hs, h⟩ := Option.any_eq_true _ _ |>.mp hany
  exact ⟨s, hs, of_decide_eq_true h⟩

end Steps

end Ruscker.Admin.Alerts
