import Ruscker.Db.Schedules
import Ruscker.Lib.Machine

/-!
# The scheduled-jobs runner

A tick lists the schedules, reads its node's clock and claims the due ones one by one
through the compare-and-set of the fire marker.  Any number of ticks run at once, on
nodes whose clocks agree on nothing, while the Schedules page inserts, toggles and
deletes.  The cron library enters as a class with the one fact the runner relies on.
-/

namespace Ruscker.Jobs

open Tables Machines Machines.Machine

/-- The cron library: expressions, zones and the least occurrence after a time. -/
class Croner (Zone : Type) where
  Pattern : Type
  parse : Str → Option Pattern
  occurs : Pattern → Zone → Int → Prop
  findNextOccurrence : Pattern → Zone → Int → Option Int
  next_least : ∀ p tz t n, findNextOccurrence p tz t = some n →
    occurs p tz n ∧ t < n ∧ ∀ o, occurs p tz o → t < o → n ≤ o

section Model

variable {Zone : Type} [croner : Croner Zone] (tz : Zone)

/-! ## What is due -/

def nextOccurrence (cron : Str) (after : Int) : Option Int :=
  (croner.parse cron).bind fun parsed => croner.findNextOccurrence parsed tz after

/-- `o` is an occurrence of the expression in the zone. -/
def Occurs (cron : Str) (o : Int) : Prop :=
  ∃ parsed, croner.parse cron = some parsed ∧ croner.occurs parsed tz o

/-- The last fire marker, or the creation of a schedule that never fired. -/
def anchor (s : Schedule) : Int := s.lastRunAt.getD s.createdAt

def isDue (s : Schedule) (now : Int) : Bool :=
  match nextOccurrence tz s.cron (anchor s) with
  | some next => next ≤ now
  | none => false

/-- The schedules of a listing that a pass at `now` claims. -/
def dueAt (rows : List Schedule) (now : Int) : List Schedule :=
  rows.filter fun s =>
    s.enabled && (nextOccurrence tz s.cron now).isSome && isDue tz s now

/-! ## Ticks -/

/-- ghost: a time span in which a schedule was disabled -/
structure Pause where
  id : Int
  since : Int
  til : Int

inductive Tick where
  | listed (rows : List Schedule) (pauses : List Pause)
  | firing (now : Int) (todo : List Schedule) (pauses : List Pause)
  | finished

/-- ghost: a claim that was won, with the row it was made for -/
structure Fire where
  row : Schedule
  marker : Int
  pauses : List Pause

structure State where
  db : Schedules
  pool : List Tick
  fires : List Fire
  /-- ghost: when the disabled schedules were disabled -/
  disabledSince : Table Int Int
  pauses : List Pause

/-- What comes back of the claim statement. -/
inductive Answer where
  | executed
  /-- committed, but the answer was lost -/
  | lost
  | failed

inductive Event where
  | insert (specId cron : Str) (cmdJson : Option Str) (timeoutSecs : Option Int) (now : Int)
  | setEnabled (id : Int) (enabled : Bool) (now : Int)
  | delete (id : Int)
  /-- a node that takes itself for the leader lists the schedules -/
  | list
  | readClock (i : Nat) (now : Int)
  | claim (i : Nat) (answer : Answer)

def State.move (s : State) (i : Nat) (tick : Tick) : State :=
  { s with pool := s.pool.set i tick }

/-- The toggle, with the pause it opens or closes. -/
def State.setEnabled (s : State) (id : Int) (enabled : Bool) (now : Int) : State :=
  let s' := { s with db := s.db.setEnabled id enabled now }
  match s.db.find id with
  | some row =>
    if row.enabled = enabled then s'
    else if enabled then
      { s' with pauses := ⟨id, (s.disabledSince.lookup id).getD now, now⟩ :: s.pauses }
    else { s' with disabledSince := s.disabledSince.insert id now }
  | none => s'

def step (s : State) : Event → Option State
  | .insert specId cron cmdJson timeoutSecs now =>
    some { s with db := s.db.insert specId cron cmdJson timeoutSecs now }
  | .setEnabled id enabled now => some (s.setEnabled id enabled now)
  | .delete id => some { s with db := s.db.delete id }
  | .list => some { s with pool := s.pool ++ [.listed s.db.listAll s.pauses] }
  | .readClock i now =>
    match s.pool[i]? with
    | some (.listed rows pauses) => some (s.move i (.firing now (dueAt tz rows now) pauses))
    | _ => none
  | .claim i answer =>
    match s.pool[i]? with
    | some (.firing now (row :: todo) pauses) =>
      let s' := s.move i (.firing now todo pauses)
      match answer, s.db.markFired row.id row.lastRunAt now with
      | .executed, some db => some { s' with db, fires := ⟨row, now, pauses⟩ :: s.fires }
      | .lost, some db => some { s' with db }
      | _, _ => some s'
    | _ => none

def machine : Machine State Event := ⟨step tz⟩

/-! ## What a claim is for -/

/-- The fire is on account of the occurrence `o`. -/
structure Fire.Covers (f : Fire) (o : Int) : Prop where
  occurs : Occurs tz f.row.cron o
  after : anchor f.row < o
  upto : o ≤ f.marker

/-- A later claim of one schedule: the marker has moved on past an occurrence, and no
occurrence is claimed again. -/
structure Succeeds (later earlier : Fire) : Prop where
  cron : later.row.cron = earlier.row.cron
  marker : earlier.marker < later.marker
  between : ∃ o, Occurs tz later.row.cron o ∧ earlier.marker < o ∧ o ≤ later.marker
  once : ∀ o, earlier.Covers tz o → ¬ later.Covers tz o

variable {tz} {s s' : State} {row : Schedule} {now : Int}

theorem nextOccurrence_least {cron : Str} {after n : Int}
    (h : nextOccurrence tz cron after = some n) :
    Occurs tz cron n ∧ after < n ∧ ∀ o, Occurs tz cron o → after < o → n ≤ o := by
  obtain ⟨parsed, hparsed, hnext⟩ := Option.bind_eq_some_iff.mp h
  obtain ⟨hoccurs, hafter, hleast⟩ := croner.next_least parsed tz after n hnext
  refine ⟨⟨parsed, hparsed, hoccurs⟩, hafter, ?_⟩
  rintro o ⟨parsed', hparsed', ho⟩ hlt
  obtain rfl : parsed = parsed' := Option.some.inj (hparsed.symm.trans hparsed')
  exact hleast o ho hlt

theorem isDue_iff : isDue tz row now = true ↔
    ∃ next, nextOccurrence tz row.cron (anchor row) = some next ∧ next ≤ now := by
  unfold isDue
  split
  · next next hnext => simp [hnext]
  · next hnone => simp [hnone]

/-- A due schedule has an occurrence between its anchor and now. -/
theorem covers_of_isDue (h : isDue tz row now = true) (pauses : List Pause) :
    ∃ o, Fire.Covers tz ⟨row, now, pauses⟩ o := by
  obtain ⟨next, hnext, hle⟩ := isDue_iff.mp h
  obtain ⟨hoccurs, hafter, -⟩ := nextOccurrence_least hnext
  exact ⟨next, hoccurs, hafter, hle⟩

theorem anchor_lt_of_isDue (h : isDue tz row now = true) : anchor row < now := by
  obtain ⟨o, -, hafter, hupto⟩ := covers_of_isDue h []
  exact Int.lt_of_lt_of_le hafter hupto

/-! ## What the writes of the table keep -/

/-- No identifier comes back, and a schedule keeps its expression and its creation and
never loses ground on its marker. -/
structure Extends (db db' : Schedules) : Prop where
  nextId : db.nextId ≤ db'.nextId
  row : ∀ id < db.nextId, ∀ row', db'.find id = some row' →
    ∃ row, db.find id = some row ∧ row'.cron = row.cron ∧ row'.createdAt = row.createdAt ∧
      ∀ m, row.lastRunAt = some m → ∃ m', row'.lastRunAt = some m' ∧ m ≤ m'

/-- The row was read from the table, now or earlier. -/
structure Known (db : Schedules) (r : Schedule) : Prop where
  id : r.id < db.nextId
  row : ∀ now, db.find r.id = some now → now.cron = r.cron ∧ now.createdAt = r.createdAt

section Frames

variable {db db' : Schedules} {r : Schedule}

theorem Extends.insert (specId cron : Str) (cmdJson : Option Str) (timeoutSecs : Option Int)
    (now : Int) : Extends db (db.insert specId cron cmdJson timeoutSecs now) where
  nextId := by
    show db.nextId ≤ db.nextId + 1
    omega
  row id hlt row' hrow' := by
    have hne : id ≠ db.nextId := by omega
    rw [Schedules.find, Schedules.insert, Table.lookup_insert_eq, if_neg hne] at hrow'
    exact ⟨row', hrow', rfl, rfl, fun m hm => ⟨m, hm, Int.le_refl m⟩⟩

theorem Extends.setEnabled (id : Int) (enabled : Bool) (now : Int) :
    Extends db (db.setEnabled id enabled now) where
  nextId := Int.le_refl _
  row k _ row' hrow' := by
    rw [Schedules.setEnabled, Schedules.find_update] at hrow'
    split at hrow'
    · obtain ⟨row, hrow, rfl⟩ := Option.map_eq_some_iff.mp hrow'
      exact ⟨row, hrow, rfl, rfl, fun m hm => ⟨m, hm, Int.le_refl m⟩⟩
    · exact ⟨row', hrow', rfl, rfl, fun m hm => ⟨m, hm, Int.le_refl m⟩⟩

theorem Extends.delete (id : Int) : Extends db (db.delete id) where
  nextId := Int.le_refl _
  row k _ row' hrow' := by
    rw [Schedules.find, Schedules.delete, Table.lookup_erase_eq] at hrow'
    split at hrow'
    · cases hrow'
    · exact ⟨row', hrow', rfl, rfl, fun m hm => ⟨m, hm, Int.le_refl m⟩⟩

/-- A won claim of a due row moves the marker on. -/
theorem Extends.markFired (hdue : isDue tz r now = true)
    (h : db.markFired r.id r.lastRunAt now = some db') : Extends db db' := by
  obtain ⟨row, hrow, hlast, hnext, hfind⟩ := Schedules.markFired_eq_some h
  refine ⟨by omega, fun id _ row' hrow' => ?_⟩
  rw [hfind] at hrow'
  split at hrow'
  · next hid =>
    subst hid
    cases hrow'
    refine ⟨row, hrow, rfl, rfl, fun m hm => ⟨now, rfl, ?_⟩⟩
    have hlt := anchor_lt_of_isDue hdue
    rw [anchor, ← hlast, hm, Option.getD_some] at hlt
    exact Int.le_of_lt hlt
  · exact ⟨row', hrow', rfl, rfl, fun m hm => ⟨m, hm, Int.le_refl m⟩⟩

theorem Known.of_find {id : Int} (h : db.find id = some r) : Known db r := by
  obtain ⟨rfl, hlt⟩ := db.keyed id r h
  refine ⟨hlt, fun now hnow => ?_⟩
  obtain rfl : r = now := Option.some.inj (h.symm.trans hnow)
  exact ⟨rfl, rfl⟩

theorem Known.mono (h : Known db r) (hext : Extends db db') : Known db' r where
  id := Int.lt_of_lt_of_le h.id hext.nextId
  row now hnow := by
    obtain ⟨row, hrow, hcron, hcreated, -⟩ := hext.row r.id h.id now hnow
    obtain ⟨hcron', hcreated'⟩ := h.row row hrow
    exact ⟨hcron.trans hcron', hcreated.trans hcreated'⟩

/-- A row that is still to be claimed, or was listed. -/
def Tick.Sound (tz : Zone) (db : Schedules) : Tick → Prop
  | .listed rows _ => ∀ r ∈ rows, Known db r
  | .firing now todo _ => ∀ r ∈ todo, Known db r ∧ isDue tz r now = true
  | .finished => True

theorem Tick.Sound.mono {t : Tick} (h : t.Sound tz db) (hext : Extends db db') :
    t.Sound tz db' := by
  cases t with
  | listed rows pauses => exact fun r hr => (h r hr).mono hext
  | firing now todo pauses => exact fun r hr => ⟨(h r hr).1.mono hext, (h r hr).2⟩
  | finished => trivial

/-- The marker of the table has not fallen behind the fire. -/
structure Fire.Sound (db : Schedules) (f : Fire) : Prop where
  known : Known db f.row
  marker : ∀ now, db.find f.row.id = some now → ∃ m, now.lastRunAt = some m ∧ f.marker ≤ m

theorem Fire.Sound.mono {f : Fire} (h : f.Sound db) (hext : Extends db db') : f.Sound db' where
  known := h.known.mono hext
  marker now hnow := by
    obtain ⟨row, hrow, -, -, hmarker⟩ := hext.row f.row.id h.known.id now hnow
    obtain ⟨m, hm, hle⟩ := h.marker row hrow
    obtain ⟨m', hm', hle'⟩ := hmarker m hm
    exact ⟨m', hm', Int.le_trans hle hle'⟩

/-- A won claim succeeds every earlier one of its schedule. -/
theorem succeeds_of_markFired {f : Fire} (hf : f.Sound db) (hknown : Known db r)
    (hdue : isDue tz r now = true) (h : db.markFired r.id r.lastRunAt now = some db')
    (hid : r.id = f.row.id) (pauses : List Pause) : Succeeds tz ⟨r, now, pauses⟩ f := by
  obtain ⟨row, hrow, hlast, -, -⟩ := Schedules.markFired_eq_some h
  obtain ⟨m, hm, hle⟩ := hf.marker row (hid ▸ hrow)
  have hanchor : anchor r = m := by rw [anchor, ← hlast, hm, Option.getD_some]
  obtain ⟨o, hoccurs, hafter, hupto⟩ := covers_of_isDue hdue pauses
  dsimp only at hoccurs hafter hupto
  refine ⟨?_, ?_, ⟨o, hoccurs, by omega, hupto⟩, fun o' hearlier hlater => ?_⟩
  · exact (hknown.row row hrow).1.symm.trans (hf.known.row row (hid ▸ hrow)).1
  · have hlt := anchor_lt_of_isDue hdue
    show f.marker < now
    omega
  · have hlower := hlater.after
    have hupper := hearlier.upto
    dsimp only at hlower
    omega

end Frames

structure Inv (tz : Zone) (s : State) : Prop where
  ticks : ∀ t ∈ s.pool, t.Sound tz s.db
  fires : ∀ f ∈ s.fires, f.Sound s.db
  covered : ∀ f ∈ s.fires, ∃ o, f.Covers tz o
  ordered : s.fires.Pairwise fun later earlier =>
    later.row.id = earlier.row.id → Succeeds tz later earlier

theorem Inv.start (hpool : s.pool = []) (hfires : s.fires = []) : Inv tz s := by
  refine ⟨?_, ?_, ?_, ?_⟩
  · simp [hpool]
  · simp [hfires]
  · simp [hfires]
  · simp [hfires]

/-- A write of the table that neither ticks nor fires. -/
theorem Inv.write (h : Inv tz s) (hext : Extends s.db s'.db) (hpool : s'.pool = s.pool)
    (hfires : s'.fires = s.fires) : Inv tz s' where
  ticks t ht := (h.ticks t (hpool ▸ ht)).mono hext
  fires f hf := (h.fires f (hfires ▸ hf)).mono hext
  covered f hf := h.covered f (hfires ▸ hf)
  ordered := hfires ▸ h.ordered

theorem Inv.move {i : Nat} {t : Tick} (h : Inv tz s) (ht : t.Sound tz s.db) :
    Inv tz (s.move i t) :=
  ⟨forall_mem_set h.ticks ht, h.fires, h.covered, h.ordered⟩

/-- The statement of a claim commits: the marker moves on, and a claim that is answered
joins the fires. -/
theorem Inv.claimed {i : Nat} {todo : List Schedule} {pauses : List Pause} {db : Schedules}
    (h : Inv tz s) (hi : s.pool[i]? = some (.firing now (row :: todo) pauses))
    (hfired : s.db.markFired row.id row.lastRunAt now = some db) :
    Inv tz { s.move i (.firing now todo pauses) with db } ∧
    Inv tz { s.move i (.firing now todo pauses) with
      db, fires := ⟨row, now, pauses⟩ :: s.fires } := by
  have hsound := h.ticks _ (List.mem_of_getElem? hi)
  obtain ⟨hknown, hdue⟩ := hsound row (List.mem_cons_self ..)
  have hext := Extends.markFired hdue hfired
  have hmoved : Inv tz (s.move i (.firing now todo pauses)) :=
    h.move fun r hr => hsound r (List.mem_cons_of_mem row hr)
  have hlost : Inv tz { s.move i (.firing now todo pauses) with db } := hmoved.write hext rfl rfl
  refine ⟨hlost, hlost.ticks, ?_, ?_, ?_⟩
  · intro f hf
    rcases List.mem_cons.mp hf with rfl | hold
    · obtain ⟨row', -, -, -, hfind⟩ := Schedules.markFired_eq_some hfired
      refine ⟨hknown.mono hext, fun current hcurrent => ⟨now, ?_, Int.le_refl now⟩⟩
      rw [hfind, if_pos rfl] at hcurrent
      cases hcurrent
      rfl
    · exact hlost.fires f hold
  · intro f hf
    rcases List.mem_cons.mp hf with rfl | hold
    · exact covers_of_isDue hdue pauses
    · exact hlost.covered f hold
  · refine List.pairwise_cons.mpr ⟨fun f hf hid => ?_, h.ordered⟩
    exact succeeds_of_markFired (h.fires f hf) hknown hdue hfired hid pauses

theorem State.setEnabled_frame (s : State) (id : Int) (enabled : Bool) (now : Int) :
    (s.setEnabled id enabled now).db = s.db.setEnabled id enabled now ∧
      (s.setEnabled id enabled now).pool = s.pool ∧
      (s.setEnabled id enabled now).fires = s.fires := by
  unfold State.setEnabled
  split
  · split
    · exact ⟨rfl, rfl, rfl⟩
    · split <;> exact ⟨rfl, rfl, rfl⟩
  · exact ⟨rfl, rfl, rfl⟩

theorem Inv.step {e : Event} (h : Inv tz s) (hstep : (machine tz).step s e = some s') :
    Inv tz s' := by
  cases e with
  | insert specId cron cmdJson timeoutSecs now =>
    cases hstep
    exact h.write (.insert specId cron cmdJson timeoutSecs now) rfl rfl
  | setEnabled id enabled now =>
    cases hstep
    obtain ⟨hdb, hpool, hfires⟩ := s.setEnabled_frame id enabled now
    exact h.write (hdb ▸ .setEnabled id enabled now) hpool hfires
  | delete id =>
    cases hstep
    exact h.write (.delete id) rfl rfl
  | list =>
    cases hstep
    refine ⟨forall_mem_concat h.ticks ?_, h.fires, h.covered, h.ordered⟩
    exact fun r hr => .of_find (Schedules.mem_listAll.mp hr)
  | readClock i now =>
    simp only [machine, Jobs.step] at hstep
    split at hstep <;> cases hstep
    next rows pauses hi =>
    refine h.move fun r hr => ?_
    obtain ⟨hrow, hdue⟩ := List.mem_filter.mp hr
    simp only [Bool.and_eq_true] at hdue
    exact ⟨h.ticks _ (List.mem_of_getElem? hi) r hrow, hdue.2⟩
  | claim i answer =>
    simp only [machine, Jobs.step] at hstep
    split at hstep
    · next now row todo pauses hi =>
      have hskip : Inv tz (s.move i (.firing now todo pauses)) := h.move fun r hr =>
        h.ticks _ (List.mem_of_getElem? hi) r (List.mem_cons_of_mem row hr)
      split at hstep <;> cases hstep
      · next db hfired => exact (h.claimed hi hfired).2
      · next db hfired => exact (h.claimed hi hfired).1
      · exact hskip
    · cases hstep

/-- **Every occurrence is claimed at most once.** In every run of ticks with any clocks,
among inserts, toggles and deletes, each claim of a schedule is for an occurrence, and it
succeeds every earlier one. -/
theorem claims_ordered {es : List Event} (hrun : (machine tz).Run Free s es s')
    (hpool : s.pool = []) (hfires : s.fires = []) :
    (∀ f ∈ s'.fires, ∃ o, f.Covers tz o) ∧
      s'.fires.Pairwise fun later earlier =>
        later.row.id = earlier.row.id → Succeeds tz later earlier := by
  have hend := hrun.invariant (Inv.start hpool hfires) fun _ _ _ hinv _ hstep =>
    hinv.step hstep
  exact ⟨hend.covered, hend.ordered⟩

end Model

/-! ## Two nodes and one occurrence -/

section Hourly

/-- The library on the expression of every full hour, with times in seconds. -/
@[reducible] def hourlyCroner : Croner Unit where
  Pattern := Unit
  parse s := if s = "0 * * * *".toList then some () else none
  occurs _ _ o := o % 3600 = 0
  findNextOccurrence _ _ t := some ((t / 3600 + 1) * 3600)
  next_least _ _ t n h := by
    cases h
    refine ⟨by omega, by omega, fun o ho hlt => ?_⟩
    omega

attribute [local instance] hourlyCroner

def noSchedules : State := ⟨⟨∅, 1, nofun⟩, [], [], ∅, []⟩

def createHourly : Event := .insert "etl".toList "0 * * * *".toList none none 0

/-- Both nodes list the schedule before either claims it; the clock of the second is behind,
and its next tick is on time again. -/
def splitBrain : List Event :=
  [createHourly, .list, .list, .readClock 0 3605, .readClock 1 3601, .claim 0 .executed,
    .claim 1 .executed, .list, .readClock 2 7203, .claim 2 .executed]

theorem claims_ordered_splitBrain :
    ∃ s', (machine ()).Run Free noSchedules splitBrain s' ∧ s'.fires.length = 2 ∧
      (∀ f ∈ s'.fires, ∃ o, f.Covers () o) ∧
      s'.fires.Pairwise fun later earlier =>
        later.row.id = earlier.row.id → Succeeds () later earlier := by
  have hsome : ((machine ()).exec noSchedules splitBrain).isSome = true := by decide
  have hrun := run_free_iff.mpr (Option.some_get hsome).symm
  exact ⟨_, hrun, rfl, claims_ordered hrun rfl rfl⟩

end Hourly

end Ruscker.Jobs
