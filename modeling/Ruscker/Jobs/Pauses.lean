import Ruscker.Jobs.Scheduler

/-!
# Disabled schedules

Disabling a schedule leaves its fire marker where it was, so what is due after it is
enabled again counts from before the pause.  The condition below is on the moment of
enabling: the schedule is not due then.
-/

namespace Ruscker.Jobs

open Tables Machines Machines.Machine

section Model

variable {Zone : Type} [croner : Croner Zone] (tz : Zone)

/-- The fire is for an occurrence outside the pauses the tick knew of, and for none from
before the last of them ended. -/
structure Fire.AfterPauses (f : Fire) : Prop where
  outside : ∃ o, f.Covers tz o ∧
    ∀ p ∈ f.pauses, p.id = f.row.id → ¬ (p.since < o ∧ o ≤ p.til)
  after : ∀ o, f.Covers tz o → ∀ p ∈ f.pauses, p.id = f.row.id → p.til < o

/-- The side condition on a toggle: a schedule is enabled while it is not due. -/
def EnabledAtRest (s : State) : Event → Prop
  | .setEnabled id enabled now =>
    enabled = true → ∀ row ∈ s.db.find id, row.enabled = false → isDue tz row now = false
  | _ => True

instance (s : State) (e : Event) : Decidable (EnabledAtRest tz s e) := by
  unfold EnabledAtRest
  split
  · exact inferInstance
  · exact instDecidableTrue

/-- What comes due next comes after the pauses. -/
def Rested (pauses : List Pause) (row : Schedule) : Prop :=
  ∀ p ∈ pauses, p.id = row.id → ∀ n, nextOccurrence tz row.cron (anchor row) = some n → p.til < n

variable {tz} {s s' : State} {row : Schedule} {now : Int} {pauses : List Pause}

theorem afterPauses_of_rested {f : Fire} (h : Rested tz f.pauses f.row)
    (hcovers : ∃ o, f.Covers tz o) (hdue : isDue tz f.row f.marker = true) : f.AfterPauses tz := by
  obtain ⟨n, hn, hle⟩ := isDue_iff.mp hdue
  have hafter : ∀ o, f.Covers tz o → ∀ p ∈ f.pauses, p.id = f.row.id → p.til < o := by
    intro o ho p hp hid
    have hpause := h p hp hid n hn
    have hleast := (nextOccurrence_least hn).2.2 o ho.occurs ho.after
    omega
  obtain ⟨o, ho⟩ := hcovers
  refine ⟨⟨o, ho, fun p hp hid hin => ?_⟩, hafter⟩
  have hlt := hafter o ho p hp hid
  omega

/-- The expression, the anchor and the identifier are all that counts. -/
theorem Rested.congr {row' : Schedule} (h : Rested tz pauses row) (hid : row'.id = row.id)
    (hcron : row'.cron = row.cron) (hanchor : anchor row' = anchor row) :
    Rested tz pauses row' := by
  intro p hp hpid n hn
  rw [hcron, hanchor] at hn
  exact h p hp (hpid.trans hid) n hn

/-- A marker that moves on moves past what came due. -/
theorem Rested.fired {row' : Schedule} (h : Rested tz pauses row) (hdue : isDue tz row now = true)
    (hid : row'.id = row.id) (hcron : row'.cron = row.cron) (hanchor : anchor row' = now) :
    Rested tz pauses row' := by
  obtain ⟨n, hn, hle⟩ := isDue_iff.mp hdue
  intro p hp hpid n' hn'
  rw [hcron, hanchor] at hn'
  have hold := h p hp (hpid.trans hid) n hn
  have hnew := (nextOccurrence_least hn').2.1
  omega

def Tick.Rested (tz : Zone) : Tick → Prop
  | .listed rows pauses => ∀ r ∈ rows, Jobs.Rested tz pauses r
  | .firing _ todo pauses => ∀ r ∈ todo, Jobs.Rested tz pauses r
  | .finished => True

structure AtRest (tz : Zone) (s : State) : Prop where
  base : Inv tz s
  rows : ∀ id row, s.db.find id = some row → Rested tz s.pauses row
  known : ∀ p ∈ s.pauses, p.id < s.db.nextId
  ticks : ∀ t ∈ s.pool, t.Rested tz
  fires : ∀ f ∈ s.fires, f.AfterPauses tz

/-! ## Toggles -/

theorem State.setEnabled_pauses (s : State) (id : Int) (enabled : Bool) (now : Int) :
    (s.setEnabled id enabled now).pauses = s.pauses ∨
    ∃ row since, s.db.find id = some row ∧ row.enabled = false ∧ enabled = true ∧
      (s.setEnabled id enabled now).pauses = ⟨id, since, now⟩ :: s.pauses := by
  unfold State.setEnabled
  split
  · next row hrow =>
    split
    · exact .inl rfl
    · next hne =>
      split
      · next htrue =>
        subst htrue
        exact .inr ⟨row, _, hrow, by simpa using hne, rfl, rfl⟩
      · exact .inl rfl
  · exact .inl rfl

/-- A toggle moves neither the marker nor the expression. -/
theorem find_setEnabled {db : Schedules} {id k : Int} {enabled : Bool}
    (h : (db.setEnabled id enabled now).find k = some row) :
    ∃ old, db.find k = some old ∧ row.id = old.id ∧ row.cron = old.cron ∧
      anchor row = anchor old := by
  rw [Schedules.setEnabled, Schedules.find_update] at h
  split at h
  · obtain ⟨old, hold, rfl⟩ := Option.map_eq_some_iff.mp h
    exact ⟨old, hold, rfl, rfl, rfl⟩
  · exact ⟨row, h, rfl, rfl, rfl⟩

/-- A schedule that is not due has nothing to make up for. -/
theorem rested_cons {p : Pause} (h : Rested tz pauses row)
    (hnew : p.id = row.id → isDue tz row p.til = false) : Rested tz (p :: pauses) row := by
  intro q hq hid n hn
  rcases List.mem_cons.mp hq with rfl | hold
  · have hnot := hnew hid
    by_contra hle
    have hdue : isDue tz row q.til = true := isDue_iff.mpr ⟨n, hn, by omega⟩
    rw [hnot] at hdue
    cases hdue
  · exact h q hold hid n hn

theorem AtRest.setEnabled {id : Int} {enabled : Bool} (h : AtRest tz s)
    (hrest : EnabledAtRest tz s (.setEnabled id enabled now))
    (hbase : Inv tz (s.setEnabled id enabled now)) : AtRest tz (s.setEnabled id enabled now) := by
  obtain ⟨hdb, hpool, hfires⟩ := s.setEnabled_frame id enabled now
  have hticks : ∀ t ∈ (s.setEnabled id enabled now).pool, t.Rested tz := hpool ▸ h.ticks
  have hfires' : ∀ f ∈ (s.setEnabled id enabled now).fires, f.AfterPauses tz := hfires ▸ h.fires
  have hrows : ∀ k row, (s.setEnabled id enabled now).db.find k = some row →
      ∃ old, s.db.find k = some old ∧ row.id = old.id ∧ row.cron = old.cron ∧
        anchor row = anchor old := by
    intro k row hrow
    rw [hdb] at hrow
    exact find_setEnabled hrow
  rcases s.setEnabled_pauses id enabled now with hsame | ⟨row, since, hrow, hoff, hon, hpauses⟩
  · refine ⟨hbase, fun k row' hrow' => ?_, ?_, hticks, hfires'⟩
    · obtain ⟨old, hold, hid, hcron, hanchor⟩ := hrows k row' hrow'
      rw [hsame]
      exact (h.rows k old hold).congr hid hcron hanchor
    · rw [hsame, hdb]
      exact h.known
  · refine ⟨hbase, fun k row' hrow' => ?_, ?_, hticks, hfires'⟩
    · obtain ⟨old, hold, hid, hcron, hanchor⟩ := hrows k row' hrow'
      rw [hpauses]
      refine Rested.congr (rested_cons (h.rows k old hold) fun hpid => ?_) hid hcron hanchor
      have hkey := (s.db.keyed k old hold).1
      obtain rfl : id = k := hpid.trans hkey
      obtain rfl : row = old := Option.some.inj (hrow.symm.trans hold)
      exact hrest hon row hrow hoff
    · rw [hpauses, hdb]
      intro p hp
      rcases List.mem_cons.mp hp with rfl | hold
      · exact (s.db.keyed id row hrow).2
      · exact h.known p hold

/-! ## Ticks -/

theorem AtRest.move {i : Nat} {t : Tick} (h : AtRest tz s) (hbase : Inv tz (s.move i t))
    (ht : t.Rested tz) : AtRest tz (s.move i t) :=
  ⟨hbase, h.rows, h.known, forall_mem_set h.ticks ht, h.fires⟩

/-- A committed claim moves the marker of its row past what the row was due for. -/
theorem AtRest.rows_markFired {db : Schedules} (h : AtRest tz s) (hknown : Known s.db row)
    (hdue : isDue tz row now = true)
    (hfired : s.db.markFired row.id row.lastRunAt now = some db) :
    ∀ id r, db.find id = some r → Rested tz s.pauses r := by
  obtain ⟨current, hcurrent, hlast, -, hfind⟩ := Schedules.markFired_eq_some hfired
  obtain ⟨hcron, hcreated⟩ := hknown.row current hcurrent
  have hdue' : isDue tz current now = true := by
    rw [isDue_iff] at hdue ⊢
    rw [hcron, anchor, hlast, hcreated]
    exact hdue
  intro id r hr
  rw [hfind] at hr
  split at hr
  · cases hr
    exact (h.rows row.id current hcurrent).fired hdue' rfl rfl rfl
  · exact h.rows id r hr

theorem AtRest.step {e : Event} (h : AtRest tz s) (hrest : EnabledAtRest tz s e)
    (hstep : (machine tz).step s e = some s') : AtRest tz s' := by
  have hbase : Inv tz s' := h.base.step hstep
  cases e with
  | insert specId cron cmdJson timeoutSecs now =>
    cases hstep
    refine ⟨hbase, fun id row hrow => ?_, fun p hp => ?_, h.ticks, h.fires⟩
    · rw [Schedules.find, Schedules.insert, Table.lookup_insert_eq] at hrow
      split at hrow
      · cases hrow
        intro p hp hid
        have hlt := h.known p hp
        rw [hid] at hlt
        exact absurd hlt (Int.lt_irrefl _)
      · exact h.rows id row hrow
    · have hlt := h.known p hp
      show p.id < s.db.nextId + 1
      omega
  | setEnabled id enabled now =>
    cases hstep
    exact h.setEnabled hrest hbase
  | delete id =>
    cases hstep
    refine ⟨hbase, fun k row hrow => ?_, h.known, h.ticks, h.fires⟩
    rw [Schedules.find, Schedules.delete, Table.lookup_erase_eq] at hrow
    split at hrow
    · cases hrow
    · exact h.rows k row hrow
  | list =>
    cases hstep
    refine ⟨hbase, h.rows, h.known, forall_mem_concat h.ticks fun r hr => ?_, h.fires⟩
    exact h.rows r.id r (Schedules.mem_listAll.mp hr)
  | readClock i now =>
    simp only [machine, Jobs.step] at hstep
    split at hstep <;> cases hstep
    next rows pauses hi =>
    refine h.move hbase fun r hr => ?_
    exact h.ticks _ (List.mem_of_getElem? hi) r (List.mem_filter.mp hr).1
  | claim i answer =>
    simp only [machine, Jobs.step] at hstep
    split at hstep
    · next now row todo pauses hi =>
      have hmem := List.mem_of_getElem? hi
      obtain ⟨hknown, hdue⟩ := h.base.ticks _ hmem row (List.mem_cons_self ..)
      have hticks : ∀ t ∈ (s.move i (.firing now todo pauses)).pool, t.Rested tz :=
        forall_mem_set h.ticks fun r hr => h.ticks _ hmem r (List.mem_cons_of_mem row hr)
      split at hstep <;> cases hstep
      · next db hfired =>
        refine ⟨hbase, h.rows_markFired hknown hdue hfired, ?_, hticks, fun f hf => ?_⟩
        · obtain ⟨-, -, -, hnext, -⟩ := Schedules.markFired_eq_some hfired
          exact fun p hp => hnext ▸ h.known p hp
        · rcases List.mem_cons.mp hf with rfl | hold
          · exact afterPauses_of_rested (h.ticks _ hmem row (List.mem_cons_self ..))
              (covers_of_isDue hdue pauses) hdue
          · exact h.fires f hold
      · next db hfired =>
        refine ⟨hbase, h.rows_markFired hknown hdue hfired, ?_, hticks, h.fires⟩
        obtain ⟨-, -, -, hnext, -⟩ := Schedules.markFired_eq_some hfired
        exact fun p hp => hnext ▸ h.known p hp
      · exact ⟨hbase, h.rows, h.known, hticks, h.fires⟩
    · cases hstep

/-- **No fire makes up for a pause.** In every run whose schedules are enabled while they
are not due, each fire is for an occurrence outside the pauses, and for none from before
the last of them ended. -/
theorem fires_afterPauses {es : List Event} (hrun : (machine tz).Run (EnabledAtRest tz) s es s')
    (hpool : s.pool = []) (hfires : s.fires = []) (hpauses : s.pauses = []) :
    ∀ f ∈ s'.fires, f.AfterPauses tz := by
  have hstart : AtRest tz s := by
    refine ⟨.start hpool hfires, fun id row hrow p hp => ?_, ?_, ?_, ?_⟩
    · simp [hpauses] at hp
    · simp [hpauses]
    · simp [hpool]
    · simp [hfires]
  exact (hrun.invariant hstart fun _ _ _ hinv hrest hstep => hinv.step hrest hstep).fires

end Model

/-! ## Enabled after the hour -/

section Hourly

attribute [local instance] hourlyCroner

/-- The full hour passes while the schedule is disabled. -/
def enabledAfter : List Event :=
  [createHourly, .setEnabled 1 false 100, .setEnabled 1 true 4000, .list, .readClock 0 4010,
    .claim 0 .executed]

theorem enabledAfter_makesUp :
    ¬ ∀ (s s' : State) (es : List Event), (machine ()).Run Free s es s' → s.pool = [] →
      s.fires = [] → s.pauses = [] → ∀ f ∈ s'.fires, f.AfterPauses () := by
  intro hclaim
  have hfires := hclaim noSchedules (((machine ()).exec noSchedules enabledAfter).get (by decide))
    enabledAfter (run_free_iff.mpr (Option.some_get _).symm) rfl rfl rfl
  have hafter := (hfires _ (List.mem_cons_self ..)).after 3600 ⟨⟨(), rfl, rfl⟩, by decide, by decide⟩
    ⟨1, 100, 4000⟩ (List.mem_cons_self ..) rfl
  exact absurd hafter (by decide)

/-- The schedule is enabled again before the hour. -/
def enabledBefore : List Event :=
  [createHourly, .setEnabled 1 false 100, .setEnabled 1 true 3000, .list, .readClock 0 3610,
    .claim 0 .executed]

theorem fires_afterPauses_enabledBefore :
    ∃ s', (machine ()).Run (EnabledAtRest ()) noSchedules enabledBefore s' ∧ s'.fires.length = 1 ∧
      ∀ f ∈ s'.fires, f.AfterPauses () := by
  have hsome : ((machine ()).execIf (EnabledAtRest ()) noSchedules enabledBefore).isSome = true := by
    decide
  have hrun := run_execIf hsome
  exact ⟨_, hrun, rfl, fires_afterPauses hrun rfl rfl rfl⟩

end Hourly

end Ruscker.Jobs
