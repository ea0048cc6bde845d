import Ruscker.Scaler.IdleStops

/-!
# The lifetimes of replicas

A spec may cap the age of its replicas, by minutes and a drain window in seconds that are any `u64`.
The sums saturate, but the cast to `i64` in front of them wraps, and a cap or a window from `2 ^ 63`
on comes to an age that a replica already has.
-/

namespace Ruscker.Scaler.IdleStops

open Proxy.Calls

variable {ι : Type*}

/-! ## What a cap promises -/

/-- The instants a clock can show, in milliseconds that fit an `i64`. -/
structure Clock where
  last : Nat
  minute : 60000 ≤ last
  fits : last < 2 ^ 63

namespace Clock

/-- The greatest age, in whole seconds. -/
def longest (clock : Clock) : Nat := clock.last / 1000

/-- A reading of a pool. -/
structure Shows (clock : Clock) (now : Nat) (pool : List (Replica ι)) : Prop where
  now_le : now ≤ clock.last
  started_le : ∀ r ∈ pool, r.startedAt ≤ clock.last

end Clock

section Promises

variable [Floats]

/-- The drain window in seconds. -/
def drainSecs (settings : Settings) : Nat := settings.drainTimeout.elim 60 fun d => d.val

/-- An idle replica is younger than both caps, and a busy one than the hard cap and its window. -/
def IsYoung (settings : Settings) (now : Nat) (r : Replica ι) : Prop :=
  if r.sessionsActive = 0 then
    (∀ m ∈ settings.maxLifetime, ageSecs now r < 60 * m.val) ∧
      ∀ m ∈ settings.containerLifetime, ageSecs now r < 60 * m.val
  else ∀ m ∈ settings.maxLifetime, ageSecs now r < 60 * m.val + drainSecs settings

/-- No young replica is reaped. -/
def Patient (ι : Type*) (clock : Clock) (settings : Settings) : Prop :=
  ∀ now (pool : List (Replica ι)), clock.Shows now pool → ∀ r ∈ pool, IsYoung settings now r →
    r ∉ lifetimeReapCandidates settings pool now

/-- The second settings reap no more than the first. -/
def ReapsNoMore (ι : Type*) (clock : Clock) (settings settings' : Settings) : Prop :=
  ∀ now (pool : List (Replica ι)), clock.Shows now pool →
    lifetimeReapCandidates settings' pool now ⊆ lifetimeReapCandidates settings pool now

/-- The same caps are set, and no value is smaller than before. -/
structure Raised (settings settings' : Settings) : Prop where
  hard : Option.Rel (· ≤ ·) settings.maxLifetime settings'.maxLifetime
  soft : Option.Rel (· ≤ ·) settings.containerLifetime settings'.containerLifetime
  drain : drainSecs settings ≤ drainSecs settings'

/-- The caps fit an `i64`, and so does the window of a hard cap, or else the end it wraps to lies
beyond every age. -/
structure Fits (clock : Clock) (settings : Settings) : Prop where
  hard : ∀ m ∈ settings.maxLifetime, m.val < 2 ^ 63
  soft : ∀ m ∈ settings.containerLifetime, m.val < 2 ^ 63
  drain : ∀ m ∈ settings.maxLifetime, drainSecs settings < 2 ^ 63 ∨
    clock.longest + 2 ^ 64 < min (60 * m.val) (2 ^ 63 - 1) + drainSecs settings

end Promises

/-! ## Wrapping and saturating -/

section Wrap

variable {m n : U64}

theorem asI64_le (n : U64) : asI64 n ≤ n.val := by
  unfold asI64
  split <;> omega

/-- A cap in seconds never exceeds its minutes. -/
theorem cap_le (m : U64) : saturateI64 (asI64 m * 60) ≤ 60 * m.val := by
  have := asI64_le m
  unfold saturateI64
  omega

theorem cap_of_lt (h : m.val < 2 ^ 63) :
    saturateI64 (asI64 m * 60) = min (60 * m.val) (2 ^ 63 - 1) := by
  unfold saturateI64 asI64
  rw [if_pos h]
  omega

/-- A cap that wraps is below zero. -/
theorem cap_of_le (h : 2 ^ 63 ≤ m.val) : saturateI64 (asI64 m * 60) ≤ -60 := by
  have := m.isLt
  unfold saturateI64 asI64
  rw [if_neg (Nat.not_lt.mpr h)]
  omega

/-- A cap that is set was set before, and to no more. -/
theorem exists_le_of_rel {a b : Option U64} (h : Option.Rel (· ≤ ·) a b) {n : U64} (hn : n ∈ b) :
    ∃ m ∈ a, m.val ≤ n.val := by
  cases h with
  | some hle =>
    cases hn
    exact ⟨_, rfl, hle⟩
  | none => cases hn

end Wrap

/-! ## Ages -/

section Ages

variable {clock : Clock} {now : Nat} {pool : List (Replica ι)}

theorem ageSecs_le (hshows : clock.Shows now pool) (r : Replica ι) :
    ageSecs now r ≤ clock.longest := by
  have hnow := hshows.now_le
  have hage : ageSecs now r ≤ (clock.last : Int).tdiv 1000 :=
    Int.tdiv_le_tdiv (by decide) (by omega)
  rw [Int.tdiv_eq_ediv_of_nonneg (by omega)] at hage
  exact hage

/-- A pool of one replica of a given age. -/
def agedReplica (id : ι) (age : Int) (sessions : Nat) : Replica ι :=
  ⟨id, [], .ready, (-age).toNat * 1000, sessions, 1⟩

theorem ageSecs_agedReplica (id : ι) (age : Int) (sessions : Nat) :
    ageSecs (age.toNat * 1000) (agedReplica id age sessions) = age := by
  have hspan : ((age.toNat * 1000 : Nat) : Int) - ((-age).toNat * 1000 : Nat) = age * 1000 := by
    omega
  rw [ageSecs, agedReplica, hspan]
  exact Int.mul_tdiv_cancel age (by decide)

/-- The clock can show every age up to its longest. -/
theorem shows_agedReplica {id : ι} {age : Int} {sessions : Nat} (hlow : -clock.longest ≤ age)
    (hhigh : age ≤ clock.longest) :
    clock.Shows (age.toNat * 1000) [agedReplica id age sessions] := by
  unfold Clock.longest at hlow hhigh
  refine ⟨by omega, fun r hr => ?_⟩
  rw [List.mem_singleton.mp hr, agedReplica]
  dsimp only
  omega

end Ages

/-! ## Which replicas are reaped -/

section Reap

variable [Floats] {clock : Clock} {settings settings' : Settings} {now : Nat}
  {pool : List (Replica ι)} {r : Replica ι} {m : U64}

/-- The window as the source has it. -/
theorem effectiveDrainTimeoutSecs_eq : settings.effectiveDrainTimeoutSecs =
    if drainSecs settings < 2 ^ 63 then (drainSecs settings : Int)
    else drainSecs settings - 2 ^ 64 := by
  unfold Settings.effectiveDrainTimeoutSecs drainSecs
  cases settings.drainTimeout with
  | none => rfl
  | some d => rfl

theorem drainSecs_lt : drainSecs settings < 2 ^ 64 := by
  unfold drainSecs
  cases settings.drainTimeout with
  | none => decide
  | some d => exact d.isLt

/-- When a busy replica past its hard cap is stopped. -/
def deadline (settings : Settings) (m : U64) : Int :=
  saturateI64 (saturateI64 (asI64 m * 60) + settings.effectiveDrainTimeoutSecs)

/-- The deadline never comes after the end of the window. -/
theorem deadline_le : deadline settings m ≤ 60 * m.val + drainSecs settings := by
  have hcap := cap_le m
  have hdrain : drainSecs settings < 2 ^ 64 := drainSecs_lt
  have hfloor : -2 ^ 63 ≤ saturateI64 (asI64 m * 60) := Int.le_max_left _ _
  rw [deadline, effectiveDrainTimeoutSecs_eq, saturateI64]
  split <;> omega

/-- The end of a window that fits. -/
theorem deadline_of_lt (hm : m.val < 2 ^ 63) (hd : drainSecs settings < 2 ^ 63) :
    deadline settings m = min (60 * m.val + drainSecs settings) (2 ^ 63 - 1) := by
  rw [deadline, effectiveDrainTimeoutSecs_eq, if_pos hd, cap_of_lt hm, saturateI64]
  omega

/-- The end a window wraps to. -/
theorem deadline_of_le (hm : m.val < 2 ^ 63) (hd : 2 ^ 63 ≤ drainSecs settings) :
    deadline settings m = min (60 * m.val) (2 ^ 63 - 1) + drainSecs settings - 2 ^ 64 := by
  have hdrain : drainSecs settings < 2 ^ 64 := drainSecs_lt
  rw [deadline, effectiveDrainTimeoutSecs_eq, if_neg (Nat.not_lt.mpr hd), cap_of_lt hm, saturateI64]
  omega

theorem mem_lifetimeReapCandidates : r ∈ lifetimeReapCandidates settings pool now ↔
    r ∈ pool ∧ ((∃ m ∈ settings.maxLifetime,
      (if r.sessionsActive = 0 then saturateI64 (asI64 m * 60) else deadline settings m) ≤
        ageSecs now r) ∨
      ∃ m ∈ settings.containerLifetime,
        saturateI64 (asI64 m * 60) ≤ ageSecs now r ∧ r.sessionsActive = 0) := by
  rw [lifetimeReapCandidates, List.mem_filter, Bool.or_eq_true]
  simp only [pastHardCap, pastSoftCap, Settings.effectiveMaxLifetimeSecs,
    Settings.effectiveContainerLifetimeSecs, Option.any_map, Option.any_eq_true, deadline]
  simp

/-- A replica that is past its cap, and past its window if it is busy, is reaped. -/
theorem isYoung_of_not_mem (hr : r ∈ pool) (hkept : r ∉ lifetimeReapCandidates settings pool now) :
    IsYoung settings now r := by
  rw [mem_lifetimeReapCandidates] at hkept
  unfold IsYoung
  split
  · next hidle =>
    constructor
    · intro m hm
      by_contra hage
      refine hkept ⟨hr, .inl ⟨m, hm, ?_⟩⟩
      rw [if_pos hidle]
      exact (cap_le m).trans (Int.not_lt.mp hage)
    · intro m hm
      by_contra hage
      exact hkept ⟨hr, .inr ⟨m, hm, (cap_le m).trans (Int.not_lt.mp hage), hidle⟩⟩
  · next hbusy =>
    intro m hm
    by_contra hage
    refine hkept ⟨hr, .inl ⟨m, hm, ?_⟩⟩
    rw [if_neg hbusy]
    exact deadline_le.trans (Int.not_lt.mp hage)

/-- A replica stays young when the values are raised. -/
theorem IsYoung.raise (hraised : Raised settings settings') (h : IsYoung settings now r) :
    IsYoung settings' now r := by
  have hdrain := hraised.drain
  unfold IsYoung at h ⊢
  split
  · next hidle =>
    rw [if_pos hidle] at h
    constructor
    · intro n hn
      obtain ⟨m, hm, hle⟩ := exists_le_of_rel hraised.hard hn
      have hage := h.1 m hm
      omega
    · intro n hn
      obtain ⟨m, hm, hle⟩ := exists_le_of_rel hraised.soft hn
      have hage := h.2 m hm
      omega
  · next hbusy =>
    rw [if_neg hbusy] at h
    intro n hn
    obtain ⟨m, hm, hle⟩ := exists_le_of_rel hraised.hard hn
    have hage := h m hm
    omega

/-- Settings that reap no young replica reap no more than smaller ones. -/
theorem Patient.reapsNoMore (h : Patient ι clock settings') (hraised : Raised settings settings') :
    ReapsNoMore ι clock settings settings' := by
  intro now pool hshows r hr
  have hpool : r ∈ pool := (mem_lifetimeReapCandidates.mp hr).1
  by_contra hkept
  exact h now pool hshows r hpool ((isYoung_of_not_mem hpool hkept).raise hraised) hr

/-! ### Exactly when -/

theorem Fits.patient (h : Fits clock settings) : Patient ι clock settings := by
  intro now pool hshows r hr hyoung hreaped
  have hage := ageSecs_le hshows r
  have hclock := clock.fits
  have hlongest : clock.longest = clock.last / 1000 := rfl
  obtain ⟨-, hreaped⟩ := mem_lifetimeReapCandidates.mp hreaped
  unfold IsYoung at hyoung
  rcases hreaped with ⟨m, hm, hpast⟩ | ⟨m, hm, hpast, hidle⟩
  · by_cases hidle : r.sessionsActive = 0
    · rw [if_pos hidle] at hyoung hpast
      have hyoung := hyoung.1 m hm
      rw [cap_of_lt (h.hard m hm)] at hpast
      omega
    · rw [if_neg hidle] at hyoung hpast
      have hyoung := hyoung m hm
      have hdrain := h.drain m hm
      by_cases hd : drainSecs settings < 2 ^ 63
      · rw [deadline_of_lt (h.hard m hm) hd] at hpast
        omega
      · rw [deadline_of_le (h.hard m hm) (Nat.not_lt.mp hd)] at hpast
        omega
  · rw [if_pos hidle] at hyoung
    have hyoung := hyoung.2 m hm
    rw [cap_of_lt (h.soft m hm)] at hpast
    omega

section Failures

variable [Inhabited ι] (h : Patient ι clock settings)
include h

/-- No reading shows a young replica that is reaped. -/
theorem Patient.not_reaped {age : Int} {sessions : Nat} (hlow : -clock.longest ≤ age)
    (hhigh : age ≤ clock.longest)
    (hyoung : IsYoung settings (age.toNat * 1000) (agedReplica (default : ι) age sessions)) :
    agedReplica (default : ι) age sessions ∉ lifetimeReapCandidates settings
      [agedReplica (default : ι) age sessions] (age.toNat * 1000) :=
  h _ _ (shows_agedReplica hlow hhigh) _ (List.mem_singleton_self _) hyoung

/-- A replica whose clock is a minute ahead is younger than any cap, and older than one below
zero. -/
theorem Patient.cap_lt (hm : m ∈ settings.maxLifetime ∨ m ∈ settings.containerLifetime) :
    m.val < 2 ^ 63 := by
  by_contra hge
  have hcap := cap_of_le (Nat.not_lt.mp hge)
  have hminute := clock.minute
  have hlongest : clock.longest = clock.last / 1000 := rfl
  have hyoung : IsYoung settings ((-60 : Int).toNat * 1000)
      (agedReplica (default : ι) (-60) 0) := by
    unfold IsYoung
    rw [ageSecs_agedReplica]
    exact ⟨fun m _ => by omega, fun m _ => by omega⟩
  refine h.not_reaped (by omega) (by omega) hyoung ?_
  rw [mem_lifetimeReapCandidates, ageSecs_agedReplica]
  refine ⟨List.mem_singleton_self _, ?_⟩
  rcases hm with hm | hm
  · exact .inl ⟨m, hm, hcap⟩
  · exact .inr ⟨m, hm, hcap, rfl⟩

theorem Patient.fits : Fits clock settings where
  hard m hm := h.cap_lt (.inl hm)
  soft m hm := h.cap_lt (.inr hm)
  drain m hm := by
    by_contra hdrain
    rw [not_or, Nat.not_lt, Nat.not_lt] at hdrain
    have hclock := clock.fits
    have hlongest : clock.longest = clock.last / 1000 := rfl
    have hdeadline := deadline_of_le (h.cap_lt (.inl hm)) hdrain.1
    -- a busy replica past the deadline, which comes long before the window ends
    have hyoung : IsYoung settings ((max (deadline settings m) (-clock.longest)).toNat * 1000)
        (agedReplica (default : ι) (max (deadline settings m) (-clock.longest)) 1) := by
      unfold IsYoung
      rw [ageSecs_agedReplica]
      intro n _
      omega
    refine h.not_reaped (Int.le_max_right _ _) (by omega) hyoung ?_
    rw [mem_lifetimeReapCandidates, ageSecs_agedReplica]
    exact ⟨List.mem_singleton_self _, .inl ⟨m, hm, Int.le_max_left _ _⟩⟩

end Failures

/-- **Lifetimes.** Raised values reap no more, and no settings of the two reap a young replica, just
when the values of both fit. -/
theorem reapsNoMore_and_patient_iff [Inhabited ι] (hraised : Raised settings settings') :
    (ReapsNoMore ι clock settings settings' ∧ Patient ι clock settings ∧
      Patient ι clock settings') ↔ Fits clock settings ∧ Fits clock settings' := by
  constructor
  · rintro ⟨-, hpatient, hpatient'⟩
    exact ⟨hpatient.fits, hpatient'.fits⟩
  · rintro ⟨hfits, hfits'⟩
    exact ⟨hfits'.patient.reapsNoMore hraised, hfits.patient, hfits'.patient⟩

end Reap

section Example

attribute [local instance] wholeFloats

/-- A hard cap of so many minutes, and no other. -/
def cappedAt (minutes : U64) : Settings :=
  { bareSettings "Lab" .empty with maxLifetime := some minutes }

/-- The instants of a `DateTime<Utc>` from the epoch on. -/
def utcClock : Clock := ⟨8210266876799999, by decide, by decide⟩

theorem cappedAt_patient : ReapsNoMore Nat utcClock (cappedAt 60) (cappedAt 90) ∧
    Patient Nat utcClock (cappedAt 60) ∧ Patient Nat utcClock (cappedAt 90) := by
  have hfits (minutes : U64) (hminutes : minutes.val < 2 ^ 63) :
      Fits utcClock (cappedAt minutes) := by
    have hdrain : drainSecs (cappedAt minutes) = 60 := rfl
    refine ⟨fun m hm => ?_, fun m hm => ?_, fun m hm => .inl ?_⟩
    · cases hm
      exact hminutes
    · cases hm
    · rw [hdrain]
      decide
  have hraised : Raised (cappedAt 60) (cappedAt 90) := ⟨.some (by decide), .none, Nat.le_refl _⟩
  exact (reapsNoMore_and_patient_iff hraised).mpr ⟨hfits 60 (by decide), hfits 90 (by decide)⟩

/-- One minute more, and a new replica is reaped at once. -/
theorem wrapped_cap_reaps_new : IsYoung (cappedAt ⟨2 ^ 63, by decide⟩) 0 (agedReplica 0 0 0) ∧
    agedReplica 0 0 0 ∈
      lifetimeReapCandidates (cappedAt ⟨2 ^ 63, by decide⟩) [agedReplica 0 0 0] 0 ∧
    agedReplica 0 0 0 ∉
      lifetimeReapCandidates (cappedAt ⟨2 ^ 63 - 1, by decide⟩) [agedReplica 0 0 0] 0 := by
  refine ⟨⟨fun m hm => ?_, fun m hm => ?_⟩, by decide, by decide⟩
  · cases hm
    decide
  · cases hm

end Example

end Ruscker.Scaler.IdleStops
