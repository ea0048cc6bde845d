import Ruscker.Config.Settings
import Ruscker.Lib.Machine
import Ruscker.Lib.Table
import Ruscker.Lib.Window

/-!
# The rate limiter of the API specs

The limiter keeps a window of request times for each spec and client.  Every so many checks it
drops the entries whose newest time is older than the widest window seen so far, in whole
milliseconds.  Its answers are compared with a limiter that forgets nothing.
-/

namespace Ruscker.Proxy.RateLimit

open Machines Machines.Machine Tables Windows

/-! ## The limiter -/

/-- A `RatePolicy`, its window in nanoseconds. -/
structure Policy where
  max : U32
  window : Nat

abbrev Key := Str × Str

def sweepEvery : Nat := 1024

inductive RateDecision where
  | allow
  | deny (retryAfterSecs : Nat)
  deriving DecidableEq

structure ApiRateLimiter where
  windows : Table Key (List Nat)
  maxWindowMs : Nat
  sinceSweep : Nat

/-- `as_millis() as u64`. -/
def asMillis (window : Nat) : Nat := window / 10 ^ 6 % 2 ^ 64

def asSecs (window : Nat) : Nat := window / 10 ^ 9

namespace ApiRateLimiter

variable (l : ApiRateLimiter)

/-- What `sweep_idle` keeps. -/
def fresh (now : Nat) (q : List Nat) : Bool :=
  q.getLast?.any fun t => now - t ≤ l.maxWindowMs * 10 ^ 6

def sweepIdle (now : Nat) : ApiRateLimiter :=
  { l with windows := l.windows.retain fun _ q => l.fresh now q }

/-- The widest window is remembered. -/
def noted (policy : Policy) : ApiRateLimiter :=
  { l with maxWindowMs := max l.maxWindowMs (asMillis policy.window) }

def isSweeping : Bool := sweepEvery ≤ l.sinceSweep + 1

/-- The bookkeeping in front of a check. -/
def swept (now : Nat) (policy : Policy) : ApiRateLimiter :=
  let l := l.noted policy
  if l.isSweeping then { l with sinceSweep := 0 }.sweepIdle now
  else { l with sinceSweep := l.sinceSweep + 1 }

def queue (key : Key) : List Nat := (l.windows.lookup key).getD []

/-- The addition is one of `u64`s. -/
def retryAfter (policy : Policy) (now : Nat) : List Nat → Nat
  | [] => 1
  | oldest :: _ => (asSecs (policy.window - (now - oldest)) + 1) % 2 ^ 64

/-- The queue of an entry once its front has been popped. -/
def current (now : Nat) (key : Key) (policy : Policy) : List Nat :=
  prune policy.window now ((l.swept now policy).queue key)

def put (key : Key) (q : List Nat) : ApiRateLimiter :=
  { l with windows := l.windows.insert key q }

def check (now : Nat) (key : Key) (policy : Policy) : RateDecision × ApiRateLimiter :=
  let q := l.current now key policy
  if q.length % 2 ^ 32 < policy.max.val then
    (.allow, (l.swept now policy).put key (q ++ [now]))
  else (.deny (retryAfter policy now q), (l.swept now policy).put key q)

end ApiRateLimiter

structure Request where
  now : Nat
  specId : Str
  client : Str

def Request.key (r : Request) : Key := (r.specId, r.client)

/-- The limiter after some checks, and what they were answered. -/
structure State where
  limiter : ApiRateLimiter
  now : Nat
  answers : List RateDecision

def start : State := ⟨⟨∅, 0, 0⟩, 0, []⟩

/-- Every spec keeps its policy. -/
def answer (policies : Str → Policy) (s : State) (r : Request) : RateDecision × ApiRateLimiter :=
  s.limiter.check r.now r.key (policies r.specId)

/-- Checks come in the order of their times. -/
def machine (policies : Str → Policy) : Machine State Request where
  step s r :=
    if s.now ≤ r.now then
      some ⟨(answer policies s r).2, r.now, s.answers ++ [(answer policies s r).1]⟩
    else none

/-! ## The limiter that forgets nothing -/

structure Reference where
  allowed : List (Key × Nat)
  answers : List Bool

namespace Reference

variable (policies : Str → Policy) (ref : Reference)

def allows (r : Request) : Bool :=
  (ref.allowed.countP fun a => a.1 = r.key ∧ r.now - a.2 ≤ (policies r.specId).window) <
    (policies r.specId).max.val

def check (r : Request) : Reference where
  allowed := if ref.allows policies r then ref.allowed ++ [(r.key, r.now)] else ref.allowed
  answers := ref.answers ++ [ref.allows policies r]

end Reference

def reference (policies : Str → Policy) (rs : List Request) : Reference :=
  rs.foldl (Reference.check policies) ⟨[], []⟩

/-! ## Where the two agree -/

/-- The branches that go wrong are not taken: no sweep drops an entry whose newest time is within
the entry's own window, and no denial adds its second to the greatest `u64`. -/
structure Exact (policies : Str → Policy) (s : State) (r : Request) : Prop where
  keeps : (s.limiter.noted (policies r.specId)).isSweeping = true →
    ∀ key q t, s.limiter.windows.lookup key = some q → t ∈ q.getLast? →
      r.now - t ≤ (policies key.1).window →
      (s.limiter.noted (policies r.specId)).fresh r.now q = true
  fits : ∀ oldest ∈ (s.limiter.current r.now r.key (policies r.specId)).head?,
    (policies r.specId).max.val ≤
      (s.limiter.current r.now r.key (policies r.specId)).length % 2 ^ 32 →
    asSecs ((policies r.specId).window - (r.now - oldest)) + 1 < 2 ^ 64

/-- The times a limiter that forgets nothing has of one entry. -/
def Reference.times (ref : Reference) (key : Key) : List Nat :=
  (ref.allowed.filter fun a => a.1 = key).map Prod.snd

/-- A queue is the end of what is remembered, and misses nothing that still counts. -/
structure Agrees (policies : Str → Policy) (s : State) (ref : Reference) : Prop where
  past : ∀ a ∈ ref.allowed, a.2 ≤ s.now
  sorted : (ref.allowed.map Prod.snd).Pairwise (· ≤ ·)
  suffix : ∀ key, s.limiter.queue key <:+ ref.times key
  pruned : ∀ key, prune (policies key.1).window s.now (s.limiter.queue key) =
    prune (policies key.1).window s.now (ref.times key)
  capacity : ∀ key, (s.limiter.queue key).length ≤ (policies key.1).max.val
  answers : (s.answers.map fun a => decide (a = .allow)) = ref.answers

section Agreement

variable {policies : Str → Policy} {l : ApiRateLimiter} {s s' : State} {ref : Reference}
  {r : Request} {now : Nat} {key key' : Key} {policy : Policy}

theorem queue_put (q : List Nat) :
    (l.put key q).queue key' = if key' = key then q else l.queue key' := by
  unfold ApiRateLimiter.queue ApiRateLimiter.put
  dsimp only
  rw [Table.lookup_insert_eq]
  split
  · rfl
  · rfl

theorem queue_sweepIdle (key : Key) :
    (l.sweepIdle now).queue key = if l.fresh now (l.queue key) then l.queue key else [] := by
  unfold ApiRateLimiter.queue ApiRateLimiter.sweepIdle
  dsimp only
  cases hkept : (l.windows.retain fun _ q => l.fresh now q).lookup key with
  | some q =>
    obtain ⟨hlookup, hfresh⟩ := Table.lookup_retain.mp hkept
    rw [hlookup, Option.getD_some, if_pos hfresh]
  | none =>
    cases hlookup : l.windows.lookup key with
    | some q =>
      have hstale : l.fresh now q ≠ true := by
        intro hfresh
        have hthere := (Table.lookup_retain (p := fun _ q => l.fresh now q)).mpr ⟨hlookup, hfresh⟩
        rw [hkept] at hthere
        cases hthere
      rw [Option.getD_some, if_neg hstale]
      rfl
    | none =>
      split
      · rfl
      · rfl

/-- A sweep leaves a queue alone or empties it. -/
theorem queue_swept (key : Key) :
    (l.swept now policy).queue key =
      if (l.noted policy).isSweeping = true ∧ (l.noted policy).fresh now (l.queue key) = false then
        []
      else l.queue key := by
  unfold ApiRateLimiter.swept
  by_cases hsweeping : (l.noted policy).isSweeping = true
  · rw [if_pos hsweeping, queue_sweepIdle]
    show (if (l.noted policy).fresh now (l.queue key) = true then l.queue key else []) = _
    cases (l.noted policy).fresh now (l.queue key) with
    | true => simp
    | false => simp [hsweeping]
  · rw [if_neg hsweeping, if_neg fun h => hsweeping h.1]
    rfl

theorem queue_swept_suffix (key : Key) : (l.swept now policy).queue key <:+ l.queue key := by
  rw [queue_swept]
  split
  · exact List.nil_suffix
  · exact List.suffix_refl _

theorem length_current_le : (l.current now key policy).length ≤ (l.queue key).length :=
  (prune_suffix.trans (queue_swept_suffix key)).length_le

namespace Reference

theorem times_concat (ref : Reference) (key : Key) (r : Request) (answers : List Bool) :
    times ⟨ref.allowed ++ [(r.key, r.now)], answers⟩ key =
      if key = r.key then ref.times key ++ [r.now] else ref.times key := by
  unfold times
  rw [List.filter_append, List.map_append]
  split
  · next heq => simp [heq]
  · next hne => simp [Ne.symm hne]

/-- Counting the requests in the window is counting what pruning leaves. -/
theorem allows_eq (hsorted : (ref.times r.key).Pairwise (· ≤ ·)) :
    ref.allows policies r =
      decide ((prune (policies r.specId).window r.now (ref.times r.key)).length <
        (policies r.specId).max.val) := by
  unfold allows
  rw [length_prune hsorted, times, List.countP_map, List.countP_filter]
  congr 1
  simp only [Function.comp_def, Bool.decide_and, Bool.and_comm]

end Reference

/-- A queue within the bound is counted without wrapping. -/
theorem length_current_mod (hcapacity : (l.queue key).length ≤ policy.max.val) :
    (l.current now key policy).length % 2 ^ 32 = (l.current now key policy).length :=
  Nat.mod_eq_of_lt
    (Nat.lt_of_le_of_lt (length_current_le.trans hcapacity) policy.max.isLt)

theorem check_of_lt (hcapacity : (l.queue key).length ≤ policy.max.val)
    (hroom : (l.current now key policy).length < policy.max.val) :
    l.check now key policy =
      (.allow, (l.swept now policy).put key (l.current now key policy ++ [now])) := by
  unfold ApiRateLimiter.check
  dsimp only
  rw [length_current_mod hcapacity, if_pos hroom]

theorem check_of_le (hcapacity : (l.queue key).length ≤ policy.max.val)
    (hfull : policy.max.val ≤ (l.current now key policy).length) :
    l.check now key policy =
      (.deny (ApiRateLimiter.retryAfter policy now (l.current now key policy)),
        (l.swept now policy).put key (l.current now key policy)) := by
  unfold ApiRateLimiter.check
  dsimp only
  rw [length_current_mod hcapacity, if_neg (Nat.not_lt.mpr hfull)]

theorem step_eq_some (hstep : (machine policies).step s r = some s') :
    s.now ≤ r.now ∧
      s' = ⟨(answer policies s r).2, r.now, s.answers ++ [(answer policies s r).1]⟩ := by
  have hif : (if s.now ≤ r.now then
      some (⟨(answer policies s r).2, r.now, s.answers ++ [(answer policies s r).1]⟩ : State)
    else none) = some s' := hstep
  split at hif
  · next htime => exact ⟨htime, (Option.some.inj hif).symm⟩
  · cases hif

namespace Agrees

theorem sorted_times (h : Agrees policies s ref) (key : Key) :
    (ref.times key).Pairwise (· ≤ ·) :=
  h.sorted.sublist (List.filter_sublist.map Prod.snd)

theorem past_times (h : Agrees policies s ref) {t : Nat} (ht : t ∈ ref.times key) : t ≤ s.now := by
  obtain ⟨a, ha, rfl⟩ := List.mem_map.mp ht
  exact h.past a (List.mem_of_mem_filter ha)

/-- What the sweep takes away would not be counted. -/
theorem swept (h : Agrees policies s ref) (hexact : Exact policies s r) (htime : s.now ≤ r.now)
    (key : Key) :
    prune (policies key.1).window r.now
        ((s.limiter.swept r.now (policies r.specId)).queue key) =
      prune (policies key.1).window r.now (ref.times key) := by
  have hkept : prune (policies key.1).window r.now (s.limiter.queue key) =
      prune (policies key.1).window r.now (ref.times key) := by
    rw [← prune_prune htime, h.pruned key, prune_prune htime]
  rw [queue_swept, ← hkept]
  split
  · next hdropped =>
    refine (prune_eq_nil ((h.sorted_times key).sublist (h.suffix key).sublist) fun t ht => ?_).symm
    by_contra hrecent
    cases hlookup : s.limiter.windows.lookup key with
    | none =>
      have hnil : s.limiter.queue key = [] := by
        rw [ApiRateLimiter.queue, hlookup]
        rfl
      rw [hnil] at ht
      cases ht
    | some q =>
      have hq : s.limiter.queue key = q := by
        rw [ApiRateLimiter.queue, hlookup]
        rfl
      rw [hq] at hdropped ht
      have hfresh := hexact.keeps hdropped.1 key q t hlookup ht (Nat.not_lt.mp hrecent)
      rw [hfresh] at hdropped
      cases hdropped.2
  · rfl

theorem swept_suffix (h : Agrees policies s ref) (key : Key) :
    (s.limiter.swept now policy).queue key <:+ ref.times key :=
  (queue_swept_suffix key).trans (h.suffix key)

theorem swept_capacity (h : Agrees policies s ref) (key : Key) :
    ((s.limiter.swept now policy).queue key).length ≤ (policies key.1).max.val :=
  (queue_swept_suffix key).length_le.trans (h.capacity key)

/-- The request is recorded by both. -/
theorem allow (h : Agrees policies s ref) (hexact : Exact policies s r) (htime : s.now ≤ r.now)
    {q : List Nat} (hq : q = prune (policies r.specId).window r.now (ref.times r.key))
    (hroom : q.length < (policies r.specId).max.val) :
    Agrees policies
      ⟨(s.limiter.swept r.now (policies r.specId)).put r.key (q ++ [r.now]), r.now,
        s.answers ++ [.allow]⟩
      ⟨ref.allowed ++ [(r.key, r.now)], ref.answers ++ [true]⟩ where
  past := by
    intro a ha
    rcases List.mem_append.mp ha with hold | hnew
    · exact (h.past a hold).trans htime
    · rw [List.mem_singleton.mp hnew]
  sorted := by
    rw [List.map_append]
    refine List.pairwise_append.mpr ⟨h.sorted, List.pairwise_singleton _ _, ?_⟩
    intro t ht t' ht'
    obtain ⟨a, ha, rfl⟩ := List.mem_map.mp ht
    rw [List.mem_singleton.mp ht']
    exact (h.past a ha).trans htime
  suffix := by
    intro key
    rw [queue_put, Reference.times_concat]
    split
    · next heq =>
      have hsuffix : q <:+ ref.times r.key := hq ▸ prune_suffix
      obtain ⟨front, hfront⟩ := hsuffix
      rw [heq]
      exact ⟨front, by rw [← List.append_assoc, hfront]⟩
    · exact h.swept_suffix key
  pruned := by
    intro key
    rw [queue_put, Reference.times_concat]
    split
    · next heq =>
      rw [heq, hq, prune_concat, prune_concat]
      exact congrArg (· ++ [r.now]) (prune_prune (Nat.le_refl _))
    · exact h.swept hexact htime key
  capacity := by
    intro key
    rw [queue_put]
    split
    · next heq =>
      rw [heq, List.length_append]
      exact hroom
    · exact h.swept_capacity key
  answers := by
    rw [List.map_append, h.answers]
    rfl

/-- The expired times are forgotten, and nothing is recorded. -/
theorem deny (h : Agrees policies s ref) (hexact : Exact policies s r) (htime : s.now ≤ r.now)
    {q : List Nat} (hq : q = prune (policies r.specId).window r.now (ref.times r.key))
    (hbound : q.length ≤ (policies r.specId).max.val) (secs : Nat) :
    Agrees policies
      ⟨(s.limiter.swept r.now (policies r.specId)).put r.key q, r.now, s.answers ++ [.deny secs]⟩
      ⟨ref.allowed, ref.answers ++ [false]⟩ where
  past := fun a ha => (h.past a ha).trans htime
  sorted := h.sorted
  suffix := by
    intro key
    rw [queue_put]
    split
    · next heq =>
      rw [heq, hq]
      exact prune_suffix
    · exact h.swept_suffix key
  pruned := by
    intro key
    rw [queue_put]
    split
    · next heq =>
      rw [heq, hq]
      exact prune_prune (Nat.le_refl _)
    · exact h.swept hexact htime key
  capacity := by
    intro key
    rw [queue_put]
    split
    · next heq =>
      rw [heq]
      exact hbound
    · exact h.swept_capacity key
  answers := by
    rw [List.map_append, h.answers]
    rfl

/-- **Step lemma.** Both limiters give one answer and stay in agreement. -/
theorem step (h : Agrees policies s ref) (hexact : Exact policies s r)
    (hstep : (machine policies).step s r = some s') :
    Agrees policies s' (ref.check policies r) := by
  obtain ⟨htime, rfl⟩ := step_eq_some hstep
  have hcapacity : (s.limiter.queue r.key).length ≤ (policies r.specId).max.val :=
    h.capacity r.key
  have hcurrent : s.limiter.current r.now r.key (policies r.specId) =
      prune (policies r.specId).window r.now (ref.times r.key) := h.swept hexact htime r.key
  have hallows := @Reference.allows_eq policies ref r (h.sorted_times r.key)
  rw [← hcurrent] at hallows
  unfold answer Reference.check
  by_cases hroom : (s.limiter.current r.now r.key (policies r.specId)).length <
      (policies r.specId).max.val
  · rw [check_of_lt hcapacity hroom, hallows, decide_eq_true hroom, if_pos rfl]
    exact h.allow hexact htime hcurrent hroom
  · rw [check_of_le hcapacity (Nat.not_lt.mp hroom), hallows, decide_eq_false hroom,
      if_neg Bool.false_ne_true]
    exact h.deny hexact htime hcurrent (length_current_le.trans hcapacity) _

theorem start : Agrees policies start ⟨[], []⟩ where
  past := fun a ha => by cases ha
  sorted := .nil
  suffix := fun _ => List.nil_suffix
  pruned := fun _ => rfl
  capacity := fun _ => Nat.zero_le _
  answers := rfl

/-- **Run lemma.** -/
theorem of_run {rs : List Request}
    (hrun : (machine policies).Run (Exact policies) RateLimit.start rs s) :
    Agrees policies s (reference policies rs) :=
  hrun.simulates start fun _ _ _ _ h hexact hstep => h.step hexact hstep

end Agrees

/-! ## After a denial -/

/-- A check writes its own entry only. -/
theorem check_snd : ∃ q, (l.check now key policy).2 = (l.swept now policy).put key q := by
  unfold ApiRateLimiter.check
  dsimp only
  split
  · exact ⟨_, rfl⟩
  · exact ⟨_, rfl⟩

theorem queue_check_of_ne (hne : key' ≠ key) :
    (l.check now key policy).2.queue key' = (l.swept now policy).queue key' := by
  obtain ⟨q, hq⟩ := @check_snd l now key policy
  rw [hq]
  exact (queue_put q).trans (if_neg hne)

/-- The checks of others take away from a queue at most. -/
theorem queue_suffix_of_quiet {quiet : List Request}
    (hexec : (machine policies).exec s quiet = some s') (hquiet : ∀ q ∈ quiet, q.key ≠ key) :
    s'.limiter.queue key <:+ s.limiter.queue key := by
  have hrun : (machine policies).Run (fun _ q => q.key ≠ key) s quiet s' :=
    run_of_exec hexec fun _ => hquiet
  refine hrun.invariant (I := fun s' => s'.limiter.queue key <:+ s.limiter.queue key)
    (List.suffix_refl _) fun s₁ q s₂ hsuffix hne hstep => ?_
  obtain ⟨-, rfl⟩ := step_eq_some hstep
  have hqueue : (answer policies s₁ q).2.queue key =
      (s₁.limiter.swept q.now (policies q.specId)).queue key := queue_check_of_ne (Ne.symm hne)
  show (answer policies s₁ q).2.queue key <:+ _
  rw [hqueue]
  exact (queue_swept_suffix key).trans hsuffix

/-- Once the oldest time of a full queue has expired there is room. -/
theorem length_prune_lt {length : Nat} {q q' : List Nat} {oldest bound : Nat}
    (hsuffix : q' <:+ oldest :: q) (hbound : q.length < bound) (hexpired : length < now - oldest) :
    (prune length now q').length < bound := by
  rcases List.suffix_cons_iff.mp hsuffix with rfl | hrest
  · have hpop : prune length now (oldest :: q) = prune length now q :=
      List.dropWhile_cons_of_pos (by simpa using hexpired)
    rw [hpop]
    exact Nat.lt_of_le_of_lt length_prune_le hbound
  · exact Nat.lt_of_le_of_lt (length_prune_le.trans hrest.length_le) hbound

/-- What a denial says of the queue it leaves. -/
theorem queue_of_deny (h : Agrees policies s ref) (hexact : Exact policies s r)
    (htime : s.now ≤ r.now) (hmax : 0 < (policies r.specId).max.val) {secs : Nat}
    (hdeny : (answer policies s r).1 = .deny secs) :
    ∃ oldest q, (answer policies s r).2.queue r.key = oldest :: q ∧
      q.length < (policies r.specId).max.val ∧ oldest ≤ r.now ∧
      (policies r.specId).window < secs * 10 ^ 9 + (r.now - oldest) := by
  have hcapacity : (s.limiter.queue r.key).length ≤ (policies r.specId).max.val :=
    h.capacity r.key
  have hfull : (policies r.specId).max.val ≤
      (s.limiter.current r.now r.key (policies r.specId)).length := by
    by_contra hroom
    rw [answer, check_of_lt hcapacity (Nat.not_le.mp hroom)] at hdeny
    cases hdeny
  have hbound : (s.limiter.current r.now r.key (policies r.specId)).length ≤
      (policies r.specId).max.val := length_current_le.trans hcapacity
  have hpast : ∀ t ∈ s.limiter.current r.now r.key (policies r.specId), t ≤ r.now := fun t ht =>
    (h.past_times ((prune_suffix.trans (h.swept_suffix r.key)).subset ht)).trans htime
  have hfits := hexact.fits
  rw [length_current_mod hcapacity] at hfits
  rw [answer, check_of_le hcapacity hfull] at hdeny
  have hput : (answer policies s r).2.queue r.key =
      s.limiter.current r.now r.key (policies r.specId) := by
    rw [answer, check_of_le hcapacity hfull]
    exact (queue_put _).trans (if_pos rfl)
  cases hcurrent : s.limiter.current r.now r.key (policies r.specId) with
  | nil =>
    rw [hcurrent] at hfull
    exact absurd hmax (Nat.not_lt.mpr hfull)
  | cons oldest q =>
    rw [hcurrent] at hput hfull hbound hpast hfits hdeny
    have hsecs : secs = asSecs ((policies r.specId).window - (r.now - oldest)) + 1 := by
      rw [← Nat.mod_eq_of_lt (hfits oldest rfl hfull)]
      exact (RateDecision.deny.inj hdeny).symm
    refine ⟨oldest, q, hput, hbound, hpast oldest List.mem_cons_self, ?_⟩
    unfold asSecs at hsecs
    omega

/-- A client that keeps quiet for as long as it was told is let in. -/
theorem allow_of_deny (h : Agrees policies s ref) (hexact : Exact policies s r)
    (hmax : 0 < (policies r.specId).max.val) {secs : Nat} {quiet : List Request} {later : Request}
    (hdeny : (answer policies s r).1 = .deny secs)
    (hexec : (machine policies).exec s (r :: quiet) = some s')
    (hquiet : ∀ q ∈ quiet, q.key ≠ r.key) (hkey : later.key = r.key)
    (hlater : r.now + secs * 10 ^ 9 ≤ later.now) : (answer policies s' later).1 = .allow := by
  obtain ⟨s₁, hstep, hrest⟩ := Option.bind_eq_some_iff.mp hexec
  obtain ⟨htime, rfl⟩ := step_eq_some hstep
  obtain ⟨oldest, q, hleft, hlength, hpast, hwindow⟩ := queue_of_deny h hexact htime hmax hdeny
  have hsuffix : s'.limiter.queue r.key <:+ oldest :: q :=
    hleft ▸ queue_suffix_of_quiet hrest hquiet
  have hspec : later.specId = r.specId := congrArg Prod.fst hkey
  have hexpired : (policies r.specId).window < later.now - oldest := by omega
  have hroom : (s'.limiter.current later.now r.key (policies r.specId)).length <
      (policies r.specId).max.val :=
    length_prune_lt ((queue_swept_suffix r.key).trans hsuffix) hlength hexpired
  have hcapacity : (s'.limiter.queue r.key).length ≤ (policies r.specId).max.val :=
    hsuffix.length_le.trans hlength
  rw [answer, hkey, hspec, check_of_lt hcapacity hroom]

/-! ## Windows of whole milliseconds -/

/-- A window the sweep's horizon can hold. -/
def WholeMillis (window : Nat) : Prop := 10 ^ 6 ∣ window ∧ window < 2 ^ 64 * 10 ^ 6

/-- Every entry's own window has been seen. -/
def Noted (policies : Str → Policy) (s : State) : Prop :=
  ∀ key q, s.limiter.windows.lookup key = some q →
    (policies key.1).window ≤ s.limiter.maxWindowMs * 10 ^ 6

theorem asMillis_mul {window : Nat} (h : WholeMillis window) :
    asMillis window * 10 ^ 6 = window := by
  obtain ⟨⟨ms, rfl⟩, hlt⟩ := h
  have hms : ms < 2 ^ 64 := by omega
  rw [asMillis, Nat.mul_div_cancel_left ms (by decide), Nat.mod_eq_of_lt hms, Nat.mul_comm]

theorem exact_of_noted (hwhole : ∀ spec, WholeMillis (policies spec).window)
    (hnoted : Noted policies s) (r : Request) : Exact policies s r where
  keeps := by
    intro _ key q t hlookup ht hrecent
    have hwindow := hnoted key q hlookup
    have hhorizon : s.limiter.maxWindowMs ≤
        (s.limiter.noted (policies r.specId)).maxWindowMs := Nat.le_max_left _ _
    rw [ApiRateLimiter.fresh, Option.mem_def.mp ht]
    simp only [Option.any_some, decide_eq_true_eq]
    omega
  fits := by
    intro oldest _ _
    have hlt := (hwhole r.specId).2
    unfold asSecs
    omega

theorem maxWindowMs_swept :
    (l.swept now policy).maxWindowMs = max l.maxWindowMs (asMillis policy.window) := by
  unfold ApiRateLimiter.swept
  dsimp only
  split
  · rfl
  · rfl

theorem lookup_swept {q : List Nat} (hq : (l.swept now policy).windows.lookup key = some q) :
    l.windows.lookup key = some q := by
  unfold ApiRateLimiter.swept at hq
  dsimp only at hq
  split at hq
  · exact (Table.lookup_retain.mp hq).1
  · exact hq

theorem noted_step (hwhole : ∀ spec, WholeMillis (policies spec).window)
    (hnoted : Noted policies s) (hstep : (machine policies).step s r = some s') :
    Noted policies s' := by
  obtain ⟨-, rfl⟩ := step_eq_some hstep
  intro key q hlookup
  obtain ⟨q', hq'⟩ := @check_snd s.limiter r.now r.key (policies r.specId)
  unfold answer at hlookup ⊢
  dsimp only at hlookup ⊢
  rw [hq'] at hlookup ⊢
  show _ ≤ (s.limiter.swept r.now (policies r.specId)).maxWindowMs * 10 ^ 6
  rw [maxWindowMs_swept]
  by_cases hkey : key = r.key
  · have hown := asMillis_mul (hwhole r.specId)
    have hspec : r.key.1 = r.specId := rfl
    rw [hkey, hspec]
    exact hown.symm.le.trans (Nat.mul_le_mul_right _ (Nat.le_max_right _ _))
  · have hold : (s.limiter.swept r.now (policies r.specId)).windows.lookup key = some q := by
      unfold ApiRateLimiter.put at hlookup
      dsimp only at hlookup
      rw [Table.lookup_insert_eq, if_neg hkey] at hlookup
      exact hlookup
    have hwindow := hnoted key q (lookup_swept hold)
    exact hwindow.trans (Nat.mul_le_mul_right _ (Nat.le_max_left _ _))

theorem exact_of_exec (hwhole : ∀ spec, WholeMillis (policies spec).window) {rs : List Request}
    (hexec : (machine policies).exec start rs = some s) (r : Request) : Exact policies s r := by
  have hnoted : Noted policies s := (run_free_iff.mpr hexec).invariant (fun _ _ h => by cases h)
    fun _ _ _ hnoted _ hstep => noted_step hwhole hnoted hstep
  exact exact_of_noted hwhole hnoted r

/-- No check goes wrong where all windows are of whole milliseconds. -/
theorem run_of_wholeMillis (hwhole : ∀ spec, WholeMillis (policies spec).window)
    {rs : List Request} (hexec : (machine policies).exec start rs = some s) :
    (machine policies).Run (Exact policies) start rs s :=
  run_of_exec_invariant hexec (I := Noted policies) (fun _ _ h => by cases h)
    (fun _ r hnoted => exact_of_noted hwhole hnoted r)
    fun _ _ _ hnoted hstep => noted_step hwhole hnoted hstep

/-- The policy the proxy makes of a spec's `rate-limit`. -/
def Policy.ofRate (p : RatePolicy) : Policy := ⟨p.max, p.windowSecs * 10 ^ 9⟩

/-- Such are the windows of every configured limit, and its maximum is not zero. -/
theorem parsed_policy {raw : Str} {p : RatePolicy} (h : parseRateLimit raw = some p) :
    WholeMillis (Policy.ofRate p).window ∧ 0 < (Policy.ofRate p).max.val := by
  obtain ⟨⟨count, unit⟩, -, h⟩ := Option.bind_eq_some_iff.mp h
  obtain ⟨max, -, h⟩ := Option.bind_eq_some_iff.mp h
  split at h
  · cases h
  · next hzero =>
    obtain ⟨windowSecs, hwindow, rfl⟩ := Option.map_eq_some_iff.mp h
    have hsecs : windowSecs = 1 ∨ windowSecs = 60 ∨ windowSecs = 3600 := by
      unfold rateWindow at hwindow
      split at hwindow
      · exact .inl (Option.some.inj hwindow).symm
      · split at hwindow
        · exact .inr (.inl (Option.some.inj hwindow).symm)
        · split at hwindow
          · exact .inr (.inr (Option.some.inj hwindow).symm)
          · cases hwindow
    refine ⟨⟨?_, ?_⟩, ?_⟩
    · exact Dvd.dvd.mul_left (by decide) windowSecs
    · show windowSecs * 10 ^ 9 < _
      omega
    · exact Nat.pos_of_ne_zero fun h0 => hzero (Fin.ext h0)

theorem run_of_parsed (hparsed : ∀ spec, ∃ raw p, parseRateLimit raw = some p ∧
    policies spec = .ofRate p) {rs : List Request}
    (hexec : (machine policies).exec start rs = some s) :
    (machine policies).Run (Exact policies) start rs s := by
  refine run_of_wholeMillis (fun spec => ?_) hexec
  obtain ⟨raw, p, hraw, hpolicy⟩ := hparsed spec
  rw [hpolicy]
  exact (parsed_policy hraw).1

/-! ## The refinement -/

end Agreement

theorem one_lt_requests : 1 < 2 ^ 32 := by decide

def oneRequest : U32 := ⟨1, one_lt_requests⟩

def visit (now : Nat) : Request := ⟨now, "api".toList, "10.0.0.9".toList⟩

def oncePerSecond (_ : Str) : Policy := ⟨oneRequest, 10 ^ 9⟩

def brief (_ : Str) : Policy := ⟨oneRequest, 1500000⟩

/-- The limiter after the first visit and some denials at the same moment. -/
def afterDenials (n : Nat) : ApiRateLimiter :=
  ⟨(∅ : Table Key (List Nat)).insert (visit 0).key [0], 1, n + 1⟩

theorem check_afterDenials {n : Nat} (hn : n + 2 < sweepEvery) :
    (afterDenials n).check 0 (visit 0).key (brief (visit 0).specId) =
      (.deny 1, afterDenials (n + 1)) := by
  have hswept : (afterDenials n).swept 0 (brief (visit 0).specId) = afterDenials (n + 1) := by
    have hnot : ((afterDenials n).noted (brief (visit 0).specId)).isSweeping ≠ true := by
      show decide (sweepEvery ≤ n + 1 + 1) ≠ true
      simpa using hn
    unfold ApiRateLimiter.swept
    rw [if_neg hnot]
    rfl
  have hqueue : (afterDenials (n + 1)).queue (visit 0).key = [0] := by
    rw [ApiRateLimiter.queue, afterDenials, AList.lookup_insert]
    rfl
  unfold ApiRateLimiter.check ApiRateLimiter.current
  rw [hswept, hqueue]
  show (RateDecision.deny 1, (afterDenials (n + 1)).put (visit 0).key [0]) = _
  rw [ApiRateLimiter.put, afterDenials, AList.insert_insert]

theorem exec_afterDenials (m : Nat) {n : Nat} (hn : n + m + 1 < sweepEvery)
    (answers : List RateDecision) :
    ∃ answers', (machine brief).exec ⟨afterDenials n, 0, answers⟩ (List.replicate m (visit 0)) =
      some ⟨afterDenials (n + m), 0, answers'⟩ := by
  induction m generalizing n answers with
  | zero => exact ⟨answers, rfl⟩
  | succ m ih =>
    have hstep : (machine brief).step ⟨afterDenials n, 0, answers⟩ (visit 0) =
        some ⟨afterDenials (n + 1), 0, answers ++ [.deny 1]⟩ := by
      have hanswer : answer brief ⟨afterDenials n, 0, answers⟩ (visit 0) =
          (.deny 1, afterDenials (n + 1)) := check_afterDenials (by omega)
      show some (⟨(answer brief _ (visit 0)).2, 0, answers ++ [(answer brief _ (visit 0)).1]⟩ :
        State) = _
      rw [hanswer]
    obtain ⟨answers', hrest⟩ := @ih (n + 1) (by omega) (answers ++ [.deny 1])
    refine ⟨answers', ?_⟩
    rw [List.replicate_succ, Machine.exec, hstep, Option.bind_some, hrest]
    congr 3
    omega

theorem reference_denials (m : Nat) (answers : List Bool) :
    ∃ answers', (List.replicate m (visit 0)).foldl (Reference.check brief)
      ⟨[((visit 0).key, 0)], answers⟩ = ⟨[((visit 0).key, 0)], answers'⟩ := by
  induction m generalizing answers with
  | zero => exact ⟨answers, rfl⟩
  | succ m ih =>
    rw [List.replicate_succ, List.foldl_cons]
    exact ih (answers ++ [false])

theorem check_after_sweep :
    ((afterDenials 1022).check 1200000 (visit 0).key (brief (visit 0).specId)).1 = .allow := by
  decide

end Ruscker.Proxy.RateLimit
