import Ruscker.Lib.Machine
import Ruscker.Lib.Window

/-!
# The login rate limiter under concurrent attempts

`login_submit` asks `allow` first, awaits the password hash, and reports the outcome
with `record_failure` or `record_success`.  The limiter's lock is held inside each of
these calls only, so an attempt admitted earlier may still owe its failure.  The
machine below runs any number of attempts side by side; a ghost list holds the times
at which wrong passwords were verified since the last successful login.
-/

namespace Ruscker.Auth

open Machines Machines.Machine Windows

namespace LoginLimiter

/-- The limiter's parameters, `window` in nanoseconds of its monotonic clock. -/
structure Policy where
  max : Nat
  window : Nat

/-- `LoginRateLimiter::default_policy`: ten failures in sixty seconds. -/
def defaultPolicy : Policy := ⟨10, 60_000_000_000⟩

/-! ## Attempts and steps -/

/-- Where one `login_submit` stands. -/
inductive Attempt where
  /-- `allow` has read the clock and waits for the lock -/
  | asking (now : Nat)
  | refused
  /-- past `allow`, the password hash is being computed -/
  | verifying
  /-- wrong password, `record_failure` still to come -/
  | wrong
  /-- right password, `record_success` still to come -/
  | right
  | finished
  deriving DecidableEq

structure State where
  now : Nat
  failures : List Nat
  attempts : List Attempt
  /-- ghost: when a wrong password was verified, since the last successful login -/
  verifiedWrong : List Nat

def State.init (now : Nat) : State := ⟨now, [], [], []⟩

/-- The outcome of `verify_login`. -/
inductive Verdict where
  | right
  | wrong
  | dbError
  deriving DecidableEq

inductive Event where
  | tick (elapsed : Nat)
  | arrive
  | allow (i : Nat)
  | verify (i : Nat) (verdict : Verdict)
  | recordFailure (i : Nat)
  | recordSuccess (i : Nat)
  deriving DecidableEq

def State.move (s : State) (i : Nat) (a : Attempt) : State :=
  { s with attempts := s.attempts.set i a }

/-- The queue `allow` sees once it holds the lock, and its answer. -/
def allow (p : Policy) (now : Nat) (failures : List Nat) : Bool × List Nat :=
  let pruned := prune p.window now failures
  (pruned.length < p.max, pruned)

def verdictPhase : Verdict → Attempt
  | .right => .right
  | .wrong => .wrong
  | .dbError => .finished

def step (p : Policy) (s : State) : Event → Option State
  | .tick elapsed => some { s with now := s.now + elapsed }
  | .arrive => some { s with attempts := s.attempts ++ [.asking s.now] }
  | .allow i =>
    match s.attempts[i]? with
    | some (.asking asked) =>
      let (allowed, failures) := allow p asked s.failures
      some { s.move i (if allowed then .verifying else .refused) with failures }
    | _ => none
  | .verify i verdict =>
    if s.attempts[i]? = some .verifying then
      some { s.move i (verdictPhase verdict) with
        verifiedWrong := match verdict with
          | .wrong => s.verifiedWrong ++ [s.now]
          | _ => s.verifiedWrong }
    else none
  | .recordFailure i =>
    if s.attempts[i]? = some .wrong then
      some { s.move i .finished with failures := s.failures ++ [s.now] }
    else none
  | .recordSuccess i =>
    if s.attempts[i]? = some .right then
      some { s.move i .finished with failures := [], verifiedWrong := [] }
    else none

def machine (p : Policy) : Machine State Event := ⟨step p⟩

/-! ## Admissions that leave room for the failures still owed -/

/-- Attempts past `allow` whose outcome is still open. -/
def State.verifyingCount (s : State) : Nat := s.attempts.countP (· = .verifying)

/-- Attempts that verified a wrong password and have not recorded it. -/
def State.owed (s : State) : Nat := s.attempts.countP (· = .wrong)

/-- The side condition on a step: an attempt is let in only while the recorded
failures and the attempts still in flight together leave room for it. -/
def Roomy (p : Policy) (s : State) : Event → Prop
  | .allow i =>
    match s.attempts[i]? with
    | some (.asking asked) =>
      let (allowed, failures) := allow p asked s.failures
      allowed = true → failures.length + s.verifyingCount + s.owed < p.max
    | _ => True
  | _ => True

instance (p : Policy) (s : State) (e : Event) : Decidable (Roomy p s e) := by
  unfold Roomy
  split
  · split
    · exact inferInstanceAs (Decidable (_ → _))
    · exact instDecidableTrue
  · exact instDecidableTrue

/-- What the bound rests on: recorded and owed failures fit under the maximum, and
they cover the verified failures of every window that is still open. -/
structure Inv (p : Policy) (s : State) : Prop where
  capacity : s.failures.length + s.verifyingCount + s.owed ≤ p.max
  asked_le : ∀ asked, Attempt.asking asked ∈ s.attempts → asked ≤ s.now
  past : ∀ t ∈ s.verifiedWrong, t ≤ s.now
  covered : ∀ start, s.now ≤ start + p.window →
    since start s.verifiedWrong ≤ since start s.failures + s.owed
  bounded : ∀ start, within p.window start s.verifiedWrong ≤ p.max

namespace Inv

variable {p : Policy} {s : State}

theorem init (p : Policy) (now : Nat) : Inv p (State.init now) := by
  refine ⟨?_, ?_, ?_, ?_, ?_⟩ <;>
    simp [State.init, State.verifyingCount, State.owed, since, within]

theorem tick (h : Inv p s) (elapsed : Nat) : Inv p { s with now := s.now + elapsed } where
  capacity := h.capacity
  asked_le asked hasked := Nat.le_add_right_of_le (h.asked_le asked hasked)
  past t ht := Nat.le_add_right_of_le (h.past t ht)
  covered start hopen := h.covered start (by simp only at hopen; omega)
  bounded := h.bounded

theorem arrive (h : Inv p s) :
    Inv p { s with attempts := s.attempts ++ [.asking s.now] } where
  capacity := by
    simpa [State.verifyingCount, State.owed, List.countP_append] using h.capacity
  asked_le asked hasked := by
    rcases List.mem_append.mp hasked with hasked | hasked
    · exact h.asked_le asked hasked
    · simp_all
  past := h.past
  covered start hopen := by
    simpa [State.owed, List.countP_append] using h.covered start hopen
  bounded := h.bounded

theorem asking_of_set {s : State} {i asked : Nat} {a : Attempt}
    (ha : ∀ now, a ≠ .asking now)
    (hmem : Attempt.asking asked ∈ s.attempts.set i a) :
    Attempt.asking asked ∈ s.attempts := by
  rcases List.mem_or_eq_of_mem_set hmem with hmem | heq
  · exact hmem
  · exact absurd heq.symm (ha asked)

theorem verifyingCount_move {i : Nat} {a b : Attempt} (hi : s.attempts[i]? = some a) :
    (s.move i b).verifyingCount + (if a = .verifying then 1 else 0) =
      s.verifyingCount + (if b = .verifying then 1 else 0) := by
  simpa [State.verifyingCount, State.move] using
    countP_set_add (p := fun x => x = Attempt.verifying) (b := b) hi

theorem owed_move {i : Nat} {a b : Attempt} (hi : s.attempts[i]? = some a) :
    (s.move i b).owed + (if a = .wrong then 1 else 0) =
      s.owed + (if b = .wrong then 1 else 0) := by
  simpa [State.owed, State.move] using
    countP_set_add (p := fun x => x = Attempt.wrong) (b := b) hi

/-- `allow` prunes expired failures and lets an attempt in only where it still fits. -/
theorem allow {i asked : Nat} (h : Inv p s) (hi : s.attempts[i]? = some (.asking asked))
    (hroom : Roomy p s (.allow i)) :
    Inv p { s.move i (if (LoginLimiter.allow p asked s.failures).1 then .verifying else .refused)
      with failures := (LoginLimiter.allow p asked s.failures).2 } := by
  have hasked : asked ≤ s.now := h.asked_le asked (List.mem_of_getElem? hi)
  have hlen : (LoginLimiter.allow p asked s.failures).2.length ≤ s.failures.length :=
    length_prune_le
  have hfits : (LoginLimiter.allow p asked s.failures).1 = true →
      (LoginLimiter.allow p asked s.failures).2.length + s.verifyingCount + s.owed < p.max := by
    simpa [Roomy, hi] using hroom
  have hcap := h.capacity
  generalize hnext : (if (LoginLimiter.allow p asked s.failures).1 then Attempt.verifying
    else .refused) = next
  have hnotAsking : ∀ now, next ≠ .asking now := by
    intro now
    rw [← hnext]
    split <;> simp
  have hnotWrong : next ≠ .wrong := by
    rw [← hnext]
    split <;> simp
  have howed : (s.move i next).owed = s.owed := by
    simpa [hnotWrong] using owed_move (b := next) hi
  refine ⟨?_, ?_, h.past, ?_, h.bounded⟩
  · show (LoginLimiter.allow p asked s.failures).2.length + (s.move i next).verifyingCount +
      (s.move i next).owed ≤ p.max
    have hcount := verifyingCount_move (b := next) hi
    rw [howed]
    cases hallowed : (LoginLimiter.allow p asked s.failures).1 with
    | true =>
      have hfits := hfits hallowed
      simp [← hnext, hallowed] at hcount ⊢
      omega
    | false =>
      simp [← hnext, hallowed] at hcount ⊢
      omega
  · intro asked' hmem
    exact h.asked_le asked' (asking_of_set hnotAsking hmem)
  · intro start hopen
    show since start s.verifiedWrong ≤
      since start (prune p.window asked s.failures) + (s.move i next).owed
    have hopen' : s.now ≤ start + p.window := hopen
    rw [since_prune (by omega), howed]
    exact h.covered start hopen'

/-- A wrong password verified now still fits, because its attempt was counted when it
was let in. -/
theorem verifyWrong {i : Nat} (h : Inv p s) (hi : s.attempts[i]? = some .verifying) :
    Inv p { s.move i .wrong with verifiedWrong := s.verifiedWrong ++ [s.now] } := by
  have hverifying := verifyingCount_move (b := .wrong) hi
  have howed := owed_move (b := .wrong) hi
  have hcap := h.capacity
  simp only [if_true, reduceCtorEq, if_false] at hverifying howed
  refine ⟨?_, ?_, ?_, ?_, ?_⟩
  · show s.failures.length + (s.move i .wrong).verifyingCount + (s.move i .wrong).owed ≤ p.max
    omega
  · intro asked hmem
    exact h.asked_le asked (asking_of_set (by simp) hmem)
  · intro t ht
    rcases List.mem_append.mp ht with ht | ht
    · exact h.past t ht
    · exact Nat.le_of_eq (List.mem_singleton.mp ht)
  · intro start hopen
    show since start (s.verifiedWrong ++ [s.now]) ≤
      since start s.failures + (s.move i .wrong).owed
    have hcov := h.covered start hopen
    rw [since_append_singleton]
    split <;> omega
  · intro start
    show within p.window start (s.verifiedWrong ++ [s.now]) ≤ p.max
    rw [within_append_singleton]
    split
    · next hin =>
      -- the window is still open, so recorded and owed failures cover it
      have hcov := h.covered start hin.2
      have hwithin : within p.window start s.verifiedWrong ≤ since start s.verifiedWrong :=
        within_le_since
      have hsince : since start s.failures ≤ s.failures.length := since_le_length
      omega
    · exact h.bounded start

/-- Any other verdict only ends the verification. -/
theorem verifyOther {i : Nat} {a : Attempt} (h : Inv p s)
    (hi : s.attempts[i]? = some .verifying) (hverifying : a ≠ .verifying) (hwrong : a ≠ .wrong)
    (hasking : ∀ now, a ≠ .asking now) : Inv p (s.move i a) := by
  have hcount := verifyingCount_move (b := a) hi
  have howed := owed_move (b := a) hi
  have hcap := h.capacity
  simp only [if_true, hverifying, hwrong, reduceCtorEq, if_false] at hcount howed
  refine ⟨?_, ?_, h.past, ?_, h.bounded⟩
  · show s.failures.length + (s.move i a).verifyingCount + (s.move i a).owed ≤ p.max
    omega
  · intro asked hmem
    exact h.asked_le asked (asking_of_set hasking hmem)
  · intro start hopen
    show since start s.verifiedWrong ≤ since start s.failures + (s.move i a).owed
    have hcov := h.covered start hopen
    omega

/-- An owed failure becomes a recorded one. -/
theorem recordFailure {i : Nat} (h : Inv p s) (hi : s.attempts[i]? = some .wrong) :
    Inv p { s.move i .finished with failures := s.failures ++ [s.now] } := by
  have hcount := verifyingCount_move (b := .finished) hi
  have howed := owed_move (b := .finished) hi
  have hcap := h.capacity
  simp only [if_true, reduceCtorEq, if_false] at hcount howed
  refine ⟨?_, ?_, h.past, ?_, h.bounded⟩
  · show (s.failures ++ [s.now]).length + (s.move i .finished).verifyingCount +
      (s.move i .finished).owed ≤ p.max
    rw [List.length_append, List.length_singleton]
    omega
  · intro asked hmem
    exact h.asked_le asked (asking_of_set (by simp) hmem)
  · intro start hopen
    show since start s.verifiedWrong ≤
      since start (s.failures ++ [s.now]) + (s.move i .finished).owed
    rw [since_append_singleton]
    split
    · have hcov := h.covered start hopen
      omega
    · next hfuture =>
      have hnone : since start s.verifiedWrong = 0 :=
        since_eq_zero fun t ht => by
          have hle := h.past t ht
          omega
      omega

/-- A successful login clears the queue and opens a new count. -/
theorem recordSuccess {i : Nat} (h : Inv p s) (hi : s.attempts[i]? = some .right) :
    Inv p { s.move i .finished with failures := [], verifiedWrong := [] } := by
  have hcount := verifyingCount_move (b := .finished) hi
  have howed := owed_move (b := .finished) hi
  have hcap := h.capacity
  simp only [reduceCtorEq, if_false] at hcount howed
  refine ⟨?_, ?_, by simp, by simp [since], by simp [within]⟩
  · show 0 + (s.move i .finished).verifyingCount + (s.move i .finished).owed ≤ p.max
    omega
  · intro asked hmem
    exact h.asked_le asked (asking_of_set (by simp) hmem)

/-- Every roomy step keeps the invariant. -/
theorem step {s' : State} {e : Event} (h : Inv p s) (hroom : Roomy p s e)
    (hstep : (machine p).step s e = some s') : Inv p s' := by
  cases e with
  | tick elapsed =>
    cases hstep
    exact h.tick elapsed
  | arrive =>
    cases hstep
    exact h.arrive
  | allow i =>
    simp only [machine, LoginLimiter.step] at hstep
    split at hstep
    · next asked hi =>
      cases hstep
      exact h.allow hi hroom
    · cases hstep
  | verify i verdict =>
    simp only [machine, LoginLimiter.step] at hstep
    split at hstep
    · next hi =>
      cases hstep
      cases verdict with
      | wrong => exact h.verifyWrong hi
      | right =>
        exact h.verifyOther (a := .right) hi (by simp) (by simp) (by simp)
      | dbError =>
        exact h.verifyOther (a := .finished) hi (by simp) (by simp) (by simp)
    · cases hstep
  | recordFailure i =>
    simp only [machine, LoginLimiter.step] at hstep
    split at hstep
    · next hi =>
      cases hstep
      exact h.recordFailure hi
    · cases hstep
  | recordSuccess i =>
    simp only [machine, LoginLimiter.step] at hstep
    split at hstep
    · next hi =>
      cases hstep
      exact h.recordSuccess hi
    · cases hstep

end Inv

/-- **The failure bound under roomy admissions.** In every run that lets attempts in
only where they fit, no window sees more wrong passwords verified between two
successful logins than the limiter's maximum. -/
theorem verifiedWrong_within_le {p : Policy} {now : Nat} {es : List Event} {s : State}
    (h : (machine p).Run (Roomy p) (State.init now) es s) (start : Nat) :
    within p.window start s.verifiedWrong ≤ p.max :=
  (h.invariant (Inv.init p now) fun _ _ _ hinv hroom hstep => hinv.step hroom hstep).bounded start

/-- Two attempts in turn, each reporting its failure before the next is let in. -/
def inTurn : List Event :=
  [.arrive, .allow 0, .verify 0 .wrong, .recordFailure 0, .tick 5,
   .arrive, .allow 1, .verify 1 .wrong]

theorem inTurn_within_le :
    ∃ s, (machine defaultPolicy).Run (Roomy defaultPolicy) (State.init 0) inTurn s ∧
      within defaultPolicy.window 0 s.verifiedWrong ≤ defaultPolicy.max :=
  have hsome : ((machine defaultPolicy).execIf (Roomy defaultPolicy) (State.init 0)
    inTurn).isSome = true := by decide
  have hrun := run_execIf hsome
  ⟨_, hrun, verifiedWrong_within_le hrun 0⟩

/-- `count` attempts let in side by side before any of them verifies its password. -/
def burst (count : Nat) : List Event :=
  List.replicate count .arrive ++ (List.range count).map .allow ++
    (List.range count).map fun i => .verify i .wrong

/-- Eleven attempts in flight together get eleven guesses under the policy of ten. -/
theorem burst_exceeds_max :
    ¬ ∀ (es : List Event) (s : State),
      (machine defaultPolicy).exec (State.init 0) es = some s →
      ∀ start, within defaultPolicy.window start s.verifiedWrong ≤ defaultPolicy.max := by
  intro hbound
  have hrun : ((machine defaultPolicy).exec (State.init 0) (burst 11)).map State.verifiedWrong =
      some (List.replicate 11 0) := by decide
  obtain ⟨s, hs, hverified⟩ := Option.map_eq_some_iff.mp hrun
  have hle := hbound (burst 11) s hs 0
  rw [hverified] at hle
  exact absurd hle (by decide)

end LoginLimiter

end Ruscker.Auth
