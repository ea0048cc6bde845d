import Mathlib.Data.List.Infix
import Ruscker.Lib.Machine
import Ruscker.Text

/-!
# Image pulls

A pull is started by one request and followed by another.  It runs as a task with a slot of its
own, which puts the daemon's lines into a bounded channel; the receiving end waits under a token
until it is followed or swept.  The task waits where the channel is full, and ends with its
stream or when the receiving end is gone.
-/

namespace Ruscker.Admin.ImagePulls

open Machines

inductive PullEvent where
  | line (text : Str)
  | done

/-- The receiving end: in `PULL_JOBS`, in the stream of its follower, or dropped. -/
inductive Receiver where
  | parked | following | dropped
  deriving DecidableEq

/-- Where `forward_pull` is: it waits for the daemon, or for room in the channel, or is over. -/
inductive Task where
  | reading
  | sending (event : PullEvent)
  | ended

def Task.pending : Task → List PullEvent
  | .sending event => [event]
  | _ => []

/-- A pull, with what the daemon has said so far and what the follower has seen of it. -/
structure Pull where
  image : Str
  task : Task
  channel : List PullEvent
  receiver : Receiver
  lines : List Str
  finished : Bool
  shown : List Str
  closed : Bool

/-- `PULL_CHANNEL_CAP` -/
def pullChannelCap : Nat := 256

/-- `MAX_CONCURRENT_PULLS` -/
def maxConcurrentPulls : Nat := 4

/-- The daemon's stream yields a line or ends; the task sends; the time to live of the token
runs out; a follower comes, takes an event off the channel, or leaves. -/
inductive Move where
  | daemon (line : Option Str)
  | send
  | sweep
  | follow
  | recv
  | leave
  deriving DecidableEq

namespace Pull

def start (image : Str) : Pull := ⟨image, .reading, [], .parked, [], false, [], false⟩

def inProgress (p : Pull) : Bool :=
  match p.task with
  | .ended => false
  | _ => true

/-- The receiving end goes, and with it what is in the channel. -/
def drop (p : Pull) : Pull := { p with receiver := .dropped, channel := [] }

def step (p : Pull) : Move → Option Pull
  | .daemon line =>
    match p.task, line with
    | .reading, some text =>
      some { p with task := .sending (.line text), lines := p.lines ++ [text] }
    | .reading, none => some { p with task := .sending .done, finished := true }
    | _, _ => none
  | .send =>
    match p.task with
    | .sending event =>
      if p.receiver = .dropped then some { p with task := .ended }
      else if p.channel.length < pullChannelCap then
        some { p with
          channel := p.channel ++ [event]
          task := match event with
            | .line _ => .reading
            | .done => .ended }
      else none
    | _ => none
  | .sweep => if p.receiver = .parked then some p.drop else some p
  | .follow => if p.receiver = .parked then some { p with receiver := .following } else none
  | .recv =>
    match p.receiver, p.channel with
    | .following, .line text :: channel =>
      some { p with channel, shown := p.shown ++ [text] }
    | .following, .done :: _ => some { p.drop with closed := true }
    | _, _ => none
  | .leave => if p.receiver = .following then some p.drop else none

/-- What the follower has seen, what is in the channel, and what the task is about to send. -/
def passed (p : Pull) : List PullEvent :=
  p.shown.map .line ++ (if p.closed then [.done] else []) ++ p.channel ++ p.task.pending

/-- What the daemon has said. -/
def said (p : Pull) : List PullEvent :=
  p.lines.map .line ++ if p.finished then [.done] else []

/-- The task knows when the stream has ended, and ends itself then or when nobody listens. -/
def Staged (p : Pull) : Prop :=
  match p.task with
  | .reading | .sending (.line _) => p.finished = false
  | .sending .done => p.finished = true
  | .ended => p.finished = true ∨ p.receiver = .dropped

structure Sound (p : Pull) : Prop where
  channel_le : p.channel.length ≤ pullChannelCap
  passed_eq : p.receiver ≠ .dropped → p.closed = false ∧ p.passed = p.said
  shown_prefix : p.shown <+: p.lines
  closed_eq : p.closed = true → p.finished = true ∧ p.shown = p.lines
  staged : p.Staged

/-- Lines in front of other events are lines that have been said. -/
theorem lines_prefix {shown lines : List Str} {events : List PullEvent} {b : Bool}
    (h : shown.map .line ++ events = lines.map PullEvent.line ++ if b then [.done] else []) :
    shown <+: lines := by
  induction shown generalizing lines with
  | nil => exact List.nil_prefix
  | cons text shown ih =>
    cases lines with
    | nil => cases b <;> simp at h
    | cons text' lines =>
      simp only [List.map_cons, List.cons_append, List.cons.injEq, PullEvent.line.injEq] at h
      rw [h.1]
      exact List.cons_prefix_cons.mpr ⟨rfl, ih h.2⟩

/-- The end is said behind all lines. -/
theorem lines_eq {shown lines : List Str} {events : List PullEvent} {b : Bool}
    (h : shown.map .line ++ .done :: events =
      lines.map PullEvent.line ++ if b then [.done] else []) : b = true ∧ shown = lines := by
  induction shown generalizing lines with
  | nil =>
    cases lines with
    | nil => cases b <;> simp at h ⊢
    | cons text lines => simp at h
  | cons text shown ih =>
    cases lines with
    | nil => cases b <;> simp at h
    | cons text' lines =>
      simp only [List.map_cons, List.cons_append, List.cons.injEq, PullEvent.line.injEq] at h
      obtain ⟨hb, hrest⟩ := ih h.2
      exact ⟨hb, by rw [h.1, hrest]⟩

namespace Sound

variable {p p' : Pull}

theorem start (image : Str) : (start image).Sound where
  channel_le := Nat.zero_le _
  passed_eq _ := ⟨rfl, rfl⟩
  shown_prefix := List.prefix_refl []
  closed_eq := nofun
  staged := rfl

/-- What has been seen is a part of what has been said, however the receiving end goes. -/
theorem drop (h : p.Sound) : p.drop.Sound where
  channel_le := Nat.zero_le _
  passed_eq hne := absurd rfl hne
  shown_prefix := h.shown_prefix
  closed_eq := h.closed_eq
  staged := by
    have hstaged := h.staged
    unfold Staged at hstaged ⊢
    show match p.task with
      | .reading | .sending (.line _) => p.finished = false
      | .sending .done => p.finished = true
      | .ended => p.finished = true ∨ Receiver.dropped = Receiver.dropped
    split at hstaged
    · exact hstaged
    · exact hstaged
    · exact hstaged
    · exact .inr rfl

theorem daemon (h : p.Sound) {line : Option Str} (hstep : p.step (.daemon line) = some p') :
    p'.Sound := by
  obtain ⟨image, task, channel, receiver, lines, finished, shown, closed⟩ := p
  cases task with
  | reading =>
    obtain rfl : finished = false := h.staged
    cases line with
    | none =>
      cases hstep
      refine ⟨h.channel_le, fun hne => ⟨(h.passed_eq hne).1, ?_⟩, h.shown_prefix,
        fun hc => ⟨rfl, (h.closed_eq hc).2⟩, rfl⟩
      have hpassed := (h.passed_eq hne).2
      simp only [passed, said, Task.pending, Bool.false_eq_true, if_false, List.append_nil]
        at hpassed
      simp only [passed, said, Task.pending, hpassed, if_true]
    | some text =>
      cases hstep
      refine ⟨h.channel_le, fun hne => ⟨(h.passed_eq hne).1, ?_⟩,
        h.shown_prefix.trans (List.prefix_append lines [text]),
        fun hc => absurd (h.closed_eq hc).1 Bool.false_ne_true, rfl⟩
      have hpassed := (h.passed_eq hne).2
      simp only [passed, said, Task.pending, Bool.false_eq_true, if_false, List.append_nil]
        at hpassed
      simp only [passed, said, Task.pending, hpassed, Bool.false_eq_true, if_false,
        List.append_nil, List.map_append, List.map_cons, List.map_nil]
  | sending event => cases hstep
  | ended => cases hstep

theorem send (h : p.Sound) (hstep : p.step .send = some p') : p'.Sound := by
  obtain ⟨image, task, channel, receiver, lines, finished, shown, closed⟩ := p
  cases task with
  | reading => cases hstep
  | ended => cases hstep
  | sending event =>
    simp only [step] at hstep
    split at hstep
    · next hdropped =>
      cases hstep
      exact ⟨h.channel_le, fun hne => absurd hdropped hne, h.shown_prefix, h.closed_eq,
        .inr hdropped⟩
    · next hne =>
      obtain ⟨hroom, heq⟩ := Option.ite_none_right_eq_some.mp hstep
      cases heq
      have hpassed := h.passed_eq hne
      refine ⟨?_, fun _ => ⟨hpassed.1, ?_⟩, h.shown_prefix, h.closed_eq, ?_⟩
      · rw [List.length_append]
        exact hroom
      · refine Eq.trans ?_ hpassed.2
        cases event <;> simp [passed, Task.pending]
      · have hstaged := h.staged
        cases event with
        | line text => exact hstaged
        | done => exact .inl hstaged

theorem recv (h : p.Sound) (hstep : p.step .recv = some p') : p'.Sound := by
  obtain ⟨image, task, channel, receiver, lines, finished, shown, closed⟩ := p
  simp only [step] at hstep
  split at hstep
  · next text rest =>
    cases hstep
    obtain ⟨rfl, hpassed⟩ := h.passed_eq Receiver.noConfusion
    have hlist : (shown ++ [text]).map .line ++ (rest ++ task.pending) =
        lines.map .line ++ if finished then [.done] else [] := by
      simpa [passed, said] using hpassed
    refine ⟨Nat.le_of_succ_le h.channel_le, fun _ => ⟨rfl, ?_⟩, lines_prefix hlist, nofun,
      h.staged⟩
    simpa [passed, said] using hlist
  · next rest =>
    cases hstep
    obtain ⟨rfl, hpassed⟩ := h.passed_eq Receiver.noConfusion
    have hlist : shown.map .line ++ .done :: (rest ++ task.pending) =
        lines.map .line ++ if finished then [.done] else [] := by
      simpa [passed, said] using hpassed
    obtain ⟨hfinished, hshown⟩ := lines_eq hlist
    exact ⟨Nat.zero_le _, fun hne => absurd rfl hne, h.shown_prefix,
      fun _ => ⟨hfinished, hshown⟩, h.drop.staged⟩
  · cases hstep

/-- **One step of a pull.** -/
theorem step (h : p.Sound) {move : Move} (hstep : p.step move = some p') : p'.Sound := by
  cases move with
  | daemon line => exact h.daemon hstep
  | send => exact h.send hstep
  | recv => exact h.recv hstep
  | sweep =>
    simp only [Pull.step] at hstep
    split at hstep <;> cases hstep
    · exact h.drop
    · exact h
  | leave =>
    obtain ⟨-, heq⟩ := Option.ite_none_right_eq_some.mp hstep
    cases heq
    exact h.drop
  | follow =>
    obtain ⟨hparked, heq⟩ := Option.ite_none_right_eq_some.mp hstep
    cases heq
    have hne : p.receiver ≠ .dropped := by
      rw [hparked]
      exact Receiver.noConfusion
    refine ⟨h.channel_le, fun _ => h.passed_eq hne, h.shown_prefix, h.closed_eq, ?_⟩
    have hstaged := h.staged
    unfold Staged at hstaged ⊢
    dsimp only
    split at hstaged
    · exact hstaged
    · exact hstaged
    · exact hstaged
    · exact hstaged.imp_right fun hdropped => absurd hdropped hne

end Sound

end Pull

structure System where
  slots : Nat
  starting : List Str
  pulls : List Pull

/-- A start is requested; the daemon opens the stream of a start or refuses; a pull moves.  The
token of a pull is its number. -/
inductive Event where
  | request (image : Str)
  | opened (i : Nat) (accepted : Bool)
  | pull (token : Nat) (move : Move)
  deriving DecidableEq

/-- The check of `image_pull_start`. -/
def pullable (image : Str) : Bool := !image.isEmpty && !decide (['$', '{'] <:+: image)

def machine : Machine System Event where
  step s
    | .request image =>
      if pullable image.trim && decide (0 < s.slots) then
        some { s with slots := s.slots - 1, starting := s.starting ++ [image.trim] }
      else some s
    | .opened i accepted => do
      let image ← s.starting[i]?
      let starting := s.starting.eraseIdx i
      if accepted then return { s with starting, pulls := s.pulls ++ [Pull.start image] }
      else return { s with starting, slots := s.slots + 1 }
    | .pull token move => do
      let p ← s.pulls[token]?
      let p' ← p.step move
      return { s with
        pulls := s.pulls.set token p'
        slots := s.slots + if p.inProgress && !p'.inProgress then 1 else 0 }

def initial : System := ⟨maxConcurrentPulls, [], []⟩

/-! ## Slots and followers -/

section Moves

variable {p p' : Pull} {move : Move}

theorem inProgress_of_step (hstep : p.step move = some p') (h : p'.inProgress = true) :
    p.inProgress = true := by
  obtain ⟨image, task, channel, receiver, lines, finished, shown, closed⟩ := p
  cases task with
  | reading => rfl
  | sending event => rfl
  | ended =>
    cases move with
    | daemon line => cases hstep
    | send => cases hstep
    | sweep =>
      simp only [Pull.step] at hstep
      split at hstep <;> cases hstep <;> exact h
    | follow =>
      obtain ⟨-, heq⟩ := Option.ite_none_right_eq_some.mp hstep
      cases heq
      exact h
    | recv =>
      simp only [Pull.step] at hstep
      split at hstep <;> cases hstep <;> exact h
    | leave =>
      obtain ⟨-, heq⟩ := Option.ite_none_right_eq_some.mp hstep
      cases heq
      exact h

/-- A receiving end that has left the registry does not come back to it. -/
theorem not_parked_of_step (hstep : p.step move = some p') (h : p.receiver ≠ .parked) :
    p'.receiver ≠ .parked := by
  cases move with
  | daemon line =>
    simp only [Pull.step] at hstep
    split at hstep <;> cases hstep <;> exact h
  | send =>
    simp only [Pull.step] at hstep
    split at hstep
    · split at hstep
      · cases hstep
        exact h
      · obtain ⟨-, heq⟩ := Option.ite_none_right_eq_some.mp hstep
        cases heq
        exact h
    · cases hstep
  | sweep =>
    rw [Pull.step, if_neg h] at hstep
    cases hstep
    exact h
  | follow =>
    rw [Pull.step, if_neg h] at hstep
    cases hstep
  | recv =>
    simp only [Pull.step] at hstep
    split at hstep
    · cases hstep
      exact h
    · cases hstep
      exact Receiver.noConfusion
    · cases hstep
  | leave =>
    obtain ⟨-, heq⟩ := Option.ite_none_right_eq_some.mp hstep
    cases heq
    exact Receiver.noConfusion

end Moves

/-- Each slot is free, held by a start, or held by a pull in progress. -/
structure Slotted (s : System) : Prop where
  slots_eq : s.slots + s.starting.length + s.pulls.countP Pull.inProgress = maxConcurrentPulls
  sound : ∀ p ∈ s.pulls, p.Sound

theorem slotted_initial : Slotted initial := ⟨rfl, nofun⟩

theorem slotted_step {s s' : System} (h : Slotted s) {e : Event}
    (hstep : machine.step s e = some s') : Slotted s' := by
  have hslots := h.slots_eq
  cases e with
  | request image =>
    simp only [machine] at hstep
    split at hstep
    · next hfree =>
      cases hstep
      simp only [Bool.and_eq_true, decide_eq_true_eq] at hfree
      refine ⟨?_, h.sound⟩
      rw [List.length_append, List.length_singleton]
      dsimp only
      omega
    · cases hstep
      exact h
  | opened i accepted =>
    obtain ⟨image, hi, hrest⟩ := Option.bind_eq_some_iff.mp hstep
    have hlt : i < s.starting.length := (List.getElem?_eq_some_iff.mp hi).1
    have hlen := List.length_eraseIdx_of_lt hlt
    cases accepted with
    | true =>
      cases hrest
      refine ⟨?_, forall_mem_concat h.sound (.start image)⟩
      have hstart : (Pull.start image).inProgress = true := rfl
      rw [List.countP_append, List.countP_singleton, if_pos hstart]
      dsimp only
      omega
    | false =>
      cases hrest
      refine ⟨?_, h.sound⟩
      dsimp only
      omega
  | pull token move =>
    obtain ⟨p, hp, hrest⟩ := Option.bind_eq_some_iff.mp hstep
    obtain ⟨p', hp', heq⟩ := Option.bind_eq_some_iff.mp hrest
    cases heq
    refine ⟨?_, forall_mem_set h.sound ((h.sound p (List.mem_of_getElem? hp)).step hp')⟩
    have hcount := countP_set_add (b := p') (p := Pull.inProgress) hp
    have hback := inProgress_of_step hp'
    have hshare : (if p.inProgress && !p'.inProgress then 1 else 0) +
        (if p'.inProgress then 1 else 0) = if p.inProgress then 1 else 0 := by
      cases hbefore : p.inProgress <;> cases hafter : p'.inProgress <;> simp_all
    dsimp only
    omega

theorem slotted_of_exec {es : List Event} {s : System} (hrun : machine.exec initial es = some s) :
    Slotted s :=
  (Machine.run_free_iff.mpr hrun).invariant slotted_initial fun _ _ _ h _ hstep =>
    slotted_step h hstep

theorem left_step {s s' : System} {e : Event} {token : Nat} {p : Pull}
    (hstep : machine.step s e = some s') (hp : s.pulls[token]? = some p)
    (hleft : p.receiver ≠ .parked) :
    ∃ p', s'.pulls[token]? = some p' ∧ p'.receiver ≠ .parked := by
  cases e with
  | request image =>
    simp only [machine] at hstep
    split at hstep <;> cases hstep <;> exact ⟨p, hp, hleft⟩
  | opened i accepted =>
    obtain ⟨image, -, hrest⟩ := Option.bind_eq_some_iff.mp hstep
    cases accepted with
    | true =>
      cases hrest
      have hlt : token < s.pulls.length := (List.getElem?_eq_some_iff.mp hp).1
      exact ⟨p, by rw [List.getElem?_append_left hlt, hp], hleft⟩
    | false =>
      cases hrest
      exact ⟨p, hp, hleft⟩
  | pull token' move =>
    obtain ⟨q, hq, hrest⟩ := Option.bind_eq_some_iff.mp hstep
    obtain ⟨q', hq', heq⟩ := Option.bind_eq_some_iff.mp hrest
    cases heq
    by_cases htoken : token' = token
    · subst htoken
      obtain rfl := Option.some.inj (hp.symm.trans hq)
      have hlt : token' < s.pulls.length := (List.getElem?_eq_some_iff.mp hp).1
      exact ⟨q', List.getElem?_set_self hlt, not_parked_of_step hq' hleft⟩
    · exact ⟨p, by rw [List.getElem?_set_ne htoken, hp], hleft⟩

/-- A token is not followed when its receiving end has left the registry. -/
theorem follow_notMem {s t : System} {es : List Event} {token : Nat} {p : Pull}
    (hrun : machine.exec s es = some t) (hp : s.pulls[token]? = some p)
    (hleft : p.receiver ≠ .parked) : Event.pull token .follow ∉ es := by
  induction es generalizing s p with
  | nil => exact List.not_mem_nil
  | cons e es ih =>
    obtain ⟨s', hstep, hrest⟩ := Option.bind_eq_some_iff.mp hrun
    obtain ⟨p', hp', hleft'⟩ := left_step hstep hp hleft
    intro hmem
    rcases List.mem_cons.mp hmem with rfl | hmem
    · obtain ⟨q, hq, hfollow⟩ := Option.bind_eq_some_iff.mp hstep
      obtain rfl := Option.some.inj (hp.symm.trans hq)
      obtain ⟨q', hq', -⟩ := Option.bind_eq_some_iff.mp hfollow
      rw [Pull.step, if_neg hleft] at hq'
      cases hq'
    · exact ih hrest hp' hleft' hmem

/-! ## Every slot comes back -/

def pullMachine : Machine Pull Move := ⟨Pull.step⟩

/-- The moves of one pull are moves of the system, and its slot is free where it ends. -/
theorem exec_pull {s : System} {token : Nat} {moves : List Move} {p p' : Pull}
    (hp : s.pulls[token]? = some p) (hexec : pullMachine.exec p moves = some p') :
    (p'.inProgress = true → p.inProgress = true) ∧
      ∃ t, machine.exec s (moves.map (.pull token)) = some t ∧
        t.slots = s.slots + if p.inProgress && !p'.inProgress then 1 else 0 := by
  induction moves generalizing s p with
  | nil =>
    cases hexec
    exact ⟨id, s, rfl, by simp⟩
  | cons move moves ih =>
    obtain ⟨q, hq, hrest⟩ := Option.bind_eq_some_iff.mp hexec
    have hback := inProgress_of_step hq
    have hlt : token < s.pulls.length := (List.getElem?_eq_some_iff.mp hp).1
    let s' : System := { s with
      pulls := s.pulls.set token q
      slots := s.slots + if p.inProgress && !q.inProgress then 1 else 0 }
    have hstep : machine.step s (.pull token move) = some s' := by
      have hq' : p.step move = some q := hq
      simp [machine, hp, hq', s']
    have hmoved : s'.pulls[token]? = some q := List.getElem?_set_self hlt
    obtain ⟨hback', t, ht, hslots⟩ := ih hmoved hrest
    refine ⟨fun h => hback (hback' h), t, ?_, ?_⟩
    · rw [List.map_cons, Machine.exec, hstep, Option.bind_some, ht]
    · rw [hslots]
      dsimp only [s']
      cases hp₀ : p.inProgress <;> cases hq₀ : q.inProgress <;> cases hp₁ : p'.inProgress <;>
        simp_all

/-- A pull that nobody listens to any more ends at its next event. -/
theorem ends_of_dropped {p : Pull} (h : p.receiver = .dropped) (hprogress : p.inProgress = true) :
    ∃ moves p', pullMachine.exec p moves = some p' ∧ p'.inProgress = false := by
  obtain ⟨image, task, channel, receiver, lines, finished, shown, closed⟩ := p
  obtain rfl : receiver = .dropped := h
  cases task with
  | reading => exact ⟨[.daemon none, .send], _, rfl, rfl⟩
  | sending event => exact ⟨[.send], _, rfl, rfl⟩
  | ended => cases hprogress

theorem ends {p : Pull} (hprogress : p.inProgress = true) :
    ∃ moves p', pullMachine.exec p moves = some p' ∧ p'.inProgress = false := by
  have hafter : ∀ move q, p.step move = some q → q.receiver = .dropped → q.inProgress = true →
      ∃ moves p', pullMachine.exec p moves = some p' ∧ p'.inProgress = false := by
    intro move q hstep hdropped hq
    obtain ⟨moves, p', hexec, hend⟩ := ends_of_dropped hdropped hq
    refine ⟨move :: moves, p', ?_, hend⟩
    have hstep' : pullMachine.step p move = some q := hstep
    rw [Machine.exec, hstep', Option.bind_some, hexec]
  cases hreceiver : p.receiver with
  | dropped => exact ends_of_dropped hreceiver hprogress
  | parked => exact hafter .sweep p.drop (if_pos hreceiver) rfl hprogress
  | following => exact hafter .leave p.drop (if_pos hreceiver) rfl hprogress

/-- **Four slots, never more and never fewer**: in every state of every run the slots that are
free, held by starts and held by pulls in progress are four, and each pull in progress has a
way to its end that asks nothing of the others and frees its slot. -/
theorem slots_kept {es : List Event} {s : System} (hrun : machine.exec initial es = some s) :
    s.slots + s.starting.length + s.pulls.countP Pull.inProgress = maxConcurrentPulls ∧
      ∀ (token : Nat) (p : Pull), s.pulls[token]? = some p → p.inProgress = true →
        ∃ (moves : List Move) (t : System), machine.exec s (moves.map (.pull token)) = some t ∧
          t.slots = s.slots + 1 := by
  refine ⟨(slotted_of_exec hrun).slots_eq, fun token p hp hprogress => ?_⟩
  obtain ⟨moves, p', hexec, hend⟩ := ends hprogress
  obtain ⟨-, t, ht, hslots⟩ := exec_pull hp hexec
  refine ⟨moves, t, ht, ?_⟩
  rw [hslots, hprogress, hend]
  rfl

/-- One pull is followed to its end; another is swept and ends at the daemon's next line. -/
def pullsRun : List Event :=
  [.request ['a'], .request ['b'], .opened 0 true, .opened 0 true, .pull 0 (.daemon (some ['x'])),
    .pull 0 .send, .pull 0 .follow, .pull 1 .sweep, .pull 1 (.daemon (some ['y'])),
    .pull 1 .send, .pull 0 (.daemon none), .pull 0 .recv]

theorem slots_kept_pullsRun :
    ∃ s, machine.exec initial pullsRun = some s ∧ s.slots = 3 ∧
      s.slots + s.starting.length + s.pulls.countP Pull.inProgress = 4 := by
  obtain ⟨s, hs, hslots⟩ : ∃ s, machine.exec initial pullsRun = some s ∧ s.slots = 3 :=
    ⟨_, rfl, rfl⟩
  exact ⟨s, hs, hslots, (slots_kept hs).1⟩

/-- **A follower sees the pull as it is**: the lines of the daemon in their order, at any time
up to some point, and all of them when it is told that the pull is done.  The channel stays
within its bound, and the token is followed once. -/
theorem followed {es : List Event} {s : System} (hrun : machine.exec initial es = some s)
    {token : Nat} {p : Pull} (hp : s.pulls[token]? = some p) :
    p.shown <+: p.lines ∧ (p.closed = true → p.finished = true ∧ p.shown = p.lines) ∧
      p.channel.length ≤ pullChannelCap ∧
      ∀ es₁ es₂, es = es₁ ++ .pull token .follow :: es₂ → Event.pull token .follow ∉ es₂ := by
  have hsound := (slotted_of_exec hrun).sound p (List.mem_of_getElem? hp)
  refine ⟨hsound.shown_prefix, hsound.closed_eq, hsound.channel_le, ?_⟩
  rintro es₁ es₂ rfl
  rw [Machine.exec_append] at hrun
  obtain ⟨s₁, -, hrest⟩ := Option.bind_eq_some_iff.mp hrun
  obtain ⟨s₂, hstep, hlast⟩ := Option.bind_eq_some_iff.mp hrest
  obtain ⟨q, hq, hfollow⟩ := Option.bind_eq_some_iff.mp hstep
  obtain ⟨q', hq', heq⟩ := Option.bind_eq_some_iff.mp hfollow
  obtain ⟨-, hq''⟩ := Option.ite_none_right_eq_some.mp hq'
  cases heq
  cases hq''
  have hlt : token < s₁.pulls.length := (List.getElem?_eq_some_iff.mp hq).1
  exact follow_notMem hlast (List.getElem?_set_self hlt) Receiver.noConfusion

theorem followed_pullsRun :
    ∃ s p, machine.exec initial pullsRun = some s ∧ s.pulls[0]? = some p ∧
      p.shown <+: p.lines := by
  obtain ⟨s, p, hs, hp⟩ : ∃ s p, machine.exec initial pullsRun = some s ∧
      s.pulls[0]? = some p := ⟨_, _, rfl, rfl⟩
  exact ⟨s, p, hs, hp, (followed hs hp).1⟩

end Ruscker.Admin.ImagePulls
