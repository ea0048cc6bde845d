import Mathlib.Data.List.Nodup
import Ruscker.Lib.Machine
import Ruscker.Text

/-!
# User activity

Logins and app accesses go through a bounded queue to a task that writes them in batches.  A
full queue drops events, a batch is tried three times, and an attempt may fail after its
transaction has been committed.  Other instances write to the same table.
-/

namespace Ruscker.Admin.Activity

open Machines

inductive ActivityEventType where
  | loginSuccess | appAccess
  deriving DecidableEq

inductive AuthMethod where
  | password | token

structure ActivityEvent where
  eventType : ActivityEventType
  username : Option Str
  specId : Option Str
  eventKey : Str
  authMethod : Option AuthMethod
  clientIp : Option Str
  occurredAt : Nat

/-- The columns of the unique index. -/
def ActivityEvent.key (e : ActivityEvent) : ActivityEventType × Str := (e.eventType, e.eventKey)

/-- `QUEUE_DEPTH` -/
def queueDepth : Nat := 1024

/-- `BATCH_MAX` -/
def batchMax : Nat := 256

/-- `MAX_ATTEMPTS` -/
def maxAttempts : Nat := 3

/-! ## The table -/

/-- `INSERT … ON CONFLICT (event_type, event_key) DO NOTHING` -/
def insertRow (rows : List ActivityEvent) (e : ActivityEvent) : List ActivityEvent :=
  if e.key ∈ rows.map ActivityEvent.key then rows else rows ++ [e]

def insertBatch (rows events : List ActivityEvent) : List ActivityEvent :=
  events.foldl insertRow rows

section Rows

variable {rows events : List ActivityEvent} {e : ActivityEvent}

theorem mem_insertRow {r : ActivityEvent} (h : r ∈ insertRow rows e) : r ∈ rows ∨ r = e := by
  unfold insertRow at h
  split at h
  · exact .inl h
  · simpa using h

theorem subset_insertRow : rows ⊆ insertRow rows e := by
  unfold insertRow
  split
  · exact List.Subset.refl rows
  · exact List.subset_append_left rows [e]

theorem key_mem_insertRow : e.key ∈ (insertRow rows e).map ActivityEvent.key := by
  unfold insertRow
  split
  · assumption
  · simp

theorem nodup_insertRow (h : (rows.map ActivityEvent.key).Nodup) :
    ((insertRow rows e).map ActivityEvent.key).Nodup := by
  unfold insertRow
  split
  · exact h
  · next hnew =>
    rw [List.map_append]
    simpa [List.concat_eq_append] using h.concat hnew

theorem mem_insertBatch {r : ActivityEvent} (h : r ∈ insertBatch rows events) :
    r ∈ rows ∨ r ∈ events := by
  induction events generalizing rows with
  | nil => exact .inl h
  | cons e events ih =>
    rcases @ih (insertRow rows e) h with hrow | hevent
    · rcases mem_insertRow hrow with hold | rfl
      · exact .inl hold
      · exact .inr List.mem_cons_self
    · exact .inr (List.mem_cons_of_mem e hevent)

theorem subset_insertBatch : rows ⊆ insertBatch rows events := by
  induction events generalizing rows with
  | nil => exact List.Subset.refl rows
  | cons e events ih =>
    have hstep : rows ⊆ insertRow rows e := subset_insertRow
    exact List.Subset.trans hstep ih

theorem key_mem_insertBatch (h : e ∈ events) :
    e.key ∈ (insertBatch rows events).map ActivityEvent.key := by
  induction events generalizing rows with
  | nil => cases h
  | cons e' events ih =>
    rcases List.mem_cons.mp h with rfl | h
    · have hrest : insertRow rows e ⊆ insertBatch (insertRow rows e) events := subset_insertBatch
      exact List.map_subset _ hrest key_mem_insertRow
    · exact ih h

theorem nodup_insertBatch (h : (rows.map ActivityEvent.key).Nodup) :
    ((insertBatch rows events).map ActivityEvent.key).Nodup := by
  induction events generalizing rows with
  | nil => exact h
  | cons e events ih => exact ih (nodup_insertRow h)

end Rows

/-! ## The queue and the task -/

/-- The queue, the count of refused events, the batch in hand with its failed attempts, and
the table.  The last three fields are the history of the run: what the queue took, what was
done with it, acknowledged or given up, and what other instances wrote. -/
structure System where
  queue : List ActivityEvent
  dropped : Nat
  buf : List ActivityEvent
  attempt : Nat
  rows : List ActivityEvent
  accepted : List ActivityEvent
  settled : List (ActivityEvent × Bool)
  others : List ActivityEvent

/-- An event is recorded; the task takes a batch; the batch is written, or its attempt fails,
before or after the commit; another instance writes an event. -/
inductive Event where
  | record (e : ActivityEvent)
  | recvMany
  | written
  | failed (committed : Bool)
  | otherInstance (e : ActivityEvent)

def initial : System := ⟨[], 0, [], 0, [], [], [], []⟩

/-- `ActivitySink::record`: a `try_send` that counts what a full queue refuses. -/
def record (s : System) (e : ActivityEvent) : System :=
  if s.queue.length < queueDepth then
    { s with queue := s.queue ++ [e], accepted := s.accepted ++ [e] }
  else { s with dropped := s.dropped + 1 }

/-- The batch is done with, acknowledged or not. -/
def settle (s : System) (acknowledged : Bool) : System :=
  { s with buf := [], attempt := 0, settled := s.settled ++ s.buf.map fun e => (e, acknowledged) }

/-- An attempt that reports an error: the third one gives the batch up. -/
def failAttempt (s : System) : System :=
  if s.attempt + 1 < maxAttempts then { s with attempt := s.attempt + 1 } else settle s false

def machine : Machine System Event where
  step s
    | .record e => some (record s e)
    | .recvMany =>
      if s.buf.isEmpty && !s.queue.isEmpty then
        some { s with buf := s.queue.take batchMax, queue := s.queue.drop batchMax }
      else none
    | .written =>
      if s.buf.isEmpty then none
      else some (settle { s with rows := insertBatch s.rows s.buf } true)
    | .failed committed =>
      if s.buf.isEmpty then none
      else some (failAttempt { s with
        rows := if committed then insertBatch s.rows s.buf else s.rows })
    | .otherInstance e => some { s with rows := insertRow s.rows e, others := s.others ++ [e] }

/-- Every event the queue took is settled, in the batch or still queued, in its order; what is
acknowledged is in the table under its key, and no key is there twice. -/
structure Accounted (s : System) : Prop where
  queue_le : s.queue.length ≤ queueDepth
  buf_le : s.buf.length ≤ batchMax
  attempt_lt : s.attempt < maxAttempts
  accepted_eq : s.accepted = s.settled.map Prod.fst ++ s.buf ++ s.queue
  nodup : (s.rows.map ActivityEvent.key).Nodup
  acknowledged : ∀ e, (e, true) ∈ s.settled → e.key ∈ s.rows.map ActivityEvent.key
  recorded : ∀ r ∈ s.rows, r ∈ s.accepted ∨ r ∈ s.others

namespace Accounted

variable {s : System}

theorem initial : Accounted initial :=
  ⟨Nat.zero_le _, Nat.zero_le _, by decide, rfl, List.nodup_nil, nofun, nofun⟩

theorem record (h : Accounted s) (e : ActivityEvent) : Accounted (record s e) := by
  unfold Activity.record
  split
  · next hroom =>
    refine ⟨?_, h.buf_le, h.attempt_lt, ?_, h.nodup, h.acknowledged, fun r hr => ?_⟩
    · rw [List.length_append]
      exact hroom
    · rw [h.accepted_eq]
      simp
    · exact (h.recorded r hr).imp_left fun hmem => List.mem_append_left _ hmem
  · exact ⟨h.queue_le, h.buf_le, h.attempt_lt, h.accepted_eq, h.nodup, h.acknowledged, h.recorded⟩

theorem recvMany (h : Accounted s) (hbuf : s.buf = []) :
    Accounted { s with buf := s.queue.take batchMax, queue := s.queue.drop batchMax } where
  queue_le := by
    have hle := h.queue_le
    simp only [List.length_drop]
    omega
  buf_le := List.length_take_le _ _
  attempt_lt := h.attempt_lt
  accepted_eq := by
    rw [h.accepted_eq, hbuf, List.append_assoc, List.append_assoc, List.nil_append,
      List.take_append_drop]
  nodup := h.nodup
  acknowledged := h.acknowledged
  recorded := h.recorded

/-- The batch in hand may be written at any time, and again. -/
theorem insertBatch (h : Accounted s) : Accounted { s with rows := insertBatch s.rows s.buf } where
  queue_le := h.queue_le
  buf_le := h.buf_le
  attempt_lt := h.attempt_lt
  accepted_eq := h.accepted_eq
  nodup := nodup_insertBatch h.nodup
  acknowledged e he := List.map_subset _ subset_insertBatch (h.acknowledged e he)
  recorded r hr := by
    rcases mem_insertBatch hr with hrow | hbuf
    · exact h.recorded r hrow
    · left
      rw [h.accepted_eq]
      exact List.mem_append_left _ (List.mem_append_right _ hbuf)

theorem settle (h : Accounted s) {acknowledged : Bool}
    (hin : acknowledged = true → ∀ e ∈ s.buf, e.key ∈ s.rows.map ActivityEvent.key) :
    Accounted (settle s acknowledged) where
  queue_le := h.queue_le
  buf_le := Nat.zero_le _
  attempt_lt := Nat.zero_lt_succ _
  accepted_eq := by
    show s.accepted = (s.settled ++ s.buf.map fun e => (e, acknowledged)).map Prod.fst ++ [] ++
      s.queue
    rw [h.accepted_eq, List.map_append, List.map_map, List.append_nil]
    congr 2
    exact (List.map_id s.buf).symm
  nodup := h.nodup
  acknowledged e he := by
    rcases List.mem_append.mp he with hold | hnew
    · exact h.acknowledged e hold
    · obtain ⟨e', he', heq⟩ := List.mem_map.mp hnew
      cases heq
      exact hin rfl e he'
  recorded := h.recorded

theorem failAttempt (h : Accounted s) : Accounted (failAttempt s) := by
  unfold Activity.failAttempt
  split
  · next hmore =>
    exact ⟨h.queue_le, h.buf_le, hmore, h.accepted_eq, h.nodup, h.acknowledged, h.recorded⟩
  · exact h.settle nofun

theorem otherInstance (h : Accounted s) (e : ActivityEvent) :
    Accounted { s with rows := insertRow s.rows e, others := s.others ++ [e] } where
  queue_le := h.queue_le
  buf_le := h.buf_le
  attempt_lt := h.attempt_lt
  accepted_eq := h.accepted_eq
  nodup := nodup_insertRow h.nodup
  acknowledged e' he' := List.map_subset _ subset_insertRow (h.acknowledged e' he')
  recorded r hr := by
    rcases mem_insertRow hr with hold | rfl
    · exact (h.recorded r hold).imp_right fun hmem => List.mem_append_left _ hmem
    · exact .inr (by simp)

theorem step (h : Accounted s) {e : Event} {s' : System} (hstep : machine.step s e = some s') :
    Accounted s' := by
  cases e with
  | record e =>
    cases hstep
    exact h.record e
  | recvMany =>
    obtain ⟨hempty, heq⟩ := Option.ite_none_right_eq_some.mp hstep
    cases heq
    simp only [Bool.and_eq_true, List.isEmpty_iff] at hempty
    exact h.recvMany hempty.1
  | written =>
    obtain ⟨-, heq⟩ := Option.ite_none_left_eq_some.mp hstep
    cases heq
    exact h.insertBatch.settle fun _ e he => key_mem_insertBatch he
  | failed committed =>
    obtain ⟨-, heq⟩ := Option.ite_none_left_eq_some.mp hstep
    cases heq
    cases committed with
    | true => exact h.insertBatch.failAttempt
    | false => exact h.failAttempt
  | otherInstance e =>
    cases hstep
    exact h.otherInstance e

end Accounted

theorem accounted_of_exec {es : List Event} {s : System}
    (hrun : machine.exec initial es = some s) : Accounted s :=
  (Machine.run_free_iff.mpr hrun).invariant .initial fun _ _ _ h _ hstep => h.step hstep

/-! ## Runs -/

def tell (told : List ActivityEvent) : Event → List ActivityEvent
  | .record e => told ++ [e]
  | _ => told

/-- What was recorded on this instance. -/
def recorded (es : List Event) : List ActivityEvent := es.foldl tell []

/-- The queue took a part of what was recorded, and the rest is counted. -/
def Counted (s : System) (told : List ActivityEvent) : Prop :=
  s.accepted.Sublist told ∧ s.accepted.length + s.dropped = told.length

theorem counted_failAttempt {s : System} {told : List ActivityEvent} (h : Counted s told) :
    Counted (failAttempt s) told := by
  unfold failAttempt
  split <;> exact h

theorem counted_step {s s' : System} {told : List ActivityEvent} (h : Counted s told) {e : Event}
    (hstep : machine.step s e = some s') : Counted s' (tell told e) := by
  cases e with
  | record e =>
    cases hstep
    obtain ⟨hsub, hcount⟩ := h
    unfold record
    split
    · refine ⟨hsub.append (List.Sublist.refl [e]), ?_⟩
      simp only [tell, List.length_append, List.length_singleton]
      omega
    · refine ⟨hsub.trans (List.sublist_append_left told [e]), ?_⟩
      simp only [tell, List.length_append, List.length_singleton]
      omega
  | recvMany =>
    obtain ⟨-, heq⟩ := Option.ite_none_right_eq_some.mp hstep
    cases heq
    exact h
  | written =>
    obtain ⟨-, heq⟩ := Option.ite_none_left_eq_some.mp hstep
    cases heq
    exact h
  | failed committed =>
    obtain ⟨-, heq⟩ := Option.ite_none_left_eq_some.mp hstep
    cases heq
    exact counted_failAttempt h
  | otherInstance e =>
    cases hstep
    exact h

theorem counted_of_exec {es : List Event} {s : System}
    (hrun : machine.exec initial es = some s) : Counted s (recorded es) :=
  (Machine.run_free_iff.mpr hrun).simulates (R := Counted) ⟨List.Sublist.refl [], rfl⟩
    fun _ _ _ _ h _ hstep => counted_step h hstep

/-- **Every event is accounted for**: it was refused by a full queue and counted, or it is
settled, in the batch or queued, in the order of its recording. -/
theorem accounted {es : List Event} {s : System} (hrun : machine.exec initial es = some s) :
    (s.settled.map Prod.fst ++ s.buf ++ s.queue).Sublist (recorded es) ∧
      s.settled.length + s.buf.length + s.queue.length + s.dropped = (recorded es).length ∧
      s.buf.length ≤ batchMax ∧ s.queue.length ≤ queueDepth := by
  have h := accounted_of_exec hrun
  obtain ⟨hsub, hcount⟩ := counted_of_exec hrun
  rw [h.accepted_eq] at hsub hcount
  refine ⟨hsub, ?_, h.buf_le, h.queue_le⟩
  simpa only [List.length_append, List.length_map] using hcount

/-- A login whose first attempt is committed without an answer, and which another instance has
logged as well. -/
def login : ActivityEvent :=
  ⟨.loginSuccess, some ['a', 'd', 'a'], none, ['k'], some .password, none, 7⟩

def retriedRun : List Event :=
  [.record login, .otherInstance { login with occurredAt := 5 }, .recvMany, .failed true,
    .record { login with eventKey := ['l'] }, .written]

theorem accounted_retriedRun :
    ∃ s, machine.exec initial retriedRun = some s ∧
      s.settled.length + s.buf.length + s.queue.length + s.dropped = 2 := by
  obtain ⟨s, hs⟩ : ∃ s, machine.exec initial retriedRun = some s := ⟨_, rfl⟩
  exact ⟨s, hs, (accounted hs).2.1⟩

/-- **An acknowledged event has one row**, also when an attempt that reported an error had
written it, and when another instance has.  Nothing else is in the table than what was
recorded, here or there. -/
theorem acknowledged_once {es : List Event} {s : System}
    (hrun : machine.exec initial es = some s) :
    (∀ e, (e, true) ∈ s.settled → ∃! r, r ∈ s.rows ∧ r.key = e.key) ∧
      ∀ r ∈ s.rows, r ∈ recorded es ∨ r ∈ s.others := by
  have h := accounted_of_exec hrun
  have hsub := (counted_of_exec hrun).1
  refine ⟨fun e he => ?_, fun r hr => (h.recorded r hr).imp_left fun hmem => hsub.subset hmem⟩
  obtain ⟨r, hr, hkey⟩ := List.mem_map.mp (h.acknowledged e he)
  refine ⟨r, ⟨hr, hkey⟩, fun r' hr' => ?_⟩
  exact List.inj_on_of_nodup_map h.nodup hr'.1 hr (hr'.2.trans hkey.symm)

theorem acknowledged_once_retriedRun :
    ∃ s, machine.exec initial retriedRun = some s ∧
      ∃! r, r ∈ s.rows ∧ r.key = (.loginSuccess, ['k']) := by
  obtain ⟨s, hs, hlogin⟩ : ∃ s, machine.exec initial retriedRun = some s ∧
      (login, true) ∈ s.settled := ⟨_, rfl, List.mem_cons_self⟩
  exact ⟨s, hs, (acknowledged_once hs).1 login hlogin⟩

end Ruscker.Admin.Activity
