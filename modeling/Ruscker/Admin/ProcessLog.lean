import Ruscker.Lib.Journal
import Ruscker.Lib.Machine
import Ruscker.Text

/-!
# The process log

Formatted log bytes are cut into lines, and a ring of bounded size keeps the last of them.
The page of the log starts with a tail and polls for what came after its cursor.  A poll may
be lost, or be dropped because the page is paused, and the ring goes on in the meantime.
-/

namespace Ruscker.Admin.ProcessLog

open Machines Journal

/-! ## The ring -/

structure LogBuffer where
  lines : List (Nat × Str)
  nextSeq : Nat
  cap : Nat

/-- `while lines.len() > cap { lines.pop_front() }` -/
def popFront (cap : Nat) : List (Nat × Str) → List (Nat × Str)
  | [] => []
  | line :: lines => if cap < (line :: lines).length then popFront cap lines else line :: lines

namespace LogBuffer

def new (cap : Nat) : LogBuffer := ⟨[], 0, max cap 1⟩

variable (b : LogBuffer)

def pushLine (line : Str) : LogBuffer where
  lines := popFront b.cap (b.lines ++ [(b.nextSeq, line)])
  nextSeq := b.nextSeq + 1
  cap := b.cap

def snapshot : List Str := b.lines.map Prod.snd

/-- The last `n` lines, the number of buffered lines, and the cursor behind them. -/
def tailWithCursor (n : Nat) : List Str × Nat × Nat :=
  let total := b.lines.length
  ((b.lines.drop (total - n)).map Prod.snd, total, b.nextSeq)

def since (after : Nat) : List Str × Nat :=
  ((b.lines.filter fun e => after ≤ e.1).map Prod.snd, b.nextSeq)

/-- The ring of a log holds its last lines under their numbers. -/
structure Holds (log : List Str) : Prop where
  cap_pos : 0 < b.cap
  nextSeq_eq : b.nextSeq = log.length
  lines_eq : b.lines = retained b.cap log

end LogBuffer

theorem popFront_eq_drop (cap : Nat) (lines : List (Nat × Str)) :
    popFront cap lines = lines.drop (lines.length - cap) := by
  induction lines with
  | nil => simp [popFront]
  | cons line lines ih =>
    rw [popFront]
    split
    · next h =>
      have hsub : (line :: lines).length - cap = lines.length - cap + 1 := by
        rw [List.length_cons] at h ⊢
        omega
      rw [ih, hsub, List.drop_succ_cons]
    · next h =>
      have hsub : (line :: lines).length - cap = 0 := by omega
      rw [hsub, List.drop_zero]

namespace LogBuffer.Holds

variable {b : LogBuffer} {log : List Str}

theorem new (cap : Nat) : (LogBuffer.new cap).Holds [] where
  cap_pos := Nat.lt_of_lt_of_le Nat.one_pos (Nat.le_max_right cap 1)
  nextSeq_eq := rfl
  lines_eq := by simp [LogBuffer.new, retained, numbered]

theorem pushLine (h : b.Holds log) (line : Str) : (b.pushLine line).Holds (log ++ [line]) where
  cap_pos := h.cap_pos
  nextSeq_eq := by simp [LogBuffer.pushLine, h.nextSeq_eq]
  lines_eq := by
    show popFront b.cap (b.lines ++ [(b.nextSeq, line)]) = retained b.cap (log ++ [line])
    rw [h.nextSeq_eq, h.lines_eq, popFront_eq_drop, retained_concat]

theorem since (h : b.Holds log) (after : Nat) :
    b.since after = (log.drop (max after (log.length - b.cap)), log.length) := by
  rw [LogBuffer.since, h.lines_eq, since_retained, h.nextSeq_eq]

theorem tailWithCursor (h : b.Holds log) (n : Nat) :
    b.tailWithCursor n =
      (log.drop (log.length - min n b.cap), min log.length b.cap, log.length) := by
  unfold LogBuffer.tailWithCursor
  dsimp only
  rw [h.lines_eq, h.nextSeq_eq, length_retained, List.map_drop, map_snd_retained, List.drop_drop]
  congr 2
  omega

end LogBuffer.Holds

/-! ## Formatted bytes -/

section Writer

variable (decode : List UInt8 → Str)

def isNewline (b : UInt8) : Bool := b = 10

/-- The decoded line without trailing white space, unless nothing is left of it. -/
def emit (b : LogBuffer) (line : List UInt8) : LogBuffer :=
  let s := (decode line).rdropWhile isWhitespace
  if s.isEmpty then b else b.pushLine s

def drainLines (pending : List UInt8) (b : LogBuffer) : List UInt8 × LogBuffer :=
  match h : pending.findIdx? isNewline with
  | none => (pending, b)
  | some pos => drainLines (pending.drop (pos + 1)) (emit decode b (pending.take (pos + 1)))
  termination_by pending.length
  decreasing_by
    obtain ⟨hpos, -⟩ := List.findIdx?_eq_some_iff_getElem.mp h
    rw [List.length_drop]
    omega

def write (w : List UInt8 × LogBuffer) (data : List UInt8) : List UInt8 × LogBuffer :=
  drainLines decode (w.1 ++ data) w.2

/-- An event: its bytes in several writes, and what is left when the writer is dropped. -/
def writeEvent (b : LogBuffer) (chunks : List (List UInt8)) : LogBuffer :=
  let w := chunks.foldl (write decode) ([], b)
  emit decode w.2 w.1

/-- The lines of a text of bytes that are not blank. -/
def logLines (bytes : List UInt8) : List Str :=
  (((frames isNewline bytes).1 ++ [(frames isNewline bytes).2]).map fun line =>
    (decode line).rdropWhile isWhitespace).filter fun s => !s.isEmpty

theorem drainLines_eq (pending : List UInt8) (b : LogBuffer) :
    drainLines decode pending b =
      ((frames isNewline pending).2, (frames isNewline pending).1.foldl (emit decode) b) := by
  induction pending using framesInduction isNewline generalizing b with
  | rest l hl =>
    have hfind : l.findIdx? isNewline = none := List.findIdx?_eq_none_iff.mpr hl
    rw [drainLines]
    split
    · rw [frames_of_forall isNewline hl]
      rfl
    · next pos hpos => simp [hfind] at hpos
  | frame l a m hl ha ih =>
    have hnone : l.findIdx? isNewline = none := List.findIdx?_eq_none_iff.mpr hl
    have hfind : (l ++ a :: m).findIdx? isNewline = some l.length := by
      simp [List.findIdx?_append, hnone, List.findIdx?_cons, ha]
    rw [drainLines]
    split
    · next hpos => simp [hfind] at hpos
    · next pos hpos =>
      obtain rfl : l.length = pos := Option.some.inj (hfind.symm.trans hpos)
      have htake : (l ++ a :: m).take (l.length + 1) = l ++ [a] := by
        rw [List.take_length_add_append]
        rfl
      have hdrop : (l ++ a :: m).drop (l.length + 1) = m := by
        rw [List.drop_length_add_append]
        rfl
      rw [htake, hdrop, ih, frames_append_stop isNewline hl ha]
      rfl

theorem foldl_write (chunks : List (List UInt8)) (pending : List UInt8)
    (hpending : ∀ a ∈ pending, isNewline a = false) (b : LogBuffer) :
    chunks.foldl (write decode) (pending, b) =
      ((frames isNewline (pending ++ chunks.flatten)).2,
        (frames isNewline (pending ++ chunks.flatten)).1.foldl (emit decode) b) := by
  induction chunks generalizing pending b with
  | nil => simp [frames_of_forall isNewline hpending]
  | cons chunk chunks ih =>
    rw [List.foldl_cons, write, drainLines_eq, ih _ (stop_of_mem_rest isNewline _),
      List.flatten_cons, ← List.append_assoc, frames_append isNewline (pending ++ chunk),
      List.foldl_append]

theorem foldl_emit (l : List (List UInt8)) (b : LogBuffer) :
    l.foldl (emit decode) b =
      ((l.map fun line => (decode line).rdropWhile isWhitespace).filter fun s =>
        !s.isEmpty).foldl LogBuffer.pushLine b := by
  induction l generalizing b with
  | nil => rfl
  | cons line l ih =>
    rw [List.foldl_cons, ih, List.map_cons, List.filter_cons, emit]
    cases hblank : ((decode line).rdropWhile isWhitespace).isEmpty <;> simp

/-- **Writes do not cut lines**: whatever the chunks of an event are, the ring gets the lines
of its text. -/
theorem writeEvent_eq (b : LogBuffer) (chunks : List (List UInt8)) :
    writeEvent decode b chunks =
      (logLines decode chunks.flatten).foldl LogBuffer.pushLine b := by
  unfold writeEvent
  rw [foldl_write decode chunks [] (by simp) b, List.nil_append, logLines, ← foldl_emit,
    List.foldl_append]
  rfl

end Writer

/-! ## The page -/

/-- A poll on its way to the server, with the page's cursor, or on its way back. -/
inductive Flight where
  | asked (cursor : Nat)
  | answered (lines : List Str) (cursor : Nat)

structure Page where
  received : List Str
  cursor : Nat
  flight : Option Flight

structure System where
  buffer : LogBuffer
  page : Option Page

/-- A line is logged; the page is loaded; it polls, the server answers, the answer arrives,
at a page that is watched or paused, or the poll fails on its way. -/
inductive Event where
  | push (line : Str)
  | load
  | send
  | serve
  | deliver (watching : Bool)
  | fail

def initialTail : Nat := 500

def index (b : LogBuffer) : Page :=
  let (lines, _, cursor) := b.tailWithCursor initialTail
  ⟨lines, cursor, none⟩

def Page.step (b : LogBuffer) (p : Page) (e : Event) : Option Page :=
  match e, p.flight with
  | .send, none => some { p with flight := some (.asked p.cursor) }
  | .serve, some (.asked cursor) =>
    let (lines, next) := b.since cursor
    some { p with flight := some (.answered lines next) }
  | .deliver watching, some (.answered lines cursor) =>
    if watching then some ⟨p.received ++ lines, cursor, none⟩
    else some { p with flight := none }
  | .fail, some _ => some { p with flight := none }
  | _, _ => none

def machine : Machine System Event where
  step s
    | .push line => some { s with buffer := s.buffer.pushLine line }
    | .load => some { s with page := some (index s.buffer) }
    | e => do
      let p ← s.page
      let p' ← p.step s.buffer e
      return { s with page := some p' }

def start (cap : Nat) : System := ⟨.new cap, none⟩

/-- Every line logged so far, and the number of the first one on the page. -/
structure Story where
  log : List Str := []
  first : Nat := 0

def Story.tell (cap : Nat) (story : Story) : Event → Story
  | .push line => { story with log := story.log ++ [line] }
  | .load => { story with first := story.log.length - min initialTail cap }
  | _ => story

def told (cap : Nat) (es : List Event) : Story := es.foldl (Story.tell (max cap 1)) {}

/-- The lines numbered from `i` up to `j`. -/
def segment (log : List Str) (i j : Nat) : List Str := (log.take j).drop i

section Segments

variable {log : List Str} {i j k : Nat}

theorem segment_append (hij : i ≤ j) (hjk : j ≤ k) (hk : k ≤ log.length) :
    segment log i j ++ segment log j k = segment log i k := by
  have hsplit : log.take k = log.take j ++ segment log j k := by
    unfold segment
    conv_lhs => rw [← List.take_append_drop j (log.take k)]
    rw [List.take_take, min_eq_left hjk]
  have hle : i ≤ (log.take j).length := by
    rw [List.length_take]
    omega
  show (log.take j).drop i ++ segment log j k = (log.take k).drop i
  rw [hsplit, List.drop_append_of_le_length hle]

theorem segment_concat (hj : j ≤ log.length) (line : Str) :
    segment (log ++ [line]) i j = segment log i j := by
  rw [segment, List.take_append_of_le_length hj, segment]

theorem segment_length : segment log i log.length = log.drop i := by
  rw [segment, List.take_length]

end Segments

/-- The page has what it should, as far as `R` tells: it may have all of it, or lack some. -/
structure Page.Shows (R : List Str → List Str → Prop) (story : Story) (p : Page) : Prop where
  first_le : story.first ≤ p.cursor
  cursor_le : p.cursor ≤ story.log.length
  received : R p.received (segment story.log story.first p.cursor)
  asked : ∀ c, p.flight = some (.asked c) → c = p.cursor
  answered : ∀ lines c, p.flight = some (.answered lines c) →
    p.cursor ≤ c ∧ c ≤ story.log.length ∧ R lines (segment story.log p.cursor c)

section Invariant

variable {R : List Str → List Str → Prop} {story : Story} {p p' : Page} {b : LogBuffer}

theorem Page.Shows.push (h : p.Shows R story) (line : Str) :
    p.Shows R { story with log := story.log ++ [line] } where
  first_le := h.first_le
  cursor_le := by
    have hle := h.cursor_le
    simp only [List.length_append]
    omega
  received := by
    rw [segment_concat h.cursor_le]
    exact h.received
  asked := h.asked
  answered lines c hf := by
    obtain ⟨hlow, hhigh, hlines⟩ := h.answered lines c hf
    refine ⟨hlow, ?_, ?_⟩
    · simp only [List.length_append]
      omega
    · rw [segment_concat hhigh]
      exact hlines

theorem index_shows (hrefl : ∀ l, R l l) (hb : b.Holds story.log) :
    (index b).Shows R (story.tell b.cap .load) := by
  have hindex : index b =
      ⟨story.log.drop (story.log.length - min initialTail b.cap), story.log.length, none⟩ := by
    rw [index, hb.tailWithCursor]
  rw [hindex]
  refine ⟨Nat.sub_le _ _, le_rfl, ?_, nofun, nofun⟩
  show R _ (segment story.log _ story.log.length)
  rw [segment_length]
  exact hrefl _

variable (happend : ∀ {k l m n}, R k l → R m n → R (k ++ m) (l ++ n))
include happend

/-- A step of the page keeps what it shows, if the server has an answer when it is asked. -/
theorem Page.Shows.step (h : p.Shows R story) (hb : b.Holds story.log) {e : Event}
    (hserve : ∀ c, e = .serve → p.flight = some (.asked c) →
      R (b.since c).1 (segment story.log c story.log.length))
    (hstep : p.step b e = some p') : p'.Shows R story := by
  unfold Page.step at hstep
  split at hstep
  · -- A poll leaves with the cursor of the page.
    cases hstep
    exact ⟨h.first_le, h.cursor_le, h.received, fun c hc => by cases hc; rfl, nofun⟩
  · next cursor hflight =>
    have hlines := hserve cursor rfl hflight
    rw [hb.since] at hstep hlines
    cases hstep
    obtain rfl : cursor = p.cursor := h.asked cursor hflight
    refine ⟨h.first_le, h.cursor_le, h.received, nofun, fun lines c hc => ?_⟩
    cases hc
    exact ⟨h.cursor_le, le_rfl, hlines⟩
  · next watching lines cursor hflight =>
    obtain ⟨hlow, hhigh, hlines⟩ := h.answered lines cursor hflight
    split at hstep
    · cases hstep
      refine ⟨h.first_le.trans hlow, hhigh, ?_, nofun, nofun⟩
      rw [← segment_append h.first_le hlow hhigh]
      exact happend h.received hlines
    · cases hstep
      exact ⟨h.first_le, h.cursor_le, h.received, nofun, nofun⟩
  · cases hstep
    exact ⟨h.first_le, h.cursor_le, h.received, nofun, nofun⟩
  · cases hstep

/-- The ring holds the log and the page shows it. -/
def Agrees (R : List Str → List Str → Prop) (cap : Nat) (s : System) (story : Story) : Prop :=
  s.buffer.cap = cap ∧ s.buffer.Holds story.log ∧ ∀ p, s.page = some p → p.Shows R story

theorem agrees_step (hrefl : ∀ l, R l l) {cap : Nat} {s s' : System} (h : Agrees R cap s story) {e : Event}
    (hserve : ∀ p c, s.page = some p → e = .serve → p.flight = some (.asked c) →
      R (s.buffer.since c).1 (segment story.log c story.log.length))
    (hstep : machine.step s e = some s') : Agrees R cap s' (story.tell cap e) := by
  obtain ⟨hcap, hb, hpage⟩ := h
  have hmoved : story.tell cap e = story →
      (s.page.bind fun p => (p.step s.buffer e).bind fun p' =>
        some { s with page := some p' }) = some s' → Agrees R cap s' (story.tell cap e) := by
    intro htell hs'
    obtain ⟨p, hp, hrest⟩ := Option.bind_eq_some_iff.mp hs'
    obtain ⟨p', hp', hset⟩ := Option.bind_eq_some_iff.mp hrest
    cases hset
    rw [htell]
    refine ⟨hcap, hb, fun q hq => ?_⟩
    cases hq
    exact (hpage p hp).step happend hb (fun c => hserve p c hp) hp'
  cases e with
  | push line =>
    cases hstep
    exact ⟨hcap, hb.pushLine line, fun p hp => (hpage p hp).push line⟩
  | load =>
    cases hstep
    refine ⟨hcap, hb, fun p hp => ?_⟩
    rw [← Option.some.inj hp, ← hcap]
    exact index_shows hrefl hb
  | send => exact hmoved rfl hstep
  | serve => exact hmoved rfl hstep
  | deliver watching => exact hmoved rfl hstep
  | fail => exact hmoved rfl hstep

end Invariant

theorem start_agrees (R : List Str → List Str → Prop) (cap : Nat) :
    Agrees R (max cap 1) (start cap) {} :=
  ⟨rfl, .new cap, nofun⟩

/-- **Nothing twice, nothing out of order**: whatever is lost on the way, a page has lines
of the log from its first one up to its cursor, each at most once and in their order. -/
theorem received_sublist (cap : Nat) {es : List Event} {t : System}
    (hrun : machine.exec (start cap) es = some t) {p : Page} (hp : t.page = some p) :
    p.received.Sublist (segment (told cap es).log (told cap es).first p.cursor) := by
  have hfree : machine.Run Machine.Free (start cap) es t := Machine.run_free_iff.mpr hrun
  have hagrees := hfree.simulates (R := Agrees List.Sublist (max cap 1))
    (start_agrees List.Sublist cap) fun s e s' story h _ hstep => by
      refine agrees_step List.Sublist.append (fun l => List.Sublist.refl l) h ?_ hstep
      intro p c _ _ _
      rw [h.2.1.since, segment_length]
      exact List.drop_sublist_drop_left _ (Nat.le_max_left _ _)
  exact (hagrees.2.2 p hp).received

/-- Three lines overtake a poll of a ring of two, and one of them is missed. -/
def lateRun : List Event :=
  [.push ['a'], .load, .send, .push ['b'], .push ['c'], .push ['d'], .serve, .deliver true]

theorem received_sublist_lateRun :
    ∃ t p, machine.exec (start 2) lateRun = some t ∧ t.page = some p ∧
      p.received = [['a'], ['c'], ['d']] ∧
      p.received.Sublist [['a'], ['b'], ['c'], ['d']] := by
  obtain ⟨t, p, ht, hp, hreceived, hcursor⟩ : ∃ t p, machine.exec (start 2) lateRun = some t ∧
      t.page = some p ∧ p.received = [['a'], ['c'], ['d']] ∧ p.cursor = 4 :=
    ⟨_, _, rfl, rfl, rfl, rfl⟩
  have hsub := received_sublist 2 ht hp
  rw [hcursor] at hsub
  exact ⟨t, p, ht, hp, hreceived, hsub⟩

/-- No more lines have come in since the poll left the page than the ring holds. -/
def InTime (s : System) (e : Event) : Prop :=
  e = .serve → ∀ p c, s.page = some p → p.flight = some (.asked c) →
    s.buffer.nextSeq ≤ c + s.buffer.cap

theorem agrees_of_inTime (cap : Nat) {es : List Event} {t : System}
    (hrun : machine.Run InTime (start cap) es t) : Agrees Eq (max cap 1) t (told cap es) :=
  hrun.simulates (R := Agrees Eq (max cap 1)) (start_agrees Eq cap)
    fun s e s' story h hok hstep => by
      refine agrees_step (fun hk hl => by rw [hk, hl]) (fun _ => rfl) h ?_ hstep
      intro p c hp he hc
      have hlate := hok he p c hp hc
      rw [h.2.1.nextSeq_eq] at hlate
      rw [h.2.1.since, segment_length, Nat.max_eq_left (by omega)]

/-- **Nothing missing**: while every poll is answered in time, a page has the whole log from
its first line up to its cursor, and the next poll of an idle page brings the rest. -/
theorem received_eq (cap : Nat) {es : List Event} {t : System}
    (hrun : machine.Run InTime (start cap) es t) {p : Page} (hp : t.page = some p) :
    p.received = segment (told cap es).log (told cap es).first p.cursor ∧
      (p.flight = none → t.buffer.nextSeq ≤ p.cursor + t.buffer.cap →
        ∃ u q, machine.exec t [.send, .serve, .deliver true] = some u ∧ u.page = some q ∧
          q.received = (told cap es).log.drop (told cap es).first) := by
  obtain ⟨hcap, hb, hpage⟩ := agrees_of_inTime cap hrun
  have hshows := hpage p hp
  refine ⟨hshows.received, fun hidle hlate => ?_⟩
  have hanswer : t.buffer.since p.cursor =
      (segment (told cap es).log p.cursor (told cap es).log.length,
        (told cap es).log.length) := by
    rw [hb.nextSeq_eq] at hlate
    rw [hb.since, segment_length, Nat.max_eq_left (by omega)]
  have hsend : machine.step t .send =
      some { t with page := some { p with flight := some (.asked p.cursor) } } := by
    simp [machine, hp, Page.step, hidle]
  let asked : Page := { p with flight := some (.asked p.cursor) }
  let answered : Page := { p with flight := some (.answered
    (segment (told cap es).log p.cursor (told cap es).log.length) (told cap es).log.length) }
  have hserve : machine.step { t with page := some asked } .serve =
      some { t with page := some answered } := by
    simp [machine, Page.step, hanswer, asked, answered]
  let caughtUp : Page := ⟨p.received ++ segment (told cap es).log p.cursor
    (told cap es).log.length, (told cap es).log.length, none⟩
  refine ⟨{ t with page := some caughtUp }, caughtUp, ?_, rfl, ?_⟩
  · rw [Machine.exec, hsend, Option.bind_some, Machine.exec, hserve]
    rfl
  · show p.received ++ _ = _
    rw [hshows.received, segment_append hshows.first_le hshows.cursor_le le_rfl, segment_length]

/-- One poll is answered while the page is paused, and the next one when it is watched. -/
def pausedRun : List Event :=
  [.push ['a'], .load, .push ['b'], .send, .serve, .deliver false, .push ['c'], .send, .serve,
    .deliver true]

theorem received_eq_pausedRun :
    ∃ t p, machine.exec (start 2) pausedRun = some t ∧ t.page = some p ∧
      p.received = [['a'], ['b'], ['c']] := by
  let p : Page := ⟨[['a'], ['b'], ['c']], 3, none⟩
  let t : System := ⟨⟨[(1, ['b']), (2, ['c'])], 3, 2⟩, some p⟩
  have hrun : machine.Run InTime (start 2) pausedRun t := by
    refine .cons nofun rfl (.cons nofun rfl (.cons nofun rfl (.cons nofun rfl (.cons ?_ rfl
      (.cons nofun rfl (.cons nofun rfl (.cons nofun rfl (.cons ?_ rfl (.cons nofun rfl
        (.nil _))))))))))
    all_goals
      intro _ p c hp hc
      cases hp
      cases hc
      decide
  exact ⟨t, p, rfl, rfl, (received_eq 2 hrun rfl).1⟩

end Ruscker.Admin.ProcessLog
