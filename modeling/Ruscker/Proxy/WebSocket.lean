import Mathlib.Data.List.Forall2
import Ruscker.Text

/-!
# The WebSocket pump

One direction reads messages from its side and sends each on before it reads the next.  It ends with
the stream, with a Close, with an error, or with a send that fails or times out.
-/

namespace Ruscker.Proxy.WebSocket

abbrev Bytes := List UInt8

/-- Close codes and the numbers that stand for them on the wire. -/
class CloseCode (γ : Type*) where
  ofU16 : UInt16 → γ
  toU16 : γ → UInt16
  toU16_ofU16 : ∀ code, toU16 (ofU16 code) = code

instance : CloseCode UInt16 := ⟨id, id, fun _ => rfl⟩

structure CloseFrame (γ : Type*) where
  code : γ
  reason : Str
  deriving DecidableEq

/-- The messages of one side, whose raw frames are in `φ`. -/
inductive Message (γ φ : Type*) where
  | text (t : Str)
  | binary (b : Bytes)
  | ping (p : Bytes)
  | pong (p : Bytes)
  | close (frame : Option (CloseFrame γ))
  | frame (raw : φ)
  deriving DecidableEq

/-- The client's messages have no raw frames. -/
abbrev AxMsg := Message UInt16 Empty

inductive SendOutcome where
  | sent
  | failed (error : Str)
  | timedOut
  deriving DecidableEq

inductive Side where
  | client | upstream
  deriving DecidableEq

inductive EndReason where
  | close (code : Option UInt16) (reason : Str) (forward : SendOutcome)
  | eof (forward : SendOutcome)
  | receiveError (error : Str)
  | sendError (error : Str)
  | backpressureTimeout
  | unsupportedFrame
  deriving DecidableEq

structure DirectionEnd where
  origin : Side
  target : Side
  forwardedFrames : Nat
  reason : EndReason
  deriving DecidableEq

/-- A sink, what its sends come to, one after the other, and the messages it was given so far. -/
structure Sink (μ : Type*) where
  outcomes : Nat → SendOutcome
  sends : List (μ × SendOutcome)

namespace Sink

variable {μ : Type*}

def fresh (outcomes : Nat → SendOutcome) : Sink μ := ⟨outcomes, []⟩

def sendWithTimeout (sink : Sink μ) (message : μ) : Sink μ × SendOutcome :=
  let outcome := sink.outcomes sink.sends.length
  ({ sink with sends := sink.sends ++ [(message, outcome)] }, outcome)

/-- The messages that were sent. -/
def delivered (sink : Sink μ) : List μ :=
  (sink.sends.filter fun send => send.2 = .sent).map Prod.fst

end Sink

section Directions

variable {γ γ' φ φ' : Type*}

/-- The count after a Close that is counted. -/
def countSent (forwarded : Nat) : SendOutcome → Nat
  | .sent => forwarded + 1
  | _ => forwarded

/-- One direction: its sides, how it hands on a close frame and how it logs a close code. -/
structure Direction (γ γ' : Type*) where
  origin : Side
  target : Side
  closeTo : Option (CloseFrame γ) → Option (CloseFrame γ')
  logCode : γ → UInt16

def Direction.pump (dir : Direction γ γ') (forwarded : Nat) (sink : Sink (Message γ' φ')) :
    List (Except Str (Message γ φ)) → Sink (Message γ' φ') × DirectionEnd
  | [] =>
    let (sink, forward) := sink.sendWithTimeout (.close none)
    (sink, ⟨dir.origin, dir.target, countSent forwarded forward, .eof forward⟩)
  | .error err :: _ =>
    -- this Close is not counted
    let (sink, _) := sink.sendWithTimeout (.close none)
    (sink, ⟨dir.origin, dir.target, forwarded, .receiveError err⟩)
  | .ok msg :: rest =>
    let relay (out : Message γ' φ') :=
      match sink.sendWithTimeout out with
      | (sink, .sent) => dir.pump (forwarded + 1) sink rest
      | (sink, .failed error) => (sink, ⟨dir.origin, dir.target, forwarded, .sendError error⟩)
      | (sink, .timedOut) => (sink, ⟨dir.origin, dir.target, forwarded, .backpressureTimeout⟩)
    match msg with
    | .text t => relay (.text t)
    | .binary b => relay (.binary b)
    | .ping p => relay (.ping p)
    | .pong p => relay (.pong p)
    | .close frame =>
      let (sink, forward) := sink.sendWithTimeout (.close (dir.closeTo frame))
      (sink, ⟨dir.origin, dir.target, countSent forwarded forward,
        .close (frame.map fun f => dir.logCode f.code) ((frame.map fun f => f.reason).getD [])
          forward⟩)
    | .frame _ =>
      let (sink, _) := sink.sendWithTimeout (.close none)
      (sink, ⟨dir.origin, dir.target, forwarded, .unsupportedFrame⟩)

section Members

variable [CloseCode γ] (outcomes : Nat → SendOutcome)

def axCloseToTg (c : Option (CloseFrame UInt16)) : Option (CloseFrame γ) :=
  c.map fun f => ⟨CloseCode.ofU16 f.code, f.reason⟩

def tgCloseToAx (c : Option (CloseFrame γ)) : Option (CloseFrame UInt16) :=
  c.map fun f => ⟨CloseCode.toU16 f.code, f.reason⟩

def clientToUpstream (rx : List (Except Str AxMsg)) : Sink (Message γ φ) × DirectionEnd :=
  Direction.pump ⟨.client, .upstream, axCloseToTg, id⟩ 0 (.fresh outcomes) rx

def upstreamToClient (rx : List (Except Str (Message γ φ))) : Sink AxMsg × DirectionEnd :=
  Direction.pump ⟨.upstream, .client, tgCloseToAx, CloseCode.toU16⟩ 0 (.fresh outcomes) rx

end Members

/-! ## What a direction promises -/

/-- One kind and one payload. -/
inductive Same : Message γ φ → Message γ' φ' → Prop
  | text (t : Str) : Same (.text t) (.text t)
  | binary (b : Bytes) : Same (.binary b) (.binary b)
  | ping (p : Bytes) : Same (.ping p) (.ping p)
  | pong (p : Bytes) : Same (.pong p) (.pong p)

/-- Neither a Close nor a raw frame. -/
def Message.IsData : Message γ φ → Prop
  | .close _ | .frame _ => False
  | _ => True

/-- The code and the reason of a close frame. -/
def CloseFrame.said [CloseCode γ] (f : CloseFrame γ) : UInt16 × Str :=
  (CloseCode.toU16 f.code, f.reason)

/-- A direction ends here: with the stream, an error, a Close, or a message it cannot send. -/
inductive Stops (outcome : SendOutcome) : List (Except Str (Message γ φ)) → Prop
  | eof : Stops outcome []
  | error (err : Str) (rest) : Stops outcome (.error err :: rest)
  | close (frame : Option (CloseFrame γ)) (rest) : Stops outcome (.ok (.close frame) :: rest)
  | send (msg rest) (hdata : msg.IsData) (hout : outcome ≠ .sent) : Stops outcome (.ok msg :: rest)

/-- What is delivered are the messages received up to where the direction stops, then at most one
Close, with the code and reason of one that was received; and the frames are counted. -/
def Faithful [CloseCode γ] [CloseCode γ'] (outcomes : Nat → SendOutcome)
    (stream : List (Except Str (Message γ φ))) (result : Sink (Message γ' φ') × DirectionEnd) :
    Prop :=
  ∃ passed rest carried closing, stream = passed.map Except.ok ++ rest ∧
    (∀ k < passed.length, outcomes k = .sent) ∧ Stops (outcomes passed.length) rest ∧
    List.Forall₂ Same passed carried ∧
    result.1.delivered = carried ++ (Option.toList closing).map Message.close ∧
    (∀ frame later, rest = .ok (.close frame) :: later → ∀ frame' ∈ closing,
      frame'.map CloseFrame.said = frame.map CloseFrame.said) ∧
    result.2.forwardedFrames = result.1.delivered.length

/-- From send `k` on: an error is not reached unless its Close fails, and a raw frame not at all. -/
def Counts (outcomes : Nat → SendOutcome) : Nat → List (Except Str (Message γ φ)) → Prop
  | _, [] => True
  | k, .error _ :: _ => outcomes k ≠ .sent
  | k, .ok msg :: rest =>
    match msg with
    | .close _ => True
    | .frame _ => False
    | _ => outcomes k = .sent → Counts outcomes (k + 1) rest

/-! ### Sends -/

section Sends

variable {μ : Type*} {sink : Sink μ} {messages : List μ} {m : μ}

theorem Sink.delivered_send : (sink.sendWithTimeout m).1.delivered = sink.delivered ++
    if sink.outcomes sink.sends.length = .sent then [m] else [] := by
  unfold Sink.sendWithTimeout Sink.delivered
  split
  · next hsent => simp [List.filter_append, hsent]
  · next hsent => simp [List.filter_append, hsent]

/-- The sink after messages that were all sent. -/
def Sink.after (sink : Sink μ) (messages : List μ) : Sink μ :=
  { sink with sends := sink.sends ++ messages.map fun m => (m, .sent) }

theorem Sink.after_nil : sink.after [] = sink := by
  simp [Sink.after]

theorem Sink.after_cons : sink.after (m :: messages) = (sink.after [m]).after messages := by
  simp [Sink.after]

theorem Sink.length_after : (sink.after messages).sends.length =
    sink.sends.length + messages.length := by
  simp [Sink.after]

theorem Sink.delivered_after : (sink.after messages).delivered = sink.delivered ++ messages := by
  have hfilter : (messages.map fun m => (m, SendOutcome.sent)).filter
      (fun send => send.2 = .sent) = messages.map fun m => (m, .sent) := by
    rw [List.filter_eq_self]
    intro send hsend
    obtain ⟨m, -, rfl⟩ := List.mem_map.mp hsend
    rfl
  unfold Sink.after Sink.delivered
  rw [List.filter_append, List.map_append, hfilter, List.map_map]
  simp [Function.comp_def]

theorem Sink.send_sent (hsent : sink.outcomes sink.sends.length = .sent) :
    sink.sendWithTimeout m = (sink.after [m], .sent) := by
  unfold Sink.sendWithTimeout Sink.after
  rw [hsent]
  rfl

end Sends

/-! ### The loop -/

section Loop

variable {dir : Direction γ γ'} {msg : Message γ φ} {out : Message γ' φ'} {n k : Nat}
  {sink : Sink (Message γ' φ')} {rest : List (Except Str (Message γ φ))}
  {outcomes : Nat → SendOutcome} {passed : List (Message γ φ)} {carried : List (Message γ' φ')}

theorem Message.IsData.same (h : msg.IsData) : ∃ out : Message γ' φ', Same msg out := by
  cases msg with
  | text t => exact ⟨_, .text t⟩
  | binary b => exact ⟨_, .binary b⟩
  | ping p => exact ⟨_, .ping p⟩
  | pong p => exact ⟨_, .pong p⟩
  | close frame => exact h.elim
  | frame raw => exact h.elim

theorem pump_same (h : Same msg out) : dir.pump n sink (.ok msg :: rest) =
    match sink.sendWithTimeout out with
    | (sink, .sent) => dir.pump (n + 1) sink rest
    | (sink, .failed error) => (sink, ⟨dir.origin, dir.target, n, .sendError error⟩)
    | (sink, .timedOut) => (sink, ⟨dir.origin, dir.target, n, .backpressureTimeout⟩) := by
  cases h <;> rfl

theorem pump_refused (h : Same msg out) (hout : sink.outcomes sink.sends.length ≠ .sent) :
    (dir.pump n sink (.ok msg :: rest)).1 = (sink.sendWithTimeout out).1 ∧
      (dir.pump n sink (.ok msg :: rest)).2.forwardedFrames = n := by
  rw [pump_same h]
  unfold Sink.sendWithTimeout
  dsimp only
  cases hsend : sink.outcomes sink.sends.length with
  | sent => exact absurd hsend hout
  | failed error => exact ⟨rfl, rfl⟩
  | timedOut => exact ⟨rfl, rfl⟩

theorem counts_data (h : msg.IsData) : Counts outcomes k (.ok msg :: rest) ↔
    (outcomes k = .sent → Counts outcomes (k + 1) rest) := by
  cases msg with
  | close frame => exact h.elim
  | frame raw => exact h.elim
  | _ => rfl

theorem Same.isData (h : Same msg out) : msg.IsData := by
  cases h <;> trivial

/-- The loop over messages that are all sent. -/
theorem pump_append (h : List.Forall₂ Same passed carried)
    (hsent : ∀ k < passed.length, sink.outcomes (sink.sends.length + k) = .sent) :
    dir.pump n sink (passed.map Except.ok ++ rest) =
      dir.pump (n + carried.length) (sink.after carried) rest := by
  induction h generalizing n sink with
  | nil =>
    rw [Sink.after_nil]
    rfl
  | @cons _ out _ carried hsame _ ih =>
    have hfirst : sink.outcomes sink.sends.length = .sent := hsent 0 (by simp)
    rw [List.map_cons, List.cons_append, pump_same hsame, Sink.send_sent hfirst]
    dsimp only
    rw [ih, ← Sink.after_cons, List.length_cons, Nat.add_assoc, Nat.add_comm 1]
    · intro k hk
      have hnext := hsent (k + 1) (by simpa using hk)
      rw [Sink.length_after]
      simpa [Sink.after, Nat.add_assoc, Nat.add_comm 1 k] using hnext

theorem counts_append (h : List.Forall₂ Same passed carried)
    (hsent : ∀ i < passed.length, outcomes (k + i) = .sent) :
    Counts outcomes k (passed.map Except.ok ++ rest) ↔
      Counts outcomes (k + passed.length) rest := by
  induction h generalizing k with
  | nil => rfl
  | cons hsame _ ih =>
    have hfirst : outcomes k = .sent := hsent 0 (by simp)
    rw [List.map_cons, List.cons_append, counts_data hsame.isData, ih, List.length_cons]
    · simp [hfirst, Nat.add_assoc, Nat.add_comm 1]
    · intro i hi
      have hnext := hsent (i + 1) (by simpa using hi)
      simpa [Nat.add_assoc, Nat.add_comm 1 i] using hnext

/-- Every stream is read up to where its direction stops, or up to a raw frame. -/
theorem exists_split (outcomes : Nat → SendOutcome) (k : Nat)
    (stream : List (Except Str (Message γ φ))) : ∃ (passed : List (Message γ φ)) (rest : _),
      stream = passed.map Except.ok ++ rest ∧ (∀ msg ∈ passed, msg.IsData) ∧
      (∀ i < passed.length, outcomes (k + i) = .sent) ∧
      (Stops (outcomes (k + passed.length)) rest ∨
        ∃ raw later, rest = .ok (.frame raw) :: later) := by
  induction stream generalizing k with
  | nil => exact ⟨[], [], rfl, nofun, nofun, .inl .eof⟩
  | cons item later ih =>
    cases item with
    | error err => exact ⟨[], _, rfl, nofun, nofun, .inl (.error err later)⟩
    | ok msg =>
      by_cases hdata : msg.IsData
      · by_cases hsent : outcomes k = .sent
        · obtain ⟨passed, rest, rfl, hpassed, hall, hend⟩ := ih (k + 1)
          refine ⟨msg :: passed, rest, rfl, ?_, ?_, ?_⟩
          · intro m hm
            rcases List.mem_cons.mp hm with rfl | hm
            · exact hdata
            · exact hpassed m hm
          · intro i hi
            cases i with
            | zero => exact hsent
            | succ i =>
              have hnext := hall i (by simpa using hi)
              simpa [Nat.add_assoc, Nat.add_comm 1 i] using hnext
          · simpa [Nat.add_assoc, Nat.add_comm 1] using hend
        · exact ⟨[], _, rfl, nofun, nofun, .inl (.send msg later hdata hsent)⟩
      · refine ⟨[], _, rfl, nofun, nofun, ?_⟩
        cases msg with
        | close frame => exact .inl (.close frame later)
        | frame raw => exact .inr ⟨raw, later, rfl⟩
        | _ => exact absurd trivial hdata

theorem exists_same (h : ∀ msg ∈ passed, msg.IsData) :
    ∃ carried : List (Message γ' φ'), List.Forall₂ Same passed carried := by
  induction passed with
  | nil => exact ⟨[], .nil⟩
  | cons msg passed ih =>
    obtain ⟨out, hsame⟩ : ∃ out : Message γ' φ', Same msg out := (h msg List.mem_cons_self).same
    obtain ⟨carried, hcarried⟩ := ih fun m hm => h m (List.mem_cons_of_mem _ hm)
    exact ⟨out :: carried, .cons hsame hcarried⟩

/-- How a direction ends: at most one Close more is delivered, and it is counted unless it follows
an error. -/
structure Ends (dir : Direction γ γ') (n : Nat) (sink : Sink (Message γ' φ'))
    (rest : List (Except Str (Message γ φ))) (closing : Option (Option (CloseFrame γ'))) : Prop where
  delivered : (dir.pump n sink rest).1.delivered =
    sink.delivered ++ closing.toList.map Message.close
  close : ∀ frame later, rest = .ok (.close frame) :: later → ∀ frame' ∈ closing,
    frame' = dir.closeTo frame
  counted : (dir.pump n sink rest).2.forwardedFrames = n + closing.toList.length ↔
    Counts sink.outcomes sink.sends.length rest

theorem countSent_eq (outcome : SendOutcome) (c : Option (CloseFrame γ')) :
    countSent n outcome = n + (if outcome = .sent then some c else none).toList.length := by
  cases outcome <;> rfl

theorem delivered_close (c : Option (CloseFrame γ')) :
    (sink.sendWithTimeout (.close c)).1.delivered = sink.delivered ++
      ((if sink.outcomes sink.sends.length = .sent then some c else none).toList.map
        Message.close) := by
  rw [Sink.delivered_send]
  split <;> rfl

theorem ends (h : Stops (sink.outcomes sink.sends.length) rest) :
    ∃ closing, Ends dir n sink rest closing := by
  cases h with
  | eof =>
    refine ⟨_, delivered_close none, nofun, ?_⟩
    exact iff_of_true (countSent_eq _ none) trivial
  | close frame later =>
    refine ⟨_, delivered_close (dir.closeTo frame), ?_, ?_⟩
    · rintro frame' later' ⟨⟩ c hc
      split at hc
      · cases hc
        rfl
      · cases hc
    · exact iff_of_true (countSent_eq _ _) trivial
  | error err later =>
    refine ⟨_, delivered_close none, nofun, ?_⟩
    -- the count stays what it was
    change n = _ ↔ sink.outcomes sink.sends.length ≠ .sent
    split
    · next hsent => simp [hsent]
    · next hsent => simp [hsent]
  | send msg later hdata hout =>
    obtain ⟨out, hsame⟩ : ∃ out : Message γ' φ', Same msg out := hdata.same
    have hcounts : Counts sink.outcomes sink.sends.length (.ok msg :: later) :=
      (counts_data hdata).mpr fun hsent => absurd hsent hout
    obtain ⟨hsink, hcount⟩ : (dir.pump n sink (.ok msg :: later)).1 = (sink.sendWithTimeout out).1 ∧
        (dir.pump n sink (.ok msg :: later)).2.forwardedFrames = n := pump_refused hsame hout
    refine ⟨none, ?_, ?_, iff_of_true hcount hcounts⟩
    · rw [hsink, Sink.delivered_send, if_neg hout]
      rfl
    · rintro frame later' ⟨⟩
      exact hdata.elim

/-- A direction is faithful just when it is not ended by an error whose Close is sent. -/
theorem Direction.faithful_iff_counts [CloseCode γ] [CloseCode γ'] {stream : List (Except Str (Message γ φ))}
    (hclose : ∀ frame, (dir.closeTo frame).map CloseFrame.said = frame.map CloseFrame.said) :
    Faithful outcomes stream (dir.pump 0 (.fresh outcomes) stream : Sink (Message γ' φ') × _) ↔
      Counts outcomes 0 stream := by
  have hfresh : ∀ (passed : List (Message γ φ)) (carried : List (Message γ' φ')) rest,
      List.Forall₂ Same passed carried → (∀ k < passed.length, outcomes k = .sent) →
      dir.pump 0 (.fresh outcomes) (passed.map Except.ok ++ rest) =
        dir.pump carried.length ((Sink.fresh outcomes).after carried) rest ∧
      ((Sink.fresh outcomes).after carried).delivered = carried ∧
      ((Sink.fresh outcomes).after carried).sends.length = passed.length ∧
      (Counts outcomes 0 (passed.map Except.ok ++ rest) ↔ Counts outcomes passed.length rest) := by
    intro passed carried rest hsame hsent
    refine ⟨?_, ?_, ?_, ?_⟩
    · rw [pump_append hsame (by simpa [Sink.fresh] using hsent), Nat.zero_add]
    · rw [Sink.delivered_after]
      rfl
    · rw [Sink.length_after, hsame.length_eq]
      exact Nat.zero_add _
    · simpa using counts_append (k := 0) hsame (by simpa using hsent)
  constructor
  · rintro ⟨passed, rest, carried, closing, rfl, hsent, hstops, hsame, hdelivered, -, hcount⟩
    obtain ⟨hpump, hstart, hlength, hcounts⟩ := hfresh passed carried rest hsame hsent
    rw [hcounts]
    obtain ⟨closing', hends⟩ : ∃ closing, Ends dir carried.length
        ((Sink.fresh outcomes).after carried) rest closing := ends (by rw [hlength]; exact hstops)
    have hcounted := hends.counted
    rw [hlength] at hcounted
    refine hcounted.mp ?_
    rw [hpump, hends.delivered, hstart] at hcount
    simpa using hcount
  · intro hcounts
    obtain ⟨passed, rest, rfl, hdata, hsent, hend⟩ := exists_split outcomes 0 stream
    simp only [Nat.zero_add] at hsent hend
    obtain ⟨carried, hsame⟩ : ∃ carried : List (Message γ' φ'), List.Forall₂ Same passed carried :=
      exists_same hdata
    obtain ⟨hpump, hstart, hlength, hiff⟩ := hfresh passed carried rest hsame hsent
    rw [hiff] at hcounts
    rcases hend with hstops | ⟨raw, later, rfl⟩
    · obtain ⟨closing, hends⟩ : ∃ closing, Ends dir carried.length
          ((Sink.fresh outcomes).after carried) rest closing := ends (by rw [hlength]; exact hstops)
      refine ⟨passed, rest, carried, closing, rfl, hsent, hstops, hsame, ?_, ?_, ?_⟩
      · rw [hpump, hends.delivered, hstart]
      · intro frame later hrest frame' hframe'
        rw [hends.close frame later hrest frame' hframe', hclose]
      · have hcounted := hends.counted
        rw [hlength] at hcounted
        rw [hpump, hends.delivered, hstart, hcounted.mpr hcounts]
        simp
    · exact hcounts.elim

end Loop

section Members

variable [CloseCode γ] {outcomes : Nat → SendOutcome}

theorem said_axCloseToTg (frame : Option (CloseFrame UInt16)) :
    (axCloseToTg (γ := γ) frame).map CloseFrame.said = frame.map CloseFrame.said := by
  cases frame with
  | none => rfl
  | some f => exact congrArg some (Prod.ext (CloseCode.toU16_ofU16 f.code) rfl)

theorem said_tgCloseToAx (frame : Option (CloseFrame γ)) :
    (tgCloseToAx frame).map CloseFrame.said = frame.map CloseFrame.said := by
  cases frame <;> rfl

/-- **The pump.** Each direction delivers what it received and counts it, just when no receive error
ends it whose Close is sent, nor a raw frame. -/
theorem directions_faithful_iff (outcomes : Nat → SendOutcome) :
    (∀ rx : List (Except Str AxMsg),
      Faithful outcomes rx (clientToUpstream (γ := γ) (φ := φ) outcomes rx) ↔
        Counts outcomes 0 rx) ∧
    ∀ rx : List (Except Str (Message γ φ)),
      Faithful outcomes rx (upstreamToClient outcomes rx) ↔ Counts outcomes 0 rx :=
  ⟨fun _ => Direction.faithful_iff_counts said_axCloseToTg,
    fun _ => Direction.faithful_iff_counts said_tgCloseToAx⟩

/-- The client's connection breaks, and upstream is told to close. -/
theorem close_after_error_uncounted :
    let outcomes := fun _ : Nat => SendOutcome.sent
    let rx : List (Except Str AxMsg) := [.error "reset".toList]
    let result := clientToUpstream (γ := UInt16) (φ := Empty) outcomes rx
    result.1.delivered = [.close none] ∧ result.2.forwardedFrames = 0 ∧
      ¬ Faithful outcomes rx result := by
  refine ⟨rfl, rfl, ?_⟩
  rintro ⟨_, _, _, _, -, -, -, -, -, -, hcount⟩
  cases hcount

/-- The client's direction has no raw frames to end with. -/
theorem clientToUpstream_supported (rx : List (Except Str AxMsg)) :
    (clientToUpstream (γ := γ) (φ := φ) outcomes rx).2.reason ≠ .unsupportedFrame := by
  unfold clientToUpstream
  generalize Sink.fresh outcomes = sink, 0 = n
  induction rx generalizing sink n with
  | nil => exact nofun
  | cons item rest ih =>
    cases item with
    | error err => exact nofun
    | ok msg =>
      by_cases hdata : msg.IsData
      · obtain ⟨out, hsame⟩ : ∃ out : Message γ φ, Same msg out := hdata.same
        rw [pump_same hsame]
        split
        · exact ih _ _
        · exact nofun
        · exact nofun
      · cases msg with
        | close frame => exact nofun
        | frame raw => exact raw.elim
        | _ => exact absurd trivial hdata

end Members

end Directions

end Ruscker.Proxy.WebSocket
