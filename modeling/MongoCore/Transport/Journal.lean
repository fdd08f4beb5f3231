import MongoCore.Transport.Codec

/-!
# The journal of a connection

A record of a run of the connection loop: the frames its reads have returned since the handshake,
the frames it has processed with the outcome of each, and whether a frame was rejected.  The record
has no influence on the run, so what is proved of recorded runs holds of all runs.

The module says how each step of the loop changes the responses, written or buffered, and where
the frames that were read but not processed are.
-/

namespace MongoCore.Transport

open MongoCore.Data MongoCore.Library.TransitionSystem

/-- A record of a run; `late` are the frames received after a frame was rejected, and `resumed` says
whether a byte was taken after that. -/
structure Journal where
  received : List Frame := []
  processed : List (Frame × Outcome) := []
  rejected : Bool := false
  resumed : Bool := false
  late : List Frame := []

/-- Record a step: a read that returns a frame or rejects one, a byte read after a rejection, a
frame processed. -/
def Journal.record (maxFrameSize : ℕ) (s : State) (journal : Journal) : Event → Journal
  | .take => { journal with resumed := journal.resumed || journal.rejected }
  | .readDone =>
      match readResult maxFrameSize s.held, s.phase with
      | .ok frame, .waiting | .ok frame, .coalescing _ =>
          { journal with
            received := journal.received ++ [frame]
            late := if journal.rejected then journal.late ++ [frame] else journal.late }
      | .ok _, _ => journal
      | .error _, _ => { journal with rejected := true }
  | .process outcome _ _ =>
      match s.phase with
      | .processing frame => { journal with processed := journal.processed ++ [(frame, outcome)] }
      | _ => journal
  | _ => journal

def recordedStep (maxFrameSize : ℕ) : State × Journal → Event → Option (State × Journal) :=
  recorded (step maxFrameSize) (Journal.record maxFrameSize)

def recordedInit : State × Journal := (State.init, {})

/-- A processed frame is recorded with its outcome. -/
theorem record_process {maxFrameSize : ℕ} {s : State} {journal : Journal} {frame : Frame}
    (hphase : s.phase = .processing frame) (outcome : Outcome) (failAt : Option ℕ)
    (flushOk : Bool) : journal.record maxFrameSize s (.process outcome failAt flushOk) =
      { journal with processed := journal.processed ++ [(frame, outcome)] } := by
  simp only [Journal.record, hphase]

/-- A frame that the reader or the loop gets is recorded as received. -/
theorem record_readDone {maxFrameSize : ℕ} {s : State} (journal : Journal) {frame : Frame}
    (hresult : readResult maxFrameSize s.held = .ok frame)
    (hphase : s.phase = .waiting ∨ ∃ first, s.phase = .coalescing first) :
    (journal.record maxFrameSize s .readDone).received = journal.received ++ [frame] ∧
      (journal.record maxFrameSize s .readDone).processed = journal.processed := by
  rcases hphase with hphase | ⟨first, hphase⟩
  · simp only [Journal.record, hresult, hphase, and_self]
  · simp only [Journal.record, hresult, hphase, and_self]

/-! ## Responses -/

/-- The responses of a connection: written, then buffered. -/
def State.responses (s : State) : List Frame := s.written ++ s.pendingResponses

def repliesOf (entry : Frame × Outcome) : List Frame :=
  if entry.1.header.flags.noReply then [] else (entry.2.reply? entry.1).toList

/-- Whether the request was dispatched. -/
def Outcome.isResponse : Outcome → Bool
  | .invalidEnvelope _ => false
  | .response _ _ _ => true

/-- The frame whose request is in process, if there is one. -/
def Phase.request : Phase → List Frame
  | .coalescing frame | .processing frame => [frame]
  | _ => []

/-- A request in process is a frame in process. -/
theorem Phase.request_of_inProcess {phase : Phase} (h : phase.inProcess = []) :
    phase.request = [] := by
  cases phase <;> simp_all [inProcess, request]

/-- The loop goes back to its top: it takes the next frame from the queue, or waits. -/
theorem State.next_cases (s : State) :
    (s.next = { s with phase := .waiting } ∧ s.queue.frames = []) ∨
      ∃ frame queue, s.next = { s with queue := queue, phase := .coalescing frame } ∧
        s.queue.frames = frame :: queue.frames := by
  unfold next
  cases hpop : s.queue.pop with
  | none => exact .inl ⟨rfl, PriorityQueue.frames_of_pop_eq_none hpop⟩
  | some popped =>
    obtain ⟨frame, queue⟩ := popped
    exact .inr ⟨frame, queue, rfl, PriorityQueue.frames_of_pop hpop⟩

@[simp]
theorem State.written_next (s : State) : s.next.written = s.written := by
  rcases s.next_cases with ⟨heq, -⟩ | ⟨frame, queue, heq, -⟩ <;> rw [heq]

@[simp]
theorem State.pendingResponses_next (s : State) :
    s.next.pendingResponses = s.pendingResponses := by
  rcases s.next_cases with ⟨heq, -⟩ | ⟨frame, queue, heq, -⟩ <;> rw [heq]

theorem State.responses_next (s : State) : s.next.responses = s.responses := by
  rw [responses, responses, written_next, pendingResponses_next]

/-- A write of frames that succeeds writes them all. -/
theorem writeAll_eq {frames written : List Frame} {failAt : Option ℕ}
    (h : writeAll frames failAt = (written, true)) : written = frames := by
  unfold writeAll at h
  split at h
  · split_ifs at h
    · exact absurd (Prod.mk.inj h).2 (by simp)
    · exact (Prod.mk.inj h).1.symm
  · exact (Prod.mk.inj h).1.symm

/-- Processing a frame adds its responses, unless it ends the loop or fails to write what is
buffered. -/
theorem State.responses_processFrame (s : State) (frame : Frame) (outcome : Outcome)
    (failAt : Option ℕ) (flushOk : Bool)
    (hwrites : frame.header.flags.noReply = true → frame.header.flags.batchFollows = false →
      outcome.isResponse = true →
        (writeAll s.pendingResponses failAt).2 = true ∨ flushOk = false) :
    (s.processFrame frame outcome failAt flushOk).phase = .finished .writeFailed ∨
      (s.processFrame frame outcome failAt flushOk).responses =
        s.responses ++ repliesOf (frame, outcome) := by
  unfold processFrame repliesOf
  by_cases hreply : frame.header.flags.noReply = true
  · simp only [if_pos hreply, List.append_nil]
    cases outcome with
    | invalidEnvelope error => exact .inr (State.responses_next _)
    | response isError encoded fallback =>
      by_cases hbatch : frame.header.flags.batchFollows = true
      · simp only [if_pos hbatch]
        exact .inr (State.responses_next _)
      · simp only [if_neg hbatch]
        unfold flushPending
        dsimp only
        split_ifs with hempty hflush
        · exact .inr (State.responses_next _)
        · have hwritten := (hwrites hreply (by simpa using hbatch) rfl).resolve_right
            (by simp [hflush])
          right
          rw [State.responses_next, responses, responses,
            writeAll_eq (Prod.ext rfl hwritten : writeAll s.pendingResponses failAt =
              ((writeAll s.pendingResponses failAt).1, true))]
          simp
        · exact .inl rfl
  · simp only [if_neg hreply]
    unfold answer
    cases hoption : outcome.reply? frame with
    | none =>
      right
      simp only [Option.toList_none, List.append_nil]
      exact State.responses_next _
    | some reply =>
      dsimp only
      split_ifs with hbatch
      · right
        rw [State.responses_next, responses, responses]
        simp
      · unfold flushBatch
        dsimp only
        split_ifs with hflush
        · rw [Bool.and_eq_true] at hflush
          right
          rw [State.responses_next, responses, responses,
            writeAll_eq (Prod.ext rfl hflush.1 : writeAll (s.pendingResponses ++ [reply]) failAt =
              ((writeAll (s.pendingResponses ++ [reply]) failAt).1, true))]
          simp
        · exact .inl rfl

theorem State.phase_next (s : State) : s.next.phase ≠ .finished .writeFailed := by
  rcases s.next_cases with ⟨heq, -⟩ | ⟨frame, queue, heq, -⟩ <;> simp [heq]

/-- A connection whose writes succeed goes on after each request. -/
theorem State.phase_processFrame (s : State) (frame : Frame) (outcome : Outcome) :
    (s.processFrame frame outcome none true).phase ≠ .finished .writeFailed := by
  have hpending : ∀ s : State, (s.flushPending none true).phase ≠ .finished .writeFailed := by
    intro s
    unfold flushPending
    by_cases hempty : s.pendingResponses.isEmpty = true
    · rw [if_pos hempty]
      exact s.phase_next
    · rw [if_neg hempty]
      exact State.phase_next _
  have hanswer : ∀ (s : State) (reply? : Option Frame),
      (s.answer frame reply? none true).phase ≠ .finished .writeFailed := by
    intro s reply?
    unfold answer
    cases reply? with
    | none => exact s.phase_next
    | some reply =>
      dsimp only
      split_ifs
      · exact State.phase_next _
      · exact State.phase_next _
  unfold processFrame
  by_cases hreply : frame.header.flags.noReply = true
  · simp only [if_pos hreply]
    cases outcome with
    | invalidEnvelope error => exact State.phase_next _
    | response isError encoded fallback =>
      by_cases hbatch : frame.header.flags.batchFollows = true
      · simp only [if_pos hbatch]
        exact State.phase_next _
      · simp only [if_neg hbatch]
        exact hpending _
  · simp only [if_neg hreply]
    exact hanswer _ _

/-- Answering the first frame sends one frame at most. -/
theorem State.responses_greet (s : State) (frame : Frame) (greeting : Greeting) (writeOk : Bool)
    (hempty : s.pendingResponses = []) :
    ∃ first, first.length ≤ 1 ∧
      (s.greet frame greeting writeOk).responses = s.responses ++ first := by
  have hsame : ∀ s' : State, s'.written = s.written → s'.pendingResponses = s.pendingResponses →
      ∃ first : List Frame, first.length ≤ 1 ∧ s'.responses = s.responses ++ first := by
    intro s' hwritten hpending
    exact ⟨[], Nat.zero_le _, by rw [responses, responses, hwritten, hpending, List.append_nil]⟩
  cases greeting with
  | refused error =>
    refine ⟨if writeOk then (error.map (serverFrame .error frame.header.reqId)).toList else [],
      ?_, ?_⟩
    · cases writeOk <;> cases error <;> simp
    · simp [greet, responses, hempty]
  | accepted encoded =>
    cases encoded with
    | none => exact hsame _ rfl rfl
    | some encoded =>
      by_cases hopcode : frame.header.flags.opcode = .handshake
      · cases writeOk with
        | true =>
          refine ⟨[serverFrame .handshake frame.header.reqId encoded], le_rfl, ?_⟩
          simp only [greet, hopcode, ne_eq, not_true_eq_false, if_true, if_false]
          rw [State.responses_next]
          simp [responses, hempty]
        | false => exact hsame _ (by simp [greet, hopcode]) (by simp [greet, hopcode])
      · exact hsame _ (by simp [greet, hopcode]) (by simp [greet, hopcode])

/-- Answering the first frame buffers nothing. -/
theorem State.pendingResponses_greet (s : State) (frame : Frame) (greeting : Greeting)
    (writeOk : Bool) : (s.greet frame greeting writeOk).pendingResponses = s.pendingResponses := by
  unfold greet
  cases greeting with
  | refused error => rfl
  | accepted encoded =>
    cases encoded with
    | none => rfl
    | some encoded =>
      dsimp only
      split_ifs
      · rfl
      · exact State.pendingResponses_next _
      · exact State.pendingResponses_next _
      · rfl
      · rfl

/-! ## Frames that were read and not processed -/

/-- Back at the top of the loop, the frames of the queue are those that wait to be processed. -/
theorem request_of_advances {s s' : State} (h : s.Advances s') :
    s'.phase.request ++ s'.queue.frames = s.queue.frames := by
  rcases h.phase with ⟨hphase, hqueue⟩ | ⟨hphase, hqueue, hempty⟩ | ⟨frame, hphase, hqueue⟩
  · rw [hphase, hqueue]
    rfl
  · rw [hphase, hqueue, hempty]
    rfl
  · rw [hphase, hqueue]
    rfl

end MongoCore.Transport
