import MongoCore.Library.TransitionSystem
import MongoCore.Transport.Frame

/-!
# The connection loop

One task serves one connection.  It reads a handshake frame, answers it, and then alternates
between three ways of reading frames: it waits for a frame or a shutdown signal; it tries, with a
timeout of zero, to read more frames that have already arrived, which it puts into a priority
queue; and after a shutdown signal it reads and discards until the client leaves.

The task is a transition system.  Its events are the steps of the environment, bytes that arrive
and signals that fire, and the steps of the task between two of its await points.  A read takes
one byte at a time.  A read that is given up loses the bytes it holds, since its future is dropped
with its buffer: that is what `timeout` and `shutdownChanged` do to `held`.

What parsing, dispatching and encoding produce is part of the event; so is the failure of a write.
-/

namespace MongoCore.Transport

open MongoCore.Library.TransitionSystem

/-! ## The priority queue -/

/-- Pending requests by priority level. -/
structure PriorityQueue where
  high : List Frame := []
  normal : List Frame := []
  low : List Frame := []
  deriving DecidableEq, Repr

/-- Enqueue a request; critical ones share the queue of the high ones. -/
def PriorityQueue.push (queue : PriorityQueue) (frame : Frame) (priority : Priority) :
    PriorityQueue :=
  match priority with
  | .high | .critical => { queue with high := queue.high ++ [frame] }
  | .normal => { queue with normal := queue.normal ++ [frame] }
  | .low => { queue with low := queue.low ++ [frame] }

/-- Dequeue the pending request of the highest priority. -/
def PriorityQueue.pop (queue : PriorityQueue) : Option (Frame × PriorityQueue) :=
  match queue with
  | { high := frame :: high, normal, low } => some (frame, { high, normal, low })
  | { high := [], normal := frame :: normal, low } => some (frame, { high := [], normal, low })
  | { high := [], normal := [], low := frame :: low } =>
      some (frame, { high := [], normal := [], low })
  | { high := [], normal := [], low := [] } => none

def PriorityQueue.frames (queue : PriorityQueue) : List Frame :=
  queue.high ++ queue.normal ++ queue.low

/-- Enqueuing adds the request to the pending ones. -/
theorem PriorityQueue.frames_push (queue : PriorityQueue) (frame : Frame) (priority : Priority) :
    (queue.push frame priority).frames.Perm (queue.frames ++ [frame]) := by
  have hend : ∀ frames : List Frame, (frame :: frames).Perm (frames ++ [frame]) :=
    fun frames ↦ (List.perm_append_singleton frame frames).symm
  cases priority with
  | normal =>
    have hnormal := ((hend queue.low).append_left queue.normal).append_left queue.high
    simpa [push, frames] using hnormal
  | low => simp [push, frames]
  | high =>
    have hhigh := (hend (queue.normal ++ queue.low)).append_left queue.high
    simpa [push, frames] using hhigh
  | critical =>
    have hhigh := (hend (queue.normal ++ queue.low)).append_left queue.high
    simpa [push, frames] using hhigh

/-- Dequeuing takes the first of all pending requests. -/
theorem PriorityQueue.frames_of_pop {queue rest : PriorityQueue} {frame : Frame}
    (h : queue.pop = some (frame, rest)) : queue.frames = frame :: rest.frames := by
  unfold pop at h
  split at h
  · obtain ⟨rfl, rfl⟩ := Prod.mk.inj (Option.some.inj h)
    simp [frames]
  · obtain ⟨rfl, rfl⟩ := Prod.mk.inj (Option.some.inj h)
    simp [frames]
  · obtain ⟨rfl, rfl⟩ := Prod.mk.inj (Option.some.inj h)
    simp [frames]
  · exact absurd h (by simp)

/-- Only an empty queue has nothing to dequeue. -/
theorem PriorityQueue.frames_of_pop_eq_none {queue : PriorityQueue} (h : queue.pop = none) :
    queue.frames = [] := by
  unfold pop at h
  split at h <;> simp_all [frames]

/-- The effective priority: only a handshake is critical. -/
def resolvePriority (frame : Frame) : Priority :=
  if frame.header.flags.priority = .critical ∧ frame.header.flags.opcode ≠ .handshake then .high
  else frame.header.flags.priority

/-! ## Replies -/

/-- A frame that the server sends in answer to a request. -/
def serverFrame (opcode : Opcode) (reqId : ℕ) (encoded : Bytes × Bytes) : Frame where
  header := { msgLen := 0, flags := .ofServer opcode, reqId := reqId }
  envelope := encoded.1
  rawDocs := encoded.2

/-- The milliseconds the server waits for a client to leave. -/
def shutdownDrainMs : ℕ := 5000

/-- The shutdown notice; its envelope is a JSON text. -/
def shutdownFrame : Frame :=
  serverFrame .handshake 0
    ((s!"\x7b\"shutdown\":true,\"drain_ms\":{shutdownDrainMs},\"doc_bytes_len\":0\x7d".toList.map
      fun c ↦ UInt8.ofNat c.toNat), [])

/-- How a request ends: its envelope is refused, or the dispatched operation has a response.  An
encoding is `none` where it fails; `fallback` is the encoding of the error sent in its place. -/
inductive Outcome where
  | invalidEnvelope (error : Option (Bytes × Bytes))
  | response (isError : Bool) (encoded fallback : Option (Bytes × Bytes))
  deriving DecidableEq

/-- The frame that answers a request, unless no error can be encoded either. -/
def Outcome.reply? (request : Frame) : Outcome → Option Frame
  | .invalidEnvelope error => error.map (serverFrame .error request.header.reqId)
  | .response isError encoded fallback =>
      match encoded with
      | some encoded => some (serverFrame
          (if isError then .error else request.header.flags.opcode) request.header.reqId encoded)
      | none => fallback.map (serverFrame .error request.header.reqId)

/-- How a handshake ends: it is refused with an encoded error, or accepted with an encoded
reply. -/
inductive Greeting where
  | refused (error : Option (Bytes × Bytes))
  | accepted (encoded : Option (Bytes × Bytes))
  deriving DecidableEq

/-! ## States -/

/-- Why the task ended. -/
inductive Finish where
  | disconnected
  | frameError (error : FrameError)
  | handshakeRefused
  | writeFailed
  | shutDown
  deriving DecidableEq, Repr

inductive Phase where
  | handshake
  | greeting (frame : Frame)
  | waiting
  | coalescing (frame : Frame)
  | processing (frame : Frame)
  | draining
  | finished (reason : Finish)
  deriving DecidableEq, Repr

/-- The state of a connection: the bytes in the socket, whether the peer has closed it, the bytes
held by the read in progress, and the variables of the loop.  `written` and `handed` record the
frames written and the frames handed to the parser. -/
structure State where
  inbox : Bytes
  closed : Bool
  held : Bytes
  phase : Phase
  queue : PriorityQueue
  pendingResponses : List Frame
  written : List Frame
  handed : List Frame

def State.init : State where
  inbox := []
  closed := false
  held := []
  phase := .handshake
  queue := {}
  pendingResponses := []
  written := []
  handed := []

def Phase.isReading : Phase → Bool
  | .handshake | .waiting | .coalescing _ | .draining => true
  | _ => false

/-- A property of the first frame can be decided if it can be decided of every frame. -/
instance Phase.decidableGreeting (P : Frame → Prop) [DecidablePred P] :
    (phase : Phase) → Decidable (∀ frame, phase = .greeting frame → P frame)
  | .greeting frame => decidable_of_iff (P frame)
      ⟨fun h other hother ↦ Phase.greeting.inj hother ▸ h, fun h ↦ h frame rfl⟩
  | .handshake | .waiting | .coalescing _ | .processing _ | .draining | .finished _ =>
      isTrue fun _ h ↦ absurd h (by simp)

/-- A property of the frame in process can be decided if it can be decided of every frame. -/
instance Phase.decidableProcessing (P : Frame → Prop) [DecidablePred P] :
    (phase : Phase) → Decidable (∀ frame, phase = .processing frame → P frame)
  | .processing frame => decidable_of_iff (P frame)
      ⟨fun h other hother ↦ Phase.processing.inj hother ▸ h, fun h ↦ h frame rfl⟩
  | .handshake | .greeting _ | .waiting | .coalescing _ | .draining | .finished _ =>
      isTrue fun _ h ↦ absurd h (by simp)

/-- The frames that were read and are not handed on yet, apart from the queue. -/
def Phase.inProcess : Phase → List Frame
  | .greeting frame | .coalescing frame | .processing frame => [frame]
  | _ => []

/-! ## Steps -/

/-- What happens next: bytes arrive, the peer closes, the read in progress takes a byte, returns,
or meets the end of the stream; a timeout or a signal fires; the task answers a handshake or a
request.  `failAt` is the number of frames after which a write fails. -/
inductive Event where
  | arrive (bytes : Bytes)
  | close
  | take
  | readDone
  | readEof
  | timeout
  | shutdownChanged (value writeOk : Bool)
  | drainTimeout
  | greet (greeting : Greeting) (writeOk : Bool)
  | process (outcome : Outcome) (failAt : Option ℕ) (flushOk : Bool)

/-- The top of the loop: take the next frame from the queue, or wait for one. -/
def State.next (s : State) : State :=
  match s.queue.pop with
  | some (frame, queue) => { s with queue := queue, phase := .coalescing frame }
  | none => { s with phase := .waiting }

/-- Write frames until one fails: the frames written, and whether all were. -/
def writeAll (frames : List Frame) (failAt : Option ℕ) : List Frame × Bool :=
  match failAt with
  | some count => if count < frames.length then (frames.take count, false) else (frames, true)
  | none => (frames, true)

/-- Write the buffered responses and a last one; a failure ends the loop. -/
def State.flushBatch (s : State) (last : Frame) (failAt : Option ℕ) (flushOk : Bool) : State :=
  let (frames, ok) := writeAll (s.pendingResponses ++ [last]) failAt
  let flushed := { s with pendingResponses := [], written := s.written ++ frames }
  if ok && flushOk then flushed.next else { flushed with phase := .finished .writeFailed }

/-- Send the answer to a request, or buffer it if the client announced more requests. -/
def State.answer (s : State) (request : Frame) (reply? : Option Frame) (failAt : Option ℕ)
    (flushOk : Bool) : State :=
  match reply? with
  | none => s.next
  | some reply =>
      if request.header.flags.batchFollows then
        { s with pendingResponses := s.pendingResponses ++ [reply] }.next
      else s.flushBatch reply failAt flushOk

/-- After a request without a reply that ends a batch: write what is buffered.  A failed write
only skips the rest; a failed flush ends the loop. -/
def State.flushPending (s : State) (failAt : Option ℕ) (flushOk : Bool) : State :=
  if s.pendingResponses.isEmpty then s.next
  else
    let flushed := { s with
      pendingResponses := [], written := s.written ++ (writeAll s.pendingResponses failAt).1 }
    if flushOk then flushed.next else { flushed with phase := .finished .writeFailed }

/-- Parse, dispatch and answer a frame. -/
def State.processFrame (s : State) (frame : Frame) (outcome : Outcome) (failAt : Option ℕ)
    (flushOk : Bool) : State :=
  let handed := { s with handed := s.handed ++ [frame] }
  if frame.header.flags.noReply then
    match outcome with
    | .invalidEnvelope _ => handed.next
    | .response _ _ _ =>
        if frame.header.flags.batchFollows then handed.next
        else handed.flushPending failAt flushOk
  else handed.answer frame (outcome.reply? frame) failAt flushOk

/-- Answer the first frame. -/
def State.greet (s : State) (frame : Frame) (greeting : Greeting) (writeOk : Bool) : State :=
  -- a first frame of another kind is refused before it is parsed
  let handed := if frame.header.flags.opcode = .handshake then s.handed ++ [frame] else s.handed
  match greeting with
  | .refused error =>
      { s with
        handed := handed
        written := s.written ++ (if writeOk then
          (error.map (serverFrame .error frame.header.reqId)).toList else [])
        phase := .finished .handshakeRefused }
  | .accepted none => { s with handed := handed, phase := .finished .handshakeRefused }
  | .accepted (some encoded) =>
      if frame.header.flags.opcode ≠ .handshake then
        { s with phase := .finished .handshakeRefused }
      else if writeOk then
        { s with
          handed := handed
          written := s.written ++ [serverFrame .handshake frame.header.reqId encoded] }.next
      else { s with handed := handed, phase := .finished .writeFailed }

def State.returnRead (s : State) (result : Except FrameError Frame) : State :=
  match s.phase, result with
  | .handshake, .ok frame => { s with held := [], phase := .greeting frame }
  | .handshake, .error error => { s with held := [], phase := .finished (.frameError error) }
  | .waiting, .ok frame => { s with held := [], phase := .coalescing frame }
  | .waiting, .error error => { s with held := [], phase := .finished (.frameError error) }
  | .coalescing _, .ok extra =>
      { s with held := [], queue := s.queue.push extra (resolvePriority extra) }
  | .coalescing frame, .error _ => { s with held := [], phase := .processing frame }
  | .draining, .ok _ => { s with held := [] }
  | .draining, .error _ => { s with held := [], phase := .finished .shutDown }
  | _, _ => s

/-- The read in progress meets the end of the stream. -/
def State.endRead (s : State) : State :=
  match s.phase with
  | .handshake | .waiting => { s with held := [], phase := .finished .disconnected }
  | .coalescing frame => { s with held := [], phase := .processing frame }
  | .draining => { s with held := [], phase := .finished .shutDown }
  | _ => s

/-- The read in progress is inside its wait for more bytes. -/
def State.Pending (maxFrameSize : ℕ) (s : State) : Prop :=
  s.phase.isReading = true ∧ ¬ Complete maxFrameSize s.held

instance (maxFrameSize : ℕ) (s : State) : Decidable (s.Pending maxFrameSize) :=
  inferInstanceAs (Decidable (_ ∧ _))

/-- One step of the connection; `none` if the event cannot happen. -/
def step (maxFrameSize : ℕ) (s : State) : Event → Option State
  | .arrive bytes => if s.closed then none else some { s with inbox := s.inbox ++ bytes }
  | .close => some { s with closed := true }
  | .take =>
      match s.inbox with
      | [] => none
      | byte :: inbox => if s.Pending maxFrameSize then
          some { s with inbox := inbox, held := s.held ++ [byte] } else none
  | .readDone =>
      if s.phase.isReading ∧ Complete maxFrameSize s.held then
        some (s.returnRead (readResult maxFrameSize s.held)) else none
  | .readEof =>
      if s.Pending maxFrameSize ∧ s.inbox = [] ∧ s.closed then some s.endRead else none
  | .timeout =>
      match s.phase with
      | .coalescing frame =>
          if s.Pending maxFrameSize ∧ s.inbox = [] ∧ !s.closed then
            some { s with held := [], phase := .processing frame } else none
      | _ => none
  | .shutdownChanged value writeOk =>
      if s.phase = .waiting ∧ s.Pending maxFrameSize then
        if value then
          some { s with
            held := [], phase := .draining
            written := s.written ++ (if writeOk then [shutdownFrame] else []) }
        else some { s with held := [] }
      else none
  | .drainTimeout =>
      if s.phase = .draining then some { s with held := [], phase := .finished .shutDown }
      else none
  | .greet greeting writeOk =>
      match s.phase with
      | .greeting frame => some (s.greet frame greeting writeOk)
      | _ => none
  | .process outcome failAt flushOk =>
      match s.phase with
      | .processing frame => some (s.processFrame frame outcome failAt flushOk)
      | _ => none

def Event.bytes : Event → Bytes
  | .arrive bytes => bytes
  | _ => []

/-- The bytes that arrive during a run. -/
def arrivals (events : List Event) : Bytes := events.flatMap Event.bytes

/-! ## What a step does -/

/-- Back at the top of the loop: the reading state is untouched, and the next frame was taken from
the queue, or the queue was empty. -/
structure State.Advances (s s' : State) : Prop where
  inbox : s'.inbox = s.inbox
  closed : s'.closed = s.closed
  held : s'.held = s.held
  handed : s'.handed = s.handed
  phase : (s'.phase = .finished .writeFailed ∧ s'.queue = s.queue) ∨
    (s'.phase = .waiting ∧ s.queue.frames = [] ∧ s'.queue.frames = []) ∨
    ∃ frame, s'.phase = .coalescing frame ∧ s.queue.frames = frame :: s'.queue.frames

theorem State.advances_next (s : State) : s.Advances s.next := by
  unfold next
  cases hpop : s.queue.pop with
  | none =>
    have hempty := PriorityQueue.frames_of_pop_eq_none hpop
    exact ⟨rfl, rfl, rfl, rfl, .inr (.inl ⟨rfl, hempty, hempty⟩)⟩
  | some popped =>
    obtain ⟨frame, rest⟩ := popped
    exact ⟨rfl, rfl, rfl, rfl, .inr (.inr ⟨frame, rfl, PriorityQueue.frames_of_pop hpop⟩)⟩

/-- The responses written and buffered do not matter for what is read and handed on. -/
theorem State.advances_next_of_responses (s : State) (pending written : List Frame) :
    s.Advances { s with pendingResponses := pending, written := written }.next := by
  obtain ⟨hinbox, hclosed, hheld, hhanded, hphase⟩ :=
    State.advances_next { s with pendingResponses := pending, written := written }
  exact ⟨hinbox, hclosed, hheld, hhanded, hphase⟩

theorem State.advances_writeFailed (s : State) (pending written : List Frame) :
    s.Advances { s with
      pendingResponses := pending, written := written, phase := .finished .writeFailed } :=
  ⟨rfl, rfl, rfl, rfl, .inl ⟨rfl, rfl⟩⟩

theorem State.advances_flushBatch (s : State) (last : Frame) (failAt : Option ℕ)
    (flushOk : Bool) : s.Advances (s.flushBatch last failAt flushOk) := by
  unfold flushBatch
  dsimp only
  split_ifs
  · exact s.advances_next_of_responses _ _
  · exact s.advances_writeFailed _ _

theorem State.advances_flushPending (s : State) (failAt : Option ℕ) (flushOk : Bool) :
    s.Advances (s.flushPending failAt flushOk) := by
  unfold flushPending
  dsimp only
  split_ifs
  · exact s.advances_next
  · exact s.advances_next_of_responses _ _
  · exact s.advances_writeFailed _ _

theorem State.advances_answer (s : State) (request : Frame) (reply? : Option Frame)
    (failAt : Option ℕ) (flushOk : Bool) : s.Advances (s.answer request reply? failAt flushOk) := by
  unfold answer
  cases reply? with
  | none => exact s.advances_next
  | some reply =>
    dsimp only
    split_ifs
    · exact s.advances_next_of_responses _ s.written
    · exact s.advances_flushBatch reply failAt flushOk

/-- Processing a frame hands it on and goes back to the top of the loop. -/
theorem State.advances_processFrame (s : State) (frame : Frame) (outcome : Outcome)
    (failAt : Option ℕ) (flushOk : Bool) :
    { s with handed := s.handed ++ [frame] }.Advances
      (s.processFrame frame outcome failAt flushOk) := by
  unfold processFrame
  by_cases hreply : frame.header.flags.noReply = true
  · simp only [if_pos hreply]
    cases outcome with
    | invalidEnvelope error => exact State.advances_next _
    | response isError encoded fallback =>
      by_cases hbatch : frame.header.flags.batchFollows = true
      · simp only [if_pos hbatch]
        exact State.advances_next _
      · simp only [if_neg hbatch]
        exact State.advances_flushPending _ _ _
  · simp only [if_neg hreply]
    exact State.advances_answer _ _ _ _ _

/-- Answering the first frame ends the task, or hands the frame on and enters the loop. -/
theorem State.greet_cases (s : State) (frame : Frame) (greeting : Greeting) (writeOk : Bool) :
    (∃ reason, (s.greet frame greeting writeOk).phase = .finished reason ∧
        (reason = .handshakeRefused ∨ reason = .writeFailed) ∧
        (s.greet frame greeting writeOk).inbox = s.inbox ∧
        (s.greet frame greeting writeOk).closed = s.closed ∧
        (s.greet frame greeting writeOk).held = s.held ∧
        (s.greet frame greeting writeOk).queue = s.queue ∧
        ((s.greet frame greeting writeOk).handed = s.handed ∨
          (s.greet frame greeting writeOk).handed = s.handed ++ [frame])) ∨
      { s with handed := s.handed ++ [frame] }.Advances (s.greet frame greeting writeOk) := by
  unfold greet
  by_cases hopcode : frame.header.flags.opcode = .handshake
  · cases greeting with
    | refused error => exact .inl ⟨_, rfl, by simp [hopcode]⟩
    | accepted encoded =>
      cases encoded with
      | none => exact .inl ⟨_, rfl, by simp [hopcode]⟩
      | some encoded =>
        cases writeOk with
        | false => exact .inl ⟨.writeFailed, by simp [hopcode]⟩
        | true =>
          refine .inr ?_
          simpa [hopcode] using State.advances_next_of_responses
            { s with handed := s.handed ++ [frame] } s.pendingResponses _
  · cases greeting with
    | refused error => exact .inl ⟨_, rfl, by simp [hopcode]⟩
    | accepted encoded =>
      cases encoded with
      | none => exact .inl ⟨_, rfl, by simp [hopcode]⟩
      | some encoded => exact .inl ⟨.handshakeRefused, by simp [hopcode]⟩

/-- The steps of a connection, one case for each kind, with the guard and the effect. -/
inductive StepCase (maxFrameSize : ℕ) (s : State) : Event → State → Prop
  | arrive (bytes : Bytes) (hopen : s.closed = false) :
      StepCase maxFrameSize s (.arrive bytes) { s with inbox := s.inbox ++ bytes }
  | close : StepCase maxFrameSize s .close { s with closed := true }
  | take (byte : UInt8) (inbox : Bytes) (hinbox : s.inbox = byte :: inbox)
      (hpending : s.Pending maxFrameSize) :
      StepCase maxFrameSize s .take { s with inbox := inbox, held := s.held ++ [byte] }
  | readDone (hreading : s.phase.isReading = true) (hcomplete : Complete maxFrameSize s.held) :
      StepCase maxFrameSize s .readDone (s.returnRead (readResult maxFrameSize s.held))
  | readEof (hpending : s.Pending maxFrameSize) (hinbox : s.inbox = [])
      (hclosed : s.closed = true) : StepCase maxFrameSize s .readEof s.endRead
  | timeout (frame : Frame) (hphase : s.phase = .coalescing frame)
      (hpending : s.Pending maxFrameSize) (hinbox : s.inbox = []) :
      StepCase maxFrameSize s .timeout { s with held := [], phase := .processing frame }
  | shutdown (writeOk : Bool) (hphase : s.phase = .waiting) (hpending : s.Pending maxFrameSize) :
      StepCase maxFrameSize s (.shutdownChanged true writeOk)
        { s with
          held := [], phase := .draining
          written := s.written ++ (if writeOk then [shutdownFrame] else []) }
  | noShutdown (writeOk : Bool) (hphase : s.phase = .waiting)
      (hpending : s.Pending maxFrameSize) :
      StepCase maxFrameSize s (.shutdownChanged false writeOk) { s with held := [] }
  | drainTimeout (hphase : s.phase = .draining) :
      StepCase maxFrameSize s .drainTimeout
        { s with held := [], phase := .finished .shutDown }
  | greet (frame : Frame) (hphase : s.phase = .greeting frame) (greeting : Greeting)
      (writeOk : Bool) :
      StepCase maxFrameSize s (.greet greeting writeOk) (s.greet frame greeting writeOk)
  | process (frame : Frame) (hphase : s.phase = .processing frame) (outcome : Outcome)
      (failAt : Option ℕ) (flushOk : Bool) :
      StepCase maxFrameSize s (.process outcome failAt flushOk)
        (s.processFrame frame outcome failAt flushOk)

/-- Every step is one of the cases. -/
theorem stepCase_of_step {maxFrameSize : ℕ} {s s' : State} {event : Event}
    (h : step maxFrameSize s event = some s') : StepCase maxFrameSize s event s' := by
  cases event with
  | arrive bytes =>
    simp only [step, Option.ite_none_left_eq_some, Option.some.injEq] at h
    obtain ⟨hopen, rfl⟩ := h
    exact .arrive bytes (by simpa using hopen)
  | close =>
    obtain rfl := Option.some.inj h
    exact .close
  | take =>
    cases hinbox : s.inbox with
    | nil => simp [step, hinbox] at h
    | cons byte inbox =>
      simp only [step, hinbox, Option.ite_none_right_eq_some, Option.some.injEq] at h
      obtain ⟨hpending, rfl⟩ := h
      exact .take byte inbox hinbox hpending
  | readDone =>
    simp only [step, Option.ite_none_right_eq_some, Option.some.injEq] at h
    obtain ⟨⟨hreading, hcomplete⟩, rfl⟩ := h
    exact .readDone hreading hcomplete
  | readEof =>
    simp only [step, Option.ite_none_right_eq_some, Option.some.injEq] at h
    obtain ⟨⟨hpending, hinbox, hclosed⟩, rfl⟩ := h
    exact .readEof hpending hinbox hclosed
  | timeout =>
    cases hphase : s.phase with
    | coalescing frame =>
      simp only [step, hphase, Option.ite_none_right_eq_some, Option.some.injEq] at h
      obtain ⟨⟨hpending, hinbox, -⟩, rfl⟩ := h
      exact .timeout frame hphase hpending hinbox
    | _ => simp [step, hphase] at h
  | shutdownChanged value writeOk =>
    simp only [step, Option.ite_none_right_eq_some] at h
    obtain ⟨⟨hphase, hpending⟩, h⟩ := h
    cases value with
    | true =>
      obtain rfl := Option.some.inj h
      exact .shutdown writeOk hphase hpending
    | false =>
      obtain rfl := Option.some.inj h
      exact .noShutdown writeOk hphase hpending
  | drainTimeout =>
    simp only [step, Option.ite_none_right_eq_some, Option.some.injEq] at h
    obtain ⟨hphase, rfl⟩ := h
    exact .drainTimeout hphase
  | greet greeting writeOk =>
    cases hphase : s.phase with
    | greeting frame =>
      simp only [step, hphase, Option.some.injEq] at h
      subst h
      exact .greet frame hphase greeting writeOk
    | _ => simp [step, hphase] at h
  | process outcome failAt flushOk =>
    cases hphase : s.phase with
    | processing frame =>
      simp only [step, hphase, Option.some.injEq] at h
      subst h
      exact .process frame hphase outcome failAt flushOk
    | _ => simp [step, hphase] at h

/-! ## Returning from a read -/

/-- A read that returns a frame moves it into process, into the queue, or drops it. -/
theorem State.returnRead_ok {s : State} (hreading : s.phase.isReading = true) (frame : Frame) :
    (s.phase = .handshake ∧
        s.returnRead (.ok frame) = { s with held := [], phase := .greeting frame }) ∨
      (s.phase = .waiting ∧
        s.returnRead (.ok frame) = { s with held := [], phase := .coalescing frame }) ∨
      (∃ first, s.phase = .coalescing first ∧ s.returnRead (.ok frame) =
        { s with held := [], queue := s.queue.push frame (resolvePriority frame) }) ∨
      (s.phase = .draining ∧ s.returnRead (.ok frame) = { s with held := [] }) := by
  unfold returnRead
  cases hphase : s.phase <;> simp_all [Phase.isReading]

/-- A read that returns an error ends the task, or ends the coalescing. -/
theorem State.returnRead_error {s : State} (hreading : s.phase.isReading = true)
    (error : FrameError) :
    (∃ reason, s.returnRead (.error error) =
        { s with held := [], phase := .finished reason } ∧ s.phase.inProcess = []) ∨
      ∃ first, s.phase = .coalescing first ∧ s.returnRead (.error error) =
        { s with held := [], phase := .processing first } := by
  unfold returnRead
  cases hphase : s.phase <;> simp_all [Phase.isReading, Phase.inProcess]

/-- A read that meets the end of the stream ends the task, or ends the coalescing. -/
theorem State.endRead_cases {s : State} (hreading : s.phase.isReading = true) :
    ((s.phase = .handshake ∨ s.phase = .waiting) ∧
        s.endRead = { s with held := [], phase := .finished .disconnected }) ∨
      (∃ first, s.phase = .coalescing first ∧
        s.endRead = { s with held := [], phase := .processing first }) ∨
      (s.phase = .draining ∧ s.endRead = { s with held := [], phase := .finished .shutDown }) := by
  unfold endRead
  cases hphase : s.phase <;> simp_all [Phase.isReading]

/-- A read that has returned holds nothing, and leaves the other side as it is. -/
theorem State.returnRead_frame {s : State} (hreading : s.phase.isReading = true)
    (result : Except FrameError Frame) :
    (s.returnRead result).held = [] ∧ (s.returnRead result).inbox = s.inbox ∧
      (s.returnRead result).closed = s.closed := by
  cases result with
  | ok frame =>
    rcases State.returnRead_ok hreading frame with
      ⟨-, heq⟩ | ⟨-, heq⟩ | ⟨first, -, heq⟩ | ⟨-, heq⟩ <;> simp [heq]
  | error error =>
    rcases State.returnRead_error hreading error with ⟨reason, heq, -⟩ | ⟨first, -, heq⟩ <;>
      simp [heq]

theorem State.endRead_frame {s : State} (hreading : s.phase.isReading = true) :
    s.endRead.held = [] ∧ s.endRead.closed = s.closed := by
  rcases State.endRead_cases hreading with ⟨-, heq⟩ | ⟨first, -, heq⟩ | ⟨-, heq⟩ <;> simp [heq]

/-- A peer that has closed stays closed and sends nothing. -/
theorem closed_step {maxFrameSize : ℕ} {s s' : State} {event : Event} (hclosed : s.closed = true)
    (hstep : step maxFrameSize s event = some s') : s'.closed = true ∧ event.bytes = [] := by
  cases stepCase_of_step hstep with
  | arrive bytes hopen => exact absurd hclosed (by simp [hopen])
  | close => exact ⟨rfl, rfl⟩
  | readDone hreading hcomplete =>
    exact ⟨(State.returnRead_frame hreading _).2.2.trans hclosed, rfl⟩
  | readEof hpending hinbox hclosed' =>
    exact ⟨(State.endRead_frame hpending.1).2.trans hclosed, rfl⟩
  | greet frame hphase greeting writeOk =>
    refine ⟨?_, rfl⟩
    rcases s.greet_cases frame greeting writeOk with ⟨reason, -, -, -, heq, -⟩ | hadvances
    · exact heq.trans hclosed
    · exact hadvances.closed.trans hclosed
  | process frame hphase outcome failAt flushOk =>
    exact ⟨(s.advances_processFrame frame outcome failAt flushOk).closed.trans hclosed, rfl⟩
  | take | timeout | shutdown | noShutdown | drainTimeout => exact ⟨hclosed, rfl⟩

/-- Nothing arrives in a run after the peer has closed. -/
theorem arrivals_of_closed {maxFrameSize : ℕ} {s t : State} {events : List Event}
    (hclosed : s.closed = true) (hrun : run (step maxFrameSize) s events = some t) :
    arrivals events = [] := by
  induction events generalizing s with
  | nil => rfl
  | cons event events ih =>
    obtain ⟨next, hstep, hrest⟩ := run_cons_eq_some.mp hrun
    obtain ⟨hnext, hbytes⟩ := closed_step hclosed hstep
    rw [arrivals, List.flatMap_cons, hbytes, List.nil_append]
    exact ih hnext hrest

end MongoCore.Transport
