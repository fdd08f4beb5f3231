import MongoCore.Transport.Journal
import MongoCore.Transport.Segmentation

/-!
# One reply for each request

The frames that a connection reads are put into a queue, reordered, and processed; each of the
branches of the loop builds its own reply.  The invariant accounts for every frame: it has been
processed, it is in process, or it is queued.  It accounts for the responses as well: they are, in
order, the replies to the processed frames.

A run is accounted for as long as no write fails and no shutdown is signalled.  What the operations
return is arbitrary.
-/

namespace MongoCore.Transport

open MongoCore.Data MongoCore.Library.TransitionSystem

/-- No write fails and no shutdown is signalled. -/
def Uninterrupted : Event → Prop
  | .shutdownChanged value _ => value = false
  | .greet _ writeOk => writeOk = true
  | .process _ failAt flushOk => failAt = none ∧ flushOk = true
  | _ => True

instance : DecidablePred Uninterrupted := fun event ↦ by
  induction event using Event.casesOn <;> unfold Uninterrupted <;> infer_instance

/-- A processed frame has exactly one response, with its own id, or none if it wants none. -/
def AnsweredOnce (entry : Frame × Outcome) : Prop :=
  (entry.1.header.flags.noReply = true → repliesOf entry = []) ∧
    (entry.1.header.flags.noReply = false → ∃ reply, repliesOf entry = [reply] ∧
      reply.header.reqId = entry.1.header.reqId)

/-- Every frame received since the handshake was processed once, is in process, or is queued, and
none is queued unless one is in process; the frames were processed in the order in which they were
handed to the parser; the responses are, in the same order, those of the processed frames, after
the reply to the handshake. -/
structure RepliesOnce (t : State) (journal : Journal) : Prop where
  received : (journal.processed.map Prod.fst ++ (t.phase.request ++ t.queue.frames)).Perm
    journal.received
  idle : t.phase.request = [] → t.queue.frames = []
  handed : ∃ first, first.length ≤ 1 ∧ t.handed = first ++ journal.processed.map Prod.fst
  answered : ∀ entry ∈ journal.processed, AnsweredOnce entry
  responses : ∃ first, first.length ≤ 1 ∧
    t.responses = first ++ journal.processed.flatMap repliesOf

/-- Before the loop, nothing has happened. -/
structure Untouched (t : State) (journal : Journal) : Prop where
  received : journal.received = []
  processed : journal.processed = []
  queue : t.queue.frames = []
  handed : t.handed = []
  responses : t.responses = []

def Phase.isGreeting : Phase → Bool
  | .handshake | .greeting _ => true
  | _ => false

/-- The invariant: every frame is accounted for, and there are none before the loop begins. -/
structure Accounted (t : State) (journal : Journal) : Prop where
  once : RepliesOnce t journal
  untouched : t.phase.isGreeting = true → Untouched t journal
  running : t.phase ≠ .draining

theorem accounted_init : Accounted State.init {} where
  once :=
    { received := List.Perm.refl _
      idle := fun _ ↦ rfl
      handed := ⟨[], Nat.zero_le _, rfl⟩
      answered := fun entry hentry ↦ absurd hentry List.not_mem_nil
      responses := ⟨[], Nat.zero_le _, rfl⟩ }
  untouched _ := ⟨rfl, rfl, rfl, rfl, rfl⟩
  running := by simp [State.init]

/-- A frame whose outcome is the server's is answered once. -/
theorem answeredOnce_outcomeOf (decode : Bytes → Except String Document) (frame : Frame)
    (response : OperationResponse) : AnsweredOnce (frame, outcomeOf decode frame response) := by
  refine ⟨fun hnone ↦ if_pos hnone, fun hreply ↦ ?_⟩
  refine ⟨serverFrame (answerOpcode frame (answerTo decode frame response)) frame.header.reqId
    (encodeResponse (answerTo decode frame response)), ?_, rfl⟩
  have hanswer := reply?_outcomeOf decode frame response
  rw [repliesOf, if_neg (by simpa using hreply), hanswer]
  rfl

section Steps

variable {s s' : State} {journal journal' : Journal}

/-- A step that changes no frame and no response, and does not go back to the handshake. -/
theorem Accounted.of_same (h : Accounted s journal)
    (hreceived : journal'.received = journal.received)
    (hprocessed : journal'.processed = journal.processed)
    (hrequest : s'.phase.request = s.phase.request) (hqueue : s'.queue = s.queue)
    (hhanded : s'.handed = s.handed) (hresponses : s'.responses = s.responses)
    (hgreeting : s'.phase.isGreeting = true → s.phase.isGreeting = true)
    (hrunning : s'.phase ≠ .draining) : Accounted s' journal' where
  once :=
    { received := by
        rw [hrequest, hqueue, hreceived, hprocessed]
        exact h.once.received
      idle := by
        rw [hrequest, hqueue]
        exact h.once.idle
      handed := by
        rw [hhanded, hprocessed]
        exact h.once.handed
      answered := by
        rw [hprocessed]
        exact h.once.answered
      responses := by
        rw [hresponses, hprocessed]
        exact h.once.responses }
  untouched hphase := by
    have hnone := h.untouched (hgreeting hphase)
    exact ⟨hreceived.trans hnone.received, hprocessed.trans hnone.processed,
      hqueue ▸ hnone.queue, hhanded.trans hnone.handed, hresponses.trans hnone.responses⟩
  running := hrunning

/-- A read returns a frame: it goes into process, or into the queue. -/
theorem Accounted.of_received (h : Accounted s journal) {frame : Frame}
    (hreceived : journal'.received = journal.received ++ [frame])
    (hprocessed : journal'.processed = journal.processed)
    (hwaiting : (s'.phase.request ++ s'.queue.frames).Perm
      (s.phase.request ++ s.queue.frames ++ [frame]))
    (hhanded : s'.handed = s.handed) (hresponses : s'.responses = s.responses)
    (hphase : s'.phase.isGreeting = false ∧ s'.phase ≠ .draining ∧ s'.phase.request ≠ []) :
    Accounted s' journal' where
  once :=
    { received := by
        rw [hprocessed, hreceived]
        refine (hwaiting.append_left _).trans ?_
        rw [← List.append_assoc]
        exact h.once.received.append_right [frame]
      idle := fun hnone ↦ absurd hnone hphase.2.2
      handed := by
        rw [hhanded, hprocessed]
        exact h.once.handed
      answered := by
        rw [hprocessed]
        exact h.once.answered
      responses := by
        rw [hresponses, hprocessed]
        exact h.once.responses }
  untouched hgreeting := absurd hgreeting (by simp [hphase.1])
  running := hphase.2.1

/-- The end of a read. -/
theorem accounted_readDone {maxFrameSize : ℕ} (h : Accounted s journal)
    (hreading : s.phase.isReading = true) :
    Accounted (s.returnRead (readResult maxFrameSize s.held))
      (journal.record maxFrameSize s .readDone) := by
  cases hresult : readResult maxFrameSize s.held with
  | error error =>
    have hjournal : journal.record maxFrameSize s .readDone =
        { journal with rejected := true } := by
      simp only [Journal.record, hresult]
    rw [hjournal]
    rcases State.returnRead_error hreading error with ⟨reason, heq, hnone⟩ | ⟨first, hphase, heq⟩
    · rw [heq]
      exact h.of_same rfl rfl (Phase.request_of_inProcess hnone).symm rfl rfl rfl
        (fun hgreeting ↦ absurd hgreeting (by simp [Phase.isGreeting])) (by simp)
    · rw [heq]
      exact h.of_same rfl rfl (by simp [Phase.request, hphase]) rfl rfl rfl
        (fun hgreeting ↦ absurd hgreeting (by simp [Phase.isGreeting])) (by simp)
  | ok frame =>
    rcases State.returnRead_ok hreading frame with
      ⟨hphase, heq⟩ | ⟨hphase, heq⟩ | ⟨first, hphase, heq⟩ | ⟨hphase, -⟩
    · have hjournal : journal.record maxFrameSize s .readDone = journal := by
        simp only [Journal.record, hresult, hphase]
      rw [heq, hjournal]
      exact h.of_same rfl rfl (by simp [Phase.request, hphase]) rfl rfl rfl
        (fun _ ↦ by rw [hphase]; rfl) (by simp)
    · obtain ⟨hreceived, hprocessed⟩ := record_readDone journal hresult (.inl hphase)
      rw [heq]
      refine h.of_received hreceived hprocessed ?_ rfl rfl ⟨rfl, by simp, by simp [Phase.request]⟩
      rw [hphase]
      exact (List.perm_append_singleton frame s.queue.frames).symm
    · obtain ⟨hreceived, hprocessed⟩ := record_readDone journal hresult (.inr ⟨first, hphase⟩)
      rw [heq]
      refine h.of_received hreceived hprocessed ?_ rfl rfl
        ⟨by simp [hphase, Phase.isGreeting], by simp [hphase], by simp [hphase, Phase.request]⟩
      rw [List.append_assoc]
      exact (PriorityQueue.frames_push s.queue frame (resolvePriority frame)).append_left _
    · exact absurd hphase h.running

/-- The end of the stream. -/
theorem Accounted.endRead (h : Accounted s journal) (hreading : s.phase.isReading = true) :
    Accounted s.endRead journal := by
  rcases State.endRead_cases hreading with ⟨hphase, heq⟩ | ⟨first, hphase, heq⟩ | ⟨hphase, -⟩
  · have hnone : s.phase.request = [] := by
      rcases hphase with hphase | hphase <;> rw [hphase] <;> rfl
    rw [heq]
    exact h.of_same rfl rfl hnone.symm rfl rfl rfl
      (fun hgreeting ↦ absurd hgreeting (by simp [Phase.isGreeting])) (by simp)
  · rw [heq]
    exact h.of_same rfl rfl (by simp [Phase.request, hphase]) rfl rfl rfl
      (fun hgreeting ↦ absurd hgreeting (by simp [Phase.isGreeting])) (by simp)
  · exact absurd hphase h.running

/-- The phases after the top of the loop. -/
theorem phase_of_advances (h : s.Advances s') :
    s'.phase.isGreeting = false ∧ s'.phase ≠ .draining := by
  rcases h.phase with ⟨hphase, -⟩ | ⟨hphase, -⟩ | ⟨frame, hphase, -⟩ <;>
    simp [hphase, Phase.isGreeting]

/-- Answering the first frame. -/
theorem Accounted.greet (h : Accounted s journal) {frame : Frame}
    (hphase : s.phase = .greeting frame) (greeting : Greeting) (writeOk : Bool) :
    Accounted (s.greet frame greeting writeOk) journal := by
  have hnone := h.untouched (by rw [hphase]; rfl)
  have hsilent := List.append_eq_nil_iff.mp hnone.responses
  have hresponses : ∃ first, first.length ≤ 1 ∧
      (s.greet frame greeting writeOk).responses =
        first ++ journal.processed.flatMap repliesOf := by
    obtain ⟨first, hfirst, heq⟩ := s.responses_greet frame greeting writeOk hsilent.2
    refine ⟨first, hfirst, ?_⟩
    rw [heq, hnone.responses, hnone.processed, List.nil_append, List.flatMap_nil, List.append_nil]
  have hwaiting : (s.greet frame greeting writeOk).phase.request ++
      (s.greet frame greeting writeOk).queue.frames = [] ∧
      (s.greet frame greeting writeOk).phase.isGreeting = false ∧
      (s.greet frame greeting writeOk).phase ≠ .draining ∧
      (s.greet frame greeting writeOk).handed.length ≤ 1 := by
    rcases s.greet_cases frame greeting writeOk with
      ⟨reason, hend, -, -, -, -, hqueue, hhanded⟩ | hadvances
    · refine ⟨by rw [hend, hqueue, hnone.queue]; rfl, by rw [hend]; rfl, by simp [hend], ?_⟩
      rcases hhanded with hhanded | hhanded <;> rw [hhanded, hnone.handed] <;> simp
    · refine ⟨(request_of_advances hadvances).trans hnone.queue, (phase_of_advances hadvances).1,
        (phase_of_advances hadvances).2, ?_⟩
      rw [hadvances.handed, hnone.handed]
      exact le_rfl
  obtain ⟨hrest, hgreeting, hrunning, hhanded⟩ := hwaiting
  exact
    { once :=
        { received := by rw [hrest, hnone.processed, hnone.received]; rfl
          idle := fun _ ↦ (List.append_eq_nil_iff.mp hrest).2
          handed := ⟨_, hhanded, by rw [hnone.processed]; simp⟩
          answered := h.once.answered
          responses := hresponses }
      untouched := fun hphase ↦ absurd hphase (by simp [hgreeting])
      running := hrunning }

/-- Processing a request, unless a write fails. -/
theorem Accounted.process (h : Accounted s journal) {frame : Frame} {outcome : Outcome}
    {failAt : Option ℕ} {flushOk : Bool} (hphase : s.phase = .processing frame)
    (hanswered : AnsweredOnce (frame, outcome))
    (hgoing : (s.processFrame frame outcome failAt flushOk).phase ≠ .finished .writeFailed)
    (hwrites : frame.header.flags.noReply = true → frame.header.flags.batchFollows = false →
      outcome.isResponse = true →
        (writeAll s.pendingResponses failAt).2 = true ∨ flushOk = false) :
    Accounted (s.processFrame frame outcome failAt flushOk)
      { journal with processed := journal.processed ++ [(frame, outcome)] } := by
  have hadvances := s.advances_processFrame frame outcome failAt flushOk
  have hrest := request_of_advances hadvances
  have hresponses := (s.responses_processFrame frame outcome failAt flushOk
    hwrites).resolve_left hgoing
  refine
    { once := { received := ?_, idle := ?_, handed := ?_, answered := ?_, responses := ?_ }
      untouched := fun hgreeting ↦ absurd hgreeting (by simp [(phase_of_advances hadvances).1])
      running := (phase_of_advances hadvances).2 }
  · have hreceived := h.once.received
    rw [hphase] at hreceived
    rw [hrest, List.map_append, List.append_assoc]
    exact hreceived
  · intro hidle
    rcases hadvances.phase with ⟨hfailed, -⟩ | ⟨-, -, hempty⟩ | ⟨next, hnext, -⟩
    · exact absurd hfailed hgoing
    · exact hempty
    · exact absurd hidle (by simp [hnext, Phase.request])
  · obtain ⟨first, hfirst, hhanded⟩ := h.once.handed
    refine ⟨first, hfirst, ?_⟩
    calc (s.processFrame frame outcome failAt flushOk).handed
        = s.handed ++ [frame] := hadvances.handed
      _ = first ++ (journal.processed ++ [(frame, outcome)]).map Prod.fst := by
        rw [hhanded, List.map_append, List.append_assoc]
        rfl
  · intro entry hentry
    rcases List.mem_append.mp hentry with hentry | hentry
    · exact h.once.answered entry hentry
    · rw [List.mem_singleton.mp hentry]
      exact hanswered
  · obtain ⟨first, hfirst, hbefore⟩ := h.once.responses
    refine ⟨first, hfirst, ?_⟩
    calc (s.processFrame frame outcome failAt flushOk).responses
        = s.responses ++ repliesOf (frame, outcome) := hresponses
      _ = first ++ (journal.processed ++ [(frame, outcome)]).flatMap repliesOf := by
        rw [hbefore, List.flatMap_append, List.append_assoc, List.flatMap_singleton]

/-- One step of a server whose writes succeed. -/
theorem accounted_step {decode : Bytes → Except String Document} {limit concurrent : UInt32}
    {maxFrameSize : ℕ} {event : Event} (h : Accounted s journal)
    (hserves : Serves decode limit concurrent s event) (hevent : Uninterrupted event)
    (hstep : step maxFrameSize s event = some s') :
    Accounted s' (journal.record maxFrameSize s event) := by
  cases stepCase_of_step hstep with
  | arrive | close | take => exact h.of_same rfl rfl rfl rfl rfl rfl id h.running
  | readDone hreading hcomplete => exact accounted_readDone h hreading
  | readEof hpending hinbox hclosed => exact h.endRead hpending.1
  | timeout frame hphase hpending hinbox =>
    exact h.of_same rfl rfl (by rw [hphase]; rfl) rfl rfl rfl
      (fun hgreeting ↦ absurd hgreeting (by simp [Phase.isGreeting])) (by simp)
  | shutdown writeOk hphase hpending => exact absurd hevent (by simp [Uninterrupted])
  | noShutdown writeOk hphase hpending => exact h.of_same rfl rfl rfl rfl rfl rfl id h.running
  | drainTimeout hphase => exact absurd hphase h.running
  | greet frame hphase greeting writeOk => exact h.greet hphase greeting writeOk
  | process frame hphase outcome failAt flushOk =>
    obtain ⟨rfl, rfl⟩ := hevent
    obtain ⟨response, rfl⟩ := hserves frame hphase
    rw [record_process hphase]
    exact h.process hphase (answeredOnce_outcomeOf decode frame response)
      (s.phase_processFrame frame _) fun _ _ _ ↦ .inl rfl

end Steps

/-- Whatever the frames and the order in which they are processed, every request is processed once
and answered once, with its own id, and the responses are in the order of processing. -/
theorem repliesOnce_of_run {decode : Bytes → Except String Document}
    {maxFrameSize maxConcurrent : UInt32} {events : List Event} {t : State} {journal : Journal}
    (hmeet : StepsMeet (recordedStep maxFrameSize.toNat)
      (fun s event ↦ Serves decode maxFrameSize maxConcurrent s.1 event ∧ Uninterrupted event)
      recordedInit events)
    (hrun : run (recordedStep maxFrameSize.toNat) recordedInit events = some (t, journal)) :
    RepliesOnce t journal := by
  have hpreserved : ∀ (s : State × Journal) (event : Event) (next : State × Journal),
      Accounted s.1 s.2 →
      Serves decode maxFrameSize maxConcurrent s.1 event ∧ Uninterrupted event →
      recordedStep maxFrameSize.toNat s event = some next → Accounted next.1 next.2 := by
    intro s event next hs hcondition hstep
    obtain ⟨hstep, hjournal⟩ := recorded_eq_some.mp hstep
    rw [← hjournal]
    exact accounted_step hs hcondition.1 hcondition.2 hstep
  exact (invariant_of_run hpreserved accounted_init hmeet hrun).once

/-! ## A batch of two requests -/

/-- A decoder that reads what the format prescribes. -/
def decodeSlice (bytes : Bytes) : Except String Document :=
  match fromSlice bytes with
  | some document => .ok document
  | none => .error "malformed document"

def readEvents (frame : Frame) : List Event :=
  [.arrive (writeFrame frame)] ++ List.replicate (writeFrame frame).length .take ++ [.readDone]

/-- A frame arrives whole, and nothing else has arrived when it is processed. -/
def requestEvents (frame : Frame) (response : OperationResponse) : List Event :=
  readEvents frame ++ [.timeout, .process (outcomeOf decodeSlice frame response) none true]

/-- A handshake arrives and is accepted. -/
def greetEvents (maxFrameSize maxConcurrent : UInt32) : List Event :=
  readEvents Segmentation.handshakeFrame ++
    [.greet (greetingOf decodeSlice maxFrameSize maxConcurrent Segmentation.handshakeFrame) true]

/-- A request of a batch, for the collections of a database. -/
def batchFrame (reqId : ℕ) (batchFollows : Bool) (priority : Priority) : Frame :=
  let frame := Segmentation.listCollectionsFrame reqId
  { frame with header := { frame.header with
      flags := { frame.header.flags with batchFollows := batchFollows, priority := priority } } }

/-- The response of a database without collections, when all its writes succeed. -/
def processEvent (frame : Frame) : Event :=
  .process (outcomeOf decodeSlice frame (.collections [])) none true

/-- After the handshake both requests of a batch arrive; the second one is queued while the first
one is processed. -/
def wholeBatch : List Event :=
  greetEvents 1024 16 ++ readEvents (batchFrame 2 true .normal) ++
    readEvents (batchFrame 3 false .normal) ++
    [.timeout, processEvent (batchFrame 2 true .normal), .timeout,
      processEvent (batchFrame 3 false .normal)]

theorem run_wholeBatch :
    (run (recordedStep (1024 : UInt32).toNat) recordedInit wholeBatch).isSome = true ∧
      StepsMeet (recordedStep (1024 : UInt32).toNat) (fun s event ↦
        ServesWith (fun _ ↦ .collections []) decodeSlice 1024 16 s.1 event ∧ Uninterrupted event)
        recordedInit wholeBatch := by
  decide +kernel

theorem serves_wholeBatch :
    StepsMeet (recordedStep (1024 : UInt32).toNat)
      (fun s event ↦ Serves decodeSlice 1024 16 s.1 event ∧ Uninterrupted event)
      recordedInit wholeBatch :=
  run_wholeBatch.2.imp fun _ _ h ↦ ⟨h.1.serves, h.2⟩

/-- Both requests of a batch are answered once. -/
theorem repliesOnce_wholeBatch :
    ∃ t journal, run (recordedStep (1024 : UInt32).toNat) recordedInit wholeBatch =
      some (t, journal) ∧ RepliesOnce t journal := by
  obtain ⟨⟨t, journal⟩, hrun⟩ := Option.isSome_iff_exists.mp run_wholeBatch.1
  exact ⟨t, journal, hrun, repliesOnce_of_run serves_wholeBatch hrun⟩

end MongoCore.Transport
