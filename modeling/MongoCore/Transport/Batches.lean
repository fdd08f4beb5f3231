import MongoCore.Transport.Replies

/-!
# The end of a batch

A client announces with a flag of a frame that more requests follow.  The response to such a frame
is buffered, and the response to a frame without the flag is written with all that is buffered.
The client marks the end of a batch in the order in which it sends, but the frames are processed in
the order of their priorities.

Responses stay in the buffer while the loop waits for the next frame if the frame that was processed
last is not one that ends a batch.  A frame without a reply whose envelope is refused does not end
one either.
-/

namespace MongoCore.Transport

open MongoCore.Data MongoCore.Library.TransitionSystem

/-- The client has sent the last frame of its batch. -/
def BatchClosed (journal : Journal) : Prop :=
  ∀ frame ∈ journal.received.getLast?, frame.header.flags.batchFollows = false

instance : DecidablePred BatchClosed := fun _ ↦ inferInstanceAs (Decidable (∀ _ ∈ _, _))

/-- A frame after which the buffered responses are written: it announces no other, and if it wants
no reply its envelope is accepted. -/
def EndsBatch (decode : Bytes → Except String Document) (frame : Frame) : Prop :=
  frame.header.flags.batchFollows = false ∧ (frame.header.flags.noReply = true →
    (parseEnvelope decode frame.envelope frame.header.flags.opcode).isOk = true)

instance (decode : Bytes → Except String Document) : DecidablePred (EndsBatch decode) :=
  fun _ ↦ inferInstanceAs (Decidable (_ ∧ _))

/-- What is processed last, after the batch was closed, ends a batch, or has no reply while nothing
is buffered; and what is buffered is not lost in a write after a frame without a reply. -/
def BatchesEnd (decode : Bytes → Except String Document) (s : State × Journal) : Event → Prop
  | .process _ failAt flushOk => ∀ frame, s.1.phase = .processing frame →
      (s.1.queue.frames = [] → BatchClosed s.2 → EndsBatch decode frame ∨
        (s.1.pendingResponses = [] ∧ frame.header.flags.noReply = true)) ∧
      (frame.header.flags.noReply = true → EndsBatch decode frame →
        (writeAll s.1.pendingResponses failAt).2 = true ∨ flushOk = false)
  | _ => True

instance (decode : Bytes → Except String Document) (s : State × Journal) (event : Event) :
    Decidable (BatchesEnd decode s event) := by
  induction event using Event.casesOn <;> unfold BatchesEnd <;> infer_instance

/-- No response is stranded: when the loop waits for a frame after the batch was closed, nothing is
buffered, and what is written are the replies to all frames processed, which are all that were
received. -/
def NothingStranded (t : State) (journal : Journal) : Prop :=
  t.phase = .waiting → BatchClosed journal →
    t.pendingResponses = [] ∧
      (journal.processed.map Prod.fst).Perm journal.received ∧
      ∃ first, first.length ≤ 1 ∧ t.written = first ++ journal.processed.flatMap repliesOf

/-! ## The buffer after a request -/

/-- A frame that ends a batch leaves nothing buffered. -/
theorem State.pendingResponses_processFrame (s : State) {decode : Bytes → Except String Document}
    {frame : Frame} (response : OperationResponse) (failAt : Option ℕ) (flushOk : Bool)
    (h : EndsBatch decode frame ∨
      (s.pendingResponses = [] ∧ frame.header.flags.noReply = true)) :
    (s.processFrame frame (outcomeOf decode frame response) failAt flushOk).pendingResponses =
      [] := by
  have hflush : ∀ s : State, (s.flushPending failAt flushOk).pendingResponses = [] := by
    intro s
    unfold flushPending
    dsimp only
    split_ifs with hempty
    · rw [State.pendingResponses_next]
      exact List.isEmpty_iff.mp hempty
    · exact State.pendingResponses_next _
    · rfl
  unfold processFrame
  by_cases hreply : frame.header.flags.noReply = true
  · simp only [if_pos hreply]
    unfold outcomeOf
    cases hparse : parseEnvelope decode frame.envelope frame.header.flags.opcode with
    | error error =>
      have hsilent := h.resolve_left fun hends ↦ by
        have haccepted := hends.2 hreply
        rw [hparse] at haccepted
        exact absurd haccepted (by simp [Except.isOk, Except.toBool])
      dsimp only
      rw [State.pendingResponses_next, hsilent.1]
    | ok request =>
      dsimp only
      split_ifs with hbatch
      · have hsilent := h.resolve_left fun hends ↦ absurd hends.1 (by simp [hbatch])
        rw [State.pendingResponses_next, hsilent.1]
      · exact hflush _
  · have hends := h.resolve_right fun hsilent ↦ hreply hsilent.2
    simp only [if_neg hreply, answer, reply?_outcomeOf, hends.1, Bool.false_eq_true, if_false]
    unfold flushBatch
    dsimp only
    split_ifs
    · exact State.pendingResponses_next _
    · rfl

/-! ## Runs -/

/-- The loop has ended, or reads only to discard. -/
def Phase.isOver : Phase → Bool
  | .draining | .finished _ => true
  | _ => false

/-- The loop does not begin again. -/
theorem isOver_step {maxFrameSize : ℕ} {s s' : State} {event : Event}
    (hover : s.phase.isOver = true) (hstep : step maxFrameSize s event = some s') :
    s'.phase.isOver = true := by
  cases stepCase_of_step hstep with
  | readDone hreading hcomplete =>
    cases readResult maxFrameSize s.held with
    | ok frame =>
      rcases State.returnRead_ok hreading frame with
        ⟨hphase, -⟩ | ⟨hphase, -⟩ | ⟨first, hphase, -⟩ | ⟨-, heq⟩
      · exact absurd hover (by simp [hphase, Phase.isOver])
      · exact absurd hover (by simp [hphase, Phase.isOver])
      · exact absurd hover (by simp [hphase, Phase.isOver])
      · rw [heq]
        exact hover
    | error error =>
      rcases State.returnRead_error hreading error with ⟨reason, heq, -⟩ | ⟨first, hphase, -⟩
      · rw [heq]
        rfl
      · exact absurd hover (by simp [hphase, Phase.isOver])
  | readEof hpending hinbox hclosed =>
    rcases State.endRead_cases hpending.1 with ⟨-, heq⟩ | ⟨first, hphase, -⟩ | ⟨-, heq⟩
    · rw [heq]
      rfl
    · exact absurd hover (by simp [hphase, Phase.isOver])
    · rw [heq]
      rfl
  | timeout frame hphase => exact absurd hover (by simp [hphase, Phase.isOver])
  | greet frame hphase => exact absurd hover (by simp [hphase, Phase.isOver])
  | process frame hphase => exact absurd hover (by simp [hphase, Phase.isOver])
  | arrive | close | take | shutdown | noShutdown | drainTimeout => first | exact hover | rfl

/-- The invariant: the loop has ended, or every frame is accounted for and nothing is stranded. -/
structure Flushed (t : State) (journal : Journal) : Prop where
  accounted : Accounted t journal
  flushed : t.phase = .waiting → BatchClosed journal → t.pendingResponses = []

section Steps

variable {s s' : State} {journal : Journal} {decode : Bytes → Except String Document}

/-- A read does not go back to the top of the loop. -/
theorem phase_returnRead (hreading : s.phase.isReading = true) (hgoing : s.phase ≠ .draining)
    (result : Except FrameError Frame) : (s.returnRead result).phase ≠ .waiting := by
  cases result with
  | ok frame =>
    rcases State.returnRead_ok hreading frame with
      ⟨-, heq⟩ | ⟨-, heq⟩ | ⟨first, hphase, heq⟩ | ⟨hphase, -⟩
    · simp [heq]
    · simp [heq]
    · simp [heq, hphase]
    · exact absurd hphase hgoing
  | error error =>
    rcases State.returnRead_error hreading error with ⟨reason, heq, -⟩ | ⟨first, -, heq⟩ <;>
      simp [heq]

theorem phase_endRead (hreading : s.phase.isReading = true) : s.endRead.phase ≠ .waiting := by
  rcases State.endRead_cases hreading with ⟨-, heq⟩ | ⟨first, -, heq⟩ | ⟨-, heq⟩ <;> simp [heq]

/-- One step of a server. -/
theorem flushed_step {limit concurrent : UInt32} {maxFrameSize : ℕ} {event : Event}
    (h : Flushed s journal) (hserves : Serves decode limit concurrent s event)
    (hends : BatchesEnd decode (s, journal) event)
    (hstep : step maxFrameSize s event = some s') :
    s'.phase.isOver = true ∨ Flushed s' (journal.record maxFrameSize s event) := by
  have hquiet : Uninterrupted event →
      (s'.phase = .waiting → s.phase = .waiting ∧ s'.pendingResponses = s.pendingResponses ∧
        (journal.record maxFrameSize s event).received = journal.received) →
      Flushed s' (journal.record maxFrameSize s event) := by
    intro hevent hsame
    refine ⟨accounted_step h.accounted hserves hevent hstep, fun hphase hclosed ↦ ?_⟩
    obtain ⟨hbefore, hpending, hreceived⟩ := hsame hphase
    rw [hpending]
    exact h.flushed hbefore (by rwa [BatchClosed, hreceived] at hclosed)
  cases stepCase_of_step hstep with
  | arrive | close | take => exact .inr (hquiet trivial fun hphase ↦ ⟨hphase, rfl, rfl⟩)
  | readDone hreading hcomplete =>
    exact .inr (hquiet trivial fun hphase ↦
      absurd hphase (phase_returnRead hreading h.accounted.running _))
  | readEof hpending hinbox hclosed =>
    exact .inr (hquiet trivial fun hphase ↦ absurd hphase (phase_endRead hpending.1))
  | timeout frame hphase hpending hinbox =>
    exact .inr (hquiet trivial fun hphase ↦ absurd hphase (by simp))
  | shutdown writeOk hphase hpending => exact .inl rfl
  | noShutdown writeOk hphase hpending =>
    exact .inr (hquiet rfl fun hphase ↦ ⟨hphase, rfl, rfl⟩)
  | drainTimeout hphase => exact .inl rfl
  | greet frame hphase greeting writeOk =>
    have hnone := (h.accounted.untouched (by rw [hphase]; rfl)).responses
    refine .inr ⟨h.accounted.greet hphase greeting writeOk, fun _ _ ↦ ?_⟩
    rw [State.pendingResponses_greet]
    exact (List.append_eq_nil_iff.mp hnone).2
  | process frame hphase outcome failAt flushOk =>
    obtain ⟨response, rfl⟩ := hserves frame hphase
    obtain ⟨hlast, hwrites⟩ := hends frame hphase
    by_cases hgoing : (s.processFrame frame (outcomeOf decode frame response) failAt
        flushOk).phase = .finished .writeFailed
    · left
      rw [hgoing]
      rfl
    · right
      rw [record_process hphase]
      refine ⟨h.accounted.process hphase (answeredOnce_outcomeOf decode frame response) hgoing
        fun hsilent hbatch hresponse ↦ hwrites hsilent ⟨hbatch, fun _ ↦ ?_⟩, fun hwaiting hclosed ↦ ?_⟩
      · unfold outcomeOf at hresponse
        cases hparse : parseEnvelope decode frame.envelope frame.header.flags.opcode with
        | error error => simp [hparse, Outcome.isResponse] at hresponse
        | ok request => rfl
      · apply s.pendingResponses_processFrame
        have hempty : s.queue.frames = [] := by
          have hadvances := s.advances_processFrame frame (outcomeOf decode frame response) failAt
            flushOk
          rcases hadvances.phase with ⟨hfailed, -⟩ | ⟨-, hempty, -⟩ | ⟨next, hnext, -⟩
          · exact absurd hfailed hgoing
          · exact hempty
          · exact absurd hwaiting (by simp [hnext])
        exact hlast hempty hclosed

end Steps

/-- In a run in which every batch ends with a frame that ends it, no response is stranded. -/
theorem nothingStranded_of_run {decode : Bytes → Except String Document}
    {maxFrameSize maxConcurrent : UInt32} {events : List Event} {t : State} {journal : Journal}
    (hmeet : StepsMeet (recordedStep maxFrameSize.toNat)
      (fun s event ↦ Serves decode maxFrameSize maxConcurrent s.1 event ∧
        BatchesEnd decode s event) recordedInit events)
    (hrun : run (recordedStep maxFrameSize.toNat) recordedInit events = some (t, journal)) :
    NothingStranded t journal := by
  have hpreserved : ∀ (s : State × Journal) (event : Event) (next : State × Journal),
      (s.1.phase.isOver = true ∨ Flushed s.1 s.2) →
      Serves decode maxFrameSize maxConcurrent s.1 event ∧ BatchesEnd decode s event →
      recordedStep maxFrameSize.toNat s event = some next →
      (next.1.phase.isOver = true ∨ Flushed next.1 next.2) := by
    intro s event next hs hcondition hstep
    obtain ⟨hstep, hjournal⟩ := recorded_eq_some.mp hstep
    rcases hs with hover | hs
    · exact .inl (isOver_step hover hstep)
    · rw [← hjournal]
      exact flushed_step hs hcondition.1 hcondition.2 hstep
  have hinit : Flushed State.init {} := ⟨accounted_init, fun hphase ↦ absurd hphase (by decide)⟩
  intro hphase hclosed
  rcases invariant_of_run hpreserved (.inr hinit) hmeet hrun with hover | hflushed
  · exact absurd hover (by simp [hphase, Phase.isOver])
  · have hpending := hflushed.flushed hphase hclosed
    have hempty := hflushed.accounted.once.idle (by rw [hphase]; rfl)
    refine ⟨hpending, ?_, ?_⟩
    · have hreceived := hflushed.accounted.once.received
      rw [hphase, hempty] at hreceived
      simpa [Phase.request] using hreceived
    · obtain ⟨first, hfirst, hresponses⟩ := hflushed.accounted.once.responses
      refine ⟨first, hfirst, ?_⟩
      rwa [State.responses, hpending, List.append_nil] at hresponses

theorem batchesEnd_wholeBatch :
    StepsMeet (recordedStep (1024 : UInt32).toNat) (BatchesEnd decodeSlice) recordedInit
      wholeBatch := by
  decide +kernel

/-- The batch ends with the frame that is processed last. -/
theorem nothingStranded_wholeBatch :
    ∃ t journal, run (recordedStep (1024 : UInt32).toNat) recordedInit wholeBatch =
      some (t, journal) ∧ NothingStranded t journal := by
  obtain ⟨⟨t, journal⟩, hrun⟩ := Option.isSome_iff_exists.mp run_wholeBatch.1
  have hserves := serves_wholeBatch.imp fun _ _ h ↦ h.1
  exact ⟨t, journal, hrun, nothingStranded_of_run (hserves.and batchesEnd_wholeBatch) hrun⟩

/-! ## A batch whose last frame overtakes -/

/-- Three requests arrive together; the last, which ends the batch, has a high priority. -/
def overtakenBatch : List Event :=
  greetEvents 1024 16 ++ readEvents (batchFrame 2 true .normal) ++
    readEvents (batchFrame 3 true .normal) ++ readEvents (batchFrame 4 false .high) ++
    [.timeout, processEvent (batchFrame 2 true .normal), .timeout,
      processEvent (batchFrame 4 false .high), .timeout, processEvent (batchFrame 3 true .normal)]

/-- What a client sees of a connection. -/
structure BatchView where
  phase : Phase
  received : List Frame
  pending : List ℕ
  deriving DecidableEq

/-- The phase, the frames received and the requests whose replies are buffered. -/
def batchView (s : State × Journal) : BatchView where
  phase := s.1.phase
  received := s.2.received
  pending := s.1.pendingResponses.map fun frame ↦ frame.header.reqId

theorem run_overtakenBatch :
    (run (recordedStep (1024 : UInt32).toNat) recordedInit overtakenBatch).map batchView =
        some ⟨.waiting, [batchFrame 2 true .normal, batchFrame 3 true .normal,
          batchFrame 4 false .high], [3]⟩ ∧
      StepsMeet (recordedStep (1024 : UInt32).toNat) (fun s event ↦
        ServesWith (fun _ ↦ .collections []) decodeSlice 1024 16 s.1 event ∧ Uninterrupted event)
        recordedInit overtakenBatch := by
  decide +kernel

/-- The frame that ends the batch is answered before one that does not; the reply to the latter
stays in the buffer. -/
theorem overtakenBatch_strands :
    ∃ t journal, run (recordedStep (1024 : UInt32).toNat) recordedInit overtakenBatch =
        some (t, journal) ∧
      StepsMeet (recordedStep (1024 : UInt32).toNat)
        (fun s event ↦ Serves decodeSlice 1024 16 s.1 event ∧ Uninterrupted event)
        recordedInit overtakenBatch ∧
      ¬ NothingStranded t journal := by
  obtain ⟨⟨t, journal⟩, hrun, hview⟩ := Option.map_eq_some_iff.mp run_overtakenBatch.1
  obtain ⟨hphase, hreceived, hpending⟩ := BatchView.mk.inj hview
  refine ⟨t, journal, hrun, run_overtakenBatch.2.imp fun _ _ h ↦ ⟨h.1.serves, h.2⟩,
    fun hstranded ↦ ?_⟩
  have hclosed : BatchClosed journal := by
    intro frame hlast
    have hreceived : journal.received = _ := hreceived
    rw [hreceived] at hlast
    exact Option.some.inj hlast ▸ rfl
  have hempty := (hstranded hphase hclosed).1
  rw [hempty] at hpending
  exact absurd hpending (by decide)

end MongoCore.Transport
