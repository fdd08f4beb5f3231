import MongoCore.Transport.Batches

/-!
# What the server writes

Every frame that a connection writes, or keeps to write it, is the answer to a frame it has read,
or the shutdown notice.  The module states this for answers with an arbitrary property, so that a
property of the responses of the operations becomes one of all that is written.
-/

namespace MongoCore.Transport

open MongoCore.Data MongoCore.Library.TransitionSystem

/-- The response to the first frame. -/
def greetingAnswer (decode : Bytes → Except String Document) (maxFrameSize maxConcurrent : UInt32)
    (frame : Frame) : OperationResponse :=
  if frame.header.flags.opcode ≠ .handshake then .error 1 "first frame must be Handshake"
  else
    match parseEnvelope decode frame.envelope .handshake with
    | .error error => .error 1 s!"invalid handshake: {error.display}"
    | .ok _ => .handshake maxFrameSize maxConcurrent

/-- The answers of the server have a property, and the shutdown notice is written only under a
condition. -/
def Answers (good : OperationResponse → Prop) (notice : Prop)
    (decode : Bytes → Except String Document) (maxFrameSize maxConcurrent : UInt32) (s : State) :
    Event → Prop
  | .shutdownChanged value writeOk => value = true → writeOk = true → notice
  | .greet greeting _ => ∀ frame, s.phase = .greeting frame →
      greeting = greetingOf decode maxFrameSize maxConcurrent frame ∧
        good (greetingAnswer decode maxFrameSize maxConcurrent frame)
  | .process outcome _ _ => ∀ frame, s.phase = .processing frame →
      ∃ response, outcome = outcomeOf decode frame response ∧
        (frame.header.flags.noReply = false → good (answerTo decode frame response))
  | _ => True

/-- The answers of a server whose responses depend on the request alone. -/
def AnswersWith (respond : Frame → OperationResponse) (good : OperationResponse → Prop)
    (notice : Prop) (decode : Bytes → Except String Document)
    (maxFrameSize maxConcurrent : UInt32) (s : State) : Event → Prop
  | .shutdownChanged value writeOk => value = true → writeOk = true → notice
  | .greet greeting _ => ∀ frame, s.phase = .greeting frame →
      greeting = greetingOf decode maxFrameSize maxConcurrent frame ∧
        good (greetingAnswer decode maxFrameSize maxConcurrent frame)
  | .process outcome _ _ => ∀ frame, s.phase = .processing frame →
      outcome = outcomeOf decode frame (respond frame) ∧
        (frame.header.flags.noReply = false → good (answerTo decode frame (respond frame)))
  | _ => True

instance (respond : Frame → OperationResponse) (good : OperationResponse → Prop)
    [DecidablePred good] (notice : Prop) [Decidable notice]
    (decode : Bytes → Except String Document) (maxFrameSize maxConcurrent : UInt32) (s : State)
    (event : Event) :
    Decidable (AnswersWith respond good notice decode maxFrameSize maxConcurrent s event) := by
  induction event using Event.casesOn <;> unfold AnswersWith <;> infer_instance

theorem AnswersWith.answers {respond : Frame → OperationResponse}
    {good : OperationResponse → Prop} {notice : Prop} {decode : Bytes → Except String Document}
    {maxFrameSize maxConcurrent : UInt32} {s : State} {event : Event}
    (h : AnswersWith respond good notice decode maxFrameSize maxConcurrent s event) :
    Answers good notice decode maxFrameSize maxConcurrent s event := by
  cases event with
  | process outcome failAt flushOk => exact fun frame hphase ↦ ⟨respond frame, h frame hphase⟩
  | _ => exact h

/-- A frame of the server: an answer with the property, or the shutdown notice. -/
def ServerFrame (good : OperationResponse → Prop) (notice : Prop) (frame : Frame) : Prop :=
  (frame = shutdownFrame ∧ notice) ∨
    ∃ opcode reqId response, reqId < 2 ^ 32 ∧ good response ∧
      frame = serverFrame opcode reqId (encodeResponse response)

/-! ## The frames of a step -/

theorem mem_responses_greet_refused {s : State} {first : Frame} {encoded : Bytes × Bytes}
    {writeOk : Bool} {frame : Frame}
    (h : frame ∈ (s.greet first (.refused (some encoded)) writeOk).responses) :
    frame ∈ s.responses ∨ frame = serverFrame .error first.header.reqId encoded := by
  rcases List.mem_append.mp h with hwritten | hpending
  · rcases List.mem_append.mp hwritten with hbefore | hreply
    · exact .inl (List.mem_append_left _ hbefore)
    · cases writeOk with
      | true => exact .inr (List.mem_singleton.mp hreply)
      | false => exact absurd hreply List.not_mem_nil
  · exact .inl (List.mem_append_right _ hpending)

theorem mem_responses_greet_accepted {s : State} {first : Frame} {encoded : Bytes × Bytes}
    {writeOk : Bool} {frame : Frame}
    (h : frame ∈ (s.greet first (.accepted (some encoded)) writeOk).responses) :
    frame ∈ s.responses ∨ frame = serverFrame .handshake first.header.reqId encoded := by
  by_cases hopcode : first.header.flags.opcode = .handshake
  · cases writeOk with
    | true =>
      simp only [State.greet, hopcode, ne_eq, not_true_eq_false, if_true, if_false,
        State.responses_next] at h
      simp only [State.responses, List.mem_append, List.mem_singleton] at h ⊢
      tauto
    | false =>
      left
      simpa [State.greet, hopcode, State.responses] using h
  · left
    simpa [State.greet, hopcode, State.responses] using h

/-- The first frame is answered with its own id. -/
theorem mem_responses_greet {s : State} {decode : Bytes → Except String Document}
    {maxFrameSize maxConcurrent : UInt32} {first : Frame} {writeOk : Bool} {frame : Frame}
    (h : frame ∈ (s.greet first (greetingOf decode maxFrameSize maxConcurrent first)
      writeOk).responses) :
    frame ∈ s.responses ∨ ∃ opcode, frame = serverFrame opcode first.header.reqId
      (encodeResponse (greetingAnswer decode maxFrameSize maxConcurrent first)) := by
  unfold greetingOf at h
  unfold greetingAnswer
  by_cases hopcode : first.header.flags.opcode = .handshake
  · rw [if_neg (not_not.mpr hopcode)] at h ⊢
    cases hparse : parseEnvelope decode first.envelope .handshake with
    | error error =>
      rw [hparse] at h
      exact (mem_responses_greet_refused h).imp_right fun hframe ↦ ⟨.error, hframe⟩
    | ok request =>
      rw [hparse] at h
      exact (mem_responses_greet_accepted h).imp_right fun hframe ↦ ⟨.handshake, hframe⟩
  · rw [if_pos hopcode] at h ⊢
    exact (mem_responses_greet_refused h).imp_right fun hframe ↦ ⟨.error, hframe⟩

/-- What is written of some frames are some of them. -/
theorem writeAll_subset (frames : List Frame) (failAt : Option ℕ) :
    (writeAll frames failAt).1 ⊆ frames := by
  unfold writeAll
  split
  · split_ifs
    · exact List.take_subset _ _
    · exact List.Subset.refl _
  · exact List.Subset.refl _

theorem mem_responses_flushPending {s : State} {failAt : Option ℕ} {flushOk : Bool}
    {frame : Frame} (h : frame ∈ (s.flushPending failAt flushOk).responses) :
    frame ∈ s.responses := by
  unfold State.flushPending at h
  dsimp only at h
  have hwritten : ∀ frame, frame ∈ s.written ++ (writeAll s.pendingResponses failAt).1 →
      frame ∈ s.responses := by
    intro frame hframe
    rcases List.mem_append.mp hframe with hbefore | hpending
    · exact List.mem_append_left _ hbefore
    · exact List.mem_append_right _ (writeAll_subset _ _ hpending)
  split_ifs at h
  · rwa [State.responses_next] at h
  · rw [State.responses_next, State.responses, List.append_nil] at h
    exact hwritten frame h
  · rw [State.responses, List.append_nil] at h
    exact hwritten frame h

theorem mem_responses_flushBatch {s : State} {last : Frame} {failAt : Option ℕ} {flushOk : Bool}
    {frame : Frame} (h : frame ∈ (s.flushBatch last failAt flushOk).responses) :
    frame ∈ s.responses ∨ frame = last := by
  unfold State.flushBatch at h
  dsimp only at h
  have hwritten : ∀ frame,
      frame ∈ s.written ++ (writeAll (s.pendingResponses ++ [last]) failAt).1 →
      frame ∈ s.responses ∨ frame = last := by
    intro frame hframe
    rcases List.mem_append.mp hframe with hbefore | hpending
    · exact .inl (List.mem_append_left _ hbefore)
    · rcases List.mem_append.mp (writeAll_subset _ _ hpending) with hbuffered | hlast
      · exact .inl (List.mem_append_right _ hbuffered)
      · exact .inr (List.mem_singleton.mp hlast)
  split_ifs at h
  · rw [State.responses_next, State.responses, List.append_nil] at h
    exact hwritten frame h
  · rw [State.responses, List.append_nil] at h
    exact hwritten frame h

/-- A request adds its own response at most. -/
theorem mem_responses_processFrame {s : State} {request : Frame} {outcome : Outcome}
    {failAt : Option ℕ} {flushOk : Bool} {frame : Frame}
    (h : frame ∈ (s.processFrame request outcome failAt flushOk).responses) :
    frame ∈ s.responses ∨ frame ∈ repliesOf (request, outcome) := by
  unfold State.processFrame at h
  unfold repliesOf
  by_cases hreply : request.header.flags.noReply = true
  · simp only [if_pos hreply] at h
    left
    cases outcome with
    | invalidEnvelope error => rwa [State.responses_next] at h
    | response isError encoded fallback =>
      by_cases hbatch : request.header.flags.batchFollows = true
      · simp only [if_pos hbatch] at h
        rwa [State.responses_next] at h
      · simp only [if_neg hbatch] at h
        have hbefore := mem_responses_flushPending h
        exact hbefore
  · simp only [if_neg hreply] at h ⊢
    unfold State.answer at h
    cases hoption : outcome.reply? request with
    | none =>
      rw [hoption] at h
      left
      rwa [State.responses_next] at h
    | some reply =>
      simp only [hoption] at h
      rw [Option.toList_some, List.mem_singleton]
      split_ifs at h with hbatch
      · rw [State.responses_next] at h
        simp only [State.responses, List.mem_append, List.mem_singleton] at h ⊢
        tauto
      · have hflushed := mem_responses_flushBatch h
        exact hflushed

/-! ## Runs -/

/-- The frames that were read and wait for their answer. -/
def State.unanswered (s : State) : List Frame := s.phase.inProcess ++ s.queue.frames

theorem unanswered_of_advances {s s' : State} (h : s.Advances s') :
    s'.unanswered = s.queue.frames := by
  rcases h.phase with ⟨hphase, hqueue⟩ | ⟨hphase, hqueue, hempty⟩ | ⟨frame, hphase, hqueue⟩
  · rw [State.unanswered, hphase, hqueue]
    rfl
  · rw [State.unanswered, hphase, hqueue, hempty]
    rfl
  · rw [State.unanswered, hphase, hqueue]
    rfl

/-- The invariant: everything written or buffered is a frame of the server, and the request ids of
the frames that wait are 32-bit integers. -/
structure Answered (good : OperationResponse → Prop) (notice : Prop) (t : State) : Prop where
  responses : ∀ frame ∈ t.responses, ServerFrame good notice frame
  reqIds : ∀ frame ∈ t.unanswered, frame.header.reqId < 2 ^ 32

section Steps

variable {good : OperationResponse → Prop} {notice : Prop} {s s' : State}

theorem answered_init : Answered good notice State.init where
  responses _ hframe := absurd hframe List.not_mem_nil
  reqIds _ hframe := absurd hframe List.not_mem_nil

/-- A step that answers nothing and reads nothing. -/
theorem Answered.of_subset (h : Answered good notice s) (hresponses : s'.responses = s.responses)
    (hframes : s'.unanswered ⊆ s.unanswered) : Answered good notice s' where
  responses := by
    rw [hresponses]
    exact h.responses
  reqIds frame hframe := h.reqIds frame (hframes hframe)

/-- The end of a read. -/
theorem Answered.returnRead {maxFrameSize : ℕ} (h : Answered good notice s)
    (hreading : s.phase.isReading = true) :
    Answered good notice (s.returnRead (readResult maxFrameSize s.held)) := by
  cases hresult : readResult maxFrameSize s.held with
  | error error =>
    rcases State.returnRead_error hreading error with ⟨reason, heq, hnone⟩ | ⟨first, hphase, heq⟩
    · rw [heq]
      refine h.of_subset rfl ?_
      rw [State.unanswered, State.unanswered, hnone]
      exact List.Subset.refl _
    · rw [heq]
      refine h.of_subset rfl ?_
      rw [State.unanswered, State.unanswered, hphase]
      exact List.Subset.refl _
  | ok frame =>
    have hreqId := reqId_lt_of_readResult hresult
    have hread : ∀ s' : State, s'.responses = s.responses →
        (∀ other ∈ s'.unanswered, other = frame ∨ other ∈ s.unanswered) →
        Answered good notice s' := by
      intro s' hresponses hframes
      refine ⟨by rw [hresponses]; exact h.responses, fun other hother ↦ ?_⟩
      rcases hframes other hother with rfl | hother
      · exact hreqId
      · exact h.reqIds other hother
    rcases State.returnRead_ok hreading frame with
      ⟨hphase, heq⟩ | ⟨hphase, heq⟩ | ⟨first, hphase, heq⟩ | ⟨hphase, heq⟩
    · rw [heq]
      refine hread _ rfl ?_
      simp [State.unanswered, Phase.inProcess, hphase]
    · rw [heq]
      refine hread _ rfl ?_
      simp [State.unanswered, Phase.inProcess, hphase]
    · rw [heq]
      refine hread _ rfl ?_
      intro other hother
      have hpush := (PriorityQueue.frames_push s.queue frame (resolvePriority frame)).subset
      rcases List.mem_append.mp hother with hfirst | hqueued
      · exact .inr (List.mem_append_left _ hfirst)
      · rcases List.mem_append.mp (hpush hqueued) with hqueued | hnew
        · exact .inr (List.mem_append_right _ hqueued)
        · exact .inl (List.mem_singleton.mp hnew)
    · rw [heq]
      refine hread _ rfl ?_
      intro other hother
      exact .inr hother

/-- The end of the stream. -/
theorem Answered.endRead (h : Answered good notice s) (hreading : s.phase.isReading = true) :
    Answered good notice s.endRead := by
  rcases State.endRead_cases hreading with ⟨hphase, heq⟩ | ⟨first, hphase, heq⟩ | ⟨hphase, heq⟩
  · rw [heq]
    refine h.of_subset rfl ?_
    exact List.subset_append_right _ _
  · rw [heq]
    refine h.of_subset rfl ?_
    rw [State.unanswered, State.unanswered, hphase]
    exact List.Subset.refl _
  · rw [heq]
    refine h.of_subset rfl ?_
    exact List.subset_append_right _ _

/-- One step of a server whose answers have the property. -/
theorem answered_step {decode : Bytes → Except String Document} {limit concurrent : UInt32}
    {maxFrameSize : ℕ} {event : Event} (h : Answered good notice s)
    (hanswers : Answers good notice decode limit concurrent s event)
    (hstep : step maxFrameSize s event = some s') : Answered good notice s' := by
  cases stepCase_of_step hstep with
  | arrive | close | take | noShutdown => exact h.of_subset rfl (List.Subset.refl _)
  | readDone hreading hcomplete => exact h.returnRead hreading
  | readEof hpending hinbox hclosed => exact h.endRead hpending.1
  | timeout frame hphase hpending hinbox =>
    refine h.of_subset rfl ?_
    rw [State.unanswered, State.unanswered, hphase]
    exact List.Subset.refl _
  | shutdown writeOk hphase hpending =>
    refine ⟨fun frame hframe ↦ ?_, fun frame hframe ↦ h.reqIds frame ?_⟩
    · cases writeOk with
      | false => exact h.responses frame (by simpa [State.responses] using hframe)
      | true =>
        have hnotice : notice := hanswers rfl rfl
        simp only [State.responses, if_true, List.mem_append, List.mem_singleton] at hframe
        rcases hframe with (hwritten | rfl) | hpending
        · exact h.responses frame (List.mem_append_left _ hwritten)
        · exact .inl ⟨rfl, hnotice⟩
        · exact h.responses frame (List.mem_append_right _ hpending)
    · exact List.mem_append_right _ hframe
  | drainTimeout hphase =>
    refine h.of_subset rfl ?_
    exact List.subset_append_right _ _
  | greet first hphase greeting writeOk =>
    obtain ⟨rfl, hgood⟩ := hanswers first hphase
    have hmember : first ∈ s.unanswered := by
      rw [State.unanswered, hphase]
      exact List.mem_cons_self
    refine ⟨fun frame hframe ↦ ?_, fun frame hframe ↦ h.reqIds frame ?_⟩
    · rcases mem_responses_greet hframe with hbefore | ⟨opcode, rfl⟩
      · exact h.responses frame hbefore
      · exact .inr ⟨opcode, _, _, h.reqIds first hmember, hgood, rfl⟩
    · rcases s.greet_cases first (greetingOf decode limit concurrent first) writeOk with
        ⟨reason, hend, -, -, -, -, hqueue, -⟩ | hadvances
      · rw [State.unanswered, hend, hqueue] at hframe
        exact List.mem_append_right _ hframe
      · rw [unanswered_of_advances hadvances] at hframe
        exact List.mem_append_right _ hframe
  | process request hphase outcome failAt flushOk =>
    obtain ⟨response, rfl, hgood⟩ := hanswers request hphase
    have hmember : request ∈ s.unanswered := by
      rw [State.unanswered, hphase]
      exact List.mem_cons_self
    refine ⟨fun frame hframe ↦ ?_, fun frame hframe ↦ h.reqIds frame ?_⟩
    · rcases mem_responses_processFrame hframe with hbefore | hreply
      · exact h.responses frame hbefore
      · rw [repliesOf] at hreply
        split_ifs at hreply with hsilent
        · exact absurd hreply List.not_mem_nil
        · rw [reply?_outcomeOf, Option.toList_some, List.mem_singleton] at hreply
          exact .inr ⟨_, _, _, h.reqIds request hmember, hgood (by simpa using hsilent), hreply⟩
    · rw [unanswered_of_advances (s.advances_processFrame request _ failAt flushOk)] at hframe
      exact List.mem_append_right _ hframe

end Steps

/-- If the answers of a server have a property, so have all frames that it writes. -/
theorem serverFrame_of_run {good : OperationResponse → Prop} {notice : Prop}
    {decode : Bytes → Except String Document} {maxFrameSize maxConcurrent : UInt32}
    {events : List Event} {t : State}
    (hmeet : StepsMeet (step maxFrameSize.toNat)
      (Answers good notice decode maxFrameSize maxConcurrent) State.init events)
    (hrun : run (step maxFrameSize.toNat) State.init events = some t) :
    ∀ frame ∈ t.written, ServerFrame good notice frame := by
  have hanswered : Answered good notice t :=
    invariant_of_run (fun s event next hs hanswers hstep ↦ answered_step hs hanswers hstep)
      answered_init hmeet hrun
  intro frame hframe
  exact hanswered.responses frame (List.mem_append_left _ hframe)

end MongoCore.Transport
