import MongoCore.Clients.Decoding
import MongoCore.Clients.Wired
import MongoCore.Transport.RoundTrip

/-!
# Calls are served

What the network and the task of the server do keeps the invariant of the wired system.  A reading
task follows the request of the call in progress; the only frame it can read is this request, and
while it looks for more there are none, so nothing is lost when it gives up.

The main result is about whole runs of a pool: a call that returns a reply has read what the server
wrote when it processed the request of this call.
-/

namespace MongoCore.Clients

open MongoCore.Data MongoCore.Transport MongoCore.Library.Framing MongoCore.Library.TransitionSystem

section Steps

variable {client : Client} {decode : Bytes → Except String Document} {serverMax : ℕ} {w : Wired}
  {t : BinaryTransport} {request : Frame}

/-! ## Steps of the network and of the task -/

/-- The network or the task moves bytes, and nothing is processed or written. -/
theorem Joined.of_reading (h : Joined client decode serverMax w) {s' : State} {toServer : Bytes}
    (hheld : Segmentation.Held serverMax s')
    (hidle : s'.queue.frames = w.server.queue.frames ∧
      s'.pendingResponses = w.server.pendingResponses)
    (hgreeted : w.server.phase.isGreeting = false → s'.phase.isGreeting = false)
    (hleaving : Leaving s'.phase ↔ Leaving w.server.phase)
    (hserving : ¬ Leaving w.server.phase → s'.phase.inProcess = w.server.phase.inProcess)
    (hbytes : ¬ Leaving w.server.phase →
      (∀ frame, w.server.phase.inProcess = [frame] →
        w.server.held ++ (w.server.inbox ++ w.toServer) = []) →
      s'.held ++ (s'.inbox ++ toServer) = w.server.held ++ (w.server.inbox ++ w.toServer)) :
    Joined client decode serverMax { w with toServer := toServer, server := s' } where
  linked := by
    obtain ⟨t, request, hinv, hlinked⟩ := h.linked
    have hopen : t.closing = false → ¬ Leaving w.server.phase := by
      intro hopen hleft
      rw [hlinked.closing.mpr hleft] at hopen
      cases hopen
    refine ⟨t, request, hinv,
      { hlinked with
        closing := hlinked.closing.trans hleaving.symm
        greeted := hgreeted hlinked.greeted
        held := hheld
        idle := ⟨hidle.1.trans hlinked.idle.1, hidle.2.trans hlinked.idle.2⟩
        requests := fun hclosing ↦ ?_
        unanswered := fun hclosing ↦ ?_
        stream := fun hclosing ↦ ?_
        pending := fun hclosing ↦ ?_
        active := fun caller call hcall hactive ↦ ?_ }⟩
    · rw [hlinked.requests hclosing]
      refine (hbytes (hopen hclosing) fun frame hframe ↦ ?_).symm
      rcases hlinked.stream hclosing with ⟨hnone, -⟩ | ⟨hnone, -⟩
      · rw [hnone] at hframe
        cases hframe
      · rw [← hlinked.requests hclosing]
        exact hnone
    · rw [hlinked.unanswered hclosing, hserving (hopen hclosing)]
    · rw [hserving (hopen hclosing)]
      exact hlinked.stream hclosing
    · rw [hserving (hopen hclosing)]
      exact hlinked.pending hclosing
    · obtain ⟨hasked, hown, hsending, honce, hfirst⟩ := hlinked.active caller call hcall hactive
      refine ⟨hasked, hown, fun left hleft ↦ ⟨(hsending left hleft).1, fun hclosing ↦ ?_⟩, honce,
        fun hclosing ↦ ?_⟩
      · rw [hserving (hopen hclosing)]
        exact (hsending left hleft).2 hclosing
      · rw [hserving (hopen hclosing)]
        exact hfirst hclosing
  served := h.served
  replied := h.replied
  ledger := h.ledger.of_server rfl rfl rfl hleaving.mpr
  sized := h.sized

/-- Bytes arrive at the server. -/
theorem joined_deliver (h : Joined client decode serverMax w) {count : ℕ} {w' : Wired}
    (hstep : w.step client serverMax (.deliver count) = some w') :
    Joined client decode serverMax w' := by
  obtain ⟨s', hs', rfl⟩ := Option.map_eq_some_iff.mp hstep
  obtain ⟨t, request, hinv, hlinked⟩ := h.linked
  have hheld := Segmentation.held_step hlinked.held hs'
  cases stepCase_of_step hs' with
  | arrive bytes hopen =>
    apply h.of_reading hheld ⟨rfl, rfl⟩ id Iff.rfl fun _ ↦ rfl
    intro _ _
    simp only [List.append_assoc, List.take_append_drop]

/-- When the server has left, nothing more happens to a call. -/
theorem Underway.leave {caller : ℕ} {call : Call}
    (h : Underway serverMax w t request caller call) {w' : Wired} {t' : BinaryTransport}
    (hasked : w'.asked = w.asked) (hexchanges : w'.exchanges = w.exchanges)
    (hclosing : t'.closing = true) : Underway serverMax w' t' request caller call where
  asked := hasked ▸ h.asked
  own := hexchanges ▸ h.own
  sending left hleft := by
    refine ⟨(h.sending left hleft).1, fun hopen ↦ ?_⟩
    rw [hclosing] at hopen
    cases hopen
  once := hexchanges ▸ h.once
  first hopen := by
    rw [hclosing] at hopen
    cases hopen

/-- The task leaves. -/
theorem Joined.leave (h : Joined client decode serverMax w) {s' : State} (notice : Bool)
    (hheld : Segmentation.Held serverMax s')
    (hidle : s'.queue.frames = w.server.queue.frames ∧
      s'.pendingResponses = w.server.pendingResponses)
    (hserving : ¬ Leaving w.server.phase) (hleaving : Leaving s'.phase) :
    Joined client decode serverMax
      { w with
        toClient := w.toClient ++ (if notice then writeFrame shutdownFrame else [])
        server := s' } where
  linked := by
    obtain ⟨t, request, hinv, hlinked⟩ := h.linked
    have hopen := hlinked.open_of_serving hserving
    have hgone : ∀ {P : Prop}, true = false → P := fun hfalse ↦ by cases hfalse
    refine ⟨_, request, invariant_leave hinv hopen notice,
      { reqCounter := hlinked.reqCounter
        calls := hlinked.calls
        replies := by rw [hlinked.replies]
        answered := hlinked.answered
        closing := ⟨fun _ ↦ hleaving, fun _ ↦ rfl⟩
        greeted := ?_
        held := hheld
        idle := ⟨hidle.1.trans hlinked.idle.1, hidle.2.trans hlinked.idle.2⟩
        requests := hgone
        unanswered := hgone
        stream := hgone
        pending := hgone
        fits := hlinked.fits
        plain := hlinked.plain
        active := fun caller call hcall hactive ↦
          (hlinked.active caller call hcall hactive).leave rfl rfl rfl }⟩
    rcases hleaving with hphase | ⟨reason, hphase⟩ <;> rw [hphase] <;> rfl
  served := h.served
  replied := h.replied
  ledger := h.ledger.of_server rfl rfl rfl fun _ ↦ hleaving
  sized := h.sized

/-- What a task that waits reads first is the first frame of what was written to it, and nothing
has been written to it but a part of the request. -/
theorem Linked.firstFrame?_requests (h : Linked serverMax w t request)
    (hphase : w.server.phase = .waiting) (hcomplete : Complete serverMax w.server.held) :
    t.closing = false ∧ t.requests <+: writeFrame request ∧
      firstFrame? serverMax t.requests =
        some (readResult serverMax w.server.held, w.server.inbox ++ w.toServer) := by
  have hopen := h.open_of_serving (by simp [Leaving, hphase])
  have hchunk := Segmentation.chunk_of_complete h.held hcomplete
  refine ⟨hopen, ?_, ?_⟩
  · rcases h.stream hopen with ⟨-, hpart⟩ | ⟨-, frame, hframe, -⟩
    · exact hpart
    · rw [hphase] at hframe
      cases hframe
  · rw [h.requests hopen]
    exact firstFrame?_of_chunk hchunk _

/-- The task that waits cannot read a frame, and ends. -/
theorem Joined.readError (h : Joined client decode serverMax w)
    (hphase : w.server.phase = .waiting) (hcomplete : Complete serverMax w.server.held)
    {error : FrameError} (hresult : readResult serverMax w.server.held = .error error) :
    Joined client decode serverMax { w with
      server := { w.server with held := [], phase := .finished (.frameError error) } } := by
  obtain ⟨t, request, hinv, hlinked⟩ := h.linked
  obtain ⟨hopen, -, hfirst⟩ := hlinked.firstFrame?_requests hphase hcomplete
  have hgone : ∀ {P : Prop}, true = false → P := fun hfalse ↦ by cases hfalse
  rw [hresult] at hfirst
  exact ⟨⟨_, request, (invariant_receive hinv hopen hfirst).2 error rfl,
    { hlinked with
      closing := ⟨fun _ ↦ .inr ⟨_, rfl⟩, fun _ ↦ rfl⟩
      greeted := rfl
      held := Segmentation.held_of_eq_nil rfl
      requests := hgone
      unanswered := hgone
      stream := hgone
      pending := hgone
      active := fun caller call hcall hactive ↦
        (hlinked.active caller call hcall hactive).leave rfl rfl rfl }⟩, h.served, h.replied,
    h.ledger.of_server rfl rfl rfl fun _ ↦ .inr ⟨_, rfl⟩, h.sized⟩

/-- The task that waits has read a frame: it is the request, and there is nothing else to read. -/
theorem Joined.readRequest (h : Joined client decode serverMax w)
    (hphase : w.server.phase = .waiting) (hcomplete : Complete serverMax w.server.held)
    {frame : Frame} (hresult : readResult serverMax w.server.held = .ok frame) :
    Joined client decode serverMax
      { w with server := { w.server with held := [], phase := .coalescing frame } } := by
  obtain ⟨t, request, hinv, hlinked⟩ := h.linked
  obtain ⟨hopen, hpart, hfirst⟩ := hlinked.firstFrame?_requests hphase hcomplete
  rw [hresult] at hfirst
  obtain ⟨hwhole, hrest, -⟩ := firstFrame?_of_request hlinked.fits hpart hfirst
  have hheld : w.server.held = writeFrame request := by
    rw [hlinked.requests hopen, hrest, List.append_nil] at hwhole
    exact hwhole
  have hsome : t.requests ≠ [] := by
    intro hnil
    have hlength := length_writeFrame request
    rw [← hwhole, hnil, List.length_nil, headerSize] at hlength
    omega
  rw [hheld] at hresult
  refine ⟨⟨_, request, (invariant_receive hinv hopen hfirst).1 frame rfl,
    { hlinked with
      closing := ?_
      greeted := rfl
      held := Segmentation.held_of_eq_nil rfl
      requests := fun _ ↦ rfl
      unanswered := fun _ ↦ ?_
      stream := fun _ ↦ .inr ⟨hrest, frame, rfl, hresult⟩
      pending := fun _ ↦ .inr ((hlinked.pending hopen).resolve_left fun hnone ↦ hsome hnone.1)
      active := fun caller call hcall hactive ↦ ?_ }⟩, h.served, h.replied,
    h.ledger.of_server rfl rfl rfl fun hleft ↦ absurd hleft (by simp [Leaving, hphase]), h.sized⟩
  · rw [hlinked.closing]
    simp [Leaving, hphase]
  · change t.unanswered ++ [frame.header.reqId] = [frame.header.reqId]
    rw [hlinked.unanswered hopen, hphase]
    rfl
  · obtain ⟨hasked, hown, hsending, honce, hfirst⟩ := hlinked.active caller call hcall hactive
    refine ⟨hasked, hown, fun left hleft ↦ ?_, honce, fun _ ↦ .inl
      ((hfirst hopen).resolve_right fun hdone ↦ hsome hdone.1)⟩
    -- a call that still writes has not written its request to the end
    obtain ⟨hmore, hunread⟩ := hsending left hleft
    have hstream := (hunread hopen).2
    rw [hwhole, List.append_right_eq_self] at hstream
    exact absurd hstream hmore

/-- While a request is in process, everything that was written has been read, and the request is
what was read. -/
theorem Linked.of_inProcess (h : Linked serverMax w t request) {frame : Frame}
    (hserving : ¬ Leaving w.server.phase) (hbusy : w.server.phase.inProcess = [frame]) :
    t.closing = false ∧ t.requests = [] ∧ t.unanswered = [frame.header.reqId] ∧
      readResult serverMax (writeFrame request) = .ok frame := by
  have hopen := h.open_of_serving hserving
  have hunanswered : t.unanswered = [frame.header.reqId] := by
    rw [h.unanswered hopen, hbusy]
    rfl
  rcases h.stream hopen with ⟨hnone, -⟩ | ⟨hread, other, hother, hresult⟩
  · rw [hbusy] at hnone
    cases hnone
  · rw [hbusy] at hother
    cases hother
    exact ⟨hopen, hread, hunanswered, hresult⟩

/-- What the task does with a plain request when nothing is queued or buffered. -/
theorem processFrame_plain (s : State) {frame reply : Frame} {outcome : Outcome} (flushOk : Bool)
    (hplain : frame.header.flags.noReply = false ∧ frame.header.flags.batchFollows = false)
    (hidle : s.queue.frames = [] ∧ s.pendingResponses = [])
    (hreply : outcome.reply? frame = some reply) :
    s.processFrame frame outcome none flushOk =
      { s with
        handed := s.handed ++ [frame]
        pendingResponses := []
        written := s.written ++ [reply]
        phase := if flushOk then .waiting else .finished .writeFailed } := by
  have hpop := PriorityQueue.pop_of_empty hidle.1
  simp only [State.processFrame, hplain.1, Bool.false_eq_true, if_false, hreply, State.answer,
    hplain.2, State.flushBatch, hidle.2, List.nil_append, writeAll]
  cases flushOk with
  | true => simp only [Bool.and_self, if_true, State.next, hpop]
  | false => simp

/-- The task answers the request of the call. -/
theorem Joined.reply (h : Joined client decode serverMax w) {frame reply : Frame}
    (hphase : w.server.phase = .processing frame)
    (hreply : ∃ response, reply = serverFrame (answerOpcode frame (answerTo decode frame response))
      frame.header.reqId (encodeResponse (answerTo decode frame response)))
    (hlength : 6 + payloadSize reply < 2 ^ 32) {s' : State}
    (hphase' : s'.phase = .waiting)
    (hheld : Segmentation.Held serverMax s')
    (hidle : s'.queue.frames = [] ∧ s'.pendingResponses = [])
    (hbytes : s'.held ++ s'.inbox = w.server.held ++ w.server.inbox) :
    Joined client decode serverMax
      { w with
        toClient := w.toClient ++ writeFrame reply
        server := s'
        exchanges := w.exchanges ++ [(frame, reply)] } := by
  obtain ⟨t, request, hinv, hlinked⟩ := h.linked
  have hbusy : w.server.phase.inProcess = [frame] := by rw [hphase]; rfl
  obtain ⟨hopen, hread, hunanswered, hown⟩ :=
    hlinked.of_inProcess (by simp [Leaving, hphase]) hbusy
  obtain ⟨owner, ownerCall, howner, hsince, hasked⟩ := (hlinked.pending hopen).resolve_left
    fun hidle ↦ absurd (hbusy.symm.trans hidle.2) (List.cons_ne_nil _ _)
  have hreqId : reply.header.reqId = frame.header.reqId := by
    obtain ⟨response, rfl⟩ := hreply
    rfl
  have hmem : reply.header.reqId ∈ t.unanswered := by
    rw [hunanswered, hreqId]
    exact List.mem_singleton_self _
  have hbounds := hlinked.since_le hinv
  have hserving : ¬ Leaving w.server.phase := by simp [Leaving, hphase]
  have hnone : s'.phase.inProcess = [] := by rw [hphase']; rfl
  have hworking : ∀ {P : Prop}, w.server.phase.inProcess = [] → P := by
    intro P hidle
    rw [hbusy] at hidle
    cases hidle
  refine ⟨⟨_, request, invariant_reply hinv hopen hmem hlength,
    { reqCounter := hlinked.reqCounter
      calls := hlinked.calls
      replies := by rw [hlinked.replies]
      answered := by rw [hlinked.answered, List.map_append]; rfl
      closing := ?_
      greeted := by rw [hphase']; rfl
      held := hheld
      idle := hidle
      requests := fun _ ↦ ?_
      unanswered := fun _ ↦ ?_
      stream := fun _ ↦ .inl ⟨hnone, ?_⟩
      pending := fun _ ↦ .inl ⟨hread, hnone⟩
      fits := hlinked.fits
      plain := hlinked.plain
      active := fun caller call hcall hactive ↦ ?_ }⟩, ?_, fun entry hentry ↦ ?_,
    h.ledger.process rfl rfl rfl hserving howner hsince hasked hown, h.sized⟩
  · rw [hlinked.closing]
    simp [Leaving, hphase, hphase']
  · rw [← List.append_assoc, hbytes, List.append_assoc]
    exact hlinked.requests hopen
  · rw [hnone, hunanswered, hreqId]
    simp
  · change t.requests <+: _
    rw [hread]
    exact List.nil_prefix
  · obtain ⟨hasked, hbefore, hsending, -, hfirst⟩ := hlinked.active caller call hcall hactive
    have hnew := (hfirst hopen).resolve_right fun hdone ↦ hworking hdone.2.1
    refine ⟨hasked, fun entry hentry ↦ ?_, fun left hleft ↦ ?_, ?_,
      fun _ ↦ .inr ⟨hread, hnone, fun left hleft ↦ ?_⟩⟩
    · rw [List.drop_append_of_le_length (hbounds caller call hcall)] at hentry
      rcases List.mem_append.mp hentry with hentry | hentry
      · exact hbefore entry hentry
      · rw [List.mem_singleton.mp hentry]
        exact hown
    · exact hworking ((hsending left hleft).2 hopen).1
    · rw [List.length_append, List.length_singleton, hnew]
    · exact hworking ((hsending left hleft).2 hopen).1
  · exact h.served.of_calls (fun _ _ _ ↦ rfl) (List.prefix_append _ _)
      fun caller call held reply hcall _ ↦ .inl hcall
  · rcases List.mem_append.mp hentry with hentry | hentry
    · exact h.replied entry hentry
    · rw [List.mem_singleton.mp hentry]
      exact hreply

/-- A task that is not greeted any more reads when it waits, looks for more requests, or drains. -/
theorem reading_cases {phase : Phase} (hreading : phase.isReading = true)
    (hgreeted : phase.isGreeting = false) :
    phase = .waiting ∨ (∃ frame, phase = .coalescing frame) ∨ phase = .draining := by
  cases phase <;> simp_all [Phase.isReading, Phase.isGreeting]

/-- The task has read a frame, or cannot read one. -/
theorem joined_readDone (h : Joined client decode serverMax w)
    (hreading : w.server.phase.isReading = true) (hcomplete : Complete serverMax w.server.held) :
    Joined client decode serverMax
      { w with server := w.server.returnRead (readResult serverMax w.server.held) } := by
  obtain ⟨t, request, hinv, hlinked⟩ := h.linked
  rcases reading_cases hreading hlinked.greeted with hphase | ⟨frame, hphase⟩ | hphase
  · cases hresult : readResult serverMax w.server.held with
    | error error =>
      have hended := h.readError hphase hcomplete hresult
      simpa [State.returnRead, hphase] using hended
    | ok frame =>
      have hread := h.readRequest hphase hcomplete hresult
      simpa [State.returnRead, hphase] using hread
  · -- while a request is processed, the call waits and has nothing more to say
    obtain ⟨hopen, hread, -, -⟩ :=
      hlinked.of_inProcess (by simp [Leaving, hphase]) (by rw [hphase]; rfl)
    rw [hlinked.requests hopen] at hread
    rw [(List.append_eq_nil_iff.mp hread).1] at hcomplete
    exact absurd hcomplete (not_complete_nil serverMax)
  · obtain ⟨hheld, -, -⟩ :=
      State.returnRead_frame hreading (readResult serverMax w.server.held)
    have hgone : ∀ {P : Prop}, ¬ Leaving w.server.phase → P :=
      fun hserving ↦ absurd (.inl hphase) hserving
    have hdrained : ∃ phase, w.server.returnRead (readResult serverMax w.server.held) =
        { w.server with held := [], phase := phase } ∧ Leaving phase := by
      cases readResult serverMax w.server.held with
      | ok frame => exact ⟨.draining, by simp [State.returnRead, hphase], .inl rfl⟩
      | error error =>
        exact ⟨.finished .shutDown, by simp [State.returnRead, hphase], .inr ⟨_, rfl⟩⟩
    obtain ⟨phase, hreturned, hleaving⟩ := hdrained
    rw [hreturned]
    refine h.of_reading (Segmentation.held_of_eq_nil rfl) ⟨rfl, rfl⟩ (fun _ ↦ ?_)
      ⟨fun _ ↦ .inl hphase, fun _ ↦ hleaving⟩ hgone hgone
    rcases hleaving with hleft | ⟨reason, hleft⟩ <;> rw [hleft] <;> rfl

/-- The task meets the end of the stream. -/
theorem joined_readEof (h : Joined client decode serverMax w)
    (hreading : w.server.phase.isReading = true) :
    Joined client decode serverMax { w with server := w.server.endRead } := by
  obtain ⟨t, request, hinv, hlinked⟩ := h.linked
  rcases reading_cases hreading hlinked.greeted with hphase | ⟨frame, hphase⟩ | hphase
  · have hended : w.server.endRead =
        { w.server with held := [], phase := .finished .disconnected } := by
      simp [State.endRead, hphase]
    rw [hended]
    have hleft := h.leave false
      (Segmentation.held_of_eq_nil rfl : Segmentation.Held serverMax
        { w.server with held := [], phase := .finished .disconnected })
      ⟨rfl, rfl⟩ (by simp [Leaving, hphase]) (.inr ⟨_, rfl⟩)
    simpa using hleft
  · have hended : w.server.endRead = { w.server with held := [], phase := .processing frame } := by
      simp [State.endRead, hphase]
    rw [hended]
    refine h.of_reading (Segmentation.held_of_eq_nil rfl) ⟨rfl, rfl⟩ (fun _ ↦ rfl) ?_ (fun _ ↦ ?_)
      fun _ hnone ↦ ?_
    · simp [Leaving, hphase]
    · rw [hphase]
      rfl
    · have hempty := hnone frame (by rw [hphase]; rfl)
      rw [(List.append_eq_nil_iff.mp hempty).1]
  · have hended : w.server.endRead =
        { w.server with held := [], phase := .finished .shutDown } := by
      simp [State.endRead, hphase]
    have hgone : ∀ {P : Prop}, ¬ Leaving w.server.phase → P :=
      fun hserving ↦ absurd (.inl hphase) hserving
    rw [hended]
    exact h.of_reading (Segmentation.held_of_eq_nil rfl) ⟨rfl, rfl⟩ (fun _ ↦ rfl)
      ⟨fun _ ↦ .inl hphase, fun _ ↦ .inr ⟨_, rfl⟩⟩ hgone hgone

/-- The task processes the request of the call. -/
theorem joined_process (h : Joined client decode serverMax w) {frame : Frame}
    (hphase : w.server.phase = .processing frame) {response : OperationResponse} {reply : Frame}
    (hreply : reply = serverFrame (answerOpcode frame (answerTo decode frame response))
      frame.header.reqId (encodeResponse (answerTo decode frame response)))
    (hlength : 6 + payloadSize reply < 2 ^ 32) (flushOk : Bool) :
    Joined client decode serverMax
      { w with
        toClient := w.toClient ++ writeFrame reply
        server := { w.server with
          handed := w.server.handed ++ [frame]
          pendingResponses := []
          written := w.server.written ++ [reply]
          phase := if flushOk then .waiting else .finished .writeFailed }
        exchanges := w.exchanges ++ [(frame, reply)] } := by
  obtain ⟨t, request, hinv, hlinked⟩ := h.linked
  let answered : State := { w.server with
    handed := w.server.handed ++ [frame]
    pendingResponses := []
    written := w.server.written ++ [reply]
    phase := .waiting }
  have hjoined : Joined client decode serverMax
      { w with
        toClient := w.toClient ++ writeFrame reply
        server := answered
        exchanges := w.exchanges ++ [(frame, reply)] } :=
    h.reply hphase ⟨response, hreply⟩ hlength rfl
      (Segmentation.held_of_held_eq hlinked.held rfl) ⟨hlinked.idle.1, rfl⟩ rfl
  cases flushOk with
  | true => exact hjoined
  | false =>
    have hleft := hjoined.leave false
      (Segmentation.held_of_held_eq hlinked.held rfl : Segmentation.Held serverMax
        { answered with phase := .finished .writeFailed })
      ⟨rfl, rfl⟩ (by simp [Leaving, answered]) (.inr ⟨_, rfl⟩)
    simpa using hleft

/-- A step that writes nothing and processes nothing changes only the task. -/
theorem Joined.of_silent {s' : State} {event : Event}
    (h : Joined client decode serverMax { w with server := s' })
    (hwritten : s'.written = w.server.written) (hnone : Wired.exchangesOf w.server event = []) :
    Joined client decode serverMax
      { w with
        toClient := w.toClient ++ (Wired.newlyWritten w.server s').flatMap writeFrame
        server := s'
        exchanges := w.exchanges ++ Wired.exchangesOf w.server event } := by
  simpa [Wired.newlyWritten, hwritten, hnone] using h

/-- A step of the task in the wired system is one of the task. -/
theorem Wired.exists_of_server {event : Event} {w' : Wired}
    (h : w.step client serverMax (.server event) = some w') :
    (∀ bytes, event ≠ .arrive bytes) ∧
      ∃ s', Transport.step serverMax w.server event = some s' ∧
        w' = { w with
          toClient := w.toClient ++ (Wired.newlyWritten w.server s').flatMap writeFrame
          server := s'
          exchanges := w.exchanges ++ Wired.exchangesOf w.server event } := by
  have hnarrive : ∀ bytes, event ≠ .arrive bytes := by
    rintro bytes rfl
    cases h
  have hstep : (Transport.step serverMax w.server event).map (fun server ↦
      { w with
        toClient := w.toClient ++ (Wired.newlyWritten w.server server).flatMap writeFrame
        server := server
        exchanges := w.exchanges ++ Wired.exchangesOf w.server event }) = some w' := by
    cases event with
    | arrive bytes => exact absurd rfl (hnarrive bytes)
    | _ => exact h
  obtain ⟨s', hs', rfl⟩ := Option.map_eq_some_iff.mp hstep
  exact ⟨hnarrive, s', hs', rfl⟩

/-- A step of the task keeps the invariant. -/
theorem joined_server (h : Joined client decode serverMax w) {event : Event} {w' : Wired}
    (horderly : w.Orderly decode (.server event))
    (hstep : w.step client serverMax (.server event) = some w') :
    Joined client decode serverMax w' := by
  obtain ⟨t, request, hinv, hlinked⟩ := h.linked
  obtain ⟨hnarrive, s', hs', rfl⟩ := Wired.exists_of_server hstep
  have hheld := Segmentation.held_step hlinked.held hs'
  have hleft : ∀ {phase : Phase}, w.server.phase = .draining → phase = .draining ∨
      (∃ reason, phase = .finished reason) → (Leaving phase ↔ Leaving w.server.phase) :=
    fun hphase hgone ↦ ⟨fun _ ↦ .inl hphase, fun _ ↦ hgone⟩
  cases stepCase_of_step hs' with
  | arrive bytes hopen => exact absurd rfl (hnarrive bytes)
  | close =>
    refine Joined.of_silent ?_ rfl rfl
    exact h.of_reading hheld ⟨rfl, rfl⟩ id Iff.rfl (fun _ ↦ rfl) fun _ _ ↦ rfl
  | take byte inbox hinbox hpending =>
    refine Joined.of_silent ?_ rfl rfl
    refine h.of_reading hheld ⟨rfl, rfl⟩ id Iff.rfl (fun _ ↦ rfl) fun _ _ ↦ ?_
    simp [hinbox]
  | readDone hreading hcomplete =>
    refine Joined.of_silent ?_ ?_ rfl
    · exact joined_readDone h hreading hcomplete
    · cases hresult : readResult serverMax w.server.held <;>
        cases hphase : w.server.phase <;> simp [State.returnRead, hphase]
  | readEof hpending hinbox hclosed =>
    refine Joined.of_silent ?_ ?_ rfl
    · exact joined_readEof h hpending.1
    · cases hphase : w.server.phase <;> simp [State.endRead, hphase]
  | timeout frame hphase hpending hinbox =>
    refine Joined.of_silent ?_ rfl rfl
    refine h.of_reading hheld ⟨rfl, rfl⟩ (fun _ ↦ rfl) ?_ (fun _ ↦ ?_) fun _ hnone ↦ ?_
    · simp [Leaving, hphase]
    · rw [hphase]
      rfl
    · have hempty := hnone frame (by rw [hphase]; rfl)
      rw [(List.append_eq_nil_iff.mp hempty).1]
  | shutdown writeOk hphase hpending =>
    have hleft := h.leave writeOk hheld ⟨rfl, rfl⟩ (by simp [Leaving, hphase]) (.inl rfl)
    cases writeOk <;>
      simpa [Wired.newlyWritten, Wired.exchangesOf] using hleft
  | noShutdown writeOk hphase hpending => cases horderly
  | drainTimeout hphase =>
    refine Joined.of_silent ?_ rfl rfl
    refine h.of_reading hheld ⟨rfl, rfl⟩ (fun _ ↦ rfl) (hleft hphase (.inr ⟨_, rfl⟩)) ?_ ?_
    · exact fun hserving ↦ absurd (.inl hphase) hserving
    · exact fun hserving ↦ absurd (.inl hphase) hserving
  | greet frame hphase greeting writeOk =>
    have hgreeted := hlinked.greeted
    rw [hphase] at hgreeted
    cases hgreeted
  | process frame hphase outcome failAt flushOk =>
    obtain ⟨rfl, hanswers⟩ := horderly
    obtain ⟨response, houtcome, hlength⟩ := hanswers frame hphase
    obtain ⟨-, -, -, hresult⟩ :=
      hlinked.of_inProcess (by simp [Leaving, hphase]) (by rw [hphase]; rfl)
    have hplain : frame.header.flags.noReply = false ∧ frame.header.flags.batchFollows = false := by
      rw [(header_of_request hlinked.fits hresult).1]
      exact hlinked.plain
    have hreply := reply?_outcomeOf decode frame response
    rw [← houtcome] at hreply
    have hnext := joined_process h hphase rfl hlength flushOk
    rw [processFrame_plain w.server flushOk hplain hlinked.idle hreply]
    simpa [Wired.newlyWritten, Wired.exchangesOf, hphase, hreply] using hnext

/-- Every orderly step keeps the invariant. -/
theorem joined_step
    (hdecode : ∀ bytes document, client.decode bytes = some document →
      ofLittleEndian (bytes.take 4) ≤ bytes.length)
    (h : Joined client decode serverMax w) {event : WiredEvent} {w' : Wired}
    (horderly : w.Orderly decode event) (hstep : w.step client serverMax event = some w') :
    Joined client decode serverMax w' := by
  cases event with
  | client event => exact joined_client hdecode h horderly hstep
  | deliver count => exact joined_deliver h hstep
  | server event => exact joined_server h horderly hstep

end Steps

theorem joined_connected (client : Client) (decode : Bytes → Except String Document)
    (serverMax : ℕ) (first reply : Frame) :
    Joined client decode serverMax (.connected first reply) where
  linked :=
    ⟨.connected, requestFrame .find 0 [] [], invariant_connected client,
      { reqCounter := rfl
        calls := rfl
        replies := rfl
        answered := rfl
        closing := by simp [BinaryTransport.connected, Wired.connected, Leaving]
        greeted := rfl
        held := Segmentation.held_of_eq_nil rfl
        idle := ⟨rfl, rfl⟩
        requests := fun _ ↦ rfl
        unanswered := fun _ ↦ rfl
        stream := fun _ ↦ .inl ⟨rfl, List.nil_prefix⟩
        pending := fun _ ↦ .inl ⟨rfl, rfl⟩
        fits := ⟨by decide, by decide⟩
        plain := ⟨rfl, rfl⟩
        active := fun caller call hcall ↦ absurd hcall (by simp [Wired.connected]) }⟩
  served caller call held reply hcall := absurd hcall (by simp [Wired.connected])
  replied entry hentry := absurd hentry (by simp [Wired.connected])
  ledger :=
    { owner := fun i entry hentry ↦ absurd hentry (by simp [Wired.connected])
      unique := fun caller call other otherCall hasks ↦
        absurd hasks.1 (by simp [Wired.connected])
      counted := fun caller call hasks ↦ absurd hasks.1 (by simp [Wired.connected]) }
  sized caller request hasked := absurd hasked (by simp [Wired.connected])

/-- A step of a pool is a step of one of its connections. -/
theorem WiredPool.connections_of_step {client : Client} {serverMax size : ℕ}
    {pool next : WiredPool} {event : ℕ × WiredEvent}
    (h : pool.step client serverMax size event = some next) :
    ∃ w, (pool.connections event.1).step client serverMax event.2 = some w ∧
      next.connections = Function.update pool.connections event.1 w := by
  obtain ⟨connection, step⟩ := event
  by_cases hsize : connection < size
  swap
  · rw [WiredPool.step, if_neg hsize] at h
    cases h
  rw [WiredPool.step, if_pos hsize] at h
  obtain ⟨w, hw, hnext⟩ := Option.bind_eq_some_iff.mp h
  refine ⟨w, hw, ?_⟩
  split at hnext
  · split_ifs at hnext
    rw [← Option.some.inj hnext]
  · rw [← Option.some.inj hnext]

/-- An orderly step of a pool keeps every connection in order. -/
theorem joined_of_step {client : Client} {decode : Bytes → Except String Document}
    {serverMax size : ℕ}
    (hdecode : ∀ bytes document, client.decode bytes = some document →
      ofLittleEndian (bytes.take 4) ≤ bytes.length)
    {pool next : WiredPool} {event : ℕ × WiredEvent}
    (hjoined : ∀ connection, Joined client decode serverMax (pool.connections connection))
    (horderly : pool.Orderly decode event)
    (hstep : pool.step client serverMax size event = some next) (connection : ℕ) :
    Joined client decode serverMax (next.connections connection) := by
  obtain ⟨w, hw, hconnections⟩ := WiredPool.connections_of_step hstep
  rw [hconnections]
  by_cases hsame : connection = event.1
  · rw [hsame, Function.update_self]
    exact joined_step hdecode (hjoined event.1) horderly hw
  · rw [Function.update_of_ne hsame]
    exact hjoined connection

/-- Every connection of a pool whose steps are orderly is in order. -/
theorem joined_of_run (client : Client) (decode : Bytes → Except String Document)
    (serverMax size : ℕ) (first reply : Frame)
    (hdecode : ∀ bytes document, client.decode bytes = some document →
      ofLittleEndian (bytes.take 4) ≤ bytes.length)
    {events : List (ℕ × WiredEvent)} {final : WiredPool}
    (horderly : StepsMeet (WiredPool.step client serverMax size) (WiredPool.Orderly decode)
      (.connected first reply) events)
    (hrun : run (WiredPool.step client serverMax size) (.connected first reply) events =
      some final) (connection : ℕ) :
    Joined client decode serverMax (final.connections connection) := by
  exact invariant_of_run (fun _ _ _ hjoined ↦ joined_of_step hdecode hjoined)
    (fun _ ↦ joined_connected client decode serverMax first reply) horderly hrun connection

/-- Callers, the network and the tasks of the server together: however bytes are delayed and cut,
calls fail, and the server looks for more requests or shuts down, a call that returns a reply has
read what the server wrote when it processed the request of this call. -/
theorem served_of_orderly (client : Client) (decode : Bytes → Except String Document)
    (serverMax size : ℕ) (first reply : Frame)
    (hdecode : ∀ bytes document, client.decode bytes = some document →
      ofLittleEndian (bytes.take 4) ≤ bytes.length)
    {events : List (ℕ × WiredEvent)} {final : WiredPool}
    (horderly : StepsMeet (WiredPool.step client serverMax size) (WiredPool.Orderly decode)
      (.connected first reply) events)
    (hrun : run (WiredPool.step client serverMax size) (.connected first reply) events =
      some final) (connection : ℕ) :
    (final.connections connection).Served decode serverMax :=
  (joined_of_run client decode serverMax size first reply hdecode horderly hrun connection).served

/-- Every request that the server processes is the request of one call, and no request is
processed twice. -/
theorem processesOnce_of_orderly (client : Client) (decode : Bytes → Except String Document)
    (serverMax size : ℕ) (first reply : Frame)
    (hdecode : ∀ bytes document, client.decode bytes = some document →
      ofLittleEndian (bytes.take 4) ≤ bytes.length)
    {events : List (ℕ × WiredEvent)} {final : WiredPool}
    (horderly : StepsMeet (WiredPool.step client serverMax size) (WiredPool.Orderly decode)
      (.connected first reply) events)
    (hrun : run (WiredPool.step client serverMax size) (.connected first reply) events =
      some final) (connection : ℕ) :
    (final.connections connection).ProcessesOnce serverMax :=
  (joined_of_run client decode serverMax size first reply hdecode horderly hrun
    connection).ledger.processesOnce

/-! ## A count over the wire -/

/-- The server reads the request of the count and looks for more before it answers. -/
def countedAtServer : Frame := stamped (requestFrame .countDocuments 2 countRequest [])

/-- The steps of a count after it has begun: its request arrives in two pieces. -/
def wiredCount : List (ℕ × WiredEvent) :=
  List.replicate 50 (0, .client (.write 0)) ++ [(0, .deliver 7), (0, .deliver 50)] ++
    List.replicate 50 (0, .server .take) ++ [(0, .server .readDone), (0, .server .timeout),
      (0, .server (.process (outcomeOf decodeSlice countedAtServer (.countResult 7)) none true))] ++
    List.replicate 49 (0, .client (.take 0)) ++ [(0, .client (.finish 0 0))]

/-- A pool whose first caller begins a count. -/
def countBegun : List (ℕ × WiredEvent) :=
  (0, .client (.send 0 .countDocuments countRequest [])) :: wiredCount

/-- The only request that is answered is the count, with seven. -/
def CountsSeven (pool : WiredPool) (event : ℕ × WiredEvent) : Prop :=
  ∀ outcome failAt flushOk, event.2 = .server (.process outcome failAt flushOk) →
    ∀ frame, (pool.connections event.1).server.phase = .processing frame →
      frame = countedAtServer ∧ outcome = outcomeOf decodeSlice frame (.countResult 7)

/-- The steps that follow are orderly if the answer is this count. -/
def CountsOnly (pool : WiredPool) : ℕ × WiredEvent → Prop
  | (connection, .server (.process outcome failAt _)) => failAt = none ∧
      ∀ frame, (pool.connections connection).server.phase = .processing frame →
        frame = countedAtServer ∧ outcome = outcomeOf decodeSlice frame (.countResult 7) ∧
          6 + payloadSize (serverFrame (answerOpcode frame
            (answerTo decodeSlice frame (.countResult 7))) frame.header.reqId
              (encodeResponse (answerTo decodeSlice frame (.countResult 7)))) < 2 ^ 32
  | (_, .client (.send _ _ _ _)) | (_, .server (.shutdownChanged _ _)) => False
  | _ => True

instance (pool : WiredPool) (event : ℕ × WiredEvent) : Decidable (CountsOnly pool event) := by
  unfold CountsOnly
  split <;> infer_instance

theorem CountsOnly.orderly {pool : WiredPool} {event : ℕ × WiredEvent}
    (h : CountsOnly pool event) : pool.Orderly decodeSlice event ∧ CountsSeven pool event := by
  obtain ⟨connection, event⟩ := event
  constructor
  · cases event with
    | client event => cases event <;> trivial
    | deliver count => trivial
    | server event =>
      cases event with
      | process outcome failAt flushOk =>
        exact ⟨h.1, fun frame hphase ↦ ⟨.countResult 7, (h.2 frame hphase).2⟩⟩
      | shutdownChanged value writeOk => cases h
      | _ => trivial
  · rintro outcome failAt flushOk rfl frame hphase
    exact ⟨(h.2 frame hphase).1, (h.2 frame hphase).2.1⟩

/-- The handshake that opened the connection, and the reply to it. -/
def wiredHandshake : Frame × Frame :=
  (Segmentation.handshakeFrame, serverFrame .handshake Segmentation.handshakeFrame.header.reqId
    (encodeResponse (.handshake 1024 16)))

def goClient : Client := defaultClient .go

/-- A document does not end beyond its bytes. -/
theorem goClient_decode (bytes : Bytes) (document : Document)
    (h : goClient.decode bytes = some document) :
    ofLittleEndian (bytes.take 4) ≤ bytes.length := by
  have hdocument : ∃ rest, takeDocument bytes = some (document, rest) := by
    change fromSlice bytes = some document at h
    unfold fromSlice at h
    split at h
    · rename_i hsome
      obtain rfl := Option.some.inj h
      exact ⟨[], hsome⟩
    · cases h
  obtain ⟨rest, hdocument⟩ := hdocument
  obtain ⟨⟨elements, behind⟩, helements, -⟩ := Option.bind_eq_some_iff.mp hdocument
  obtain ⟨⟨length, front⟩, hlength, hrest⟩ := Option.bind_eq_some_iff.mp helements
  dsimp only at hrest
  split_ifs at hrest with hsmall
  obtain ⟨taken, htaken, -⟩ := Option.bind_eq_some_iff.mp hrest
  obtain ⟨⟨number, other⟩, hnumber, hpair⟩ := Option.bind_eq_some_iff.mp hlength
  obtain ⟨rfl, rfl⟩ := Prod.mk.inj (Option.some.inj hpair)
  unfold takeBytes at hnumber htaken
  split_ifs at hnumber with hfour
  split_ifs at htaken with hlong
  obtain ⟨rfl, rfl⟩ := Prod.mk.inj (Option.some.inj hnumber)
  rw [List.length_drop] at hlong
  rw [ofLittleEndian_eq]
  omega

theorem run_countBegun :
    (run (WiredPool.step goClient maxFrameSizeDefault 1)
        (.connected wiredHandshake.1 wiredHandshake.2) countBegun).map
      (fun pool ↦ ((((pool.connections 0).callerView).counted 0).map Counted.count,
        (pool.connections 0).asked 0)) =
      some (some 7, some (requestFrame .countDocuments 2 countRequest [])) := by
  decide +kernel

theorem orderly_countBegun :
    StepsMeet (WiredPool.step goClient maxFrameSizeDefault 1)
      (fun pool event ↦ pool.Orderly decodeSlice event ∧ CountsSeven pool event)
      (.connected wiredHandshake.1 wiredHandshake.2) countBegun := by
  refine ⟨⟨⟨fun caller call hcall ↦ ?_, by decide⟩, fun _ _ _ hevent ↦ by cases hevent⟩, ?_⟩
  · exact absurd hcall (by simp [WiredPool.connected, Wired.connected])
  · intro next hnext
    have hcounts : ∀ pool ∈ WiredPool.step goClient maxFrameSizeDefault 1
        (.connected wiredHandshake.1 wiredHandshake.2)
          (0, .client (.send 0 .countDocuments countRequest [])),
        StepsMeet (WiredPool.step goClient maxFrameSizeDefault 1) CountsOnly pool
          wiredCount := by
      decide +kernel
    exact (hcounts next hnext).imp fun pool event h ↦ h.orderly

/-- The caller has got its count, from the server that processed its request. -/
theorem served_countBegun :
    ∃ final, run (WiredPool.step goClient maxFrameSizeDefault 1)
        (.connected wiredHandshake.1 wiredHandshake.2) countBegun = some final ∧
      (final.connections 0).callerView.counted 0 ≠ none ∧
      (final.connections 0).Served decodeSlice maxFrameSizeDefault := by
  obtain ⟨final, hrun, hcount⟩ := Option.map_eq_some_iff.mp run_countBegun
  refine ⟨final, hrun, fun hnone ↦ ?_, served_of_orderly goClient decodeSlice
    maxFrameSizeDefault 1 wiredHandshake.1 wiredHandshake.2 goClient_decode
    (orderly_countBegun.imp fun _ _ h ↦ h.1) hrun 0⟩
  rw [hnone] at hcount
  cases hcount

/-- The server has processed the count, once. -/
theorem processesOnce_countBegun :
    ∃ final, run (WiredPool.step goClient maxFrameSizeDefault 1)
        (.connected wiredHandshake.1 wiredHandshake.2) countBegun = some final ∧
      (final.connections 0).ProcessesOnce maxFrameSizeDefault := by
  obtain ⟨final, hrun, -⟩ := Option.map_eq_some_iff.mp run_countBegun
  exact ⟨final, hrun, processesOnce_of_orderly goClient decodeSlice maxFrameSizeDefault 1
    wiredHandshake.1 wiredHandshake.2 goClient_decode (orderly_countBegun.imp fun _ _ h ↦ h.1)
    hrun 0⟩

end MongoCore.Clients
