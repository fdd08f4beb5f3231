import MongoCore.Clients.Pool

/-!
# A call gets the reply to its own request

No client compares the request id of a reply, and a call that fails leaves what it has not read in
its connection.  A call therefore gets its own reply only if nobody else is using its connection,
and nobody has left it in the middle of a frame.

The condition is on the state in which a call begins: every earlier call on the connection has
written nothing or has read one whole frame.  The invariant follows the only call in progress on a
connection, and relates the bytes it has read, and those it has not read yet, to at most one reply
and at most one shutdown notice.

A shutdown notice is no reply to anything.  A call that reads one fails, because its envelope is no
BSON document.
-/

namespace MongoCore.Clients

open MongoCore.Data MongoCore.Transport MongoCore.Library.TransitionSystem

/-! ## The property -/

/-- A frame is the server's reply to a call: it was written after the call began, and carries the
id of its request. -/
def Call.IsReply (t : BinaryTransport) (call : Call) (frame : Frame) : Prop :=
  frame ∈ t.answered.drop call.since ∧ frame.header.reqId = call.reqId

/-- The bytes are the first bytes of a frame that is for a call: its reply, or a notice. -/
def Call.ReadsFrom (t : BinaryTransport) (call : Call) (held : Bytes) : Prop :=
  ∃ frame, (frame = shutdownFrame ∨ call.IsReply t frame) ∧ held <+: writeFrame frame

/-- A call reads only what is for it, from its first byte on; when it succeeds, it has read the
whole reply to its own request and returns what that reply says. -/
def Call.GetsOwnReply (client : Client) (t : BinaryTransport) (call : Call) : Prop :=
  match call.phase with
  | .reading held | .broken held => call.ReadsFrom t held
  | .ended held outcome => call.ReadsFrom t held ∧
      ∀ reply, outcome = .ok reply → ∃ frame, call.IsReply t frame ∧ held = writeFrame frame ∧
        client.readReply (writeFrame frame) = .ok reply
  | _ => True

/-- Every call on every connection of a pool gets its own reply, or fails. -/
def BinaryTransportPool.OwnReplies (client : Client) (pool : BinaryTransportPool) : Prop :=
  ∀ connection caller call, (pool.connections connection).calls caller = some call →
    call.GetsOwnReply client (pool.connections connection)

/-- The condition on the steps of a connection: a call begins when every earlier one is settled,
and no request or reply is longer than the length field can say. -/
def Exclusive (t : BinaryTransport) : PoolEvent → Prop
  | .send _ _ envelope rawDocs => t.Settled ∧ 6 + (envelope.length + rawDocs.length) < 2 ^ 32
  | .reply frame => 6 + payloadSize frame < 2 ^ 32
  | _ => True

/-! ## What the server reads of a request -/

/-- The header of what was written for a frame. -/
theorem decode_writeFrame {frame : Frame} (hfits : FitsHeader frame) :
    FrameHeader.decode (writeFrame frame) =
      .ok { frame.header with msgLen := 6 + payloadSize frame } := by
  let header : FrameHeader := { frame.header with msgLen := 6 + payloadSize frame }
  have hwritten : writeFrame frame = header.encode ++ (frame.envelope ++ frame.rawDocs) := by
    have hmsgLen := Nat.mod_eq_of_lt hfits.msgLen
    rw [payloadSize] at hmsgLen
    rw [writeFrame, hmsgLen, List.append_assoc]
    rfl
  rw [hwritten]
  apply FrameHeader.decode_encode
  · exact hfits.msgLen
  · exact hfits.reqId

/-- Of a request that was written in part, the server reads nothing; of one that was written to its
end, it reads the request. -/
theorem firstFrame?_of_request {maxFrameSize : ℕ} {request frame : Frame} {stream rest : Bytes}
    (hfits : FitsHeader request) (hstream : stream <+: writeFrame request)
    (h : firstFrame? maxFrameSize stream = some (.ok frame, rest)) :
    stream = writeFrame request ∧ rest = [] ∧ frame.header.reqId = request.header.reqId := by
  unfold firstFrame? at h
  split_ifs at h with hshort
  have hlong : headerSize ≤ stream.length := Nat.not_lt.mp hshort
  obtain ⟨missing, hmissing⟩ := hstream
  have hwritten : readHeader maxFrameSize (writeFrame request) =
      readHeader maxFrameSize stream := by
    rw [← hmissing, readHeader_append maxFrameSize hlong]
  cases hheader : readHeader maxFrameSize stream with
  | error error => simp [hheader] at h
  | ok header =>
    have hdecoded := readHeader_eq (hwritten.trans hheader)
    rw [decode_writeFrame hfits] at hdecoded
    have hpayload : header.payloadLen = payloadSize request := by
      rw [← Except.ok.inj hdecoded]
      exact Nat.add_sub_cancel_left 6 (payloadSize request)
    rw [hheader] at h
    dsimp only at h
    split_ifs at h with hpart
    obtain ⟨hframe, hrest⟩ := Prod.mk.inj (Option.some.inj h)
    have hlength : (writeFrame request).length ≤ stream.length := by
      rw [length_writeFrame]
      omega
    have hwhole : stream = writeFrame request :=
      List.IsPrefix.eq_of_length_le ⟨missing, hmissing⟩ hlength
    have htake : stream.take (headerSize + header.payloadLen) = stream := by
      apply List.take_of_length_le
      rw [hwhole, length_writeFrame, hpayload]
    rw [htake] at hframe
    have hsame := header_of_readResult hframe
    rw [hheader] at hsame
    refine ⟨hwhole, ?_, ?_⟩
    · rw [← hrest]
      apply List.drop_of_length_le
      rw [hwhole, length_writeFrame, hpayload]
    · rw [← Except.ok.inj hsame, ← Except.ok.inj hdecoded]

/-! ## What a client reads of a notice -/

theorem fitsHeader_shutdownFrame : FitsHeader shutdownFrame := by
  constructor <;> decide +kernel

/-- The envelope of a notice announces more bytes than it has. -/
theorem payload_shutdownFrame :
    ((writeFrame shutdownFrame).drop headerSize).length = 51 ∧
      readInt32LE ((writeFrame shutdownFrame).drop headerSize) = 0x6873227b ∧
      ofLittleEndian (((writeFrame shutdownFrame).drop headerSize).take 4) = 0x6873227b ∧
      opcodeOf (writeFrame shutdownFrame) = 0x3F := by
  decide +kernel

/-- Whatever a client takes as the envelope of a notice is no document, if no document ends beyond
its bytes. -/
theorem decode_envelope_shutdownFrame {client : Client}
    (hdecode : ∀ bytes document, client.decode bytes = some document →
      ofLittleEndian (bytes.take 4) ≤ bytes.length) {response : FrameResponse}
    (h : client.readPayload (opcodeOf (writeFrame shutdownFrame))
      ((writeFrame shutdownFrame).drop headerSize) = .ok response) :
    client.decode response.envelope = none := by
  obtain ⟨hlength, hsigned, hunsigned, hopcode⟩ := payload_shutdownFrame
  rw [hopcode] at h
  generalize (writeFrame shutdownFrame).drop headerSize = payload at h hlength hsigned hunsigned
  unfold Client.readPayload at h
  cases hlanguage : client.language with
  | go =>
    simp [hlanguage, goReadPayload, hlength, hunsigned, Opcode.toU8] at h
  | python =>
    simp [hlanguage, pythonReadPayload, hlength, hsigned, Opcode.toU8] at h
  | java =>
    simp [hlanguage, javaReadPayload, hlength, hsigned] at h
  | typescript =>
    have henvelope : sliceTo payload 0x6873227b = payload := by
      rw [sliceTo, if_pos (by decide)]
      apply List.take_of_length_le
      rw [hlength]
      decide
    simp [hlanguage, typescriptReadPayload, hlength, hsigned, henvelope, Opcode.toU8] at h
    rw [← h]
    cases hdocument : client.decode payload with
    | none => rfl
    | some document =>
      have hends := hdecode payload document hdocument
      rw [hunsigned, hlength] at hends
      exact absurd hends (by decide)

/-- No client returns anything for a notice. -/
theorem readReply_shutdownFrame {client : Client}
    (hdecode : ∀ bytes document, client.decode bytes = some document →
      ofLittleEndian (bytes.take 4) ≤ bytes.length) (reply : Document × Bytes) :
    client.readReply (writeFrame shutdownFrame) ≠ .ok reply := by
  intro h
  unfold Client.readReply at h
  cases hread : client.readFrame (writeFrame shutdownFrame) with
  | error error => simp [hread, bind, Except.bind] at h
  | ok response =>
    have hpayload : client.readPayload (opcodeOf (writeFrame shutdownFrame))
        ((writeFrame shutdownFrame).drop headerSize) = .ok response := by
      unfold Client.readFrame at hread
      cases hsize : client.payloadLen (msgLenOf (writeFrame shutdownFrame)) with
      | error error => simp [hsize, bind, Except.bind] at hread
      | ok size => simpa [hsize, bind, Except.bind] using hread
    simp [hread, bind, Except.bind, decode_envelope_shutdownFrame hdecode hpayload] at h

/-! ## The server's side of a call -/

/-- The shutdown notice, or nothing. -/
def IsNotice (frames : List Frame) : Prop := frames = [] ∨ frames = [shutdownFrame]

/-- A connection without a call in progress: nothing is on its way in either direction; or the
server has left, and at most its notice is on its way. -/
def BinaryTransport.Quiet (t : BinaryTransport) : Prop :=
  (t.closing = false → t.requests = [] ∧ t.unanswered = [] ∧ t.replies = []) ∧
    (t.closing = true → ∃ notice, IsNotice notice ∧ t.replies = notice.flatMap writeFrame)

/-- How far the server has got with the request of the only call in progress.  The call has still
to write `left`, and `frames` is what the server has written since it began. -/
inductive Progress (t : BinaryTransport) (call : Call) : Bytes → List Frame → Prop
  | writing {left : Bytes} (request : Frame) (hopen : t.closing = false)
      (hfits : FitsHeader request) (hreqId : request.header.reqId = call.reqId)
      (hwritten : t.requests ++ left = writeFrame request) (hidle : t.unanswered = []) :
      Progress t call left []
  | waiting (hopen : t.closing = false) (hread : t.requests = [])
      (hbusy : t.unanswered = [] ∨ t.unanswered = [call.reqId]) : Progress t call [] []
  | answered (reply : Frame) (hopen : t.closing = false) (hread : t.requests = [])
      (hidle : t.unanswered = []) (hreply : call.IsReply t reply) (hfits : FitsHeader reply) :
      Progress t call [] [reply]
  | left {left : Bytes} (reply : Option Frame) (notice : List Frame) (hclosing : t.closing = true)
      (hreply : ∀ frame ∈ reply, call.IsReply t frame ∧ FitsHeader frame)
      (hnotice : IsNotice notice) : Progress t call left (reply.toList ++ notice)

section Progress

variable {t t' : BinaryTransport} {call : Call} {left : Bytes} {frames : List Frame}

/-- The progress does not depend on the phase of the call, nor on what it has read. -/
theorem Progress.congr (h : Progress t call left frames) {phase : CallPhase}
    (hclosing : t'.closing = t.closing) (hrequests : t'.requests = t.requests)
    (hunanswered : t'.unanswered = t.unanswered) (hanswered : t'.answered = t.answered) :
    Progress t' { call with phase := phase } left frames := by
  have hsame : ∀ frame, call.IsReply t frame →
      ({ call with phase := phase } : Call).IsReply t' frame := by
    intro frame hframe
    rw [Call.IsReply, hanswered]
    exact hframe
  cases h with
  | writing request hopen hfits hreqId hwritten hidle =>
    exact .writing request (hclosing.trans hopen) hfits hreqId (hrequests ▸ hwritten)
      (hunanswered.trans hidle)
  | waiting hopen hread hbusy =>
    exact .waiting (hclosing.trans hopen) (hrequests.trans hread) (hunanswered ▸ hbusy)
  | answered reply hopen hread hidle hreply hfits =>
    exact .answered reply (hclosing.trans hopen) (hrequests.trans hread)
      (hunanswered.trans hidle) (hsame reply hreply) hfits
  | left reply notice hclosed hreply hnotice =>
    exact .left reply notice (hclosing.trans hclosed)
      (fun frame hframe ↦ ⟨hsame frame (hreply frame hframe).1, (hreply frame hframe).2⟩) hnotice

/-- What the server has written is for the call. -/
theorem Progress.mem (h : Progress t call left frames) {frame : Frame} (hframe : frame ∈ frames) :
    FitsHeader frame ∧ (frame = shutdownFrame ∨ call.IsReply t frame) := by
  cases h with
  | writing => exact absurd hframe List.not_mem_nil
  | waiting => exact absurd hframe List.not_mem_nil
  | answered reply hopen hread hidle hreply hfits =>
    obtain rfl := List.mem_singleton.mp hframe
    exact ⟨hfits, .inr hreply⟩
  | left reply notice hclosing hreply hnotice =>
    rcases List.mem_append.mp hframe with hmem | hmem
    · obtain ⟨hown, hfits⟩ := hreply frame (Option.mem_toList.mp hmem)
      exact ⟨hfits, .inr hown⟩
    · rcases hnotice with rfl | rfl
      · exact absurd hmem List.not_mem_nil
      · obtain rfl := List.mem_singleton.mp hmem
        exact ⟨fitsHeader_shutdownFrame, .inl rfl⟩

/-- Once the first frame has been read, the connection is quiet. -/
theorem Progress.quiet_of_cons {frame : Frame} (h : Progress t call left (frame :: frames))
    (hreplies : t.replies = frames.flatMap writeFrame) : t.Quiet := by
  generalize hall : frame :: frames = all at h
  cases h with
  | writing => exact absurd hall (List.cons_ne_nil _ _)
  | waiting => exact absurd hall (List.cons_ne_nil _ _)
  | answered reply hopen hread hidle hreply hfits =>
    obtain ⟨-, rfl⟩ := List.cons.inj hall
    exact ⟨fun _ ↦ ⟨hread, hidle, hreplies⟩, fun hclosed ↦ absurd (hopen.symm.trans hclosed)
      (by decide)⟩
  | left reply notice hclosing hreply hnotice =>
    refine ⟨fun hopen ↦ absurd (hopen.symm.trans hclosing) (by decide), fun _ ↦ ⟨frames, ?_,
      hreplies⟩⟩
    cases reply with
    | some reply =>
      obtain ⟨-, rfl⟩ := List.cons.inj hall
      exact hnotice
    | none =>
      rcases hnotice with rfl | rfl
      · exact absurd hall (List.cons_ne_nil _ _)
      · obtain ⟨-, rfl⟩ := List.cons.inj hall
        exact .inl rfl

/-- Writing a byte of the request. -/
theorem Progress.write {byte : UInt8} (h : Progress t call (byte :: left) frames) :
    Progress { t with requests := t.requests ++ [byte] } call left frames := by
  generalize hall : byte :: left = all at h
  cases h with
  | writing request hopen hfits hreqId hwritten hidle =>
    refine .writing request hopen hfits hreqId ?_ hidle
    rw [← hwritten, ← hall, List.append_assoc]
    rfl
  | waiting => exact absurd hall (List.cons_ne_nil _ _)
  | answered => exact absurd hall (List.cons_ne_nil _ _)
  | left reply notice hclosing hreply hnotice => exact .left reply notice hclosing hreply hnotice

theorem firstFrame?_nil (maxFrameSize : ℕ) : firstFrame? maxFrameSize [] = none := by
  rw [firstFrame?, if_pos (by decide)]

/-- The server reads a frame: it is the request of the call. -/
theorem Progress.receive {maxFrameSize : ℕ} {frame : Frame} {requests : Bytes}
    (h : Progress t call left frames) (hopen : t.closing = false)
    (hfirst : firstFrame? maxFrameSize t.requests = some (.ok frame, requests)) :
    Progress { t with
      requests := requests, unanswered := t.unanswered ++ [frame.header.reqId] }
      call left frames := by
  have hnonempty : t.requests ≠ [] := by
    intro hempty
    rw [hempty, firstFrame?_nil] at hfirst
    exact absurd hfirst (by simp)
  cases h with
  | writing request hopen hfits hreqId hwritten hidle =>
    obtain ⟨hwhole, hrest, hsame⟩ := firstFrame?_of_request hfits ⟨left, hwritten⟩ hfirst
    have hleft : left = [] := by
      rw [hwhole] at hwritten
      exact List.append_right_eq_self.mp hwritten
    subst hleft
    refine .waiting hopen hrest (.inr ?_)
    change t.unanswered ++ [frame.header.reqId] = [call.reqId]
    rw [hidle, hsame, hreqId]
    rfl
  | waiting _ hread => exact absurd hread hnonempty
  | answered _ _ hread => exact absurd hread hnonempty
  | left _ _ hclosing => exact absurd (hopen.symm.trans hclosing) (by decide)

/-- The server leaves. -/
theorem Progress.leave (h : Progress t call left frames) (hopen : t.closing = false)
    {notice : List Frame} (hnotice : IsNotice notice) (hclosing : t'.closing = true)
    (hanswered : t'.answered = t.answered) : Progress t' call left (frames ++ notice) := by
  cases h with
  | writing => exact .left none notice hclosing (by simp) hnotice
  | waiting => exact .left none notice hclosing (by simp) hnotice
  | answered reply _ _ _ hreply hfits =>
    refine .left (some reply) notice hclosing (fun frame hframe ↦ ?_) hnotice
    obtain rfl := Option.some.inj hframe
    rw [Call.IsReply, hanswered]
    exact ⟨hreply, hfits⟩
  | left _ _ hclosed => exact absurd (hopen.symm.trans hclosed) (by decide)

/-- The server replies: it is the reply to the call. -/
theorem Progress.reply {frame : Frame} (h : Progress t call left frames)
    (hopen : t.closing = false) (hmem : frame.header.reqId ∈ t.unanswered)
    (hsince : call.since ≤ t.answered.length) (hreqId : call.reqId < 2 ^ 32)
    (hlength : 6 + payloadSize frame < 2 ^ 32) :
    frames = [] ∧ Progress { t with
      unanswered := t.unanswered.erase frame.header.reqId
      replies := t.replies ++ writeFrame frame
      answered := t.answered ++ [frame] } call left [frame] := by
  cases h with
  | writing request _ _ _ _ hidle =>
    rw [hidle] at hmem
    exact absurd hmem List.not_mem_nil
  | answered _ _ _ hidle =>
    rw [hidle] at hmem
    exact absurd hmem List.not_mem_nil
  | left _ _ hclosing => exact absurd (hopen.symm.trans hclosing) (by decide)
  | waiting _ hread hbusy =>
    rcases hbusy with hbusy | hbusy
    · rw [hbusy] at hmem
      exact absurd hmem List.not_mem_nil
    · have hsame : frame.header.reqId = call.reqId := by
        rw [hbusy] at hmem
        exact List.mem_singleton.mp hmem
      have hidle : t.unanswered.erase frame.header.reqId = [] := by
        rw [hbusy, hsame]
        simp
      have hnew : frame ∈ (t.answered ++ [frame]).drop call.since := by
        rw [List.drop_append_of_le_length hsince]
        simp
      exact ⟨rfl, .answered frame hopen hread hidle ⟨hnew, hsame⟩
        ⟨hlength, hsame ▸ hreqId⟩⟩

/-- The server drops a request. -/
theorem Progress.drop {reqId : ℕ} (h : Progress t call left frames) :
    Progress { t with unanswered := t.unanswered.erase reqId } call left frames := by
  have hnone : t.unanswered = [] → t.unanswered.erase reqId = [] := by
    intro hidle
    rw [hidle]
    rfl
  cases h with
  | writing request hopen hfits hreqId hwritten hidle =>
    exact .writing request hopen hfits hreqId hwritten (hnone hidle)
  | waiting hopen hread hbusy =>
    refine .waiting hopen hread ?_
    change t.unanswered.erase reqId = [] ∨ t.unanswered.erase reqId = [call.reqId]
    rcases hbusy with hbusy | hbusy
    · exact .inl (hnone hbusy)
    · by_cases hsame : call.reqId = reqId
      · left
        simp [hbusy, hsame]
      · right
        simp [hbusy, hsame]
  | answered reply hopen hread hidle hreply hfits =>
    exact .answered reply hopen hread (hnone hidle) hreply hfits
  | left reply notice hclosing hreply hnotice => exact .left reply notice hclosing hreply hnotice

end Progress

/-! ## The invariant -/

/-- A call in progress has read `held`, the first bytes of the first frame that the server has
written since it began. -/
def Call.Along (t : BinaryTransport) (call : Call) (left held : Bytes) : Prop :=
  ∃ frames, Progress t call left frames ∧ held ++ t.replies = frames.flatMap writeFrame ∧
    ∀ frame ∈ frames.head?, held <+: writeFrame frame

def Call.Active (call : Call) : Prop :=
  match call.phase with
  | .sending _ | .reading _ => True
  | _ => False

def Call.InStep (t : BinaryTransport) (call : Call) : Prop :=
  match call.phase with
  | .sending left => call.Along t left []
  | .reading held => call.Along t [] held
  | _ => True

/-- The invariant of a connection on which calls are exclusive. -/
structure Invariant (client : Client) (t : BinaryTransport) : Prop where
  quiet : t.Settled → t.Quiet
  alone : ∀ caller call, t.calls caller = some call → call.Active → call.InStep t ∧
    ∀ other otherCall, other ≠ caller → t.calls other = some otherCall → otherCall.Settled
  bounds : ∀ caller call, t.calls caller = some call →
    call.since ≤ t.answered.length ∧ call.reqId < 2 ^ 32
  correct : ∀ caller call, t.calls caller = some call → call.GetsOwnReply client t

theorem Call.Settled.not_active {call : Call} (h : call.Settled) : ¬ call.Active := by
  unfold Call.Settled at h
  unfold Call.Active
  cases hphase : call.phase <;> simp_all

theorem invariant_connected (client : Client) : Invariant client .connected where
  quiet _ := ⟨fun _ ↦ ⟨rfl, rfl, rfl⟩, fun hclosing ↦ absurd hclosing (by decide)⟩
  alone caller call hcall := absurd hcall (by simp [BinaryTransport.connected])
  bounds caller call hcall := absurd hcall (by simp [BinaryTransport.connected])
  correct caller call hcall := absurd hcall (by simp [BinaryTransport.connected])

section Steps

variable {client : Client} {t t' : BinaryTransport}

/-- More replies of the server do not change what a call has got. -/
theorem Call.IsReply.mono {call : Call} {frame : Frame} {more : List Frame}
    (h : call.IsReply t frame) (hanswered : t'.answered = t.answered ++ more) :
    call.IsReply t' frame := by
  refine ⟨?_, h.2⟩
  rw [hanswered, List.drop_append]
  exact List.mem_append_left _ h.1

theorem Call.ReadsFrom.mono {call : Call} {held : Bytes} {more : List Frame}
    (h : call.ReadsFrom t held) (hanswered : t'.answered = t.answered ++ more) :
    call.ReadsFrom t' held := by
  obtain ⟨frame, hframe, hprefix⟩ := h
  exact ⟨frame, hframe.imp_right fun hreply ↦ hreply.mono hanswered, hprefix⟩

theorem Call.GetsOwnReply.mono {call : Call} {more : List Frame}
    (h : call.GetsOwnReply client t) (hanswered : t'.answered = t.answered ++ more) :
    call.GetsOwnReply client t' := by
  unfold Call.GetsOwnReply at h ⊢
  cases hphase : call.phase with
  | reading held =>
    rw [hphase] at h
    exact h.mono hanswered
  | broken held =>
    rw [hphase] at h
    exact h.mono hanswered
  | ended held outcome =>
    rw [hphase] at h
    refine ⟨h.1.mono hanswered, fun reply hreply ↦ ?_⟩
    obtain ⟨frame, hframe, hheld, hread⟩ := h.2 reply hreply
    exact ⟨frame, hframe.mono hanswered, hheld, hread⟩
  | sending left => trivial
  | refused => trivial

/-- A step of the server keeps the invariant if it keeps quiet connections quiet and the calls in
progress in step. -/
theorem Invariant.of_server (hinv : Invariant client t) {more : List Frame}
    (hcalls : t'.calls = t.calls) (hanswered : t'.answered = t.answered ++ more)
    (hquiet : t.Quiet → t'.Quiet)
    (halong : ∀ caller call left held, t.calls caller = some call → call.Along t left held →
      call.Along t' left held) : Invariant client t' where
  quiet hsettled := by
    apply hquiet
    apply hinv.quiet
    intro caller call hcall
    apply hsettled caller call
    rw [hcalls]
    exact hcall
  alone caller call hcall hactive := by
    rw [hcalls] at hcall
    obtain ⟨hstep, hothers⟩ := hinv.alone caller call hcall hactive
    refine ⟨?_, fun other otherCall hne hother ↦ hothers other otherCall hne (hcalls ▸ hother)⟩
    unfold Call.InStep at hstep ⊢
    cases hphase : call.phase with
    | sending left =>
      rw [hphase] at hstep
      exact halong caller call left [] hcall hstep
    | reading held =>
      rw [hphase] at hstep
      exact halong caller call [] held hcall hstep
    | _ => trivial
  bounds caller call hcall := by
    rw [hcalls] at hcall
    obtain ⟨hsince, hreqId⟩ := hinv.bounds caller call hcall
    refine ⟨?_, hreqId⟩
    rw [hanswered, List.length_append]
    exact Nat.le_add_right_of_le hsince
  correct caller call hcall := by
    rw [hcalls] at hcall
    exact (hinv.correct caller call hcall).mono hanswered

/-- A step of the only call in progress keeps the invariant if the call stays in step, or leaves a
quiet connection. -/
theorem Invariant.of_call (hinv : Invariant client t) {caller : ℕ} {call : Call}
    (hcall : t.calls caller = some call) (hactive : call.Active) {phase : CallPhase}
    (hstep : ({ call with phase := phase } : Call).InStep (t'.setPhase caller call phase))
    (hquiet : ({ call with phase := phase } : Call).Settled →
      (t'.setPhase caller call phase).Quiet)
    (hcorrect : ({ call with phase := phase } : Call).GetsOwnReply client
      (t'.setPhase caller call phase))
    (hcalls : t'.calls = t.calls) (hanswered : t'.answered = t.answered) :
    Invariant client (t'.setPhase caller call phase) := by
  have hself : (t'.setPhase caller call phase).calls caller =
      some { call with phase := phase } := Function.update_self _ _ _
  have hother : ∀ other, other ≠ caller →
      (t'.setPhase caller call phase).calls other = t.calls other := by
    intro other hne
    rw [← hcalls]
    exact Function.update_of_ne hne _ _
  have hreplies : (t'.setPhase caller call phase).answered = t.answered := hanswered
  have hsettled := (hinv.alone caller call hcall hactive).2
  constructor
  · intro hall
    exact hquiet (hall caller _ hself)
  · intro other otherCall hmem hotherActive
    by_cases hsame : other = caller
    · subst hsame
      obtain rfl := Option.some.inj (hself.symm.trans hmem)
      refine ⟨hstep, fun another anotherCall hne hanother ↦ ?_⟩
      rw [hother another hne] at hanother
      exact hsettled another anotherCall hne hanother
    · rw [hother other hsame] at hmem
      exact absurd hotherActive (hsettled other otherCall hsame hmem).not_active
  · intro other otherCall hmem
    rw [hreplies]
    by_cases hsame : other = caller
    · subst hsame
      obtain rfl := Option.some.inj (hself.symm.trans hmem)
      exact hinv.bounds other call hcall
    · rw [hother other hsame] at hmem
      exact hinv.bounds other otherCall hmem
  · intro other otherCall hmem
    by_cases hsame : other = caller
    · subst hsame
      obtain rfl := Option.some.inj (hself.symm.trans hmem)
      exact hcorrect
    · rw [hother other hsame] at hmem
      have hmore : (t'.setPhase caller call phase).answered = t.answered ++ [] := by
        rw [hreplies, List.append_nil]
      exact (hinv.correct other otherCall hmem).mono hmore

/-! ## The steps -/

/-- What is sent is the frame of the request, with the next id. -/
theorem eq_requestFrame_of_sendFrame {reqCounter : ℕ} {opcode : Opcode}
    {envelope rawDocs : Bytes} {frame : Frame}
    (h : (client.sendFrame reqCounter opcode envelope rawDocs).2 = some frame) :
    frame = requestFrame opcode ((reqCounter + 1) % 2 ^ 32) envelope rawDocs := by
  unfold Client.sendFrame at h
  cases hlanguage : client.language <;> simp only [hlanguage] at h
  · exact (Option.some.inj h).symm
  · split_ifs at h
    exact (Option.some.inj h).symm
  · split_ifs at h
    exact (Option.some.inj h).symm
  · split_ifs at h
    exact (Option.some.inj h).symm

/-- A call begins on a connection whose calls are settled. -/
theorem invariant_send (hinv : Invariant client t) {caller : ℕ} {opcode : Opcode}
    {envelope rawDocs : Bytes} (hsettled : t.Settled)
    (hlength : 6 + (envelope.length + rawDocs.length) < 2 ^ 32) :
    Invariant client (t.send client caller opcode envelope rawDocs) := by
  have hquiet := hinv.quiet hsettled
  have hreqId : (t.reqCounter + 1) % 2 ^ 32 < 2 ^ 32 := Nat.mod_lt _ (by decide)
  let sent := client.sendFrame t.reqCounter opcode envelope rawDocs
  let call : Call :=
    { reqId := (t.reqCounter + 1) % 2 ^ 32
      since := t.answered.length
      phase := .ofSent sent.2 }
  have hcalls : (t.send client caller opcode envelope rawDocs).calls =
      Function.update t.calls caller (some call) := rfl
  have hother : ∀ other otherCall, other ≠ caller →
      (t.send client caller opcode envelope rawDocs).calls other = some otherCall →
      t.calls other = some otherCall := by
    intro other otherCall hne hmem
    rwa [hcalls, Function.update_of_ne hne] at hmem
  have hself : ∀ otherCall,
      (t.send client caller opcode envelope rawDocs).calls caller = some otherCall →
      call = otherCall := by
    intro otherCall hmem
    rw [hcalls, Function.update_self] at hmem
    exact Option.some.inj hmem
  constructor
  · intro _
    exact hquiet
  · intro other otherCall hmem hactive
    by_cases hsame : other = caller
    · subst hsame
      obtain rfl := hself otherCall hmem
      refine ⟨?_, fun another anotherCall hne hanother ↦
        hsettled another anotherCall (hother another anotherCall hne hanother)⟩
      cases hframe : sent.2 with
      | none => simp [Call.Active, call, hframe, CallPhase.ofSent] at hactive
      | some frame =>
        obtain rfl := eq_requestFrame_of_sendFrame hframe
        have hfits : FitsHeader (requestFrame opcode ((t.reqCounter + 1) % 2 ^ 32) envelope
            rawDocs) := ⟨hlength, hreqId⟩
        simp only [Call.InStep, call, hframe, CallPhase.ofSent]
        by_cases hopen : t.closing = false
        · obtain ⟨hrequests, hidle, hreplies⟩ := hquiet.1 hopen
          refine ⟨[], .writing _ hopen hfits rfl ?_ hidle, ?_, by simp⟩
          · change t.requests ++ _ = _
            rw [hrequests, List.nil_append]
          · exact hreplies
        · have hclosing : t.closing = true := by simpa using hopen
          obtain ⟨notice, hnotice, hreplies⟩ := hquiet.2 hclosing
          exact ⟨notice, .left none notice hclosing (by simp) hnotice, hreplies, by simp⟩
    · have hmem := hother other otherCall hsame hmem
      exact absurd hactive (hsettled other otherCall hmem).not_active
  · intro other otherCall hmem
    by_cases hsame : other = caller
    · subst hsame
      obtain rfl := hself otherCall hmem
      exact ⟨Nat.le_refl _, hreqId⟩
    · exact hinv.bounds other otherCall (hother other otherCall hsame hmem)
  · intro other otherCall hmem
    by_cases hsame : other = caller
    · subst hsame
      obtain rfl := hself otherCall hmem
      cases hframe : sent.2 <;> simp [Call.GetsOwnReply, call, hframe, CallPhase.ofSent]
    · have hmore : (t.send client caller opcode envelope rawDocs).answered = t.answered ++ [] :=
        (List.append_nil _).symm
      exact (hinv.correct other otherCall (hother other otherCall hsame hmem)).mono hmore

/-- A call that stays active need not leave a quiet connection. -/
theorem quiet_of_active {call : Call} (hactive : call.Active) (hsettled : call.Settled) :
    t.Quiet :=
  absurd hactive hsettled.not_active

section Call

variable {caller : ℕ} {call : Call} {held : Bytes}

/-- A call that reads has read the first bytes of a frame that is for it. -/
theorem Call.Along.readsFrom {left : Bytes} (h : call.Along t left held) :
    call.ReadsFrom t held := by
  obtain ⟨frames, hprogress, hstream, hfirst⟩ := h
  cases frames with
  | nil =>
    obtain ⟨rfl, -⟩ := List.append_eq_nil_iff.mp hstream
    exact ⟨shutdownFrame, .inl rfl, List.nil_prefix⟩
  | cons frame frames =>
    exact ⟨frame, (hprogress.mem List.mem_cons_self).2, hfirst frame rfl⟩

/-- The call writes a byte of its request. -/
theorem invariant_write (hinv : Invariant client t) (hcall : t.calls caller = some call)
    {byte : UInt8} {left : Bytes} (hphase : call.phase = .sending (byte :: left)) :
    Invariant client ({ t with requests := t.requests ++ [byte] }.setPhase caller call
      (if left.isEmpty then .reading [] else .sending left)) := by
  have hactive : call.Active := by simp [Call.Active, hphase]
  have hstep := (hinv.alone caller call hcall hactive).1
  rw [Call.InStep, hphase] at hstep
  obtain ⟨frames, hprogress, hstream, hfirst⟩ := hstep
  have halong : ∀ phase, ({ call with phase := phase } : Call).Along
      ({ t with requests := t.requests ++ [byte] }.setPhase caller call phase) left [] := by
    intro phase
    exact ⟨frames, hprogress.write.congr rfl rfl rfl rfl, hstream, hfirst⟩
  refine hinv.of_call hcall hactive ?_ (quiet_of_active ?_) ?_ rfl rfl
  · cases left with
    | nil => exact halong _
    | cons next left => exact halong _
  · cases left <;> simp [Call.Active]
  · cases left with
    | nil => exact ⟨shutdownFrame, .inl rfl, List.nil_prefix⟩
    | cons next left => trivial

/-- The call takes a byte of a frame. -/
theorem invariant_take (hinv : Invariant client t) (hcall : t.calls caller = some call)
    (hphase : call.phase = .reading held) (hwants : client.Wants held) {byte : UInt8}
    {replies : Bytes} (hreplies : t.replies = byte :: replies) :
    Invariant client ({ t with replies := replies }.setPhase caller call
      (.reading (held ++ [byte]))) := by
  have hactive : call.Active := by simp [Call.Active, hphase]
  have hstep := (hinv.alone caller call hcall hactive).1
  rw [Call.InStep, hphase] at hstep
  obtain ⟨frames, hprogress, hstream, hfirst⟩ := hstep
  rw [hreplies, List.append_cons] at hstream
  have halong : ({ call with phase := .reading (held ++ [byte]) } : Call).Along
      ({ t with replies := replies }.setPhase caller call (.reading (held ++ [byte]))) []
      (held ++ [byte]) := by
    refine ⟨frames, hprogress.congr rfl rfl rfl rfl, hstream, fun frame hframe ↦ ?_⟩
    cases frames with
    | nil => exact absurd hframe (by simp)
    | cons other frames =>
      obtain rfl : other = frame := by simpa using hframe
      have hfits := (hprogress.mem List.mem_cons_self).1
      have hlength := length_lt_of_wants hfits (hfirst other rfl) hwants
      -- both are the first bytes of the stream
      have htaken : held ++ [byte] <+: (other :: frames).flatMap writeFrame := by
        rw [← hstream]
        exact List.prefix_append _ _
      have hwritten : writeFrame other <+: (other :: frames).flatMap writeFrame := by
        rw [List.flatMap_cons]
        exact List.prefix_append _ _
      apply List.prefix_of_prefix_length_le htaken hwritten
      rw [List.length_append, List.length_singleton]
      omega
  exact hinv.of_call hcall hactive halong (quiet_of_active trivial) halong.readsFrom rfl rfl

/-- A read that wants no more bytes has the header of a frame. -/
theorem exists_frame_of_not_wants {frames : List Frame} {replies : Bytes}
    (hstream : held ++ replies = frames.flatMap writeFrame) (hwants : ¬ client.Wants held) :
    ∃ frame rest, frames = frame :: rest := by
  cases frames with
  | cons frame rest => exact ⟨frame, rest, rfl⟩
  | nil =>
    obtain ⟨rfl, -⟩ := List.append_eq_nil_iff.mp hstream
    exact absurd (.inl (by decide)) hwants

/-- In a frame of the server, no payload length is negative. -/
theorem not_jumps {frame : Frame} (hfits : FitsHeader frame) (hheld : held <+: writeFrame frame)
    (hwants : ¬ client.Wants held) : ¬ client.Jumps held := by
  rintro ⟨size, hsize, hnegative⟩
  have hheader : headerSize ≤ held.length := Nat.not_lt.mp fun hshort ↦ hwants (.inl hshort)
  rw [msgLenOf_eq hfits hheld hheader] at hsize
  have hcount := payloadLen_eq client hfits.msgLen hsize
  omega

/-- A whole frame that is a part of a frame is that frame. -/
theorem eq_writeFrame_of_isWholeFrame {frame : Frame} (hfits : FitsHeader frame)
    (hheld : held <+: writeFrame frame) (hwhole : IsWholeFrame held) : held = writeFrame frame := by
  obtain ⟨-, hlength⟩ := hwhole
  rw [msgLenOf_eq hfits hheld (by omega), Nat.add_sub_cancel_left] at hlength
  apply hheld.eq_of_length_le
  rw [length_writeFrame, hlength]

/-- A reply was returned only for a frame that was read to its end. -/
theorem readFrame_of_readReply {reply : Document × Bytes}
    (h : client.readReply held = .ok reply) : ∃ response, client.readFrame held = .ok response := by
  unfold Client.readReply at h
  cases hread : client.readFrame held with
  | error error => simp [hread, bind, Except.bind] at h
  | ok response => exact ⟨response, rfl⟩

/-- The call finishes its read. -/
theorem invariant_finish
    (hdecode : ∀ bytes document, client.decode bytes = some document →
      ofLittleEndian (bytes.take 4) ≤ bytes.length)
    (hinv : Invariant client t) (hcall : t.calls caller = some call)
    (hphase : call.phase = .reading held) (hwants : ¬ client.Wants held) {extra : ℕ}
    (hextra : extra = 0 ∨ client.Jumps held) :
    Invariant client ({ t with replies := t.replies.drop extra }.setPhase caller call
      (.ended (held ++ t.replies.take extra)
        (client.readReply (held ++ t.replies.take extra)))) := by
  have hactive : call.Active := by simp [Call.Active, hphase]
  have hstep := (hinv.alone caller call hcall hactive).1
  rw [Call.InStep, hphase] at hstep
  have hreads := hstep.readsFrom
  obtain ⟨frames, hprogress, hstream, hfirst⟩ := hstep
  obtain ⟨frame, rest, rfl⟩ := exists_frame_of_not_wants hstream hwants
  have hheld := hfirst frame rfl
  obtain ⟨hfits, hown⟩ := hprogress.mem List.mem_cons_self
  obtain rfl : extra = 0 := hextra.resolve_right (not_jumps hfits hheld hwants)
  rw [List.take_zero, List.append_nil, List.drop_zero]
  refine hinv.of_call hcall hactive trivial (fun hsettled ↦ ?_) ?_ rfl rfl
  · have hwhole := eq_writeFrame_of_isWholeFrame hfits hheld hsettled
    rw [List.flatMap_cons, hwhole] at hstream
    have hsame : Progress (t.setPhase caller call (.ended held (client.readReply held)))
        { call with phase := .refused } [] (frame :: rest) := hprogress.congr rfl rfl rfl rfl
    exact hsame.quiet_of_cons (List.append_cancel_left hstream)
  · refine ⟨hreads, fun reply hreply ↦ ?_⟩
    obtain ⟨response, hresponse⟩ := readFrame_of_readReply hreply
    have hwhole := eq_writeFrame_of_readFrame hfits hheld hwants hresponse
    rw [hwhole] at hreply
    refine ⟨frame, hown.resolve_left fun hnotice ↦ ?_, hwhole, hreply⟩
    rw [hnotice] at hreply
    exact readReply_shutdownFrame hdecode reply hreply

/-- The call fails before it has read a frame. -/
theorem invariant_fail (hinv : Invariant client t) (hcall : t.calls caller = some call)
    (hphase : (∃ left, call.phase = .sending left ∧ held = []) ∨ call.phase = .reading held) :
    Invariant client (t.setPhase caller call (.broken held)) := by
  have hactive : call.Active := by
    rcases hphase with ⟨left, hphase, -⟩ | hphase <;> simp [Call.Active, hphase]
  have hstep := (hinv.alone caller call hcall hactive).1
  rw [Call.InStep] at hstep
  refine hinv.of_call hcall hactive trivial False.elim ?_ rfl rfl
  rcases hphase with ⟨left, hphase, rfl⟩ | hphase
  · exact ⟨shutdownFrame, .inl rfl, List.nil_prefix⟩
  · rw [hphase] at hstep
    exact hstep.readsFrom

end Call

/-- The server reads a request, or fails to. -/
theorem invariant_receive {serverMax : ℕ} (hinv : Invariant client t) (hopen : t.closing = false)
    {first : Except FrameError Frame} {requests : Bytes}
    (hfirst : firstFrame? serverMax t.requests = some (first, requests)) :
    (∀ frame, first = .ok frame → Invariant client { t with
      requests := requests, unanswered := t.unanswered ++ [frame.header.reqId] }) ∧
    (∀ error, first = .error error →
      Invariant client { t with requests := requests, closing := true }) := by
  have hnone : ∀ t' : BinaryTransport, t.Quiet → t'.Quiet := by
    intro t' hquiet
    rw [(hquiet.1 hopen).1, firstFrame?_nil] at hfirst
    exact absurd hfirst (by simp)
  constructor
  · rintro frame rfl
    refine hinv.of_server rfl (List.append_nil _).symm (hnone _) fun _ call left held _ h ↦ ?_
    obtain ⟨frames, hprogress, hstream, hhead⟩ := h
    exact ⟨frames, hprogress.receive hopen hfirst, hstream, hhead⟩
  · rintro error rfl
    refine hinv.of_server rfl (List.append_nil _).symm (hnone _) fun _ call left held _ h ↦ ?_
    obtain ⟨frames, hprogress, hstream, hhead⟩ := h
    have hleft := hprogress.leave hopen (.inl rfl)
      (rfl : ({ t with requests := requests, closing := true } : BinaryTransport).closing = true)
      rfl
    rw [List.append_nil] at hleft
    exact ⟨frames, hleft, hstream, hhead⟩

/-- The server replies to a request. -/
theorem invariant_reply (hinv : Invariant client t) {frame : Frame} (hopen : t.closing = false)
    (hmem : frame.header.reqId ∈ t.unanswered) (hlength : 6 + payloadSize frame < 2 ^ 32) :
    Invariant client { t with
      unanswered := t.unanswered.erase frame.header.reqId
      replies := t.replies ++ writeFrame frame
      answered := t.answered ++ [frame] } := by
  refine hinv.of_server rfl rfl (fun hquiet ↦ ?_) fun caller call left held hcall h ↦ ?_
  · rw [(hquiet.1 hopen).2.1] at hmem
    exact absurd hmem List.not_mem_nil
  · obtain ⟨frames, hprogress, hstream, hhead⟩ := h
    obtain ⟨hsince, hreqId⟩ := hinv.bounds caller call hcall
    obtain ⟨rfl, hreply⟩ := hprogress.reply hopen hmem hsince hreqId hlength
    obtain ⟨rfl, hreplies⟩ := List.append_eq_nil_iff.mp hstream
    refine ⟨[frame], hreply, ?_, fun _ _ ↦ List.nil_prefix⟩
    simp [hreplies]

/-- The server drops a request. -/
theorem invariant_drop (hinv : Invariant client t) (reqId : ℕ) :
    Invariant client { t with unanswered := t.unanswered.erase reqId } := by
  refine hinv.of_server rfl (List.append_nil _).symm (fun hquiet ↦ ⟨fun hopen ↦ ?_, hquiet.2⟩)
    fun _ call left held _ h ↦ ?_
  · obtain ⟨hrequests, hidle, hreplies⟩ := hquiet.1 hopen
    refine ⟨hrequests, ?_, hreplies⟩
    change t.unanswered.erase reqId = []
    rw [hidle]
    rfl
  · obtain ⟨frames, hprogress, hstream, hhead⟩ := h
    exact ⟨frames, hprogress.drop, hstream, hhead⟩

/-- The server leaves, with a notice or without. -/
theorem invariant_leave (hinv : Invariant client t) (hopen : t.closing = false) (notice : Bool) :
    Invariant client { t with
      closing := true
      replies := t.replies ++ (if notice then writeFrame shutdownFrame else []) } := by
  have hnotice : ∃ frames, IsNotice frames ∧
      (if notice then writeFrame shutdownFrame else []) = frames.flatMap writeFrame := by
    cases notice with
    | true => exact ⟨[shutdownFrame], .inr rfl, by simp⟩
    | false => exact ⟨[], .inl rfl, rfl⟩
  obtain ⟨more, hmore, hwritten⟩ := hnotice
  rw [hwritten]
  refine hinv.of_server rfl (List.append_nil _).symm (fun hquiet ↦ ?_)
    fun _ call left held _ h ↦ ?_
  · refine ⟨fun hclosing ↦ absurd hclosing (by simp), fun _ ↦ ⟨more, hmore, ?_⟩⟩
    change t.replies ++ _ = _
    rw [(hquiet.1 hopen).2.2, List.nil_append]
  · obtain ⟨frames, hprogress, hstream, hhead⟩ := h
    refine ⟨frames ++ more, hprogress.leave hopen hmore rfl rfl, ?_, fun frame hframe ↦ ?_⟩
    · change held ++ (t.replies ++ _) = _
      rw [← List.append_assoc, hstream, List.flatMap_append]
    · cases frames with
      | nil =>
        obtain ⟨rfl, -⟩ := List.append_eq_nil_iff.mp hstream
        exact List.nil_prefix
      | cons first rest => exact hhead frame hframe

/-- Every step that meets the condition keeps the invariant. -/
theorem invariant_step {serverMax : ℕ}
    (hdecode : ∀ bytes document, client.decode bytes = some document →
      ofLittleEndian (bytes.take 4) ≤ bytes.length)
    (hinv : Invariant client t) {event : PoolEvent} (hexclusive : Exclusive t event)
    (hstep : t.step client serverMax event = some t') : Invariant client t' := by
  cases event with
  | send caller opcode envelope rawDocs =>
    simp only [BinaryTransport.step] at hstep
    split at hstep
    · exact absurd hstep (by simp)
    · obtain rfl := Option.some.inj hstep
      exact invariant_send hinv hexclusive.1 hexclusive.2
  | write caller =>
    obtain ⟨call, hcall, hstep⟩ := Option.bind_eq_some_iff.mp hstep
    split at hstep
    · rename_i hphase
      obtain rfl := Option.some.inj hstep
      exact invariant_write hinv hcall hphase
    · exact absurd hstep (by simp)
  | take caller =>
    obtain ⟨call, hcall, hstep⟩ := Option.bind_eq_some_iff.mp hstep
    split at hstep
    · rename_i hphase hreplies
      split_ifs at hstep with hwants
      obtain rfl := Option.some.inj hstep
      exact invariant_take hinv hcall hphase hwants hreplies
    · exact absurd hstep (by simp)
  | finish caller extra =>
    obtain ⟨call, hcall, hstep⟩ := Option.bind_eq_some_iff.mp hstep
    split at hstep
    · rename_i hphase
      split_ifs at hstep with hready
      obtain rfl := Option.some.inj hstep
      exact invariant_finish hdecode hinv hcall hphase hready.1 hready.2
    · exact absurd hstep (by simp)
  | fail caller =>
    obtain ⟨call, hcall, hstep⟩ := Option.bind_eq_some_iff.mp hstep
    split at hstep
    · rename_i left hphase
      obtain rfl := Option.some.inj hstep
      exact invariant_fail hinv hcall (.inl ⟨left, hphase, rfl⟩)
    · rename_i held hphase
      obtain rfl := Option.some.inj hstep
      exact invariant_fail hinv hcall (.inr hphase)
    · exact absurd hstep (by simp)
  | receive =>
    simp only [BinaryTransport.step] at hstep
    split_ifs at hstep with hclosing
    have hopen : t.closing = false := by simpa using hclosing
    split at hstep
    · exact absurd hstep (by simp)
    · rename_i frame requests hfirst
      obtain rfl := Option.some.inj hstep
      exact (invariant_receive hinv hopen hfirst).1 frame rfl
    · rename_i error requests hfirst
      obtain rfl := Option.some.inj hstep
      exact (invariant_receive hinv hopen hfirst).2 error rfl
  | reply frame =>
    simp only [BinaryTransport.step] at hstep
    split_ifs at hstep with hready
    obtain rfl := Option.some.inj hstep
    exact invariant_reply hinv hready.1 hready.2 hexclusive
  | drop reqId =>
    obtain rfl := Option.some.inj hstep
    exact invariant_drop hinv reqId
  | leave notice =>
    by_cases hclosing : t.closing = true
    · rw [BinaryTransport.step, if_pos hclosing] at hstep
      exact absurd hstep (by simp)
    · rw [BinaryTransport.step, if_neg hclosing] at hstep
      obtain rfl := Option.some.inj hstep
      exact invariant_leave hinv (by simpa using hclosing) notice

end Steps

/-! ## Pools -/

/-- The condition on the steps of a pool: each meets the condition on its connection. -/
def BinaryTransportPool.Exclusive (pool : BinaryTransportPool) (event : ℕ × PoolEvent) : Prop :=
  Clients.Exclusive (pool.connections event.1) event.2

/-- A step of a pool is a step of one of its connections. -/
theorem connections_of_step {client : Client} {serverMax size : ℕ}
    {pool next : BinaryTransportPool} {event : ℕ × PoolEvent}
    (h : pool.step client serverMax size event = some next) :
    ∃ t, (pool.connections event.1).step client serverMax event.2 = some t ∧
      next.connections = Function.update pool.connections event.1 t := by
  obtain ⟨connection, step⟩ := event
  by_cases hsize : connection < size
  swap
  · rw [BinaryTransportPool.step, if_neg hsize] at h
    exact absurd h (by simp)
  rw [BinaryTransportPool.step, if_pos hsize] at h
  obtain ⟨t, ht, hnext⟩ := Option.bind_eq_some_iff.mp h
  refine ⟨t, ht, ?_⟩
  split at hnext
  · split_ifs at hnext
    rw [← Option.some.inj hnext]
  · rw [← Option.some.inj hnext]

/-- In every run of a pool in which calls are exclusive, every call gets its own reply or fails. -/
theorem ownReplies_of_exclusive (client : Client) (serverMax size : ℕ)
    (hdecode : ∀ bytes document, client.decode bytes = some document →
      ofLittleEndian (bytes.take 4) ≤ bytes.length)
    {events : List (ℕ × PoolEvent)} {final : BinaryTransportPool}
    (hexclusive : StepsMeet (BinaryTransportPool.step client serverMax size)
      BinaryTransportPool.Exclusive .connected events)
    (hrun : run (BinaryTransportPool.step client serverMax size) .connected events = some final) :
    final.OwnReplies client := by
  have hpreserved : ∀ (pool : BinaryTransportPool) (event : ℕ × PoolEvent)
      (next : BinaryTransportPool), (∀ connection, Invariant client (pool.connections connection)) →
      pool.Exclusive event → pool.step client serverMax size event = some next →
      ∀ connection, Invariant client (next.connections connection) := by
    intro pool event next hinv hcondition hstep connection
    obtain ⟨t, ht, hconnections⟩ := connections_of_step hstep
    rw [hconnections]
    by_cases hsame : connection = event.1
    · rw [hsame, Function.update_self]
      exact invariant_step hdecode (hinv event.1) hcondition ht
    · rw [Function.update_of_ne hsame]
      exact hinv connection
  have hinvariant : ∀ connection, Invariant client (final.connections connection) :=
    invariant_of_run hpreserved (fun _ ↦ invariant_connected client) hexclusive hrun
  intro connection caller call hcall
  exact (hinvariant connection).correct caller call hcall

/-! ## Two callers on one connection -/

/-- The envelope of a count request for the collection `c` of the database `d`. -/
def countRequest : Bytes :=
  [40, 0, 0, 0, 2, 100, 98, 0, 2, 0, 0, 0, 100, 0, 2, 99, 111, 108, 108, 0, 2, 0, 0, 0, 99, 0,
    3, 102, 105, 108, 116, 101, 114, 0, 5, 0, 0, 0, 0, 0]

def countReply (count : UInt8) : Bytes :=
  [39, 0, 0, 0, 18, 99, 111, 117, 110, 116, 0, count, 0, 0, 0, 0, 0, 0, 0, 16, 100, 111, 99, 95,
    98, 121, 116, 101, 115, 95, 108, 101, 110, 0, 0, 0, 0, 0, 0]

/-- A Go client whose library decodes the replies to counts. -/
def countClient : Client where
  language := .go
  maxFrameSize := maxFrameSizeDefault
  decode bytes :=
    if bytes = countReply 7 then some [("count", .int64 7), ("doc_bytes_len", .int32 0)]
    else if bytes = countReply 9 then some [("count", .int64 9), ("doc_bytes_len", .int32 0)]
    else none

theorem countClient_decode (bytes : Bytes) (document : Document)
    (h : countClient.decode bytes = some document) :
    ofLittleEndian (bytes.take 4) ≤ bytes.length := by
  simp only [countClient] at h
  split_ifs at h with hseven hnine
  · rw [hseven]
    decide
  · rw [hnine]
    decide

/-- A caller begins a count and writes its request. -/
def countEvents (caller : ℕ) : List (ℕ × PoolEvent) :=
  (0, .send caller .countDocuments countRequest []) :: List.replicate 50 (0, .write caller)

def countFrame (reqId : ℕ) (count : UInt8) : Frame :=
  serverFrame .countDocuments reqId (countReply count, [])

def readEvents (caller : ℕ) : List (ℕ × PoolEvent) :=
  List.replicate 49 (0, .take caller) ++ [(0, .finish caller 0)]

/-- Two callers count over one connection, and the second reads first. -/
def sharedEvents : List (ℕ × PoolEvent) :=
  countEvents 0 ++ countEvents 1 ++
    [(0, .receive), (0, .receive), (0, .reply (countFrame 2 7)), (0, .reply (countFrame 3 9))] ++
    readEvents 1

/-- A caller counts over the first connection. -/
def countedBy (caller : ℕ) (frame : Frame) : List (ℕ × PoolEvent) :=
  countEvents caller ++ ([(0, .receive), (0, .reply frame)] ++ readEvents caller)

/-- Two callers count over one connection, one after the other. -/
def turnsEvents : List (ℕ × PoolEvent) :=
  countedBy 0 (countFrame 2 7) ++ countedBy 1 (countFrame 3 9)

/-- The id of a call's request, the bytes it has read, the count it returns, and the replies the
server has written. -/
structure Counted where
  reqId : ℕ
  held : Bytes
  count : ℤ
  answered : List Frame
  deriving DecidableEq

def BinaryTransport.counted (t : BinaryTransport) (caller : ℕ) : Option Counted :=
  (t.calls caller).bind fun call ↦
    match call.phase with
    | .ended held (.ok (envelope, _)) =>
        match envelope.lookup "count" with
        | some (.int64 count) => some { reqId := call.reqId, held, count, answered := t.answered }
        | _ => none
    | _ => none

theorem BinaryTransport.exists_call_of_counted {t : BinaryTransport} {caller : ℕ}
    {counted : Counted} (h : t.counted caller = some counted) :
    ∃ call reply, t.calls caller = some call ∧ call.reqId = counted.reqId ∧
      call.phase = .ended counted.held (.ok reply) ∧ t.answered = counted.answered := by
  obtain ⟨call, hcall, hphase⟩ := Option.bind_eq_some_iff.mp h
  split at hphase
  · rename_i held envelope rawDocs hended
    split at hphase
    · obtain rfl := Option.some.inj hphase
      exact ⟨call, (envelope, rawDocs), hcall, rfl, hended, rfl⟩
    · exact absurd hphase (by simp)
  · exact absurd hphase (by simp)

theorem run_sharedEvents :
    (run (BinaryTransportPool.step countClient maxFrameSizeDefault 1) .connected
        sharedEvents).map (fun pool ↦ (pool.connections 0).counted 1) =
      some (some
        { reqId := 3
          held := writeFrame (countFrame 2 7)
          count := 7
          answered := [countFrame 2 7, countFrame 3 9] }) := by
  decide +kernel

/-- The second caller returns the count of the first one's collection: it reads the reply with the
first one's id to its end and reports success. -/
theorem sharedConnection_crosses_replies :
    ∃ pool, run (BinaryTransportPool.step countClient maxFrameSizeDefault 1) .connected
        sharedEvents = some pool ∧ ¬ pool.OwnReplies countClient := by
  obtain ⟨pool, hrun, hpool⟩ := Option.map_eq_some_iff.mp run_sharedEvents
  obtain ⟨call, reply, hcall, hreqId, hphase, hanswered⟩ :=
    BinaryTransport.exists_call_of_counted hpool
  refine ⟨pool, hrun, fun hown ↦ ?_⟩
  have hcorrect := hown 0 1 call hcall
  rw [Call.GetsOwnReply, hphase] at hcorrect
  obtain ⟨frame, ⟨hmem, hsame⟩, hheld, -⟩ := hcorrect.2 reply rfl
  have hframes : frame = countFrame 2 7 ∨ frame = countFrame 3 9 := by
    simpa [hanswered] using List.mem_of_mem_drop hmem
  cases hframes with
  | inl hfirst =>
    rw [hfirst, hreqId] at hsame
    exact absurd hsame (by decide)
  | inr hsecond =>
    rw [hsecond] at hheld
    exact absurd hheld (by decide +kernel)

theorem run_turnsEvents :
    (run (BinaryTransportPool.step countClient maxFrameSizeDefault 1) .connected
        (countedBy 0 (countFrame 2 7))).map (fun pool ↦ (pool.connections 0).counted 0) =
          some (some
            { reqId := 2
              held := writeFrame (countFrame 2 7)
              count := 7
              answered := [countFrame 2 7] }) ∧
      (run (BinaryTransportPool.step countClient maxFrameSizeDefault 1) .connected
        turnsEvents).map (fun pool ↦ (pool.connections 0).counted 1) =
          some (some
            { reqId := 3
              held := writeFrame (countFrame 3 9)
              count := 9
              answered := [countFrame 2 7, countFrame 3 9] }) := by
  decide +kernel

/-- A call begins in no other step than the one that sends its request. -/
theorem BinaryTransport.calls_eq_none_of_step {client : Client} {serverMax caller : ℕ}
    {t next : BinaryTransport} {event : PoolEvent} (hnone : t.calls caller = none)
    (hother : ∀ opcode envelope rawDocs, event ≠ .send caller opcode envelope rawDocs)
    (hstep : t.step client serverMax event = some next) : next.calls caller = none := by
  have hupdate (begun : ℕ) (call : Option Call) (hne : caller ≠ begun) :
      Function.update t.calls begun call caller = none := by
    rw [Function.update_of_ne hne, hnone]
  have hne {begun : ℕ} {call : Call} (hcall : t.calls begun = some call) : caller ≠ begun :=
    fun heq ↦ absurd (hnone.symm.trans (heq ▸ hcall)) (by simp)
  cases event with
  | send begun opcode envelope rawDocs =>
    simp only [BinaryTransport.step] at hstep
    split at hstep
    · exact absurd hstep (by simp)
    · obtain rfl := Option.some.inj hstep
      exact hupdate begun _ fun heq ↦ hother opcode envelope rawDocs (by rw [heq])
  | write begun =>
    obtain ⟨call, hcall, hstep⟩ := Option.bind_eq_some_iff.mp hstep
    split at hstep
    · obtain rfl := Option.some.inj hstep
      exact hupdate begun _ (hne hcall)
    · exact absurd hstep (by simp)
  | take begun =>
    obtain ⟨call, hcall, hstep⟩ := Option.bind_eq_some_iff.mp hstep
    split at hstep
    · split_ifs at hstep
      obtain rfl := Option.some.inj hstep
      exact hupdate begun _ (hne hcall)
    · exact absurd hstep (by simp)
  | finish begun extra =>
    obtain ⟨call, hcall, hstep⟩ := Option.bind_eq_some_iff.mp hstep
    split at hstep
    · split_ifs at hstep
      obtain rfl := Option.some.inj hstep
      exact hupdate begun _ (hne hcall)
    · exact absurd hstep (by simp)
  | fail begun =>
    obtain ⟨call, hcall, hstep⟩ := Option.bind_eq_some_iff.mp hstep
    split at hstep
    · obtain rfl := Option.some.inj hstep
      exact hupdate begun _ (hne hcall)
    · obtain rfl := Option.some.inj hstep
      exact hupdate begun _ (hne hcall)
    · exact absurd hstep (by simp)
  | receive =>
    simp only [BinaryTransport.step] at hstep
    split_ifs at hstep
    split at hstep
    · exact absurd hstep (by simp)
    · obtain rfl := Option.some.inj hstep
      exact hnone
    · obtain rfl := Option.some.inj hstep
      exact hnone
  | reply frame =>
    simp only [BinaryTransport.step] at hstep
    split_ifs at hstep
    obtain rfl := Option.some.inj hstep
    exact hnone
  | drop reqId =>
    obtain rfl := Option.some.inj hstep
    exact hnone
  | leave notice =>
    by_cases hclosing : t.closing = true
    · rw [BinaryTransport.step, if_pos hclosing] at hstep
      exact absurd hstep (by simp)
    · rw [BinaryTransport.step, if_neg hclosing] at hstep
      obtain rfl := Option.some.inj hstep
      exact hnone

/-- After the first count the connection is settled. -/
theorem settled_firstCount {pool : BinaryTransportPool}
    (hrun : run (BinaryTransportPool.step countClient maxFrameSizeDefault 1) .connected
      (countedBy 0 (countFrame 2 7)) = some pool) : (pool.connections 0).Settled := by
  intro caller call hcall
  by_cases hfirst : caller = 0
  · subst hfirst
    obtain ⟨other, hother, hcounted⟩ := Option.map_eq_some_iff.mp run_turnsEvents.1
    obtain rfl := Option.some.inj (hrun.symm.trans hother)
    obtain ⟨first, reply, hcallee, -, hphase, -⟩ :=
      BinaryTransport.exists_call_of_counted hcounted
    obtain rfl := Option.some.inj (hcall.symm.trans hcallee)
    rw [Call.Settled, hphase]
    exact ⟨by decide, by decide⟩
  · -- the events are those of the first caller and of the server
    have hquiet : StepsMeet (BinaryTransportPool.step countClient maxFrameSizeDefault 1)
        (fun _ event ↦ ∀ opcode envelope rawDocs, event.2 ≠ .send caller opcode envelope rawDocs)
        .connected (countedBy 0 (countFrame 2 7)) := by
      refine StepsMeet.of_forall fun state event hevent opcode envelope rawDocs ↦ ?_
      have hcases : event = (0, .send 0 .countDocuments countRequest []) ∨ event = (0, .write 0) ∨
          event = (0, .receive) ∨ event = (0, .reply (countFrame 2 7)) ∨ event = (0, .take 0) ∨
          event = (0, .finish 0 0) := by
        simpa [countedBy, countEvents, readEvents] using hevent
      rcases hcases with rfl | rfl | rfl | rfl | rfl | rfl
      · exact fun hsend ↦ hfirst (PoolEvent.send.inj hsend).1.symm
      all_goals exact PoolEvent.noConfusion
    have hpreserved (state : BinaryTransportPool) (event : ℕ × PoolEvent)
        (next : BinaryTransportPool) (hnone : (state.connections 0).calls caller = none)
        (hother : ∀ opcode envelope rawDocs, event.2 ≠ .send caller opcode envelope rawDocs)
        (hstep : state.step countClient maxFrameSizeDefault 1 event = some next) :
        (next.connections 0).calls caller = none := by
      obtain ⟨t, ht, hconnections⟩ := connections_of_step hstep
      rw [hconnections]
      by_cases hsame : event.1 = 0
      · rw [hsame] at ht ⊢
        rw [Function.update_self]
        exact BinaryTransport.calls_eq_none_of_step hnone hother ht
      · rw [Function.update_of_ne (Ne.symm hsame)]
        exact hnone
    have hnone : (pool.connections 0).calls caller = none :=
      invariant_of_run hpreserved rfl hquiet hrun
    exact absurd (hnone.symm.trans hcall) (by simp)

/-- A caller who finds the connection settled counts alone. -/
theorem exclusive_countedBy {pool : BinaryTransportPool} (hsettled : (pool.connections 0).Settled)
    (caller : ℕ) {frame : Frame} (hfits : 6 + payloadSize frame < 2 ^ 32) :
    StepsMeet (BinaryTransportPool.step countClient maxFrameSizeDefault 1)
      BinaryTransportPool.Exclusive pool (countedBy caller frame) := by
  refine ⟨⟨hsettled, by decide⟩, fun next _ ↦ StepsMeet.of_forall fun state event hevent ↦ ?_⟩
  have hcases : event = (0, .write caller) ∨ event = (0, .receive) ∨ event = (0, .reply frame) ∨
      event = (0, .take caller) ∨ event = (0, .finish caller 0) := by
    simpa [readEvents] using hevent
  rcases hcases with rfl | rfl | rfl | rfl | rfl
  · trivial
  · trivial
  · exact hfits
  · trivial
  · trivial

theorem exclusive_turnsEvents :
    StepsMeet (BinaryTransportPool.step countClient maxFrameSizeDefault 1)
      BinaryTransportPool.Exclusive .connected turnsEvents := by
  have hsettled : (BinaryTransportPool.connected.connections 0).Settled := fun caller call hcall ↦
    absurd hcall (by simp [BinaryTransportPool.connected, BinaryTransport.connected])
  exact (exclusive_countedBy hsettled 0 (by decide)).append fun pool hrun ↦
    exclusive_countedBy (settled_firstCount hrun) 1 (by decide)

/-- Callers that take turns on a connection get their own counts. -/
theorem ownReplies_of_exclusive_turns :
    ∃ pool, run (BinaryTransportPool.step countClient maxFrameSizeDefault 1) .connected
        turnsEvents = some pool ∧ pool.OwnReplies countClient := by
  obtain ⟨pool, hrun, -⟩ := Option.map_eq_some_iff.mp run_turnsEvents.2
  exact ⟨pool, hrun, ownReplies_of_exclusive countClient maxFrameSizeDefault 1 countClient_decode
    exclusive_turnsEvents hrun⟩

end MongoCore.Clients
