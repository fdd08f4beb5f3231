import MongoCore.Transport.Frame

/-!
# Writing frames and reading them back

A frame is written with one vectored write, which may take only some of the bytes; what is left is
then written from a copy.  Whatever the vectored write takes, the bytes of the frame are sent, each
once.  A list of frames is read back from them, and what follows them is left.
-/

namespace MongoCore.Transport

open MongoCore.Library.Framing

/-! ## Writing -/

/-- A vectored write that takes the first `written` bytes of its buffers. -/
def writeVectored (stream : Bytes) (bufs : List Bytes) (written : ℕ) : Bytes :=
  stream ++ bufs.flatten.take written

/-- Write a frame to a stream whose vectored write returns `written`. -/
def writeFrameTo (stream : Bytes) (frame : Frame) (written : ℕ) : Bytes :=
  let payloadLen := frame.envelope.length + frame.rawDocs.length
  let computedHeader : FrameHeader := { frame.header with msgLen := (6 + payloadLen) % 2 ^ 32 }
  let headerBytes := computedHeader.encode
  let totalLen := headerSize + frame.envelope.length + frame.rawDocs.length
  let stream := writeVectored stream [headerBytes, frame.envelope, frame.rawDocs] written
  if written < totalLen then
    let allBytes := headerBytes ++ frame.envelope ++ frame.rawDocs
    stream ++ allBytes.drop written
  else stream

/-- Write frames one after the other; each with what its vectored write returns. -/
def writeFrames (stream : Bytes) (entries : List (Frame × ℕ)) : Bytes :=
  entries.foldl (fun stream entry ↦ writeFrameTo stream entry.1 entry.2) stream

/-- No byte of a frame is written twice and none is skipped. -/
theorem writeFrameTo_eq (stream : Bytes) (frame : Frame) (written : ℕ) :
    writeFrameTo stream frame written = stream ++ writeFrame frame := by
  have hbufs : ∀ header : Bytes, [header, frame.envelope, frame.rawDocs].flatten =
      header ++ frame.envelope ++ frame.rawDocs := by
    intro header
    simp
  unfold writeFrameTo writeVectored
  dsimp only
  rw [hbufs]
  split_ifs with hshort
  · rw [List.append_assoc, List.take_append_drop]
    rfl
  · have hlength : (writeFrame frame).length ≤ written := by
      rw [length_writeFrame]
      exact Nat.not_lt.mp hshort
    exact congrArg (stream ++ ·) (List.take_of_length_le hlength)

theorem writeFrames_eq (stream : Bytes) (entries : List (Frame × ℕ)) :
    writeFrames stream entries = stream ++ entries.flatMap fun entry ↦ writeFrame entry.1 := by
  induction entries generalizing stream with
  | nil => simp [writeFrames]
  | cons entry entries ih =>
    calc writeFrames stream (entry :: entries)
        = writeFrames (writeFrameTo stream entry.1 entry.2) entries := rfl
      _ = stream ++ writeFrame entry.1 ++ entries.flatMap fun entry ↦ writeFrame entry.1 := by
        rw [ih, writeFrameTo_eq]
      _ = stream ++ (entry :: entries).flatMap fun entry ↦ writeFrame entry.1 := by
        rw [List.flatMap_cons, List.append_assoc]

/-! ## Reading -/

/-- Read a number of bytes, all or none. -/
def readExact (count : ℕ) (stream : Bytes) : Except FrameError (Bytes × Bytes) :=
  if stream.length < count then .error (.io "early eof")
  else .ok (stream.take count, stream.drop count)

/-- Read a frame from a stream; what follows the frame is left in the stream. -/
def readFrame (maxFrameSize : ℕ) (stream : Bytes) : Except FrameError (Frame × Bytes) := do
  let (headerBuf, stream) ← readExact headerSize stream
  let header ← FrameHeader.decode headerBuf
  if header.msgLen > maxFrameSize then .error .frameTooLarge
  else if header.payloadLen = 0 then
    pure ({ header := header, envelope := [], rawDocs := [] }, stream)
  else
    let (payload, stream) ← readExact header.payloadLen stream
    let frame ← splitPayload header payload
    pure (frame, stream)

def readFrames (maxFrameSize : ℕ) : ℕ → Bytes → Except FrameError (List Frame × Bytes)
  | 0, stream => pure ([], stream)
  | count + 1, stream => do
      let (frame, stream) ← readFrame maxFrameSize stream
      let (frames, stream) ← readFrames maxFrameSize count stream
      pure (frame :: frames, stream)

theorem readExact_append {count : ℕ} {front : Bytes} (h : front.length = count) (rest : Bytes) :
    readExact count (front ++ rest) = .ok (front, rest) := by
  have hlong : ¬ (front ++ rest).length < count := by
    rw [List.length_append]
    omega
  rw [readExact, if_neg hlong, List.take_left' h, List.drop_left' h]

/-- A stream that starts with a frame: the read takes the frame and leaves the rest. -/
theorem readFrame_append {maxFrameSize : ℕ} {chunk : Bytes} {header : FrameHeader}
    (hheader : readHeader maxFrameSize chunk = .ok header)
    (hlength : chunk.length = headerSize + header.payloadLen) (rest : Bytes) :
    readFrame maxFrameSize (chunk ++ rest) =
      (readResult maxFrameSize chunk).map fun frame ↦ (frame, rest) := by
  have hsplit : chunk ++ rest = chunk.take headerSize ++ (chunk.drop headerSize ++ rest) := by
    rw [← List.append_assoc, List.take_append_drop]
  have htake : (chunk.take headerSize).length = headerSize := by
    rw [List.length_take]
    omega
  have hdrop : (chunk.drop headerSize).length = header.payloadLen := by
    rw [List.length_drop]
    omega
  have hdecode : readHeader maxFrameSize (chunk.take headerSize) = .ok header := by
    rw [← hheader, ← readHeader_append maxFrameSize htake.ge (chunk.drop headerSize),
      List.take_append_drop]
  unfold readHeader at hdecode
  cases hbuf : FrameHeader.decode (chunk.take headerSize) with
  | error error => simp [hbuf, bind, Except.bind] at hdecode
  | ok decoded =>
    simp only [hbuf, bind, Except.bind] at hdecode
    split_ifs at hdecode with hlimit
    obtain rfl : decoded = header := Except.ok.inj hdecode
    rw [readFrame, hsplit, readExact_append htake]
    simp only [bind, Except.bind, hbuf, if_neg hlimit, readResult, hheader]
    split_ifs with hpayload
    · rw [List.eq_nil_of_length_eq_zero (hdrop.trans hpayload)]
      rfl
    · rw [readExact_append hdrop]
      dsimp only
      cases splitPayload decoded (chunk.drop headerSize) with
      | error error => rfl
      | ok frame => rfl

/-! ## The round trip -/

/-- A frame that a connection can carry: its envelope starts with its own length, and its length
and request id fit their fields. -/
structure Sendable (maxFrameSize : ℕ) (frame : Frame) : Prop where
  reqId : frame.header.reqId < 2 ^ 32
  envelope_length : 4 ≤ frame.envelope.length
  envelope_lt : frame.envelope.length < 2 ^ 31
  envelope_prefix : ofLittleEndian (frame.envelope.take 4) = frame.envelope.length
  fits : 6 + (frame.envelope.length + frame.rawDocs.length) ≤ maxFrameSize

/-- A frame as it is read back: its header says its length. -/
def stamped (frame : Frame) : Frame :=
  { frame with header :=
    { frame.header with msgLen := 6 + (frame.envelope.length + frame.rawDocs.length) } }

/-- What is written for a frame does not depend on the length in its header. -/
theorem writeFrame_stamped (frame : Frame) : writeFrame (stamped frame) = writeFrame frame := rfl

theorem wellFormed_stamped {maxFrameSize : UInt32} {frame : Frame}
    (h : Sendable maxFrameSize.toNat frame) : WellFormed maxFrameSize.toNat (stamped frame) where
  msgLen := (Nat.add_assoc _ _ _).symm
  msgLen_lt := h.fits.trans_lt maxFrameSize.toNat_lt
  msgLen_le := h.fits
  reqId := h.reqId
  envelope_length := h.envelope_length
  envelope_lt := h.envelope_lt
  envelope_prefix := h.envelope_prefix

/-- A frame is read back from the front of a stream. -/
theorem readFrame_writeFrame {maxFrameSize : UInt32} {frame : Frame}
    (h : Sendable maxFrameSize.toNat frame) (rest : Bytes) :
    readFrame maxFrameSize.toNat (writeFrame frame ++ rest) = .ok (stamped frame, rest) := by
  have hformed := wellFormed_stamped h
  have hlength : (writeFrame frame).length = headerSize + (stamped frame).header.payloadLen := by
    rw [length_writeFrame, FrameHeader.payloadLen, stamped]
    dsimp only
    omega
  have hheader := readHeader_writeFrame hformed
  rw [writeFrame_stamped] at hheader
  have hresult := readResult_writeFrame hformed
  rw [writeFrame_stamped] at hresult
  rw [readFrame_append hheader hlength, hresult]
  rfl

/-- Whatever the vectored writes take, the bytes sent for a list of frames are those of the frames,
each once, and reading as many frames gives them back and leaves what follows. -/
theorem readFrames_writeFrames {maxFrameSize : UInt32} {entries : List (Frame × ℕ)}
    (h : ∀ entry ∈ entries, Sendable maxFrameSize.toNat entry.1) (rest : Bytes) :
    writeFrames [] entries = (entries.flatMap fun entry ↦ writeFrame entry.1) ∧
      readFrames maxFrameSize.toNat entries.length (writeFrames [] entries ++ rest) =
        .ok (entries.map fun entry ↦ stamped entry.1, rest) := by
  have hsent : ∀ entries : List (Frame × ℕ), writeFrames [] entries =
      entries.flatMap fun entry ↦ writeFrame entry.1 := fun entries ↦ writeFrames_eq [] entries
  refine ⟨hsent entries, ?_⟩
  induction entries with
  | nil => rfl
  | cons entry entries ih =>
    have hrest := ih fun other hother ↦ h other (List.mem_cons_of_mem _ hother)
    have hfirst := readFrame_writeFrame (h entry List.mem_cons_self)
      (writeFrames [] entries ++ rest)
    rw [hsent, List.flatMap_cons, List.append_assoc, ← hsent, List.length_cons, readFrames, hfirst]
    simp only [bind, Except.bind, hrest]
    rfl

/-- Two frames; the first is sent in two writes. -/
def twoEntries : List (Frame × ℕ) :=
  [(⟨⟨0, .ofServer .find, 1⟩, [5, 0, 0, 0, 0], [7, 8]⟩, 11),
    (⟨⟨0, .ofServer .find, 2⟩, [5, 0, 0, 0, 0], []⟩, 15)]

theorem sendable_twoEntries :
    ∀ entry ∈ twoEntries, Sendable (64 : UInt32).toNat entry.1 := by
  intro entry hentry
  rcases List.mem_pair.mp hentry with rfl | rfl <;> constructor <;> decide

theorem readFrames_twoEntries :
    writeFrames [] twoEntries = (twoEntries.flatMap fun entry ↦ writeFrame entry.1) ∧
      readFrames (64 : UInt32).toNat twoEntries.length (writeFrames [] twoEntries ++ [9]) =
        .ok (twoEntries.map fun entry ↦ stamped entry.1, [9]) :=
  readFrames_writeFrames sendable_twoEntries [9]

end MongoCore.Transport
