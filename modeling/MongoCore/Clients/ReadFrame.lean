import MongoCore.Data.Bson
import MongoCore.Transport.Frame

/-!
# Reading a frame in the client libraries

The four client libraries read the reply to a request with their own code.  Each reads a header of
ten bytes, takes the length of the payload from it, reads that many bytes, and splits them into an
envelope and raw documents.  They differ in the lengths they refuse before the payload is read, in
whether they look at the opcode, and in the key under which they look for the text of an error.

The request id in the header is read by none of them.

The BSON library of each language is a parameter, `Client.decode`.
-/

namespace MongoCore.Clients

open MongoCore.Data MongoCore.Transport

/-! ## Clients and errors -/

inductive Language where
  | go
  | python
  | java
  | typescript
  deriving DecidableEq, Repr

/-- A client library with the limit its reads apply and its BSON library. -/
structure Client where
  language : Language
  maxFrameSize : ℤ
  decode : Bytes → Option Document

/-- An error that a client raises: with a value it found in a reply, under a label; with a text of
its own; or passed on from the BSON library or the runtime. -/
inductive ClientError where
  | server (label : String) (value : Bson)
  | text (message : String)
  | library

/-- The envelope and the raw documents of a reply. -/
structure FrameResponse where
  envelope : Bytes
  rawDocs : Bytes
  deriving DecidableEq, Repr

/-! ## Machine integers and slices -/

/-- The signed 32-bit integer that an integer is truncated to. -/
def toInt32 (value : ℤ) : ℤ := (value + 2 ^ 31) % 2 ^ 32 - 2 ^ 31

/-- The signed little-endian integer in the first four bytes. -/
def readInt32LE (bytes : Bytes) : ℤ := toInt32 (ofLittleEndian (bytes.take 4))

/-- The bytes before a bound; a negative bound counts from the end. -/
def sliceTo (bytes : Bytes) (stop : ℤ) : Bytes :=
  if 0 ≤ stop then bytes.take stop.toNat else bytes.take (bytes.length - (-stop).toNat)

/-- The bytes from a bound on; a negative bound counts from the end. -/
def sliceFrom (bytes : Bytes) (start : ℤ) : Bytes :=
  if 0 ≤ start then bytes.drop start.toNat else bytes.drop (bytes.length - (-start).toNat)

/-! ## Headers -/

/-- The length field of a header. -/
def msgLenOf (held : Bytes) : ℕ := ofBigEndian (held.take 4)

def opcodeOf (held : Bytes) : ℕ := ofBigEndian ((held.drop 4).take 2) % 2 ^ 6

def goPayloadLen (maxFrameSize : ℤ) (msgLen : ℕ) : Except ClientError ℤ :=
  let payloadLen : ℤ := msgLen - 2 - 4
  if payloadLen < 0 then .error (.text s!"invalid frame: msg_len={msgLen} too small")
  else if payloadLen > maxFrameSize then
    .error (.text s!"frame too large: {payloadLen} bytes")
  else .ok payloadLen

def pythonPayloadLen (maxFrameSize : ℤ) (msgLen : ℕ) : Except ClientError ℤ :=
  let payloadLen : ℤ := msgLen - 2 - 4
  if payloadLen < 0 then .error (.text s!"Invalid frame: msg_len={msgLen} too small")
  else if payloadLen > maxFrameSize then
    .error (.text s!"Frame too large: {payloadLen} bytes")
  else .ok payloadLen

/-- The length of the payload in Java, where both lengths are signed and there is no limit. -/
def javaPayloadLen (msgLen : ℕ) : Except ClientError ℤ :=
  let payloadLen := toInt32 (toInt32 msgLen - 6)
  if payloadLen < 4 then
    .error (.text s!"Invalid frame: payload too small ({payloadLen} bytes)")
  else .ok payloadLen

/-- The length of the payload in TypeScript; it is negative for a length field below six. -/
def typescriptPayloadSize (maxFrameSize : ℤ) (msgLen : ℕ) : Except ClientError ℤ :=
  if msgLen > maxFrameSize then
    .error (.text s!"Response frame size {msgLen} exceeds max frame size {maxFrameSize}")
  else .ok (msgLen - 6)

/-- The length of the payload that a client reads after a header. -/
def Client.payloadLen (client : Client) (msgLen : ℕ) : Except ClientError ℤ :=
  match client.language with
  | .go => goPayloadLen client.maxFrameSize msgLen
  | .python => pythonPayloadLen client.maxFrameSize msgLen
  | .java => javaPayloadLen msgLen
  | .typescript => typescriptPayloadSize client.maxFrameSize msgLen

/-! ## Payloads -/

def goReadPayload (client : Client) (opcode : ℕ) (payload : Bytes) :
    Except ClientError FrameResponse :=
  if opcode = Opcode.error.toU8 then
    match (if payload.length > 0 then client.decode payload else none).bind
        (List.lookup "error") with
    | some errMsg => .error (.server "" errMsg)
    | none => .error (.text "unknown server error")
  else if payload.length = 0 then .ok { envelope := [], rawDocs := [] }
  else if payload.length < 4 then .ok { envelope := payload, rawDocs := [] }
  else
    let envelopeLen := ofLittleEndian (payload.take 4)
    if envelopeLen < 5 ∨ envelopeLen > payload.length then
      .error (.text s!"invalid envelope length: {envelopeLen} (payload={payload.length})")
    else .ok { envelope := payload.take envelopeLen, rawDocs := payload.drop envelopeLen }

def pythonReadPayload (client : Client) (opcode : ℕ) (payload : Bytes) :
    Except ClientError FrameResponse :=
  if opcode = Opcode.error.toU8 then
    if payload.length = 0 then .error (.server "" (.string "Unknown server error"))
    else if payload.length < 4 then .error .library
    else
      match client.decode (sliceTo payload (readInt32LE payload)) with
      | some err => .error (.server "" ((err.lookup "message").getD
          ((err.lookup "error").getD (.string "Unknown server error"))))
      | none => .error .library
  else if payload.length = 0 then .ok { envelope := [], rawDocs := [] }
  else if payload.length < 4 then .ok { envelope := payload, rawDocs := [] }
  else
    let envelopeLen := readInt32LE payload
    if envelopeLen < 5 ∨ envelopeLen > payload.length then
      .error (.text s!"Invalid envelope length: {envelopeLen} (payload={payload.length})")
    else .ok
      { envelope := sliceTo payload envelopeLen, rawDocs := sliceFrom payload envelopeLen }

/-- The payload of a reply in Java, whatever the opcode.  An array of negative size is refused by
the runtime. -/
def javaReadPayload (payload : Bytes) : Except ClientError FrameResponse :=
  let envelopeSize := readInt32LE payload
  if envelopeSize > payload.length then
    .error (.text ("Invalid frame: envelope size " ++
      s!"({envelopeSize}) exceeds payload ({payload.length})"))
  else if envelopeSize < 0 then .error .library
  else .ok
    { envelope := payload.take envelopeSize.toNat, rawDocs := payload.drop envelopeSize.toNat }

/-- Whether JavaScript takes a value as true. -/
def isTruthyInJavaScript : Bson → Bool
  | .null | .undefined => false
  | .boolean value => value
  | .int32 value | .int64 value => value ≠ 0
  -- zeros by their magnitude, not-a-number by a magnitude above infinity
  | .double bits => bits.toNat % 2 ^ 63 ≠ 0 ∧ bits.toNat % 2 ^ 63 ≤ 0x7FF0000000000000
  | .string value | .symbol value => value ≠ ""
  | _ => true

/-- The member of a document, if JavaScript takes its value as true. -/
def truthyMember? (document : Document) (key : String) : Option Bson :=
  (document.lookup key).filter isTruthyInJavaScript

def typescriptReadPayload (client : Client) (opcode : ℕ) (payload : Bytes) :
    Except ClientError FrameResponse :=
  if payload.length < 4 then .error .library
  else
    let envelopeSize := readInt32LE payload
    if opcode = Opcode.error.toU8 then
      match client.decode (sliceTo payload envelopeSize) with
      | some errDoc => .error (.server "" (((truthyMember? errDoc "message").orElse
          fun _ ↦ truthyMember? errDoc "error").getD (.string "Unknown server error")))
      | none => .error .library
    else .ok { envelope := sliceTo payload envelopeSize, rawDocs := sliceFrom payload envelopeSize }

def Client.readPayload (client : Client) (opcode : ℕ) (payload : Bytes) :
    Except ClientError FrameResponse :=
  match client.language with
  | .go => goReadPayload client opcode payload
  | .python => pythonReadPayload client opcode payload
  | .java => javaReadPayload payload
  | .typescript => typescriptReadPayload client opcode payload

/-! ## Frames -/

/-- A read that holds these bytes wants more. -/
def Client.Wants (client : Client) (held : Bytes) : Prop :=
  held.length < headerSize ∨
    ∃ count, client.payloadLen (msgLenOf held) = .ok count ∧
      held.length < headerSize + count.toNat

instance (client : Client) (held : Bytes) : Decidable (client.Wants held) :=
  match h : client.payloadLen (msgLenOf held) with
  | .error _ => decidable_of_iff (held.length < headerSize) (by simp [Client.Wants, h])
  | .ok count => decidable_of_iff
      (held.length < headerSize ∨ held.length < headerSize + count.toNat)
      (by simp [Client.Wants, h])

/-- What a client's read of a frame gives when it wants no more bytes. -/
def Client.readFrame (client : Client) (held : Bytes) : Except ClientError FrameResponse := do
  let _ ← client.payloadLen (msgLenOf held)
  client.readPayload (opcodeOf held) (held.drop headerSize)

/-- What every method does with a reply: read the frame and decode the envelope. -/
def Client.readReply (client : Client) (held : Bytes) : Except ClientError (Document × Bytes) := do
  let response ← client.readFrame held
  match client.decode response.envelope with
  | some envelope => .ok (envelope, response.rawDocs)
  | none => .error .library

/-! ## Reading what was written -/

def payloadSize (frame : Frame) : ℕ := frame.envelope.length + frame.rawDocs.length

/-- The lengths and the request id of a frame fit the fields of its header. -/
structure FitsHeader (frame : Frame) : Prop where
  msgLen : 6 + payloadSize frame < 2 ^ 32
  reqId : frame.header.reqId < 2 ^ 32

@[simp]
theorem length_writeFrame (frame : Frame) :
    (writeFrame frame).length = headerSize + payloadSize frame := by
  rw [Transport.length_writeFrame, payloadSize, Nat.add_assoc]

theorem take_writeFrame (frame : Frame) :
    (writeFrame frame).take 4 = toBigEndian 4 ((6 + payloadSize frame) % 2 ^ 32) := by
  simp [writeFrame, FrameHeader.encode, payloadSize]

/-- The length field of what was written, read from any part that holds the header. -/
theorem msgLenOf_eq {frame : Frame} (hfits : FitsHeader frame) {held : Bytes}
    (hheld : held <+: writeFrame frame) (hlength : headerSize ≤ held.length) :
    msgLenOf held = 6 + payloadSize frame := by
  have hfour : 4 ≤ held.length := Nat.le_trans (by decide) hlength
  have htake : held.take 4 = (writeFrame frame).take 4 := by
    obtain ⟨rest, hrest⟩ := hheld
    rw [← hrest, List.take_append_of_le_length hfour]
  have hfield : 6 + payloadSize frame < 2 ^ (8 * 4) := hfits.msgLen
  rw [msgLenOf, htake, take_writeFrame, Nat.mod_eq_of_lt hfits.msgLen,
    ofBigEndian_toBigEndian hfield]

/-- A length that a client accepts is the length of the payload. -/
theorem payloadLen_eq (client : Client) {count : ℕ} {size : ℤ} (hcount : 6 + count < 2 ^ 32)
    (h : client.payloadLen (6 + count) = .ok size) : size = count := by
  unfold Client.payloadLen at h
  cases hlanguage : client.language with
  | go =>
    simp only [hlanguage, goPayloadLen] at h
    split_ifs at h
    have hsize := Except.ok.inj h
    omega
  | python =>
    simp only [hlanguage, pythonPayloadLen] at h
    split_ifs at h
    have hsize := Except.ok.inj h
    omega
  | java =>
    simp only [hlanguage, javaPayloadLen] at h
    split_ifs at h with hshort
    have hsize := Except.ok.inj h
    simp only [toInt32] at hshort hsize
    omega
  | typescript =>
    simp only [hlanguage, typescriptPayloadSize] at h
    split_ifs at h
    have hsize := Except.ok.inj h
    omega

section Prefix

variable {client : Client} {frame : Frame} {held : Bytes}

/-- A read that wants more bytes of a frame has not read all of it. -/
theorem length_lt_of_wants (hfits : FitsHeader frame) (hheld : held <+: writeFrame frame)
    (hwants : client.Wants held) : held.length < (writeFrame frame).length := by
  rw [length_writeFrame]
  rcases hwants with hshort | ⟨size, hsize, hshort⟩
  · omega
  · by_cases hheader : held.length < headerSize
    · omega
    · rw [msgLenOf_eq hfits hheld (Nat.not_lt.mp hheader)] at hsize
      have hcount := payloadLen_eq client hfits.msgLen hsize
      omega

/-- A read that returned a response has read the frame to its last byte. -/
theorem eq_writeFrame_of_readFrame (hfits : FitsHeader frame) (hheld : held <+: writeFrame frame)
    (hwants : ¬ client.Wants held) {response : FrameResponse}
    (h : client.readFrame held = .ok response) : held = writeFrame frame := by
  have hheader : headerSize ≤ held.length := Nat.not_lt.mp fun hshort ↦ hwants (.inl hshort)
  have hmsgLen := msgLenOf_eq hfits hheld hheader
  cases hsize : client.payloadLen (msgLenOf held) with
  | error error => simp [Client.readFrame, hsize, bind, Except.bind] at h
  | ok size =>
    have hlong : headerSize + size.toNat ≤ held.length :=
      Nat.not_lt.mp fun hshort ↦ hwants (.inr ⟨size, hsize, hshort⟩)
    rw [hmsgLen] at hsize
    have hcount := payloadLen_eq client hfits.msgLen hsize
    apply hheld.eq_of_length_le
    rw [length_writeFrame]
    omega

end Prefix

end MongoCore.Clients
