import MongoCore.Library.Framing
import Mathlib.Algebra.GroupWithZero.Nat
import Mathlib.Data.Int.Notation
import Mathlib.Tactic.SplitIfs

/-!
# Frames of the binary transport

A frame is a header of ten bytes, a BSON envelope, and raw document bytes.  The header holds the
length of what follows its first four bytes, the flags, and the request id, in big-endian order.

Reading a frame means reading exactly ten bytes and then exactly the payload the header announces.
`need` is the number of bytes such a read still wants when some are held, and `readResult` what it
returns once it wants none; a header that is rejected ends the read before the payload.  Byte
strings are lists of bytes, and the fields of the header are natural numbers below the size of
their integer type.
-/

namespace MongoCore.Transport

open MongoCore.Library.Framing

abbrev Bytes := List UInt8

def headerSize : ℕ := 10

/-- The default limit on the length field, 64 MiB. -/
def maxFrameSizeDefault : ℕ := 64 * 1024 * 1024

/-! ## Errors, opcodes and flags -/

/-- Why a frame cannot be read or written. -/
inductive FrameError where
  | invalidOpcode (value : ℕ)
  | frameTooLarge
  | docBytesLenMismatch
  | malformedEnvelope (message : String)
  | io (message : String)
  deriving DecidableEq, Repr

inductive Opcode where
  | find | findOne | insertOne | insertMany | updateOne | updateMany | deleteOne | deleteMany
  | aggregate | countDocuments | createIndex | listCollections | runCommand | findOneAndUpdate
  | findOneAndDelete | bulkWrite | distinct | createCollection | dropCollection
  | error | handshake
  deriving DecidableEq, Repr

/-- The number of an operation code. -/
def Opcode.toU8 : Opcode → ℕ
  | .find => 0x01
  | .findOne => 0x02
  | .insertOne => 0x03
  | .insertMany => 0x04
  | .updateOne => 0x05
  | .updateMany => 0x06
  | .deleteOne => 0x07
  | .deleteMany => 0x08
  | .aggregate => 0x09
  | .countDocuments => 0x0A
  | .createIndex => 0x0B
  | .listCollections => 0x0C
  | .runCommand => 0x0D
  | .findOneAndUpdate => 0x0E
  | .findOneAndDelete => 0x0F
  | .bulkWrite => 0x10
  | .distinct => 0x11
  | .createCollection => 0x12
  | .dropCollection => 0x13
  | .error => 0x3E
  | .handshake => 0x3F

/-- The operation code of a number. -/
def Opcode.fromU8 (value : ℕ) : Except FrameError Opcode :=
  match value with
  | 0x01 => .ok .find
  | 0x02 => .ok .findOne
  | 0x03 => .ok .insertOne
  | 0x04 => .ok .insertMany
  | 0x05 => .ok .updateOne
  | 0x06 => .ok .updateMany
  | 0x07 => .ok .deleteOne
  | 0x08 => .ok .deleteMany
  | 0x09 => .ok .aggregate
  | 0x0A => .ok .countDocuments
  | 0x0B => .ok .createIndex
  | 0x0C => .ok .listCollections
  | 0x0D => .ok .runCommand
  | 0x0E => .ok .findOneAndUpdate
  | 0x0F => .ok .findOneAndDelete
  | 0x10 => .ok .bulkWrite
  | 0x11 => .ok .distinct
  | 0x12 => .ok .createCollection
  | 0x13 => .ok .dropCollection
  | 0x3E => .ok .error
  | 0x3F => .ok .handshake
  | other => .error (.invalidOpcode other)

@[simp] theorem Opcode.fromU8_toU8 (opcode : Opcode) : Opcode.fromU8 opcode.toU8 = .ok opcode := by
  cases opcode <;> rfl

inductive Priority where
  | normal
  | low
  | high
  | critical
  deriving DecidableEq, Repr

def Priority.toU8 : Priority → ℕ
  | .normal => 0
  | .low => 1
  | .high => 2
  | .critical => 3

def Priority.fromU8 (value : ℕ) : Except FrameError Priority :=
  match value with
  | 0 => .ok .normal
  | 1 => .ok .low
  | 2 => .ok .high
  | 3 => .ok .critical
  | other => .error (.invalidOpcode other)

@[simp] theorem Priority.fromU8_toU8 (priority : Priority) :
    Priority.fromU8 priority.toU8 = .ok priority := by
  cases priority <;> rfl

/-- The flags of a header: six bits of opcode, three Boolean flags, two bits of priority. -/
structure Flags where
  opcode : Opcode
  endOfStream : Bool
  noReply : Bool
  batchFollows : Bool
  priority : Priority
  deriving DecidableEq, Repr

/-- The 16-bit value of the flags. -/
def Flags.encode (flags : Flags) : ℕ :=
  flags.opcode.toU8 + flags.endOfStream.toNat * 2 ^ 6 + flags.noReply.toNat * 2 ^ 7 +
    flags.batchFollows.toNat * 2 ^ 8 + flags.priority.toU8 * 2 ^ 9

/-- The flags of a 16-bit value; its upper five bits are ignored. -/
def Flags.decode (bits : ℕ) : Except FrameError Flags := do
  let opcode ← Opcode.fromU8 (bits % 2 ^ 6)
  let priority ← Priority.fromU8 (bits / 2 ^ 9 % 4)
  pure
    { opcode := opcode
      endOfStream := bits / 2 ^ 6 % 2 == 1
      noReply := bits / 2 ^ 7 % 2 == 1
      batchFollows := bits / 2 ^ 8 % 2 == 1
      priority := priority }

def Flags.ofServer (opcode : Opcode) : Flags where
  opcode := opcode
  endOfStream := true
  noReply := false
  batchFollows := false
  priority := .normal

/-! ## Headers and frames -/

/-- The ten bytes before a payload. -/
structure FrameHeader where
  msgLen : ℕ
  flags : Flags
  reqId : ℕ
  deriving DecidableEq, Repr

def toBigEndian : ℕ → ℕ → Bytes
  | 0, _ => []
  | count + 1, value => toBigEndian count (value / 2 ^ 8) ++ [UInt8.ofNat (value % 2 ^ 8)]

def ofBigEndian (bytes : Bytes) : ℕ := bytes.foldl (fun value byte ↦ value * 2 ^ 8 + byte.toNat) 0

def ofLittleEndian (bytes : Bytes) : ℕ := ofBigEndian bytes.reverse

def FrameHeader.encode (header : FrameHeader) : Bytes :=
  toBigEndian 4 header.msgLen ++ toBigEndian 2 header.flags.encode ++ toBigEndian 4 header.reqId

/-- The header in the first ten bytes of a byte string. -/
def FrameHeader.decode (bytes : Bytes) : Except FrameError FrameHeader := do
  let flags ← Flags.decode (ofBigEndian ((bytes.drop 4).take 2))
  pure
    { msgLen := ofBigEndian (bytes.take 4)
      flags := flags
      reqId := ofBigEndian ((bytes.drop 6).take 4) }

/-- The length of the payload, what is left of the length field after flags and request id. -/
def FrameHeader.payloadLen (header : FrameHeader) : ℕ := header.msgLen - 6

structure Frame where
  header : FrameHeader
  envelope : Bytes
  rawDocs : Bytes
  deriving DecidableEq, Repr

/-- The bytes written for a frame; the length field is computed, whatever the header says. -/
def writeFrame (frame : Frame) : Bytes :=
  let payloadLen := frame.envelope.length + frame.rawDocs.length
  ({ frame.header with msgLen := (6 + payloadLen) % 2 ^ 32 } : FrameHeader).encode ++
    frame.envelope ++ frame.rawDocs

/-- A signed 32-bit integer, given by its bits, cast to an unsigned 64-bit one. -/
def i32AsUsize (bits : ℕ) : ℕ := if bits < 2 ^ 31 then bits else 2 ^ 64 - 2 ^ 32 + bits

/-- Split a payload at the end of the BSON document it starts with. -/
def splitPayload (header : FrameHeader) (payload : Bytes) : Except FrameError Frame :=
  if payload.length < 4 then
    .error (.malformedEnvelope "payload too short to contain BSON size")
  else
    let bsonSize := i32AsUsize (ofLittleEndian (payload.take 4))
    if payload.length < bsonSize then
      .error (.malformedEnvelope "BSON size exceeds payload length")
    else .ok
      { header := header, envelope := payload.take bsonSize, rawDocs := payload.drop bsonSize }

/-- The header of the bytes held by a read, checked against the limit. -/
def readHeader (maxFrameSize : ℕ) (held : Bytes) : Except FrameError FrameHeader := do
  let header ← FrameHeader.decode held
  if header.msgLen > maxFrameSize then .error .frameTooLarge else pure header

/-- How many bytes a read of a frame still wants. -/
def need (maxFrameSize : ℕ) (held : Bytes) : ℕ :=
  if held.length < headerSize then headerSize - held.length
  else
    match readHeader maxFrameSize held with
    | .error _ => 0
    | .ok header => headerSize + header.payloadLen - held.length

/-- What a read of a frame returns when it wants no more bytes. -/
def readResult (maxFrameSize : ℕ) (held : Bytes) : Except FrameError Frame := do
  let header ← readHeader maxFrameSize held
  if header.payloadLen = 0 then pure { header := header, envelope := [], rawDocs := [] }
  else splitPayload header (held.drop headerSize)

/-- A read that holds these bytes wants no more. -/
def Complete (maxFrameSize : ℕ) (held : Bytes) : Prop := need maxFrameSize held = 0

instance (maxFrameSize : ℕ) (held : Bytes) : Decidable (Complete maxFrameSize held) :=
  inferInstanceAs (Decidable (_ = _))

/-- A byte stream is the concatenation of well-formed frames within the limit. -/
def Decodes (maxFrameSize : ℕ) (stream : Bytes) (frames : List Frame) : Prop :=
  ∃ chunks, Splits (Complete maxFrameSize) stream chunks ∧
    chunks.map (readResult maxFrameSize) = frames.map .ok

/-- The number of bytes a frame takes in the stream. -/
def Frame.size (frame : Frame) : ℕ :=
  headerSize + frame.envelope.length + frame.rawDocs.length

/-! ## Reading a stream of frames -/

theorem not_complete_nil (maxFrameSize : ℕ) : ¬ Complete maxFrameSize [] := by
  simp [Complete, need, headerSize]

/-- A complete read holds a header that was accepted or rejected. -/
theorem Complete.headerSize_le {maxFrameSize : ℕ} {held : Bytes}
    (h : Complete maxFrameSize held) : headerSize ≤ held.length := by
  by_contra hlt
  rw [Complete, need, if_pos (Nat.lt_of_not_le hlt)] at h
  omega

/-- Only the first ten bytes of what is held make up the header. -/
theorem readHeader_append (maxFrameSize : ℕ) {held : Bytes} (h : headerSize ≤ held.length)
    (more : Bytes) :
    readHeader maxFrameSize (held ++ more) = readHeader maxFrameSize held := by
  have hlength : 10 ≤ held.length := h
  have htake : ∀ start count, start + count ≤ 10 →
      ((held ++ more).drop start).take count = (held.drop start).take count := by
    intro start count hle
    rw [List.drop_append_of_le_length (by omega), List.take_append_of_le_length]
    rw [List.length_drop]
    omega
  have hmsgLen := htake 0 4 (by omega)
  rw [List.drop_zero, List.drop_zero] at hmsgLen
  simp only [readHeader, FrameHeader.decode, hmsgLen, htake 4 2 (by omega), htake 6 4 (by omega)]

/-- A chunk whose header is accepted is that header and the payload it announces. -/
theorem length_of_chunk {maxFrameSize : ℕ} {chunk : Bytes} {header : FrameHeader}
    (hchunk : Chunk (Complete maxFrameSize) chunk)
    (hheader : readHeader maxFrameSize chunk = .ok header) :
    chunk.length = headerSize + header.payloadLen := by
  have hle : headerSize ≤ chunk.length := hchunk.1.headerSize_le
  have hneed : headerSize + header.payloadLen ≤ chunk.length := by
    have hcomplete := hchunk.1
    rw [Complete, need, if_neg (Nat.not_lt.mpr hle), hheader] at hcomplete
    dsimp only at hcomplete
    omega
  by_contra hne
  -- the announced bytes alone would already have been complete
  let front := chunk.take (headerSize + header.payloadLen)
  have hlength : front.length = headerSize + header.payloadLen := by
    rw [List.length_take, Nat.min_eq_left hneed]
  have hfront : readHeader maxFrameSize front = .ok header := by
    rw [← hheader, ← readHeader_append maxFrameSize (by omega : headerSize ≤ front.length)
      (chunk.drop (headerSize + header.payloadLen)), List.take_append_drop]
  refine hchunk.2 front (List.take_prefix _ _) (fun heq ↦ ?_) ?_
  · rw [heq] at hlength
    omega
  · rw [Complete, need, if_neg (by omega), hfront]
    dsimp only
    omega

/-- A frame takes as many bytes in the stream as its parts have. -/
theorem size_of_readResult {maxFrameSize : ℕ} {chunk : Bytes} {frame : Frame}
    (hchunk : Chunk (Complete maxFrameSize) chunk)
    (h : readResult maxFrameSize chunk = .ok frame) : frame.size = chunk.length := by
  unfold readResult at h
  cases hheader : readHeader maxFrameSize chunk with
  | error error => simp [hheader, bind, Except.bind] at h
  | ok header =>
    have hlength := length_of_chunk hchunk hheader
    simp only [hheader, bind, Except.bind] at h
    split_ifs at h with hpayload
    · obtain rfl := Except.ok.inj h
      simp [Frame.size, hlength, hpayload]
    · unfold splitPayload at h
      dsimp only at h
      split_ifs at h with _ hsize
      obtain rfl := Except.ok.inj h
      simp only [Frame.size, List.length_take, List.length_drop] at hsize ⊢
      omega

/-- A frame that was read has the header of the bytes held. -/
theorem header_of_readResult {maxFrameSize : ℕ} {held : Bytes} {frame : Frame}
    (h : readResult maxFrameSize held = .ok frame) :
    readHeader maxFrameSize held = .ok frame.header := by
  unfold readResult at h
  cases hheader : readHeader maxFrameSize held with
  | error error => simp [hheader, bind, Except.bind] at h
  | ok header =>
    simp only [hheader, bind, Except.bind] at h
    split_ifs at h
    · obtain rfl := Except.ok.inj h
      rfl
    · unfold splitPayload at h
      dsimp only at h
      split_ifs at h
      obtain rfl := Except.ok.inj h
      rfl

theorem readHeader_eq {maxFrameSize : ℕ} {held : Bytes} {header : FrameHeader}
    (h : readHeader maxFrameSize held = .ok header) : FrameHeader.decode held = .ok header := by
  unfold readHeader at h
  cases hdecode : FrameHeader.decode held with
  | error error => simp [hdecode, bind, Except.bind] at h
  | ok other =>
    simp only [hdecode, bind, Except.bind] at h
    split_ifs at h
    exact h

/-- The sizes of the frames of a stream add up to its length. -/
theorem Decodes.sum_size {maxFrameSize : ℕ} {stream : Bytes} {frames : List Frame}
    (h : Decodes maxFrameSize stream frames) : (frames.map Frame.size).sum = stream.length := by
  obtain ⟨chunks, hsplits, hresults⟩ := h
  induction hsplits generalizing frames with
  | nil =>
    obtain rfl : frames = [] := by simpa using hresults.symm
    rfl
  | @cons chunk rest chunks hchunk hsplits ih =>
    cases frames with
    | nil => exact absurd hresults (by simp)
    | cons frame frames =>
      simp only [List.map_cons, List.cons.injEq] at hresults
      rw [List.map_cons, List.sum_cons, List.length_append, ih hresults.2,
        size_of_readResult hchunk hresults.1]

/-- The frames read from a stream so far, with the rest of the stream. -/
def Consumed (maxFrameSize : ℕ) (stream rest : Bytes) (frames : List Frame) : Prop :=
  ∃ consumed, consumed ++ rest = stream ∧ Decodes maxFrameSize consumed frames

theorem consumed_nil (maxFrameSize : ℕ) (stream : Bytes) :
    Consumed maxFrameSize stream stream [] :=
  ⟨[], rfl, [], Splits.nil, rfl⟩

/-- In a stream of well-formed frames, the next chunk is a well-formed frame. -/
theorem Consumed.chunk {maxFrameSize : ℕ} {stream chunk rest : Bytes} {frames all : List Frame}
    (hall : Decodes maxFrameSize stream all)
    (h : Consumed maxFrameSize stream (chunk ++ rest) frames)
    (hchunk : Chunk (Complete maxFrameSize) chunk) :
    ∃ frame, readResult maxFrameSize chunk = .ok frame ∧
      Consumed maxFrameSize stream rest (frames ++ [frame]) := by
  obtain ⟨consumed, rfl, chunks, hsplits, hresults⟩ := h
  obtain ⟨allChunks, hallSplits, hallResults⟩ := hall
  have hnil := not_complete_nil maxFrameSize
  obtain ⟨tail, rfl, htail⟩ := hsplits.append_inv hnil hallSplits
  obtain ⟨others, rfl, -⟩ := htail.uncons hchunk (fun heq ↦ hnil (heq ▸ hchunk.1))
  have hmem : readResult maxFrameSize chunk ∈ all.map Except.ok := by
    rw [← hallResults]
    simp
  obtain ⟨frame, -, hframe⟩ := List.mem_map.mp hmem
  refine ⟨frame, hframe.symm, consumed ++ chunk, by rw [List.append_assoc], _,
    hsplits.concat hchunk, ?_⟩
  rw [List.map_append, hresults, List.map_append, List.map_singleton, ← hframe,
    List.map_singleton]

/-- When only an unfinished read is left of the stream, it is empty and all frames were read. -/
theorem Consumed.eq_all {maxFrameSize : ℕ} {stream held : Bytes} {frames all : List Frame}
    (hall : Decodes maxFrameSize stream all)
    (h : Consumed maxFrameSize stream held frames)
    (hheld : Unfinished (Complete maxFrameSize) held) : frames = all := by
  obtain ⟨consumed, rfl, chunks, hsplits, hresults⟩ := h
  obtain ⟨allChunks, hallSplits, hallResults⟩ := hall
  obtain ⟨tail, rfl, htail⟩ := hsplits.append_inv (not_complete_nil maxFrameSize) hallSplits
  obtain ⟨-, rfl⟩ := htail.eq_nil_of_unfinished hheld
  rw [List.append_nil, hresults] at hallResults
  exact List.map_injective_iff.mpr (fun _ _ heq ↦ Except.ok.inj heq) hallResults

/-! ## Written frames -/

@[simp] theorem length_toBigEndian (count value : ℕ) : (toBigEndian count value).length = count := by
  induction count generalizing value with
  | zero => rfl
  | succ count ih => simp [toBigEndian, ih]

theorem ofBigEndian_concat (bytes : Bytes) (byte : UInt8) :
    ofBigEndian (bytes ++ [byte]) = ofBigEndian bytes * 2 ^ 8 + byte.toNat := by
  simp [ofBigEndian]

theorem ofBigEndian_toBigEndian {count value : ℕ} (h : value < 2 ^ (8 * count)) :
    ofBigEndian (toBigEndian count value) = value := by
  induction count generalizing value with
  | zero =>
    have hvalue : value = 0 := by simpa using h
    rw [hvalue]
    rfl
  | succ count ih =>
    have hquotient : value / 2 ^ 8 < 2 ^ (8 * count) := by
      apply Nat.div_lt_of_lt_mul
      calc
        value < 2 ^ (8 * (count + 1)) := h
        _ = 2 ^ 8 * 2 ^ (8 * count) := by
          rw [← Nat.pow_add]
          congr 1
          omega
    have hbyte : (UInt8.ofNat (value % 2 ^ 8)).toNat = value % 2 ^ 8 := by
      simp
    rw [toBigEndian, ofBigEndian_concat, ih hquotient, hbyte]
    omega

theorem Opcode.toU8_lt (opcode : Opcode) : opcode.toU8 < 2 ^ 6 := by
  cases opcode <;> decide

theorem Priority.toU8_lt (priority : Priority) : priority.toU8 < 4 := by
  cases priority <;> decide

theorem Flags.encode_lt (flags : Flags) : flags.encode < 2 ^ 16 := by
  have hopcode := flags.opcode.toU8_lt
  have hpriority := flags.priority.toU8_lt
  have hstream := Bool.toNat_le flags.endOfStream
  have hreply := Bool.toNat_le flags.noReply
  have hbatch := Bool.toNat_le flags.batchFollows
  unfold encode
  omega

/-- The fields of the flags do not overlap. -/
theorem Flags.decode_encode (flags : Flags) : Flags.decode flags.encode = .ok flags := by
  have hopcode := flags.opcode.toU8_lt
  have hpriority := flags.priority.toU8_lt
  have hstream := Bool.toNat_le flags.endOfStream
  have hreply := Bool.toNat_le flags.noReply
  have hbatch := Bool.toNat_le flags.batchFollows
  have hopcodeBits : flags.encode % 2 ^ 6 = flags.opcode.toU8 := by
    unfold encode
    omega
  have hpriorityBits : flags.encode / 2 ^ 9 % 4 = flags.priority.toU8 := by
    unfold encode
    omega
  have hstreamBit : flags.encode / 2 ^ 6 % 2 = flags.endOfStream.toNat := by
    unfold encode
    omega
  have hreplyBit : flags.encode / 2 ^ 7 % 2 = flags.noReply.toNat := by
    unfold encode
    omega
  have hbatchBit : flags.encode / 2 ^ 8 % 2 = flags.batchFollows.toNat := by
    unfold encode
    omega
  have hbit : ∀ flag : Bool, (flag.toNat == 1) = flag := by decide
  rw [decode, hopcodeBits, hpriorityBits, hstreamBit, hreplyBit, hbatchBit, Opcode.fromU8_toU8,
    Priority.fromU8_toU8, hbit, hbit, hbit]
  rfl

theorem ofBigEndian_lt (bytes : Bytes) : ofBigEndian bytes < 2 ^ (8 * bytes.length) := by
  induction bytes using List.reverseRecOn with
  | nil => simp [ofBigEndian]
  | append_singleton bytes byte ih =>
    have hbyte := byte.toNat_lt
    rw [ofBigEndian_concat, List.length_append, List.length_singleton, Nat.mul_add, Nat.pow_add]
    omega

@[simp] theorem FrameHeader.length_encode (header : FrameHeader) :
    header.encode.length = headerSize := by
  simp [encode, headerSize]

theorem length_writeFrame (frame : Frame) :
    (writeFrame frame).length = headerSize + frame.envelope.length + frame.rawDocs.length := by
  rw [writeFrame, List.length_append, List.length_append, FrameHeader.length_encode]

/-- A header is read back from the front of what was written. -/
theorem FrameHeader.decode_encode {header : FrameHeader} (hlen : header.msgLen < 2 ^ 32)
    (hreq : header.reqId < 2 ^ 32) (rest : Bytes) :
    FrameHeader.decode (header.encode ++ rest) = .ok header := by
  have hmsgLen : (header.encode ++ rest).take 4 = toBigEndian 4 header.msgLen := by
    simp [encode]
  have hflags : ((header.encode ++ rest).drop 4).take 2 = toBigEndian 2 header.flags.encode := by
    simp [encode]
  have hreqId : ((header.encode ++ rest).drop 6).take 4 = toBigEndian 4 header.reqId := by
    have hsix : (toBigEndian 4 header.msgLen ++ toBigEndian 2 header.flags.encode).length = 6 := by
      simp
    rw [encode, List.append_assoc, List.drop_left' hsix]
    simp
  have hmsgLenValue : ofBigEndian (toBigEndian 4 header.msgLen) = header.msgLen :=
    ofBigEndian_toBigEndian hlen
  have hflagsValue : ofBigEndian (toBigEndian 2 header.flags.encode) = header.flags.encode :=
    ofBigEndian_toBigEndian header.flags.encode_lt
  have hreqIdValue : ofBigEndian (toBigEndian 4 header.reqId) = header.reqId :=
    ofBigEndian_toBigEndian hreq
  rw [decode, hmsgLen, hflags, hreqId, hmsgLenValue, hflagsValue, hreqIdValue, Flags.decode_encode]
  rfl

/-- The request id of a frame that was read is a 32-bit integer. -/
theorem reqId_lt_of_readResult {maxFrameSize : ℕ} {held : Bytes} {frame : Frame}
    (h : readResult maxFrameSize held = .ok frame) : frame.header.reqId < 2 ^ 32 := by
  have hdecode := readHeader_eq (header_of_readResult h)
  unfold FrameHeader.decode at hdecode
  cases hflags : Flags.decode (ofBigEndian ((held.drop 4).take 2)) with
  | error error => simp [hflags, bind, Except.bind] at hdecode
  | ok flags =>
    simp only [hflags, bind, Except.bind] at hdecode
    have hlength : ((held.drop 6).take 4).length ≤ 4 := by
      rw [List.length_take]
      exact Nat.min_le_left _ _
    rw [← Except.ok.inj hdecode]
    calc ofBigEndian ((held.drop 6).take 4)
        < 2 ^ (8 * ((held.drop 6).take 4).length) := ofBigEndian_lt _
      _ ≤ 2 ^ 32 := Nat.pow_le_pow_right Nat.two_pos (by omega)

/-- A header that is accepted, with the payload it announces, is a chunk. -/
theorem chunk_of_length {maxFrameSize : ℕ} {chunk : Bytes} {header : FrameHeader}
    (hheader : readHeader maxFrameSize chunk = .ok header)
    (hlength : chunk.length = headerSize + header.payloadLen) :
    Chunk (Complete maxFrameSize) chunk := by
  have hle : headerSize ≤ chunk.length := by omega
  refine ⟨?_, fun front hfront hne ↦ ?_⟩
  · rw [Complete, need, if_neg (Nat.not_lt.mpr hle), hheader]
    dsimp only
    omega
  · obtain ⟨rest, rfl⟩ := hfront
    have hrest : rest ≠ [] := fun heq ↦ hne (by rw [heq, List.append_nil])
    have hshort : front.length < headerSize + header.payloadLen := by
      rw [← hlength, List.length_append]
      have := List.length_pos_iff.mpr hrest
      omega
    rw [Complete, need]
    split_ifs with hhead
    · omega
    · rw [readHeader_append maxFrameSize (Nat.not_lt.mp hhead)] at hheader
      rw [hheader]
      dsimp only
      omega

/-- A frame that is written as it is and read back: its envelope is a byte string that starts with
its own length, and its lengths and request id fit their fields and the limit. -/
structure WellFormed (maxFrameSize : ℕ) (frame : Frame) : Prop where
  msgLen : frame.header.msgLen = 6 + frame.envelope.length + frame.rawDocs.length
  msgLen_lt : frame.header.msgLen < 2 ^ 32
  msgLen_le : frame.header.msgLen ≤ maxFrameSize
  reqId : frame.header.reqId < 2 ^ 32
  envelope_length : 4 ≤ frame.envelope.length
  envelope_lt : frame.envelope.length < 2 ^ 31
  envelope_prefix : ofLittleEndian (frame.envelope.take 4) = frame.envelope.length

/-- The bytes written for a well-formed frame start with its own header. -/
theorem writeFrame_eq {maxFrameSize : ℕ} {frame : Frame} (h : WellFormed maxFrameSize frame) :
    writeFrame frame = frame.header.encode ++ (frame.envelope ++ frame.rawDocs) := by
  have hmsgLen : (6 + (frame.envelope.length + frame.rawDocs.length)) % 2 ^ 32 =
      frame.header.msgLen := by
    rw [← Nat.add_assoc, ← h.msgLen]
    exact Nat.mod_eq_of_lt h.msgLen_lt
  rw [writeFrame, hmsgLen, List.append_assoc]

theorem readHeader_writeFrame {maxFrameSize : ℕ} {frame : Frame}
    (h : WellFormed maxFrameSize frame) :
    readHeader maxFrameSize (writeFrame frame) = .ok frame.header := by
  have hlimit : ¬ frame.header.msgLen > maxFrameSize := Nat.not_lt.mpr h.msgLen_le
  rw [writeFrame_eq h, readHeader, FrameHeader.decode_encode h.msgLen_lt h.reqId]
  simp only [bind, Except.bind, if_neg hlimit]
  rfl

theorem chunk_writeFrame {maxFrameSize : ℕ} {frame : Frame} (h : WellFormed maxFrameSize frame) :
    Chunk (Complete maxFrameSize) (writeFrame frame) := by
  refine chunk_of_length (readHeader_writeFrame h) ?_
  have hmsgLen := h.msgLen
  rw [writeFrame_eq h, List.length_append, FrameHeader.length_encode, List.length_append,
    FrameHeader.payloadLen]
  omega

/-- A well-formed frame is read back from what was written for it. -/
theorem readResult_writeFrame {maxFrameSize : ℕ} {frame : Frame}
    (h : WellFormed maxFrameSize frame) :
    readResult maxFrameSize (writeFrame frame) = .ok frame := by
  have hmsgLen := h.msgLen
  have henvelope := h.envelope_length
  have hpayload : frame.header.payloadLen ≠ 0 := by
    rw [FrameHeader.payloadLen]
    omega
  have hdrop : (writeFrame frame).drop headerSize = frame.envelope ++ frame.rawDocs := by
    rw [writeFrame_eq h, List.drop_append, FrameHeader.length_encode, Nat.sub_self, List.drop_zero,
      List.drop_eq_nil_of_le (Nat.le_of_eq (FrameHeader.length_encode _)), List.nil_append]
  have hsize : i32AsUsize (ofLittleEndian ((frame.envelope ++ frame.rawDocs).take 4)) =
      frame.envelope.length := by
    rw [List.take_append_of_le_length henvelope, h.envelope_prefix, i32AsUsize,
      if_pos h.envelope_lt]
  have hlong : ¬ (frame.envelope ++ frame.rawDocs).length < 4 := by
    rw [List.length_append]
    omega
  have hfits : ¬ (frame.envelope ++ frame.rawDocs).length < frame.envelope.length := by
    rw [List.length_append]
    omega
  rw [readResult, readHeader_writeFrame h]
  simp only [bind, Except.bind, if_neg hpayload, hdrop, splitPayload, if_neg hlong, hsize,
    if_neg hfits]
  simp

/-- What is written for well-formed frames is a stream that decodes to them. -/
theorem decodes_writeFrame {maxFrameSize : ℕ} {frames : List Frame}
    (h : ∀ frame ∈ frames, WellFormed maxFrameSize frame) :
    Decodes maxFrameSize (frames.flatMap writeFrame) frames := by
  induction frames with
  | nil => exact ⟨[], Splits.nil, rfl⟩
  | cons frame frames ih =>
    have hframe := h frame List.mem_cons_self
    obtain ⟨chunks, hsplits, hresults⟩ :=
      ih fun other hother ↦ h other (List.mem_cons_of_mem _ hother)
    refine ⟨writeFrame frame :: chunks, ?_, ?_⟩
    · rw [List.flatMap_cons]
      exact Splits.cons (chunk_writeFrame hframe) hsplits
    · rw [List.map_cons, hresults, readResult_writeFrame hframe, List.map_cons]

end MongoCore.Transport
