import MongoCore.Transport.RoundTrip
import MongoCore.Transport.Written

/-!
# Responses that can be read

What the server writes for a response is read back by the protocol's own decoder: the frame is
accepted, its envelope is a document whose field `doc_bytes_len` is the number of raw bytes, and
the other fields have the values of the response.

This holds of the responses whose integers are below the sign bit of their fields and whose lengths
fit.  It does not hold of the shutdown notice, whose envelope is a JSON text.
-/

namespace MongoCore.Transport

open MongoCore.Data MongoCore.Library.TransitionSystem

/-! ## The size of an envelope -/

/-- The number of bytes of the elements of an array of texts, from an index on. -/
def textsSize : ℕ → List String → ℕ
  | _, [] => 0
  | index, text :: texts =>
      7 + (utf8 (toString index)).length + (utf8 text).length + textsSize (index + 1) texts

def OperationResponse.envelopeSize : OperationResponse → ℕ
  | .handshake _ _ => 64
  | .singleDoc _ _ => 29
  | .batch _ _ => 35
  | .insertOneResult insertedId => 42 + (utf8 insertedId).length
  | .insertManyResult _ => 44
  | .updateResult _ _ => 71
  | .deleteResult _ => 47
  | .countResult _ => 39
  | .indexResult name => 35 + (utf8 name).length
  | .collections names => 36 + textsSize 0 names
  | .commandResult _ => 24
  | .error _ message => 48 + (utf8 message).length
  | .shutdown _ => 38

theorem length_itemBytes_texts (index : ℕ) (texts : List String) :
    (itemBytes index (texts.map .string)).length = textsSize index texts := by
  induction texts generalizing index with
  | nil => rfl
  | cons text texts ih =>
    simp only [List.map_cons, itemBytes, textsSize, List.length_cons, List.length_append,
      length_cstringBytes, Bson.payload, stringBytes, length_toLittleEndian, ih]
    omega

/-- The keys of the envelopes have no zero byte, and these lengths. -/
theorem utf8_keys :
    ["doc_bytes_len", "max_frame_size", "max_concurrent", "ok", "count", "inserted_id",
      "inserted_count", "matched_count", "modified_count", "deleted_count", "name", "names",
      "code", "message", "drain_ms"].map
        (fun key ↦ ((utf8 key).length, decide (0 ∈ utf8 key))) =
      [(13, false), (14, false), (14, false), (2, false), (5, false), (11, false), (14, false),
        (13, false), (14, false), (13, false), (4, false), (5, false), (4, false), (7, false),
        (8, false)] := by
  decide

/-- The size is that of the encoded envelope. -/
theorem length_envelope (response : OperationResponse) :
    (encodeResponse response).1.length = response.envelopeSize := by
  have hkeys := utf8_keys
  simp only [List.map_cons, List.map_nil, List.cons.injEq, Prod.mk.injEq, decide_eq_false_iff_not,
    and_true] at hkeys
  cases response <;>
    simp only [encodeResponse, toVec, length_wrapDocument, elementBytes,
      OperationResponse.envelope, OperationResponse.envelopeSize, asI32, asI64, Bson.payload,
      stringBytes, List.length_cons, List.length_append, length_cstringBytes,
      length_toLittleEndian, length_itemBytes_texts, List.length_nil, hkeys] <;>
    omega

/-! ## Representable responses -/

/-- The integers of a response are below the sign bits of their fields. -/
def OperationResponse.IntegersFit : OperationResponse → Prop
  | .handshake maxFrameSize maxConcurrent =>
      maxFrameSize.toNat < 2 ^ 31 ∧ maxConcurrent.toNat < 2 ^ 31
  | .batch count _ | .insertManyResult count | .shutdown count => count.toNat < 2 ^ 31
  | .updateResult matchedCount modifiedCount =>
      matchedCount.toNat < 2 ^ 63 ∧ modifiedCount.toNat < 2 ^ 63
  | .deleteResult count | .countResult count => count.toNat < 2 ^ 63
  | _ => True

instance : DecidablePred OperationResponse.IntegersFit := fun response ↦ by
  unfold OperationResponse.IntegersFit
  split <;> infer_instance

/-- The integers and the lengths of a response fit their fields. -/
structure OperationResponse.Representable (response : OperationResponse) : Prop where
  integers : response.IntegersFit
  envelope : response.envelopeSize < 2 ^ 31
  rawDocs : response.rawDocs.length < 2 ^ 31
  msgLen : 6 + (response.envelopeSize + response.rawDocs.length) < 2 ^ 32

instance : DecidablePred OperationResponse.Representable := fun response ↦
  decidable_of_iff (response.IntegersFit ∧ response.envelopeSize < 2 ^ 31 ∧
      response.rawDocs.length < 2 ^ 31 ∧
      6 + (response.envelopeSize + response.rawDocs.length) < 2 ^ 32)
    ⟨fun h ↦ ⟨h.1, h.2.1, h.2.2.1, h.2.2.2⟩,
      fun h ↦ ⟨h.integers, h.envelope, h.rawDocs, h.msgLen⟩⟩

theorem fits_asI32 (value : ℕ) : (asI32 value).Fits := by
  unfold asI32 toSigned Bson.Fits
  split_ifs <;> omega

theorem fits_asI64 (value : ℕ) : (asI64 value).Fits := by
  unfold asI64 toSigned Bson.Fits
  split_ifs <;> omega

theorem itemsFit_texts {index : ℕ} {texts : List String} (h : textsSize index texts < 2 ^ 31) :
    ItemsFit (texts.map .string) := by
  induction texts generalizing index with
  | nil => exact trivial
  | cons text texts ih =>
    rw [textsSize] at h
    exact ⟨by simp only [Bson.Fits]; omega, ih (by omega : textsSize (index + 1) texts < 2 ^ 31)⟩

/-- The envelope of a response can be read back if its length fits. -/
theorem documentFits_envelope {response : OperationResponse}
    (h : response.envelopeSize < 2 ^ 31) : DocumentFits response.envelope := by
  have hkeys := utf8_keys
  simp only [List.map_cons, List.map_nil, List.cons.injEq, Prod.mk.injEq, decide_eq_false_iff_not,
    and_true] at hkeys
  obtain ⟨⟨-, hdocBytesLen⟩, ⟨-, hmaxFrameSize⟩, ⟨-, hmaxConcurrent⟩, ⟨-, hok⟩, ⟨-, hcount⟩,
    ⟨-, hinsertedId⟩, ⟨-, hinsertedCount⟩, ⟨-, hmatched⟩, ⟨-, hmodified⟩, ⟨-, hdeleted⟩,
    ⟨-, hname⟩, ⟨-, hnames⟩, ⟨-, hcode⟩, ⟨-, hmessage⟩, -, hdrain⟩ := hkeys
  refine ⟨?_, (length_envelope response).trans_lt h⟩
  have hlast : MembersFit [("doc_bytes_len", asI32 response.rawDocs.length)] :=
    ⟨hdocBytesLen, fits_asI32 _, trivial⟩
  have htext : ∀ (text : String) (size : ℕ), 1 ≤ size → size + (utf8 text).length < 2 ^ 31 →
      (Bson.string text).Fits := by
    intro text size hsize hshort
    rw [Bson.Fits]
    omega
  cases response with
  | handshake => exact ⟨hmaxFrameSize, fits_asI32 _, hmaxConcurrent, fits_asI32 _, hlast⟩
  | singleDoc => exact ⟨hok, trivial, hlast⟩
  | batch => exact ⟨hcount, fits_asI32 _, hlast⟩
  | insertOneResult insertedId => exact ⟨hinsertedId, htext insertedId 42 (by omega) h, hlast⟩
  | insertManyResult => exact ⟨hinsertedCount, fits_asI32 _, hlast⟩
  | updateResult => exact ⟨hmatched, fits_asI64 _, hmodified, fits_asI64 _, hlast⟩
  | deleteResult => exact ⟨hdeleted, fits_asI64 _, hlast⟩
  | countResult => exact ⟨hcount, fits_asI64 _, hlast⟩
  | indexResult name => exact ⟨hname, htext name 35 (by omega) h, hlast⟩
  | collections names =>
    rw [OperationResponse.envelopeSize] at h
    have hitems : ItemsFit (names.map .string) :=
      itemsFit_texts (by omega : textsSize 0 names < 2 ^ 31)
    have hlength : (itemBytes 0 (names.map .string)).length + 5 < 2 ^ 31 := by
      rw [length_itemBytes_texts]
      omega
    exact ⟨hnames, ⟨hitems, hlength⟩, hlast⟩
  | commandResult => exact hlast
  | error code message =>
    have hbounds : (Bson.int32 code.toInt).Fits := ⟨code.le_toInt, code.toInt_lt⟩
    exact ⟨hcode, hbounds, hmessage, htext message 48 (by omega) h, hlast⟩
  | shutdown => exact ⟨hdrain, fits_asI32 _, hlast⟩

/-! ## Values -/

inductive FieldValue where
  | number (value : ℤ)
  | flag (value : Bool)
  | text (value : String)
  | texts (values : List String)
  deriving DecidableEq

/-- The values of a response, under the keys of its envelope. -/
def OperationResponse.values : OperationResponse → List (String × FieldValue)
  | .handshake maxFrameSize maxConcurrent =>
      [("max_frame_size", .number maxFrameSize.toNat),
        ("max_concurrent", .number maxConcurrent.toNat)]
  | .singleDoc ok _ => [("ok", .flag ok)]
  | .batch count _ => [("count", .number count.toNat)]
  | .insertOneResult insertedId => [("inserted_id", .text insertedId)]
  | .insertManyResult insertedCount => [("inserted_count", .number insertedCount.toNat)]
  | .updateResult matchedCount modifiedCount =>
      [("matched_count", .number matchedCount.toNat),
        ("modified_count", .number modifiedCount.toNat)]
  | .deleteResult deletedCount => [("deleted_count", .number deletedCount.toNat)]
  | .countResult count => [("count", .number count.toNat)]
  | .indexResult name => [("name", .text name)]
  | .collections names => [("names", .texts names)]
  | .commandResult _ => []
  | .error code message => [("code", .number code.toInt), ("message", .text message)]
  | .shutdown drainMs => [("drain_ms", .number drainMs.toNat)]

/-- The text of an item, if it is one. -/
def asStr? : Bson → Option String
  | .string value => some value
  | _ => none

def fieldValue? : Bson → Option FieldValue
  | .int32 value | .int64 value => some (.number value)
  | .boolean value => some (.flag value)
  | .string value => some (.text value)
  | .array items => (items.mapM asStr?).map .texts
  | _ => none

theorem fieldValue?_asI32 {value : ℕ} (h : value < 2 ^ 31) :
    fieldValue? (asI32 value) = some (.number value) := by
  have hmod : value % 2 ^ 32 = value := Nat.mod_eq_of_lt (by omega)
  rw [asI32, hmod, toSigned, if_pos (by omega)]
  rfl

theorem fieldValue?_asI64 {value : ℕ} (h : value < 2 ^ 63) :
    fieldValue? (asI64 value) = some (.number value) := by
  have hmod : value % 2 ^ 64 = value := Nat.mod_eq_of_lt (by omega)
  rw [asI64, hmod, toSigned, if_pos (by omega)]
  rfl

theorem mapM_asStr? (texts : List String) : (texts.map Bson.string).mapM asStr? = some texts := by
  induction texts with
  | nil => rfl
  | cons text texts ih =>
    rw [List.map_cons, List.mapM_cons, ih]
    rfl

/-- The fields of an envelope have the values of the response. -/
theorem fieldValue?_of_mem_values {response : OperationResponse} (h : response.IntegersFit) :
    ∀ entry ∈ response.values,
      (response.envelope.lookup entry.1).bind fieldValue? = some entry.2 := by
  have htexts : ∀ texts : List String,
      fieldValue? (.array (texts.map .string)) = some (.texts texts) := by
    intro texts
    rw [fieldValue?, mapM_asStr?]
    rfl
  intro entry hentry
  cases response with
  | handshake maxFrameSize maxConcurrent =>
    rcases List.mem_pair.mp hentry with rfl | rfl
    · exact fieldValue?_asI32 h.1
    · exact fieldValue?_asI32 h.2
  | singleDoc ok => obtain rfl := List.mem_singleton.mp hentry; rfl
  | batch => obtain rfl := List.mem_singleton.mp hentry; exact fieldValue?_asI32 h
  | insertOneResult => obtain rfl := List.mem_singleton.mp hentry; rfl
  | insertManyResult => obtain rfl := List.mem_singleton.mp hentry; exact fieldValue?_asI32 h
  | updateResult =>
    rcases List.mem_pair.mp hentry with rfl | rfl
    · exact fieldValue?_asI64 h.1
    · exact fieldValue?_asI64 h.2
  | deleteResult => obtain rfl := List.mem_singleton.mp hentry; exact fieldValue?_asI64 h
  | countResult => obtain rfl := List.mem_singleton.mp hentry; exact fieldValue?_asI64 h
  | indexResult => obtain rfl := List.mem_singleton.mp hentry; rfl
  | collections names => obtain rfl := List.mem_singleton.mp hentry; exact htexts names
  | commandResult => exact absurd hentry List.not_mem_nil
  | error => rcases List.mem_pair.mp hentry with rfl | rfl <;> rfl
  | shutdown => obtain rfl := List.mem_singleton.mp hentry; exact fieldValue?_asI32 h

/-! ## Frames -/

theorem ofLittleEndian_eq (bytes : Bytes) : ofLittleEndian bytes = fromLittleEndian bytes := by
  induction bytes with
  | nil => rfl
  | cons byte bytes ih =>
    rw [ofLittleEndian, List.reverse_cons, ofBigEndian_concat, fromLittleEndian, ← ih,
      ofLittleEndian]
    omega

/-- A frame is read back as the response it was written for: it is accepted by every reader with a
limit that is not below its length, and its envelope is a document that announces the raw bytes and
has the values of the response. -/
structure ReadsAs (response : OperationResponse) (frame : Frame) : Prop where
  msgLen : 6 + (frame.envelope.length + frame.rawDocs.length) < 2 ^ 32
  accepted : ∀ maxFrameSize : UInt32,
    6 + (frame.envelope.length + frame.rawDocs.length) ≤ maxFrameSize.toNat →
      ∀ rest, readFrame maxFrameSize.toNat (writeFrame frame ++ rest) = .ok (stamped frame, rest)
  decoded : ∃ document, fromSlice frame.envelope = some document ∧
    getI32? document "doc_bytes_len" = some (frame.rawDocs.length : ℤ) ∧
    (∀ entry ∈ response.values, (document.lookup entry.1).bind fieldValue? = some entry.2)
  rawDocs : frame.rawDocs = response.rawDocs

/-- The frame of a representable response is read back as the response. -/
theorem readsAs_serverFrame {opcode : Opcode} {reqId : ℕ} {response : OperationResponse}
    (hreqId : reqId < 2 ^ 32) (h : response.Representable) :
    ReadsAs response (serverFrame opcode reqId (encodeResponse response)) := by
  have hlength := length_envelope response
  have hdocument := documentFits_envelope h.envelope
  have hprefix := length_prefix_toVec hdocument.2
  have hfive := five_le_length_toVec response.envelope
  have hshort := h.msgLen
  rw [← hlength] at hshort
  refine ⟨hshort, fun maxFrameSize hfits rest ↦ ?_, ⟨response.envelope, ?_, ?_, ?_⟩, rfl⟩
  · apply readFrame_writeFrame
    exact
      { reqId := hreqId
        envelope_length := Nat.le_of_succ_le hfive
        envelope_lt := hdocument.2
        envelope_prefix := (ofLittleEndian_eq _).trans hprefix
        fits := hfits }
  · exact fromSlice_toVec hdocument
  · have hmod : response.rawDocs.length % 2 ^ 32 = response.rawDocs.length :=
      Nat.mod_eq_of_lt (by have := h.rawDocs; omega)
    rw [getI32?, lookup_docBytesLen, asI32, hmod, toSigned, if_pos h.rawDocs]
    rfl
  · exact fieldValue?_of_mem_values h.integers

/-- A frame of the server that is read back as the response it was written for. -/
def Readable (frame : Frame) : Prop :=
  ∃ opcode reqId response, frame = serverFrame opcode reqId (encodeResponse response) ∧
    ReadsAs response frame

/-- If no shutdown notice is written and every answer is representable, every frame that the server
writes can be read. -/
theorem readable_of_run {decode : Bytes → Except String Document}
    {maxFrameSize maxConcurrent : UInt32} {events : List Event} {t : State}
    (hmeet : StepsMeet (step maxFrameSize.toNat)
      (Answers OperationResponse.Representable False decode maxFrameSize maxConcurrent)
      State.init events)
    (hrun : run (step maxFrameSize.toNat) State.init events = some t) :
    ∀ frame ∈ t.written, Readable frame := by
  intro frame hframe
  rcases serverFrame_of_run hmeet hrun frame hframe with
    ⟨-, hnotice⟩ | ⟨opcode, reqId, response, hreqId, hgood, rfl⟩
  · exact hnotice.elim
  · exact ⟨opcode, reqId, response, rfl, readsAs_serverFrame hreqId hgood⟩

/-! ## The shutdown notice -/

/-- The response of a server that answers every request with the collections of an empty
database. -/
def noCollections (_ : Frame) : OperationResponse := .collections []

theorem run_wholeBatch_answers :
    StepsMeet (step (1024 : UInt32).toNat)
      (AnswersWith noCollections OperationResponse.Representable False decodeSlice 1024 16)
      State.init wholeBatch := by
  decide +kernel

theorem exists_run_wholeBatch :
    ∃ t, run (step (1024 : UInt32).toNat) State.init wholeBatch = some t := by
  apply Option.isSome_iff_exists.mp
  decide +kernel

/-- The replies to a handshake and a batch can be read. -/
theorem readable_wholeBatch :
    ∃ t, run (step (1024 : UInt32).toNat) State.init wholeBatch = some t ∧
      ∀ frame ∈ t.written, Readable frame := by
  obtain ⟨t, hrun⟩ := exists_run_wholeBatch
  exact ⟨t, hrun, readable_of_run (run_wholeBatch_answers.imp fun _ _ h ↦ h.answers) hrun⟩

def shutdownEvents : List Event := greetEvents 1024 16 ++ [.shutdownChanged true true]

theorem run_shutdownEvents :
    (run (step (1024 : UInt32).toNat) State.init shutdownEvents).map
        (fun t ↦ decide (shutdownFrame ∈ t.written)) = some true ∧
      StepsMeet (step (1024 : UInt32).toNat) (ServesWith noCollections decodeSlice 1024 16)
        State.init shutdownEvents ∧
      fromSlice shutdownFrame.envelope = none := by
  decide +kernel

/-- The envelope of the notice that a server writes is no document. -/
theorem shutdownEvents_unreadable :
    ∃ t, run (step (1024 : UInt32).toNat) State.init shutdownEvents = some t ∧
      StepsMeet (step (1024 : UInt32).toNat) (Serves decodeSlice 1024 16) State.init
        shutdownEvents ∧
      ¬ ∀ frame ∈ t.written, Readable frame := by
  obtain ⟨t, hrun, hwritten⟩ := Option.map_eq_some_iff.mp run_shutdownEvents.1
  refine ⟨t, hrun, run_shutdownEvents.2.1.imp fun _ _ h ↦ h.serves, fun hreadable ↦ ?_⟩
  obtain ⟨-, -, response, -, hreads⟩ := hreadable shutdownFrame (of_decide_eq_true hwritten)
  obtain ⟨document, hdocument, -⟩ := hreads.decoded
  exact absurd (run_shutdownEvents.2.2.symm.trans hdocument) (by simp)

end MongoCore.Transport
