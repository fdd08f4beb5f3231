import MongoCore.Clients.Methods
import MongoCore.Transport.Readable

/-!
# Clients decode what the server encodes

A method of a client library decodes the reply to its request if it raises the message of an error
reply and returns the values of every other reply.

The libraries disagree with the server about errors.  The frame of an error has an opcode of its
own and holds the text under `message`.  Python and TypeScript look for both.  Go looks for the
opcode and for a member `error` that no reply of the server has, and loses the message.  Java looks
for that member only, and takes every error reply for a result.  What is left are the cases of an
empty message in TypeScript, of numbers above the sign bit, of lengths that a library refuses, and
of the id in Java, which is the text of the BSON value and not of the id.

`Client.decodes_iff_agrees` says exactly when a method decodes a reply.
-/

namespace MongoCore.Clients

open MongoCore.Data MongoCore.Transport

/-! ## What the server writes -/

/-- The frame that the server writes for a response to the request of a method. -/
def replyFrame (method : Method) (reqId : ℕ) (response : OperationResponse) : Frame :=
  serverFrame (if response.isError then .error else method.opcode) reqId (encodeResponse response)

/-- It is the frame with which the server answers such a request. -/
theorem reply?_eq_replyFrame (decode : Bytes → Except String Document) {request : Frame}
    {method : Method} (hopcode : request.header.flags.opcode = method.opcode)
    (response : OperationResponse) :
    (outcomeOf decode request response).reply? request =
      some (replyFrame method request.header.reqId (answerTo decode request response)) := by
  rw [reply?_outcomeOf, answerOpcode, hopcode, replyFrame]

/-- The lengths and the request id of a response fit the fields in which the server writes them. -/
structure Framed (reqId : ℕ) (response : OperationResponse) : Prop where
  envelope : response.envelopeSize < 2 ^ 31
  msgLen : 6 + (response.envelopeSize + response.rawDocs.length) < 2 ^ 32
  reqId : reqId < 2 ^ 32

/-! ## The BSON libraries -/

/-- A value that every BSON library reads back. -/
def IsPlain : Bson → Prop
  | .string _ | .int32 _ | .int64 _ | .boolean _ => True
  | .array items => ∀ item ∈ items, ∃ text, item = .string text
  | _ => False

/-- The BSON library of a client reads a document back from its bytes. -/
def Client.ReadsBack (client : Client) (document : Document) : Prop :=
  DocumentFits document ∧ client.decode (toVec document) = some document

/-- The BSON library of a client reads back every document of plain values with distinct keys. -/
def Client.ReadsPlain (client : Client) : Prop :=
  ∀ document : Document, (document.map Prod.fst).Nodup →
    (∀ member ∈ document, IsPlain member.2) → DocumentFits document → client.ReadsBack document

/-- The envelopes of the server are such documents. -/
theorem readsBack_envelope {client : Client} (hplain : client.ReadsPlain)
    {response : OperationResponse} (h : response.envelopeSize < 2 ^ 31) :
    client.ReadsBack response.envelope := by
  apply hplain
  · cases response <;> simp [OperationResponse.envelope]
  · cases response <;> simp [OperationResponse.envelope, IsPlain, asI32, asI64]
  · exact documentFits_envelope h

/-- No envelope of the server has a member `error`. -/
theorem lookup_error (response : OperationResponse) :
    response.envelope.lookup "error" = none := by
  cases response <;> simp [OperationResponse.envelope, List.lookup_cons]

/-! ## Values of a reply -/

def Denotes (value : Option Bson) (number : ℕ) : Prop :=
  value.bind fieldValue? = some (.number number)

/-- Bytes are those of a list of documents that a client's BSON library reads back. -/
inductive Client.Encodes (client : Client) : Bytes → List Document → Prop
  | nil : client.Encodes [] []
  | cons {document : Document} {rest : Bytes} {documents : List Document} :
      client.ReadsBack document → client.Encodes rest documents →
        client.Encodes (toVec document ++ rest) (document :: documents)

/-- What a method has to return for a response that is no error: the values that the response
contains.  Of a handshake that is nothing, but a limit that is taken must be the announced one. -/
inductive Client.Contains (client : Client) : Method → OperationResponse → Returned → Prop
  | connect {maxFrameSize maxConcurrent : UInt32} {announced : Option Bson} :
      (announced = none ∨ Denotes announced maxFrameSize.toNat) →
        client.Contains .connect (.handshake maxFrameSize maxConcurrent) (.connected announced)
  | find {count : UInt32} {docBytes : Bytes} {documents : List Document} :
      client.Encodes docBytes documents →
        client.Contains .find (.batch count docBytes) (.documents documents)
  | findOneNone {ok : Bool} :
      client.Contains .findOne (.singleDoc ok none) (.document none)
  | findOne {ok : Bool} {document : Document} :
      client.ReadsBack document →
        client.Contains .findOne (.singleDoc ok (some (toVec document)))
          (.document (some document))
  | insertOne {insertedId : String} :
      client.Contains .insertOne (.insertOneResult insertedId) (.id (some (.string insertedId)))
  | insertMany {insertedCount : UInt32} {value : Option Bson} :
      Denotes value insertedCount.toNat →
        client.Contains .insertMany (.insertManyResult insertedCount) (.count value)
  | update {method : Method} {matchedCount modifiedCount : UInt64} {matched modified : Option Bson} :
      (method = .updateOne ∨ method = .updateMany) → Denotes matched matchedCount.toNat →
        Denotes modified modifiedCount.toNat →
          client.Contains method (.updateResult matchedCount modifiedCount)
            (.counts matched modified)
  | delete {method : Method} {deletedCount : UInt64} {value : Option Bson} :
      (method = .deleteOne ∨ method = .deleteMany) → Denotes value deletedCount.toNat →
        client.Contains method (.deleteResult deletedCount) (.count value)
  | countDocuments {count : UInt64} {value : Option Bson} :
      Denotes value count.toNat →
        client.Contains .countDocuments (.countResult count) (.count value)
  | runCommand {document : Document} :
      client.ReadsBack document →
        client.Contains .runCommand (.commandResult (toVec document)) (.document (some document))

/-! ## Decoding, and agreement on the format -/

/-- A method of a client decodes the reply with a response: it raises the message of an error, and
returns the values of a response that answers the method. -/
def Client.DecodesReply (client : Client) (runtime : Runtime) (method : Method) (reqId : ℕ)
    (response : OperationResponse) : Prop :=
  let reply := client.reply runtime method (writeFrame (replyFrame method reqId response))
  match response with
  | .error _ message => ∃ error, reply = .error error ∧ error.text? = some message
  | _ => (∃ returned, client.Contains method response returned) →
      ∃ returned, reply = .ok returned ∧ client.Contains method response returned

/-- The message of an error reply reaches the caller.  A client that refuses the length of the
frame raises a text of its own. -/
def Client.KeepsMessage (client : Client) (size : ℕ) (message : String) : Prop :=
  match client.payloadLen (6 + size) with
  | .error refusal => refusal.text? = some message
  | .ok _ =>
      match client.language with
      | .go => message = "unknown server error"
      | .python => True
      | .java => False
      | .typescript => message ≠ ""

def Client.Accepts (client : Client) (size : ℕ) : Prop :=
  ∃ count, client.payloadLen (6 + size) = .ok count

/-- The values of a response have the form that a client library returns. -/
def Language.KeepsValues (language : Language) : OperationResponse → Prop
  | .handshake maxFrameSize _ =>
      language = .go ∨ language = .python ∨ maxFrameSize.toNat < 2 ^ 31
  | .insertOneResult _ => language ≠ .java
  | .insertManyResult insertedCount => insertedCount.toNat < 2 ^ 31
  | .updateResult matchedCount modifiedCount =>
      matchedCount.toNat < 2 ^ 63 ∧ modifiedCount.toNat < 2 ^ 63
  | .deleteResult count | .countResult count => count.toNat < 2 ^ 63
  | _ => True

/-- A client and the server agree on how a response is written. -/
def Client.Agrees (client : Client) (method : Method) (response : OperationResponse) : Prop :=
  match response with
  | .error _ message => client.KeepsMessage response.envelopeSize message
  | _ => (∃ returned, client.Contains method response returned) →
      client.Accepts (response.envelopeSize + response.rawDocs.length) ∧
        client.language.KeepsValues response

/-! ## Frames -/

theorem opcodeOf_writeFrame (frame : Frame) :
    opcodeOf (writeFrame frame) = frame.header.flags.opcode.toU8 := by
  have hfield : ((writeFrame frame).drop 4).take 2 = toBigEndian 2 frame.header.flags.encode := by
    simp [writeFrame, FrameHeader.encode]
  have hvalue : ofBigEndian (toBigEndian 2 frame.header.flags.encode) = frame.header.flags.encode :=
    ofBigEndian_toBigEndian frame.header.flags.encode_lt
  have hopcode := frame.header.flags.opcode.toU8_lt
  rw [opcodeOf, hfield, hvalue, Flags.encode]
  omega

theorem drop_writeFrame (frame : Frame) :
    (writeFrame frame).drop headerSize = frame.envelope ++ frame.rawDocs := by
  rw [writeFrame, List.append_assoc]
  apply List.drop_left'
  exact FrameHeader.length_encode _

/-- A client reads a frame by the length and the opcode of its header. -/
theorem readFrame_writeFrame (client : Client) {frame : Frame} (hfits : FitsHeader frame) :
    client.readFrame (writeFrame frame) = (do
      let _ ← client.payloadLen (6 + payloadSize frame)
      client.readPayload frame.header.flags.opcode.toU8 (frame.envelope ++ frame.rawDocs)) := by
  have hlength : headerSize ≤ (writeFrame frame).length := by
    rw [length_writeFrame]
    exact Nat.le_add_right _ _
  rw [Client.readFrame, msgLenOf_eq hfits (List.prefix_refl _) hlength, opcodeOf_writeFrame,
    drop_writeFrame]

/-! ## Payloads -/

/-- A document in front of other bytes is found by its length. -/
theorem readInt32LE_toVec {document : Document} (h : (toVec document).length < 2 ^ 31)
    (rest : Bytes) : readInt32LE (toVec document ++ rest) = (toVec document).length := by
  have hfive := five_le_length_toVec document
  have hprefix : ofLittleEndian ((toVec document).take 4) = (toVec document).length :=
    (ofLittleEndian_eq _).trans (length_prefix_toVec h)
  rw [readInt32LE, List.take_append_of_le_length (by omega), hprefix, toInt32]
  omega

theorem sliceTo_toVec (document : Document) (rest : Bytes) :
    sliceTo (toVec document ++ rest) (toVec document).length = toVec document := by
  rw [sliceTo, if_pos (Int.natCast_nonneg _), Int.toNat_natCast]
  exact List.take_left' rfl

theorem sliceFrom_toVec (document : Document) (rest : Bytes) :
    sliceFrom (toVec document ++ rest) (toVec document).length = rest := by
  rw [sliceFrom, if_pos (Int.natCast_nonneg _), Int.toNat_natCast]
  exact List.drop_left' rfl

/-- Every client splits a payload behind its envelope, unless it looks at the opcode and finds that
of an error. -/
theorem readPayload_eq (client : Client) {opcode : ℕ} {document : Document}
    (h : (toVec document).length < 2 ^ 31) (rest : Bytes)
    (hopcode : opcode ≠ Opcode.error.toU8 ∨ client.language = .java) :
    client.readPayload opcode (toVec document ++ rest) =
      .ok { envelope := toVec document, rawDocs := rest } := by
  have hfive := five_le_length_toVec document
  have hlength : (toVec document ++ rest).length = (toVec document).length + rest.length :=
    List.length_append
  have hread := readInt32LE_toVec h rest
  have hto := sliceTo_toVec document rest
  have hfrom := sliceFrom_toVec document rest
  unfold Client.readPayload
  cases hlanguage : client.language with
  | go =>
    have hother : opcode ≠ Opcode.error.toU8 := hopcode.resolve_right (by simp [hlanguage])
    have hunsigned : ofLittleEndian ((toVec document ++ rest).take 4) =
        (toVec document).length := by
      rw [List.take_append_of_le_length (by omega)]
      exact (ofLittleEndian_eq _).trans (length_prefix_toVec h)
    simp only [goReadPayload, if_neg hother, hunsigned]
    rw [if_neg (by omega), if_neg (by omega), if_neg (by omega), List.take_left' rfl,
      List.drop_left' rfl]
  | python =>
    have hother : opcode ≠ Opcode.error.toU8 := hopcode.resolve_right (by simp [hlanguage])
    simp only [pythonReadPayload, if_neg hother, hread, hto, hfrom]
    rw [if_neg (by omega), if_neg (by omega), if_neg (by omega)]
  | java =>
    simp only [javaReadPayload, hread, Int.toNat_natCast]
    rw [if_neg (by omega), if_neg (by omega), List.take_left' rfl, List.drop_left' rfl]
  | typescript =>
    have hother : opcode ≠ Opcode.error.toU8 := hopcode.resolve_right (by simp [hlanguage])
    simp only [typescriptReadPayload, if_neg hother, hread, hto, hfrom]
    rw [if_neg (by omega)]

/-- In the frame of an error, the other clients find the message, or lose it. -/
theorem exists_error_of_readPayload {client : Client} (hplain : client.ReadsPlain) {code : Int32}
    {message : String} (h : (OperationResponse.error code message).envelopeSize < 2 ^ 31)
    (hlanguage : client.language ≠ .java) :
    ∃ error, client.readPayload Opcode.error.toU8
        (toVec (OperationResponse.error code message).envelope ++ []) = .error error ∧
      (error.text? = some message ↔
        match client.language with
        | .go => message = "unknown server error"
        | .python => True
        | .java => False
        | .typescript => message ≠ "") := by
  have hback := readsBack_envelope hplain h
  have hfive := five_le_length_toVec (OperationResponse.error code message).envelope
  have hread := readInt32LE_toVec hback.1.2 []
  have hto := sliceTo_toVec (OperationResponse.error code message).envelope []
  have herror := lookup_error (.error code message)
  have hmessage : (OperationResponse.error code message).envelope.lookup "message" =
      some (.string message) := rfl
  rw [List.append_nil] at hread hto ⊢
  unfold Client.readPayload
  cases hclient : client.language with
  | go =>
    simp only [goReadPayload, ↓reduceIte, if_pos (by omega : 0 < (toVec
      (OperationResponse.error code message).envelope).length), hback.2, Option.bind_some, herror]
    exact ⟨_, rfl, by simp only [ClientError.text?, Option.some.injEq, eq_comm]⟩
  | python =>
    simp only [pythonReadPayload, ↓reduceIte, hread, hto, hback.2, hmessage, Option.getD_some]
    rw [if_neg (by omega), if_neg (by omega)]
    exact ⟨_, rfl, by simp [ClientError.text?]⟩
  | java => exact absurd hclient hlanguage
  | typescript =>
    have hnone : truthyMember? (OperationResponse.error code message).envelope "error" = none := by
      rw [truthyMember?, herror, Option.filter_none]
    have hsome : truthyMember? (OperationResponse.error code message).envelope "message" =
        if message = "" then none else some (.string message) := by
      rw [truthyMember?, hmessage, Option.filter_some, isTruthyInJavaScript]
      by_cases hempty : message = "" <;> simp [hempty]
    simp only [typescriptReadPayload, ↓reduceIte, hread, hto, hback.2, hnone, hsome]
    rw [if_neg (by omega)]
    refine ⟨_, rfl, ?_⟩
    by_cases hempty : message = ""
    · simp [hempty, ClientError.text?]
    · simp [hempty, ClientError.text?]

/-! ## Replies -/

section Reply

variable {client : Client} {runtime : Runtime} {method : Method} {reqId : ℕ}
  {response : OperationResponse}

theorem payloadSize_replyFrame (method : Method) (reqId : ℕ) (response : OperationResponse) :
    payloadSize (replyFrame method reqId response) =
      response.envelopeSize + response.rawDocs.length := by
  rw [← length_envelope]
  rfl

theorem Framed.fitsHeader (h : Framed reqId response) :
    FitsHeader (replyFrame method reqId response) :=
  ⟨by rw [payloadSize_replyFrame]; exact h.msgLen, h.reqId⟩

/-- What a client reads of a reply. -/
theorem readFrame_replyFrame (client : Client) (method : Method) (h : Framed reqId response) :
    client.readFrame (writeFrame (replyFrame method reqId response)) = (do
      let _ ← client.payloadLen (6 + (response.envelopeSize + response.rawDocs.length))
      client.readPayload (if response.isError then Opcode.error else method.opcode).toU8
        (toVec response.envelope ++ response.rawDocs)) := by
  rw [readFrame_writeFrame client h.fitsHeader, payloadSize_replyFrame]
  rfl

theorem toU8_opcode_ne_error (method : Method) : method.opcode.toU8 ≠ Opcode.error.toU8 := by
  cases method <;> decide

/-- No method finds an error in an envelope of the server. -/
theorem raise_envelope (language : Language) (method : Method) (response : OperationResponse) :
    language.raise method response.envelope = .ok () := by
  cases language <;> simp only [Language.raise, lookup_error]

/-- A reply is read as it was written if it is no error, and by Java in any case. -/
theorem reply_replyFrame (runtime : Runtime) (method : Method) (hplain : client.ReadsPlain)
    (h : Framed reqId response) (hread : response.isError = false ∨ client.language = .java) :
    client.reply runtime method (writeFrame (replyFrame method reqId response)) = (do
      let _ ← client.payloadLen (6 + (response.envelopeSize + response.rawDocs.length))
      client.extract runtime method response.envelope response.rawDocs) := by
  have hback := readsBack_envelope hplain h.envelope
  have hopcode : (if response.isError then Opcode.error else method.opcode).toU8 ≠
      Opcode.error.toU8 ∨ client.language = .java := by
    apply hread.imp_left
    intro hno
    rw [hno]
    exact toU8_opcode_ne_error method
  have hpayload := readPayload_eq client hback.1.2 response.rawDocs hopcode
  rw [Client.reply, Client.readReply, readFrame_replyFrame client method h, hpayload]
  cases client.payloadLen (6 + (response.envelopeSize + response.rawDocs.length)) with
  | error error => rfl
  | ok count => simp only [bind, Except.bind, hback.2, raise_envelope]

end Reply

/-! ## Numbers -/

theorem denotes_int32 {value : ℤ} {number : ℕ} :
    Denotes (some (.int32 value)) number ↔ value = number := by
  rw [Denotes, Option.bind_some, fieldValue?, Option.some.injEq, FieldValue.number.injEq]

theorem denotes_int64 {value : ℤ} {number : ℕ} :
    Denotes (some (.int64 value)) number ↔ value = number := by
  rw [Denotes, Option.bind_some, fieldValue?, Option.some.injEq, FieldValue.number.injEq]

/-- A cast to a signed integer keeps a number below the sign bit, and no other. -/
theorem toSigned_32_eq_iff {number : ℕ} (h : number < 2 ^ 32) :
    toSigned 32 (number % 2 ^ 32) = number ↔ number < 2 ^ 31 := by
  unfold toSigned
  split_ifs <;> omega

theorem toSigned_64_eq_iff {number : ℕ} (h : number < 2 ^ 64) :
    toSigned 64 (number % 2 ^ 64) = number ↔ number < 2 ^ 63 := by
  unfold toSigned
  split_ifs <;> omega

/-- Every client returns a 64-bit integer as it is. -/
theorem number_int64 (language : Language) (runtime : Runtime) {method : Method}
    (hmethod : method ≠ .insertMany) (value : ℤ) :
    language.number runtime method (some (.int64 value)) = .ok (some (.int64 value)) := by
  cases language with
  | go => cases method <;> first | rfl | exact absurd rfl hmethod
  | java => cases method <;> first | rfl | exact absurd rfl hmethod
  | _ => rfl

theorem exists_number_asI64 (language : Language) (runtime : Runtime) {method : Method}
    (hmethod : method ≠ .insertMany) (number : UInt64) :
    ∃ value, language.number runtime method (some (asI64 number.toNat)) = .ok value ∧
      (Denotes value number.toNat ↔ number.toNat < 2 ^ 63) :=
  ⟨_, number_int64 language runtime hmethod _,
    denotes_int64.trans (toSigned_64_eq_iff number.toNat_lt)⟩

/-- Every client takes the number of inserted documents from a 32-bit integer. -/
theorem exists_number_asI32 (language : Language) (runtime : Runtime) (number : UInt32) :
    ∃ value, language.number runtime .insertMany (some (asI32 number.toNat)) = .ok value ∧
      (Denotes value number.toNat ↔ number.toNat < 2 ^ 31) := by
  have hsigned := toSigned_32_eq_iff number.toNat_lt
  cases language with
  | go => exact ⟨_, rfl, denotes_int64.trans hsigned⟩
  | python => exact ⟨_, rfl, denotes_int32.trans hsigned⟩
  | java => exact ⟨_, rfl, denotes_int64.trans hsigned⟩
  | typescript => exact ⟨_, rfl, denotes_int32.trans hsigned⟩

/-- The limit that a client takes from a handshake. -/
theorem exists_handshake (language : Language) (maxFrameSize maxConcurrent : UInt32) :
    ∃ announced,
      language.handshake (OperationResponse.handshake maxFrameSize maxConcurrent).envelope =
        .ok announced ∧
      (announced = none ∨ Denotes announced maxFrameSize.toNat ↔
        language = .go ∨ language = .python ∨ maxFrameSize.toNat < 2 ^ 31) := by
  have hsigned := toSigned_32_eq_iff maxFrameSize.toNat_lt
  have hlookup : (OperationResponse.handshake maxFrameSize maxConcurrent).envelope.lookup
      "max_frame_size" = some (asI32 maxFrameSize.toNat) := rfl
  cases language with
  | go => exact ⟨_, rfl, by simp⟩
  | python => exact ⟨_, rfl, by simp⟩
  | java =>
    refine ⟨some (asI32 maxFrameSize.toNat), by rw [Language.handshake, hlookup]; rfl, ?_⟩
    simp only [reduceCtorEq, false_or, asI32, denotes_int32, hsigned]
  | typescript =>
    have hfilter : ∀ value : ℤ, (some (Bson.int32 value)).filter isTruthyInJavaScript =
        if value = 0 then none else some (.int32 value) := by
      intro value
      rw [Option.filter_some, isTruthyInJavaScript]
      by_cases hzero : value = 0 <;> simp [hzero]
    refine ⟨_, by rw [Language.handshake, truthyMember?, hlookup, asI32, hfilter], ?_⟩
    split_ifs with hzero
    · have hbound := maxFrameSize.toNat_lt
      have hsmall : maxFrameSize.toNat < 2 ^ 31 := by
        unfold toSigned at hzero
        split_ifs at hzero <;> omega
      exact iff_of_true (.inl rfl) (.inr (.inr hsmall))
    · simp only [false_or, denotes_int32, hsigned]

/-! ## Documents -/

theorem decodeDocuments_nil (client : Client) : client.decodeDocuments [] = .ok [] := by
  rw [Client.decodeDocuments, if_pos rfl]

/-- One document is taken from the front. -/
theorem decodeDocuments_append {client : Client} {document : Document}
    (h : client.ReadsBack document) (rest : Bytes) :
    client.decodeDocuments (toVec document ++ rest) =
      (client.decodeDocuments rest).map (document :: ·) := by
  have hfive := five_le_length_toVec document
  have hlength : (toVec document ++ rest).length = (toVec document).length + rest.length :=
    List.length_append
  have hne : toVec document ++ rest ≠ [] := by
    apply List.ne_nil_of_length_pos
    omega
  rw [Client.decodeDocuments, if_neg hne, if_neg (by omega), readInt32LE_toVec h.1.2,
    if_neg (by omega), sliceTo_toVec, sliceFrom_toVec, h.2]

theorem decodeDocuments_of_encodes {client : Client} {bytes : Bytes} {documents : List Document}
    (h : client.Encodes bytes documents) : client.decodeDocuments bytes = .ok documents := by
  induction h with
  | nil => exact decodeDocuments_nil client
  | cons hback hencodes ih =>
    rw [decodeDocuments_append hback, ih]
    rfl

theorem decodeRawDocs_toVec {client : Client} {document : Document}
    (h : client.ReadsBack document) (default : Option Document) :
    client.decodeRawDocs default (toVec document) = .ok (some document) := by
  have hne : toVec document ≠ [] := by
    apply List.ne_nil_of_length_pos
    exact Nat.lt_of_lt_of_le (by decide) (five_le_length_toVec document)
  rw [Client.decodeRawDocs, if_neg hne, h.2]

/-! ## Results -/

/-- The id in Java is not the one that the server sent. -/
theorem javaInsertedId_ne (runtime : Runtime) (insertedId : String) :
    javaInsertedId runtime (some (.string insertedId)) ≠ some (.string insertedId) := by
  intro h
  have htext := Bson.string.inj (Option.some.inj h)
  have hlength := congrArg String.length htext
  simp only [String.length_append] at hlength
  have hlabel : "BsonString\x7bvalue='".length = 18 := by decide
  omega

/-- The id that a client returns. -/
theorem insertedId_eq_iff (language : Language) (runtime : Runtime) (insertedId : String) :
    language.insertedId runtime (some (.string insertedId)) = some (.string insertedId) ↔
      language ≠ .java := by
  cases language with
  | java => exact iff_of_false (javaInsertedId_ne runtime insertedId) (not_not_intro rfl)
  | go => exact iff_of_true rfl (by decide)
  | python => exact iff_of_true rfl (by decide)
  | typescript => exact iff_of_true rfl (by decide)

/-- A method takes a result from a response that answers it.  The result is what the response
contains if and only if the client keeps the values of the response. -/
theorem exists_extract {client : Client} {method : Method} {response : OperationResponse}
    (runtime : Runtime) (h : ∃ returned, client.Contains method response returned) :
    ∃ returned,
      client.extract runtime method response.envelope response.rawDocs = .ok returned ∧
      (client.Contains method response returned ↔ client.language.KeepsValues response) := by
  obtain ⟨expected, hexpected⟩ := h
  cases hexpected with
  | @connect maxFrameSize maxConcurrent =>
    obtain ⟨announced, hannounced, hiff⟩ :=
      exists_handshake client.language maxFrameSize maxConcurrent
    refine ⟨.connected announced, by rw [Client.extract, hannounced]; rfl, ?_⟩
    rw [Language.KeepsValues, ← hiff]
    exact ⟨fun hcontains ↦ by cases hcontains; assumption, .connect⟩
  | find hencodes =>
    have hdocuments := decodeDocuments_of_encodes hencodes
    refine ⟨.documents _, ?_, iff_of_true (.find hencodes) trivial⟩
    rw [Client.extract, OperationResponse.rawDocs, hdocuments]
    rfl
  | findOneNone => exact ⟨.document none, rfl, iff_of_true .findOneNone trivial⟩
  | findOne hback =>
    refine ⟨.document (some _), ?_, iff_of_true (.findOne hback) trivial⟩
    rw [Client.extract, OperationResponse.rawDocs, Option.getD_some, decodeRawDocs_toVec hback]
    rfl
  | @insertOne insertedId =>
    have hiff := insertedId_eq_iff client.language runtime insertedId
    refine ⟨.id (client.language.insertedId runtime (some (.string insertedId))), rfl, ?_⟩
    rw [Language.KeepsValues, ← hiff]
    constructor
    · intro hcontains
      generalize client.language.insertedId runtime (some (.string insertedId)) = value at hcontains
      cases hcontains
      rfl
    · intro hvalue
      rw [hvalue]
      exact .insertOne
  | @insertMany insertedCount =>
    obtain ⟨value, hvalue, hiff⟩ := exists_number_asI32 client.language runtime insertedCount
    refine ⟨.count value, by rw [Client.extract]; exact congrArg _ hvalue, ?_⟩
    rw [Language.KeepsValues, ← hiff]
    exact ⟨fun hcontains ↦ by cases hcontains; assumption, .insertMany⟩
  | @update _ matchedCount modifiedCount _ _ hmethod =>
    have hother : method ≠ .insertMany := by
      rcases hmethod with rfl | rfl <;> decide
    obtain ⟨matched, hmatched, hmatchedIff⟩ :=
      exists_number_asI64 client.language runtime hother matchedCount
    obtain ⟨modified, hmodified, hmodifiedIff⟩ :=
      exists_number_asI64 client.language runtime hother modifiedCount
    have hextract : client.extract runtime method
        (OperationResponse.updateResult matchedCount modifiedCount).envelope [] = (do
          let matched ← client.language.number runtime method (some (asI64 matchedCount.toNat))
          let modified ← client.language.number runtime method (some (asI64 modifiedCount.toNat))
          pure (.counts matched modified)) := by
      rcases hmethod with rfl | rfl <;> rfl
    rw [hmatched, hmodified] at hextract
    refine ⟨.counts matched modified, hextract, ?_⟩
    rw [Language.KeepsValues, ← hmatchedIff, ← hmodifiedIff]
    exact ⟨fun hcontains ↦ by cases hcontains; exact ⟨‹_›, ‹_›⟩,
      fun hvalues ↦ .update hmethod hvalues.1 hvalues.2⟩
  | @delete _ deletedCount _ hmethod =>
    have hother : method ≠ .insertMany := by
      rcases hmethod with rfl | rfl <;> decide
    obtain ⟨value, hvalue, hiff⟩ :=
      exists_number_asI64 client.language runtime hother deletedCount
    have hextract : client.extract runtime method
        (OperationResponse.deleteResult deletedCount).envelope [] =
          (client.language.number runtime method (some (asI64 deletedCount.toNat))).map .count := by
      rcases hmethod with rfl | rfl <;> rfl
    rw [hvalue] at hextract
    refine ⟨.count value, hextract, ?_⟩
    rw [Language.KeepsValues, ← hiff]
    exact ⟨fun hcontains ↦ by cases hcontains; assumption, .delete hmethod⟩
  | @countDocuments count =>
    obtain ⟨value, hvalue, hiff⟩ :=
      exists_number_asI64 client.language runtime (by decide : .countDocuments ≠ Method.insertMany)
        count
    refine ⟨.count value, by rw [Client.extract]; exact congrArg _ hvalue, ?_⟩
    rw [Language.KeepsValues, ← hiff]
    exact ⟨fun hcontains ↦ by cases hcontains; assumption, .countDocuments⟩
  | runCommand hback =>
    refine ⟨.document (some _), ?_, iff_of_true (.runCommand hback) trivial⟩
    rw [Client.extract, OperationResponse.rawDocs, decodeRawDocs_toVec hback]
    rfl

/-! ## Errors -/

section Errors

variable {client : Client} {reqId : ℕ} {code : Int32} {message : String}

/-- A method takes a result from the envelope of an error. -/
theorem exists_extract_error (runtime : Runtime) (method : Method)
    (hlanguage : client.language = .java) (code : Int32) (message : String) :
    ∃ returned, client.extract runtime method (OperationResponse.error code message).envelope [] =
      .ok returned := by
  cases method with
  | find => exact ⟨_, by rw [Client.extract, decodeDocuments_nil]; rfl⟩
  | findOne | insertOne | runCommand => exact ⟨_, rfl⟩
  | _ => exact ⟨_, by rw [Client.extract, hlanguage]; rfl⟩

/-- A refused length is all that a client reads of a reply. -/
theorem reply_of_refused {response : OperationResponse} (runtime : Runtime) (method : Method)
    (h : Framed reqId response) {refusal : ClientError}
    (hlength : client.payloadLen (6 + (response.envelopeSize + response.rawDocs.length)) =
      .error refusal) :
    client.reply runtime method (writeFrame (replyFrame method reqId response)) =
      .error refusal := by
  rw [Client.reply, Client.readReply, readFrame_replyFrame client method h, hlength]
  rfl

/-- Every method of the Java client takes an error reply for a result. -/
theorem exists_reply_of_java (runtime : Runtime) (method : Method) (hplain : client.ReadsPlain)
    (h : Framed reqId (.error code message)) (hlanguage : client.language = .java)
    (haccepts : client.Accepts (OperationResponse.error code message).envelopeSize) :
    ∃ returned, client.reply runtime method
      (writeFrame (replyFrame method reqId (.error code message))) = .ok returned := by
  obtain ⟨count, hlength⟩ := haccepts
  obtain ⟨returned, hreturned⟩ := exists_extract_error runtime method hlanguage code message
  refine ⟨returned, ?_⟩
  rw [reply_replyFrame runtime method hplain h (.inr hlanguage)]
  exact hlength ▸ hreturned

/-- Every method of the other clients raises an error for an error reply. -/
theorem exists_error_of_reply (runtime : Runtime) (method : Method) (hplain : client.ReadsPlain)
    (h : Framed reqId (.error code message)) (hlanguage : client.language ≠ .java) :
    ∃ error, client.reply runtime method
        (writeFrame (replyFrame method reqId (.error code message))) = .error error ∧
      (error.text? = some message ↔
        client.KeepsMessage (OperationResponse.error code message).envelopeSize message) := by
  rw [Client.KeepsMessage]
  cases hlength : client.payloadLen (6 + (OperationResponse.error code message).envelopeSize) with
  | error refusal => exact ⟨refusal, reply_of_refused runtime method h hlength, Iff.rfl⟩
  | ok count =>
    obtain ⟨error, herror, hiff⟩ := exists_error_of_readPayload hplain h.envelope hlanguage
    have hframe : client.readFrame (writeFrame (replyFrame method reqId (.error code message))) =
        (do
          let _ ← client.payloadLen (6 + (OperationResponse.error code message).envelopeSize)
          client.readPayload Opcode.error.toU8
            (toVec (OperationResponse.error code message).envelope ++ [])) :=
      readFrame_replyFrame client method h
    refine ⟨error, ?_, hiff⟩
    rw [Client.reply, Client.readReply, hframe, hlength, herror]
    rfl

/-- The message of an error reply reaches the caller if and only if the client keeps it. -/
theorem decodesReply_error_iff (runtime : Runtime) (method : Method) (hplain : client.ReadsPlain)
    (h : Framed reqId (.error code message)) :
    client.DecodesReply runtime method reqId (.error code message) ↔
      client.Agrees method (.error code message) := by
  rw [Client.DecodesReply, Client.Agrees]
  by_cases hlanguage : client.language = .java
  · rw [Client.KeepsMessage]
    cases hlength : client.payloadLen
        (6 + (OperationResponse.error code message).envelopeSize) with
    | error refusal =>
      simp only [reply_of_refused runtime method h hlength, Except.error.injEq, exists_eq_left']
    | ok count =>
      obtain ⟨returned, hreturned⟩ :=
        exists_reply_of_java runtime method hplain h hlanguage ⟨count, hlength⟩
      simp only [hreturned, hlanguage, reduceCtorEq, false_and, exists_false]
  · obtain ⟨error, herror, hiff⟩ := exists_error_of_reply runtime method hplain h hlanguage
    simp only [herror, Except.error.injEq, exists_eq_left', hiff]

end Errors

/-! ## Clients and the server -/

section Decodes

variable {client : Client} {reqId : ℕ} {response : OperationResponse}

/-- The values of a response that is no error. -/
theorem exists_contains_iff (runtime : Runtime) {method : Method} (hplain : client.ReadsPlain)
    (h : Framed reqId response) (hresponse : response.isError = false)
    (hcontains : ∃ returned, client.Contains method response returned) :
    (∃ returned,
      client.reply runtime method (writeFrame (replyFrame method reqId response)) = .ok returned ∧
        client.Contains method response returned) ↔
      client.Accepts (response.envelopeSize + response.rawDocs.length) ∧
        client.language.KeepsValues response := by
  obtain ⟨returned, hreturned, hiff⟩ := exists_extract runtime hcontains
  rw [reply_replyFrame runtime method hplain h (.inl hresponse), hreturned, Client.Accepts]
  cases client.payloadLen (6 + (response.envelopeSize + response.rawDocs.length)) with
  | error refusal => simp [bind, Except.bind]
  | ok count => simp [bind, Except.bind, hiff]

/-- A method of a client library decodes the reply with a response if and only if the library and
the server agree on how the response is written. -/
theorem Client.decodes_iff_agrees (runtime : Runtime) (hplain : client.ReadsPlain)
    (h : Framed reqId response) :
    ∀ method ∈ client.language.methods,
      client.DecodesReply runtime method reqId response ↔ client.Agrees method response := by
  intro method _
  cases response with
  | error code message => exact decodesReply_error_iff runtime method hplain h
  | _ =>
    apply imp_congr_right
    intro hcontains
    exact exists_contains_iff runtime hplain h rfl hcontains

end Decodes

/-- A client library with the default limit, whose BSON library is that of the server. -/
def defaultClient (language : Language) : Client where
  language := language
  maxFrameSize := maxFrameSizeDefault
  decode := fromSlice

theorem readsPlain_defaultClient (language : Language) : (defaultClient language).ReadsPlain :=
  fun _ _ _ hfits ↦ ⟨hfits, fromSlice_toVec hfits⟩

def silentRuntime : Runtime where
  print _ := ""
  truncate _ := 0

/-- A write that the server refused. -/
def refusedDelete : OperationResponse := .error 13 "not authorized"

theorem framed_refusedDelete : Framed 7 refusedDelete :=
  ⟨by decide, by decide, by decide⟩

/-- Python raises the message of a refused write. -/
theorem Client.decodesReply_refusedDelete :
    Method.deleteOne ∈ (defaultClient .python).language.methods ∧
      (defaultClient .python).DecodesReply silentRuntime .deleteOne 7 refusedDelete :=
  ⟨by decide, (Client.decodes_iff_agrees silentRuntime (readsPlain_defaultClient .python)
    framed_refusedDelete .deleteOne (by decide)).mpr trivial⟩

/-- In Java a refused write is a write of nothing. -/
theorem Client.not_decodesReply_refusedDelete :
    Method.deleteOne ∈ (defaultClient .java).language.methods ∧
      (defaultClient .java).reply silentRuntime .deleteOne
          (writeFrame (replyFrame .deleteOne 7 refusedDelete)) =
        .ok (.count (some (.int64 0))) ∧
      ¬ (defaultClient .java).DecodesReply silentRuntime .deleteOne 7 refusedDelete := by
  have hreply : (defaultClient .java).reply silentRuntime .deleteOne
      (writeFrame (replyFrame .deleteOne 7 refusedDelete)) = .ok (.count (some (.int64 0))) := by
    rw [reply_replyFrame silentRuntime .deleteOne (readsPlain_defaultClient .java)
      framed_refusedDelete (.inr rfl)]
    rfl
  refine ⟨by decide, hreply, fun hdecodes ↦ ?_⟩
  obtain ⟨error, herror, -⟩ := hdecodes
  exact absurd (herror.symm.trans hreply) (by simp)

end MongoCore.Clients
