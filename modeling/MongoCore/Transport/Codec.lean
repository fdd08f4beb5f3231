import MongoCore.Data.BsonFormat
import MongoCore.Data.Driver
import MongoCore.Transport.Connection

/-!
# Envelopes

A request's envelope is parsed by the opcode of its frame; a response is encoded as an envelope and
raw document bytes.  The envelope of a response always has a field `doc_bytes_len`.

The integers of a response are unsigned, those of its envelope signed: each is written as the
signed integer with the same bits.

Reading BSON is a parameter, `decode`, since the server reads whatever its library accepts.  What
the server writes is given by the format itself.  Serialising the envelopes below cannot fail: their
keys are fixed and hold no zero byte.
-/

namespace MongoCore.Transport

open MongoCore.Data

/-! ## Requests -/

/-- Why an envelope is refused. -/
inductive CodecError where
  | missingField (field : String)
  | invalidBson (message : String)
  deriving DecidableEq, Repr

def CodecError.display : CodecError → String
  | .missingField field => s!"missing required field: {field}"
  | .invalidBson message => s!"invalid BSON: {message}"

inductive OperationRequest where
  | handshake (clientLanguage : String)
  | findOne (db collection : String) (filter : Document) (projection : Option Document)
  | find (db collection : String) (filter : Document) (options : Option FindOptions)
      (batchSize : Option UInt32) (docBytesLen : UInt32)
  | insertOne (db collection : String) (docBytesLen : UInt32)
  | insertMany (db collection : String) (ordered : Bool) (docBytesLen : UInt32)
  | updateOne (db collection : String) (filter update : Document)
  | updateMany (db collection : String) (filter update : Document)
  | deleteOne (db collection : String) (filter : Document)
  | deleteMany (db collection : String) (filter : Document)
  | aggregate (db collection : String) (pipeline : List Document) (batchSize : Option UInt32)
  | countDocuments (db collection : String) (filter : Document)
  | runCommand (db : String) (command : Document)
  | createIndex (db collection : String) (keys : Document) (name : Option String)
      (unique : Option Bool)
  | listCollections (db : String)
  | createCollection (db name : String)
  | dropCollection (db name : String)
  | distinct (db collection field : String) (filter : Option Document)
  | findOneAndUpdate (db collection : String) (filter update : Document)
  | findOneAndDelete (db collection : String) (filter : Document)
  | bulkWrite (db collection : String) (docBytesLen : UInt32) (ordered : Bool)

/-! ### Fields of a document -/

def getStr? (document : Document) (key : String) : Option String :=
  match document.lookup key with
  | some (.string value) => some value
  | _ => none

def getDocument? (document : Document) (key : String) : Option Document :=
  match document.lookup key with
  | some (.document members) => some members
  | _ => none

def getArray? (document : Document) (key : String) : Option (List Bson) :=
  match document.lookup key with
  | some (.array items) => some items
  | _ => none

/-- The 32-bit integer under a key. -/
def getI32? (document : Document) (key : String) : Option ℤ :=
  match document.lookup key with
  | some (.int32 value) => some value
  | _ => none

/-- The 64-bit integer under a key. -/
def getI64? (document : Document) (key : String) : Option ℤ :=
  match document.lookup key with
  | some (.int64 value) => some value
  | _ => none

def getBool? (document : Document) (key : String) : Option Bool :=
  match document.lookup key with
  | some (.boolean value) => some value
  | _ => none

def getRequiredStr (document : Document) (field : String) : Except CodecError String :=
  match getStr? document field with
  | some value => .ok value
  | none => .error (.missingField field)

def getRequiredDoc (document : Document) (field : String) : Except CodecError Document :=
  match getDocument? document field with
  | some value => .ok value
  | none => .error (.missingField field)

/-- A signed integer as an unsigned one of 32 bits. -/
def asU32 (value : ℤ) : UInt32 := UInt32.ofNat (toUnsigned 32 value)

/-- The field `doc_bytes_len`, zero unless it is a 32-bit integer. -/
def docBytesLenOf (document : Document) : UInt32 :=
  asU32 ((getI32? document "doc_bytes_len").getD 0)

/-- The field `batch_size`. -/
def batchSizeOf (document : Document) : Option UInt32 :=
  (getI32? document "batch_size").map asU32

def findOptionsOf (document : Document) : Option FindOptions :=
  let limit := getI64? document "limit"
  let skip := (getI64? document "skip").map (toUnsigned 64)
  let sort := getDocument? document "sort"
  let projection := getDocument? document "projection"
  if limit.isSome || skip.isSome || sort.isSome || projection.isSome then
    some { limit := limit, skip := skip, sort := sort, projection := projection }
  else none

/-- Parse the fields of an envelope by the opcode of its frame. -/
def parseDocument (document : Document) : Opcode → Except CodecError OperationRequest
  | .handshake => do
      let clientLanguage ← getRequiredStr document "client_language"
      pure (.handshake clientLanguage)
  | .findOne => do
      let db ← getRequiredStr document "db"
      let collection ← getRequiredStr document "coll"
      let filter ← getRequiredDoc document "filter"
      pure (.findOne db collection filter (getDocument? document "projection"))
  | .find => do
      let db ← getRequiredStr document "db"
      let collection ← getRequiredStr document "coll"
      let filter ← getRequiredDoc document "filter"
      pure (.find db collection filter (findOptionsOf document) (batchSizeOf document)
        (docBytesLenOf document))
  | .insertOne => do
      let db ← getRequiredStr document "db"
      let collection ← getRequiredStr document "coll"
      pure (.insertOne db collection (docBytesLenOf document))
  | .insertMany => do
      let db ← getRequiredStr document "db"
      let collection ← getRequiredStr document "coll"
      let ordered := (getBool? document "ordered").getD true
      pure (.insertMany db collection ordered (docBytesLenOf document))
  | .updateOne => do
      let db ← getRequiredStr document "db"
      let collection ← getRequiredStr document "coll"
      let filter ← getRequiredDoc document "filter"
      let update ← getRequiredDoc document "update"
      pure (.updateOne db collection filter update)
  | .updateMany => do
      let db ← getRequiredStr document "db"
      let collection ← getRequiredStr document "coll"
      let filter ← getRequiredDoc document "filter"
      let update ← getRequiredDoc document "update"
      pure (.updateMany db collection filter update)
  | .deleteOne => do
      let db ← getRequiredStr document "db"
      let collection ← getRequiredStr document "coll"
      let filter ← getRequiredDoc document "filter"
      pure (.deleteOne db collection filter)
  | .deleteMany => do
      let db ← getRequiredStr document "db"
      let collection ← getRequiredStr document "coll"
      let filter ← getRequiredDoc document "filter"
      pure (.deleteMany db collection filter)
  | .aggregate => do
      let db ← getRequiredStr document "db"
      let collection ← getRequiredStr document "coll"
      match getArray? document "pipeline" with
      | none => .error (.missingField "pipeline")
      | some stages =>
          -- what is no document is left out
          let pipeline := stages.filterMap fun stage ↦
            match stage with
            | .document members => some members
            | _ => none
          pure (.aggregate db collection pipeline (batchSizeOf document))
  | .countDocuments => do
      let db ← getRequiredStr document "db"
      let collection ← getRequiredStr document "coll"
      pure (.countDocuments db collection ((getDocument? document "filter").getD []))
  | .distinct => do
      let db ← getRequiredStr document "db"
      let collection ← getRequiredStr document "coll"
      let field ← getRequiredStr document "field"
      pure (.distinct db collection field (getDocument? document "filter"))
  | .createIndex => do
      let db ← getRequiredStr document "db"
      let collection ← getRequiredStr document "coll"
      let keys ← getRequiredDoc document "keys"
      pure (.createIndex db collection keys (getStr? document "name")
        (getBool? document "unique"))
  | .listCollections => do
      let db ← getRequiredStr document "db"
      pure (.listCollections db)
  | .runCommand => do
      let db ← getRequiredStr document "db"
      let command ← getRequiredDoc document "command"
      pure (.runCommand db command)
  | .bulkWrite => do
      let db ← getRequiredStr document "db"
      let collection ← getRequiredStr document "coll"
      let ordered := (getBool? document "ordered").getD true
      pure (.bulkWrite db collection (docBytesLenOf document) ordered)
  | .findOneAndUpdate => do
      let db ← getRequiredStr document "db"
      let collection ← getRequiredStr document "coll"
      let filter ← getRequiredDoc document "filter"
      let update ← getRequiredDoc document "update"
      pure (.findOneAndUpdate db collection filter update)
  | .findOneAndDelete => do
      let db ← getRequiredStr document "db"
      let collection ← getRequiredStr document "coll"
      let filter ← getRequiredDoc document "filter"
      pure (.findOneAndDelete db collection filter)
  | .createCollection => do
      let db ← getRequiredStr document "db"
      let name ← getRequiredStr document "name"
      pure (.createCollection db name)
  | .dropCollection => do
      let db ← getRequiredStr document "db"
      let name ← getRequiredStr document "name"
      pure (.dropCollection db name)
  | .error => .error (.invalidBson "Error opcode is not a valid request")

def parseEnvelope (decode : Bytes → Except String Document) (bytes : Bytes) (opcode : Opcode) :
    Except CodecError OperationRequest :=
  match decode bytes with
  | .error message => .error (.invalidBson message)
  | .ok document => parseDocument document opcode

/-! ## Responses -/

inductive OperationResponse where
  | handshake (maxFrameSize maxConcurrent : UInt32)
  | singleDoc (ok : Bool) (doc : Option Bytes)
  | batch (count : UInt32) (docBytes : Bytes)
  | insertOneResult (insertedId : String)
  | insertManyResult (insertedCount : UInt32)
  | updateResult (matchedCount modifiedCount : UInt64)
  | deleteResult (deletedCount : UInt64)
  | countResult (count : UInt64)
  | indexResult (name : String)
  | collections (names : List String)
  | commandResult (doc : Bytes)
  | error (code : Int32) (message : String)
  | shutdown (drainMs : UInt32)

def OperationResponse.rawDocs : OperationResponse → Bytes
  | .singleDoc _ doc => doc.getD []
  | .batch _ docBytes => docBytes
  | .commandResult doc => doc
  | _ => []

/-- A 32-bit unsigned integer cast to a signed one. -/
def asI32 (value : ℕ) : Bson := .int32 (toSigned 32 (value % 2 ^ 32))

/-- A 64-bit unsigned integer cast to a signed one. -/
def asI64 (value : ℕ) : Bson := .int64 (toSigned 64 (value % 2 ^ 64))

def OperationResponse.envelope (response : OperationResponse) : Document :=
  let docBytesLen : String × Bson := ("doc_bytes_len", asI32 response.rawDocs.length)
  match response with
  | .handshake maxFrameSize maxConcurrent =>
      [("max_frame_size", asI32 maxFrameSize.toNat), ("max_concurrent", asI32 maxConcurrent.toNat),
        docBytesLen]
  | .singleDoc ok _ => [("ok", .boolean ok), docBytesLen]
  | .batch count _ => [("count", asI32 count.toNat), docBytesLen]
  | .insertOneResult insertedId => [("inserted_id", .string insertedId), docBytesLen]
  | .insertManyResult insertedCount => [("inserted_count", asI32 insertedCount.toNat), docBytesLen]
  | .updateResult matchedCount modifiedCount =>
      [("matched_count", asI64 matchedCount.toNat), ("modified_count", asI64 modifiedCount.toNat),
        docBytesLen]
  | .deleteResult deletedCount => [("deleted_count", asI64 deletedCount.toNat), docBytesLen]
  | .countResult count => [("count", asI64 count.toNat), docBytesLen]
  | .indexResult name => [("name", .string name), docBytesLen]
  | .collections names => [("names", .array (names.map .string)), docBytesLen]
  | .commandResult _ => [docBytesLen]
  | .error code message =>
      [("code", .int32 code.toInt), ("message", .string message), docBytesLen]
  | .shutdown drainMs => [("drain_ms", asI32 drainMs.toNat), docBytesLen]

/-- Encode a response: the bytes of its envelope, and its raw bytes. -/
def encodeResponse (response : OperationResponse) : Bytes × Bytes :=
  (toVec response.envelope, response.rawDocs)

def OperationResponse.isError : OperationResponse → Bool
  | .error _ _ => true
  | _ => false

/-- The number of raw bytes is always announced. -/
theorem lookup_docBytesLen (response : OperationResponse) :
    response.envelope.lookup "doc_bytes_len" = some (asI32 response.rawDocs.length) := by
  cases response <;> simp [OperationResponse.envelope, List.lookup_cons]

/-! ## The server's answers -/

/-- The error that answers a request whose envelope is refused. -/
def invalidEnvelopeResponse (error : CodecError) : OperationResponse :=
  .error 1 s!"invalid envelope: {error.display}"

/-- The error that answers a request whose response cannot be encoded. -/
def encodingErrorResponse : OperationResponse := .error 1 "internal encoding error"

/-- How a request ends if the operation it is dispatched to has a response. -/
def outcomeOf (decode : Bytes → Except String Document) (frame : Frame)
    (response : OperationResponse) : Outcome :=
  match parseEnvelope decode frame.envelope frame.header.flags.opcode with
  | .error error => .invalidEnvelope (some (encodeResponse (invalidEnvelopeResponse error)))
  | .ok _ => .response response.isError (some (encodeResponse response))
      (some (encodeResponse encodingErrorResponse))

def greetingOf (decode : Bytes → Except String Document) (maxFrameSize maxConcurrent : UInt32)
    (frame : Frame) : Greeting :=
  if frame.header.flags.opcode ≠ .handshake then
    .refused (some (encodeResponse (.error 1 "first frame must be Handshake")))
  else
    match parseEnvelope decode frame.envelope .handshake with
    | .error error =>
        .refused (some (encodeResponse (.error 1 s!"invalid handshake: {error.display}")))
    | .ok _ => .accepted (some (encodeResponse (.handshake maxFrameSize maxConcurrent)))

/-- The events of a server: it parses with `decode`, announces its limits, and answers a request
that it dispatches with some response. -/
def Serves (decode : Bytes → Except String Document) (maxFrameSize maxConcurrent : UInt32)
    (s : State) : Event → Prop
  | .greet greeting _ => ∀ frame, s.phase = .greeting frame →
      greeting = greetingOf decode maxFrameSize maxConcurrent frame
  | .process outcome _ _ => ∀ frame, s.phase = .processing frame →
      ∃ response, outcome = outcomeOf decode frame response
  | _ => True

/-- The events of a server whose responses depend on the request alone. -/
def ServesWith (respond : Frame → OperationResponse) (decode : Bytes → Except String Document)
    (maxFrameSize maxConcurrent : UInt32) (s : State) : Event → Prop
  | .greet greeting _ => ∀ frame, s.phase = .greeting frame →
      greeting = greetingOf decode maxFrameSize maxConcurrent frame
  | .process outcome _ _ => ∀ frame, s.phase = .processing frame →
      outcome = outcomeOf decode frame (respond frame)
  | _ => True

instance (respond : Frame → OperationResponse) (decode : Bytes → Except String Document)
    (maxFrameSize maxConcurrent : UInt32) (s : State) (event : Event) :
    Decidable (ServesWith respond decode maxFrameSize maxConcurrent s event) := by
  induction event using Event.casesOn <;> unfold ServesWith <;> infer_instance

theorem ServesWith.serves {respond : Frame → OperationResponse}
    {decode : Bytes → Except String Document} {maxFrameSize maxConcurrent : UInt32} {s : State}
    {event : Event} (h : ServesWith respond decode maxFrameSize maxConcurrent s event) :
    Serves decode maxFrameSize maxConcurrent s event := by
  cases event with
  | process outcome failAt flushOk => exact fun frame hphase ↦ ⟨respond frame, h frame hphase⟩
  | _ => exact h

def answerTo (decode : Bytes → Except String Document) (frame : Frame)
    (response : OperationResponse) : OperationResponse :=
  match parseEnvelope decode frame.envelope frame.header.flags.opcode with
  | .error error => invalidEnvelopeResponse error
  | .ok _ => response

def answerOpcode (frame : Frame) (answer : OperationResponse) : Opcode :=
  if answer.isError then .error else frame.header.flags.opcode

/-- Every request has a reply, with its id. -/
theorem reply?_outcomeOf (decode : Bytes → Except String Document) (frame : Frame)
    (response : OperationResponse) :
    (outcomeOf decode frame response).reply? frame =
      some (serverFrame (answerOpcode frame (answerTo decode frame response)) frame.header.reqId
        (encodeResponse (answerTo decode frame response))) := by
  unfold outcomeOf answerTo answerOpcode
  cases parseEnvelope decode frame.envelope frame.header.flags.opcode with
  | error error => rfl
  | ok request => rfl

end MongoCore.Transport
