import MongoCore.Clients.Decoding
import MongoCore.Clients.PythonValues
import MongoCore.Grpc.Crud
import MongoCore.Mcp.DatabaseTools
import MongoCore.Operations.InsertedIds
import MongoCore.Transport.Dispatch

/-!
# The two transports of the Python client

Nine methods of a collection or a client take one of two paths.  With a binary connection a method
sends a frame, and the server routes its envelope.  Without one it calls a method of the gRPC
service.  Both reach the same operations, and each makes a value of its own of the result.

A database answers an operation from its state.  It does not look at the order of the members of a
filter or an update, nor at the width of the integers in the filter of a count, and it answers an
insertion of many documents with a map of their ids.  The libraries, the limits of the gRPC channel
and the reader of JSON are parameters.
-/

namespace MongoCore.Clients.TwoTransports

open MongoCore.Data MongoCore.Transport
open MongoCore.Grpc.Crud (Status FindRequest InsertRequest InsertManyRequest UpdateRequest
  DeleteRequest protoFilterToBson requiredDocument updateDocument decodeBson)
open MongoCore.Mcp (validateCommand)
open MongoCore.Operations.InsertedIds (InsertManyResult)

/-! ## Calls -/

/-- A call of a method.  A filter can be none. -/
inductive Call where
  | findOne (filter : Option Dict)
  | insertOne (document : Dict)
  | insertMany (documents : List Dict)
  | updateOne (filter : Option Dict) (update : Dict)
  | updateMany (filter : Option Dict) (update : Dict)
  | deleteOne (filter : Option Dict)
  | deleteMany (filter : Option Dict)
  | countDocuments (filter : Option Dict)
  | runCommand (command : Dict) (allowAll : Bool)

def Call.method : Call → Method
  | .findOne _ => .findOne
  | .insertOne _ => .insertOne
  | .insertMany _ => .insertMany
  | .updateOne _ _ => .updateOne
  | .updateMany _ _ => .updateMany
  | .deleteOne _ => .deleteOne
  | .deleteMany _ => .deleteMany
  | .countDocuments _ => .countDocuments
  | .runCommand _ _ => .runCommand

def Call.arguments : Call → List Dict
  | .findOne filter | .deleteOne filter | .deleteMany filter | .countDocuments filter =>
      filter.toList
  | .insertOne document => [document]
  | .insertMany documents => documents
  | .updateOne filter update | .updateMany filter update => update :: filter.toList
  | .runCommand command _ => [command]

/-- BSON can encode the arguments. -/
def Call.Encodable (call : Call) : Prop :=
  ∀ argument ∈ call.arguments, DocumentFits (encodeMembers argument)

/-- The database and the collection of a call. -/
structure Target where
  database : String
  collection : String

inductive Value where
  | document (document : Option Document)
  | id (id : String)
  | ids (ids : List String)
  | counts (matchedCount modifiedCount : ℤ)
  | count (count : ℤ)

/-- The bytes of a dictionary that is written by itself. -/
def encodeDoc (document : Dict) : Bytes := toVec (idFirst (encodeMembers document))

/-! ## Requests -/

section Requests

variable (target : Target)

/-- The document of a filter, which is empty if there is none. -/
def filterOrEmpty (filter : Option Dict) : Document := encodeMembers (filter.getD [])

def filterValue (filter : Option Dict) : Bson :=
  match filter with
  | none => .null
  | some filter => .document (encodeMembers filter)

def envelope (call : Call) : Document :=
  let names : Document := [("db", .string target.database), ("coll", .string target.collection)]
  match call with
  | .findOne filter | .countDocuments filter =>
      names ++ [("filter", .document (filterOrEmpty filter))]
  | .insertOne _ => names
  | .insertMany documents =>
      names ++ [("ordered", .boolean true),
        ("count", encodeInt (Int64.ofNat documents.length))]
  | .updateOne filter update | .updateMany filter update =>
      names ++ [("filter", filterValue filter), ("update", .document (encodeMembers update))]
  | .deleteOne filter | .deleteMany filter => names ++ [("filter", filterValue filter)]
  | .runCommand command _ =>
      [("db", .string target.database), ("command", .document (encodeMembers command))]

def rawDocs : Call → Bytes
  | .insertOne document => encodeDoc document
  | .insertMany documents => documents.flatMap encodeDoc
  | _ => []

/-- The frame that a call sends: its opcode, and that it is the last. -/
def requestFrame (reqId : ℕ) (call : Call) : Frame where
  header :=
    { msgLen := 6 + ((toVec (idFirst (envelope target call))).length + (rawDocs call).length)
      flags :=
        { opcode := call.method.opcode
          endOfStream := true
          noReply := false
          batchFollows := false
          priority := .normal }
      reqId := reqId }
  envelope := toVec (idFirst (envelope target call))
  rawDocs := rawDocs call

/-- A request of the gRPC service.  The filter of a count is sent as a JSON text. -/
inductive Message where
  | findOne (request : FindRequest)
  | insert (request : InsertRequest)
  | insertMany (request : InsertManyRequest)
  | update (request : UpdateRequest)
  | updateMany (request : UpdateRequest)
  | delete (request : DeleteRequest)
  | deleteMany (request : DeleteRequest)
  | countDocuments (database collection : String) (filter : Json)
  | runCommand (database : String) (command : Option Bytes) (allowAll : Bool)

/-- A filter as it is put into a message: no bytes if there is none or it is empty. -/
def makeFilter (filter : Option Dict) : Option Bytes :=
  match filter with
  | none | some [] => some []
  | some filter => some (encodeDoc filter)

def countFilter (filter : Option Dict) : Option Json :=
  match filter with
  | none | some [] => some (.object [])
  | some filter => (PyValue.dict filter).toJson

/-- The message that a call sends, unless it raises an error before. -/
def message (call : Call) : Option Message :=
  match call with
  | .findOne filter => some (.findOne
      { database := target.database, collection := target.collection
        filter := makeFilter filter })
  | .insertOne document => some (.insert
      { database := target.database, collection := target.collection
        document := some (encodeDoc document) })
  | .insertMany documents => some (.insertMany
      { database := target.database, collection := target.collection
        documents := documents.map encodeDoc })
  | .updateOne filter update => some (.update
      { database := target.database, collection := target.collection
        filter := makeFilter filter, update := some (encodeDoc update) })
  | .updateMany filter update => some (.updateMany
      { database := target.database, collection := target.collection
        filter := makeFilter filter, update := some (encodeDoc update) })
  | .deleteOne filter => some (.delete
      { database := target.database, collection := target.collection
        filter := makeFilter filter })
  | .deleteMany filter => some (.deleteMany
      { database := target.database, collection := target.collection
        filter := makeFilter filter })
  | .countDocuments filter =>
      (countFilter filter).map (.countDocuments target.database target.collection)
  | .runCommand command allowAll =>
      some (.runCommand target.database (some (encodeDoc command)) allowAll)

end Requests

/-! ## The gRPC service -/

/-- A response of the gRPC service.  Counts are cast to signed integers. -/
inductive Answer where
  | document (data : Option Bytes)
  | insertedId (insertedId : String)
  | insertedIds (insertedIds : List String)
  | counts (matchedCount modifiedCount : ℤ)
  | deletedCount (deletedCount : ℤ)
  | count (count : ℤ)
  | result (data : Bytes)

/-- An operation that a message calls, whether a command is not validated, and the response made of
the result. -/
structure Performing where
  call : OperationCall
  allowAll : Bool
  answer : call.Result → Except String Answer

def asSigned (count : UInt64) : ℤ := toSigned 64 count.toNat

def countsAnswer (counts : UInt64 × UInt64) : Except String Answer :=
  .ok (.counts (asSigned counts.1) (asSigned counts.2))

/-- The response with a document, if there is one. -/
def documentAnswer (library : BsonLibrary) (document : Option Document) : Except String Answer :=
  match document with
  | none => .ok (.document none)
  | some document => (library.toVec document).map fun data ↦ .document (some data)

def serve (library : BsonLibrary) (reader : JsonReader) :
    Message → Except Status Performing
  | .findOne request => do
      let filter ← protoFilterToBson library.fromSlice request.filter
      return ⟨.findOne request.database request.collection filter, false,
        documentAnswer library⟩
  | .insert request => do
      let document ← requiredDocument library.fromSlice "Missing document" request.document
      return ⟨.insert request.database request.collection document, false,
        fun id : Bson ↦ .ok (.insertedId (library.display id))⟩
  | .insertMany request => do
      let documents ← request.documents.mapM (decodeBson library.fromSlice)
      return ⟨.insertMany request.database request.collection documents, false,
        fun ids : List Bson ↦ .ok (.insertedIds (ids.map library.display))⟩
  | .update request => do
      let filter ← protoFilterToBson library.fromSlice request.filter
      let update ← updateDocument library.fromSlice request.update
      return ⟨.update request.database request.collection filter update, false, countsAnswer⟩
  | .updateMany request => do
      let filter ← protoFilterToBson library.fromSlice request.filter
      let update ← updateDocument library.fromSlice request.update
      return ⟨.updateMany request.database request.collection filter update, false, countsAnswer⟩
  | .delete request => do
      let filter ← protoFilterToBson library.fromSlice request.filter
      return ⟨.delete request.database request.collection filter, false,
        fun count : UInt64 ↦ .ok (.deletedCount (asSigned count))⟩
  | .deleteMany request => do
      let filter ← protoFilterToBson library.fromSlice request.filter
      return ⟨.deleteMany request.database request.collection filter, false,
        fun count : UInt64 ↦ .ok (.deletedCount (asSigned count))⟩
  | .countDocuments database collection filter =>
      match fromStr reader filter with
      | none => .error (.invalidArgument "Invalid filter JSON")
      | some filter => .ok ⟨.countDocuments database collection filter, false,
          fun count : UInt64 ↦ .ok (.count (asSigned count))⟩
  | .runCommand database command allowAll => do
      let command ← requiredDocument library.fromSlice "Missing command document" command
      return ⟨.runCommand database command, allowAll,
        fun result : Document ↦ (library.toVec result).map .result⟩

/-! ## Databases -/

/-- A database: what an operation returns, and the state after it.  A command is run without any
check. -/
structure ServerDatabase (State : Type) where
  run : (call : OperationCall) → State → Except String call.Result × State
  insertMany_nil : ∀ db collection state, (run (.insertMany db collection []) state).2 = state
  insertMany_ok : ∀ db collection documents state ids,
    (run (.insertMany db collection documents) state).1 = .ok ids →
      documents ≠ [] ∧ ∃ result : InsertManyResult documents, ids = result.values
  findOne_perm : ∀ db collection state (filter other : Document), filter.Perm other →
    run (.findOne db collection filter) state = run (.findOne db collection other) state
  update_perm : ∀ db collection state (filter other update change : Document),
    filter.Perm other → update.Perm change →
      run (.update db collection filter update) state =
        run (.update db collection other change) state
  updateMany_perm : ∀ db collection state (filter other update change : Document),
    filter.Perm other → update.Perm change →
      run (.updateMany db collection filter update) state =
        run (.updateMany db collection other change) state
  delete_perm : ∀ db collection state (filter other : Document), filter.Perm other →
    run (.delete db collection filter) state = run (.delete db collection other) state
  deleteMany_perm : ∀ db collection state (filter other : Document), filter.Perm other →
    run (.deleteMany db collection filter) state = run (.deleteMany db collection other) state
  countDocuments_widened : ∀ db collection state filter other,
    widenedMembers filter = widenedMembers other →
      run (.countDocuments db collection filter) state =
        run (.countDocuments db collection other) state
  runCommand_fits : ∀ db command state result,
    (run (.runCommand db command) state).1 = .ok result → DocumentFits result

/-- Perform an operation.  A command is validated before. -/
def ServerDatabase.perform {State : Type} (database : ServerDatabase State) (allowAll : Bool)
    (call : OperationCall) (state : State) : Except String call.Result × State :=
  match call with
  | .runCommand db command =>
      match validateCommand allowAll command with
      | .error reason => (.error reason, state)
      | .ok () => database.run (.runCommand db command) state
  | call => database.run call state

/-! ## Outcomes -/

/-- The libraries, the limits and the counter of requests. -/
structure Deployment where
  library : BsonLibrary
  client : Client
  runtime : Runtime
  reader : JsonReader
  reqId : ℕ
  maxFrameSize : UInt32
  arrives : Message → Bool
  returns : Answer → Bool
  reqId_lt : reqId < 2 ^ 32
  language_eq : client.language = .python
  limit_eq : client.maxFrameSize = maxFrameSizeDefault
  readsPlain : client.ReadsPlain
  fromSlice_toVec : ∀ document, DocumentFits document →
    library.fromSlice (toVec document) = .ok document
  toVec_eq : ∀ document, DocumentFits document → library.toVec document = .ok (toVec document)
  display_objectId : ∀ bytes, library.display (.objectId bytes) ≠ "binary_0"

/-- The ids that stand for those of inserted documents. -/
def placeholderIds (count : ℤ) : List String :=
  (List.range count.toNat).map fun i ↦ s!"binary_{i}"

/-- The value that a method makes of what the binary connection returns. -/
def returnedValue (method : Method) : Returned → Option Value
  | .document document => some (.document document)
  | .id (some (.string id)) => some (.id id)
  | .count (some (.int32 count)) | .count (some (.int64 count)) =>
      if method = .insertMany then some (.ids (placeholderIds count)) else some (.count count)
  | .counts (some (.int64 matchedCount)) (some (.int64 modifiedCount)) =>
      some (.counts matchedCount modifiedCount)
  | _ => none

/-- The value that a method makes of a response of the gRPC service. -/
def answerValue (decode : Bytes → Option Document) : Answer → Option Value
  | .document none => some (.document none)
  | .document (some data) =>
      if data = [] then some (.document none)
      else (decode data).map fun document ↦ .document (some document)
  | .insertedId insertedId => some (.id insertedId)
  | .insertedIds insertedIds => some (.ids insertedIds)
  | .counts matchedCount modifiedCount => some (.counts matchedCount modifiedCount)
  | .deletedCount count | .count count => some (.count count)
  | .result data => (decode data).map fun document ↦ .document (some document)

namespace Deployment

variable (deployment : Deployment) (target : Target)

/-- A call is sent on the binary connection: its envelope can be encoded, and the server accepts the
length of the frame. -/
def Sends (call : Call) : Prop :=
  DocumentFits (envelope target call) ∧
    6 + ((toVec (envelope target call)).length + (rawDocs call).length) ≤
      deployment.maxFrameSize.toNat

/-- The value of a response on the binary connection, if its lengths fit their fields. -/
def binaryValue (method : Method) (response : OperationResponse) : Option Value :=
  if response.envelopeSize < 2 ^ 31 ∧
      6 + (response.envelopeSize + response.rawDocs.length) < 2 ^ 32 then
    (deployment.client.reply deployment.runtime method
      (writeFrame (replyFrame method deployment.reqId response))).toOption.bind
        (returnedValue method)
  else none

/-- What a call returns on the binary connection, none for an error, and the state after it. -/
noncomputable def binaryOutcome {State : Type} (database : ServerDatabase State) (call : Call)
    (state : State) : Option Value × State :=
  open Classical in
  if deployment.Sends target call then
    let frame := requestFrame target deployment.reqId call
    let response := responseTo deployment.library frame fun operation ↦
      (database.perform false operation state).1
    (deployment.binaryValue call.method response,
      match callOf deployment.library frame with
      | none => state
      | some operation => (database.perform false operation state).2)
  else (none, state)

/-- What a call returns from the gRPC service, none for an error, and the state after it. -/
def grpcOutcome {State : Type} (database : ServerDatabase State) (call : Call) (state : State) :
    Option Value × State :=
  match message target call with
  | none => (none, state)
  | some message =>
      if deployment.arrives message then
        match serve deployment.library deployment.reader message with
        | .error _ => (none, state)
        | .ok performing =>
            let (result, next) := database.perform performing.allowAll performing.call state
            (result.toOption.bind fun result ↦ (performing.answer result).toOption.bind fun answer ↦
              if deployment.returns answer then answerValue deployment.client.decode answer
              else none, next)
      else (none, state)

/-- A call has the same outcome on both transports, whatever is in the database. -/
def Interchangeable (call : Call) : Prop :=
  ∀ (State : Type) (database : ServerDatabase State) (state : State),
    deployment.binaryOutcome target database call state =
      deployment.grpcOutcome target database call state

end Deployment

end MongoCore.Clients.TwoTransports
