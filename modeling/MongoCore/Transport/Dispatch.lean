import MongoCore.Transport.Codec

/-!
# Dispatch

A parsed request is routed to an operation of the operations layer, and the operation's result is
made into a response.  The documents of an insert are parsed from the raw bytes of the frame.

Which operation a request calls does not depend on the database; what the operation returns is
given by a function of the call.
-/

namespace MongoCore.Transport

open MongoCore.Data

/-- What the server uses of its BSON library: reading and writing documents, and the text of a
value. -/
structure BsonLibrary where
  fromSlice : Bytes → Except String Document
  toVec : Document → Except String Bytes
  display : Bson → String

structure IndexOptions where
  name : Option String
  unique : Option Bool
  sparse : Option Bool

inductive OperationCall where
  | findOne (db collection : String) (filter : Document)
  | findRaw (db collection : String) (filter : Document) (options : Option FindOptions)
  | insert (db collection : String) (document : Document)
  | insertMany (db collection : String) (documents : List Document)
  | update (db collection : String) (filter update : Document)
  | updateMany (db collection : String) (filter update : Document)
  | delete (db collection : String) (filter : Document)
  | deleteMany (db collection : String) (filter : Document)
  | aggregateRaw (db collection : String) (pipeline : List Document)
  | countDocuments (db collection : String) (filter : Document)
  | runCommand (db : String) (command : Document)
  | createIndex (db collection : String) (keys : Document) (options : Option IndexOptions)
  | listCollectionNames (db : String)
  | createCollection (db name : String)
  | dropCollection (db name : String)
  | distinct (db collection field : String) (filter : Document)
  | findAndModify (db collection : String) (filter update : Document)

/-- What a call returns: documents, the bytes of the documents of a cursor, ids, or counts. -/
def OperationCall.Result : OperationCall → Type
  | .findOne .. | .findAndModify .. => Option Document
  | .findRaw .. | .aggregateRaw .. => List Bytes
  | .insert .. => Bson
  | .insertMany .. => List Bson
  | .update .. | .updateMany .. => UInt64 × UInt64
  | .delete .. | .deleteMany .. | .countDocuments .. => UInt64
  | .runCommand .. => Document
  | .createIndex .. => String
  | .listCollectionNames .. => List String
  | .createCollection .. | .dropCollection .. => Unit
  | .distinct .. => List Bson

/-- A request that was routed: the operation it calls, and the response made of the result. -/
structure Dispatched where
  call : OperationCall
  respond : call.Result → OperationResponse

/-- A database: what each call returns, or the text of its error. -/
abbrev Execute := (call : OperationCall) → Except String call.Result

/-! ## Raw documents -/

def parseSingleBsonDoc (library : BsonLibrary) (raw : Bytes) : Except String Document :=
  if raw.length < 5 then .error "raw document bytes too short"
  else
    match library.fromSlice raw with
    | .ok document => .ok document
    | .error e => .error s!"failed to parse BSON document: {e}"

/-- Parse concatenated documents, from an offset on; each starts with its own length. -/
def parseBsonDocsFrom (library : BsonLibrary) (offset : ℕ) (raw : Bytes) :
    Except String (List Document) :=
  if raw = [] then .ok []
  else if raw.length < 4 then .error "incomplete BSON length prefix"
  else
    let len := ofLittleEndian (raw.take 4)
    if len < 5 then .error "invalid BSON document length"
    else if raw.length < len then .error "BSON document extends beyond buffer"
    else
      match library.fromSlice (raw.take len) with
      | .error e => .error s!"failed to parse BSON document at offset {offset}: {e}"
      | .ok document =>
          match parseBsonDocsFrom library (offset + len) (raw.drop len) with
          | .ok documents => .ok (document :: documents)
          | .error message => .error message
termination_by raw.length
decreasing_by
  rw [List.length_drop]
  omega

def parseBsonDocs (library : BsonLibrary) (raw : Bytes) : Except String (List Document) :=
  parseBsonDocsFrom library 0 raw

/-- The documents of a cursor, counted and put together. -/
def collectRaw (documents : List Bytes) : UInt32 × Bytes :=
  documents.foldl (fun (count, rawBytes) document ↦ (count + 1, rawBytes ++ document)) (0, [])

/-! ## Responses -/

/-- The response to a failed operation. -/
def toErrorResponse (message : String) : OperationResponse := .error 1 message

def singleDocResponse (library : BsonLibrary) (document : Option Document) : OperationResponse :=
  match document with
  | none => .singleDoc true none
  | some document =>
      match library.toVec document with
      | .ok raw => .singleDoc true (some raw)
      | .error e => .error 1 s!"failed to serialize document: {e}"

def batchResponse (documents : List Bytes) : OperationResponse :=
  .batch (collectRaw documents).1 (collectRaw documents).2

/-- The response with the result of a command; `what` names it if it cannot be written. -/
def commandResponse (library : BsonLibrary) (what : String) (document : Document) :
    OperationResponse :=
  match library.toVec document with
  | .ok raw => .commandResult raw
  | .error e => .error 1 s!"failed to serialize {what}: {e}"

/-- Route a request; only the parsing of its documents can fail. -/
def route (library : BsonLibrary) (rawDocs : Bytes) : OperationRequest → Except String Dispatched
  | .handshake _ => .error "Handshake must be handled via handle_handshake"
  | .findOne db collection filter _ =>
      .ok ⟨.findOne db collection filter, singleDocResponse library⟩
  | .find db collection filter options _ _ =>
      .ok ⟨.findRaw db collection filter options, batchResponse⟩
  | .insertOne db collection _ =>
      (parseSingleBsonDoc library rawDocs).map fun document ↦
        ⟨.insert db collection document, fun id : Bson ↦ .insertOneResult (library.display id)⟩
  | .insertMany db collection _ _ =>
      (parseBsonDocs library rawDocs).map fun documents ↦
        ⟨.insertMany db collection documents, fun ids : List Bson ↦
          .insertManyResult (UInt32.ofNat ids.length)⟩
  | .updateOne db collection filter update =>
      .ok ⟨.update db collection filter update, fun counts : UInt64 × UInt64 ↦
        .updateResult counts.1 counts.2⟩
  | .updateMany db collection filter update =>
      .ok ⟨.updateMany db collection filter update, fun counts : UInt64 × UInt64 ↦
        .updateResult counts.1 counts.2⟩
  | .deleteOne db collection filter => .ok ⟨.delete db collection filter, .deleteResult⟩
  | .deleteMany db collection filter => .ok ⟨.deleteMany db collection filter, .deleteResult⟩
  | .aggregate db collection pipeline _ =>
      .ok ⟨.aggregateRaw db collection pipeline, batchResponse⟩
  | .countDocuments db collection filter =>
      .ok ⟨.countDocuments db collection filter, .countResult⟩
  | .runCommand db command =>
      .ok ⟨.runCommand db command, commandResponse library "command result"⟩
  | .createIndex db collection keys name unique =>
      let options : Option IndexOptions :=
        if name.isSome || unique.isSome then some ⟨name, unique, none⟩ else none
      .ok ⟨.createIndex db collection keys options, .indexResult⟩
  | .listCollections db => .ok ⟨.listCollectionNames db, .collections⟩
  | .createCollection db name =>
      .ok ⟨.createCollection db name, fun _ ↦ .singleDoc true none⟩
  | .dropCollection db name => .ok ⟨.dropCollection db name, fun _ ↦ .singleDoc true none⟩
  | .distinct db collection field filter =>
      .ok ⟨.distinct db collection field (filter.getD []), fun values : List Bson ↦
        commandResponse library "distinct result" [("values", .array values)]⟩
  | .findOneAndUpdate db collection filter update =>
      .ok ⟨.findAndModify db collection filter update, singleDocResponse library⟩
  | .findOneAndDelete db collection filter =>
      let command : Document :=
        [("findAndModify", .string collection), ("query", .document filter),
          ("remove", .boolean true)]
      .ok ⟨.runCommand db command, fun result : Document ↦
        singleDocResponse library (getDocument? result "value")⟩
  | .bulkWrite db collection _ _ =>
      (parseBsonDocs library rawDocs).map fun documents ↦
        ⟨.insertMany db collection documents, fun ids : List Bson ↦
          .insertManyResult (UInt32.ofNat ids.length)⟩

def dispatch (library : BsonLibrary) (request : OperationRequest) (rawDocs : Bytes)
    (execute : Execute) : OperationResponse :=
  match route library rawDocs request with
  | .error message => .error 1 message
  | .ok dispatched =>
      match execute dispatched.call with
      | .error message => toErrorResponse message
      | .ok result => dispatched.respond result

def responseTo (library : BsonLibrary) (frame : Frame) (execute : Execute) : OperationResponse :=
  match parseEnvelope library.fromSlice frame.envelope frame.header.flags.opcode with
  | .error error => invalidEnvelopeResponse error
  | .ok request => dispatch library request frame.rawDocs execute

def callOf (library : BsonLibrary) (frame : Frame) : Option OperationCall :=
  match parseEnvelope library.fromSlice frame.envelope frame.header.flags.opcode with
  | .error _ => none
  | .ok request =>
      match route library frame.rawDocs request with
      | .error _ => none
      | .ok dispatched => some dispatched.call

end MongoCore.Transport
