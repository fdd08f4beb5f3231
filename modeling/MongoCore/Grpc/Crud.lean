import MongoCore.Data.DriverCommand
import MongoCore.Data.BsonFormat

/-!
# The CRUD calls of the gRPC service

Each call decodes the documents of its request and asks the driver for one command, in a transaction
or outside.  A request is refused if a document does not decode, if a required document is missing,
or if its transaction is not open.  Operations of a pipeline request are served by a second copy of
the same code.

The driver refuses some commands without asking the database: reads in a transaction, since the
client prefers the primary without insisting on it, and updates without a modifier.

Decoding a document is a parameter, and so is the table of open transactions.
-/

namespace MongoCore.Grpc.Crud

open MongoCore.Data

/-! ## Requests -/

structure FindOptionsMessage where
  limit : Option ℤ := none
  skip : Option ℤ := none
  sort : Option (List UInt8) := none
  projection : Option (List UInt8) := none

/-- A find, of many documents or of one.  A filter is sent as bytes. -/
structure FindRequest where
  database : String
  collection : String
  filter : Option (List UInt8) := none
  options : Option FindOptionsMessage := none
  transactionId : Option String := none

structure InsertRequest where
  database : String
  collection : String
  document : Option (List UInt8) := none
  transactionId : Option String := none

structure InsertManyRequest where
  database : String
  collection : String
  documents : List (List UInt8) := []
  transactionId : Option String := none

structure UpdateRequest where
  database : String
  collection : String
  filter : Option (List UInt8) := none
  update : Option (List UInt8) := none
  upsert : Bool := false
  transactionId : Option String := none

structure DeleteRequest where
  database : String
  collection : String
  filter : Option (List UInt8) := none
  transactionId : Option String := none

/-- Options of a find-and-modify, as they are sent; the document before the change is number 0. -/
structure FindAndModifyOptionsMessage where
  returnDocument : ℤ := 0
  upsert : Bool := false
  sort : Option (List UInt8) := none

structure FindAndModifyRequest where
  database : String
  collection : String
  filter : Option (List UInt8) := none
  update : Option (List UInt8) := none
  options : Option FindAndModifyOptionsMessage := none
  transactionId : Option String := none

/-- An aggregation; the stages are sent as bytes. -/
structure AggregateRequest where
  database : String
  collection : String
  pipeline : Option (List (List UInt8)) := none
  transactionId : Option String := none

/-- Why a request is refused. -/
inductive Status where
  | invalidArgument (message : String)
  | notFound (message : String)
  deriving DecidableEq, Repr

/-- What a call asks of the driver: one command, in a transaction or outside. -/
structure Performed where
  transaction : Option String
  request : DriverRequest

/-! ## Decoding -/

section Handlers

variable (decode : List UInt8 → Except String Document)

def decodeBson (data : List UInt8) : Except Status Document :=
  match decode data with
  | .ok document => .ok document
  | .error message => .error (.invalidArgument s!"Invalid BSON: {message}")

/-- Decode a filter; a missing filter and no bytes are the empty one. -/
def protoFilterToBson : Option (List UInt8) → Except Status Document
  | some data => if data.isEmpty then .ok [] else decodeBson decode data
  | none => .ok []

/-- Decode a document of the options; no bytes are none. -/
def optionalDocument : Option (List UInt8) → Except Status (Option Document)
  | some data => if data.isEmpty then .ok none else (decodeBson decode data).map some
  | none => .ok none

def convertFindOptions : Option FindOptionsMessage → Except Status (Option FindOptions)
  | none => .ok none
  | some message => do
      let sort ← optionalDocument decode message.sort
      let projection ← optionalDocument decode message.projection
      pure (some
        { limit := message.limit, skip := message.skip.map (toUnsigned 64), sort := sort
          projection := projection })

def requiredDocument (missing : String) : Option (List UInt8) → Except Status Document
  | some data => decodeBson decode data
  | none => .error (.invalidArgument missing)

def updateDocument (update : Option (List UInt8)) : Except Status Document :=
  requiredDocument decode "Missing update document" update

/-- Decode the options of a find-and-modify.  A sort that does not decode is left out. -/
def convertFindAndModifyOptions (message : FindAndModifyOptionsMessage) : FindAndModifyOptions where
  returnDocument := if message.returnDocument = 0 then .before else .after
  upsert := message.upsert
  sort := message.sort.bind fun data ↦
    if data.isEmpty then none else (decodeBson decode data).toOption

/-! ## Calls -/

variable (isOpen : String → Bool)

/-- Ask for a command in a transaction, if the request names one, or for another one outside. -/
def inTransaction (transactionId : Option String) (inside outside : DriverRequest) :
    Except Status Performed :=
  match transactionId with
  | some id =>
      if isOpen id then .ok ⟨some id, inside⟩
      else .error (.notFound s!"Transaction not found: {id}")
  | none => .ok ⟨none, outside⟩

/-- Find documents.  In a transaction, where the driver refuses the find, the options are not passed
on. -/
def find (request : FindRequest) : Except Status Performed := do
  let filter ← protoFilterToBson decode request.filter
  let options ← convertFindOptions decode request.options
  inTransaction isOpen request.transactionId
    ⟨request.database, request.collection, .find filter {}⟩
    ⟨request.database, request.collection, .find filter (driverOptions options)⟩

/-- Find one document.  The options and the transaction are not looked at. -/
def findOne (request : FindRequest) : Except Status Performed := do
  let filter ← protoFilterToBson decode request.filter
  pure ⟨none, request.database, request.collection, .findOne filter {}⟩

def insert (request : InsertRequest) : Except Status Performed := do
  let document ← requiredDocument decode "Missing document" request.document
  let command : DriverRequest := ⟨request.database, request.collection, .insertOne document⟩
  inTransaction isOpen request.transactionId command command

def insertMany (request : InsertManyRequest) : Except Status Performed := do
  let documents ← request.documents.mapM (decodeBson decode)
  pure ⟨none, request.database, request.collection, .insertMany documents true⟩

/-- Update a document.  The upsert is not passed on. -/
def update (request : UpdateRequest) : Except Status Performed := do
  let filter ← protoFilterToBson decode request.filter
  let update ← updateDocument decode request.update
  let command : DriverRequest :=
    ⟨request.database, request.collection, .updateOne filter update false⟩
  inTransaction isOpen request.transactionId command command

/-- Update documents.  The upsert is not passed on. -/
def updateMany (request : UpdateRequest) : Except Status Performed := do
  let filter ← protoFilterToBson decode request.filter
  let update ← updateDocument decode request.update
  pure ⟨none, request.database, request.collection, .updateMany filter update false⟩

def delete (request : DeleteRequest) : Except Status Performed := do
  let filter ← protoFilterToBson decode request.filter
  let command : DriverRequest := ⟨request.database, request.collection, .deleteOne filter⟩
  inTransaction isOpen request.transactionId command command

def deleteMany (request : DeleteRequest) : Except Status Performed := do
  let filter ← protoFilterToBson decode request.filter
  pure ⟨none, request.database, request.collection, .deleteMany filter⟩

def findAndModify (request : FindAndModifyRequest) : Except Status Performed := do
  let filter ← protoFilterToBson decode request.filter
  let update ← updateDocument decode request.update
  let options := (request.options.map (convertFindAndModifyOptions decode)).getD {}
  pure ⟨none, request.database, request.collection, .findOneAndUpdate filter update options⟩

def aggregate (request : AggregateRequest) : Except Status Performed := do
  let pipeline ← (request.pipeline.getD []).mapM (decodeBson decode)
  pure ⟨none, request.database, request.collection, .aggregate pipeline none⟩

/-! ## Operations of a pipeline request -/

/-- The copy of `find` for an operation of a pipeline. -/
def pipelineFind (request : FindRequest) : Except Status Performed := find decode isOpen request

/-- The copy of `findOne` for an operation of a pipeline. -/
def pipelineFindOne (request : FindRequest) : Except Status Performed := findOne decode request

/-- The copy of `update` for an operation of a pipeline. -/
def pipelineUpdate (request : UpdateRequest) : Except Status Performed :=
  update decode isOpen request

/-- The copy of `updateMany` for an operation of a pipeline. -/
def pipelineUpdateMany (request : UpdateRequest) : Except Status Performed :=
  updateMany decode request

/-- The copy of `findAndModify` for an operation of a pipeline. -/
def pipelineFindAndModify (request : FindAndModifyRequest) : Except Status Performed :=
  findAndModify decode request

end Handlers

/-! ## What the driver refuses -/

inductive ReadPreference where
  | primary
  | primaryPreferred
  deriving DecidableEq, Repr

/-- The read preference of the client.  A transaction that is started without one inherits it. -/
def defaultReadPreference : ReadPreference := .primaryPreferred

def isRead : DriverCommand → Bool
  | .find .. | .findOne .. | .countDocuments _ | .distinct .. | .aggregate .. => true
  | _ => false

def updateOf? : DriverCommand → Option Document
  | .updateOne _ update _ | .updateMany _ update _ | .findOneAndUpdate _ update _ => some update
  | _ => none

/-- The first key of the update is the name of an operator. -/
def hasModifier : Document → Bool
  | (key, _) :: _ => key.toList.head? == some '$'
  | [] => false

/-- Why the driver refuses a command without asking the database. -/
inductive DriverRefusal where
  | readPreferenceInTransaction
  | updateWithoutModifier
  deriving DecidableEq, Repr

def driverRefusal? (performed : Performed) : Option DriverRefusal :=
  if performed.transaction.isSome && isRead performed.request.command &&
      defaultReadPreference != .primary then
    some .readPreferenceInTransaction
  else if (updateOf? performed.request.command).any fun update ↦ !hasModifier update then
    some .updateWithoutModifier
  else none

theorem driverRefusal?_ne_none {performed : Performed} {update : Document}
    (hupdate : updateOf? performed.request.command = some update)
    (hmodifier : hasModifier update = false) : driverRefusal? performed ≠ none := by
  unfold driverRefusal?
  split
  · exact Option.some_ne_none _
  · simp [hupdate, hmodifier]

/-- A request is refused by the call or by the driver. -/
inductive Refusal where
  | call (status : Status)
  | driver (refusal : DriverRefusal)
  deriving DecidableEq, Repr

/-- Hand what a call asks for to the driver. -/
def toDriver : Except Status Performed → Except Refusal Performed
  | .error status => .error (.call status)
  | .ok performed =>
      match driverRefusal? performed with
      | some refusal => .error (.driver refusal)
      | none => .ok performed

theorem toDriver_eq_ok {asked : Except Status Performed} {performed : Performed} :
    toDriver asked = .ok performed ↔ asked = .ok performed ∧ driverRefusal? performed = none := by
  cases asked with
  | error status => simp [toDriver]
  | ok asked =>
    cases hrefusal : driverRefusal? asked with
    | none =>
      simp only [toDriver, hrefusal, Except.ok.injEq]
      exact ⟨fun heq ↦ ⟨heq, heq ▸ hrefusal⟩, And.left⟩
    | some refusal =>
      simp only [toDriver, hrefusal, reduceCtorEq, Except.ok.injEq, false_iff, not_and]
      rintro rfl
      simp [hrefusal]

/-! ## Decoding by the format -/

/-- A decoder that reads what the format prescribes. -/
def decodeFormat (data : List UInt8) : Except String Document :=
  match fromSlice data with
  | some document => .ok document
  | none => .error "malformed document"

def emptyDocument : List UInt8 := [5, 0, 0, 0, 0]

example : decodeBson decodeFormat emptyDocument = .ok [] := rfl

/-- The bytes of the update `{$set: {a: true}}`. -/
def setUpdate : List UInt8 :=
  [20, 0, 0, 0, 3, 36, 115, 101, 116, 0, 9, 0, 0, 0, 8, 97, 0, 1, 0, 0]

example : decodeBson decodeFormat setUpdate =
    .ok [("$set", .document [("a", .boolean true)])] := rfl

end MongoCore.Grpc.Crud
