import MongoCore.Clients.ReadFrame
import MongoCore.Transport.Codec

/-!
# The methods of the client libraries

Every method of a client sends a request and reads one reply: it reads the frame, decodes the
envelope, raises what the envelope has under `error`, and takes its result from the members of the
envelope or from the raw documents.  What counts as an error, and what becomes of a member that is
missing or of another type, is decided by each library on its own.

A reply to a handshake returns nothing.  Java and TypeScript take the limit on frames from it.
-/

namespace MongoCore.Clients

open MongoCore.Data MongoCore.Transport

/-! ## Methods -/

inductive Method where
  | connect
  | find
  | findOne
  | insertOne
  | insertMany
  | updateOne
  | updateMany
  | deleteOne
  | deleteMany
  | countDocuments
  | runCommand
  deriving DecidableEq, Repr

def Method.opcode : Method → Opcode
  | .connect => .handshake
  | .find => .find
  | .findOne => .findOne
  | .insertOne => .insertOne
  | .insertMany => .insertMany
  | .updateOne => .updateOne
  | .updateMany => .updateMany
  | .deleteOne => .deleteOne
  | .deleteMany => .deleteMany
  | .countDocuments => .countDocuments
  | .runCommand => .runCommand

def commonMethods : List Method :=
  [.connect, .findOne, .insertOne, .insertMany, .updateOne, .updateMany, .deleteOne, .deleteMany,
    .countDocuments, .runCommand]

def Language.methods : Language → List Method
  | .python => .find :: commonMethods
  | _ => commonMethods

/-- What a method returns.  A number or an id is the value that a language without static types
passes on, or that of the text or the integer of a language that has them; without a value it is
null or undefined. -/
inductive Returned where
  | connected (maxFrameSize : Option Bson)
  | documents (documents : List Document)
  | document (document : Option Document)
  | id (value : Option Bson)
  | count (value : Option Bson)
  | counts (matchedCount modifiedCount : Option Bson)

/-- What the runtime of a language makes of values that are no texts and no integers: the text it
prints for a value, and the integer it converts a floating-point number to. -/
structure Runtime where
  print : Bson → String
  truncate : UInt64 → ℤ

def ClientError.text? : ClientError → Option String
  | .server label (.string message) => some (label ++ message)
  | .server _ _ => none
  | .text message => some message
  | .library => none

/-! ## Errors in an envelope -/

/-- Whether Python takes a value as true. -/
def isTruthyInPython : Bson → Bool
  | .null | .undefined => false
  | .boolean value => value
  | .int32 value | .int64 value => value ≠ 0
  -- zeros by their magnitude
  | .double bits => bits.toNat % 2 ^ 63 ≠ 0
  | .string value | .symbol value | .javaScriptCode value | .javaScriptCodeWithScope value _ =>
      value ≠ ""
  | .array items => ¬ items.isEmpty
  | .document members => ¬ members.isEmpty
  | .binary _ bytes => ¬ bytes.isEmpty
  | _ => true

/-- What a method puts before an error it finds in an envelope. -/
def Language.errorLabel : Language → Method → String
  | .go, .connect => "handshake failed: "
  | _, .connect => "Handshake failed: "
  | .java, _ => "Server error: "
  | _, _ => ""

def Language.raise (language : Language) (method : Method) (envelope : Document) :
    Except ClientError Unit :=
  match language, envelope.lookup "error" with
  | _, none => .ok ()
  | .go, some error => .error (.server (language.errorLabel method) error)
  | .python, some error =>
      if isTruthyInPython error then .error (.server (language.errorLabel method) error)
      else .ok ()
  | .java, some (.string message) =>
      .error (.server (language.errorLabel method) (.string message))
  | .java, some _ => .error .library
  | .typescript, some error =>
      if isTruthyInJavaScript error then .error (.server (language.errorLabel method) error)
      else .ok ()

/-! ## Members of an envelope -/

def goInsertedId (runtime : Runtime) : Option Bson → Bson
  | none => .string "<nil>"
  | some (.string value) => .string value
  | some value => .string (runtime.print value)

def pythonInsertedId (runtime : Runtime) : Option Bson → Bson
  | none => .string ""
  | some (.string value) => .string value
  | some value => .string (runtime.print value)

/-- The text of an id in Java, which is that of the BSON value. -/
def javaInsertedId (runtime : Runtime) : Option Bson → Option Bson
  | none => none
  | some (.string value) => some (.string ("BsonString\x7bvalue='" ++ value ++ "'\x7d"))
  | some value => some (.string (runtime.print value))

/-- The id that `insertOne` returns. -/
def Language.insertedId (language : Language) (runtime : Runtime) (value : Option Bson) :
    Option Bson :=
  match language with
  | .go => some (goInsertedId runtime value)
  | .python => some (pythonInsertedId runtime value)
  | .java => javaInsertedId runtime value
  | .typescript => value

/-- A number in Go, converted from every type of number. -/
def toInt64 (runtime : Runtime) : Option Bson → ℤ
  | some (.int64 value) | some (.int32 value) => value
  | some (.double bits) => runtime.truncate bits
  | _ => 0

/-- A number in Go, asserted to be a 64-bit or a 32-bit integer. -/
def goAssertInt64 : Option Bson → ℤ
  | some (.int64 value) | some (.int32 value) => value
  | _ => 0

/-- A number in Go, asserted to be a 32-bit integer. -/
def goAssertInt32 : Option Bson → ℤ
  | some (.int32 value) => value
  | _ => 0

def goNumber (runtime : Runtime) (method : Method) (value : Option Bson) : ℤ :=
  match method with
  | .insertMany => goAssertInt32 value
  | .deleteOne | .countDocuments => goAssertInt64 value
  | _ => toInt64 runtime value

/-- A 32-bit number in Java; another type is refused by the BSON library. -/
def javaInt32 : Option Bson → Except ClientError ℤ
  | none => .ok 0
  | some (.int32 value) => .ok value
  | some _ => .error .library

/-- A 64-bit number in Java; another type is refused by the BSON library. -/
def javaInt64 : Option Bson → Except ClientError ℤ
  | none => .ok 0
  | some (.int64 value) => .ok value
  | some _ => .error .library

def javaNumber (method : Method) (value : Option Bson) : Except ClientError ℤ :=
  match method with
  | .insertMany => javaInt32 value
  | _ => javaInt64 value

def Language.number (language : Language) (runtime : Runtime) (method : Method)
    (value : Option Bson) : Except ClientError (Option Bson) :=
  match language with
  | .go => .ok (some (.int64 (goNumber runtime method value)))
  | .python => .ok (some (value.getD (.int32 0)))
  | .java => (javaNumber method value).map fun number ↦ some (.int64 number)
  | .typescript => .ok value

/-- The limit on frames that a handshake takes from the reply. -/
def Language.handshake (language : Language) (envelope : Document) :
    Except ClientError (Option Bson) :=
  match language with
  | .go | .python => .ok none
  | .java =>
      match envelope.lookup "max_frame_size" with
      | none => .ok none
      | some (.int32 maxFrameSize) => .ok (some (.int32 maxFrameSize))
      | some _ => .error .library
  | .typescript => .ok (truthyMember? envelope "max_frame_size")

/-! ## Raw documents -/

/-- The raw document of a reply, or a default if there is none. -/
def Client.decodeRawDocs (client : Client) (default : Option Document) (rawDocs : Bytes) :
    Except ClientError (Option Document) :=
  if rawDocs = [] then .ok default
  else
    match client.decode rawDocs with
    | some document => .ok (some document)
    | none => .error .library

/-- The raw documents of a reply, one after the other.  Less than a length field is refused by the
runtime, and a length below that of an empty document by the BSON library. -/
def Client.decodeDocuments (client : Client) (rawDocs : Bytes) :
    Except ClientError (List Document) :=
  if rawDocs = [] then .ok []
  else if rawDocs.length < 4 then .error .library
  else if readInt32LE rawDocs < 5 then .error .library
  else
    match client.decode (sliceTo rawDocs (readInt32LE rawDocs)) with
    | none => .error .library
    | some document =>
        (client.decodeDocuments (sliceFrom rawDocs (readInt32LE rawDocs))).map (document :: ·)
termination_by rawDocs.length
decreasing_by
  rw [sliceFrom, if_pos (by omega), List.length_drop]
  omega

/-! ## Replies -/

/-- What a method takes from a reply without an error. -/
def Client.extract (client : Client) (runtime : Runtime) (method : Method) (envelope : Document)
    (rawDocs : Bytes) : Except ClientError Returned :=
  let number (key : String) := client.language.number runtime method (envelope.lookup key)
  match method with
  | .connect => (client.language.handshake envelope).map .connected
  | .find => (client.decodeDocuments rawDocs).map .documents
  | .findOne => (client.decodeRawDocs none rawDocs).map .document
  | .insertOne =>
      .ok (.id (client.language.insertedId runtime (envelope.lookup "inserted_id")))
  | .insertMany => (number "inserted_count").map .count
  | .updateOne | .updateMany => do
      let matchedCount ← number "matched_count"
      let modifiedCount ← number "modified_count"
      pure (.counts matchedCount modifiedCount)
  | .deleteOne | .deleteMany => (number "deleted_count").map .count
  | .countDocuments => (number "count").map .count
  | .runCommand => (client.decodeRawDocs (some envelope) rawDocs).map .document

def Client.reply (client : Client) (runtime : Runtime) (method : Method) (held : Bytes) :
    Except ClientError Returned := do
  let (envelope, rawDocs) ← client.readReply held
  client.language.raise method envelope
  client.extract runtime method envelope rawDocs

end MongoCore.Clients
