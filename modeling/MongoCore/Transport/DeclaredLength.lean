import MongoCore.Transport.FrameLimit

/-!
# The declared length of the raw documents

An envelope declares in `doc_bytes_len` how many raw bytes follow it.  The bytes that do follow are
found from the envelope's own length.  The parser of envelopes reads the declared length, and no
one compares the two: a request whose envelope declares a wrong length is dispatched like any other.

The module says exactly which requests call an operation, and so which frames with a wrong length
are refused, for another reason.
-/

namespace MongoCore.Transport

open MongoCore.Data

/-- The length that an envelope declares, if it declares an integer. -/
def declaredLength? (document : Document) : Option ℤ :=
  match document.lookup "doc_bytes_len" with
  | some (.int32 length) | some (.int64 length) => some length
  | _ => none

/-- A frame that declares a wrong length calls no operation. -/
def RejectsMismatch (library : BsonLibrary) (frame : Frame) : Prop :=
  ∀ document declared, library.fromSlice frame.envelope = .ok document →
    declaredLength? document = some declared → declared ≠ frame.rawDocs.length →
      callOf library frame = none

/-! ## Which requests call an operation -/

inductive FieldKind where
  | text
  | document
  | array

/-- The fields that the envelope of a request must have. -/
def requiredFields : Opcode → List (String × FieldKind)
  | .handshake => [("client_language", .text)]
  | .findOne | .find | .deleteOne | .deleteMany | .findOneAndDelete =>
      [("db", .text), ("coll", .text), ("filter", .document)]
  | .insertOne | .insertMany | .bulkWrite | .countDocuments => [("db", .text), ("coll", .text)]
  | .updateOne | .updateMany | .findOneAndUpdate =>
      [("db", .text), ("coll", .text), ("filter", .document), ("update", .document)]
  | .aggregate => [("db", .text), ("coll", .text), ("pipeline", .array)]
  | .distinct => [("db", .text), ("coll", .text), ("field", .text)]
  | .createIndex => [("db", .text), ("coll", .text), ("keys", .document)]
  | .listCollections => [("db", .text)]
  | .runCommand => [("db", .text), ("command", .document)]
  | .createCollection | .dropCollection => [("db", .text), ("name", .text)]
  | .error => []

def hasField (document : Document) : String × FieldKind → Bool
  | (key, .text) => (getStr? document key).isSome
  | (key, .document) => (getDocument? document key).isSome
  | (key, .array) => (getArray? document key).isSome

/-- The raw bytes that an operation needs can be parsed.  A handshake and an error call none. -/
def rawDocsParse (library : BsonLibrary) (opcode : Opcode) (rawDocs : Bytes) : Bool :=
  match opcode with
  | .insertOne => (parseSingleBsonDoc library rawDocs).isOk
  | .insertMany | .bulkWrite => (parseBsonDocs library rawDocs).isOk
  | .handshake | .error => false
  | _ => true

/-- A request that is not refused: its fields and its documents can be parsed. -/
def Callable (library : BsonLibrary) (document : Document) (frame : Frame) : Prop :=
  (∀ field ∈ requiredFields frame.header.flags.opcode, hasField document field = true) ∧
    rawDocsParse library frame.header.flags.opcode frame.rawDocs = true

/-- Whether a parsed envelope calls an operation. -/
def calls (library : BsonLibrary) (rawDocs : Bytes) :
    Except CodecError OperationRequest → Bool
  | .error _ => false
  | .ok request => (route library rawDocs request).isOk

/-- A check that errors fail checks a required text and then the rest. -/
theorem check_str {check : Except CodecError OperationRequest → Bool}
    (herror : ∀ error, check (.error error) = false) {document : Document} {key : String}
    {next : String → Except CodecError OperationRequest} {rest : Bool}
    (h : ∀ value, check (next value) = rest) :
    check (getRequiredStr document key >>= next) = (hasField document (key, .text) && rest) := by
  have hfield : hasField document (key, .text) = (getStr? document key).isSome := rfl
  rw [hfield, getRequiredStr]
  cases getStr? document key with
  | none => exact herror _
  | some value => exact (h value).trans (Bool.true_and rest).symm

/-- A check that errors fail checks a required document and then the rest. -/
theorem check_doc {check : Except CodecError OperationRequest → Bool}
    (herror : ∀ error, check (.error error) = false) {document : Document} {key : String}
    {next : Document → Except CodecError OperationRequest} {rest : Bool}
    (h : ∀ value, check (next value) = rest) :
    check (getRequiredDoc document key >>= next) =
      (hasField document (key, .document) && rest) := by
  have hfield : hasField document (key, .document) = (getDocument? document key).isSome := rfl
  rw [hfield, getRequiredDoc]
  cases getDocument? document key with
  | none => exact herror _
  | some value => exact (h value).trans (Bool.true_and rest).symm

theorem calls_str {library : BsonLibrary} {rawDocs : Bytes} {document : Document} {key : String}
    {next : String → Except CodecError OperationRequest} {rest : Bool}
    (h : ∀ value, calls library rawDocs (next value) = rest) :
    calls library rawDocs (getRequiredStr document key >>= next) =
      (hasField document (key, .text) && rest) :=
  check_str (fun _ ↦ rfl) h

theorem calls_doc {library : BsonLibrary} {rawDocs : Bytes} {document : Document} {key : String}
    {next : Document → Except CodecError OperationRequest} {rest : Bool}
    (h : ∀ value, calls library rawDocs (next value) = rest) :
    calls library rawDocs (getRequiredDoc document key >>= next) =
      (hasField document (key, .document) && rest) :=
  check_doc (fun _ ↦ rfl) h

/-- A conjunction over a list, and one more condition. -/
theorem all_and_eq_foldr {α : Type} (p : α → Bool) (items : List α) (rest : Bool) :
    (items.all p && rest) = items.foldr (fun item rest ↦ p item && rest) rest := by
  induction items with
  | nil => exact Bool.true_and rest
  | cons item items ih => rw [List.all_cons, List.foldr_cons, ← ih, Bool.and_assoc]

theorem isOk_map {ε α β : Type} (f : α → β) (x : Except ε α) : (x.map f).isOk = x.isOk := by
  cases x <;> rfl

/-- A parsed envelope calls an operation if it has the required fields and its documents can be
parsed. -/
theorem calls_parseDocument (library : BsonLibrary) (rawDocs : Bytes) (document : Document)
    (opcode : Opcode) :
    calls library rawDocs (parseDocument document opcode) =
      ((requiredFields opcode).all (hasField document) && rawDocsParse library opcode rawDocs) := by
  rw [all_and_eq_foldr]
  cases opcode with
  | handshake => exact calls_str fun _ ↦ rfl
  | findOne | find | deleteOne | deleteMany | findOneAndDelete =>
    exact calls_str fun _ ↦ calls_str fun _ ↦ calls_doc fun _ ↦ rfl
  | updateOne | updateMany | findOneAndUpdate =>
    exact calls_str fun _ ↦ calls_str fun _ ↦ calls_doc fun _ ↦ calls_doc fun _ ↦ rfl
  | insertOne | insertMany | bulkWrite =>
    exact calls_str fun _ ↦ calls_str fun _ ↦ isOk_map _ _
  | countDocuments => exact calls_str fun _ ↦ calls_str fun _ ↦ rfl
  | aggregate =>
    refine calls_str fun _ ↦ calls_str fun _ ↦ ?_
    cases hpipeline : getArray? document "pipeline" with
    | none => simp [hasField, hpipeline, calls]
    | some stages => simp [hasField, hpipeline, calls, rawDocsParse, route]; rfl
  | distinct => exact calls_str fun _ ↦ calls_str fun _ ↦ calls_str fun _ ↦ rfl
  | createIndex => exact calls_str fun _ ↦ calls_str fun _ ↦ calls_doc fun _ ↦ rfl
  | listCollections => exact calls_str fun _ ↦ rfl
  | runCommand => exact calls_str fun _ ↦ calls_doc fun _ ↦ rfl
  | createCollection | dropCollection => exact calls_str fun _ ↦ calls_str fun _ ↦ rfl
  | error => rfl

/-- A frame calls an operation if and only if it is not refused for its fields or documents. -/
theorem callOf_eq_none_iff {library : BsonLibrary} {frame : Frame} {document : Document}
    (h : library.fromSlice frame.envelope = .ok document) :
    callOf library frame = none ↔ ¬ Callable library document frame := by
  have hcalls : (callOf library frame).isSome =
      calls library frame.rawDocs (parseDocument document frame.header.flags.opcode) := by
    have hparse : parseEnvelope library.fromSlice frame.envelope frame.header.flags.opcode =
        parseDocument document frame.header.flags.opcode := by rw [parseEnvelope, h]
    rw [callOf, hparse]
    cases parseDocument document frame.header.flags.opcode with
    | error error => rfl
    | ok request =>
      rw [calls]
      dsimp only
      cases route library frame.rawDocs request <;> rfl
  rw [calls_parseDocument] at hcalls
  rw [← Option.not_isSome_iff_eq_none, hcalls, Bool.and_eq_true, List.all_eq_true]
  rfl

/-- A frame that declares a wrong length is rejected if and only if it is refused for another
reason. -/
theorem rejectsMismatch_iff (library : BsonLibrary) (frame : Frame) :
    RejectsMismatch library frame ↔
      ∀ document declared, library.fromSlice frame.envelope = .ok document →
        declaredLength? document = some declared →
          declared = frame.rawDocs.length ∨ ¬ Callable library document frame := by
  unfold RejectsMismatch
  refine forall₂_congr fun document declared ↦ forall₂_congr fun hdocument hdeclared ↦ ?_
  rw [callOf_eq_none_iff hdocument, or_iff_not_imp_left]

/-! ## An insert with a wrong length -/

/-- The envelope of an insert that declares that no raw bytes follow. -/
def wrongLength : Document :=
  [("db", .string "d"), ("coll", .string "c"), ("doc_bytes_len", .int32 0)]

/-- An insert of a document of 14 bytes. -/
def wrongLengthFrame : Frame where
  header :=
    { msgLen := 6 + ((toVec wrongLength).length + (toVec [("_id", .int32 7)]).length)
      flags := .ofServer .insertOne
      reqId := 2 }
  envelope := toVec wrongLength
  rawDocs := toVec [("_id", .int32 7)]

theorem decodeSlice_wrongLength : decodeSlice wrongLengthFrame.envelope = .ok wrongLength := by
  have hkeys : 0 ∉ utf8 "db" ∧ 0 ∉ utf8 "coll" ∧ 0 ∉ utf8 "doc_bytes_len" ∧
      (utf8 "d").length = 1 ∧ (utf8 "c").length = 1 := by decide
  have hfits : DocumentFits wrongLength := by
    refine ⟨?_, by decide⟩
    simp [wrongLength, MembersFit, Bson.Fits, hkeys]
  have hread : fromSlice wrongLengthFrame.envelope = some wrongLength := fromSlice_toVec hfits
  rw [decodeSlice, hread]

/-- The frame is read as it was written, and calls an insert of its raw document. -/
theorem wrongLengthFrame_calls :
    readResult 1024 (writeFrame wrongLengthFrame) = .ok wrongLengthFrame ∧
      ¬ RejectsMismatch formatLibrary wrongLengthFrame := by
  refine ⟨by decide +kernel, fun hrejects ↦ ?_⟩
  have hnone := hrejects wrongLength 0 decodeSlice_wrongLength rfl (by decide +kernel)
  have hcall : (callOf formatLibrary wrongLengthFrame).isSome = true := by decide +kernel
  rw [hnone] at hcall
  exact absurd hcall (by simp)

end MongoCore.Transport
