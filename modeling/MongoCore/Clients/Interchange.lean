import MongoCore.Clients.TwoTransports
import MongoCore.Library.Results
import MongoCore.Transport.BsonDocs

/-!
# What a call does on either transport

On either transport a call is refused, or one operation is performed and a value is made of its
result.  The module says which operation and which value.
-/

namespace MongoCore.Clients.TwoTransports

open MongoCore.Data MongoCore.Transport
open MongoCore.Grpc.Crud (Status FindRequest InsertRequest InsertManyRequest UpdateRequest
  DeleteRequest protoFilterToBson requiredDocument updateDocument decodeBson)
open MongoCore.Mcp (validateCommand dangerousCommands)
open MongoCore.Operations.InsertedIds (InsertManyResult)

/-! ## Documents in another order -/

theorem membersFit_of_perm {document other : Document} (hperm : document.Perm other)
    (h : MembersFit document) : MembersFit other := by
  induction hperm with
  | nil => exact h
  | cons member _ ih => exact ⟨h.1, h.2.1, ih h.2.2⟩
  | swap first second rest => exact ⟨h.2.2.1, h.2.2.2.1, h.1, h.2.1, h.2.2.2.2⟩
  | trans _ _ ih₁ ih₂ => exact ih₂ (ih₁ h)

theorem length_elementBytes_of_perm {document other : Document} (hperm : document.Perm other) :
    (elementBytes document).length = (elementBytes other).length := by
  induction hperm with
  | nil => rfl
  | cons member _ ih => simp only [elementBytes, List.length_cons, List.length_append, ih]
  | swap first second rest =>
    simp only [elementBytes, List.length_cons, List.length_append]
    omega
  | trans _ _ ih₁ ih₂ => exact ih₁.trans ih₂

theorem documentFits_of_perm {document other : Document} (hperm : document.Perm other)
    (h : DocumentFits document) : DocumentFits other := by
  refine ⟨membersFit_of_perm hperm h.1, ?_⟩
  have hlength := h.2
  rw [toVec, length_wrapDocument] at hlength ⊢
  rwa [← length_elementBytes_of_perm hperm]

theorem documentFits_idFirst {document : Document} (h : DocumentFits document) :
    DocumentFits (idFirst document) :=
  documentFits_of_perm (idFirst_perm document).symm h

/-! ## Operations that are performed -/

/-- An operation that a call performs, and the value made of its result. -/
structure Served where
  operation : OperationCall
  value : operation.Result → Option Value

/-- The outcome of a call that performs an operation, or is refused. -/
def ServerDatabase.serveWith {State : Type} (database : ServerDatabase State)
    (served : Option Served) (state : State) : Option Value × State :=
  match served with
  | none => (none, state)
  | some served =>
      ((database.run served.operation state).1.toOption.bind served.value,
        (database.run served.operation state).2)

/-- A command that is blocked unless all are allowed. -/
def IsDangerous (command : Document) : Prop := ∃ member ∈ command, member.1 ∈ dangerousCommands

theorem validateCommand_allowAll (command : Document) : validateCommand true command = .ok () := by
  unfold validateCommand
  split
  case h_1 key value hfind =>
    have hdangerous := List.find?_some hfind
    simp at hdangerous
  case h_2 => rfl

theorem validateCommand_ok_iff (command : Document) :
    validateCommand false command = .ok () ↔ ¬ IsDangerous command := by
  rw [validateCommand, IsDangerous]
  split
  case h_1 key value hfind =>
    have hmember := List.mem_of_find?_eq_some hfind
    have hdangerous := List.find?_some hfind
    refine iff_of_false (by simp) (not_not_intro ⟨(key, value), hmember, ?_⟩)
    simpa using hdangerous
  case h_2 hfind =>
    rw [List.find?_eq_none] at hfind
    refine iff_of_true rfl ?_
    rintro ⟨member, hmember, hdangerous⟩
    exact hfind member hmember (by simpa using hdangerous)

/-- The same commands are blocked in another order. -/
theorem isDangerous_perm {command other : Document} (h : command.Perm other) :
    IsDangerous command ↔ IsDangerous other := by
  simp only [IsDangerous, h.mem_iff]

/-- An operation that is not a command, or a command that is accepted, is performed. -/
theorem perform_eq {State : Type} (database : ServerDatabase State) (allowAll : Bool)
    (operation : OperationCall) (state : State)
    (h : ∀ db command, operation = .runCommand db command →
      validateCommand allowAll command = .ok ()) :
    database.perform allowAll operation state = database.run operation state := by
  cases operation with
  | runCommand db command => simp only [ServerDatabase.perform, h db command rfl]
  | _ => rfl

/-! ## The binary connection -/

section Binary

variable (deployment : Deployment) (target : Target)

theorem idFirst_envelope (call : Call) : idFirst (envelope target call) = envelope target call := by
  apply idFirst_of_notMem
  cases call <;> simp [envelope]

theorem fromSlice_encodeDoc {document : Dict} (h : DocumentFits (encodeMembers document)) :
    deployment.library.fromSlice (encodeDoc document) = .ok (idFirst (encodeMembers document)) :=
  deployment.fromSlice_toVec _ (documentFits_idFirst h)

theorem five_le_length_encodeDoc (document : Dict) : 5 ≤ (encodeDoc document).length :=
  five_le_length_toVec _

theorem parseSingleBsonDoc_encodeDoc {document : Dict}
    (h : DocumentFits (encodeMembers document)) :
    parseSingleBsonDoc deployment.library (encodeDoc document) =
      .ok (idFirst (encodeMembers document)) := by
  have hfive := five_le_length_encodeDoc document
  rw [parseSingleBsonDoc, if_neg (Nat.not_lt.mpr hfive), fromSlice_encodeDoc deployment h]

/-- Documents that follow each other are parsed one by one. -/
theorem parseBsonDocsFrom_encodeDoc (documents : List Dict)
    (h : ∀ document ∈ documents, DocumentFits (encodeMembers document)) (offset : ℕ) :
    parseBsonDocsFrom deployment.library offset (documents.flatMap encodeDoc) =
      .ok (documents.map fun document ↦ idFirst (encodeMembers document)) := by
  rw [List.flatMap_def]
  apply parseBsonDocsFrom_of_forall₂
  rw [List.forall₂_map_left_iff, List.forall₂_map_right_iff, List.forall₂_same]
  intro document hmem
  have hfits := h document hmem
  refine ⟨five_le_length_encodeDoc document, ?_, fromSlice_encodeDoc deployment hfits⟩
  exact (ofLittleEndian_eq _).trans (length_prefix_toVec (documentFits_idFirst hfits).2)

/-- The operation that a call performs on the binary connection. -/
def binaryServed (call : Call) : Option Served :=
  match call with
  | .findOne filter => some
      ⟨.findOne target.database target.collection (filterOrEmpty filter),
        fun document : Option Document ↦
          deployment.binaryValue .findOne (singleDocResponse deployment.library document)⟩
  | .insertOne document => some
      ⟨.insert target.database target.collection (idFirst (encodeMembers document)),
        fun id : Bson ↦
          deployment.binaryValue .insertOne (.insertOneResult (deployment.library.display id))⟩
  | .insertMany documents => some
      ⟨.insertMany target.database target.collection
          (documents.map fun document ↦ idFirst (encodeMembers document)),
        fun ids : List Bson ↦
          deployment.binaryValue .insertMany (.insertManyResult (UInt32.ofNat ids.length))⟩
  | .updateOne (some filter) update => some
      ⟨.update target.database target.collection (encodeMembers filter) (encodeMembers update),
        fun counts : UInt64 × UInt64 ↦
          deployment.binaryValue .updateOne (.updateResult counts.1 counts.2)⟩
  | .updateMany (some filter) update => some
      ⟨.updateMany target.database target.collection (encodeMembers filter)
          (encodeMembers update),
        fun counts : UInt64 × UInt64 ↦
          deployment.binaryValue .updateMany (.updateResult counts.1 counts.2)⟩
  | .deleteOne (some filter) => some
      ⟨.delete target.database target.collection (encodeMembers filter),
        fun count : UInt64 ↦ deployment.binaryValue .deleteOne (.deleteResult count)⟩
  | .deleteMany (some filter) => some
      ⟨.deleteMany target.database target.collection (encodeMembers filter),
        fun count : UInt64 ↦ deployment.binaryValue .deleteMany (.deleteResult count)⟩
  | .updateOne none _ | .updateMany none _ | .deleteOne none | .deleteMany none => none
  | .countDocuments filter => some
      ⟨.countDocuments target.database target.collection (filterOrEmpty filter),
        fun count : UInt64 ↦ deployment.binaryValue .countDocuments (.countResult count)⟩
  | .runCommand command _ =>
      match validateCommand false (encodeMembers command) with
      | .error _ => none
      | .ok () => some
          ⟨.runCommand target.database (encodeMembers command), fun result : Document ↦
            deployment.binaryValue .runCommand
              (commandResponse deployment.library "command result" result)⟩

/-- An error is raised for the response with an error. -/
theorem binaryValue_error (method : Method) (code : Int32) (text : String) :
    deployment.binaryValue method (.error code text) = none := by
  rw [Deployment.binaryValue]
  split_ifs with hsize
  · have hframed : Framed deployment.reqId (.error code text) :=
      ⟨hsize.1, hsize.2, deployment.reqId_lt⟩
    obtain ⟨error, herror, -⟩ := exists_error_of_reply deployment.runtime method
      deployment.readsPlain hframed (by simp [deployment.language_eq])
    rw [herror]
    rfl
  · rfl

/-- The client accepts the length of a response. -/
def Carried (response : OperationResponse) : Prop :=
  response.envelopeSize + response.rawDocs.length ≤ maxFrameSizeDefault

instance : DecidablePred Carried := fun _ ↦ Nat.decLe _ _

/-- The value of a response that is no error is what the client extracts from it. -/
theorem binaryValue_eq (method : Method) {response : OperationResponse}
    (h : response.isError = false) :
    deployment.binaryValue method response =
      if Carried response then
        (deployment.client.extract deployment.runtime method response.envelope
          response.rawDocs).toOption.bind (returnedValue method)
      else none := by
  have hlength : deployment.client.payloadLen
      (6 + (response.envelopeSize + response.rawDocs.length)) =
        pythonPayloadLen maxFrameSizeDefault
          (6 + (response.envelopeSize + response.rawDocs.length)) := by
    rw [Client.payloadLen, deployment.language_eq, deployment.limit_eq]
  rw [pythonPayloadLen, if_neg (by omega)] at hlength
  rw [Deployment.binaryValue]
  by_cases hcarried : Carried response
  · have hsize := hcarried
    simp only [Carried, maxFrameSizeDefault] at hsize
    rw [if_neg (by simp only [maxFrameSizeDefault]; omega)] at hlength
    have hframed : Framed deployment.reqId response :=
      ⟨by omega, by omega, deployment.reqId_lt⟩
    rw [if_pos ⟨hframed.envelope, hframed.msgLen⟩, if_pos hcarried,
      reply_replyFrame deployment.runtime method deployment.readsPlain hframed (.inl h), hlength]
    rfl
  · have hsize := hcarried
    simp only [Carried, maxFrameSizeDefault] at hsize
    rw [if_pos (by simp only [maxFrameSizeDefault]; omega)] at hlength
    rw [if_neg hcarried]
    split_ifs with hfields
    · rw [reply_of_refused deployment.runtime method ⟨hfields.1, hfields.2, deployment.reqId_lt⟩
        hlength]
      rfl
    · rfl

/-- A result of a call is written as a response on the binary connection, and as an answer of the
gRPC service.  Many ids are written as a list only by the service. -/
inductive Written (library : BsonLibrary) : Call → OperationResponse → Answer → Prop
  | noDocument {filter : Option Dict} :
      Written library (.findOne filter) (.singleDoc true none) (.document none)
  | document {filter : Option Dict} {document : Document} {data : Bytes} :
      library.toVec document = .ok data →
        Written library (.findOne filter) (.singleDoc true (some data)) (.document (some data))
  | insertedId {document : Dict} (id : Bson) :
      Written library (.insertOne document) (.insertOneResult (library.display id))
        (.insertedId (library.display id))
  | updateOne {filter : Option Dict} {update : Dict} (counts : UInt64 × UInt64) :
      Written library (.updateOne filter update) (.updateResult counts.1 counts.2)
        (.counts (asSigned counts.1) (asSigned counts.2))
  | updateMany {filter : Option Dict} {update : Dict} (counts : UInt64 × UInt64) :
      Written library (.updateMany filter update) (.updateResult counts.1 counts.2)
        (.counts (asSigned counts.1) (asSigned counts.2))
  | deleteOne {filter : Option Dict} (count : UInt64) :
      Written library (.deleteOne filter) (.deleteResult count) (.deletedCount (asSigned count))
  | deleteMany {filter : Option Dict} (count : UInt64) :
      Written library (.deleteMany filter) (.deleteResult count) (.deletedCount (asSigned count))
  | countDocuments {filter : Option Dict} (count : UInt64) :
      Written library (.countDocuments filter) (.countResult count) (.count (asSigned count))
  | result {command : Dict} {allowAll : Bool} {result : Document} :
      DocumentFits result →
        Written library (.runCommand command allowAll) (.commandResult (toVec result))
          (.result (toVec result))

/-- A result of a response is turned into a value if the response is carried. -/
theorem binaryValue_of_extract (method : Method) (response : OperationResponse)
    (returned : Returned) (h : response.isError = false)
    (hextract : deployment.client.extract deployment.runtime method response.envelope
      response.rawDocs = .ok returned) :
    deployment.binaryValue method response =
      if Carried response then returnedValue method returned else none := by
  rw [binaryValue_eq deployment method h, hextract]
  rfl

theorem number_asI64 {method : Method} (hmethod : method ≠ .insertMany) (count : UInt64) :
    deployment.client.language.number deployment.runtime method (some (asI64 count.toNat)) =
      .ok (some (.int64 (asSigned count))) := by
  rw [asI64, Nat.mod_eq_of_lt count.toNat_lt]
  exact number_int64 _ _ hmethod _

/-- A result that is written has the same value on both transports, where it is carried. -/
theorem binaryValue_written {call : Call} {response : OperationResponse} {answer : Answer}
    (h : Written deployment.library call response answer) :
    deployment.binaryValue call.method response =
      if Carried response then answerValue deployment.client.decode answer else none := by
  have hmap (method : Method) (hmethod : method ≠ .insertMany) (count : UInt64) :
      (deployment.client.language.number deployment.runtime method
        (some (asI64 count.toNat))).map Returned.count =
          .ok (.count (some (.int64 (asSigned count)))) := by
    rw [number_asI64 deployment hmethod]
    rfl
  have hpair (method : Method) (hmethod : method ≠ .insertMany) (counts : UInt64 × UInt64) :
      (do
        let matched ← deployment.client.language.number deployment.runtime method
          (some (asI64 counts.1.toNat))
        let modified ← deployment.client.language.number deployment.runtime method
          (some (asI64 counts.2.toNat))
        pure (.counts matched modified)) =
          Except.ok (Returned.counts (some (.int64 (asSigned counts.1)))
            (some (.int64 (asSigned counts.2)))) := by
    rw [number_asI64 deployment hmethod, number_asI64 deployment hmethod]
    rfl
  cases h with
  | noDocument => exact binaryValue_eq deployment .findOne rfl
  | @document _ document data hdata =>
    have hextract : deployment.client.extract deployment.runtime .findOne
        (OperationResponse.singleDoc true (some data)).envelope data =
          (deployment.client.decodeRawDocs none data).map .document := rfl
    rw [Call.method, binaryValue_eq deployment .findOne rfl, OperationResponse.rawDocs,
      Option.getD_some, hextract, Client.decodeRawDocs, answerValue]
    split_ifs with hcarried hempty
    · rfl
    · cases deployment.client.decode data <;> rfl
    · rfl
  | insertedId id =>
    have hid := (insertedId_eq_iff deployment.client.language deployment.runtime
      (deployment.library.display id)).mpr (by simp [deployment.language_eq])
    exact binaryValue_of_extract deployment .insertOne (.insertOneResult _) (.id (some _)) rfl
      (congrArg (fun value ↦ Except.ok (Returned.id value)) hid)
  | updateOne counts =>
    exact binaryValue_of_extract deployment .updateOne (.updateResult _ _)
      (.counts (some (.int64 _)) (some (.int64 _))) rfl (hpair .updateOne (by decide) counts)
  | updateMany counts =>
    exact binaryValue_of_extract deployment .updateMany (.updateResult _ _)
      (.counts (some (.int64 _)) (some (.int64 _))) rfl (hpair .updateMany (by decide) counts)
  | deleteOne count =>
    exact binaryValue_of_extract deployment .deleteOne (.deleteResult _)
      (.count (some (.int64 _))) rfl (hmap .deleteOne (by decide) count)
  | deleteMany count =>
    exact binaryValue_of_extract deployment .deleteMany (.deleteResult _)
      (.count (some (.int64 _))) rfl (hmap .deleteMany (by decide) count)
  | countDocuments count =>
    exact binaryValue_of_extract deployment .countDocuments (.countResult _)
      (.count (some (.int64 _))) rfl (hmap .countDocuments (by decide) count)
  | @result _ _ result hfits =>
    have hne : toVec result ≠ [] := by
      have hfive := five_le_length_toVec result
      intro hnil
      rw [hnil] at hfive
      exact absurd hfive (by decide)
    have hextract : deployment.client.extract deployment.runtime .runCommand
        (OperationResponse.commandResult (toVec result)).envelope (toVec result) =
          (deployment.client.decodeRawDocs
            (some (OperationResponse.commandResult (toVec result)).envelope)
            (toVec result)).map .document := rfl
    rw [Call.method, binaryValue_eq deployment .runCommand rfl, OperationResponse.rawDocs, hextract,
      Client.decodeRawDocs, if_neg hne, answerValue]
    cases deployment.client.decode (toVec result) <;> rfl

/-- Many inserted documents are counted. -/
theorem binaryValue_insertMany (ids : List Bson) :
    deployment.binaryValue .insertMany (.insertManyResult (UInt32.ofNat ids.length)) =
      some (.ids (placeholderIds (toSigned 32 (ids.length % 2 ^ 32)))) := by
  have hcarried : Carried (.insertManyResult (UInt32.ofNat ids.length)) :=
    (by decide : 44 + 0 ≤ maxFrameSizeDefault)
  have hextract : deployment.client.extract deployment.runtime .insertMany
      (OperationResponse.insertManyResult (UInt32.ofNat ids.length)).envelope [] =
        (deployment.client.language.number deployment.runtime .insertMany
          (some (asI32 (UInt32.ofNat ids.length).toNat))).map .count := rfl
  have hnumber : deployment.client.language.number deployment.runtime .insertMany
      (some (asI32 (UInt32.ofNat ids.length).toNat)) =
        .ok (some (.int32 (toSigned 32 (ids.length % 2 ^ 32)))) := by
    rw [deployment.language_eq, asI32, UInt32.toNat_ofNat', Nat.mod_mod]
    rfl
  rw [hnumber] at hextract
  rw [binaryValue_of_extract deployment .insertMany (.insertManyResult _) _ rfl hextract,
    if_pos hcarried]
  rfl

section Outcome

variable {State : Type} (database : ServerDatabase State) (state : State)
variable {deployment target} {call : Call}

/-- The envelope of a call is read as it was sent. -/
theorem parseEnvelope_requestFrame (hsends : deployment.Sends target call) :
    parseEnvelope deployment.library.fromSlice
        (requestFrame target deployment.reqId call).envelope
        (requestFrame target deployment.reqId call).header.flags.opcode =
      parseDocument (envelope target call) call.method.opcode := by
  have hread : deployment.library.fromSlice (toVec (idFirst (envelope target call))) =
      .ok (envelope target call) := by
    rw [idFirst_envelope]
    exact deployment.fromSlice_toVec _ hsends.1
  simp only [parseEnvelope, requestFrame, hread]

/-- A request that is routed is performed, and its response is read. -/
theorem binaryOutcome_of_route (hsends : deployment.Sends target call)
    {request : OperationRequest} {dispatched : Dispatched}
    (hparse : parseDocument (envelope target call) call.method.opcode = .ok request)
    (hroute : route deployment.library (rawDocs call) request = .ok dispatched) :
    deployment.binaryOutcome target database call state =
      ((database.perform false dispatched.call state).1.toOption.bind fun result ↦
          deployment.binaryValue call.method (dispatched.respond result),
        (database.perform false dispatched.call state).2) := by
  have hrawDocs : (requestFrame target deployment.reqId call).rawDocs = rawDocs call := rfl
  rw [Deployment.binaryOutcome, if_pos hsends]
  simp only [responseTo, callOf, parseEnvelope_requestFrame hsends, hparse, hrawDocs, hroute,
    dispatch]
  cases (database.perform false dispatched.call state).1 with
  | error reason => simp only [toErrorResponse, binaryValue_error, Except.toOption, Option.bind_none]
  | ok result => rfl

/-- A request that is not parsed is answered with an error. -/
theorem binaryOutcome_of_refused (hsends : deployment.Sends target call) {error : CodecError}
    (hparse : parseDocument (envelope target call) call.method.opcode = .error error) :
    deployment.binaryOutcome target database call state = (none, state) := by
  rw [Deployment.binaryOutcome, if_pos hsends]
  simp only [responseTo, callOf, parseEnvelope_requestFrame hsends, hparse,
    invalidEnvelopeResponse, binaryValue_error]

/-- An operation that is no command is performed without a check. -/
theorem serveWith_perform {dispatched : Dispatched} {value : dispatched.call.Result → Option Value}
    (h : ∀ db command, dispatched.call ≠ .runCommand db command) :
    ((database.perform false dispatched.call state).1.toOption.bind value,
        (database.perform false dispatched.call state).2) =
      database.serveWith (some ⟨dispatched.call, value⟩) state := by
  rw [perform_eq database false _ state fun db command heq ↦ absurd heq (h db command)]
  rfl

/-- What a call that is sent does on the binary connection. -/
theorem binaryOutcome_eq (hencodable : call.Encodable) (hsends : deployment.Sends target call) :
    deployment.binaryOutcome target database call state =
      database.serveWith (binaryServed deployment target call) state := by
  cases call with
  | findOne filter =>
    rw [binaryOutcome_of_route database state hsends rfl rfl]
    exact serveWith_perform database state (by simp)
  | insertOne document =>
    have hdocument := hencodable document List.mem_cons_self
    have hroute : route deployment.library (rawDocs (.insertOne document))
        (.insertOne target.database target.collection 0) = .ok
          ⟨.insert target.database target.collection (idFirst (encodeMembers document)),
            fun id : Bson ↦ .insertOneResult (deployment.library.display id)⟩ := by
      rw [route, rawDocs, parseSingleBsonDoc_encodeDoc deployment hdocument]
      rfl
    rw [binaryOutcome_of_route database state hsends rfl hroute]
    exact serveWith_perform database state (by simp)
  | insertMany documents =>
    have hroute : route deployment.library (rawDocs (.insertMany documents))
        (.insertMany target.database target.collection true 0) = .ok
          ⟨.insertMany target.database target.collection
              (documents.map fun document ↦ idFirst (encodeMembers document)),
            fun ids : List Bson ↦ .insertManyResult (UInt32.ofNat ids.length)⟩ := by
      rw [route, rawDocs, parseBsonDocs, parseBsonDocsFrom_encodeDoc deployment documents hencodable]
      rfl
    rw [binaryOutcome_of_route database state hsends rfl hroute]
    exact serveWith_perform database state (by simp)
  | updateOne filter update | updateMany filter update =>
    cases filter with
    | none => exact binaryOutcome_of_refused database state hsends rfl
    | some filter =>
      rw [binaryOutcome_of_route database state hsends rfl rfl]
      exact serveWith_perform database state (by simp)
  | deleteOne filter | deleteMany filter =>
    cases filter with
    | none => exact binaryOutcome_of_refused database state hsends rfl
    | some filter =>
      rw [binaryOutcome_of_route database state hsends rfl rfl]
      exact serveWith_perform database state (by simp)
  | countDocuments filter =>
    rw [binaryOutcome_of_route database state hsends rfl rfl]
    exact serveWith_perform database state (by simp)
  | runCommand command allowAll =>
    rw [binaryOutcome_of_route database state hsends rfl rfl]
    simp only [ServerDatabase.perform, binaryServed]
    cases validateCommand false (encodeMembers command) with
    | error reason => rfl
    | ok done => rfl

end Outcome

end Binary

/-! ## The gRPC service -/

section Grpc

variable (deployment : Deployment) (target : Target)

/-- The value of an answer, if it is returned. -/
def grpcValue (answer : Answer) : Option Value :=
  if deployment.returns answer then answerValue deployment.client.decode answer else none

/-- The operation that a call performs by the gRPC service. -/
def grpcServed (call : Call) : Option Served :=
  match call with
  | .findOne filter => some
      ⟨.findOne target.database target.collection (idFirst (filterOrEmpty filter)),
        fun document : Option Document ↦
          (documentAnswer deployment.library document).toOption.bind (grpcValue deployment)⟩
  | .insertOne document => some
      ⟨.insert target.database target.collection (idFirst (encodeMembers document)),
        fun id : Bson ↦ grpcValue deployment (.insertedId (deployment.library.display id))⟩
  | .insertMany documents => some
      ⟨.insertMany target.database target.collection
          (documents.map fun document ↦ idFirst (encodeMembers document)),
        fun ids : List Bson ↦
          grpcValue deployment (.insertedIds (ids.map deployment.library.display))⟩
  | .updateOne filter update => some
      ⟨.update target.database target.collection (idFirst (filterOrEmpty filter))
          (idFirst (encodeMembers update)),
        fun counts : UInt64 × UInt64 ↦
          grpcValue deployment (.counts (asSigned counts.1) (asSigned counts.2))⟩
  | .updateMany filter update => some
      ⟨.updateMany target.database target.collection (idFirst (filterOrEmpty filter))
          (idFirst (encodeMembers update)),
        fun counts : UInt64 × UInt64 ↦
          grpcValue deployment (.counts (asSigned counts.1) (asSigned counts.2))⟩
  | .deleteOne filter => some
      ⟨.delete target.database target.collection (idFirst (filterOrEmpty filter)),
        fun count : UInt64 ↦ grpcValue deployment (.deletedCount (asSigned count))⟩
  | .deleteMany filter => some
      ⟨.deleteMany target.database target.collection (idFirst (filterOrEmpty filter)),
        fun count : UInt64 ↦ grpcValue deployment (.deletedCount (asSigned count))⟩
  | .countDocuments filter =>
      (readFilter deployment.reader (filter.getD [])).map fun read ↦
        ⟨.countDocuments target.database target.collection read,
          fun count : UInt64 ↦ grpcValue deployment (.count (asSigned count))⟩
  | .runCommand command allowAll =>
      match validateCommand allowAll (idFirst (encodeMembers command)) with
      | .error _ => none
      | .ok () => some
          ⟨.runCommand target.database (idFirst (encodeMembers command)), fun result : Document ↦
            ((deployment.library.toVec result).map Answer.result).toOption.bind
              (grpcValue deployment)⟩

/-- A filter is decoded as it was sent. -/
theorem protoFilterToBson_makeFilter {filter : Option Dict}
    (h : ∀ argument ∈ filter, DocumentFits (encodeMembers argument)) :
    protoFilterToBson deployment.library.fromSlice (makeFilter filter) =
      .ok (idFirst (filterOrEmpty filter)) := by
  match filter with
  | none => rfl
  | some [] => rfl
  | some (member :: members) =>
    have hfits := h (member :: members) rfl
    have hfive := five_le_length_encodeDoc (member :: members)
    have hfull : (encodeDoc (member :: members)).isEmpty = false := by
      rw [List.isEmpty_eq_false_iff]
      exact List.ne_nil_of_length_pos (by omega)
    rw [makeFilter, protoFilterToBson, hfull, decodeBson, fromSlice_encodeDoc deployment hfits]
    · rfl
    · simp

theorem requiredDocument_encodeDoc (missing : String) {document : Dict}
    (h : DocumentFits (encodeMembers document)) :
    requiredDocument deployment.library.fromSlice missing (some (encodeDoc document)) =
      .ok (idFirst (encodeMembers document)) := by
  rw [requiredDocument, decodeBson, fromSlice_encodeDoc deployment h]

theorem mapM_decodeBson_encodeDoc (documents : List Dict)
    (h : ∀ document ∈ documents, DocumentFits (encodeMembers document)) :
    (documents.map encodeDoc).mapM (decodeBson deployment.library.fromSlice) =
      .ok (documents.map fun document ↦ idFirst (encodeMembers document)) := by
  rw [Library.Results.mapM_eq_ok, List.forall₂_map_left_iff, List.forall₂_map_right_iff,
    List.forall₂_same]
  intro document hmem
  rw [decodeBson, fromSlice_encodeDoc deployment (h document hmem)]

def Arrives (call : Call) : Prop :=
  ∃ request, message target call = some request ∧ deployment.arrives request = true

section Outcome

variable {State : Type} (database : ServerDatabase State) (state : State)
variable {deployment target} {call : Call}

theorem grpcOutcome_of_not_arrives (h : ¬ Arrives deployment target call) :
    deployment.grpcOutcome target database call state = (none, state) := by
  rw [Deployment.grpcOutcome]
  cases hmessage : message target call with
  | none => rfl
  | some request => exact if_neg fun harrives ↦ h ⟨request, hmessage, harrives⟩

/-- A message that is served is performed, and its response is read. -/
theorem grpcOutcome_of_serve {request : Message} {performing : Performing}
    (hmessage : message target call = some request) (harrives : deployment.arrives request = true)
    (hserve : serve deployment.library deployment.reader request = .ok performing) :
    deployment.grpcOutcome target database call state =
      ((database.perform performing.allowAll performing.call state).1.toOption.bind fun result ↦
          (performing.answer result).toOption.bind (grpcValue deployment),
        (database.perform performing.allowAll performing.call state).2) := by
  rw [Deployment.grpcOutcome, hmessage]
  simp only [harrives, if_true, hserve]
  rfl

theorem countFilter_eq (filter : Option Dict) :
    countFilter filter = (PyValue.dict (filter.getD [])).toJson := by
  match filter with
  | none => rfl
  | some [] => rfl
  | some (member :: members) => rfl

/-- What a call whose message arrives does by the gRPC service. -/
theorem grpcOutcome_eq (hencodable : call.Encodable) (harrives : Arrives deployment target call) :
    deployment.grpcOutcome target database call state =
      database.serveWith (grpcServed deployment target call) state := by
  obtain ⟨request, hmessage, harrives⟩ := harrives
  cases call with
  | findOne filter =>
    obtain rfl := Option.some.inj hmessage
    have hfilter := protoFilterToBson_makeFilter deployment
      fun argument hargument ↦ hencodable argument (Option.mem_toList.mpr hargument)
    rw [grpcOutcome_of_serve database state hmessage harrives (by
      simp only [serve, hfilter]
      rfl)]
    rfl
  | insertOne document =>
    obtain rfl := Option.some.inj hmessage
    have hdocument := requiredDocument_encodeDoc deployment "Missing document"
      (hencodable document List.mem_cons_self)
    rw [grpcOutcome_of_serve database state hmessage harrives (by
      simp only [serve, hdocument]
      rfl)]
    rfl
  | insertMany documents =>
    obtain rfl := Option.some.inj hmessage
    have hdocuments := mapM_decodeBson_encodeDoc deployment documents hencodable
    rw [grpcOutcome_of_serve database state hmessage harrives (by
      simp only [serve, hdocuments]
      rfl)]
    rfl
  | updateOne filter update | updateMany filter update =>
    obtain rfl := Option.some.inj hmessage
    have hupdate := requiredDocument_encodeDoc deployment "Missing update document"
      (hencodable update List.mem_cons_self)
    have hfilter := protoFilterToBson_makeFilter deployment fun argument hargument ↦
      hencodable argument (List.mem_cons_of_mem _ (Option.mem_toList.mpr hargument))
    rw [grpcOutcome_of_serve database state hmessage harrives (by
      simp only [serve, hfilter, updateDocument, hupdate]
      rfl)]
    rfl
  | deleteOne filter | deleteMany filter =>
    obtain rfl := Option.some.inj hmessage
    have hfilter := protoFilterToBson_makeFilter deployment
      fun argument hargument ↦ hencodable argument (Option.mem_toList.mpr hargument)
    rw [grpcOutcome_of_serve database state hmessage harrives (by
      simp only [serve, hfilter]
      rfl)]
    rfl
  | countDocuments filter =>
    obtain ⟨json, hjson, rfl⟩ := Option.map_eq_some_iff.mp hmessage
    have hread : readFilter deployment.reader (filter.getD []) =
        fromStr deployment.reader json := by
      rw [readFilter, ← countFilter_eq, hjson, Option.bind_some]
    rw [grpcServed, hread]
    cases hdocument : fromStr deployment.reader json with
    | none =>
      rw [Deployment.grpcOutcome, hmessage]
      simp only [harrives, if_true, serve, hdocument]
      rfl
    | some document =>
      rw [grpcOutcome_of_serve database state hmessage harrives (by
        simp only [serve, hdocument]
        rfl)]
      rfl
  | runCommand command allowAll =>
    obtain rfl := Option.some.inj hmessage
    have hcommand := requiredDocument_encodeDoc deployment "Missing command document"
      (hencodable command List.mem_cons_self)
    rw [grpcOutcome_of_serve database state hmessage harrives (by
      simp only [serve, hcommand]
      rfl)]
    simp only [ServerDatabase.perform, grpcServed]
    cases validateCommand allowAll (idFirst (encodeMembers command)) with
    | error reason => rfl
    | ok done => rfl

end Outcome

end Grpc

end MongoCore.Clients.TwoTransports
