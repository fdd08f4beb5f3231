import MongoCore.Data.Collection
import MongoCore.Grpc.Crud
import MongoCore.Library.Results
import MongoCore.Operations.JsonDetour
import MongoCore.Operations.ValidatedReferences

/-!
# Steps of a transaction pipeline request

A step of the request carries the request of a CRUD call.  It is converted to a step of the pipeline
executor, with its documents as JSON, and the executor makes a command of it.  The command is
compared with the one of the call itself.

The conversion loses most options, and does not refuse everything that the call refuses.  The module
says exactly which steps mean what the call means.
-/

namespace MongoCore.Grpc.TransactionSteps

open MongoCore.Data MongoCore.Grpc.Crud MongoCore.Operations.TransactionPipeline
open MongoCore.Operations.PipelineRefs MongoCore.Operations.ValidatedReferences
open MongoCore.Operations.JsonDetour

/-! ## Conversion -/

/-- The operation of a step, with the request of the call it stands for. -/
inductive StepOperation where
  | findOne (request : FindRequest)
  | find (request : FindRequest)
  | insert (request : InsertRequest)
  | insertMany (request : InsertManyRequest)
  | update (request : UpdateRequest)
  | updateMany (request : UpdateRequest)
  | delete (request : DeleteRequest)
  | deleteMany (request : DeleteRequest)
  | findAndModify (request : FindAndModifyRequest)
  | aggregate (request : AggregateRequest)

structure TransactionStep where
  name : String
  database : String
  collection : String
  operation : Option StepOperation

section

variable (decode : List UInt8 → Except String Document) (codec : JsonCodec)

def documentJson (document : Document) : Json := codec.ofBson (.document document)

/-- A document that may be missing; a missing document is the empty one. -/
def optionalOrEmpty : Option (List UInt8) → Except Status Document
  | some data => decodeBson decode data
  | none => .ok []

/-- The operation type, the arguments and the limit of an operation. -/
def convertOperation : StepOperation → Except Status (String × Json × Option ℤ)
  | .findOne request => do
      let filter ← protoFilterToBson decode request.filter
      pure ("find_one", .object [("filter", documentJson codec filter)], none)
  | .find request => do
      let filter ← protoFilterToBson decode request.filter
      pure ("find", .object [("filter", documentJson codec filter)],
        request.options.bind (·.limit))
  | .insert request => do
      let document ← optionalOrEmpty decode request.document
      pure ("insert", .object [("document", documentJson codec document)], none)
  | .insertMany request => do
      let documents ← request.documents.mapM (decodeBson decode)
      pure ("insert_many",
        .object [("documents", .array (documents.map (documentJson codec)))], none)
  | .update request => do
      let filter ← protoFilterToBson decode request.filter
      let update ← optionalOrEmpty decode request.update
      pure ("update", .object
        [("filter", documentJson codec filter), ("update", documentJson codec update)], none)
  | .updateMany request => do
      let filter ← protoFilterToBson decode request.filter
      let update ← optionalOrEmpty decode request.update
      pure ("update_many", .object
        [("filter", documentJson codec filter), ("update", documentJson codec update)], none)
  | .delete request => do
      let filter ← protoFilterToBson decode request.filter
      pure ("delete", .object [("filter", documentJson codec filter)], none)
  | .deleteMany request => do
      let filter ← protoFilterToBson decode request.filter
      pure ("delete_many", .object [("filter", documentJson codec filter)], none)
  | .findAndModify request => do
      let filter ← protoFilterToBson decode request.filter
      let update ← optionalOrEmpty decode request.update
      pure ("find_and_modify", .object
        [("filter", documentJson codec filter), ("update", documentJson codec update)], none)
  | .aggregate request =>
      -- a stage that does not decode becomes the empty document
      let stages := (request.pipeline.getD []).map fun stage ↦
        documentJson codec ((decodeBson decode stage).toOption.getD [])
      pure ("aggregate", .object [("pipeline", .array stages)], none)

def convertTransactionStep (step : TransactionStep) : Except Status PipelineStepDef :=
  match step.operation with
  | none => .error (.invalidArgument s!"Step '{step.name}': missing operation")
  | some operation => do
      let (operationType, operationJson, findLimit) ← convertOperation decode codec operation
      pure
        { name := step.name, database := step.database, collection := step.collection
          operationType := operationType, operationJson := operationJson, findLimit := findLimit }

end

/-! ## The call that a step stands for -/

/-- What the call asks of the driver for the request of a step, on the step's collection and outside of any other
transaction. -/
def StepOperation.serve (decode : List UInt8 → Except String Document)
    (database collection : String) : StepOperation → Except Status Performed
  | .findOne request =>
      Crud.findOne decode { request with database := database, collection := collection }
  | .find request =>
      Crud.find decode (fun _ ↦ false)
        { request with database := database, collection := collection, transactionId := none }
  | .insert request =>
      Crud.insert decode (fun _ ↦ false)
        { request with database := database, collection := collection, transactionId := none }
  | .insertMany request =>
      Crud.insertMany decode { request with database := database, collection := collection }
  | .update request =>
      Crud.update decode (fun _ ↦ false)
        { request with database := database, collection := collection, transactionId := none }
  | .updateMany request =>
      Crud.updateMany decode { request with database := database, collection := collection }
  | .delete request =>
      Crud.delete decode (fun _ ↦ false)
        { request with database := database, collection := collection, transactionId := none }
  | .deleteMany request =>
      Crud.deleteMany decode { request with database := database, collection := collection }
  | .findAndModify request =>
      Crud.findAndModify decode { request with database := database, collection := collection }
  | .aggregate request =>
      Crud.aggregate decode { request with database := database, collection := collection }

/-- Options without those that change nothing. -/
def essentialOptions (limit : ℤ) (options : FindOptions) : FindOptions where
  limit := some limit
  skip := options.skip.filter (· ≠ 0)
  sort := options.sort.filter fun sort ↦ !sort.isEmpty
  projection := options.projection.filter fun projection ↦ !projection.isEmpty

/-- How a step asks for a command.  A find of one document is a find with a limit of one, and a find
without a limit has the largest limit that a step can have. -/
def asStep : DriverCommand → DriverCommand
  | .findOne filter options => .find filter (essentialOptions 1 options)
  | .find filter options =>
      .find filter (essentialOptions
        (options.limit.getD defaultTransactionPipelineMaxDocs) options)
  | .findOneAndUpdate filter update options =>
      .findOneAndUpdate filter update
        { options with sort := options.sort.filter fun sort ↦ !sort.isEmpty }
  | command => command

def requestOf (call : DriverCall) : DriverRequest :=
  ⟨call.database, call.collection, call.op.command⟩

/-! ## Steps that mean the same -/

variable (decode : List UInt8 → Except String Document) (serde : Serde)

/-- Nothing is looked up in the arguments of a step. -/
def NoReference (step : TransactionStep) : Prop :=
  ∀ converted, convertTransactionStep decode serde.codec step = .ok converted →
    attempts converted.operationJson = []

/-- A step without references is refused if its call is, and otherwise makes the command of its
call, whatever the results of the other steps. -/
def SameAsCall (step : TransactionStep) (operation : StepOperation) : Prop :=
  match operation.serve decode step.database step.collection with
  | .error _ => (convertTransactionStep decode serde.codec step).isOk = false
  | .ok performed =>
      ∃ converted, convertTransactionStep decode serde.codec step = .ok converted ∧
        ∀ results driver, ∃ resolved,
          resolveReferences serde.codec.toText results converted.operationJson = .ok resolved ∧
            (executeStep serde.codec driver converted resolved).1.map requestOf =
              [⟨performed.request.database, performed.request.collection,
                asStep performed.request.command⟩]

def SortDecodes (options : Option FindAndModifyOptionsMessage) : Prop :=
  ∀ message, options = some message → (optionalDocument decode message.sort).isOk = true

def DocumentDecodes (document : Option (List UInt8)) : Prop :=
  ∀ data, document = some data → (decodeBson decode data).isOk = true

/-- All documents of a request decode: filter, documents, update, stages, and those of the options. -/
def Decodes : StepOperation → Prop
  | .findOne request | .find request =>
      (protoFilterToBson decode request.filter).isOk = true ∧
        (convertFindOptions decode request.options).isOk = true
  | .insert request => DocumentDecodes decode request.document
  | .insertMany request => (request.documents.mapM (decodeBson decode)).isOk = true
  | .update request | .updateMany request =>
      (protoFilterToBson decode request.filter).isOk = true ∧
        DocumentDecodes decode request.update
  | .delete request | .deleteMany request =>
      (protoFilterToBson decode request.filter).isOk = true
  | .findAndModify request =>
      (protoFilterToBson decode request.filter).isOk = true ∧
        DocumentDecodes decode request.update ∧ SortDecodes decode request.options
  | .aggregate request =>
      ((request.pipeline.getD []).mapM (decodeBson decode)).isOk = true

/-- A step stands for its call: without references it means the same, and it is rejected if a
document of it does not decode. -/
structure StandsFor (step : TransactionStep) (operation : StepOperation) : Prop where
  sameAsCall : SameAsCall decode serde step operation
  rejects : ¬ Decodes decode operation →
    (convertTransactionStep decode serde.codec step).isOk = false

def DefaultModification (options : FindAndModifyOptions) : Prop :=
  options.returnDocument = .after ∧ options.upsert = false ∧ options.sort.getD [] = []

/-- Unless the filter does not decode, there is an update, and if it decodes too, both meet a
condition. -/
def UpdateMeets (filter update : Option (List UInt8)) (condition : Document → Document → Prop) :
    Prop :=
  ∀ document, protoFilterToBson decode filter = .ok document →
    ∃ data, update = some data ∧
      ∀ change, decodeBson decode data = .ok change → condition document change

/-- A filter that comes back from JSON as it was, if it decodes. -/
def IntactFilter (filter : Option (List UInt8)) : Prop :=
  ∀ document, protoFilterToBson decode filter = .ok document → Intact serde document

/-- The operations that a step can stand for: no document is missing, every stage decodes, the
documents come back from JSON as they were, and the options that a step drops decode and change
nothing. -/
def Faithful : StepOperation → Prop
  | .findOne request =>
      ∀ filter, protoFilterToBson decode request.filter = .ok filter →
        (convertFindOptions decode request.options).isOk = true ∧ Intact serde filter
  | .find request =>
      ∀ filter, protoFilterToBson decode request.filter = .ok filter →
        ∃ options, convertFindOptions decode request.options = .ok options ∧
          (driverOptions options).PlainOrder ∧ Intact serde filter
  | .insert request =>
      ∃ data, request.document = some data ∧
        ∀ document, decodeBson decode data = .ok document → Intact serde document
  | .insertMany request =>
      ∀ documents, request.documents.mapM (decodeBson decode) = .ok documents →
        ∀ document ∈ documents, Intact serde document
  | .update request | .updateMany request =>
      UpdateMeets decode request.filter request.update fun filter update ↦
        Intact serde filter ∧ Intact serde update
  | .delete request | .deleteMany request => IntactFilter decode serde request.filter
  | .findAndModify request =>
      UpdateMeets decode request.filter request.update fun filter update ↦
        Intact serde filter ∧ Intact serde update ∧ SortDecodes decode request.options ∧
          DefaultModification ((request.options.map (convertFindAndModifyOptions decode)).getD {})
  | .aggregate request =>
      ∃ stages, (request.pipeline.getD []).mapM (decodeBson decode) = .ok stages ∧
        ∀ stage ∈ stages, Intact serde stage

/-! ## Operations one by one -/

variable {decode serde} {step : TransactionStep} {operation : StepOperation}

theorem isOk_convertTransactionStep (hoperation : step.operation = some operation) :
    (convertTransactionStep decode serde.codec step).isOk =
      (convertOperation decode serde.codec operation).isOk := by
  rw [convertTransactionStep, hoperation]
  dsimp only
  cases convertOperation decode serde.codec operation <;> rfl

theorem sameAsCall_of_error {status : Status} (hoperation : step.operation = some operation)
    (hserve : operation.serve decode step.database step.collection = .error status) :
    SameAsCall decode serde step operation ↔
      (convertOperation decode serde.codec operation).isOk = false := by
  rw [SameAsCall, hserve]
  dsimp only
  rw [isOk_convertTransactionStep hoperation]

theorem sameAsCall_of_ok {name : String} {json : Json} {limit : Option ℤ} {type : StepType}
    {command : DriverCommand} (hoperation : step.operation = some operation)
    (hserve : operation.serve decode step.database step.collection =
      .ok ⟨none, step.database, step.collection, command⟩)
    (hconvert : convertOperation decode serde.codec operation = .ok (name, json, limit))
    (htype : StepType.ofName? name = some type) (hnone : NoReference decode serde step) :
    SameAsCall decode serde step operation ↔
      (stepOp serde.codec type limit json).command = asStep command := by
  have hconverted : convertTransactionStep decode serde.codec step = .ok
      { name := step.name, database := step.database, collection := step.collection
        operationType := name, operationJson := json, findLimit := limit } := by
    rw [convertTransactionStep, hoperation]
    dsimp only
    rw [hconvert]
    rfl
  have hresolved (results : Results) :
      resolveReferences serde.codec.toText results json = .ok json :=
    resolveReferences_of_no_attempts _ results (hnone _ hconverted)
  rw [SameAsCall, hserve, hconverted]
  simp only [Except.ok.injEq, exists_eq_left', hresolved, executeStep, htype, requestOf,
    List.map_cons, List.map_nil, List.cons.injEq, DriverRequest.mk.injEq, true_and, and_true]
  exact ⟨fun h ↦ h (fun _ ↦ none) fun _ ↦ .error "", fun h _ _ ↦ h⟩

theorem received_eq_iff (document : Document) :
    bsonFromJsonValue serde.codec (documentJson serde.codec document) = document ↔
      Intact serde document :=
  ⟨Survives.intact serde, Intact.survives serde⟩

theorem documentMember_eq (codec : JsonCodec) (field : String) (document : Document)
    (members : List (String × Json)) :
    documentMember codec (.object ((field, documentJson codec document) :: members)) field =
      bsonFromJsonValue codec (documentJson codec document) := by
  simp [documentMember, Json.get?]

theorem documentMember_update (codec : JsonCodec) (filter : Json) (update : Document) :
    documentMember codec (.object [("filter", filter), ("update", documentJson codec update)])
        "update" =
      bsonFromJsonValue codec (documentJson codec update) := by
  simp [documentMember, Json.get?, List.lookup_cons]

theorem documentsMember_eq (codec : JsonCodec) (field : String) (documents : List Document) :
    documentsMember codec (.object [(field, .array (documents.map (documentJson codec)))]) field =
      documents.map fun document ↦ bsonFromJsonValue codec (documentJson codec document) := by
  simp [documentsMember, Json.get?, Json.asArray?]

/-- Documents are all received as they were sent if and only if each comes back as it was. -/
theorem map_received_eq_iff (documents : List Document) :
    (documents.map fun document ↦
        bsonFromJsonValue serde.codec (documentJson serde.codec document)) = documents ↔
      ∀ document ∈ documents, Intact serde document := by
  induction documents with
  | nil => simp
  | cons document documents ih =>
    rw [List.map_cons, List.cons.injEq, ih, received_eq_iff, List.forall_mem_cons]

/-- Operations with a filter alone. -/
theorem sameAsCall_filter {name : String} {type : StepType} {filter : Option (List UInt8)}
    {command : Document → DriverCommand} (hoperation : step.operation = some operation)
    (hnone : NoReference decode serde step)
    (hserve : operation.serve decode step.database step.collection = do
      let document ← protoFilterToBson decode filter
      pure ⟨none, step.database, step.collection, command document⟩)
    (hconvert : convertOperation decode serde.codec operation = do
      let document ← protoFilterToBson decode filter
      pure (name, .object [("filter", documentJson serde.codec document)], none))
    (htype : StepType.ofName? name = some type)
    (hcommand : ∀ document, (stepOp serde.codec type none
      (.object [("filter", documentJson serde.codec document)])).command =
        asStep (command document) ↔ Intact serde document) :
    SameAsCall decode serde step operation ↔ IntactFilter decode serde filter := by
  cases hfilter : protoFilterToBson decode filter with
  | error status =>
    rw [hfilter] at hserve hconvert
    rw [sameAsCall_of_error hoperation hserve, hconvert]
    exact iff_of_true rfl (by simp [IntactFilter, hfilter])
  | ok document =>
    rw [hfilter] at hserve hconvert
    rw [sameAsCall_of_ok hoperation hserve hconvert htype hnone, hcommand]
    simp [IntactFilter, hfilter]

/-- Operations with a filter and an update.  A missing update is not refused. -/
theorem sameAsCall_update {name : String} {type : StepType} {filter update : Option (List UInt8)}
    {command : Document → Document → DriverCommand} {condition : Document → Document → Prop}
    (hoperation : step.operation = some operation) (hnone : NoReference decode serde step)
    (hserve : operation.serve decode step.database step.collection = do
      let document ← protoFilterToBson decode filter
      let change ← updateDocument decode update
      pure ⟨none, step.database, step.collection, command document change⟩)
    (hconvert : convertOperation decode serde.codec operation = do
      let document ← protoFilterToBson decode filter
      let change ← optionalOrEmpty decode update
      pure (name, .object [("filter", documentJson serde.codec document),
        ("update", documentJson serde.codec change)], none))
    (htype : StepType.ofName? name = some type)
    (hcommand : ∀ document change, (stepOp serde.codec type none
      (.object [("filter", documentJson serde.codec document),
        ("update", documentJson serde.codec change)])).command =
          asStep (command document change) ↔ condition document change) :
    SameAsCall decode serde step operation ↔ UpdateMeets decode filter update condition := by
  cases hfilter : protoFilterToBson decode filter with
  | error status =>
    rw [hfilter] at hserve hconvert
    rw [sameAsCall_of_error hoperation hserve, hconvert]
    exact iff_of_true rfl (by simp [UpdateMeets, hfilter])
  | ok document =>
    rw [hfilter] at hserve hconvert
    cases hupdate : update with
    | none =>
      rw [hupdate] at hserve hconvert
      rw [sameAsCall_of_error hoperation hserve, hconvert]
      refine iff_of_false (by simp [optionalOrEmpty, Except.isOk, Except.toBool]; rfl) ?_
      simp [UpdateMeets, hfilter]
    | some data =>
      rw [hupdate] at hserve hconvert
      rw [updateDocument, requiredDocument] at hserve
      rw [optionalOrEmpty] at hconvert
      cases hchange : decodeBson decode data with
      | error status =>
        rw [hchange] at hserve hconvert
        rw [sameAsCall_of_error hoperation hserve, hconvert]
        exact iff_of_true rfl (by simp [UpdateMeets, hfilter, hchange])
      | ok change =>
        rw [hchange] at hserve hconvert
        rw [sameAsCall_of_ok hoperation hserve hconvert htype hnone, hcommand]
        simp [UpdateMeets, hfilter, hchange]

theorem essentialOptions_eq_iff {limit : ℤ} {options : FindOptions} :
    essentialOptions limit options = { limit := some limit } ↔ options.PlainOrder := by
  simp only [essentialOptions, FindOptions.mk.injEq, true_and, and_true, FindOptions.PlainOrder]
  cases options.skip <;> cases options.sort <;> cases options.projection <;> simp

theorem asStep_findOneAndUpdate_iff {filter update filter' update' : Document}
    {options : FindAndModifyOptions} :
    DriverCommand.findOneAndUpdate filter' update' {} =
        asStep (.findOneAndUpdate filter update options) ↔
      filter' = filter ∧ update' = update ∧ DefaultModification options := by
  obtain ⟨returnDocument, upsert, sort⟩ := options
  simp only [asStep, DefaultModification, DriverCommand.findOneAndUpdate.injEq,
    FindAndModifyOptions.mk.injEq]
  rw [eq_comm (a := ReturnDocument.after), eq_comm (a := false), eq_comm (a := none)]
  cases sort with
  | none => simp
  | some sort => cases sort <;> simp

theorem driverOptions_limit {message : Option FindOptionsMessage} {options : Option FindOptions}
    (h : convertFindOptions decode message = .ok options) :
    (driverOptions options).limit = message.bind (·.limit) := by
  cases message with
  | none =>
    obtain rfl := Except.ok.inj h
    rfl
  | some message =>
    rw [convertFindOptions] at h
    cases hsort : optionalDocument decode message.sort with
    | error status => rw [hsort] at h; cases h
    | ok sort =>
      cases hprojection : optionalDocument decode message.projection with
      | error status => rw [hsort, hprojection] at h; cases h
      | ok projection =>
        rw [hsort, hprojection] at h
        obtain rfl := Except.ok.inj h
        rfl

theorem sameAsCall_find {request : FindRequest}
    (hoperation : step.operation = some (.find request)) (hnone : NoReference decode serde step) :
    SameAsCall decode serde step (.find request) ↔ Faithful decode serde (.find request) := by
  cases hfilter : protoFilterToBson decode request.filter with
  | error status =>
    have hserve : StepOperation.serve decode step.database step.collection (.find request) =
        .error status := by
      simp only [StepOperation.serve, Crud.find, hfilter]
      rfl
    rw [sameAsCall_of_error hoperation hserve]
    refine iff_of_true ?_ (by simp [Faithful, hfilter])
    simp only [convertOperation, hfilter]
    rfl
  | ok filter =>
    have hconvert : convertOperation decode serde.codec (.find request) =
        .ok ("find", .object [("filter", documentJson serde.codec filter)],
          request.options.bind (·.limit)) := by
      simp only [convertOperation, hfilter]
      rfl
    cases hoptions : convertFindOptions decode request.options with
    | error status =>
      have hserve : StepOperation.serve decode step.database step.collection (.find request) =
          .error status := by
        simp only [StepOperation.serve, Crud.find, hfilter, hoptions]
        rfl
      rw [sameAsCall_of_error hoperation hserve, hconvert]
      exact iff_of_false (by simp [Except.isOk, Except.toBool])
        (by simp [Faithful, hfilter, hoptions])
    | ok options =>
      have hserve : StepOperation.serve decode step.database step.collection (.find request) =
          .ok ⟨none, step.database, step.collection, .find filter (driverOptions options)⟩ := by
        simp only [StepOperation.serve, Crud.find, hfilter, hoptions]
        rfl
      rw [sameAsCall_of_ok hoperation hserve hconvert rfl hnone]
      have hplain := @essentialOptions_eq_iff
        ((request.options.bind (·.limit)).getD defaultTransactionPipelineMaxDocs)
        (driverOptions options)
      simp only [stepOp, DriverOp.command, asStep, documentMember_eq, driverOptions_limit hoptions,
        DriverCommand.find.injEq, received_eq_iff]
      rw [eq_comm (a := ({ limit := _ } : FindOptions)), hplain]
      simp [Faithful, hfilter, hoptions, and_comm]

theorem sameAsCall_insert {request : InsertRequest}
    (hoperation : step.operation = some (.insert request)) (hnone : NoReference decode serde step) :
    SameAsCall decode serde step (.insert request) ↔ Faithful decode serde (.insert request) := by
  cases hdata : request.document with
  | none =>
    have hserve : StepOperation.serve decode step.database step.collection (.insert request) =
        .error (.invalidArgument "Missing document") := by
      simp only [StepOperation.serve, Crud.insert, hdata]
      rfl
    rw [sameAsCall_of_error hoperation hserve]
    refine iff_of_false ?_ (by simp [Faithful, hdata])
    simp only [convertOperation, hdata]
    simp [optionalOrEmpty, Except.isOk, Except.toBool]
  | some data =>
    cases hdocument : decodeBson decode data with
    | error status =>
      have hserve : StepOperation.serve decode step.database step.collection (.insert request) =
          .error status := by
        simp only [StepOperation.serve, Crud.insert, hdata, requiredDocument, hdocument]
        rfl
      rw [sameAsCall_of_error hoperation hserve]
      refine iff_of_true ?_ (by simp [Faithful, hdata, hdocument])
      simp only [convertOperation, hdata, optionalOrEmpty, hdocument]
      rfl
    | ok document =>
      have hserve : StepOperation.serve decode step.database step.collection (.insert request) =
          .ok ⟨none, step.database, step.collection, .insertOne document⟩ := by
        simp only [StepOperation.serve, Crud.insert, hdata, requiredDocument, hdocument]
        rfl
      have hconvert : convertOperation decode serde.codec (.insert request) =
          .ok ("insert", .object [("document", documentJson serde.codec document)], none) := by
        simp only [convertOperation, hdata, optionalOrEmpty, hdocument]
        rfl
      rw [sameAsCall_of_ok hoperation hserve hconvert rfl hnone]
      simp [stepOp, DriverOp.command, asStep, documentMember_eq, received_eq_iff, Faithful, hdata,
        hdocument]

theorem sameAsCall_insertMany {request : InsertManyRequest}
    (hoperation : step.operation = some (.insertMany request))
    (hnone : NoReference decode serde step) :
    SameAsCall decode serde step (.insertMany request) ↔
      Faithful decode serde (.insertMany request) := by
  cases hdocuments : request.documents.mapM (decodeBson decode) with
  | error status =>
    have hserve : StepOperation.serve decode step.database step.collection (.insertMany request) =
        .error status := by
      simp only [StepOperation.serve, Crud.insertMany, hdocuments]
      rfl
    rw [sameAsCall_of_error hoperation hserve]
    refine iff_of_true ?_ (by simp [Faithful, hdocuments])
    simp only [convertOperation, hdocuments]
    rfl
  | ok documents =>
    have hserve : StepOperation.serve decode step.database step.collection (.insertMany request) =
        .ok ⟨none, step.database, step.collection, .insertMany documents true⟩ := by
      simp only [StepOperation.serve, Crud.insertMany, hdocuments]
      rfl
    have hconvert : convertOperation decode serde.codec (.insertMany request) = .ok ("insert_many",
        .object [("documents", .array (documents.map (documentJson serde.codec)))], none) := by
      simp only [convertOperation, hdocuments]
      rfl
    rw [sameAsCall_of_ok hoperation hserve hconvert rfl hnone]
    simp only [stepOp, DriverOp.command, asStep, documentsMember_eq, DriverCommand.insertMany.injEq,
      and_true, map_received_eq_iff]
    simp [Faithful, hdocuments]

/-- If every stage decodes, the stages are the documents that the call aggregates with. -/
theorem stages_eq {stages : List (List UInt8)} {documents : List Document}
    (h : stages.mapM (decodeBson decode) = .ok documents) :
    (stages.map fun stage ↦ (decodeBson decode stage).toOption.getD []) = documents := by
  induction Library.Results.mapM_eq_ok.mp h with
  | nil => rfl
  | cons hstage hstages ih =>
    rw [List.map_cons, hstage, ih (Library.Results.mapM_eq_ok.mpr hstages)]
    rfl

theorem sameAsCall_aggregate {request : AggregateRequest}
    (hoperation : step.operation = some (.aggregate request))
    (hnone : NoReference decode serde step) :
    SameAsCall decode serde step (.aggregate request) ↔
      Faithful decode serde (.aggregate request) := by
  cases hstages : (request.pipeline.getD []).mapM (decodeBson decode) with
  | error status =>
    have hserve : StepOperation.serve decode step.database step.collection (.aggregate request) =
        .error status := by
      simp only [StepOperation.serve, Crud.aggregate, hstages]
      rfl
    rw [sameAsCall_of_error hoperation hserve]
    exact iff_of_false (by simp [convertOperation, Except.isOk, Except.toBool]; rfl)
      (by simp [Faithful, hstages])
  | ok stages =>
    have hserve : StepOperation.serve decode step.database step.collection (.aggregate request) =
        .ok ⟨none, step.database, step.collection, .aggregate stages none⟩ := by
      simp only [StepOperation.serve, Crud.aggregate, hstages]
      rfl
    have hconvert : convertOperation decode serde.codec (.aggregate request) = .ok ("aggregate",
        .object [("pipeline", .array (stages.map (documentJson serde.codec)))], none) := by
      rw [← stages_eq hstages, List.map_map]
      rfl
    rw [sameAsCall_of_ok hoperation hserve hconvert rfl hnone]
    simp only [stepOp, DriverOp.command, asStep, documentsMember_eq, DriverCommand.aggregate.injEq,
      and_true, map_received_eq_iff]
    simp [Faithful, hstages]

/-! ## All operations -/

/-- What it takes for a step to mean the same as its call: it is faithful, up to options of the
request that the call does not look at either. -/
theorem sameAsCall_iff_faithful (hoperation : step.operation = some operation)
    (hnone : NoReference decode serde step) :
    SameAsCall decode serde step operation ↔
      match operation with
      | .findOne request => IntactFilter decode serde request.filter
      | .findAndModify request =>
          UpdateMeets decode request.filter request.update fun filter update ↦
            Intact serde filter ∧ Intact serde update ∧ DefaultModification
              ((request.options.map (convertFindAndModifyOptions decode)).getD {})
      | operation => Faithful decode serde operation := by
  cases operation with
  | find request => exact sameAsCall_find hoperation hnone
  | insert request => exact sameAsCall_insert hoperation hnone
  | insertMany request => exact sameAsCall_insertMany hoperation hnone
  | aggregate request => exact sameAsCall_aggregate hoperation hnone
  | findOne request =>
    apply sameAsCall_filter hoperation hnone rfl rfl rfl
    intro document
    simp [stepOp, DriverOp.command, asStep, essentialOptions, documentMember_eq, received_eq_iff]
  | delete request =>
    apply sameAsCall_filter hoperation hnone rfl rfl rfl
    intro document
    simp [stepOp, DriverOp.command, asStep, documentMember_eq, received_eq_iff]
  | deleteMany request =>
    apply sameAsCall_filter hoperation hnone rfl rfl rfl
    intro document
    simp [stepOp, DriverOp.command, asStep, documentMember_eq, received_eq_iff]
  | update request =>
    apply sameAsCall_update hoperation hnone rfl rfl rfl
    intro document change
    simp [stepOp, DriverOp.command, asStep, documentMember_eq, documentMember_update,
      received_eq_iff]
  | updateMany request =>
    apply sameAsCall_update hoperation hnone rfl rfl rfl
    intro document change
    simp [stepOp, DriverOp.command, asStep, documentMember_eq, documentMember_update,
      received_eq_iff]
  | findAndModify request =>
    apply sameAsCall_update hoperation hnone rfl rfl rfl
    intro document change
    simp only [stepOp, DriverOp.command, asStep_findOneAndUpdate_iff, documentMember_eq,
      documentMember_update, received_eq_iff]

theorem isOk_optionalOrEmpty (document : Option (List UInt8)) :
    (optionalOrEmpty decode document).isOk = true ↔ DocumentDecodes decode document := by
  cases document with
  | none => simp [optionalOrEmpty, DocumentDecodes, Except.isOk, Except.toBool]
  | some data => simp [optionalOrEmpty, DocumentDecodes]

def ConversionDecodes (decode : List UInt8 → Except String Document) : StepOperation → Prop
  | .findOne request | .find request => (protoFilterToBson decode request.filter).isOk = true
  | .findAndModify request =>
      (protoFilterToBson decode request.filter).isOk = true ∧
        DocumentDecodes decode request.update
  | .aggregate _ => True
  | operation => Decodes decode operation

/-- The conversion refuses exactly the steps with a document that it decodes and that does not. -/
theorem isOk_convertOperation (serde : Serde) (operation : StepOperation) :
    (convertOperation decode serde.codec operation).isOk = true ↔
      ConversionDecodes decode operation := by
  have hfilter (filter : Option (List UInt8)) (name : String) :
      (do
        let document ← protoFilterToBson decode filter
        pure (name, Json.object [("filter", documentJson serde.codec document)],
          (none : Option ℤ)) : Except Status (String × Json × Option ℤ)).isOk = true ↔
        (protoFilterToBson decode filter).isOk = true := by
    cases protoFilterToBson decode filter <;> exact Iff.rfl
  have hupdate (filter update : Option (List UInt8)) (name : String) :
      (do
        let document ← protoFilterToBson decode filter
        let change ← optionalOrEmpty decode update
        pure (name, Json.object [("filter", documentJson serde.codec document),
          ("update", documentJson serde.codec change)], (none : Option ℤ)) :
          Except Status (String × Json × Option ℤ)).isOk = true ↔
        (protoFilterToBson decode filter).isOk = true ∧ DocumentDecodes decode update := by
    rw [← isOk_optionalOrEmpty]
    cases protoFilterToBson decode filter <;> cases optionalOrEmpty decode update <;>
      simp [Except.isOk, Except.toBool] <;> rfl
  cases operation with
  | findOne request => exact hfilter request.filter "find_one"
  | delete request => exact hfilter request.filter "delete"
  | deleteMany request => exact hfilter request.filter "delete_many"
  | update request => exact hupdate request.filter request.update "update"
  | updateMany request => exact hupdate request.filter request.update "update_many"
  | findAndModify request => exact hupdate request.filter request.update "find_and_modify"
  | find request =>
    simp only [convertOperation, ConversionDecodes]
    cases protoFilterToBson decode request.filter <;> exact Iff.rfl
  | insert request =>
    change _ ↔ DocumentDecodes decode request.document
    rw [← isOk_optionalOrEmpty, convertOperation]
    cases optionalOrEmpty decode request.document <;> exact Iff.rfl
  | insertMany request =>
    simp only [convertOperation, ConversionDecodes, Decodes]
    cases request.documents.mapM (decodeBson decode) <;> exact Iff.rfl
  | aggregate request => exact iff_of_true rfl trivial

variable (serde) in
/-- A step is rejected as it has to be if and only if all of its documents decode as soon as those do
that the conversion decodes. -/
theorem rejects_iff (hoperation : step.operation = some operation) :
    (¬ Decodes decode operation → (convertTransactionStep decode serde.codec step).isOk = false) ↔
      (ConversionDecodes decode operation → Decodes decode operation) := by
  rw [isOk_convertTransactionStep hoperation, ← isOk_convertOperation serde]
  cases (convertOperation decode serde.codec operation).isOk <;> simp

/-- A step without references stands for its call if and only if it is faithful. -/
theorem standsFor_iff (decode : List UInt8 → Except String Document) (serde : Serde)
    (step : TransactionStep) (operation : StepOperation)
    (hoperation : step.operation = some operation) (hnone : NoReference decode serde step) :
    StandsFor decode serde step operation ↔ Faithful decode serde operation := by
  have hsplit : StandsFor decode serde step operation ↔ SameAsCall decode serde step operation ∧
      (ConversionDecodes decode operation → Decodes decode operation) := by
    rw [← rejects_iff serde hoperation]
    exact ⟨fun h ↦ ⟨h.sameAsCall, h.rejects⟩, fun h ↦ ⟨h.1, h.2⟩⟩
  rw [hsplit, sameAsCall_iff_faithful hoperation hnone]
  cases operation with
  | findOne request =>
    simp only [IntactFilter, ConversionDecodes, Decodes, Faithful]
    cases protoFilterToBson decode request.filter with
    | error status => simp [Except.isOk, Except.toBool]
    | ok filter => simp [Except.isOk, Except.toBool, and_comm]
  | find request =>
    refine and_iff_left_of_imp fun hfaithful hfilter ↦ ⟨hfilter, ?_⟩
    cases hdecoded : protoFilterToBson decode request.filter with
    | error status => rw [ConversionDecodes, hdecoded] at hfilter; cases hfilter
    | ok filter =>
      obtain ⟨options, hoptions, -⟩ := hfaithful filter hdecoded
      rw [hoptions]
      rfl
  | findAndModify request =>
    simp only [ConversionDecodes, Decodes, Faithful, UpdateMeets, DocumentDecodes]
    cases protoFilterToBson decode request.filter with
    | error status => simp [Except.isOk, Except.toBool]
    | ok filter =>
      cases request.update with
      | none => simp
      | some data =>
        cases hchange : decodeBson decode data with
        | error status => simp [hchange, Except.isOk, Except.toBool]
        | ok change =>
          simp only [Except.ok.injEq, forall_eq', Option.some.injEq, exists_eq_left', hchange,
            Except.isOk, Except.toBool, true_and, forall_const]
          exact ⟨fun h ↦ ⟨h.1.1, h.1.2.1, h.2, h.1.2.2⟩,
            fun h ↦ ⟨⟨h.1, h.2.1, h.2.2.2⟩, h.2.2.1⟩⟩
  | aggregate request =>
    refine and_iff_left_of_imp fun hfaithful _ ↦ ?_
    obtain ⟨stages, hstages, -⟩ := hfaithful
    rw [Decodes, hstages]
    rfl
  | _ => exact and_iff_left fun h ↦ h

def deleteStep : TransactionStep where
  name := "s"
  database := "d"
  collection := "c"
  operation := some (.delete { database := "", collection := "" })

theorem standsFor_deleteStep :
    StandsFor decodeFormat Serde.ofTags deleteStep
      (.delete { database := "", collection := "" }) := by
  have hnone : NoReference decodeFormat Serde.ofTags deleteStep := by
    intro converted hconverted
    obtain rfl := Except.ok.inj hconverted
    rfl
  apply (standsFor_iff decodeFormat Serde.ofTags deleteStep _ rfl hnone).mpr
  intro document hdocument
  obtain rfl := Except.ok.inj hdocument
  exact .inl rfl

/-- A find-and-modify with an upsert that returns the document before the change. -/
def upsertModification : FindAndModifyRequest where
  database := ""
  collection := ""
  update := some setUpdate
  options := some { returnDocument := 0, upsert := true }

def upsertStep : TransactionStep where
  name := "s"
  database := "d"
  collection := "c"
  operation := some (.findAndModify upsertModification)

/-- A find-and-modify whose sort is one byte, which does not decode. -/
def unsortedModification : FindAndModifyRequest where
  database := ""
  collection := ""
  update := some setUpdate
  options := some { returnDocument := 1, sort := some [0] }

def unsortedStep : TransactionStep where
  name := "s"
  database := "d"
  collection := "c"
  operation := some (.findAndModify unsortedModification)

/-- The one step has no reference, and loses the upsert and the document that is returned; the other
is not rejected. -/
theorem upsert_lost :
    NoReference decodeFormat Serde.ofTags upsertStep ∧
      ¬ StandsFor decodeFormat Serde.ofTags upsertStep (.findAndModify upsertModification) ∧
      NoReference decodeFormat Serde.ofTags unsortedStep ∧
      ¬ StandsFor decodeFormat Serde.ofTags unsortedStep
        (.findAndModify unsortedModification) := by
  have hnone : NoReference decodeFormat Serde.ofTags upsertStep := by
    intro converted hconverted
    obtain rfl := Except.ok.inj hconverted
    rfl
  have hserve : (StepOperation.findAndModify upsertModification).serve decodeFormat "d" "c" =
      .ok ⟨none, "d", "c", .findOneAndUpdate [] [("$set", .document [("a", .boolean true)])]
        { returnDocument := .before, upsert := true }⟩ := rfl
  have hconvert : convertOperation decodeFormat Serde.ofTags.codec
      (.findAndModify upsertModification) = .ok ("find_and_modify",
        .object [("filter", .object []),
          ("update", .object [("$set", .object [("a", .bool true)])])], none) := rfl
  refine ⟨hnone, fun h ↦ ?_, fun converted hconverted ↦ ?_, fun h ↦ ?_⟩
  · have hsame := h.sameAsCall
    rw [sameAsCall_of_ok rfl hserve hconvert rfl hnone] at hsame
    simp [stepOp, DriverOp.command, asStep] at hsame
  · obtain rfl := Except.ok.inj hconverted
    rfl
  · have hdecodes : ¬ Decodes decodeFormat (.findAndModify unsortedModification) := by
      rintro ⟨-, -, hsort⟩
      cases hsort _ rfl
    cases h.rejects hdecodes

end MongoCore.Grpc.TransactionSteps
