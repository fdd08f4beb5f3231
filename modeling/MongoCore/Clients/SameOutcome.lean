import MongoCore.Clients.Interchange
import MongoCore.Transport.FrameLimit

/-!
# Which calls have the same outcome on both transports

A call has the same outcome on every database if both transports refuse it, or if neither does,
both perform the same operation and carry the same replies.  Otherwise a database with fixed answers
tells the two apart.

The transports refuse different calls.  Without a filter the binary connection updates and deletes
nothing, and the service everything; a command that is blocked there is run by the service if all
commands are allowed; and a filter of a count comes to the service as JSON.  The ids of many
documents come back only from the service.
-/

namespace MongoCore.Clients.TwoTransports

open MongoCore.Data MongoCore.Transport
open MongoCore.Mcp (validateCommand)
open MongoCore.Operations.InsertedIds (InsertManyResult)

/-! ## The condition -/

/-- The server refuses a call on the binary connection. -/
def Call.RefusedOnSocket : Call → Prop
  | .insertMany documents => documents = []
  | .updateOne filter _ | .updateMany filter _ | .deleteOne filter | .deleteMany filter =>
      filter = none
  | .runCommand command _ => IsDangerous (encodeMembers command)
  | _ => False

/-- The gRPC service refuses a call, or the call raises an error before. -/
def Call.RefusedByService (reader : JsonReader) : Call → Prop
  | .insertMany documents => documents = []
  | .countDocuments filter => readFilter reader (filter.getD []) = none
  | .runCommand command allowAll => allowAll = false ∧ IsDangerous (encodeMembers command)
  | _ => False

section Condition

variable (deployment : Deployment) (target : Target) (call : Call)

/-- A call performs nothing on the binary connection. -/
def RefusedByBinary : Prop := ¬ deployment.Sends target call ∨ call.RefusedOnSocket

/-- A call performs nothing by the gRPC service. -/
def RefusedByGrpc : Prop :=
  ¬ Arrives deployment target call ∨ call.RefusedByService deployment.reader

/-- The client decodes the document of an answer, if there is one. -/
def Readable : Answer → Prop
  | .document (some data) => data = [] ∨ ∃ document, deployment.client.decode data = some document
  | .result data => ∃ document, deployment.client.decode data = some document
  | _ => True

/-- Both transports carry a result of the call, or neither does. -/
def CarryTheSame : Prop :=
  ∀ response answer, Written deployment.library call response answer →
    Readable deployment answer → (Carried response ↔ deployment.returns answer = true)

/-- Both transports perform the same operation.  Of many documents there is one, and its id looks
like the one that stands for it. -/
def PerformTheSame : Prop :=
  match call with
  | .insertMany documents => deployment.returns (.insertedIds ["binary_0"]) = true ∧
      ∃ document id, documents = [document] ∧ (encodeMembers document).lookup "_id" = some id ∧
        deployment.library.display id = "binary_0"
  | .countDocuments filter => ComesThrough deployment.reader (filter.getD [])
  | .runCommand command _ => idFirst (encodeMembers command) = encodeMembers command
  | _ => True

/-- Both transports refuse the call, or neither does and they do the same. -/
def DoTheSame : Prop :=
  (RefusedByBinary deployment target call ∧ RefusedByGrpc deployment target call) ∨
    (¬ RefusedByBinary deployment target call ∧ ¬ RefusedByGrpc deployment target call ∧
      PerformTheSame deployment call ∧ CarryTheSame deployment call)

end Condition

/-! ## Values of results -/

section Values

variable (deployment : Deployment)

/-- An answer has a value exactly when it can be read. -/
theorem isSome_answerValue_iff (answer : Answer) :
    (answerValue deployment.client.decode answer).isSome ↔ Readable deployment answer := by
  cases answer with
  | document data =>
    cases data with
    | none => exact iff_of_true rfl trivial
    | some data =>
      by_cases hempty : data = []
      · rw [answerValue, if_pos hempty]
        exact iff_of_true rfl (.inl hempty)
      · rw [answerValue, if_neg hempty, Option.isSome_map, Option.isSome_iff_exists, Readable,
          or_iff_right hempty]
  | result data => rw [answerValue, Option.isSome_map, Option.isSome_iff_exists, Readable]
  | _ => exact iff_of_true rfl trivial

/-- The same is carried exactly when a result has the same value on both transports. -/
theorem carryTheSame_iff (call : Call) : CarryTheSame deployment call ↔
    ∀ response answer, Written deployment.library call response answer →
      deployment.binaryValue call.method response = grpcValue deployment answer := by
  refine forall₃_congr fun response answer hwritten ↦ ?_
  rw [← isSome_answerValue_iff, binaryValue_written deployment hwritten, grpcValue]
  cases answerValue deployment.client.decode answer with
  | none => simp
  | some value => by_cases hcarried : Carried response <;> simp [hcarried]

end Values

/-! ## Databases with fixed answers -/

/-- Ids of documents that are visited in an order: a document's own, if it has one. -/
def idsInOrder (documents : List Document) (order : List (Fin documents.length))
    (hnodup : order.Nodup) (hmem : ∀ i, i ∈ order) : InsertManyResult documents where
  idOf i := ((documents.get i).lookup "_id").getD (.objectId (List.replicate 12 0))
  idOf_own _ _ h := congrArg (Option.getD · (.objectId (List.replicate 12 0))) h
  order := order
  nodup_order := hnodup
  mem_order := hmem

structure Answers where
  document : Option Document
  id : Bson
  backwards : Bool
  counts : UInt64 × UInt64
  deleted : UInt64
  count : Document → UInt64
  result : Document → Document
  fits_result : ∀ command, DocumentFits (result command)

namespace Answers

variable (answers : Answers)

/-- The ids of inserted documents, in order or backwards. -/
def ids (documents : List Document) : InsertManyResult documents :=
  if answers.backwards then
    idsInOrder documents (List.finRange _).reverse
      (List.nodup_reverse.mpr (List.nodup_finRange _)) (by simp)
  else idsInOrder documents (List.finRange _) (List.nodup_finRange _) (by simp)

/-- The answer to an operation; a count depends on no width. -/
def run : (operation : OperationCall) → Except String operation.Result
  | .findOne .. => .ok answers.document
  | .insert .. => .ok answers.id
  | .insertMany _ _ documents =>
      if documents = [] then .error "no documents" else .ok (answers.ids documents).values
  | .update .. | .updateMany .. => .ok answers.counts
  | .delete .. | .deleteMany .. => .ok answers.deleted
  | .countDocuments _ _ filter => .ok (answers.count (widenedMembers filter))
  | .runCommand _ command => .ok (answers.result command)
  | _ => .error "not answered"

/-- An operation that is performed, and not refused by the driver. -/
def Performs : OperationCall → Bool
  | .insertMany _ _ [] => false
  | _ => true

/-- The database with the answers, which remembers that it was used. -/
def database : ServerDatabase Bool where
  run operation used := (answers.run operation, used || Performs operation)
  insertMany_nil _ _ used := Bool.or_false used
  insertMany_ok db collection documents used ids h := by
    simp only [run] at h
    split_ifs at h with hempty
    exact ⟨hempty, _, (Except.ok.inj h).symm⟩
  findOne_perm _ _ _ _ _ _ := rfl
  update_perm _ _ _ _ _ _ _ _ _ := rfl
  updateMany_perm _ _ _ _ _ _ _ _ _ := rfl
  delete_perm _ _ _ _ _ _ := rfl
  deleteMany_perm _ _ _ _ _ _ := rfl
  countDocuments_widened _ _ _ _ _ h := by
    simp only [run, h]
    rfl
  runCommand_fits _ command _ result h := by
    obtain rfl := Except.ok.inj h
    exact answers.fits_result command

def nothing : Answers where
  document := none
  id := .null
  backwards := false
  counts := (0, 0)
  deleted := 0
  count _ := 0
  result _ := []
  fits_result _ := ⟨trivial, by decide⟩

end Answers

/-! ## Calls that are refused -/

section Refused

variable {deployment : Deployment} {target : Target} {call : Call}
variable {State : Type} (database : ServerDatabase State) (state : State)

/-- No documents are inserted by no transport. -/
theorem serveWith_insertMany_nil {db collection : String} {value : List Bson → Option Value} :
    database.serveWith (some ⟨.insertMany db collection [], value⟩) state = (none, state) := by
  have hstate := database.insertMany_nil db collection state
  rw [ServerDatabase.serveWith, hstate]
  cases hresult : (database.run (.insertMany db collection []) state).1 with
  | error reason => rfl
  | ok ids => exact absurd rfl (database.insertMany_ok db collection [] state ids hresult).1

theorem binaryOutcome_of_refusedByBinary (hencodable : call.Encodable)
    (h : RefusedByBinary deployment target call) :
    deployment.binaryOutcome target database call state = (none, state) := by
  by_cases hsends : deployment.Sends target call
  · have hrefused := h.resolve_left (not_not_intro hsends)
    rw [binaryOutcome_eq database state hencodable hsends]
    cases call with
    | insertMany documents =>
      obtain rfl : documents = [] := hrefused
      exact serveWith_insertMany_nil database state
    | updateOne filter _ | updateMany filter _ | deleteOne filter | deleteMany filter =>
      obtain rfl : filter = none := hrefused
      rfl
    | runCommand command allowAll =>
      rw [binaryServed]
      cases hvalid : validateCommand false (encodeMembers command) with
      | error reason => rfl
      | ok done => exact absurd hrefused ((validateCommand_ok_iff _).mp hvalid)
    | findOne _ | insertOne _ | countDocuments _ => exact absurd hrefused id
  · rw [Deployment.binaryOutcome, if_neg hsends]

theorem grpcOutcome_of_refusedByGrpc (hencodable : call.Encodable)
    (h : RefusedByGrpc deployment target call) :
    deployment.grpcOutcome target database call state = (none, state) := by
  by_cases harrives : Arrives deployment target call
  · have hrefused := h.resolve_left (not_not_intro harrives)
    rw [grpcOutcome_eq database state hencodable harrives]
    cases call with
    | insertMany documents =>
      obtain rfl : documents = [] := hrefused
      exact serveWith_insertMany_nil database state
    | countDocuments filter =>
      have hread : readFilter deployment.reader (filter.getD []) = none := hrefused
      rw [grpcServed, hread]
      rfl
    | runCommand command allowAll =>
      obtain ⟨rfl, hdangerous⟩ := hrefused
      rw [grpcServed]
      cases hvalid : validateCommand false (idFirst (encodeMembers command)) with
      | error reason => rfl
      | ok done =>
        rw [validateCommand_ok_iff, isDangerous_perm (idFirst_perm _)] at hvalid
        exact absurd hdangerous hvalid
    | _ => exact absurd hrefused id
  · exact grpcOutcome_of_not_arrives database state harrives

/-- A call that is not refused performs an operation on the binary connection. -/
theorem exists_binaryServed (h : ¬ call.RefusedOnSocket) :
    ∃ served, binaryServed deployment target call = some served ∧
      Answers.Performs served.operation = true := by
  cases call with
  | insertMany documents =>
    cases documents with
    | nil => exact absurd rfl h
    | cons document documents => exact ⟨_, rfl, rfl⟩
  | updateOne filter _ | updateMany filter _ | deleteOne filter | deleteMany filter =>
    cases filter with
    | none => exact absurd rfl h
    | some filter => exact ⟨_, rfl, rfl⟩
  | runCommand command allowAll =>
    have hvalid : validateCommand false (encodeMembers command) = .ok () :=
      (validateCommand_ok_iff _).mpr h
    rw [binaryServed, hvalid]
    exact ⟨_, rfl, rfl⟩
  | findOne _ | insertOne _ | countDocuments _ => exact ⟨_, rfl, rfl⟩

/-- A command is validated by the service as its arguments say. -/
theorem validateCommand_idFirst {command : Dict} {allowAll : Bool}
    (h : ¬ (Call.runCommand command allowAll).RefusedByService deployment.reader) :
    validateCommand allowAll (idFirst (encodeMembers command)) = .ok () := by
  cases allowAll with
  | true => exact validateCommand_allowAll _
  | false =>
    rw [validateCommand_ok_iff, isDangerous_perm (idFirst_perm _)]
    exact fun hdangerous ↦ h ⟨rfl, hdangerous⟩

theorem exists_grpcServed (h : ¬ call.RefusedByService deployment.reader) :
    ∃ served, grpcServed deployment target call = some served ∧
      Answers.Performs served.operation = true := by
  cases call with
  | insertMany documents =>
    cases documents with
    | nil => exact absurd rfl h
    | cons document documents => exact ⟨_, rfl, rfl⟩
  | countDocuments filter =>
    obtain ⟨read, hread⟩ := Option.ne_none_iff_exists'.mp h
    rw [grpcServed, hread]
    exact ⟨_, rfl, rfl⟩
  | runCommand command allowAll =>
    rw [grpcServed, validateCommand_idFirst h]
    exact ⟨_, rfl, rfl⟩
  | _ => exact ⟨_, rfl, rfl⟩

end Refused

/-! ## Calls that do the same -/

section Same

variable {deployment : Deployment} {target : Target}

/-- Values that agree on the result of an operation make no difference. -/
theorem serveWith_congr {State : Type} (database : ServerDatabase State) (state : State)
    (operation : OperationCall) {value other : operation.Result → Option Value}
    (h : ∀ result, (database.run operation state).1 = .ok result → value result = other result) :
    database.serveWith (some ⟨operation, value⟩) state =
      database.serveWith (some ⟨operation, other⟩) state := by
  simp only [ServerDatabase.serveWith]
  cases hresult : (database.run operation state).1 with
  | error reason => rfl
  | ok result =>
    have hvalue := h result hresult
    simp only [Except.toOption, Option.bind_some, hvalue]

/-- A document that is found has the same value on both transports. -/
theorem value_findOne {filter : Option Dict}
    (hcarry : ∀ response answer,
      Written deployment.library (.findOne filter) response answer →
        deployment.binaryValue .findOne response = grpcValue deployment answer)
    (document : Option Document) :
    deployment.binaryValue .findOne (singleDocResponse deployment.library document) =
      (documentAnswer deployment.library document).toOption.bind (grpcValue deployment) := by
  cases document with
  | none => exact hcarry _ _ .noDocument
  | some document =>
    cases hdata : deployment.library.toVec document with
    | error reason =>
      simp only [singleDocResponse, documentAnswer, hdata, binaryValue_error]
      rfl
    | ok data =>
      simp only [singleDocResponse, documentAnswer, hdata]
      exact hcarry _ _ (.document hdata)

theorem value_runCommand {command : Dict} {allowAll : Bool}
    (hcarry : ∀ response answer,
      Written deployment.library (.runCommand command allowAll) response answer →
        deployment.binaryValue .runCommand response = grpcValue deployment answer)
    {result : Document} (hfits : DocumentFits result) :
    deployment.binaryValue .runCommand
        (commandResponse deployment.library "command result" result) =
      ((deployment.library.toVec result).map Answer.result).toOption.bind
        (grpcValue deployment) := by
  simp only [commandResponse, deployment.toVec_eq result hfits]
  exact hcarry _ _ (.result hfits)

/-- The only document is inserted under its own id. -/
theorem values_singleton {document : Document} {id : Bson} (hid : document.lookup "_id" = some id)
    (result : InsertManyResult [document]) : result.values = [id] := by
  obtain ⟨i, horder⟩ := List.length_eq_one_iff.mp result.length_order
  have hi : i = ⟨0, Nat.one_pos⟩ := Fin.ext (Nat.lt_one_iff.mp i.isLt)
  have hfirst : [document][i].lookup "_id" = some id := by
    subst hi
    exact hid
  rw [InsertManyResult.values, horder, List.map_singleton, result.idOf_own i id hfirst]

/-- Calls that perform and carry the same have the same outcome. -/
theorem serveWith_of_same {call : Call} (hbinary : ¬ call.RefusedOnSocket)
    (hgrpc : ¬ call.RefusedByService deployment.reader) (hperform : PerformTheSame deployment call)
    (hcarry : CarryTheSame deployment call) {State : Type} (database : ServerDatabase State)
    (state : State) :
    database.serveWith (binaryServed deployment target call) state =
      database.serveWith (grpcServed deployment target call) state := by
  rw [carryTheSame_iff] at hcarry
  cases call with
  | findOne filter =>
    have hrun := database.findOne_perm target.database target.collection state _ _
      (idFirst_perm (filterOrEmpty filter)).symm
    refine (serveWith_congr database state
      (.findOne target.database target.collection (filterOrEmpty filter))
      fun document _ ↦ value_findOne hcarry document).trans ?_
    simp only [grpcServed, ServerDatabase.serveWith, hrun]
    rfl
  | insertOne document =>
    exact serveWith_congr database state _ fun id _ ↦ hcarry _ _ (.insertedId id)
  | insertMany documents =>
    obtain ⟨hreturns, document, id, rfl, hid, hdisplay⟩ := hperform
    refine serveWith_congr database state
      (.insertMany target.database target.collection [idFirst (encodeMembers document)])
      fun ids hids ↦ ?_
    obtain ⟨-, result, rfl⟩ := database.insertMany_ok _ _ _ _ _ hids
    rw [values_singleton ((lookup_idFirst _).trans hid) result, binaryValue_insertMany,
      List.map_singleton, hdisplay, grpcValue, if_pos hreturns]
    rfl
  | updateOne filter update =>
    cases filter with
    | none => exact absurd rfl hbinary
    | some filter =>
      have hrun := database.update_perm target.database target.collection state _ _ _ _
        (idFirst_perm (encodeMembers filter)).symm (idFirst_perm (encodeMembers update)).symm
      refine (serveWith_congr database state (.update target.database target.collection
        (encodeMembers filter) (encodeMembers update))
        fun counts _ ↦ hcarry _ _ (.updateOne counts)).trans ?_
      simp only [grpcServed, ServerDatabase.serveWith, hrun]
      rfl
  | updateMany filter update =>
    cases filter with
    | none => exact absurd rfl hbinary
    | some filter =>
      have hrun := database.updateMany_perm target.database target.collection state _ _ _ _
        (idFirst_perm (encodeMembers filter)).symm (idFirst_perm (encodeMembers update)).symm
      refine (serveWith_congr database state (.updateMany target.database target.collection
        (encodeMembers filter) (encodeMembers update))
        fun counts _ ↦ hcarry _ _ (.updateMany counts)).trans ?_
      simp only [grpcServed, ServerDatabase.serveWith, hrun]
      rfl
  | deleteOne filter =>
    cases filter with
    | none => exact absurd rfl hbinary
    | some filter =>
      have hrun := database.delete_perm target.database target.collection state _ _
        (idFirst_perm (encodeMembers filter)).symm
      refine (serveWith_congr database state (.delete target.database target.collection
        (encodeMembers filter)) fun count _ ↦ hcarry _ _ (.deleteOne count)).trans ?_
      simp only [grpcServed, ServerDatabase.serveWith, hrun]
      rfl
  | deleteMany filter =>
    cases filter with
    | none => exact absurd rfl hbinary
    | some filter =>
      have hrun := database.deleteMany_perm target.database target.collection state _ _
        (idFirst_perm (encodeMembers filter)).symm
      refine (serveWith_congr database state (.deleteMany target.database target.collection
        (encodeMembers filter)) fun count _ ↦ hcarry _ _ (.deleteMany count)).trans ?_
      simp only [grpcServed, ServerDatabase.serveWith, hrun]
      rfl
  | countDocuments filter =>
    obtain ⟨read, hread, hwidened⟩ := (readFilter_iff deployment.reader (filter.getD [])).mpr hperform
    have hrun := database.countDocuments_widened target.database target.collection state
      (filterOrEmpty filter) read hwidened.symm
    refine (serveWith_congr database state (.countDocuments target.database target.collection
      (filterOrEmpty filter)) fun count _ ↦ hcarry _ _ (.countDocuments count)).trans ?_
    simp only [grpcServed, hread, Option.map_some, ServerDatabase.serveWith, hrun]
    rfl
  | runCommand command allowAll =>
    have hsame : idFirst (encodeMembers command) = encodeMembers command := hperform
    have hvalid := validateCommand_idFirst hgrpc
    rw [hsame] at hvalid
    rw [binaryServed, grpcServed, hsame]
    simp only [hvalid, (validateCommand_ok_iff _).mpr hbinary]
    exact serveWith_congr database state (.runCommand target.database (encodeMembers command))
      fun result hresult ↦ value_runCommand hcarry (database.runCommand_fits _ _ _ _ hresult)

/-- A count that is read is served. -/
theorem grpcServed_countDocuments {filter : Option Dict} {read : Document}
    (hread : readFilter deployment.reader (filter.getD []) = some read) :
    grpcServed deployment target (.countDocuments filter) = some
      ⟨.countDocuments target.database target.collection read,
        fun count : UInt64 ↦ grpcValue deployment (.count (asSigned count))⟩ := by
  rw [grpcServed, hread]
  rfl

/-- A command that both transports accept has this value on databases with fixed answers. -/
theorem values_runCommand {command : Dict} {allowAll : Bool}
    (hbinary : ¬ (Call.runCommand command allowAll).RefusedOnSocket)
    (hgrpc : ¬ (Call.runCommand command allowAll).RefusedByService deployment.reader)
    (answers : Answers)
    (h : answers.database.serveWith
        (binaryServed deployment target (.runCommand command allowAll)) false =
      answers.database.serveWith
        (grpcServed deployment target (.runCommand command allowAll)) false) :
    deployment.binaryValue .runCommand
        (.commandResult (toVec (answers.result (encodeMembers command)))) =
      grpcValue deployment
        (.result (toVec (answers.result (idFirst (encodeMembers command))))) := by
  have hvalid : validateCommand false (encodeMembers command) = .ok () :=
    (validateCommand_ok_iff _).mpr hbinary
  rw [binaryServed, grpcServed] at h
  simp only [hvalid, validateCommand_idFirst hgrpc] at h
  have hvalue : deployment.binaryValue .runCommand (commandResponse deployment.library
      "command result" (answers.result (encodeMembers command))) =
        ((deployment.library.toVec (answers.result (idFirst (encodeMembers command)))).map
          Answer.result).toOption.bind (grpcValue deployment) := congrArg Prod.fst h
  simp only [commandResponse, deployment.toVec_eq _ (answers.fits_result _)] at hvalue
  exact hvalue

/-- Calls with the same outcome carry the same. -/
theorem carryTheSame_of_served {call : Call} (hbinary : ¬ call.RefusedOnSocket)
    (hgrpc : ¬ call.RefusedByService deployment.reader)
    (h : ∀ answers : Answers,
      answers.database.serveWith (binaryServed deployment target call) false =
        answers.database.serveWith (grpcServed deployment target call) false) :
    CarryTheSame deployment call := by
  rw [carryTheSame_iff]
  intro response answer hwritten
  cases hwritten with
  | noDocument => exact congrArg Prod.fst (h Answers.nothing)
  | @document filter document data hdata =>
    have hvalue : deployment.binaryValue .findOne
        (singleDocResponse deployment.library (some document)) =
          (documentAnswer deployment.library (some document)).toOption.bind
            (grpcValue deployment) :=
      congrArg Prod.fst (h { Answers.nothing with document := some document })
    simp only [singleDocResponse, documentAnswer, hdata] at hvalue
    exact hvalue
  | insertedId id => exact congrArg Prod.fst (h { Answers.nothing with id := id })
  | @updateOne filter _ counts | @updateMany filter _ counts =>
    cases filter with
    | none => exact absurd rfl hbinary
    | some filter => exact congrArg Prod.fst (h { Answers.nothing with counts := counts })
  | @deleteOne filter count | @deleteMany filter count =>
    cases filter with
    | none => exact absurd rfl hbinary
    | some filter => exact congrArg Prod.fst (h { Answers.nothing with deleted := count })
  | @countDocuments filter count =>
    obtain ⟨read, hread⟩ := Option.ne_none_iff_exists'.mp hgrpc
    have hcount := h { Answers.nothing with count := fun _ ↦ count }
    rw [grpcServed_countDocuments hread] at hcount
    exact congrArg Prod.fst hcount
  | @result command allowAll result hfits =>
    exact values_runCommand hbinary hgrpc
      { Answers.nothing with result := fun _ ↦ result, fits_result := fun _ ↦ hfits } (h _)

/-- The ids that stand for two or more documents are not the same backwards. -/
theorem le_one_of_reverse_placeholderIds {count : ℤ}
    (h : (placeholderIds count).reverse = placeholderIds count) : count.toNat ≤ 1 := by
  have hinjective : Function.Injective fun i : ℕ ↦ s!"binary_{i}" := numbered_injective "binary_"
  rw [placeholderIds, ← List.map_reverse] at h
  have hrange : (List.range count.toNat).reverse = List.range count.toNat :=
    hinjective.list_map h
  by_contra hmany
  have hfirst : (List.range count.toNat).reverse[0]? = (List.range count.toNat)[0]? := by
    rw [hrange]
  rw [List.getElem?_reverse (by simpa using by omega), List.length_range,
    List.getElem?_range (by omega), List.getElem?_range (by omega)] at hfirst
  have hzero := Option.some.inj hfirst
  omega

/-- The values of the service for ids are those of the binary connection. -/
theorem ids_eq_of_grpcValue {ids : List String} {value : List String}
    (h : grpcValue deployment (.insertedIds ids) = some (.ids value)) :
    deployment.returns (.insertedIds ids) = true ∧ ids = value := by
  rw [grpcValue] at h
  split_ifs at h with hreturns
  exact ⟨hreturns, Value.ids.inj (Option.some.inj h)⟩

/-- The ids of one document in order. -/
theorem values_nothing_singleton (document : Document) :
    (Answers.nothing.ids [document]).values =
      [(document.lookup "_id").getD (.objectId (List.replicate 12 0))] := rfl

theorem values_backwards (documents : List Document) :
    ({ Answers.nothing with backwards := true }.ids documents).values =
      (Answers.nothing.ids documents).values.reverse := List.map_reverse

/-- Documents whose ids come back as the ones that stand for them are one. -/
theorem performTheSame_insertMany {documents : List Dict} (hsome : documents ≠ [])
    (h : ∀ answers : Answers,
      answers.database.serveWith (binaryServed deployment target (.insertMany documents)) false =
        answers.database.serveWith (grpcServed deployment target (.insertMany documents)) false) :
    PerformTheSame deployment (.insertMany documents) := by
  have hsent : (documents.map fun document ↦ idFirst (encodeMembers document)) ≠ [] := by
    simpa using hsome
  have hlength (answers : Answers) : (answers.ids (documents.map fun document ↦
      idFirst (encodeMembers document))).values.length = documents.length := by
    rw [InsertManyResult.values, List.length_map, InsertManyResult.length_order, List.length_map]
  have hvalue (answers : Answers) :
      grpcValue deployment (.insertedIds ((answers.ids (documents.map fun document ↦
          idFirst (encodeMembers document))).values.map deployment.library.display)) =
        some (.ids (placeholderIds (toSigned 32 (documents.length % 2 ^ 32)))) := by
    have hrun : answers.run (.insertMany target.database target.collection
        (documents.map fun document ↦ idFirst (encodeMembers document))) =
          .ok (answers.ids (documents.map fun document ↦
            idFirst (encodeMembers document))).values := if_neg hsent
    have hfirst := congrArg Prod.fst (h answers)
    simp only [binaryServed, grpcServed, ServerDatabase.serveWith, Answers.database, hrun] at hfirst
    rw [← hlength answers, ← binaryValue_insertMany]
    exact hfirst.symm
  obtain ⟨hreturns, hforward⟩ := ids_eq_of_grpcValue (hvalue Answers.nothing)
  obtain ⟨-, hbackward⟩ := ids_eq_of_grpcValue (hvalue { Answers.nothing with backwards := true })
  rw [values_backwards, List.map_reverse, hforward] at hbackward
  have hcount := le_one_of_reverse_placeholderIds hbackward
  have hone : documents.length = 1 := by
    have hlengths := congrArg List.length hforward
    rw [List.length_map, hlength, placeholderIds, List.length_map, List.length_range] at hlengths
    have hpositive := List.length_pos_iff.mpr hsome
    omega
  obtain ⟨document, rfl⟩ := List.length_eq_one_iff.mp hone
  have hplaceholder : placeholderIds (toSigned 32 ([document].length % 2 ^ 32)) = ["binary_0"] :=
    rfl
  rw [hforward, hplaceholder] at hreturns
  rw [hplaceholder, List.map_singleton, values_nothing_singleton, lookup_idFirst,
    List.map_singleton, List.cons.injEq, and_iff_left rfl] at hforward
  -- an id that the driver makes looks like no other
  cases hid : (encodeMembers document).lookup "_id" with
  | none =>
    rw [hid, Option.getD_none] at hforward
    exact absurd hforward (deployment.display_objectId _)
  | some id =>
    rw [hid, Option.getD_some] at hforward
    exact ⟨hreturns, document, id, rfl, hid, hforward⟩

def okResult (value : ℤ) : Document := [("ok", .int32 value)]

theorem readsBack_okResult (deployment : Deployment) {value : ℤ} (h : value = 0 ∨ value = 1) :
    deployment.client.ReadsBack (okResult value) := by
  apply deployment.readsPlain
  · simp [okResult]
  · simp [okResult, IsPlain]
  · refine ⟨⟨by decide, ?_, trivial⟩, ?_⟩
    · rw [Bson.Fits]
      omega
    · rcases h with rfl | rfl <;> decide

/-- Calls with the same outcome perform the same. -/
theorem performTheSame_of_served {call : Call} (hbinary : ¬ call.RefusedOnSocket)
    (hgrpc : ¬ call.RefusedByService deployment.reader)
    (h : ∀ answers : Answers,
      answers.database.serveWith (binaryServed deployment target call) false =
        answers.database.serveWith (grpcServed deployment target call) false) :
    PerformTheSame deployment call := by
  cases call with
  | insertMany documents => exact performTheSame_insertMany hbinary h
  | countDocuments filter =>
    obtain ⟨read, hread⟩ := Option.ne_none_iff_exists'.mp hgrpc
    by_contra hthrough
    have hne : widenedMembers read ≠ widenedMembers (filterOrEmpty filter) := fun heq ↦
      hthrough ((readFilter_iff deployment.reader (filter.getD [])).mp ⟨read, hread, heq⟩)
    classical
    -- the database counts one document for the filter that BSON encodes
    have hcount := h { Answers.nothing with
      count := fun members ↦ if members = widenedMembers (filterOrEmpty filter) then 1 else 0 }
    rw [grpcServed_countDocuments hread] at hcount
    have hvalue : deployment.binaryValue .countDocuments (.countResult 1) =
        grpcValue deployment (.count 0) := by
      have hfirst := congrArg Prod.fst hcount
      simp only [binaryServed, ServerDatabase.serveWith, Answers.database, Answers.run, if_pos,
        if_neg hne] at hfirst
      exact hfirst
    have hone : deployment.binaryValue .countDocuments (.countResult 1) = some (.count 1) :=
      (binaryValue_written deployment (.countDocuments 1 :
        Written deployment.library (.countDocuments filter) _ _)).trans (if_pos (by decide))
    rw [hone, grpcValue] at hvalue
    split_ifs at hvalue
    exact absurd (Value.count.inj (Option.some.inj hvalue)) (by decide)
  | runCommand command allowAll =>
    by_contra hperform
    have hne : ¬ idFirst (encodeMembers command) = encodeMembers command := hperform
    classical
    -- the database answers 1 to the command that BSON encodes
    have hvalue := values_runCommand hbinary hgrpc { Answers.nothing with
      result := fun members ↦ okResult (if members = encodeMembers command then 1 else 0)
      fits_result := fun members ↦ (readsBack_okResult deployment (by split_ifs <;> simp)).1 } (h _)
    have hone : deployment.binaryValue .runCommand (.commandResult (toVec (okResult 1))) =
        some (.document (some (okResult 1))) := by
      have hback := readsBack_okResult deployment (.inr rfl : (1 : ℤ) = 0 ∨ (1 : ℤ) = 1)
      have hwritten := binaryValue_written deployment (.result hback.1 :
        Written deployment.library (.runCommand command allowAll) _ _)
      rw [if_pos (by decide), answerValue, hback.2] at hwritten
      exact hwritten
    have hback := readsBack_okResult deployment (.inl rfl : (0 : ℤ) = 0 ∨ (0 : ℤ) = 1)
    simp only [if_pos, if_neg hne, hone, grpcValue, answerValue, hback.2] at hvalue
    split_ifs at hvalue
    simp [okResult] at hvalue
  | _ => trivial

end Same

/-! ## Interchangeable calls -/

section Main

variable {deployment : Deployment} {target : Target} {call : Call}

/-- A call that is not refused leaves a trace on either transport. -/
theorem used_of_binaryOutcome (hencodable : call.Encodable)
    (h : ¬ RefusedByBinary deployment target call) :
    (deployment.binaryOutcome target Answers.nothing.database call false).2 = true := by
  rw [RefusedByBinary, not_or, not_not] at h
  obtain ⟨served, hserved, hperforms⟩ : ∃ served,
      binaryServed deployment target call = some served ∧
        Answers.Performs served.operation = true := exists_binaryServed h.2
  rw [binaryOutcome_eq _ _ hencodable h.1, hserved]
  exact hperforms

theorem used_of_grpcOutcome (hencodable : call.Encodable)
    (h : ¬ RefusedByGrpc deployment target call) :
    (deployment.grpcOutcome target Answers.nothing.database call false).2 = true := by
  rw [RefusedByGrpc, not_or, not_not] at h
  obtain ⟨served, hserved, hperforms⟩ : ∃ served,
      grpcServed deployment target call = some served ∧
        Answers.Performs served.operation = true := exists_grpcServed h.2
  rw [grpcOutcome_eq _ _ hencodable h.1, hserved]
  exact hperforms

/-- A call that BSON can encode has the same outcome on both transports, whatever is in the
database, exactly when both refuse it, or neither does and they do the same. -/
theorem interchangeable_iff_doTheSame (hencodable : call.Encodable) :
    deployment.Interchangeable target call ↔ DoTheSame deployment target call := by
  by_cases hbinary : RefusedByBinary deployment target call
  · by_cases hgrpc : RefusedByGrpc deployment target call
    · refine iff_of_true (fun State database state ↦ ?_) (.inl ⟨hbinary, hgrpc⟩)
      rw [binaryOutcome_of_refusedByBinary database state hencodable hbinary,
        grpcOutcome_of_refusedByGrpc database state hencodable hgrpc]
    · refine iff_of_false (fun hsame ↦ ?_) ?_
      · have hused := used_of_grpcOutcome hencodable hgrpc
        rw [← hsame, binaryOutcome_of_refusedByBinary _ _ hencodable hbinary] at hused
        exact Bool.false_ne_true hused
      · rintro (hrefused | hdo)
        · exact hgrpc hrefused.2
        · exact hdo.1 hbinary
  · by_cases hgrpc : RefusedByGrpc deployment target call
    · refine iff_of_false (fun hsame ↦ ?_) ?_
      · have hused := used_of_binaryOutcome hencodable hbinary
        rw [hsame, grpcOutcome_of_refusedByGrpc _ _ hencodable hgrpc] at hused
        exact Bool.false_ne_true hused
      · rintro (hrefused | hdo)
        · exact hbinary hrefused.1
        · exact hdo.2.1 hgrpc
    · obtain ⟨hsends, hsocket⟩ := not_or.mp hbinary
      obtain ⟨harrives, hservice⟩ := not_or.mp hgrpc
      rw [not_not] at hsends harrives
      rw [DoTheSame, or_iff_right fun hrefused ↦ hbinary hrefused.1, and_iff_right hbinary,
        and_iff_right hgrpc]
      constructor
      · intro hsame
        have hserved (answers : Answers) :
            answers.database.serveWith (binaryServed deployment target call) false =
              answers.database.serveWith (grpcServed deployment target call) false := by
          rw [← binaryOutcome_eq _ _ hencodable hsends, hsame,
            grpcOutcome_eq _ _ hencodable harrives]
        exact ⟨performTheSame_of_served hsocket hservice hserved,
          carryTheSame_of_served hsocket hservice hserved⟩
      · rintro ⟨hperform, hcarry⟩ State database state
        rw [binaryOutcome_eq _ _ hencodable hsends, grpcOutcome_eq _ _ hencodable harrives]
        exact serveWith_of_same hsocket hservice hperform hcarry database state

end Main

/-! ## A deployment -/

/-- A reader of JSON without extended spellings. -/
def plainReader : JsonReader where
  readDouble bits := bits
  spelled _ := none
  accepts _ := true
  spelled_ne_document _ _ := by simp
  spelled_nil := rfl
  accepts_nil := rfl

/-- A client with default limits, and a gRPC channel without any. -/
def localDeployment : Deployment where
  library := formatLibrary
  client := defaultClient .python
  runtime := silentRuntime
  reader := plainReader
  reqId := 2
  maxFrameSize := 67108864
  arrives _ := true
  returns _ := true
  reqId_lt := by decide
  language_eq := rfl
  limit_eq := rfl
  readsPlain := readsPlain_defaultClient .python
  fromSlice_toVec document hfits := by
    have hread : fromSlice (toVec document) = some document := fromSlice_toVec hfits
    simp only [formatLibrary, decodeSlice, hread]
  toVec_eq _ _ := rfl
  display_objectId _ := (by decide : "?" ≠ "binary_0")

/-- The collection `c` of the database `d`. -/
def localTarget : Target := ⟨"d", "c"⟩

def deleteSeven : Call := .deleteOne (some [("_id", .int 7)])

/-- The insertion of two documents with their ids. -/
def insertTwo : Call := .insertMany [[("_id", .int 7)], [("_id", .int 8)]]

def countById : Call := .countDocuments (some [("_id", .other (.objectId (List.replicate 12 1)))])

/-- A command that is blocked unless all are allowed, with all allowed. -/
def dropDatabase : Call := .runCommand [("dropDatabase", .int 1)] true

theorem utf8_sizes : 0 ∉ utf8 "_id" ∧ 0 ∉ utf8 "db" ∧ 0 ∉ utf8 "coll" ∧ 0 ∉ utf8 "filter" ∧
    0 ∉ utf8 "ordered" ∧ 0 ∉ utf8 "count" ∧ 0 ∉ utf8 "command" ∧ 0 ∉ utf8 "dropDatabase" ∧
    (utf8 "d").length = 1 ∧ (utf8 "c").length = 1 := by decide

theorem encodable_deleteSeven : deleteSeven.Encodable := by
  have hsizes := utf8_sizes
  intro argument hargument
  obtain rfl := List.mem_singleton.mp hargument
  refine ⟨?_, by decide⟩
  simp [encodeMembers, PyValue.encode, encodeInt, MembersFit, Bson.Fits, hsizes]

theorem sends_deleteSeven : localDeployment.Sends localTarget deleteSeven := by
  have hsizes := utf8_sizes
  refine ⟨⟨?_, by decide⟩, by decide⟩
  simp [envelope, deleteSeven, filterValue, localTarget, encodeMembers, PyValue.encode, encodeInt,
    MembersFit, Bson.Fits, hsizes]
  decide

/-- The delete has the same outcome on both transports. -/
theorem interchangeable_deleteSeven :
    deleteSeven.Encodable ∧ localDeployment.Interchangeable localTarget deleteSeven := by
  refine ⟨encodable_deleteSeven,
    (interchangeable_iff_doTheSame encodable_deleteSeven).mpr (.inr ⟨?_, ?_, trivial, ?_⟩)⟩
  · rintro (hsends | hrefused)
    · exact hsends sends_deleteSeven
    · exact absurd hrefused (by simp [deleteSeven, Call.RefusedOnSocket])
  · rintro (harrives | hrefused)
    · exact harrives ⟨_, rfl, rfl⟩
    · exact hrefused
  · intro response answer hwritten hreadable
    cases hwritten
    exact iff_of_true (by decide : 47 + 0 ≤ maxFrameSizeDefault) rfl

theorem encodable_insertTwo : insertTwo.Encodable := by
  have hsizes := utf8_sizes
  intro argument hargument
  rcases List.mem_pair.mp hargument with rfl | rfl
  · refine ⟨?_, by decide⟩
    simp [encodeMembers, PyValue.encode, encodeInt, MembersFit, Bson.Fits, hsizes]
  · refine ⟨?_, by decide⟩
    simp [encodeMembers, PyValue.encode, encodeInt, MembersFit, Bson.Fits, hsizes]

theorem sends_insertTwo : localDeployment.Sends localTarget insertTwo := by
  have hsizes := utf8_sizes
  refine ⟨⟨?_, by decide⟩, by decide⟩
  simp [envelope, insertTwo, localTarget, encodeInt, MembersFit, Bson.Fits, hsizes]

theorem encodable_countById : countById.Encodable := by
  have hsizes := utf8_sizes
  intro argument hargument
  obtain rfl := List.mem_singleton.mp hargument
  refine ⟨?_, by decide⟩
  simp [encodeMembers, PyValue.encode, MembersFit, Bson.Fits, hsizes]

theorem sends_countById : localDeployment.Sends localTarget countById := by
  have hsizes := utf8_sizes
  refine ⟨⟨?_, by decide⟩, by decide⟩
  simp [envelope, countById, filterOrEmpty, localTarget, encodeMembers, PyValue.encode,
    MembersFit, Bson.Fits, hsizes]
  decide

theorem encodable_dropDatabase : dropDatabase.Encodable := by
  have hsizes := utf8_sizes
  intro argument hargument
  obtain rfl := List.mem_singleton.mp hargument
  refine ⟨?_, by decide⟩
  simp [encodeMembers, PyValue.encode, encodeInt, MembersFit, Bson.Fits, hsizes]

theorem sends_dropDatabase : localDeployment.Sends localTarget dropDatabase := by
  have hsizes := utf8_sizes
  refine ⟨⟨?_, by decide⟩, by decide⟩
  simp [envelope, dropDatabase, localTarget, encodeMembers, PyValue.encode, encodeInt,
    MembersFit, Bson.Fits, hsizes]
  decide

/-- The ids of two documents come back only by the service, an object id is counted only on the
binary connection, and a database is dropped only by the service. -/
theorem outcomes_differ :
    (insertTwo.Encodable ∧
      localDeployment.binaryOutcome localTarget Answers.nothing.database insertTwo false =
        (some (.ids ["binary_0", "binary_1"]), true) ∧
      localDeployment.grpcOutcome localTarget Answers.nothing.database insertTwo false =
        (some (.ids ["7", "8"]), true) ∧
      ¬ localDeployment.Interchangeable localTarget insertTwo) ∧
    (countById.Encodable ∧
      localDeployment.binaryOutcome localTarget Answers.nothing.database countById false =
        (some (.count 0), true) ∧
      localDeployment.grpcOutcome localTarget Answers.nothing.database countById false =
        (none, false) ∧
      ¬ localDeployment.Interchangeable localTarget countById) ∧
    (dropDatabase.Encodable ∧
      localDeployment.binaryOutcome localTarget Answers.nothing.database dropDatabase false =
        (none, false) ∧
      localDeployment.grpcOutcome localTarget Answers.nothing.database dropDatabase false =
        (some (.document (some [])), true) ∧
      ¬ localDeployment.Interchangeable localTarget dropDatabase) := by
  have hinsert : localDeployment.binaryOutcome localTarget Answers.nothing.database insertTwo
      false = (some (.ids ["binary_0", "binary_1"]), true) := by
    rw [binaryOutcome_eq _ _ encodable_insertTwo sends_insertTwo]
    exact Prod.ext (binaryValue_insertMany localDeployment [.int32 7, .int32 8]) rfl
  have hinsert' : localDeployment.grpcOutcome localTarget Answers.nothing.database insertTwo
      false = (some (.ids ["7", "8"]), true) := by
    rw [grpcOutcome_eq _ _ encodable_insertTwo ⟨_, rfl, rfl⟩]
    rfl
  have hcount : localDeployment.binaryOutcome localTarget Answers.nothing.database countById
      false = (some (.count 0), true) := by
    rw [binaryOutcome_eq _ _ encodable_countById sends_countById]
    exact Prod.ext ((binaryValue_written localDeployment (.countDocuments 0 :
      Written _ countById _ _)).trans (if_pos (by decide))) rfl
  have hcount' : localDeployment.grpcOutcome localTarget Answers.nothing.database countById
      false = (none, false) := rfl
  have hdrop : localDeployment.binaryOutcome localTarget Answers.nothing.database dropDatabase
      false = (none, false) := by
    rw [binaryOutcome_eq _ _ encodable_dropDatabase sends_dropDatabase]
    rfl
  have hdrop' : localDeployment.grpcOutcome localTarget Answers.nothing.database dropDatabase
      false = (some (.document (some [])), true) := by
    rw [grpcOutcome_eq _ _ encodable_dropDatabase ⟨_, rfl, rfl⟩]
    rfl
  refine ⟨⟨encodable_insertTwo, hinsert, hinsert', fun hsame ↦ ?_⟩,
    ⟨encodable_countById, hcount, hcount', fun hsame ↦ ?_⟩,
    ⟨encodable_dropDatabase, hdrop, hdrop', fun hsame ↦ ?_⟩⟩
  · have heq := hinsert.symm.trans ((hsame _ _ _).trans hinsert')
    simp at heq
  · have heq := hcount.symm.trans ((hsame _ _ _).trans hcount')
    simp at heq
  · have heq := hdrop.symm.trans ((hsame _ _ _).trans hdrop')
    simp at heq

end MongoCore.Clients.TwoTransports
