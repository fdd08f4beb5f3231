import MongoCore.Data.Driver
import MongoCore.Operations.PipelineRefs
import Mathlib.Logic.Function.Basic

/-!
# Transaction pipelines

A transaction pipeline is a list of named steps that run in order inside one transaction.  A step
carries its arguments as JSON, in which references to earlier results are resolved before it runs.
This module translates the validation of a pipeline, the execution of one step, and the loop that
runs the steps, aborts on the first failure, and retries a commit that failed transiently.

What the driver answers, how much time has passed, and whether starting and committing a
transaction succeed are chosen by an `Environment`.
-/

namespace MongoCore.Operations.TransactionPipeline

open MongoCore.Data MongoCore.Operations.PipelineRefs

/-! ## Limits -/

def defaultTransactionPipelineMaxSteps : ℕ := 50

/-- The default limit of a find step, and the largest one. -/
def defaultTransactionPipelineMaxDocs : ℕ := 101

/-- The number of attempts to commit. -/
def defaultTransactionPipelineMaxRetries : ℕ := 3

/-! ## Steps and their validation -/

structure PipelineStepDef where
  name : String
  database : String
  collection : String
  operationType : String
  operationJson : Json
  findLimit : Option ℤ

/-- Why a pipeline is refused. -/
inductive PipelineError where
  | noSteps
  | tooManySteps
  | emptyName
  | emptyDatabase (name : String)
  | emptyCollection (name : String)
  | invalidName (name : String)
  | duplicateName (name : String)
  | nestedTransaction (name operationType : String)
  | findLimitTooLarge (name : String) (limit : ℤ)
  | badReference (error : RefError)
  | forwardReference (name target : String)
  | unknownReference (name target : String)
  deriving DecidableEq, Repr

def PipelineError.message : PipelineError → String
  | .noSteps => "Pipeline must have at least one step"
  | .tooManySteps => s!"Pipeline exceeds maximum of {defaultTransactionPipelineMaxSteps} steps"
  | .emptyName => "Step name must not be empty"
  | .emptyDatabase name => s!"Step '{name}': database must not be empty"
  | .emptyCollection name => s!"Step '{name}': collection must not be empty"
  | .invalidName name =>
      s!"Step name '{name}' is invalid: must start with a letter or underscore and contain only " ++
        "alphanumeric characters and underscores"
  | .duplicateName name => s!"Step name '{name}' is a duplicate"
  | .nestedTransaction name operationType =>
      s!"Step '{name}': operation_type '{operationType}' is not allowed in a pipeline"
  | .findLimitTooLarge name limit =>
      s!"Step '{name}': find_limit {limit} exceeds maximum of {defaultTransactionPipelineMaxDocs}"
  | .badReference error => error.message
  | .forwardReference name target =>
      s!"Step '{name}': forward reference to step '{target}' which is defined later"
  | .unknownReference name target => s!"Step '{name}': references unknown step '{target}'"

def display (message : String) : String := s!"Transaction pipeline error: {message}"

/-- A letter or an underscore, then letters, digits and underscores. -/
def isValidName (name : String) : Bool :=
  match name.toList with
  | [] => false
  | c :: rest => (c.isAlpha || c == '_') && rest.all fun c ↦ c.isAlphanum || c == '_'

/-- The operation types that manage a transaction themselves. -/
def forbiddenTypes : List String :=
  ["begin_transaction", "commit_transaction", "abort_transaction"]

/-- Check that every reference can be parsed and names a step seen so far. -/
def validateRefs (steps : List PipelineStepDef) (step : PipelineStepDef) (seen : List String) :
    List (List Char) → Except PipelineError Unit
  | [] => .ok ()
  | reference :: references =>
      match parseReference reference with
      | .error error => .error (.badReference error)
      | .ok (target, _) =>
          if target ∈ seen then validateRefs steps step seen references
          else if steps.any (·.name == target) then .error (.forwardReference step.name target)
          else .error (.unknownReference step.name target)

/-- The rules for one step, given the names seen before it. -/
def validateStep (steps : List PipelineStepDef) (seen : List String) (step : PipelineStepDef) :
    Except PipelineError Unit :=
  if step.name.isEmpty then .error .emptyName
  else if step.database.isEmpty then .error (.emptyDatabase step.name)
  else if step.collection.isEmpty then .error (.emptyCollection step.name)
  else if !isValidName step.name then .error (.invalidName step.name)
  else if step.name ∈ seen then .error (.duplicateName step.name)
  else if step.operationType ∈ forbiddenTypes then
    .error (.nestedTransaction step.name step.operationType)
  else if step.findLimit.any (fun limit ↦ decide ((defaultTransactionPipelineMaxDocs : ℤ) < limit)) then
    .error (.findLimitTooLarge step.name (step.findLimit.getD 0))
  else
    -- the step's own name counts as seen when its references are checked
    validateRefs steps step (step.name :: seen) (extractReferences step.operationJson)

def validateSteps (steps : List PipelineStepDef) :
    List String → List PipelineStepDef → Except PipelineError Unit
  | _, [] => .ok ()
  | seen, step :: rest => do
      validateStep steps seen step
      validateSteps steps (step.name :: seen) rest

def validatePipeline (steps : List PipelineStepDef) : Except PipelineError Unit :=
  if steps.isEmpty then .error .noSteps
  else if steps.length > defaultTransactionPipelineMaxSteps then .error .tooManySteps
  else validateSteps steps [] steps

/-! ## One step -/

inductive StepType where
  | findOne
  | find
  | insert
  | insertMany
  | update
  | updateMany
  | delete
  | deleteMany
  | findAndModify
  | aggregate
  deriving DecidableEq, Repr

def StepType.ofName? (name : String) : Option StepType :=
  match name with
  | "find_one" => some .findOne
  | "find" => some .find
  | "insert" => some .insert
  | "insert_many" => some .insertMany
  | "update" => some .update
  | "update_many" => some .updateMany
  | "delete" => some .delete
  | "delete_many" => some .deleteMany
  | "find_and_modify" => some .findAndModify
  | "aggregate" => some .aggregate
  | _ => none

section Execution

variable (codec : JsonCodec)

/-- A JSON value as a document; the empty document if it does not convert to one. -/
def bsonFromJsonValue (value : Json) : Document :=
  match codec.toBson value with
  | some (.document document) => document
  | _ => []

/-- A member of the resolved arguments as a document; the empty document if it is missing. -/
def documentMember (resolved : Json) (field : String) : Document :=
  ((resolved.get? field).map (bsonFromJsonValue codec)).getD []

/-- A member of the resolved arguments as a list of documents; the empty list if it is missing or
not an array. -/
def documentsMember (resolved : Json) (field : String) : List Document :=
  (((resolved.get? field).bind Json.asArray?).getD []).map (bsonFromJsonValue codec)

def stepOp (type : StepType) (findLimit : Option ℤ) (resolved : Json) : DriverOp :=
  match type with
  | .findOne => .find (documentMember codec resolved "filter") { limit := some 1 }
  | .find => .find (documentMember codec resolved "filter")
      { limit := some (findLimit.getD defaultTransactionPipelineMaxDocs) }
  | .insert => .insertOne (documentMember codec resolved "document")
  | .insertMany => .insertMany (documentsMember codec resolved "documents")
  | .update => .updateOne (documentMember codec resolved "filter")
      (documentMember codec resolved "update")
  | .updateMany => .updateMany (documentMember codec resolved "filter")
      (documentMember codec resolved "update")
  | .delete => .deleteOne (documentMember codec resolved "filter")
  | .deleteMany => .deleteMany (documentMember codec resolved "filter")
  | .findAndModify => .findOneAndUpdate (documentMember codec resolved "filter")
      (documentMember codec resolved "update") .after
  | .aggregate => .aggregate (documentsMember codec resolved "pipeline")

def countJson (count : ℕ) : Json := .number (.posInt count)

def stepResult (type : StepType) (reply : DriverReply) : Json :=
  match reply with
  | .documents documents =>
      match type with
      | .findOne => (documents.head?.map codec.ofDocument).getD .null
      | .aggregate =>
          .array ((documents.take defaultTransactionPipelineMaxDocs).map codec.ofDocument)
      | _ => .array (documents.map codec.ofDocument)
  | .inserted id => .object [("inserted_id", codec.ofBson id)]
  | .insertedMany ids => .object
      [("inserted_ids", .array (ids.map codec.ofBson)), ("inserted_count", countJson ids.length)]
  | .updated matched modified upserted => .object
      [("matched_count", countJson matched), ("modified_count", countJson modified),
        ("upserted_id", (upserted.map codec.ofBson).getD .null)]
  | .deleted count => .object [("deleted_count", countJson count)]
  | .document document => (document.map codec.ofDocument).getD .null

/-- Run one step with its resolved arguments.  The result is the calls made to the driver, and the
step's result or the text of its error. -/
def executeStep (driver : DriverCall → Except String DriverReply) (step : PipelineStepDef)
    (resolved : Json) : List DriverCall × Except String Json :=
  match StepType.ofName? step.operationType with
  | none => ([], .error (display s!"Unsupported operation type: {step.operationType}"))
  | some type =>
      let call : DriverCall :=
        { database := step.database, collection := step.collection
          op := stepOp codec type step.findLimit resolved }
      ([call], (driver call).map (stepResult codec type))

/-! ## The whole pipeline -/

inductive SessionEvent where
  | startSession
  | startTransaction
  | call (call : DriverCall)
  | abort
  | commit

structure StepResult where
  name : String
  resultJson : Json

structure PipelineExecutionResult where
  steps : List StepResult
  totalSteps : ℕ
  stepsCompleted : ℕ
  elapsedMs : ℕ

/-- A failed pipeline. -/
structure PipelineFailure where
  failedStep : String
  stepIndex : ℕ
  reason : String
  stepsCompleted : List String
  rolledBack : Bool

/-- What happens outside the pipeline, for each attempt: the outcome of starting a session and a
transaction, the milliseconds passed before each step and at the end, the driver's answer to the
call of each step, and the outcome of the commit.  Errors are given by their text. -/
structure Environment where
  startSession : ℕ → Except String Unit
  startTransaction : ℕ → Except String Unit
  elapsed : ℕ → ℕ → ℕ
  driver : ℕ → ℕ → DriverCall → Except String DriverReply
  commit : ℕ → Except String Unit
  elapsedAtCommit : ℕ → ℕ

variable (env : Environment) (maxTimeMs : ℕ) (attempt : ℕ)

/-- A failure at a step, after the transaction was aborted. -/
def failureAt (step : PipelineStepDef) (index : ℕ) (finished : List StepResult)
    (reason : String) : PipelineFailure where
  failedStep := step.name
  stepIndex := index
  reason := reason
  stepsCompleted := finished.map StepResult.name
  rolledBack := true

/-- The loop over the steps of one attempt: what it asks of the session, and the results of all
steps or the failure of one. -/
def runSteps : ℕ → List PipelineStepDef → Results → List StepResult →
    List SessionEvent × Except PipelineFailure (List StepResult)
  | _, [], _, finished => ([], .ok finished)
  | index, step :: rest, results, finished =>
      if env.elapsed attempt index > maxTimeMs then
        ([.abort], .error (failureAt step index finished
          s!"Pipeline timeout exceeded ({env.elapsed attempt index}ms > {maxTimeMs}ms)"))
      else
        match resolveReferences codec.toText results step.operationJson with
        | .error error => ([.abort], .error (failureAt step index finished
            s!"Reference resolution failed: {display error.message}"))
        | .ok resolved =>
            match executeStep codec (env.driver attempt index) step resolved with
            | (calls, .error reason) =>
                (calls.map .call ++ [.abort], .error (failureAt step index finished reason))
            | (calls, .ok value) =>
                let (events, outcome) := runSteps (index + 1) rest
                  (Function.update results step.name (some value))
                  (finished ++ [{ name := step.name, resultJson := value }])
                (calls.map .call ++ events, outcome)

def failureOutsideSteps (index : ℕ) (reason : String) (completed : List String)
    (rolledBack : Bool) : PipelineFailure where
  failedStep := ""
  stepIndex := index
  reason := reason
  stepsCompleted := completed
  rolledBack := rolledBack

/-- Whether the text of an error carries the label of a transient transaction error. -/
def isTransient (error : String) : Bool :=
  decide ("TransientTransactionError".toList <:+: error.toList)

/-- One attempt after the other, as long as the commit fails transiently and attempts are left. -/
def runAttempts (steps : List PipelineStepDef) : ℕ → ℕ →
    List SessionEvent × Except PipelineFailure PipelineExecutionResult
  | 0, _ => ([], .error (failureOutsideSteps 0
      (s!"Transaction failed after {defaultTransactionPipelineMaxRetries} retries due to " ++
        "transient errors") [] true))
  | left + 1, attempt =>
      match env.startSession attempt with
      | .error error => ([.startSession],
          .error (failureOutsideSteps 0 s!"Failed to start session: {error}" [] false))
      | .ok () =>
        match env.startTransaction attempt with
        | .error error => ([.startSession, .startTransaction],
            .error (failureOutsideSteps 0 s!"Failed to start transaction: {error}" [] false))
        | .ok () =>
          match runSteps codec env maxTimeMs attempt 0 steps (fun _ ↦ none) [] with
          | (events, .error failure) =>
              (.startSession :: .startTransaction :: events, .error failure)
          | (events, .ok finished) =>
            let begun := .startSession :: .startTransaction :: events ++ [.commit]
            match env.commit attempt with
            | .ok () => (begun, .ok
                { steps := finished, totalSteps := steps.length
                  stepsCompleted := finished.length, elapsedMs := env.elapsedAtCommit attempt })
            | .error error =>
              if isTransient error then
                let (later, outcome) := runAttempts steps left (attempt + 1)
                (begun ++ later, outcome)
              else (begun, .error (failureOutsideSteps steps.length s!"Commit failed: {error}"
                (finished.map StepResult.name) true))

def executeTransactionPipeline (steps : List PipelineStepDef) :
    List SessionEvent × Except PipelineFailure PipelineExecutionResult :=
  match validatePipeline steps with
  | .error error => ([], .error (failureOutsideSteps 0 (display error.message) [] false))
  | .ok () => runAttempts codec env maxTimeMs steps defaultTransactionPipelineMaxRetries 0

end Execution

end MongoCore.Operations.TransactionPipeline
