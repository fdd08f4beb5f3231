import MongoCore.Compiled.Translator
import MongoCore.Mcp.Safety

/-!
# Tool calls

The parts of a tool call that do not wait for anything: what is read of the parameters of the
request, of the arguments of the pipeline tool, and of the arguments of the two tools that take a
question.
-/

namespace MongoCore.Mcp

open MongoCore.Data MongoCore.Compiled

def strField (value : Json) (field : String) : Option String := (value.get? field).bind Json.asStr?

/-! ## Parameters of a call -/

def toolName (params : Option Json) : Option String := params.bind fun params ↦ strField params "name"

/-- The arguments of the tool, an empty object if there are none. -/
def toolArguments (params : Option Json) : Json :=
  (params.bind fun params ↦ params.get? "arguments").getD (.object [])

def splice {α : Type} (elements : List α) (i : ℕ) (others : List α) : List α :=
  elements.take i ++ others ++ elements.drop (i + 1)

theorem mem_splice {α : Type} {elements others : List α} {i : ℕ} {element : α}
    (h : element ∈ splice elements i others) : element ∈ others ∨ element ∈ elements := by
  unfold splice at h
  rw [List.mem_append, List.mem_append] at h
  rcases h with (hfront | hothers) | hback
  · exact Or.inr (List.mem_of_mem_take hfront)
  · exact Or.inl hothers
  · exact Or.inr (List.mem_of_mem_drop hback)

theorem mem_splice_of_mem {α : Type} {elements others : List α} (i : ℕ) {element : α}
    (h : element ∈ others) : element ∈ splice elements i others :=
  List.mem_append_left _ (List.mem_append_right _ h)

/-! ## Pipelines -/

def maxOperations : ℕ := 10000

def pipelineOperations (safety : SafetyConfig) (arguments : Json) : Except String (List Json) :=
  match (arguments.get? "operations").bind Json.asArray? with
  | none => .error "Missing required field: operations"
  | some operations =>
      if operations.isEmpty then .error "Pipeline must contain at least one operation"
      else if maxOperations < operations.length then
        .error (s!"Pipeline exceeds maximum of {maxOperations} operations " ++
          s!"(got {operations.length})")
      else
        match safety.checkPipelineAllowed operations with
        | .error reason => .error reason
        | .ok () => .ok operations

/-- The tool that an operation of a pipeline calls, with the operation as its arguments. -/
def operationTool (operation : Json) : String := (strField operation "op").getD "unknown"

/-! ## Questions -/

inductive QuestionTool where
  | ask | explainQuery
  deriving DecidableEq

def QuestionTool.name : QuestionTool → String
  | .ask => "ask"
  | .explainQuery => "explain_query"

/-- The tool with a name, if it is one that translates a question. -/
def questionTool (name : String) : Option QuestionTool :=
  if name = "ask" then some .ask
  else if name = "explain_query" then some .explainQuery
  else none

structure Question where
  tool : QuestionTool
  text : String
  database : String
  collection : String
  deriving DecidableEq

def questionOf (tool : QuestionTool) (arguments : Json) : Except String Question :=
  match strField arguments "question", strField arguments "database",
    strField arguments "collection" with
  | none, _, _ => .error "Missing required field: question"
  | _, none, _ => .error "Missing required field: database"
  | _, _, none => .error (s!"Collection is required for '{tool.name}' " ++
      "(auto-detection not yet implemented)")
  | some text, some database, some collection => .ok ⟨tool, text, database, collection⟩

namespace Question

variable {Regex : Type} (crates : Crates Regex)

def key (question : Question) : String :=
  CompiledQueryTranslator.hash crates question.text question.database question.collection

/-- Neither the cache nor a template has a query for the question. -/
def Misses (question : Question) (translator : CompiledQueryTranslator Regex) : Prop :=
  translator.cache (question.key crates) = none ∧
    tryMatch crates translator.templates question.text question.database question.collection = none

end Question

end MongoCore.Mcp
