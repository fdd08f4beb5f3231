import MongoCore.Data.Json

/-!
# Safety of tool calls

In read-only mode a list of tools is blocked, and a pipeline is rejected as a whole if one of its
operations is on a second list.  Both lists contain names; what a tool does with its arguments is
not looked at.
-/

namespace MongoCore.Mcp

open MongoCore.Data

structure SafetyConfig where
  readOnly : Bool
  deriving DecidableEq

namespace SafetyConfig

/-- The tools that are blocked in read-only mode. -/
def writeTools : List String :=
  ["insert", "insert_many", "update", "update_many", "delete", "delete_many", "create_collection",
    "create_index", "run_command", "transaction_pipeline"]

/-- The operations that a pipeline cannot have in read-only mode. -/
def writeOps : List String :=
  ["insert", "insert_many", "update", "update_many", "delete", "delete_many", "create_collection",
    "create_index", "run_command", "find_and_modify"]

def checkToolAllowed (safety : SafetyConfig) (toolName : String) : Except String Unit :=
  if safety.readOnly && writeTools.contains toolName then
    .error s!"Tool '{toolName}' is blocked: server is in read-only mode"
  else .ok ()

/-- The operation of a pipeline that is on the list, with its position. -/
def violation (operation : Json) (i : ℕ) : Option String :=
  match (operation.get? "op").bind Json.asStr? with
  | some op =>
      if writeOps.contains op then some s!"operation[{i}]: '{op}' is a write operation" else none
  | none => none

def checkPipelineAllowed (safety : SafetyConfig) (operations : List Json) : Except String Unit :=
  if safety.readOnly then
    let violations := operations.zipIdx.filterMap fun (operation, i) ↦ violation operation i
    if violations.isEmpty then .ok ()
    else .error ("Pipeline rejected: server is in read-only mode. Violations:\n" ++
      "\n".intercalate violations)
  else .ok ()

theorem checkToolAllowed_eq_ok {safety : SafetyConfig} {toolName : String} :
    safety.checkToolAllowed toolName = .ok () ↔
      safety.readOnly = true → toolName ∉ writeTools := by
  unfold checkToolAllowed
  cases safety.readOnly <;> simp

/-- A pipeline is allowed exactly if none of its operations is on the list. -/
theorem checkPipelineAllowed_eq_ok {safety : SafetyConfig} {operations : List Json} :
    safety.checkPipelineAllowed operations = .ok () ↔
      safety.readOnly = true → ∀ operation ∈ operations, ∀ op,
        (operation.get? "op").bind Json.asStr? = some op → op ∉ writeOps := by
  have hviolation : ∀ (operation : Json) (i : ℕ), violation operation i = none ↔
      ∀ op, (operation.get? "op").bind Json.asStr? = some op → op ∉ writeOps := by
    intro operation i
    unfold violation
    cases hop : (operation.get? "op").bind Json.asStr? <;> simp
  have hall : (operations.zipIdx.filterMap fun (operation, i) ↦ violation operation i) = [] ↔
      ∀ operation ∈ operations, ∀ op, (operation.get? "op").bind Json.asStr? = some op →
        op ∉ writeOps := by
    rw [List.filterMap_eq_nil_iff]
    constructor
    · intro h operation hmem
      obtain ⟨i, hi, rfl⟩ := List.mem_iff_getElem.mp hmem
      apply (hviolation _ i).mp
      exact h (operations[i], i) (List.mk_mem_zipIdx_iff_getElem?.mpr (by simp [hi]))
    · intro h entry hentry
      apply (hviolation entry.1 entry.2).mpr
      exact h entry.1 (List.fst_mem_of_mem_zipIdx hentry)
  unfold checkPipelineAllowed
  cases safety.readOnly with
  | false => simp
  | true => simp [List.isEmpty_iff, hall]

end SafetyConfig

end MongoCore.Mcp
