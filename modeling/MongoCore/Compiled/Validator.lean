import MongoCore.Data.Bson

/-!
# Validation of compiled queries

A query that was compiled from an intent is validated before it is used.  A filter must not contain
an operator that runs code.  A pipeline must consist of allowed stages.

The validator walks a document with its own recursion.  The module also lists all keys of a
document and says which of them the walk does not come to: what stands in an array that is itself
an item of an array, and the scope of a code value.  The check is complete for a document exactly
if the walk comes to a dangerous operator or there is none anywhere else.
-/

namespace MongoCore.Compiled

open MongoCore.Data

/-! ## The validator -/

def allowedStages : List String :=
  ["$match", "$project", "$sort", "$limit", "$skip", "$group", "$lookup", "$unwind",
    "$vectorSearch", "$search", "$count", "$addFields", "$set"]

def blockedStages : List String :=
  ["$out", "$merge", "$collStats", "$currentOp", "$listSessions", "$planCacheStats"]

/-- Operators that allow arbitrary code execution. -/
def dangerousOperators : List String := ["$where", "$function", "$accumulator"]

mutual

/-- Look for a dangerous operator among the keys of a document and below. -/
def checkDangerousOperators : Document → Except String Unit
  | [] => .ok ()
  | (key, value) :: members =>
      if dangerousOperators.contains key then
        .error s!"'{key}' operator is not allowed (code execution risk)"
      else
        match checkValue value with
        | .error reason => .error reason
        | .ok () => checkDangerousOperators members

/-- Documents are walked, and arrays are searched for documents. -/
def checkValue : Bson → Except String Unit
  | .document nested => checkDangerousOperators nested
  | .array items => checkItems items
  | _ => .ok ()

def checkItems : List Bson → Except String Unit
  | [] => .ok ()
  | .document nested :: items =>
      match checkDangerousOperators nested with
      | .error reason => .error reason
      | .ok () => checkItems items
  | _ :: items => checkItems items

end

def validateFilter (filter : Document) : Except String Unit := checkDangerousOperators filter

def validateStage (i : ℕ) (stage : Document) : Except String Unit :=
  match stage with
  | [] => .error s!"Stage {i} is empty"
  | (stageName, _) :: _ =>
      if blockedStages.contains stageName then
        .error s!"Blocked stage '{stageName}' at position {i}"
      else if !allowedStages.contains stageName then
        .error s!"Unknown stage '{stageName}' at position {i} — not in allowlist"
      else checkDangerousOperators stage

def validateStages : ℕ → List Document → Except String Unit
  | _, [] => .ok ()
  | i, stage :: stages =>
      match validateStage i stage with
      | .error reason => .error reason
      | .ok () => validateStages (i + 1) stages

def validatePipeline (pipeline : List Document) : Except String Unit := validateStages 0 pipeline

/-! ## The keys of a document -/

mutual

def documentKeys : Document → List String
  | [] => []
  | (key, value) :: members => key :: (valueKeys value ++ documentKeys members)

def valueKeys : Bson → List String
  | .document nested => documentKeys nested
  | .array items => itemKeys items
  | .javaScriptCodeWithScope _ scope => documentKeys scope
  | _ => []

def itemKeys : List Bson → List String
  | [] => []
  | item :: items => valueKeys item ++ itemKeys items

end

/-- No document in a document has a dangerous operator among its keys. -/
def Harmless (document : Document) : Prop :=
  ∀ key ∈ documentKeys document, key ∉ dangerousOperators

instance (document : Document) : Decidable (Harmless document) := List.decidableBAll _ _

mutual

/-- The keys that the walk over a document does not come to. -/
def unvisitedKeys : Document → List String
  | [] => []
  | (_, value) :: members => unvisitedValueKeys value ++ unvisitedKeys members

def unvisitedValueKeys : Bson → List String
  | .document nested => unvisitedKeys nested
  | .array items => unvisitedItemKeys items
  | .javaScriptCodeWithScope _ scope => documentKeys scope
  | _ => []

def unvisitedItemKeys : List Bson → List String
  | [] => []
  | .document nested :: items => unvisitedKeys nested ++ unvisitedItemKeys items
  | .array nested :: items => itemKeys nested ++ unvisitedItemKeys items
  | .javaScriptCodeWithScope _ scope :: items => documentKeys scope ++ unvisitedItemKeys items
  | _ :: items => unvisitedItemKeys items

end

/-- What the walk over a document does not come to has no dangerous operator. -/
def HarmlessWhereUnvisited (document : Document) : Prop :=
  ∀ key ∈ unvisitedKeys document, key ∉ dangerousOperators

instance (document : Document) : Decidable (HarmlessWhereUnvisited document) :=
  List.decidableBAll _ _

/-! ## What the walk finds -/

/-- A list of keys without dangerous operators. -/
abbrev HarmlessKeys (keys : List String) : Prop := ∀ key ∈ keys, key ∉ dangerousOperators

theorem harmlessKeys_append {front back : List String} :
    HarmlessKeys (front ++ back) ↔ HarmlessKeys front ∧ HarmlessKeys back :=
  List.forall_mem_append

theorem harmlessKeys_cons {key : String} {keys : List String} :
    HarmlessKeys (key :: keys) ↔ key ∉ dangerousOperators ∧ HarmlessKeys keys :=
  List.forall_mem_cons

mutual

/-- A document is harmless exactly if the walk finds nothing and there is nothing to be found where
the walk does not come. -/
theorem harmlessKeys_documentKeys : ∀ document : Document,
    HarmlessKeys (documentKeys document) ↔
      checkDangerousOperators document = .ok () ∧ HarmlessKeys (unvisitedKeys document)
  | [] => by simp [documentKeys, checkDangerousOperators, unvisitedKeys]
  | (key, value) :: members => by
    have hvalue := harmlessKeys_valueKeys value
    have hmembers := harmlessKeys_documentKeys members
    unfold documentKeys checkDangerousOperators unvisitedKeys
    rw [harmlessKeys_cons, harmlessKeys_append, harmlessKeys_append, hvalue, hmembers]
    by_cases hkey : key ∈ dangerousOperators
    · simp [hkey]
    · cases hcheck : checkValue value with
      | error reason => simp [hkey]
      | ok _ =>
        simp only [hkey, not_false_eq_true, true_and, List.contains_eq_mem, decide_false,
          Bool.false_eq_true, if_false]
        tauto

theorem harmlessKeys_valueKeys : ∀ value : Bson,
    HarmlessKeys (valueKeys value) ↔
      checkValue value = .ok () ∧ HarmlessKeys (unvisitedValueKeys value)
  | .document nested => harmlessKeys_documentKeys nested
  | .array items => harmlessKeys_itemKeys items
  | .javaScriptCodeWithScope _ scope => by simp [valueKeys, checkValue, unvisitedValueKeys]
  | .double _ | .string _ | .boolean _ | .null | .regularExpression _ _ | .javaScriptCode _
  | .int32 _ | .int64 _ | .timestamp _ _ | .binary _ _ | .objectId _ | .dateTime _ | .symbol _
  | .decimal128 _ | .undefined | .maxKey | .minKey | .dbPointer _ _ => by
    simp [valueKeys, checkValue, unvisitedValueKeys]

theorem harmlessKeys_itemKeys : ∀ items : List Bson,
    HarmlessKeys (itemKeys items) ↔
      checkItems items = .ok () ∧ HarmlessKeys (unvisitedItemKeys items)
  | [] => by simp [itemKeys, checkItems, unvisitedItemKeys]
  | .document nested :: items => by
    have hnested := harmlessKeys_documentKeys nested
    have hitems := harmlessKeys_itemKeys items
    unfold itemKeys checkItems unvisitedItemKeys valueKeys
    rw [harmlessKeys_append, harmlessKeys_append, hnested, hitems]
    cases checkDangerousOperators nested with
    | error reason => simp
    | ok _ => tauto
  | .array nested :: items => by
    have hitems := harmlessKeys_itemKeys items
    unfold itemKeys checkItems unvisitedItemKeys valueKeys
    rw [harmlessKeys_append, harmlessKeys_append, hitems]
    tauto
  | .javaScriptCodeWithScope _ scope :: items => by
    have hitems := harmlessKeys_itemKeys items
    unfold itemKeys checkItems unvisitedItemKeys valueKeys
    rw [harmlessKeys_append, harmlessKeys_append, hitems]
    tauto
  | .double _ :: items | .string _ :: items | .boolean _ :: items | .null :: items
  | .regularExpression _ _ :: items | .javaScriptCode _ :: items | .int32 _ :: items
  | .int64 _ :: items | .timestamp _ _ :: items | .binary _ _ :: items | .objectId _ :: items
  | .dateTime _ :: items | .symbol _ :: items | .decimal128 _ :: items | .undefined :: items
  | .maxKey :: items | .minKey :: items | .dbPointer _ _ :: items => by
    have hitems := harmlessKeys_itemKeys items
    simpa [itemKeys, checkItems, unvisitedItemKeys, valueKeys] using hitems

end

/-- An accepted filter is harmless exactly if it is where the walk does not come. -/
theorem harmless_iff_of_validateFilter {filter : Document} (h : validateFilter filter = .ok ()) :
    Harmless filter ↔ HarmlessWhereUnvisited filter :=
  (harmlessKeys_documentKeys filter).trans (and_iff_right h)

/-! ## What the walk comes to -/

mutual

/-- The keys that the walk over a document comes to, if nothing ends it. -/
def visitedKeys : Document → List String
  | [] => []
  | (key, value) :: members => key :: (visitedValueKeys value ++ visitedKeys members)

/-- Documents and arrays are walked. -/
def visitedValueKeys : Bson → List String
  | .document nested => visitedKeys nested
  | .array items => visitedItemKeys items
  | _ => []

/-- Of the items of an array, the documents are walked. -/
def visitedItemKeys : List Bson → List String
  | [] => []
  | .document nested :: items => visitedKeys nested ++ visitedItemKeys items
  | _ :: items => visitedItemKeys items

end

mutual

/-- A document is accepted exactly if the walk comes to no dangerous operator. -/
theorem checkDangerousOperators_eq_ok : ∀ document : Document,
    checkDangerousOperators document = .ok () ↔ HarmlessKeys (visitedKeys document)
  | [] => by simp [checkDangerousOperators, visitedKeys, HarmlessKeys]
  | (key, value) :: members => by
    have hvalue := checkValue_eq_ok value
    have hmembers := checkDangerousOperators_eq_ok members
    unfold checkDangerousOperators visitedKeys
    rw [harmlessKeys_cons, harmlessKeys_append, ← hvalue, ← hmembers]
    by_cases hkey : key ∈ dangerousOperators
    · simp [hkey]
    · cases checkValue value with
      | error reason => simp [hkey]
      | ok _ => simp [hkey]

theorem checkValue_eq_ok : ∀ value : Bson,
    checkValue value = .ok () ↔ HarmlessKeys (visitedValueKeys value)
  | .document nested => checkDangerousOperators_eq_ok nested
  | .array items => checkItems_eq_ok items
  | .javaScriptCodeWithScope _ _ | .double _ | .string _ | .boolean _ | .null
  | .regularExpression _ _ | .javaScriptCode _ | .int32 _ | .int64 _ | .timestamp _ _
  | .binary _ _ | .objectId _ | .dateTime _ | .symbol _ | .decimal128 _ | .undefined | .maxKey
  | .minKey | .dbPointer _ _ => by
    simp [checkValue, visitedValueKeys, HarmlessKeys]

theorem checkItems_eq_ok : ∀ items : List Bson,
    checkItems items = .ok () ↔ HarmlessKeys (visitedItemKeys items)
  | [] => by simp [checkItems, visitedItemKeys, HarmlessKeys]
  | .document nested :: items => by
    have hnested := checkDangerousOperators_eq_ok nested
    have hitems := checkItems_eq_ok items
    unfold checkItems visitedItemKeys
    rw [harmlessKeys_append, ← hnested, ← hitems]
    cases checkDangerousOperators nested with
    | error reason => simp
    | ok _ => simp
  | .array _ :: items | .javaScriptCodeWithScope _ _ :: items | .double _ :: items
  | .string _ :: items | .boolean _ :: items | .null :: items
  | .regularExpression _ _ :: items | .javaScriptCode _ :: items | .int32 _ :: items
  | .int64 _ :: items | .timestamp _ _ :: items | .binary _ _ :: items | .objectId _ :: items
  | .dateTime _ :: items | .symbol _ :: items | .decimal128 _ :: items | .undefined :: items
  | .maxKey :: items | .minKey :: items | .dbPointer _ _ :: items => by
    have hitems := checkItems_eq_ok items
    simpa [checkItems, visitedItemKeys] using hitems

end

/-- The check tells harmless documents from others exactly if the walk comes to a dangerous
operator or there is none where it does not come. -/
theorem checkDangerousOperators_complete_iff (document : Document) :
    (checkDangerousOperators document = .ok () ↔ Harmless document) ↔
      (∃ key ∈ visitedKeys document, key ∈ dangerousOperators) ∨
        HarmlessWhereUnvisited document := by
  have hharmless : Harmless document ↔
      HarmlessKeys (visitedKeys document) ∧ HarmlessWhereUnvisited document :=
    (harmlessKeys_documentKeys document).trans
      (and_congr_left' (checkDangerousOperators_eq_ok document))
  have hfound : (∃ key ∈ visitedKeys document, key ∈ dangerousOperators) ↔
      ¬ HarmlessKeys (visitedKeys document) := by
    simp [HarmlessKeys]
  rw [checkDangerousOperators_eq_ok, hharmless, hfound]
  tauto

/-- An operator in an array that is an item of an array is not found. -/
theorem not_checkDangerousOperators_complete :
    ¬ ∀ document : Document,
      checkDangerousOperators document = .ok () ↔ Harmless document := by
  intro hcomplete
  have hharmless := (hcomplete
    [("a", .array [.array [.document [("$where", .string "sleep(1000)")]]])]).mp (by decide)
  exact absurd hharmless (by decide)

/-! ## The stages of a pipeline -/

mutual

/-- The names of a stage and of the stages of the pipelines in it.  Of the allowed stages only a
lookup has a pipeline. -/
def stageNames : Document → List String
  | [] => []
  | (name, value) :: members =>
      name :: ((if name = "$lookup" then lookupStages value else []) ++ stageNames members)

def lookupStages : Bson → List String
  | .document spec => specStages spec
  | _ => []

/-- The names of the stages in the pipeline among the members of a lookup. -/
def specStages : Document → List String
  | [] => []
  | (key, value) :: members =>
      (if key = "pipeline" then pipelineStages value else []) ++ specStages members

def pipelineStages : Bson → List String
  | .array stages => itemStages stages
  | _ => []

/-- The names of the stages among the items of an array. -/
def itemStages : List Bson → List String
  | [] => []
  | .document stage :: items => stageNames stage ++ itemStages items
  | _ :: items => itemStages items

end

def StagesAllowed (pipeline : List Document) : Prop :=
  ∀ stage ∈ pipeline, ∀ name ∈ stageNames stage, name ∈ allowedStages

/-- The names of a stage that the validator does not look at: all but the first, and those in
nested pipelines. -/
def unvisitedNames : Document → List String
  | [] => []
  | (name, value) :: members =>
      (if name = "$lookup" then lookupStages value else []) ++ stageNames members

def StagesAllowedWhereUnvisited (pipeline : List Document) : Prop :=
  ∀ stage ∈ pipeline, ∀ name ∈ unvisitedNames stage, name ∈ allowedStages

/-- The first name of a stage that is accepted is allowed, and the walk over it finds nothing. -/
theorem validateStage_eq_ok {i : ℕ} {stage : Document} :
    validateStage i stage = .ok () ↔
      (∃ name value members, stage = (name, value) :: members ∧ name ∈ allowedStages) ∧
        checkDangerousOperators stage = .ok () := by
  have hdisjoint : ∀ name ∈ allowedStages, name ∉ blockedStages := by decide
  cases stage with
  | nil => simp [validateStage]
  | cons member members =>
    obtain ⟨name, value⟩ := member
    unfold validateStage
    by_cases hallowed : name ∈ allowedStages
    · have hblocked := hdisjoint name hallowed
      simp [hallowed, hblocked]
    · by_cases hblocked : name ∈ blockedStages
      · simp [hallowed, hblocked]
      · simp [hallowed, hblocked]

theorem validateStages_eq_ok {i : ℕ} {pipeline : List Document} :
    validateStages i pipeline = .ok () ↔ ∀ stage ∈ pipeline,
      (∃ name value members, stage = (name, value) :: members ∧ name ∈ allowedStages) ∧
        checkDangerousOperators stage = .ok () := by
  induction pipeline generalizing i with
  | nil => simp [validateStages]
  | cons stage pipeline ih =>
    unfold validateStages
    rw [List.forall_mem_cons, ← validateStage_eq_ok (i := i), ← ih (i := i + 1)]
    cases validateStage i stage with
    | error reason => simp
    | ok _ => simp

/-- An accepted pipeline has only allowed stages and no dangerous operator exactly if that is so
where the validator does not look. -/
theorem allowed_iff_of_validatePipeline {pipeline : List Document}
    (h : validatePipeline pipeline = .ok ()) :
    (StagesAllowed pipeline ∧ ∀ stage ∈ pipeline, Harmless stage) ↔
      StagesAllowedWhereUnvisited pipeline ∧
        ∀ stage ∈ pipeline, HarmlessWhereUnvisited stage := by
  have hstages := validateStages_eq_ok.mp h
  refine and_congr (forall₂_congr fun stage hstage ↦ ?_) (forall₂_congr fun stage hstage ↦ ?_)
  · obtain ⟨⟨name, value, members, rfl, hname⟩, -⟩ := hstages stage hstage
    unfold stageNames unvisitedNames
    rw [List.forall_mem_cons]
    exact and_iff_right hname
  · exact harmless_iff_of_validateFilter (hstages stage hstage).2

end MongoCore.Compiled
