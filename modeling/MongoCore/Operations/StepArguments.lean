import MongoCore.Operations.TransactionPipeline

/-!
# The arguments of a pipeline step

Every operation type takes a fixed set of members from the resolved arguments of its step: a
filter, a document, an update, or a list of documents.  A step that lacks one of them, or has a
value there that does not convert, should fail and abort the transaction.  The executor instead
replaces such a value by an empty document or an empty list, and an empty filter selects every
document of the collection.

The main result is the exact condition under which a step keeps that promise, for every
environment: all members its type takes are present and convert.
-/

namespace MongoCore.Operations.StepArguments

open MongoCore.Data MongoCore.Operations.PipelineRefs MongoCore.Operations.TransactionPipeline

/-! ## Members -/

/-- A member that an operation type takes: one document, or a list of documents. -/
inductive Member where
  | document (field : String)
  | documents (field : String)
  deriving DecidableEq, Repr

def members : StepType → List Member
  | .findOne | .find | .delete | .deleteMany => [.document "filter"]
  | .update | .updateMany | .findAndModify => [.document "filter", .document "update"]
  | .insert => [.document "document"]
  | .insertMany => [.documents "documents"]
  | .aggregate => [.documents "pipeline"]

variable (codec : JsonCodec)

def Converts (value : Json) : Prop := ∃ document, codec.toBson value = some (.document document)

/-- The member is present in the resolved arguments and converts. -/
def Member.WellTyped (resolved : Json) : Member → Prop
  | .document field => ∃ value, resolved.get? field = some value ∧ Converts codec value
  | .documents field => ∃ items, resolved.get? field = some (.array items) ∧
      ∀ item ∈ items, Converts codec item

theorem bsonFromJsonValue_of_toBson {value : Json} {document : Document}
    (h : codec.toBson value = some (.document document)) :
    bsonFromJsonValue codec value = document := by
  rw [bsonFromJsonValue, h]

/-- A filter is empty only if the resolved arguments say so. -/
theorem get?_of_documentMember_eq_nil {resolved : Json} {field : String}
    (htyped : (Member.document field).WellTyped codec resolved)
    (hempty : documentMember codec resolved field = []) :
    resolved.get? field = some (.object []) := by
  obtain ⟨value, hvalue, document, hdocument⟩ := htyped
  have hdocumentMember : documentMember codec resolved field = document := by
    rw [documentMember, hvalue]
    exact bsonFromJsonValue_of_toBson codec hdocument
  rw [hdocumentMember] at hempty
  rw [hempty] at hdocument
  rw [hvalue, codec.eq_empty_of_toBson value hdocument]

/-- The filter of a step's operation is the member of that name, for the types that take it. -/
theorem stepOp_filter? (type : StepType) (findLimit : Option ℤ) (resolved : Json) :
    (stepOp codec type findLimit resolved).filter? =
      if Member.document "filter" ∈ members type then
        some (documentMember codec resolved "filter")
      else none := by
  cases type <;> rfl

/-! ## The promise and its condition -/

/-- What a step with given results promises: it passes an empty filter only where its resolved
arguments have the empty object, and it aborts the transaction without a call if a member of its
type is missing or does not convert. -/
structure RespectsMembers (step : PipelineStepDef) (results : Results) : Prop where
  filter : ∀ driver resolved,
    resolveReferences codec.toText results step.operationJson = .ok resolved →
    ∀ call ∈ (executeStep codec driver step resolved).1, call.op.filter? = some [] →
      resolved.get? "filter" = some (.object [])
  aborts : ∀ resolved,
    resolveReferences codec.toText results step.operationJson = .ok resolved →
    ∀ type, StepType.ofName? step.operationType = some type →
    ∀ member ∈ members type, ¬ member.WellTyped codec resolved →
    ∀ env maxTimeMs attempt index rest finished, ∃ failure,
      runSteps codec env maxTimeMs attempt index (step :: rest) results finished =
        ([.abort], .error failure)

/-- Every member the step's type takes is present in its resolved arguments and converts. -/
def MembersWellTyped (step : PipelineStepDef) (results : Results) : Prop :=
  ∀ resolved, resolveReferences codec.toText results step.operationJson = .ok resolved →
    ∀ type, StepType.ofName? step.operationType = some type →
      ∀ member ∈ members type, member.WellTyped codec resolved

/-- A step of a known type makes exactly one call. -/
theorem executeStep_calls {step : PipelineStepDef} {type : StepType}
    (htype : StepType.ofName? step.operationType = some type)
    (driver : DriverCall → Except String DriverReply) (resolved : Json) :
    (executeStep codec driver step resolved).1 =
      [{ database := step.database, collection := step.collection
         op := stepOp codec type step.findLimit resolved }] := by
  simp only [executeStep, htype]

/-- A step of an unknown type makes no call. -/
theorem executeStep_calls_of_unknown {step : PipelineStepDef}
    (htype : StepType.ofName? step.operationType = none)
    (driver : DriverCall → Except String DriverReply) (resolved : Json) :
    (executeStep codec driver step resolved).1 = [] := by
  simp only [executeStep, htype]

/-- The first thing asked of the session by a step that ran is its first call. -/
theorem head?_runSteps {env : Environment} {maxTimeMs attempt index : ℕ} {step : PipelineStepDef}
    {results : Results} {resolved : Json} {call : DriverCall} {calls : List DriverCall}
    (htime : env.elapsed attempt index ≤ maxTimeMs)
    (hresolved : resolveReferences codec.toText results step.operationJson = .ok resolved)
    (hcalls : (executeStep codec (env.driver attempt index) step resolved).1 = call :: calls)
    (rest : List PipelineStepDef) (finished : List StepResult) :
    (runSteps codec env maxTimeMs attempt index (step :: rest) results finished).1.head? =
      some (.call call) := by
  rw [runSteps, if_neg (Nat.not_lt.mpr htime), hresolved]
  simp only
  cases hexecute : executeStep codec (env.driver attempt index) step resolved with
  | mk made outcome =>
    rw [hexecute] at hcalls
    simp only at hcalls
    subst hcalls
    cases outcome <;> rfl

/-- An environment in which no time passes and every call fails. -/
def failingEnvironment : Environment where
  startSession _ := .ok ()
  startTransaction _ := .ok ()
  elapsed _ _ := 0
  driver _ _ _ := .error "failed"
  commit _ := .ok ()
  elapsedAtCommit _ := 0

/-- A step keeps its promise about its arguments exactly when every member its type takes is
present and converts. -/
theorem respectsMembers_iff (step : PipelineStepDef) (results : Results) :
    RespectsMembers codec step results ↔ MembersWellTyped codec step results := by
  constructor
  · intro hrespects resolved hresolved type htype member hmember
    by_contra htyped
    obtain ⟨failure, hrun⟩ := hrespects.aborts resolved hresolved type htype member hmember
      htyped failingEnvironment 0 0 0 [] []
    have htime : failingEnvironment.elapsed 0 0 ≤ 0 := Nat.le_refl 0
    have hhead := head?_runSteps codec htime hresolved (executeStep_calls codec htype _ _) [] []
    rw [hrun] at hhead
    exact absurd hhead (by simp)
  · intro htyped
    refine ⟨?_, ?_⟩
    · intro driver resolved hresolved call hcall hfilter
      cases htype : StepType.ofName? step.operationType with
      | none =>
        rw [executeStep_calls_of_unknown codec htype] at hcall
        exact absurd hcall (by simp)
      | some type =>
        rw [executeStep_calls codec htype, List.mem_singleton] at hcall
        subst hcall
        simp only [stepOp_filter?] at hfilter
        split_ifs at hfilter with hmember
        exact get?_of_documentMember_eq_nil codec (htyped resolved hresolved type htype _ hmember)
          (Option.some.inj hfilter)
    · intro resolved hresolved type htype member hmember hnot
      exact absurd (htyped resolved hresolved type htype member hmember) hnot

/-! ## A reference that resolves to null -/

/-- A deletion whose filter is a reference into the result of an earlier step. -/
def deleteByReference : PipelineStepDef where
  name := "cleanup"
  database := "shop"
  collection := "orders"
  operationType := "delete_many"
  operationJson := .object [("filter", .string "\x7b\x7blookup.selector\x7d\x7d")]
  findLimit := none

/-- The earlier step returned a document whose selector is null. -/
def nullSelector : Results := fun name ↦
  if name = "lookup" then some (.object [("selector", .null)]) else none

/-- The deletion runs with an empty filter although its resolved filter is null. -/
theorem deleteByReference_deletes_all :
    (∃ resolved, resolveReferences JsonCodec.plain.toText nullSelector
        deleteByReference.operationJson = .ok resolved ∧
      ∀ driver, (executeStep JsonCodec.plain driver deleteByReference resolved).1 =
        [{ database := "shop", collection := "orders", op := .deleteMany [] }]) ∧
    ¬ RespectsMembers JsonCodec.plain deleteByReference nullSelector := by
  have hresolved : resolveReferences JsonCodec.plain.toText nullSelector
      deleteByReference.operationJson = .ok (.object [("filter", .null)]) := rfl
  refine ⟨⟨_, hresolved, fun driver ↦ rfl⟩, fun hrespects ↦ ?_⟩
  have hfilter := hrespects.filter (fun _ ↦ .error "") _ hresolved _ List.mem_cons_self rfl
  exact absurd hfilter (by simp [Json.get?])

end MongoCore.Operations.StepArguments
