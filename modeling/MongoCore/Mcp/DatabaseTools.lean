import MongoCore.Data.Driver
import MongoCore.Mcp.Tools

/-!
# Tools that make one call to the database

Most tools read their arguments and make one call.  A tool is described by that call, or by the
error that it answers instead.  The conversion of a JSON value to BSON is a parameter.

At the end stands which of these tools can change the database in read-only mode: of the tools that
are not blocked, only the aggregation can, and it does if its pipeline has a stage for that.
-/

namespace MongoCore.Mcp

open MongoCore.Data

variable (toBson : Json → Except String Bson)

/-! ## Arguments -/

def getStr (arguments : Json) (field : String) : Except String String :=
  match strField arguments field with
  | some text => .ok text
  | none => .error s!"Missing required field: {field}"

def jsonToDocument (value : Json) : Except String Document :=
  match toBson value with
  | .error reason => .error s!"Failed to convert to BSON: {reason}"
  | .ok (.document document) => .ok document
  | .ok _ => .error "Expected a JSON object convertible to BSON document"

def jsonToDocuments (value : Json) : Except String (List Document) :=
  match value.asArray? with
  | none => .error "Expected a JSON array"
  | some items => items.mapM (jsonToDocument toBson)

/-- A member that is read by a conversion. -/
def requiredField {α : Type} (convert : Json → Except String α) (arguments : Json)
    (field : String) : Except String α :=
  match arguments.get? field with
  | none => .error s!"Missing required field: {field}"
  | some value => convert value

/-- The filter, empty if there is none. -/
def filterArgument (arguments : Json) : Except String Document :=
  match arguments.get? "filter" with
  | none => .ok []
  | some value => jsonToDocument toBson value

def maxFindLimit : ℤ := 100

/-- The limit of a find, which stays within the maximum. -/
def findLimit (arguments : Json) : ℤ :=
  let limit := ((arguments.get? "limit").bind Json.asI64?).getD maxFindLimit
  if maxFindLimit < limit ∨ limit ≤ 0 then maxFindLimit else limit

/-! ## Calls -/

def collectionCall (operation : Json → Except String DriverOp) (arguments : Json) :
    Except String DriverCall := do
  let database ← getStr arguments "database"
  let collection ← getStr arguments "collection"
  let op ← operation arguments
  return ⟨database, collection, op⟩

def databaseCall (operation : Json → Except String DriverOp) (arguments : Json) :
    Except String DriverCall := do
  let database ← getStr arguments "database"
  let op ← operation arguments
  return ⟨database, "", op⟩

def executeFind : Json → Except String DriverCall :=
  collectionCall fun arguments ↦ do
    let filter ← filterArgument toBson arguments
    let skip := (arguments.get? "skip").bind Json.asU64?
    return .find filter ⟨some (findLimit arguments), skip, none, none, none⟩

def executeFindOne : Json → Except String DriverCall :=
  collectionCall fun arguments ↦ do
    let filter ← filterArgument toBson arguments
    return .findOne filter ⟨none, none, none, none, none⟩

def executeInsert : Json → Except String DriverCall :=
  collectionCall fun arguments ↦ do
    let document ← requiredField (jsonToDocument toBson) arguments "document"
    return .insertOne document

def executeInsertMany : Json → Except String DriverCall :=
  collectionCall fun arguments ↦ do
    let documents ← requiredField (jsonToDocuments toBson) arguments "documents"
    return .insertMany documents

def updateCall (op : Document → Document → DriverOp) : Json → Except String DriverCall :=
  collectionCall fun arguments ↦ do
    let filter ← requiredField (jsonToDocument toBson) arguments "filter"
    let update ← requiredField (jsonToDocument toBson) arguments "update"
    return op filter update

def executeUpdate : Json → Except String DriverCall := updateCall toBson .updateOne

def executeUpdateMany : Json → Except String DriverCall := updateCall toBson .updateMany

def deleteCall (op : Document → DriverOp) : Json → Except String DriverCall :=
  collectionCall fun arguments ↦ do
    let filter ← requiredField (jsonToDocument toBson) arguments "filter"
    return op filter

def executeDelete : Json → Except String DriverCall := deleteCall toBson .deleteOne

def executeDeleteMany : Json → Except String DriverCall := deleteCall toBson .deleteMany

def executeAggregate : Json → Except String DriverCall :=
  collectionCall fun arguments ↦ do
    let pipeline ← requiredField (jsonToDocuments toBson) arguments "pipeline"
    return .aggregate pipeline

def executeCreateCollection : Json → Except String DriverCall :=
  collectionCall fun _ ↦ .ok .createCollection

def executeCreateIndex : Json → Except String DriverCall :=
  collectionCall fun arguments ↦ do
    let keys ← requiredField (jsonToDocument toBson) arguments "keys"
    return .createIndex keys

def executeListDatabases (_ : Json) : Except String DriverCall := .ok ⟨"", "", .listDatabases⟩

def executeListCollections : Json → Except String DriverCall :=
  databaseCall fun _ ↦ .ok .listCollections

/-- The commands that are blocked unless all are allowed. -/
def dangerousCommands : List String :=
  ["dropDatabase", "dropAllUsersFromDatabase", "dropAllRolesFromDatabase", "shutdown",
    "replSetReconfig", "replSetStepDown", "setFeatureCompatibilityVersion", "fsync",
    "cleanupOrphaned", "compact"]

def validateCommand (allowAll : Bool) (command : Document) : Except String Unit :=
  match command.find? fun (key, _) ↦ !allowAll && dangerousCommands.contains key with
  | some (key, _) => .error s!"Validation error: Command '{key}' is blocked by validation policy"
  | none => .ok ()

def executeRunCommand : Json → Except String DriverCall :=
  databaseCall fun arguments ↦ do
    let command ← requiredField (jsonToDocument toBson) arguments "command"
    let allowAll := ((arguments.get? "allow_all").bind Json.asBool?).getD false
    match validateCommand allowAll command with
    | .error reason => .error s!"run_command failed: {reason}"
    | .ok () => .ok (.runCommand command)

def sampleCall : Json → Except String DriverCall :=
  collectionCall fun arguments ↦
    let size := ((arguments.get? "sample_size").bind Json.asI64?).getD 100
    .ok (.aggregate [[("$sample", .document [("size", .int64 size)])]])

def executeCollectionSchema : Json → Except String DriverCall := sampleCall

def executeGenerateModel : Json → Except String DriverCall := sampleCall

def databaseTools : List (String × (Json → Except String DriverCall)) :=
  [("find", executeFind toBson),
    ("find_one", executeFindOne toBson),
    ("insert", executeInsert toBson),
    ("insert_many", executeInsertMany toBson),
    ("update", executeUpdate toBson),
    ("update_many", executeUpdateMany toBson),
    ("delete", executeDelete toBson),
    ("delete_many", executeDeleteMany toBson),
    ("aggregate", executeAggregate toBson),
    ("create_collection", executeCreateCollection),
    ("create_index", executeCreateIndex toBson),
    ("list_databases", executeListDatabases),
    ("list_collections", executeListCollections),
    ("run_command", executeRunCommand toBson),
    ("collection_schema", executeCollectionSchema),
    ("generate_model", executeGenerateModel)]

/-! ## Which calls write -/

/-- The tools whose calls write whatever their arguments are. -/
def directWrites : List String :=
  ["insert", "insert_many", "update", "update_many", "delete", "delete_many", "create_collection",
    "create_index", "run_command"]

theorem directWrites_subset_writeTools : directWrites ⊆ SafetyConfig.writeTools := by
  decide

theorem directWrites_subset_writeOps : directWrites ⊆ SafetyConfig.writeOps := by
  decide

theorem exists_op_of_collectionCall {operation : Json → Except String DriverOp} {arguments : Json}
    {call : DriverCall} (h : collectionCall operation arguments = .ok call) :
    ∃ op, operation arguments = .ok op ∧ call.op = op := by
  unfold collectionCall at h
  cases hdatabase : getStr arguments "database" <;> simp only [hdatabase, bind, Except.bind] at h
  · cases h
  cases hcollection : getStr arguments "collection" <;> simp only [hcollection] at h
  · cases h
  cases hop : operation arguments <;> simp only [hop] at h
  · cases h
  · exact ⟨_, rfl, by rw [← Except.ok.inj h]⟩

/-- A tool on a collection is given the names of a database and a collection. -/
theorem names_of_collectionCall {operation : Json → Except String DriverOp} {arguments : Json}
    {call : DriverCall} (h : collectionCall operation arguments = .ok call) :
    (strField arguments "database").isSome = true ∧
      (strField arguments "collection").isSome = true := by
  unfold collectionCall getStr at h
  cases hdatabase : strField arguments "database" <;>
    simp only [hdatabase, bind, Except.bind] at h
  · cases h
  cases hcollection : strField arguments "collection" <;> simp only [hcollection] at h
  · cases h
  · exact ⟨rfl, rfl⟩

/-- A tool on a collection reads only, if its operations do. -/
theorem not_writes_of_collectionCall {operation : Json → Except String DriverOp}
    {arguments : Json} {call : DriverCall}
    (hreads : ∀ op, operation arguments = .ok op → op.writes = false)
    (h : collectionCall operation arguments = .ok call) : call.op.writes = false := by
  obtain ⟨op, hop, hcall⟩ := exists_op_of_collectionCall h
  rw [hcall]
  exact hreads op hop

variable {toBson}

/-- A tool that looks for what a filter selects reads only. -/
theorem not_writes_of_filterCall {op : Json → Document → DriverOp}
    (hreads : ∀ arguments filter, (op arguments filter).writes = false) {arguments : Json}
    {call : DriverCall}
    (h : collectionCall (fun arguments ↦ do
      let filter ← filterArgument toBson arguments
      return op arguments filter) arguments = .ok call) : call.op.writes = false := by
  apply not_writes_of_collectionCall _ h
  intro op hop
  cases hfilter : filterArgument toBson arguments <;>
    simp only [hfilter, bind, Except.bind, pure, Except.pure] at hop
  · cases hop
  · rw [← Except.ok.inj hop]
    exact hreads arguments _

theorem not_writes_of_executeFind {arguments : Json} {call : DriverCall}
    (h : executeFind toBson arguments = .ok call) : call.op.writes = false :=
  not_writes_of_filterCall (fun _ _ ↦ rfl) h

theorem not_writes_of_executeFindOne {arguments : Json} {call : DriverCall}
    (h : executeFindOne toBson arguments = .ok call) : call.op.writes = false :=
  not_writes_of_filterCall (fun _ _ ↦ rfl) h

theorem not_writes_of_sampleCall {arguments : Json} {call : DriverCall}
    (h : sampleCall arguments = .ok call) : call.op.writes = false := by
  apply not_writes_of_collectionCall _ h
  intro op hop
  rw [← Except.ok.inj hop]
  rfl

theorem not_writes_of_executeListCollections {arguments : Json} {call : DriverCall}
    (h : executeListCollections arguments = .ok call) : call.op.writes = false := by
  unfold executeListCollections databaseCall at h
  cases hdatabase : getStr arguments "database" <;>
    simp only [hdatabase, bind, Except.bind, pure, Except.pure] at h
  · cases h
  · rw [← Except.ok.inj h]
    rfl

/-- An aggregation runs the pipeline in its arguments. -/
theorem exists_pipeline_of_executeAggregate {arguments : Json} {call : DriverCall}
    (h : executeAggregate toBson arguments = .ok call) : ∃ pipeline,
      requiredField (jsonToDocuments toBson) arguments "pipeline" = .ok pipeline ∧
        call.op = .aggregate pipeline := by
  obtain ⟨op, hop, hcall⟩ := exists_op_of_collectionCall h
  cases hpipeline : requiredField (jsonToDocuments toBson) arguments "pipeline" <;>
    simp only [hpipeline, bind, Except.bind, pure, Except.pure] at hop
  · cases hop
  · exact ⟨_, rfl, hcall.trans (Except.ok.inj hop).symm⟩

/-- Of the tools that do not write anyway, only the aggregation can write. -/
theorem not_writes_of_databaseTools {name : String} {tool : Json → Except String DriverCall}
    {arguments : Json} {call : DriverCall} (hname : name ∉ directWrites)
    (haggregate : name ≠ "aggregate") (htool : (databaseTools toBson).lookup name = some tool)
    (h : tool arguments = .ok call) : call.op.writes = false := by
  have hmem : (name, tool) ∈ databaseTools toBson := by
    obtain ⟨front, back, heq, -⟩ := List.lookup_eq_some_iff.mp htool
    rw [heq]
    exact List.mem_append_right _ List.mem_cons_self
  simp only [databaseTools, List.mem_cons, Prod.mk.injEq, List.not_mem_nil, or_false] at hmem
  rcases hmem with ⟨rfl, rfl⟩ | ⟨rfl, rfl⟩ | ⟨rfl, rfl⟩ | ⟨rfl, rfl⟩ | ⟨rfl, rfl⟩ | ⟨rfl, rfl⟩ |
    ⟨rfl, rfl⟩ | ⟨rfl, rfl⟩ | ⟨rfl, rfl⟩ | ⟨rfl, rfl⟩ | ⟨rfl, rfl⟩ | ⟨rfl, rfl⟩ | ⟨rfl, rfl⟩ |
    ⟨rfl, rfl⟩ | ⟨rfl, rfl⟩ | ⟨rfl, rfl⟩
  -- the tools that write and the aggregation are excluded by their names
  all_goals first
    | exact absurd (by decide) hname
    | exact absurd rfl haggregate
    | skip
  · exact not_writes_of_executeFind h
  · exact not_writes_of_executeFindOne h
  · rw [← Except.ok.inj h]
    rfl
  · exact not_writes_of_executeListCollections h
  · exact not_writes_of_sampleCall h
  · exact not_writes_of_sampleCall h

end MongoCore.Mcp
