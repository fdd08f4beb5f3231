import MongoCore.Library.TransitionSystem
import MongoCore.Mcp.DatabaseTools

/-!
# Tool calls in read-only mode

The handler with all its tools: those that make one call to the database, those that translate a
question, those that wait for embeddings, and those that start work in the background.  Calls of
tools can overlap, and a pipeline runs its operations concurrently.  The model records the calls
that reach the database.

The environment chooses the requests, what a file contains and when a watched one is ready, the
answers of the language model and of the service for embeddings, and which task is next.  Looking a
query up in the cache only reads, and is not recorded.
-/

namespace MongoCore.Mcp.ReadOnly

open MongoCore.Data MongoCore.Compiled

/-! ## Arguments -/

/-- Which file is ingested, and where its rows go. -/
structure IngestOptions where
  filePath : String
  database : String
  collection : String

/-- Which directory is watched, and where the rows of its files go. -/
structure WatchConfig where
  path : String
  database : String
  collection : String

structure EmbedRequest where
  documents : List Json
  database : String
  collection : String

structure SearchRequest where
  database : String
  collection : String
  limit : ℤ
  indexName : String
  path : String

def ingestOptions (arguments : Json) : Except String IngestOptions := do
  let filePath ← getStr arguments "file_path"
  let database ← getStr arguments "database"
  let collection ← getStr arguments "collection"
  return ⟨filePath, database, collection⟩

def watchConfig (arguments : Json) : Except String WatchConfig := do
  let path ← getStr arguments "path"
  let database ← getStr arguments "database"
  let collection ← getStr arguments "collection"
  return ⟨path, database, collection⟩

def embedRequest (arguments : Json) : Except String EmbedRequest :=
  match (arguments.get? "documents").bind Json.asArray? with
  | none => .error "Missing required field: documents (must be an array)"
  | some documents => do
      let database ← getStr arguments "database"
      let collection ← getStr arguments "collection"
      let embedField ← getStr arguments "embed_field"
      if (documents.filterMap fun document ↦ strField document embedField).isEmpty then
        .error s!"No documents contain text in field '{embedField}'"
      else .ok ⟨documents, database, collection⟩

def searchRequest (arguments : Json) : Except String SearchRequest := do
  let _ ← getStr arguments "query"
  let database ← getStr arguments "database"
  let collection ← getStr arguments "collection"
  return {
    database := database
    collection := collection
    limit := ((arguments.get? "limit").bind Json.asI64?).getD 10
    indexName := (strField arguments "index_name").getD "vector_index"
    path := (strField arguments "path").getD "_embedding" }

/-! ## Calls -/

def setMember (document : Document) (key : String) (value : Bson) : Document :=
  if document.any fun member ↦ member.1 = key then
    document.map fun member ↦ if member.1 = key then (key, value) else member
  else document ++ [(key, value)]

def embeddedDocuments {Regex : Type} (crates : Crates Regex) (documents : List Json)
    (embeddings : List (List UInt64)) : Except String (List Document) :=
  documents.zipIdx.mapM fun (value, i) ↦
    match crates.toDocument value with
    | .error reason => .error s!"Invalid document at index {i}: {reason}"
    | .ok document =>
        match embeddings[i]? with
        | some embedding =>
            .ok (setMember document "_embedding" (.array (embedding.map Bson.double)))
        | none => .ok document

/-- The search for the documents whose embeddings are near to a vector. -/
def vectorSearch (request : SearchRequest) (vector : List UInt64) : DriverCall :=
  ⟨request.database, request.collection, .aggregate [
    [("$vectorSearch", .document [
      ("index", .string request.indexName),
      ("path", .string request.path),
      ("queryVector", .array (vector.map Bson.double)),
      ("numCandidates", .int64 (Int.bmod (request.limit * 10) (2 ^ 64))),
      ("limit", .int64 request.limit)])],
    [("$addFields", .document [
      ("score", .document [("$meta", .string "vectorSearchScore")])])]]⟩

def sampleCalls (question : Question) : List DriverCall :=
  match question.tool with
  | .ask => [⟨question.database, question.collection,
      .find [] ⟨some 1, none, none, none, none⟩⟩]
  | .explainQuery => []

def queryCalls (question : Question) (mql : CompiledMql) : List DriverCall :=
  match question.tool, mql with
  | .ask, .find filter _ => [⟨question.database, question.collection,
      .find filter ⟨some maxFindLimit, none, none, none, none⟩⟩]
  | .ask, .aggregate pipeline => [⟨question.database, question.collection, .aggregate pipeline⟩]
  | _, _ => []

def systemDatabase : String := "__mongocore"

def IngestOptions.makes (options : IngestOptions) (call : DriverCall) : Bool :=
  let own := call.database = options.database && call.collection = options.collection
  match call.op with
  | .find _ _ | .insertMany _ | .replaceOne _ _ _ => own
  | .updateOne _ _ =>
      call.database = systemDatabase && call.collection = "__mongocore.ingestion_jobs"
  | .insertOne _ => call.database = systemDatabase && call.collection = "__mongocore.dead_letter"
  | _ => false

/-! ## States -/

/-- What a tool call, or the ingestion of a watched file, waits for. -/
inductive Task where
  | running (name : String) (arguments : Json)
  | looking (question : Question)
  | asking (question : Question)
  | transacting (arguments : Json)
  | opening (options : IngestOptions)
  | recording (options : IngestOptions)
  | starting (config : WatchConfig)
  | embedding (request : EmbedRequest)
  | searching (request : SearchRequest)
  | done

/-- What does not change while the handler runs.  A query has no stored document if the translator
has no cache in the database, or if the query cannot be written as a document. -/
structure Server (Regex : Type) where
  crates : Crates Regex
  toBson : Json → Except String Bson
  storedDocument : CompiledQuery → Option Document
  safety : SafetyConfig
  hasProvider : Bool
  hasIngestion : Bool
  hasWatcher : Bool
  hasVoyage : Bool

structure State (Regex : Type) where
  tasks : List Task
  jobs : List IngestOptions
  watches : List (String × WatchConfig)
  translator : Option (CompiledQueryTranslator Regex)
  calls : List DriverCall

inductive Event where
  | request (params : Option Json)
  | call (i : ℕ)
  | look (i : ℕ)
  | answer (i : ℕ) (response : Except LlmError String)
  | transact (i : ℕ) (call : DriverCall)
  | opened (i : ℕ) (record : Except String Document)
  | recorded (i : ℕ) (ok : Bool)
  | started (i : ℕ) (watch : Except String String)
  | embedded (i : ℕ) (embeddings : Except String (List (List UInt64)))
  | ready (watch path : String)
  | background (j : ℕ) (call : DriverCall)
  | cacheChange (cache : String → Option CompiledQuery)

variable {Regex : Type}

namespace State

/-- The handler before the first request. -/
def initial (translator : Option (CompiledQueryTranslator Regex)) : State Regex where
  tasks := []
  jobs := []
  watches := []
  translator := translator
  calls := []

def replace (state : State Regex) (i : ℕ) (others : List Task) : State Regex :=
  { state with tasks := splice state.tasks i others }

def perform (state : State Regex) (calls : List DriverCall) : State Regex :=
  { state with calls := state.calls ++ calls }

end State

/-! ## Tools -/

namespace Server

variable (server : Server Regex)

/-- A request calls a tool, if it is allowed. -/
def handleToolsCall (state : State Regex) (params : Option Json) : State Regex :=
  match toolName params with
  | none => state
  | some name =>
      match server.safety.checkToolAllowed name with
      | .error _ => state
      | .ok () => { state with tasks := state.tasks ++ [.running name (toolArguments params)] }

/-- The tasks of a tool that waits for something else than one call to the database.  Other tools
answer at once. -/
def startTool (name : String) (arguments : Json) : List Task :=
  if name = "pipeline" then
    match pipelineOperations server.safety arguments with
    | .error _ => [.done]
    | .ok operations => operations.map fun operation ↦ .running (operationTool operation) operation
  else if name = "transaction_pipeline" then
    match server.safety.checkToolAllowed name with
    | .error _ => [.done]
    | .ok () => [.transacting arguments]
  else if name = "ingest" then
    match ingestOptions arguments with
    | .ok options => if server.hasIngestion then [.opening options] else [.done]
    | .error _ => [.done]
  else if name = "watch_directory" then
    match watchConfig arguments with
    | .ok config => if server.hasWatcher then [.starting config] else [.done]
    | .error _ => [.done]
  else if name = "embed_and_store" then
    match embedRequest arguments with
    | .ok request => if server.hasVoyage then [.embedding request] else [.done]
    | .error _ => [.done]
  else if name = "semantic_search" then
    match searchRequest arguments with
    | .ok request => if server.hasVoyage then [.searching request] else [.done]
    | .error _ => [.done]
  else [.done]

def stopWatch (state : State Regex) (arguments : Json) : State Regex :=
  match getStr arguments "watch_id" with
  | .ok id => { state with watches := state.watches.eraseP fun watch ↦ watch.1 = id }
  | .error _ => state

def executeTool (state : State Regex) (i : ℕ) (name : String) (arguments : Json) : State Regex :=
  match (databaseTools server.toBson).lookup name with
  | some tool =>
      match tool arguments with
      | .ok call => (state.perform [call]).replace i [.done]
      | .error _ => state.replace i [.done]
  | none =>
      match questionTool name with
      | some tool =>
          match questionOf tool arguments, state.translator with
          | .ok question, some _ => (state.perform (sampleCalls question)).replace i [.looking question]
          | _, _ => state.replace i [.done]
      | none =>
          if name = "stop_watch" then (stopWatch state arguments).replace i [.done]
          else state.replace i (server.startTool name arguments)

/-! ### Questions -/

def storeCalls (query : CompiledQuery) : List DriverCall :=
  match server.storedDocument query with
  | some document => [⟨systemDatabase, "compiled_queries",
      .replaceOne [("hash", .string query.hash)] document true⟩]
  | none => []

def translated (state : State Regex) (i : ℕ) (question : Question)
    (result : Except TranslateError (CompiledQuery × CompiledQueryTranslator Regex)) :
    State Regex :=
  match result with
  | .error _ => state.replace i [.done]
  | .ok (query, translator) =>
      (State.perform { state with translator := some translator }
        (server.storeCalls query ++ queryCalls question query.mql)).replace i [.done]

/-- Look for a query in the cache and among the templates, else ask the provider. -/
def look (state : State Regex) (translator : CompiledQueryTranslator Regex) (i : ℕ)
    (question : Question) : State Regex :=
  match translator.cache (question.key server.crates) with
  | some cached => (state.perform (queryCalls question cached.mql)).replace i [.done]
  | none =>
      match tryMatch server.crates translator.templates question.text question.database
        question.collection with
      | some found => server.translated state i question (translator.translateMatch server.crates
          found question.text question.database question.collection)
      | none =>
          if server.hasProvider then state.replace i [.asking question]
          else state.replace i [.done]

def complete (state : State Regex) (translator : CompiledQueryTranslator Regex) (i : ℕ)
    (question : Question) (response : Except LlmError String) : State Regex :=
  match response with
  | .error error => server.translated state i question (.error (.llm error))
  | .ok text => server.translated state i question (translator.translateResponse server.crates text
      question.text question.database question.collection)

/-! ### Embeddings -/

def storeEmbedded (state : State Regex) (i : ℕ) (request : EmbedRequest)
    (embeddings : List (List UInt64)) : State Regex :=
  match embeddedDocuments server.crates request.documents embeddings with
  | .error _ => state.replace i [.done]
  | .ok documents =>
      (state.perform [⟨request.database, request.collection, .insertMany documents⟩]).replace i
        [.done]

/-- Search with the first embedding. -/
def search (state : State Regex) (i : ℕ) (request : SearchRequest)
    (embeddings : List (List UInt64)) : State Regex :=
  match embeddings with
  | [] => state.replace i [.done]
  | vector :: _ => (state.perform [vectorSearch request vector]).replace i [.done]

/-! ## Steps -/

/-- One step of the handler, of a task, or of the work in the background. -/
def step (state : State Regex) : Event → Option (State Regex)
  | .request params => some (server.handleToolsCall state params)
  | .call i =>
      match state.tasks[i]? with
      | some (.running name arguments) => some (server.executeTool state i name arguments)
      | _ => none
  | .look i =>
      match state.tasks[i]?, state.translator with
      | some (.looking question), some translator => some (server.look state translator i question)
      | _, _ => none
  | .answer i response =>
      match state.tasks[i]?, state.translator with
      | some (.asking question), some translator =>
          some (server.complete state translator i question response)
      | _, _ => none
  | .transact i call =>
      match state.tasks[i]? with
      | some (.transacting _) => some (state.perform [call])
      | _ => none
  | .opened i record =>
      match state.tasks[i]? with
      | some (.opening options) =>
          match record with
          | .error _ => some (state.replace i [.done])
          | .ok document =>
              some ((state.perform [⟨systemDatabase, "__mongocore.ingestion_jobs",
                .insertOne document⟩]).replace i [.recording options])
      | _ => none
  | .recorded i ok =>
      match state.tasks[i]? with
      | some (.recording options) =>
          if ok then some (State.replace { state with jobs := state.jobs ++ [options] } i [.done])
          else some (state.replace i [.done])
      | _ => none
  | .started i watch =>
      match state.tasks[i]? with
      | some (.starting config) =>
          match watch with
          | .error _ => some (state.replace i [.done])
          | .ok id =>
              some (State.replace { state with watches := state.watches ++ [(id, config)] } i
                [.done])
      | _ => none
  | .embedded i embeddings =>
      match state.tasks[i]?, embeddings with
      | some (.embedding request), .ok embeddings =>
          some (server.storeEmbedded state i request embeddings)
      | some (.searching request), .ok embeddings => some (search state i request embeddings)
      | some (.embedding _), .error _ => some (state.replace i [.done])
      | some (.searching _), .error _ => some (state.replace i [.done])
      | _, _ => none
  | .ready watch path =>
      (state.watches.lookup watch).map fun config ↦ {
        state with
        tasks := state.tasks ++ [.opening ⟨path, config.database, config.collection⟩] }
  | .background j call =>
      match state.jobs[j]? with
      | some options => if options.makes call then some (state.perform [call]) else none
      | none => none
  | .cacheChange cache =>
      some { state with translator := state.translator.map fun translator ↦ { translator with cache } }

end Server

end MongoCore.Mcp.ReadOnly
