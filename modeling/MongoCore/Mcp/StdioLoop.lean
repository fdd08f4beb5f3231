import MongoCore.Library.TransitionSystem
import MongoCore.Mcp.Tools

/-!
# The stdio loop

One loop reads the lines of the host and writes the sampling requests of the translator.  It does
one at a time: while it handles a request of the host it neither reads a line nor takes a sampling
request from the channel.  The operations of a pipeline run concurrently, so a request that is
handled has a list of tasks.

The environment chooses the lines, the answers of the database and of the gateway, what expires
from the cache and what other processes put into it, which tools panic, and which of the ready
parties is next.
-/

namespace MongoCore.Mcp

open MongoCore.Data MongoCore.Compiled MongoCore.Operations.Placeholders

/-! ## Messages -/

structure JsonRpcRequest where
  jsonrpc : String
  method : String
  params : Option Json
  id : Option Json

/-- A request for a completion.  The answer goes to a slot that only its sender reads. -/
structure SamplingRequest where
  prompt : String
  system : Option String
  slot : ℕ

/-- What the loop writes.  The contents of results are not part of the model. -/
inductive Output where
  | error (id : Option Json) (code : ℤ) (message : String)
  | result (id : Option Json)
  | createMessage (id prompt : String) (maxTokens : ℕ) (systemPrompt : Option String)

/-- The list of texts below a heading, if there are any. -/
def promptSection (heading : String) (texts : List String) : String :=
  if texts.isEmpty then ""
  else heading ++ "\n" ++ String.join (texts.map fun text ↦ s!"  {text}\n") ++ "\n"

def buildTranslationPrompt (intent database collection : String) (context : TranslationContext) :
    String :=
  "Translate this natural language query into a MongoDB query.\n\n" ++
  s!"Database: {database}\nCollection: {collection}\nIntent: \"{intent}\"\n\n" ++
  (match context.schemaHint with
    | some schema => s!"Schema: {schema}\n\n"
    | none => "") ++
  promptSection "Sample documents:" context.sampleDocuments ++
  promptSection "Available indexes:" context.availableIndexes ++
  "Respond with ONLY valid JSON containing:\n" ++
  "1. \"type\": \"find\" or \"aggregate\"\n" ++
  "2. \"method\": The best execution method:\n" ++
  "- \"filter\" — structured queries with field-based conditions\n" ++
  "- \"aggregate\" — group-by, counts, averages, joins, top-N\n" ++
  "- \"vector_search\" — semantic/meaning-based queries\n" ++
  "- \"fulltext\" — keyword text search\n" ++
  "- \"geo\" — proximity/location queries\n" ++
  "3. The query (\"filter\" for find/geo, \"pipeline\" for aggregate, " ++
  "\"search_query\" for search methods)\n" ++
  "4. \"template\" (optional): parameterized version for cache reuse:\n" ++
  "- \"intent_pattern\": the query with variable parts as \x7b\x7bparam_name\x7d\x7d\n" ++
  "- \"parameters\": [\x7b\"name\": \"...\", \"value\": ..., " ++
  "\"param_type\": \"String\"|\"Number\"|\"Boolean\"\x7d]\n" ++
  "- \"mql_pattern\": the MQL with \x7b\x7bparam_name\x7d\x7d placeholders\n\n" ++
  "No explanation, no markdown. Only valid JSON."

/-- What a line answers to a sampling request. -/
def samplingResult (value : Json) : Except LlmError String :=
  match value.get? "result" with
  | some result =>
      let content := (result.get? "content").bind fun content ↦ strField content "text"
      .ok ((content.or (strField result "text")).getD "")
  | none =>
      match value.get? "error" with
      | some error =>
          let message := (strField error "message").getD "Unknown error"
          .error (.apiError s!"Sampling error: {message}")
      | none => .error (.apiError "Invalid sampling response")

/-! ## States -/

/-- What a part of a request waits for. -/
inductive Task where
  | running (name : String) (arguments : Json)
  | looking (question : Question)
  | asking (question : Question)
  | sending (question : Question) (request : SamplingRequest)
  | awaiting (question : Question) (slot : ℕ)
  | reading
  | finishing
  | done

inductive LoopState where
  | selecting
  | handling (id : Option Json) (failure : Option (ℤ × String)) (tasks : List Task)
  | stopped

/-- Who completes a question that is neither cached nor matches a template. -/
inductive Provider where
  | gateway
  | sampling
  deriving DecidableEq

structure Server (Regex : Type) where
  crates : Crates Regex
  readRequest : Json → Except String JsonRpcRequest
  hasSkill : String → Bool
  safety : SafetyConfig
  provider : Option Provider

/-- The translator's own provider is not used here: to ask it is a step of the task. -/
structure State (Regex : Type) where
  loop : LoopState
  channel : List SamplingRequest
  pending : List (String × ℕ)
  samplingIdCounter : ℕ
  slots : ℕ
  answers : List (ℕ × Except LlmError String)
  translator : Option (CompiledQueryTranslator Regex)
  stdout : List Output

/-- The number of requests that the channel has room for. -/
def channelCapacity : ℕ := 32

inductive Event where
  | line (text : String)
  | endOfInput
  | recv
  | call (i : ℕ)
  | look (i : ℕ) (sampleDocuments : List String)
  | answer (i : ℕ) (response : Except LlmError String)
  | send (i : ℕ)
  | receive (i : ℕ)
  | timeout (i : ℕ)
  | read (i : ℕ) (error : Option String)
  | finish (i : ℕ)
  | panic (i : ℕ)
  | respond
  | cacheChange (cache : String → Option CompiledQuery)

variable {Regex : Type}

namespace State

/-- The loop before the first line. -/
def initial (translator : Option (CompiledQueryTranslator Regex)) : State Regex where
  loop := .selecting
  channel := []
  pending := []
  samplingIdCounter := 0
  slots := 0
  answers := []
  translator := translator
  stdout := []

def tasks (state : State Regex) : List Task :=
  match state.loop with
  | .handling _ _ tasks => tasks
  | _ => []

def write (state : State Regex) (output : Output) : State Regex :=
  { state with stdout := state.stdout ++ [output] }

def replace (state : State Regex) (i : ℕ) (others : List Task) : State Regex :=
  match state.loop with
  | .handling id failure tasks =>
      { state with loop := .handling id failure (splice tasks i others) }
  | _ => state

@[simp]
theorem channel_replace (state : State Regex) (i : ℕ) (others : List Task) :
    (state.replace i others).channel = state.channel := by
  unfold replace
  cases state.loop <;> rfl

@[simp]
theorem stdout_replace (state : State Regex) (i : ℕ) (others : List Task) :
    (state.replace i others).stdout = state.stdout := by
  unfold replace
  cases state.loop <;> rfl

theorem mem_tasks_replace {state : State Regex} {i : ℕ} {others : List Task} {task : Task}
    (h : task ∈ (state.replace i others).tasks) : task ∈ others ∨ task ∈ state.tasks := by
  unfold replace at h
  unfold tasks at h ⊢
  cases hloop : state.loop with
  | selecting => simp [hloop] at h
  | stopped => simp [hloop] at h
  | handling id failure tasks =>
    exact mem_splice (by simpa [hloop] using h)

/-- The tasks that take the place of a task are among the tasks. -/
theorem mem_tasks_replace_of_mem {state : State Regex} {i : ℕ} {task other : Task}
    {others : List Task} (h : state.tasks[i]? = some task) (hother : other ∈ others) :
    other ∈ (state.replace i others).tasks := by
  unfold replace
  unfold tasks at h ⊢
  cases hloop : state.loop with
  | selecting => simp [hloop] at h
  | stopped => simp [hloop] at h
  | handling id failure tasks => exact mem_splice_of_mem i hother

end State

/-! ## Requests of the host -/

namespace Server

variable (server : Server Regex)

def handleRequest (request : JsonRpcRequest) : LoopState :=
  if ["initialize", "tools/list", "resources/list", "prompts/list"].contains request.method then
    .handling request.id none []
  else if request.method = "tools/call" then
    match toolName request.params with
    | none => .handling request.id (some (-32602, "Missing tool name in params")) []
    | some name =>
        match server.safety.checkToolAllowed name with
        | .error _ => .handling request.id none []
        | .ok () => .handling request.id none [.running name (toolArguments request.params)]
  else if request.method = "resources/read" then .handling request.id none [.reading]
  else if request.method = "prompts/get" then
    match toolName request.params with
    | none => .handling request.id (some (-32602, "Missing prompt name")) []
    | some name =>
        if server.hasSkill name then .handling request.id none []
        else .handling request.id (some (-32602, s!"Skill not found: {name}")) []
  else .handling request.id (some (-32601, "Method not found")) []

/-- The pending sampling request that a line answers, with its slot. -/
def answered (state : State Regex) (value : Json) : Option (String × ℕ) :=
  if (value.get? "result").isSome || (value.get? "error").isSome then
    (strField value "id").bind fun id ↦ (state.pending.lookup id).map fun slot ↦ (id, slot)
  else none

def readLine (state : State Regex) (text : String) : State Regex :=
  let line := trim text.toList
  if line.isEmpty then state
  else
    match server.crates.fromStr (String.ofList line) with
    | .error reason => state.write (.error none (-32700) s!"Parse error: {reason}")
    | .ok value =>
        match answered state value with
        | some (id, slot) =>
            { state with
              pending := state.pending.filter fun entry ↦ entry.1 ≠ id
              answers := state.answers ++ [(slot, samplingResult value)] }
        | none =>
            match server.readRequest value with
            | .error reason => state.write (.error none (-32700) s!"Parse error: {reason}")
            | .ok request => { state with loop := server.handleRequest request }

/-! ## Tasks -/

def startTool (translator : Option (CompiledQueryTranslator Regex)) (name : String)
    (arguments : Json) : List Task :=
  if name = "pipeline" then
    match pipelineOperations server.safety arguments with
    | .error _ => [.done]
    | .ok operations => operations.map fun operation ↦ .running (operationTool operation) operation
  else
    match questionTool name with
    | none => [.finishing]
    | some tool =>
        match questionOf tool arguments, translator with
        | .ok question, some _ => [.looking question]
        | _, _ => [.done]

/-- What the language model is told about the collection of a question. -/
def context (question : Question) (sampleDocuments : List String) : TranslationContext :=
  match question.tool with
  | .ask => ⟨sampleDocuments, [], none⟩
  | .explainQuery => ⟨[], [], none⟩

/-- The sampling request for a question, with a new slot. -/
def samplingRequest (state : State Regex) (question : Question) (sampleDocuments : List String) :
    SamplingRequest where
  prompt := buildTranslationPrompt question.text question.database question.collection
    (context question sampleDocuments)
  system := some "You are a MongoDB query translator. Respond with valid JSON only."
  slot := state.slots

/-- Send a sampling request for a question, or wait for room in the channel. -/
def sample (state : State Regex) (i : ℕ) (question : Question) (request : SamplingRequest) :
    State Regex :=
  if state.channel.length < channelCapacity then
    State.replace { state with channel := state.channel ++ [request], slots := state.slots + 1 } i
      [.awaiting question request.slot]
  else State.replace { state with slots := state.slots + 1 } i [.sending question request]

/-- The task goes on with a translated query, or ends with an error. -/
def translated (state : State Regex) (i : ℕ)
    (result : Except TranslateError (CompiledQuery × CompiledQueryTranslator Regex)) :
    State Regex :=
  match result with
  | .ok (_, translator) => State.replace { state with translator := some translator } i [.finishing]
  | .error _ => state.replace i [.done]

/-- Look for a query in the cache and among the templates, else ask the provider. -/
def look (state : State Regex) (translator : CompiledQueryTranslator Regex) (i : ℕ)
    (question : Question) (sampleDocuments : List String) : State Regex :=
  match translator.cache (question.key server.crates) with
  | some _ => state.replace i [.finishing]
  | none =>
      match tryMatch server.crates translator.templates question.text question.database
        question.collection with
      | some found =>
          translated state i (translator.translateMatch server.crates found question.text
            question.database question.collection)
      | none =>
          match server.provider with
          | none => state.replace i [.done]
          | some .gateway => state.replace i [.asking question]
          | some .sampling =>
              sample state i question (samplingRequest state question sampleDocuments)

def complete (state : State Regex) (translator : CompiledQueryTranslator Regex) (i : ℕ)
    (question : Question) (response : Except LlmError String) : State Regex :=
  match response with
  | .error error => translated state i (.error (.llm error))
  | .ok text =>
      translated state i (translator.translateResponse server.crates text question.text
        question.database question.collection)

/-! ## Steps -/

def step (state : State Regex) : Event → Option (State Regex)
  | .line text =>
      match state.loop with
      | .selecting => some (server.readLine state text)
      | _ => none
  | .endOfInput =>
      match state.loop with
      | .selecting => some {
          state with
          loop := .stopped
          channel := []
          pending := []
          answers := state.answers ++ state.pending.map fun entry ↦
            (entry.2, .error (.apiError "Stdio transport shutting down")) }
      | _ => none
  | .recv =>
      match state.loop, state.channel with
      | .selecting, request :: rest =>
          let id := s!"sampling-{state.samplingIdCounter + 1}"
          some {
            state with
            channel := rest
            pending := (id, request.slot) :: state.pending
            samplingIdCounter := state.samplingIdCounter + 1
            stdout := state.stdout ++ [.createMessage id request.prompt 2048 request.system] }
      | _, _ => none
  | .call i =>
      match state.tasks[i]? with
      | some (.running name arguments) =>
          some (state.replace i (server.startTool state.translator name arguments))
      | _ => none
  | .look i sampleDocuments =>
      match state.tasks[i]?, state.translator with
      | some (.looking question), some translator =>
          some (server.look state translator i question sampleDocuments)
      | _, _ => none
  | .answer i response =>
      match state.tasks[i]?, state.translator with
      | some (.asking question), some translator =>
          some (server.complete state translator i question response)
      | _, _ => none
  | .send i =>
      match state.tasks[i]? with
      | some (.sending question request) =>
          if state.channel.length < channelCapacity then
            some (State.replace { state with channel := state.channel ++ [request] } i
              [.awaiting question request.slot])
          else none
      | _ => none
  | .receive i =>
      match state.tasks[i]?, state.translator with
      | some (.awaiting question slot), some translator =>
          (state.answers.lookup slot).map fun response ↦
            server.complete state translator i question response
      | _, _ => none
  | .timeout i =>
      match state.tasks[i]? with
      | some (.awaiting _ _) => some (state.replace i [.done])
      | _ => none
  | .read i error =>
      match state.tasks[i]?, state.loop with
      | some .reading, .handling id _ tasks => some {
          state with
          loop := .handling id (error.map fun text ↦ (-32602, text)) (tasks.set i .done) }
      | _, _ => none
  | .finish i =>
      match state.tasks[i]? with
      | some .finishing => some (state.replace i [.done])
      | _ => none
  | .panic i =>
      -- the loop runs on the same task, and ends with it
      match state.tasks[i]? with
      | some .done => none
      | some _ => some { state with loop := .stopped, channel := [], pending := [] }
      | none => none
  | .respond =>
      match state.loop with
      | .handling id failure tasks =>
          if tasks.all fun task ↦ task matches .done then
            let output := match failure with
              | some (code, message) => Output.error id code message
              | none => Output.result id
            some { state.write output with loop := .selecting }
          else none
      | _ => none
  | .cacheChange cache =>
      some { state with translator := state.translator.map fun translator ↦ { translator with cache } }

end Server

end MongoCore.Mcp
