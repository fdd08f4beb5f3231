import MongoCore.Compiled.QuerySafety
import MongoCore.Mcp.ReadOnly

/-!
# What reaches the database in read-only mode

The lists of blocked tools stop the tools that write by one call, alone and in pipelines, and the
transaction pipeline.  Four gaps remain: an aggregation whose pipeline stores its result, a question
whose translation is cached in the database or executed as such an aggregation, an ingestion that a
tool or a watch starts, and the tool that stores documents with embeddings.

The main result says that a run in read-only mode keeps the database unchanged exactly if none of
its steps uses a gap.
-/

namespace MongoCore.Mcp.ReadOnly

open MongoCore.Data MongoCore.Compiled MongoCore.Library.TransitionSystem

variable {Regex : Type}

/-! ## Gaps -/

/-- No call that reached the database changes it. -/
def NothingWritten (state : State Regex) : Prop :=
  ∀ call ∈ state.calls, call.op.writes = false

def mqlStoresResult : CompiledMql → Bool
  | .aggregate pipeline => storesResult pipeline
  | _ => false

namespace Server

variable (server : Server Regex)

/-- The translation is cached in the database, or executed as an aggregation that stores its
result. -/
def TranslationWrites (question : Question) (query : CompiledQuery) : Prop :=
  (server.storedDocument query).isSome = true ∨
    (question.tool = .ask ∧ mqlStoresResult query.mql = true)

/-- A question finds a cached query that stores its result, or a template gives a translation that
writes. -/
def LookWrites (question : Question) (translator : CompiledQueryTranslator Regex) : Prop :=
  match translator.cache (question.key server.crates) with
  | some cached => question.tool = .ask ∧ mqlStoresResult cached.mql = true
  | none => ∃ found query next,
      tryMatch server.crates translator.templates question.text question.database
        question.collection = some found ∧
      translator.translateMatch server.crates found question.text question.database
        question.collection = .ok (query, next) ∧
      server.TranslationWrites question query

/-- The step uses one of the gaps of the lists of blocked tools. -/
def UsesGap (state : State Regex) : Event → Prop
  | .call i => ∃ arguments pipeline, state.tasks[i]? = some (.running "aggregate" arguments) ∧
      (strField arguments "database").isSome = true ∧
      (strField arguments "collection").isSome = true ∧
      requiredField (jsonToDocuments server.toBson) arguments "pipeline" = .ok pipeline ∧
      storesResult pipeline = true
  | .look i => ∃ question translator, state.tasks[i]? = some (.looking question) ∧
      state.translator = some translator ∧ server.LookWrites question translator
  | .answer i response => ∃ question translator text query next,
      state.tasks[i]? = some (.asking question) ∧ state.translator = some translator ∧
      response = .ok text ∧
      translator.translateResponse server.crates text question.text question.database
        question.collection = .ok (query, next) ∧
      server.TranslationWrites question query
  | .opened i record => ∃ options document, state.tasks[i]? = some (.opening options) ∧
      record = .ok document
  | .embedded i embeddings => ∃ request vectors documents,
      state.tasks[i]? = some (.embedding request) ∧ embeddings = .ok vectors ∧
      embeddedDocuments server.crates request.documents vectors = .ok documents
  | _ => False

end Server

/-! ## Calls that write -/

theorem not_writes_of_sampleCalls {question : Question} :
    ∀ call ∈ sampleCalls question, call.op.writes = false := by
  unfold sampleCalls
  cases question.tool <;> simp [DriverOp.writes]

/-- The execution of a query writes exactly if it is asked for and stores its result. -/
theorem exists_writes_queryCalls {question : Question} {mql : CompiledMql} :
    (∃ call ∈ queryCalls question mql, call.op.writes = true) ↔
      question.tool = .ask ∧ mqlStoresResult mql = true := by
  unfold queryCalls mqlStoresResult
  cases question.tool <;> cases mql <;> simp [DriverOp.writes]

theorem exists_writes_storeCalls {server : Server Regex} {query : CompiledQuery} :
    (∃ call ∈ server.storeCalls query, call.op.writes = true) ↔
      (server.storedDocument query).isSome = true := by
  unfold Server.storeCalls
  cases server.storedDocument query <;> simp [DriverOp.writes]

theorem exists_writes_translation {server : Server Regex} {question : Question}
    {query : CompiledQuery} :
    (∃ call ∈ server.storeCalls query ++ queryCalls question query.mql, call.op.writes = true) ↔
      server.TranslationWrites question query := by
  unfold Server.TranslationWrites
  rw [← exists_writes_storeCalls, ← exists_writes_queryCalls]
  simp only [List.mem_append, or_and_right, exists_or]

theorem not_writes_of_vectorSearch (request : SearchRequest) (vector : List UInt64) :
    (vectorSearch request vector).op.writes = false := rfl

/-! ## Clean runs -/

/-- The task can be waited for in read-only mode without a gap having been used. -/
def Task.Permitted : Task → Prop
  | .running name _ => name ∉ directWrites
  | .transacting _ | .recording _ => False
  | _ => True

/-- Nothing has been written, and nothing that writes is under way. -/
structure Clean (state : State Regex) : Prop where
  calls : NothingWritten state
  jobs : state.jobs = []
  tasks : ∀ task ∈ state.tasks, task.Permitted

namespace Clean

variable {server : Server Regex} {state : State Regex}

theorem initial (translator : Option (CompiledQueryTranslator Regex)) :
    Clean (State.initial translator) where
  calls := fun _ hmem ↦ absurd hmem List.not_mem_nil
  jobs := rfl
  tasks := fun _ hmem ↦ absurd hmem List.not_mem_nil

theorem replace (h : Clean state) (i : ℕ) {others : List Task}
    (hothers : ∀ task ∈ others, task.Permitted) : Clean (state.replace i others) where
  calls := h.calls
  jobs := h.jobs
  tasks := by
    intro task hmem
    apply (mem_splice hmem).elim
    · exact hothers task
    · exact h.tasks task

/-- A task is replaced by one that is permitted. -/
theorem become (h : Clean state) (i : ℕ) {task : Task} (htask : task.Permitted) :
    Clean (state.replace i [task]) :=
  h.replace i fun _ hmem ↦ List.mem_singleton.mp hmem ▸ htask

theorem finish (h : Clean state) (i : ℕ) : Clean (state.replace i [.done]) :=
  h.become i trivial

/-- A new task is permitted. -/
theorem add (h : Clean state) {task : Task} (htask : task.Permitted) :
    Clean { state with tasks := state.tasks ++ [task] } where
  calls := h.calls
  jobs := h.jobs
  tasks := by
    intro other hmem
    apply (List.mem_append.mp hmem).elim
    · exact h.tasks other
    · intro hnew
      exact List.mem_singleton.mp hnew ▸ htask

theorem perform (h : Clean state) {calls : List DriverCall}
    (hcalls : ∀ call ∈ calls, call.op.writes = false) : Clean (state.perform calls) where
  calls := by
    intro call hmem
    apply (List.mem_append.mp hmem).elim
    · exact h.calls call
    · exact hcalls call
  jobs := h.jobs
  tasks := h.tasks

/-- Calls of which none writes. -/
theorem perform_of_not (h : Clean state) {calls : List DriverCall}
    (hcalls : ¬ ∃ call ∈ calls, call.op.writes = true) : Clean (state.perform calls) := by
  apply h.perform
  intro call hmem
  rw [← Bool.not_eq_true]
  exact fun hwrites ↦ hcalls ⟨call, hmem, hwrites⟩

/-! ### Tools -/

theorem handleToolsCall (h : Clean state) (hreadOnly : server.safety.readOnly = true)
    (params : Option Json) : Clean (server.handleToolsCall state params) := by
  unfold Server.handleToolsCall
  cases hname : toolName params with
  | none => exact h
  | some name =>
    cases hallowed : server.safety.checkToolAllowed name with
    | error reason => simpa only [hallowed] using h
    | ok _ =>
      simp only [hallowed]
      apply h.add
      intro hwrites
      apply SafetyConfig.checkToolAllowed_eq_ok.mp hallowed hreadOnly
      exact directWrites_subset_writeTools hwrites

/-- The operations of an accepted pipeline do not write directly. -/
theorem not_mem_directWrites_of_pipelineOperations {safety : SafetyConfig}
    (hreadOnly : safety.readOnly = true) {arguments : Json} {operations : List Json}
    (h : pipelineOperations safety arguments = .ok operations) :
    ∀ operation ∈ operations, operationTool operation ∉ directWrites := by
  have hallowed : safety.checkPipelineAllowed operations = .ok () := by
    unfold pipelineOperations at h
    split at h
    · cases h
    · split_ifs at h
      split at h
      · cases h
      · rename_i hallowed
        obtain rfl := Except.ok.inj h
        exact hallowed
  intro operation hmem hwrites
  unfold operationTool at hwrites
  cases hop : strField operation "op" with
  | none =>
    rw [hop] at hwrites
    exact absurd hwrites (by decide)
  | some op =>
    rw [hop] at hwrites
    apply SafetyConfig.checkPipelineAllowed_eq_ok.mp hallowed hreadOnly operation hmem op hop
    exact directWrites_subset_writeOps hwrites

theorem permitted_of_startTool (hreadOnly : server.safety.readOnly = true) {name : String}
    {arguments : Json} : ∀ task ∈ server.startTool name arguments, task.Permitted := by
  have hsingle : ∀ {task other : Task}, task ∈ [other] → other.Permitted → task.Permitted := by
    intro task other hmem hother
    exact List.mem_singleton.mp hmem ▸ hother
  intro task hmem
  unfold Server.startTool at hmem
  split_ifs at hmem with hpipeline htransaction
  · split at hmem
    · exact hsingle hmem trivial
    · rename_i operations hoperations
      obtain ⟨operation, hoperation, rfl⟩ := List.mem_map.mp hmem
      exact not_mem_directWrites_of_pipelineOperations hreadOnly hoperations operation hoperation
  · split at hmem
    · exact hsingle hmem trivial
    · rename_i hallowed
      have hblocked := SafetyConfig.checkToolAllowed_eq_ok.mp hallowed hreadOnly
      rw [htransaction] at hblocked
      exact absurd (by decide) hblocked
  all_goals first
    | exact hsingle hmem trivial
    | split at hmem <;> exact hsingle hmem trivial

theorem stopWatch (h : Clean state) (arguments : Json) : Clean (Server.stopWatch state arguments) := by
  unfold Server.stopWatch
  cases getStr arguments "watch_id" with
  | error reason => exact h
  | ok id => exact ⟨h.calls, h.jobs, h.tasks⟩

/-- A permitted tool keeps the run clean, unless it is an aggregation that stores its result. -/
theorem executeTool (h : Clean state) (hreadOnly : server.safety.readOnly = true) {i : ℕ}
    {name : String} {arguments : Json} (htask : state.tasks[i]? = some (.running name arguments))
    (hgap : ¬ server.UsesGap state (.call i)) : Clean (server.executeTool state i name arguments) := by
  have hname : name ∉ directWrites := h.tasks _ (List.mem_of_getElem? htask)
  unfold Server.executeTool
  cases htool : (databaseTools server.toBson).lookup name with
  | some tool =>
    cases hcall : tool arguments with
    | error reason => simpa only [hcall] using h.finish i
    | ok call =>
      simp only [hcall]
      apply finish
      apply h.perform
      intro other hmem
      rw [List.mem_singleton.mp hmem]
      by_cases haggregate : name = "aggregate"
      · subst haggregate
        have heq : tool = executeAggregate server.toBson := (Option.some.inj htool).symm
        rw [heq] at hcall
        obtain ⟨pipeline, hpipeline, hop⟩ := exists_pipeline_of_executeAggregate hcall
        obtain ⟨hdatabase, hcollection⟩ := names_of_collectionCall hcall
        rw [hop, ← Bool.not_eq_true]
        intro hstores
        exact hgap ⟨arguments, pipeline, htask, hdatabase, hcollection, hpipeline, hstores⟩
      · exact not_writes_of_databaseTools hname haggregate htool hcall
  | none =>
    cases hquestion : questionTool name with
    | some tool =>
      simp only
      split
      · exact (h.perform not_writes_of_sampleCalls).become i trivial
      · exact h.finish i
    | none =>
      simp only
      split_ifs
      · exact (h.stopWatch arguments).finish i
      · exact h.replace i (permitted_of_startTool hreadOnly)

/-! ### Questions and embeddings -/

theorem translated (h : Clean state) (i : ℕ) {question : Question}
    {result : Except TranslateError (CompiledQuery × CompiledQueryTranslator Regex)}
    (hwrites : ∀ query next, result = .ok (query, next) →
      ¬ server.TranslationWrites question query) :
    Clean (server.translated state i question result) := by
  unfold Server.translated
  cases result with
  | error error => exact h.finish i
  | ok pair =>
    have hnext : Clean { state with translator := some pair.2 } := ⟨h.calls, h.jobs, h.tasks⟩
    apply finish
    apply hnext.perform_of_not
    rw [exists_writes_translation]
    exact hwrites pair.1 pair.2 rfl

theorem look (h : Clean state) {translator : CompiledQueryTranslator Regex} (i : ℕ)
    {question : Question} (hwrites : ¬ server.LookWrites question translator) :
    Clean (server.look state translator i question) := by
  unfold Server.LookWrites at hwrites
  unfold Server.look
  cases hcache : translator.cache (question.key server.crates) with
  | some cached =>
    rw [hcache] at hwrites
    apply finish
    apply h.perform_of_not
    rw [exists_writes_queryCalls]
    exact hwrites
  | none =>
    rw [hcache] at hwrites
    cases hmatch : tryMatch server.crates translator.templates question.text question.database
        question.collection with
    | some found =>
      apply h.translated i
      intro query next hquery htranslation
      exact hwrites ⟨found, query, next, hmatch, hquery, htranslation⟩
    | none =>
      simp only
      split_ifs
      · exact h.become i trivial
      · exact h.finish i

theorem complete (h : Clean state) {translator : CompiledQueryTranslator Regex} (i : ℕ)
    {question : Question} {response : Except LlmError String}
    (hwrites : ∀ text query next, response = .ok text →
      translator.translateResponse server.crates text question.text question.database
        question.collection = .ok (query, next) → ¬ server.TranslationWrites question query) :
    Clean (server.complete state translator i question response) := by
  unfold Server.complete
  cases response with
  | error error =>
    apply h.translated i
    intro query next heq
    cases heq
  | ok text =>
    apply h.translated i
    exact fun query next ↦ hwrites text query next rfl

theorem search (h : Clean state) (i : ℕ) (request : SearchRequest)
    (embeddings : List (List UInt64)) : Clean (Server.search state i request embeddings) := by
  unfold Server.search
  cases embeddings with
  | nil => exact h.finish i
  | cons vector vectors =>
    apply finish
    apply h.perform
    intro call hmem
    rw [List.mem_singleton.mp hmem]
    exact not_writes_of_vectorSearch request vector

theorem storeEmbedded (h : Clean state) (i : ℕ) {request : EmbedRequest}
    {embeddings : List (List UInt64)}
    (hfails : ∀ documents,
      embeddedDocuments server.crates request.documents embeddings ≠ .ok documents) :
    Clean (server.storeEmbedded state i request embeddings) := by
  unfold Server.storeEmbedded
  cases hdocuments : embeddedDocuments server.crates request.documents embeddings with
  | error reason => exact h.finish i
  | ok documents => exact absurd hdocuments (hfails documents)

/-! ### Steps -/

/-- Every step in read-only mode that uses no gap keeps the run clean. -/
theorem step {next : State Regex} {event : Event} (hreadOnly : server.safety.readOnly = true)
    (h : Clean state) (hgap : ¬ server.UsesGap state event)
    (hstep : server.step state event = some next) : Clean next := by
  cases event with
  | request params => exact Option.some.inj hstep ▸ h.handleToolsCall hreadOnly params
  | call i =>
    simp only [Server.step] at hstep
    split at hstep
    · rename_i htask
      exact Option.some.inj hstep ▸ h.executeTool hreadOnly htask hgap
    · cases hstep
  | look i =>
    simp only [Server.step] at hstep
    split at hstep
    · rename_i question translator htask htranslator
      apply Option.some.inj hstep ▸ h.look i _
      exact fun hwrites ↦ hgap ⟨question, translator, htask, htranslator, hwrites⟩
    · cases hstep
  | answer i response =>
    simp only [Server.step] at hstep
    split at hstep
    · rename_i question translator htask htranslator
      apply Option.some.inj hstep ▸ h.complete i _
      intro text query after hresponse hquery hwrites
      exact hgap ⟨question, translator, text, query, after, htask, htranslator, hresponse, hquery,
        hwrites⟩
    · cases hstep
  | transact i call =>
    simp only [Server.step] at hstep
    split at hstep
    · rename_i htask
      exact absurd (h.tasks _ (List.mem_of_getElem? htask)) id
    · cases hstep
  | opened i record =>
    simp only [Server.step] at hstep
    split at hstep
    · rename_i options htask
      cases record with
      | error reason => exact Option.some.inj hstep ▸ h.finish i
      | ok document => exact absurd ⟨options, document, htask, rfl⟩ hgap
    · cases hstep
  | recorded i ok =>
    simp only [Server.step] at hstep
    split at hstep
    · rename_i htask
      exact absurd (h.tasks _ (List.mem_of_getElem? htask)) id
    · cases hstep
  | started i watch =>
    simp only [Server.step] at hstep
    split at hstep
    · cases watch with
      | error reason => exact Option.some.inj hstep ▸ h.finish i
      | ok id =>
        apply Option.some.inj hstep ▸ finish _ i
        exact ⟨h.calls, h.jobs, h.tasks⟩
    · cases hstep
  | embedded i embeddings =>
    simp only [Server.step] at hstep
    split at hstep
    · rename_i request vectors htask
      apply Option.some.inj hstep ▸ h.storeEmbedded i _
      exact fun documents hdocuments ↦
        hgap ⟨request, vectors, documents, htask, rfl, hdocuments⟩
    · exact Option.some.inj hstep ▸ h.search i _ _
    · exact Option.some.inj hstep ▸ h.finish i
    · exact Option.some.inj hstep ▸ h.finish i
    · cases hstep
  | ready watch path =>
    obtain ⟨config, -, rfl⟩ := Option.map_eq_some_iff.mp hstep
    exact h.add trivial
  | background j call =>
    simp [Server.step, h.jobs] at hstep
  | cacheChange cache => exact Option.some.inj hstep ▸ ⟨h.calls, h.jobs, h.tasks⟩

end Clean

/-! ## Gaps that are used -/

theorem not_nothingWritten_of_perform {state : State Regex} {calls : List DriverCall}
    (h : ∃ call ∈ calls, call.op.writes = true) (i : ℕ) (others : List Task) :
    ¬ NothingWritten ((state.perform calls).replace i others) := by
  intro hnothing
  obtain ⟨call, hmem, hwrites⟩ := h
  have hnot := hnothing call (List.mem_append_right _ hmem)
  rw [hwrites] at hnot
  cases hnot

theorem not_nothingWritten_of_translated {server : Server Regex} {state : State Regex}
    {question : Question} {query : CompiledQuery} (h : server.TranslationWrites question query)
    (i : ℕ) (next : CompiledQueryTranslator Regex) :
    ¬ NothingWritten (server.translated state i question (.ok (query, next))) :=
  not_nothingWritten_of_perform (exists_writes_translation.mpr h) i _

theorem not_nothingWritten_of_look {server : Server Regex} {state : State Regex}
    {question : Question} {translator : CompiledQueryTranslator Regex}
    (h : server.LookWrites question translator) (i : ℕ) :
    ¬ NothingWritten (server.look state translator i question) := by
  unfold Server.LookWrites at h
  unfold Server.look
  cases hcache : translator.cache (question.key server.crates) with
  | some cached =>
    rw [hcache] at h
    exact not_nothingWritten_of_perform (exists_writes_queryCalls.mpr h) i _
  | none =>
    rw [hcache] at h
    obtain ⟨found, query, next, hmatch, hquery, hwrites⟩ := h
    simp only [hmatch, hquery]
    exact not_nothingWritten_of_translated hwrites i next

theorem executeAggregate_eq_ok {toBson : Json → Except String Bson} {arguments : Json}
    {pipeline : List Document} (hdatabase : (strField arguments "database").isSome = true)
    (hcollection : (strField arguments "collection").isSome = true)
    (hpipeline : requiredField (jsonToDocuments toBson) arguments "pipeline" = .ok pipeline) :
    ∃ database collection,
      executeAggregate toBson arguments = .ok ⟨database, collection, .aggregate pipeline⟩ := by
  obtain ⟨database, hdatabase⟩ := Option.isSome_iff_exists.mp hdatabase
  obtain ⟨collection, hcollection⟩ := Option.isSome_iff_exists.mp hcollection
  refine ⟨database, collection, ?_⟩
  simp only [executeAggregate, collectionCall, getStr, hdatabase, hcollection, hpipeline, bind,
    Except.bind, pure, Except.pure]

/-- A step that uses a gap changes the database. -/
theorem exists_written_of_usesGap {server : Server Regex} {state : State Regex} {event : Event}
    (h : server.UsesGap state event) :
    ∃ next, server.step state event = some next ∧ ¬ NothingWritten next := by
  cases event with
  | call i =>
    obtain ⟨arguments, pipeline, htask, hdatabase, hcollection, hpipeline, hstores⟩ := h
    obtain ⟨database, collection, hcall⟩ := executeAggregate_eq_ok hdatabase hcollection hpipeline
    have htool : (databaseTools server.toBson).lookup "aggregate" =
        some (executeAggregate server.toBson) := rfl
    have hstep : server.step state (.call i) =
        some (server.executeTool state i "aggregate" arguments) := by
      simp only [Server.step, htask]
    refine ⟨_, hstep, ?_⟩
    simp only [Server.executeTool, htool, hcall]
    apply not_nothingWritten_of_perform ⟨_, List.mem_singleton_self _, _⟩ i
    exact hstores
  | look i =>
    obtain ⟨question, translator, htask, htranslator, hwrites⟩ := h
    have hstep : server.step state (.look i) = some (server.look state translator i question) := by
      simp only [Server.step, htask, htranslator]
    exact ⟨_, hstep, not_nothingWritten_of_look hwrites i⟩
  | answer i response =>
    obtain ⟨question, translator, text, query, after, htask, htranslator, rfl, hquery, hwrites⟩ := h
    have hstep : server.step state (.answer i (.ok text)) =
        some (server.complete state translator i question (.ok text)) := by
      simp only [Server.step, htask, htranslator]
    refine ⟨_, hstep, ?_⟩
    simp only [Server.complete, hquery]
    exact not_nothingWritten_of_translated hwrites i after
  | opened i record =>
    obtain ⟨options, document, htask, rfl⟩ := h
    have hstep : server.step state (.opened i (.ok document)) =
        some ((state.perform [⟨systemDatabase, "__mongocore.ingestion_jobs",
          .insertOne document⟩]).replace i [.recording options]) := by
      simp only [Server.step, htask]
    refine ⟨_, hstep, ?_⟩
    exact not_nothingWritten_of_perform ⟨_, List.mem_singleton_self _, rfl⟩ i _
  | embedded i embeddings =>
    obtain ⟨request, vectors, documents, htask, rfl, hdocuments⟩ := h
    have hstep : server.step state (.embedded i (.ok vectors)) =
        some (server.storeEmbedded state i request vectors) := by
      simp only [Server.step, htask]
    refine ⟨_, hstep, ?_⟩
    simp only [Server.storeEmbedded, hdocuments]
    exact not_nothingWritten_of_perform ⟨_, List.mem_singleton_self _, rfl⟩ i _
  | _ => exact h.elim

/-! ## The main result -/

/-- In read-only mode a run leaves the database unchanged if and only if none of its steps uses a
gap. -/
theorem neverWrites_iff_noGap (server : Server Regex) (hreadOnly : server.safety.readOnly = true)
    (translator : Option (CompiledQueryTranslator Regex)) (events : List Event) :
    Throughout server.step NothingWritten (State.initial translator) events ↔
      StepsMeet server.step (fun state event ↦ ¬ server.UsesGap state event)
        (State.initial translator) events := by
  apply throughout_iff_stepsMeet
  · exact fun _ h ↦ Clean.calls h
  · exact fun _ _ _ h hgap hstep ↦ h.step hreadOnly hgap hstep
  · exact fun _ _ _ hgap ↦ exists_written_of_usesGap (not_not.mp hgap)
  · exact Clean.initial translator

/-! ## An aggregation that stores its result -/

/-- A server in read-only mode.  Values are plain, and nothing but the database is there. -/
def plainServer : Server Unit where
  crates := readingCrates .null
  toBson := fun value ↦
    match value.toPlainBson with
    | some value => .ok value
    | none => .error "number out of range"
  storedDocument := fun _ ↦ none
  safety := ⟨true⟩
  hasProvider := false
  hasIngestion := false
  hasWatcher := false
  hasVoyage := false

/-- The parameters of a call of a tool for the pets of a shop. -/
def petsCall (name : String) (arguments : List (String × Json)) : Json :=
  .object [("name", .string name), ("arguments", .object (arguments ++
    [("database", .string "shop"), ("collection", .string "pets")]))]

/-- An aggregation whose result goes into another collection. -/
def outCall : Json := petsCall "aggregate" [("pipeline", .array [
  .object [("$out", .string "copies")]])]

/-- A find leaves the database unchanged. -/
theorem neverWrites_of_find : Throughout plainServer.step NothingWritten (State.initial none)
    [.request (some (petsCall "find" [])), .call 0] := by
  apply (neverWrites_iff_noGap plainServer rfl none _).mpr
  have hcalled : plainServer.step (State.initial none) (.request (some (petsCall "find" []))) =
      some _ := rfl
  rw [stepsMeet_cons hcalled]
  refine ⟨id, ?_, fun _ _ ↦ trivial⟩
  intro ⟨arguments, pipeline, htask, _⟩
  injection Option.some.inj htask with hname
  exact absurd hname (by decide)

/-- The aggregation is not blocked. -/
theorem not_neverWrites_of_out : ¬ ∀ (translator : Option (CompiledQueryTranslator Unit))
    (events : List Event),
      Throughout plainServer.step NothingWritten (State.initial translator) events := by
  intro hnever
  have hrun : run plainServer.step (State.initial none)
      [.request (some outCall), .call 0] = some _ := rfl
  have hwritten := hnever none _ [.request (some outCall), .call 0] [] rfl _ hrun
  have hcall := hwritten _ (List.mem_singleton_self _)
  cases hcall

end MongoCore.Mcp.ReadOnly
