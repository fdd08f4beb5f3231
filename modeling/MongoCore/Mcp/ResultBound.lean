import MongoCore.Compiled.QuerySafety
import MongoCore.Data.Stages
import MongoCore.Mcp.ReadOnly

/-!
# How many documents a tool returns

The safety configuration names a maximal number of documents, which nothing reads.  A find has a
maximum of its own, a question is answered with at most twenty documents, and an aggregation and a
semantic search return all that the database answers.

The main result says which calls keep to a maximum, for every database, translator and embedding.
-/

namespace MongoCore.Mcp.ResultBound

open MongoCore.Data MongoCore.Compiled MongoCore.Mcp.ReadOnly

variable {Regex : Type}

/-! ## The tools that return documents -/

/-- What the tools use of other crates. -/
structure Session (Regex : Type) where
  crates : Crates Regex
  toBson : Json → Except String Bson
  sampleText : Document → String

/-- The database, the translator, and the service for embeddings. -/
structure World (Regex : Type) where
  database : Database
  translator : Option (CompiledQueryTranslator Regex)
  embed : String → Except String (List UInt64)

inductive ReadTool where
  | find | ask | aggregate | semanticSearch
  deriving DecidableEq, Repr

/-- The tool with a name, if it is one of these. -/
def readTool (name : String) : Option ReadTool :=
  if name = "find" then some .find
  else if name = "ask" then some .ask
  else if name = "aggregate" then some .aggregate
  else if name = "semantic_search" then some .semanticSearch
  else none

/-- The largest number of documents in the answer to a question. -/
def maxAnswerDocuments : ℕ := 20

section Tools

variable (session : Session Regex) (world : World Regex) (arguments : Json)

/-- What a tool that makes one call returns, if it is not an error. -/
def callDocuments (database : Database) (call : Except String DriverCall) : Option (List Document) :=
  call.toOption.bind fun call ↦ (database.reply call).toOption

def askContext (question : Question) : TranslationContext where
  sampleDocuments := ((world.database.reply ⟨question.database, question.collection,
    .find [] ⟨some 1, none, none, none, none⟩⟩).toOption.getD []).map session.sampleText
  availableIndexes := []
  schemaHint := none

/-- The execution of a compiled query.  Only a find and an aggregation are executed. -/
def executeCompiled (database : Database) (question : Question) (mql : CompiledMql) :
    Except String (List Document) :=
  match mql with
  | .find filter _ => database.reply ⟨question.database, question.collection,
      .find filter ⟨some maxFindLimit, none, none, none, none⟩⟩
  | .aggregate pipeline => database.reply ⟨question.database, question.collection,
      .aggregate pipeline⟩
  | .vectorSearch _ _ | .fulltext _ _ | .geo _ _ => .ok []

def askDocuments : Option (List Document) :=
  (questionOf .ask arguments).toOption.bind fun question ↦
    world.translator.bind fun translator ↦
      (translator.translate session.crates question.text question.database question.collection
          (askContext session world question)).toOption.bind fun (compiled, _) ↦
        (executeCompiled world.database question compiled.mql).toOption.map
          (List.take maxAnswerDocuments)

def semanticSearchDocuments : Option (List Document) :=
  (searchRequest arguments).toOption.bind fun request ↦
    (strField arguments "query").bind fun query ↦
      (world.embed query).toOption.bind fun vector ↦
        (world.database.reply (vectorSearch request vector)).toOption

/-- The documents in the result of a tool, if it is not an error. -/
def documents : ReadTool → Option (List Document)
  | .find => callDocuments world.database (executeFind session.toBson arguments)
  | .ask => askDocuments session world arguments
  | .aggregate => callDocuments world.database (executeAggregate session.toBson arguments)
  | .semanticSearch => semanticSearchDocuments world arguments

end Tools

/-- A call of a tool executes itself and, if it is a pipeline that is accepted, the calls of its
operations. -/
inductive Executes (safety : SafetyConfig) : String → Json → String → Json → Prop
  | here (name : String) (arguments : Json) : Executes safety name arguments name arguments
  | operation {arguments operation inner : Json} {operations : List Json} {name : String}
      (haccepted : pipelineOperations safety arguments = .ok operations)
      (hmem : operation ∈ operations)
      (hinner : Executes safety (operationTool operation) operation name inner) :
      Executes safety "pipeline" arguments name inner

/-! ## Bounds -/

/-- The tool cannot return more documents than a maximum, by its arguments. -/
def Bounded (toBson : Json → Except String Bson) (maxDocuments : ℕ) (arguments : Json) :
    ReadTool → Prop
  | .find => ∀ call, executeFind toBson arguments = .ok call →
      findLimit arguments ≤ maxDocuments
  | .ask => ∀ question, questionOf .ask arguments = .ok question →
      maxAnswerDocuments ≤ maxDocuments
  | .aggregate => ∀ database collection pipeline,
      executeAggregate toBson arguments = .ok ⟨database, collection, .aggregate pipeline⟩ →
        ∃ limit ∈ pipelineBound pipeline, limit ≤ maxDocuments
  | .semanticSearch => ∀ request, searchRequest arguments = .ok request →
      request.limit ≠ 0 ∧ request.limit.natAbs ≤ maxDocuments

/-- The tool never returns more documents than a maximum. -/
def KeepsTo (session : Session Regex) (maxDocuments : ℕ) (arguments : Json) (tool : ReadTool) :
    Prop :=
  ∀ (world : World Regex) (found : List Document),
    documents session world arguments tool = some found → found.length ≤ maxDocuments

section Bounds

variable {session : Session Regex} {toBson : Json → Except String Bson} {arguments : Json}
  {maxDocuments : ℕ}

theorem findLimit_pos (arguments : Json) : 0 < findLimit arguments := by
  unfold findLimit
  simp only
  split_ifs with hlimit
  · decide
  · exact Int.not_le.mp (not_or.mp hlimit).2

/-- A find asks for as many documents as its limit says. -/
theorem exists_of_executeFind {call : DriverCall} (h : executeFind toBson arguments = .ok call) :
    ∃ filter skip, call.op = .find filter ⟨some (findLimit arguments), skip, none, none, none⟩ := by
  obtain ⟨op, hop, hcall⟩ := exists_op_of_collectionCall h
  cases hfilter : filterArgument toBson arguments <;>
    simp only [hfilter, bind, Except.bind, pure, Except.pure] at hop
  · cases hop
  · exact ⟨_, _, hcall.trans (Except.ok.inj hop).symm⟩

theorem ok_of_toOption {ε α : Type} {outcome : Except ε α} {value : α}
    (h : outcome.toOption = some value) : outcome = .ok value := by
  cases outcome with
  | error error => cases h
  | ok own => exact congrArg Except.ok (Option.some.inj h)

theorem callDocuments_eq_some {database : Database} {call : Except String DriverCall}
    {found : List Document} : callDocuments database call = some found ↔
      ∃ made, call = .ok made ∧ database.reply made = .ok found := by
  cases call with
  | error error => simp [callDocuments, Except.toOption]
  | ok made => cases h : database.reply made <;> simp [callDocuments, Except.toOption, h]

/-- Databases with one document more than the maximum. -/
def World.plenty (maxDocuments : ℕ) (translator : Option (CompiledQueryTranslator Regex)) :
    World Regex where
  database := .plenty (maxDocuments + 1)
  translator := translator
  embed _ := .ok []

theorem keepsTo_find_iff : KeepsTo session maxDocuments arguments .find ↔
    Bounded session.toBson maxDocuments arguments .find := by
  constructor
  · intro hkeeps call hcall
    obtain ⟨filter, skip, hop⟩ := exists_of_executeFind hcall
    have hpos := findLimit_pos arguments
    have hne : findLimit arguments ≠ 0 := (Int.ne_of_lt hpos).symm
    by_contra hlarge
    have hreply : (Database.plenty (maxDocuments + 1)).reply call =
        .ok ((List.replicate (maxDocuments + 1) []).take (findLimit arguments).natAbs) := by
      simp [Database.reply, hop, Database.plenty, QueryLanguage.limited, hne]
    have hlength := hkeeps (.plenty maxDocuments none) _
      (callDocuments_eq_some.mpr ⟨call, hcall, hreply⟩)
    rw [List.length_take, List.length_replicate] at hlength
    omega
  · intro hbounded world found hfound
    obtain ⟨call, hcall, hreply⟩ := callDocuments_eq_some.mp hfound
    obtain ⟨filter, skip, hop⟩ := exists_of_executeFind hcall
    simp only [Database.reply, hop] at hreply
    have hpos := findLimit_pos arguments
    have hlength := world.database.find_limit _ _ _ _ _ hreply rfl (Int.ne_of_lt hpos).symm
    have hlimit := hbounded call hcall
    omega

theorem keepsTo_aggregate_iff : KeepsTo session maxDocuments arguments .aggregate ↔
    Bounded session.toBson maxDocuments arguments .aggregate := by
  constructor
  · intro hkeeps database collection pipeline hcall
    obtain ⟨found, hfound, hcount⟩ :=
      Database.exists_aggregate_plenty (maxDocuments + 1) pipeline
    have hlength := hkeeps (.plenty maxDocuments none) found
      (callDocuments_eq_some.mpr ⟨_, hcall, hfound⟩)
    cases hbound : pipelineBound pipeline with
    | none =>
      simp only [hbound, Option.elim_none] at hcount
      omega
    | some limit =>
      simp only [hbound, Option.elim_some] at hcount
      exact ⟨limit, rfl, by omega⟩
  · intro hbounded world found hfound
    obtain ⟨call, hcall, hreply⟩ := callDocuments_eq_some.mp hfound
    obtain ⟨pipeline, -, hop⟩ := exists_pipeline_of_executeAggregate hcall
    obtain ⟨database, collection, op⟩ := call
    obtain rfl : op = .aggregate pipeline := hop
    obtain ⟨limit, hlimit, hle⟩ := hbounded database collection pipeline hcall
    exact (Database.length_le_of_aggregate hreply limit hlimit).trans hle

/-- A translator whose cache has one query for everything: find all documents. -/
def allDocuments : CompiledQueryTranslator Regex where
  cache _ := some ⟨"", "", "", "", .find [] none, none⟩
  provider := none
  templates := []

theorem keepsTo_ask_iff : KeepsTo session maxDocuments arguments .ask ↔
    Bounded session.toBson maxDocuments arguments .ask := by
  constructor
  · intro hkeeps question hquestion
    by_contra hlarge
    have hanswer : documents session (.plenty maxDocuments (some allDocuments)) arguments .ask =
        some (((List.replicate (maxDocuments + 1) []).take maxFindLimit.natAbs).take
          maxAnswerDocuments) := by
      simp [documents, askDocuments, hquestion, World.plenty, allDocuments,
        CompiledQueryTranslator.translate, executeCompiled, Database.reply, Database.plenty,
        QueryLanguage.limited, maxFindLimit, Except.toOption]
    have hlength := hkeeps _ _ hanswer
    simp only [List.length_take, List.length_replicate, maxFindLimit] at hlength
    unfold maxAnswerDocuments at hlarge hlength
    omega
  · intro hbounded world found hfound
    obtain ⟨question, hquestion, hfound⟩ := Option.bind_eq_some_iff.mp hfound
    obtain ⟨translator, -, hfound⟩ := Option.bind_eq_some_iff.mp hfound
    obtain ⟨compiled, -, hfound⟩ := Option.bind_eq_some_iff.mp hfound
    obtain ⟨all, -, rfl⟩ := Option.map_eq_some_iff.mp hfound
    exact (List.length_take_le _ _).trans (hbounded question (ok_of_toOption hquestion))

/-- The bound on a search is its limit. -/
theorem pipelineBound_vectorSearch (request : SearchRequest) (vector : List UInt64) :
    ∃ pipeline, (vectorSearch request vector).op = .aggregate pipeline ∧
      pipelineBound pipeline =
        if request.limit = 0 then none else some request.limit.natAbs := by
  refine ⟨_, rfl, ?_⟩
  by_cases hzero : request.limit = 0 <;>
    simp [pipelineBound, boundAfter, stageKind, Bson.member?, Bson.asInt?, keepingStages, hzero,
      List.lookup_cons]

theorem exists_query_of_searchRequest {request : SearchRequest}
    (h : searchRequest arguments = .ok request) : ∃ query, strField arguments "query" = some query := by
  unfold searchRequest getStr at h
  cases hquery : strField arguments "query" with
  | none =>
    simp only [hquery, bind, Except.bind] at h
    cases h
  | some query => exact ⟨query, rfl⟩

theorem keepsTo_semanticSearch_iff : KeepsTo session maxDocuments arguments .semanticSearch ↔
    Bounded session.toBson maxDocuments arguments .semanticSearch := by
  constructor
  · intro hkeeps request hrequest
    obtain ⟨query, hquery⟩ := exists_query_of_searchRequest hrequest
    obtain ⟨pipeline, hop, hbound⟩ := pipelineBound_vectorSearch request []
    obtain ⟨found, hfound, hcount⟩ :=
      Database.exists_aggregate_plenty (maxDocuments + 1) pipeline
    have hanswer : documents session (.plenty maxDocuments none) arguments .semanticSearch =
        some found := by
      have hreply : (Database.plenty (maxDocuments + 1)).reply (vectorSearch request []) =
          .ok found := by
        rw [Database.reply, hop]
        exact hfound
      simp [documents, semanticSearchDocuments, hrequest, hquery, World.plenty, hreply,
        Except.toOption]
    have hlength := hkeeps _ found hanswer
    rw [hcount, hbound] at hlength
    split_ifs at hlength with hzero
    · simp only [Option.elim_none] at hlength
      omega
    · simp only [Option.elim_some] at hlength
      exact ⟨hzero, by omega⟩
  · intro hbounded world found hfound
    obtain ⟨request, hrequest, hfound⟩ := Option.bind_eq_some_iff.mp hfound
    obtain ⟨query, -, hfound⟩ := Option.bind_eq_some_iff.mp hfound
    obtain ⟨vector, -, hfound⟩ := Option.bind_eq_some_iff.mp hfound
    obtain ⟨pipeline, hop, hbound⟩ := pipelineBound_vectorSearch request vector
    obtain ⟨hne, hle⟩ := hbounded request (ok_of_toOption hrequest)
    have hreply := ok_of_toOption hfound
    rw [Database.reply, hop] at hreply
    rw [if_neg hne] at hbound
    exact (Database.length_le_of_aggregate hreply _ (by rw [hbound]; rfl)).trans hle

end Bounds

/-! ## All calls -/

/-- A call keeps to a maximum with all tools that it executes exactly if each of them is bounded by
its arguments: a find by its limit, a question by the documents in an answer, an aggregation by its
stages, and a semantic search by its limit. -/
theorem keepsTo_iff_bounded (session : Session Regex) (safety : SafetyConfig) (maxDocuments : ℕ)
    (name : String) (arguments : Json) :
    (∀ inner innerArguments tool, Executes safety name arguments inner innerArguments →
        readTool inner = some tool → KeepsTo session maxDocuments innerArguments tool) ↔
      ∀ inner innerArguments tool, Executes safety name arguments inner innerArguments →
        readTool inner = some tool →
          Bounded session.toBson maxDocuments innerArguments tool := by
  have hsame : ∀ innerArguments tool, KeepsTo session maxDocuments innerArguments tool ↔
      Bounded session.toBson maxDocuments innerArguments tool := by
    intro innerArguments tool
    cases tool with
    | find => exact keepsTo_find_iff
    | ask => exact keepsTo_ask_iff
    | aggregate => exact keepsTo_aggregate_iff
    | semanticSearch => exact keepsTo_semanticSearch_iff
  constructor
  · exact fun h inner innerArguments tool hexecutes htool ↦
      (hsame _ _).mp (h inner innerArguments tool hexecutes htool)
  · exact fun h inner innerArguments tool hexecutes htool ↦
      (hsame _ _).mpr (h inner innerArguments tool hexecutes htool)

/-- An aggregation without stages. -/
def emptyPipeline : Json :=
  .object [("database", .string "shop"), ("collection", .string "pets"), ("pipeline", .array [])]

/-- A session without a translation to BSON. -/
def plainSession : Session Unit where
  crates := readingCrates .null
  toBson _ := .error ""
  sampleText _ := ""

/-- It returns the whole collection, however small the maximum is. -/
theorem aggregate_exceeds_default : ¬ ∀ (name : String) (arguments : Json) (inner : String)
    (innerArguments : Json) (tool : ReadTool),
    Executes ⟨false⟩ name arguments inner innerArguments → readTool inner = some tool →
      KeepsTo plainSession 100 innerArguments tool := by
  intro hkeeps
  have haggregate := hkeeps "aggregate" emptyPipeline "aggregate" emptyPipeline .aggregate
    (.here _ _) rfl
  have hlength := haggregate (.plenty 100 none) (List.replicate 101 []) rfl
  exact absurd hlength (by decide)

end MongoCore.Mcp.ResultBound
