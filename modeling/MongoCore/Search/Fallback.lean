import MongoCore.Data.Driver
import Mathlib.Algebra.Group.Int.Defs
import Mathlib.Algebra.GroupWithZero.Nat

/-!
# The fallback chain of a search

A search embeds the query and runs a vector search, then a full-text search, and then a find with
a `$text` filter.  A stage of the first two that fails or finds nothing is passed over in silence.
When the `$text` filter fails as well, a find with the empty filter takes its place.

The database and the service for embeddings are parameters.  A result records the call that its
documents are the answer to, so that it can be asked whether that call was given the query.
-/

namespace MongoCore.Search

open MongoCore.Data

/-! ## What a search returns -/

inductive SearchMethod where
  | vector
  | fulltext
  | filter
  deriving DecidableEq, Repr

/-- Search results.  The field `producedBy` is not part of the program's record: it names the call
that the documents are the answer to. -/
structure SearchResult where
  documents : List Document
  method : SearchMethod
  total : ℕ
  producedBy : DriverCall

inductive SearchError where
  | notConfigured (message : String)
  | embeddingError (message : String)
  | operationError (message : String)
  deriving DecidableEq, Repr

def SearchError.text : SearchError → String
  | .notConfigured message => "Not configured: " ++ message
  | .embeddingError message => "Embedding error: " ++ message
  | .operationError message => "Operation error: " ++ message

/-! ## The surroundings -/

structure VoyageClient where
  embed : List String → Except String (List (List UInt64))

structure Capabilities where
  atlasVectorSearch : Bool
  atlasSearch : Bool

/-- The engine with the database it calls.  A call ends with documents or with the text of an
error, a timeout included. -/
structure SearchEngine where
  capabilities : Capabilities
  voyageClient : Option VoyageClient
  answer : DriverCall → Except String (List Document)

/-! ## Pipelines and filters -/

def vectorPipeline (indexName fieldPath : String) (queryVector : List UInt64)
    (numCandidates limit : ℤ) : List Document :=
  [[("$vectorSearch", .document
      [("index", .string indexName), ("path", .string fieldPath),
        ("queryVector", .array (queryVector.map Bson.double)),
        ("numCandidates", .int64 numCandidates), ("limit", .int64 limit)])],
    [("$addFields", .document
      [("search_score", .document [("$meta", .string "vectorSearchScore")])])]]

def fulltextPipeline (indexName query : String) (searchFields : List String) (limit : ℤ) :
    List Document :=
  [[("$search", .document
      [("index", .string indexName),
        ("text", .document
          [("query", .string query), ("path", .array (searchFields.map Bson.string))])])],
    [("$addFields", .document [("search_score", .document [("$meta", .string "searchScore")])])],
    [("$limit", .int64 limit)]]

def textFilter (query : String) : Document :=
  [("$text", .document [("$search", .string query)])]

/-- Ten candidates for every result, in 64-bit arithmetic. -/
def numCandidates (limit : ℤ) : ℤ := (limit * 10).bmod (2 ^ 64)

/-! ## The stages -/

namespace SearchEngine

variable (engine : SearchEngine) (database collection query : String) (limit : ℤ)

def runCall (method : SearchMethod) (op : DriverOp) : Except SearchError SearchResult :=
  match engine.answer ⟨database, collection, op⟩ with
  | .error message => .error (.operationError message)
  | .ok documents => .ok ⟨documents, method, documents.length, ⟨database, collection, op⟩⟩

/-- Embed the query and run the vector search with the first embedding. -/
def embeddedSearch (client : VoyageClient) (indexName fieldPath : String) :
    Except SearchError SearchResult :=
  match client.embed [query] with
  | .error message => .error (.embeddingError message)
  | .ok [] => .error (.embeddingError "No embedding returned")
  | .ok (vector :: _) =>
      engine.runCall database collection .vector
        (.aggregate (vectorPipeline indexName fieldPath vector (numCandidates limit) limit))

/-- The vector search that a caller asks for by itself. -/
def vectorSearch (indexName fieldPath : String) : Except SearchError SearchResult :=
  match engine.voyageClient with
  | none => .error (.notConfigured "Voyage AI client not configured")
  | some client => engine.embeddedSearch database collection query limit client indexName fieldPath

def vectorSearchInternal (client : VoyageClient) : Except SearchError SearchResult :=
  engine.embeddedSearch database collection query limit client "default" "embedding"

def fulltextSearchInternal : Except SearchError SearchResult :=
  engine.runCall database collection .fulltext
    (.aggregate (fulltextPipeline "default" query ["*"] limit))

def findOptions (limit : ℤ) : FindOptions := { limit := some limit }

/-- The last stage.  The second find is not given the query. -/
def filterFallback : Except SearchError SearchResult :=
  match engine.runCall database collection .filter
      (.find (textFilter query) (findOptions limit)) with
  | .ok result => .ok result
  | .error _ => engine.runCall database collection .filter (.find [] (findOptions limit))

/-- What a stage contributes: nothing when it fails or finds no documents. -/
def passedOn (outcome : Except SearchError SearchResult) : Option SearchResult :=
  match outcome with
  | .ok result => if result.documents.isEmpty then none else some result
  | .error _ => none

/-- The vector stage, where the deployment and the engine have what it needs. -/
def vectorStage : Option SearchResult :=
  if engine.capabilities.atlasVectorSearch then
    match engine.voyageClient with
    | some client => passedOn (engine.vectorSearchInternal database collection query limit client)
    | none => none
  else none

/-- The full-text stage, where the deployment has it. -/
def fulltextStage : Option SearchResult :=
  if engine.capabilities.atlasSearch then
    passedOn (engine.fulltextSearchInternal database collection query limit)
  else none

def search : Except SearchError SearchResult :=
  match engine.vectorStage database collection query limit with
  | some result => .ok result
  | none =>
    match engine.fulltextStage database collection query limit with
    | some result => .ok result
    | none => engine.filterFallback database collection query limit

/-! ## What each stage comes to -/

variable {engine database collection query limit}

theorem runCall_eq_ok_iff {method : SearchMethod} {op : DriverOp} {result : SearchResult} :
    engine.runCall database collection method op = .ok result ↔
      ∃ documents, engine.answer ⟨database, collection, op⟩ = .ok documents ∧
        result = ⟨documents, method, documents.length, ⟨database, collection, op⟩⟩ := by
  unfold runCall
  cases engine.answer ⟨database, collection, op⟩ with
  | error message => simp
  | ok documents => simp [eq_comm]

theorem runCall_eq_error_iff {method : SearchMethod} {op : DriverOp} {error : SearchError} :
    engine.runCall database collection method op = .error error ↔
      ∃ message, engine.answer ⟨database, collection, op⟩ = .error message ∧
        error = .operationError message := by
  unfold runCall
  cases engine.answer ⟨database, collection, op⟩ with
  | error message => simp [eq_comm]
  | ok documents => simp

theorem passedOn_eq_some_iff {outcome : Except SearchError SearchResult} {result : SearchResult} :
    passedOn outcome = some result ↔ outcome = .ok result ∧ result.documents ≠ [] := by
  cases outcome with
  | error message => simp [passedOn]
  | ok other =>
    by_cases hempty : other.documents = []
    · simp only [passedOn, hempty, List.isEmpty_nil, if_true, reduceCtorEq, Except.ok.injEq,
        false_iff, not_and, not_not]
      rintro rfl
      exact hempty
    · simp only [passedOn, List.isEmpty_iff, hempty, if_false, Option.some.injEq, Except.ok.injEq]
      constructor
      · rintro rfl
        exact ⟨rfl, hempty⟩
      · exact And.left

theorem embeddedSearch_eq_ok_iff {client : VoyageClient} {indexName fieldPath : String}
    {result : SearchResult} :
    engine.embeddedSearch database collection query limit client indexName fieldPath = .ok result ↔
      ∃ vector others, client.embed [query] = .ok (vector :: others) ∧
        engine.runCall database collection .vector
          (.aggregate (vectorPipeline indexName fieldPath vector (numCandidates limit) limit)) =
            .ok result := by
  unfold embeddedSearch
  cases client.embed [query] with
  | error message => simp
  | ok embeddings =>
    cases embeddings with
    | nil => simp
    | cons vector others => simp

/-! ## Keeping to the query -/

variable (engine database collection query limit)

/-- An operation that carries the query, or the embedding of it. -/
inductive GivenQuery : DriverOp → Prop where
  | vector {client : VoyageClient} {queryVector : List UInt64} {others : List (List UInt64)}
      (indexName fieldPath : String) (hclient : engine.voyageClient = some client)
      (hembed : client.embed [query] = .ok (queryVector :: others)) :
      GivenQuery (.aggregate
        (vectorPipeline indexName fieldPath queryVector (numCandidates limit) limit))
  | fulltext : GivenQuery (.aggregate (fulltextPipeline "default" query ["*"] limit))
  | text : GivenQuery (.find (textFilter query) (findOptions limit))

/-- The outcome is an error, or documents that an operation with the query selected, and no empty
filter. -/
def KeepsToQuery (outcome : Except SearchError SearchResult) : Prop :=
  ∀ result, outcome = .ok result →
    GivenQuery engine query limit result.producedBy.op ∧
      result.producedBy.op.filter? ≠ some []

/-- The deployment has vector search, and the search with the embedded query finds something. -/
def VectorFinds : Prop :=
  engine.capabilities.atlasVectorSearch = true ∧
    ∃ client vector others documents, engine.voyageClient = some client ∧
      client.embed [query] = .ok (vector :: others) ∧
      engine.answer ⟨database, collection, .aggregate
        (vectorPipeline "default" "embedding" vector (numCandidates limit) limit)⟩ =
          .ok documents ∧
      documents ≠ []

/-- The deployment has full-text search, and it finds something. -/
def FulltextFinds : Prop :=
  engine.capabilities.atlasSearch = true ∧
    ∃ documents, engine.answer ⟨database, collection,
        .aggregate (fulltextPipeline "default" query ["*"] limit)⟩ = .ok documents ∧
      documents ≠ []

/-- The find with the `$text` filter succeeds, with or without documents. -/
def TextAnswers : Prop :=
  ∃ documents, engine.answer ⟨database, collection,
    .find (textFilter query) (findOptions limit)⟩ = .ok documents

/-- The find with the empty filter fails. -/
def ScanFails : Prop :=
  ∃ message, engine.answer ⟨database, collection, .find [] (findOptions limit)⟩ = .error message

variable {engine database collection query limit}

theorem GivenQuery.filter_ne_nil {op : DriverOp} (hop : GivenQuery engine query limit op) :
    op.filter? ≠ some [] := by
  cases hop <;> simp [DriverOp.filter?, textFilter]

theorem keepsToQuery_ok {result : SearchResult}
    (hgiven : GivenQuery engine query limit result.producedBy.op) :
    KeepsToQuery engine query limit (.ok result) := by
  rintro _ ⟨⟩
  exact ⟨hgiven, hgiven.filter_ne_nil⟩

theorem not_givenQuery_scan (options : FindOptions) :
    ¬ GivenQuery engine query limit (.find [] options) := by
  intro hscan
  exact hscan.filter_ne_nil rfl

theorem givenQuery_of_embeddedSearch {client : VoyageClient} {indexName fieldPath : String}
    {result : SearchResult} (hclient : engine.voyageClient = some client)
    (hsearch : engine.embeddedSearch database collection query limit client indexName fieldPath =
      .ok result) :
    GivenQuery engine query limit result.producedBy.op := by
  obtain ⟨vector, others, hembed, hcall⟩ := embeddedSearch_eq_ok_iff.mp hsearch
  obtain ⟨documents, -, rfl⟩ := runCall_eq_ok_iff.mp hcall
  exact .vector _ _ hclient hembed

/-! ## The chain of stages -/

theorem vectorStage_eq_some_iff {result : SearchResult} :
    engine.vectorStage database collection query limit = some result ↔
      engine.capabilities.atlasVectorSearch = true ∧
        ∃ client, engine.voyageClient = some client ∧
          engine.vectorSearchInternal database collection query limit client = .ok result ∧
          result.documents ≠ [] := by
  unfold vectorStage
  cases engine.capabilities.atlasVectorSearch with
  | false => simp
  | true =>
    cases engine.voyageClient with
    | none => simp
    | some client => simp [passedOn_eq_some_iff]

theorem fulltextStage_eq_some_iff {result : SearchResult} :
    engine.fulltextStage database collection query limit = some result ↔
      engine.capabilities.atlasSearch = true ∧
        engine.fulltextSearchInternal database collection query limit = .ok result ∧
        result.documents ≠ [] := by
  unfold fulltextStage
  cases engine.capabilities.atlasSearch with
  | false => simp
  | true => simp [passedOn_eq_some_iff]

/-- The vector stage ends the search exactly when it finds something. -/
theorem exists_vectorStage_iff :
    (∃ result, engine.vectorStage database collection query limit = some result) ↔
      VectorFinds engine database collection query limit := by
  simp only [vectorStage_eq_some_iff, VectorFinds, vectorSearchInternal, embeddedSearch_eq_ok_iff,
    runCall_eq_ok_iff]
  constructor
  · rintro ⟨-, henabled, client, hclient, ⟨vector, others, hembed, documents, hanswer, rfl⟩, hne⟩
    exact ⟨henabled, client, vector, others, documents, hclient, hembed, hanswer, hne⟩
  · rintro ⟨henabled, client, vector, others, documents, hclient, hembed, hanswer, hne⟩
    exact ⟨_, henabled, client, hclient, ⟨vector, others, hembed, documents, hanswer, rfl⟩, hne⟩

theorem exists_fulltextStage_iff :
    (∃ result, engine.fulltextStage database collection query limit = some result) ↔
      FulltextFinds engine database collection query limit := by
  simp only [fulltextStage_eq_some_iff, FulltextFinds, fulltextSearchInternal, runCall_eq_ok_iff]
  constructor
  · rintro ⟨-, henabled, ⟨documents, hanswer, rfl⟩, hne⟩
    exact ⟨henabled, documents, hanswer, hne⟩
  · rintro ⟨henabled, documents, hanswer, hne⟩
    exact ⟨_, henabled, ⟨documents, hanswer, rfl⟩, hne⟩

theorem givenQuery_of_vectorStage {result : SearchResult}
    (hstage : engine.vectorStage database collection query limit = some result) :
    GivenQuery engine query limit result.producedBy.op := by
  obtain ⟨-, client, hclient, hsearch, -⟩ := vectorStage_eq_some_iff.mp hstage
  exact givenQuery_of_embeddedSearch hclient hsearch

theorem givenQuery_of_fulltextStage {result : SearchResult}
    (hstage : engine.fulltextStage database collection query limit = some result) :
    GivenQuery engine query limit result.producedBy.op := by
  obtain ⟨-, hsearch, -⟩ := fulltextStage_eq_some_iff.mp hstage
  obtain ⟨documents, -, rfl⟩ := runCall_eq_ok_iff.mp hsearch
  exact .fulltext

/-- The last stage leaves the query exactly when the first of its finds fails and the second does
not. -/
theorem filterFallback_keepsToQuery_iff :
    KeepsToQuery engine query limit (engine.filterFallback database collection query limit) ↔
      TextAnswers engine database collection query limit ∨
        ScanFails engine database collection limit := by
  unfold filterFallback TextAnswers ScanFails
  cases htext : engine.answer ⟨database, collection,
      .find (textFilter query) (findOptions limit)⟩ with
  | ok documents =>
    have hcall : engine.runCall database collection .filter
        (.find (textFilter query) (findOptions limit)) = .ok _ :=
      runCall_eq_ok_iff.mpr ⟨documents, htext, rfl⟩
    simp only [hcall]
    exact iff_of_true (keepsToQuery_ok .text) (Or.inl ⟨documents, rfl⟩)
  | error message =>
    have hcall : engine.runCall database collection .filter
        (.find (textFilter query) (findOptions limit)) = .error _ :=
      runCall_eq_error_iff.mpr ⟨message, htext, rfl⟩
    simp only [hcall, reduceCtorEq, exists_false, false_or]
    constructor
    · intro hkeeps
      cases hscan : engine.answer ⟨database, collection, .find [] (findOptions limit)⟩ with
      | error message => exact ⟨message, rfl⟩
      | ok documents =>
        have hresult := hkeeps _ (runCall_eq_ok_iff.mpr ⟨documents, hscan, rfl⟩)
        exact absurd hresult.1 (not_givenQuery_scan _)
    · rintro ⟨message, hscan⟩ result hresult
      obtain ⟨documents, hanswer, -⟩ := runCall_eq_ok_iff.mp hresult
      rw [hscan] at hanswer
      contradiction

/-- A search keeps to the query exactly when one of the stages that have it answers, or the find
with the empty filter fails. -/
theorem search_keepsToQuery_iff :
    KeepsToQuery engine query limit (engine.search database collection query limit) ↔
      VectorFinds engine database collection query limit ∨
        FulltextFinds engine database collection query limit ∨
        TextAnswers engine database collection query limit ∨
        ScanFails engine database collection limit := by
  rw [← exists_vectorStage_iff, ← exists_fulltextStage_iff, ← filterFallback_keepsToQuery_iff]
  unfold search
  cases hvector : engine.vectorStage database collection query limit with
  | some result =>
    exact iff_of_true (keepsToQuery_ok (givenQuery_of_vectorStage hvector))
      (Or.inl ⟨result, rfl⟩)
  | none =>
    cases hfulltext : engine.fulltextStage database collection query limit with
    | some result =>
      exact iff_of_true (keepsToQuery_ok (givenQuery_of_fulltextStage hfulltext))
        (Or.inr (Or.inl ⟨result, rfl⟩))
    | none => simp

/-! ## A collection without a text index -/

/-- A deployment without search indexes: a `$text` filter is refused, and the empty filter selects
what is stored. -/
def unindexedEngine : SearchEngine where
  capabilities := ⟨false, false⟩
  voyageClient := none
  answer call :=
    match call.op with
    | .find [] _ => .ok [[("title", .string "Gardening")]]
    | _ => .error "text index required for $text query"

/-- There a search for networks returns the document about gardening. -/
theorem unindexedEngine_not_keepsToQuery :
    ¬ KeepsToQuery unindexedEngine "networks" 10
      (unindexedEngine.search "library" "books" "networks" 10) := by
  intro hkeeps
  have hresult := hkeeps ⟨[[("title", .string "Gardening")]], .filter, 1,
    ⟨"library", "books", .find [] (findOptions 10)⟩⟩ rfl
  exact hresult.2 rfl

end SearchEngine

end MongoCore.Search
