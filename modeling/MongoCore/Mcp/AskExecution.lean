import MongoCore.Mcp.ResultBound
import MongoCore.Transport.Options

/-!
# What a question is answered with

A compiled query has a method, and a find or a geographic query has options.  A question is
answered by a find of the filter, with a limit of its own and without the options, or by an
aggregation.  A query of another method is not run, and the answer is that there are no documents.

An answer shows the first documents and says how many there are.  The main result says for which
compiled queries this is the result of the query itself, on every database.
-/

namespace MongoCore.Mcp.AskExecution

open MongoCore.Data MongoCore.Compiled MongoCore.Mcp.ResultBound

variable {Regex : Type}

/-! ## The answer -/

def llmErrorText : LlmError → String
  | .apiError text => s!"LLM API error: {text}"
  | .invalidResponse text => s!"Invalid response from LLM: {text}"
  | .notConfigured => "No LLM provider configured"
  | .rateLimited seconds => s!"Rate limited, retry after {seconds}s"

def translateErrorText : TranslateError → String
  | .noProvider => "No LLM provider configured"
  | .llm error => s!"LLM error: {llmErrorText error}"
  | .parseError text => s!"Failed to parse LLM response: {text}"
  | .validation text => s!"MQL validation failed: {text}"

/-- What an answer shows of the compiled query. -/
inductive ShownQuery where
  | find (filter : Document)
  | aggregate (pipeline : List Document)
  | method (name : String)

def shownQuery : CompiledMql → ShownQuery
  | .find filter _ => .find filter
  | .aggregate pipeline => .aggregate pipeline
  | mql => .method mql.method

structure AskAnswer where
  documents : List Document
  count : ℕ
  method : String
  intent : String
  question : Question
  compiledQuery : ShownQuery

def answerOf (question : Question) (compiled : CompiledQuery) (found : List Document) :
    AskAnswer where
  documents := found.take maxAnswerDocuments
  count := found.length
  method := compiled.mql.method
  intent := compiled.intent
  question := question
  compiledQuery := shownQuery compiled.mql

section Asking

variable (session : Session Regex) (world : World Regex)

def translateQuestion (question : Question) : Except String CompiledQuery :=
  match world.translator with
  | none => .error ("Natural language queries require an LLM provider. " ++
      "Configure ANTHROPIC_API_KEY or use MongoCore within Claude (MCP sampling). " ++
      "Use 'find' or 'aggregate' tools directly.")
  | some translator =>
      match translator.translate session.crates question.text question.database
          question.collection (askContext session world question) with
      | .error error => .error (s!"Translation failed: {translateErrorText error}. " ++
          "Use 'find' or 'aggregate' tools directly.")
      | .ok (compiled, _) => .ok compiled

def executeAsk (arguments : Json) : Except String AskAnswer := do
  let question ← questionOf .ask arguments
  let compiled ← translateQuestion session world question
  match executeCompiled world.database question compiled.mql with
  | .error reason => .error s!"Query execution failed: {reason}"
  | .ok found => .ok (answerOf question compiled found)

/-- The answer has the documents of the tool. -/
theorem askDocuments_eq (arguments : Json) : askDocuments session world arguments =
    (executeAsk session world arguments).toOption.map AskAnswer.documents := by
  unfold askDocuments executeAsk translateQuestion
  cases questionOf .ask arguments with
  | error reason => rfl
  | ok question =>
    cases htranslator : world.translator with
    | none => simp [Except.toOption, bind, Except.bind]
    | some translator =>
      cases htranslate : translator.translate session.crates question.text question.database
          question.collection (askContext session world question) with
      | error error => simp [htranslate, Except.toOption, bind, Except.bind]
      | ok translated =>
        cases hfound : executeCompiled world.database question translated.1.mql <;>
          simp [htranslate, hfound, Except.toOption, bind, Except.bind, answerOf]

end Asking

/-! ## The result of a compiled query -/

/-- Read an option of a compiled query.  A null is no option. -/
def readOption {Value : Type} (read : Bson → Option Value) (options : Document) (name : String) :
    Except String (Option Value) :=
  match options.lookup name with
  | none | some .null => .ok none
  | some value =>
      match read value with
      | some own => .ok (some own)
      | none => .error s!"Invalid option: {name}"

/-- The natural number that a number stands for. -/
def natural? (value : Bson) : Option ℕ :=
  (Transport.integer? value).bind fun n ↦ if 0 ≤ n then some n.toNat else none

def compiledOptions (options : Option Document) : Except String FindOptions := do
  let members := options.getD []
  let limit ← readOption Transport.integer? members "limit"
  let skip ← readOption natural? members "skip"
  let sort ← readOption Transport.asDocument? members "sort"
  let projection ← readOption Transport.asDocument? members "projection"
  return { limit, skip, sort, projection }

/-- A database whose finds have a meaning, unless they are refused, and what its searches return. -/
structure Deployment extends Database where
  language : QueryLanguage
  refusal : Document → Document → Document → Option String
  vectorSearch : String → Option Document → List Document → Except String (List Document)
  fulltext : String → Option Document → List Document → Except String (List Document)
  find_eq : ∀ filter options documents, find filter options documents =
    match refusal filter (options.sort.getD []) (options.projection.getD []) with
    | some reason => .error reason
    | none => .ok (language.find filter options documents)

def Deployment.result (deployment : Deployment) (question : Question) (mql : CompiledMql) :
    Except String (List Document) :=
  let documents := deployment.contents question.database question.collection
  match mql with
  | .find filter options | .geo filter options =>
      (compiledOptions options).bind fun own ↦ deployment.find filter own documents
  | .aggregate pipeline => deployment.aggregate pipeline documents
  | .vectorSearch searchQuery preFilter => deployment.vectorSearch searchQuery preFilter documents
  | .fulltext searchQuery preFilter => deployment.fulltext searchQuery preFilter documents

/-! ## Answers with the result -/

/-- How the documents and the count of an answer show a result. -/
abbrev Showing := List Document → List Document → ℕ → Prop

def ShowsAll : Showing := fun result documents _ ↦ documents = result

/-- The documents are the first, and all are counted. -/
def ShowsFirst : Showing := fun result documents count ↦
  documents = result.take maxAnswerDocuments ∧ count = result.length

/-- Whenever a question is translated to a query and there is an answer, the query has a result and
the answer shows it. -/
def AnswersWithResult (session : Session Regex) (shows : Showing) (mql : CompiledMql) : Prop :=
  ∀ (deployment : Deployment) (translator : Option (CompiledQueryTranslator Regex))
    (embed : String → Except String (List UInt64)) (arguments : Json) (question : Question)
    (compiled : CompiledQuery) (answer : AskAnswer),
    questionOf .ask arguments = .ok question →
    translateQuestion session ⟨deployment.toDatabase, translator, embed⟩ question = .ok compiled →
    compiled.mql = mql →
    executeAsk session ⟨deployment.toDatabase, translator, embed⟩ arguments = .ok answer →
      ∃ result, deployment.result question mql = .ok result ∧
        shows result answer.documents answer.count

/-- The options of a query are a limit that counts, whatever its sign, and nothing else. -/
def OnlyLimit (count : ℕ) (options : Option Document) : Prop :=
  ∃ own, compiledOptions options = .ok own ∧ own.PlainOrder ∧ (own.limit.getD 0).natAbs = count

/-- Queries with a result of which the answer shows all. -/
def ShownWhole : CompiledMql → Prop
  | .find _ options => OnlyLimit maxAnswerDocuments options
  | .aggregate pipeline => ∃ limit ∈ pipelineBound pipeline, limit ≤ maxAnswerDocuments
  | .vectorSearch _ _ | .fulltext _ _ | .geo _ _ => False

/-- Queries with a result that the answer shows and counts. -/
def ShownCounted : CompiledMql → Prop
  | .find _ options => OnlyLimit maxFindLimit.natAbs options
  | .aggregate _ => True
  | .vectorSearch _ _ | .fulltext _ _ | .geo _ _ => False

/-! ## Reduction to the execution -/

section Reduction

variable {session : Session Regex} {shows : Showing} {mql : CompiledMql}

/-- The question in the arguments is asked. -/
theorem tool_of_questionOf {arguments : Json} {question : Question}
    (h : questionOf .ask arguments = .ok question) :
    question = ⟨.ask, question.text, question.database, question.collection⟩ := by
  unfold questionOf at h
  split at h
  · cases h
  · cases h
  · cases h
  · obtain rfl := Except.ok.inj h
    rfl

/-- An answer shows what the execution found. -/
theorem executeAsk_eq_ok {world : World Regex} {arguments : Json} {question : Question}
    {compiled : CompiledQuery} {answer : AskAnswer}
    (hquestion : questionOf .ask arguments = .ok question)
    (hcompiled : translateQuestion session world question = .ok compiled) :
    executeAsk session world arguments = .ok answer ↔
      ∃ found, executeCompiled world.database question compiled.mql = .ok found ∧
        answer = answerOf question compiled found := by
  unfold executeAsk
  simp only [hquestion, hcompiled, bind, Except.bind]
  cases hfound : executeCompiled world.database question compiled.mql with
  | error reason => simp
  | ok found => simp [eq_comm]

def askArguments (text database collection : String) : Json :=
  .object [("question", .string text), ("database", .string database),
    ("collection", .string collection)]

def cachedQuery (mql : CompiledMql) : CompiledQuery := ⟨"", "", "", "", mql, none⟩

/-- Only the execution counts, as every query can be in the cache. -/
theorem answersWithResult_iff : AnswersWithResult session shows mql ↔
    ∀ (deployment : Deployment) (text database collection : String) (found : List Document),
      executeCompiled deployment.toDatabase ⟨.ask, text, database, collection⟩ mql = .ok found →
        ∃ result, deployment.result ⟨.ask, text, database, collection⟩ mql = .ok result ∧
          shows result (found.take maxAnswerDocuments) found.length := by
  constructor
  · intro hanswers deployment text database collection found hfound
    have hquestion : questionOf .ask (askArguments text database collection) =
        .ok ⟨.ask, text, database, collection⟩ := rfl
    have hcompiled : translateQuestion session
        ⟨deployment.toDatabase, some ⟨fun _ ↦ some (cachedQuery mql), none, []⟩,
          fun _ ↦ .error ""⟩ ⟨.ask, text, database, collection⟩ = .ok (cachedQuery mql) := rfl
    exact hanswers deployment _ _ _ _ _ _ hquestion hcompiled rfl
      ((executeAsk_eq_ok hquestion hcompiled).mpr ⟨found, hfound, rfl⟩)
  · intro hexecution deployment translator embed arguments question compiled answer hquestion
      hcompiled hmql hanswer
    obtain ⟨found, hfound, rfl⟩ := (executeAsk_eq_ok hquestion hcompiled).mp hanswer
    rw [hmql, tool_of_questionOf hquestion] at hfound
    rw [tool_of_questionOf hquestion]
    exact hexecution deployment _ _ _ found hfound

end Reduction

/-! ## Finds -/

/-- A deployment with the same documents everywhere, where no find is refused. -/
def Deployment.holding (language : QueryLanguage) (documents : List Document) : Deployment where
  contents _ _ := documents
  find filter options documents := .ok (language.find filter options documents)
  runStage := (Database.plenty documents.length).runStage
  find_limit filter options documents found limit hfound hlimit hne := by
    obtain rfl := Except.ok.inj hfound
    rw [QueryLanguage.find, List.length_map, hlimit, Option.getD_some]
    exact QueryLanguage.length_limited_le hne _
  stage_limits := (Database.plenty documents.length).stage_limits
  stage_keeps := (Database.plenty documents.length).stage_keeps
  language := language
  refusal _ _ _ := none
  vectorSearch _ _ documents := .ok documents
  fulltext _ _ documents := .ok documents
  find_eq _ _ _ := rfl

section Finds

variable {filter : Document} {options : Option Document}

/-- What a find with only a limit returns. -/
theorem find_onlyLimit (language : QueryLanguage) (filter : Document) {limit : ℤ}
    (hlimit : limit ≠ 0) (documents : List Document) :
    language.find filter { limit := some limit } documents =
      ((language.selection filter [] documents).take limit.natAbs).map (language.projected []) := by
  simp [QueryLanguage.find, QueryLanguage.limited, hlimit]

theorem find_everything_limit {limit : ℤ} (hlimit : limit ≠ 0) (documents : List Document) :
    QueryLanguage.everything.find filter { limit := some limit } documents =
      documents.take limit.natAbs := by
  have hsorted : QueryLanguage.everything.sorted [] documents = documents := rfl
  have hprojected : QueryLanguage.everything.projected [] = id := rfl
  rw [find_onlyLimit _ _ hlimit, QueryLanguage.selection_everything, hsorted, hprojected,
    List.map_id]

/-- A find with a limit of everything returns the first documents only if the limit is their number
and the other options change nothing. -/
theorem onlyLimit_of_find (filter : Document) {own : FindOptions} {count : ℕ} (hpos : 0 < count)
    (hhead : ∀ documents, (QueryLanguage.everything.find filter own documents).head? =
      documents.head?)
    (hlength : ∀ documents, (QueryLanguage.everything.find filter own documents).length =
      min count documents.length) :
    own.PlainOrder ∧ (own.limit.getD 0).natAbs = count := by
  have hfindOne (documents : List Document) :
      QueryLanguage.everything.findOne filter own documents = documents.head? := by
    rw [← QueryLanguage.head?_find]
    exact hhead documents
  have hplain : own.PlainOrder := QueryLanguage.plainOrder_of_findOne hfindOne
  refine ⟨hplain, ?_⟩
  have hmany := hlength (List.replicate (count + (own.limit.getD 0).natAbs + 1) [])
  have hsorted : QueryLanguage.everything.sorted [] = id := rfl
  rw [QueryLanguage.find, List.length_map, QueryLanguage.selection_everything, hplain.1,
    hplain.2.1, hsorted, List.drop_zero, QueryLanguage.limited] at hmany
  split_ifs at hmany with hzero
  · simp only [id, List.length_replicate] at hmany
    omega
  · simp only [id, List.length_take, List.length_replicate] at hmany
    omega

/-- A find is executed with its filter and a limit. -/
theorem executeCompiled_find (deployment : Deployment) (question : Question) :
    executeCompiled deployment.toDatabase question (.find filter options) =
      match deployment.refusal filter [] [] with
      | some reason => .error reason
      | none => .ok (((deployment.language.selection filter []
          (deployment.contents question.database question.collection)).take
            maxFindLimit.natAbs).map (deployment.language.projected [])) := by
  have hlimit : maxFindLimit ≠ 0 := by decide
  rw [executeCompiled, Database.reply]
  simp only [deployment.find_eq, Option.getD_none, find_onlyLimit _ _ hlimit]

/-- The result of a find whose options are only a limit. -/
theorem result_find {count : ℕ} (hpos : 0 < count) (honly : OnlyLimit count options)
    (deployment : Deployment) (question : Question) :
    deployment.result question (.find filter options) =
      match deployment.refusal filter [] [] with
      | some reason => .error reason
      | none => .ok (((deployment.language.selection filter []
          (deployment.contents question.database question.collection)).take count).map
            (deployment.language.projected [])) := by
  obtain ⟨own, hown, hplain, rfl⟩ := honly
  have hfind (documents : List Document) : deployment.language.find filter own documents =
      ((deployment.language.selection filter [] documents).take (own.limit.getD 0).natAbs).map
        (deployment.language.projected []) := by
    cases hlimit : own.limit with
    | none => simp [hlimit] at hpos
    | some limit =>
      have hne : limit ≠ 0 := by simpa [hlimit] using hpos
      rw [QueryLanguage.find_plainOrder _ _ hplain, hlimit, find_onlyLimit _ _ hne,
        Option.getD_some]
  simp only [Deployment.result, hown, Except.bind, deployment.find_eq, hplain.2.1, hplain.2.2,
    hfind]

/-- If every answer shows the result of a find, then its options can be read, and a find of
everything with them returns what the answer shows. -/
theorem exists_own_of_shows {shows : Showing}
    (h : ∀ (deployment : Deployment) (text database collection : String)
      (found : List Document), executeCompiled deployment.toDatabase
          ⟨.ask, text, database, collection⟩ (.find filter options) = .ok found →
        ∃ result, deployment.result ⟨.ask, text, database, collection⟩ (.find filter options) =
            .ok result ∧ shows result (found.take maxAnswerDocuments) found.length) :
    ∃ own, compiledOptions options = .ok own ∧ ∀ documents : List Document,
      shows (QueryLanguage.everything.find filter own documents)
        ((documents.take maxFindLimit.natAbs).take maxAnswerDocuments)
        (documents.take maxFindLimit.natAbs).length := by
  have hlimit : maxFindLimit ≠ 0 := by decide
  have hshown (documents : List Document) : ∃ result,
      (compiledOptions options).bind (fun own ↦
        .ok (QueryLanguage.everything.find filter own documents)) = .ok result ∧
      shows result ((documents.take maxFindLimit.natAbs).take maxAnswerDocuments)
        (documents.take maxFindLimit.natAbs).length := by
    have hfound : executeCompiled (Deployment.holding .everything documents).toDatabase
        ⟨.ask, "", "", ""⟩ (.find filter options) =
          .ok (documents.take maxFindLimit.natAbs) := by
      rw [← find_everything_limit hlimit documents]
      rfl
    exact h _ _ _ _ _ hfound
  cases hown : compiledOptions options with
  | error reason =>
    obtain ⟨result, hresult, -⟩ := hshown []
    rw [hown] at hresult
    cases hresult
  | ok own =>
    refine ⟨own, rfl, fun documents ↦ ?_⟩
    obtain ⟨result, hresult, hshows⟩ := hshown documents
    rw [hown] at hresult
    obtain rfl := Except.ok.inj hresult
    exact hshows

/-- The answer shows the whole result of a find exactly if its options are only a limit to the
documents in an answer. -/
theorem answersWhole_find_iff {session : Session Regex} :
    AnswersWithResult session ShowsAll (.find filter options) ↔
      OnlyLimit maxAnswerDocuments options := by
  rw [answersWithResult_iff]
  constructor
  · intro h
    obtain ⟨own, hown, hshows⟩ := exists_own_of_shows h
    have hfind (documents : List Document) :
        QueryLanguage.everything.find filter own documents =
          documents.take maxAnswerDocuments := by
      rw [← hshows documents, List.take_take]
      rfl
    refine ⟨own, hown, onlyLimit_of_find filter (by decide) (fun documents ↦ ?_) fun documents ↦ ?_⟩
    · rw [hfind, List.head?_take, if_neg (by decide)]
    · rw [hfind, List.length_take]
  · intro honly deployment text database collection found hfound
    rw [executeCompiled_find] at hfound
    rw [result_find (by decide) honly]
    cases hrefusal : deployment.refusal filter [] [] with
    | some reason =>
      rw [hrefusal] at hfound
      cases hfound
    | none =>
      rw [hrefusal] at hfound
      obtain rfl := Except.ok.inj hfound
      refine ⟨_, rfl, ?_⟩
      rw [ShowsAll, ← List.map_take, List.take_take]
      rfl

/-- The answer shows and counts the result of a find exactly if its options are only the limit of
the execution. -/
theorem answersCounted_find_iff {session : Session Regex} :
    AnswersWithResult session ShowsFirst (.find filter options) ↔
      OnlyLimit maxFindLimit.natAbs options := by
  rw [answersWithResult_iff]
  constructor
  · intro h
    obtain ⟨own, hown, hshows⟩ := exists_own_of_shows h
    refine ⟨own, hown, onlyLimit_of_find filter (by decide) (fun documents ↦ ?_) fun documents ↦ ?_⟩
    · have hfirst := congrArg List.head? (hshows documents).1
      rw [List.take_take] at hfirst
      simpa [List.head?_take, maxAnswerDocuments, maxFindLimit] using hfirst.symm
    · rw [← (hshows documents).2, List.length_take]
  · intro honly deployment text database collection found hfound
    rw [executeCompiled_find] at hfound
    rw [result_find (by decide) honly]
    exact ⟨found, hfound, rfl, rfl⟩

end Finds

/-! ## Aggregations -/

theorem aggregate_holding (language : QueryLanguage) (documents pipeline input : List Document) :
    (Deployment.holding language documents).aggregate pipeline input =
      (Database.plenty documents.length).aggregate pipeline input := by
  induction pipeline generalizing input with
  | nil => rfl
  | cons stage rest ih =>
    rw [Database.aggregate, Database.aggregate]
    exact congrArg _ (funext ih)

/-- The answer shows the whole result of an aggregation exactly if its stages bound it. -/
theorem answersWhole_aggregate_iff {session : Session Regex} {pipeline : List Document} :
    AnswersWithResult session ShowsAll (.aggregate pipeline) ↔
      ∃ limit ∈ pipelineBound pipeline, limit ≤ maxAnswerDocuments := by
  rw [answersWithResult_iff]
  constructor
  · intro h
    let documents : List Document := List.replicate (maxAnswerDocuments + 1) []
    obtain ⟨found, hfound, hcount⟩ :=
      Database.exists_aggregate_plenty (maxAnswerDocuments + 1) pipeline
    have hexecuted : executeCompiled (Deployment.holding .everything documents).toDatabase
        ⟨.ask, "", "", ""⟩ (.aggregate pipeline) = .ok found :=
      (aggregate_holding _ _ _ _).trans hfound
    obtain ⟨result, hresult, hshows⟩ := h _ _ _ _ _ hexecuted
    obtain rfl := Except.ok.inj (hexecuted.symm.trans hresult)
    have hlength : found.length ≤ maxAnswerDocuments := by
      rw [← hshows]
      exact List.length_take_le _ _
    cases hbound : pipelineBound pipeline with
    | none =>
      simp only [hbound, Option.elim_none] at hcount
      omega
    | some limit =>
      simp only [hbound, Option.elim_some] at hcount
      exact ⟨limit, rfl, by omega⟩
  · rintro ⟨limit, hlimit, hle⟩ deployment text database collection found hfound
    have hlength := Database.length_le_of_aggregate hfound limit hlimit
    exact ⟨found, hfound, List.take_of_length_le (hlength.trans hle)⟩

/-- The answer shows and counts the result of every aggregation. -/
theorem answersCounted_aggregate {session : Session Regex} {pipeline : List Document} :
    AnswersWithResult session ShowsFirst (.aggregate pipeline) :=
  answersWithResult_iff.mpr fun _ _ _ _ found hfound ↦ ⟨found, hfound, rfl, rfl⟩

/-! ## Other methods -/

def NotRun : CompiledMql → Prop
  | .find _ _ | .aggregate _ => False
  | .vectorSearch _ _ | .fulltext _ _ | .geo _ _ => True

/-- A find of everything finds documents after those that it skips. -/
theorem find_everything_ne_nil (filter : Document) (own : FindOptions) :
    QueryLanguage.everything.find filter own
      (List.replicate (own.skip.getD 0 + 1) []) ≠ [] := by
  intro hnil
  have hhead := congrArg List.head? hnil
  have hsorted : QueryLanguage.everything.sorted (own.sort.getD [])
      (List.replicate (own.skip.getD 0 + 1) []) = List.replicate (own.skip.getD 0 + 1) [] := by
    cases own.sort.getD [] with
    | nil => rfl
    | cons key keys => exact List.reverse_replicate
  rw [QueryLanguage.find, List.head?_map, QueryLanguage.head?_limited,
    QueryLanguage.selection_everything, hsorted, List.drop_replicate] at hhead
  simp at hhead

/-- A query that is not run can have documents in its result. -/
theorem exists_result_of_notRun {mql : CompiledMql} (h : NotRun mql) : ∃ deployment : Deployment,
    ∀ question result, deployment.result question mql = .ok result → result ≠ [] := by
  cases mql with
  | find => exact h.elim
  | aggregate => exact h.elim
  | vectorSearch searchQuery preFilter =>
    refine ⟨.holding .everything [[]], fun question result hresult ↦ ?_⟩
    obtain rfl := Except.ok.inj hresult
    exact List.cons_ne_nil _ _
  | fulltext searchQuery preFilter =>
    refine ⟨.holding .everything [[]], fun question result hresult ↦ ?_⟩
    obtain rfl := Except.ok.inj hresult
    exact List.cons_ne_nil _ _
  | geo filter options =>
    cases hown : compiledOptions options with
    | error reason =>
      refine ⟨.holding .everything [], fun question result hresult ↦ ?_⟩
      rw [Deployment.result, hown] at hresult
      cases hresult
    | ok own =>
      refine ⟨.holding .everything (List.replicate (own.skip.getD 0 + 1) []),
        fun question result hresult ↦ ?_⟩
      rw [Deployment.result, hown] at hresult
      obtain rfl := Except.ok.inj hresult
      exact find_everything_ne_nil filter own

theorem not_answers_of_notRun {session : Session Regex} {shows : Showing} {mql : CompiledMql}
    (hnone : ∀ result, shows result [] 0 → result = []) (h : NotRun mql) :
    ¬ AnswersWithResult session shows mql := by
  rw [answersWithResult_iff]
  intro hanswers
  obtain ⟨deployment, hne⟩ := exists_result_of_notRun h
  have hexecuted : executeCompiled deployment.toDatabase ⟨.ask, "", "", ""⟩ mql = .ok [] := by
    cases mql with
    | find => exact h.elim
    | aggregate => exact h.elim
    | vectorSearch => rfl
    | fulltext => rfl
    | geo => rfl
  obtain ⟨result, hresult, hshows⟩ := hanswers _ _ _ _ _ hexecuted
  exact hne _ _ hresult (hnone result hshows)

theorem eq_nil_of_showsAll {result : List Document} (h : ShowsAll result [] 0) : result = [] :=
  h.symm

theorem eq_nil_of_showsFirst {result : List Document} (h : ShowsFirst result [] 0) : result = [] :=
  List.eq_nil_of_length_eq_zero h.2.symm

/-! ## All queries -/

/-- A question is answered with the result of the compiled query, whatever is in the database,
exactly for these queries.  All of the result is shown for a find with a limit to the documents in
an answer and no other option, and for an aggregation that its stages bound.  The result is counted
and its first documents are shown for a find with the limit of the execution and no other option,
and for every aggregation. -/
theorem answersWithResult_iff_shown (session : Session Regex) (mql : CompiledMql) :
    (AnswersWithResult session ShowsAll mql ↔ ShownWhole mql) ∧
      (AnswersWithResult session ShowsFirst mql ↔ ShownCounted mql) := by
  cases mql with
  | find filter options => exact ⟨answersWhole_find_iff, answersCounted_find_iff⟩
  | aggregate pipeline =>
    exact ⟨answersWhole_aggregate_iff, iff_of_true answersCounted_aggregate trivial⟩
  | vectorSearch searchQuery preFilter =>
    exact ⟨iff_of_false (not_answers_of_notRun (fun _ ↦ eq_nil_of_showsAll) trivial) id,
      iff_of_false (not_answers_of_notRun (fun _ ↦ eq_nil_of_showsFirst) trivial) id⟩
  | fulltext searchQuery preFilter =>
    exact ⟨iff_of_false (not_answers_of_notRun (fun _ ↦ eq_nil_of_showsAll) trivial) id,
      iff_of_false (not_answers_of_notRun (fun _ ↦ eq_nil_of_showsFirst) trivial) id⟩
  | geo filter options =>
    exact ⟨iff_of_false (not_answers_of_notRun (fun _ ↦ eq_nil_of_showsAll) trivial) id,
      iff_of_false (not_answers_of_notRun (fun _ ↦ eq_nil_of_showsFirst) trivial) id⟩

/-! ## The best restaurant, and the restaurants near by -/

def lilys : Document := [("name", .string "Lily's"), ("rating", .int32 3)]

def adas : Document := [("name", .string "Ada's"), ("rating", .int32 5)]

/-- A session whose language model gives one answer. -/
def answeringSession (answer : Json) : Session Unit where
  crates := readingCrates answer
  toBson _ := .error ""
  sampleText _ := ""

/-- The highest rating first, and one document. -/
def bestAnswer : Json :=
  .object [("method", .string "filter"), ("filter", .object []),
    ("options", .object [("sort", .object [("rating", .number (.negInt (-1)))]),
      ("limit", .number (.posInt 1))])]

def bestText : String :=
  "\x7b\"method\":\"filter\",\"filter\":\x7b\x7d," ++
    "\"options\":\x7b\"sort\":\x7b\"rating\":-1\x7d,\"limit\":1\x7d\x7d"

def nearAnswer : Json :=
  .object [("method", .string "geo"), ("filter", .object [("location", .object [("$near",
    .array [.number (.posInt 2), .number (.posInt 41)])])])]

def nearText : String :=
  "\x7b\"method\":\"geo\",\"filter\":\x7b\"location\":\x7b\"$near\":[2,41]\x7d\x7d\x7d"

/-- A town with two restaurants, where a sort by the rating reverses them. -/
def town : Deployment := .holding .everything [lilys, adas]

/-- The town, and a translator that asks the language model. -/
def townWorld (text : String) : World Unit :=
  ⟨town.toDatabase, some (freshTranslator text), fun _ ↦ .error ""⟩

def townQuestion (text : String) : Question := ⟨.ask, text, "town", "restaurants"⟩

/-- Asked for the best restaurant, the tool shows all restaurants in another order.  Asked for those
near by, it shows none. -/
theorem other_results_are_answered :
    (∃ filter options,
      (translateQuestion (answeringSession bestAnswer) (townWorld bestText)
          (townQuestion "the best")).map CompiledQuery.mql = .ok (.find filter options) ∧
      town.result (townQuestion "the best") (.find filter options) = .ok [adas] ∧
      (executeAsk (answeringSession bestAnswer) (townWorld bestText)
          (askArguments "the best" "town" "restaurants")).map AskAnswer.documents =
        .ok [lilys, adas]) ∧
    (∃ filter options,
      (translateQuestion (answeringSession nearAnswer) (townWorld nearText)
          (townQuestion "near me")).map CompiledQuery.mql = .ok (.geo filter options) ∧
      town.result (townQuestion "near me") (.geo filter options) = .ok [lilys, adas] ∧
      (executeAsk (answeringSession nearAnswer) (townWorld nearText)
          (askArguments "near me" "town" "restaurants")).map AskAnswer.documents = .ok []) := by
  exact ⟨⟨_, _, rfl, rfl, rfl⟩, ⟨_, _, rfl, rfl, rfl⟩⟩

end MongoCore.Mcp.AskExecution
