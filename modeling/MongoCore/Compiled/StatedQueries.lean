import MongoCore.Compiled.QuerySafety
import MongoCore.Library.Results

/-!
# Queries that an answer states

The answer of the language model is free text.  It is read as JSON, and each method takes its own
members of the JSON value.

The main result says that the query that is read is the one that the members state.  A name of no
method stands for a find.
-/

namespace MongoCore.Compiled

open MongoCore.Data MongoCore.Library.Results

/-! ## What an answer states -/

def methodNames : List String := ["filter", "aggregate", "vector_search", "fulltext", "geo"]

/-- The method that an answer names.  Without a name of its own, an old type does. -/
inductive Names (value : Json) : String → Prop where
  | method {name : String} : value.get? "method" = some (.string name) → Names value name
  | aggregateType : (∀ name, value.get? "method" ≠ some (.string name)) →
      value.get? "type" = some (.string "aggregate") → Names value "aggregate"
  | otherType : (∀ name, value.get? "method" ≠ some (.string name)) →
      value.get? "type" ≠ some (.string "aggregate") → Names value "filter"

namespace CompiledMql

def filter? : CompiledMql → Option Document
  | .find filter _ | .geo filter _ => some filter
  | _ => none

def pipeline? : CompiledMql → Option (List Document)
  | .aggregate pipeline => some pipeline
  | _ => none

def options? : CompiledMql → Option Document
  | .find _ options | .geo _ options => options
  | _ => none

def searchQuery? : CompiledMql → Option String
  | .vectorSearch searchQuery _ | .fulltext searchQuery _ => some searchQuery
  | _ => none

def preFilter? : CompiledMql → Option Document
  | .vectorSearch _ preFilter | .fulltext _ preFilter => preFilter
  | _ => none

end CompiledMql

section Stated

variable {Regex : Type} (crates : Crates Regex)

/-- An optional document is the one of a member: none for a missing member or null, and the BSON of
a member that has one. -/
structure Carried (value : Json) (key : String) (document : Option Document) : Prop where
  absent : value.get? key = none ∨ value.get? key = some .null → document = none
  present : ∀ member converted, value.get? key = some member →
    crates.toDocument member = .ok converted → document = some converted

structure States (value : Json) (mql : CompiledMql) : Prop where
  method : ∀ name, Names value name →
    mql.method = if name ∈ methodNames then name else "filter"
  filter : ∀ name, Names value name → name = "filter" ∨ name = "geo" →
    ∃ member document, value.get? "filter" = some member ∧ member.isObject = true ∧
      crates.toDocument member = .ok document ∧ mql.filter? = some document
  options : ∀ name, Names value name → name = "filter" ∨ name = "geo" →
    Carried crates value "options" mql.options?
  pipeline : Names value "aggregate" → ∃ items stages,
    value.get? "pipeline" = some (.array items) ∧ mql.pipeline? = some stages ∧
      List.Forall₂ (fun item stage ↦ crates.toDocument item = .ok stage) items stages
  preFilter : ∀ name, Names value name → name = "vector_search" ∨ name = "fulltext" →
    Carried crates value "pre_filter" mql.preFilter?
  searchQuery : ∀ name, Names value name → name = "vector_search" ∨ name = "fulltext" →
    (∀ text, value.get? "search_query" = some (.string text) → mql.searchQuery? = some text) ∧
      (value.get? "search_query" = none →
        ∀ text, value.get? "query" = some (.string text) → mql.searchQuery? = some text)
  unknown : ∀ name, Names value name → name ∉ methodNames → ∀ member document,
    value.get? "filter" = some member → crates.toDocument member = .ok document →
      mql.filter? = some document

/-- An answer lacks what its method needs: a filter that is an object, or an array of objects as the
pipeline. -/
inductive Lacking (value : Json) : Prop where
  | filter {name : String} : Names value name → name = "filter" ∨ name = "geo" →
      (∀ member, value.get? "filter" = some member → member.isObject = false) → Lacking value
  | pipeline : Names value "aggregate" →
      (∀ items, value.get? "pipeline" = some (.array items) →
        ∃ item ∈ items, item.isObject = false) → Lacking value

/-- A response is translated to what it states, or refused. -/
structure Translated (response : String)
    (result : Except TranslateError (CompiledMql × Option LlmTemplate)) : Prop where
  states : ∀ mql template, result = .ok (mql, template) → ∃ value,
    crates.fromStr (cleanResponse response) = .ok value ∧ States crates value mql
  refused : (∀ value, crates.fromStr (cleanResponse response) = .ok value → Lacking value) →
    ∃ text, result = .error (.parseError text)

/-! ## Reading the members -/

variable {crates}

theorem bind_asStr?_eq_some {member : Option Json} {text : String} :
    member.bind Json.asStr? = some text ↔ member = some (.string text) := by
  cases member with
  | none => simp
  | some member => cases member <;> simp [Json.asStr?]

/-- An answer names the method that it is read with. -/
theorem names_methodOf (value : Json) : Names value (methodOf value) := by
  unfold methodOf
  cases hmethod : (value.get? "method").bind Json.asStr? with
  | some name => exact .method (bind_asStr?_eq_some.mp hmethod)
  | none =>
    have hnone : ∀ name, value.get? "method" ≠ some (.string name) := fun name hname ↦ by
      rw [hname] at hmethod
      cases hmethod
    by_cases htype : (value.get? "type").bind Json.asStr? = some "aggregate"
    · simp only [if_pos htype]
      exact .aggregateType hnone (bind_asStr?_eq_some.mp htype)
    · simp only [if_neg htype]
      exact .otherType hnone fun h ↦ htype (bind_asStr?_eq_some.mpr h)

/-- An answer names one method. -/
theorem Names.unique {value : Json} {name other : String} (hname : Names value name)
    (hother : Names value other) : name = other := by
  cases hname with
  | method hname =>
    cases hother with
    | method hother =>
      rw [hname] at hother
      exact Json.string.inj (Option.some.inj hother)
    | aggregateType hnone => exact absurd hname (hnone _)
    | otherType hnone => exact absurd hname (hnone _)
  | aggregateType hnone htype =>
    cases hother with
    | method hother => exact absurd hother (hnone _)
    | aggregateType => rfl
    | otherType _ hother => exact absurd htype hother
  | otherType hnone htype =>
    cases hother with
    | method hother => exact absurd hother (hnone _)
    | aggregateType _ hother => exact absurd hother htype
    | otherType => rfl

theorem Names.eq_methodOf {value : Json} {name : String} (hname : Names value name) :
    methodOf value = name :=
  (names_methodOf value).unique hname

variable (hobject : ∀ value document, crates.toDocument value = .ok document →
  value.isObject = true)

include hobject in
theorem carried_optionalDocument (value : Json) (key : String) :
    Carried crates value key (optionalDocument crates value key) where
  absent := by
    rintro (hnone | hnull)
    · rw [optionalDocument, hnone]
      rfl
    · rw [optionalDocument, hnull, Option.bind_some]
      cases hconverted : crates.toDocument .null with
      | error reason => rfl
      | ok document => exact absurd (hobject _ _ hconverted) (by decide)
  present member converted hmember hconverted := by
    rw [optionalDocument, hmember, Option.bind_some, hconverted]
    rfl

include hobject in
/-- The filter that is read is that of a member. -/
theorem exists_member_of_filterOf {value : Json} {document : Document}
    (hfilter : filterOf crates value = .ok document) : ∃ member,
      value.get? "filter" = some member ∧ member.isObject = true ∧
        crates.toDocument member = .ok document := by
  unfold filterOf at hfilter
  cases hconverted : crates.toDocument (index value "filter") with
  | error reason => simp [hconverted] at hfilter
  | ok converted =>
    simp only [hconverted, Except.ok.injEq] at hfilter
    have hmember := hobject _ _ hconverted
    unfold index at hconverted hmember
    cases hget : value.get? "filter" with
    | none =>
      rw [hget] at hmember
      exact absurd hmember (by decide)
    | some member =>
      rw [hget, Option.getD_some] at hconverted hmember
      exact ⟨member, rfl, hmember, hfilter ▸ hconverted⟩

theorem get?_pipeline_of_asArray? {value : Json} {items : List Json}
    (hitems : (index value "pipeline").asArray? = some items) :
    value.get? "pipeline" = some (.array items) := by
  unfold index at hitems
  cases hget : value.get? "pipeline" with
  | none => simp [hget, Json.asArray?] at hitems
  | some member =>
    rw [hget, Option.getD_some] at hitems
    cases member <;> simp_all [Json.asArray?]

theorem toDocument_of_stageOf {item : Json} {stage : Document}
    (hstage : stageOf crates item = .ok stage) : crates.toDocument item = .ok stage := by
  unfold stageOf at hstage
  split at hstage
  case h_1 document hdocument => rw [hdocument, Except.ok.inj hstage]
  case h_2 => cases hstage

theorem exists_parseError_of_stageOf {item : Json} {error : TranslateError}
    (hstage : stageOf crates item = .error error) : ∃ text,
      (.error error : Except TranslateError (List Document)) = .error (.parseError text) := by
  unfold stageOf at hstage
  split at hstage
  case h_1 => cases hstage
  case h_2 reason _ => exact ⟨reason, congrArg _ (Except.error.inj hstage).symm⟩

/-- The stages that are read are those of the items of an array. -/
theorem exists_items_of_pipelineOf {value : Json} {pipeline : List Document}
    (hpipeline : pipelineOf crates value = .ok pipeline) : ∃ items,
      value.get? "pipeline" = some (.array items) ∧
        List.Forall₂ (fun item stage ↦ crates.toDocument item = .ok stage) items pipeline := by
  unfold pipelineOf at hpipeline
  cases hitems : (index value "pipeline").asArray? with
  | none => simp [hitems] at hpipeline
  | some items =>
    simp only [hitems] at hpipeline
    exact ⟨items, get?_pipeline_of_asArray? hitems,
      (mapM_eq_ok.mp hpipeline).imp fun _ _ ↦ toDocument_of_stageOf⟩

/-! ## Reading a query -/

inductive Reading (crates : Crates Regex) (value : Json) : String → CompiledMql → Prop where
  | filter {filter : Document} : filterOf crates value = .ok filter →
      Reading crates value "filter" (.find filter (optionalDocument crates value "options"))
  | geo {filter : Document} : filterOf crates value = .ok filter →
      Reading crates value "geo" (.geo filter (optionalDocument crates value "options"))
  | aggregate {pipeline : List Document} : pipelineOf crates value = .ok pipeline →
      Reading crates value "aggregate" (.aggregate pipeline)
  | vectorSearch : Reading crates value "vector_search"
      (.vectorSearch (searchQueryOf value) (optionalDocument crates value "pre_filter"))
  | fulltext : Reading crates value "fulltext"
      (.fulltext (searchQueryOf value) (optionalDocument crates value "pre_filter"))
  | unknown {method : String} : method ∉ methodNames → Reading crates value method
      (.find ((crates.toDocument (index value "filter")).toOption.getD []) none)

theorem reading_of_parseMethodResponse {value : Json} {method : String} {mql : CompiledMql}
    (hparse : parseMethodResponse crates value method = .ok mql) :
    Reading crates value method mql := by
  unfold parseMethodResponse at hparse
  split_ifs at hparse with hfilter hgeo haggregate hvector hfulltext
  · obtain ⟨filter, hread, hmql⟩ := bind_eq_ok.mp hparse
    rw [hfilter, ← Except.ok.inj hmql]
    exact .filter hread
  · obtain ⟨filter, hread, hmql⟩ := bind_eq_ok.mp hparse
    rw [hgeo, ← Except.ok.inj hmql]
    exact .geo hread
  · obtain ⟨pipeline, hread, hmql⟩ := bind_eq_ok.mp hparse
    rw [haggregate, ← Except.ok.inj hmql]
    exact .aggregate hread
  · rw [hvector, ← Except.ok.inj hparse]
    exact .vectorSearch
  · rw [hfulltext, ← Except.ok.inj hparse]
    exact .fulltext
  · rw [← Except.ok.inj hparse]
    refine .unknown fun hmem ↦ ?_
    simp only [methodNames, List.mem_cons, List.not_mem_nil, or_false] at hmem
    tauto

theorem method_of_reading {value : Json} {method : String} {mql : CompiledMql}
    (hreading : Reading crates value method mql) :
    mql.method = if method ∈ methodNames then method else "filter" := by
  cases hreading with
  | unknown hunknown => rw [if_neg hunknown, CompiledMql.method]
  | _ => simp [methodNames, CompiledMql.method]

namespace Reading

variable {value : Json} {name : String} {mql : CompiledMql}

theorem of_filter (hreading : Reading crates value name mql)
    (hname : name = "filter" ∨ name = "geo") : ∃ filter, filterOf crates value = .ok filter ∧
      mql.filter? = some filter ∧ mql.options? = optionalDocument crates value "options" := by
  cases hreading with
  | filter hfilter => exact ⟨_, hfilter, rfl, rfl⟩
  | geo hfilter => exact ⟨_, hfilter, rfl, rfl⟩
  | unknown hunknown => rcases hname with rfl | rfl <;> exact absurd (by decide) hunknown
  | _ => exact absurd hname (by decide)

theorem of_aggregate (hreading : Reading crates value name mql) (hname : name = "aggregate") :
    ∃ pipeline, pipelineOf crates value = .ok pipeline ∧ mql.pipeline? = some pipeline := by
  cases hreading with
  | aggregate hpipeline => exact ⟨_, hpipeline, rfl⟩
  | unknown hunknown => exact absurd (hname ▸ by decide) hunknown
  | _ => exact absurd hname (by decide)

theorem of_search (hreading : Reading crates value name mql)
    (hname : name = "vector_search" ∨ name = "fulltext") :
    mql.searchQuery? = some (searchQueryOf value) ∧
      mql.preFilter? = optionalDocument crates value "pre_filter" := by
  cases hreading with
  | vectorSearch => exact ⟨rfl, rfl⟩
  | fulltext => exact ⟨rfl, rfl⟩
  | unknown hunknown => rcases hname with rfl | rfl <;> exact absurd (by decide) hunknown
  | _ => exact absurd hname (by decide)

theorem of_unknown (hreading : Reading crates value name mql) (hname : name ∉ methodNames) :
    mql.filter? = some ((crates.toDocument (index value "filter")).toOption.getD []) := by
  cases hreading with
  | unknown => rfl
  | _ => exact absurd (by decide) hname

end Reading

/-- The text that is searched for is the one that is given. -/
theorem searchQueryOf_eq {value : Json} {text : String}
    (htext : value.get? "search_query" = some (.string text) ∨
      value.get? "search_query" = none ∧ value.get? "query" = some (.string text)) :
    searchQueryOf value = text := by
  unfold searchQueryOf
  rcases htext with hsearch | ⟨hnone, hquery⟩
  · rw [hsearch]
    rfl
  · rw [hnone, hquery]
    rfl

include hobject in
theorem states_of_reading {value : Json} {mql : CompiledMql}
    (hreading : Reading crates value (methodOf value) mql) : States crates value mql := by
  have hnamed : ∀ name, Names value name → Reading crates value name mql := fun name hname ↦
    hname.eq_methodOf ▸ hreading
  constructor
  case method => exact fun name hname ↦ method_of_reading (hnamed name hname)
  case filter =>
    intro name hname hfilter
    obtain ⟨filter, hread, hmql, -⟩ := (hnamed name hname).of_filter hfilter
    obtain ⟨member, hmember, hobj, hconverted⟩ := exists_member_of_filterOf hobject hread
    exact ⟨member, filter, hmember, hobj, hconverted, hmql⟩
  case options =>
    intro name hname hfilter
    obtain ⟨filter, -, -, hoptions⟩ := (hnamed name hname).of_filter hfilter
    rw [hoptions]
    exact carried_optionalDocument hobject value "options"
  case pipeline =>
    intro hname
    obtain ⟨pipeline, hread, hmql⟩ := (hnamed _ hname).of_aggregate rfl
    obtain ⟨items, hitems, hstages⟩ := exists_items_of_pipelineOf hread
    exact ⟨items, pipeline, hitems, hmql, hstages⟩
  case preFilter =>
    intro name hname hsearch
    rw [((hnamed name hname).of_search hsearch).2]
    exact carried_optionalDocument hobject value "pre_filter"
  case searchQuery =>
    intro name hname hsearch
    rw [((hnamed name hname).of_search hsearch).1]
    exact ⟨fun text htext ↦ congrArg some (searchQueryOf_eq (.inl htext)),
      fun hnone text htext ↦ congrArg some (searchQueryOf_eq (.inr ⟨hnone, htext⟩))⟩
  case unknown =>
    intro name hname hunknown member document hmember hconverted
    rw [(hnamed name hname).of_unknown hunknown, index, hmember, Option.getD_some, hconverted]
    rfl

/-! ## Refusals -/

include hobject in
theorem filterOf_eq_error {value : Json}
    (hlacking : ∀ member, value.get? "filter" = some member → member.isObject = false) :
    ∃ text, filterOf crates value = .error (.parseError text) := by
  unfold filterOf
  cases hconverted : crates.toDocument (index value "filter") with
  | error reason => exact ⟨_, rfl⟩
  | ok document =>
    have hindex := hobject _ _ hconverted
    unfold index at hindex
    cases hget : value.get? "filter" with
    | none =>
      rw [hget] at hindex
      exact absurd hindex (by decide)
    | some member =>
      rw [hget, Option.getD_some, hlacking member hget] at hindex
      exact absurd hindex (by decide)

include hobject in
theorem pipelineOf_eq_error {value : Json}
    (hlacking : ∀ items, value.get? "pipeline" = some (.array items) →
      ∃ item ∈ items, item.isObject = false) :
    ∃ text, pipelineOf crates value = .error (.parseError text) := by
  unfold pipelineOf
  cases hitems : (index value "pipeline").asArray? with
  | none => exact ⟨_, rfl⟩
  | some items =>
    simp only
    obtain ⟨item, hitem, hnot⟩ := hlacking items (get?_pipeline_of_asArray? hitems)
    cases hstages : items.mapM (stageOf crates) with
    | ok stages =>
      obtain ⟨stage, hstage⟩ := exists_of_mapM_eq_ok hstages hitem
      have hobj := hobject item stage (toDocument_of_stageOf hstage)
      rw [hnot] at hobj
      exact absurd hobj (by decide)
    | error error =>
      obtain ⟨other, -, herror⟩ := exists_of_mapM_eq_error hstages
      exact exists_parseError_of_stageOf herror

include hobject in
theorem parseMethodResponse_eq_error {value : Json} (hlacking : Lacking value) :
    ∃ text, parseMethodResponse crates value (methodOf value) = .error (.parseError text) := by
  cases hlacking with
  | filter hname hmethod hmember =>
    rw [hname.eq_methodOf]
    obtain ⟨text, herror⟩ := filterOf_eq_error hobject hmember
    refine ⟨text, ?_⟩
    rcases hmethod with rfl | rfl <;> simp [parseMethodResponse, herror, bind, Except.bind]
  | pipeline hname hitems =>
    rw [hname.eq_methodOf]
    obtain ⟨text, herror⟩ := pipelineOf_eq_error hobject hitems
    exact ⟨text, by simp [parseMethodResponse, herror, bind, Except.bind]⟩

include hobject in
/-- A response is translated to the query that it states, or refused if it lacks what its method
needs. -/
theorem translated_parseLlmResponse (response : String) :
    Translated crates response (parseLlmResponse crates response) := by
  constructor
  case states =>
    intro mql template hparse
    obtain ⟨value, hread, hparse⟩ := bind_eq_ok.mp hparse
    obtain ⟨read, hmql, hpair⟩ := bind_eq_ok.mp hparse
    obtain ⟨rfl, -⟩ := Prod.mk.inj (Except.ok.inj hpair)
    refine ⟨value, ?_, states_of_reading hobject (reading_of_parseMethodResponse hmql)⟩
    unfold readResponse at hread
    split at hread
    case h_1 other hvalue => rw [hvalue, Except.ok.inj hread]
    case h_2 => cases hread
  case refused =>
    intro hlacking
    unfold parseLlmResponse readResponse
    cases hvalue : crates.fromStr (cleanResponse response) with
    | error reason => exact ⟨_, rfl⟩
    | ok value =>
      obtain ⟨text, herror⟩ := parseMethodResponse_eq_error hobject (hlacking value hvalue)
      refine ⟨text, ?_⟩
      simp only [bind, Except.bind, herror]

end Stated

/-! ## Two answers -/

/-- A search with a pre-filter is translated to that search. -/
theorem translated_searchAnswer :
    Translated (readingCrates (searchAnswer "kind" "pet")) (searchText "kind" "pet")
      (.ok (.vectorSearch "cats" (some [("kind", .string "pet")]), none)) :=
  translated_parseLlmResponse (toDocument_readingCrates _) (searchText "kind" "pet")

def rankedAnswer : Json :=
  .object [("method", .string "text_search"), ("query", .string "shoes")]

def rankedText : String := "\x7b\"method\":\"text_search\",\"query\":\"shoes\"\x7d"

/-- The answer is no error: it becomes a find of all documents. -/
theorem not_refused_rankedAnswer : ¬ ∀ name, Names rankedAnswer name → name ∉ methodNames →
    ∃ text, parseLlmResponse (readingCrates rankedAnswer) rankedText =
      .error (.parseError text) := by
  intro hrefused
  have hread : parseLlmResponse (readingCrates rankedAnswer) rankedText =
      .ok (.find [] none, none) := rfl
  obtain ⟨text, herror⟩ := hrefused "text_search" (.method rfl) (by decide)
  rw [hread] at herror
  cases herror

end MongoCore.Compiled
