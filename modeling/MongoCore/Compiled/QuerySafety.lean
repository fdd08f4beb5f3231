import MongoCore.Compiled.Translator
import MongoCore.Library.Results

/-!
# Safety of compiled queries

A query is safe if no document in it has an operator that runs code and all stages of its pipelines
are allowed.  The translator validates every query that does not come from the cache, but not all
of it: options and pre-filters are not validated, nor are nested pipelines and what the walk over a
document does not come to.

The main result says that a translated query is safe exactly if these parts of the answer are.
-/

namespace MongoCore.Compiled

open MongoCore.Data

/-! ## Safe queries -/

/-- No document of a query has a dangerous operator, and all stages are allowed. -/
def CompiledMql.Safe : CompiledMql → Prop
  | .find filter options | .geo filter options => Harmless filter ∧ ∀ o ∈ options, Harmless o
  | .aggregate pipeline => StagesAllowed pipeline ∧ ∀ stage ∈ pipeline, Harmless stage
  | .vectorSearch _ preFilter | .fulltext _ preFilter => ∀ p ∈ preFilter, Harmless p

section Answers

variable {Regex : Type} (crates : Crates Regex)

def stagesOf (value : Json) : List Document :=
  ((index value "pipeline").asArray?.getD []).filterMap fun item ↦
    (crates.toDocument item).toOption

/-- The filter of an answer, empty if it is none. -/
def filterOrEmpty (value : Json) : Document :=
  (crates.toDocument (index value "filter")).toOption.getD []

/-- The parts of an answer that are not validated are safe: the options of a filter, the pre-filter
of a search, nested pipelines, and what the walk over a document does not come to. -/
def SafeWhereUnvalidated (value : Json) (method : String) : Prop :=
  if method = "filter" ∨ method = "geo" then
    HarmlessWhereUnvisited (filterOrEmpty crates value) ∧
      ∀ o ∈ optionalDocument crates value "options", Harmless o
  else if method = "aggregate" then
    StagesAllowedWhereUnvisited (stagesOf crates value) ∧
      ∀ stage ∈ stagesOf crates value, HarmlessWhereUnvisited stage
  else if method = "vector_search" ∨ method = "fulltext" then
    ∀ p ∈ optionalDocument crates value "pre_filter", Harmless p
  else HarmlessWhereUnvisited (filterOrEmpty crates value)

variable {crates}

theorem filterOrEmpty_of_filterOf {value : Json} {filter : Document}
    (h : filterOf crates value = .ok filter) : filterOrEmpty crates value = filter := by
  unfold filterOf at h
  unfold filterOrEmpty
  cases hfilter : crates.toDocument (index value "filter") with
  | error reason =>
    rw [hfilter] at h
    cases h
  | ok document =>
    rw [hfilter] at h
    obtain rfl := Except.ok.inj h
    rfl

theorem stagesOf_of_pipelineOf {value : Json} {pipeline : List Document}
    (h : pipelineOf crates value = .ok pipeline) : stagesOf crates value = pipeline := by
  have hitems : ∀ (items : List Json) (stages : List Document),
      items.mapM (stageOf crates) = .ok stages →
        items.filterMap (fun item ↦ (crates.toDocument item).toOption) = stages := by
    intro items stages h
    induction Library.Results.mapM_eq_ok.mp h with
    | nil => rfl
    | @cons item stage items stages hitem hitems ih =>
      have hdocument : (crates.toDocument item).toOption = some stage := by
        unfold stageOf at hitem
        split at hitem
        case h_1 hdocument => rw [hdocument, Except.ok.inj hitem, Except.toOption]
        case h_2 => cases hitem
      rw [List.filterMap_cons, hdocument, ih (Library.Results.mapM_eq_ok.mpr hitems)]
  unfold pipelineOf at h
  unfold stagesOf
  cases hpipeline : (index value "pipeline").asArray? with
  | none =>
    rw [hpipeline] at h
    cases h
  | some items =>
    rw [hpipeline] at h
    exact hitems items pipeline h

theorem of_validateMql_filter {filter : Document} {mql : CompiledMql} {options : Option Document}
    (hmql : mql = .find filter options ∨ mql = .geo filter options)
    (h : validateMql mql = .ok ()) : validateFilter filter = .ok () := by
  rcases hmql with rfl | rfl <;>
  · unfold validateMql at h
    simp only at h
    split at h
    · assumption
    · cases h

theorem of_validateMql_aggregate {pipeline : List Document}
    (h : validateMql (.aggregate pipeline) = .ok ()) : validatePipeline pipeline = .ok () := by
  unfold validateMql at h
  simp only at h
  split at h
  · assumption
  · cases h

/-- A query of a filter is safe exactly if its options are, and its filter where the validation does
not come to. -/
theorem safe_iff_of_filterQuery {value : Json} {mql : CompiledMql}
    {query : Document → Option Document → CompiledMql} (hquery : query = .find ∨ query = .geo)
    (hparse : (do
      let filter ← filterOf crates value
      return query filter (optionalDocument crates value "options")) = .ok mql)
    (hvalid : validateMql mql = .ok ()) :
    mql.Safe ↔ HarmlessWhereUnvisited (filterOrEmpty crates value) ∧
      ∀ o ∈ optionalDocument crates value "options", Harmless o := by
  cases hdocument : filterOf crates value with
  | error error =>
    rw [hdocument] at hparse
    cases hparse
  | ok filter =>
    rw [hdocument] at hparse
    obtain rfl := Except.ok.inj hparse
    rw [filterOrEmpty_of_filterOf hdocument]
    rcases hquery with rfl | rfl
    · exact and_congr_left' (harmless_iff_of_validateFilter
        (of_validateMql_filter (.inl rfl) hvalid))
    · exact and_congr_left' (harmless_iff_of_validateFilter
        (of_validateMql_filter (.inr rfl) hvalid))

/-- A query that is read from an answer and accepted is safe exactly if what is not validated of the
answer is. -/
theorem safe_iff_of_parse {value : Json} {method : String} {mql : CompiledMql}
    (hparse : parseMethodResponse crates value method = .ok mql)
    (hvalid : validateMql mql = .ok ()) :
    mql.Safe ↔ SafeWhereUnvalidated crates value method := by
  unfold parseMethodResponse at hparse
  unfold SafeWhereUnvalidated
  by_cases hfilter : method = "filter"
  · rw [if_pos hfilter] at hparse
    rw [if_pos (.inl hfilter)]
    exact safe_iff_of_filterQuery (.inl rfl) hparse hvalid
  rw [if_neg hfilter] at hparse
  by_cases hgeo : method = "geo"
  · rw [if_pos hgeo] at hparse
    rw [if_pos (.inr hgeo)]
    exact safe_iff_of_filterQuery (.inr rfl) hparse hvalid
  rw [if_neg hgeo] at hparse
  rw [if_neg (not_or.mpr ⟨hfilter, hgeo⟩)]
  by_cases haggregate : method = "aggregate"
  · rw [if_pos haggregate] at hparse
    rw [if_pos haggregate]
    cases hpipeline : pipelineOf crates value with
    | error error =>
      rw [hpipeline] at hparse
      cases hparse
    | ok pipeline =>
      rw [hpipeline] at hparse
      obtain rfl := Except.ok.inj hparse
      rw [stagesOf_of_pipelineOf hpipeline]
      exact allowed_iff_of_validatePipeline (of_validateMql_aggregate hvalid)
  rw [if_neg haggregate] at hparse
  rw [if_neg haggregate]
  by_cases hvector : method = "vector_search"
  · rw [if_pos hvector] at hparse
    rw [if_pos (.inl hvector)]
    obtain rfl := Except.ok.inj hparse
    rfl
  rw [if_neg hvector] at hparse
  by_cases hfulltext : method = "fulltext"
  · rw [if_pos hfulltext] at hparse
    rw [if_pos (.inr hfulltext)]
    obtain rfl := Except.ok.inj hparse
    rfl
  rw [if_neg hfulltext] at hparse
  rw [if_neg (not_or.mpr ⟨hvector, hfulltext⟩)]
  obtain rfl := Except.ok.inj hparse
  -- without a method that is known, there are no options
  have hfilter := harmless_iff_of_validateFilter (of_validateMql_filter (.inl rfl) hvalid)
  exact (and_iff_left (by simp)).trans hfilter

end Answers

/-! ## Translated queries -/

section Translations

variable {Regex : Type} (crates : Crates Regex)

/-- The answer that an intent gets if it is not in the cache, with its method: from a template, else
from the language model. -/
def answerOf (translator : CompiledQueryTranslator Regex) (intent database collection : String)
    (context : TranslationContext) : Option (Json × String) :=
  match tryMatch crates translator.templates intent database collection with
  | some found => some (found.mqlJson, found.method)
  | none => do
      let provider ← translator.provider
      let response ← (provider intent database collection context).toOption
      let value ← (crates.fromStr (cleanResponse response)).toOption
      return (value, methodOf value)

variable {crates}

open CompiledQueryTranslator in
/-- A translated query comes from the cache, or from an answer that was read and accepted. -/
theorem exists_answer_of_translate {translator next : CompiledQueryTranslator Regex}
    {intent database collection : String} {context : TranslationContext} {query : CompiledQuery}
    (hmiss : translator.cache (hash crates intent database collection) = none)
    (h : translator.translate crates intent database collection context = .ok (query, next)) :
    ∃ value method, answerOf crates translator intent database collection context =
        some (value, method) ∧
      parseMethodResponse crates value method = .ok query.mql ∧
        validateMql query.mql = .ok () := by
  unfold CompiledQueryTranslator.translate at h
  rw [hmiss] at h
  unfold answerOf
  cases hmatch : tryMatch crates translator.templates intent database collection with
  | some found =>
    simp only [hmatch, translateMatch] at h ⊢
    cases hparse : parseMethodResponse crates found.mqlJson found.method with
    | error error =>
      rw [hparse] at h
      cases h
    | ok mql =>
      rw [hparse] at h
      cases hvalid : validateMql mql with
      | error error =>
        simp only [hvalid, bind, Except.bind] at h
        cases h
      | ok _ =>
        simp only [hvalid, bind, Except.bind] at h
        obtain ⟨rfl, -⟩ := Prod.ext_iff.mp (Except.ok.inj h)
        exact ⟨_, _, rfl, hparse, hvalid⟩
  | none =>
    simp only [hmatch] at h ⊢
    cases hprovider : translator.provider with
    | none =>
      rw [hprovider] at h
      cases h
    | some provider =>
      cases hresponse : provider intent database collection context with
      | error error =>
        simp only [hprovider, hresponse] at h
        cases h
      | ok response =>
        simp only [hprovider, hresponse, translateResponse, parseLlmResponse, readResponse] at h
        cases hvalue : crates.fromStr (cleanResponse response) with
        | error reason =>
          simp only [hvalue] at h
          cases h
        | ok value =>
          simp only [hvalue, bind, Except.bind] at h
          cases hparse : parseMethodResponse crates value (methodOf value) with
          | error error =>
            simp only [hparse] at h
            cases h
          | ok mql =>
            simp only [hparse, pure, Except.pure] at h
            cases hvalid : validateMql mql with
            | error error =>
              simp only [hvalid] at h
              cases h
            | ok _ =>
              simp only [hvalid] at h
              obtain ⟨rfl, -⟩ := Prod.ext_iff.mp (Except.ok.inj h)
              refine ⟨value, methodOf value, ?_, hparse, hvalid⟩
              simp [hresponse, hvalue, Except.toOption]

/-- A query that was translated from an answer is safe if and only if the parts of the answer that
are not validated are. -/
theorem safe_iff_of_translate {translator next : CompiledQueryTranslator Regex}
    {intent database collection : String} {context : TranslationContext} {query : CompiledQuery}
    (hmiss : translator.cache
      (CompiledQueryTranslator.hash crates intent database collection) = none)
    (h : translator.translate crates intent database collection context = .ok (query, next)) :
    query.mql.Safe ↔
      ∀ value method, answerOf crates translator intent database collection context =
        some (value, method) → SafeWhereUnvalidated crates value method := by
  obtain ⟨value, method, hanswer, hparse, hvalid⟩ := exists_answer_of_translate hmiss h
  rw [safe_iff_of_parse hparse hvalid, hanswer]
  constructor
  · intro hsafe other otherMethod heq
    obtain ⟨rfl, rfl⟩ := Prod.ext_iff.mp (Option.some.inj heq)
    exact hsafe
  · exact fun hall ↦ hall value method rfl

end Translations

/-! ## A pre-filter that runs code -/

/-- Crates that read one answer.  Its values are plain, and no pattern is matched. -/
def readingCrates (answer : Json) : Crates Unit where
  fromStr := fun _ ↦ .ok answer
  toDocument := fun value ↦
    match value.toPlainBson with
    | some (.document document) => .ok document
    | _ => .error "invalid type"
  toLlmTemplate := fun _ ↦ none
  toText := fun _ ↦ ""
  parseFloat := fun _ ↦ none
  escape := id
  regex := fun _ ↦ none
  emptyRegex := ()
  captures := fun _ _ ↦ none
  listEntries := id
  trimLowercase := id
  sha256 := fun _ ↦ "15847e0e7fc845913ce62fd019588c7be3e302c86c65e1c2a20984927e391bd8"

/-- Only objects are read as documents. -/
theorem toDocument_readingCrates (answer value : Json) (document : Document)
    (h : (readingCrates answer).toDocument value = .ok document) : value.isObject = true := by
  simp only [readingCrates] at h
  split at h
  case h_1 other hother =>
    obtain ⟨members, rfl, -⟩ := Json.exists_object_of_toPlainBson hother
    rfl
  case h_2 => cases h

/-- A translator with nothing in its cache, that gets one answer. -/
def freshTranslator (text : String) : CompiledQueryTranslator Unit where
  cache := fun _ ↦ none
  provider := some fun _ _ _ _ ↦ .ok text
  templates := []

def noContext : TranslationContext := ⟨[], [], none⟩

def searchAnswer (field text : String) : Json :=
  .object [("method", .string "vector_search"), ("search_query", .string "cats"),
    ("pre_filter", .object [(field, .string text)])]

def searchText (field text : String) : String :=
  "\x7b\"method\":\"vector_search\",\"search_query\":\"cats\",\"pre_filter\":\x7b\"" ++ field ++
    "\":\"" ++ text ++ "\"\x7d\x7d"

/-- The answer with a harmless pre-filter is translated to a safe query. -/
theorem safe_of_harmlessPreFilter : ∃ query next,
    (freshTranslator (searchText "kind" "pet")).translate
        (readingCrates (searchAnswer "kind" "pet")) "cats" "shop" "pets" noContext =
      .ok (query, next) ∧ query.mql.Safe := by
  have h : (freshTranslator (searchText "kind" "pet")).translate
      (readingCrates (searchAnswer "kind" "pet")) "cats" "shop" "pets" noContext =
    .ok (_, _) := rfl
  refine ⟨_, _, h, (safe_iff_of_translate rfl h).mpr fun value method hanswer ↦ ?_⟩
  obtain ⟨rfl, rfl⟩ := Prod.ext_iff.mp (Option.some.inj hanswer)
  intro preFilter hpreFilter
  obtain rfl := Option.some.inj hpreFilter
  decide

/-- A pre-filter with code passes the validation. -/
theorem not_safe_of_wherePreFilter : ¬ ∀ query next,
    (freshTranslator (searchText "$where" "sleep(1000)")).translate
        (readingCrates (searchAnswer "$where" "sleep(1000)")) "cats" "shop" "pets" noContext =
      .ok (query, next) → query.mql.Safe := by
  intro hsafe
  have hharmless := hsafe _ _ rfl [("$where", .string "sleep(1000)")] rfl
  exact absurd hharmless (by decide)

end MongoCore.Compiled
