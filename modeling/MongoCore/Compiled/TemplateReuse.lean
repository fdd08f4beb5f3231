import MongoCore.Compiled.Hasher

/-!
# The reuse of templates

The language model may answer an intent with a template besides the query: a pattern of intents and
a pattern of the query, with placeholders.  A later intent that the pattern matches is translated
without the language model.  The values it captures are put into the pattern of the query, and the
result is read as an answer of the model is, so the query is looked for in the member that the
method reads.  A pattern that is the query itself has no such member, and then the request fails; it
does not fall through to the language model.

The main result is the exact condition under which a template serves a later intent, whatever the
language model is by then.
-/

namespace MongoCore.Compiled

open MongoCore.Data MongoCore.Library.Results

/-! ## Values that are put into a pattern -/

/-- The value is neither an object nor an array. -/
def Scalar (value : Json) : Prop := value.isObject = false ∧ value.asArray? = none

theorem Scalar.get?_eq_none {value : Json} (h : Scalar value) (key : String) :
    value.get? key = none := by
  cases value with
  | object members => exact absurd h.1 (by simp [Json.isObject])
  | _ => rfl

theorem scalar_string (text : String) : Scalar (.string text) := ⟨rfl, rfl⟩

section Patterns

variable {Regex : Type} {crates : Crates Regex} {values : List (String × Json)}

theorem scalar_captureValue (hfloat : ∀ text value, crates.parseFloat text = some value →
    Scalar value) (type : Option ParameterType) (text : String) :
    Scalar (captureValue crates type text) := by
  unfold captureValue
  split
  · cases hnumber : crates.parseFloat text with
    | none => exact scalar_string text
    | some value => exact hfloat text value hnumber
  · exact scalar_string text

/-- Captured values are texts and numbers. -/
theorem scalar_captureValues (hfloat : ∀ text value, crates.parseFloat text = some value →
    Scalar value) (template : RegisteredTemplate Regex) (groups : List (Option String)) :
    ∀ entry ∈ captureValues crates template groups, Scalar entry.2 := by
  unfold captureValues
  refine List.foldlRecOn (motive := fun values : List (String × Json) ↦
    ∀ entry ∈ values, Scalar entry.2) template.paramNames.zipIdx _
    (fun _ h ↦ absurd h List.not_mem_nil) fun values hvalues parameter _ ↦ ?_
  dsimp only
  split
  · intro entry hentry
    rcases List.mem_cons.mp hentry with rfl | hentry
    · exact scalar_captureValue hfloat _ _
    · exact hvalues entry (List.mem_of_mem_filter hentry)
  · exact hvalues

/-- A string becomes a string, or the value of its placeholder. -/
theorem scalar_substituteText (hvalues : ∀ entry ∈ values, Scalar entry.2) (text : String) :
    Scalar (substituteText crates values text) := by
  unfold substituteText
  split
  case h_1 value hvalue =>
    obtain ⟨name, -, hname⟩ := Option.bind_eq_some_iff.mp hvalue
    obtain ⟨front, back, hsplit, -⟩ := List.lookup_eq_some_iff.mp hname
    exact hvalues (name, value) (hsplit ▸ List.mem_append_right front List.mem_cons_self)
  case h_2 => exact scalar_string _

theorem lookup_substituteMembers (key : String) (members : List (String × Json)) :
    (substituteMembers crates values members).lookup key =
      (members.lookup key).map (substituteMql crates values) := by
  induction members with
  | nil => rfl
  | cons member members ih =>
    obtain ⟨name, value⟩ := member
    rw [substituteMembers, List.lookup_cons, List.lookup_cons]
    split
    · rfl
    · exact ih

/-- Members are those of the pattern, with the values put in. -/
theorem get?_substituteMql (hvalues : ∀ entry ∈ values, Scalar entry.2) (pattern : Json)
    (key : String) : (substituteMql crates values pattern).get? key =
      (pattern.get? key).map (substituteMql crates values) := by
  cases pattern with
  | string text =>
    rw [substituteMql]
    exact (scalar_substituteText hvalues text).get?_eq_none key
  | object members =>
    rw [substituteMql]
    exact lookup_substituteMembers key members
  | null | bool | number | array => rfl

/-- A substituted pattern is an object only if the pattern is one. -/
theorem substituteMql_eq_object (hvalues : ∀ entry ∈ values, Scalar entry.2) {pattern : Json}
    (h : (substituteMql crates values pattern).isObject = true) :
    ∃ members, pattern = .object members := by
  cases pattern with
  | object members => exact ⟨members, rfl⟩
  | string text =>
    rw [substituteMql, (scalar_substituteText hvalues text).1] at h
    cases h
  | null | bool | number | array => cases h

/-- A substituted pattern is an array only if the pattern is one. -/
theorem asArray?_substituteMql (hvalues : ∀ entry ∈ values, Scalar entry.2) {pattern : Json}
    {items : List Json} (h : (substituteMql crates values pattern).asArray? = some items) :
    ∃ patterns, pattern = .array patterns ∧
      items = patterns.map (substituteMql crates values) := by
  cases pattern with
  | array patterns =>
    rw [substituteMql, substituteItems_eq_map] at h
    exact ⟨patterns, rfl, (Option.some.inj h).symm⟩
  | string text =>
    rw [substituteMql, (scalar_substituteText hvalues text).2] at h
    cases h
  | null | bool | number | object => cases h

end Patterns

/-! ## Patterns that fit their method -/

section Fits

variable {Regex : Type} (crates : Crates Regex) (values : List (String × Json))

/-- The pattern has the member that the method reads, of its kind: an object that is a valid filter
once the values are put in, an array of objects that are the stages of a valid pipeline, or a text
that stays one and is not empty. -/
def Fits (pattern : Json) (method : String) : Prop :=
  if method = "filter" ∨ method = "geo" then
    ∃ members filter, pattern.get? "filter" = some (.object members) ∧
      crates.toDocument (.object (substituteMembers crates values members)) = .ok filter ∧
        validateFilter filter = .ok ()
  else if method = "aggregate" then
    ∃ items stages, pattern.get? "pipeline" = some (.array items) ∧
      List.Forall₂ (fun item stage ↦
        crates.toDocument (substituteMql crates values item) = .ok stage) items stages ∧
        validatePipeline stages = .ok ()
  else
    ∃ text searchQuery, (pattern.get? "search_query").or (pattern.get? "query") =
        some (.string text) ∧
      substituteText crates values text = .string searchQuery ∧ searchQuery ≠ ""

variable {crates values}

/-- The pattern that fits a method is an object. -/
theorem Fits.isObject {pattern : Json} {method : String} (h : Fits crates values pattern method) :
    pattern.isObject = true := by
  have hmember : ∃ key value, pattern.get? key = some value := by
    unfold Fits at h
    split_ifs at h
    · obtain ⟨members, filter, hmember, -⟩ := h
      exact ⟨_, _, hmember⟩
    · obtain ⟨items, stages, hmember, -⟩ := h
      exact ⟨_, _, hmember⟩
    · obtain ⟨text, searchQuery, hmember, -⟩ := h
      rcases Option.or_eq_some_iff.mp hmember with hmember | ⟨-, hmember⟩
      · exact ⟨_, _, hmember⟩
      · exact ⟨_, _, hmember⟩
  obtain ⟨key, value, hmember⟩ := hmember
  cases pattern with
  | object members => rfl
  | _ => cases hmember

/-- A query is read from an answer and accepted. -/
def Accepted (crates : Crates Regex) (value : Json) (method : String) : Prop :=
  ∃ mql, parseMethodResponse crates value method = .ok mql ∧ validateMql mql = .ok ()

def methods : List String := ["filter", "aggregate", "vector_search", "fulltext", "geo"]

theorem CompiledMql.method_mem (mql : CompiledMql) : mql.method ∈ methods := by
  cases mql <;> simp [method, methods]

/-- A query of a filter is accepted if the filter is. -/
theorem validateMql_filter {filter : Document} {options : Option Document} :
    (validateMql (.find filter options) = .ok () ↔ validateFilter filter = .ok ()) ∧
      (validateMql (.geo filter options) = .ok () ↔ validateFilter filter = .ok ()) := by
  unfold validateMql
  dsimp only
  cases validateFilter filter <;> simp

theorem validateMql_aggregate {pipeline : List Document} :
    validateMql (.aggregate pipeline) = .ok () ↔ validatePipeline pipeline = .ok () := by
  unfold validateMql
  dsimp only
  cases validatePipeline pipeline <;> simp

/-- The member of a substituted pattern, null if the pattern has none. -/
theorem index_substituteMql (hvalues : ∀ entry ∈ values, Scalar entry.2) (pattern : Json)
    (key : String) : index (substituteMql crates values pattern) key =
      ((pattern.get? key).map (substituteMql crates values)).getD .null := by
  rw [index, get?_substituteMql hvalues]

/-- A filter is found in a substituted pattern if the pattern has an object in its place. -/
theorem toDocument_index_iff (hdocument : ∀ value document,
      crates.toDocument value = .ok document → value.isObject = true)
    (hvalues : ∀ entry ∈ values, Scalar entry.2) {pattern : Json} {filter : Document} :
    crates.toDocument (index (substituteMql crates values pattern) "filter") = .ok filter ↔
      ∃ members, pattern.get? "filter" = some (.object members) ∧
        crates.toDocument (.object (substituteMembers crates values members)) = .ok filter := by
  rw [index_substituteMql hvalues]
  constructor
  · intro h
    have hobject := hdocument _ _ h
    cases hmember : pattern.get? "filter" with
    | none =>
      rw [hmember] at hobject
      cases hobject
    | some member =>
      rw [hmember] at h hobject
      obtain ⟨members, rfl⟩ := substituteMql_eq_object hvalues hobject
      exact ⟨members, rfl, h⟩
  · rintro ⟨members, hmember, h⟩
    rw [hmember]
    exact h

/-- A pipeline is found in a substituted pattern if the pattern has an array in its place. -/
theorem pipelineOf_iff (hvalues : ∀ entry ∈ values, Scalar entry.2) {pattern : Json}
    {stages : List Document} :
    pipelineOf crates (substituteMql crates values pattern) = .ok stages ↔
      ∃ items, pattern.get? "pipeline" = some (.array items) ∧
        List.Forall₂ (fun item stage ↦
          crates.toDocument (substituteMql crates values item) = .ok stage) items stages := by
  have hstage : ∀ item stage, stageOf crates item = .ok stage ↔
      crates.toDocument item = .ok stage := by
    intro item stage
    unfold stageOf
    cases crates.toDocument item <;> simp
  unfold pipelineOf
  rw [index_substituteMql hvalues]
  constructor
  · intro h
    cases hmember : pattern.get? "pipeline" with
    | none =>
      rw [hmember] at h
      cases h
    | some member =>
      rw [hmember, Option.map_some, Option.getD_some] at h
      cases hitems : (substituteMql crates values member).asArray? with
      | none =>
        rw [hitems] at h
        cases h
      | some items =>
        rw [hitems] at h
        obtain ⟨patterns, rfl, rfl⟩ := asArray?_substituteMql hvalues hitems
        refine ⟨patterns, rfl, ?_⟩
        have hall := mapM_eq_ok.mp h
        rw [List.forall₂_map_left_iff] at hall
        exact hall.imp fun item stage ↦ (hstage _ _).mp
  · rintro ⟨items, hmember, hall⟩
    rw [hmember, Option.map_some, Option.getD_some, substituteMql, substituteItems_eq_map]
    refine mapM_eq_ok.mpr ?_
    rw [List.forall₂_map_left_iff]
    exact hall.imp fun item stage ↦ (hstage _ _).mpr

/-- A search text is found in a substituted pattern if the pattern has a text in its place. -/
theorem searchQueryOf_iff (hvalues : ∀ entry ∈ values, Scalar entry.2) {pattern : Json}
    {searchQuery : String} (hsearch : searchQuery ≠ "") :
    searchQueryOf (substituteMql crates values pattern) = searchQuery ↔
      ∃ text, (pattern.get? "search_query").or (pattern.get? "query") = some (.string text) ∧
        substituteText crates values text = .string searchQuery := by
  unfold searchQueryOf
  rw [get?_substituteMql hvalues, get?_substituteMql hvalues, ← Option.map_or]
  constructor
  · intro h
    cases hmember : (pattern.get? "search_query").or (pattern.get? "query") with
    | none =>
      rw [hmember] at h
      exact absurd h.symm hsearch
    | some member =>
      rw [hmember, Option.map_some, Option.bind_some] at h
      cases member with
      | string text =>
        rw [substituteMql] at h
        refine ⟨text, rfl, ?_⟩
        cases hvalue : substituteText crates values text with
        | string found =>
          rw [hvalue] at h
          exact congrArg Json.string h
        | _ =>
          rw [hvalue] at h
          exact absurd h.symm hsearch
      | _ => exact absurd h.symm hsearch
  · rintro ⟨text, hmember, hvalue⟩
    rw [hmember, Option.map_some, Option.bind_some, substituteMql, hvalue]
    rfl

/-- A query of a filter is read from an answer and accepted if its filter is a valid one. -/
theorem accepted_filter_iff {query : Document → Option Document → CompiledMql}
    (hquery : query = .find ∨ query = .geo) (value : Json) :
    (∃ mql, (do
        let filter ← filterOf crates value
        return query filter (optionalDocument crates value "options")) = .ok mql ∧
      validateMql mql = .ok ()) ↔
      ∃ filter, crates.toDocument (index value "filter") = .ok filter ∧
        validateFilter filter = .ok () := by
  have hvalid : ∀ filter options, validateMql (query filter options) = .ok () ↔
      validateFilter filter = .ok () := by
    intro filter options
    rcases hquery with rfl | rfl
    · exact validateMql_filter.1
    · exact validateMql_filter.2
  have hfilter : ∀ filter, filterOf crates value = .ok filter ↔
      crates.toDocument (index value "filter") = .ok filter := by
    intro filter
    unfold filterOf
    cases crates.toDocument (index value "filter") <;> simp
  constructor
  · rintro ⟨mql, hparse, haccepted⟩
    obtain ⟨filter, hread, hmql⟩ := bind_eq_ok.mp hparse
    obtain rfl := Except.ok.inj hmql
    exact ⟨filter, (hfilter filter).mp hread, (hvalid _ _).mp haccepted⟩
  · rintro ⟨filter, hread, haccepted⟩
    exact ⟨_, bind_eq_ok.mpr ⟨filter, (hfilter filter).mpr hread, rfl⟩, (hvalid _ _).mpr haccepted⟩

/-- A pipeline is read from an answer and accepted if its stages are those of a valid one. -/
theorem accepted_aggregate_iff (value : Json) :
    (∃ mql, (do
        let pipeline ← pipelineOf crates value
        return CompiledMql.aggregate pipeline) = .ok mql ∧ validateMql mql = .ok ()) ↔
      ∃ stages, pipelineOf crates value = .ok stages ∧ validatePipeline stages = .ok () := by
  constructor
  · rintro ⟨mql, hparse, haccepted⟩
    obtain ⟨stages, hread, hmql⟩ := bind_eq_ok.mp hparse
    obtain rfl := Except.ok.inj hmql
    exact ⟨stages, hread, validateMql_aggregate.mp haccepted⟩
  · rintro ⟨stages, hread, haccepted⟩
    exact ⟨_, bind_eq_ok.mpr ⟨stages, hread, rfl⟩, validateMql_aggregate.mpr haccepted⟩

/-- A search is accepted if its text is not empty. -/
theorem accepted_search_iff {query : String → Option Document → CompiledMql}
    (hquery : query = .vectorSearch ∨ query = .fulltext) (value : Json) :
    (∃ mql, (.ok (query (searchQueryOf value) (optionalDocument crates value "pre_filter")) :
        Except TranslateError CompiledMql) = .ok mql ∧ validateMql mql = .ok ()) ↔
      ∃ searchQuery, searchQuery ≠ "" ∧ searchQueryOf value = searchQuery := by
  have hvalid : ∀ searchQuery preFilter, validateMql (query searchQuery preFilter) = .ok () ↔
      searchQuery ≠ "" := by
    intro searchQuery preFilter
    rcases hquery with rfl | rfl <;> simp [validateMql]
  constructor
  · rintro ⟨mql, hparse, haccepted⟩
    obtain rfl := Except.ok.inj hparse
    exact ⟨_, (hvalid _ _).mp haccepted, rfl⟩
  · rintro ⟨searchQuery, hsearch, rfl⟩
    exact ⟨_, rfl, (hvalid _ _).mpr hsearch⟩

/-- A substituted pattern is read as a query of its method and accepted if and only if the pattern
fits the method. -/
theorem accepted_iff_fits (hdocument : ∀ value document,
      crates.toDocument value = .ok document → value.isObject = true)
    (hvalues : ∀ entry ∈ values, Scalar entry.2) {pattern : Json} {method : String}
    (hmethod : method ∈ methods) :
    Accepted crates (substituteMql crates values pattern) method ↔
      Fits crates values pattern method := by
  have hfilter : (∃ filter, crates.toDocument
        (index (substituteMql crates values pattern) "filter") = .ok filter ∧
          validateFilter filter = .ok ()) ↔ Fits crates values pattern "filter" := by
    simp only [toDocument_index_iff hdocument hvalues, Fits, true_or, if_true]
    grind
  have haggregate : (∃ stages, pipelineOf crates (substituteMql crates values pattern) =
        .ok stages ∧ validatePipeline stages = .ok ()) ↔
      Fits crates values pattern "aggregate" := by
    simp only [pipelineOf_iff hvalues, Fits, String.reduceEq, or_self, if_false, if_true]
    grind
  have hsearch : (∃ searchQuery, searchQuery ≠ "" ∧
        searchQueryOf (substituteMql crates values pattern) = searchQuery) ↔
      Fits crates values pattern "fulltext" := by
    simp only [Fits, String.reduceEq, or_self, if_false]
    constructor
    · rintro ⟨searchQuery, hne, hread⟩
      obtain ⟨text, hmember, hvalue⟩ := (searchQueryOf_iff hvalues hne).mp hread
      exact ⟨text, searchQuery, hmember, hvalue, hne⟩
    · rintro ⟨text, searchQuery, hmember, hvalue, hne⟩
      exact ⟨searchQuery, hne, (searchQueryOf_iff hvalues hne).mpr ⟨text, hmember, hvalue⟩⟩
  simp only [methods, List.mem_cons, List.not_mem_nil, or_false] at hmethod
  rcases hmethod with rfl | rfl | rfl | rfl | rfl
  · exact (accepted_filter_iff (.inl rfl) _).trans hfilter
  · exact (accepted_aggregate_iff _).trans haggregate
  · exact (accepted_search_iff (.inl rfl) _).trans hsearch
  · exact (accepted_search_iff (.inr rfl) _).trans hsearch
  · exact (accepted_filter_iff (.inr rfl) _).trans hfilter

/-- A query that was read for a method has that method. -/
theorem method_of_parse {value : Json} {method : String} {mql : CompiledMql}
    (hmethod : method ∈ methods) (h : parseMethodResponse crates value method = .ok mql) :
    mql.method = method := by
  simp only [methods, List.mem_cons, List.not_mem_nil, or_false] at hmethod
  rcases hmethod with rfl | rfl | rfl | rfl | rfl
  · obtain ⟨filter, -, hmql⟩ := bind_eq_ok.mp h
    exact Except.ok.inj hmql ▸ rfl
  · obtain ⟨stages, -, hmql⟩ := bind_eq_ok.mp h
    exact Except.ok.inj hmql ▸ rfl
  · exact Except.ok.inj h ▸ rfl
  · exact Except.ok.inj h ▸ rfl
  · obtain ⟨filter, -, hmql⟩ := bind_eq_ok.mp h
    exact Except.ok.inj hmql ▸ rfl

/-- The error of a template is its own, not that of a missing language model. -/
theorem parse_ne_noProvider (value : Json) (method : String) :
    parseMethodResponse crates value method ≠ .error .noProvider := by
  have hfilter : filterOf crates value ≠ .error .noProvider := by
    unfold filterOf
    cases crates.toDocument (index value "filter") <;> simp
  have hpipeline : pipelineOf crates value ≠ .error .noProvider := by
    unfold pipelineOf
    split
    · simp
    · intro h
      obtain ⟨item, -, hitem⟩ := exists_of_mapM_eq_error h
      unfold stageOf at hitem
      cases hstage : crates.toDocument item <;> simp [hstage] at hitem
  unfold parseMethodResponse
  split_ifs
  · cases hread : filterOf crates value with
    | error error => simpa [hread, bind, Except.bind] using hfilter
    | ok filter => simp [bind, Except.bind, pure, Except.pure]
  · cases hread : filterOf crates value with
    | error error => simpa [hread, bind, Except.bind] using hfilter
    | ok filter => simp [bind, Except.bind, pure, Except.pure]
  · cases hread : pipelineOf crates value with
    | error error => simpa [hread, bind, Except.bind] using hpipeline
    | ok stages => simp [bind, Except.bind, pure, Except.pure]
  · simp
  · simp
  · simp

theorem validateMql_ne_noProvider (mql : CompiledMql) :
    validateMql mql ≠ .error .noProvider := by
  unfold validateMql
  cases mql with
  | find filter options | geo filter options =>
    dsimp only
    split <;> simp
  | aggregate pipeline =>
    dsimp only
    split <;> simp
  | vectorSearch searchQuery preFilter | fulltext searchQuery preFilter =>
    dsimp only
    split_ifs <;> simp

end Fits

/-! ## Later intents -/

section Translations

open CompiledQueryTranslator

variable {Regex : Type} (crates : Crates Regex)

/-- Whatever the language model is, the intent is translated to a query of the method. -/
def Served (translator : CompiledQueryTranslator Regex)
    (intent database collection method : String) : Prop :=
  ∀ provider context, ∃ query next,
    { translator with provider := provider }.translate crates intent database collection context =
      .ok (query, next) ∧ query.mql.method = method

/-- Whatever the language model is, the intent is translated as if there were no templates. -/
def FallsThrough (translator : CompiledQueryTranslator Regex)
    (intent database collection : String) : Prop :=
  ∀ provider context,
    ({ translator with provider := provider }.translate crates intent database collection
        context).map Prod.fst =
      ({ translator with provider := provider, templates := [] }.translate crates intent database
        collection context).map Prod.fst

variable {crates} {translator next : CompiledQueryTranslator Regex}
variable {intent database collection : String} {context : TranslationContext}

/-- A template is translated if its query is accepted, and fails otherwise. -/
theorem translateMatch_cases (translator : CompiledQueryTranslator Regex) (found : TemplateMatch)
    (intent database collection : String) (hmethod : found.method ∈ methods) :
    (Accepted crates found.mqlJson found.method ∧ ∃ query next,
      translator.translateMatch crates found intent database collection = .ok (query, next) ∧
        query.mql.method = found.method) ∨
    (¬ Accepted crates found.mqlJson found.method ∧ ∃ error,
      translator.translateMatch crates found intent database collection = .error error ∧
        error ≠ .noProvider) := by
  unfold translateMatch
  cases hparse : parseMethodResponse crates found.mqlJson found.method with
  | error error =>
    refine .inr ⟨?_, error, rfl, ?_⟩
    · rintro ⟨mql, hother, -⟩
      rw [hparse] at hother
      cases hother
    · rintro rfl
      exact parse_ne_noProvider _ _ hparse
  | ok mql =>
    cases hvalid : validateMql mql with
    | error error =>
      refine .inr ⟨?_, error, by simp [bind, Except.bind, hvalid], ?_⟩
      · rintro ⟨other, hother, haccepted⟩
        rw [hparse] at hother
        cases hother
        rw [hvalid] at haccepted
        cases haccepted
      · rintro rfl
        exact validateMql_ne_noProvider _ hvalid
    | ok _ =>
      refine .inl ⟨⟨mql, hparse, hvalid⟩, _, _, by simp [bind, Except.bind, hvalid]; rfl, ?_⟩
      exact method_of_parse hmethod hparse

/-- The first template that an intent matches, after templates that it does not match. -/
theorem tryMatch_append {before : List (RegisteredTemplate Regex)}
    (after : List (RegisteredTemplate Regex)) {template : RegisteredTemplate Regex} {groups : List (Option String)}
    (hbefore : tryMatch crates before intent database collection = none)
    (hplace : template.database = database ∧ template.collection = collection)
    (hmatch : crates.captures template.regex intent = some groups) :
    tryMatch crates (before ++ template :: after) intent database collection = some
      { mqlJson := substituteMql crates (captureValues crates template groups) template.mqlPattern
        method := template.method } := by
  unfold tryMatch at hbefore ⊢
  rw [List.findSome?_append, hbefore, Option.none_or, List.findSome?_cons]
  simp [hplace.1, hplace.2, hmatch]

/-- A query from the cache leaves the templates as they are.  Any other brings its template with it,
if it has one. -/
theorem templates_of_translate_cases {query : CompiledQuery}
    (h : translator.translate crates intent database collection context = .ok (query, next)) :
    (∃ cached, translator.cache (hash crates intent database collection) = some cached ∧
        next.templates = translator.templates) ∨
      next.templates = translator.templates ++ (query.llmTemplate.map fun template ↦
        register crates template query.mql.method database collection).toList := by
  unfold CompiledQueryTranslator.translate at h
  split at h
  case h_1 cached hcached =>
    cases h
    exact .inl ⟨_, hcached, rfl⟩
  case h_2 =>
    right
    split at h
    case h_1 found hfound =>
      obtain ⟨mql, -, h⟩ := bind_eq_ok.mp h
      obtain ⟨_, -, h⟩ := bind_eq_ok.mp h
      cases h
      exact (List.append_nil _).symm
    case h_2 =>
      split at h
      case h_1 => cases h
      case h_2 =>
        split at h
        case h_1 => cases h
        case h_2 =>
          obtain ⟨⟨mql, llmTemplate⟩, -, h⟩ := bind_eq_ok.mp h
          obtain ⟨_, -, h⟩ := bind_eq_ok.mp h
          cases h
          cases llmTemplate <;> rfl

/-- The template of an answer is registered after those that were there. -/
theorem templates_of_translate
    (hmiss : translator.cache (hash crates intent database collection) = none)
    {query : CompiledQuery}
    (h : translator.translate crates intent database collection context = .ok (query, next))
    {template : LlmTemplate} (htemplate : query.llmTemplate = some template) :
    next.templates = translator.templates ++
      [register crates template query.mql.method database collection] := by
  rcases templates_of_translate_cases h with ⟨cached, hcached, -⟩ | hnext
  · rw [hmiss] at hcached
    cases hcached
  · rw [hnext, htemplate]
    rfl

/-- An intent that a template matches is served, or falls through, if and only if the query of the
template is accepted. -/
theorem served_or_fallsThrough_iff {found : TemplateMatch}
    (hmiss : translator.cache (hash crates intent database collection) = none)
    (hfound : tryMatch crates translator.templates intent database collection = some found)
    (hmethod : found.method ∈ methods) :
    Served crates translator intent database collection found.method ∨
        FallsThrough crates translator intent database collection ↔
      Accepted crates found.mqlJson found.method := by
  have htranslate : ∀ provider context,
      { translator with provider := provider }.translate crates intent database collection
          context =
        { translator with provider := provider }.translateMatch crates found intent database
          collection := by
    intro provider context
    simp only [CompiledQueryTranslator.translate, hmiss, hfound]
  constructor
  · rintro (hserved | hfalls)
    · obtain ⟨query, next, hok, -⟩ := hserved none ⟨[], [], none⟩
      rw [htranslate] at hok
      rcases translateMatch_cases { translator with provider := none } found intent database
        collection hmethod with ⟨haccepted, -⟩ | ⟨-, error, herror, -⟩
      · exact haccepted
      · rw [herror] at hok
        cases hok
    · have hnone := hfalls none ⟨[], [], none⟩
      rw [htranslate] at hnone
      rcases translateMatch_cases { translator with provider := none } found intent database
        collection hmethod with ⟨haccepted, -⟩ | ⟨-, error, herror, hother⟩
      · exact haccepted
      · rw [herror] at hnone
        simp only [CompiledQueryTranslator.translate, hmiss, tryMatch, List.findSome?_nil] at hnone
        exact absurd (Except.error.inj hnone) hother
  · intro haccepted
    refine .inl fun provider context ↦ ?_
    rw [htranslate]
    rcases translateMatch_cases { translator with provider := provider } found intent database
      collection hmethod with ⟨-, hok⟩ | ⟨hnot, -⟩
    · exact hok
    · exact absurd haccepted hnot

/-- A template that was registered with an answer serves a later intent that it matches, with the
method of that answer, or lets it fall through to the language model, if and only if its pattern
fits the method. -/
theorem template_serves_iff_fits {Regex : Type} (crates : Crates Regex)
    (hdocument : ∀ value document, crates.toDocument value = .ok document → value.isObject = true)
    (hfloat : ∀ text value, crates.parseFloat text = some value → Scalar value)
    {translator next : CompiledQueryTranslator Regex} {first database collection : String}
    {context : TranslationContext} {query : CompiledQuery} {template : LlmTemplate}
    (hmiss : translator.cache (hash crates first database collection) = none)
    (htranslate : translator.translate crates first database collection context =
      .ok (query, next))
    (htemplate : query.llmTemplate = some template)
    {later : CompiledQueryTranslator Regex} (hlater : next.templates <+: later.templates)
    {intent : String} (hnew : later.cache (hash crates intent database collection) = none)
    (hearlier : tryMatch crates translator.templates intent database collection = none)
    {groups : List (Option String)}
    (hmatch : crates.captures
      (register crates template query.mql.method database collection).regex intent =
        some groups) :
    Served crates later intent database collection query.mql.method ∨
        FallsThrough crates later intent database collection ↔
      Fits crates (captureValues crates
          (register crates template query.mql.method database collection) groups)
        template.mqlPattern query.mql.method := by
  obtain ⟨more, hmore⟩ := hlater
  have htemplates : later.templates = translator.templates ++
      register crates template query.mql.method database collection :: more := by
    rw [← hmore, templates_of_translate hmiss htranslate htemplate, List.append_assoc,
      List.singleton_append]
  have hfound := tryMatch_append more hearlier ⟨rfl, rfl⟩ hmatch
  rw [← htemplates] at hfound
  rw [← accepted_iff_fits hdocument (scalar_captureValues hfloat _ groups) query.mql.method_mem]
  exact served_or_fallsThrough_iff hnew hfound query.mql.method_mem

end Translations

/-! ## A question about restaurants -/

/-- An answer with a filter and a template for it, given the pattern of the query. -/
def restaurantAnswer (pattern : Json) : Json :=
  .object [("method", .string "filter"), ("filter", .object [("cuisine", .string "Italian")]),
    ("template", .object
      [("intent_pattern", .string "find \x7b\x7bcuisine\x7d\x7d restaurants"),
        ("parameters", .array [.object [("name", .string "cuisine"), ("value", .string "Italian"),
          ("param_type", .string "String")]]),
        ("mql_pattern", pattern)])]

def restaurantText (pattern : String) : String :=
  "\x7b\"method\":\"filter\",\"filter\":\x7b\"cuisine\":\"Italian\"\x7d,\"template\":\x7b" ++
    "\"intent_pattern\":\"find \x7b\x7bcuisine\x7d\x7d restaurants\",\"parameters\":" ++
    "[\x7b\"name\":\"cuisine\",\"value\":\"Italian\",\"param_type\":\"String\"\x7d]," ++
    "\"mql_pattern\":" ++ pattern ++ "\x7d\x7d"

/-- Crates that read that answer, and match one expression with one intent. -/
def restaurantCrates (pattern : Json) : Crates (List Char) where
  fromStr := fun _ ↦ .ok (restaurantAnswer pattern)
  toDocument := (readingCrates (restaurantAnswer pattern)).toDocument
  toLlmTemplate := fun value ↦ some
    { intentPattern := "find \x7b\x7bcuisine\x7d\x7d restaurants"
      parameters := [.string]
      mqlPattern := index value "mql_pattern" }
  toText := fun _ ↦ ""
  parseFloat := fun _ ↦ none
  escape := id
  regex := some
  emptyRegex := "^$".toList
  captures := fun regex intent ↦
    if regex = "^find (.+?) restaurants$".toList ∧ intent = "find chinese restaurants" then
      some [some "chinese"]
    else none
  listEntries := id
  trimLowercase := id
  sha256 := fun text ↦
    if text = "find italian restaurants|sample_restaurants|restaurants" then
      "5bc9f0dc2fcdd3e2bab5515a3a4ee27f29465df49b00cbca5c305ad8a37ad569"
    else "2493489aab8704805b85609c50bc74b5294b7407dc9c8a1d80e20fa6afe1ad0d"

/-- A translator that has not translated anything, with a language model that gives that answer. -/
def restaurantTranslator (pattern : String) : CompiledQueryTranslator (List Char) where
  cache := fun _ ↦ none
  provider := some fun _ _ _ _ ↦ .ok (restaurantText pattern)
  templates := []

def cuisineFilter : Json := .object [("cuisine", .string "\x7b\x7bcuisine\x7d\x7d")]

theorem toDocument_restaurantCrates (pattern value : Json) (document : Document)
    (h : (restaurantCrates pattern).toDocument value = .ok document) : value.isObject = true :=
  toDocument_readingCrates (restaurantAnswer pattern) value document h

theorem parseFloat_restaurantCrates (pattern : Json) (text : String) (value : Json)
    (h : (restaurantCrates pattern).parseFloat text = some value) : Scalar value := by
  cases h

/-- A pattern with the filter as a member serves a later intent. -/
theorem wrapped_filter_serves :
    let crates := restaurantCrates (.object [("filter", cuisineFilter)])
    let text := "\x7b\"filter\":\x7b\"cuisine\":\"\x7b\x7bcuisine\x7d\x7d\"\x7d\x7d"
    ∃ query next,
      (restaurantTranslator text).translate crates "find italian restaurants"
          "sample_restaurants" "restaurants" noContext = .ok (query, next) ∧
        (Served crates next "find chinese restaurants" "sample_restaurants" "restaurants"
            "filter" ∨
          FallsThrough crates next "find chinese restaurants" "sample_restaurants"
            "restaurants") := by
  intro crates text
  have h : (restaurantTranslator text).translate crates "find italian restaurants"
      "sample_restaurants" "restaurants" noContext = .ok (_, _) := rfl
  refine ⟨_, _, h, (template_serves_iff_fits crates (toDocument_restaurantCrates _)
    (parseFloat_restaurantCrates _) rfl h rfl List.prefix_rfl rfl rfl rfl).mpr ?_⟩
  exact ⟨_, _, rfl, rfl, rfl⟩

/-- A pattern that is the filter itself fails a later intent, which the language model would have
answered. -/
theorem bare_filter_fails :
    let crates := restaurantCrates cuisineFilter
    let text := "\x7b\"cuisine\":\"\x7b\x7bcuisine\x7d\x7d\"\x7d"
    ∃ query next,
      (restaurantTranslator text).translate crates "find italian restaurants"
          "sample_restaurants" "restaurants" noContext = .ok (query, next) ∧
        (∃ template, query.llmTemplate = some template ∧
          substituteMql crates [("cuisine", .string "Italian")] template.mqlPattern =
            index (restaurantAnswer cuisineFilter) "filter") ∧
        next.translate crates "find chinese restaurants" "sample_restaurants" "restaurants"
            noContext = .error (.parseError "Invalid filter: invalid type") ∧
        (∃ other final, { next with templates := [] }.translate crates "find chinese restaurants"
          "sample_restaurants" "restaurants" noContext = .ok (other, final)) ∧
        ¬ (Served crates next "find chinese restaurants" "sample_restaurants" "restaurants"
            "filter" ∨
          FallsThrough crates next "find chinese restaurants" "sample_restaurants"
            "restaurants") := by
  intro crates text
  refine ⟨_, _, rfl, ⟨_, rfl, rfl⟩, rfl, ⟨_, _, rfl⟩, ?_⟩
  rintro (hserved | hfalls)
  · obtain ⟨query, next, hok, -⟩ := hserved none noContext
    cases hok
  · have hnone := hfalls none noContext
    cases hnone

end MongoCore.Compiled
