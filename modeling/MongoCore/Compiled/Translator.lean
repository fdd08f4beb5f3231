import MongoCore.Compiled.Validator
import MongoCore.Library.Rewriting
import MongoCore.Operations.Placeholders

/-!
# Compiled queries

An intent is translated to a query in three stages: the cache, the templates that were registered
with earlier translations, and the language model.  What comes from a template or from the model is
a JSON value.  It is read as a query of one of five methods, validated, and cached.

The crates that read and write JSON and BSON, match regular expressions and hash are parameters, as
is the language model.
-/

namespace MongoCore.Compiled

open MongoCore.Data MongoCore.Operations.Placeholders

/-! ## Queries -/

/-- A query of one of the five methods. -/
inductive CompiledMql where
  | find (filter : Document) (options : Option Document)
  | aggregate (pipeline : List Document)
  | vectorSearch (searchQuery : String) (preFilter : Option Document)
  | fulltext (searchQuery : String) (preFilter : Option Document)
  | geo (filter : Document) (options : Option Document)

def CompiledMql.method : CompiledMql → String
  | .find _ _ => "filter"
  | .aggregate _ => "aggregate"
  | .vectorSearch _ _ => "vector_search"
  | .fulltext _ _ => "fulltext"
  | .geo _ _ => "geo"

inductive ParameterType where
  | number | string | boolean
  deriving DecidableEq

/-- A template that comes with an answer of the language model: a pattern of intents, the types of
the parameters, and the query with placeholders. -/
structure LlmTemplate where
  intentPattern : String
  parameters : List ParameterType
  mqlPattern : Json

structure CompiledQuery where
  hash : String
  intent : String
  collection : String
  database : String
  mql : CompiledMql
  llmTemplate : Option LlmTemplate

inductive LlmError where
  | apiError (text : String)
  | invalidResponse (text : String)
  | notConfigured
  | rateLimited (seconds : ℕ)

inductive TranslateError where
  | noProvider
  | llm (error : LlmError)
  | parseError (text : String)
  | validation (text : String)

/-! ## Parameters -/

/-- What the translator uses of other crates.  A regular expression gives the captured groups, the
first one first.  A hash map lists its entries in an order of its own. -/
structure Crates (Regex : Type) where
  fromStr : String → Except String Json
  toDocument : Json → Except String Document
  toLlmTemplate : Json → Option LlmTemplate
  toText : Json → String
  parseFloat : String → Option Json
  escape : List Char → List Char
  regex : List Char → Option Regex
  emptyRegex : Regex
  captures : Regex → String → Option (List (Option String))
  listEntries : List (String × Json) → List (String × Json)
  trimLowercase : String → String
  sha256 : String → String

/-- What the language model is told about the collection. -/
structure TranslationContext where
  sampleDocuments : List String
  availableIndexes : List String
  schemaHint : Option String

/-- The language model: the answer to an intent on a collection of a database. -/
abbrev LlmProvider := String → String → String → TranslationContext → Except LlmError String

/-! ## Templates -/

structure RegisteredTemplate (Regex : Type) where
  regex : Regex
  paramNames : List String
  paramTypes : List ParameterType
  mqlPattern : Json
  method : String
  database : String
  collection : String

structure TemplateMatch where
  mqlJson : Json
  method : String

section Templates

variable {Regex : Type} (crates : Crates Regex)

def splitOpen : List Char → List (List Char)
  | [] => [[]]
  | '{' :: '{' :: rest => [] :: splitOpen rest
  | c :: rest =>
      match splitOpen rest with
      | [] => [[c]]
      | part :: parts => (c :: part) :: parts

/-- What stands before and after the first closing braces. -/
def splitClose : List Char → Option (List Char × List Char)
  | [] => none
  | '}' :: '}' :: rest => some ([], rest)
  | c :: rest => (splitClose rest).map fun (name, after) ↦ (c :: name, after)

/-- The regular expression of a pattern, and the names of its parameters.  A part without closing
braces is left out. -/
def compilePattern (pattern : String) : Regex × List String :=
  let parts := splitOpen pattern.toList
  let closed := (parts.drop 1).filterMap splitClose
  let body := closed.flatMap fun (_, after) ↦ "(.+?)".toList ++ crates.escape after
  let source := ['^'] ++ crates.escape (parts.headD []) ++ body ++ ['$']
  ((crates.regex source).getD crates.emptyRegex, closed.map fun (name, _) ↦ String.ofList name)

def register (template : LlmTemplate) (method database collection : String) :
    RegisteredTemplate Regex :=
  let (regex, paramNames) := compilePattern crates template.intentPattern
  { regex := regex
    paramNames := paramNames
    paramTypes := template.parameters
    mqlPattern := template.mqlPattern
    method := method
    database := database
    collection := collection }

def wholePlaceholder (text : List Char) : Option String :=
  if openBraces.isPrefixOf text && closeBraces.isSuffixOf text then
    some (String.ofList ((text.drop 2).dropLast.dropLast))
  else none

/-- Put the values into a string: one value for a string that is a placeholder, else their texts in
place of the placeholders. -/
def substituteText (values : List (String × Json)) (text : String) : Json :=
  match (wholePlaceholder text.toList).bind fun name ↦ values.lookup name with
  | some value => value
  | none =>
      .string (String.ofList ((crates.listEntries values).foldl (fun result (name, value) ↦
        let replacement := match value with
          | .string text => text
          | other => crates.toText other
        Library.Rewriting.replaceAll (placeholder name.toList) replacement.toList result)
          text.toList))

mutual

def substituteMql (values : List (String × Json)) : Json → Json
  | .string text => substituteText crates values text
  | .object members => .object (substituteMembers values members)
  | .array items => .array (substituteItems values items)
  | .null => .null
  | .bool value => .bool value
  | .number value => .number value

def substituteMembers (values : List (String × Json)) : List (String × Json) → List (String × Json)
  | [] => []
  | (key, value) :: members =>
      (key, substituteMql values value) :: substituteMembers values members

def substituteItems (values : List (String × Json)) : List Json → List Json
  | [] => []
  | item :: items => substituteMql values item :: substituteItems values items

end

variable {crates} in
theorem substituteMembers_eq_map (values members : List (String × Json)) :
    substituteMembers crates values members =
      members.map fun member ↦ (member.1, substituteMql crates values member.2) := by
  induction members with
  | nil => rfl
  | cons member members ih => rw [substituteMembers, ih, List.map_cons]

variable {crates} in
theorem substituteItems_eq_map (values : List (String × Json)) (items : List Json) :
    substituteItems crates values items = items.map (substituteMql crates values) := by
  induction items with
  | nil => rfl
  | cons item items ih => rw [substituteItems, ih, List.map_cons]

def setEntry (name : String) (value : Json) (values : List (String × Json)) :
    List (String × Json) :=
  (name, value) :: values.filter fun entry ↦ entry.1 ≠ name

def captureValue (type : Option ParameterType) (text : String) : Json :=
  match type with
  | some .number => (crates.parseFloat text).getD (.string text)
  | _ => .string text

def captureValues (template : RegisteredTemplate Regex) (groups : List (Option String)) :
    List (String × Json) :=
  template.paramNames.zipIdx.foldl (fun values (name, i) ↦
    match groups[i]?.join with
    | some text => setEntry name (captureValue crates template.paramTypes[i]? text) values
    | none => values) []

/-- The query of the first template for the collection that the intent matches. -/
def tryMatch (templates : List (RegisteredTemplate Regex)) (intent database collection : String) :
    Option TemplateMatch :=
  templates.findSome? fun template ↦
    if template.database ≠ database ∨ template.collection ≠ collection then none
    else
      (crates.captures template.regex intent).map fun groups ↦
        { mqlJson := substituteMql crates (captureValues crates template groups)
            template.mqlPattern
          method := template.method }

end Templates

/-! ## Answers -/

section Answers

variable {Regex : Type} (crates : Crates Regex)

def stripPrefix (front text : List Char) : Option (List Char) :=
  if front.isPrefixOf text then some (text.drop front.length) else none

def stripSuffix (back text : List Char) : Option (List Char) :=
  if back.isSuffixOf text then some (text.take (text.length - back.length)) else none

/-- Strip the code fences around an answer. -/
def cleanResponse (response : String) : String :=
  let fence := "```".toList
  let cleaned := trim response.toList
  if fence.isPrefixOf cleaned then
    let withoutStart := ((stripPrefix "```json".toList cleaned).or
      (stripPrefix fence cleaned)).getD cleaned
    String.ofList (trim ((stripSuffix fence withoutStart).getD withoutStart))
  else String.ofList cleaned

/-- A member of an object, null if there is none. -/
def index (value : Json) (key : String) : Json := (value.get? key).getD .null

/-- A member as a document, if it is one. -/
def optionalDocument (value : Json) (key : String) : Option Document :=
  (value.get? key).bind fun member ↦ (crates.toDocument member).toOption

def filterOf (value : Json) : Except TranslateError Document :=
  match crates.toDocument (index value "filter") with
  | .ok filter => .ok filter
  | .error reason => .error (.parseError s!"Invalid filter: {reason}")

def stageOf (item : Json) : Except TranslateError Document :=
  match crates.toDocument item with
  | .ok stage => .ok stage
  | .error reason => .error (.parseError reason)

def pipelineOf (value : Json) : Except TranslateError (List Document) :=
  match (index value "pipeline").asArray? with
  | none => .error (.parseError "Missing pipeline")
  | some items => items.mapM (stageOf crates)

def searchQueryOf (value : Json) : String :=
  (((value.get? "search_query").or (value.get? "query")).bind Json.asStr?).getD ""

/-- Read an answer as a query of some method. -/
def parseMethodResponse (value : Json) (method : String) : Except TranslateError CompiledMql :=
  if method = "filter" then do
    let filter ← filterOf crates value
    return .find filter (optionalDocument crates value "options")
  else if method = "geo" then do
    let filter ← filterOf crates value
    return .geo filter (optionalDocument crates value "options")
  else if method = "aggregate" then do
    let pipeline ← pipelineOf crates value
    return .aggregate pipeline
  else if method = "vector_search" then
    .ok (.vectorSearch (searchQueryOf value) (optionalDocument crates value "pre_filter"))
  else if method = "fulltext" then
    .ok (.fulltext (searchQueryOf value) (optionalDocument crates value "pre_filter"))
  else
    .ok (.find ((crates.toDocument (index value "filter")).toOption.getD []) none)

/-- The method of an answer: its method, or what its type stands for. -/
def methodOf (value : Json) : String :=
  match (value.get? "method").bind Json.asStr? with
  | some method => method
  | none =>
      if (value.get? "type").bind Json.asStr? = some "aggregate" then "aggregate" else "filter"

def readResponse (response : String) : Except TranslateError Json :=
  match crates.fromStr (cleanResponse response) with
  | .ok value => .ok value
  | .error reason => .error (.parseError s!"Invalid JSON from LLM: {reason}")

def parseLlmResponse (response : String) :
    Except TranslateError (CompiledMql × Option LlmTemplate) := do
  let value ← readResponse crates response
  let mql ← parseMethodResponse crates value (methodOf value)
  return (mql, (value.get? "template").bind crates.toLlmTemplate)

def validateMql (mql : CompiledMql) : Except TranslateError Unit :=
  match mql with
  | .find filter _ | .geo filter _ =>
      match validateFilter filter with
      | .ok () => .ok ()
      | .error reason => .error (.validation reason)
  | .aggregate pipeline =>
      match validatePipeline pipeline with
      | .ok () => .ok ()
      | .error reason => .error (.validation reason)
  | .vectorSearch searchQuery _ | .fulltext searchQuery _ =>
      if searchQuery.isEmpty then .error (.validation "Empty search query") else .ok ()

end Answers

/-! ## The translator -/

/-- The cache, the language model if there is one, and the registered templates. -/
structure CompiledQueryTranslator (Regex : Type) where
  cache : String → Option CompiledQuery
  provider : Option LlmProvider
  templates : List (RegisteredTemplate Regex)

namespace CompiledQueryTranslator

variable {Regex : Type} (crates : Crates Regex)

def hash (intent database collection : String) : String :=
  crates.sha256 s!"{crates.trimLowercase intent}|{database}|{collection}"

def put (translator : CompiledQueryTranslator Regex) (query : CompiledQuery) :
    CompiledQueryTranslator Regex :=
  { translator with
    cache := fun key ↦ if key = query.hash then some query else translator.cache key }

def translateMatch (translator : CompiledQueryTranslator Regex) (found : TemplateMatch)
    (intent database collection : String) :
    Except TranslateError (CompiledQuery × CompiledQueryTranslator Regex) := do
  let mql ← parseMethodResponse crates found.mqlJson found.method
  validateMql mql
  let query : CompiledQuery := {
    hash := hash crates intent database collection
    intent := intent
    collection := collection
    database := database
    mql := mql
    llmTemplate := none }
  return (query, translator.put query)

/-- Translate with the language model, and register the template that it gives. -/
def translateResponse (translator : CompiledQueryTranslator Regex) (response : String)
    (intent database collection : String) :
    Except TranslateError (CompiledQuery × CompiledQueryTranslator Regex) := do
  let (mql, llmTemplate) ← parseLlmResponse crates response
  validateMql mql
  let registered := match llmTemplate with
    | some template => [register crates template mql.method database collection]
    | none => []
  let query : CompiledQuery := {
    hash := hash crates intent database collection
    intent := intent
    collection := collection
    database := database
    mql := mql
    llmTemplate := llmTemplate }
  let next := { translator with templates := translator.templates ++ registered }
  return (query, next.put query)

/-- Translate an intent: from the cache, else by a template, else by the language model. -/
def translate (translator : CompiledQueryTranslator Regex) (intent database collection : String)
    (context : TranslationContext) :
    Except TranslateError (CompiledQuery × CompiledQueryTranslator Regex) :=
  match translator.cache (hash crates intent database collection) with
  | some cached => .ok (cached, translator)
  | none =>
      match tryMatch crates translator.templates intent database collection with
      | some found => translator.translateMatch crates found intent database collection
      | none =>
          match translator.provider with
          | none => .error .noProvider
          | some provider =>
              match provider intent database collection context with
              | .error error => .error (.llm error)
              | .ok response =>
                  translator.translateResponse crates response intent database collection

end CompiledQueryTranslator

end MongoCore.Compiled
