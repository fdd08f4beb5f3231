import MongoCore.Data.Serde
import MongoCore.Operations.Attempts
import MongoCore.Operations.ValidatedReferences
import Mathlib.Data.List.FinRange
import Mathlib.Data.Fintype.Card
import Mathlib.Data.Fin.VecNotation
import Mathlib.Tactic.FinCases

/-!
# The ids of inserted documents

The driver answers the insertion of many documents with a hash map from the index of a document to
its id.  Four places flatten the map to a list: the gRPC call, its copy for pipeline requests, the
tool, and a step of a transaction pipeline.  Each takes the values in the order in which the map is
iterated, and that order is not specified.

The main result is the exact condition under which the list is in the order of the documents, and a
later step that refers to a place of the list receives the id of the document at that place.
-/

namespace MongoCore.Operations.InsertedIds

open MongoCore.Data MongoCore.Operations.PipelineRefs MongoCore.Operations.Placeholders
open MongoCore.Operations.TransactionPipeline MongoCore.Operations.ValidatedReferences

/-! ## What the driver returns -/

/-- The map that the driver returns for documents it has inserted: the id under the index of each
document, which is its own if it had one, and the order in which the map is iterated. -/
structure InsertManyResult (documents : List Document) where
  idOf : Fin documents.length → Bson
  idOf_own : ∀ i id, documents[i].lookup "_id" = some id → idOf i = id
  order : List (Fin documents.length)
  nodup_order : order.Nodup
  mem_order : ∀ i, i ∈ order

namespace InsertManyResult

variable {documents : List Document} (result : InsertManyResult documents)

/-- The values of the map, as its iterator yields them. -/
def values : List Bson := result.order.map result.idOf

theorem length_order : result.order.length = documents.length := by
  have hall : result.order.toFinset = Finset.univ := by
    ext i
    simp [result.mem_order i]
  rw [← List.toFinset_card_of_nodup result.nodup_order, hall, Finset.card_univ, Fintype.card_fin]

def visited (i : Fin documents.length) : Fin documents.length :=
  result.order.get (i.cast result.length_order.symm)

theorem order_getElem? (i : Fin documents.length) :
    result.order[(i : ℕ)]? = some (result.visited i) := by
  have hi : (i : ℕ) < result.order.length := by
    rw [result.length_order]
    exact i.isLt
  rw [List.getElem?_eq_getElem hi]
  rfl

theorem values_getElem? (i : Fin documents.length) :
    result.values[(i : ℕ)]? = some (result.idOf (result.visited i)) := by
  rw [values, List.getElem?_map, result.order_getElem? i, Option.map_some]

/-- The map is visited in the order of the documents exactly when every place is visited by its own
index. -/
theorem visited_eq_iff : (∀ i, result.visited i = i) ↔
    result.order = List.finRange documents.length := by
  constructor
  · intro hvisited
    refine List.ext_getElem (by rw [result.length_order, List.length_finRange]) fun i hi hrange ↦ ?_
    rw [List.getElem_finRange]
    rw [List.length_finRange] at hrange
    exact hvisited ⟨i, hrange⟩
  · intro horder i
    have hi : (i : ℕ) < (List.finRange documents.length).length := by
      rw [List.length_finRange]
      exact i.isLt
    have hvisited := result.order_getElem? i
    rw [horder, List.getElem?_eq_getElem hi, List.getElem_finRange] at hvisited
    exact (Option.some.inj hvisited).symm

end InsertManyResult

/-! ## The four lists -/

section Lists

variable (display : Bson → String) (codec : JsonCodec)
variable {documents : List Document} (result : InsertManyResult documents)

structure InsertManyResponse where
  insertedIds : List String
  insertedCount : ℕ

def insertMany : InsertManyResponse :=
  let insertedIds := result.values.map display
  { insertedIds, insertedCount := insertedIds.length }

/-- The response to such an insertion in a pipeline request. -/
def pipelineInsertMany : InsertManyResponse :=
  let insertedIds := result.values.map display
  { insertedIds, insertedCount := insertedIds.length }

/-- The answer of the tool, whose text is sent. -/
def executeInsertMany : Json :=
  let ids := result.values.map display
  .object [("insertedCount", countJson ids.length), ("insertedIds", .array (ids.map .string))]

/-- Who flattens the map. -/
inductive Endpoint where
  | insertMany
  | pipelineInsertMany
  | executeInsertMany
  | executeStep
  deriving DecidableEq, Repr

def Endpoint.written : Endpoint → Bson → Json
  | .insertMany | .pipelineInsertMany | .executeInsertMany => fun id ↦ .string (display id)
  | .executeStep => codec.ofBson

def itemsOf (answer : Json) (field : String) : List Json :=
  ((answer.get? field).bind Json.asArray?).getD []

def Endpoint.listed : Endpoint → List Json
  | .insertMany => (InsertedIds.insertMany display result).insertedIds.map .string
  | .pipelineInsertMany => (InsertedIds.pipelineInsertMany display result).insertedIds.map .string
  | .executeInsertMany => itemsOf (InsertedIds.executeInsertMany display result) "insertedIds"
  | .executeStep =>
      itemsOf (stepResult codec .insertMany (.insertedMany result.values)) "inserted_ids"

/-- Each place lists the values of the map in the order of their visits. -/
theorem Endpoint.listed_eq (endpoint : Endpoint) :
    endpoint.listed display codec result =
      result.values.map (endpoint.written display codec) := by
  cases endpoint
  · exact List.map_map
  · exact List.map_map
  · exact List.map_map
  · rfl

theorem Endpoint.listed_getElem? (endpoint : Endpoint) (i : Fin documents.length) :
    (endpoint.listed display codec result)[(i : ℕ)]? =
      some (endpoint.written display codec (result.idOf (result.visited i))) := by
  rw [endpoint.listed_eq, List.getElem?_map, result.values_getElem? i, Option.map_some]

end Lists

/-! ## What the steps before leave behind -/

section Run

variable (codec : JsonCodec) (env : Environment) (maxTimeMs attempt : ℕ)

/-- The results with which the loop comes to the step behind some steps, if it gets there. -/
def resultsAfter : ℕ → List PipelineStepDef → Results → Option Results
  | _, [], results => some results
  | index, step :: rest, results =>
      if env.elapsed attempt index > maxTimeMs then none
      else
        match resolveReferences codec.toText results step.operationJson with
        | .error _ => none
        | .ok resolved =>
            match (executeStep codec (env.driver attempt index) step resolved).2 with
            | .error _ => none
            | .ok value =>
                resultsAfter (index + 1) rest (Function.update results step.name (some value))

variable {codec env maxTimeMs attempt}

/-- The loop passes a step in time whose references resolve and whose call succeeds. -/
theorem resultsAfter_cons {step : PipelineStepDef} {rest : List PipelineStepDef} {index : ℕ}
    {results after : Results}
    (h : resultsAfter codec env maxTimeMs attempt index (step :: rest) results = some after) :
    ¬ env.elapsed attempt index > maxTimeMs ∧ ∃ resolved value,
      resolveReferences codec.toText results step.operationJson = .ok resolved ∧
      (executeStep codec (env.driver attempt index) step resolved).2 = .ok value ∧
      resultsAfter codec env maxTimeMs attempt (index + 1) rest
        (Function.update results step.name (some value)) = some after := by
  rw [resultsAfter] at h
  split_ifs at h with htime
  cases hresolved : resolveReferences codec.toText results step.operationJson with
  | error error =>
    rw [hresolved] at h
    cases h
  | ok resolved =>
    simp only [hresolved] at h
    cases hexecute : (executeStep codec (env.driver attempt index) step resolved).2 with
    | error reason =>
      rw [hexecute] at h
      cases h
    | ok value =>
      rw [hexecute] at h
      exact ⟨htime, resolved, value, rfl, hexecute, h⟩

theorem exists_of_resultsAfter_append {earlier later : List PipelineStepDef} {index : ℕ}
    {results after : Results}
    (h : resultsAfter codec env maxTimeMs attempt index (earlier ++ later) results =
      some after) :
    ∃ middle, resultsAfter codec env maxTimeMs attempt index earlier results = some middle ∧
      resultsAfter codec env maxTimeMs attempt (index + earlier.length) later middle =
        some after := by
  induction earlier generalizing index results with
  | nil => exact ⟨results, rfl, h⟩
  | cons step rest ih =>
    obtain ⟨htime, resolved, value, hresolved, hexecute, hrest⟩ := resultsAfter_cons h
    obtain ⟨middle, hmiddle, hlater⟩ := ih hrest
    refine ⟨middle, ?_, ?_⟩
    · simp only [resultsAfter, if_neg htime, hresolved, hexecute, hmiddle]
    · rwa [List.length_cons, Nat.add_comm rest.length, ← Nat.add_assoc]

/-- Steps with other names leave a result as it is. -/
theorem resultsAfter_of_not_mem {between : List PipelineStepDef} {index : ℕ}
    {results after : Results} {name : String}
    (h : resultsAfter codec env maxTimeMs attempt index between results = some after)
    (hname : name ∉ between.map PipelineStepDef.name) : after name = results name := by
  induction between generalizing index results with
  | nil =>
    obtain rfl : results = after := Option.some.inj h
    rfl
  | cons step rest ih =>
    rw [List.map_cons, List.mem_cons, not_or] at hname
    obtain ⟨-, resolved, value, -, -, hrest⟩ := resultsAfter_cons h
    rw [ih hrest hname.2, Function.update_of_ne hname.1]

end Run

/-! ## The promise and its condition -/

section Promise

variable (display : Bson → String) (codec : JsonCodec)
variable {documents : List Document} (result : InsertManyResult documents)

/-- A run of an accepted pipeline in which a step inserts the documents, with this result, and a
later step is reached. -/
structure Reached (env : Environment) (maxTimeMs attempt : ℕ)
    (earlier : List PipelineStepDef) (step : PipelineStepDef) (between : List PipelineStepDef)
    (later : PipelineStepDef) (rest : List PipelineStepDef) (before after : Results) : Prop where
  accepted : validatePipeline (earlier ++ step :: (between ++ later :: rest)) = .ok ()
  isInsertMany : step.operationType = "insert_many"
  before_eq : resultsAfter codec env maxTimeMs attempt 0 earlier (fun _ ↦ none) = some before
  sends : ∃ resolved, resolveReferences codec.toText before step.operationJson = .ok resolved ∧
    documentsMember codec resolved "documents" = documents
  answers : env.driver attempt earlier.length
      { database := step.database, collection := step.collection, op := .insertMany documents } =
    .ok (.insertedMany result.values)
  after_eq : resultsAfter codec env maxTimeMs attempt 0 (earlier ++ step :: between)
    (fun _ ↦ none) = some after

/-- The list has the id of each document at its place, and a string of a later step that refers to
the place receives that id. -/
structure ReportsInOrder (endpoint : Endpoint) : Prop where
  listed : ∀ i : Fin documents.length, (endpoint.listed display codec result)[(i : ℕ)]? =
    some (endpoint.written display codec (result.idOf i))
  received : endpoint = .executeStep →
    ∀ env maxTimeMs attempt earlier step between later rest before after,
      Reached codec result env maxTimeMs attempt earlier step between later rest before after →
      ∀ (i : Fin documents.length) text inner, wholeReference? text.toList = some inner →
        parseReference (trim inner) = .ok (step.name, [.field "inserted_ids", .index i]) →
          resolveString codec.toText after text = .ok (codec.ofBson (result.idOf i))

/-- Every place is visited by an index whose id is written like the id of the place. -/
def KeepsPlaces (endpoint : Endpoint) : Prop :=
  ∀ i, endpoint.written display codec (result.idOf (result.visited i)) =
    endpoint.written display codec (result.idOf i)

/-- If all ids are written differently, only the visits in order keep the places. -/
theorem keepsPlaces_iff_order (endpoint : Endpoint)
    (hdistinct : Function.Injective fun i ↦
      endpoint.written display codec (result.idOf i)) :
    KeepsPlaces display codec result endpoint ↔
      result.order = List.finRange documents.length := by
  rw [← result.visited_eq_iff]
  constructor
  · intro hkeeps i
    exact hdistinct (hkeeps i)
  · intro hvisited i
    rw [hvisited i]

variable {codec result} in
/-- The results at the later step have the step's answer under its name. -/
theorem Reached.result_eq {env : Environment} {maxTimeMs attempt : ℕ}
    {earlier : List PipelineStepDef} {step : PipelineStepDef} {between : List PipelineStepDef}
    {later : PipelineStepDef} {rest : List PipelineStepDef} {before after : Results}
    (h : Reached codec result env maxTimeMs attempt earlier step between later rest before after) :
    after step.name = some (stepResult codec .insertMany (.insertedMany result.values)) := by
  have hnew : step.name ∉ between.map PipelineStepDef.name := by
    intro hmem
    obtain ⟨other, hother, hname⟩ := List.mem_map.mp hmem
    obtain ⟨front, back, rfl⟩ := List.append_of_mem hother
    have haccepted : validatePipeline
        ((earlier ++ step :: front) ++ other :: (back ++ later :: rest)) = .ok () := by
      simpa only [List.append_assoc, List.cons_append] using h.accepted
    refine (of_validatePipeline haccepted).1 ?_
    rw [hname, List.map_append, List.map_cons, List.mem_append]
    exact .inr List.mem_cons_self
  obtain ⟨middle, hmiddle, hlater⟩ := exists_of_resultsAfter_append h.after_eq
  obtain rfl : before = middle := Option.some.inj (h.before_eq.symm.trans hmiddle)
  obtain ⟨-, resolved, value, hresolved, hexecute, hbetween⟩ := resultsAfter_cons hlater
  obtain ⟨sent, hsent, hdocuments⟩ := h.sends
  obtain rfl : resolved = sent := Except.ok.inj (hresolved.symm.trans hsent)
  have hvalue : (executeStep codec (env.driver attempt (0 + earlier.length)) step resolved).2 =
      .ok (stepResult codec .insertMany (.insertedMany result.values)) := by
    have htype : StepType.ofName? step.operationType = some .insertMany := by
      rw [h.isInsertMany]
      rfl
    simp only [executeStep, htype, stepOp, hdocuments, Nat.zero_add, h.answers]
    rfl
  rw [hvalue] at hexecute
  rw [resultsAfter_of_not_mem hbetween hnew, Function.update_self, Except.ok.inj hexecute]

/-- A reference to a place of the list has what the list has there. -/
theorem resolveString_inserted_ids {results : Results} {name text : String} {inner : List Char}
    {i : ℕ} {ids : List Bson} {id : Bson}
    (hresult : results name = some (stepResult codec .insertMany (.insertedMany ids)))
    (hid : ids[i]? = some id) (hwhole : wholeReference? text.toList = some inner)
    (hparse : parseReference (trim inner) = .ok (name, [.field "inserted_ids", .index i])) :
    resolveString codec.toText results text = .ok (codec.ofBson id) := by
  have hmember : (ids.map codec.ofBson)[i]? = some (codec.ofBson id) := by
    rw [List.getElem?_map, hid, Option.map_some]
  rw [resolveString, hwhole]
  simp only [resolveSingleRef, hparse, hresult, bind, Except.bind, stepResult]
  rw [traversePath]
  simp [traversePath, hmember]

/-- The ids are reported in the order of the documents exactly when every place is visited by an
index whose id is written like the id of the place. -/
theorem reportsInOrder_iff (endpoint : Endpoint) :
    ReportsInOrder display codec result endpoint ↔ KeepsPlaces display codec result endpoint := by
  constructor
  · intro hreports i
    exact Option.some.inj ((endpoint.listed_getElem? display codec result i).symm.trans
      (hreports.listed i))
  · intro hkeeps
    refine ⟨fun i ↦ ?_, ?_⟩
    · rw [endpoint.listed_getElem?, hkeeps i]
    · rintro rfl env maxTimeMs attempt earlier step between later rest before after hreached i text
        inner hwhole hparse
      have hwritten : codec.ofBson (result.idOf (result.visited i)) =
          codec.ofBson (result.idOf i) := hkeeps i
      rw [resolveString_inserted_ids codec hreached.result_eq (result.values_getElem? i) hwhole
        hparse, hwritten]

end Promise

/-! ## A map iterated backwards -/

def insertParents : PipelineStepDef where
  name := "parents"
  database := "shop"
  collection := "parents"
  operationType := "insert_many"
  operationJson := .object [("documents",
    .array [.object [("_id", .string "a")], .object [("_id", .string "b")]])]
  findLimit := none

/-- A step that inserts a child of the first parent. -/
def insertChild : PipelineStepDef where
  name := "child"
  database := "shop"
  collection := "children"
  operationType := "insert"
  operationJson := .object [("document",
    .object [("parent", .string "\x7b\x7bparents.inserted_ids[0]\x7d\x7d")])]
  findLimit := none

def parents : List Document := [[("_id", .string "a")], [("_id", .string "b")]]

/-- The ids of the two parents in a map that yields the second one first. -/
def backwards : InsertManyResult parents where
  idOf := ![.string "a", .string "b"]
  idOf_own i id h := by
    have hid : ∀ i : Fin 2, parents[i].lookup "_id" =
        some (![Bson.string "a", .string "b"] i) := by
      intro i
      fin_cases i <;> rfl
    exact Option.some.inj ((hid i).symm.trans h)
  order := ([1, 0] : List (Fin 2))
  nodup_order := show ([1, 0] : List (Fin 2)).Nodup by decide
  mem_order := show ∀ i : Fin 2, i ∈ [1, 0] by decide

/-- An environment in which the parents are inserted with that result. -/
def insertsBackwards : Environment :=
  answering (fun _ ↦ .ok (.insertedMany backwards.values)) (fun _ ↦ .ok ())

def idText : Bson → String
  | .string text => text
  | _ => ""

/-- The results after the first step. -/
def afterParents : Results :=
  Function.update (fun _ ↦ none) "parents"
    (some (stepResult Serde.ofTags.codec .insertMany (.insertedMany backwards.values)))

/-- All four lists have the second id first, and the child of the first parent gets the second. -/
theorem ids_listed_backwards :
    (∀ endpoint, ¬ ReportsInOrder idText Serde.ofTags.codec backwards endpoint) ∧
    Reached Serde.ofTags.codec backwards insertsBackwards 1000 0 [] insertParents [] insertChild []
      (fun _ ↦ none) afterParents ∧
    resolveReferences Serde.ofTags.codec.toText afterParents insertChild.operationJson =
      .ok (.object [("document", .object [("parent", .string "b")])]) := by
  refine ⟨fun endpoint hreports ↦ ?_, ⟨rfl, rfl, rfl, ⟨_, rfl, rfl⟩, rfl, rfl⟩, rfl⟩
  have hfirst : some (Json.string "b") = some (.string "a") := by
    cases endpoint <;> exact hreports.listed (0 : Fin 2)
  simp at hfirst

end MongoCore.Operations.InsertedIds
