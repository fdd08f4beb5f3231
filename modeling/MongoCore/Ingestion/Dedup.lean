import Mathlib.Data.List.Basic
import Mathlib.Data.List.Nodup
import MongoCore.Library.EntryMap

/-!
# Deduplication of ingested documents

A batch of incoming documents is checked against the target collection.  The documents that are
there already are queried once, by the dedup keys of the whole batch, and every incoming document
is compared with the result of that query.

Documents keep the order of their fields.  The values and their equality are parameters: the
equality of the code does not relate a NaN to itself.  How the database compares a field with a
value is a parameter of its own.
-/

namespace MongoCore.Ingestion

open MongoCore.Library

/-! ## Documents -/

section Fields

variable {V : Type}

/-- Set a field: in its place if it is there, at the end otherwise. -/
def insertField (key : String) (value : V) : List (String × V) → List (String × V)
  | [] => [(key, value)]
  | field :: rest =>
      if field.1 = key then (key, value) :: rest else field :: insertField key value rest

theorem keys_insertField (key : String) (value : V) (fields : List (String × V)) :
    (insertField key value fields).map Prod.fst =
      if key ∈ fields.map Prod.fst then fields.map Prod.fst
      else fields.map Prod.fst ++ [key] := by
  induction fields with
  | nil => simp [insertField]
  | cons field rest ih =>
    unfold insertField
    by_cases hkey : field.1 = key
    · simp [hkey]
    · rw [if_neg hkey, List.map_cons, ih]
      split_ifs <;> simp_all [eq_comm]

theorem nodup_insertField (key : String) (value : V) {fields : List (String × V)}
    (h : (fields.map Prod.fst).Nodup) :
    ((insertField key value fields).map Prod.fst).Nodup := by
  rw [keys_insertField]
  split_ifs with hkey
  · exact h
  · refine List.nodup_append.mpr ⟨h, List.nodup_singleton key, fun name hname other hother heq ↦ ?_⟩
    obtain rfl := List.mem_singleton.mp hother
    exact hkey (heq ▸ hname)

end Fields

/-- A document: its fields in order, each name once. -/
@[ext]
structure Document (V : Type) where
  fields : List (String × V)
  nodup : (fields.map Prod.fst).Nodup

variable {V : Type}

namespace Document

/-- The document without fields. -/
def empty : Document V := ⟨[], List.nodup_nil⟩

def get (document : Document V) (key : String) : Option V := document.fields.lookup key

def insert (document : Document V) (key : String) (value : V) : Document V :=
  ⟨insertField key value document.fields, nodup_insertField key value document.nodup⟩

def keys (document : Document V) : List String := document.fields.map Prod.fst

end Document

/-! ## The check -/

/-- What happens to a document whose dedup key is there already. -/
inductive ConflictStrategy where
  | skip | overwrite | merge
  deriving DecidableEq, Repr

/-- What the check says about one incoming document. -/
inductive DedupResult (V : Type) where
  | insert (document : Document V)
  | skip
  | replace (document : Document V)
  | merge (incoming existing : Document V)

/-- The fields of the dedup key with their values, if the document has them all. -/
def buildDedupFilter (dedupKey : List String) (document : Document V) : Option (Document V) :=
  dedupKey.foldlM (fun filter key ↦ (document.get key).map (filter.insert key)) Document.empty

def resolveConflict (strategy : ConflictStrategy) (incoming existing : Document V) :
    DedupResult V :=
  match strategy with
  | .skip => .skip
  | .overwrite => .replace incoming
  | .merge => .merge incoming existing

/-- Shallow merge: start with the existing document, overlay all fields of the incoming one. -/
def mergeDocuments (incoming existing : Document V) : Document V :=
  incoming.fields.foldl (fun result field ↦ result.insert field.1 field.2) existing

/-- The database satisfies an equality condition on every field of a filter. -/
def matchesFilter (fieldMatches : String → V → Document V → Bool) (filter document : Document V) :
    Bool :=
  filter.fields.all fun field ↦ fieldMatches field.1 field.2 document

def findAny (fieldMatches : String → V → Document V → Bool) (filters collection : List (Document V)) :
    List (Document V) :=
  collection.filter fun document ↦ filters.any fun filter ↦
    matchesFilter fieldMatches filter document

/-- Check a batch of documents against the collection.  The query of the documents that are there
can fail. -/
def checkBatch [BEq V] (fieldMatches : String → V → Document V → Bool)
    (queryFailure : Option String) (dedupKey : List String) (strategy : ConflictStrategy)
    (collection documents : List (Document V)) : Except String (List (DedupResult V)) :=
  if dedupKey.isEmpty then .ok (documents.map .insert)
  else do
    let orFilters := documents.filterMap (buildDedupFilter dedupKey)
    let existing ←
      if orFilters.isEmpty then .ok []
      else match queryFailure with
        | some error => .error error
        | none => .ok (findAny fieldMatches orFilters collection)
    return documents.map fun document ↦
      match buildDedupFilter dedupKey document with
      | none => .insert document
      | some filter =>
          match existing.find? fun old ↦ dedupKey.all fun key ↦ filter.get key == old.get key with
          | none => .insert document
          | some old => resolveConflict strategy document old

/-! ## Fields of a merged document -/

section Fields

theorem lookup_insertField_self (key : String) (value : V) (fields : List (String × V)) :
    (insertField key value fields).lookup key = some value := by
  induction fields with
  | nil => simp [insertField]
  | cons field rest ih =>
    unfold insertField
    split_ifs with hkey
    · simp
    · rw [List.lookup_cons, beq_false_of_ne (Ne.symm hkey)]
      exact ih

theorem lookup_insertField_of_ne {key other : String} (h : other ≠ key) (value : V)
    (fields : List (String × V)) :
    (insertField key value fields).lookup other = fields.lookup other := by
  induction fields with
  | nil => simp [insertField, List.lookup_cons, beq_false_of_ne h]
  | cons field rest ih =>
    unfold insertField
    split_ifs with hkey
    · rw [List.lookup_cons, List.lookup_cons, hkey, beq_false_of_ne h]
    · rw [List.lookup_cons, List.lookup_cons, ih]

theorem insertField_insertField (key : String) (value old : V) (fields : List (String × V)) :
    insertField key value (insertField key old fields) = insertField key value fields := by
  induction fields with
  | nil => simp [insertField]
  | cons field rest ih =>
    by_cases hkey : field.1 = key
    · simp [insertField, hkey]
    · simp [insertField, hkey, ih]

/-- Two fields can be set in either order if the first is there already. -/
theorem insertField_comm {key other : String} (hne : key ≠ other) {fields : List (String × V)}
    (hmem : key ∈ fields.map Prod.fst) (value another : V) :
    insertField key value (insertField other another fields) =
      insertField other another (insertField key value fields) := by
  induction fields with
  | nil => cases hmem
  | cons field rest ih =>
    by_cases hkey : field.1 = key
    · have hother : field.1 ≠ other := fun heq ↦ hne (hkey.symm.trans heq)
      simp [insertField, hkey, hne]
    · have hrest : key ∈ rest.map Prod.fst := by
        simpa [Ne.symm hkey] using hmem
      by_cases hother : field.1 = other
      · simp [insertField, hother, Ne.symm hne]
      · simp [insertField, hkey, hother, ih hrest]

def mergeFields (incoming existing : List (String × V)) : List (String × V) :=
  incoming.foldl (fun result field ↦ insertField field.1 field.2 result) existing

theorem lookup_mergeFields {incoming : List (String × V)} (h : (incoming.map Prod.fst).Nodup)
    (existing : List (String × V)) (key : String) :
    (mergeFields incoming existing).lookup key =
      (incoming.lookup key).or (existing.lookup key) := by
  induction incoming generalizing existing with
  | nil => rfl
  | cons field rest ih =>
    obtain ⟨hfield, hrest⟩ := List.nodup_cons.mp h
    have hstep : (mergeFields (field :: rest) existing).lookup key =
        (rest.lookup key).or ((insertField field.1 field.2 existing).lookup key) :=
      ih hrest _
    rw [hstep, List.lookup_cons]
    by_cases hkey : key = field.1
    · have hnone : rest.lookup key = none := lookup_eq_none_iff_notMem.mpr (hkey ▸ hfield)
      rw [hnone, hkey, lookup_insertField_self]
      simp
    · rw [lookup_insertField_of_ne hkey, beq_false_of_ne hkey]

theorem insertField_mergeFields {key : String} {incoming existing : List (String × V)}
    (hnot : key ∉ incoming.map Prod.fst) (hmem : key ∈ existing.map Prod.fst) (value : V) :
    insertField key value (mergeFields incoming existing) =
      mergeFields incoming (insertField key value existing) := by
  induction incoming generalizing existing with
  | nil => rfl
  | cons field rest ih =>
    obtain ⟨hne, hrest⟩ : key ≠ field.1 ∧ key ∉ rest.map Prod.fst := by
      simpa [not_or] using hnot
    have hstill : key ∈ (insertField field.1 field.2 existing).map Prod.fst := by
      rw [keys_insertField]
      split_ifs
      · exact hmem
      · exact List.mem_append_left _ hmem
    calc insertField key value (mergeFields rest (insertField field.1 field.2 existing))
        = mergeFields rest (insertField key value (insertField field.1 field.2 existing)) :=
          ih hrest hstill
      _ = mergeFields rest (insertField field.1 field.2 (insertField key value existing)) := by
          rw [insertField_comm hne hmem]

/-- Overlaying fields of the same names twice is overlaying the later ones. -/
theorem mergeFields_mergeFields {later earlier : List (String × V)}
    (hkeys : later.map Prod.fst = earlier.map Prod.fst) (hnodup : (later.map Prod.fst).Nodup)
    (existing : List (String × V)) :
    mergeFields later (mergeFields earlier existing) = mergeFields later existing := by
  induction later generalizing earlier existing with
  | nil =>
    obtain rfl : earlier = [] := List.map_eq_nil_iff.mp hkeys.symm
    rfl
  | cons field rest ih =>
    cases earlier with
    | nil => cases hkeys
    | cons other before =>
      obtain ⟨hname, hkeys⟩ := List.cons.inj hkeys
      obtain ⟨hfield, hnodup⟩ := List.nodup_cons.mp hnodup
      have hmem : field.1 ∈ (insertField other.1 other.2 existing).map Prod.fst := by
        rw [keys_insertField, ← hname]
        split_ifs with h
        · exact h
        · simp
      calc mergeFields rest (insertField field.1 field.2
              (mergeFields before (insertField other.1 other.2 existing)))
          = mergeFields rest (mergeFields before
              (insertField field.1 field.2 (insertField other.1 other.2 existing))) := by
            rw [insertField_mergeFields (hkeys ▸ hfield) hmem]
        _ = mergeFields rest (mergeFields before (insertField field.1 field.2 existing)) := by
            rw [← hname, insertField_insertField]
        _ = mergeFields rest (insertField field.1 field.2 existing) := ih hkeys hnodup _

end Fields

theorem fields_mergeDocuments (incoming existing : Document V) :
    (mergeDocuments incoming existing).fields = mergeFields incoming.fields existing.fields := by
  have hfold : ∀ (fields : List (String × V)) (document : Document V),
      (fields.foldl (fun result field ↦ result.insert field.1 field.2) document).fields =
        mergeFields fields document.fields := by
    intro fields
    induction fields with
    | nil => exact fun _ ↦ rfl
    | cons field rest ih => exact fun document ↦ ih _
  exact hfold _ _

/-- A field of a merged document is that of the incoming one, if it has it. -/
theorem get_mergeDocuments (incoming existing : Document V) (key : String) :
    (mergeDocuments incoming existing).get key = (incoming.get key).or (existing.get key) := by
  unfold Document.get
  rw [fields_mergeDocuments]
  exact lookup_mergeFields incoming.nodup existing.fields key

/-- Of two documents with the same fields that are merged in turn, the later one counts. -/
theorem mergeDocuments_mergeDocuments {later earlier : Document V}
    (h : later.keys = earlier.keys) (existing : Document V) :
    mergeDocuments later (mergeDocuments earlier existing) = mergeDocuments later existing := by
  apply Document.ext
  rw [fields_mergeDocuments, fields_mergeDocuments, fields_mergeDocuments]
  exact mergeFields_mergeFields h later.nodup existing.fields

/-! ## The filter of a dedup key -/

theorem Document.get_insert_self (document : Document V) (key : String) (value : V) :
    (document.insert key value).get key = some value :=
  lookup_insertField_self key value document.fields

theorem Document.get_insert_of_ne (document : Document V) {key other : String} (h : other ≠ key)
    (value : V) : (document.insert key value).get other = document.get other :=
  lookup_insertField_of_ne h value document.fields

theorem Document.mem_fields_iff (document : Document V) {key : String} {value : V} :
    (key, value) ∈ document.fields ↔ document.get key = some value := by
  obtain ⟨fields, hnodup⟩ := document
  unfold Document.get
  induction fields with
  | nil => simp
  | cons field rest ih =>
    obtain ⟨hfield, hrest⟩ := List.nodup_cons.mp hnodup
    rw [List.mem_cons, ih hrest, List.lookup_cons]
    by_cases hkey : key = field.1
    · have hnone : rest.lookup key = none := lookup_eq_none_iff_notMem.mpr (hkey ▸ hfield)
      subst hkey
      simp only [hnone, Prod.ext_iff, beq_self_eq_true]
      simp [eq_comm]
    · simp [hkey, beq_false_of_ne hkey, Prod.ext_iff]

/-- What the filter of a document holds: the fields of the dedup key, with their values there. -/
theorem get_of_buildDedupFilter {dedupKey : List String} {document filter : Document V}
    (h : buildDedupFilter dedupKey document = some filter) (key : String) :
    filter.get key = if key ∈ dedupKey then document.get key else none := by
  have hfold : ∀ (names : List String) (start : Document V),
      names.foldlM (fun filter name ↦ (document.get name).map (filter.insert name)) start =
        some filter →
      filter.get key = if key ∈ names then document.get key else start.get key := by
    intro names
    induction names with
    | nil =>
      intro start h
      obtain rfl := Option.some.inj h
      simp
    | cons name names ih =>
      intro start h
      rw [List.foldlM_cons] at h
      obtain ⟨next, hnext, h⟩ := Option.bind_eq_some_iff.mp h
      obtain ⟨value, hvalue, rfl⟩ := Option.map_eq_some_iff.mp hnext
      rw [ih _ h]
      by_cases hkey : key = name
      · simp [hkey, Document.get_insert_self, hvalue]
      · simp [hkey, Document.get_insert_of_ne]
  have hget := hfold dedupKey Document.empty h
  simpa [Document.get, Document.empty] using hget

theorem isSome_buildDedupFilter {dedupKey : List String} {document : Document V} :
    (buildDedupFilter dedupKey document).isSome = true ↔
      ∀ key ∈ dedupKey, (document.get key).isSome = true := by
  have hfold : ∀ (names : List String) (start : Document V),
      (names.foldlM (fun filter name ↦ (document.get name).map (filter.insert name))
        start).isSome = true ↔ ∀ name ∈ names, (document.get name).isSome = true := by
    intro names
    induction names with
    | nil => simp
    | cons name names ih =>
      intro start
      rw [List.foldlM_cons, List.forall_mem_cons]
      cases hvalue : document.get name with
      | none => simp
      | some value => simpa using ih _
  exact hfold dedupKey Document.empty

end MongoCore.Ingestion
