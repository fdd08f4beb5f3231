import Mathlib.Data.Finset.Dedup
import Mathlib.Data.Finset.Lattice.Lemmas
import MongoCore.Data.BsonTypes
import MongoCore.Data.Serde
import MongoCore.Library.ByteText
import MongoCore.Library.Grouping
import MongoCore.Library.JoinedPaths

/-!
# The fields of sampled documents

The schema tool and the schema resource fold the documents of a sample into one entry for each
field: its types, the number of documents that have it, and an example.  The name of a field is the
keys that lead to it, joined by dots, and a long string is cut for the example.

The main result says for which samples the entries are those of the paths of keys.
-/

namespace MongoCore.Mcp.SchemaSampling

open MongoCore.Data MongoCore.Library MongoCore.Library.ByteText MongoCore.Library.Grouping
open MongoCore.Library.JoinedPaths (joined parts extend joined_eq_joined_iff)

/-! ## Collecting fields -/

structure DriverTexts where
  objectId : List UInt8 → String
  dateTime : ℤ → String
  decimal128 : List UInt8 → String

def bsonTypeName (value : Bson) : String :=
  match value.elementType with
  | .double => "double"
  | .string => "string"
  | .array => "array"
  | .document => "document"
  | .boolean => "bool"
  | .null => "null"
  | .regularExpression => "regex"
  | .javaScriptCode => "javascript"
  | .javaScriptCodeWithScope => "javascriptWithScope"
  | .int32 => "int32"
  | .int64 => "int64"
  | .timestamp => "timestamp"
  | .binary => "binData"
  | .objectId => "objectId"
  | .dateTime => "date"
  | .symbol => "symbol"
  | .decimal128 => "decimal"
  | .undefined => "undefined"
  | .maxKey => "maxKey"
  | .minKey => "minKey"
  | .dbPointer => "dbPointer"

mutual

/-- The example of a value; none where the cut of a long string panics. -/
def bsonToExampleJson (texts : DriverTexts) : Bson → Option Json
  | .double bits => some (if isFinite bits then .number (.float bits) else .null)
  | .string value =>
      if 50 < value.utf8ByteSize then
        (sliceTo value.toList 50).map fun front ↦ .string (String.ofList front ++ "...")
      else some (.string value)
  | .array items => firstExample texts items
  | .document _ => some (.string "\x7b ... \x7d")
  | .boolean value => some (.bool value)
  | .null => some .null
  | .int32 value => some (jsonInteger value)
  | .int64 value => some (jsonInteger value)
  | .objectId bytes => some (.string (texts.objectId bytes))
  | .dateTime millis => some (.string (texts.dateTime millis))
  | .decimal128 bytes => some (.string (texts.decimal128 bytes))
  | _ => some (.string "...")

/-- The example of an array: that of its first item. -/
def firstExample (texts : DriverTexts) : List Bson → Option Json
  | [] => some (.array [])
  | first :: _ => (bsonToExampleJson texts first).map fun value ↦ .array [value]

end

structure FieldInfo where
  types : Finset String
  count : ℕ
  example_ : Option Json

def FieldInfo.new : FieldInfo where
  types := ∅
  count := 0
  example_ := none

def FieldInfo.visit (texts : DriverTexts) (entry : Option FieldInfo) (value : Bson) :
    Option FieldInfo :=
  let info := entry.getD FieldInfo.new
  let info :=
    { info with count := info.count + 1, types := insert (bsonTypeName value) info.types }
  match info.example_ with
  | some _ => some info
  | none => (bsonToExampleJson texts value).map fun found ↦ { info with example_ := some found }

abbrev Fields := EntryMap String FieldInfo

/-- The name of a field behind that of the document it is in. -/
def nest (base key : String) : String := if base.isEmpty then key else base ++ "." ++ key

mutual

/-- Fold the members of a document into the entries, and those of documents in it. -/
def collectFields (texts : DriverTexts) : Document → String → Fields → Option Fields
  | [], _, fields => some fields
  | (key, value) :: members, base, fields =>
      (record (FieldInfo.visit texts) fields (nest base key, value)).bind fun fields ↦
        (collectNested texts value (nest base key) fields).bind (collectFields texts members base)

def collectNested (texts : DriverTexts) : Bson → String → Fields → Option Fields
  | .document nested, fieldPath, fields => collectFields texts nested fieldPath fields
  | _, _, fields => some fields

end

/-- The entries of a sample; none where the folding panics. -/
def sampledFields (texts : DriverTexts) (documents : List KeyedDocument) : Option Fields :=
  documents.foldlM (fun fields document ↦ collectFields texts document.members "" fields)
    EntryMap.empty

/-! ## Paths of keys -/

/-- The value that a path of keys leads to. -/
def descend : List String → Bson → Option Bson
  | [], value => some value
  | key :: path, .document members => (members.lookup key).bind (descend path)
  | _ :: _, _ => none

/-- What a path of keys leads to in a document.  A path has a key at least. -/
def valueAt (document : KeyedDocument) (path : List String) : Option Bson :=
  if path = [] then none else descend path (.document document.members)

def valuesAt (documents : List KeyedDocument) (path : List String) : List Bson :=
  documents.filterMap (valueAt · path)

def Occurs (documents : List KeyedDocument) (path : List String) : Prop :=
  ∃ document ∈ documents, (valueAt document path).isSome = true

def fieldName (path : List String) : String := path.foldl nest ""

/-- Every path that occurs has an entry of its own, which has the number of documents with this path
and the types of its values. -/
structure Exact (documents : List KeyedDocument) (fields : Fields) : Prop where
  separate : ∀ path other, Occurs documents path → Occurs documents other →
    fieldName path = fieldName other → path = other
  recorded : ∀ name info, fields.get? name = some info →
    ∃ path, Occurs documents path ∧ fieldName path = name
  counted : ∀ path, Occurs documents path → ∃ info, fields.get? (fieldName path) = some info ∧
    info.count = documents.countP (fun document ↦ (valueAt document path).isSome) ∧
    info.count ≤ documents.length ∧
    info.types = ((valuesAt documents path).map bsonTypeName).toFinset

/-- The parts that dots make of the keys of a path, without empty keys in front. -/
def pathParts (path : List String) : List (List Char) := parts '.' (path.map String.toList)

mutual

/-- The example of a value is cut inside a character: the value is a string of more than 50 bytes
without a front of 50 bytes, or an array that starts with such a value. -/
def CutInside : Bson → Prop
  | .string value => 50 < value.utf8ByteSize ∧
      ∀ front, front <+: value.toList → String.utf8Len front ≠ 50
  | .array items => CutInsideFirst items
  | _ => False

def CutInsideFirst : List Bson → Prop
  | [] => False
  | first :: _ => CutInside first

end

/-! ## Examples and entries -/

/-- The names of types tell them apart. -/
theorem bsonTypeName_eq_iff {value other : Bson} :
    bsonTypeName value = bsonTypeName other ↔ value.elementType = other.elementType := by
  rw [bsonTypeName, bsonTypeName]
  cases value.elementType <;> cases other.elementType <;> simp

theorem bsonToExampleJson_eq_none {texts : DriverTexts} {value : Bson} :
    bsonToExampleJson texts value = none ↔ CutInside value := by
  induction value using Bson.inductionOn with
  | document members => simp [bsonToExampleJson, CutInside]
  | array items ih =>
    rw [bsonToExampleJson, CutInside]
    cases items with
    | nil => simp [firstExample, CutInsideFirst]
    | cons first items =>
      rw [firstExample, CutInsideFirst, Option.map_eq_none_iff]
      exact ih first List.mem_cons_self
  | scalar value hscalar =>
    cases value with
    | string value =>
      rw [bsonToExampleJson, CutInside]
      split
      case isTrue hlong =>
        rw [Option.map_eq_none_iff, Option.eq_none_iff_forall_ne_some]
        simp only [hlong, true_and, ne_eq, sliceTo_eq_some, not_and]
        exact forall_congr' fun front ↦ imp_not_comm
      case isFalse hshort => simp [hshort]
    | array items => exact absurd rfl hscalar.2
    | _ => simp [bsonToExampleJson, CutInside]

/-- The entry that values make: the first of them gives the example. -/
def entryOf (texts : DriverTexts) : List Bson → Option (Option FieldInfo)
  | [] => some none
  | first :: values => (bsonToExampleJson texts first).map fun found ↦ some
      { types := ((first :: values).map bsonTypeName).toFinset
        count := (first :: values).length
        example_ := some found }

/-- Where there is an example, values only add their types and their number. -/
theorem updateAll_visit_some (texts : DriverTexts) (types : Finset String) (count : ℕ)
    (found : Json) (values : List Bson) :
    updateAll (FieldInfo.visit texts) (some ⟨types, count, some found⟩) values =
      some (some ⟨types ∪ (values.map bsonTypeName).toFinset, count + values.length,
        some found⟩) := by
  induction values generalizing types count with
  | nil => simp [updateAll]
  | cons value values ih =>
    rw [updateAll, FieldInfo.visit]
    simp only [Option.getD_some, Option.bind_some, ih]
    congr 3
    · ext name
      simp only [List.map_cons, List.toFinset_cons, Finset.mem_union, Finset.mem_insert]
      tauto
    · rw [List.length_cons]
      omega

theorem updateAll_visit (texts : DriverTexts) (values : List Bson) :
    updateAll (FieldInfo.visit texts) none values = entryOf texts values := by
  cases values with
  | nil => rfl
  | cons first values =>
    rw [updateAll, FieldInfo.visit, entryOf]
    simp only [Option.getD_none, FieldInfo.new]
    cases bsonToExampleJson texts first with
    | none => rfl
    | some found =>
      simp only [Option.map_some, Option.bind_some, updateAll_visit_some]
      simp [Nat.add_comm]

theorem exists_entryOf {texts : DriverTexts} {values : List Bson} :
    (∃ entry, entryOf texts values = some entry) ↔
      ∀ first, values.head? = some first → ¬ CutInside first := by
  cases values with
  | nil => simp [entryOf]
  | cons first values =>
    rw [← Option.isSome_iff_exists, entryOf, Option.isSome_map, Option.isSome_iff_ne_none, ne_eq,
      bsonToExampleJson_eq_none]
    simp

/-! ## The values that are folded -/

mutual

/-- The paths in a document with what they lead to, in the order of the folding. -/
def visits : Document → List (List String × Bson)
  | [] => []
  | (key, value) :: members =>
      ([key], value) :: ((nestedVisits value).map fun visit ↦ (key :: visit.1, visit.2)) ++
        visits members

def nestedVisits : Bson → List (List String × Bson)
  | .document nested => visits nested
  | _ => []

end

/-- The names and values of a document whose own name is given. -/
def entriesIn (base : String) (found : List (List String × Bson)) : List (String × Bson) :=
  found.map fun visit ↦ (visit.1.foldl nest base, visit.2)

theorem entriesIn_visits_cons (base key : String) (value : Bson) (members : Document) :
    entriesIn base (visits ((key, value) :: members)) =
      (nest base key, value) ::
        (entriesIn (nest base key) (nestedVisits value) ++ entriesIn base (visits members)) := by
  simp [entriesIn, visits, Function.comp_def]

mutual

theorem collectFields_eq (texts : DriverTexts) (base : String) (fields : Fields) :
    ∀ members, collectFields texts members base fields =
      (entriesIn base (visits members)).foldlM (record (FieldInfo.visit texts)) fields
  | [] => rfl
  | (key, value) :: members => by
    rw [collectFields, entriesIn_visits_cons, List.foldlM_cons]
    congr 1
    funext next
    rw [collectNested_eq, List.foldlM_append]
    congr 1
    funext last
    exact collectFields_eq texts base last members

theorem collectNested_eq (texts : DriverTexts) (base : String) (fields : Fields) :
    ∀ value, collectNested texts value base fields =
      (entriesIn base (nestedVisits value)).foldlM (record (FieldInfo.visit texts)) fields
  | .document nested => collectFields_eq texts base fields nested
  | .double _ | .string _ | .array _ | .boolean _ | .null | .regularExpression _ _
  | .javaScriptCode _ | .javaScriptCodeWithScope _ _ | .int32 _ | .int64 _ | .timestamp _ _
  | .binary _ _ | .objectId _ | .dateTime _ | .symbol _ | .decimal128 _ | .undefined | .maxKey
  | .minKey | .dbPointer _ _ => rfl

end

def sampleVisits (documents : List KeyedDocument) : List (List String × Bson) :=
  documents.flatMap fun document ↦ visits document.members

/-- A sample is folded entry by entry. -/
theorem sampledFields_eq (texts : DriverTexts) (documents : List KeyedDocument) :
    sampledFields texts documents =
      (entriesIn "" (sampleVisits documents)).foldlM (record (FieldInfo.visit texts))
        EntryMap.empty := by
  rw [sampledFields]
  generalize (EntryMap.empty : Fields) = fields
  induction documents generalizing fields with
  | nil => rfl
  | cons document documents ih =>
    have hsplit : entriesIn "" (sampleVisits (document :: documents)) =
        entriesIn "" (visits document.members) ++ entriesIn "" (sampleVisits documents) := by
      rw [sampleVisits, List.flatMap_cons, entriesIn, List.map_append]
      rfl
    rw [List.foldlM_cons, hsplit, List.foldlM_append, collectFields_eq]
    congr 1
    funext next
    exact ih next

/-! ## What a path leads to -/

/-- A path behind a key is found in what the key has. -/
theorem valuesOf_map_cons (key : String) (path : List String)
    (found : List (List String × Bson)) :
    valuesOf (key :: path) (found.map fun visit ↦ (key :: visit.1, visit.2)) =
      valuesOf path found :=
  valuesOf_map (List.cons key) fun _ _ heq ↦ (List.cons.inj heq).2

theorem valuesOf_map_cons_of_ne {key other : String} (hne : other ≠ key) (path : List String)
    (found : List (List String × Bson)) :
    valuesOf (key :: path) (found.map fun visit ↦ (other :: visit.1, visit.2)) = [] := by
  rw [valuesOf_eq_nil, List.map_map]
  intro hmem
  obtain ⟨visit, -, hvisit⟩ := List.mem_map.mp hmem
  exact hne (List.cons.inj hvisit).1

/-- The visits of a path come from the first key of it. -/
theorem valuesOf_visits_cons (key : String) (path : List String) (name : String) (value : Bson)
    (members : Document) :
    valuesOf (key :: path) (visits ((name, value) :: members)) =
      (if name = key then (if path = [] then [value] else []) ++ valuesOf path (nestedVisits value)
        else []) ++ valuesOf (key :: path) (visits members) := by
  rw [visits, valuesOf_append]
  congr 1
  by_cases hname : name = key
  · subst hname
    rw [if_pos rfl]
    by_cases hpath : path = []
    · subst hpath
      rw [valuesOf_cons_self, valuesOf_map_cons, if_pos rfl]
      rfl
    · have hne : [name] ≠ name :: path := fun heq ↦ hpath (List.cons.inj heq).2.symm
      rw [valuesOf_cons_of_ne hne, valuesOf_map_cons, if_neg hpath, List.nil_append]
  · have hne : [name] ≠ key :: path := fun heq ↦ hname (List.cons.inj heq).1
    rw [valuesOf_cons_of_ne hne, valuesOf_map_cons_of_ne hname, if_neg hname]

/-- No visit is without a key. -/
theorem valuesOf_nil_visits (members : Document) : valuesOf [] (visits members) = [] := by
  induction members with
  | nil => rfl
  | cons member members ih =>
    rw [visits, valuesOf_append, ih, List.append_nil, valuesOf_cons_of_ne (List.cons_ne_nil _ _),
      valuesOf_eq_nil, List.map_map]
    simp

/-- A document whose values are visited as they should is visited as it should. -/
theorem valuesOf_visits {members : Document} (hnodup : (members.map Prod.fst).Nodup)
    {path : List String} (hvalues : ∀ member ∈ members,
      valuesOf path (nestedVisits member.2) =
        if path = [] then [] else (descend path member.2).toList) (key : String) :
    valuesOf (key :: path) (visits members) =
      (descend (key :: path) (.document members)).toList := by
  rw [descend]
  induction members with
  | nil => rfl
  | cons member members ih =>
    obtain ⟨name, value⟩ := member
    rw [List.map_cons, List.nodup_cons] at hnodup
    have hrest := ih hnodup.2 fun other hother ↦ hvalues other (List.mem_cons_of_mem _ hother)
    rw [valuesOf_visits_cons, hrest, List.lookup_cons]
    by_cases hname : name = key
    · subst hname
      have hnone : members.lookup name = none := lookup_eq_none_iff_notMem.mpr hnodup.1
      rw [if_pos rfl, hvalues _ List.mem_cons_self, hnone, beq_self_eq_true]
      cases path with
      | nil => rfl
      | cons next path => simp
    · rw [if_neg hname, beq_false_of_ne (Ne.symm hname)]
      rfl

/-- The visits of a value with a path are what the path leads to. -/
theorem valuesOf_nestedVisits {value : Bson} (hvalue : value.DistinctKeys) (path : List String) :
    valuesOf path (nestedVisits value) = if path = [] then [] else (descend path value).toList := by
  induction value using Bson.inductionOn generalizing path with
  | document members ih =>
    rw [Bson.distinctKeys_document] at hvalue
    cases path with
    | nil => exact valuesOf_nil_visits members
    | cons key path =>
      rw [if_neg (List.cons_ne_nil key path)]
      exact valuesOf_visits hvalue.1
        (fun member hmember ↦ ih member hmember (hvalue.2 member hmember) path) key
  | array items =>
    cases path <;> simp [nestedVisits, descend]
  | scalar value hscalar =>
    cases path with
    | nil => cases value <;> simp_all [nestedVisits, Bson.IsScalar, Bson.elementType]
    | cons key path =>
      cases value <;> simp_all [nestedVisits, descend, Bson.IsScalar, Bson.elementType]

theorem valuesOf_sampleVisits (documents : List KeyedDocument) (path : List String) :
    valuesOf path (sampleVisits documents) = valuesAt documents path := by
  rw [sampleVisits, valuesOf_flatMap, valuesAt]
  induction documents with
  | nil => rfl
  | cons document documents ih =>
    have hvisits : valuesOf path (visits document.members) =
        if path = [] then [] else (descend path (.document document.members)).toList :=
      valuesOf_nestedVisits document.distinct path
    rw [List.flatMap_cons, ih, List.filterMap_cons, hvisits, valueAt]
    split
    · rfl
    · cases descend path (.document document.members) <;> rfl

theorem occurs_iff {documents : List KeyedDocument} {path : List String} :
    Occurs documents path ↔ valuesAt documents path ≠ [] := by
  simp only [Occurs, valuesAt, ne_eq, List.filterMap_eq_nil_iff, not_forall,
    Option.isSome_iff_ne_none, exists_prop]

theorem mem_sampleVisits {documents : List KeyedDocument} {path : List String} :
    path ∈ (sampleVisits documents).map Prod.fst ↔ Occurs documents path := by
  rw [occurs_iff, ← valuesOf_sampleVisits, ne_eq, valuesOf_eq_nil, not_not]

/-! ## Names of fields -/

theorem toList_fieldName (path : List String) :
    (fieldName path).toList = joined '.' (path.map String.toList) := by
  have hnest (base key : String) : (nest base key).toList = extend '.' base.toList key.toList := by
    rw [nest, extend]
    by_cases hempty : base = ""
    · subst hempty
      rfl
    · rw [if_neg (by simpa using hempty), if_neg (by simpa using hempty)]
      simp
  have hfold (base : String) : (path.foldl nest base).toList =
      (path.map String.toList).foldl (extend '.') base.toList := by
    induction path generalizing base with
    | nil => rfl
    | cons key path ih => rw [List.foldl_cons, ih, hnest, List.map_cons, List.foldl_cons]
  exact hfold ""

/-- Paths lead to one field exactly if dots make the same parts of them. -/
theorem fieldName_eq_iff {path other : List String} :
    fieldName path = fieldName other ↔ pathParts path = pathParts other := by
  rw [← String.toList_inj, toList_fieldName, toList_fieldName, joined_eq_joined_iff]
  rfl

/-- No two paths that occur lead to one field. -/
def Separate (documents : List KeyedDocument) : Prop :=
  ∀ path other, Occurs documents path → Occurs documents other →
    pathParts path = pathParts other → path = other

/-- The values that are folded for a field are those of its path. -/
theorem valuesOf_fieldName {documents : List KeyedDocument} (hseparate : Separate documents)
    {path : List String} (hpath : Occurs documents path) :
    valuesOf (fieldName path) (entriesIn "" (sampleVisits documents)) =
      valuesAt documents path := by
  rw [← valuesOf_sampleVisits]
  refine valuesOf_map fieldName fun visit hvisit heq ↦ ?_
  exact hseparate _ _ (mem_sampleVisits.mp (List.mem_map_of_mem hvisit)) hpath
    (fieldName_eq_iff.mp heq)

theorem exists_occurs_of_valuesOf {documents : List KeyedDocument} {name : String}
    (h : valuesOf name (entriesIn "" (sampleVisits documents)) ≠ []) :
    ∃ path, Occurs documents path ∧ fieldName path = name := by
  rw [ne_eq, valuesOf_eq_nil, not_not, entriesIn, List.map_map] at h
  obtain ⟨visit, hvisit, hname⟩ := List.mem_map.mp h
  exact ⟨visit.1, mem_sampleVisits.mp (List.mem_map_of_mem hvisit), hname⟩

/-! ## The entries of a sample -/

variable {texts : DriverTexts} {documents : List KeyedDocument}

/-- The entry of a field is what the values folded for it make. -/
theorem entryOf_of_sampledFields {fields : Fields}
    (h : sampledFields texts documents = some fields) (name : String) :
    entryOf texts (valuesOf name (entriesIn "" (sampleVisits documents))) =
      some (fields.get? name) := by
  rw [sampledFields_eq] at h
  rw [← updateAll_visit]
  exact updateAll_of_foldlM_record h name

/-- The folding does not panic exactly if the first value of no field is cut inside a character. -/
theorem exists_sampledFields : (∃ fields, sampledFields texts documents = some fields) ↔
    ∀ name first,
      (valuesOf name (entriesIn "" (sampleVisits documents))).head? = some first →
        ¬ CutInside first := by
  rw [sampledFields_eq, exists_foldlM_record]
  refine forall_congr' fun name ↦ ?_
  have hempty : (EntryMap.empty : Fields).get? name = none := rfl
  rw [hempty, updateAll_visit, exists_entryOf]

/-- Where no two paths lead to one field, each entry is that of a path. -/
theorem exact_of_separate (hseparate : Separate documents) {fields : Fields}
    (h : sampledFields texts documents = some fields) : Exact documents fields where
  separate path other hpath hother heq :=
    hseparate path other hpath hother (fieldName_eq_iff.mp heq)
  recorded name info hinfo := by
    have hentry := entryOf_of_sampledFields h name
    refine exists_occurs_of_valuesOf fun hnil ↦ ?_
    rw [hnil, hinfo] at hentry
    cases hentry
  counted path hpath := by
    have hentry := entryOf_of_sampledFields h (fieldName path)
    rw [valuesOf_fieldName hseparate hpath] at hentry
    have hcount : (valuesAt documents path).length =
        documents.countP fun document ↦ (valueAt document path).isSome :=
      List.length_filterMap_eq_countP
    cases hvalues : valuesAt documents path with
    | nil => exact absurd hvalues (occurs_iff.mp hpath)
    | cons first values =>
      rw [hvalues, entryOf] at hentry
      obtain ⟨found, -, hinfo⟩ := Option.map_eq_some_iff.mp hentry
      refine ⟨_, hinfo.symm, ?_, ?_, rfl⟩
      · rw [← hcount, hvalues]
      · rw [← hvalues, hcount]
        exact List.countP_le_length

/-- The entries of a sample are those of its paths exactly if dots make different parts of different
paths and the first value of no path is cut inside a character. -/
theorem exact_sampledFields_iff (texts : DriverTexts) (documents : List KeyedDocument) :
    (∃ fields, sampledFields texts documents = some fields ∧ Exact documents fields) ↔
      Separate documents ∧
        ∀ path first, (valuesAt documents path).head? = some first → ¬ CutInside first := by
  constructor
  · rintro ⟨fields, hfields, hexact⟩
    have hseparate : Separate documents := fun path other hpath hother hparts ↦
      hexact.separate path other hpath hother (fieldName_eq_iff.mpr hparts)
    refine ⟨hseparate, fun path first hfirst ↦ ?_⟩
    have hpath : Occurs documents path := occurs_iff.mpr fun hnil ↦ by
      rw [hnil] at hfirst
      cases hfirst
    refine exists_sampledFields.mp ⟨fields, hfields⟩ (fieldName path) first ?_
    rwa [valuesOf_fieldName hseparate hpath]
  · rintro ⟨hseparate, hwhole⟩
    have hfields : ∃ fields, sampledFields texts documents = some fields := by
      refine exists_sampledFields.mpr fun name first hfirst ↦ ?_
      obtain ⟨path, hpath, rfl⟩ := exists_occurs_of_valuesOf fun hnil ↦ by
        rw [hnil] at hfirst
        cases hfirst
      rw [valuesOf_fieldName hseparate hpath] at hfirst
      exact hwhole path first hfirst
    obtain ⟨fields, hfields⟩ := hfields
    exact ⟨fields, hfields, exact_of_separate hseparate hfields⟩

/-- A document with a key that has a dot, and the keys that the dot parts it into. -/
def dotted : KeyedDocument where
  members := [("a.b", .int32 1), ("a", .document [("b", .string "x")])]
  distinct := by simp [Bson.DistinctKeys, Bson.DistinctInMembers]

/-- A document with a string that has a character in the bytes 49 and 50. -/
def accented : KeyedDocument where
  members := [("note", .string (String.ofList (List.replicate 49 'a' ++ ['é', 'é'])))]
  distinct := by simp [Bson.DistinctKeys, Bson.DistinctInMembers]

/-- One document merges two paths, the other one panics. -/
theorem not_exact_dotted_accented :
    (¬ ∃ fields, sampledFields ⟨toString, toString, toString⟩ [dotted] = some fields ∧
        Exact [dotted] fields) ∧
      sampledFields ⟨toString, toString, toString⟩ [accented] = none := by
  constructor
  · rintro ⟨fields, -, hexact⟩
    have hpath : Occurs [dotted] ["a.b"] := ⟨dotted, List.mem_singleton_self dotted, rfl⟩
    have hother : Occurs [dotted] ["a", "b"] := ⟨dotted, List.mem_singleton_self dotted, rfl⟩
    exact absurd (hexact.separate _ _ hpath hother (by decide)) (by decide)
  · rfl

end MongoCore.Mcp.SchemaSampling
