import Mathlib.Data.List.Nodup
import MongoCore.Data.Bson

/-!
# Types of BSON values

Every BSON value has an element type, and a document has each key only once, at every depth.
-/

namespace MongoCore.Data

inductive ElementType where
  | double
  | string
  | array
  | document
  | boolean
  | null
  | regularExpression
  | javaScriptCode
  | javaScriptCodeWithScope
  | int32
  | int64
  | timestamp
  | binary
  | objectId
  | dateTime
  | symbol
  | decimal128
  | undefined
  | maxKey
  | minKey
  | dbPointer
  deriving DecidableEq

def ElementType.all : List ElementType :=
  [.double, .string, .array, .document, .boolean, .null, .regularExpression, .javaScriptCode,
    .javaScriptCodeWithScope, .int32, .int64, .timestamp, .binary, .objectId, .dateTime, .symbol,
    .decimal128, .undefined, .maxKey, .minKey, .dbPointer]

theorem ElementType.mem_all (type : ElementType) : type ∈ ElementType.all := by
  cases type <;> simp [ElementType.all]

namespace Bson

def elementType : Bson → ElementType
  | .double _ => .double
  | .string _ => .string
  | .array _ => .array
  | .document _ => .document
  | .boolean _ => .boolean
  | .null => .null
  | .regularExpression _ _ => .regularExpression
  | .javaScriptCode _ => .javaScriptCode
  | .javaScriptCodeWithScope _ _ => .javaScriptCodeWithScope
  | .int32 _ => .int32
  | .int64 _ => .int64
  | .timestamp _ _ => .timestamp
  | .binary _ _ => .binary
  | .objectId _ => .objectId
  | .dateTime _ => .dateTime
  | .symbol _ => .symbol
  | .decimal128 _ => .decimal128
  | .undefined => .undefined
  | .maxKey => .maxKey
  | .minKey => .minKey
  | .dbPointer _ _ => .dbPointer

/-- A value that is neither a document nor an array. -/
def IsScalar (value : Bson) : Prop :=
  value.elementType ≠ .document ∧ value.elementType ≠ .array

/-- A value is a document of smaller values, an array of smaller values or a scalar. -/
theorem cases_scalar (value : Bson) :
    (∃ members, value = .document members) ∨ (∃ items, value = .array items) ∨ value.IsScalar := by
  cases value <;> simp [IsScalar, elementType]

section Induction

set_option linter.unusedSectionVars false

variable {motive : Bson → Prop}
  (document : ∀ members, (∀ member ∈ members, motive member.2) → motive (.document members))
  (array : ∀ items, (∀ item ∈ items, motive item) → motive (.array items))
  (scalar : ∀ value : Bson, value.IsScalar → motive value)

include document array scalar

mutual

/-- What holds of documents and arrays if it holds of what they contain, and of scalars, holds of
every value. -/
@[elab_as_elim]
theorem inductionOn : ∀ value : Bson, motive value
  | .document members => document members (inductionOnMembers members)
  | .array items => array items (inductionOnItems items)
  | .double _ => scalar _ (by simp [IsScalar, elementType])
  | .string _ => scalar _ (by simp [IsScalar, elementType])
  | .boolean _ => scalar _ (by simp [IsScalar, elementType])
  | .null => scalar _ (by simp [IsScalar, elementType])
  | .regularExpression _ _ => scalar _ (by simp [IsScalar, elementType])
  | .javaScriptCode _ => scalar _ (by simp [IsScalar, elementType])
  | .javaScriptCodeWithScope _ _ => scalar _ (by simp [IsScalar, elementType])
  | .int32 _ => scalar _ (by simp [IsScalar, elementType])
  | .int64 _ => scalar _ (by simp [IsScalar, elementType])
  | .timestamp _ _ => scalar _ (by simp [IsScalar, elementType])
  | .binary _ _ => scalar _ (by simp [IsScalar, elementType])
  | .objectId _ => scalar _ (by simp [IsScalar, elementType])
  | .dateTime _ => scalar _ (by simp [IsScalar, elementType])
  | .symbol _ => scalar _ (by simp [IsScalar, elementType])
  | .decimal128 _ => scalar _ (by simp [IsScalar, elementType])
  | .undefined => scalar _ (by simp [IsScalar, elementType])
  | .maxKey => scalar _ (by simp [IsScalar, elementType])
  | .minKey => scalar _ (by simp [IsScalar, elementType])
  | .dbPointer _ _ => scalar _ (by simp [IsScalar, elementType])

theorem inductionOnMembers : ∀ members : List (String × Bson), ∀ member ∈ members, motive member.2
  | [], _, hmember => absurd hmember List.not_mem_nil
  | (_, value) :: members, member, hmember => by
    rcases List.mem_cons.mp hmember with heq | hmember
    · rw [heq]
      exact inductionOn value
    · exact inductionOnMembers members member hmember

theorem inductionOnItems : ∀ items : List Bson, ∀ item ∈ items, motive item
  | [], _, hitem => absurd hitem List.not_mem_nil
  | first :: items, item, hitem => by
    rcases List.mem_cons.mp hitem with heq | hitem
    · rw [heq]
      exact inductionOn first
    · exact inductionOnItems items item hitem

end

end Induction

/-! ## Distinct keys -/

mutual

/-- Every document in the value has each key only once. -/
def DistinctKeys : Bson → Prop
  | .document members => (members.map Prod.fst).Nodup ∧ DistinctInMembers members
  | .array items => DistinctInItems items
  | .javaScriptCodeWithScope _ scope => (scope.map Prod.fst).Nodup ∧ DistinctInMembers scope
  | _ => True

def DistinctInMembers : List (String × Bson) → Prop
  | [] => True
  | (_, value) :: members => value.DistinctKeys ∧ DistinctInMembers members

def DistinctInItems : List Bson → Prop
  | [] => True
  | item :: items => item.DistinctKeys ∧ DistinctInItems items

end

theorem distinctInMembers_iff {members : List (String × Bson)} :
    DistinctInMembers members ↔ ∀ member ∈ members, member.2.DistinctKeys := by
  induction members with
  | nil => simp [DistinctInMembers]
  | cons member members ih => simp [DistinctInMembers, ih]

theorem distinctInItems_iff {items : List Bson} :
    DistinctInItems items ↔ ∀ item ∈ items, item.DistinctKeys := by
  induction items with
  | nil => simp [DistinctInItems]
  | cons item items ih => simp [DistinctInItems, ih]

@[simp] theorem distinctKeys_document {members : List (String × Bson)} :
    (document members).DistinctKeys ↔
      (members.map Prod.fst).Nodup ∧ ∀ member ∈ members, member.2.DistinctKeys := by
  rw [DistinctKeys, distinctInMembers_iff]

@[simp] theorem distinctKeys_array {items : List Bson} :
    (array items).DistinctKeys ↔ ∀ item ∈ items, item.DistinctKeys := by
  rw [DistinctKeys, distinctInItems_iff]

end Bson

/-- A document as the driver builds it: no document in it has a key twice. -/
structure KeyedDocument where
  members : Document
  distinct : (Bson.document members).DistinctKeys

end MongoCore.Data
