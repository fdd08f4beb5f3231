import MongoCore.Data.Json

/-!
# BSON values and their conversion from JSON

The value type of the database, with one constructor for every kind of value the BSON crate has.
A document is the list of its members in insertion order.

The conversions between JSON and BSON belong to the serialisation crates.  `JsonCodec` collects
them as parameters, together with the two facts about them that the server relies on.
-/

namespace MongoCore.Data

/-- A BSON value.  Floating-point numbers and decimals are kept by their bits, 32-bit and 64-bit
integers by their value. -/
inductive Bson where
  | double (bits : UInt64)
  | string (value : String)
  | array (items : List Bson)
  | document (members : List (String × Bson))
  | boolean (value : Bool)
  | null
  | regularExpression (pattern options : String)
  | javaScriptCode (code : String)
  | javaScriptCodeWithScope (code : String) (scope : List (String × Bson))
  | int32 (value : ℤ)
  | int64 (value : ℤ)
  | timestamp (time increment : ℕ)
  | binary (subtype : UInt8) (bytes : List UInt8)
  | objectId (bytes : List UInt8)
  | dateTime (millis : ℤ)
  | symbol (value : String)
  | decimal128 (bytes : List UInt8)
  | undefined
  | maxKey
  | minKey
  | dbPointer (namespace_ : String) (id : List UInt8)
  deriving Repr

abbrev Document := List (String × Bson)

/-- The conversions between JSON and BSON, with what the server relies on: only an object becomes
a document, and only the empty object becomes the empty document. -/
structure JsonCodec where
  /-- The compact JSON text of a value. -/
  toText : Json → String
  /-- JSON to BSON, where the value can be represented. -/
  toBson : Json → Option Bson
  /-- BSON to JSON, null where that fails. -/
  ofBson : Bson → Json
  /-- A document to JSON, null where that fails. -/
  ofDocument : Document → Json
  isObject_of_toBson : ∀ value document, toBson value = some (.document document) →
    value.isObject = true
  eq_empty_of_toBson : ∀ value, toBson value = some (.document []) → value = .object []

/-! ## Plain conversion -/

namespace Json

mutual

/-- The BSON value of a JSON value, none for an integer beyond 64 signed bits.  Objects that spell
an extended value are not interpreted. -/
def toPlainBson : Json → Option Bson
  | .null => some .null
  | .bool value => some (.boolean value)
  | .number (.posInt value) => if value < 2 ^ 63 then some (.int64 value) else none
  | .number (.negInt value) => some (.int64 value)
  | .number (.float bits) => some (.double bits)
  | .string value => some (.string value)
  | .array items => (toPlainItems items).map .array
  | .object members => (toPlainMembers members).map .document

def toPlainItems : List Json → Option (List Bson)
  | [] => some []
  | item :: items => do
      let value ← toPlainBson item
      let rest ← toPlainItems items
      pure (value :: rest)

def toPlainMembers : List (String × Json) → Option Document
  | [] => some []
  | (key, member) :: members => do
      let value ← toPlainBson member
      let rest ← toPlainMembers members
      pure ((key, value) :: rest)

end

theorem exists_object_of_toPlainBson {value : Json} {document : Document}
    (h : value.toPlainBson = some (.document document)) :
    ∃ members, value = .object members ∧ toPlainMembers members = some document := by
  cases value with
  | object members =>
    rw [toPlainBson, Option.map_eq_some_iff] at h
    obtain ⟨other, hother, heq⟩ := h
    obtain rfl := Bson.document.inj heq
    exact ⟨members, rfl, hother⟩
  | number value =>
    cases value <;> simp [toPlainBson] at h
  | _ => simp [toPlainBson] at h

theorem eq_nil_of_toPlainMembers {members : List (String × Json)}
    (h : toPlainMembers members = some []) : members = [] := by
  cases members with
  | nil => rfl
  | cons entry members =>
    obtain ⟨key, member⟩ := entry
    simp [toPlainMembers, Option.bind_eq_some_iff] at h

end Json

/-- The codec that converts plain values; everything it prints is empty. -/
def JsonCodec.plain : JsonCodec where
  toText _ := ""
  toBson := Json.toPlainBson
  ofBson _ := .null
  ofDocument _ := .null
  isObject_of_toBson value document h := by
    obtain ⟨members, rfl, -⟩ := Json.exists_object_of_toPlainBson h
    rfl
  eq_empty_of_toBson value h := by
    obtain ⟨members, rfl, hmembers⟩ := Json.exists_object_of_toPlainBson h
    rw [Json.eq_nil_of_toPlainMembers hmembers]

end MongoCore.Data
