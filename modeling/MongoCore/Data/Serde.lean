import MongoCore.Data.Bson
import Std.Data.String.ToInt

/-!
# BSON through JSON and back

How the serialisation crates take BSON to JSON and JSON to BSON.  Integers of both widths become
untyped JSON numbers, a double that is not finite becomes null, and every other scalar is spelled as
an object that is recognised on the way back.  On the way back every JSON integer becomes a 64-bit
integer, and a document that happens to spell a value becomes that value.

How scalars are spelled and recognised, and how finite doubles are written, are parameters.  The
main result says exactly which values come back as they were.
-/

namespace MongoCore.Data

/-! ## From JSON -/

section

variable (recognise : Document → Option Bson)

mutual

/-- The BSON value of a JSON value, none for an integer beyond 64 signed bits.  An object that spells
a value is that value. -/
def toBson : Json → Option Bson
  | .null => some .null
  | .bool value => some (.boolean value)
  | .number (.posInt value) => if value < 2 ^ 63 then some (.int64 value) else none
  | .number (.negInt value) => some (.int64 value)
  | .number (.float bits) => some (.double bits)
  | .string value => some (.string value)
  | .array items => (toBsonItems items).map .array
  | .object members =>
      (toBsonMembers members).map fun document ↦ (recognise document).getD (.document document)

def toBsonItems : List Json → Option (List Bson)
  | [] => some []
  | item :: items => do
      let value ← toBson item
      let rest ← toBsonItems items
      pure (value :: rest)

def toBsonMembers : List (String × Json) → Option Document
  | [] => some []
  | (key, member) :: members => do
      let value ← toBson member
      let rest ← toBsonMembers members
      pure ((key, value) :: rest)

end

end

def Bson.isSpelled : Bson → Bool
  | .regularExpression _ _ | .javaScriptCode _ | .timestamp _ _ | .binary _ _ | .objectId _
  | .dateTime _ | .symbol _ | .decimal128 _ | .undefined | .maxKey | .minKey
  | .dbPointer _ _ => true
  | _ => false

/-- The serialisation crates: how values are printed, spelled and recognised. -/
structure Serde where
  /-- The compact JSON text of a value. -/
  toText : Json → String
  /-- The JSON number of a finite double. -/
  renderDouble : UInt64 → Number
  /-- The object that spells a scalar. -/
  spell : Bson → List (String × Json)
  /-- The value that a document spells. -/
  recognise : Document → Option Bson
  recognise_ne_document : ∀ document members, recognise document ≠ some (.document members)
  toBson_spell : ∀ value, value.isSpelled = true →
    toBson recognise (.object (spell value)) = some value
  recognise_code : ∀ code value scope,
    recognise [("$code", .string code), ("$scope", value)] =
      some (.javaScriptCodeWithScope code scope) ↔ value = .document scope

/-! ## To JSON -/

/-- A double that is neither infinite nor no number. -/
def isFinite (bits : UInt64) : Bool := decide (bits.toNat / 2 ^ 52 % 2 ^ 11 ≠ 2047)

def jsonInteger (value : ℤ) : Json :=
  .number (if 0 ≤ value then .posInt value.toNat else .negInt value)

namespace Serde

variable (serde : Serde)

mutual

def ofBson : Bson → Json
  | .double bits => if isFinite bits then .number (serde.renderDouble bits) else .null
  | .string value => .string value
  | .array items => .array (ofBsonItems items)
  | .document members => .object (ofBsonMembers members)
  | .boolean value => .bool value
  | .null => .null
  | .int32 value => jsonInteger value
  | .int64 value => jsonInteger value
  | .javaScriptCodeWithScope code scope =>
      .object [("$code", .string code), ("$scope", .object (ofBsonMembers scope))]
  | value => .object (serde.spell value)

def ofBsonItems : List Bson → List Json
  | [] => []
  | item :: items => ofBson item :: ofBsonItems items

def ofBsonMembers : Document → List (String × Json)
  | [] => []
  | (key, member) :: members => (key, ofBson member) :: ofBsonMembers members

end

/-! ## Values that come back -/

mutual

/-- A value that comes back: no 32-bit integer, no double that is not finite or not written as a
floating-point number, and no document that spells a value. -/
def Stable : Bson → Prop
  | .double bits => isFinite bits = true ∧ serde.renderDouble bits = .float bits
  | .int32 _ => False
  | .int64 value => value < 2 ^ 63
  | .array items => StableItems items
  | .document members => StableMembers members ∧ serde.recognise members = none
  | .javaScriptCodeWithScope _ scope => StableMembers scope ∧ serde.recognise scope = none
  | _ => True

/-- Array items that come back. -/
def StableItems : List Bson → Prop
  | [] => True
  | item :: items => Stable item ∧ StableItems items

def StableMembers : Document → Prop
  | [] => True
  | (_, member) :: members => Stable member ∧ StableMembers members

end

/-- A converted object is a given document if its members are the document's, and spell nothing. -/
theorem toBson_object_iff (members : List (String × Json)) (document : Document) :
    toBson serde.recognise (.object members) = some (.document document) ↔
      toBsonMembers serde.recognise members = some document ∧
        serde.recognise document = none := by
  rw [toBson, Option.map_eq_some_iff]
  constructor
  · rintro ⟨converted, hconverted, heq⟩
    cases hrecognise : serde.recognise converted with
    | none =>
      rw [hrecognise, Option.getD_none] at heq
      obtain rfl := Bson.document.inj heq
      exact ⟨hconverted, hrecognise⟩
    | some value =>
      rw [hrecognise, Option.getD_some] at heq
      exact absurd (heq ▸ hrecognise) (serde.recognise_ne_document converted document)
  · intro ⟨hconverted, hrecognise⟩
    exact ⟨document, hconverted, by rw [hrecognise]; rfl⟩

theorem toBson_jsonInteger (value : ℤ) (result : Bson) :
    toBson serde.recognise (jsonInteger value) = some result ↔
      value < 2 ^ 63 ∧ result = .int64 value := by
  rw [jsonInteger]
  split
  · rename_i hnonneg
    have hcast : (value.toNat : ℤ) = value := Int.toNat_of_nonneg hnonneg
    have hlt : value.toNat < 2 ^ 63 ↔ value < 2 ^ 63 := by omega
    rw [toBson, Option.ite_none_right_eq_some, hlt, hcast, Option.some.injEq, eq_comm]
  · rename_i hneg
    have hlt : value < 2 ^ 63 := by omega
    rw [toBson, Option.some.injEq, eq_comm, and_iff_right hlt]

theorem toBson_codeWithScope_iff (code : String) (scope : Document) (json : Json) :
    toBson serde.recognise (.object [("$code", .string code), ("$scope", json)]) =
        some (.javaScriptCodeWithScope code scope) ↔
      toBson serde.recognise json = some (.document scope) := by
  have hmembers : toBsonMembers serde.recognise [("$code", .string code), ("$scope", json)] =
      (toBson serde.recognise json).map fun value ↦
        [("$code", .string code), ("$scope", value)] := by
    cases hjson : toBson serde.recognise json <;> simp [toBsonMembers, toBson, hjson]
  rw [toBson, hmembers, Option.map_map, Option.map_eq_some_iff]
  have hvalue (value : Bson) :
      (serde.recognise [("$code", .string code), ("$scope", value)]).getD
          (.document [("$code", .string code), ("$scope", value)]) =
        .javaScriptCodeWithScope code scope ↔ value = .document scope := by
    rw [← serde.recognise_code code value scope]
    cases serde.recognise [("$code", .string code), ("$scope", value)] <;> simp
  simp [hvalue]

theorem toBson_ofBson_iff_of_spelled {value : Bson} (h : value.isSpelled = true) :
    toBson serde.recognise (serde.ofBson value) = some value ↔ serde.Stable value := by
  have hspell : serde.ofBson value = .object (serde.spell value) := by
    cases value <;> first | rfl | cases h
  have hstable : serde.Stable value := by
    cases value <;> trivial
  rw [hspell]
  exact iff_of_true (serde.toBson_spell value h) hstable

mutual

/-- A value comes back from JSON as it was if and only if it is stable. -/
theorem toBson_ofBson_iff : ∀ value : Bson,
    toBson serde.recognise (serde.ofBson value) = some value ↔ serde.Stable value
  | .double bits => by
      rw [ofBson, Stable]
      cases hfinite : isFinite bits with
      | false => simp [toBson]
      | true =>
        rw [if_pos rfl]
        cases hrender : serde.renderDouble bits with
        | posInt value =>
          rw [toBson]
          split <;> simp
        | negInt value => simp [toBson]
        | float other => simp [toBson]
  | .int32 value => by
      rw [ofBson, toBson_jsonInteger, Stable]
      simp
  | .int64 value => by
      rw [ofBson, toBson_jsonInteger, Stable]
      simp
  | .array items => by
      rw [ofBson, toBson, Stable, ← toBsonItems_ofBsonItems_iff items]
      simp
  | .document members => by
      rw [ofBson, toBson_object_iff, Stable, ← toBsonMembers_ofBsonMembers_iff members]
  | .javaScriptCodeWithScope code scope => by
      rw [Stable, ← toBsonMembers_ofBsonMembers_iff scope, ← toBson_object_iff,
        ← toBson_codeWithScope_iff, ofBson]
  | .string _ | .boolean _ | .null => by simp [ofBson, toBson, Stable]
  | .regularExpression _ _ | .javaScriptCode _ | .timestamp _ _ | .binary _ _ | .objectId _
  | .dateTime _ | .symbol _ | .decimal128 _ | .undefined | .maxKey | .minKey
  | .dbPointer _ _ => serde.toBson_ofBson_iff_of_spelled rfl

theorem toBsonItems_ofBsonItems_iff : ∀ items : List Bson,
    toBsonItems serde.recognise (serde.ofBsonItems items) = some items ↔ serde.StableItems items
  | [] => by simp [ofBsonItems, toBsonItems, StableItems]
  | item :: items => by
      rw [StableItems, ← toBson_ofBson_iff item, ← toBsonItems_ofBsonItems_iff items]
      simp [ofBsonItems, toBsonItems, Option.bind_eq_some_iff]

theorem toBsonMembers_ofBsonMembers_iff : ∀ members : Document,
    toBsonMembers serde.recognise (serde.ofBsonMembers members) = some members ↔
      serde.StableMembers members
  | [] => by simp [ofBsonMembers, toBsonMembers, StableMembers]
  | (key, member) :: members => by
      rw [StableMembers, ← toBson_ofBson_iff member, ← toBsonMembers_ofBsonMembers_iff members]
      simp [ofBsonMembers, toBsonMembers, Option.bind_eq_some_iff]

end

/-! ## The conversions of the server -/

theorem isObject_of_toBson {value : Json} {document : Document}
    (h : toBson serde.recognise value = some (.document document)) : value.isObject = true := by
  cases value with
  | object members => rfl
  | number value => cases value <;> simp [toBson] at h
  | _ => simp [toBson] at h

/-- The conversions that the server uses. -/
def codec : JsonCodec where
  toText := serde.toText
  toBson := toBson serde.recognise
  ofBson := serde.ofBson
  ofDocument document := serde.ofBson (.document document)
  isObject_of_toBson _ _ h := serde.isObject_of_toBson h
  eq_empty_of_toBson value h := by
    have hobject := serde.isObject_of_toBson h
    cases value with
    | object members =>
      obtain ⟨hmembers, -⟩ := (serde.toBson_object_iff members []).mp h
      cases members with
      | nil => rfl
      | cons entry members =>
        obtain ⟨key, member⟩ := entry
        simp [toBsonMembers, Option.bind_eq_some_iff] at hmembers
    | _ => cases hobject

/-! ## Scalars as tagged texts -/

def byteTexts (bytes : List UInt8) : List String := bytes.map fun byte ↦ byte.toNat.repr

def bytes? (texts : List String) : Option (List UInt8) :=
  (texts.mapM String.toNat?).map fun values ↦ values.map UInt8.ofNat

/-- The tag of a scalar, and the texts that describe it. -/
def tagged : Bson → String × List String
  | .regularExpression pattern options => ("$regularExpression", [pattern, options])
  | .javaScriptCode code => ("$code", [code])
  | .timestamp time increment => ("$timestamp", [time.repr, increment.repr])
  | .binary subtype bytes => ("$binary", byteTexts (subtype :: bytes))
  | .objectId bytes => ("$oid", byteTexts bytes)
  | .dateTime millis => ("$date", [millis.repr])
  | .symbol value => ("$symbol", [value])
  | .decimal128 bytes => ("$numberDecimalBytes", byteTexts bytes)
  | .undefined => ("$undefined", [])
  | .maxKey => ("$maxKey", [])
  | .minKey => ("$minKey", [])
  | .dbPointer namespace_ id => ("$dbPointer", namespace_ :: byteTexts id)
  | _ => ("", [])

/-- The scalar with a tag and texts. -/
def untagged? : String → List String → Option Bson
  | "$regularExpression", [pattern, options] => some (.regularExpression pattern options)
  | "$code", [code] => some (.javaScriptCode code)
  | "$timestamp", [time, increment] => do
      pure (.timestamp (← time.toNat?) (← increment.toNat?))
  | "$binary", texts =>
      match bytes? texts with
      | some (subtype :: bytes) => some (.binary subtype bytes)
      | _ => none
  | "$oid", texts => (bytes? texts).map .objectId
  | "$date", [millis] => millis.toInt?.map .dateTime
  | "$symbol", [value] => some (.symbol value)
  | "$numberDecimalBytes", texts => (bytes? texts).map .decimal128
  | "$undefined", [] => some .undefined
  | "$maxKey", [] => some .maxKey
  | "$minKey", [] => some .minKey
  | "$dbPointer", namespace_ :: texts => (bytes? texts).map (.dbPointer namespace_)
  | _, _ => none

def text? : Bson → Option String
  | .string value => some value
  | _ => none

/-- The value that a document spells: code with a scope, or a tagged scalar. -/
def recogniseTagged : Document → Option Bson
  | [("$code", .string code), ("$scope", .document scope)] =>
      some (.javaScriptCodeWithScope code scope)
  | [(tag, .array items)] => (items.mapM text?).bind (untagged? tag)
  | _ => none

theorem bytes?_byteTexts (bytes : List UInt8) : bytes? (byteTexts bytes) = some bytes := by
  have htexts : (byteTexts bytes).mapM String.toNat? =
      some (bytes.map fun byte ↦ byte.toNat) := by
    induction bytes with
    | nil => rfl
    | cons byte bytes ih =>
      rw [byteTexts, List.map_cons, List.mapM_cons, Nat.toNat?_repr]
      rw [byteTexts] at ih
      simp [ih]
  rw [bytes?, htexts, Option.map_some, List.map_map]
  have hbyte : (UInt8.ofNat ∘ fun byte : UInt8 ↦ byte.toNat) = id := by
    funext byte
    exact UInt8.ofNat_toNat
  rw [hbyte, List.map_id]

theorem untagged?_tagged {value : Bson} (h : value.isSpelled = true) :
    untagged? (tagged value).1 (tagged value).2 = some value := by
  cases value <;> simp [Bson.isSpelled] at h <;>
    simp [tagged, untagged?, bytes?_byteTexts, Nat.toNat?_repr, Int.toInt?_repr]

theorem mapM_text? (texts : List String) : (texts.map Bson.string).mapM text? = some texts := by
  induction texts with
  | nil => rfl
  | cons text texts ih => simp [List.mapM_cons, text?, ih]

theorem toBsonItems_strings (recognise : Document → Option Bson) (texts : List String) :
    toBsonItems recognise (texts.map Json.string) = some (texts.map Bson.string) := by
  induction texts with
  | nil => rfl
  | cons text texts ih => simp [toBsonItems, toBson, ih]

theorem untagged?_ne_document (tag : String) (texts : List String) (members : Document) :
    untagged? tag texts ≠ some (.document members) := by
  unfold untagged?
  split <;> simp [Option.bind_eq_some_iff]
  split <;> simp

/-- A codec that writes every finite double as a floating-point number, and spells a scalar as a
list of texts under a tag. -/
def ofTags : Serde where
  toText _ := ""
  renderDouble := .float
  spell value := [((tagged value).1, .array ((tagged value).2.map .string))]
  recognise := recogniseTagged
  recognise_ne_document document members := by
    unfold recogniseTagged
    split
    · simp
    · rw [Ne, Option.bind_eq_some_iff]
      rintro ⟨texts, -, h⟩
      exact untagged?_ne_document _ _ _ h
    · simp
  toBson_spell value h := by
    have hmembers : toBsonMembers recogniseTagged
        [((tagged value).1, .array ((tagged value).2.map .string))] =
          some [((tagged value).1, .array ((tagged value).2.map .string))] := by
      simp [toBsonMembers, toBson, toBsonItems_strings]
    have hrecognise : recogniseTagged
        [((tagged value).1, .array ((tagged value).2.map .string))] = some value := by
      rw [recogniseTagged, mapM_text?, Option.bind_some, untagged?_tagged h]
    rw [toBson, hmembers, Option.map_some, hrecognise]
    rfl
  recognise_code code value scope := by
    cases value <;> simp [recogniseTagged]

end Serde

end MongoCore.Data
