import MongoCore.Data.Serde

/-!
# Values of the Python client

A value that Python passes is encoded by its BSON library.  Where it is sent as JSON instead, it is
written by the `json` module, which refuses what it does not know, and read back by the server as an
extended JSON document.  How the server reads a finite double, and which objects it takes for the
spelling of a value, are parameters.

The main result says which values come through JSON as the ones that BSON encodes, up to the width
of integers.
-/

namespace MongoCore.Clients

open MongoCore.Data

/-- A value that Python passes.  Code is a text of its own class.  Any other value is kept by what
the BSON library makes of it. -/
inductive PyValue where
  | none
  | bool (value : Bool)
  | int (value : Int64)
  | int64 (value : Int64)
  | float (bits : UInt64)
  | str (value : String)
  | list (items : List PyValue)
  | dict (members : List (String × PyValue))
  | code (text : String) (scope : Option Document)
  | other (encoded : Bson)

/-- A dictionary, by its members in order. -/
abbrev Dict := List (String × PyValue)

/-! ## BSON -/

/-- An integer in the narrower type that has it. -/
def encodeInt (value : Int64) : Bson :=
  if -2 ^ 31 ≤ value.toInt ∧ value.toInt < 2 ^ 31 then .int32 value.toInt
  else .int64 value.toInt

mutual

def PyValue.encode : PyValue → Bson
  | .none => .null
  | .bool value => .boolean value
  | .int value => encodeInt value
  | .int64 value => .int64 value.toInt
  | .float bits => .double bits
  | .str value => .string value
  | .list items => .array (encodeItems items)
  | .dict members => .document (encodeMembers members)
  | .code text Option.none => .javaScriptCode text
  | .code text (some scope) => .javaScriptCodeWithScope text scope
  | .other encoded => encoded

def encodeItems : List PyValue → List Bson
  | [] => []
  | item :: items => item.encode :: encodeItems items

/-- The document of a dictionary inside another. -/
def encodeMembers : Dict → Document
  | [] => []
  | (key, member) :: members => (key, member.encode) :: encodeMembers members

end

/-- The document in the order in which a dictionary is written by itself: an `_id` comes first. -/
def idFirst (document : Document) : Document :=
  (document.filter fun member ↦ member.1 = "_id") ++
    document.filter fun member ↦ ¬ member.1 = "_id"

theorem idFirst_perm (document : Document) : (idFirst document).Perm document := by
  have hperm := List.filter_append_perm (fun member : String × Bson ↦ member.1 = "_id") document
  simpa [idFirst] using hperm

theorem idFirst_of_notMem {document : Document} (h : "_id" ∉ document.map Prod.fst) :
    idFirst document = document := by
  have hne (member : String × Bson) (hmember : member ∈ document) : ¬ member.1 = "_id" :=
    fun heq ↦ h (heq ▸ List.mem_map_of_mem hmember)
  have hnone : document.filter (fun member ↦ member.1 = "_id") = [] := by
    simpa using fun key value hmember ↦ hne (key, value) hmember
  have hall : document.filter (fun member ↦ ¬ member.1 = "_id") = document := by
    simpa using fun key value hmember ↦ hne (key, value) hmember
  rw [idFirst, hnone, hall, List.nil_append]

/-- An `_id` is found in either order. -/
theorem lookup_idFirst (document : Document) :
    (idFirst document).lookup "_id" = document.lookup "_id" := by
  have hids : (document.filter fun member ↦ member.1 = "_id").lookup "_id" =
      document.lookup "_id" := by
    induction document with
    | nil => rfl
    | cons member document ih =>
      obtain ⟨key, value⟩ := member
      by_cases hkey : key = "_id"
      · subst hkey
        simp
      · have hne : ("_id" == key) = false := beq_false_of_ne (Ne.symm hkey)
        simpa [hkey, List.lookup_cons, hne] using ih
  have hothers : (document.filter fun member ↦ ¬ member.1 = "_id").lookup "_id" = none := by
    rw [List.lookup_eq_none_iff]
    intro member hmember
    have hkey : ¬ member.1 = "_id" := by simpa using (List.mem_filter.mp hmember).2
    exact bne_iff_ne.mpr (Ne.symm hkey)
  rw [idFirst, List.lookup_append, hids, hothers, Option.or_none]

/-! ## JSON -/

mutual

/-- The JSON text of a value, as the value it stands for, unless `json` refuses it.  A double that is
not finite is written as a word. -/
def PyValue.toJson : PyValue → Option Json
  | .none => some .null
  | .bool value => some (.bool value)
  | .int value | .int64 value => some (jsonInteger value.toInt)
  | .float bits => some (.number (.float bits))
  | .str value | .code value _ => some (.string value)
  | .list items => (toJsonItems items).map .array
  | .dict members => (toJsonMembers members).map .object
  | .other _ => Option.none

def toJsonItems : List PyValue → Option (List Json)
  | [] => some []
  | item :: items => do
      let value ← item.toJson
      let rest ← toJsonItems items
      pure (value :: rest)

def toJsonMembers : Dict → Option (List (String × Json))
  | [] => some []
  | (key, member) :: members => do
      let value ← member.toJson
      let rest ← toJsonMembers members
      pure ((key, value) :: rest)

end

/-- How the server reads JSON: the double that it reads for a finite one, what an object spells if it
spells a value or fails to, and whether it accepts the nesting. -/
structure JsonReader where
  readDouble : UInt64 → UInt64
  spelled : List (String × Json) → Option (Option Bson)
  accepts : Json → Bool
  spelled_ne_document : ∀ members document, spelled members ≠ some (some (.document document))
  spelled_nil : spelled [] = none
  accepts_nil : accepts (.object []) = true

section Reading

variable (reader : JsonReader)

mutual

def fromJson : Json → Option Bson
  | .null => some .null
  | .bool value => some (.boolean value)
  | .number (.posInt value) =>
      if value < 2 ^ 31 then some (.int32 value)
      else if value < 2 ^ 63 then some (.int64 value)
      else none
  | .number (.negInt value) => some (.int64 value)
  | .number (.float bits) =>
      -- the words for other doubles are no JSON
      if isFinite bits then some (.double (reader.readDouble bits)) else none
  | .string value => some (.string value)
  | .array items => (fromJsonItems items).map .array
  | .object members =>
      match reader.spelled members with
      | some value => value
      | none => (fromJsonMembers members).map .document

def fromJsonItems : List Json → Option (List Bson)
  | [] => some []
  | item :: items => do
      let value ← fromJson item
      let rest ← fromJsonItems items
      pure (value :: rest)

def fromJsonMembers : List (String × Json) → Option Document
  | [] => some []
  | (key, member) :: members => do
      let value ← fromJson member
      let rest ← fromJsonMembers members
      pure ((key, value) :: rest)

end

def fromStr (json : Json) : Option Document :=
  if reader.accepts json then
    match fromJson reader json with
    | some (.document document) => some document
    | _ => none
  else none

end Reading

/-! ## Integers of one width -/

mutual

/-- A value with all integers in the wider type. -/
def widened : Bson → Bson
  | .int32 value => .int64 value
  | .array items => .array (widenedItems items)
  | .document members => .document (widenedMembers members)
  | value => value

def widenedItems : List Bson → List Bson
  | [] => []
  | item :: items => widened item :: widenedItems items

def widenedMembers : Document → Document
  | [] => []
  | (key, member) :: members => (key, widened member) :: widenedMembers members

end

@[simp] theorem widened_encodeInt (value : Int64) :
    widened (encodeInt value) = .int64 value.toInt := by
  unfold encodeInt
  split_ifs <;> rfl

/-- Only documents become documents. -/
theorem exists_of_widened_eq_document {value : Bson} {document : Document}
    (h : widened value = .document document) : ∃ members, value = .document members := by
  cases value with
  | document members => exact ⟨members, rfl⟩
  | _ => simp [widened] at h

/-! ## What comes through -/

section Plain

variable (reader : JsonReader)

mutual

/-- A value that is read as it is encoded: no value of another class, no double that is not finite
or is read as another, and no dictionary that spells a value. -/
def Plain : PyValue → Prop
  | .none | .bool _ | .int _ | .int64 _ | .str _ => True
  | .float bits => isFinite bits = true ∧ reader.readDouble bits = bits
  | .list items => PlainItems items
  | .dict members => PlainMembers members ∧
      ∀ json ∈ toJsonMembers members, reader.spelled json = none
  | .code _ _ | .other _ => False

def PlainItems : List PyValue → Prop
  | [] => True
  | item :: items => Plain item ∧ PlainItems items

def PlainMembers : Dict → Prop
  | [] => True
  | (_, member) :: members => Plain member ∧ PlainMembers members

end

theorem fromJson_jsonInteger (value : Int64) :
    (fromJson reader (jsonInteger value.toInt)).map widened = some (.int64 value.toInt) := by
  have hlt := value.toInt_lt
  rw [jsonInteger]
  split_ifs with hnonneg
  · have hcast : (value.toInt.toNat : ℤ) = value.toInt := Int.toNat_of_nonneg hnonneg
    rw [fromJson]
    split_ifs with hnarrow hwide
    · simp only [Option.map_some, widened, hcast]
    · simp only [Option.map_some, widened, hcast]
    · omega
  · rfl

/-- A dictionary that spells a value is not read as a document. -/
theorem map_widened_ne_of_spelled {members : List (String × Json)} {value : Option Bson}
    (hspelled : reader.spelled members = some value) (document : Document) :
    (fromJson reader (.object members)).map widened ≠ some (.document document) := by
  intro h
  rw [fromJson, hspelled, Option.map_eq_some_iff] at h
  obtain ⟨read, rfl, hwidened⟩ := h
  obtain ⟨other, rfl⟩ := exists_of_widened_eq_document hwidened
  exact reader.spelled_ne_document members other hspelled

mutual

/-- A value is read from its JSON as it is encoded, up to the width of integers, if and only if it is
plain. -/
theorem fromJson_toJson_iff : ∀ value : PyValue,
    ((value.toJson.bind (fromJson reader)).map widened = some (widened value.encode)) ↔
      Plain reader value
  | .none => by simp [PyValue.toJson, fromJson, PyValue.encode, Plain]
  | .bool value => by simp [PyValue.toJson, fromJson, PyValue.encode, Plain]
  | .int value => by
      simp only [PyValue.toJson, PyValue.encode, Plain, Option.bind_some, widened_encodeInt,
        fromJson_jsonInteger]
  | .int64 value => by
      simp only [PyValue.toJson, PyValue.encode, Plain, Option.bind_some, fromJson_jsonInteger,
        widened]
  | .float bits => by
      rw [PyValue.toJson, Option.bind_some, fromJson, PyValue.encode, Plain]
      cases isFinite bits <;> simp [widened]
  | .str value => by simp [PyValue.toJson, fromJson, PyValue.encode, Plain]
  | .list items => by
      rw [Plain, ← fromJsonItems_toJsonItems_iff items, PyValue.toJson, PyValue.encode, widened]
      cases toJsonItems items with
      | none => simp
      | some json => cases hread : fromJsonItems reader json <;> simp [fromJson, hread, widened]
  | .dict members => by
      rw [Plain, ← fromJsonMembers_toJsonMembers_iff members, PyValue.toJson, PyValue.encode,
        widened]
      cases toJsonMembers members with
      | none => simp
      | some json =>
        cases hspelled : reader.spelled json with
        | none =>
          cases hread : fromJsonMembers reader json <;>
            simp [fromJson, hspelled, hread, widened]
        | some value =>
          have hne := map_widened_ne_of_spelled reader hspelled
            (widenedMembers (encodeMembers members))
          simpa [hspelled] using hne
  | .code text scope => by
      cases scope <;> simp [PyValue.toJson, fromJson, PyValue.encode, Plain, widened]
  | .other encoded => by simp [PyValue.toJson, Plain]

theorem fromJsonItems_toJsonItems_iff : ∀ items : List PyValue,
    (((toJsonItems items).bind (fromJsonItems reader)).map widenedItems =
        some (widenedItems (encodeItems items))) ↔ PlainItems reader items
  | [] => by simp [toJsonItems, fromJsonItems, encodeItems, PlainItems]
  | item :: items => by
      rw [PlainItems, ← fromJson_toJson_iff item, ← fromJsonItems_toJsonItems_iff items,
        toJsonItems, encodeItems, widenedItems]
      cases item.toJson with
      | none => simp
      | some first =>
        cases toJsonItems items with
        | none => simp
        | some rest =>
          cases hfirst : fromJson reader first <;> cases hrest : fromJsonItems reader rest <;>
            simp [fromJsonItems, hfirst, hrest, widenedItems]

theorem fromJsonMembers_toJsonMembers_iff : ∀ members : Dict,
    (((toJsonMembers members).bind (fromJsonMembers reader)).map widenedMembers =
        some (widenedMembers (encodeMembers members))) ↔ PlainMembers reader members
  | [] => by simp [toJsonMembers, fromJsonMembers, encodeMembers, PlainMembers]
  | (key, member) :: members => by
      rw [PlainMembers, ← fromJson_toJson_iff member, ← fromJsonMembers_toJsonMembers_iff members,
        toJsonMembers, encodeMembers, widenedMembers]
      cases member.toJson with
      | none => simp
      | some first =>
        cases toJsonMembers members with
        | none => simp
        | some rest =>
          cases hfirst : fromJson reader first <;> cases hrest : fromJsonMembers reader rest <;>
            simp [fromJsonMembers, hfirst, hrest, widenedMembers]

end

/-! ## Filters -/

/-- What the server reads of the JSON text of a dictionary, if it is written and read. -/
def readFilter (filter : Dict) : Option Document :=
  (PyValue.dict filter).toJson.bind (fromStr reader)

/-- A dictionary that is read as it is encoded. -/
def ComesThrough (filter : Dict) : Prop :=
  Plain reader (.dict filter) ∧ ∀ json ∈ (PyValue.dict filter).toJson, reader.accepts json = true

/-- A filter is read as it is encoded, up to the width of integers, if and only if it comes
through. -/
theorem readFilter_iff (filter : Dict) : (∃ read, readFilter reader filter = some read ∧
    widenedMembers read = widenedMembers (encodeMembers filter)) ↔ ComesThrough reader filter := by
  rw [ComesThrough, ← fromJson_toJson_iff, readFilter, PyValue.encode, widened]
  cases (PyValue.dict filter).toJson with
  | none => simp
  | some json =>
    simp only [Option.bind_some, Option.mem_def, Option.some.injEq, forall_eq']
    rw [fromStr]
    cases reader.accepts json with
    | false => simp
    | true =>
      rw [if_pos rfl, and_iff_left rfl]
      cases hread : fromJson reader json with
      | none => simp
      | some value =>
        cases value with
        | document members => simp [widened]
        | _ => simp [widened]

end Plain

end MongoCore.Clients
