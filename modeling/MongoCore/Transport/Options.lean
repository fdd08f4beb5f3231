import MongoCore.Transport.DeclaredLength

/-!
# Recognised fields

The fields that the parser of envelopes recognises, with the getter that reads each, and what a
parsed request carries of them.  Every getter reads one exact BSON type.  An optional field of
another type is dropped, or replaced by a default, and the request is still accepted.

The module says exactly which envelopes lose nothing.
-/

namespace MongoCore.Transport

open MongoCore.Data

/-! ## Values -/

def integralDouble? (bits : UInt64) : Option ℤ :=
  let fraction := bits.toNat % 2 ^ 52
  let exponent := bits.toNat / 2 ^ 52 % 2 ^ 11
  let sign : ℤ := if bits.toNat / 2 ^ 63 = 1 then -1 else 1
  let significand := if exponent = 0 then fraction else 2 ^ 52 + fraction
  -- the double is `sign * significand * 2 ^ (scale - 1075)`
  let scale := max exponent 1
  if exponent = 2047 then none
  else if 1075 ≤ scale then some (sign * (significand * 2 ^ (scale - 1075) : ℕ))
  else if significand % 2 ^ (1075 - scale) = 0 then
    some (sign * (significand / 2 ^ (1075 - scale) : ℕ))
  else none

example : integralDouble? 0x4024000000000000 = some 10 ∧
    integralDouble? 0xC024000000000000 = some (-10) ∧
    integralDouble? 0x4024800000000000 = none ∧ integralDouble? 0x7FF0000000000000 = none := by
  decide

/-- The integer that a number stands for, whatever its BSON type. -/
def integer? : Bson → Option ℤ
  | .int32 value | .int64 value => some value
  | .double bits => integralDouble? bits
  | _ => none

def asDocument? : Bson → Option Document
  | .document members => some members
  | _ => none

inductive Carried where
  | text (value : String)
  | document (value : Document)
  | documents (values : List Document)
  | flag (value : Bool)
  | integer (value : ℤ)

/-- How the parser reads a field. -/
inductive Getter where
  | str
  | doc
  | docOrEmpty
  | docs
  | bool
  | boolOrTrue
  | u32
  | u32OrZero
  | i64
  | u64

def boundedInteger (bound : ℤ) (value : Bson) : Option Carried :=
  (integer? value).bind fun n ↦ if 0 ≤ n ∧ n < bound then some (.integer n) else none

/-- What a value says in a field, none if it is ill-typed, negative or too large. -/
def Getter.means : Getter → Bson → Option Carried
  | .str, .string value => some (.text value)
  | .doc, .document members | .docOrEmpty, .document members => some (.document members)
  | .docs, .array items => (items.mapM asDocument?).map .documents
  | .bool, .boolean value | .boolOrTrue, .boolean value => some (.flag value)
  | .u32, value | .u32OrZero, value => boundedInteger (2 ^ 32) value
  | .i64, value => boundedInteger (2 ^ 63) value
  | .u64, value => boundedInteger (2 ^ 64) value
  | _, _ => none

/-- What the getter makes of a field of a document, with its default. -/
def Getter.read (document : Document) (key : String) : Getter → Option Carried
  | .str => (getStr? document key).map .text
  | .doc => (getDocument? document key).map .document
  | .docOrEmpty => some (.document ((getDocument? document key).getD []))
  | .docs => (getArray? document key).map fun items ↦ .documents (items.filterMap asDocument?)
  | .bool => (getBool? document key).map .flag
  | .boolOrTrue => some (.flag ((getBool? document key).getD true))
  | .u32 => ((getI32? document key).map asU32).map fun n ↦ .integer n.toNat
  | .u32OrZero => some (.integer (asU32 ((getI32? document key).getD 0)).toNat)
  | .i64 => (getI64? document key).map .integer
  | .u64 => ((getI64? document key).map (toUnsigned 64)).map fun n : ℕ ↦ .integer n

/-! ## Fields -/

def recognisedFields : Opcode → List (String × Getter)
  | .handshake => [("client_language", .str)]
  | .findOne => [("db", .str), ("coll", .str), ("filter", .doc), ("projection", .doc)]
  | .find =>
      [("db", .str), ("coll", .str), ("filter", .doc), ("doc_bytes_len", .u32OrZero),
        ("batch_size", .u32), ("limit", .i64), ("skip", .u64), ("sort", .doc),
        ("projection", .doc)]
  | .insertOne => [("db", .str), ("coll", .str), ("doc_bytes_len", .u32OrZero)]
  | .insertMany | .bulkWrite =>
      [("db", .str), ("coll", .str), ("ordered", .boolOrTrue), ("doc_bytes_len", .u32OrZero)]
  | .updateOne | .updateMany | .findOneAndUpdate =>
      [("db", .str), ("coll", .str), ("filter", .doc), ("update", .doc)]
  | .deleteOne | .deleteMany | .findOneAndDelete =>
      [("db", .str), ("coll", .str), ("filter", .doc)]
  | .aggregate => [("db", .str), ("coll", .str), ("pipeline", .docs), ("batch_size", .u32)]
  | .countDocuments => [("db", .str), ("coll", .str), ("filter", .docOrEmpty)]
  | .distinct => [("db", .str), ("coll", .str), ("field", .str), ("filter", .doc)]
  | .createIndex =>
      [("db", .str), ("coll", .str), ("keys", .doc), ("name", .str), ("unique", .bool)]
  | .listCollections => [("db", .str)]
  | .runCommand => [("db", .str), ("command", .doc)]
  | .createCollection | .dropCollection => [("db", .str), ("name", .str)]
  | .error => []

def OperationRequest.fields : OperationRequest → List (String × Option Carried)
  | .handshake clientLanguage => [("client_language", some (.text clientLanguage))]
  | .findOne db collection filter projection =>
      [("db", some (.text db)), ("coll", some (.text collection)),
        ("filter", some (.document filter)), ("projection", projection.map .document)]
  | .find db collection filter options batchSize docBytesLen =>
      [("db", some (.text db)), ("coll", some (.text collection)),
        ("filter", some (.document filter)),
        ("doc_bytes_len", some (.integer docBytesLen.toNat)),
        ("batch_size", batchSize.map fun n ↦ .integer n.toNat),
        ("limit", (options.bind (·.limit)).map .integer),
        ("skip", (options.bind (·.skip)).map fun n : ℕ ↦ .integer n),
        ("sort", (options.bind (·.sort)).map .document),
        ("projection", (options.bind (·.projection)).map .document)]
  | .insertOne db collection docBytesLen =>
      [("db", some (.text db)), ("coll", some (.text collection)),
        ("doc_bytes_len", some (.integer docBytesLen.toNat))]
  | .insertMany db collection ordered docBytesLen | .bulkWrite db collection docBytesLen ordered =>
      [("db", some (.text db)), ("coll", some (.text collection)),
        ("ordered", some (.flag ordered)), ("doc_bytes_len", some (.integer docBytesLen.toNat))]
  | .updateOne db collection filter update | .updateMany db collection filter update
  | .findOneAndUpdate db collection filter update =>
      [("db", some (.text db)), ("coll", some (.text collection)),
        ("filter", some (.document filter)), ("update", some (.document update))]
  | .deleteOne db collection filter | .deleteMany db collection filter
  | .findOneAndDelete db collection filter =>
      [("db", some (.text db)), ("coll", some (.text collection)),
        ("filter", some (.document filter))]
  | .aggregate db collection pipeline batchSize =>
      [("db", some (.text db)), ("coll", some (.text collection)),
        ("pipeline", some (.documents pipeline)),
        ("batch_size", batchSize.map fun n ↦ .integer n.toNat)]
  | .countDocuments db collection filter =>
      [("db", some (.text db)), ("coll", some (.text collection)),
        ("filter", some (.document filter))]
  | .distinct db collection field filter =>
      [("db", some (.text db)), ("coll", some (.text collection)), ("field", some (.text field)),
        ("filter", filter.map .document)]
  | .createIndex db collection keys name unique =>
      [("db", some (.text db)), ("coll", some (.text collection)), ("keys", some (.document keys)),
        ("name", name.map .text), ("unique", unique.map .flag)]
  | .listCollections db => [("db", some (.text db))]
  | .runCommand db command => [("db", some (.text db)), ("command", some (.document command))]
  | .createCollection db name | .dropCollection db name =>
      [("db", some (.text db)), ("name", some (.text name))]

def OperationRequest.carried (request : OperationRequest) (key : String) : Option Carried :=
  (request.fields.lookup key).join

/-! ## A parsed request carries what the getters read -/

theorem ok_str {document : Document} {key : String}
    {next : String → Except CodecError OperationRequest} {request : OperationRequest}
    (h : (getRequiredStr document key >>= next) = .ok request) :
    ∃ value, getStr? document key = some value ∧ next value = .ok request := by
  rw [getRequiredStr] at h
  cases hget : getStr? document key with
  | none => rw [hget] at h; cases h
  | some value => rw [hget] at h; exact ⟨value, rfl, h⟩

theorem ok_doc {document : Document} {key : String}
    {next : Document → Except CodecError OperationRequest} {request : OperationRequest}
    (h : (getRequiredDoc document key >>= next) = .ok request) :
    ∃ value, getDocument? document key = some value ∧ next value = .ok request := by
  rw [getRequiredDoc] at h
  cases hget : getDocument? document key with
  | none => rw [hget] at h; cases h
  | some value => rw [hget] at h; exact ⟨value, rfl, h⟩

theorem findOptionsOf_fields (document : Document) :
    (findOptionsOf document).bind (·.limit) = getI64? document "limit" ∧
      (findOptionsOf document).bind (·.skip) =
        (getI64? document "skip").map (toUnsigned 64) ∧
      (findOptionsOf document).bind (·.sort) = getDocument? document "sort" ∧
      (findOptionsOf document).bind (·.projection) = getDocument? document "projection" := by
  unfold findOptionsOf
  cases getI64? document "limit" <;> cases getI64? document "skip" <;>
    cases getDocument? document "sort" <;> cases getDocument? document "projection" <;>
    exact ⟨rfl, rfl, rfl, rfl⟩

/-- A parsed request carries of each recognised field what its getter reads. -/
theorem fields_of_parseDocument {document : Document} {opcode : Opcode}
    {request : OperationRequest} (h : parseDocument document opcode = .ok request) :
    request.fields =
      (recognisedFields opcode).map fun field ↦ (field.1, field.2.read document field.1) := by
  cases opcode with
  | handshake =>
    obtain ⟨clientLanguage, hlanguage, h⟩ := ok_str h
    cases h
    simp [OperationRequest.fields, recognisedFields, Getter.read, hlanguage]
  | error => cases h
  | listCollections =>
    obtain ⟨db, hdb, h⟩ := ok_str h
    cases h
    simp [OperationRequest.fields, recognisedFields, Getter.read, hdb]
  | runCommand =>
    obtain ⟨db, hdb, h⟩ := ok_str h
    obtain ⟨command, hcommand, h⟩ := ok_doc h
    cases h
    simp [OperationRequest.fields, recognisedFields, Getter.read, hdb, hcommand]
  | insertOne | insertMany | bulkWrite | countDocuments =>
    obtain ⟨db, hdb, h⟩ := ok_str h
    obtain ⟨collection, hcollection, h⟩ := ok_str h
    cases h
    simp [OperationRequest.fields, recognisedFields, Getter.read, hdb, hcollection,
      docBytesLenOf]
  | createCollection | dropCollection =>
    obtain ⟨db, hdb, h⟩ := ok_str h
    obtain ⟨name, hname, h⟩ := ok_str h
    cases h
    simp [OperationRequest.fields, recognisedFields, Getter.read, hdb, hname]
  | distinct =>
    obtain ⟨db, hdb, h⟩ := ok_str h
    obtain ⟨collection, hcollection, h⟩ := ok_str h
    obtain ⟨field, hfield, h⟩ := ok_str h
    cases h
    simp [OperationRequest.fields, recognisedFields, Getter.read, hdb, hcollection, hfield]
  | createIndex =>
    obtain ⟨db, hdb, h⟩ := ok_str h
    obtain ⟨collection, hcollection, h⟩ := ok_str h
    obtain ⟨keys, hkeys, h⟩ := ok_doc h
    cases h
    simp [OperationRequest.fields, recognisedFields, Getter.read, hdb, hcollection, hkeys]
  | findOne | deleteOne | deleteMany | findOneAndDelete =>
    obtain ⟨db, hdb, h⟩ := ok_str h
    obtain ⟨collection, hcollection, h⟩ := ok_str h
    obtain ⟨filter, hfilter, h⟩ := ok_doc h
    cases h
    simp [OperationRequest.fields, recognisedFields, Getter.read, hdb, hcollection, hfilter]
  | find =>
    obtain ⟨db, hdb, h⟩ := ok_str h
    obtain ⟨collection, hcollection, h⟩ := ok_str h
    obtain ⟨filter, hfilter, h⟩ := ok_doc h
    cases h
    have hoptions := findOptionsOf_fields document
    simp [OperationRequest.fields, recognisedFields, Getter.read, hdb, hcollection, hfilter,
      hoptions, docBytesLenOf, batchSizeOf]
  | updateOne | updateMany | findOneAndUpdate =>
    obtain ⟨db, hdb, h⟩ := ok_str h
    obtain ⟨collection, hcollection, h⟩ := ok_str h
    obtain ⟨filter, hfilter, h⟩ := ok_doc h
    obtain ⟨update, hupdate, h⟩ := ok_doc h
    cases h
    simp [OperationRequest.fields, recognisedFields, Getter.read, hdb, hcollection, hfilter,
      hupdate]
  | aggregate =>
    obtain ⟨db, hdb, h⟩ := ok_str h
    obtain ⟨collection, hcollection, h⟩ := ok_str h
    cases hpipeline : getArray? document "pipeline" with
    | none => simp [hpipeline] at h
    | some stages =>
      simp only [hpipeline] at h
      cases h
      simp [OperationRequest.fields, recognisedFields, Getter.read, hdb, hcollection, hpipeline,
        batchSizeOf]
      rfl

theorem lookup_map_of_mem {α β : Type} {items : List (String × α)} (f : String × α → β)
    (hnodup : (items.map Prod.fst).Nodup) {item : String × α} (hmem : item ∈ items) :
    (items.map fun item ↦ (item.1, f item)).lookup item.1 = some (f item) := by
  induction items with
  | nil => cases hmem
  | cons head items ih =>
    rw [List.map_cons, List.nodup_cons] at hnodup
    rw [List.map_cons, List.lookup_cons]
    cases List.mem_cons.mp hmem with
    | inl heq =>
      subst heq
      simp
    | inr hmem =>
      have hne : item.1 ≠ head.1 := fun heq ↦ hnodup.1 (heq ▸ List.mem_map_of_mem hmem)
      simp only [beq_eq_false_iff_ne.mpr hne]
      exact ih hnodup.2 hmem

theorem carried_of_parseDocument {document : Document} {opcode : Opcode}
    {request : OperationRequest} (h : parseDocument document opcode = .ok request)
    {field : String × Getter} (hfield : field ∈ recognisedFields opcode) :
    request.carried field.1 = field.2.read document field.1 := by
  have hnodup : ((recognisedFields opcode).map Prod.fst).Nodup := by
    cases opcode <;> decide
  have hlookup := lookup_map_of_mem (fun field ↦ field.2.read document field.1) hnodup hfield
  rw [OperationRequest.carried, fields_of_parseDocument h, hlookup, Option.join_some]

/-- An envelope is accepted if it has the fields that its opcode requires. -/
theorem isOk_parseDocument (document : Document) (opcode : Opcode) :
    (parseDocument document opcode).isOk =
      ((requiredFields opcode).all (hasField document) && (opcode != .error)) := by
  have herror : ∀ error, (Except.error error : Except CodecError OperationRequest).isOk = false :=
    fun _ ↦ rfl
  rw [all_and_eq_foldr]
  cases opcode with
  | handshake | listCollections => exact check_str herror fun _ ↦ rfl
  | findOne | find | deleteOne | deleteMany | findOneAndDelete | createIndex =>
    exact check_str herror fun _ ↦ check_str herror fun _ ↦ check_doc herror fun _ ↦ rfl
  | updateOne | updateMany | findOneAndUpdate =>
    exact check_str herror fun _ ↦ check_str herror fun _ ↦ check_doc herror fun _ ↦
      check_doc herror fun _ ↦ rfl
  | insertOne | insertMany | bulkWrite | countDocuments | createCollection | dropCollection =>
    exact check_str herror fun _ ↦ check_str herror fun _ ↦ rfl
  | aggregate =>
    apply check_str herror
    intro db
    apply check_str herror
    intro collection
    cases hpipeline : getArray? document "pipeline" with
    | none => simp [hasField, hpipeline, herror]
    | some stages => simp [hasField, hpipeline]; rfl
  | distinct =>
    exact check_str herror fun _ ↦ check_str herror fun _ ↦ check_str herror fun _ ↦ rfl
  | runCommand => exact check_str herror fun _ ↦ check_doc herror fun _ ↦ rfl
  | error => rfl

/-! ## No field is dropped -/

/-- No recognised field is dropped: an accepted envelope's fields are legal, and the request
carries each of them with its value. -/
def NoFieldDropped (decode : Bytes → Except String Document) (bytes : Bytes) (opcode : Opcode) :
    Prop :=
  ∀ request, parseEnvelope decode bytes opcode = .ok request →
    ∀ document, decode bytes = .ok document → ∀ field ∈ recognisedFields opcode,
      ∀ value, document.lookup field.1 = some value →
        ∃ carried, field.2.means value = some carried ∧ request.carried field.1 = some carried

/-- The BSON type that a getter reads; the length of the raw documents is zero by default. -/
def Getter.Reads : Getter → Bson → Prop
  | .u32, value => ∃ n, value = .int32 n
  | .u32OrZero, value => (∃ n, value = .int32 n) ∨ integer? value = some 0
  | .i64, value | .u64, value => ∃ n, value = .int64 n
  | _, _ => True

/-- A value that is legal and of the type that the getter reads. -/
def Getter.Keeps (getter : Getter) (value : Bson) : Prop :=
  (getter.means value).isSome = true ∧ getter.Reads value

def Accepted (document : Document) (opcode : Opcode) : Prop :=
  opcode ≠ .error ∧ ∀ field ∈ requiredFields opcode, hasField document field = true

theorem toUnsigned_eq {bits : ℕ} {n : ℤ} (hlow : 0 ≤ n) (hhigh : n < 2 ^ bits) :
    (toUnsigned bits n : ℤ) = n := by
  rw [toUnsigned, Int.emod_eq_of_lt hlow hhigh, Int.toNat_of_nonneg hlow]

theorem asU32_eq {n : ℤ} (hlow : 0 ≤ n) (hhigh : n < 2 ^ 32) : ((asU32 n).toNat : ℤ) = n := by
  have hunsigned := @toUnsigned_eq 32 n hlow hhigh
  have hlt : toUnsigned 32 n < 2 ^ 32 := by omega
  rw [asU32, UInt32.toNat_ofNat_of_lt' hlt, hunsigned]

theorem boundedInteger_eq_some {bound : ℤ} {value : Bson} {carried : Carried} :
    boundedInteger bound value = some carried ↔
      ∃ n, integer? value = some n ∧ 0 ≤ n ∧ n < bound ∧ carried = .integer n := by
  rw [boundedInteger, Option.bind_eq_some_iff]
  refine exists_congr fun n ↦ and_congr_right fun _ ↦ ?_
  rw [Option.ite_none_right_eq_some, Option.some.injEq, and_assoc, eq_comm (a := carried)]

theorem isSome_boundedInteger {bound : ℤ} {value : Bson} :
    (boundedInteger bound value).isSome = true ↔
      ∃ n, integer? value = some n ∧ 0 ≤ n ∧ n < bound := by
  rw [Option.isSome_iff_exists]
  simp [boundedInteger_eq_some]

theorem getI32?_of_lookup {document : Document} {key : String} {value : Bson}
    (h : document.lookup key = some value) {n : ℤ} :
    getI32? document key = some n ↔ value = .int32 n := by
  rw [getI32?, h]
  cases value <;> simp

theorem getI64?_of_lookup {document : Document} {key : String} {value : Bson}
    (h : document.lookup key = some value) {n : ℤ} :
    getI64? document key = some n ↔ value = .int64 n := by
  rw [getI64?, h]
  cases value <;> simp

theorem mapM_asDocument? {items : List Bson} {documents : List Document}
    (h : items.mapM asDocument? = some documents) : items.filterMap asDocument? = documents := by
  induction items generalizing documents with
  | nil => simpa using h
  | cons item items ih =>
    rw [List.mapM_cons] at h
    cases hitem : asDocument? item with
    | none => simp [hitem] at h
    | some members =>
      cases hitems : items.mapM asDocument? with
      | none => simp [hitem, hitems] at h
      | some rest =>
        have heq : members :: rest = documents := by simpa [hitem, hitems] using h
        rw [List.filterMap_cons, hitem, ← heq, ← ih hitems]

/-- A getter that reads what `get` finds keeps the legal values that `get` finds, if it keeps the
number. -/
theorem keeps_of_get {bound : ℤ} {value : Bson} {found : Option ℤ} {result : ℤ → Carried}
    {Found : Prop} (hfound : Found ↔ ∃ n, found = some n)
    (hinteger : ∀ n, found = some n → integer? value = some n)
    (hresult : ∀ n, 0 ≤ n → n < bound → result n = .integer n) :
    (∃ carried, boundedInteger bound value = some carried ∧
        found.map result = some carried) ↔
      (boundedInteger bound value).isSome = true ∧ Found := by
  rw [hfound]
  constructor
  · intro ⟨carried, hmeans, hread⟩
    obtain ⟨n, hn, -⟩ := Option.map_eq_some_iff.mp hread
    exact ⟨Option.isSome_iff_exists.mpr ⟨carried, hmeans⟩, n, hn⟩
  · intro ⟨hmeans, n, hn⟩
    obtain ⟨m, hm, hlow, hhigh⟩ := isSome_boundedInteger.mp hmeans
    have heq : m = n := Option.some.inj (hm.symm.trans (hinteger n hn))
    subst heq
    refine ⟨.integer m, boundedInteger_eq_some.mpr ⟨m, hm, hlow, hhigh, rfl⟩, ?_⟩
    rw [hn, Option.map_some, hresult m hlow hhigh]

/-- A getter keeps a value if and only if the value is legal and of the type that it reads. -/
theorem keeps_iff (getter : Getter) {document : Document} {key : String} {value : Bson}
    (h : document.lookup key = some value) :
    (∃ carried, getter.means value = some carried ∧
        getter.read document key = some carried) ↔ getter.Keeps value := by
  cases getter with
  | str | doc | docOrEmpty | bool | boolOrTrue =>
    cases value <;>
      simp [Getter.means, Getter.read, Getter.Keeps, Getter.Reads, getStr?, getDocument?, getBool?,
        h]
  | docs =>
    cases value with
    | array items =>
      have hread : Getter.docs.read document key =
          some (.documents (items.filterMap asDocument?)) := by
        simp [Getter.read, getArray?, h]
      rw [hread, Getter.Keeps, Getter.means]
      cases hdocuments : items.mapM asDocument? with
      | none => simp
      | some documents => simp [mapM_asDocument? hdocuments, Getter.Reads]
    | _ => simp [Getter.means, Getter.Keeps]
  | u32 =>
    have hread : Getter.u32.read document key =
        (getI32? document key).map fun n ↦ .integer (asU32 n).toNat := Option.map_map ..
    rw [hread]
    exact keeps_of_get (by simp [Getter.Reads, getI32?_of_lookup h])
      (fun n hn ↦ by rw [(getI32?_of_lookup h).mp hn]; rfl)
      (fun n hlow hhigh ↦ by rw [asU32_eq hlow hhigh])
  | i64 =>
    exact keeps_of_get (by simp [Getter.Reads, getI64?_of_lookup h])
      (fun n hn ↦ by rw [(getI64?_of_lookup h).mp hn]; rfl) (fun n _ _ ↦ rfl)
  | u64 =>
    have hread : Getter.u64.read document key =
        (getI64? document key).map fun n ↦ .integer (toUnsigned 64 n) := Option.map_map ..
    rw [hread]
    exact keeps_of_get (by simp [Getter.Reads, getI64?_of_lookup h])
      (fun n hn ↦ by rw [(getI64?_of_lookup h).mp hn]; rfl)
      (fun n hlow hhigh ↦ by rw [toUnsigned_eq hlow hhigh])
  | u32OrZero =>
    cases hget : getI32? document key with
    | some n =>
      have hvalue := (getI32?_of_lookup h).mp hget
      have hread : Getter.u32OrZero.read document key =
          (some n).map fun n ↦ .integer (asU32 n).toNat := by simp [Getter.read, hget]
      rw [hread]
      exact keeps_of_get (by simp [Getter.Reads, hvalue])
        (fun m hm ↦ by rw [hvalue, ← Option.some.inj hm]; rfl)
        (fun m hlow hhigh ↦ by rw [asU32_eq hlow hhigh])
    | none =>
      have hvalue : ∀ n, value ≠ .int32 n := fun n heq ↦ by
        rw [(getI32?_of_lookup h).mpr heq] at hget
        cases hget
      have hread : Getter.u32OrZero.read document key = some (.integer 0) := by
        simp [Getter.read, hget, asU32, toUnsigned]
      rw [hread, Getter.Keeps, Getter.Reads, Getter.means]
      constructor
      · intro ⟨carried, hmeans, hcarried⟩
        obtain ⟨n, hn, -, -, heq⟩ := boundedInteger_eq_some.mp hmeans
        have hzero : n = 0 := by
          have := heq.symm.trans (Option.some.inj hcarried).symm
          simpa using this
        exact ⟨Option.isSome_iff_exists.mpr ⟨carried, hmeans⟩, .inr (hzero ▸ hn)⟩
      · intro ⟨_, hreads⟩
        have hzero : integer? value = some 0 :=
          hreads.resolve_left fun ⟨n, hn⟩ ↦ hvalue n hn
        exact ⟨.integer 0, boundedInteger_eq_some.mpr ⟨0, hzero, by decide, by decide, rfl⟩, rfl⟩

/-! ## Which envelopes lose nothing -/

/-- An envelope that is malformed, or refused for a required field, or where each recognised field
that is present is legal and of the type that its getter reads. -/
def LosesNothing (decode : Bytes → Except String Document) (bytes : Bytes) (opcode : Opcode) :
    Prop :=
  ∀ document, decode bytes = .ok document → Accepted document opcode →
    ∀ field ∈ recognisedFields opcode, ∀ value, document.lookup field.1 = some value →
      field.2.Keeps value

theorem accepted_iff {document : Document} {opcode : Opcode} :
    Accepted document opcode ↔ ∃ request, parseDocument document opcode = .ok request := by
  have hisOk : (parseDocument document opcode).isOk = true ↔
      ∃ request, parseDocument document opcode = .ok request := by
    cases parseDocument document opcode <;> simp [Except.isOk, Except.toBool]
  rw [← hisOk, isOk_parseDocument, Bool.and_eq_true, List.all_eq_true, bne_iff_ne, and_comm]
  rfl

/-- No recognised field of an envelope is dropped if and only if the envelope loses nothing. -/
theorem noFieldDropped_iff (decode : Bytes → Except String Document) (bytes : Bytes)
    (opcode : Opcode) : NoFieldDropped decode bytes opcode ↔ LosesNothing decode bytes opcode := by
  cases hdecode : decode bytes with
  | error message =>
    have hnone : ∀ document, decode bytes ≠ .ok document := by simp [hdecode]
    exact iff_of_true (fun _ _ document h ↦ absurd h (hnone document))
      (fun document h ↦ absurd h (hnone document))
  | ok document =>
    have hparse : parseEnvelope decode bytes opcode = parseDocument document opcode := by
      rw [parseEnvelope, hdecode]
    constructor
    · intro hkept other hother haccepted field hfield value hvalue
      obtain rfl := Except.ok.inj (hdecode.symm.trans hother)
      obtain ⟨request, hrequest⟩ := accepted_iff.mp haccepted
      have hcarried := hkept request (hparse.trans hrequest) document hdecode field hfield value
        hvalue
      rw [carried_of_parseDocument hrequest hfield] at hcarried
      exact (keeps_iff field.2 hvalue).mp hcarried
    · intro hkeeps request hrequest other hother field hfield value hvalue
      obtain rfl := Except.ok.inj (hdecode.symm.trans hother)
      rw [hparse] at hrequest
      have haccepted : Accepted document opcode := accepted_iff.mpr ⟨request, hrequest⟩
      rw [carried_of_parseDocument hrequest hfield]
      exact (keeps_iff field.2 hvalue).mpr
        (hkeeps document hdecode haccepted field hfield value hvalue)

/-! ## A find with a limit of 32 bits -/

/-- The envelope of a find with a limit, as a client writes a small number. -/
def smallLimit : Document :=
  [("db", .string "d"), ("coll", .string "c"), ("filter", .document []), ("limit", .int32 10)]

theorem decodeSlice_smallLimit : decodeSlice (toVec smallLimit) = .ok smallLimit := by
  have hkeys : 0 ∉ utf8 "db" ∧ 0 ∉ utf8 "coll" ∧ 0 ∉ utf8 "filter" ∧ 0 ∉ utf8 "limit" ∧
      (utf8 "d").length = 1 ∧ (utf8 "c").length = 1 := by decide
  have hfits : DocumentFits smallLimit := by
    refine ⟨?_, by decide⟩
    simp [smallLimit, MembersFit, Bson.Fits, hkeys]
    decide
  have hread : fromSlice (toVec smallLimit) = some smallLimit := fromSlice_toVec hfits
  rw [decodeSlice, hread]

/-- The find is accepted without its limit. -/
theorem smallLimit_dropped :
    (∃ request, parseEnvelope decodeSlice (toVec smallLimit) .find = .ok request ∧
        request.carried "limit" = none) ∧
      ¬ NoFieldDropped decodeSlice (toVec smallLimit) .find := by
  have hparse : parseEnvelope decodeSlice (toVec smallLimit) .find =
      .ok (.find "d" "c" [] none none 0) := by
    rw [parseEnvelope, decodeSlice_smallLimit]
    rfl
  refine ⟨⟨_, hparse, rfl⟩, fun hkept ↦ ?_⟩
  obtain ⟨carried, -, hcarried⟩ := hkept _ hparse smallLimit decodeSlice_smallLimit
    ("limit", .i64) (by simp [recognisedFields]) (.int32 10) rfl
  cases hcarried

end MongoCore.Transport
