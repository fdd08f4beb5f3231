import MongoCore.Data.Bson
import Mathlib.Data.List.Nodup

/-!
# Data frames and their schemas

A column of a data frame has a type, and its cells are values of that type or null.  The schema of
a data frame gives each column one of eleven BSON types, and says whether the column has a null.

The values of a type are a type of their own, by recursion on it, so that no column has a cell of
another type.  Floating-point numbers are kept by their bits, and the values of a type without an
arm in the inference by their text.
-/

namespace MongoCore.Ingestion.Schema

open MongoCore.Data

/-! ## Column types -/

inductive TimeUnit where
  | nanoseconds
  | microseconds
  | milliseconds
  deriving DecidableEq, Repr

inductive DataType where
  | string
  | int8
  | int16
  | int32
  | int64
  | uint8
  | uint16
  | uint32
  | uint64
  | float32
  | float64
  | boolean
  | date
  | datetime (unit : TimeUnit) (timeZone : Option String)
  | time
  | duration (unit : TimeUnit)
  | null
  | binary
  | binaryOffset
  | list (inner : DataType)
  | struct (fields : List (String × DataType))
  | other (name : String)

mutual

/-- The values of a type, which are not null.  A date counts days, and a time nanoseconds. -/
def DataType.Value : DataType → Type
  | .string | .other _ => String
  | .int8 => Int8
  | .int16 => Int16
  | .int32 | .date => Int32
  | .int64 | .datetime _ _ | .time | .duration _ => Int64
  | .uint8 => UInt8
  | .uint16 => UInt16
  | .uint32 | .float32 => UInt32
  | .uint64 | .float64 => UInt64
  | .boolean => Bool
  | .null => Empty
  | .binary | .binaryOffset => List UInt8
  | .list inner => List (Option inner.Value)
  | .struct fields => FieldValues fields

def FieldValues : List (String × DataType) → Type
  | [] => Unit
  | (_, dtype) :: fields => Option dtype.Value × FieldValues fields

end

mutual

/-- The fields of a struct have different names, at every level. -/
def DataType.Proper : DataType → Prop
  | .list inner => inner.Proper
  | .struct fields => (fields.map Prod.fst).Nodup ∧ FieldsProper fields
  | _ => True

def FieldsProper : List (String × DataType) → Prop
  | [] => True
  | (_, dtype) :: fields => dtype.Proper ∧ FieldsProper fields

end

/-! ## Data frames -/

/-- A column: its cells from the first row on, each a value or null. -/
structure Column where
  name : String
  dtype : DataType
  cells : List (Option dtype.Value)

def Column.get (column : Column) (row : ℕ) : Option column.dtype.Value := (column.cells[row]?).join

def Column.nullCount (column : Column) : ℕ := column.cells.countP Option.isNone

/-- Columns of one height with different names. -/
structure DataFrame where
  columns : List Column
  height : ℕ
  length_cells : ∀ column ∈ columns, column.cells.length = height
  nodup_names : (columns.map Column.name).Nodup
  proper : ∀ column ∈ columns, column.dtype.Proper

/-! ## Inference -/

structure SchemaField (type : Type) where
  name : String
  bsonType : type
  nullable : Bool

inductive BsonType where
  | string
  | int32
  | int64
  | double
  | boolean
  | dateTime
  | null
  | document (fields : List (SchemaField BsonType))
  | array (inner : BsonType)
  | binary
  | objectId

structure BsonSchema where
  fields : List (SchemaField BsonType)

mutual

def polarsTypeToBson : DataType → BsonType
  | .string => .string
  | .int8 | .int16 | .int32 | .uint8 | .uint16 => .int32
  | .int64 | .uint32 | .uint64 => .int64
  | .float32 | .float64 => .double
  | .boolean => .boolean
  | .date | .datetime _ _ | .time | .duration _ => .dateTime
  | .null => .null
  | .binary | .binaryOffset => .binary
  | .list inner => .array (polarsTypeToBson inner)
  | .struct fields => .document (schemaFields fields)
  | .other _ => .string

def schemaFields : List (String × DataType) → List (SchemaField BsonType)
  | [] => []
  | (name, dtype) :: fields =>
      { name := name, bsonType := polarsTypeToBson dtype, nullable := false } ::
        schemaFields fields

end

/-- The schema of a data frame.  The inference refuses none. -/
def inferSchema (df : DataFrame) : Except String BsonSchema :=
  .ok { fields := df.columns.map fun column ↦
    { name := column.name
      bsonType := polarsTypeToBson column.dtype
      nullable := column.nullCount > 0 } }

end MongoCore.Ingestion.Schema
