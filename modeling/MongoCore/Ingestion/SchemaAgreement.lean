import MongoCore.Ingestion.Writer
import MongoCore.Library.Results

/-!
# Inference and conversion agree on some columns

The inference maps every column type to a BSON type, and the writer reads a BSON type with one
accessor.  The two agree on a cell that is null, on a value of the one type that the accessor
reads, and on lists and structs of such cells.  A data frame comes through its own schema exactly
when all its cells are of this kind, and then every document has the values of its row.
-/

namespace MongoCore.Ingestion.SchemaAgreement

open MongoCore.Data MongoCore.Ingestion.Schema MongoCore.Ingestion.Writer

/-! ## Values in BSON -/

section Values

variable (polars : Polars)

mutual

/-- The value of a cell, in the BSON type that is inferred for its column.  Times are kept to the
millisecond. -/
def bsonOf : (dtype : DataType) → Option dtype.Value → Bson
  | _, none => .null
  | .string, some value => .string value
  | .int8, some value => .int32 value.toInt
  | .int16, some value => .int32 value.toInt
  | .int32, some value => .int32 value.toInt
  | .int64, some value => .int64 value.toInt
  | .uint8, some value => .int32 value.toNat
  | .uint16, some value => .int32 value.toNat
  | .uint32, some value => .int64 value.toNat
  | .uint64, some value => .int64 value.toNat
  | .float32, some bits => .double (polars.toDouble bits)
  | .float64, some bits => .double bits
  | .boolean, some value => .boolean value
  | .date, some days => .dateTime (days.toInt * 86400000)
  | .datetime unit _, some value => .dateTime (toMillis unit value).toInt
  | .time, some value => .dateTime (toMillis .nanoseconds value).toInt
  | .duration unit, some value => .dateTime (toMillis unit value).toInt
  | .binary, some bytes => .binary 0 bytes
  | .binaryOffset, some bytes => .binary 0 bytes
  | .list inner, some items => .array (items.map (bsonOf inner))
  | .struct fields, some values => .document (membersOf fields values)
  | .other _, some text => .string text

def membersOf : (fields : List (String × DataType)) → FieldValues fields → Data.Document
  | [], _ => []
  | (name, dtype) :: fields, (value, values) => (name, bsonOf dtype value) :: membersOf fields values

end

mutual

/-- A cell that is null, or of a type that is read as the type that is inferred for it. -/
def Convertible : (dtype : DataType) → Option dtype.Value → Prop
  | _, none => True
  | .string, some _ | .int32, some _ | .int64, some _ | .float64, some _ | .boolean, some _
  | .binary, some _ => True
  | .list inner, some items =>
      let items : List (Option inner.Value) := items
      ∀ item ∈ items, Convertible inner item
  | .struct fields, some values => FieldsConvertible fields values
  | _, some _ => False

def FieldsConvertible : (fields : List (String × DataType)) → FieldValues fields → Prop
  | [], _ => True
  | (_, dtype) :: fields, (value, values) =>
      Convertible dtype value ∧ FieldsConvertible fields values

end

@[simp] theorem bsonOf_none (dtype : DataType) : bsonOf polars dtype none = .null := by
  cases dtype <;> rfl

@[simp] theorem convertible_none (dtype : DataType) : Convertible dtype none := by
  cases dtype <;> exact trivial

end Values

/-! ## Conversions one after the other -/

/-- If each conversion has one possible value under a condition, so do all of them. -/
theorem mapM_eq_ok_iff {α β ε : Type} {convert : α → Except ε β} {condition : α → Prop}
    {expected : α → β} {items : List α}
    (h : ∀ item ∈ items, ∀ value,
      convert item = .ok value ↔ condition item ∧ value = expected item) (values : List β) :
    items.mapM convert = .ok values ↔
      (∀ item ∈ items, condition item) ∧ values = items.map expected := by
  rw [Library.Results.mapM_eq_ok]
  induction items generalizing values with
  | nil => simp
  | cons item items ih =>
    have hitem := h item List.mem_cons_self
    have hrest := ih fun other hother ↦ h other (List.mem_cons_of_mem _ hother)
    rw [List.forall₂_cons_left_iff, List.forall_mem_cons, List.map_cons]
    constructor
    · rintro ⟨value, rest, hvalue, hvalues, rfl⟩
      obtain ⟨hcondition, rfl⟩ := (hitem value).mp hvalue
      obtain ⟨hconditions, rfl⟩ := (hrest rest).mp hvalues
      exact ⟨⟨hcondition, hconditions⟩, rfl⟩
    · rintro ⟨⟨hcondition, hconditions⟩, rfl⟩
      exact ⟨_, _, (hitem _).mpr ⟨hcondition, rfl⟩, (hrest _).mpr ⟨hconditions, rfl⟩, rfl⟩

theorem map_eq_ok_iff {α β ε : Type} {result : Except ε α} {make : α → β} {value : β} :
    result.map make = .ok value ↔ ∃ made, result = .ok made ∧ value = make made := by
  cases result <;> simp [Except.map, eq_comm]

/-- A name that is new is put at the end. -/
theorem insertField_eq_append {name : String} {document : Data.Document} (value : Bson)
    (h : name ∉ document.map Prod.fst) :
    insertField name value document = document ++ [(name, value)] := by
  induction document with
  | nil => rfl
  | cons member document ih =>
    rw [List.map_cons, List.mem_cons, not_or] at h
    rw [insertField, if_neg (Ne.symm h.1), ih h.2, List.cons_append]

section Fields

variable (polars : Polars)

/-- A column is found by its name. -/
theorem column_eq_ok {columns : List Column} (hnodup : (columns.map Column.name).Nodup)
    {series : Column} (hseries : series ∈ columns) :
    column polars columns series.name = .ok series := by
  have hfind : columns.find? (fun other ↦ other.name = series.name) = some series :=
    find?_name_eq_some hnodup hseries
  rw [column, hfind]

/-- The conversion of a cell yields its value, if it is convertible. -/
def ConvertsAt (row : ℕ) (series : Column) : Prop :=
  ∀ value, seriesValueToBson polars (polarsTypeToBson series.dtype) series row = .ok value ↔
    Convertible series.dtype (series.get row) ∧
      value = bsonOf polars series.dtype (series.get row)

def IsFieldOf (field : SchemaField BsonType) (series : Column) : Prop :=
  field.name = series.name ∧ field.bsonType = polarsTypeToBson series.dtype

def memberAt (row : ℕ) (series : Column) : String × Bson :=
  (series.name, bsonOf polars series.dtype (series.get row))

/-- The fields of a row are converted to the members of a document, in the order of the columns. -/
theorem fieldsToBson_eq_ok_iff {label : String} {columns : List Column} {row : ℕ}
    (hnodup : (columns.map Column.name).Nodup) {fields : List (SchemaField BsonType)}
    {todo : List Column} (hfields : List.Forall₂ IsFieldOf fields todo)
    (htodo : ∀ series ∈ todo, series ∈ columns ∧ ConvertsAt polars row series)
    (hdistinct : (todo.map Column.name).Nodup) {document : Data.Document}
    (hnew : ∀ series ∈ todo, series.name ∉ document.map Prod.fst) (result : Data.Document) :
    fieldsToBson polars label fields columns row document = .ok result ↔
      (∀ series ∈ todo, Convertible series.dtype (series.get row)) ∧
        result = document ++ todo.map (memberAt polars row) := by
  induction hfields generalizing document with
  | nil => simp [fieldsToBson, eq_comm]
  | @cons field series fields todo hfield _ ih =>
    obtain ⟨name, bsonType, nullable⟩ := field
    obtain ⟨rfl, rfl⟩ : name = series.name ∧ bsonType = polarsTypeToBson series.dtype := hfield
    obtain ⟨hmem, hconverts⟩ := htodo series List.mem_cons_self
    rw [List.map_cons, List.nodup_cons] at hdistinct
    rw [fieldsToBson, column_eq_ok polars hnodup hmem, List.forall_mem_cons, List.map_cons]
    cases hvalue : seriesValueToBson polars (polarsTypeToBson series.dtype) series row with
    | error error =>
      have hno : ¬ Convertible series.dtype (series.get row) := fun hconvertible ↦ by
        have hok := (hconverts _).mpr ⟨hconvertible, rfl⟩
        rw [hvalue] at hok
        cases hok
      simp [hvalue, hno]
    | ok value =>
      obtain ⟨hconvertible, rfl⟩ := (hconverts value).mp hvalue
      have hkeys : series.name ∉ document.map Prod.fst := hnew series List.mem_cons_self
      have hrest : ∀ other ∈ todo, other.name ∉ (insertField series.name
          (bsonOf polars series.dtype (series.get row)) document).map Prod.fst := by
        intro other hother
        rw [insertField_eq_append _ hkeys, List.map_append, List.mem_append, not_or]
        refine ⟨hnew other (List.mem_cons_of_mem _ hother), fun hsame ↦ hdistinct.1 ?_⟩
        have hname : other.name = series.name := List.mem_singleton.mp hsame
        exact hname ▸ List.mem_map_of_mem hother
      simp only [hvalue]
      rw [ih (fun other hother ↦ htodo other (List.mem_cons_of_mem _ hother)) hdistinct.2 hrest,
        insertField_eq_append _ hkeys, List.append_assoc, and_iff_right hconvertible]
      rfl

/-! ## The fields of structs -/

theorem forall₂_schemaFields (fields : List (String × DataType))
    (rows : List (Option (FieldValues fields))) :
    List.Forall₂ IsFieldOf (schemaFields fields) (fieldColumns fields rows) := by
  induction fields with
  | nil => exact .nil
  | cons field fields ih => exact .cons ⟨rfl, rfl⟩ (ih _)

theorem names_fieldColumns (fields : List (String × DataType))
    (rows : List (Option (FieldValues fields))) :
    (fieldColumns fields rows).map Column.name = fields.map Prod.fst := by
  induction fields with
  | nil => rfl
  | cons field fields ih => exact congrArg (field.1 :: ·) (ih _)

/-- The columns of the fields have the values of a struct in its row. -/
theorem members_fieldColumns (fields : List (String × DataType))
    {rows : List (Option (FieldValues fields))} {row : ℕ} {values : FieldValues fields}
    (hvalues : rows[row]? = some (some values)) :
    (fieldColumns fields rows).map (memberAt polars row) = membersOf polars fields values ∧
      ((∀ series ∈ fieldColumns fields rows, Convertible series.dtype (series.get row)) ↔
        FieldsConvertible fields values) := by
  induction fields with
  | nil => exact ⟨rfl, iff_of_true (fun _ hmem ↦ absurd hmem List.not_mem_nil) trivial⟩
  | cons field fields ih =>
    obtain ⟨name, dtype⟩ := field
    obtain ⟨value, rest⟩ := values
    have hrest : (rows.map fun row ↦ row.map Prod.snd)[row]? = some (some rest) := by
      rw [List.getElem?_map, hvalues]
      rfl
    have hget : (⟨name, dtype, rows.map fun row ↦ row.bind Prod.fst⟩ : Column).get row = value := by
      rw [Column.get, List.getElem?_map, hvalues]
      rfl
    obtain ⟨hmembers, hiff⟩ := ih hrest
    refine ⟨?_, ?_⟩
    · rw [fieldColumns, List.map_cons, hmembers, membersOf, memberAt, hget]
    · rw [fieldColumns, List.forall_mem_cons, hiff, hget, FieldsConvertible]

/-! ## The conversion of a cell -/

variable {polars}

theorem convertsAt_of_ok {series : Column} {row : ℕ} {cell : Option series.dtype.Value}
    (hget : series.get row = cell)
    (hconvert : seriesValueToBson polars (polarsTypeToBson series.dtype) series row =
      .ok (bsonOf polars series.dtype cell))
    (hconvertible : Convertible series.dtype cell) : ConvertsAt polars row series := by
  intro value
  rw [hget, hconvert, and_iff_right hconvertible, Except.ok.injEq, eq_comm]

theorem convertsAt_of_error {series : Column} {row : ℕ} {cell : Option series.dtype.Value}
    {error : String} (hget : series.get row = cell)
    (hconvert : seriesValueToBson polars (polarsTypeToBson series.dtype) series row = .error error)
    (hno : ¬ Convertible series.dtype cell) : ConvertsAt polars row series := by
  intro value
  rw [hget, hconvert]
  exact iff_of_false (by simp) fun hboth ↦ hno hboth.1

theorem get_of_some {series : Column} {row : ℕ} {value : series.dtype.Value}
    (h : series.cells[row]? = some (some value)) : series.get row = some value := by
  rw [Column.get, h, Option.join_some]

theorem not_null_of_some {series : Column} {row : ℕ} {value : series.dtype.Value}
    (h : series.cells[row]? = some (some value)) :
    ¬ (series.cells[row]?).elim false Option.isNone = true := by
  rw [h]
  exact Bool.false_ne_true

/-- A null is converted to a null, whatever the type. -/
theorem convertsAt_of_null {series : Column} {row : ℕ} (hnull : series.cells[row]? = some none) :
    ConvertsAt polars row series := by
  apply convertsAt_of_ok (by rw [Column.get, hnull, Option.join_some])
  · rw [bsonOf_none, seriesValueToBson.eq_def, hnull]
    exact if_pos rfl
  · exact convertible_none _

/-- What an accessor reads in a row. -/
theorem readAs_eq_ok {α : Type} {ca : List (Option α)} {row : ℕ} {value : α}
    (hvalue : (ca[row]?).join = some value) (toBson : α → Bson) :
    readAs (.ok ca) row toBson = .ok (toBson value) := by
  simp only [readAs, hvalue]

def IsScalar : DataType → Prop
  | .list _ | .struct _ => False
  | _ => True

/-- A value is converted if its type is the one that the accessor reads. -/
theorem convertsAt_of_value {dtype : DataType} (hscalar : IsScalar dtype) {name : String}
    {cells : List (Option dtype.Value)} {row : ℕ} {value : dtype.Value}
    (hvalue : cells[row]? = some (some value)) : ConvertsAt polars row ⟨name, dtype, cells⟩ := by
  have hget : (⟨name, dtype, cells⟩ : Column).get row = some value := get_of_some hvalue
  have hsome : ¬ ((⟨name, dtype, cells⟩ : Column).cells[row]?).elim false Option.isNone = true :=
    not_null_of_some hvalue
  cases dtype with
  | list inner => exact absurd hscalar id
  | struct fields => exact absurd hscalar id
  | null => exact nomatch value
  | string =>
    refine convertsAt_of_ok hget ?_ trivial
    rw [polarsTypeToBson, seriesValueToBson.eq_def, if_neg hsome]
    exact readAs_eq_ok hget .string
  | int32 =>
    refine convertsAt_of_ok hget ?_ trivial
    rw [polarsTypeToBson, seriesValueToBson.eq_def, if_neg hsome]
    exact readAs_eq_ok hget fun value ↦ .int32 value.toInt
  | int64 =>
    refine convertsAt_of_ok hget ?_ trivial
    rw [polarsTypeToBson, seriesValueToBson.eq_def, if_neg hsome]
    exact readAs_eq_ok hget fun value ↦ .int64 value.toInt
  | float64 =>
    refine convertsAt_of_ok hget ?_ trivial
    rw [polarsTypeToBson, seriesValueToBson.eq_def, if_neg hsome]
    exact readAs_eq_ok hget .double
  | boolean =>
    refine convertsAt_of_ok hget ?_ trivial
    rw [polarsTypeToBson, seriesValueToBson.eq_def, if_neg hsome]
    exact readAs_eq_ok hget .boolean
  | binary =>
    refine convertsAt_of_ok hget ?_ trivial
    rw [polarsTypeToBson, seriesValueToBson.eq_def, if_neg hsome]
    exact readAs_eq_ok hget (.binary 0)
  | _ =>
    -- the accessor reads another type
    apply convertsAt_of_error hget
    · rw [polarsTypeToBson, seriesValueToBson.eq_def, if_neg hsome]
      rfl
    · exact id

variable (polars) in
/-- The items of a list are the cells of a column of their own. -/
theorem items_column {inner : DataType} (name : String) (items : List (Option inner.Value)) :
    ((List.range items.length).map fun i ↦
        bsonOf polars inner ((⟨name, inner, items⟩ : Column).get i)) =
      items.map (bsonOf polars inner) ∧
    ((∀ i ∈ List.range items.length, Convertible inner ((⟨name, inner, items⟩ : Column).get i)) ↔
      ∀ item ∈ items, Convertible inner item) := by
  have hget (i : ℕ) (hi : i < items.length) :
      (⟨name, inner, items⟩ : Column).get i = items[i] := by
    rw [Column.get, List.getElem?_eq_getElem hi, Option.join_some]
  constructor
  · apply List.ext_getElem
    · simp
    · intro i hi hmap
      simp only [List.getElem_map, List.getElem_range]
      rw [hget]
  · constructor
    · intro hall item hitem
      obtain ⟨i, hi, rfl⟩ := List.mem_iff_getElem.mp hitem
      have hconvertible := hall i (List.mem_range.mpr hi)
      rwa [hget i hi] at hconvertible
    · intro hall i hi
      rw [hget i (List.mem_range.mp hi)]
      exact hall _ (List.getElem_mem _)

/-- A list is converted if its items are. -/
theorem convertsAt_list {inner : DataType} {name : String}
    {cells : List (Option (DataType.list inner).Value)} {row : ℕ}
    {items : List (Option inner.Value)} (hvalue : cells[row]? = some (some items))
    (hitems : ∀ i < items.length, ConvertsAt polars i ⟨name, inner, items⟩) :
    ConvertsAt polars row ⟨name, .list inner, cells⟩ := by
  have hget : (⟨name, .list inner, cells⟩ : Column).get row = some items := get_of_some hvalue
  have hsome : ¬ ((⟨name, .list inner, cells⟩ : Column).cells[row]?).elim false Option.isNone =
      true := not_null_of_some hvalue
  have hread : ((cells.map fun cell ↦ cell.map fun items ↦
      (⟨name, inner, items⟩ : Column))[row]?).join = some ⟨name, inner, items⟩ := by
    rw [List.getElem?_map, hvalue]
    rfl
  have hconvert : seriesValueToBson polars (polarsTypeToBson (.list inner))
      ⟨name, .list inner, cells⟩ row =
        ((List.range items.length).mapM fun i ↦
          seriesValueToBson polars (polarsTypeToBson inner) ⟨name, inner, items⟩ i).map .array := by
    rw [polarsTypeToBson, seriesValueToBson.eq_def, if_neg hsome]
    simp only [list, hread]
  obtain ⟨hbson, hconvertible⟩ := items_column polars name items
  intro value
  calc seriesValueToBson polars (polarsTypeToBson (.list inner)) ⟨name, .list inner, cells⟩ row =
        .ok value
    _ ↔ ∃ values, ((List.range items.length).mapM fun i ↦
          seriesValueToBson polars (polarsTypeToBson inner) ⟨name, inner, items⟩ i) =
            .ok values ∧ value = .array values := by rw [hconvert, map_eq_ok_iff]
    _ ↔ (∀ i ∈ List.range items.length,
          Convertible inner ((⟨name, inner, items⟩ : Column).get i)) ∧
        value = .array ((List.range items.length).map fun i ↦
          bsonOf polars inner ((⟨name, inner, items⟩ : Column).get i)) := by
      simp only [mapM_eq_ok_iff fun i hi ↦ hitems i (List.mem_range.mp hi)]
      exact ⟨fun ⟨_, ⟨hall, hvalues⟩, hmade⟩ ↦ ⟨hall, hvalues ▸ hmade⟩,
        fun ⟨hall, hmade⟩ ↦ ⟨_, ⟨hall, rfl⟩, hmade⟩⟩
    _ ↔ (∀ item ∈ items, Convertible inner item) ∧
        value = .array (items.map (bsonOf polars inner)) := by rw [hconvertible, hbson]
    _ ↔ Convertible (.list inner) ((⟨name, .list inner, cells⟩ : Column).get row) ∧
        value = bsonOf polars (.list inner) ((⟨name, .list inner, cells⟩ : Column).get row) := by
      rw [hget]
      exact Iff.rfl

/-- A struct is converted if its fields are. -/
theorem convertsAt_struct {fields : List (String × DataType)}
    (hnodup : (fields.map Prod.fst).Nodup) {name : String}
    {cells : List (Option (FieldValues fields))} {row : ℕ} {values : FieldValues fields}
    (hvalue : cells[row]? = some (some values))
    (hfields : ∀ series ∈ fieldColumns fields cells, ConvertsAt polars row series) :
    ConvertsAt polars row ⟨name, .struct fields, cells⟩ := by
  have hget : (⟨name, .struct fields, cells⟩ : Column).get row = some values := get_of_some hvalue
  have hsome : ¬ ((⟨name, .struct fields, cells⟩ : Column).cells[row]?).elim false Option.isNone =
      true := not_null_of_some hvalue
  have hconvert : seriesValueToBson polars (polarsTypeToBson (.struct fields))
      ⟨name, .struct fields, cells⟩ row =
        (fieldsToBson polars "Struct field" (schemaFields fields) (fieldColumns fields cells) row
          []).map .document := by
    rw [polarsTypeToBson, seriesValueToBson.eq_def, if_neg hsome]
    rfl
  have hdistinct : ((fieldColumns fields cells).map Column.name).Nodup := by
    rwa [names_fieldColumns]
  have hfieldsToBson (document : Data.Document) :
      fieldsToBson polars "Struct field" (schemaFields fields) (fieldColumns fields cells) row [] =
          .ok document ↔
        (∀ series ∈ fieldColumns fields cells, Convertible series.dtype (series.get row)) ∧
          document = (fieldColumns fields cells).map (memberAt polars row) :=
    fieldsToBson_eq_ok_iff polars hdistinct (forall₂_schemaFields fields cells)
      (fun series hseries ↦ ⟨hseries, hfields series hseries⟩) hdistinct
      (fun _ _ ↦ List.not_mem_nil) document
  obtain ⟨hmembers, hconvertible⟩ := members_fieldColumns polars fields hvalue
  intro value
  calc seriesValueToBson polars (polarsTypeToBson (.struct fields)) ⟨name, .struct fields, cells⟩
        row = .ok value
    _ ↔ ∃ document, fieldsToBson polars "Struct field" (schemaFields fields)
          (fieldColumns fields cells) row [] = .ok document ∧ value = .document document := by
      rw [hconvert, map_eq_ok_iff]
    _ ↔ (∀ series ∈ fieldColumns fields cells, Convertible series.dtype (series.get row)) ∧
        value = .document ((fieldColumns fields cells).map (memberAt polars row)) := by
      simp only [hfieldsToBson]
      exact ⟨fun ⟨_, ⟨hall, hdocument⟩, hmade⟩ ↦ ⟨hall, hdocument ▸ hmade⟩,
        fun ⟨hall, hmade⟩ ↦ ⟨_, ⟨hall, rfl⟩, hmade⟩⟩
    _ ↔ FieldsConvertible fields values ∧ value = .document (membersOf polars fields values) := by
      rw [hconvertible, hmembers]
    _ ↔ Convertible (.struct fields) ((⟨name, .struct fields, cells⟩ : Column).get row) ∧
        value = bsonOf polars (.struct fields)
          ((⟨name, .struct fields, cells⟩ : Column).get row) := by
      rw [hget]
      exact Iff.rfl

theorem getElem?_eq_none_or_some {α : Type} {cells : List (Option α)} {row : ℕ}
    (hrow : row < cells.length) :
    cells[row]? = some none ∨ ∃ value, cells[row]? = some (some value) := by
  rw [List.getElem?_eq_getElem hrow]
  cases cells[row] with
  | none => exact .inl rfl
  | some value => exact .inr ⟨value, rfl⟩

theorem convertsAt_of_scalar (dtype : DataType) (hscalar : IsScalar dtype) {name : String}
    {cells : List (Option dtype.Value)} {row : ℕ} (hrow : row < cells.length) :
    ConvertsAt polars row ⟨name, dtype, cells⟩ := by
  rcases getElem?_eq_none_or_some hrow with hnull | ⟨value, hvalue⟩
  · exact convertsAt_of_null hnull
  · exact convertsAt_of_value hscalar hvalue

mutual

/-- Every cell is converted to its value, if it is convertible, and to nothing otherwise. -/
theorem convertsAt : ∀ (dtype : DataType) (_ : dtype.Proper) (name : String)
    (cells : List (Option dtype.Value)) (row : ℕ) (_ : row < cells.length),
    ConvertsAt polars row ⟨name, dtype, cells⟩
  | .list inner, hproper, name, cells, row, hrow => by
      rcases getElem?_eq_none_or_some hrow with hnull | ⟨items, hvalue⟩
      · exact convertsAt_of_null hnull
      · exact convertsAt_list hvalue fun i hi ↦ convertsAt inner hproper name items i hi
  | .struct fields, hproper, name, cells, row, hrow => by
      rcases getElem?_eq_none_or_some hrow with hnull | ⟨values, hvalue⟩
      · exact convertsAt_of_null hnull
      · exact convertsAt_struct hproper.1 hvalue
          (convertsAt_fieldColumns fields hproper.2 cells row hrow)
  | .string, _, _, _, _, hrow | .int8, _, _, _, _, hrow | .int16, _, _, _, _, hrow
  | .int32, _, _, _, _, hrow | .int64, _, _, _, _, hrow | .uint8, _, _, _, _, hrow
  | .uint16, _, _, _, _, hrow | .uint32, _, _, _, _, hrow | .uint64, _, _, _, _, hrow
  | .float32, _, _, _, _, hrow | .float64, _, _, _, _, hrow | .boolean, _, _, _, _, hrow
  | .date, _, _, _, _, hrow | .datetime _ _, _, _, _, _, hrow | .time, _, _, _, _, hrow
  | .duration _, _, _, _, _, hrow | .null, _, _, _, _, hrow | .binary, _, _, _, _, hrow
  | .binaryOffset, _, _, _, _, hrow | .other _, _, _, _, _, hrow =>
      convertsAt_of_scalar _ (by exact trivial) hrow

theorem convertsAt_fieldColumns : ∀ (fields : List (String × DataType)) (_ : FieldsProper fields)
    (rows : List (Option (FieldValues fields))) (row : ℕ) (_ : row < rows.length),
    ∀ series ∈ fieldColumns fields rows, ConvertsAt polars row series
  | [], _, _, _, _ => fun _ hmem ↦ absurd hmem List.not_mem_nil
  | (name, dtype) :: fields, hproper, rows, row, hrow => by
      rw [fieldColumns, List.forall_mem_cons]
      exact ⟨convertsAt dtype hproper.1 name _ row (by rwa [List.length_map]),
        convertsAt_fieldColumns fields hproper.2 _ row (by rwa [List.length_map])⟩

end

end Fields

/-! ## Data frames -/

section Main

variable (polars : Polars) (df : DataFrame)

/-- A member of a document has the value of the cell of a column. -/
def HasCell (row : ℕ) (series : Column) (member : String × Bson) : Prop :=
  member.1 = series.name ∧
    ∃ cell, series.cells[row]? = some cell ∧ member.2 = bsonOf polars series.dtype cell

/-- A data frame comes through its own schema: one document for each row, with the columns in the
order of the schema and the values of the cells. -/
def ComesThrough : Prop :=
  ∃ schema documents, inferSchema df = .ok schema ∧
    Writer.dataframeToDocuments polars df schema = .ok documents ∧
    documents.length = df.height ∧
    ∀ (row : ℕ) (document : Data.Document), documents[row]? = some document →
      document.map Prod.fst = schema.fields.map SchemaField.name ∧
        List.Forall₂ (HasCell polars row) df.columns document

def AllConvertible : Prop :=
  ∀ series ∈ df.columns, ∀ cell ∈ series.cells, Convertible series.dtype cell

variable {df}

/-- The documents that the rows are converted to, if all cells can be. -/
theorem dataframeToDocuments_eq_ok_iff {schema : BsonSchema} (hschema : inferSchema df = .ok schema)
    (documents : List Data.Document) :
    Writer.dataframeToDocuments polars df schema = .ok documents ↔
      (∀ row ∈ List.range df.height, ∀ series ∈ df.columns,
        Convertible series.dtype (series.get row)) ∧
      documents = (List.range df.height).map fun row ↦ df.columns.map (memberAt polars row) := by
  obtain rfl := Except.ok.inj hschema
  apply mapM_eq_ok_iff
  intro row hrow
  apply fieldsToBson_eq_ok_iff polars df.nodup_names ?_ ?_ df.nodup_names
  · exact fun _ _ ↦ List.not_mem_nil
  · rw [List.forall₂_map_left_iff, List.forall₂_same]
    exact fun _ _ ↦ ⟨rfl, rfl⟩
  · intro series hseries
    refine ⟨hseries, convertsAt series.dtype (df.proper series hseries) series.name series.cells
      row ?_⟩
    rw [df.length_cells series hseries]
    exact List.mem_range.mp hrow

/-- The rows are those of the cells. -/
theorem allConvertible_iff : AllConvertible df ↔ ∀ row ∈ List.range df.height,
    ∀ series ∈ df.columns, Convertible series.dtype (series.get row) := by
  constructor
  · intro hall row hrow series hseries
    have hlt : row < series.cells.length := by
      rw [df.length_cells series hseries]
      exact List.mem_range.mp hrow
    rw [Column.get, List.getElem?_eq_getElem hlt, Option.join_some]
    exact hall series hseries _ (List.getElem_mem hlt)
  · intro hall series hseries cell hcell
    obtain ⟨row, hlt, rfl⟩ := List.mem_iff_getElem.mp hcell
    have hrow : row < df.height := df.length_cells series hseries ▸ hlt
    have hconvertible := hall row (List.mem_range.mpr hrow) series hseries
    rwa [Column.get, List.getElem?_eq_getElem hlt, Option.join_some] at hconvertible

variable (df) in
/-- A data frame comes through the schema that is inferred for it exactly when each of its cells is
null, of the one type that the writer reads for the type inferred, or a list or a struct of such
cells. -/
theorem comesThrough_iff_allConvertible : ComesThrough polars df ↔ AllConvertible df := by
  rw [allConvertible_iff]
  constructor
  · rintro ⟨schema, documents, hschema, hdocuments, -, -⟩
    exact ((dataframeToDocuments_eq_ok_iff polars hschema documents).mp hdocuments).1
  · intro hall
    refine ⟨_, _, rfl, (dataframeToDocuments_eq_ok_iff polars rfl _).mpr ⟨hall, rfl⟩, ?_, ?_⟩
    · rw [List.length_map, List.length_range]
    · intro row document hdocument
      rw [List.getElem?_map, Option.map_eq_some_iff] at hdocument
      obtain ⟨number, hnumber, rfl⟩ := hdocument
      obtain ⟨hlt, hsame⟩ := List.getElem?_eq_some_iff.mp hnumber
      rw [List.getElem_range] at hsame
      subst hsame
      rw [List.length_range] at hlt
      constructor
      · rw [List.map_map, List.map_map]
        rfl
      · rw [List.forall₂_map_right_iff, List.forall₂_same]
        intro series hseries
        have hrow : row < series.cells.length := by rwa [df.length_cells series hseries]
        refine ⟨rfl, series.cells[row], List.getElem?_eq_getElem hrow, ?_⟩
        rw [memberAt, Column.get, List.getElem?_eq_getElem hrow, Option.join_some]

end Main

/-! ## Columns that are inferred and not read -/

def single (series : Column) (hproper : series.dtype.Proper) : DataFrame where
  columns := [series]
  height := series.cells.length
  length_cells _ hmem := by rw [List.mem_singleton.mp hmem]
  nodup_names := List.nodup_singleton _
  proper _ hmem := by rwa [List.mem_singleton.mp hmem]

/-- A library that names the type it expects, and reads a single float as zero. -/
def plainPolars : Polars where
  mismatch expected _ := "invalid series dtype: expected " ++ expected
  notFound name := "not found: " ++ name
  toDouble _ := 0

def smallIntegers : Column := ⟨"n", .int8, [some (1 : Int8)]⟩

def days : Column := ⟨"day", .date, [none, some (20000 : Int32)]⟩

def floatLists : Column := ⟨"xs", .list .float32, [some ([none, some (0 : UInt32)] : List (Option UInt32))]⟩

/-- Small integers, dates and lists of single floats do not come through their schemas. -/
theorem not_comesThrough :
    (∃ schema, inferSchema (single smallIntegers trivial) = .ok schema ∧
      Writer.dataframeToDocuments plainPolars (single smallIntegers trivial) schema =
        .error "Polars conversion error: invalid series dtype: expected Int32") ∧
    ¬ ComesThrough plainPolars (single smallIntegers trivial) ∧
    ¬ ComesThrough plainPolars (single days trivial) ∧
    ¬ ComesThrough plainPolars (single floatLists trivial) := by
  have herror {df : DataFrame} {schema : BsonSchema} (error : String)
      (hschema : inferSchema df = .ok schema)
      (h : Writer.dataframeToDocuments plainPolars df schema = .error error) :
      ¬ ComesThrough plainPolars df := by
    rintro ⟨_, documents, hinferred, hdocuments, -⟩
    obtain rfl := Except.ok.inj (hschema.symm.trans hinferred)
    cases h.symm.trans hdocuments
  exact ⟨⟨_, rfl, rfl⟩, herror _ rfl rfl, herror _ rfl rfl, herror _ rfl rfl⟩

end MongoCore.Ingestion.SchemaAgreement
