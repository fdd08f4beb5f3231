import Mathlib.Order.BoundedOrder.Lattice
import Mathlib.Order.Lattice
import MongoCore.Ingestion.Schema

/-!
# Widening the types of a schema

Two BSON types are widened to one that has the values of both.  Widening is the join of an order:
null is below every type and text above every type, the numbers form a chain, and arrays are ordered
as their items are.  So the type of a column depends neither on the order of its values nor on the
way in which they are grouped.
-/

namespace MongoCore.Ingestion.Schema

/-! ## Equality of types -/

mutual

def BsonType.beq : BsonType → BsonType → Bool
  | .string, .string | .int32, .int32 | .int64, .int64 | .double, .double | .boolean, .boolean
  | .dateTime, .dateTime | .null, .null | .binary, .binary | .objectId, .objectId => true
  | .document fields, .document others => fieldsBeq fields others
  | .array inner, .array other => inner.beq other
  | _, _ => false

def fieldsBeq : List (SchemaField BsonType) → List (SchemaField BsonType) → Bool
  | [], [] => true
  | ⟨name, bsonType, nullable⟩ :: fields, ⟨other, otherType, otherNullable⟩ :: others =>
      name == other && bsonType.beq otherType && nullable == otherNullable &&
        fieldsBeq fields others
  | _, _ => false

end

mutual

theorem BsonType.beq_iff : ∀ a b : BsonType, a.beq b = true ↔ a = b
  | .document fields, b => by
    cases b with
    | document others => simp [BsonType.beq, fieldsBeq_iff fields others]
    | _ => simp [BsonType.beq]
  | .array inner, b => by
    cases b with
    | array other => simp [BsonType.beq, BsonType.beq_iff inner other]
    | _ => simp [BsonType.beq]
  | .string, b | .int32, b | .int64, b | .double, b | .boolean, b | .dateTime, b | .null, b
  | .binary, b | .objectId, b => by cases b <;> simp [BsonType.beq]

theorem fieldsBeq_iff : ∀ fields others : List (SchemaField BsonType),
    fieldsBeq fields others = true ↔ fields = others
  | [], others => by cases others <;> simp [fieldsBeq]
  | ⟨name, bsonType, nullable⟩ :: fields, others => by
    cases others with
    | nil => simp [fieldsBeq]
    | cons other others =>
      obtain ⟨other, otherType, otherNullable⟩ := other
      simp [fieldsBeq, BsonType.beq_iff bsonType otherType, fieldsBeq_iff fields others, and_assoc]

end

instance decidableEqBsonType : DecidableEq BsonType := fun a b ↦
  decidable_of_iff (a.beq b = true) (BsonType.beq_iff a b)

/-! ## Widening -/

def widenTypes (a b : BsonType) : BsonType :=
  if a = b then a
  else
    match a, b with
    | .null, other | other, .null => other
    | .int32, .int64 | .int64, .int32 => .int64
    | .int32, .double | .double, .int32 | .int64, .double | .double, .int64 => .double
    | .array innerA, .array innerB => .array (widenTypes innerA innerB)
    | _, _ => .string

inductive Wider : BsonType → BsonType → Prop
  | refl (a : BsonType) : Wider a a
  | null (a : BsonType) : Wider .null a
  | string (a : BsonType) : Wider a .string
  | int32_int64 : Wider .int32 .int64
  | int32_double : Wider .int32 .double
  | int64_double : Wider .int64 .double
  | array {inner other : BsonType} : Wider inner other → Wider (.array inner) (.array other)

theorem Wider.trans {a b c : BsonType} (hab : Wider a b) (hbc : Wider b c) : Wider a c := by
  induction hab generalizing c with
  | refl a => exact hbc
  | null a => exact .null c
  | string a =>
    cases hbc with
    | refl => exact .string a
    | string => exact .string a
  | int32_int64 =>
    cases hbc with
    | refl => exact .int32_int64
    | string => exact .string _
    | int64_double => exact .int32_double
  | int32_double =>
    cases hbc with
    | refl => exact .int32_double
    | string => exact .string _
  | int64_double =>
    cases hbc with
    | refl => exact .int64_double
    | string => exact .string _
  | array hinner ih =>
    cases hbc with
    | refl => exact .array hinner
    | string => exact .string _
    | array hother => exact .array (ih hother)

theorem Wider.antisymm {a b : BsonType} (hab : Wider a b) (hba : Wider b a) : a = b := by
  induction hab with
  | refl a => rfl
  | array hinner ih =>
    cases hba with
    | refl => rfl
    | array hother => rw [ih hother]
  | _ => cases hba <;> rfl

theorem wider_widenTypes_left (a b : BsonType) : Wider a (widenTypes a b) := by
  fun_induction widenTypes a b with
  | case1 | case3 | case5 | case7 | case9 => exact .refl _
  | case2 => exact .null _
  | case4 => exact .int32_int64
  | case6 => exact .int32_double
  | case8 => exact .int64_double
  | case10 inner other _ ih => exact .array ih
  | case11 => exact .string _

theorem wider_widenTypes_right (a b : BsonType) : Wider b (widenTypes a b) := by
  fun_induction widenTypes a b with
  | case1 | case2 | case4 | case6 | case8 => exact .refl _
  | case3 => exact .null _
  | case5 => exact .int32_int64
  | case7 => exact .int32_double
  | case9 => exact .int64_double
  | case10 inner other _ ih => exact .array ih
  | case11 => exact .string _

/-- Widening gives the narrowest type that has the values of both. -/
theorem widenTypes_wider {a b c : BsonType} (ha : Wider a c) (hb : Wider b c) :
    Wider (widenTypes a b) c := by
  fun_induction widenTypes a b generalizing c with
  | case1 | case3 | case5 | case7 | case9 => exact ha
  | case2 | case4 | case6 | case8 => exact hb
  | case10 inner other hne ih =>
    cases ha with
    | refl =>
      cases hb with
      | refl => exact absurd rfl hne
      | array hother => exact .array (ih (.refl inner) hother)
    | string => exact .string _
    | array hinner =>
      cases hb with
      | refl => exact .array (ih hinner (.refl other))
      | array hother => exact .array (ih hinner hother)
  | case11 =>
    -- only text is wider than two types that have no arm
    cases ha <;> cases hb <;> simp_all [Wider.string]

instance semilatticeSupBsonType : SemilatticeSup BsonType where
  le := Wider
  le_refl := Wider.refl
  le_trans _ _ _ := Wider.trans
  le_antisymm _ _ := Wider.antisymm
  sup := widenTypes
  le_sup_left := wider_widenTypes_left
  le_sup_right := wider_widenTypes_right
  sup_le _ _ _ := widenTypes_wider

instance orderBotBsonType : OrderBot BsonType where
  bot := .null
  bot_le := Wider.null

instance orderTopBsonType : OrderTop BsonType where
  top := .string
  le_top := Wider.string

/-! ## Columns -/

/-- A way to widen the types of values two at a time. -/
inductive Grouping where
  | value (bsonType : BsonType)
  | widen (first second : Grouping)

def Grouping.values : Grouping → List BsonType
  | .value bsonType => [bsonType]
  | .widen first second => first.values ++ second.values

def Grouping.result : Grouping → BsonType
  | .value bsonType => bsonType
  | .widen first second => widenTypes first.result second.result

/-- Fold widening over the types of the values of a column. -/
def columnType (types : List BsonType) : BsonType := types.foldl widenTypes .null

theorem foldl_sup_eq (start : BsonType) (types : List BsonType) :
    types.foldl widenTypes start = start ⊔ columnType types := by
  induction types generalizing start with
  | nil => exact sup_bot_eq start |>.symm
  | cons first types ih =>
    have hfirst : columnType (first :: types) = (⊥ ⊔ first) ⊔ columnType types := ih (⊥ ⊔ first)
    calc
      types.foldl widenTypes (start ⊔ first) = (start ⊔ first) ⊔ columnType types := ih _
      _ = start ⊔ (first ⊔ columnType types) := sup_assoc start first _
      _ = start ⊔ columnType (first :: types) := by rw [hfirst, bot_sup_eq]

theorem columnType_append (types others : List BsonType) :
    columnType (types ++ others) = columnType types ⊔ columnType others := by
  rw [columnType, List.foldl_append]
  exact foldl_sup_eq (columnType types) others

/-- Any grouping gives the type of the column. -/
theorem Grouping.result_eq (grouping : Grouping) :
    grouping.result = columnType grouping.values := by
  induction grouping with
  | value bsonType => exact (bot_sup_eq bsonType).symm
  | widen first second ih ih' =>
    rw [values, columnType_append, ← ih, ← ih']
    rfl

theorem columnType_perm {types others : List BsonType} (h : types.Perm others) :
    columnType types = columnType others :=
  h.foldl_eq' (fun first _ second _ type ↦ sup_right_comm type first second) .null

/-- Widening is commutative, associative and idempotent, null is its neutral element, and text
absorbs the others, so a column has the same type in any order and grouping of its values. -/
theorem widenTypes_isJoin :
    (∀ a b, widenTypes a b = widenTypes b a) ∧
    (∀ a b c, widenTypes (widenTypes a b) c = widenTypes a (widenTypes b c)) ∧
    (∀ a, widenTypes a a = a) ∧
    (∀ a, widenTypes .null a = a ∧ widenTypes a .null = a) ∧
    (∀ a, widenTypes .string a = .string ∧ widenTypes a .string = .string) ∧
    (∀ first second : Grouping, first.values.Perm second.values →
      first.result = second.result) ∧
    ∀ (grouping : Grouping) (types : List BsonType), grouping.values.Perm types →
      types.foldl widenTypes .null = grouping.result := by
  refine ⟨sup_comm (α := BsonType), sup_assoc (α := BsonType), sup_idem (α := BsonType),
    fun a ↦ ⟨bot_sup_eq a, sup_bot_eq a⟩, fun a ↦ ⟨top_sup_eq a, sup_top_eq a⟩, ?_, ?_⟩
  · intro first second hperm
    rw [first.result_eq, second.result_eq, columnType_perm hperm]
  · intro grouping types hperm
    rw [grouping.result_eq, columnType_perm hperm]
    rfl

end MongoCore.Ingestion.Schema
