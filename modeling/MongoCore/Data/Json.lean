import Mathlib.Algebra.Group.Int.Defs
import Mathlib.Algebra.GroupWithZero.Nat
import Mathlib.Data.Int.Notation
import Mathlib.Data.List.Basic

/-!
# JSON values

The JSON tree that requests carry into the server and that step results are kept in.  An object
is the list of its members in iteration order; the maps behind it keep their keys distinct, so
looking a member up by the first matching key reads the only one.

Strings stay opaque here.  The modules that scan text work on their characters.
-/

namespace MongoCore.Data

/-- The three representations of a JSON number: unsigned, negative, and floating point by its
bits. -/
inductive Number where
  | posInt (value : ℕ)
  | negInt (value : ℤ)
  | float (bits : UInt64)
  deriving DecidableEq, Repr

inductive Json where
  | null
  | bool (value : Bool)
  | number (value : Number)
  | string (value : String)
  | array (items : List Json)
  | object (members : List (String × Json))
  deriving Repr

namespace Json

/-- Induction over a JSON tree, with one hypothesis for every item or member. -/
@[elab_as_elim]
theorem induction {motive : Json → Prop}
    (null : motive .null)
    (bool : ∀ value, motive (.bool value))
    (number : ∀ value, motive (.number value))
    (string : ∀ value, motive (.string value))
    (array : ∀ items, (∀ item ∈ items, motive item) → motive (.array items))
    (object : ∀ members, (∀ entry ∈ members, motive entry.2) → motive (.object members)) :
    ∀ value, motive value := by
  intro value
  refine @Json.rec motive (fun items ↦ ∀ item ∈ items, motive item)
    (fun members ↦ ∀ entry ∈ members, motive entry.2) (fun entry ↦ motive entry.2)
    null bool number string array object ?_ ?_ ?_ ?_ ?_ value
  · simp
  · intro head tail hhead htail
    simpa using ⟨hhead, htail⟩
  · simp
  · intro head tail hhead htail entry hentry
    rcases List.mem_cons.mp hentry with rfl | hentry
    · exact hhead
    · exact htail entry hentry
  · intro key value hvalue
    exact hvalue

/-! ## Accessors -/

/-- The value of a member of an object; `none` for a missing member and for any other value. -/
def get? : Json → String → Option Json
  | .object members, key => members.lookup key
  | _, _ => none

def asArray? : Json → Option (List Json)
  | .array items => some items
  | _ => none

def asStr? : Json → Option String
  | .string value => some value
  | _ => none

/-- The value of a number that fits an unsigned 64-bit integer. -/
def asU64? : Json → Option ℕ
  | .number (.posInt value) => some value
  | _ => none

/-- The value of a number that fits a signed 64-bit integer. -/
def asI64? : Json → Option ℤ
  | .number (.posInt value) => if value < 2 ^ 63 then some value else none
  | .number (.negInt value) => some value
  | _ => none

def asBool? : Json → Option Bool
  | .bool value => some value
  | _ => none

def isObject : Json → Bool
  | .object _ => true
  | _ => false

end Json

/-- Names with different numbers differ. -/
theorem numbered_injective (label : String) :
    Function.Injective fun n : ℕ ↦ label ++ toString n := by
  intro a b h
  have hdigits := congrArg String.toList h
  simp only [toString, String.toList_append, List.append_cancel_left_eq,
    Nat.toList_repr] at hdigits
  have hvalue := congrArg (fun digits ↦ Nat.ofDigitChars 10 digits 0) hdigits
  simpa using hvalue

end MongoCore.Data
