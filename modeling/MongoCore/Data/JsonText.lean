import Mathlib.Data.List.Basic
import MongoCore.Data.Serde
import MongoCore.Library.Escapes
import MongoCore.Library.Tokens

/-!
# The text of a JSON value

A value is printed on several lines, with an indentation of two blanks for each level.  The text is
kept in pieces: marks, quoted texts, words and the layout between them.

The text is read in two steps.  The first one finds the words, marks and quoted texts; the second
one builds the value.  Languages that have such texts among their expressions differ in the words
they know, in the escapes, in their numbers and in what a member of an object may be called.
-/

namespace MongoCore.Data

open MongoCore.Library.Escapes MongoCore.Library.Tokens

/-! ## Statements about all of a value -/

namespace Json

variable (node : Json → Prop) (name : String → Prop)

mutual

/-- A property of every value inside a value and of every name of a member. -/
def Every : Json → Prop
  | .array items => node (.array items) ∧ EveryItem items
  | .object members => node (.object members) ∧ EveryMember members
  | value => node value

def EveryItem : List Json → Prop
  | [] => True
  | item :: items => Every item ∧ EveryItem items

def EveryMember : List (String × Json) → Prop
  | [] => True
  | (key, value) :: members => (name key ∧ Every value) ∧ EveryMember members

end

variable {node name}

theorem everyItem_iff {items : List Json} :
    EveryItem node name items ↔ ∀ item ∈ items, item.Every node name := by
  induction items with
  | nil => simp [EveryItem]
  | cons item items ih => rw [EveryItem, ih, List.forall_mem_cons]

theorem everyMember_iff {members : List (String × Json)} :
    EveryMember node name members ↔
      ∀ entry ∈ members, name entry.1 ∧ entry.2.Every node name := by
  induction members with
  | nil => simp [EveryMember]
  | cons entry members ih =>
    obtain ⟨key, value⟩ := entry
    rw [EveryMember, ih, List.forall_mem_cons]

theorem every_array {items : List Json} :
    (array items).Every node name ↔
      node (.array items) ∧ ∀ item ∈ items, item.Every node name := by
  rw [Every, everyItem_iff]

theorem every_object {members : List (String × Json)} :
    (object members).Every node name ↔
      node (.object members) ∧ ∀ entry ∈ members, name entry.1 ∧ entry.2.Every node name := by
  rw [Every, everyMember_iff]

/-- Properties that agree on the values inside a value. -/
theorem every_congr {valid node node' : Json → Prop} {name name' : String → Prop} {value : Json}
    (hvalid : value.Every valid fun _ ↦ True)
    (hnode : ∀ inner, valid inner → (node inner ↔ node' inner))
    (hname : ∀ key, name key ↔ name' key) :
    value.Every node name ↔ value.Every node' name' := by
  induction value using Json.induction with
  | null => exact hnode _ hvalid
  | bool value => exact hnode _ hvalid
  | number value => exact hnode _ hvalid
  | string value => exact hnode _ hvalid
  | array items ih =>
    rw [every_array] at hvalid
    rw [every_array, every_array, hnode _ hvalid.1]
    exact and_congr_right fun _ ↦
      forall₂_congr fun item hitem ↦ ih item hitem (hvalid.2 item hitem)
  | object members ih =>
    rw [every_object] at hvalid
    rw [every_object, every_object, hnode _ hvalid.1]
    exact and_congr_right fun _ ↦ forall₂_congr fun entry hentry ↦
      and_congr (hname entry.1) (ih entry hentry (hvalid.2 entry hentry).2)

end Json

/-! ## Printing -/

def Number.Valid : Number → Prop
  | .posInt value => value < 2 ^ 64
  | .negInt value => -(2 ^ 63) ≤ value ∧ value < 0
  | .float bits => isFinite bits = true

def Json.Valid (value : Json) : Prop :=
  value.Every (fun inner ↦ ∀ number, inner = .number number → number.Valid) fun _ ↦ True

/-- The decimal texts of doubles: how one is printed, and what a text stands for. -/
structure FloatText where
  print : UInt64 → List Char
  read : List Char → Option UInt64

def isWordChar (c : Char) : Bool := c.isAlphanum || c = '.' || c = '+' || c = '-' || c = '_'

/-- A character that makes a number a double. -/
def isFloatMark (c : Char) : Bool := c = '.' || c = 'e' || c = 'E'

def isLayout (c : Char) : Bool := c = ' ' || c = '\n' || c = '\t' || c = '\r'

/-- A character that opens, parts or closes values. -/
def isMark (c : Char) : Bool :=
  c = '[' || c = ']' || c = '\x7b' || c = '\x7d' || c = ',' || c = ':'

/-- The text of a double is a number with a point or an exponent, and it is read as the double. -/
structure FloatText.Laws (floats : FloatText) : Prop where
  read_print : ∀ bits, isFinite bits = true → floats.read (floats.print bits) = some bits
  isWordChar_print : ∀ bits, isFinite bits = true → ∀ c ∈ floats.print bits, isWordChar c = true
  marked_print : ∀ bits, isFinite bits = true → (floats.print bits).any isFloatMark = true
  head_print : ∀ bits, isFinite bits = true → ∀ c ∈ (floats.print bits).head?, c.isAlpha = false

inductive TextPiece where
  | mark (c : Char)
  | text (value : List Char)
  | word (chars : List Char)
  | blank (chars : List Char)
  deriving DecidableEq

def hexDigit (value : ℕ) : Char := Nat.digitChar value

/-- A character inside quotes. -/
def escapeChar (c : Char) : List Char :=
  if c = '"' then ['\\', '"']
  else if c = '\\' then ['\\', '\\']
  else if c = '\x08' then ['\\', 'b']
  else if c = '\x0c' then ['\\', 'f']
  else if c = '\n' then ['\\', 'n']
  else if c = '\r' then ['\\', 'r']
  else if c = '\t' then ['\\', 't']
  else if c.toNat < 0x20 then
    ['\\', 'u', '0', '0', hexDigit (c.toNat / 16), hexDigit (c.toNat % 16)]
  else [c]

section Printing

variable (floats : FloatText)

def numberText : Number → List Char
  | .posInt value => Nat.toDigits 10 value
  | .negInt value => '-' :: Nat.toDigits 10 value.natAbs
  | .float bits => floats.print bits

/-- The end of a line, with the indentation of the next one. -/
def line (level : ℕ) : TextPiece := .blank ('\n' :: List.replicate (2 * level) ' ')

mutual

def pieces (level : ℕ) : Json → List TextPiece
  | .null => [.word ['n', 'u', 'l', 'l']]
  | .bool true => [.word ['t', 'r', 'u', 'e']]
  | .bool false => [.word ['f', 'a', 'l', 's', 'e']]
  | .number value => [.word (numberText floats value)]
  | .string value => [.text value.toList]
  | .array [] => [.mark '[', .mark ']']
  | .array (item :: items) =>
      .mark '[' :: line (level + 1) :: (pieces (level + 1) item ++ itemPieces level items)
  | .object [] => [.mark '\x7b', .mark '\x7d']
  | .object ((key, value) :: members) =>
      .mark '\x7b' :: line (level + 1) :: .text key.toList :: .mark ':' :: .blank [' '] ::
        (pieces (level + 1) value ++ memberPieces level members)

def itemPieces (level : ℕ) : List Json → List TextPiece
  | [] => [line level, .mark ']']
  | item :: items =>
      .mark ',' :: line (level + 1) :: (pieces (level + 1) item ++ itemPieces level items)

def memberPieces (level : ℕ) : List (String × Json) → List TextPiece
  | [] => [line level, .mark '\x7d']
  | (key, value) :: members =>
      .mark ',' :: line (level + 1) :: .text key.toList :: .mark ':' :: .blank [' '] ::
        (pieces (level + 1) value ++ memberPieces level members)

end

end Printing

def TextPiece.solid : TextPiece → Bool
  | .blank _ => false
  | .mark _ | .text _ | .word _ => true

/-- A piece as it is written, given the characters of the layout and of quoted texts. -/
def TextPiece.written (layout : Char → Char) (content : Char → List Char) : TextPiece → List Char
  | .mark c => [c]
  | .text value => '"' :: (value.flatMap content ++ ['"'])
  | .word chars => chars
  | .blank chars => chars.map layout

def render (layout : Char → Char) (content : Char → List Char) (parts : List TextPiece) :
    List Char :=
  parts.flatMap (TextPiece.written layout content)

def prettyText (floats : FloatText) (value : Json) : List Char :=
  render id escapeChar (pieces floats 0 value)

/-! ## Reading -/

/-- The marks, words and quoted texts of a text, behind a number of characters that have been read
already. -/
def lex (quoted : QuotedSyntax) : ℕ → List Char → Option (List TextPiece)
  | _, [] => some []
  | passed + 1, _ :: rest => lex quoted passed rest
  | 0, c :: rest =>
      if isLayout c then lex quoted 0 rest
      else if isMark c then (lex quoted 0 rest).map (.mark c :: ·)
      else if isWordChar c then
        (lex quoted (rest.takeWhile isWordChar).length rest).map
          (.word (c :: rest.takeWhile isWordChar) :: ·)
      else if c = '"' then
        match quoted.readQuoted 0 rest with
        | some (value, after) =>
            (lex quoted (rest.length - after.length) rest).map (.text value :: ·)
        | none => none
      else none

/-- How a language reads such texts: its quoted texts, the values of its words, what it makes of a
natural number, and the names that a member may have. -/
structure Dialect where
  quoted : QuotedSyntax
  word : List Char → Option Json
  natural : ℕ → ℕ
  own : String → Bool

section Reading

variable (floats : FloatText) (dialect : Dialect)

/-- The value of a text of digits.  No other zero starts with a zero. -/
def readNatural (digits : List Char) : Option ℕ :=
  let value := Nat.ofDigitChars 10 digits 0
  if Nat.toDigits 10 value = digits then some value else none

/-- The number that a natural number with a sign stands for. -/
def negative (value : ℕ) : Number := if value = 0 then .posInt 0 else .negInt (-(value : ℤ))

def readNumber (chars : List Char) : Option Number :=
  if chars.any isFloatMark then (floats.read chars).map .float
  else if chars.head? = some '-' then
    (readNatural chars.tail).map fun value ↦ negative (dialect.natural value)
  else (readNatural chars).map fun value ↦ .posInt (dialect.natural value)

def readWord (chars : List Char) : Option Json :=
  if chars.head?.any Char.isAlpha then dialect.word chars
  else (readNumber floats dialect chars).map .number

mutual

/-- Read a value; what follows it is left. -/
def readValue : ℕ → List TextPiece → Option (Json × List TextPiece)
  | 0, _ => none
  | fuel + 1, parts =>
      match parts with
      | .word chars :: rest => (readWord floats dialect chars).map fun value ↦ (value, rest)
      | .text value :: rest => some (.string (String.ofList value), rest)
      | .mark '[' :: .mark ']' :: rest => some (.array [], rest)
      | .mark '[' :: rest => (readItems fuel rest).map fun read ↦ (.array read.1, read.2)
      | .mark '\x7b' :: .mark '\x7d' :: rest => some (.object [], rest)
      | .mark '\x7b' :: rest => (readMembers fuel rest).map fun read ↦
          (.object (read.1.filter fun entry ↦ dialect.own entry.1), read.2)
      | _ => none

def readItems : ℕ → List TextPiece → Option (List Json × List TextPiece)
  | 0, _ => none
  | fuel + 1, parts =>
      match readValue fuel parts with
      | some (item, .mark ']' :: rest) => some ([item], rest)
      | some (item, .mark ',' :: rest) =>
          (readItems fuel rest).map fun read ↦ (item :: read.1, read.2)
      | _ => none

def readMembers : ℕ → List TextPiece → Option (List (String × Json) × List TextPiece)
  | 0, _ => none
  | fuel + 1, parts =>
      match parts with
      | .text key :: .mark ':' :: rest =>
          match readValue fuel rest with
          | some (value, .mark '\x7d' :: rest) => some ([(String.ofList key, value)], rest)
          | some (value, .mark ',' :: rest) => (readMembers fuel rest).map fun read ↦
              ((String.ofList key, value) :: read.1, read.2)
          | _ => none
      | _ => none

end

def readText (text : List Char) : Option Json :=
  match lex dialect.quoted 0 text with
  | some parts =>
      match readValue floats dialect parts.length parts with
      | some (value, []) => some value
      | _ => none
  | none => none

end Reading

end MongoCore.Data
