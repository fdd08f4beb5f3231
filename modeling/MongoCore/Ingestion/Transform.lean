import MongoCore.Library.ByteText
import MongoCore.Operations.Placeholders
import Mathlib.Algebra.Group.Int.Defs

/-!
# Transform expressions

An ingestion can transform its rows.  The transforms are texts such as `filter(age > 26)` or
`compute(profit, gross - budget)`, which are parsed and compiled to a plan before any row is read.

A parser returns an error for a text it does not accept.  It panics if it takes a slice that does
not exist, or indexes behind the end of its tokens.  The result `none` stands for a panic.
-/

namespace MongoCore.Ingestion.Transform

open MongoCore.Library.ByteText MongoCore.Operations.Placeholders
open String (utf8Len)

/-! ## Plans -/

inductive DataType where
  | string
  | int32
  | int64
  | float32
  | float64
  | boolean
  | date
  deriving DecidableEq, Repr

inductive Comparison where
  | gtEq
  | ltEq
  | notEq
  | eq
  | gt
  | lt
  deriving DecidableEq, Repr

/-- The operators of a computed column. -/
inductive Arithmetic where
  | add
  | sub
  | mul
  | div
  deriving DecidableEq, Repr

/-- A constant.  The floating-point numbers are a parameter. -/
inductive Literal (F : Type) where
  | int64 (value : ℤ)
  | float64 (value : F)
  | boolean (value : Bool)
  | string (value : List Char)
  deriving DecidableEq, Repr

inductive Expr (F : Type) where
  | col (name : List Char)
  | lit (value : Literal F)
  | arithmetic (op : Arithmetic) (left right : Expr F)
  | compare (op : Comparison) (left right : Expr F)
  | cast (input : Expr F) (dtype : DataType)
  | aliased (input : Expr F) (name : List Char)
  deriving DecidableEq, Repr

inductive TransformOp where
  | rename (existing new : List Char)
  | drop (columns : List (List Char))
  | filter (expr : List Char)
  | cast (column : List Char) (dtype : DataType)
  | select (columns : List (List Char))
  | compute (name expr : List Char)
  deriving DecidableEq, Repr

inductive PlanStep (F : Type) where
  | rename (existing new : List (List Char)) (strict : Bool)
  | drop (columns : List (List Char))
  | filter (predicate : Expr F)
  | withColumn (expr : Expr F)
  | select (exprs : List (Expr F))
  deriving DecidableEq, Repr

/-- A plan records what is to be done with the rows. -/
abbrev LazyFrame (F : Type) := List (PlanStep F)

/-! ## Numbers -/

/-- A text without its sign. -/
def unsigned : List Char → List Char
  | '+' :: text => text
  | '-' :: text => text
  | text => text

/-- The number that a text of digits writes. -/
def digitsValue (digits : List Char) : ℕ :=
  digits.foldl (fun value digit ↦ 10 * value + (digit.toNat - '0'.toNat)) 0

/-- A text of digits, with or without a sign, that writes a number of 64 bits. -/
def parseI64 (text : List Char) : Option ℤ :=
  let digits := unsigned text
  if digits.isEmpty || !digits.all Char.isDigit then none
  else
    let value : ℤ := if text.head? = some '-' then -digitsValue digits else digitsValue digits
    if -2 ^ 63 ≤ value ∧ value < 2 ^ 63 then some value else none

/-- Letters in lower case.  The texts this is compared with have only letters that are not the lower
case of a letter outside ASCII. -/
def lowercase (text : List Char) : List Char := text.map Char.toLower

/-- The exponent of a floating-point number, or nothing. -/
def isExponent : List Char → Bool
  | [] => true
  | c :: text => (c == 'e' || c == 'E') && !(unsigned text).isEmpty && (unsigned text).all Char.isDigit

/-- Digits with at most one point among them, and an exponent. -/
def isNumber (text : List Char) : Bool :=
  let whole := text.takeWhile Char.isDigit
  match text.dropWhile Char.isDigit with
  | '.' :: rest =>
      (!whole.isEmpty || !(rest.takeWhile Char.isDigit).isEmpty) &&
        isExponent (rest.dropWhile Char.isDigit)
  | rest => !whole.isEmpty && isExponent rest

/-- The texts that are read as a floating-point number. -/
def isF64 (text : List Char) : Bool :=
  isNumber (unsigned text) ||
    ["inf".toList, "infinity".toList, "nan".toList].contains (lowercase (unsigned text))

/-! ## Parsing -/

section

variable {F : Type} (toF64 : List Char → F)

/-- The floating-point number that a text writes. -/
def parseF64 (text : List Char) : Option F := if isF64 text then some (toF64 text) else none

/-- Split at the first comma. -/
def splitn2 (text : List Char) : List (List Char) :=
  match text.dropWhile (· ≠ ',') with
  | [] => [trim text]
  | _ :: rest => [trim (text.takeWhile (· ≠ ',')), trim rest]

/-- The names between the commas. -/
def splitColumns (text : List Char) : List (List Char) := (text.splitOn ',').map trim

def parsePolarsDtype (text : List Char) : Except String DataType :=
  let name := lowercase text
  if name ∈ ["string".toList, "str".toList, "utf8".toList] then .ok .string
  else if name ∈ ["int32".toList, "i32".toList] then .ok .int32
  else if name ∈ ["int64".toList, "i64".toList] then .ok .int64
  else if name ∈ ["float32".toList, "f32".toList] then .ok .float32
  else if name ∈ ["float64".toList, "f64".toList] then .ok .float64
  else if name ∈ ["boolean".toList, "bool".toList] then .ok .boolean
  else if name = "date".toList then .ok .date
  else
    let given := String.ofList text
    .error s!"Unknown data type: {given}"

/-- The transform of a function with the text between its parentheses. -/
def parseCall (func inner : List Char) : Except String TransformOp :=
  if func = "rename".toList then
    match splitn2 inner with
    | [existing, new] => .ok (.rename existing new)
    | _ => .error "rename requires exactly 2 arguments"
  else if func = "drop".toList then .ok (.drop (splitColumns inner))
  else if func = "filter".toList then .ok (.filter (trim inner))
  else if func = "cast".toList then
    match splitn2 inner with
    | [column, name] => (parsePolarsDtype name).map (.cast column)
    | _ => .error "cast requires exactly 2 arguments"
  else if func = "select".toList then .ok (.select (splitColumns inner))
  else if func = "compute".toList then
    match splitn2 inner with
    | [name, expr] => .ok (.compute name expr)
    | _ => .error ("compute requires 2 arguments: name, expression " ++
        "(e.g. compute(profit, DomesticGross + ForeignGross - Budget))")
  else
    let given := String.ofList func
    .error s!"Unknown transform function: {given}"

def parseExpression (text : List Char) : Option (Except String TransformOp) :=
  let expr := trim text
  let given := String.ofList expr
  match find ['('] expr with
  | none => some (.error s!"Invalid expression, missing '(': {given}")
  | some opening =>
      if [')'] <:+ expr then do
        let func ← sliceTo expr opening
        let inner ← slice expr (opening + 1) (utf8Len expr - 1)
        return parseCall func inner
      else some (.error s!"Invalid expression, missing closing ')': {given}")

def parseLiteral (text : List Char) : Option (Except String (Expr F)) :=
  match parseI64 text with
  | some value => some (.ok (.lit (.int64 value)))
  | none =>
      match parseF64 toF64 text with
      | some value => some (.ok (.lit (.float64 value)))
      | none =>
          if lowercase text = "true".toList then some (.ok (.lit (.boolean true)))
          else if lowercase text = "false".toList then some (.ok (.lit (.boolean false)))
          else if (['"'] <+: text ∧ ['"'] <:+ text) ∨ (['\''] <+: text ∧ ['\''] <:+ text) then do
            let inner ← slice text 1 (utf8Len text - 1)
            return .ok (.lit (.string inner))
          else some (.ok (.lit (.string text)))

/-- The operators in the order in which they are searched for. -/
def operators : List Comparison := [.gtEq, .ltEq, .notEq, .eq, .gt, .lt]

def Comparison.text : Comparison → List Char
  | .gtEq => ['>', '=']
  | .ltEq => ['<', '=']
  | .notEq => ['!', '=']
  | .eq => ['=', '=']
  | .gt => ['>']
  | .lt => ['<']

/-- The first operator of the list that occurs, and where. -/
def findOperator (expr : List Char) : Option (Comparison × ℕ) :=
  operators.findSome? fun op ↦ (find op.text expr).map (op, ·)

/-- Parse a filter such as `age > 26`. -/
def parseFilterExpr (expr : List Char) : Option (Except String (Expr F)) :=
  match findOperator expr with
  | none =>
      let given := String.ofList expr
      some (.error s!"No valid operator found in filter expression: {given}")
  | some (op, position) => do
      let column ← sliceTo expr position
      let value ← sliceFrom expr (position + utf8Len op.text)
      match ← parseLiteral toF64 (trim value) with
      | .error reason => return .error reason
      | .ok literal => return .ok (.compare op (.col (trim column)) literal)

/-- The bytes that separate the operands of a computed column. -/
def isOperatorByte (b : UInt8) : Bool := b == 43 || b == 45 || b == 42 || b == 47

/-- The token between two positions, none if there is nothing between them. -/
def pieceTokens (expr : List Char) (last i : ℕ) : Option (List (List Char)) :=
  if last < i then (slice expr last i).map ([trim ·]) else some []

/-- The loop over the bytes, with the position in the text, the position behind the last operator and
the tokens so far. -/
def tokenizeFrom (expr : List Char) :
    List UInt8 → ℕ → ℕ → List (List Char) → Option (ℕ × List (List Char))
  | [], _, last, tokens => some (last, tokens)
  | b :: rest, i, last, tokens =>
      if isOperatorByte b then do
        let pieces ← pieceTokens expr last i
        let op ← slice expr i (i + 1)
        tokenizeFrom expr rest (i + 1) (i + 1) (tokens ++ pieces ++ [op])
      else tokenizeFrom expr rest (i + 1) last tokens

/-- The operators of a text and what stands between them. -/
def tokenize (expr : List Char) : Option (List (List Char)) := do
  let (last, tokens) ← tokenizeFrom expr (bytes expr) 0 0 []
  let pieces ← pieceTokens expr last (utf8Len expr)
  return tokens ++ pieces

def tokenToExpr (token : List Char) : Expr F :=
  match parseF64 toF64 token with
  | some value => .lit (.float64 value)
  | none => .col token

def arithmeticOf (token : List Char) : Option Arithmetic :=
  if token = ['+'] then some .add
  else if token = ['-'] then some .sub
  else if token = ['*'] then some .mul
  else if token = ['/'] then some .div
  else none

/-- The loop over the tokens: an operator and an operand at a time. -/
def foldTokens (tokens : List (List Char)) (i : ℕ) (result : Expr F) :
    Option (Except String (Expr F)) :=
  if i < tokens.length - 1 then do
    let op ← tokens[i]?
    let token ← tokens[i + 1]?
    match arithmeticOf op with
    | none =>
        let given := String.ofList op
        return .error s!"Unknown operator in arithmetic expression: {given}"
    | some op => foldTokens tokens (i + 2) (.arithmetic op result (tokenToExpr toF64 token))
  else some (.ok result)
termination_by tokens.length - i

/-- Parse a computed column such as `A + B - C`. -/
def parseArithmeticExpr (text : List Char) : Option (Except String (Expr F)) := do
  let tokens ← tokenize (trim text)
  if tokens.isEmpty then return .error "Empty arithmetic expression"
  else
    let first ← tokens[0]?
    foldTokens toF64 tokens 1 (tokenToExpr toF64 first)

def compileTransform (op : TransformOp) (lf : LazyFrame F) :
    Option (Except String (LazyFrame F)) :=
  match op with
  | .rename existing new => some (.ok (lf ++ [.rename [existing] [new] true]))
  | .drop columns => some (.ok (lf ++ [.drop columns]))
  | .filter expr =>
      (parseFilterExpr toF64 expr).map fun parsed ↦
        parsed.map fun predicate ↦ lf ++ [.filter predicate]
  | .cast column dtype => some (.ok (lf ++ [.withColumn (.cast (.col column) dtype)]))
  | .select columns => some (.ok (lf ++ [.select (columns.map .col)]))
  | .compute name expr =>
      (parseArithmeticExpr toF64 expr).map fun parsed ↦
        parsed.map fun computed ↦ lf ++ [.withColumn (.aliased computed name)]

/-- Add a sequence of texts to a plan. -/
def applyExpressions : LazyFrame F → List (List Char) → Option (Except String (LazyFrame F))
  | lf, [] => some (.ok lf)
  | lf, text :: texts => do
      match ← parseExpression text with
      | .error reason => return .error reason
      | .ok op =>
          match ← compileTransform toF64 op lf with
          | .error reason => return .error reason
          | .ok lf => applyExpressions lf texts

end

end MongoCore.Ingestion.Transform
