import MongoCore.Data.Json
import MongoCore.Library.Rewriting
import MongoCore.Operations.Placeholders

/-!
# References between pipeline steps

A step of a transaction pipeline may mention the result of an earlier step as a placeholder, the
name of the step and a path into its result between double braces.  This module translates the
code that parses, extracts and resolves such references.

Text is scanned as a list of characters.  The compact text of a number, an array or an object is
the parameter `toText`, the serialiser of the JSON library.
-/

namespace MongoCore.Operations.PipelineRefs

open MongoCore.Data MongoCore.Library.Rewriting MongoCore.Operations.Placeholders

/-! ## Errors -/

/-- What can go wrong with a reference. -/
inductive RefError where
  | emptyReference
  | emptyStepName
  | emptyFieldName (reference : String)
  | unclosedBracket (reference : String)
  | invalidIndex (inside reference : String)
  | unexpectedCharacter (reference : String)
  | stepNotFound (name : String)
  | fieldNotFound (field reference : String)
  | fieldOfNonObject (field reference : String)
  | indexOutOfBounds (index : ℕ) (reference : String)
  | indexOfNonArray (reference : String)
  | wildcardOfNonArray (reference : String)
  deriving DecidableEq, Repr

def RefError.message : RefError → String
  | .emptyReference => "Empty reference"
  | .emptyStepName => "Empty step name in reference"
  | .emptyFieldName reference => s!"Empty field name in reference: {reference}"
  | .unclosedBracket reference => s!"Unclosed bracket in reference: {reference}"
  | .invalidIndex inside reference => s!"Invalid array index '{inside}' in reference: {reference}"
  | .unexpectedCharacter reference => s!"Unexpected character in reference: {reference}"
  | .stepNotFound name => s!"Step '{name}' not found in results"
  | .fieldNotFound field reference => s!"Field '{field}' not found in reference '{reference}'"
  | .fieldOfNonObject field reference =>
      s!"Cannot access field '{field}' on non-object value in reference '{reference}'"
  | .indexOutOfBounds index reference =>
      s!"Array index {index} out of bounds in reference '{reference}'"
  | .indexOfNonArray reference => s!"Cannot index non-array value in reference '{reference}'"
  | .wildcardOfNonArray reference =>
      s!"Cannot use wildcard on non-array value in reference '{reference}'"

/-- The errors of `parseReference`: the text is no reference at all. -/
def RefError.isUnparsable : RefError → Bool
  | .emptyReference | .emptyStepName | .emptyFieldName _ | .unclosedBracket _
  | .invalidIndex _ _ | .unexpectedCharacter _ => true
  | _ => false

/-- The error of a reference to a step that has no result. -/
def RefError.isUnknownStep : RefError → Bool
  | .stepNotFound _ => true
  | _ => false

/-! ## Parsing a reference -/

inductive PathSegment where
  | field (name : String)
  | index (position : ℕ)
  | wildcard
  deriving DecidableEq, Repr

/-- A dot or an opening bracket ends a step name and a field name. -/
def isNameEnd (c : Char) : Bool := c == '.' || c == '['

def digitValue (c : Char) : ℕ := c.toNat - '0'.toNat

/-- Parse an unsigned 64-bit integer: an optional plus sign, then decimal digits. -/
def parseUsize (text : List Char) : Option ℕ :=
  let digits := match text with
    | '+' :: rest => rest
    | _ => text
  if digits.isEmpty || !digits.all Char.isDigit then none
  else
    let value := digits.foldl (fun acc c ↦ 10 * acc + digitValue c) 0
    if value < 2 ^ 64 then some value else none

/-- Read the segments of a path, after passing over `skip` characters of a segment already read.
`reference` is the whole reference, for the errors. -/
def parseSegments (reference : String) : ℕ → List Char → Except RefError (List PathSegment)
  | _, [] => .ok []
  | skip + 1, _ :: rest => parseSegments reference skip rest
  | 0, c :: rest =>
      if c = '.' then
        let field := rest.takeWhile (fun c ↦ !isNameEnd c)
        if field.isEmpty then .error (.emptyFieldName reference)
        else do
          let segments ← parseSegments reference field.length rest
          pure (.field (String.ofList field) :: segments)
      else if c = '[' then
        if ']' ∈ rest then
          let inside := rest.takeWhile (· ≠ ']')
          if inside = ['*'] then do
            let segments ← parseSegments reference (inside.length + 1) rest
            pure (.wildcard :: segments)
          else match parseUsize inside with
            | none => .error (.invalidIndex (String.ofList inside) reference)
            | some position => do
                let segments ← parseSegments reference (inside.length + 1) rest
                pure (.index position :: segments)
        else .error (.unclosedBracket reference)
      else .error (.unexpectedCharacter reference)

/-- Split a reference into the name of a step and a path into its result. -/
def parseReference (reference : List Char) : Except RefError (String × List PathSegment) :=
  if reference.isEmpty then .error .emptyReference
  else
    let stepName := reference.takeWhile (fun c ↦ !isNameEnd c)
    if stepName.isEmpty then .error .emptyStepName
    else do
      let segments ← parseSegments (String.ofList reference) 0
        (reference.dropWhile (fun c ↦ !isNameEnd c))
      pure (String.ofList stepName, segments)

/-! ## Extraction -/

/-- Append the references captured in a text that are not in the list yet. -/
def extractFromText (text : String) (refs : List (List Char)) : List (List Char) :=
  (captures text.toList).foldl
    (fun refs group ↦ if trim group ∈ refs then refs else refs ++ [trim group]) refs

mutual

/-- Append the references of a value that are not in the list yet. -/
def extractRefsRecursive : Json → List (List Char) → List (List Char)
  | .string text, refs => extractFromText text refs
  | .array items, refs => extractRefsItems items refs
  | .object members, refs => extractRefsMembers members refs
  | _, refs => refs

/-- The loop over the items of an array. -/
def extractRefsItems : List Json → List (List Char) → List (List Char)
  | [], refs => refs
  | item :: items, refs => extractRefsItems items (extractRefsRecursive item refs)

/-- The loop over the members of an object; keys are not scanned. -/
def extractRefsMembers : List (String × Json) → List (List Char) → List (List Char)
  | [], refs => refs
  | (_, value) :: members, refs => extractRefsMembers members (extractRefsRecursive value refs)

end

/-- The references in a value, without repetitions. -/
def extractReferences (value : Json) : List (List Char) := extractRefsRecursive value []

/-! ## Resolution -/

/-- The results of the steps run so far, by step name. -/
abbrev Results := String → Option Json

def traversePath (reference : String) : List PathSegment → Json → Except RefError Json
  | [], value => .ok value
  | .field field :: remaining, value =>
      match value with
      | .array items =>
          -- the length of an array ends the path, whatever follows it
          if field = "length" then .ok (.number (.posInt items.length))
          else .error (.fieldOfNonObject field reference)
      | .object members =>
          match members.lookup field with
          | some member => traversePath reference remaining member
          | none => .error (.fieldNotFound field reference)
      | _ => .error (.fieldOfNonObject field reference)
  | .index position :: remaining, value =>
      match value with
      | .array items =>
          match items[position]? with
          | some item => traversePath reference remaining item
          | none => .error (.indexOutOfBounds position reference)
      | _ => .error (.indexOfNonArray reference)
  | .wildcard :: remaining, value =>
      match value with
      | .array items => do
          let results ← items.mapM (traversePath reference remaining)
          pure (.array results)
      | _ => .error (.wildcardOfNonArray reference)

def resolveSingleRef (results : Results) (reference : List Char) : Except RefError Json := do
  let (stepName, path) ← parseReference reference
  match results stepName with
  | none => .error (.stepNotFound stepName)
  | some stepResult => traversePath (String.ofList reference) path stepResult

section Resolution

variable (toText : Json → String) (results : Results)

/-- The text that stands for a value inside a longer string. -/
def interpolated : Json → List Char
  | .string text => text.toList
  | .null => "null".toList
  | other => (toText other).toList

/-- Replace the placeholders of a text one after the other, each in the text left by those
before it. -/
def interpolate : List (List Char) → List Char → Except RefError (List Char)
  | [], text => .ok text
  | group :: groups, text => do
      let resolved ← resolveSingleRef results (trim group)
      interpolate groups (replaceAll (placeholder group) (interpolated toText resolved) text)

def resolveString (text : String) : Except RefError Json :=
  match wholeReference? text.toList with
  | some inner => resolveSingleRef results (trim inner)
  | none => do
      let result ← interpolate toText results (captures text.toList) text.toList
      pure (.string (String.ofList result))

mutual

def resolveValue : Json → Except RefError Json
  | .string text => resolveString toText results text
  | .array items => do
      let resolved ← resolveItems items
      pure (.array resolved)
  | .object members => do
      let resolved ← resolveMembers members
      pure (.object resolved)
  | other => .ok other

def resolveItems : List Json → Except RefError (List Json)
  | [] => .ok []
  | item :: items => do
      let resolved ← resolveValue item
      let rest ← resolveItems items
      pure (resolved :: rest)

/-- Resolve the members of an object in order, under the same keys. -/
def resolveMembers : List (String × Json) → Except RefError (List (String × Json))
  | [] => .ok []
  | (key, value) :: members => do
      let resolved ← resolveValue value
      let rest ← resolveMembers members
      pure ((key, resolved) :: rest)

end

/-- Resolve all references of a value with the results so far. -/
def resolveReferences (value : Json) : Except RefError Json := resolveValue toText results value

end Resolution

end MongoCore.Operations.PipelineRefs
