import Mathlib.Data.Setoid.Basic
import MongoCore.Mcp.Codegen

/-!
# Members of generated models

For the fields of a collection the server writes a data model in one of four languages.  The name
of a member is that of its field in the case of the language: snake case in Python, Pascal case in
Go, camel case in TypeScript and Java.

The conversions lose information, and nothing keeps the members of two fields apart that are then
named alike.  What a conversion forgets is stated as steps between the names of fields: dropping a
separator, capitalizing a word, and so on.  Two fields share a member exactly if a chain of these
steps links their names, so the members of a model are distinct exactly if no two fields are
linked.
-/

namespace MongoCore.Mcp.ModelMembers

open MongoCore.Mcp.Codegen

/-! ## Cases of a name -/

/-- The characters between the words of a name. -/
def isSeparator (c : Char) : Bool := c == '_' || c == '-' || c == ' '

/-- The case mappings of characters, and what the conversions depend on: both mappings give some
characters, those are not mapped further, and separators are not made by them. -/
structure Casing where
  toUppercase : Char → List Char
  toLowercase : Char → List Char
  isUppercase : Char → Bool
  toUppercase_ne_nil : ∀ c, toUppercase c ≠ []
  toLowercase_ne_nil : ∀ c, toLowercase c ≠ []
  toUppercase_of_mem : ∀ c, ∀ d ∈ toUppercase c, toUppercase d = [d]
  toLowercase_of_mem : ∀ c, ∀ d ∈ toLowercase c, toLowercase d = [d]
  toLowercase_of_isUppercase : ∀ c, ∀ d ∈ toLowercase c, isUppercase d = true → d = c
  isSeparator_of_mem_toUppercase :
    ∀ c, isSeparator c = false → ∀ d ∈ toUppercase c, isSeparator d = false
  isSeparator_of_mem_toLowercase :
    ∀ c, isSeparator c = false → ∀ d ∈ toLowercase c, isSeparator d = false
  isUppercase_underscore : isUppercase '_' = false
  toLowercase_underscore : toLowercase '_' = ['_']

variable (casing : Casing)

/-- The first character in lowercase, which is the only one unless `c` becomes several. -/
def Casing.lower (c : Char) : Char := ((casing.toLowercase c).head?).getD c

def capitalizeWord : List Char → List Char
  | [] => []
  | first :: rest => casing.toUppercase first ++ rest

def toPascalCase (name : String) : String :=
  String.ofList (((name.toList.splitOnP isSeparator).filter fun word ↦ !word.isEmpty).flatMap
    (capitalizeWord casing))

/-- Insert an underscore before uppercase letters, and convert to lowercase. -/
def toSnakeCase (name : String) : String :=
  String.ofList (name.toList.zipIdx.flatMap fun (c, i) ↦
    (if casing.isUppercase c = true ∧ i > 0 then ['_'] else []) ++ [casing.lower c])

/-- Pascal case with the first character in lowercase. -/
def toCamelCase (name : String) : String :=
  match (toPascalCase casing name).toList with
  | [] => ""
  | first :: rest => String.ofList (casing.toLowercase first ++ rest)

/-! ## Models -/

/-- A member of a model, with the text around its name. -/
structure Member where
  before : String
  name : String
  after : String

def Member.text (member : Member) : String := member.before ++ member.name ++ member.after

def bsonToPythonType (bsonType : String) : String :=
  match bsonType with
  | "String" | "ObjectId" => "str"
  | "Int32" | "Int64" => "int"
  | "Double" => "float"
  | "Boolean" => "bool"
  | "DateTime" => "datetime"
  | "Array" => "list"
  | "Document" => "dict"
  | _ => "str"

def bsonToTypescriptType (bsonType : String) : String :=
  match bsonType with
  | "String" | "ObjectId" => "string"
  | "Int32" | "Int64" | "Double" => "number"
  | "Boolean" => "boolean"
  | "DateTime" => "Date"
  | "Array" => "unknown[]"
  | "Document" => "Record<string, unknown>"
  | _ => "string"

def bsonToGoType (bsonType : String) : String :=
  match bsonType with
  | "String" | "ObjectId" => "string"
  | "Int32" => "int32"
  | "Int64" => "int64"
  | "Double" => "float64"
  | "Boolean" => "bool"
  | "DateTime" => "time.Time"
  | "Array" => "[]interface\x7b\x7d"
  | "Document" => "bson.M"
  | _ => "string"

def bsonToJavaType (bsonType : String) : String :=
  match bsonType with
  | "String" | "ObjectId" => "String"
  | "Int32" => "Integer"
  | "Int64" => "Long"
  | "Double" => "Double"
  | "Boolean" => "Boolean"
  | "DateTime" => "Instant"
  | "Array" => "List<Object>"
  | "Document" => "Map<String, Object>"
  | _ => "String"

/-- The member of a field, which is given by its name and its type. -/
def pythonMember (field : String × String) : Member :=
  if field.1 = "_id" then
    ⟨"    ", toSnakeCase casing field.1,
      ": Optional[" ++ bsonToPythonType field.2 ++ "] = Field(None, alias=\"_id\")\n"⟩
  else ⟨"    ", toSnakeCase casing field.1, ": " ++ bsonToPythonType field.2 ++ "\n"⟩

def typescriptMember (field : String × String) : Member :=
  ⟨"  ", toCamelCase casing field.1, ": " ++ bsonToTypescriptType field.2 ++ ";\n"⟩

def goMember (field : String × String) : Member :=
  ⟨"\t", toPascalCase casing field.1, " " ++ bsonToGoType field.2 ++ " \x60bson:\"" ++ field.1 ++
    "\" json:\"" ++ field.1 ++ "\"\x60\n"⟩

def javaMember (field : String × String) : Member :=
  ⟨bsonToJavaType field.2 ++ " ", toCamelCase casing field.1, ""⟩

def pushMembers (result : String) (members : List Member) : String :=
  members.foldl (fun result member ↦ result ++ member.text) result

def pythonImports (fields : List (String × String)) : List String :=
  let hasId := fields.any fun field ↦ field.1 == "_id"
  let hasDatetime := fields.any fun field ↦ field.2 == "DateTime"
  ["from pydantic import BaseModel"] ++ (if hasId then ["from typing import Optional"] else []) ++
    (if hasId then ["from pydantic import Field"] else []) ++
    (if hasDatetime then ["from datetime import datetime"] else [])

def generatePythonModel (structName : String) (fields : List (String × String)) : String :=
  let result := "\n".intercalate (pythonImports fields) ++ "\n\n\n" ++
    ("class " ++ structName ++ "(BaseModel):\n")
  if fields.isEmpty then result ++ "    pass\n"
  else pushMembers result (fields.map (pythonMember casing))

def generateTypescriptModel (structName : String) (fields : List (String × String)) : String :=
  let result := "interface " ++ structName ++ " \x7b\n"
  if fields.isEmpty then result ++ "\x7d\n"
  else pushMembers result (fields.map (typescriptMember casing)) ++ "\x7d\n"

def generateGoModel (structName : String) (fields : List (String × String)) : String :=
  let result := "type " ++ structName ++ " struct \x7b\n"
  if fields.isEmpty then result ++ "\x7d\n"
  else pushMembers result (fields.map (goMember casing)) ++ "\x7d\n"

def generateJavaModel (structName : String) (fields : List (String × String)) : String :=
  if fields.isEmpty then "public record " ++ structName ++ "() \x7b\x7d\n"
  else "public record " ++ structName ++ "(" ++
    ", ".intercalate ((fields.map (javaMember casing)).map Member.text) ++ ") \x7b\x7d\n"

def generateModel (language : Language) (collectionName : String)
    (fields : List (String × String)) : String :=
  let structName := toPascalCase casing collectionName
  match language with
  | .python => generatePythonModel casing structName fields
  | .typeScript => generateTypescriptModel casing structName fields
  | .go => generateGoModel casing structName fields
  | .java => generateJavaModel casing structName fields

def member (language : Language) (field : String × String) : Member :=
  match language with
  | .python => pythonMember casing field
  | .typeScript => typescriptMember casing field
  | .go => goMember casing field
  | .java => javaMember casing field

def heading (language : Language) (structName : String) (fields : List (String × String)) :
    String :=
  match language with
  | .python => "\n".intercalate (pythonImports fields) ++ "\n\n\n" ++
      ("class " ++ structName ++ "(BaseModel):\n")
  | .typeScript => "interface " ++ structName ++ " \x7b\n"
  | .go => "type " ++ structName ++ " struct \x7b\n"
  | .java => "public record " ++ structName ++ "("

def memberSeparator : Language → String
  | .java => ", "
  | _ => ""

def ending (language : Language) (fields : List (String × String)) : String :=
  match language with
  | .python => if fields.isEmpty then "    pass\n" else ""
  | .typeScript | .go => "\x7d\n"
  | .java => ") \x7b\x7d\n"

theorem empty_intercalate_cons (text : String) (texts : List String) :
    "".intercalate (text :: texts) = text ++ "".intercalate texts := by
  cases texts with
  | nil => rw [String.intercalate_singleton, String.intercalate_nil, String.append_empty]
  | cons => rw [String.intercalate_cons_cons, String.append_empty]

theorem pushMembers_eq (result : String) (members : List Member) :
    pushMembers result members = result ++ "".intercalate (members.map Member.text) := by
  induction members generalizing result with
  | nil => exact String.append_empty.symm
  | cons member members ih =>
    rw [List.map_cons, empty_intercalate_cons, ← String.append_assoc]
    exact ih (result ++ member.text)

/-- A model without members ends as the others do. -/
theorem ite_pushMembers (memberOf : String × String → Member) (fields : List (String × String))
    (result ending : String) :
    (if fields.isEmpty then result ++ ending
      else pushMembers result (fields.map memberOf) ++ ending) =
        result ++ "".intercalate ((fields.map memberOf).map Member.text) ++ ending := by
  split
  case isTrue h =>
    obtain rfl := List.isEmpty_iff.mp h
    rw [List.map_nil, List.map_nil, String.intercalate_nil, String.append_empty]
  case isFalse => rw [pushMembers_eq]

/-- A model is made of the members of its fields. -/
theorem generateModel_eq (language : Language) (collectionName : String)
    (fields : List (String × String)) :
    generateModel casing language collectionName fields =
      heading language (toPascalCase casing collectionName) fields ++
        (memberSeparator language).intercalate
          ((fields.map (member casing language)).map Member.text) ++ ending language fields := by
  cases language with
  | python =>
    unfold generateModel generatePythonModel heading memberSeparator ending
    dsimp only
    split
    case isTrue h =>
      obtain rfl := List.isEmpty_iff.mp h
      rw [List.map_nil, List.map_nil, String.intercalate_nil, String.append_empty]
    case isFalse =>
      rw [pushMembers_eq, String.append_empty]
      rfl
  | typeScript => exact ite_pushMembers (typescriptMember casing) fields _ "\x7d\n"
  | go => exact ite_pushMembers (goMember casing) fields _ "\x7d\n"
  | java =>
    unfold generateModel generateJavaModel heading memberSeparator ending
    dsimp only
    split
    case isTrue h =>
      have hparentheses : "() \x7b\x7d\n" = "(" ++ ") \x7b\x7d\n" := rfl
      obtain rfl := List.isEmpty_iff.mp h
      rw [List.map_nil, List.map_nil, String.intercalate_nil, String.append_empty, hparentheses,
        ← String.append_assoc]
    case isFalse => rfl

/-! ## Links between names -/

/-- Names with one value are those that are linked by steps, if a step keeps the value, and names
with one value are linked. -/
theorem eq_iff_eqvGen {α β : Type*} {step : α → α → Prop} {value : α → β}
    (hstep : ∀ first second, step first second → value first = value second)
    (hlinked : ∀ first second, value first = value second → Relation.EqvGen step first second)
    (first second : α) :
    value first = value second ↔ Relation.EqvGen step first second :=
  ⟨hlinked first second, fun h ↦ Setoid.eqvGen_le (s := Setoid.ker value) hstep h⟩

section PascalCase

/-- What the Pascal case of a name does not depend on: a separator after which there is no letter to
capitalize, and the case of the first letter of a word. -/
inductive PascalStep : List Char → List Char → Prop
  | separator (front back : List Char) (s : Char) : isSeparator s = true →
      (∀ c ∈ back.head?, isSeparator c = true ∨ casing.toUppercase c = [c]) →
      PascalStep (front ++ s :: back) (front ++ back)
  | capital (front back : List Char) (c : Char) : (∀ s ∈ front.getLast?, isSeparator s = true) →
      isSeparator c = false →
      PascalStep (front ++ c :: back) (front ++ casing.toUppercase c ++ back)

/-- The Pascal case of the rest of a name, with or without a word to start. -/
def pascalFrom : Bool → List Char → List Char
  | _, [] => []
  | start, c :: rest =>
      if isSeparator c then pascalFrom true rest
      else (if start then casing.toUppercase c else [c]) ++ pascalFrom false rest

/-- The next character starts a word. -/
def startsAfter (start : Bool) (front : List Char) : Bool :=
  (front.getLast?.map isSeparator).getD start

variable {casing}

theorem pascalFrom_cons_separator (start : Bool) {c : Char} (hc : isSeparator c = true)
    (rest : List Char) : pascalFrom casing start (c :: rest) = pascalFrom casing true rest :=
  if_pos hc

theorem pascalFrom_true_cons {c : Char} (hc : isSeparator c = false) (rest : List Char) :
    pascalFrom casing true (c :: rest) = casing.toUppercase c ++ pascalFrom casing false rest := by
  rw [pascalFrom, hc]
  rfl

theorem pascalFrom_false_cons {c : Char} (hc : isSeparator c = false) (rest : List Char) :
    pascalFrom casing false (c :: rest) = c :: pascalFrom casing false rest := by
  rw [pascalFrom, hc]
  rfl

theorem startsAfter_cons (start : Bool) (c : Char) (front : List Char) :
    startsAfter start (c :: front) = startsAfter (isSeparator c) front := by
  rw [startsAfter, List.getLast?_cons]
  unfold startsAfter
  cases front.getLast? <;> rfl

theorem pascalFrom_append (start : Bool) (front back : List Char) :
    pascalFrom casing start (front ++ back) =
      pascalFrom casing start front ++ pascalFrom casing (startsAfter start front) back := by
  induction front generalizing start with
  | nil => rfl
  | cons c front ih =>
    rw [startsAfter_cons, List.cons_append, pascalFrom, pascalFrom]
    cases hc : isSeparator c with
    | true => exact ih true
    | false =>
      simp only [Bool.false_eq_true, if_false, ih false, List.append_assoc]

/-- Letters in the middle of a word stay as they are. -/
theorem pascalFrom_false_letters {letters : List Char}
    (hletters : ∀ c ∈ letters, isSeparator c = false) (back : List Char) :
    pascalFrom casing false (letters ++ back) = letters ++ pascalFrom casing false back := by
  induction letters with
  | nil => rfl
  | cons c letters ih =>
    rw [List.forall_mem_cons] at hletters
    rw [List.cons_append, pascalFrom_false_cons hletters.1, ih hletters.2]
    rfl

theorem pascalFrom_eq_splitOnP (text : List Char) :
    pascalFrom casing true text = (text.splitOnP isSeparator).flatMap (capitalizeWord casing) ∧
      pascalFrom casing false text = (text.splitOnP isSeparator).headD [] ++
        (text.splitOnP isSeparator).tail.flatMap (capitalizeWord casing) := by
  induction text with
  | nil => exact ⟨rfl, rfl⟩
  | cons c text ih =>
    rw [List.splitOnP_cons_eq_if_modifyHead]
    cases hc : isSeparator c with
    | true =>
      rw [pascalFrom_cons_separator true hc, pascalFrom_cons_separator false hc, ih.1]
      exact ⟨rfl, rfl⟩
    | false =>
      have hwords := List.splitOnP_ne_nil isSeparator text
      rw [pascalFrom_true_cons hc, pascalFrom_false_cons hc, ih.2]
      cases hsplit : text.splitOnP isSeparator with
      | nil => exact absurd hsplit hwords
      | cons word words =>
        exact ⟨(List.append_assoc (casing.toUppercase c) word _).symm, rfl⟩

theorem flatMap_filter_capitalizeWord (words : List (List Char)) :
    (words.filter fun word ↦ !word.isEmpty).flatMap (capitalizeWord casing) =
      words.flatMap (capitalizeWord casing) := by
  induction words with
  | nil => rfl
  | cons word words ih =>
    cases word with
    | nil => exact ih
    | cons c word => exact congrArg (capitalizeWord casing (c :: word) ++ ·) ih

theorem toList_toPascalCase (name : String) :
    (toPascalCase casing name).toList = pascalFrom casing true name.toList := by
  rw [toPascalCase, String.toList_ofList, flatMap_filter_capitalizeWord]
  exact (pascalFrom_eq_splitOnP name.toList).1.symm

/-- What is written for a letter starts with one that is not capitalized further. -/
theorem Casing.exists_toUppercase_eq (casing : Casing) (c : Char) :
    ∃ first rest, casing.toUppercase c = first :: rest ∧ casing.toUppercase first = [first] := by
  obtain ⟨first, rest, hupper⟩ := List.exists_cons_of_ne_nil (casing.toUppercase_ne_nil c)
  refine ⟨first, rest, hupper, casing.toUppercase_of_mem c first ?_⟩
  rw [hupper]
  exact List.mem_cons_self

/-- The letters of a word in uppercase start it as the word does. -/
theorem pascalFrom_true_toUppercase {c : Char} (hc : isSeparator c = false) (back : List Char) :
    pascalFrom casing true (casing.toUppercase c ++ back) = pascalFrom casing true (c :: back) := by
  have hletters := casing.isSeparator_of_mem_toUppercase c hc
  obtain ⟨first, rest, hupper, hfirst⟩ := casing.exists_toUppercase_eq c
  rw [pascalFrom_true_cons hc]
  rw [hupper] at hletters ⊢
  rw [List.forall_mem_cons] at hletters
  rw [List.cons_append, pascalFrom_true_cons hletters.1, hfirst,
    pascalFrom_false_letters hletters.2]
  rfl

/-- A step keeps the Pascal case. -/
theorem PascalStep.pascalFrom_eq {first second : List Char} (h : PascalStep casing first second) :
    pascalFrom casing true first = pascalFrom casing true second := by
  cases h with
  | separator front back s hs hback =>
    rw [pascalFrom_append, pascalFrom_append, pascalFrom_cons_separator _ hs]
    congr 1
    cases back with
    | nil => rfl
    | cons c back =>
      cases hc : isSeparator c with
      | true => rw [pascalFrom_cons_separator _ hc, pascalFrom_cons_separator _ hc]
      | false =>
        have hupper : casing.toUppercase c = [c] :=
          (hback c rfl).resolve_left (by rw [hc]; exact Bool.false_ne_true)
        rw [pascalFrom, pascalFrom, hc, hupper]
        cases startsAfter true front <;> rfl
  | capital front back c hfront hc =>
    have hstart : startsAfter true front = true := by
      unfold startsAfter
      cases hlast : front.getLast? with
      | none => rfl
      | some s => exact hfront s hlast
    rw [List.append_assoc, pascalFrom_append, pascalFrom_append, hstart,
      pascalFrom_true_toUppercase hc]

theorem startsAfter_concat (start : Bool) (front : List Char) (c : Char) :
    startsAfter start (front ++ [c]) = isSeparator c := by
  rw [startsAfter, List.getLast?_concat]
  rfl

theorem startsAfter_append_letters (start : Bool) (front : List Char) {letters : List Char}
    (hsome : letters ≠ []) (hletters : ∀ c ∈ letters, isSeparator c = false) :
    startsAfter start (front ++ letters) = false := by
  rw [startsAfter, List.getLast?_append, List.getLast?_eq_some_getLast hsome]
  exact hletters _ (List.getLast_mem hsome)

/-- The Pascal case of a name starts with a letter that is not capitalized further. -/
theorem toUppercase_of_mem_head_pascalFrom (rest : List Char) {c : Char}
    (hc : c ∈ (pascalFrom casing true rest).head?) : casing.toUppercase c = [c] := by
  induction rest with
  | nil => cases hc
  | cons d rest ih =>
    cases hd : isSeparator d with
    | true =>
      rw [pascalFrom_cons_separator true hd] at hc
      exact ih hc
    | false =>
      obtain ⟨first, others, hupper, hfirst⟩ := casing.exists_toUppercase_eq d
      rw [pascalFrom_true_cons hd, hupper] at hc
      obtain rfl := Option.some.inj hc
      exact hfirst

theorem separator_of_startsAfter {front : List Char} (h : startsAfter true front = true) :
    ∀ s ∈ front.getLast?, isSeparator s = true := by
  intro s hs
  rw [startsAfter, hs] at h
  exact h

/-- The steps link a name to its Pascal case: from the left, they drop its separators and capitalize
its words. -/
theorem eqvGen_pascalFrom (front rest : List Char) :
    Relation.EqvGen (PascalStep casing) (front ++ rest)
      (front ++ pascalFrom casing (startsAfter true front) rest) := by
  induction rest generalizing front with
  | nil => exact .refl _
  | cons c rest ih =>
    cases hc : isSeparator c with
    | true =>
      have hrest := ih (front ++ [c])
      rw [startsAfter_concat, hc, List.append_assoc, List.append_assoc] at hrest
      rw [pascalFrom_cons_separator _ hc]
      exact .trans _ _ _ hrest (.rel _ _ (.separator front _ c hc
        fun d hd ↦ .inr (toUppercase_of_mem_head_pascalFrom rest hd)))
    | false =>
      cases hstart : startsAfter true front with
      | true =>
        have hrest := ih (front ++ casing.toUppercase c)
        rw [startsAfter_append_letters true front (casing.toUppercase_ne_nil c)
          (casing.isSeparator_of_mem_toUppercase c hc), List.append_assoc front _ (pascalFrom _ _ _),
          ← pascalFrom_true_cons hc] at hrest
        exact .trans _ _ _
          (.rel _ _ (.capital front rest c (separator_of_startsAfter hstart) hc)) hrest
      | false =>
        have hrest := ih (front ++ [c])
        rw [startsAfter_concat, hc, List.append_assoc, List.append_assoc] at hrest
        rw [pascalFrom_false_cons hc]
        exact hrest

theorem pascalFrom_eq_iff (first second : List Char) :
    pascalFrom casing true first = pascalFrom casing true second ↔
      Relation.EqvGen (PascalStep casing) first second := by
  refine eq_iff_eqvGen (fun _ _ h ↦ h.pascalFrom_eq) (fun first second h ↦ ?_) first second
  have hpascal : ∀ name : List Char,
      Relation.EqvGen (PascalStep casing) name (pascalFrom casing true name) :=
    eqvGen_pascalFrom []
  exact .trans _ _ _ (hpascal first) (.symm _ _ (h ▸ hpascal second))

end PascalCase

section CamelCase

/-- What the camel case of a name does not depend on: what its Pascal case does not depend on, and
the case of the first letter, for letters of which the lowercase of one starts that of the other. -/
inductive CamelStep : List Char → List Char → Prop
  | pascal {first second : List Char} : PascalStep casing first second → CamelStep first second
  | first (c d : Char) (letters back : List Char) :
      isSeparator c = false → isSeparator d = false →
      casing.toUppercase c = [c] → casing.toUppercase d = [d] →
      casing.toLowercase c = casing.toLowercase d ++ letters →
      CamelStep (c :: back) (d :: letters ++ back)

/-- The first character in lowercase. -/
def uncapitalize : List Char → List Char
  | [] => []
  | first :: rest => casing.toLowercase first ++ rest

def camel (name : List Char) : List Char := uncapitalize casing (pascalFrom casing true name)

variable {casing}

theorem toList_toCamelCase (name : String) :
    (toCamelCase casing name).toList = camel casing name.toList := by
  rw [toCamelCase, camel, ← toList_toPascalCase]
  cases (toPascalCase casing name).toList with
  | nil => rfl
  | cons first rest => exact String.toList_ofList

/-- A step keeps the camel case. -/
theorem CamelStep.camel_eq {first second : List Char} (h : CamelStep casing first second) :
    camel casing first = camel casing second := by
  cases h with
  | pascal h => rw [camel, h.pascalFrom_eq, camel]
  | first c d letters back hc hd hupperc hupperd hlower =>
    have hletters : ∀ l ∈ letters, isSeparator l = false := fun l hl ↦
      casing.isSeparator_of_mem_toLowercase c hc l (hlower ▸ List.mem_append_right _ hl)
    rw [camel, camel, List.cons_append, pascalFrom_true_cons hc, pascalFrom_true_cons hd, hupperc,
      hupperd, pascalFrom_false_letters hletters]
    calc
      casing.toLowercase c ++ pascalFrom casing false back =
          casing.toLowercase d ++ letters ++ pascalFrom casing false back := by rw [hlower]
      _ = casing.toLowercase d ++ (letters ++ pascalFrom casing false back) :=
        List.append_assoc _ _ _

theorem isSeparator_of_mem_pascalFrom {start : Bool} {rest : List Char} {c : Char}
    (hc : c ∈ pascalFrom casing start rest) : isSeparator c = false := by
  induction rest generalizing start with
  | nil => cases hc
  | cons d rest ih =>
    cases hd : isSeparator d with
    | true =>
      rw [pascalFrom_cons_separator _ hd] at hc
      exact ih hc
    | false =>
      cases start with
      | true =>
        rw [pascalFrom_true_cons hd] at hc
        exact (List.mem_append.mp hc).elim (casing.isSeparator_of_mem_toUppercase d hd c) ih
      | false =>
        rw [pascalFrom_false_cons hd] at hc
        rcases List.mem_cons.mp hc with rfl | hc
        · exact hd
        · exact ih hc

/-- The first letter of a name in Pascal case. -/
theorem first_of_pascalFrom_eq {name rest : List Char} {c : Char}
    (h : pascalFrom casing true name = c :: rest) :
    isSeparator c = false ∧ casing.toUppercase c = [c] := by
  have hmem : c ∈ pascalFrom casing true name := h ▸ List.mem_cons_self
  have hhead : c ∈ (pascalFrom casing true name).head? := by
    rw [h]
    rfl
  exact ⟨isSeparator_of_mem_pascalFrom hmem, toUppercase_of_mem_head_pascalFrom name hhead⟩

theorem camel_eq_iff (first second : List Char) :
    camel casing first = camel casing second ↔
      Relation.EqvGen (CamelStep casing) first second := by
  refine eq_iff_eqvGen (fun _ _ h ↦ h.camel_eq) (fun first second h ↦ ?_) first second
  have hpascal : ∀ name : List Char,
      Relation.EqvGen (CamelStep casing) name (pascalFrom casing true name) := fun name ↦
    Relation.EqvGen.mono (fun _ _ h ↦ .pascal h) _ _ (eqvGen_pascalFrom [] name)
  refine .trans _ _ _ (hpascal first) (.trans _ _ _ ?_ (.symm _ _ (hpascal second)))
  cases hfirst : pascalFrom casing true first with
  | nil =>
    cases hsecond : pascalFrom casing true second with
    | nil => exact .refl []
    | cons d others =>
      rw [camel, camel, hfirst, hsecond] at h
      exact absurd (List.append_eq_nil_iff.mp h.symm).1 (casing.toLowercase_ne_nil d)
  | cons c rest =>
    cases hsecond : pascalFrom casing true second with
    | nil =>
      rw [camel, camel, hfirst, hsecond] at h
      exact absurd (List.append_eq_nil_iff.mp h).1 (casing.toLowercase_ne_nil c)
    | cons d others =>
      obtain ⟨hc, hupperc⟩ := first_of_pascalFrom_eq hfirst
      obtain ⟨hd, hupperd⟩ := first_of_pascalFrom_eq hsecond
      rw [camel, camel, hfirst, hsecond] at h
      rcases List.append_eq_append_iff.mp h with ⟨letters, hlower, rfl⟩ | ⟨letters, hlower, rfl⟩
      · exact .symm _ _ (.rel _ _ (.first d c letters others hd hc hupperd hupperc hlower))
      · exact .rel _ _ (.first c d letters rest hc hd hupperc hupperd hlower)

end CamelCase

section SnakeCase

/-- What the snake case of a name does not depend on: the case of the first letter, the mapping of
a letter that is not uppercase, and whether an inner letter is uppercase or follows an underscore.
Uppercase letters without a lowercase are left out. -/
inductive SnakeStep : List Char → List Char → Prop
  | first (c : Char) (back : List Char) : SnakeStep (c :: back) (casing.lower c :: back)
  | inner (front back : List Char) (c : Char) : casing.isUppercase c = false →
      SnakeStep (front ++ c :: back) (front ++ casing.lower c :: back)
  | underscore (front back : List Char) (c : Char) : front ≠ [] → casing.isUppercase c = true →
      casing.isUppercase (casing.lower c) = false →
      SnakeStep (front ++ c :: back) (front ++ '_' :: casing.lower c :: back)

/-- The snake case of what follows the first character of a name. -/
def snakeRest (rest : List Char) : List Char :=
  rest.flatMap fun c ↦ (if casing.isUppercase c then ['_'] else []) ++ [casing.lower c]

def snake : List Char → List Char
  | [] => []
  | c :: rest => casing.lower c :: snakeRest casing rest

/-- The text with the same snake case in which no step is left to make. -/
def snakeNormal (rest : List Char) : List Char :=
  rest.flatMap fun c ↦
    (if casing.isUppercase c = true ∧ casing.isUppercase (casing.lower c) = false then ['_']
      else []) ++ [casing.lower c]

/-- Take the underscores away that stand before uppercase letters. -/
def dropUnderscores : List Char → List Char
  | [] => []
  | c :: rest =>
      if c = '_' ∧ (rest.head?.any casing.isUppercase) = true then dropUnderscores rest
      else c :: dropUnderscores rest

theorem snakeRest_zipIdx (rest : List Char) (k : ℕ) :
    ((rest.zipIdx (k + 1)).flatMap fun (c, i) ↦
      (if casing.isUppercase c = true ∧ i > 0 then ['_'] else []) ++ [casing.lower c]) =
        snakeRest casing rest := by
  induction rest generalizing k with
  | nil => rfl
  | cons c rest ih =>
    rw [List.zipIdx_cons, List.flatMap_cons, ih (k + 1)]
    simp [snakeRest]

theorem toList_toSnakeCase (name : String) :
    (toSnakeCase casing name).toList = snake casing name.toList := by
  rw [toSnakeCase, String.toList_ofList]
  cases name.toList with
  | nil => rfl
  | cons c rest =>
    rw [List.zipIdx_cons, List.flatMap_cons, snakeRest_zipIdx]
    simp [snake]

variable {casing}

theorem Casing.lower_mem (casing : Casing) (c : Char) : casing.lower c ∈ casing.toLowercase c := by
  unfold Casing.lower
  cases hlower : casing.toLowercase c with
  | nil => exact absurd hlower (casing.toLowercase_ne_nil c)
  | cons d rest => exact List.mem_cons_self

@[simp] theorem Casing.lower_lower (casing : Casing) (c : Char) :
    casing.lower (casing.lower c) = casing.lower c := by
  have hlower := casing.toLowercase_of_mem c (casing.lower c) (casing.lower_mem c)
  rw [Casing.lower, hlower]
  rfl

theorem Casing.lower_eq_self (casing : Casing) {c : Char}
    (h : casing.isUppercase (casing.lower c) = true) : casing.lower c = c :=
  casing.toLowercase_of_isUppercase c (casing.lower c) (casing.lower_mem c) h

/-- A letter that is not uppercase does not become one. -/
theorem Casing.isUppercase_lower (casing : Casing) {c : Char} (h : casing.isUppercase c = false) :
    casing.isUppercase (casing.lower c) = false := by
  cases hlower : casing.isUppercase (casing.lower c) with
  | false => rfl
  | true =>
    rw [casing.lower_eq_self hlower, h] at hlower
    exact hlower.symm

@[simp] theorem Casing.lower_underscore (casing : Casing) : casing.lower '_' = '_' := by
  rw [Casing.lower, casing.toLowercase_underscore]
  rfl

theorem snakeRest_cons (c : Char) (rest : List Char) : snakeRest casing (c :: rest) =
    (if casing.isUppercase c then ['_'] else []) ++ casing.lower c :: snakeRest casing rest := by
  rw [snakeRest, List.flatMap_cons, List.append_assoc]
  rfl

theorem snakeNormal_cons (c : Char) (rest : List Char) : snakeNormal casing (c :: rest) =
    (if casing.isUppercase c = true ∧ casing.isUppercase (casing.lower c) = false then ['_']
      else []) ++ casing.lower c :: snakeNormal casing rest := by
  rw [snakeNormal, List.flatMap_cons, List.append_assoc]
  rfl

/-- A step keeps the snake case. -/
theorem SnakeStep.snake_eq {first second : List Char} (h : SnakeStep casing first second) :
    snake casing first = snake casing second := by
  cases h with
  | first c back => simp [snake]
  | inner front back c hc =>
    cases front with
    | nil => simp [snake]
    | cons d front =>
      have hrest : snakeRest casing (c :: back) = snakeRest casing (casing.lower c :: back) := by
        simp [snakeRest_cons, hc, casing.isUppercase_lower hc]
      simp only [List.cons_append, snake, snakeRest, List.flatMap_append] at hrest ⊢
      rw [hrest]
  | underscore front back c hfront hc hlower =>
    cases front with
    | nil => exact absurd rfl hfront
    | cons d front =>
      have hrest : snakeRest casing (c :: back) =
          snakeRest casing ('_' :: casing.lower c :: back) := by
        simp [snakeRest_cons, hc, hlower, casing.isUppercase_underscore]
      simp only [List.cons_append, snake, snakeRest, List.flatMap_append] at hrest ⊢
      rw [hrest]

/-- No uppercase letter comes first, as an underscore is inserted before it. -/
theorem head_snakeRest (rest : List Char) :
    (snakeRest casing rest).head?.any casing.isUppercase = false := by
  cases rest with
  | nil => rfl
  | cons c rest =>
    rw [snakeRest_cons]
    cases hc : casing.isUppercase c with
    | true => exact casing.isUppercase_underscore
    | false => exact casing.isUppercase_lower hc

theorem dropUnderscores_cons {rest : List Char} (c : Char)
    (h : rest.head?.any casing.isUppercase = false) :
    dropUnderscores casing (c :: rest) = c :: dropUnderscores casing rest := by
  rw [dropUnderscores, if_neg fun hdrop ↦ Bool.false_ne_true (h.symm.trans hdrop.2)]

/-- The normal form of a name is read off its snake case. -/
theorem dropUnderscores_snakeRest (rest : List Char) :
    dropUnderscores casing (snakeRest casing rest) = snakeNormal casing rest := by
  induction rest with
  | nil => rfl
  | cons c rest ih =>
    have hletter : dropUnderscores casing (casing.lower c :: snakeRest casing rest) =
        casing.lower c :: snakeNormal casing rest := by
      rw [dropUnderscores_cons _ (head_snakeRest rest), ih]
    rw [snakeRest_cons, snakeNormal_cons]
    cases hc : casing.isUppercase c with
    | false => simpa using hletter
    | true =>
      cases hlower : casing.isUppercase (casing.lower c) with
      | false =>
        have hkept : dropUnderscores casing ('_' :: casing.lower c :: snakeRest casing rest) =
            '_' :: dropUnderscores casing (casing.lower c :: snakeRest casing rest) :=
          dropUnderscores_cons '_' hlower
        simpa [hletter] using hkept
      | true =>
        have hdropped : dropUnderscores casing ('_' :: casing.lower c :: snakeRest casing rest) =
            dropUnderscores casing (casing.lower c :: snakeRest casing rest) :=
          if_pos ⟨rfl, hlower⟩
        simpa [hletter] using hdropped

/-- The steps link what follows the first character of a name to its normal form. -/
theorem eqvGen_snakeNormal {front : List Char} (hfront : front ≠ []) (rest : List Char) :
    Relation.EqvGen (SnakeStep casing) (front ++ rest) (front ++ snakeNormal casing rest) := by
  induction rest generalizing front with
  | nil => exact .refl _
  | cons c rest ih =>
    have hrest := ih (List.append_ne_nil_of_left_ne_nil hfront [casing.lower c])
    rw [List.append_assoc, List.append_assoc] at hrest
    rw [snakeNormal_cons]
    cases hc : casing.isUppercase c with
    | false => simpa using .trans _ _ _ (.rel _ _ (.inner front rest c hc)) hrest
    | true =>
      cases hlower : casing.isUppercase (casing.lower c) with
      | false =>
        have hinner := ih (List.append_ne_nil_of_left_ne_nil hfront ['_', casing.lower c])
        rw [List.append_assoc, List.append_assoc] at hinner
        simpa using .trans _ _ _ (.rel _ _ (.underscore front rest c hfront hc hlower)) hinner
      | true =>
        rw [casing.lower_eq_self hlower] at hrest ⊢
        simpa using hrest

theorem snake_eq_iff (first second : List Char) :
    snake casing first = snake casing second ↔
      Relation.EqvGen (SnakeStep casing) first second := by
  refine eq_iff_eqvGen (fun _ _ h ↦ h.snake_eq) (fun first second h ↦ ?_) first second
  have hnormal : ∀ (c : Char) (rest : List Char), Relation.EqvGen (SnakeStep casing) (c :: rest)
      (casing.lower c :: snakeNormal casing rest) := fun c rest ↦
    .trans _ _ _ (.rel _ _ (.first c rest)) (eqvGen_snakeNormal (List.cons_ne_nil _ []) rest)
  cases first with
  | nil =>
    cases second with
    | nil => exact .refl []
    | cons d others => exact absurd h.symm (List.cons_ne_nil _ _)
  | cons c rest =>
    cases second with
    | nil => exact absurd h (List.cons_ne_nil _ _)
    | cons d others =>
      obtain ⟨hletter, hrest⟩ := List.cons.inj h
      have hequal := congrArg (dropUnderscores casing) hrest
      rw [dropUnderscores_snakeRest, dropUnderscores_snakeRest] at hequal
      have hfirst := hnormal c rest
      rw [hletter, hequal] at hfirst
      exact .trans _ _ _ hfirst (.symm _ _ (hnormal d others))

end SnakeCase

/-! ## Distinct members -/

def memberNames (language : Language) (fields : List (String × String)) : List String :=
  (fields.map (member casing language)).map Member.name

/-- What the case of the language does not tell apart: steps link the two names. -/
def Alike (language : Language) (first second : String) : Prop :=
  match language with
  | .python => Relation.EqvGen (SnakeStep casing) first.toList second.toList
  | .typeScript | .java => Relation.EqvGen (CamelStep casing) first.toList second.toList
  | .go => Relation.EqvGen (PascalStep casing) first.toList second.toList

def memberName (language : Language) (name : String) : String :=
  match language with
  | .python => toSnakeCase casing name
  | .typeScript | .java => toCamelCase casing name
  | .go => toPascalCase casing name

theorem name_member (language : Language) (field : String × String) :
    (member casing language field).name = memberName casing language field.1 := by
  cases language with
  | python =>
    change (pythonMember casing field).name = _
    unfold pythonMember
    split <;> rfl
  | typeScript => rw [member, typescriptMember, memberName]
  | go => rw [member, goMember, memberName]
  | java => rw [member, javaMember, memberName]

/-- Two names are given the same member exactly if they are alike. -/
theorem memberName_eq_iff (language : Language) (first second : String) :
    memberName casing language first = memberName casing language second ↔
      Alike casing language first second := by
  rw [← String.toList_inj]
  cases language with
  | python =>
    simp only [memberName, toList_toSnakeCase]
    exact snake_eq_iff first.toList second.toList
  | typeScript | java =>
    simp only [memberName, toList_toCamelCase]
    exact camel_eq_iff first.toList second.toList
  | go =>
    simp only [memberName, toList_toPascalCase]
    exact pascalFrom_eq_iff first.toList second.toList

/-- The members of a model are distinct exactly if no two fields have names that are alike in the
language. -/
theorem nodup_memberNames_iff (language : Language) (fields : List (String × String)) :
    (memberNames casing language fields).Nodup ↔
      fields.Pairwise fun first second ↦ ¬ Alike casing language first.1 second.1 := by
  rw [memberNames, List.map_map, List.Nodup, List.pairwise_map]
  refine List.Pairwise.iff fun first second ↦ not_congr ?_
  rw [Function.comp_apply, Function.comp_apply, name_member, name_member]
  exact memberName_eq_iff casing language first.1 second.1

/-! ## A collection with two spellings of a name -/

theorem toNat_toUpper (c : Char) :
    c.toUpper.toNat = if 97 ≤ c.toNat ∧ c.toNat ≤ 122 then c.toNat - 32 else c.toNat := by
  unfold Char.toUpper
  simp only [UInt32.le_iff_toNat_le]
  split
  case isTrue h =>
    have hrange : 97 ≤ c.toNat ∧ c.toNat ≤ 122 := h
    have hoffset : ('A'.val - 'a'.val).toNat = 2 ^ 32 - 32 := rfl
    rw [Char.toNat_mk, UInt32.toNat_add, if_pos hrange, Char.toNat_val, hoffset]
    omega
  case isFalse h => exact (if_neg h).symm

theorem toNat_toLower (c : Char) :
    c.toLower.toNat = if 65 ≤ c.toNat ∧ c.toNat ≤ 90 then c.toNat + 32 else c.toNat := by
  unfold Char.toLower
  simp only [ge_iff_le, UInt32.le_iff_toNat_le]
  split
  case isTrue h =>
    have hrange : 65 ≤ c.toNat ∧ c.toNat ≤ 90 := h
    have hoffset : ('a'.val - 'A'.val).toNat = 32 := rfl
    rw [Char.toNat_mk, UInt32.toNat_add, if_pos hrange, Char.toNat_val, hoffset]
    omega
  case isFalse h => exact (if_neg h).symm

theorem isSeparator_eq_false_iff (c : Char) :
    isSeparator c = false ↔ c.toNat ≠ 95 ∧ c.toNat ≠ 45 ∧ c.toNat ≠ 32 := by
  simp [isSeparator, ← Char.toNat_inj, and_assoc]

def asciiCasing : Casing where
  toUppercase c := [c.toUpper]
  toLowercase c := [c.toLower]
  isUppercase c := 65 ≤ c.toNat ∧ c.toNat ≤ 90
  toUppercase_ne_nil _ := List.cons_ne_nil _ _
  toLowercase_ne_nil _ := List.cons_ne_nil _ _
  toUppercase_of_mem c d hd := by
    obtain rfl := List.mem_singleton.mp hd
    rw [List.singleton_inj, ← Char.toNat_inj, toNat_toUpper, toNat_toUpper]
    grind
  toLowercase_of_mem c d hd := by
    obtain rfl := List.mem_singleton.mp hd
    rw [List.singleton_inj, ← Char.toNat_inj, toNat_toLower, toNat_toLower]
    grind
  toLowercase_of_isUppercase c d hd hupper := by
    obtain rfl := List.mem_singleton.mp hd
    have hrange := of_decide_eq_true hupper
    rw [toNat_toLower] at hrange
    rw [← Char.toNat_inj, toNat_toLower]
    split at hrange <;> omega
  isSeparator_of_mem_toUppercase c hc d hd := by
    obtain rfl := List.mem_singleton.mp hd
    rw [isSeparator_eq_false_iff] at hc ⊢
    rw [toNat_toUpper]
    split <;> omega
  isSeparator_of_mem_toLowercase c hc d hd := by
    obtain rfl := List.mem_singleton.mp hd
    rw [isSeparator_eq_false_iff] at hc ⊢
    rw [toNat_toLower]
    split <;> omega
  isUppercase_underscore := rfl
  toLowercase_underscore := rfl

/-- A collection whose documents spell a name in two ways. -/
def twoSpellings : List (String × String) := [("user_name", "String"), ("userName", "String")]

/-- The fields `user_name` and `userName` share their member in every language. -/
theorem not_nodup_memberNames_twoSpellings :
    (twoSpellings.map Prod.fst).Nodup ∧
      ¬ (memberNames asciiCasing .python twoSpellings).Nodup ∧
      ¬ (memberNames asciiCasing .typeScript twoSpellings).Nodup ∧
      ¬ (memberNames asciiCasing .go twoSpellings).Nodup ∧
      ¬ (memberNames asciiCasing .java twoSpellings).Nodup := by
  decide +kernel

end MongoCore.Mcp.ModelMembers
