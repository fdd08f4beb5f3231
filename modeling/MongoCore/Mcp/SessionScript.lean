import Mathlib.Data.List.Basic
import Mathlib.Logic.Function.Basic
import MongoCore.Mcp.Codegen

/-!
# Scripts of a session

The operations of a session are written as one script: a function for each operation, and a main
function that calls them in order.  The function of an operation that failed and its call are
comments.  The main function takes the names it calls from the tool and the collection, with a
number for a repetition, and writes them in the case of the language.  The generators name the
functions in their own way.

The main result says for which sessions and languages the two agree: every function that is called
is defined once, by the operation that it is called for.
-/

namespace MongoCore.Mcp.SessionScript

open MongoCore.Data MongoCore.Mcp.Codegen

structure OperationRecord where
  toolName : String
  params : Json
  success : Bool
  errorMessage : Option String

def makeFunctionName (toolName : String) (params : Json) : String :=
  let coll := strParam params "collection" "docs"
  s!"{toolName}_{coll}"

/-- The code of an operation: a function, or a text in its place if none could be generated. -/
inductive Code where
  | function (generated : GeneratedFunction)
  | plain (text : String)

def Code.text : Code → String
  | .function generated => generated.text
  | .plain text => text

structure ScriptFunction where
  name : String
  docstring : String
  code : Code
  success : Bool
  errorMessage : Option String

section Script

variable (printing : Printing) (language : Language)

def codeOf (operation : OperationRecord) : Code :=
  match generateSingleOperationCode printing language operation.toolName operation.params with
  | .ok generated => .function generated
  | .error error =>
      if operation.success then .plain s!"# Error generating code: {error}\npass\n"
      else .plain "pass\n"

/-- A name with the number of its occurrence, from the second on. -/
def numbered (base : String) (count : ℕ) : String :=
  if count > 1 then s!"{base}_{count}" else base

/-- What the script has for an operation whose name occurs for the given time. -/
def scriptFunction (operation : OperationRecord) (count : ℕ) : ScriptFunction :=
  let db := strParam operation.params "database" "mydb"
  let coll := strParam operation.params "collection" "docs"
  { name := numbered (makeFunctionName operation.toolName operation.params) count
    docstring := s!"{operation.toolName} on {coll} in {db}"
    code := codeOf printing language operation
    success := operation.success
    errorMessage :=
      if operation.success then none else some (operation.errorMessage.getD "Unknown error") }

/-- The functions of the script, given how often each name has occurred. -/
def scriptFunctions : (String → ℕ) → List OperationRecord → List ScriptFunction
  | _, [] => []
  | counts, operation :: operations =>
      let base := makeFunctionName operation.toolName operation.params
      let count := counts base + 1
      scriptFunction printing language operation count ::
        scriptFunctions (Function.update counts base count) operations

def sessionFunctions (operations : List OperationRecord) : List ScriptFunction :=
  scriptFunctions printing language (fun _ ↦ 0) operations

/-- A name in camel case: its parts between underscores, capitalized from the second on. -/
def joinCamel (name : String) : String :=
  let parts := name.toList.splitOn '_'
  if parts.length ≤ 1 then name
  else String.ofList (parts.headD [] ++ (parts.drop 1).flatMap fun part ↦
    (capitalize printing (String.ofList part)).toList)

def toTsFunctionName (name : String) : String := joinCamel printing name

def toGoFunctionName (name : String) : String := joinCamel printing name

def toJavaMethodName (name : String) : String := joinCamel printing name

/-- The name by which the main function calls a function. -/
def calledName (name : String) : String :=
  match language with
  | .python => name
  | .typeScript => toTsFunctionName printing name
  | .go => toGoFunctionName printing name
  | .java => toJavaMethodName printing name

/-! ## The text of the script -/

def header : String :=
  match language with
  | .python => "import asyncio\nfrom mongocore import MongoCore\n\n\n"
  | .typeScript => "import \x7b MongoCore \x7d from '@mongocore/client';\n\n"
  | .go => "package main\n\nimport (\n\t\"context\"\n\t\"fmt\"\n\n" ++
      "\tpb \"github.com/mongodb/mongocore/proto\"\n" ++
      "\t\"github.com/mongodb/mongocore/client\"\n)\n\n"
  | .java => "import com.mongodb.mongocore.*;\nimport com.mongodb.mongocore.proto.*;\n" ++
      "import java.util.*;\n\npublic class MongoSession \x7b\n\n"

def commentMark : String :=
  match language with
  | .python => "#"
  | _ => "//"

/-- The lines of a text, without their ends. -/
def linesOf (text : String) : List String :=
  let parts := text.toList.splitOn '\n'
  let ended := parts.dropLast.map fun line ↦
    if line.getLast? = some '\r' then line.dropLast else line
  let rest := (parts.getLast?.toList).filter fun line ↦ !line.isEmpty
  (ended ++ rest).map String.ofList

/-- The definition of a function, as a comment if its operation failed. -/
def definitionText (function : ScriptFunction) : String :=
  let code := function.code.text
  if function.success then
    match language with
    | .python => s!"# {function.docstring}\n{code}\n\n"
    | .typeScript | .go => s!"// {function.docstring}\n{code}\n\n"
    | .java =>
        let indented := replaceChar '\n' "\n    " code
        s!"    // {function.docstring}\n    {indented}\n\n"
  else
    let mark := commentMark language
    let reason := function.errorMessage.getD "unknown"
    s!"{mark} FAILED: {function.docstring} (error: {reason})\n" ++
      String.join ((linesOf code).map fun line ↦ s!"{mark} {line}\n") ++ "\n"

/-- The call of a function, as a comment if its operation failed. -/
def callText (function : ScriptFunction) : String :=
  let name := calledName printing language function.name
  match language, function.success with
  | .python, true => s!"    await {name}(client)\n"
  | .python, false => s!"    # await {name}(client)  # skipped: failed\n"
  | .typeScript, true => s!"  await {name}(client);\n"
  | .typeScript, false => s!"  // await {name}(client);  // skipped: failed\n"
  | .go, true => s!"\t_, _ = {name}(client, \"\", \"\", nil)\n"
  | .go, false => s!"\t// _, _ = {name}(client, \"\", \"\", nil)  // skipped: failed\n"
  | .java, true => s!"        new MongoSession().{name}(client, \"\", \"\", null);\n"
  | .java, false =>
      s!"        // new MongoSession().{name}(client, \"\", \"\", null);  // skipped: failed\n"

/-- What stands before and after the calls in the main function. -/
def mainFrame : String × String :=
  match language with
  | .python => ("async def main():\n    client = MongoCore()\n    await client.connect()\n\n",
      "\n\nasyncio.run(main())\n")
  | .typeScript => ("async function main() \x7b\n  const client = new MongoCore();\n" ++
      "  await client.connect();\n\n", "\x7d\n\nmain();\n")
  | .go => ("func main() \x7b\n\tclient, err := mongocore.NewClient(\"localhost:50051\")\n" ++
      "\tif err != nil \x7b\n\t\tpanic(err)\n\t\x7d\n\tdefer client.Close()\n\n", "\x7d\n")
  | .java => ("    public static void main(String[] args) \x7b\n" ++
      "        MongoClient client = MongoClient.create(\"localhost:50051\");\n\n",
      "    \x7d\n\x7d\n")

def assembleScript (functions : List ScriptFunction) : String :=
  header language ++ String.join (functions.map (definitionText language)) ++
    (mainFrame language).1 ++ String.join (functions.map (callText printing language)) ++
      (mainFrame language).2

def generateSessionScript (operations : List OperationRecord) : Except String String :=
  if operations.isEmpty then .error "No operations to generate code for"
  else .ok (assembleScript printing language (sessionFunctions printing language operations))

end Script

end MongoCore.Mcp.SessionScript
