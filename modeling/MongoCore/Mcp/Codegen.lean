import MongoCore.Data.Json

/-!
# Generated client code

For an operation that a client has asked for, the server writes a function in one of four languages
that does the same with the client library.  The name of the function is made from the operation and
the collection; the rest of its text has the arguments of the operation as defaults.

A generated function is kept in three parts, its name and the texts before and after it.
-/

namespace MongoCore.Mcp.Codegen

open MongoCore.Data

inductive Language where
  | python | typeScript | go | java
  deriving DecidableEq

/-- What the generators use of other libraries: the text of a JSON value on several lines and on
one, and the uppercase of a character. -/
structure Printing where
  pretty : Json → String
  compact : Json → String
  toUppercase : Char → List Char

structure GeneratedFunction where
  before : String
  name : String
  after : String

def GeneratedFunction.text (function : GeneratedFunction) : String :=
  function.before ++ function.name ++ function.after

variable (printing : Printing)

/-- Capitalize the first letter of a text. -/
def capitalize (text : String) : String :=
  match text.toList with
  | [] => ""
  | c :: rest => String.ofList (printing.toUppercase c ++ rest)

def strParam (params : Json) (key fallback : String) : String :=
  ((params.get? key).bind Json.asStr?).getD fallback

/-- The text of a parameter on several lines. -/
def jsonParam (params : Json) (key : String) (fallback : Json) : String :=
  printing.pretty ((params.get? key).getD fallback)

/-- Put a text in the place of each character of a kind. -/
def replaceChar (old : Char) (new text : String) : String :=
  String.ofList (text.toList.flatMap fun c ↦ if c = old then new.toList else [c])

/-- The text of a JSON value inside a text of the generated code. -/
def escaped (text : String) : String :=
  replaceChar '\n' " " (replaceChar '"' "\\\"" text)

def linesWith (indent ending : String) (lines : List String) : String :=
  String.join (lines.map fun line ↦ indent ++ line ++ ending ++ "\n")

/-! ## Functions of each language -/

/-- A Python function that awaits a method of the client. -/
def pythonFunction (verb db coll parameters description method : String)
    (members : List String) (result : String) : GeneratedFunction where
  before := "async def "
  name := s!"{verb}_{coll}"
  after :=
    s!"(client, db_name: str = \"{db}\", collection: str = \"{coll}\", {parameters}):\n" ++
      s!"    \"\"\"{description}.\"\"\"\n    result = await client.{method}(\n" ++
      linesWith "        " "," (["database=db_name", "collection=collection"] ++ members) ++
      s!"    )\n    return {result}\n"

/-- A TypeScript function that awaits a method of the client. -/
def typeScriptFunction (verb db coll parameters description method : String)
    (members : List String) (result : String) : GeneratedFunction where
  before := "async function "
  name := verb ++ capitalize printing coll
  after :=
    s!"(client: MongoCore, dbName = \"{db}\", collection = \"{coll}\", {parameters}) \x7b\n" ++
      s!"  // {description}\n  const result = await client.{method}(\x7b\n" ++
      linesWith "    " "," (["database: dbName", "collection"] ++ members) ++
      s!"  \x7d);\n  return {result};\n\x7d\n"

def goSignature (parameters result description : String) : String :=
  s!"(client *mongocore.Client, dbName string, collection string, {parameters}) " ++
    s!"({result}, error) \x7b\n\t// {description}\n"

def goMembers : List String := ["Database:   dbName", "Collection: collection"]

def goFilterCheck : String :=
  "\tif filter == nil \x7b\n\t\tfilter = map[string]interface\x7b\x7d\x7b\x7d\n\t\x7d\n"

/-- A Go function that returns a field of the response to a request. -/
def goFunction (verb coll parameters result description check method : String)
    (members : List String) (zero field : String) : GeneratedFunction where
  before := "func "
  name := verb ++ capitalize printing coll
  after :=
    goSignature parameters result description ++ check ++
      s!"\tresult, err := client.{method}(context.Background(), &pb.{method}Request\x7b\n" ++
      linesWith "\t\t" "," (goMembers ++ members) ++
      s!"\t\x7d)\n\tif err != nil \x7b\n\t\treturn {zero}, err\n\t\x7d\n" ++
      s!"\treturn result.{field}, nil\n\x7d\n"

/-- A Go function that returns the response to a request. -/
def goRequestFunction (verb coll parameters description method : String)
    (members : List String) : GeneratedFunction where
  before := "func "
  name := verb ++ capitalize printing coll
  after :=
    goSignature parameters s!"*pb.{method}Response" description ++
      s!"\treq := &pb.{method}Request\x7b\n" ++
      linesWith "\t\t" "," (goMembers ++ members) ++
      s!"\t\x7d\n\treturn client.{method}(context.Background(), req)\n\x7d\n"

def javaSignature (parameters description : String) : String :=
  s!"(MongoClient client, String dbName, String collection, {parameters}) \x7b\n" ++
    s!"    // {description}\n"

def javaSetters : List String := [".setDatabase(dbName)", ".setCollection(collection)"]

/-- A filter that is not given is the one of the operation, in Java. -/
def javaFilterCheck (filter : String) : String :=
  "    if (filter == null) \x7b\n" ++
    s!"        filter = Document.parse(\"{escaped filter}\");\n    \x7d\n"

/-- A Java method that builds a request at once. -/
def javaFunction (result verb coll parameters description check request : String)
    (setters : List String) (response : String) : GeneratedFunction where
  before := s!"public {result} "
  name := verb ++ capitalize printing coll
  after :=
    javaSignature parameters description ++ check ++
      s!"    {request} request = {request}.newBuilder()\n" ++
      linesWith "        " "" (javaSetters ++ setters ++ [".build();"]) ++
      s!"    return {response};\n\x7d\n"

/-- A Java method that builds a request and sets optional members later. -/
def javaBuilderFunction (result verb coll parameters description check request : String)
    (setter : String) (optional : List String) (closing : List String) : GeneratedFunction where
  before := s!"public {result} "
  name := verb ++ capitalize printing coll
  after :=
    javaSignature parameters description ++ check ++
      s!"    {request}.Builder request = {request}.newBuilder()\n" ++
      linesWith "        " "" (javaSetters ++ [setter ++ ";"]) ++
      linesWith "    " ";" optional ++ linesWith "    " ";" closing ++ "\x7d\n"

/-! ## Operations on documents -/

def generateFind (language : Language) (db coll : String) (params : Json) : GeneratedFunction :=
  let filter := jsonParam printing params "filter" (.object [])
  let limit := ((params.get? "limit").bind Json.asU64?).toList
  let description := s!"Find documents in {coll}"
  match language with
  | .python => pythonFunction "find" db coll "filter: dict | None = None" description "find"
      (s!"filter=filter or {filter}" :: limit.map fun lim ↦ s!"limit={lim}") "result.documents"
  | .typeScript => typeScriptFunction printing "find" db coll "filter?: object" description "find"
      (s!"filter: filter ?? {filter}" :: limit.map fun lim ↦ s!"limit: {lim}") "result.documents"
  | .go => goFunction printing "find" coll "filter map[string]interface\x7b\x7d" "[]bson.M"
      description goFilterCheck "Find"
      ("Filter:     toJSON(filter)" :: limit.map fun lim ↦ s!"Limit: {lim}") "nil" "Documents"
  | .java => javaBuilderFunction printing "List<Document>" "find" coll "Document filter"
      description (javaFilterCheck filter) "FindRequest" ".setFilter(toJson(filter))"
      (limit.map fun lim ↦ s!"request.setLimit({lim})")
      ["FindResponse response = client.find(request.build())",
        "return response.getDocumentsList()"]

def generateFindOne (language : Language) (db coll : String) (params : Json) :
    GeneratedFunction :=
  let filter := jsonParam printing params "filter" (.object [])
  let description := s!"Find one document in {coll}"
  match language with
  | .python => pythonFunction "find_one" db coll "filter: dict | None = None" description
      "find_one" [s!"filter=filter or {filter}"] "result.document"
  | .typeScript => typeScriptFunction printing "findOne" db coll "filter?: object" description
      "findOne" [s!"filter: filter ?? {filter}"] "result.document"
  | .go => goFunction printing "findOne" coll "filter map[string]interface\x7b\x7d" "bson.M"
      description goFilterCheck "FindOne" ["Filter:     toJSON(filter)"] "nil" "Document"
  | .java => javaFunction printing "Document" "findOne" coll "Document filter" description
      (javaFilterCheck filter) "FindOneRequest" [".setFilter(toJson(filter))"]
      "client.findOne(request).getDocument()"

def generateInsert (language : Language) (db coll : String) (params : Json) :
    GeneratedFunction :=
  let doc := jsonParam printing params "document" (.object [])
  let description := s!"Insert a document into {coll}"
  match language with
  | .python => pythonFunction "insert" db coll "document: dict | None = None" description
      "insert_one" [s!"document=document or {doc}"] "result.inserted_id"
  | .typeScript => typeScriptFunction printing "insert" db coll "document?: object" description
      "insertOne" [s!"document: document ?? {doc}"] "result.insertedId"
  | .go => goFunction printing "insert" coll "document map[string]interface\x7b\x7d" "string"
      description "" "InsertOne" ["Document:   toJSON(document)"] "\"\"" "InsertedId"
  | .java => javaFunction printing "String" "insert" coll "Document document" description ""
      "InsertOneRequest" [".setDocument(toJson(document))"]
      "client.insertOne(request).getInsertedId()"

/-- An insertion of several documents. -/
def generateInsertMany (language : Language) (db coll : String) (params : Json) :
    GeneratedFunction :=
  let docs := jsonParam printing params "documents" (.array [])
  let description := s!"Insert multiple documents into {coll}"
  match language with
  | .python => pythonFunction "insert_many" db coll "documents: list | None = None" description
      "insert_many" [s!"documents=documents or {docs}"] "result.inserted_ids"
  | .typeScript => typeScriptFunction printing "insertMany" db coll "documents?: object[]"
      description "insertMany" [s!"documents: documents ?? {docs}"] "result.insertedIds"
  | .go => goFunction printing "insertMany" coll "documents []map[string]interface\x7b\x7d"
      "[]string" description "" "InsertMany" ["Documents:  toJSONArray(documents)"] "nil"
      "InsertedIds"
  | .java => javaFunction printing "List<String>" "insertMany" coll "List<Document> documents"
      description "" "InsertManyRequest" [".addAllDocuments(toJsonList(documents))"]
      "client.insertMany(request).getInsertedIdsList()"

def generateUpdate (language : Language) (db coll : String) (params : Json) :
    GeneratedFunction :=
  let filter := jsonParam printing params "filter" (.object [])
  let update := jsonParam printing params "update" (.object [])
  let description := s!"Update a document in {coll}"
  match language with
  | .python => pythonFunction "update" db coll
      "filter: dict | None = None, update: dict | None = None" description "update_one"
      [s!"filter=filter or {filter}", s!"update=update or {update}"] "result.modified_count"
  | .typeScript => typeScriptFunction printing "update" db coll
      "filter?: object, update?: object" description "updateOne"
      [s!"filter: filter ?? {filter}", s!"update: update ?? {update}"] "result.modifiedCount"
  | .go => goFunction printing "update" coll "filter, update map[string]interface\x7b\x7d"
      "int64" description "" "UpdateOne"
      ["Filter:     toJSON(filter)", "Update:     toJSON(update)"] "0" "ModifiedCount"
  | .java => javaFunction printing "long" "update" coll "Document filter, Document update"
      description "" "UpdateOneRequest"
      [".setFilter(toJson(filter))", ".setUpdate(toJson(update))"]
      "client.updateOne(request).getModifiedCount()"

def generateUpdateMany (language : Language) (db coll : String) (params : Json) :
    GeneratedFunction :=
  let filter := jsonParam printing params "filter" (.object [])
  let update := jsonParam printing params "update" (.object [])
  let description := s!"Update multiple documents in {coll}"
  match language with
  | .python => pythonFunction "update_many" db coll
      "filter: dict | None = None, update: dict | None = None" description "update_many"
      [s!"filter=filter or {filter}", s!"update=update or {update}"] "result.modified_count"
  | .typeScript => typeScriptFunction printing "updateMany" db coll
      "filter?: object, update?: object" description "updateMany"
      [s!"filter: filter ?? {filter}", s!"update: update ?? {update}"] "result.modifiedCount"
  | .go => goFunction printing "updateMany" coll "filter, update map[string]interface\x7b\x7d"
      "int64" description "" "UpdateMany"
      ["Filter:     toJSON(filter)", "Update:     toJSON(update)"] "0" "ModifiedCount"
  | .java => javaFunction printing "long" "updateMany" coll "Document filter, Document update"
      description "" "UpdateManyRequest"
      [".setFilter(toJson(filter))", ".setUpdate(toJson(update))"]
      "client.updateMany(request).getModifiedCount()"

def generateDelete (language : Language) (db coll : String) (params : Json) :
    GeneratedFunction :=
  let filter := jsonParam printing params "filter" (.object [])
  let description := s!"Delete a document from {coll}"
  match language with
  | .python => pythonFunction "delete" db coll "filter: dict | None = None" description
      "delete_one" [s!"filter=filter or {filter}"] "result.deleted_count"
  | .typeScript => typeScriptFunction printing "delete" db coll "filter?: object" description
      "deleteOne" [s!"filter: filter ?? {filter}"] "result.deletedCount"
  | .go => goFunction printing "delete" coll "filter map[string]interface\x7b\x7d" "int64"
      description "" "DeleteOne" ["Filter:     toJSON(filter)"] "0" "DeletedCount"
  | .java => javaFunction printing "long" "delete" coll "Document filter" description ""
      "DeleteOneRequest" [".setFilter(toJson(filter))"]
      "client.deleteOne(request).getDeletedCount()"

/-- A deletion of several documents. -/
def generateDeleteMany (language : Language) (db coll : String) (params : Json) :
    GeneratedFunction :=
  let filter := jsonParam printing params "filter" (.object [])
  let description := s!"Delete multiple documents from {coll}"
  match language with
  | .python => pythonFunction "delete_many" db coll "filter: dict | None = None" description
      "delete_many" [s!"filter=filter or {filter}"] "result.deleted_count"
  | .typeScript => typeScriptFunction printing "deleteMany" db coll "filter?: object" description
      "deleteMany" [s!"filter: filter ?? {filter}"] "result.deletedCount"
  | .go => goFunction printing "deleteMany" coll "filter map[string]interface\x7b\x7d" "int64"
      description "" "DeleteMany" ["Filter:     toJSON(filter)"] "0" "DeletedCount"
  | .java => javaFunction printing "long" "deleteMany" coll "Document filter" description ""
      "DeleteManyRequest" [".setFilter(toJson(filter))"]
      "client.deleteMany(request).getDeletedCount()"

def generateCrudCode (language : Language) (toolName : String) (params : Json) :
    Except String GeneratedFunction :=
  let db := strParam params "database" "mydb"
  let coll := strParam params "collection" "docs"
  match toolName with
  | "find" => .ok (generateFind printing language db coll params)
  | "find_one" => .ok (generateFindOne printing language db coll params)
  | "insert" | "insert_one" => .ok (generateInsert printing language db coll params)
  | "insert_many" => .ok (generateInsertMany printing language db coll params)
  | "update" | "update_one" => .ok (generateUpdate printing language db coll params)
  | "update_many" => .ok (generateUpdateMany printing language db coll params)
  | "delete" | "delete_one" => .ok (generateDelete printing language db coll params)
  | "delete_many" => .ok (generateDeleteMany printing language db coll params)
  | _ => .error s!"Unknown CRUD operation: {toolName}"

/-! ## Ingestion -/

def quotedMember (params : Json) (key before after : String) : List String :=
  (((params.get? key).bind Json.asStr?).map fun text ↦ s!"{before}\"{text}\"{after}").toList

def generateIngest (language : Language) (params : Json) : GeneratedFunction :=
  let db := strParam params "database" "mydb"
  let coll := strParam params "collection" "docs"
  let source := strParam params "source" "data.csv"
  let transforms := (params.get? "transforms").toList
  let description := s!"Ingest data into {coll} from {source}"
  match language with
  | .python => pythonFunction "ingest" db coll s!"source: str = \"{source}\"" description "ingest"
      (["source=source"] ++ quotedMember params "format" "format=" "" ++
        quotedMember params "dedup_key" "dedup_key=" "" ++
        quotedMember params "conflict_strategy" "conflict_strategy=" "" ++
        transforms.map fun value ↦ s!"transforms={printing.compact value}") "result"
  | .typeScript => typeScriptFunction printing "ingest" db coll s!"source = \"{source}\""
      description "ingest"
      (["source"] ++ quotedMember params "format" "format: " "" ++
        quotedMember params "dedup_key" "dedupKey: " "" ++
        quotedMember params "conflict_strategy" "conflictStrategy: " "" ++
        transforms.map fun value ↦ s!"transforms: {printing.pretty value}") "result"
  | .go => goRequestFunction printing "ingest" coll "source string" description "Ingest"
      (["Source:     source"] ++ quotedMember params "format" "Format: " "" ++
        quotedMember params "dedup_key" "DedupKey: " "" ++
        quotedMember params "conflict_strategy" "ConflictStrategy: " "")
  | .java => javaBuilderFunction printing "IngestResponse" "ingest" coll "String source"
      description "" "IngestRequest" ".setSource(source)"
      (quotedMember params "format" "request.setFormat(" ")" ++
        quotedMember params "dedup_key" "request.setDedupKey(" ")" ++
        quotedMember params "conflict_strategy" "request.setConflictStrategy(" ")")
      ["return client.ingest(request.build())"]

def generateWatchDirectory (language : Language) (params : Json) : GeneratedFunction :=
  let db := strParam params "database" "mydb"
  let coll := strParam params "collection" "docs"
  let path := strParam params "path" "./data"
  let description := s!"Watch directory and ingest new files into {coll}"
  match language with
  | .python => pythonFunction "watch_directory" db coll s!"path: str = \"{path}\"" description
      "watch_directory" ["path=path"] "result"
  | .typeScript => typeScriptFunction printing "watchDirectory" db coll s!"path = \"{path}\""
      description "watchDirectory" ["path"] "result"
  | .go => goRequestFunction printing "watchDirectory" coll "path string" description
      "WatchDirectory" ["Path:       path"]
  | .java => javaFunction printing "WatchDirectoryResponse" "watchDirectory" coll "String path"
      description "" "WatchDirectoryRequest" [".setPath(path)"] "client.watchDirectory(request)"

def generateIngestCode (language : Language) (toolName : String) (params : Json) :
    Except String GeneratedFunction :=
  match toolName with
  | "ingest" => .ok (generateIngest printing language params)
  | "watch_directory" => .ok (generateWatchDirectory printing language params)
  | _ => .error s!"Unknown ingestion operation: {toolName}"

/-! ## Searches -/

/-- A storage of documents with embeddings. -/
def generateEmbedAndStore (language : Language) (params : Json) : GeneratedFunction :=
  let db := strParam params "database" "unknown"
  let coll := strParam params "collection" "unknown"
  let field := strParam params "embed_field" "unknown"
  match language with
  | .python =>
      { before := "async def "
        name := s!"embed_and_store_{coll}"
        after := s!"(\n    client,\n    db_name: str = \"{db}\",\n" ++
          s!"    collection_name: str = \"{coll}\",\n    documents: list[dict] = None,\n" ++
          s!"    embed_field: str = \"{field}\",\n) -> dict:\n" ++
          "    return await client.embed_and_store(\n        database=db_name,\n" ++
          "        collection=collection_name,\n        documents=documents or [],\n" ++
          "        embed_field=embed_field,\n    )\n" }
  | .typeScript =>
      { before := "async function "
        name := s!"embedAndStore_{coll}"
        after := s!"(\n  client: MongoCore,\n  dbName = \"{db}\",\n" ++
          s!"  collectionName = \"{coll}\",\n  documents: Record<string, unknown>[] = [],\n" ++
          s!"  embedField = \"{field}\",\n) \x7b\n" ++
          "  return await client.embedAndStore(\x7b\n    database: dbName,\n" ++
          "    collection: collectionName,\n    documents,\n    embedField,\n  \x7d);\n\x7d\n" }
  | .go =>
      { before := "func "
        name := s!"embedAndStore_{coll}"
        after := "(client *mongocore.Client, dbName string, collectionName string, " ++
          "documents []interface\x7b\x7d, embedField string) (*EmbedResult, error) \x7b\n" ++
          "    return client.EmbedAndStore(&EmbedOptions\x7b\n        Database:   dbName,\n" ++
          "        Collection: collectionName,\n        Documents:  documents,\n" ++
          "        EmbedField: embedField,\n    \x7d)\n\x7d\n" }
  | .java =>
      { before := "public EmbedResult "
        name := "embedAndStore" ++ capitalize printing coll
        after := "(MongoClient client, String dbName, String collectionName, " ++
          "List<Document> documents, String embedField) \x7b\n    return " ++
          "client.embedAndStore(dbName, collectionName, documents, embedField);\n\x7d\n" }

def generateSemanticSearch (language : Language) (params : Json) : GeneratedFunction :=
  let db := strParam params "database" "unknown"
  let coll := strParam params "collection" "unknown"
  let query := strParam params "query" "unknown"
  let limit := ((params.get? "limit").bind Json.asU64?).getD 10
  match language with
  | .python =>
      { before := "async def "
        name := s!"semantic_search_{coll}"
        after := s!"(\n    client,\n    db_name: str = \"{db}\",\n" ++
          s!"    collection_name: str = \"{coll}\",\n    query: str = \"{query}\",\n" ++
          s!"    limit: int = {limit},\n) -> list[dict]:\n" ++
          "    return await client.semantic_search(\n        database=db_name,\n" ++
          "        collection=collection_name,\n        query=query,\n" ++
          "        limit=limit,\n    )\n" }
  | .typeScript =>
      { before := "async function "
        name := s!"semanticSearch_{coll}"
        after := s!"(\n  client: MongoCore,\n  dbName = \"{db}\",\n" ++
          s!"  collectionName = \"{coll}\",\n  query = \"{query}\",\n" ++
          s!"  limit = {limit},\n) \x7b\n" ++
          "  return await client.semanticSearch(\x7b\n    database: dbName,\n" ++
          "    collection: collectionName,\n    query,\n    limit,\n  \x7d);\n\x7d\n" }
  | .go =>
      { before := "func "
        name := s!"semanticSearch_{coll}"
        after := "(client *mongocore.Client, dbName string, collectionName string, " ++
          "query string, limit int) ([]SearchResult, error) \x7b\n" ++
          "    return client.SemanticSearch(&SearchOptions\x7b\n        Database:   dbName,\n" ++
          "        Collection: collectionName,\n        Query:      query,\n" ++
          "        Limit:      limit,\n    \x7d)\n\x7d\n" }
  | .java =>
      { before := "public List<SearchResult> "
        name := "semanticSearch" ++ capitalize printing coll
        after := "(MongoClient client, String dbName, String collectionName, String query, " ++
          "int limit) \x7b\n    return client.semanticSearch(dbName, collectionName, query, " ++
          "limit);\n\x7d\n" }

def generateSearchCode (language : Language) (toolName : String) (params : Json) :
    Except String GeneratedFunction :=
  match toolName with
  | "embed_and_store" => .ok (generateEmbedAndStore printing language params)
  | "semantic_search" => .ok (generateSemanticSearch printing language params)
  | _ => .error s!"Unknown search operation: {toolName}"

/-! ## Any operation -/

/-- Code that asks the server to run the tool. -/
def generatePassthrough (language : Language) (toolName : String) (params : Json) :
    GeneratedFunction :=
  let text := printing.pretty params
  let db := strParam params "database" "mydb"
  let coll := strParam params "collection" "docs"
  let name := s!"{toolName}_{coll}"
  match language with
  | .python =>
      { before := "async def "
        name := name
        after := s!"(client, db_name: str = \"{db}\", collection: str = \"{coll}\"):\n" ++
          s!"    \"\"\"{toolName} on {coll} in {db}.\"\"\"\n" ++
          "    result = await client.run_tool(\n" ++
          s!"        \"{toolName}\",\n        {text},\n    )\n    return result\n" }
  | .typeScript =>
      { before := "async function "
        name := name
        after := s!"(client: MongoCore, dbName = \"{db}\", collection = \"{coll}\") \x7b\n" ++
          s!"  // {toolName} on {coll} in {db}\n  const result = await client.runTool(\n" ++
          s!"    \"{toolName}\",\n    {text},\n  );\n  return result;\n\x7d\n" }
  | .go =>
      { before := "func "
        name := name
        after := "(client *mongocore.Client, dbName string, collection string) " ++
          s!"(interface\x7b\x7d, error) \x7b\n\t// {toolName} on {coll} in {db}\n" ++
          s!"\treturn client.RunTool(context.Background(), \"{toolName}\", " ++
          s!"[]byte(\x60{text}\x60))\n" ++
          "\x7d\n" }
  | .java =>
      { before := "public Object "
        name := name
        after := "(MongoClient client, String dbName, String collection) \x7b\n" ++
          s!"    // {toolName} on {coll} in {db}\n" ++
          s!"    return client.runTool(\"{toolName}\", \"{escaped text}\");\n\x7d\n" }

def crudTools : List String :=
  ["find", "find_one", "insert", "insert_one", "insert_many", "update", "update_one",
    "update_many", "delete", "delete_one", "delete_many"]

def ingestTools : List String := ["ingest", "watch_directory"]

def searchTools : List String := ["embed_and_store", "semantic_search"]

def generateSingleOperationCode (language : Language) (toolName : String) (params : Json) :
    Except String GeneratedFunction :=
  if toolName ∈ crudTools then generateCrudCode printing language toolName params
  else if toolName ∈ ingestTools then generateIngestCode printing language toolName params
  else if toolName ∈ searchTools then generateSearchCode printing language toolName params
  else .ok (generatePassthrough printing language toolName params)

end MongoCore.Mcp.Codegen
