import MongoCore.Ingestion.Dedup

/-!
# Sequential writes of an ingestion job

A job with a dedup key writes its table chunk by chunk.  A chunk is converted to documents, checked
against the collection, and written: first what the check lets in, in one call, then one document
after the other that replaces an existing one.

A row is abstract, and a cell of it is converted by a parameter.  The `Server` says how the
database compares a field with a value, and which of the calls of a chunk fail.
-/

namespace MongoCore.Ingestion

variable {V Row : Type}

/-! ## The job and its environment -/

/-- The schema, the conversion of a cell, the dedup key and the strategy of a job. -/
structure Job (V Row : Type) where
  fields : List String
  seriesValueToBson : Row → String → Except String V
  dedupKey : List String
  conflictStrategy : ConflictStrategy

/-- The database and the owner of the job as the job meets them, chunk by chunk.  A failed call to
insert names the number of documents it has written before. -/
structure Server (V : Type) where
  fieldMatches : String → V → Document V → Bool
  cancelled : ℕ → Bool
  queryFailure : ℕ → Option String
  insertFailure : ℕ → Option (ℕ × String)
  replaceFails : ℕ → ℕ → Bool

/-- A row that was not written, with the reason and the stage it failed in. -/
structure DeadLetterEntry (V : Type) where
  sourceRow : ℕ
  document : Document V
  error : String
  stage : String

/-- The collection, the dead letters, and the counters of a running job. -/
structure State (V : Type) where
  collection : List (Document V)
  deadLetters : List (DeadLetterEntry V)
  rowsProcessed : ℕ
  rowsInserted : ℕ
  rowsSkipped : ℕ
  rowsFailed : ℕ
  chunkNum : ℕ
  offset : ℕ

/-- A job that has not read any row. -/
def State.start (collection : List (Document V)) : State V where
  collection := collection
  deadLetters := []
  rowsProcessed := 0
  rowsInserted := 0
  rowsSkipped := 0
  rowsFailed := 0
  chunkNum := 0
  offset := 0

/-! ## Conversion -/

/-- The document of a row: one field for every field of the schema. -/
def rowToDocument (job : Job V Row) (row : Row) : Except String (Document V) :=
  job.fields.foldlM (fun document name ↦ do
    let value ← job.seriesValueToBson row name
    return document.insert name value) Document.empty

/-- The documents of a chunk, or the error of the first row that cannot be converted. -/
def dataframeToDocuments (job : Job V Row) (rows : List Row) :
    Except String (List (Document V)) :=
  rows.mapM (rowToDocument job)

/-- Dead-letter every row of a chunk that cannot be converted. -/
def deadLetterChunk (state : State V) (size : ℕ) (error : String) : State V :=
  { state with
    deadLetters := state.deadLetters ++ (List.range size).map fun i ↦
      { sourceRow := state.offset + i
        document := Document.empty
        error := s!"Conversion error: {error}"
        stage := "conversion" }
    rowsFailed := state.rowsFailed + size
    rowsProcessed := state.rowsProcessed + size
    offset := state.offset + size
    chunkNum := state.chunkNum + 1 }

/-! ## Writes -/

def toInsert (results : List (DedupResult V)) : List (Document V) :=
  results.filterMap fun
    | .insert document => some document
    | .skip | .replace _ | .merge _ _ => none

def toReplace (results : List (DedupResult V)) : List (Document V) :=
  results.filterMap fun
    | .replace document => some document
    | .merge incoming existing => some (mergeDocuments incoming existing)
    | .insert _ | .skip => none

def skipped (results : List (DedupResult V)) : ℕ :=
  results.countP fun
    | .skip => true
    | .insert _ | .replace _ | .merge _ _ => false

/-- Insert many documents.  If the call fails, all of them are dead-lettered. -/
def insertMany (server : Server V) (state : State V) (documents : List (Document V)) : State V :=
  if documents.isEmpty then state
  else match server.insertFailure state.chunkNum with
    | none =>
        { state with
          collection := state.collection ++ documents
          rowsInserted := state.rowsInserted + documents.length }
    | some (written, error) =>
        { state with
          collection := state.collection ++ documents.take written
          deadLetters := state.deadLetters ++ documents.zipIdx.map fun (document, i) ↦
            { sourceRow := state.offset + i
              document := document
              error := s!"Insert error: {error}"
              stage := "write" }
          rowsFailed := state.rowsFailed + documents.length }

/-- The first document that satisfies the filter is replaced. -/
def replaceOne (server : Server V) (filter replacement : Document V) :
    List (Document V) → List (Document V)
  | [] => []
  | document :: rest =>
      if matchesFilter server.fieldMatches filter document then replacement :: rest
      else document :: replaceOne server filter replacement rest

def replaceByKey (server : Server V) (dedupKey : List String) (state : State V)
    (replacement : Document V) (i : ℕ) : State V :=
  let filter := (buildDedupFilter dedupKey replacement).getD Document.empty
  if server.replaceFails state.chunkNum i then { state with rowsFailed := state.rowsFailed + 1 }
  else
    { state with
      collection := replaceOne server filter replacement state.collection
      rowsInserted := state.rowsInserted + 1 }

def replaceEach (server : Server V) (dedupKey : List String) (state : State V)
    (replacements : List (Document V)) : State V :=
  replacements.zipIdx.foldl (fun state (replacement, i) ↦
    replaceByKey server dedupKey state replacement i) state

/-! ## The loop -/

variable [BEq V]

/-- One round of the loop: a chunk is converted, checked and written. -/
def writeChunk (server : Server V) (job : Job V Row) (chunk : List Row) (state : State V) :
    Except String (State V) :=
  if server.cancelled state.chunkNum then .error "Job cancelled"
  else match dataframeToDocuments job chunk with
    | .error error => .ok (deadLetterChunk state chunk.length error)
    | .ok documents => do
        let results ← checkBatch server.fieldMatches (server.queryFailure state.chunkNum)
          job.dedupKey job.conflictStrategy state.collection documents
        let inserted := insertMany server
          { state with rowsSkipped := state.rowsSkipped + skipped results } (toInsert results)
        let written := replaceEach server job.dedupKey inserted (toReplace results)
        return { written with
          rowsProcessed := written.rowsProcessed + chunk.length
          chunkNum := written.chunkNum + 1
          offset := written.offset + chunk.length }

/-- The loop over the chunks of a table.  It is given the number of rounds it may take, and has no
result if that is not enough. -/
def writeChunks (server : Server V) (job : Job V Row) (table : List Row) (batchSize : ℕ) :
    ℕ → State V → Option (Except String (State V))
  | rounds, state =>
      if state.offset < table.length then
        let chunk := (table.drop state.offset).take batchSize
        match rounds with
        | 0 => none
        | rounds + 1 =>
            match writeChunk server job chunk state with
            | .error error => some (.error error)
            | .ok next => writeChunks server job table batchSize rounds next
      else some (.ok state)

/-- Write a table to a collection, in chunks of a given size.  As many rounds as the table has rows
are enough. -/
def runSequentialWrites (server : Server V) (job : Job V Row) (table : List Row)
    (batchSize : ℕ) (collection : List (Document V)) : Option (Except String (State V)) :=
  writeChunks server job table batchSize table.length (State.start collection)

end MongoCore.Ingestion
