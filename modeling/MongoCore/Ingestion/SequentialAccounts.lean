import MongoCore.Ingestion.Ledger
import MongoCore.Library.Results

/-!
# The ledger of sequential writes

The loop over the chunks of a table, with what it reports to the record of the job, and the account
of every chunk.  The counters and the dead letters that the loop keeps are those of its ledger.

A chunk that cannot be converted ends its round early, and nothing is reported after it.
-/

namespace MongoCore.Ingestion

variable {V Row : Type}

/-! ## Reports -/

/-- The counters in the record of a job. -/
structure Progress where
  rowsProcessed : ℕ
  rowsInserted : ℕ
  rowsSkipped : ℕ
  rowsFailed : ℕ
  lastCommittedChunk : ℕ
  deriving DecidableEq, Repr

/-- The record of a job that has not reported anything. -/
def Progress.start : Progress := ⟨0, 0, 0, 0, 0⟩

def State.progress (state : State V) : Progress where
  rowsProcessed := state.rowsProcessed
  rowsInserted := state.rowsInserted
  rowsSkipped := state.rowsSkipped
  rowsFailed := state.rowsFailed
  lastCommittedChunk := state.chunkNum

def updateProgress (job : Job V Row) (chunk : List Row) (next : State V) (progress : Progress) :
    Progress :=
  match dataframeToDocuments job chunk with
  | .error _ => progress
  | .ok _ => next.progress

section Loop

variable [BEq V]

/-- The loop over the chunks of a table, with the record of the job. -/
def reportChunks (server : Server V) (job : Job V Row) (table : List Row) (batchSize : ℕ) :
    ℕ → State V → Progress → Option (Except String (State V × Progress))
  | rounds, state, progress =>
      if state.offset < table.length then
        let chunk := (table.drop state.offset).take batchSize
        match rounds with
        | 0 => none
        | rounds + 1 =>
            match writeChunk server job chunk state with
            | .error error => some (.error error)
            | .ok next =>
                reportChunks server job table batchSize rounds next
                  (updateProgress job chunk next progress)
      else some (.ok (state, progress))

/-- The reports have no influence on the loop. -/
theorem writeChunks_eq_reportChunks (server : Server V) (job : Job V Row) (table : List Row)
    (batchSize rounds : ℕ) (state : State V) (progress : Progress) :
    writeChunks server job table batchSize rounds state =
      (reportChunks server job table batchSize rounds state progress).map fun result ↦
        result.map Prod.fst := by
  induction rounds generalizing state progress with
  | zero =>
    unfold writeChunks reportChunks
    split_ifs <;> rfl
  | succ rounds ih =>
    unfold writeChunks reportChunks
    split_ifs
    · simp only
      cases writeChunk server job ((table.drop state.offset).take batchSize) state with
      | error error => rfl
      | ok next => exact ih next _
    · rfl

/-! ## Accounts of the chunks -/

/-- How the replacements of a chunk come out, one after the other. -/
def replacementsOf (server : Server V) (dedupKey : List String) (chunkNum : ℕ) :
    List (Document V) → List (Document V × ℕ) → List Replacement
  | _, [] => []
  | collection, (replacement, i) :: rest =>
      let filter := (buildDedupFilter dedupKey replacement).getD Document.empty
      if server.replaceFails chunkNum i then
        .failed :: replacementsOf server dedupKey chunkNum collection rest
      else
        (if collection.any (matchesFilter server.fieldMatches filter) then .replaced
          else .missed) ::
        replacementsOf server dedupKey chunkNum (replaceOne server filter replacement collection)
          rest

/-- The account of a chunk that is written in a given state. -/
def accountOf (server : Server V) (job : Job V Row) (state : State V) (chunk : List Row) :
    Account V :=
  match dataframeToDocuments job chunk with
  | .error _ => .unconverted state.offset chunk.length
  | .ok documents =>
      match checkBatch server.fieldMatches (server.queryFailure state.chunkNum) job.dedupKey
        job.conflictStrategy state.collection documents with
      | .error _ => .unconverted state.offset chunk.length
      | .ok results =>
          .written state.offset results ((server.insertFailure state.chunkNum).map Prod.fst)
            (replacementsOf server job.dedupKey state.chunkNum
              (insertMany server state (toInsert results)).collection (toReplace results).zipIdx)

/-- The accounts of the chunks, in the order of the rounds. -/
def accountsOf (server : Server V) (job : Job V Row) (table : List Row) (batchSize : ℕ) :
    ℕ → State V → List (Account V)
  | 0, _ => []
  | rounds + 1, state =>
      if state.offset < table.length then
        let chunk := (table.drop state.offset).take batchSize
        match writeChunk server job chunk state with
        | .error _ => []
        | .ok next =>
            accountOf server job state chunk ::
              accountsOf server job table batchSize rounds next
      else []

end Loop

/-! ## What a round adds -/

/-- What a dead letter names as the row and the document. -/
def DeadLetterEntry.source (entry : DeadLetterEntry V) : ℕ × Document V :=
  (entry.sourceRow, entry.document)

structure Adds (account : Account V) (state next : State V) : Prop where
  deadLetters : next.deadLetters.map DeadLetterEntry.source =
    state.deadLetters.map DeadLetterEntry.source ++ account.entries
  rowsProcessed : next.rowsProcessed = state.rowsProcessed + account.span.2
  rowsInserted : next.rowsInserted = state.rowsInserted + account.rowsInserted
  rowsSkipped : next.rowsSkipped = state.rowsSkipped + account.rowsSkipped
  rowsFailed : next.rowsFailed = state.rowsFailed + account.failedRows.length
  offset : next.offset = state.offset + account.span.2

theorem deadLetterChunk_adds (state : State V) (size : ℕ) (error : String) :
    Adds (.unconverted state.offset size) state (deadLetterChunk state size error) where
  deadLetters := by
    unfold deadLetterChunk
    rw [List.map_append, List.map_map, Account.entries, List.range'_eq_map_range, List.map_map]
    rfl
  rowsProcessed := rfl
  rowsInserted := rfl
  rowsSkipped := rfl
  rowsFailed := by simp [deadLetterChunk, Account.failedRows]
  offset := rfl

/-- A call to insert leaves the other counters of a round as they are. -/
theorem insertMany_frame (server : Server V) (state : State V) (documents : List (Document V)) :
    (insertMany server state documents).rowsProcessed = state.rowsProcessed ∧
      (insertMany server state documents).rowsSkipped = state.rowsSkipped ∧
      (insertMany server state documents).chunkNum = state.chunkNum ∧
      (insertMany server state documents).offset = state.offset := by
  unfold insertMany
  split_ifs
  · exact ⟨rfl, rfl, rfl, rfl⟩
  · cases server.insertFailure state.chunkNum <;> exact ⟨rfl, rfl, rfl, rfl⟩

theorem collection_insertMany (server : Server V) (state : State V)
    (documents : List (Document V)) :
    (insertMany server state documents).collection = state.collection ++
      match server.insertFailure state.chunkNum with
      | none => documents
      | some failure => documents.take failure.1 := by
  unfold insertMany
  by_cases hempty : documents.isEmpty = true
  · obtain rfl := List.isEmpty_iff.mp hempty
    cases server.insertFailure state.chunkNum <;> simp
  · rw [if_neg hempty]
    cases server.insertFailure state.chunkNum <;> rfl

theorem deadLetters_insertMany (server : Server V) (state : State V)
    (documents : List (Document V)) :
    (insertMany server state documents).deadLetters.map DeadLetterEntry.source =
      state.deadLetters.map DeadLetterEntry.source ++
        if (server.insertFailure state.chunkNum).isSome then
          (documents.zipIdx state.offset).map fun (document, row) ↦ (row, document)
        else [] := by
  unfold insertMany
  by_cases hempty : documents.isEmpty = true
  · obtain rfl := List.isEmpty_iff.mp hempty
    simp
  · rw [if_neg hempty]
    cases server.insertFailure state.chunkNum with
    | none => simp
    | some failure =>
      have hshift : documents.zipIdx state.offset =
          documents.zipIdx.map fun (document, i) ↦ (document, state.offset + i) := by
        rw [List.zipIdx_eq_map_add]
      simp only [List.map_append, List.map_map, Option.isSome_some, if_true, hshift]
      rfl

theorem rowsInserted_insertMany (server : Server V) (state : State V)
    (documents : List (Document V)) :
    (insertMany server state documents).rowsInserted = state.rowsInserted +
      if (server.insertFailure state.chunkNum).isSome then 0 else documents.length := by
  unfold insertMany
  by_cases hempty : documents.isEmpty = true
  · obtain rfl := List.isEmpty_iff.mp hempty
    simp
  · rw [if_neg hempty]
    cases server.insertFailure state.chunkNum <;> simp

theorem rowsFailed_insertMany (server : Server V) (state : State V)
    (documents : List (Document V)) :
    (insertMany server state documents).rowsFailed = state.rowsFailed +
      if (server.insertFailure state.chunkNum).isSome then documents.length else 0 := by
  unfold insertMany
  by_cases hempty : documents.isEmpty = true
  · obtain rfl := List.isEmpty_iff.mp hempty
    simp
  · rw [if_neg hempty]
    cases server.insertFailure state.chunkNum <;> simp

/-- The replacements of a round change the collection and two counters. -/
structure Replaces (replacements : List Replacement) (state next : State V) : Prop where
  deadLetters : next.deadLetters = state.deadLetters
  rowsProcessed : next.rowsProcessed = state.rowsProcessed
  rowsInserted : next.rowsInserted =
    state.rowsInserted + replacements.countP fun replacement ↦ replacement ≠ .failed
  rowsSkipped : next.rowsSkipped = state.rowsSkipped
  rowsFailed : next.rowsFailed = state.rowsFailed + replacements.count .failed
  chunkNum : next.chunkNum = state.chunkNum
  offset : next.offset = state.offset

theorem length_replacementsOf (server : Server V) (dedupKey : List String) (chunkNum : ℕ)
    (collection : List (Document V)) (indexed : List (Document V × ℕ)) :
    (replacementsOf server dedupKey chunkNum collection indexed).length = indexed.length := by
  induction indexed generalizing collection with
  | nil => rfl
  | cons entry indexed ih =>
    unfold replacementsOf
    split_ifs <;> simp [ih]

theorem replaceEach_replaces (server : Server V) (dedupKey : List String) (state : State V)
    (documents : List (Document V)) :
    Replaces (replacementsOf server dedupKey state.chunkNum state.collection documents.zipIdx)
      state (replaceEach server dedupKey state documents) := by
  have hfold : ∀ (indexed : List (Document V × ℕ)) (state : State V),
      Replaces (replacementsOf server dedupKey state.chunkNum state.collection indexed) state
        (indexed.foldl (fun state (replacement, i) ↦
          replaceByKey server dedupKey state replacement i) state) := by
    intro indexed
    induction indexed with
    | nil => exact fun state ↦ ⟨rfl, rfl, rfl, rfl, rfl, rfl, rfl⟩
    | cons entry indexed ih =>
      intro state
      obtain ⟨replacement, i⟩ := entry
      have hrest := ih (replaceByKey server dedupKey state replacement i)
      rw [List.foldl_cons]
      unfold replacementsOf
      by_cases hfails : server.replaceFails state.chunkNum i = true
      · simp only [replaceByKey, hfails, if_true] at hrest ⊢
        refine ⟨hrest.deadLetters, hrest.rowsProcessed, ?_, hrest.rowsSkipped, ?_,
          hrest.chunkNum, hrest.offset⟩
        · rw [hrest.rowsInserted]
          simp
        · rw [hrest.rowsFailed, List.count_cons_self]
          exact Nat.add_right_comm ..
      · simp only [replaceByKey, hfails, Bool.false_eq_true, if_false] at hrest ⊢
        refine ⟨hrest.deadLetters, hrest.rowsProcessed, ?_, hrest.rowsSkipped, ?_,
          hrest.chunkNum, hrest.offset⟩
        · rw [hrest.rowsInserted, List.countP_cons_of_pos]
          · exact Nat.add_right_comm ..
          · split_ifs <;> rfl
        · rw [hrest.rowsFailed, List.count_cons_of_ne]
          split_ifs <;> exact Replacement.noConfusion
  exact hfold documents.zipIdx state

section Loop

variable [BEq V] {server : Server V} {job : Job V Row} {chunk : List Row} {state next : State V}

omit [BEq V] in
/-- The documents of a chunk are those of its rows. -/
theorem dataframeToDocuments_eq_ok {documents : List (Document V)} :
    dataframeToDocuments job chunk = .ok documents ↔
      List.Forall₂ (fun row document ↦ rowToDocument job row = .ok document) chunk documents := by
  unfold dataframeToDocuments
  exact Library.Results.mapM_eq_ok

/-- A document that the lookup of its key lets in is let in unchanged. -/
theorem eq_of_lookup_insert {dedupKey : List String} (strategy : ConflictStrategy)
    (existing : List (Document V)) (document other : Document V)
    (h : (match buildDedupFilter dedupKey document with
        | none => DedupResult.insert document
        | some filter =>
            match existing.find? fun old : Document V ↦ dedupKey.all fun key ↦
              filter.get key == old.get key with
            | none => .insert document
            | some old => resolveConflict strategy document old) = .insert other) :
    other = document := by
  split at h
  · exact (DedupResult.insert.inj h).symm
  · split at h
    · exact (DedupResult.insert.inj h).symm
    · cases strategy <;> cases h

/-- The check has one result for every document, and lets in only that document. -/
theorem checkBatch_results {fieldMatches : String → V → Document V → Bool}
    {queryFailure : Option String} {dedupKey : List String} {strategy : ConflictStrategy}
    {collection documents : List (Document V)} {results : List (DedupResult V)}
    (h : checkBatch fieldMatches queryFailure dedupKey strategy collection documents =
      .ok results) :
    List.Forall₂ (fun document result ↦ ∀ other, result = .insert other → other = document)
      documents results := by
  have hmap : ∃ check : Document V → DedupResult V, results = documents.map check ∧
      ∀ document other, check document = .insert other → other = document := by
    unfold checkBatch at h
    split_ifs at h
    · obtain rfl := Except.ok.inj h
      exact ⟨.insert, rfl, fun document other heq ↦ (DedupResult.insert.inj heq).symm⟩
    · dsimp only at h
      split_ifs at h
      · obtain rfl := Except.ok.inj h
        exact ⟨_, rfl, eq_of_lookup_insert strategy []⟩
      · cases queryFailure with
        | some error => cases h
        | none =>
          obtain rfl := Except.ok.inj h
          exact ⟨_, rfl, eq_of_lookup_insert strategy _⟩
  obtain ⟨check, rfl, hcheck⟩ := hmap
  rw [List.forall₂_map_right_iff, List.forall₂_same]
  exact fun document _ other heq ↦ hcheck document other heq

omit [BEq V] in
/-- The writes of a chunk add what the check and the calls to the database make of it. -/
theorem writeResults_adds (server : Server V) (dedupKey : List String) (state : State V)
    (results : List (DedupResult V)) {next : State V}
    (hnext : next = replaceEach server dedupKey
      (insertMany server { state with rowsSkipped := state.rowsSkipped + skipped results }
        (toInsert results)) (toReplace results)) :
    Adds (.written state.offset results ((server.insertFailure state.chunkNum).map Prod.fst)
        (replacementsOf server dedupKey state.chunkNum
          (insertMany server state (toInsert results)).collection (toReplace results).zipIdx))
      state { next with
        rowsProcessed := next.rowsProcessed + results.length
        chunkNum := next.chunkNum + 1
        offset := next.offset + results.length } := by
  set counted := { state with rowsSkipped := state.rowsSkipped + skipped results } with hcounted
  obtain ⟨hprocessed, hskipped, hchunk, hoffset⟩ :=
    insertMany_frame server counted (toInsert results)
  have hcollection : (insertMany server counted (toInsert results)).collection =
      (insertMany server state (toInsert results)).collection := by
    rw [collection_insertMany, collection_insertMany]
  have hreplaces := replaceEach_replaces server dedupKey
    (insertMany server counted (toInsert results)) (toReplace results)
  rw [← hnext, hchunk, hcollection] at hreplaces
  have hfailure : ((server.insertFailure state.chunkNum).map Prod.fst).isSome =
      (server.insertFailure state.chunkNum).isSome := Option.isSome_map
  have hlength : (rowsReplaced .failed
      (rowsWhere DedupResult.isReplacement state.offset results)
      (replacementsOf server dedupKey state.chunkNum
        (insertMany server state (toInsert results)).collection
          (toReplace results).zipIdx)).length =
      (replacementsOf server dedupKey state.chunkNum
        (insertMany server state (toInsert results)).collection
          (toReplace results).zipIdx).count .failed := by
    apply length_rowsReplaced
    rw [length_replacementsOf, List.length_zipIdx, length_rowsWhere_isReplacement]
  constructor
  · simp only [hreplaces.deadLetters, Account.entries, hfailure]
    exact deadLetters_insertMany server counted (toInsert results)
  · simp only [hreplaces.rowsProcessed, hprocessed, Account.span]
    rfl
  · simp only [hreplaces.rowsInserted, rowsInserted_insertMany, Account.rowsInserted, hfailure]
    exact Nat.add_assoc ..
  · simp only [hreplaces.rowsSkipped, hskipped, Account.rowsSkipped]
    rfl
  · simp only [hreplaces.rowsFailed, rowsFailed_insertMany, Account.failedRows, hfailure,
      List.length_append, hlength, ← Nat.add_assoc]
    congr 2
    split_ifs
    · exact (length_rowsWhere_isInsert state.offset results).symm
    · rfl
  · simp only [hreplaces.offset, hoffset, Account.span]
    rfl

/-- What a round that does not end the loop does: its chunk cannot be converted and goes to the dead
letters, or its documents are checked and written. -/
inductive Round (server : Server V) (job : Job V Row) (chunk : List Row) (state : State V) :
    State V → Prop
  | unconverted {error : String} (hdocuments : dataframeToDocuments job chunk = .error error)
      (haccount : accountOf server job state chunk = .unconverted state.offset chunk.length) :
      Round server job chunk state (deadLetterChunk state chunk.length error)
  | written {documents : List (Document V)} {results : List (DedupResult V)} {next : State V}
      (hdocuments : dataframeToDocuments job chunk = .ok documents)
      (hcheck : checkBatch server.fieldMatches (server.queryFailure state.chunkNum) job.dedupKey
        job.conflictStrategy state.collection documents = .ok results)
      (hnext : next = replaceEach server job.dedupKey
        (insertMany server { state with rowsSkipped := state.rowsSkipped + skipped results }
          (toInsert results)) (toReplace results))
      (haccount : accountOf server job state chunk =
        .written state.offset results ((server.insertFailure state.chunkNum).map Prod.fst)
          (replacementsOf server job.dedupKey state.chunkNum
            (insertMany server state (toInsert results)).collection (toReplace results).zipIdx)) :
      Round server job chunk state { next with
        rowsProcessed := next.rowsProcessed + chunk.length
        chunkNum := next.chunkNum + 1
        offset := next.offset + chunk.length }

theorem round_of_writeChunk (h : writeChunk server job chunk state = .ok next) :
    Round server job chunk state next := by
  unfold writeChunk at h
  split_ifs at h
  cases hdocuments : dataframeToDocuments job chunk with
  | error error =>
    simp only [hdocuments] at h
    obtain rfl := Except.ok.inj h
    exact .unconverted hdocuments (by simp only [accountOf, hdocuments])
  | ok documents =>
    simp only [hdocuments] at h
    cases hcheck : checkBatch server.fieldMatches (server.queryFailure state.chunkNum)
      job.dedupKey job.conflictStrategy state.collection documents with
    | error error =>
      rw [hcheck] at h
      cases h
    | ok results =>
      rw [hcheck] at h
      obtain rfl := Except.ok.inj h
      exact .written hdocuments hcheck rfl (by simp only [accountOf, hdocuments, hcheck])

/-- A round that does not end the loop adds the account of its chunk. -/
theorem writeChunk_adds (h : writeChunk server job chunk state = .ok next) :
    Adds (accountOf server job state chunk) state next := by
  cases round_of_writeChunk h with
  | unconverted _ haccount =>
    rw [haccount]
    exact deadLetterChunk_adds state chunk.length _
  | @written _ results _ hdocuments hcheck hnext haccount =>
    have hlength : chunk.length = results.length :=
      (dataframeToDocuments_eq_ok.mp hdocuments).length_eq.trans
        (checkBatch_results hcheck).length_eq
    rw [haccount, hlength]
    exact writeResults_adds server job.dedupKey state results hnext

/-! ## The rows of a table -/

/-- The document of a row of the table, if there is such a row and it can be converted. -/
def documentOf (job : Job V Row) (table : List Row) (row : ℕ) : Option (Document V) :=
  table[row]?.bind fun cells ↦ (rowToDocument job cells).toOption

omit [BEq V] in
theorem documentOf_of_forall₂ {table : List Row} {offset batchSize : ℕ}
    {documents : List (Document V)}
    (h : List.Forall₂ (fun row document ↦ rowToDocument job row = .ok document)
      ((table.drop offset).take batchSize) documents) {i : ℕ} {document : Document V}
    (hdocument : documents[i]? = some document) :
    documentOf job table (offset + i) = some document := by
  obtain ⟨hi, hget⟩ := List.getElem?_eq_some_iff.mp hdocument
  have hchunk : i < ((table.drop offset).take batchSize).length := h.length_eq ▸ hi
  have hrow := h.get hchunk hi
  simp only [List.get_eq_getElem, List.getElem_take, List.getElem_drop, hget] at hrow
  have htable : offset + i < table.length := by
    simp only [List.length_take, List.length_drop] at hchunk
    omega
  unfold documentOf
  rw [List.getElem?_eq_getElem htable, Option.bind_some, hrow]
  rfl

omit [BEq V] in
/-- With a field in the schema no document is empty. -/
theorem rowToDocument_ne_empty {row : Row} {document : Document V} (hfields : job.fields ≠ [])
    (h : rowToDocument job row = .ok document) : document ≠ Document.empty := by
  have hkeep : ∀ (start : Document V) (name : String) (value : V),
      (start.insert name value).fields ≠ [] := by
    intro start name value hnil
    have hget := start.get_insert_self name value
    unfold Document.get at hget
    rw [hnil] at hget
    cases hget
  have hfold : ∀ (names : List String) (start : Document V), (names ≠ [] ∨ start.fields ≠ []) →
      names.foldlM (fun document name ↦ do
        let value ← job.seriesValueToBson row name
        return document.insert name value) start = Except.ok document → document.fields ≠ [] := by
    intro names
    induction names with
    | nil =>
      intro start hstart h
      obtain rfl := Except.ok.inj h
      exact hstart.resolve_left fun hnil ↦ hnil rfl
    | cons name names ih =>
      intro start _ h
      rw [List.foldlM_cons] at h
      obtain ⟨next, hnext, h⟩ := Library.Results.bind_eq_ok.mp h
      obtain ⟨value, -, hnext⟩ := Library.Results.bind_eq_ok.mp hnext
      obtain rfl := Except.ok.inj hnext
      exact ih _ (.inr (hkeep start name value)) h
  intro hempty
  exact hfold job.fields Document.empty (.inl hfields) h (congrArg Document.fields hempty)

omit [BEq V] in
/-- Without fields in the schema every chunk can be converted. -/
theorem dataframeToDocuments_of_nil (hfields : job.fields = []) (chunk : List Row) :
    ∃ documents, dataframeToDocuments job chunk = .ok documents := by
  refine ⟨chunk.map fun _ ↦ Document.empty, dataframeToDocuments_eq_ok.mpr ?_⟩
  rw [List.forall₂_map_right_iff, List.forall₂_same]
  intro row _
  unfold rowToDocument
  rw [hfields]
  rfl

omit [BEq V] in
/-- A chunk that cannot be converted makes a valid account. -/
theorem unconverted_valid {table : List Row} {error : String} {offset size : ℕ}
    (herror : dataframeToDocuments job chunk = .error error) :
    (Account.unconverted offset size).Valid (documentOf job table) := by
  intro row _ hempty
  obtain ⟨cells, -, hcells⟩ := Option.bind_eq_some_iff.mp hempty
  have hfields : job.fields ≠ [] := by
    intro hnil
    obtain ⟨documents, hdocuments⟩ := dataframeToDocuments_of_nil hnil chunk
    rw [herror] at hdocuments
    cases hdocuments
  cases hrow : rowToDocument job cells with
  | error error =>
    rw [hrow] at hcells
    cases hcells
  | ok document =>
    rw [hrow] at hcells
    exact rowToDocument_ne_empty hfields hrow (Option.some.inj hcells)

/-- What the loop writes for a chunk of the table is a valid account of it. -/
theorem accountOf_valid {table : List Row} {batchSize : ℕ}
    (h : writeChunk server job ((table.drop state.offset).take batchSize) state = .ok next) :
    (accountOf server job state ((table.drop state.offset).take batchSize)).Valid
        (documentOf job table) ∧
      (accountOf server job state ((table.drop state.offset).take batchSize)).span =
        (state.offset, ((table.drop state.offset).take batchSize).length) := by
  cases round_of_writeChunk h with
  | unconverted hdocuments haccount =>
    rw [haccount]
    exact ⟨unconverted_valid hdocuments, rfl⟩
  | @written documents _ _ hdocuments hcheck _ haccount =>
    have hrows := dataframeToDocuments_eq_ok.mp hdocuments
    have hresults := checkBatch_results hcheck
    rw [haccount]
    refine ⟨⟨?_, fun i document hi ↦ ?_⟩, ?_⟩
    · rw [length_replacementsOf, List.length_zipIdx]
    · obtain ⟨hlength, hget⟩ := List.getElem?_eq_some_iff.mp hi
      have hdocument : i < documents.length := hresults.length_eq ▸ hlength
      have hsame : document = documents[i] := hresults.get hdocument hlength document hget
      exact documentOf_of_forall₂ hrows (List.getElem?_eq_some_iff.mpr ⟨hdocument, hsame.symm⟩)
    · exact congrArg (Prod.mk state.offset)
        (hrows.length_eq.trans hresults.length_eq).symm

/-! ## The whole loop -/

/-- The rounds of a loop add the rows of some accounts. -/
structure AddsAll (accounts : List (Account V)) (state final : State V) : Prop where
  deadLetters : final.deadLetters.map DeadLetterEntry.source =
    state.deadLetters.map DeadLetterEntry.source ++ accounts.flatMap Account.entries
  rowsProcessed : final.rowsProcessed + state.offset = state.rowsProcessed + final.offset
  rowsInserted : final.rowsInserted =
    state.rowsInserted + (accounts.map Account.rowsInserted).sum
  rowsSkipped : final.rowsSkipped = state.rowsSkipped + (accounts.map Account.rowsSkipped).sum
  rowsFailed : final.rowsFailed =
    state.rowsFailed + (accounts.map fun account ↦ account.failedRows.length).sum

omit [BEq V] in
theorem AddsAll.nil (state : State V) : AddsAll [] state state :=
  ⟨(List.append_nil _).symm, rfl, rfl, rfl, rfl⟩

omit [BEq V] in
theorem AddsAll.cons {account : Account V} {accounts : List (Account V)} {state next final : State V}
    (hfirst : Adds account state next) (hrest : AddsAll accounts next final) :
    AddsAll (account :: accounts) state final where
  deadLetters := by
    rw [hrest.deadLetters, hfirst.deadLetters, List.flatMap_cons, List.append_assoc]
  rowsProcessed := by
    have hrest := hrest.rowsProcessed
    rw [hfirst.rowsProcessed, hfirst.offset] at hrest
    omega
  rowsInserted := by
    rw [hrest.rowsInserted, hfirst.rowsInserted, List.map_cons, List.sum_cons, Nat.add_assoc]
  rowsSkipped := by
    rw [hrest.rowsSkipped, hfirst.rowsSkipped, List.map_cons, List.sum_cons, Nat.add_assoc]
  rowsFailed := by
    rw [hrest.rowsFailed, hfirst.rowsFailed, List.map_cons, List.sum_cons, Nat.add_assoc]

/-- What the record shows of the counters of the loop: all of them, or, if the last chunk could not
be converted, fewer rows than were processed. -/
def Reported (converted : Bool) (state : State V) (progress : Progress) : Prop :=
  progress.rowsInserted = state.rowsInserted ∧ progress.rowsSkipped = state.rowsSkipped ∧
    if converted then
      progress.rowsProcessed = state.rowsProcessed ∧ progress.rowsFailed = state.rowsFailed
    else progress.rowsProcessed < state.rowsProcessed

/-- One round keeps the record in step. -/
theorem updateProgress_reported {converted : Bool} {progress : Progress} (hchunk : chunk ≠ [])
    (h : writeChunk server job chunk state = .ok next) (hreported : Reported converted state progress) :
    Reported (accountOf server job state chunk).isConverted next
      (updateProgress job chunk next progress) := by
  unfold updateProgress
  cases round_of_writeChunk h with
  | unconverted hdocuments haccount =>
    rw [haccount, hdocuments]
    obtain ⟨hinserted, hskipped, hprocessed⟩ := hreported
    refine ⟨hinserted, hskipped, ?_⟩
    have hpos : 0 < chunk.length := List.length_pos_iff.mpr hchunk
    have hle : progress.rowsProcessed ≤ state.rowsProcessed := by
      split_ifs at hprocessed
      · exact hprocessed.1.le
      · exact hprocessed.le
    exact hle.trans_lt (Nat.lt_add_of_pos_right hpos)
  | written hdocuments _ _ haccount =>
    rw [haccount, hdocuments]
    exact ⟨rfl, rfl, rfl, rfl⟩

/-- Whether the last of some chunks could be converted, or else a chunk before them. -/
def lastConverted (before : Bool) (accounts : List (Account V)) : Bool :=
  (accounts.getLast?.map Account.isConverted).getD before

omit [BEq V] in
theorem lastConverted_cons (before : Bool) (account : Account V) (accounts : List (Account V)) :
    lastConverted before (account :: accounts) = lastConverted account.isConverted accounts := by
  unfold lastConverted
  rw [List.getLast?_cons]
  cases accounts.getLast? <;> rfl

/-- What a loop that ends leaves: the ledger covers the table, its accounts are valid, and the
counters, the dead letters and the record are those of the ledger. -/
structure Accounted (documentOf : ℕ → Option (Document V)) (total : ℕ)
    (accounts : List (Account V)) (state final : State V) (reported : Progress)
    (converted : Bool) : Prop where
  valid : ∀ account ∈ accounts, account.Valid documentOf
  adds : AddsAll accounts state final
  tiles : ∀ spans, Tiles spans state.offset → Tiles (accounts.map Account.span ++ spans) total
  offset : final.offset = total
  reported : Reported (lastConverted converted accounts) final reported

/-- The loop leaves what its ledger says, by induction on its rounds. -/
theorem reportChunks_accounted {table : List Row} {batchSize rounds : ℕ} {final : State V}
    {progress reported : Progress} {converted : Bool} (hbatch : 0 < batchSize)
    (hoffset : state.offset ≤ table.length) (hreported : Reported converted state progress)
    (h : reportChunks server job table batchSize rounds state progress =
      some (.ok (final, reported))) :
    Accounted (documentOf job table) table.length
      (accountsOf server job table batchSize rounds state) state final reported converted := by
  induction rounds generalizing state progress converted with
  | zero =>
    unfold reportChunks at h
    split_ifs at h with hmore
    obtain ⟨rfl, rfl⟩ := Prod.ext_iff.mp (Except.ok.inj (Option.some.inj h))
    have hend : state.offset = table.length := by omega
    exact ⟨by simp [accountsOf], AddsAll.nil state, fun spans hspans ↦ hend ▸ hspans, hend,
      hreported⟩
  | succ rounds ih =>
    unfold reportChunks at h
    unfold accountsOf
    split_ifs at h ⊢ with hmore
    · simp only at h ⊢
      set chunk := (table.drop state.offset).take batchSize with hchunk
      cases hwrite : writeChunk server job chunk state with
      | error error => simp [hwrite] at h
      | ok next =>
        simp only [hwrite] at h ⊢
        obtain ⟨hvalid, hspan⟩ := accountOf_valid hwrite
        have hadds := writeChunk_adds hwrite
        have hlength : chunk.length = min batchSize (table.length - state.offset) := by
          rw [hchunk, List.length_take, List.length_drop]
        have hnonempty : chunk ≠ [] := by
          rw [← List.length_pos_iff]
          omega
        have hnext : next.offset = state.offset + chunk.length := by
          rw [hadds.offset, hspan]
        have hrest := ih (by omega) (updateProgress_reported hnonempty hwrite hreported) h
        refine ⟨List.forall_mem_cons.mpr ⟨hvalid, hrest.valid⟩, hrest.adds.cons hadds,
          fun spans hspans ↦ ?_, hrest.offset, ?_⟩
        · have htiles := hrest.tiles _ (hnext ▸ hspans.cons chunk.length)
          rw [List.map_cons, hspan]
          exact htiles.perm List.perm_middle
        · rw [lastConverted_cons]
          exact hrest.reported
    · obtain ⟨rfl, rfl⟩ := Prod.ext_iff.mp (Except.ok.inj (Option.some.inj h))
      have hend : state.offset = table.length := by omega
      exact ⟨by simp, AddsAll.nil state, fun spans hspans ↦ hend ▸ hspans, hend, hreported⟩

/-- As many rounds as the table has rows are enough. -/
theorem reportChunks_isSome {table : List Row} {batchSize rounds : ℕ} {progress : Progress}
    (hbatch : 0 < batchSize) (hrounds : table.length ≤ state.offset + rounds) :
    (reportChunks server job table batchSize rounds state progress).isSome = true := by
  induction rounds generalizing state progress with
  | zero =>
    unfold reportChunks
    rw [if_neg (by omega)]
    rfl
  | succ rounds ih =>
    unfold reportChunks
    split_ifs with hmore
    · simp only
      cases hwrite : writeChunk server job ((table.drop state.offset).take batchSize) state with
      | error error => rfl
      | ok next =>
        have hoffset := (writeChunk_adds hwrite).offset
        rw [(accountOf_valid hwrite).2] at hoffset
        simp only [List.length_take, List.length_drop] at hoffset
        exact ih (by omega)
    · rfl

end Loop

end MongoCore.Ingestion
