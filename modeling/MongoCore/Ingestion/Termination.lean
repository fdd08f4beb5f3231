import MongoCore.Data.Json
import MongoCore.Ingestion.Cancellation
import MongoCore.Library.Chunks

/-!
# The end of an ingestion job

A job reads its table in chunks of the size its request has, after the conversion that its entry
point makes.  The gRPC call replaces a size that is not positive by the default.  The tool narrows
the size to 32 bits and takes whatever comes out, also zero.

The main result says that both loops over the chunks end, with one visit of every row, exactly when
the size that reaches them is not zero or there is no row.
-/

namespace MongoCore.Ingestion.Termination

open MongoCore.Data (Json)
open MongoCore.Library.TransitionSystem MongoCore.Library.Chunks
open MongoCore.Ingestion.Accounting MongoCore.Ingestion.ConcurrentWrites
open MongoCore.Ingestion.Cancellation

variable {V Row : Type}

/-! ## The size that reaches the engine -/

/-- The default number of rows in a chunk. -/
def defaultBatchSize : ℕ := 1000

/-- A request to ingest, as far as the size of its chunks is concerned: a gRPC call with its 32-bit
number, a call of the tool with its arguments, or a file found by a watch. -/
inductive IngestRequest where
  | ingest (batchSize : ℤ)
  | executeIngest (arguments : Json)
  | watch

def IngestRequest.batchSize : IngestRequest → ℕ
  | .ingest batchSize => if 0 < batchSize then batchSize.toNat else defaultBatchSize
  | .executeIngest arguments =>
      (((arguments.get? "batch_size").bind Json.asU64?).map (· % 2 ^ 32)).getD defaultBatchSize
  | .watch => defaultBatchSize

/-- Only the tool lets a size of zero through, for a multiple of 2 ^ 32. -/
theorem batchSize_eq_zero_iff (request : IngestRequest) :
    request.batchSize = 0 ↔ ∃ arguments size, request = .executeIngest arguments ∧
      (arguments.get? "batch_size").bind Json.asU64? = some size ∧ 2 ^ 32 ∣ size := by
  cases request with
  | ingest batchSize =>
    simp only [IngestRequest.batchSize, defaultBatchSize, reduceCtorEq, false_and, exists_false,
      iff_false]
    split_ifs with hpositive
    · omega
    · exact not_false
  | executeIngest arguments =>
    simp only [IngestRequest.batchSize, IngestRequest.executeIngest.injEq, defaultBatchSize]
    cases hsize : (arguments.get? "batch_size").bind Json.asU64? with
    | none => simp [hsize]
    | some size => simp [hsize, Nat.dvd_iff_mod_eq_zero]
  | watch => simp [IngestRequest.batchSize, defaultBatchSize]

/-! ## The chunks of the two loops -/

section Loops

variable (table : List Row) (batchSize : ℕ)

/-- The chunk that the producer of concurrent writes takes up. -/
def visitConcurrent (tasks : Tasks V) : ConcurrentWrites.Event → List (ℕ × ℕ)
  | .convert => [(tasks.offset, min (tasks.offset + batchSize) table.length)]
  | _ => []

/-- The producer has gone through the table. -/
def endedConcurrent (tasks : Tasks V) : Prop :=
  tasks.producer = .closed false ∨ tasks.producer = .returned false

/-- The chunk that sequential writes take up. -/
def visitSequential : Sequential V → SequentialEvent → List (ℕ × ℕ)
  | .writing state, .chunk => [(state.offset, min (state.offset + batchSize) table.length)]
  | _, _ => []

/-- Sequential writes have gone through the table. -/
def endedSequential : Sequential V → Prop
  | .returned (.ok _) => True
  | .returned (.error _) | .writing _ => False

def reachesConcurrent (tasks : Tasks V) (row : ℕ) : Prop :=
  Orderly table.length tasks ∧ tasks.bound = row

/-- The row that sequential writes have reached; a failed round may have reached any. -/
def reachesSequential : Sequential V → ℕ → Prop
  | .writing state, row => state.offset = row ∧ row ≤ table.length
  | .returned (.ok _), row => row = table.length
  | .returned (.error _), _ => True

/-- The producer takes up one chunk after the other. -/
theorem byChunks_concurrent (job : Job V Row) (concurrency : ℕ) :
    ByChunks (ConcurrentWrites.step job table batchSize concurrency)
      (visitConcurrent table batchSize) endedConcurrent (reachesConcurrent table) batchSize
      table.length where
  step := by
    rintro tasks row event next ⟨horderly, rfl⟩ hstep
    have hnext := step_orderly horderly hstep
    cases stepCase_of_step hstep with
    | cancel hproducer | close hproducer =>
      refine .inl ⟨rfl, hnext, ?_⟩
      simp only [Tasks.bound, hproducer]
    | send hproducer hmore =>
      obtain ⟨-, -, hbound⟩ := underway_of_converting hproducer
      rw [hbound]
      exact .inr ⟨hmore, rfl, hnext, (advance_underway _ _).2.2.2⟩
    | refuse hproducer hmore =>
      obtain ⟨-, -, hbound⟩ := underway_of_converting hproducer
      rw [hbound]
      exact .inr ⟨hmore, rfl, hnext, rfl⟩
    | deadLetterRow hproducer =>
      refine .inl ⟨rfl, hnext, ?_⟩
      simp only [Tasks.bound, hproducer]
    | countRows hproducer =>
      refine .inl ⟨rfl, hnext, (advance_underway _ _).2.2.2.trans ?_⟩
      simp only [Tasks.bound, hproducer]
    | receive | inserted | insertFailed | push | countDocs | exit =>
      exact .inl ⟨rfl, hnext, rfl⟩
    | joinCancelled hproducer | join hproducer =>
      refine .inl ⟨rfl, hnext, ?_⟩
      simp only [Tasks.bound, Tasks.report, hproducer]
  ended := by
    rintro tasks row ⟨horderly, rfl⟩ (hproducer | hproducer)
    · simp only [Tasks.bound, hproducer]
      exact horderly.closed hproducer
    · simp only [Tasks.bound, hproducer]
      exact (horderly.returned hproducer).1

variable [BEq V]

/-- Sequential writes take up one chunk after the other. -/
theorem byChunks_sequential (job : Job V Row) (collection : List (Document V))
    (server : Server V) :
    ByChunks (sequentialWrites job table batchSize collection server).step
      (visitSequential table batchSize) endedSequential (reachesSequential table) batchSize
      table.length where
  step := by
    rintro (state | result) row (_ | _) next hreaches hstep
    · obtain ⟨rfl, hrow⟩ := hreaches
      simp only [sequentialWrites] at hstep
      split_ifs at hstep with hmore
      refine .inr ⟨hmore, rfl, ?_⟩
      split at hstep
      · obtain rfl := Option.some.inj hstep
        exact trivial
      · rename_i after hwrite
        obtain rfl := Option.some.inj hstep
        have hoffset := (writeChunk_adds hwrite).offset
        rw [(accountOf_valid hwrite).2] at hoffset
        simp only [List.length_take, List.length_drop] at hoffset
        exact ⟨by omega, min_le_right _ _⟩
    · obtain ⟨rfl, hrow⟩ := hreaches
      simp only [sequentialWrites] at hstep
      split_ifs at hstep with hmore
      obtain rfl := Option.some.inj hstep
      exact .inl ⟨rfl, le_antisymm hrow (not_lt.mp hmore)⟩
    · cases hstep
    · cases hstep
  ended := by
    rintro (state | (error | _)) row hreaches hended
    · exact hended.elim
    · exact hended.elim
    · exact hreaches

end Loops

/-! ## When the loops end -/

section Ends

variable [BEq V] (table : List Row) (batchSize : ℕ)

/-- For every job, collection and database, both loops over the chunks of a table end, with one visit
of every row, and the sequential one returns within as many rounds as there are rows. -/
structure IngestionEnds (V : Type) [BEq V] (table : List Row) (batchSize : ℕ) : Prop where
  concurrent : ∀ (job : Job V Row) (collection : List (Document V)) (concurrency : ℕ),
    0 < concurrency →
      Ends (ConcurrentWrites.step job table batchSize concurrency) (visitConcurrent table batchSize)
        endedConcurrent table.length (Tasks.start concurrency collection)
  sequential : ∀ (job : Job V Row) (collection : List (Document V)) (server : Server V),
    Ends (sequentialWrites job table batchSize collection server).step
      (visitSequential table batchSize) endedSequential table.length
      (sequentialWrites job table batchSize collection server).start
  returns : ∀ (job : Job V Row) (collection : List (Document V)) (server : Server V),
    runSequentialWrites server job table batchSize collection ≠ none

variable {table batchSize} in
/-- As many rounds as the table has rows are enough. -/
theorem runSequentialWrites_ne_none (hbatch : batchSize ≠ 0 ∨ table = []) (server : Server V) (job : Job V Row)
    (collection : List (Document V)) :
    runSequentialWrites server job table batchSize collection ≠ none := by
  rcases hbatch with hbatch | rfl
  · have hsome : (reportChunks server job table batchSize table.length (State.start collection)
        Progress.start).isSome = true :=
      reportChunks_isSome (Nat.pos_of_ne_zero hbatch) (Nat.le_add_left table.length _)
    rw [runSequentialWrites, writeChunks_eq_reportChunks _ _ _ _ _ _ Progress.start]
    intro hnone
    rw [Option.map_eq_none_iff] at hnone
    rw [hnone] at hsome
    cases hsome
  · exact Option.some_ne_none _

omit [BEq V] in
/-- An empty chunk is converted and sent, and the producer stays where it is. -/
theorem exists_convert_of_zero (job : Job V Row) (hmore : 0 < table.length) :
    ∃ next, ConcurrentWrites.step job table 0 1 (Tasks.start 1 []) .convert = some next ∧
      next.offset = 0 ∧ next.chunkNum = 1 := by
  have hstart : (Tasks.start 1 [] : Tasks V).producer = .converting ∧
      (Tasks.start 1 [] : Tasks V).offset < table.length := ⟨rfl, hmore⟩
  have hdocs : dataframeToDocuments job (chunkAt table 0 (Tasks.start 1 [] : Tasks V).offset) =
      .ok [] := rfl
  have hroom : (Tasks.start 1 [] : Tasks V).channel.length < 1 * 2 := Nat.two_pos
  refine ⟨Tasks.advance { Tasks.start 1 [] with channel := [⟨[], 0⟩] } 0, ?_, rfl, rfl⟩
  simp only [ConcurrentWrites.step, convert]
  rw [if_pos hstart, hdocs]
  simp only
  rw [if_pos hroom]
  simp [Tasks.start]

/-- A job with no fields, whose rows all convert to the empty document. -/
def noFields : Job V Row where
  fields := []
  seriesValueToBson _ _ := .error ""
  dedupKey := []
  conflictStrategy := .skip

/-- Both loops end exactly when the size of a chunk is not zero, or there is no row. -/
theorem ingestionEnds_iff (request : IngestRequest) :
    IngestionEnds V table request.batchSize ↔ request.batchSize ≠ 0 ∨ table = [] := by
  constructor
  · intro hends
    by_contra hnot
    obtain ⟨hsize, htable⟩ := not_or.mp hnot
    -- the first chunk of a table with rows does not end behind its start
    have hmore : 0 < table.length := List.length_pos_of_ne_nil htable
    obtain ⟨next, hnext, -, -⟩ := exists_convert_of_zero table (noFields : Job V Row) hmore
    have hzero : request.batchSize = 0 := not_not.mp hsize
    rw [hzero] at hends
    have hrun : run (visiting (ConcurrentWrites.step (noFields : Job V Row) table 0 1)
        (visitConcurrent table 0)) (Tasks.start 1 [], []) [.convert] =
          some (next, [(0, min (0 + 0) table.length)]) :=
      run_cons_eq_some.mpr ⟨_, recorded_eq_some.mpr ⟨hnext, rfl⟩, rfl⟩
    have hadvances := (hends.concurrent noFields [] 1 Nat.one_pos _ _ _ hrun).1 _
      (List.mem_singleton.mpr rfl)
    exact absurd hadvances (by simp)
  · intro hsize
    have hchunks : request.batchSize ≠ 0 ∨ table.length = 0 := by
      rwa [List.length_eq_zero_iff]
    exact {
      concurrent := fun job collection concurrency _ ↦
        (byChunks_concurrent table request.batchSize job concurrency).ends hchunks
          ⟨start_orderly collection table.length, rfl⟩
      sequential := fun job collection server ↦
        (byChunks_sequential table request.batchSize job collection server).ends hchunks
          ⟨rfl, Nat.zero_le _⟩
      returns := fun job collection server ↦ runSequentialWrites_ne_none hsize server job collection }

/-! ## A loop over empty chunks -/

/-- Empty chunks never bring the sequential loop to its end, if the database answers and nobody
cancels the job. -/
theorem writeChunks_zero {server : Server V} {job : Job V Row} {state : State V}
    (hcancelled : ∀ chunk, server.cancelled chunk = false)
    (hmore : state.offset < table.length) (rounds : ℕ) :
    writeChunks server job table 0 rounds state = none := by
  induction rounds generalizing state with
  | zero =>
    rw [writeChunks, if_pos hmore]
  | succ rounds ih =>
    have hwrite : writeChunk server job ((table.drop state.offset).take 0) state =
        .ok { state with chunkNum := state.chunkNum + 1 } := by
      have hchecked : checkBatch server.fieldMatches (server.queryFailure state.chunkNum)
          job.dedupKey job.conflictStrategy state.collection [] = .ok [] := by
        unfold checkBatch
        split_ifs <;> rfl
      have hdocs : dataframeToDocuments job [] = .ok [] := rfl
      simp only [writeChunk, hcancelled, List.take_zero, hdocs, Bool.false_eq_true, if_false]
      simp [hchecked, bind, Except.bind, pure, Except.pure, insertMany, replaceEach, toInsert,
        toReplace, skipped]
    rw [writeChunks, if_pos hmore]
    simp only [hwrite]
    exact ih hmore

/-- A call of the tool whose size is 2 ^ 32. -/
def hugeBatches : IngestRequest :=
  .executeIngest (.object [("batch_size", .number (.posInt (2 ^ 32)))])

/-- The size is narrowed to zero, and the job writes empty chunks for any number of rounds. -/
theorem hugeBatches_never_end :
    hugeBatches.batchSize = 0 ∧
    (∀ rounds, writeChunks willing numbers [7] hugeBatches.batchSize rounds (State.start []) =
      none) ∧
    ¬ IngestionEnds ℕ [7] hugeBatches.batchSize := by
  have hzero : hugeBatches.batchSize = 0 := by decide
  refine ⟨hzero, fun rounds ↦ ?_, fun hends ↦ ?_⟩
  · have hmore : (State.start [] : State ℕ).offset < [7].length := Nat.one_pos
    rw [hzero]
    exact writeChunks_zero [7] (fun _ ↦ rfl) hmore rounds
  · have hmore : (State.start [] : State ℕ).offset < [7].length := Nat.one_pos
    have hreturns := hends.returns numbers [] willing
    rw [hzero, runSequentialWrites] at hreturns
    exact hreturns (writeChunks_zero [7] (fun _ ↦ rfl) hmore _)

end Ends

end MongoCore.Ingestion.Termination
