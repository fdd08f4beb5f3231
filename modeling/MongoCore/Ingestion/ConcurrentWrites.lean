import MongoCore.Ingestion.SequentialAccounts
import MongoCore.Library.TransitionSystem
import Mathlib.Algebra.Order.Group.Multiset
import Mathlib.Tactic.Abel

/-!
# Concurrent writes of an ingestion job

A job without a dedup key converts its table chunk by chunk and sends the chunks over a bounded
channel to a number of writer tasks.  The writers share the channel, the counters and the dead
letters.

An event lets the producer or one writer go on to its next call to the database.  The database
chooses how a call to insert comes out.
-/

namespace MongoCore.Ingestion.ConcurrentWrites

open MongoCore.Library.TransitionSystem

variable {V Row : Type}

/-! ## The tasks -/

/-- The documents of a chunk, with the first row of the chunk. -/
structure Batch (V : Type) where
  docs : List (Document V)
  offset : ℕ

/-- What a writer does: it waits at the channel, it inserts a batch, it dead-letters what is left of
a batch of some size, or it has left its loop. -/
inductive Writer (V : Type) where
  | receiving
  | inserting (batch : Batch V)
  | deadLettering (docCount : ℕ) (docs : List (Document V)) (row : ℕ) (error : String)
  | exited

/-- What the producer does: it converts chunks, it dead-letters what is left of a chunk, it has
closed the channel, or it has returned. -/
inductive Producer where
  | converting
  | deadLettering (row stop : ℕ) (error : String)
  | closed (cancelled : Bool)
  | returned (cancelled : Bool)
  deriving DecidableEq

/-- The tasks of a job with the channel, the collection, the dead letters, the counters and the
record of the job. -/
structure Tasks (V : Type) where
  producer : Producer
  offset : ℕ
  chunkNum : ℕ
  channel : List (Batch V)
  writers : List (Writer V)
  collection : List (Document V)
  deadLetters : List (DeadLetterEntry V)
  rowsInserted : ℕ
  rowsFailed : ℕ
  progress : Progress

/-- The tasks of a job before their first step. -/
def Tasks.start (concurrency : ℕ) (collection : List (Document V)) : Tasks V where
  producer := .converting
  offset := 0
  chunkNum := 0
  channel := []
  writers := List.replicate concurrency .receiving
  collection := collection
  deadLetters := []
  rowsInserted := 0
  rowsFailed := 0
  progress := Progress.start

/-! ## The steps -/

/-- What can happen.  The events of a writer carry its index.  A failed call to insert stores a
number of documents and has a reason. -/
inductive Event where
  | cancel
  | convert
  | deadLetterRow
  | close
  | receive (i : ℕ)
  | insertMany (i : ℕ) (failure : Option (ℕ × String))
  | push (i : ℕ)
  | exit (i : ℕ)
  | join
  deriving DecidableEq

/-- Report the counters to the record of the job. -/
def Tasks.report (tasks : Tasks V) (rowsProcessed : ℕ) : Tasks V :=
  { tasks with progress := {
      rowsProcessed := rowsProcessed
      rowsInserted := tasks.rowsInserted
      rowsSkipped := 0
      rowsFailed := tasks.rowsFailed
      lastCommittedChunk := tasks.chunkNum } }

/-- The producer goes on to the next chunk, and reports every fourth time. -/
def Tasks.advance (tasks : Tasks V) (stop : ℕ) : Tasks V :=
  let next := { tasks with producer := .converting, offset := stop, chunkNum := tasks.chunkNum + 1 }
  if next.chunkNum % 4 = 0 then next.report stop else next

def Tasks.setWriter (tasks : Tasks V) (i : ℕ) (writer : Writer V) : Tasks V :=
  { tasks with writers := tasks.writers.set i writer }

def chunkAt (table : List Row) (batchSize offset : ℕ) : List Row :=
  (table.drop offset).take batchSize

/-- The producer converts the next chunk, and sends it if there is room in the channel. -/
def convert (job : Job V Row) (table : List Row) (batchSize concurrency : ℕ) (tasks : Tasks V) :
    Option (Tasks V) :=
  if tasks.producer = .converting ∧ tasks.offset < table.length then
    let stop := min (tasks.offset + batchSize) table.length
    match dataframeToDocuments job (chunkAt table batchSize tasks.offset) with
    | .ok docs =>
        if tasks.channel.length < concurrency * 2 then
          let sent : Tasks V := { tasks with channel := tasks.channel ++ [⟨docs, tasks.offset⟩] }
          some (sent.advance stop)
        else none
    | .error error =>
        some { tasks with producer := .deadLettering tasks.offset stop error }
  else none

/-- The producer dead-letters the next row of a chunk that it could not convert, or counts the rows
of the chunk. -/
def deadLetterRow (tasks : Tasks V) : Option (Tasks V) :=
  match tasks.producer with
  | .deadLettering row stop error =>
      if row < stop then
        some { tasks with
          producer := .deadLettering (row + 1) stop error
          deadLetters := tasks.deadLetters ++
            [⟨row, Document.empty, s!"Conversion error: {error}", "conversion"⟩] }
      else
        let counted : Tasks V := { tasks with rowsFailed := tasks.rowsFailed + (stop - tasks.offset) }
        some (counted.advance stop)
  | .converting | .closed _ | .returned _ => none

def receive (tasks : Tasks V) (i : ℕ) : Option (Tasks V) :=
  match tasks.writers[i]?, tasks.channel with
  | some .receiving, batch :: channel =>
      some { tasks.setWriter i (.inserting batch) with channel := channel }
  | _, _ => none

/-- The call to insert of a writer comes back. -/
def insertMany (tasks : Tasks V) (i : ℕ) (failure : Option (ℕ × String)) : Option (Tasks V) :=
  match tasks.writers[i]?, failure with
  | some (.inserting batch), none =>
      some { tasks.setWriter i .receiving with
        collection := tasks.collection ++ batch.docs
        rowsInserted := tasks.rowsInserted + batch.docs.length }
  | some (.inserting batch), some (stored, error) =>
      some { tasks.setWriter i (.deadLettering batch.docs.length batch.docs batch.offset error) with
        collection := tasks.collection ++ batch.docs.take stored }
  | _, _ => none

/-- A writer dead-letters the next document of a batch, or counts the documents of the batch. -/
def push (tasks : Tasks V) (i : ℕ) : Option (Tasks V) :=
  match tasks.writers[i]? with
  | some (.deadLettering docCount (doc :: docs) row error) =>
      some { tasks.setWriter i (.deadLettering docCount docs (row + 1) error) with
        deadLetters := tasks.deadLetters ++ [⟨row, doc, s!"Insert error: {error}", "write"⟩] }
  | some (.deadLettering docCount [] _ _) =>
      some { tasks.setWriter i .receiving with rowsFailed := tasks.rowsFailed + docCount }
  | _ => none

/-- A writer finds the channel closed and empty, and leaves its loop. -/
def exit (tasks : Tasks V) (i : ℕ) : Option (Tasks V) :=
  match tasks.writers[i]?, tasks.channel, tasks.producer with
  | some .receiving, [], .closed _ => some (tasks.setWriter i .exited)
  | _, _, _ => none

def Writer.isExited : Writer V → Bool
  | .exited => true
  | .receiving | .inserting _ | .deadLettering _ _ _ _ => false

/-- The producer has waited for the writers.  It reports for the last time, unless the job was
cancelled. -/
def join (total : ℕ) (tasks : Tasks V) : Option (Tasks V) :=
  match tasks.producer with
  | .closed cancelled =>
      if tasks.writers.all Writer.isExited then
        let next := if cancelled then tasks else tasks.report total
        some { next with producer := .returned cancelled }
      else none
  | .converting | .deadLettering _ _ _ | .returned _ => none

def step (job : Job V Row) (table : List Row) (batchSize concurrency : ℕ) (tasks : Tasks V) :
    Event → Option (Tasks V)
  | .cancel =>
      if tasks.producer = .converting ∧ tasks.offset < table.length then
        some { tasks with producer := .closed true }
      else none
  | .convert => convert job table batchSize concurrency tasks
  | .deadLetterRow => deadLetterRow tasks
  | .close =>
      if tasks.producer = .converting ∧ ¬ tasks.offset < table.length then
        some { tasks with producer := .closed false }
      else none
  | .receive i => receive tasks i
  | .insertMany i failure => insertMany tasks i failure
  | .push i => push tasks i
  | .exit i => exit tasks i
  | .join => join table.length tasks

/-! ## What a step does -/

section StepCase

variable (job : Job V Row) (table : List Row) (batchSize concurrency : ℕ)

inductive StepCase (tasks : Tasks V) : Event → Tasks V → Prop
  | cancel (producer : tasks.producer = .converting) (more : tasks.offset < table.length) :
      StepCase tasks .cancel { tasks with producer := .closed true }
  | send {docs : List (Document V)} (producer : tasks.producer = .converting)
      (more : tasks.offset < table.length)
      (converted : dataframeToDocuments job (chunkAt table batchSize tasks.offset) = .ok docs)
      (room : tasks.channel.length < concurrency * 2) :
      StepCase tasks .convert
        (Tasks.advance { tasks with channel := tasks.channel ++ [⟨docs, tasks.offset⟩] }
          (min (tasks.offset + batchSize) table.length))
  | refuse {error : String} (producer : tasks.producer = .converting)
      (more : tasks.offset < table.length)
      (failed : dataframeToDocuments job (chunkAt table batchSize tasks.offset) = .error error) :
      StepCase tasks .convert
        { tasks with
          producer := .deadLettering tasks.offset (min (tasks.offset + batchSize) table.length)
            error }
  | deadLetterRow {row stop : ℕ} {error : String}
      (producer : tasks.producer = .deadLettering row stop error) (more : row < stop) :
      StepCase tasks .deadLetterRow
        { tasks with
          producer := .deadLettering (row + 1) stop error
          deadLetters := tasks.deadLetters ++
            [⟨row, Document.empty, s!"Conversion error: {error}", "conversion"⟩] }
  | countRows {row stop : ℕ} {error : String}
      (producer : tasks.producer = .deadLettering row stop error) (done : ¬ row < stop) :
      StepCase tasks .deadLetterRow
        (Tasks.advance { tasks with rowsFailed := tasks.rowsFailed + (stop - tasks.offset) } stop)
  | close (producer : tasks.producer = .converting) (done : ¬ tasks.offset < table.length) :
      StepCase tasks .close { tasks with producer := .closed false }
  | receive {i : ℕ} {batch : Batch V} {channel : List (Batch V)}
      (writer : tasks.writers[i]? = some .receiving) (received : tasks.channel = batch :: channel) :
      StepCase tasks (.receive i) { tasks.setWriter i (.inserting batch) with channel := channel }
  | inserted {i : ℕ} {batch : Batch V} (writer : tasks.writers[i]? = some (.inserting batch)) :
      StepCase tasks (.insertMany i none)
        { tasks.setWriter i .receiving with
          collection := tasks.collection ++ batch.docs
          rowsInserted := tasks.rowsInserted + batch.docs.length }
  | insertFailed {i stored : ℕ} {batch : Batch V} {error : String}
      (writer : tasks.writers[i]? = some (.inserting batch)) :
      StepCase tasks (.insertMany i (some (stored, error)))
        { tasks.setWriter i (.deadLettering batch.docs.length batch.docs batch.offset error) with
          collection := tasks.collection ++ batch.docs.take stored }
  | push {i docCount row : ℕ} {doc : Document V} {docs : List (Document V)} {error : String}
      (writer : tasks.writers[i]? = some (.deadLettering docCount (doc :: docs) row error)) :
      StepCase tasks (.push i)
        { tasks.setWriter i (.deadLettering docCount docs (row + 1) error) with
          deadLetters := tasks.deadLetters ++ [⟨row, doc, s!"Insert error: {error}", "write"⟩] }
  | countDocs {i docCount row : ℕ} {error : String}
      (writer : tasks.writers[i]? = some (.deadLettering docCount [] row error)) :
      StepCase tasks (.push i)
        { tasks.setWriter i .receiving with rowsFailed := tasks.rowsFailed + docCount }
  | exit {i : ℕ} {cancelled : Bool} (writer : tasks.writers[i]? = some .receiving)
      (empty : tasks.channel = []) (producer : tasks.producer = .closed cancelled) :
      StepCase tasks (.exit i) (tasks.setWriter i .exited)
  | joinCancelled (producer : tasks.producer = .closed true)
      (exited : tasks.writers.all Writer.isExited = true) :
      StepCase tasks .join { tasks with producer := .returned true }
  | join (producer : tasks.producer = .closed false)
      (exited : tasks.writers.all Writer.isExited = true) :
      StepCase tasks .join { tasks.report table.length with producer := .returned false }

variable {job table batchSize concurrency}

/-- Every step is of one of these kinds. -/
theorem stepCase_of_step {tasks next : Tasks V} {event : Event}
    (hstep : step job table batchSize concurrency tasks event = some next) :
    StepCase job table batchSize concurrency tasks event next := by
  cases event with
  | cancel =>
    simp only [step] at hstep
    split_ifs at hstep with hstart
    obtain rfl := Option.some.inj hstep
    exact .cancel hstart.1 hstart.2
  | convert =>
    simp only [step, convert] at hstep
    by_cases hstart : tasks.producer = .converting ∧ tasks.offset < table.length
    · rw [if_pos hstart] at hstep
      cases hdocuments : dataframeToDocuments job (chunkAt table batchSize tasks.offset) with
      | ok docs =>
        simp only [hdocuments] at hstep
        split_ifs at hstep with hroom
        obtain rfl := Option.some.inj hstep
        exact .send hstart.1 hstart.2 hdocuments hroom
      | error error =>
        simp only [hdocuments] at hstep
        obtain rfl := Option.some.inj hstep
        exact .refuse hstart.1 hstart.2 hdocuments
    · rw [if_neg hstart] at hstep
      cases hstep
  | deadLetterRow =>
    simp only [step, deadLetterRow] at hstep
    split at hstep
    · split_ifs at hstep with hmore
      · obtain rfl := Option.some.inj hstep
        exact .deadLetterRow ‹_› hmore
      · obtain rfl := Option.some.inj hstep
        exact .countRows ‹_› hmore
    all_goals cases hstep
  | close =>
    simp only [step] at hstep
    split_ifs at hstep with hstart
    obtain rfl := Option.some.inj hstep
    exact .close hstart.1 hstart.2
  | receive i =>
    simp only [step, receive] at hstep
    split at hstep <;> cases hstep
    exact .receive ‹_› ‹_›
  | insertMany i failure =>
    simp only [step, insertMany] at hstep
    split at hstep <;> cases hstep
    · exact .inserted ‹_›
    · exact .insertFailed ‹_›
  | push i =>
    simp only [step, push] at hstep
    split at hstep <;> cases hstep
    · exact .push ‹_›
    · exact .countDocs ‹_›
  | exit i =>
    simp only [step, exit] at hstep
    split at hstep <;> cases hstep
    exact .exit ‹_› ‹_› ‹_›
  | join =>
    simp only [step, join] at hstep
    split at hstep
    · rename_i cancelled hproducer
      by_cases hall : tasks.writers.all Writer.isExited = true
      · rw [if_pos hall] at hstep
        obtain rfl := Option.some.inj hstep
        cases cancelled with
        | false => exact .join hproducer hall
        | true => exact .joinCancelled hproducer hall
      · rw [if_neg hall] at hstep
        cases hstep
    all_goals cases hstep

end StepCase

/-! ## The ledger -/

/-- The account of a batch: its rows are all to be inserted. -/
def Batch.account (batch : Batch V) (failure : Option ℕ) : Account V :=
  .written batch.offset (batch.docs.map .insert) failure []

/-- The account that an event completes, if any. -/
def account (job : Job V Row) (table : List Row) (batchSize : ℕ) (tasks : Tasks V) :
    Event → List (Account V)
  | .convert =>
      match dataframeToDocuments job (chunkAt table batchSize tasks.offset) with
      | .ok _ => []
      | .error _ =>
          [.unconverted tasks.offset (chunkAt table batchSize tasks.offset).length]
  | .insertMany i failure =>
      match tasks.writers[i]? with
      | some (.inserting batch) => [batch.account (failure.map Prod.fst)]
      | _ => []
  | _ => []

def accountedStep (job : Job V Row) (table : List Row) (batchSize concurrency : ℕ) :
    Tasks V × List (Account V) → Event → Option (Tasks V × List (Account V)) :=
  recorded (step job table batchSize concurrency) fun tasks accounts event ↦
    accounts ++ account job table batchSize tasks event

/-! ## What is under way -/

def Writer.batches : Writer V → Multiset (Batch V)
  | .inserting batch => {batch}
  | .receiving | .deadLettering _ _ _ _ | .exited => 0

/-- The dead letters that a writer has still to push. -/
def Writer.pending : Writer V → Multiset (ℕ × Document V)
  | .deadLettering _ docs row _ => ↑((docs.zipIdx row).map fun (document, row) ↦ (row, document))
  | .receiving | .inserting _ | .exited => 0

/-- The failed rows that a writer has still to count. -/
def Writer.failing : Writer V → ℕ
  | .deadLettering docCount _ _ _ => docCount
  | .receiving | .inserting _ | .exited => 0

/-- The dead letters that the producer has still to push. -/
def Producer.pending : Producer → Multiset (ℕ × Document V)
  | .deadLettering row stop _ =>
      Multiset.map (fun row ↦ (row, Document.empty)) ↑(List.range' row (stop - row))
  | .converting | .closed _ | .returned _ => 0

/-- The row before which all chunks are converted, or are known not to be. -/
def Tasks.bound (tasks : Tasks V) : ℕ :=
  match tasks.producer with
  | .deadLettering _ stop _ => stop
  | .converting | .closed _ | .returned _ => tasks.offset

def Tasks.inFlight (tasks : Tasks V) : Multiset (Batch V) :=
  ↑tasks.channel + (tasks.writers.map Writer.batches).sum

/-- The dead letters that are still to be pushed. -/
def Tasks.pending (tasks : Tasks V) : Multiset (ℕ × Document V) :=
  tasks.producer.pending + (tasks.writers.map Writer.pending).sum

/-- The failed rows that are still to be counted. -/
def Tasks.failing (tasks : Tasks V) : ℕ :=
  (tasks.bound - tasks.offset) + (tasks.writers.map Writer.failing).sum

/-- The first row of a batch and the number of its rows. -/
def Batch.span (batch : Batch V) : ℕ × ℕ := (batch.offset, batch.docs.length)

def Batch.Valid (documentOf : ℕ → Option (Document V)) (batch : Batch V) : Prop :=
  ∀ (i : ℕ) (document : Document V), batch.docs[i]? = some document →
    documentOf (batch.offset + i) = some document

/-- The ledger accounts for what the tasks have done; the rest is under way. -/
structure Balanced (documentOf : ℕ → Option (Document V)) (tasks : Tasks V)
    (accounts : List (Account V)) : Prop where
  valid : ∀ account ∈ accounts, account.Valid documentOf
  skips : ∀ account ∈ accounts, account.rowsSkipped = 0
  batches : ∀ batch ∈ tasks.inFlight, batch.Valid documentOf
  deadLetters : (↑(tasks.deadLetters.map DeadLetterEntry.source) : Multiset (ℕ × Document V)) +
    tasks.pending = ↑(accounts.flatMap Account.entries)
  rowsInserted : tasks.rowsInserted = (accounts.map Account.rowsInserted).sum
  rowsFailed : tasks.rowsFailed + tasks.failing =
    (accounts.map fun account ↦ account.failedRows.length).sum
  tiles : ∃ spans : List (ℕ × ℕ), (↑spans : Multiset (ℕ × ℕ)) =
    ↑(accounts.map Account.span) + tasks.inFlight.map Batch.span ∧ Tiles spans tasks.bound

/-- The producer goes through the table, the writers leave when it is done, and the last report
comes when they have left. -/
structure Orderly (total : ℕ) (tasks : Tasks V) : Prop where
  offset : tasks.offset ≤ total
  deadLettering : ∀ row stop error, tasks.producer = .deadLettering row stop error →
    tasks.offset ≤ row ∧ row ≤ stop ∧ stop ≤ total
  closed : tasks.producer = .closed false → tasks.offset = total
  emptied : ∀ writer ∈ tasks.writers, writer.isExited = true →
    tasks.channel = [] ∧ ∃ cancelled, tasks.producer = .closed cancelled ∨
      tasks.producer = .returned cancelled
  joined : ∀ cancelled, tasks.producer = .returned cancelled →
    ∀ writer ∈ tasks.writers, writer.isExited = true
  returned : tasks.producer = .returned false → tasks.offset = total ∧
    tasks.progress = ⟨total, tasks.rowsInserted, 0, tasks.rowsFailed, tasks.chunkNum⟩

/-- A sum over the writers before and after one of them changes. -/
theorem exists_sum_set {M : Type*} [AddCommMonoid M] (f : Writer V → M) {writers : List (Writer V)}
    {i : ℕ} {old : Writer V} (h : writers[i]? = some old) (new : Writer V) :
    ∃ rest, (writers.map f).sum = f old + rest ∧
      ((writers.set i new).map f).sum = f new + rest := by
  obtain ⟨hi, rfl⟩ := List.getElem?_eq_some_iff.mp h
  refine ⟨((writers.eraseIdx i).map f).sum, ?_, ?_⟩
  · exact ((List.getElem_cons_eraseIdx_perm hi).map f).sum_eq.symm.trans List.sum_cons
  · exact ((List.set_perm_cons_eraseIdx hi new).map f).sum_eq.trans List.sum_cons

/-! ## The account of a batch -/

@[simp] theorem toInsert_map_insert (docs : List (Document V)) :
    toInsert (docs.map .insert) = docs := by
  unfold toInsert
  rw [List.filterMap_map]
  exact List.filterMap_some

@[simp] theorem toReplace_map_insert (docs : List (Document V)) :
    toReplace (docs.map .insert) = [] := by
  unfold toReplace
  rw [List.filterMap_map, List.filterMap_eq_nil_iff]
  exact fun _ _ ↦ rfl

@[simp] theorem skipped_map_insert (docs : List (Document V)) :
    skipped (docs.map .insert) = 0 := by
  unfold skipped
  rw [List.countP_map, List.countP_eq_zero]
  exact fun _ _ ↦ Bool.false_ne_true

theorem rowsWhere_isInsert_map_insert (docs : List (Document V)) (row : ℕ) :
    rowsWhere DedupResult.isInsert row (docs.map .insert) = List.range' row docs.length := by
  induction docs generalizing row with
  | nil => rfl
  | cons document docs ih =>
    rw [List.map_cons, rowsWhere, ih]
    rfl

namespace Batch

variable {documentOf : ℕ → Option (Document V)}

@[simp] theorem span_account (batch : Batch V) (failure : Option ℕ) :
    (batch.account failure).span = batch.span := by
  simp [account, Account.span, span]

@[simp] theorem rowsSkipped_account (batch : Batch V) (failure : Option ℕ) :
    (batch.account failure).rowsSkipped = 0 := by
  simp [account, Account.rowsSkipped]

@[simp] theorem rowsInserted_account (batch : Batch V) (failure : Option ℕ) :
    (batch.account failure).rowsInserted = if failure.isSome then 0 else batch.docs.length := by
  simp [account, Account.rowsInserted]

theorem entries_account (batch : Batch V) (failure : Option ℕ) :
    (batch.account failure).entries = if failure.isSome then
      (batch.docs.zipIdx batch.offset).map fun (document, row) ↦ (row, document) else [] := by
  simp [account, Account.entries]

theorem failedRows_account (batch : Batch V) (failure : Option ℕ) :
    (batch.account failure).failedRows = if failure.isSome then
      List.range' batch.offset batch.docs.length else [] := by
  have hnone : rowsReplaced .failed
      (rowsWhere DedupResult.isReplacement batch.offset (batch.docs.map .insert)) [] = [] := by
    cases rowsWhere DedupResult.isReplacement batch.offset (batch.docs.map .insert) <;> rfl
  simp only [account, Account.failedRows, hnone, List.append_nil, rowsWhere_isInsert_map_insert]

theorem valid_account {batch : Batch V} (h : batch.Valid documentOf) (failure : Option ℕ) :
    (batch.account failure).Valid documentOf := by
  refine ⟨by simp, fun i document hi ↦ ?_⟩
  rw [List.getElem?_map, Option.map_eq_some_iff] at hi
  obtain ⟨other, hother, heq⟩ := hi
  obtain rfl := DedupResult.insert.inj heq
  exact h i other hother

end Batch

/-! ## Steps keep the balance -/

section Balance

variable {documentOf : ℕ → Option (Document V)} {tasks next : Tasks V}
  {accounts : List (Account V)}

/-- What has to be shown of a step for the balance to be kept: what is under way and what is done
change by the same amount, and at most the next chunk of the table is added. -/
structure Moves (documentOf : ℕ → Option (Document V)) (tasks next : Tasks V)
    (added : List (Account V)) : Prop where
  valid : ∀ account ∈ added, account.Valid documentOf ∧ account.rowsSkipped = 0
  batches : ∀ batch ∈ next.inFlight, batch ∈ tasks.inFlight ∨ batch.Valid documentOf
  deadLetters : (↑(next.deadLetters.map DeadLetterEntry.source) : Multiset (ℕ × Document V)) +
    next.pending = ↑(tasks.deadLetters.map DeadLetterEntry.source) + tasks.pending +
      ↑(added.flatMap Account.entries)
  rowsInserted : next.rowsInserted = tasks.rowsInserted + (added.map Account.rowsInserted).sum
  rowsFailed : next.rowsFailed + next.failing = tasks.rowsFailed + tasks.failing +
    (added.map fun account ↦ account.failedRows.length).sum
  tiles : ∃ grown : List (ℕ × ℕ), (↑(added.map Account.span) : Multiset (ℕ × ℕ)) +
      next.inFlight.map Batch.span = tasks.inFlight.map Batch.span + ↑grown ∧
    (grown = [] ∧ next.bound = tasks.bound ∨
      ∃ size, grown = [(tasks.bound, size)] ∧ next.bound = tasks.bound + size)

theorem Balanced.step {added : List (Account V)} (h : Balanced documentOf tasks accounts)
    (hmoves : Moves documentOf tasks next added) :
    Balanced documentOf next (accounts ++ added) where
  valid := by
    intro account haccount
    rcases List.mem_append.mp haccount with haccount | haccount
    · exact h.valid account haccount
    · exact (hmoves.valid account haccount).1
  skips := by
    intro account haccount
    rcases List.mem_append.mp haccount with haccount | haccount
    · exact h.skips account haccount
    · exact (hmoves.valid account haccount).2
  batches := fun batch hbatch ↦ (hmoves.batches batch hbatch).elim (h.batches batch) id
  deadLetters := by
    rw [hmoves.deadLetters, h.deadLetters, List.flatMap_append, Multiset.coe_add]
  rowsInserted := by
    rw [hmoves.rowsInserted, h.rowsInserted, List.map_append, List.sum_append]
  rowsFailed := by
    rw [hmoves.rowsFailed, h.rowsFailed, List.map_append, List.sum_append]
  tiles := by
    obtain ⟨spans, hspans, htiles⟩ := h.tiles
    obtain ⟨grown, hmove, hgrown⟩ := hmoves.tiles
    have hall : (↑(grown ++ spans) : Multiset (ℕ × ℕ)) =
        ↑((accounts ++ added).map Account.span) + next.inFlight.map Batch.span := by
      rw [List.map_append, ← Multiset.coe_add, ← Multiset.coe_add, add_assoc, hmove, hspans]
      abel
    rcases hgrown with ⟨rfl, hbound⟩ | ⟨size, rfl, hbound⟩
    · exact ⟨spans, hall, hbound ▸ htiles⟩
    · exact ⟨_, hall, hbound ▸ htiles.cons size⟩

/-- A step that does not touch what is under way. -/
theorem Moves.of_eq (hinFlight : next.inFlight = tasks.inFlight)
    (hpending : next.pending = tasks.pending) (hfailing : next.failing = tasks.failing)
    (hbound : next.bound = tasks.bound) (hletters : next.deadLetters = tasks.deadLetters)
    (hinserted : next.rowsInserted = tasks.rowsInserted)
    (hfailed : next.rowsFailed = tasks.rowsFailed) : Moves documentOf tasks next [] where
  valid := by simp
  batches := fun batch hbatch ↦ .inl (hinFlight ▸ hbatch)
  deadLetters := by simp [hletters, hpending]
  rowsInserted := hinserted
  rowsFailed := by simp [hfailed, hfailing]
  tiles := ⟨[], by simp [hinFlight], .inl ⟨rfl, hbound⟩⟩

/-- What is under way before and after one writer changes. -/
theorem exists_setWriter {i : ℕ} {old : Writer V} (h : tasks.writers[i]? = some old)
    (new : Writer V) : ∃ (batches : Multiset (Batch V)) (letters : Multiset (ℕ × Document V))
      (rows : ℕ),
      (tasks.inFlight = old.batches + batches ∧
        (tasks.setWriter i new).inFlight = new.batches + batches) ∧
      (tasks.pending = old.pending + letters ∧
        (tasks.setWriter i new).pending = new.pending + letters) ∧
      (tasks.failing = old.failing + rows ∧
        (tasks.setWriter i new).failing = new.failing + rows) := by
  obtain ⟨batches, hbefore, hafter⟩ := exists_sum_set Writer.batches h new
  obtain ⟨letters, hletters, hletters'⟩ := exists_sum_set Writer.pending h new
  obtain ⟨rows, hrows, hrows'⟩ := exists_sum_set Writer.failing h new
  refine ⟨↑tasks.channel + batches, tasks.producer.pending + letters,
    tasks.bound - tasks.offset + rows, ⟨?_, ?_⟩, ⟨?_, ?_⟩, ?_, ?_⟩
  · rw [Tasks.inFlight, hbefore]
    abel
  · change (↑tasks.channel : Multiset (Batch V)) + ((tasks.writers.set i new).map _).sum = _
    rw [hafter]
    abel
  · rw [Tasks.pending, hletters]
    abel
  · change tasks.producer.pending + ((tasks.writers.set i new).map _).sum = _
    rw [hletters']
    abel
  · rw [Tasks.failing, hrows]
    omega
  · change tasks.bound - tasks.offset + ((tasks.writers.set i new).map _).sum = _
    rw [hrows']
    omega

/-! ### Writers -/

/-- A writer takes a batch out of the channel. -/
theorem receive_moves {i : ℕ} (hstep : receive tasks i = some next) :
    Moves documentOf tasks next [] := by
  unfold receive at hstep
  split at hstep
  · next batch channel hwriter hchannel =>
    obtain rfl := Option.some.inj hstep
    obtain ⟨batches, letters, rows, ⟨hbatches, hbatches'⟩, ⟨hletters, hletters'⟩, hrows, hrows'⟩ :=
      exists_setWriter hwriter (.inserting batch)
    refine Moves.of_eq ?_ (hletters'.trans hletters.symm) (hrows'.trans hrows.symm) rfl rfl rfl rfl
    have hall : (tasks.setWriter i (.inserting batch)).inFlight = {batch} + tasks.inFlight := by
      rw [hbatches', hbatches, Writer.batches, Writer.batches, zero_add]
    have hchannel' : (tasks.setWriter i (.inserting batch)).inFlight =
        {batch} + (↑channel + ((tasks.writers.set i (.inserting batch)).map Writer.batches).sum) := by
      rw [← add_assoc, Multiset.singleton_add, Multiset.cons_coe, ← hchannel]
      rfl
    exact add_left_cancel (hchannel'.symm.trans hall)
  · cases hstep

/-- A call to insert comes back, and the batch has its account. -/
theorem insertMany_moves {i : ℕ} {failure : Option (ℕ × String)} {batch : Batch V}
    (hwriter : tasks.writers[i]? = some (.inserting batch)) (hvalid : batch.Valid documentOf)
    (hstep : insertMany tasks i failure = some next) :
    Moves documentOf tasks next [batch.account (failure.map Prod.fst)] := by
  have hspans : ∀ rest : Multiset (Batch V), tasks.inFlight = {batch} + rest →
      (↑([batch.account (failure.map Prod.fst)].map Account.span) : Multiset (ℕ × ℕ)) +
        rest.map Batch.span = tasks.inFlight.map Batch.span + ↑([] : List (ℕ × ℕ)) := by
    intro rest hrest
    rw [hrest, Multiset.map_add, Multiset.map_singleton, List.map_singleton, Batch.span_account,
      Multiset.coe_singleton, Multiset.coe_nil, add_zero]
  have haccount : ∀ account ∈ [batch.account (failure.map Prod.fst)],
      account.Valid documentOf ∧ account.rowsSkipped = 0 := by
    intro account haccount
    obtain rfl := List.mem_singleton.mp haccount
    exact ⟨batch.valid_account hvalid _, batch.rowsSkipped_account _⟩
  unfold insertMany at hstep
  rw [hwriter] at hstep
  cases failure with
  | none =>
    obtain rfl := Option.some.inj hstep
    obtain ⟨batches, letters, rows, ⟨hbatches, hbatches'⟩, ⟨hletters, hletters'⟩, hrows, hrows'⟩ :=
      exists_setWriter hwriter .receiving
    rw [Writer.batches, zero_add] at hbatches'
    refine ⟨haccount, fun other hother ↦ .inl ?_, ?_, ?_, ?_,
      [], ?_, .inl ⟨rfl, rfl⟩⟩
    · exact hbatches ▸ Multiset.mem_add.mpr (.inr (hbatches' ▸ hother))
    · have hpending : (tasks.setWriter i .receiving).pending = tasks.pending :=
        hletters'.trans hletters.symm
      have hentries : (batch.account none).entries = [] := batch.entries_account none
      rw [List.flatMap_singleton, Option.map_none, hentries, Multiset.coe_nil, add_zero]
      exact congrArg _ hpending
    · simp
    · have hfailing : (tasks.setWriter i .receiving).failing = tasks.failing :=
        hrows'.trans hrows.symm
      have hfailedRows : (batch.account none).failedRows = [] := batch.failedRows_account none
      rw [List.map_singleton, List.sum_singleton, Option.map_none, hfailedRows]
      exact congrArg (tasks.rowsFailed + ·) hfailing
    · exact hbatches' ▸ hspans batches hbatches
  | some failure =>
    obtain ⟨stored, error⟩ := failure
    obtain rfl := Option.some.inj hstep
    set new : Writer V := .deadLettering batch.docs.length batch.docs batch.offset error with hnew
    obtain ⟨batches, letters, rows, ⟨hbatches, hbatches'⟩, ⟨hletters, hletters'⟩, hrows, hrows'⟩ :=
      exists_setWriter hwriter new
    rw [hnew, Writer.batches, zero_add] at hbatches'
    refine ⟨haccount, fun other hother ↦ .inl ?_, ?_, ?_, ?_,
      [], ?_, .inl ⟨rfl, rfl⟩⟩
    · exact hbatches ▸ Multiset.mem_add.mpr (.inr (hbatches' ▸ hother))
    · have hpending : (tasks.setWriter i new).pending =
          tasks.pending + ↑(batch.account (some stored)).entries := by
        rw [hletters', hletters, Batch.entries_account, Option.isSome_some, if_pos rfl, hnew,
          Writer.pending, Writer.pending, zero_add, add_comm]
      rw [List.flatMap_singleton, add_assoc]
      exact congrArg _ hpending
    · simp [Tasks.setWriter]
    · have hfailing : (tasks.setWriter i new).failing = tasks.failing +
          (batch.account (some stored)).failedRows.length := by
        rw [hrows', hrows, Batch.failedRows_account, Option.isSome_some, if_pos rfl, hnew,
          Writer.failing, Writer.failing, zero_add, add_comm, List.length_range']
      rw [List.map_singleton, List.sum_singleton, Nat.add_assoc]
      exact congrArg (tasks.rowsFailed + ·) hfailing
    · exact hbatches' ▸ hspans batches hbatches

/-- A writer pushes a dead letter, or counts the rows of its batch. -/
theorem push_moves {i : ℕ} (hstep : push tasks i = some next) :
    Moves documentOf tasks next [] := by
  unfold push at hstep
  split at hstep
  · next docCount doc docs row error hwriter =>
    obtain rfl := Option.some.inj hstep
    obtain ⟨batches, letters, rows, ⟨hbatches, hbatches'⟩, ⟨hletters, hletters'⟩, hrows, hrows'⟩ :=
      exists_setWriter hwriter (.deadLettering docCount docs (row + 1) error)
    have hinFlight := hbatches'.trans hbatches.symm
    refine ⟨by simp, fun batch hbatch ↦ .inl (hinFlight ▸ hbatch), ?_, rfl, ?_,
      [], ?_, .inl ⟨rfl, rfl⟩⟩
    · have hpending : tasks.pending = {(row, doc)} +
          (tasks.setWriter i (.deadLettering docCount docs (row + 1) error)).pending := by
        rw [hletters, hletters', ← add_assoc]
        rfl
      rw [List.map_append, ← Multiset.coe_add, hpending, List.flatMap_nil, Multiset.coe_nil,
        add_zero, ← add_assoc]
      rfl
    · exact congrArg (tasks.rowsFailed + ·) (hrows'.trans hrows.symm)
    · rw [Multiset.coe_nil, add_zero, List.map_nil, Multiset.coe_nil, zero_add]
      exact congrArg _ hinFlight
  · next docCount row error hwriter =>
    obtain rfl := Option.some.inj hstep
    obtain ⟨batches, letters, rows, ⟨hbatches, hbatches'⟩, ⟨hletters, hletters'⟩, hrows, hrows'⟩ :=
      exists_setWriter hwriter .receiving
    have hinFlight := hbatches'.trans hbatches.symm
    refine ⟨by simp, fun batch hbatch ↦ .inl (hinFlight ▸ hbatch), ?_, rfl, ?_,
      [], ?_, .inl ⟨rfl, rfl⟩⟩
    · rw [List.flatMap_nil, Multiset.coe_nil, add_zero]
      exact congrArg _ (hletters'.trans hletters.symm)
    · have hfailing : docCount + (tasks.setWriter i .receiving).failing = tasks.failing := by
        rw [hrows, hrows', Writer.failing, Writer.failing, zero_add]
      rw [← hfailing, ← Nat.add_assoc]
      rfl
    · rw [Multiset.coe_nil, add_zero, List.map_nil, Multiset.coe_nil, zero_add]
      exact congrArg _ hinFlight
  · cases hstep

/-- A writer leaves its loop. -/
theorem exit_moves {i : ℕ} (hstep : exit tasks i = some next) :
    Moves documentOf tasks next [] := by
  unfold exit at hstep
  split at hstep
  · next cancelled hwriter hchannel hproducer =>
    obtain rfl := Option.some.inj hstep
    obtain ⟨batches, letters, rows, ⟨hbatches, hbatches'⟩, ⟨hletters, hletters'⟩, hrows, hrows'⟩ :=
      exists_setWriter hwriter .exited
    exact Moves.of_eq (hbatches'.trans hbatches.symm) (hletters'.trans hletters.symm)
      (hrows'.trans hrows.symm) rfl rfl rfl rfl
  · cases hstep

/-! ### The producer -/

/-- Going on to the next chunk changes only what the producer keeps for itself. -/
theorem advance_frame (tasks : Tasks V) (stop : ℕ) :
    (tasks.advance stop).producer = .converting ∧ (tasks.advance stop).offset = stop ∧
      (tasks.advance stop).channel = tasks.channel ∧
      (tasks.advance stop).writers = tasks.writers ∧
      (tasks.advance stop).deadLetters = tasks.deadLetters ∧
      (tasks.advance stop).rowsInserted = tasks.rowsInserted ∧
      (tasks.advance stop).rowsFailed = tasks.rowsFailed := by
  unfold Tasks.advance
  simp only
  split_ifs <;> exact ⟨rfl, rfl, rfl, rfl, rfl, rfl, rfl⟩

/-- What is under way after the producer has gone on. -/
theorem advance_underway (tasks : Tasks V) (stop : ℕ) :
    (tasks.advance stop).inFlight =
        ↑tasks.channel + (tasks.writers.map Writer.batches).sum ∧
      (tasks.advance stop).pending = (tasks.writers.map Writer.pending).sum ∧
      (tasks.advance stop).failing = (tasks.writers.map Writer.failing).sum ∧
      (tasks.advance stop).bound = stop := by
  obtain ⟨hproducer, hoffset, hchannel, hwriters, -, -, -⟩ := advance_frame tasks stop
  have hbound : (tasks.advance stop).bound = stop := by
    unfold Tasks.bound
    rw [hproducer]
    exact hoffset
  refine ⟨?_, ?_, ?_, hbound⟩
  · rw [Tasks.inFlight, hchannel, hwriters]
  · rw [Tasks.pending, hproducer, hwriters, Producer.pending, zero_add]
  · rw [Tasks.failing, hbound, hoffset, hwriters, Nat.sub_self, zero_add]

/-- What is under way while no chunk is dead-lettered. -/
theorem underway_of_converting (h : tasks.producer = .converting) :
    tasks.pending = (tasks.writers.map Writer.pending).sum ∧
      tasks.failing = (tasks.writers.map Writer.failing).sum ∧ tasks.bound = tasks.offset := by
  have hbound : tasks.bound = tasks.offset := by
    unfold Tasks.bound
    rw [h]
  refine ⟨?_, ?_, hbound⟩
  · rw [Tasks.pending, h, Producer.pending, zero_add]
  · rw [Tasks.failing, hbound, Nat.sub_self, zero_add]

section Convert

variable {job : Job V Row} {table : List Row} {batchSize concurrency : ℕ}

theorem length_chunkAt (table : List Row) (batchSize offset : ℕ) :
    (chunkAt table batchSize offset).length = min (offset + batchSize) table.length - offset := by
  unfold chunkAt
  rw [List.length_take, List.length_drop]
  omega

/-- The producer sends a chunk that it has converted, or begins to dead-letter its rows. -/
theorem convert_moves (hstep : convert job table batchSize concurrency tasks = some next) :
    Moves (Ingestion.documentOf job table) tasks next (account job table batchSize tasks .convert) := by
  unfold convert at hstep
  by_cases hstart : tasks.producer = .converting ∧ tasks.offset < table.length
  swap
  · rw [if_neg hstart] at hstep
    cases hstep
  rw [if_pos hstart] at hstep
  obtain ⟨hproducer, hmore⟩ := hstart
  obtain ⟨hpending, hfailing, hbound⟩ := underway_of_converting hproducer
  have hlength := length_chunkAt table batchSize tasks.offset
  set stop := min (tasks.offset + batchSize) table.length with hstop
  have hstopLe : tasks.offset ≤ stop := by omega
  unfold account
  cases hdocuments : dataframeToDocuments job (chunkAt table batchSize tasks.offset) with
  | ok docs =>
    simp only [hdocuments] at hstep ⊢
    split_ifs at hstep with hroom
    obtain rfl := Option.some.inj hstep
    set sent : Tasks V := { tasks with channel := tasks.channel ++ [⟨docs, tasks.offset⟩] }
      with hsent
    obtain ⟨-, -, -, -, hletters, hinserted, hfailed⟩ := advance_frame sent stop
    obtain ⟨hinFlight, hpending', hfailing', hbound'⟩ := advance_underway sent stop
    have hrows := dataframeToDocuments_eq_ok.mp hdocuments
    have hsize : docs.length = stop - tasks.offset := hrows.length_eq.symm.trans hlength
    have hall : (sent.advance stop).inFlight = tasks.inFlight + {⟨docs, tasks.offset⟩} := by
      rw [hinFlight, hsent, Tasks.inFlight, ← Multiset.coe_add, Multiset.coe_singleton]
      abel
    refine ⟨by simp, fun batch hbatch ↦ ?_, ?_, ?_, ?_, [(tasks.offset, docs.length)], ?_,
      .inr ⟨docs.length, by rw [hbound], by rw [hbound', hbound, hsize]; omega⟩⟩
    · rw [hall] at hbatch
      refine (Multiset.mem_add.mp hbatch).imp id fun hbatch ↦ ?_
      obtain rfl := Multiset.mem_singleton.mp hbatch
      exact fun i document hi ↦ documentOf_of_forall₂ hrows hi
    · rw [hletters, hpending', hpending, List.flatMap_nil, Multiset.coe_nil, add_zero]
    · rw [hinserted, List.map_nil, List.sum_nil, add_zero]
    · rw [hfailed, hfailing', hfailing, List.map_nil, List.sum_nil, add_zero]
    · rw [hall, List.map_nil, Multiset.coe_nil, zero_add, Multiset.map_add,
        Multiset.map_singleton, Multiset.coe_singleton]
      rfl
  | error error =>
    simp only [hdocuments] at hstep ⊢
    obtain rfl := Option.some.inj hstep
    refine ⟨fun account haccount ↦ ?_, fun batch hbatch ↦ .inl hbatch, ?_, ?_, ?_,
      [(tasks.offset, stop - tasks.offset)], ?_,
      .inr ⟨stop - tasks.offset, by rw [hbound], ?_⟩⟩
    · obtain rfl := List.mem_singleton.mp haccount
      exact ⟨unconverted_valid hdocuments, rfl⟩
    · rw [hpending, List.flatMap_singleton, Account.entries, hlength]
      simp only [Tasks.pending, Producer.pending, Multiset.map_coe]
      abel
    · rfl
    · rw [hfailing, List.map_singleton, List.sum_singleton, Account.failedRows,
        List.length_range', hlength]
      simp only [Tasks.failing, Tasks.bound]
      omega
    · rw [List.map_singleton, Account.span, hlength]
      exact add_comm _ _
    · rw [hbound]
      exact (Nat.add_sub_cancel' hstopLe).symm

end Convert

/-- The producer dead-letters a row of a chunk, or counts the rows of the chunk. -/
theorem deadLetterRow_moves (hstep : deadLetterRow tasks = some next) :
    Moves documentOf tasks next [] := by
  unfold deadLetterRow at hstep
  split at hstep
  · next row stop error hproducer =>
    have hbound : tasks.bound = stop := by
      unfold Tasks.bound
      rw [hproducer]
    split_ifs at hstep with hrow
    · obtain rfl := Option.some.inj hstep
      refine ⟨by simp, fun batch hbatch ↦ .inl hbatch, ?_, rfl, ?_, [], ?_, .inl ⟨rfl, ?_⟩⟩
      · have hrange : List.range' row (stop - row) = row :: List.range' (row + 1) (stop - (row + 1)) := by
          obtain ⟨left, hleft⟩ := Nat.exists_eq_add_of_lt hrow
          rw [show stop - row = left + 1 by omega, show stop - (row + 1) = left by omega]
          exact List.range'_succ
        simp only [Tasks.pending, hproducer, Producer.pending, hrange, List.map_append,
          List.map_singleton, ← Multiset.coe_add, ← Multiset.cons_coe, ← Multiset.singleton_add,
          Multiset.map_add, Multiset.map_singleton, List.flatMap_nil, Multiset.coe_nil, add_zero,
          DeadLetterEntry.source]
        abel
      · simp only [Tasks.failing, Tasks.bound, hproducer]
        rfl
      · rw [List.map_nil, add_comm]
        rfl
      · rw [hbound]
        rfl
    · obtain rfl := Option.some.inj hstep
      set counted : Tasks V :=
        { tasks with rowsFailed := tasks.rowsFailed + (stop - tasks.offset) } with hcounted
      obtain ⟨-, -, -, -, hletters, hinserted, hfailed⟩ := advance_frame counted stop
      obtain ⟨hinFlight, hpending', hfailing', hbound'⟩ := advance_underway counted stop
      have hsame : (counted.advance stop).inFlight = tasks.inFlight := hinFlight
      refine ⟨by simp, fun batch hbatch ↦ .inl (hsame ▸ hbatch), ?_, ?_, ?_, [], ?_,
        .inl ⟨rfl, hbound'.trans hbound.symm⟩⟩
      · have hdone : stop - row = 0 := by omega
        rw [hletters, hpending', Tasks.pending, hproducer, Producer.pending, hdone, List.range'_zero,
          Multiset.coe_nil, Multiset.map_zero, zero_add, List.flatMap_nil, Multiset.coe_nil,
          add_zero]
      · rw [hinserted, List.map_nil, List.sum_nil, add_zero]
      · rw [hfailed, hfailing', Tasks.failing, hbound, List.map_nil, List.sum_nil, add_zero,
          ← Nat.add_assoc]
      · rw [hsame, List.map_nil, add_comm]
  · cases hstep
  · cases hstep
  · cases hstep

end Balance

/-! ## Runs -/

section Runs

variable {job : Job V Row} {table : List Row} {batchSize concurrency : ℕ} {tasks next : Tasks V}
  {accounts : List (Account V)}

/-- Closing the channel and joining the writers leave nothing new under way. -/
theorem moves_of_producer {producer : Producer} {progress : Progress}
    (hbefore : ∀ row stop error, tasks.producer ≠ .deadLettering row stop error)
    (hafter : ∀ row stop error, producer ≠ .deadLettering row stop error)
    {rowDocument : ℕ → Option (Document V)} :
    Moves rowDocument tasks { tasks with producer := producer, progress := progress } [] := by
  have hquiet : ∀ other : Producer, (∀ row stop error, other ≠ .deadLettering row stop error) →
      (other.pending : Multiset (ℕ × Document V)) = 0 ∧
        ∀ offset : ℕ, (match other with
          | .deadLettering _ stop _ => stop
          | .converting | .closed _ | .returned _ => offset) = offset := by
    intro other hother
    cases other with
    | deadLettering row stop error => exact absurd rfl (hother row stop error)
    | converting => exact ⟨rfl, fun _ ↦ rfl⟩
    | closed cancelled => exact ⟨rfl, fun _ ↦ rfl⟩
    | returned cancelled => exact ⟨rfl, fun _ ↦ rfl⟩
  obtain ⟨hpending, hbound⟩ := hquiet _ hbefore
  obtain ⟨hpending', hbound'⟩ := hquiet _ hafter
  have hsame : Tasks.bound { tasks with producer := producer, progress := progress } =
      tasks.bound := (hbound' tasks.offset).trans (hbound tasks.offset).symm
  refine Moves.of_eq rfl ?_ ?_ hsame rfl rfl rfl
  · simp only [Tasks.pending, hpending, hpending']
  · rw [Tasks.failing, hsame]
    rfl

/-- Every step keeps the balance. -/
theorem step_balanced {event : Event}
    (h : Balanced (documentOf job table) tasks accounts)
    (hstep : step job table batchSize concurrency tasks event = some next) :
    Balanced (documentOf job table) next (accounts ++ account job table batchSize tasks event) := by
  have hinserting : ∀ {i : ℕ} {batch : Batch V} (failure : Option (ℕ × String)),
      tasks.writers[i]? = some (.inserting batch) → batch.Valid (documentOf job table) ∧
        account job table batchSize tasks (.insertMany i failure) =
          [batch.account (failure.map Prod.fst)] := by
    intro i batch failure hwriter
    obtain ⟨batches, -, -, ⟨hbatches, -⟩, -⟩ := exists_setWriter hwriter .receiving
    refine ⟨h.batches batch ?_, ?_⟩
    · exact hbatches ▸ Multiset.mem_add.mpr (.inl (Multiset.mem_singleton_self batch))
    · unfold account
      simp only [hwriter]
  apply h.step
  cases stepCase_of_step hstep with
  | cancel hproducer | close hproducer => exact moves_of_producer (by simp [hproducer]) (by simp)
  | joinCancelled hproducer | join hproducer =>
    exact moves_of_producer (by simp [hproducer]) (by simp)
  | send | refuse => exact convert_moves hstep
  | deadLetterRow | countRows => exact deadLetterRow_moves hstep
  | receive => exact receive_moves hstep
  | inserted hwriter =>
    obtain ⟨hvalid, haccount⟩ := hinserting none hwriter
    rw [haccount]
    exact insertMany_moves hwriter hvalid hstep
  | insertFailed hwriter =>
    obtain ⟨hvalid, haccount⟩ := hinserting (some _) hwriter
    rw [haccount]
    exact insertMany_moves hwriter hvalid hstep
  | push | countDocs => exact push_moves hstep
  | exit => exact exit_moves hstep

theorem start_balanced (collection : List (Document V)) (rowDocument : ℕ → Option (Document V)) :
    Balanced rowDocument (Tasks.start concurrency collection) [] := by
  have hsum : ∀ {M : Type} [AddCommMonoid M] (f : Writer V → M), f .receiving = 0 →
      ((List.replicate concurrency (Writer.receiving : Writer V)).map f).sum = 0 := by
    intro M _ f hf
    rw [List.map_replicate, hf, List.sum_replicate, nsmul_zero]
  have hinFlight : (Tasks.start concurrency collection).inFlight = 0 := by
    rw [Tasks.inFlight]
    exact (congrArg _ (hsum Writer.batches rfl)).trans (add_zero _)
  have hpending : (Tasks.start concurrency collection).pending = 0 := by
    rw [Tasks.pending]
    exact (congrArg _ (hsum Writer.pending rfl)).trans (add_zero _)
  have hfailing : (Tasks.start concurrency collection).failing = 0 := by
    rw [Tasks.failing]
    exact (congrArg _ (hsum Writer.failing rfl)).trans (add_zero _)
  refine ⟨by simp, by simp, ?_, ?_, rfl, ?_, [], ?_, Tiles.nil⟩
  · rw [hinFlight]
    exact fun batch hbatch ↦ absurd hbatch (Multiset.notMem_zero batch)
  · rw [hpending]
    rfl
  · rw [hfailing]
    rfl
  · rw [hinFlight]
    rfl

/-! ### The order of the tasks -/

/-- While the producer converts, no writer has left. -/
theorem Orderly.of_converting {total : ℕ} (h : Orderly total tasks)
    (hproducer : tasks.producer = .converting ∨
      ∃ row stop error, tasks.producer = .deadLettering row stop error) :
    ∀ writer ∈ tasks.writers, ¬ writer.isExited = true := by
  intro writer hwriter hexited
  obtain ⟨-, cancelled, hclosed⟩ := h.emptied writer hwriter hexited
  rcases hproducer with hproducer | ⟨row, stop, error, hproducer⟩ <;>
    rcases hclosed with hclosed | hclosed <;> exact Producer.noConfusion (hproducer.symm.trans hclosed)

/-- The producer goes on within the table. -/
theorem Orderly.advance {total stop : ℕ} {before : Tasks V} (hstop : stop ≤ total)
    (hwriters : ∀ writer ∈ before.writers, ¬ writer.isExited = true) :
    Orderly total (before.advance stop) := by
  obtain ⟨hproducer, hoffset, -, hsame, -, -, -⟩ := advance_frame before stop
  refine ⟨hoffset.trans_le hstop, ?_, ?_, ?_, ?_, ?_⟩
  · exact fun row other error heq ↦ Producer.noConfusion (hproducer.symm.trans heq)
  · exact fun heq ↦ Producer.noConfusion (hproducer.symm.trans heq)
  · exact fun writer hwriter hexited ↦ absurd hexited (hwriters writer (hsame ▸ hwriter))
  · exact fun cancelled heq ↦ Producer.noConfusion (hproducer.symm.trans heq)
  · exact fun heq ↦ Producer.noConfusion (hproducer.symm.trans heq)

/-- A writer that has not left goes on without leaving. -/
theorem Orderly.setWriter {total i : ℕ} {old : Writer V} (new : Writer V) {changed : Tasks V}
    (h : Orderly total tasks) (hold : tasks.writers[i]? = some old)
    (hbefore : old.isExited = false) (hafter : new.isExited = false)
    (hwriters : changed.writers = tasks.writers.set i new)
    (hproducer : changed.producer = tasks.producer) (hoffset : changed.offset = tasks.offset)
    (hchannel : tasks.channel = [] → changed.channel = []) : Orderly total changed := by
  have hmem : old ∈ tasks.writers := List.mem_of_getElem? hold
  have hreturned : ∀ cancelled, tasks.producer ≠ .returned cancelled := fun cancelled heq ↦
    Bool.false_ne_true (hbefore.symm.trans (h.joined cancelled heq old hmem))
  refine ⟨hoffset.trans_le h.offset, ?_, ?_, ?_, ?_, ?_⟩
  · rw [hproducer, hoffset]
    exact h.deadLettering
  · rw [hproducer, hoffset]
    exact h.closed
  · intro writer hwriter hexited
    rw [hwriters] at hwriter
    rw [hproducer]
    rcases List.mem_or_eq_of_mem_set hwriter with hwriter | rfl
    · exact (h.emptied writer hwriter hexited).imp hchannel id
    · exact absurd (hafter.symm.trans hexited) Bool.false_ne_true
  · intro cancelled heq
    exact absurd (hproducer.symm.trans heq) (hreturned cancelled)
  · intro heq
    exact absurd (hproducer.symm.trans heq) (hreturned false)

/-- A producer that has just closed the channel, or turned to the rows of a chunk, has all its
writers. -/
theorem Orderly.setProducer {total : ℕ} {producer : Producer} {deadLetters : List (DeadLetterEntry V)}
    (h : Orderly total tasks) (hwriters : ∀ writer ∈ tasks.writers, ¬ writer.isExited = true)
    (hdeadLettering : ∀ row stop error, producer = .deadLettering row stop error →
      tasks.offset ≤ row ∧ row ≤ stop ∧ stop ≤ total)
    (hclosed : producer = .closed false → tasks.offset = total)
    (hreturned : ∀ cancelled, producer ≠ .returned cancelled) :
    Orderly total { tasks with producer := producer, deadLetters := deadLetters } where
  offset := h.offset
  deadLettering := hdeadLettering
  closed := hclosed
  emptied := fun writer hwriter hexited ↦ absurd hexited (hwriters writer hwriter)
  joined := fun cancelled heq ↦ absurd heq (hreturned cancelled)
  returned := fun heq ↦ absurd heq (hreturned false)

/-- Every step keeps the order. -/
theorem step_orderly {event : Event} (h : Orderly table.length tasks)
    (hstep : step job table batchSize concurrency tasks event = some next) :
    Orderly table.length next := by
  cases stepCase_of_step hstep with
  | cancel hproducer hmore =>
    exact h.setProducer (h.of_converting (.inl hproducer)) (by simp) (by simp) (by simp)
  | close hproducer hdone =>
    have hoffset : tasks.offset = table.length := le_antisymm h.offset (not_lt.mp hdone)
    exact h.setProducer (h.of_converting (.inl hproducer)) (by simp) (fun _ ↦ hoffset) (by simp)
  | send hproducer hmore hconverted hroom =>
    exact Orderly.advance (min_le_right _ _) (h.of_converting (.inl hproducer))
  | refuse hproducer hmore hfailed =>
    refine h.setProducer (h.of_converting (.inl hproducer)) ?_ (by simp) (by simp)
    intro row stop error heq
    obtain ⟨rfl, rfl, -⟩ := Producer.deadLettering.inj heq
    exact ⟨le_rfl, by omega, min_le_right _ _⟩
  | @deadLetterRow row stop error hproducer hmore =>
    obtain ⟨hrow, hle, hstop⟩ := h.deadLettering row stop error hproducer
    refine h.setProducer (h.of_converting (.inr ⟨row, stop, error, hproducer⟩)) ?_ (by simp) (by simp)
    intro other last reason heq
    obtain ⟨rfl, rfl, -⟩ := Producer.deadLettering.inj heq
    exact ⟨hrow.trans (Nat.le_succ row), hmore, hstop⟩
  | @countRows row stop error hproducer hdone =>
    obtain ⟨hrow, hle, hstop⟩ := h.deadLettering row stop error hproducer
    exact Orderly.advance hstop (h.of_converting (.inr ⟨row, stop, error, hproducer⟩))
  | receive hwriter hchannel =>
    exact h.setWriter (.inserting _) hwriter rfl rfl rfl rfl rfl
      fun hnil ↦ absurd (hchannel.symm.trans hnil) (List.cons_ne_nil _ _)
  | inserted hwriter | countDocs hwriter =>
    exact h.setWriter .receiving hwriter rfl rfl rfl rfl rfl id
  | insertFailed hwriter | push hwriter =>
    exact h.setWriter (.deadLettering ..) hwriter rfl rfl rfl rfl rfl id
  | @exit i cancelled hwriter hchannel hproducer =>
    refine ⟨h.offset, h.deadLettering, h.closed, fun writer _ _ ↦
      ⟨hchannel, cancelled, .inl hproducer⟩, fun other heq ↦ ?_, fun heq ↦ ?_⟩
    · exact Producer.noConfusion (hproducer.symm.trans heq)
    · exact Producer.noConfusion (hproducer.symm.trans heq)
  | joinCancelled hproducer hall =>
    exact ⟨h.offset, fun row stop error heq ↦ Producer.noConfusion heq,
      fun heq ↦ Producer.noConfusion heq,
      fun writer hwriter hexit ↦ ⟨(h.emptied writer hwriter hexit).1, true, .inr rfl⟩,
      fun _ _ ↦ List.all_eq_true.mp hall, fun heq ↦ by cases heq⟩
  | join hproducer hall =>
    exact ⟨h.offset, fun row stop error heq ↦ Producer.noConfusion heq,
      fun heq ↦ Producer.noConfusion heq,
      fun writer hwriter hexit ↦ ⟨(h.emptied writer hwriter hexit).1, false, .inr rfl⟩,
      fun _ _ ↦ List.all_eq_true.mp hall, fun _ ↦ ⟨h.closed hproducer, rfl⟩⟩

theorem start_orderly (collection : List (Document V)) (total : ℕ) :
    Orderly total (Tasks.start concurrency collection) where
  offset := Nat.zero_le total
  deadLettering := fun row stop error heq ↦ Producer.noConfusion heq
  closed := fun heq ↦ Producer.noConfusion heq
  emptied := fun writer hwriter hexited ↦ by
    obtain rfl := List.eq_of_mem_replicate hwriter
    cases hexited
  joined := fun cancelled heq ↦ Producer.noConfusion heq
  returned := fun heq ↦ Producer.noConfusion heq

/-- No writer is added or lost. -/
theorem length_writers_of_step {event : Event}
    (hstep : step job table batchSize concurrency tasks event = some next) :
    next.writers.length = tasks.writers.length := by
  cases stepCase_of_step hstep with
  | cancel | close | refuse | deadLetterRow | joinCancelled | join => rfl
  | send | countRows => exact congrArg List.length (advance_frame _ _).2.2.2.1
  | receive | inserted | insertFailed | push | countDocs | exit => exact List.length_set

/-- The balance and the order hold along every run. -/
theorem run_keeps {collection : List (Document V)} {events : List Event}
    (hrun : run (accountedStep job table batchSize concurrency)
      (Tasks.start concurrency collection, []) events = some (tasks, accounts)) :
    Balanced (documentOf job table) tasks accounts ∧ Orderly table.length tasks ∧
      tasks.writers.length = concurrency := by
  have hkeep : ∀ (state : Tasks V × List (Account V)) (event : Event)
      (after : Tasks V × List (Account V)),
      Balanced (documentOf job table) state.1 state.2 ∧ Orderly table.length state.1 ∧
        state.1.writers.length = concurrency → True →
      accountedStep job table batchSize concurrency state event = some after →
      Balanced (documentOf job table) after.1 after.2 ∧ Orderly table.length after.1 ∧
        after.1.writers.length = concurrency := by
    rintro ⟨before, ledger⟩ event ⟨after, ledger'⟩ ⟨hbalanced, horderly, hlength⟩ - hstep
    unfold accountedStep at hstep
    obtain ⟨htasks, rfl⟩ := recorded_eq_some.mp hstep
    exact ⟨step_balanced hbalanced htasks, step_orderly horderly htasks,
      (length_writers_of_step htasks).trans hlength⟩
  exact invariant_of_run hkeep ⟨start_balanced collection _, start_orderly collection _,
    List.length_replicate⟩ (StepsMeet.of_forall fun _ _ _ ↦ trivial) hrun

/-- What the tasks of a job that has returned leave: nothing is under way, and the record shows the
counters. -/
structure Settled (rowDocument : ℕ → Option (Document V)) (total : ℕ) (tasks : Tasks V)
    (accounts : List (Account V)) : Prop where
  valid : ∀ account ∈ accounts, account.Valid rowDocument
  tiles : Tiles (accounts.map Account.span) total
  deadLetters : (tasks.deadLetters.map DeadLetterEntry.source).Perm
    (accounts.flatMap Account.entries)
  progress : tasks.progress = ⟨total, (accounts.map Account.rowsInserted).sum, 0,
    (accounts.map fun account ↦ account.failedRows.length).sum, tasks.chunkNum⟩
  skips : (accounts.map Account.rowsSkipped).sum = 0

theorem settled_of_run {collection : List (Document V)} {events : List Event}
    (hconcurrency : 0 < concurrency)
    (hrun : run (accountedStep job table batchSize concurrency)
      (Tasks.start concurrency collection, []) events = some (tasks, accounts))
    (hreturned : tasks.producer = .returned false) :
    Settled (documentOf job table) table.length tasks accounts := by
  obtain ⟨hbalanced, horderly, hlength⟩ := run_keeps hrun
  have hexited := horderly.joined false hreturned
  obtain ⟨hoffset, hprogress⟩ := horderly.returned hreturned
  have hsum : ∀ {M : Type} [AddCommMonoid M] (f : Writer V → M), f .exited = 0 →
      (tasks.writers.map f).sum = 0 := by
    intro M _ f hf
    apply List.sum_eq_zero
    intro value hvalue
    obtain ⟨writer, hwriter, rfl⟩ := List.mem_map.mp hvalue
    have hexit := hexited writer hwriter
    cases writer with
    | exited => exact hf
    | receiving => cases hexit
    | inserting batch => cases hexit
    | deadLettering docCount docs row error => cases hexit
  have hchannel : tasks.channel = [] := by
    obtain ⟨writer, hwriter⟩ := List.exists_mem_of_length_pos (hlength ▸ hconcurrency)
    exact (horderly.emptied writer hwriter (hexited writer hwriter)).1
  have hinFlight : tasks.inFlight = 0 := by
    rw [Tasks.inFlight, hchannel, hsum Writer.batches rfl]
    rfl
  have hpending : tasks.pending = 0 := by
    rw [Tasks.pending, hreturned, hsum Writer.pending rfl]
    rfl
  have hbound : tasks.bound = table.length := by
    unfold Tasks.bound
    rw [hreturned]
    exact hoffset
  have hfailing : tasks.failing = 0 := by
    rw [Tasks.failing, hbound, hoffset, hsum Writer.failing rfl, Nat.sub_self, add_zero]
  obtain ⟨spans, hspans, htiles⟩ := hbalanced.tiles
  rw [hinFlight, Multiset.map_zero, add_zero, Multiset.coe_eq_coe] at hspans
  have hletters := hbalanced.deadLetters
  rw [hpending, add_zero, Multiset.coe_eq_coe] at hletters
  have hfailed := hbalanced.rowsFailed
  rw [hfailing, add_zero] at hfailed
  refine ⟨hbalanced.valid, hbound ▸ htiles.perm hspans, hletters, ?_, ?_⟩
  · rw [hprogress, hbalanced.rowsInserted, hfailed]
  · apply List.sum_eq_zero
    intro value hvalue
    obtain ⟨account, haccount, rfl⟩ := List.mem_map.mp hvalue
    exact hbalanced.skips account haccount

end Runs

end MongoCore.Ingestion.ConcurrentWrites
