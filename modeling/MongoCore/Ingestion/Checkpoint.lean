import MongoCore.Ingestion.ConcurrentWrites

/-!
# The checkpoint of concurrent writes

The producer of a job without a dedup key reports every fourth chunk it has sent, and once more when
the writers are done.  A report is a call to the database: while it is under way the producer waits,
but the writers do not.  The chunk it names becomes the checkpoint of the job when the database
stores it.

The checkpoint says nothing about the chunks that are still in the channel or with the writers.  The
module says what is under way at every moment, and that all rows before are done.
-/

namespace MongoCore.Ingestion.Checkpoint

open MongoCore.Library.TransitionSystem MongoCore.Ingestion.ConcurrentWrites

variable {V Row : Type}

/-! ## Rows under way -/

def batchRows (batch : Batch V) : List ℕ := List.range' batch.offset batch.docs.length

/-- The rows that a writer has still to store or to dead-letter. -/
def writerRows : Writer V → List ℕ
  | .inserting batch => batchRows batch
  | .deadLettering _ docs row _ => List.range' row docs.length
  | .receiving | .exited => []

def producerRows : Producer → List ℕ
  | .deadLettering row stop _ => List.range' row (stop - row)
  | .converting | .closed _ | .returned _ => []

/-- The rows that have been taken from the table and are not done. -/
def underWay (tasks : Tasks V) : List ℕ :=
  producerRows tasks.producer ++ tasks.channel.flatMap batchRows ++
    tasks.writers.flatMap writerRows

theorem mem_underWay {tasks : Tasks V} {row : ℕ} :
    row ∈ underWay tasks ↔ row ∈ producerRows tasks.producer ∨
      row ∈ tasks.channel.flatMap batchRows ∨ row ∈ tasks.writers.flatMap writerRows := by
  simp only [underWay, List.mem_append, or_assoc]

/-- The rows that an event stores: those of a batch, or as many of them as a failed call stores. -/
def storedBy (tasks : Tasks V) : Event → List ℕ
  | .insertMany i failure =>
      match tasks.writers[i]? with
      | some (.inserting batch) =>
          match failure with
          | none => batchRows batch
          | some (stored, _) => (batchRows batch).take stored
      | _ => []
  | _ => []

/-! ## The record of the job -/

/-- The tasks of a job, the rows stored so far, the chunk named by a report that is under way, and
the checkpoint in the record of the job. -/
structure Recording (V : Type) where
  tasks : Tasks V
  stored : List ℕ
  report : Option ℕ
  lastCommittedChunk : ℕ

/-- A job before its first step. -/
def Recording.start (concurrency : ℕ) (collection : List (Document V)) : Recording V where
  tasks := Tasks.start concurrency collection
  stored := []
  report := none
  lastCommittedChunk := 0

/-- A step of the tasks, or the outcome of a report. -/
inductive RecordingEvent where
  | work (event : Event)
  | reported (stored : Bool)

def isProducer : Event → Bool
  | .cancel | .convert | .deadLetterRow | .close | .join => true
  | .receive _ | .insertMany _ _ | .push _ | .exit _ => false

/-- The chunk that the producer reports after an event: after every fourth chunk, and at the end of
a job that was not cancelled. -/
def reportOf (tasks next : Tasks V) (event : Event) : Option ℕ :=
  if event = .join then
    if next.producer = .returned false then some next.chunkNum else none
  else if tasks.chunkNum < next.chunkNum ∧ next.chunkNum % 4 = 0 then some next.chunkNum
  else none

/-- One step.  The producer waits for its report. -/
def recordingStep (job : Job V Row) (table : List Row) (batchSize concurrency : ℕ)
    (recording : Recording V) : RecordingEvent → Option (Recording V)
  | .work event =>
      if isProducer event && recording.report.isSome then none
      else (step job table batchSize concurrency recording.tasks event).map fun next ↦
        { recording with
          tasks := next
          stored := recording.stored ++ storedBy recording.tasks event
          report :=
            if isProducer event then reportOf recording.tasks next event else recording.report }
  | .reported stored =>
      recording.report.map fun chunk ↦
        { recording with
          report := none
          lastCommittedChunk := if stored then chunk else recording.lastCommittedChunk }

/-- A row is stored, or handed to the dead letters.  A push that fails counts as well, since the
writers ignore its failure. -/
def Recording.Handled (recording : Recording V) (row : ℕ) : Prop :=
  row ∈ recording.stored ∨ row ∈ recording.tasks.deadLetters.map DeadLetterEntry.sourceRow

/-- Every row of the chunks before the checkpoint is handled. -/
def Safe (table : List Row) (batchSize : ℕ) (recording : Recording V) : Prop :=
  ∀ row < table.length, row < recording.lastCommittedChunk * batchSize → recording.Handled row

/-- A report is stored only when the rows under way, if there are any, are stored already. -/
def Settled (recording : Recording V) : RecordingEvent → Prop
  | .reported true => recording.report.isSome → ∀ row ∈ underWay recording.tasks,
      recording.Handled row
  | .reported false | .work _ => True

/-! ## What a step does to the rows -/

section Rows

variable {tasks next : Tasks V}

/-- A row of the writers is with the one that changes, or with the writers after the change. -/
theorem mem_writers_set {i row : ℕ} {old : Writer V} (new : Writer V)
    (hold : tasks.writers[i]? = some old) (hrow : row ∈ tasks.writers.flatMap writerRows) :
    row ∈ writerRows old ∨ row ∈ (tasks.writers.set i new).flatMap writerRows := by
  obtain ⟨writer, hwriter, hrow⟩ := List.mem_flatMap.mp hrow
  obtain ⟨j, hj⟩ := List.mem_iff_getElem?.mp hwriter
  by_cases hij : i = j
  · subst hij
    obtain rfl := Option.some.inj (hold.symm.trans hj)
    exact .inl hrow
  · have hkept : (tasks.writers.set i new)[j]? = some writer := by
      rwa [List.getElem?_set_ne hij]
    exact .inr (List.mem_flatMap.mpr ⟨writer, List.mem_of_getElem? hkept, hrow⟩)

/-- A row of the writers after a change is with the new one, or was there before. -/
theorem mem_writers_of_mem_set {i row : ℕ} {new : Writer V}
    (hrow : row ∈ (tasks.writers.set i new).flatMap writerRows) :
    row ∈ writerRows new ∨ row ∈ tasks.writers.flatMap writerRows := by
  obtain ⟨writer, hwriter, hmem⟩ := List.mem_flatMap.mp hrow
  rcases List.mem_or_eq_of_mem_set hwriter with hwriter | heq
  · exact .inr (List.mem_flatMap.mpr ⟨writer, hwriter, hmem⟩)
  · exact .inl (heq ▸ hmem)

/-- The rows of the new writer are there after the change. -/
theorem mem_writers_of_new {i row : ℕ} {old new : Writer V}
    (hold : tasks.writers[i]? = some old) (hrow : row ∈ writerRows new) :
    row ∈ (tasks.writers.set i new).flatMap writerRows := by
  obtain ⟨hi, -⟩ := List.getElem?_eq_some_iff.mp hold
  have hnew : (tasks.writers.set i new)[i]? = some new := by
    rw [List.getElem?_set_self hi]
  exact List.mem_flatMap.mpr ⟨new, List.mem_of_getElem? hnew, hrow⟩

theorem mem_writers_of_old {i row : ℕ} {old : Writer V}
    (hold : tasks.writers[i]? = some old) (hrow : row ∈ writerRows old) :
    row ∈ tasks.writers.flatMap writerRows :=
  List.mem_flatMap.mpr ⟨old, List.mem_of_getElem? hold, hrow⟩

/-- What a step does to the rows under way: those it takes up come from before the new bound, and
those it lets go are stored or dead-lettered. -/
structure RowsMove (tasks next : Tasks V) (event : Event) : Prop where
  bound : tasks.bound ≤ next.bound
  taken : ∀ row, tasks.bound ≤ row → row < next.bound → row ∈ underWay next
  kept : ∀ row ∈ underWay tasks, row ∈ underWay next ∨ row ∈ storedBy tasks event ∨
    row ∈ next.deadLetters.map DeadLetterEntry.sourceRow
  below : ∀ row ∈ underWay next, row ∈ underWay tasks ∨ tasks.bound ≤ row ∧ row < next.bound
  deadLetters : tasks.deadLetters ⊆ next.deadLetters

/-- A step that moves rows between the channel and one writer. -/
theorem rowsMove_of_writer {i : ℕ} {old : Writer V} (new : Writer V) {event : Event}
    (hold : tasks.writers[i]? = some old) (hwriters : next.writers = tasks.writers.set i new)
    (hproducer : next.producer = tasks.producer) (hoffset : next.offset = tasks.offset)
    (hdead : tasks.deadLetters ⊆ next.deadLetters)
    (hkept : ∀ row, row ∈ tasks.channel.flatMap batchRows ∨ row ∈ writerRows old →
      (row ∈ next.channel.flatMap batchRows ∨ row ∈ writerRows new) ∨
        row ∈ storedBy tasks event ∨ row ∈ next.deadLetters.map DeadLetterEntry.sourceRow)
    (hnew : ∀ row, row ∈ next.channel.flatMap batchRows ∨ row ∈ writerRows new →
      row ∈ tasks.channel.flatMap batchRows ∨ row ∈ writerRows old) :
    RowsMove tasks next event := by
  have hbound : next.bound = tasks.bound := by
    unfold Tasks.bound
    rw [hproducer, hoffset]
  refine ⟨hbound.ge, fun row hrow hlt ↦ absurd hlt (by omega), ?_, ?_, hdead⟩
  · intro row hrow
    have hmoved : row ∈ tasks.channel.flatMap batchRows ∨ row ∈ writerRows old →
        row ∈ underWay next ∨ row ∈ storedBy tasks event ∨
          row ∈ next.deadLetters.map DeadLetterEntry.sourceRow := by
      intro h
      refine (hkept row h).imp_left fun hunder ↦ ?_
      rw [mem_underWay, hwriters]
      exact .inr (hunder.imp_right (mem_writers_of_new hold))
    rcases mem_underWay.mp hrow with hrow | hrow | hrow
    · exact .inl (mem_underWay.mpr (.inl (hproducer ▸ hrow)))
    · exact hmoved (.inl hrow)
    · rcases mem_writers_set new hold hrow with hrow | hrow
      · exact hmoved (.inr hrow)
      · exact .inl (mem_underWay.mpr (.inr (.inr (hwriters ▸ hrow))))
  · intro row hrow
    left
    have hbefore : row ∈ tasks.channel.flatMap batchRows ∨ row ∈ writerRows old →
        row ∈ underWay tasks := fun h ↦
      mem_underWay.mpr (.inr (h.imp_right (mem_writers_of_old hold)))
    rcases mem_underWay.mp hrow with hrow | hrow | hrow
    · exact mem_underWay.mpr (.inl (hproducer ▸ hrow))
    · exact hbefore (hnew row (.inl hrow))
    · rw [hwriters] at hrow
      rcases mem_writers_of_mem_set hrow with hrow | hrow
      · exact hbefore (hnew row (.inr hrow))
      · exact mem_underWay.mpr (.inr (.inr hrow))

/-- A step of the producer, which takes up rows and sends or dead-letters them. -/
theorem rowsMove_of_producer {event : Event} (hwriters : next.writers = tasks.writers)
    (hbound : tasks.bound ≤ next.bound) (hdead : tasks.deadLetters ⊆ next.deadLetters)
    (htaken : ∀ row, tasks.bound ≤ row → row < next.bound →
      row ∈ producerRows next.producer ∨ row ∈ next.channel.flatMap batchRows)
    (hkept : ∀ row, row ∈ producerRows tasks.producer ∨ row ∈ tasks.channel.flatMap batchRows →
      (row ∈ producerRows next.producer ∨ row ∈ next.channel.flatMap batchRows) ∨
        row ∈ next.deadLetters.map DeadLetterEntry.sourceRow)
    (hnew : ∀ row, row ∈ producerRows next.producer ∨ row ∈ next.channel.flatMap batchRows →
      (row ∈ producerRows tasks.producer ∨ row ∈ tasks.channel.flatMap batchRows) ∨
        tasks.bound ≤ row ∧ row < next.bound) : RowsMove tasks next event := by
  have hunder : ∀ {some : Tasks V} {row : ℕ}, row ∈ producerRows some.producer ∨
      row ∈ some.channel.flatMap batchRows → row ∈ underWay some := fun h ↦
    mem_underWay.mpr (h.imp_right .inl)
  refine ⟨hbound, fun row hrow hlt ↦ hunder (htaken row hrow hlt), ?_, ?_, hdead⟩
  · intro row hrow
    rw [mem_underWay, ← or_assoc] at hrow
    rcases hrow with hrow | hrow
    · exact (hkept row hrow).imp hunder .inr
    · exact .inl (mem_underWay.mpr (.inr (.inr (hwriters ▸ hrow))))
  · intro row hrow
    rw [mem_underWay, ← or_assoc] at hrow
    rcases hrow with hrow | hrow
    · exact (hnew row hrow).imp_left hunder
    · exact .inl (mem_underWay.mpr (.inr (.inr (hwriters ▸ hrow))))

/-- A step of the producer between two states without rows. -/
theorem rowsMove_of_idle {event : Event} (hbefore : producerRows tasks.producer = [])
    (hafter : producerRows next.producer = []) (hwriters : next.writers = tasks.writers)
    (hchannel : next.channel = tasks.channel) (hbound : next.bound = tasks.bound)
    (hdead : next.deadLetters = tasks.deadLetters) : RowsMove tasks next event := by
  refine rowsMove_of_producer hwriters hbound.ge (fun _ hentry ↦ by rwa [hdead]) ?_ ?_ ?_
  · exact fun row hrow hlt ↦ absurd hlt (by omega)
  · intro row hrow
    left
    rwa [hafter, hchannel, ← hbefore]
  · intro row hrow
    left
    rwa [hafter, hchannel, ← hbefore] at hrow

variable {job : Job V Row} {table : List Row} {batchSize concurrency : ℕ}

/-- The rows of a chunk go from the table to the channel. -/
theorem rowsMove_send {docs : List (Document V)} (event : Event)
    (hproducer : tasks.producer = .converting) (hmore : tasks.offset < table.length)
    (hconverted : dataframeToDocuments job (chunkAt table batchSize tasks.offset) = .ok docs) :
    RowsMove tasks (Tasks.advance
      { tasks with channel := tasks.channel ++ [⟨docs, tasks.offset⟩] }
      (min (tasks.offset + batchSize) table.length)) event := by
  obtain ⟨hconverting, -, hchannel, hwriters, hdead, -, -⟩ := advance_frame
    { tasks with channel := tasks.channel ++ [⟨docs, tasks.offset⟩] }
    (min (tasks.offset + batchSize) table.length)
  have hafter := (advance_underway { tasks with channel := tasks.channel ++ [⟨docs, tasks.offset⟩] }
    (min (tasks.offset + batchSize) table.length)).2.2.2
  have hbefore := (underway_of_converting hproducer).2.2
  have hlength : docs.length = min (tasks.offset + batchSize) table.length - tasks.offset := by
    rw [← (dataframeToDocuments_eq_ok.mp hconverted).length_eq, length_chunkAt]
  refine rowsMove_of_producer hwriters (by omega) (fun _ hentry ↦ by rwa [hdead]) ?_ ?_ ?_
  · intro row hrow hlt
    right
    rw [hchannel, List.flatMap_append, List.mem_append, List.flatMap_singleton]
    right
    simp only [batchRows, List.mem_range'_1]
    omega
  · intro row hrow
    rw [hproducer] at hrow
    rw [hchannel, List.flatMap_append, List.mem_append]
    exact .inl (.inr (.inl (hrow.resolve_left List.not_mem_nil)))
  · intro row hrow
    rw [hconverting] at hrow
    replace hrow := hrow.resolve_left List.not_mem_nil
    rw [hchannel, List.flatMap_append, List.mem_append, List.flatMap_singleton] at hrow
    refine hrow.imp .inr fun hrow ↦ ?_
    simp only [batchRows, List.mem_range'_1] at hrow
    omega

/-- The producer takes up the rows of a chunk that is refused. -/
theorem rowsMove_refuse (event : Event) (error : String)
    (hproducer : tasks.producer = .converting) (hmore : tasks.offset < table.length) :
    RowsMove tasks { tasks with
      producer := .deadLettering tasks.offset (min (tasks.offset + batchSize) table.length)
        error } event := by
  have hbefore := (underway_of_converting hproducer).2.2
  refine rowsMove_of_producer rfl ?_ (List.Subset.refl _) ?_ ?_ ?_
  · simp only [Tasks.bound, hproducer]
    omega
  · intro row hrow hlt
    left
    simp only [Tasks.bound, hproducer] at hrow hlt
    rw [producerRows, List.mem_range'_1]
    omega
  · intro row hrow
    rw [hproducer] at hrow
    exact .inl (.inr (hrow.resolve_left List.not_mem_nil))
  · intro row hrow
    rcases hrow with hrow | hrow
    · right
      rw [producerRows, List.mem_range'_1] at hrow
      simp only [Tasks.bound, hproducer]
      omega
    · exact .inl (.inr hrow)

/-- The producer lets go of a row with its dead letter. -/
theorem rowsMove_deadLetterRow {row stop : ℕ} {error : String} (event : Event)
    (hproducer : tasks.producer = .deadLettering row stop error) (hmore : row < stop)
    (document : Document V) (message stage : String) :
    RowsMove tasks { tasks with
      producer := .deadLettering (row + 1) stop error
      deadLetters := tasks.deadLetters ++ [⟨row, document, message, stage⟩] } event := by
  refine rowsMove_of_producer rfl ?_ (List.subset_append_left _ _) ?_ ?_ ?_
  · simp only [Tasks.bound, hproducer, le_refl]
  · intro other hother hlt
    simp only [Tasks.bound, hproducer] at hother hlt
    omega
  · intro other hother
    rcases hother with hother | hother
    · rw [hproducer, producerRows, List.mem_range'_1] at hother
      by_cases hrow : other = row
      · right
        simp [hrow]
      · left
        left
        rw [producerRows, List.mem_range'_1]
        omega
    · exact .inl (.inr hother)
  · intro other hother
    rcases hother with hother | hother
    · left
      left
      rw [producerRows, List.mem_range'_1] at hother
      rw [hproducer, producerRows, List.mem_range'_1]
      omega
    · exact .inl (.inr hother)

theorem rowsMove_countRows {row stop : ℕ} {error : String} (event : Event)
    (hproducer : tasks.producer = .deadLettering row stop error) (hdone : ¬ row < stop) :
    RowsMove tasks (Tasks.advance
      { tasks with rowsFailed := tasks.rowsFailed + (stop - tasks.offset) } stop) event := by
  obtain ⟨hconverting, -, hchannel, hwriters, hdead, -, -⟩ := advance_frame
    { tasks with rowsFailed := tasks.rowsFailed + (stop - tasks.offset) } stop
  have hafter := (advance_underway
    { tasks with rowsFailed := tasks.rowsFailed + (stop - tasks.offset) } stop).2.2.2
  have hbefore : tasks.bound = stop := by
    simp only [Tasks.bound, hproducer]
  refine rowsMove_of_idle ?_ ?_ hwriters hchannel (hafter.trans hbefore.symm) hdead
  · rw [hproducer, producerRows, Nat.sub_eq_zero_of_le (not_lt.mp hdone)]
    rfl
  · rw [hconverting]
    rfl

/-- A writer lets go of a row with its dead letter. -/
theorem rowsMove_push {i docCount row : ℕ} {doc : Document V} {docs : List (Document V)}
    {error : String} (event : Event)
    (hwriter : tasks.writers[i]? = some (.deadLettering docCount (doc :: docs) row error))
    (message stage : String) :
    RowsMove tasks { tasks.setWriter i (.deadLettering docCount docs (row + 1) error) with
      deadLetters := tasks.deadLetters ++ [⟨row, doc, message, stage⟩] } event := by
  refine rowsMove_of_writer (.deadLettering docCount docs (row + 1) error) hwriter rfl rfl rfl
    (List.subset_append_left _ _) ?_ ?_
  · rintro other (hother | hother)
    · exact .inl (.inl hother)
    · rw [writerRows, List.mem_range'_1, List.length_cons] at hother
      by_cases hrow : other = row
      · right
        right
        simp [hrow]
      · left
        right
        rw [writerRows, List.mem_range'_1]
        omega
  · rintro other (hother | hother)
    · exact .inl hother
    · right
      rw [writerRows, List.mem_range'_1] at hother
      rw [writerRows, List.mem_range'_1, List.length_cons]
      omega

/-- Every step moves the rows. -/
theorem rowsMove_of_step {event : Event}
    (hstep : step job table batchSize concurrency tasks event = some next) :
    RowsMove tasks next event := by
  cases stepCase_of_step hstep with
  | cancel hproducer | close hproducer =>
    refine rowsMove_of_idle ?_ rfl rfl rfl ?_ rfl
    · rw [hproducer]
      rfl
    · simp only [Tasks.bound, hproducer]
  | joinCancelled hproducer | join hproducer =>
    refine rowsMove_of_idle ?_ rfl rfl rfl ?_ rfl
    · rw [hproducer]
      rfl
    · simp only [Tasks.bound, Tasks.report, hproducer]
  | send hproducer hmore hconverted => exact rowsMove_send _ hproducer hmore hconverted
  | refuse hproducer hmore => exact rowsMove_refuse _ _ hproducer hmore
  | deadLetterRow hproducer hmore => exact rowsMove_deadLetterRow _ hproducer hmore _ _ _
  | countRows hproducer hdone => exact rowsMove_countRows _ hproducer hdone
  | @receive i batch channel hwriter hchannel =>
    refine rowsMove_of_writer (.inserting batch) hwriter rfl rfl rfl (List.Subset.refl _) ?_ ?_
    · intro row hrow
      rw [hchannel, List.flatMap_cons, List.mem_append] at hrow
      exact .inl (hrow.resolve_right List.not_mem_nil).symm
    · intro row hrow
      rw [hchannel, List.flatMap_cons, List.mem_append]
      exact .inl hrow.symm
  | @inserted i batch hwriter =>
    refine rowsMove_of_writer (.receiving) hwriter rfl rfl rfl (List.Subset.refl _) ?_ ?_
    · intro row hrow
      rcases hrow with hrow | hrow
      · exact .inl (.inl hrow)
      · right
        left
        simp only [storedBy, hwriter]
        exact hrow
    · rintro row (hrow | hrow)
      · exact .inl hrow
      · cases hrow
  | @insertFailed i stored batch error hwriter =>
    refine rowsMove_of_writer (.deadLettering batch.docs.length batch.docs batch.offset error)
      hwriter rfl rfl rfl (List.Subset.refl _) ?_ ?_
    · exact fun row hrow ↦ .inl hrow
    · exact fun row hrow ↦ hrow
  | push hwriter => exact rowsMove_push _ hwriter _ _
  | @countDocs i docCount row error hwriter =>
    refine rowsMove_of_writer (.receiving) hwriter rfl rfl rfl (List.Subset.refl _) ?_ ?_
    · rintro row (hrow | hrow)
      · exact .inl (.inl hrow)
      · simp [writerRows] at hrow
    · rintro row (hrow | hrow)
      · exact .inl hrow
      · cases hrow
  | @exit i cancelled hwriter =>
    refine rowsMove_of_writer (.exited) hwriter rfl rfl rfl (List.Subset.refl _) ?_ ?_
    · rintro row (hrow | hrow)
      · exact .inl (.inl hrow)
      · cases hrow
    · rintro row (hrow | hrow)
      · exact .inl hrow
      · cases hrow

/-! ## Where the producer is -/

/-- The producer is at the start of its chunk, and dead-letters rows up to its end. -/
structure Positioned (total batchSize : ℕ) (tasks : Tasks V) : Prop where
  offset : tasks.offset = min (tasks.chunkNum * batchSize) total
  stop : ∀ row stop error, tasks.producer = .deadLettering row stop error →
    tasks.offset < total ∧ stop = min (tasks.offset + batchSize) total

theorem chunkNum_advance (tasks : Tasks V) (stop : ℕ) :
    (tasks.advance stop).chunkNum = tasks.chunkNum + 1 := by
  unfold Tasks.advance
  simp only
  split_ifs <;> rfl

/-- The producer goes on to the next chunk. -/
theorem Positioned.advance {total batchSize stop : ℕ} {before : Tasks V}
    (hoffset : before.offset = min (before.chunkNum * batchSize) total)
    (hmore : before.offset < total) (hstop : stop = min (before.offset + batchSize) total) :
    Positioned total batchSize (before.advance stop) := by
  obtain ⟨hproducer, hnext, -⟩ := advance_frame before stop
  refine ⟨?_, fun row stop error heq ↦ ?_⟩
  · rw [hnext, hstop, chunkNum_advance, Nat.succ_mul]
    omega
  · rw [hproducer] at heq
    cases heq

theorem positioned_of_step {event : Event} (h : Positioned table.length batchSize tasks)
    (hstep : step job table batchSize concurrency tasks event = some next) :
    Positioned table.length batchSize next := by
  cases stepCase_of_step hstep with
  | cancel | close | joinCancelled | join =>
    exact ⟨h.offset, fun row stop error heq ↦ Producer.noConfusion heq⟩
  | send hproducer hmore => exact Positioned.advance h.offset hmore rfl
  | refuse hproducer hmore =>
    refine ⟨h.offset, fun row stop error heq ↦ ?_⟩
    obtain ⟨-, rfl, -⟩ := Producer.deadLettering.inj heq
    exact ⟨hmore, rfl⟩
  | deadLetterRow hproducer =>
    refine ⟨h.offset, fun row stop error heq ↦ ?_⟩
    obtain ⟨-, rfl, -⟩ := Producer.deadLettering.inj heq
    exact h.stop _ _ _ hproducer
  | countRows hproducer =>
    obtain ⟨hmore, hstop⟩ := h.stop _ _ _ hproducer
    exact Positioned.advance h.offset hmore hstop
  | receive | inserted | insertFailed | push | countDocs | exit => exact ⟨h.offset, h.stop⟩

/-- A writer leaves the producer where it is. -/
theorem producer_of_writer {event : Event} (hwriter : isProducer event = false)
    (hstep : step job table batchSize concurrency tasks event = some next) :
    next.chunkNum = tasks.chunkNum ∧ next.offset = tasks.offset ∧ next.bound = tasks.bound := by
  cases stepCase_of_step hstep with
  | cancel | send | refuse | deadLetterRow | countRows | close | joinCancelled | join =>
    cases hwriter
  | receive | inserted | insertFailed | push | countDocs | exit => exact ⟨rfl, rfl, rfl⟩

/-- The chunk that is reported is the last one taken, and no row is being dead-lettered by the
producer. -/
theorem reportOf_eq_some {event : Event} {chunk : ℕ} (hproducer : isProducer event = true)
    (hstep : step job table batchSize concurrency tasks event = some next)
    (hreport : reportOf tasks next event = some chunk) :
    chunk = next.chunkNum ∧ next.bound = next.offset := by
  have hchunk : chunk = next.chunkNum := by
    unfold reportOf at hreport
    split_ifs at hreport <;> exact (Option.some.inj hreport).symm
  refine ⟨hchunk, ?_⟩
  cases stepCase_of_step hstep with
  | send | countRows =>
    exact (advance_underway _ _).2.2.2.trans (advance_frame _ _).2.1.symm
  | join | joinCancelled => rfl
  | cancel | refuse | deadLetterRow | close => simp [reportOf] at hreport
  | receive | inserted | insertFailed | push | countDocs | exit => cases hproducer

end Rows

/-! ## The invariant of the record -/

section Record

variable {job : Job V Row} {table : List Row} {batchSize concurrency : ℕ}

/-- All rows that were taken are handled or under way, a report that is under way names the chunks
taken, and the checkpoint is safe. -/
structure Sound (table : List Row) (batchSize : ℕ) (recording : Recording V) : Prop where
  positioned : Positioned table.length batchSize recording.tasks
  accounted : ∀ row < recording.tasks.bound,
    recording.Handled row ∨ row ∈ underWay recording.tasks
  below : ∀ row ∈ underWay recording.tasks, row < recording.tasks.bound
  report : ∀ chunk, recording.report = some chunk →
    chunk = recording.tasks.chunkNum ∧ recording.tasks.bound = recording.tasks.offset
  safe : Safe table batchSize recording

theorem start_sound (collection : List (Document V)) :
    Sound table batchSize (Recording.start concurrency collection) where
  positioned := ⟨by simp [Recording.start, Tasks.start],
    fun row stop error heq ↦ Producer.noConfusion heq⟩
  accounted row hrow := absurd hrow (Nat.not_lt_zero row)
  below row hrow := by
    simp only [underWay, Recording.start, Tasks.start, producerRows, List.flatMap_nil,
      List.nil_append, List.mem_flatMap] at hrow
    obtain ⟨writer, hwriter, hrow⟩ := hrow
    obtain rfl := List.eq_of_mem_replicate hwriter
    cases hrow
  report chunk hchunk := by cases hchunk
  safe row _ hrow := by
    rw [Recording.start, Nat.zero_mul] at hrow
    exact absurd hrow (Nat.not_lt_zero row)

/-- A step of the tasks keeps the invariant: rows stay handled, and the others stay under way or
become handled. -/
theorem Sound.work {recording next : Recording V} {event : Event}
    (h : Sound table batchSize recording)
    (hstep : recordingStep job table batchSize concurrency recording (.work event) = some next) :
    Sound table batchSize next := by
  have hfree : ¬ (isProducer event && recording.report.isSome) = true := by
    intro hblocked
    simp only [recordingStep, if_pos hblocked] at hstep
    cases hstep
  simp only [recordingStep, if_neg hfree] at hstep
  obtain ⟨tasks, htasks, rfl⟩ := Option.map_eq_some_iff.mp hstep
  have hmove := rowsMove_of_step htasks
  have hhandled : ∀ row, recording.Handled row →
      row ∈ recording.stored ++ storedBy recording.tasks event ∨
        row ∈ tasks.deadLetters.map DeadLetterEntry.sourceRow := fun row hrow ↦
    hrow.imp (List.mem_append_left _) fun hrow ↦ List.map_subset _ hmove.deadLetters hrow
  refine ⟨positioned_of_step h.positioned htasks, fun row hrow ↦ ?_, fun row hrow ↦ ?_,
    fun chunk hchunk ↦ ?_, fun row htable hrow ↦ hhandled row (h.safe row htable hrow)⟩
  · by_cases hbound : row < recording.tasks.bound
    · rcases h.accounted row hbound with hrow | hrow
      · exact .inl (hhandled row hrow)
      · rcases hmove.kept row hrow with hrow | hrow | hrow
        · exact .inr hrow
        · exact .inl (.inl (List.mem_append_right _ hrow))
        · exact .inl (.inr hrow)
    · exact .inr (hmove.taken row (not_lt.mp hbound) hrow)
  · rcases hmove.below row hrow with hrow | hrow
    · exact (h.below row hrow).trans_le hmove.bound
    · exact hrow.2
  · cases hproducer : isProducer event with
    | true =>
      simp only [hproducer, if_true] at hchunk
      exact reportOf_eq_some hproducer htasks hchunk
    | false =>
      simp only [hproducer, Bool.false_eq_true, if_false] at hchunk
      obtain ⟨hnum, hoffset, hbound⟩ := producer_of_writer hproducer htasks
      obtain ⟨hsame, hat⟩ := h.report chunk hchunk
      exact ⟨hsame.trans hnum.symm, (hbound.trans hat).trans hoffset.symm⟩

/-- The rows of the chunks that a report names are those taken so far. -/
theorem Sound.row_lt_bound_iff {recording : Recording V} {chunk : ℕ}
    (h : Sound table batchSize recording) (hreport : recording.report = some chunk) (row : ℕ) :
    row < table.length ∧ row < chunk * batchSize ↔ row < recording.tasks.bound := by
  obtain ⟨rfl, hbound⟩ := h.report chunk hreport
  rw [hbound, h.positioned.offset]
  omega

/-- Every checkpoint of a run is safe exactly when every report is stored at a moment when nothing
is under way that is not stored already. -/
theorem safe_iff_settled (collection : List (Document V)) (events : List RecordingEvent) :
    Throughout (recordingStep job table batchSize concurrency) (Safe table batchSize)
        (Recording.start concurrency collection) events ↔
      StepsMeet (recordingStep job table batchSize concurrency) Settled
        (Recording.start concurrency collection) events := by
  have hgood : ∀ recording : Recording V, Sound table batchSize recording →
      Safe table batchSize recording := fun _ h ↦ h.safe
  refine throughout_iff_stepsMeet hgood ?_ ?_ (start_sound collection)
  · intro recording event next h hsettled hstep
    cases event with
    | work event => exact h.work hstep
    | reported stored =>
      obtain ⟨chunk, hchunk, rfl⟩ := Option.map_eq_some_iff.mp hstep
      refine ⟨h.positioned, h.accounted, h.below, fun _ hother ↦ absurd hother (by simp), ?_⟩
      cases stored with
      | false => exact h.safe
      | true =>
        intro row htable hrow
        have hbound := (h.row_lt_bound_iff hchunk row).mp ⟨htable, hrow⟩
        rcases h.accounted row hbound with hhandled | hunder
        · exact hhandled
        · exact hsettled (Option.isSome_of_eq_some hchunk) row hunder
  · intro recording event h hnot
    cases event with
    | work event => exact absurd trivial hnot
    | reported stored =>
      cases stored with
      | false => exact absurd trivial hnot
      | true =>
        obtain ⟨hsome, hunder⟩ := Classical.not_imp.mp hnot
        obtain ⟨chunk, hchunk⟩ := Option.isSome_iff_exists.mp hsome
        refine ⟨_, Option.map_eq_some_iff.mpr ⟨chunk, hchunk, rfl⟩, fun hsafe ↦ hunder ?_⟩
        intro row hrow
        obtain ⟨htable, hlt⟩ := (h.row_lt_bound_iff hchunk row).mpr (h.below row hrow)
        exact hsafe row htable hlt

end Record

end MongoCore.Ingestion.Checkpoint
