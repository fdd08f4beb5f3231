import MongoCore.Ingestion.Checkpoint
import Mathlib.Algebra.BigOperators.Group.Multiset.Basic
import Mathlib.Algebra.Order.BigOperators.Group.List
import Mathlib.Algebra.Order.Group.Nat

/-!
# The rows of concurrent writes

Every row of a table is handed over once: in the batch that a writer receives and passes to
`insert_many`, or to the dead letters by the producer, which could not convert the chunk of the row.
The module follows the rows from the table through the channel.

An update of the progress loads the two counters one after the other.  The producer waits for its
update, but the writers go on, also between the two loads.
-/

namespace MongoCore.Ingestion.ConcurrentPartition

open MongoCore.Library.TransitionSystem MongoCore.Ingestion.ConcurrentWrites
open MongoCore.Ingestion.Checkpoint

variable {V Row : Type}

/-! ## Hand-overs and updates -/

/-- What is handed over: a batch to `insert_many`, or a row to the dead letters.  The row comes with
the first row of its chunk. -/
inductive HandOver (V : Type) where
  | insertMany (batch : Batch V)
  | deadLetter (chunk row : ℕ)

def HandOver.rows : HandOver V → List ℕ
  | .insertMany batch => batchRows batch
  | .deadLetter _ row => [row]

/-- What an event hands over.  A writer that receives a batch calls `insert_many` with it. -/
def handedBy (tasks : Tasks V) : Event → List (HandOver V)
  | .receive _ =>
      match tasks.channel with
      | batch :: _ => [.insertMany batch]
      | [] => []
  | .deadLetterRow =>
      match tasks.producer with
      | .deadLettering row stop _ => if row < stop then [.deadLetter tasks.offset row] else []
      | .converting | .closed _ | .returned _ => []
  | _ => []

structure Update where
  rowsProcessed : ℕ
  rowsInserted : ℕ
  rowsFailed : ℕ

/-- An update that is being prepared, with the first counter once it is loaded. -/
structure Loading where
  rowsProcessed : ℕ
  rowsInserted : Option ℕ

/-- The tasks of a job with what they have handed over, the update in preparation and the updates
published so far.  The counters that the tasks report by themselves are not looked at. -/
structure Writing (V : Type) where
  tasks : Tasks V
  handed : List (HandOver V)
  loading : Option Loading
  published : List Update

/-- A job before its first step. -/
def Writing.start (concurrency : ℕ) (collection : List (Document V)) : Writing V where
  tasks := Tasks.start concurrency collection
  handed := []
  loading := none
  published := []

/-- A step of the tasks, or one of the two loads of an update.  The second publishes it. -/
inductive WritingEvent where
  | work (event : Event)
  | loadInserted
  | loadFailed

/-- The update that the producer prepares after an event. -/
def loadingAfter (table : List Row) (tasks next : Tasks V) (event : Event) : Option Loading :=
  (reportOf tasks next event).map fun _ ↦
    ⟨if event = .join then table.length else next.offset, none⟩

def writingStep (job : Job V Row) (table : List Row) (batchSize concurrency : ℕ)
    (writing : Writing V) : WritingEvent → Option (Writing V)
  | .work event =>
      if isProducer event && writing.loading.isSome then none
      else (step job table batchSize concurrency writing.tasks event).map fun next ↦
        { writing with
          tasks := next
          handed := writing.handed ++ handedBy writing.tasks event
          loading :=
            if isProducer event then loadingAfter table writing.tasks next event
            else writing.loading }
  | .loadInserted =>
      match writing.loading with
      | some ⟨rowsProcessed, none⟩ =>
          some { writing with loading := some ⟨rowsProcessed, some writing.tasks.rowsInserted⟩ }
      | _ => none
  | .loadFailed =>
      match writing.loading with
      | some ⟨rowsProcessed, some rowsInserted⟩ =>
          some { writing with
            loading := none
            published :=
              writing.published ++ [⟨rowsProcessed, rowsInserted, writing.tasks.rowsFailed⟩] }
      | _ => none

/-- The function has returned `Ok`. -/
def Writing.ReturnedOk (writing : Writing V) : Prop :=
  writing.tasks.producer = .returned false ∧ writing.loading = none

/-! ## The property -/

section Property

variable (job : Job V Row) (table : List Row) (batchSize : ℕ)

/-- A batch has the documents of a chunk, in the order of the rows from its offset.  A row is
dead-lettered with its chunk, which cannot be converted. -/
def HandOver.Tagged : HandOver V → Prop
  | .insertMany batch => batch.docs.length ≤ batchSize ∧
      dataframeToDocuments job (chunkAt table batchSize batch.offset) = .ok batch.docs ∧
      batch.Valid (documentOf job table)
  | .deadLetter chunk row => chunk ≤ row ∧ row < min (chunk + batchSize) table.length ∧
      ∃ error, dataframeToDocuments job (chunkAt table batchSize chunk) = .error error

/-- What is handed over is tagged rightly, no update counts more rows than were processed, and when
the function has returned `Ok` every row has been handed over once. -/
structure Partitions (writing : Writing V) : Prop where
  tagged : ∀ handOver ∈ writing.handed, handOver.Tagged job table batchSize
  updates : ∀ update ∈ writing.published,
    update.rowsInserted + update.rowsFailed ≤ update.rowsProcessed
  rows : writing.ReturnedOk →
    (writing.handed.flatMap HandOver.rows).Perm (List.range table.length)

end Property

/-! ## The way of a row -/

section Rows

variable {job : Job V Row} {table : List Row} {batchSize concurrency : ℕ} {tasks next : Tasks V}

/-- The rows that have been taken from the table and are not handed over. -/
def queued (tasks : Tasks V) : List ℕ :=
  tasks.channel.flatMap batchRows ++ producerRows tasks.producer

/-- A step hands over rows of the queue, and queues the rows up to the new bound. -/
structure QueueMoves (tasks next : Tasks V) (event : Event) : Prop where
  bound : tasks.bound ≤ next.bound
  rows : ((handedBy tasks event).flatMap HandOver.rows ++ queued next).Perm
    (queued tasks ++ List.range' tasks.bound (next.bound - tasks.bound))

theorem queueMoves_of_eq {event : Event} (hbound : next.bound = tasks.bound)
    (hrows : ((handedBy tasks event).flatMap HandOver.rows ++ queued next).Perm (queued tasks)) :
    QueueMoves tasks next event := by
  refine ⟨hbound.ge, ?_⟩
  rw [hbound, Nat.sub_self, List.range'_zero, List.append_nil]
  exact hrows

/-- A chunk that is taken up comes behind the rows of the channel. -/
theorem queueMoves_of_taken {event : Event} (size : ℕ) (hproducer : tasks.producer = .converting)
    (hnone : handedBy tasks event = []) (hbound : next.bound = tasks.bound + size)
    (hqueued : queued next =
      tasks.channel.flatMap batchRows ++ List.range' tasks.offset size) :
    QueueMoves tasks next event := by
  have hstart : tasks.bound = tasks.offset := (underway_of_converting hproducer).2.2
  refine ⟨hbound ▸ Nat.le_add_right _ _, ?_⟩
  rw [hnone, hqueued, queued, hproducer, producerRows, hbound, Nat.add_sub_cancel_left, hstart]
  simp

theorem queueMoves_of_step {event : Event}
    (hstep : step job table batchSize concurrency tasks event = some next) :
    QueueMoves tasks next event := by
  cases stepCase_of_step hstep with
  | cancel hproducer | close hproducer =>
    refine queueMoves_of_eq ?_ ?_
    · simp only [Tasks.bound, hproducer]
    · simp [queued, hproducer, producerRows, handedBy]
  | joinCancelled hproducer | join hproducer =>
    refine queueMoves_of_eq ?_ ?_
    · simp only [Tasks.bound, Tasks.report, hproducer]
    · simp [queued, hproducer, producerRows, handedBy, Tasks.report]
  | @send docs hproducer hmore hconverted =>
    have hlength : docs.length = min (tasks.offset + batchSize) table.length - tasks.offset := by
      rw [← (dataframeToDocuments_eq_ok.mp hconverted).length_eq, length_chunkAt]
    have hstart : tasks.bound = tasks.offset := (underway_of_converting hproducer).2.2
    obtain ⟨hconverting, -, hchannel, -⟩ := advance_frame
      { tasks with channel := tasks.channel ++ [⟨docs, tasks.offset⟩] }
      (min (tasks.offset + batchSize) table.length)
    refine queueMoves_of_taken docs.length hproducer rfl ?_ ?_
    · rw [(advance_underway _ _).2.2.2, hstart, hlength]
      omega
    · rw [queued, hconverting, hchannel]
      simp [producerRows, batchRows]
  | @refuse error hproducer hmore =>
    have hstart : tasks.bound = tasks.offset := (underway_of_converting hproducer).2.2
    have hstop : tasks.offset ≤ min (tasks.offset + batchSize) table.length := by omega
    refine queueMoves_of_taken (min (tasks.offset + batchSize) table.length - tasks.offset)
      hproducer rfl ?_ rfl
    rw [hstart]
    exact (Nat.add_sub_cancel' hstop).symm
  | @deadLetterRow row stop error hproducer hmore =>
    refine queueMoves_of_eq ?_ ?_
    · simp only [Tasks.bound, hproducer]
    · have hsplit : List.range' row (stop - row) =
          row :: List.range' (row + 1) (stop - (row + 1)) := by
        rw [← List.range'_succ]
        congr 1
        omega
      simp only [handedBy, hproducer, hmore, if_true, queued, producerRows, hsplit,
        List.flatMap_singleton, HandOver.rows, List.singleton_append]
      exact List.perm_middle.symm
  | @countRows row stop error hproducer hdone =>
    obtain ⟨hconverting, -, hchannel, -⟩ := advance_frame
      { tasks with rowsFailed := tasks.rowsFailed + (stop - tasks.offset) } stop
    refine queueMoves_of_eq ?_ ?_
    · rw [(advance_underway _ _).2.2.2]
      simp only [Tasks.bound, hproducer]
    · have hempty : stop - row = 0 := Nat.sub_eq_zero_of_le (not_lt.mp hdone)
      rw [queued, queued, hconverting, hchannel]
      simp [handedBy, hproducer, hdone, producerRows, hempty]
  | @receive i batch channel hwriter hchannel =>
    refine queueMoves_of_eq rfl ?_
    simp [handedBy, queued, hchannel, HandOver.rows, Tasks.setWriter]
  | inserted | insertFailed | push | countDocs | exit =>
    exact queueMoves_of_eq rfl (.refl _)

end Rows

/-! ## The invariant -/

section Invariant

variable (job : Job V Row) (table : List Row) (batchSize : ℕ)

/-- What waits in the channel, or to be dead-lettered, comes from the chunk it is tagged with. -/
structure Waiting (tasks : Tasks V) : Prop where
  converted : ∀ batch ∈ tasks.channel,
    dataframeToDocuments job (chunkAt table batchSize batch.offset) = .ok batch.docs
  failed : ∀ row stop error, tasks.producer = .deadLettering row stop error →
    ∃ error, dataframeToDocuments job (chunkAt table batchSize tasks.offset) = .error error

/-- The tasks are in order, the queued rows and those handed over make up the rows that were taken,
and an update in preparation counts all rows taken. -/
structure Sound (writing : Writing V) : Prop where
  balanced : ∃ accounts, Balanced (documentOf job table) writing.tasks accounts
  orderly : Orderly table.length writing.tasks
  positioned : Positioned table.length batchSize writing.tasks
  waiting : Waiting job table batchSize writing.tasks
  rows : (writing.handed.flatMap HandOver.rows ++ queued writing.tasks).Perm
    (List.range writing.tasks.bound)
  tagged : ∀ handOver ∈ writing.handed, handOver.Tagged job table batchSize
  loading : ∀ loading, writing.loading = some loading →
    loading.rowsProcessed = writing.tasks.bound ∧
      ∀ rowsInserted, loading.rowsInserted = some rowsInserted →
        rowsInserted ≤ writing.tasks.rowsInserted
  updates : ∀ update ∈ writing.published,
    update.rowsInserted + update.rowsFailed ≤ update.rowsProcessed

variable {job table batchSize} {concurrency : ℕ} {tasks next : Tasks V}

theorem waiting_advance {before : Tasks V} (stop : ℕ)
    (hconverted : ∀ batch ∈ before.channel,
      dataframeToDocuments job (chunkAt table batchSize batch.offset) = .ok batch.docs) :
    Waiting job table batchSize (before.advance stop) := by
  obtain ⟨hproducer, -, hchannel, -⟩ := advance_frame before stop
  refine ⟨hchannel ▸ hconverted, fun row stop error heq ↦ ?_⟩
  rw [hproducer] at heq
  cases heq

theorem waiting_of_step {event : Event} (h : Waiting job table batchSize tasks)
    (hstep : step job table batchSize concurrency tasks event = some next) :
    Waiting job table batchSize next := by
  cases stepCase_of_step hstep with
  | cancel | close | joinCancelled | join =>
    exact ⟨h.converted, fun row stop error heq ↦ Producer.noConfusion heq⟩
  | send hproducer hmore hconverted =>
    refine waiting_advance _ fun batch hbatch ↦ ?_
    rcases List.mem_append.mp hbatch with hold | hnew
    · exact h.converted batch hold
    · rw [List.mem_singleton.mp hnew]
      exact hconverted
  | @refuse error hproducer hmore hfailed =>
    exact ⟨h.converted, fun _ _ _ _ ↦ ⟨error, hfailed⟩⟩
  | deadLetterRow hproducer =>
    exact ⟨h.converted, fun _ _ _ _ ↦ h.failed _ _ _ hproducer⟩
  | countRows => exact waiting_advance _ h.converted
  | receive hwriter hchannel =>
    refine ⟨fun batch hbatch ↦ h.converted batch ?_, h.failed⟩
    rw [hchannel]
    exact List.mem_cons_of_mem _ hbatch
  | inserted | insertFailed | push | countDocs | exit => exact ⟨h.converted, h.failed⟩

/-- What a step hands over comes from the queue, and so is tagged rightly. -/
theorem tagged_of_step {event : Event} (h : Waiting job table batchSize tasks)
    (horderly : Orderly table.length tasks) (hpositioned : Positioned table.length batchSize tasks)
    {handOver : HandOver V} (hmem : handOver ∈ handedBy tasks event) :
    handOver.Tagged job table batchSize := by
  cases event with
  | receive i =>
    simp only [handedBy] at hmem
    split at hmem
    · rename_i batch channel hchannel
      obtain rfl := List.mem_singleton.mp hmem
      have hconverted := h.converted batch (hchannel ▸ List.mem_cons_self)
      have hrows := dataframeToDocuments_eq_ok.mp hconverted
      have hlength := length_chunkAt table batchSize batch.offset
      exact ⟨by rw [← hrows.length_eq]; omega, hconverted,
        fun i document hi ↦ documentOf_of_forall₂ hrows hi⟩
    · cases hmem
  | deadLetterRow =>
    simp only [handedBy] at hmem
    split at hmem
    · rename_i row stop error hproducer
      split_ifs at hmem with hmore
      · obtain rfl := List.mem_singleton.mp hmem
        obtain ⟨hfirst, -, -⟩ := horderly.deadLettering row stop error hproducer
        obtain ⟨-, hstop⟩ := hpositioned.stop row stop error hproducer
        exact ⟨hfirst, hstop ▸ hmore, h.failed row stop error hproducer⟩
      · cases hmem
    all_goals cases hmem
  | cancel | convert | close | insertMany | push | exit | join => cases hmem

/-- The counter of the inserted rows does not go down. -/
theorem rowsInserted_le_of_step {event : Event}
    (hstep : step job table batchSize concurrency tasks event = some next) :
    tasks.rowsInserted ≤ next.rowsInserted := by
  cases stepCase_of_step hstep with
  | send | countRows => rw [(advance_frame _ _).2.2.2.2.2.1]
  | inserted => exact Nat.le_add_right _ _
  | cancel | refuse | deadLetterRow | close | receive | insertFailed | push | countDocs | exit
  | joinCancelled | join => exact Nat.le_refl _

/-- The two counters count no more rows than were taken. -/
theorem counters_le_bound {accounts : List (Account V)}
    (h : Balanced (documentOf job table) tasks accounts) :
    tasks.rowsInserted + tasks.rowsFailed ≤ tasks.bound := by
  obtain ⟨spans, hspans, htiles⟩ := h.tiles
  have hsum : (accounts.map Account.rowsInserted).sum +
      (accounts.map fun account ↦ account.failedRows.length).sum ≤
        (accounts.map fun account ↦ account.span.2).sum := by
    rw [← List.sum_map_add]
    refine List.sum_le_sum fun account haccount ↦ ?_
    have hcounted := Account.counted (h.valid account haccount)
    omega
  have htotal : (accounts.map fun account ↦ account.span.2).sum ≤ tasks.bound := by
    have hmapped := congrArg (fun all : Multiset (ℕ × ℕ) ↦ (all.map Prod.snd).sum) hspans
    simp only [Multiset.map_coe, Multiset.sum_coe, Multiset.map_add, Multiset.sum_add,
      htiles.sum, List.map_map] at hmapped
    have hsame : (accounts.map fun account ↦ account.span.2) =
        accounts.map (Prod.snd ∘ Account.span) := rfl
    rw [hsame]
    omega
  have hinserted := h.rowsInserted
  have hfailed := h.rowsFailed
  omega

end Invariant

/-! ## Runs -/

section Runs

variable {job : Job V Row} {table : List Row} {batchSize concurrency : ℕ}

theorem sound_start (collection : List (Document V)) :
    Sound job table batchSize (Writing.start concurrency collection) where
  balanced := ⟨[], start_balanced collection _⟩
  orderly := start_orderly collection _
  positioned := ⟨by simp [Writing.start, Tasks.start],
    fun row stop error heq ↦ Producer.noConfusion heq⟩
  waiting := ⟨fun batch hbatch ↦ absurd hbatch List.not_mem_nil,
    fun row stop error heq ↦ Producer.noConfusion heq⟩
  rows := .refl _
  tagged handOver hmem := absurd hmem List.not_mem_nil
  loading loading hloading := by cases hloading
  updates update hmem := absurd hmem List.not_mem_nil

/-- The update that the producer begins to prepare counts all rows taken. -/
theorem loadingAfter_eq_some {tasks next : Tasks V} {event : Event} {loading : Loading}
    (hproducer : isProducer event = true) (horderly : Orderly table.length next)
    (hstep : step job table batchSize concurrency tasks event = some next)
    (hloading : loadingAfter table tasks next event = some loading) :
    loading = ⟨next.bound, none⟩ := by
  obtain ⟨chunk, hreport, rfl⟩ := Option.map_eq_some_iff.mp hloading
  rw [(reportOf_eq_some hproducer hstep hreport).2]
  split_ifs with hjoin
  · -- at the end all rows have been taken
    have hreturned : next.producer = .returned false := by
      by_contra hnot
      simp [reportOf, hjoin, hnot] at hreport
    rw [(horderly.returned hreturned).1]
  · rfl

/-- What a step of the tasks does to the rest. -/
theorem exists_step_of_work {writing next : Writing V} {event : Event}
    (hstep : writingStep job table batchSize concurrency writing (.work event) = some next) :
    ∃ tasks, step job table batchSize concurrency writing.tasks event = some tasks ∧
      { writing with
        tasks := tasks
        handed := writing.handed ++ handedBy writing.tasks event
        loading :=
          if isProducer event then loadingAfter table writing.tasks tasks event
          else writing.loading } = next := by
  have hfree : ¬ (isProducer event && writing.loading.isSome) = true := by
    intro hblocked
    simp only [writingStep, if_pos hblocked] at hstep
    cases hstep
  simp only [writingStep, if_neg hfree] at hstep
  exact Option.map_eq_some_iff.mp hstep

theorem Sound.work {writing next : Writing V} {event : Event}
    (h : Sound job table batchSize writing)
    (hstep : writingStep job table batchSize concurrency writing (.work event) = some next) :
    Sound job table batchSize next := by
  obtain ⟨tasks, htasks, rfl⟩ := exists_step_of_work hstep
  obtain ⟨accounts, hbalanced⟩ := h.balanced
  have horderly := step_orderly h.orderly htasks
  have hmove := queueMoves_of_step htasks
  refine ⟨⟨_, step_balanced hbalanced htasks⟩, horderly, positioned_of_step h.positioned htasks,
    waiting_of_step h.waiting htasks, ?_, fun handOver hmem ↦ ?_, fun loading hloading ↦ ?_,
    h.updates⟩
  · calc (writing.handed ++ handedBy writing.tasks event).flatMap HandOver.rows ++ queued tasks
        = writing.handed.flatMap HandOver.rows ++
            ((handedBy writing.tasks event).flatMap HandOver.rows ++ queued tasks) := by
          rw [List.flatMap_append, List.append_assoc]
      List.Perm _ (writing.handed.flatMap HandOver.rows ++ (queued writing.tasks ++
            List.range' writing.tasks.bound (tasks.bound - writing.tasks.bound))) :=
          hmove.rows.append_left _
      _ = (writing.handed.flatMap HandOver.rows ++ queued writing.tasks) ++
            List.range' writing.tasks.bound (tasks.bound - writing.tasks.bound) := by
          rw [List.append_assoc]
      List.Perm _ (List.range writing.tasks.bound ++
            List.range' writing.tasks.bound (tasks.bound - writing.tasks.bound)) :=
          h.rows.append_right _
      _ = List.range tasks.bound := by
          rw [List.range_eq_range', List.range_eq_range', ← Nat.add_sub_of_le hmove.bound,
            ← List.range'_append_1]
          simp
  · rcases List.mem_append.mp hmem with hold | hnew
    · exact h.tagged handOver hold
    · exact tagged_of_step h.waiting h.orderly h.positioned hnew
  · cases hproducer : isProducer event with
    | true =>
      simp only [hproducer, if_true] at hloading
      rw [loadingAfter_eq_some hproducer horderly htasks hloading]
      exact ⟨rfl, fun rowsInserted hnone ↦ by cases hnone⟩
    | false =>
      simp only [hproducer, Bool.false_eq_true, if_false] at hloading
      obtain ⟨hprocessed, hinserted⟩ := h.loading loading hloading
      refine ⟨hprocessed.trans (producer_of_writer hproducer htasks).2.2.symm, ?_⟩
      exact fun rowsInserted hsome ↦
        (hinserted rowsInserted hsome).trans (rowsInserted_le_of_step htasks)

theorem sound_of_step (writing : Writing V) (event : WritingEvent) (next : Writing V)
    (h : Sound job table batchSize writing)
    (hstep : writingStep job table batchSize concurrency writing event = some next) :
    Sound job table batchSize next := by
  cases event with
  | work event => exact h.work hstep
  | loadInserted =>
    simp only [writingStep] at hstep
    split at hstep
    · rename_i rowsProcessed hloading
      obtain rfl := Option.some.inj hstep
      refine ⟨h.balanced, h.orderly, h.positioned, h.waiting, h.rows, h.tagged, ?_, h.updates⟩
      rintro loading ⟨⟩
      exact ⟨(h.loading _ hloading).1, fun rowsInserted hsome ↦ (Option.some.inj hsome).ge⟩
    · cases hstep
  | loadFailed =>
    simp only [writingStep] at hstep
    split at hstep
    · rename_i rowsProcessed rowsInserted hloading
      obtain rfl := Option.some.inj hstep
      refine ⟨h.balanced, h.orderly, h.positioned, h.waiting, h.rows, h.tagged,
        fun _ hnone ↦ absurd hnone (Option.some_ne_none _).symm, fun update hmem ↦ ?_⟩
      rcases List.mem_append.mp hmem with hold | hnew
      · exact h.updates update hold
      · -- the first counter has not gone down since it was loaded
        rw [List.mem_singleton.mp hnew]
        obtain ⟨accounts, hbalanced⟩ := h.balanced
        obtain ⟨hprocessed, hinserted⟩ := h.loading _ hloading
        have hcounters := counters_le_bound hbalanced
        have hfirst := hinserted rowsInserted rfl
        simp only at hprocessed ⊢
        omega
    · cases hstep

/-- The invariant with the number of writers holds along every run. -/
theorem sound_of_run {collection : List (Document V)} {events : List WritingEvent}
    {writing : Writing V}
    (hrun : run (writingStep job table batchSize concurrency)
      (Writing.start concurrency collection) events = some writing) :
    Sound job table batchSize writing ∧ writing.tasks.writers.length = concurrency := by
  have hkept (before : Writing V) (event : WritingEvent) (after : Writing V)
      (h : Sound job table batchSize before ∧ before.tasks.writers.length = concurrency)
      (_ : True) (hstep : writingStep job table batchSize concurrency before event = some after) :
      Sound job table batchSize after ∧ after.tasks.writers.length = concurrency := by
    refine ⟨sound_of_step before event after h.1 hstep, ?_⟩
    cases event with
    | work event =>
      obtain ⟨tasks, htasks, rfl⟩ := exists_step_of_work hstep
      exact (length_writers_of_step htasks).trans h.2
    | loadInserted | loadFailed =>
      simp only [writingStep] at hstep
      split at hstep
      · obtain rfl := Option.some.inj hstep
        exact h.2
      · cases hstep
  exact invariant_of_run hkept ⟨sound_start collection, List.length_replicate⟩
    (StepsMeet.of_forall fun _ _ _ ↦ trivial) hrun

/-- In every run, what is handed over is tagged rightly and no update counts too many rows.  When
the function has returned `Ok`, every row has been handed over once. -/
theorem partitions_of_run (hconcurrency : 0 < concurrency) (collection : List (Document V))
    (events : List WritingEvent) (writing : Writing V)
    (hrun : run (writingStep job table batchSize concurrency)
      (Writing.start concurrency collection) events = some writing) :
    Partitions job table batchSize writing := by
  obtain ⟨hsound, hlength⟩ := sound_of_run hrun
  refine ⟨hsound.tagged, hsound.updates, fun hreturned ↦ ?_⟩
  have hexited := hsound.orderly.joined false hreturned.1
  -- some writer has left, so the channel is empty
  have hchannel : writing.tasks.channel = [] := by
    obtain ⟨writer, hwriter⟩ := List.exists_mem_of_length_pos (hlength ▸ hconcurrency)
    exact (hsound.orderly.emptied writer hwriter (hexited writer hwriter)).1
  have hbound : writing.tasks.bound = table.length := by
    unfold Tasks.bound
    rw [hreturned.1]
    exact (hsound.orderly.returned hreturned.1).1
  have hqueued : queued writing.tasks = [] := by
    rw [queued, hchannel, hreturned.1]
    rfl
  have hrows := hsound.rows
  rw [hqueued, List.append_nil, hbound] at hrows
  exact hrows

end Runs

/-! ## A run -/

/-- A job whose rows are numbers, of which the large ones cannot be converted. -/
def smallNumbers : Job ℕ ℕ where
  fields := ["n"]
  seriesValueToBson row _ := if row < 100 then .ok row else .error "out of range"
  dedupKey := []
  conflictStrategy := .skip

/-- Three rows in chunks of one, with one writer: the second row cannot be converted, and the last
call to `insert_many` fails. -/
def threeRows : List WritingEvent :=
  [.work .convert, .work (.receive 0), .work .convert, .work .deadLetterRow,
    .work (.insertMany 0 none), .work .deadLetterRow, .work .convert, .work .close,
    .work (.receive 0), .work (.insertMany 0 (some (0, "duplicate key"))), .work (.push 0),
    .work (.push 0), .work (.exit 0), .work .join, .loadInserted, .loadFailed]

theorem partitions_threeRows :
    ∃ writing, writing.ReturnedOk ∧ writing.published.length = 1 ∧
      Partitions smallNumbers [1, 200, 3] 1 writing :=
  ⟨_, ⟨rfl, rfl⟩, rfl, partitions_of_run Nat.one_pos [] threeRows _ rfl⟩

end MongoCore.Ingestion.ConcurrentPartition
