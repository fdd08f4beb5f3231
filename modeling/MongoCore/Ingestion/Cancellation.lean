import MongoCore.Ingestion.Accounting

/-!
# Cancelling an ingestion job

A job is published with a channel for its cancellation, and then runs on a task of its own.  The
task subscribes to the channel when it first runs, and looks into it before each chunk.  When the
loop over the chunks has ended, its outcome is recorded and the channel removed.

The channel is a broadcast channel for one message.  A message reaches a receiver that is
subscribed when it is sent.  A receiver that has missed a message is told so once before it
receives the latest.
-/

namespace MongoCore.Ingestion.Cancellation

open MongoCore.Library.TransitionSystem

/-! ## Loops over chunks -/

/-- A loop over the chunks of a table, as its task sees it: its steps, whether it is about to look
for a cancellation, what it does when it finds one, which steps write a chunk, and its result. -/
structure ChunkLoop (σ ε : Type) where
  start : σ
  step : σ → ε → Option σ
  atPoll : σ → Bool
  cancel : σ → Option σ
  writesChunk : ε → Bool
  result : σ → Option (Except String Unit)

def display (message : String) : String := s!"Ingestion error: {message}"

section Loops

variable {V Row : Type} (job : Job V Row) (table : List Row) (batchSize : ℕ)
  (collection : List (Document V))

/-- The loop of a job without a dedup key. -/
def concurrentWrites (concurrency : ℕ) :
    ChunkLoop (ConcurrentWrites.Tasks V) ConcurrentWrites.Event where
  start := ConcurrentWrites.Tasks.start concurrency collection
  step tasks event :=
    match event with
    | .cancel => none
    | event => ConcurrentWrites.step job table batchSize concurrency tasks event
  atPoll tasks := decide (tasks.producer = .converting ∧ tasks.offset < table.length)
  cancel tasks := ConcurrentWrites.step job table batchSize concurrency tasks .cancel
  writesChunk event := decide (event = .convert)
  result tasks :=
    match tasks.producer with
    | .returned true => some (.error (display "Job cancelled"))
    | .returned false => some (.ok ())
    | _ => none

/-- The loop of a job with a dedup key writes, or has returned. -/
inductive Sequential (V : Type) where
  | writing (state : State V)
  | returned (result : Except String Unit)

inductive SequentialEvent where
  | chunk
  | finish

/-- The loop of a job with a dedup key. -/
def sequentialWrites [BEq V] (server : Server V) :
    ChunkLoop (Sequential V) SequentialEvent where
  start := .writing (State.start collection)
  step loop event :=
    match loop, event with
    | .writing state, .chunk =>
        if state.offset < table.length then
          match writeChunk { server with cancelled := fun _ ↦ false } job
            ((table.drop state.offset).take batchSize) state with
          | .error error => some (.returned (.error (display error)))
          | .ok next => some (.writing next)
        else none
    | .writing state, .finish =>
        if state.offset < table.length then none else some (.returned (.ok ()))
    | .returned _, _ => none
  atPoll loop :=
    match loop with
    | .writing state => decide (state.offset < table.length)
    | .returned _ => false
  cancel loop :=
    match loop with
    | .writing _ => some (.returned (.error (display "Job cancelled")))
    | .returned _ => none
  writesChunk event :=
    match event with
    | .chunk => true
    | .finish => false
  result loop :=
    match loop with
    | .writing _ => none
    | .returned result => some result

end Loops

/-! ## A job of the engine -/

inductive IngestStatus where
  | running
  | completed
  | failed
  | cancelled
  deriving DecidableEq, Repr

/-- Where a job stands.  While it writes, a flag says that the turn of a chunk has started. -/
inductive Phase (σ : Type) where
  | created
  | spawned
  | collecting
  | writing (loop : σ) (turn : Bool)
  | returned (result : Except String Unit)
  | recorded
  | removed

/-- The phase of a job, whether the engine knows its channel, the messages in the channel that the
task has not received, and the status and the error on record. -/
structure Engine (σ : Type) where
  phase : Phase σ
  entry : Bool
  unread : ℕ
  status : IngestStatus
  error : Option String

/-- A job whose record was created. -/
def Engine.initial {σ : Type} : Engine σ where
  phase := .created
  entry := false
  unread := 0
  status := .running
  error := none

/-- The task has a receiver of the channel. -/
def Phase.subscribed {σ : Type} : Phase σ → Bool
  | .created | .spawned | .removed => false
  | .collecting | .writing _ _ | .returned _ | .recorded => true

/-- What can happen to a job.  An operation of the database can fail. -/
inductive Event (ε : Type) where
  | publish
  | cancel
  | subscribe
  | collect (failure : Option String)
  | poll
  | work (event : ε)
  | panic_ (message : String)
  | return_
  | record (stored : Bool)
  | remove

section Steps

variable {σ ε : Type} (loop : ChunkLoop σ ε)

/-- A cancellation sends a message, which is lost without a receiver.  Without a channel it is
refused. -/
def cancel (engine : Engine σ) : Engine σ :=
  if engine.entry && engine.phase.subscribed then { engine with unread := engine.unread + 1 }
  else engine

/-- Before a chunk the task looks into the channel.  It stops at a message; if it has missed one, it
is told so, and goes on. -/
def poll (engine : Engine σ) (state : σ) : Option (Engine σ) :=
  match engine.unread with
  | 0 => some { engine with phase := .writing state true }
  | 1 => (loop.cancel state).map fun next ↦
      { engine with phase := .writing next false, unread := 0 }
  | _ + 2 => some { engine with phase := .writing state true, unread := 1 }

/-- The outcome of a job is put on record: it is completed, or failed with an error. -/
def record (engine : Engine σ) : Except String Unit → Engine σ
  | .ok () => { engine with status := .completed }
  | .error error => { engine with status := .failed, error := some error }

def step (engine : Engine σ) : Event ε → Option (Engine σ)
  | .publish =>
      match engine.phase with
      | .created => some { engine with phase := .spawned, entry := true }
      | _ => none
  | .cancel => some (cancel engine)
  | .subscribe =>
      match engine.phase with
      | .spawned => some { engine with phase := .collecting }
      | _ => none
  | .collect failure =>
      match engine.phase, failure with
      | .collecting, none => some { engine with phase := .writing loop.start false }
      | .collecting, some error =>
          some { engine with phase := .returned (.error (display s!"Collect failed: {error}")) }
      | _, _ => none
  | .poll =>
      match engine.phase with
      | .writing state false => if loop.atPoll state then poll loop engine state else none
      | _ => none
  | .work event =>
      match engine.phase with
      | .writing state turn =>
          if loop.writesChunk event && !turn then none
          else (loop.step state event).map fun next ↦
            { engine with phase := .writing next (turn && !loop.writesChunk event) }
      | _ => none
  | .panic_ message =>
      match engine.phase with
      | .collecting | .writing _ _ =>
          some { engine with phase := .returned (.error s!"Internal error (panic): {message}") }
      | _ => none
  | .return_ =>
      match engine.phase with
      | .writing state _ => (loop.result state).map fun result ↦
          { engine with phase := .returned result }
      | _ => none
  | .record stored =>
      match engine.phase with
      | .returned result =>
          let next := if stored then record engine result else engine
          some { next with phase := .recorded }
      | _ => none
  | .remove =>
      match engine.phase with
      | .recorded => some { engine with phase := .removed, entry := false }
      | _ => none

/-! ## What a cancellation promises -/

def StartsTurn (engine : Engine σ) : Event ε → Prop
  | .poll => ∃ next state, step loop engine .poll = some next ∧ next.phase = .writing state true
  | _ => False

/-- A cancellation is accepted after some events: the engine knows the channel of the job. -/
structure Accepted (front : List (Event ε)) (engine : Engine σ) : Prop where
  run : run (step loop) Engine.initial front = some engine
  entry : engine.entry = true

/-- What a cancellation that is accepted promises of the rest of the run: no turn of a chunk starts,
the job ends, and it is recorded as cancelled. -/
structure Effective (engine : Engine σ) (events : List (Event ε)) (final : Engine σ) : Prop where
  noTurn : StepsMeet (step loop) (fun engine event ↦ ¬ StartsTurn loop engine event) engine events
  ended : final.phase = .removed
  recorded : final.status = .cancelled

variable {loop}

/-! ### What a step does -/

variable (loop) in
/-- The steps of a job, by their kind. -/
inductive Change (engine : Engine σ) : Event ε → Engine σ → Prop
  | publish (phase : engine.phase = .created) :
      Change engine .publish { engine with phase := .spawned, entry := true }
  | cancel : Change engine .cancel (cancel engine)
  | subscribe (phase : engine.phase = .spawned) :
      Change engine .subscribe { engine with phase := .collecting }
  | collected (phase : engine.phase = .collecting) :
      Change engine (.collect none) { engine with phase := .writing loop.start false }
  | poll {state : σ} {next : Engine σ} (phase : engine.phase = .writing state false)
      (atPoll : loop.atPoll state = true) (polled : poll loop engine state = some next) :
      Change engine .poll next
  | work {state next : σ} {turn : Bool} {event : ε} (phase : engine.phase = .writing state turn)
      (allowed : loop.writesChunk event = true → turn = true)
      (worked : loop.step state event = some next) :
      Change engine (.work event)
        { engine with phase := .writing next (turn && !loop.writesChunk event) }
  | ended {event : Event ε} {result : Except String Unit}
      (phase : engine.phase = .collecting ∨ ∃ state turn, engine.phase = .writing state turn) :
      Change engine event { engine with phase := .returned result }
  | record {result : Except String Unit} (stored : Bool)
      (phase : engine.phase = .returned result) :
      Change engine (.record stored)
        { (if stored then record engine result else engine) with phase := .recorded }
  | remove (phase : engine.phase = .recorded) :
      Change engine .remove { engine with phase := .removed, entry := false }

theorem change_of_step {engine next : Engine σ} {event : Event ε}
    (hstep : step loop engine event = some next) : Change loop engine event next := by
  cases event with
  | publish =>
    simp only [step] at hstep
    split at hstep <;> cases hstep
    exact .publish ‹_›
  | cancel =>
    rw [← Option.some.inj hstep]
    exact .cancel
  | subscribe =>
    simp only [step] at hstep
    split at hstep <;> cases hstep
    exact .subscribe ‹_›
  | collect failure =>
    simp only [step] at hstep
    split at hstep <;> cases hstep
    · exact .collected ‹_›
    · exact .ended (.inl ‹_›)
  | poll =>
    simp only [step] at hstep
    split at hstep
    · split_ifs at hstep with hpoll
      exact .poll ‹_› hpoll hstep
    · cases hstep
  | work event =>
    simp only [step] at hstep
    split at hstep
    · split_ifs at hstep with hchunk
      obtain ⟨worked, hworked, rfl⟩ := Option.map_eq_some_iff.mp hstep
      exact .work ‹_› (by simpa using hchunk) hworked
    · cases hstep
  | panic_ message =>
    simp only [step] at hstep
    split at hstep <;> cases hstep
    · exact .ended (.inl ‹_›)
    · exact .ended (.inr ⟨_, _, ‹_›⟩)
  | return_ =>
    simp only [step] at hstep
    split at hstep
    · obtain ⟨result, -, rfl⟩ := Option.map_eq_some_iff.mp hstep
      exact .ended (.inr ⟨_, _, ‹_›⟩)
    · cases hstep
  | record stored =>
    simp only [step] at hstep
    split at hstep <;> cases hstep
    exact .record stored ‹_›
  | remove =>
    simp only [step] at hstep
    split at hstep <;> cases hstep
    exact .remove ‹_›

/-! ### The record -/

theorem status_poll {engine next : Engine σ} {state : σ}
    (hpoll : poll loop engine state = some next) : next.status = engine.status := by
  unfold poll at hpoll
  split at hpoll
  · rw [← Option.some.inj hpoll]
  · obtain ⟨stopped, -, rfl⟩ := Option.map_eq_some_iff.mp hpoll
    rfl
  · rw [← Option.some.inj hpoll]

theorem status_record (engine : Engine σ) (result : Except String Unit) :
    (record engine result).status ≠ .cancelled := by
  cases result <;> simp [record]

/-- No step records a job as cancelled. -/
theorem status_step {engine next : Engine σ} {event : Event ε}
    (h : engine.status ≠ .cancelled) (hstep : step loop engine event = some next) :
    next.status ≠ .cancelled := by
  cases change_of_step hstep with
  | cancel =>
    unfold cancel
    split_ifs <;> exact h
  | poll _ _ polled =>
    rw [status_poll polled]
    exact h
  | record stored _ =>
    cases stored with
    | false => exact h
    | true => exact status_record engine _
  | publish _ | subscribe _ | collected _ | work _ _ _ | ended _ | remove _ => exact h

/-- No run records a job as cancelled. -/
theorem status_ne_cancelled_of_run {engine final : Engine σ} {events : List (Event ε)}
    (h : engine.status ≠ .cancelled) (hrun : run (step loop) engine events = some final) :
    final.status ≠ .cancelled :=
  invariant_of_run (fun _ _ _ h _ hstep ↦ status_step h hstep) h
    (StepsMeet.of_forall fun _ _ _ ↦ True.intro) hrun

/-- No cancellation that is accepted keeps its promise. -/
theorem not_effective {front back : List (Event ε)} {engine final : Engine σ}
    (haccepted : Accepted loop front engine)
    (hback : run (step loop) engine (.cancel :: back) = some final) :
    ¬ Effective loop engine (.cancel :: back) final := by
  intro heffective
  have hinitial : (Engine.initial : Engine σ).status ≠ .cancelled := by
    simp [Engine.initial]
  have hbefore := status_ne_cancelled_of_run hinitial haccepted.run
  exact status_ne_cancelled_of_run hbefore hback heffective.recorded

end Steps

/-! ## A cancellation before the task subscribes -/

/-- A job of one row, written by one writer. -/
def oneRow : ChunkLoop (ConcurrentWrites.Tasks ℕ) ConcurrentWrites.Event :=
  concurrentWrites Accounting.numbers [7] 1 [] 1

/-- The row is written, and the job ends. -/
def written : List (Event ConcurrentWrites.Event) :=
  [.subscribe, .collect none, .poll, .work .convert, .work .close, .work (.receive 0),
    .work (.insertMany 0 none), .work (.exit 0), .work .join, .return_, .record true, .remove]

def published : Engine (ConcurrentWrites.Tasks ℕ) where
  phase := .spawned
  entry := true
  unread := 0
  status := .running
  error := none

/-- A cancellation right after the job is published is accepted and lost: the turn of the row
starts, and the job is completed. -/
theorem lost_cancellation :
    Accepted oneRow [.publish] published ∧
      ¬ StepsMeet (step oneRow) (fun engine event ↦ ¬ StartsTurn oneRow engine event) published
        (.cancel :: written) ∧
      ∃ final, run (step oneRow) published (.cancel :: written) = some final ∧
        final.phase = .removed ∧ final.status = .completed := by
  refine ⟨⟨rfl, rfl⟩, fun hnone ↦ ?_, _, rfl, rfl, rfl⟩
  have hcollected := ((hnone.2 _ rfl).2 _ rfl).2 _ rfl
  exact hcollected.1 ⟨_, _, rfl, rfl⟩

/-- The cancellation of a published job of one row. -/
theorem not_effective_oneRow : ∃ final,
    run (step oneRow) published (.cancel :: written) = some final ∧
      ¬ Effective oneRow published (.cancel :: written) final := by
  have haccepted : Accepted oneRow [.publish] published := ⟨rfl, rfl⟩
  have hrun : run (step oneRow) published (.cancel :: written) = some _ := rfl
  exact ⟨_, hrun, not_effective haccepted hrun⟩

end MongoCore.Ingestion.Cancellation
