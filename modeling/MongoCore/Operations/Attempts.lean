import MongoCore.Operations.TransactionPipeline

/-!
# The attempts of a transaction pipeline

The loop of a pipeline makes one attempt after the other.  This module says what one attempt does,
by its five exits, and what a run does whose first attempts are all followed by another.
-/

namespace MongoCore.Operations.TransactionPipeline

open MongoCore.Data MongoCore.Operations.PipelineRefs

variable (codec : JsonCodec) (env : Environment) (maxTimeMs : ℕ) (steps : List PipelineStepDef)

/-! ## The steps of an attempt -/

/-- The call is the one of the step, with arguments resolved somehow. -/
def IsCallOf (step : PipelineStepDef) (call : DriverCall) : Prop :=
  ∃ type resolved, StepType.ofName? step.operationType = some type ∧
    call =
      { database := step.database, collection := step.collection
        op := stepOp codec type step.findLimit resolved }

variable {codec env maxTimeMs steps}

/-- A step that succeeds has made its one call. -/
theorem isCallOf_of_executeStep {driver : DriverCall → Except String DriverReply}
    {step : PipelineStepDef} {resolved value : Json} {calls : List DriverCall}
    (h : executeStep codec driver step resolved = (calls, .ok value)) :
    ∃ call, calls = [call] ∧ IsCallOf codec step call := by
  unfold executeStep at h
  split at h
  · exact absurd (congrArg Prod.snd h) (by simp)
  · rename_i type htype
    have hcalls := congrArg Prod.fst h
    exact ⟨_, hcalls.symm, type, resolved, htype, rfl⟩

variable (codec env maxTimeMs) in
/-- Steps that all succeed make one call each, in order; after a failure the transaction is
aborted. -/
theorem runSteps_cases (attempt index : ℕ) (rest : List PipelineStepDef) (results : Results)
    (finished : List StepResult) :
    (∃ (calls : List DriverCall) (finished' : List StepResult),
      runSteps codec env maxTimeMs attempt index rest results finished =
        (calls.map .call, .ok finished') ∧ List.Forall₂ (IsCallOf codec) rest calls) ∨
    ∃ (calls : List DriverCall) (failure : PipelineFailure),
      runSteps codec env maxTimeMs attempt index rest results finished =
        (calls.map .call ++ [.abort], .error failure) ∧ failure.rolledBack = true := by
  induction rest generalizing index results finished with
  | nil => exact .inl ⟨[], finished, rfl, .nil⟩
  | cons step rest ih =>
    rw [runSteps]
    split_ifs with htime
    · exact .inr ⟨[], _, rfl, rfl⟩
    split
    · exact .inr ⟨[], _, rfl, rfl⟩
    rename_i resolved hresolved
    split
    · rename_i calls reason hexecute
      exact .inr ⟨calls, _, rfl, rfl⟩
    · rename_i calls value hexecute
      obtain ⟨call, hcalls, hcall⟩ := isCallOf_of_executeStep hexecute
      rcases ih (index + 1) (Function.update results step.name (some value))
        (finished ++ [{ name := step.name, resultJson := value }]) with
          ⟨later, finished', hrun, hlater⟩ | ⟨later, failure, hrun, hfailure⟩
      · refine .inl ⟨call :: later, finished', ?_, .cons hcall hlater⟩
        simp only [hrun, hcalls, List.map_cons, List.map_nil, List.cons_append, List.nil_append]
      · refine .inr ⟨call :: later, failure, ?_, hfailure⟩
        simp only [hrun, hcalls, List.map_cons, List.map_nil, List.cons_append, List.nil_append]

/-! ## One attempt -/

variable (codec maxTimeMs steps) in
/-- The steps of an attempt, from its first. -/
def attemptSteps (env : Environment) (attempt : ℕ) :
    List SessionEvent × Except PipelineFailure (List StepResult) :=
  runSteps codec env maxTimeMs attempt 0 steps (fun _ ↦ none) []

variable (codec env maxTimeMs steps) in
/-- What an attempt that reaches its commit asks of its session. -/
def attemptEvents (attempt : ℕ) : List SessionEvent :=
  .startSession :: .startTransaction :: (attemptSteps codec maxTimeMs steps env attempt).1 ++
    [.commit]

variable (env) in
/-- The session or the transaction of an attempt cannot be started. -/
def StartFails (attempt : ℕ) : Prop :=
  ¬ (env.startSession attempt = .ok () ∧ env.startTransaction attempt = .ok ())

variable (codec env maxTimeMs steps) in
/-- An attempt that is followed by another: its steps succeed, and its commit fails with a
transient error. -/
structure Retries (attempt : ℕ) : Prop where
  started : ¬ StartFails env attempt
  finished : ∃ events finished,
    attemptSteps codec maxTimeMs steps env attempt = (events, .ok finished)
  commit : ∃ error, env.commit attempt = .error error ∧ isTransient error = true

variable {left attempt : ℕ}

variable (codec maxTimeMs steps left) in
/-- A pipeline that cannot start does not claim to have rolled back. -/
theorem runAttempts_of_startFails (h : StartFails env attempt) :
    ∃ events failure, runAttempts codec env maxTimeMs steps (left + 1) attempt =
      (events, .error failure) ∧ failure.rolledBack = false := by
  unfold runAttempts
  split
  · exact ⟨_, _, rfl, rfl⟩
  · rename_i hsession
    split
    · exact ⟨_, _, rfl, rfl⟩
    · rename_i htransaction
      exact absurd ⟨hsession, htransaction⟩ h

/-- The failure of a step ends the pipeline. -/
theorem runAttempts_of_step_error {events : List SessionEvent} {failure : PipelineFailure}
    (hstart : ¬ StartFails env attempt)
    (hsteps : attemptSteps codec maxTimeMs steps env attempt = (events, .error failure)) :
    runAttempts codec env maxTimeMs steps (left + 1) attempt =
      (.startSession :: .startTransaction :: events, .error failure) := by
  obtain ⟨hsession, htransaction⟩ := not_not.mp hstart
  unfold attemptSteps at hsteps
  simp only [runAttempts, hsession, htransaction, hsteps]

/-- A commit that succeeds ends the pipeline with the results of its attempt. -/
theorem runAttempts_of_commit_ok {events : List SessionEvent} {finished : List StepResult}
    (hstart : ¬ StartFails env attempt)
    (hsteps : attemptSteps codec maxTimeMs steps env attempt = (events, .ok finished))
    (hcommit : env.commit attempt = .ok ()) :
    runAttempts codec env maxTimeMs steps (left + 1) attempt =
      (attemptEvents codec env maxTimeMs steps attempt, .ok
        { steps := finished, totalSteps := steps.length
          stepsCompleted := finished.length, elapsedMs := env.elapsedAtCommit attempt }) := by
  obtain ⟨hsession, htransaction⟩ := not_not.mp hstart
  rw [attemptEvents, hsteps]
  unfold attemptSteps at hsteps
  simp only [runAttempts, hsession, htransaction, hsteps, hcommit]

/-- A commit that fails with an error that is not transient ends the pipeline, which claims to
have rolled back. -/
theorem runAttempts_of_commit_error {events : List SessionEvent} {finished : List StepResult}
    {error : String} (hstart : ¬ StartFails env attempt)
    (hsteps : attemptSteps codec maxTimeMs steps env attempt = (events, .ok finished))
    (hcommit : env.commit attempt = .error error) (htransient : ¬ isTransient error = true) :
    runAttempts codec env maxTimeMs steps (left + 1) attempt =
      (attemptEvents codec env maxTimeMs steps attempt,
        .error (failureOutsideSteps steps.length s!"Commit failed: {error}"
          (finished.map StepResult.name) true)) := by
  obtain ⟨hsession, htransaction⟩ := not_not.mp hstart
  rw [attemptEvents, hsteps]
  unfold attemptSteps at hsteps
  simp only [runAttempts, hsession, htransaction, hsteps, hcommit, if_neg htransient]

/-- A commit that fails with a transient error is followed by the next attempt. -/
theorem Retries.runAttempts_succ (h : Retries codec env maxTimeMs steps attempt) (left : ℕ) :
    runAttempts codec env maxTimeMs steps (left + 1) attempt =
      (attemptEvents codec env maxTimeMs steps attempt ++
          (runAttempts codec env maxTimeMs steps left (attempt + 1)).1,
        (runAttempts codec env maxTimeMs steps left (attempt + 1)).2) := by
  obtain ⟨hsession, htransaction⟩ := not_not.mp h.started
  obtain ⟨events, finished, hsteps⟩ := h.finished
  obtain ⟨error, hcommit, htransient⟩ := h.commit
  rw [attemptEvents, hsteps]
  unfold attemptSteps at hsteps
  simp only [runAttempts, hsession, htransaction, hsteps, hcommit, if_pos htransient]

/-! ## A run of attempts -/

/-- The first attempts, all followed by another, and then the rest of the run. -/
theorem runAttempts_of_retries {count : ℕ} (left : ℕ)
    (h : ∀ attempt < count, Retries codec env maxTimeMs steps attempt) :
    runAttempts codec env maxTimeMs steps (count + left) 0 =
      ((List.range count).flatMap (attemptEvents codec env maxTimeMs steps) ++
          (runAttempts codec env maxTimeMs steps left count).1,
        (runAttempts codec env maxTimeMs steps left count).2) := by
  induction count generalizing left with
  | zero => simp
  | succ count ih =>
    have hearlier := ih (left + 1) fun attempt hattempt ↦
      h attempt (Nat.lt_succ_of_lt hattempt)
    have hlast := (h count (Nat.lt_succ_self count)).runAttempts_succ left
    rw [Nat.add_right_comm, Nat.add_assoc, hearlier, hlast, List.range_succ, List.flatMap_append]
    simp

variable (codec env maxTimeMs steps) in
/-- Some attempt is the first that is not followed by another, unless none is left. -/
theorem exists_last_attempt (limit : ℕ) :
    ∃ count ≤ limit, (∀ attempt < count, Retries codec env maxTimeMs steps attempt) ∧
      (count < limit → ¬ Retries codec env maxTimeMs steps count) := by
  induction limit with
  | zero => exact ⟨0, le_rfl, by simp, by simp⟩
  | succ limit ih =>
    obtain ⟨count, hcount, hearlier, hlast⟩ := ih
    rcases hcount.lt_or_eq with hlt | rfl
    · exact ⟨count, Nat.le_succ_of_le hcount, hearlier, fun _ ↦ hlast hlt⟩
    · by_cases hretries : Retries codec env maxTimeMs steps count
      · refine ⟨count + 1, le_rfl, ?_, by simp⟩
        intro attempt hattempt
        rcases Nat.lt_succ_iff_lt_or_eq.mp hattempt with hattempt | rfl
        · exact hearlier attempt hattempt
        · exact hretries
      · exact ⟨count, Nat.le_succ count, hearlier, fun _ ↦ hretries⟩

/-! ## One insertion -/

def insertOrder : PipelineStepDef where
  name := "insert_order"
  database := "shop"
  collection := "orders"
  operationType := "insert"
  operationJson := .object [("document", .object [])]
  findLimit := none

/-- An environment in which the calls and the commit of each attempt have given outcomes. -/
def answering (call : ℕ → Except String DriverReply) (commit : ℕ → Except String Unit) :
    Environment where
  startSession _ := .ok ()
  startTransaction _ := .ok ()
  elapsed _ _ := 0
  driver attempt _ _ := call attempt
  commit := commit
  elapsedAtCommit _ := 0

end MongoCore.Operations.TransactionPipeline
