import MongoCore.Operations.Attempts

/-!
# Transient errors

A transient transaction error can be raised by a step or by the commit.  The module says after
which of them the pipeline runs again.
-/

namespace MongoCore.Operations.TransientErrors

open MongoCore.Data MongoCore.Operations.PipelineRefs MongoCore.Operations.TransactionPipeline

variable (codec : JsonCodec) (env : Environment) (maxTimeMs : ℕ)

/-! ## Where an attempt fails -/

/-- The error that the database answers to a step of an attempt, if one does before the attempt
ends otherwise. -/
def raisedError (attempt : ℕ) : ℕ → List PipelineStepDef → Results → Option String
  | _, [], _ => none
  | index, step :: rest, results =>
      if env.elapsed attempt index > maxTimeMs then none
      else
        match resolveReferences codec.toText results step.operationJson with
        | .error _ => none
        | .ok resolved =>
            match StepType.ofName? step.operationType with
            | none => none
            | some type =>
                match env.driver attempt index
                  { database := step.database, collection := step.collection
                    op := stepOp codec type step.findLimit resolved } with
                | .error error => some error
                | .ok reply => raisedError attempt (index + 1) rest
                    (Function.update results step.name (some (stepResult codec type reply)))

variable (steps : List PipelineStepDef)

/-- The error that the database answers to a step of an attempt. -/
def stepError (attempt : ℕ) : Option String :=
  raisedError codec env maxTimeMs attempt 0 steps fun _ ↦ none

/-- An attempt that fails only with a transient error, raised by a step or by the commit. -/
structure FailsTransiently (attempt : ℕ) : Prop where
  started : ¬ StartFails env attempt
  transient : (∃ error, stepError codec env maxTimeMs steps attempt = some error ∧
      isTransient error = true) ∨
    ((∃ events finished, attemptSteps codec maxTimeMs steps env attempt = (events, .ok finished)) ∧
      ∃ error, env.commit attempt = .error error ∧ isTransient error = true)

structure Succeeds (attempt : ℕ) (finished : List StepResult) : Prop where
  started : ¬ StartFails env attempt
  steps : ∃ events, attemptSteps codec maxTimeMs steps env attempt = (events, .ok finished)
  commit : env.commit attempt = .ok ()

variable {codec env maxTimeMs steps}

/-- An error of the database ends the steps, and is the reason of the failure. -/
theorem runSteps_of_raisedError {attempt index : ℕ} {rest : List PipelineStepDef}
    {results : Results} {error : String} (finished : List StepResult)
    (h : raisedError codec env maxTimeMs attempt index rest results = some error) :
    ∃ events failure, runSteps codec env maxTimeMs attempt index rest results finished =
      (events, .error failure) ∧ failure.reason = error := by
  induction rest generalizing index results finished with
  | nil => exact absurd h (by simp [raisedError])
  | cons step rest ih =>
    rw [raisedError] at h
    split_ifs at h with htime
    rw [runSteps, if_neg htime]
    cases hresolved : resolveReferences codec.toText results step.operationJson with
    | error reason =>
      rw [hresolved] at h
      exact absurd h (by simp)
    | ok resolved =>
      simp only [hresolved] at h
      cases htype : StepType.ofName? step.operationType with
      | none =>
        rw [htype] at h
        exact absurd h (by simp)
      | some type =>
        simp only [htype] at h
        cases hcall : env.driver attempt index
            { database := step.database, collection := step.collection
              op := stepOp codec type step.findLimit resolved } with
        | error raised =>
          rw [hcall] at h
          simp only [executeStep, htype, hcall, Except.map]
          exact ⟨_, _, rfl, Option.some.inj h⟩
        | ok reply =>
          rw [hcall] at h
          obtain ⟨events, failure, hrun, hreason⟩ := ih
            (finished ++ [{ name := step.name, resultJson := stepResult codec type reply }]) h
          simp only [executeStep, htype, hcall, Except.map, hrun]
          exact ⟨_, failure, rfl, hreason⟩

/-- An attempt with an error of the database is the last one. -/
theorem runAttempts_of_stepError {attempt : ℕ} {error : String} (left : ℕ)
    (hstart : ¬ StartFails env attempt)
    (h : stepError codec env maxTimeMs steps attempt = some error) :
    ∃ failure, (runAttempts codec env maxTimeMs steps (left + 1) attempt).2 = .error failure ∧
      failure.reason = error := by
  obtain ⟨events, failure, hsteps, hreason⟩ := runSteps_of_raisedError [] h
  refine ⟨failure, ?_, hreason⟩
  rw [runAttempts_of_step_error hstart hsteps]

/-- A transient failure in which no step failed is followed by another attempt. -/
theorem FailsTransiently.retries_iff {attempt : ℕ}
    (h : FailsTransiently codec env maxTimeMs steps attempt) :
    Retries codec env maxTimeMs steps attempt ↔
      stepError codec env maxTimeMs steps attempt = none := by
  constructor
  · intro hretries
    obtain ⟨events, finished, hsteps⟩ := hretries.finished
    apply Option.eq_none_iff_forall_ne_some.mpr
    intro error herror
    obtain ⟨others, failure, hrun, -⟩ := runSteps_of_raisedError [] herror
    exact absurd (congrArg Prod.snd (hsteps.symm.trans hrun)) (by simp)
  · intro hnone
    rcases h.transient with ⟨error, herror, -⟩ | ⟨hfinished, hcommit⟩
    · exact absurd (hnone.symm.trans herror) (by simp)
    · exact ⟨h.started, hfinished, hcommit⟩

/-! ## When transient errors are retried -/

/-- After attempts that failed transiently, an attempt that succeeds gives the results of the
pipeline if and only if no step of the earlier attempts failed. -/
theorem results_of_last_attempt_iff {count : ℕ} {finished : List StepResult}
    (hvalid : validatePipeline steps = .ok ())
    (hcount : count < defaultTransactionPipelineMaxRetries)
    (hfails : ∀ attempt < count, FailsTransiently codec env maxTimeMs steps attempt)
    (hsucceeds : Succeeds codec env maxTimeMs steps count finished) :
    (∃ result, (executeTransactionPipeline codec env maxTimeMs steps).2 = .ok result ∧
        result.steps = finished) ↔
      ∀ attempt < count, stepError codec env maxTimeMs steps attempt = none := by
  have hrun : (executeTransactionPipeline codec env maxTimeMs steps).2 =
      (runAttempts codec env maxTimeMs steps defaultTransactionPipelineMaxRetries 0).2 := by
    rw [executeTransactionPipeline, hvalid]
  rw [hrun]
  constructor
  · rintro ⟨result, hresult, -⟩
    obtain ⟨last, hlast, hretries, hended⟩ := exists_last_attempt codec env maxTimeMs steps count
    rcases hlast.lt_or_eq with hlt | rfl
    · -- the first attempt that is not followed by another failed at a step
      have hraised : ∃ error, stepError codec env maxTimeMs steps last = some error := by
        apply Option.ne_none_iff_exists'.mp
        intro hnone
        exact hended hlt ((hfails last hlt).retries_iff.mpr hnone)
      obtain ⟨error, herror⟩ := hraised
      obtain ⟨failure, hfailure, -⟩ := runAttempts_of_stepError
        (defaultTransactionPipelineMaxRetries - last - 1) (hfails last hlt).started herror
      have hleft : defaultTransactionPipelineMaxRetries =
          last + (defaultTransactionPipelineMaxRetries - last - 1 + 1) := by omega
      rw [hleft, runAttempts_of_retries _ hretries, hfailure] at hresult
      exact absurd hresult (by simp)
    · intro attempt hattempt
      exact (hfails attempt hattempt).retries_iff.mp (hretries attempt hattempt)
  · intro hnone
    have hretries : ∀ attempt < count, Retries codec env maxTimeMs steps attempt := by
      intro attempt hattempt
      exact (hfails attempt hattempt).retries_iff.mpr (hnone attempt hattempt)
    obtain ⟨events, hsteps⟩ := hsucceeds.steps
    have hleft : defaultTransactionPipelineMaxRetries =
        count + (defaultTransactionPipelineMaxRetries - count - 1 + 1) := by omega
    rw [hleft, runAttempts_of_retries _ hretries,
      runAttempts_of_commit_ok hsucceeds.started hsteps hsucceeds.commit]
    exact ⟨_, rfl, rfl⟩

/-- The outcome of the first attempt, and the one of all later ones. -/
def firstThen {α : Type} (first later : α) (attempt : ℕ) : α := if attempt = 0 then first else later

/-- The first commit fails with a transient error. -/
def transientCommit : Environment := answering (fun _ ↦ .ok (.inserted (.int32 1)))
  (firstThen (.error "TransientTransactionError") (.ok ()))

/-- The first insertion fails with a transient error. -/
def transientStep : Environment := answering
  (firstThen (.error "TransientTransactionError") (.ok (.inserted (.int32 1)))) fun _ ↦ .ok ()

def inserted : StepResult where
  name := "insert_order"
  resultJson := .object [("inserted_id", JsonCodec.plain.ofBson (.int32 1))]

/-- A transient error of the commit is retried. -/
theorem transientCommit_retried :
    ∃ result, (executeTransactionPipeline JsonCodec.plain transientCommit 1000 [insertOrder]).2 =
      .ok result ∧ result.steps = [inserted] := by
  have hfails : ∀ attempt < 1,
      FailsTransiently JsonCodec.plain transientCommit 1000 [insertOrder] attempt := by
    intro attempt hattempt
    obtain rfl := Nat.lt_one_iff.mp hattempt
    exact ⟨not_not.mpr ⟨rfl, rfl⟩, .inr ⟨⟨_, _, rfl⟩, _, rfl, by decide⟩⟩
  have hsucceeds : Succeeds JsonCodec.plain transientCommit 1000 [insertOrder] 1 [inserted] :=
    ⟨not_not.mpr ⟨rfl, rfl⟩, ⟨_, rfl⟩, rfl⟩
  apply (results_of_last_attempt_iff rfl (by decide) hfails hsucceeds).mpr
  intro attempt hattempt
  obtain rfl := Nat.lt_one_iff.mp hattempt
  rfl

/-- A transient error of a step is returned, although the next attempt would succeed. -/
theorem transientStep_not_retried :
    FailsTransiently JsonCodec.plain transientStep 1000 [insertOrder] 0 ∧
      Succeeds JsonCodec.plain transientStep 1000 [insertOrder] 1 [inserted] ∧
      ∃ failure,
        (executeTransactionPipeline JsonCodec.plain transientStep 1000 [insertOrder]).2 =
          .error failure ∧ failure.reason = "TransientTransactionError" :=
  ⟨⟨not_not.mpr ⟨rfl, rfl⟩, .inl ⟨_, rfl, by decide⟩⟩,
    ⟨not_not.mpr ⟨rfl, rfl⟩, ⟨_, rfl⟩, rfl⟩, _, rfl, rfl⟩

end MongoCore.Operations.TransientErrors
