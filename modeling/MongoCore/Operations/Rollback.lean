import MongoCore.Operations.Attempts

/-!
# Reported rollbacks

A failed pipeline says whether it was rolled back.  The module compares that with what the server
keeps.  The server may apply a commit and still have it fail, when the answer does not arrive.
-/

namespace MongoCore.Operations.Rollback

open MongoCore.Data MongoCore.Operations.TransactionPipeline

/-! ## What the server keeps -/

/-- The commits asked for so far, the calls of the open transaction, and the calls whose effects
are visible. -/
structure Server where
  commits : ℕ
  pending : List DriverCall
  visible : List DriverCall

section Server

variable (env : Environment) (applied : ℕ → Bool)

/-- A commit takes effect if it succeeds, and if the server applies it although it fails. -/
def takesEffect (attempt : ℕ) : Bool :=
  match env.commit attempt with
  | .ok () => true
  | .error _ => applied attempt

/-- What an event changes.  The calls of a transaction that is given up are never visible, even if
its abort fails. -/
def Server.step (server : Server) : SessionEvent → Server
  | .startSession | .startTransaction | .abort => { server with pending := [] }
  | .call call => { server with pending := server.pending ++ [call] }
  | .commit =>
      { commits := server.commits + 1, pending := []
        visible := server.visible ++
          if takesEffect env applied server.commits then server.pending else [] }

def serverAfter (events : List SessionEvent) : Server :=
  events.foldl (Server.step env applied) { commits := 0, pending := [], visible := [] }

/-- The visible calls that change the database. -/
def effects (events : List SessionEvent) : List DriverCall :=
  (serverAfter env applied events).visible.filter fun call ↦ call.op.writes

variable {env applied}

theorem serverAfter_append (events later : List SessionEvent) :
    serverAfter env applied (events ++ later) =
      later.foldl (Server.step env applied) (serverAfter env applied events) :=
  List.foldl_append

variable (env applied) in
theorem foldl_calls (server : Server) (calls : List DriverCall) :
    (calls.map SessionEvent.call).foldl (Server.step env applied) server =
      { server with pending := server.pending ++ calls } := by
  induction calls generalizing server with
  | nil => simp
  | cons call calls ih =>
    rw [List.map_cons, List.foldl_cons, ih]
    simp [Server.step]

end Server

/-! ## Real rollbacks -/

variable (codec : JsonCodec) (env : Environment) (maxTimeMs : ℕ) (steps : List PipelineStepDef)
  (applied : ℕ → Bool)

def attemptWith (calls : List DriverCall) : List SessionEvent :=
  .startSession :: .startTransaction :: calls.map .call ++ [.commit]

/-- After a reported rollback nothing is visible; after a success the effects of the last attempt
are, which made one call for each step. -/
structure RollbackReal (events : List SessionEvent)
    (outcome : Except PipelineFailure PipelineExecutionResult) : Prop where
  failed : ∀ failure, outcome = .error failure → failure.rolledBack = true →
    effects env applied events = []
  finished : ∀ result, outcome = .ok result → ∃ earlier calls,
    events = earlier ++ attemptWith calls ∧ List.Forall₂ (IsCallOf codec) steps calls ∧
      effects env applied events = calls.filter fun call ↦ call.op.writes

/-- The loop of the pipeline arrives at an attempt. -/
structure Reached (attempt : ℕ) : Prop where
  valid : validatePipeline steps = .ok ()
  left : attempt < defaultTransactionPipelineMaxRetries
  earlier : ∀ before < attempt, Retries codec env maxTimeMs steps before

/-- The commit of an attempt that changes the database is applied and fails. -/
structure AppliedButFailed (attempt : ℕ) : Prop where
  failed : ∃ error, env.commit attempt = .error error
  applied : applied attempt = true
  writes : ∃ (calls : List DriverCall) (finished : List StepResult),
    attemptSteps codec maxTimeMs steps env attempt = (calls.map .call, .ok finished) ∧
      ∃ call ∈ calls, call.op.writes = true

variable {codec env maxTimeMs steps applied}

/-- The calls that an attempt leaves on the server by its commit. -/
theorem foldl_attemptWith (server : Server) (calls : List DriverCall) :
    (attemptWith calls).foldl (Server.step env applied) server =
      { commits := server.commits + 1, pending := []
        visible := server.visible ++
          if takesEffect env applied server.commits then calls else [] } := by
  have hcalls := foldl_calls env applied { server with pending := [] } calls
  simp only [attemptWith, List.foldl_append, List.foldl_cons, List.foldl_nil, Server.step, hcalls,
    List.nil_append]

/-- An attempt whose steps succeed makes one call for each step, and commits. -/
theorem exists_attemptWith {attempt : ℕ} {events : List SessionEvent} {finished : List StepResult}
    (hsteps : attemptSteps codec maxTimeMs steps env attempt = (events, .ok finished)) :
    ∃ calls : List DriverCall, events = calls.map .call ∧
      attemptEvents codec env maxTimeMs steps attempt = attemptWith calls ∧
      List.Forall₂ (IsCallOf codec) steps calls := by
  rcases runSteps_cases codec env maxTimeMs attempt 0 steps (fun _ ↦ none) [] with
    ⟨calls, finished', hrun, hcalls⟩ | ⟨calls, failure, hrun, -⟩
  · have hevents := congrArg Prod.fst (hsteps.symm.trans hrun)
    refine ⟨calls, hevents, ?_, hcalls⟩
    rw [attemptEvents, hsteps, attemptWith, hevents]
  · exact absurd (congrArg Prod.snd (hsteps.symm.trans hrun)) (by simp)

/-- What a commit that fails adds to the effects is nothing unless it is applied and its attempt
writes. -/
theorem filter_failed_commit_eq_nil_iff {attempt : ℕ} {calls : List DriverCall}
    {finished : List StepResult} {error : String}
    (hsteps : attemptSteps codec maxTimeMs steps env attempt = (calls.map .call, .ok finished))
    (hcommit : env.commit attempt = .error error) :
    (if takesEffect env applied attempt then calls else []).filter (fun call ↦ call.op.writes) =
        [] ↔ ¬ AppliedButFailed codec env maxTimeMs steps applied attempt := by
  have htakes : takesEffect env applied attempt = applied attempt := by
    rw [takesEffect, hcommit]
  rw [htakes]
  constructor
  · rintro hnil ⟨-, happlied, others, results, hothers, call, hmem, hwrites⟩
    have hcalls : calls = others :=
      List.map_injective_iff.mpr (fun _ _ ↦ SessionEvent.call.inj)
        (congrArg Prod.fst (hsteps.symm.trans hothers))
    rw [if_pos happlied, List.filter_eq_nil_iff] at hnil
    exact hnil call (hcalls ▸ hmem) hwrites
  · intro hnot
    split_ifs with happlied
    · rw [List.filter_eq_nil_iff]
      intro call hmem hwrites
      exact hnot ⟨⟨error, hcommit⟩, happlied, calls, finished, hsteps, call, hmem, hwrites⟩
    · rfl

variable (applied) in
/-- After attempts that are all followed by another, nothing is pending, and the effects are those
of the commits that were applied although they failed. -/
theorem serverAfter_of_retries {count : ℕ}
    (h : ∀ attempt < count, Retries codec env maxTimeMs steps attempt) :
    ∃ visible, serverAfter env applied
        ((List.range count).flatMap (attemptEvents codec env maxTimeMs steps)) =
          { commits := count, pending := [], visible := visible } ∧
      (visible.filter (fun call ↦ call.op.writes) = [] ↔ ∀ attempt < count,
        ¬ AppliedButFailed codec env maxTimeMs steps applied attempt) := by
  induction count with
  | zero => exact ⟨[], rfl, by simp⟩
  | succ count ih =>
    obtain ⟨visible, hserver, hvisible⟩ := ih fun attempt hattempt ↦
      h attempt (Nat.lt_succ_of_lt hattempt)
    have hlast := h count (Nat.lt_succ_self count)
    obtain ⟨events, finished, hsteps⟩ := hlast.finished
    obtain ⟨calls, rfl, hevents, -⟩ := exists_attemptWith hsteps
    obtain ⟨error, hcommit, -⟩ := hlast.commit
    have hafter : serverAfter env applied ((List.range (count + 1)).flatMap
        (attemptEvents codec env maxTimeMs steps)) =
          { commits := count + 1, pending := []
            visible := visible ++ if takesEffect env applied count then calls else [] } := by
      rw [List.range_succ, List.flatMap_append, serverAfter_append, hserver,
        List.flatMap_singleton, hevents, foldl_attemptWith]
    refine ⟨_, hafter, ?_⟩
    rw [List.filter_append, List.append_eq_nil_iff, hvisible,
      filter_failed_commit_eq_nil_iff hsteps hcommit, Nat.forall_lt_succ_right]

/-! ## When a reported rollback is real -/

/-- A failure that does not claim a rollback promises nothing. -/
theorem rollbackReal_of_not_claimed (events : List SessionEvent) {failure : PipelineFailure}
    (h : failure.rolledBack = false) :
    RollbackReal codec env steps applied events (.error failure) where
  failed := by
    intro other hother hclaimed
    rw [← Except.error.inj hother, h] at hclaimed
    exact absurd hclaimed Bool.false_ne_true
  finished := by
    intro result hresult
    exact absurd hresult (by simp)

theorem rollbackReal_error_iff (events : List SessionEvent) {failure : PipelineFailure}
    (h : failure.rolledBack = true) :
    RollbackReal codec env steps applied events (.error failure) ↔
      effects env applied events = [] := by
  constructor
  · intro hreal
    exact hreal.failed failure rfl h
  · intro hnil
    exact ⟨fun _ _ _ ↦ hnil, fun result hresult ↦ absurd hresult (by simp)⟩

variable (env applied) in
/-- Before its commit, the calls of the last attempt are pending. -/
theorem pending_before_commit (front : List SessionEvent) (calls : List DriverCall) :
    (serverAfter env applied (front ++ attemptWith calls).dropLast).pending = calls := by
  have hlast : front ++ attemptWith calls =
      (front ++ .startSession :: .startTransaction :: calls.map .call) ++ [.commit] := by
    simp [attemptWith]
  rw [hlast, List.dropLast_concat, serverAfter_append, List.foldl_cons, List.foldl_cons,
    foldl_calls]
  simp [Server.step]

theorem rollbackReal_ok_iff {front : List SessionEvent} {calls : List DriverCall}
    (hcalls : List.Forall₂ (IsCallOf codec) steps calls) (result : PipelineExecutionResult) :
    RollbackReal codec env steps applied (front ++ attemptWith calls) (.ok result) ↔
      effects env applied (front ++ attemptWith calls) =
        calls.filter fun call ↦ call.op.writes := by
  constructor
  · intro hreal
    obtain ⟨earlier, others, hevents, -, heffects⟩ := hreal.finished result rfl
    have hcalls : calls = others := by
      rw [← pending_before_commit env applied front calls, hevents,
        pending_before_commit]
    rw [heffects, hcalls]
  · intro heffects
    refine ⟨fun failure hfailure ↦ absurd hfailure (by simp), fun _ _ ↦ ?_⟩
    exact ⟨front, calls, rfl, hcalls, heffects⟩

/-- The attempts of a run are those up to the first that is not followed by another. -/
theorem reached_iff {count : ℕ} (hvalid : validatePipeline steps = .ok ())
    (hretries : ∀ attempt < count, Retries codec env maxTimeMs steps attempt)
    (hlast : count < defaultTransactionPipelineMaxRetries →
      ¬ Retries codec env maxTimeMs steps count) (attempt : ℕ) :
    Reached codec env maxTimeMs steps attempt ↔
      attempt < defaultTransactionPipelineMaxRetries ∧ attempt ≤ count := by
  constructor
  · intro h
    refine ⟨h.left, not_lt.mp fun hlt ↦ ?_⟩
    exact hlast (hlt.trans h.left) (h.earlier count hlt)
  · rintro ⟨hleft, hle⟩
    exact ⟨hvalid, hleft, fun before hbefore ↦ hretries before (hbefore.trans_le hle)⟩

/-- The rest of a run that can start its next attempt, and does not retry it: the rollback it
reports is real if nothing is visible before and the attempt's commit does not lose its answer. -/
theorem rollbackReal_rest {front : List SessionEvent} {visible : List DriverCall}
    {left count : ℕ} (hserver : serverAfter env applied front =
      { commits := count, pending := [], visible := visible })
    (hstart : 0 < left → ¬ StartFails env count)
    (hlast : 0 < left → ¬ Retries codec env maxTimeMs steps count) :
    RollbackReal codec env steps applied
        (front ++ (runAttempts codec env maxTimeMs steps left count).1)
        (runAttempts codec env maxTimeMs steps left count).2 ↔
      visible.filter (fun call ↦ call.op.writes) = [] ∧
        (0 < left → ¬ AppliedButFailed codec env maxTimeMs steps applied count) := by
  cases left with
  | zero =>
    rw [runAttempts, rollbackReal_error_iff _ rfl, List.append_nil, effects, hserver]
    simp
  | succ left =>
    have hstarted := hstart (Nat.succ_pos left)
    simp only [Nat.succ_pos, true_implies]
    rcases runSteps_cases codec env maxTimeMs count 0 steps (fun _ ↦ none) [] with
      ⟨calls, finished, hsteps, hcalls⟩ | ⟨calls, failure, hsteps, hclaimed⟩
    · -- the steps succeed, so the outcome of the commit decides
      have hevents : attemptEvents codec env maxTimeMs steps count = attemptWith calls := by
        rw [attemptEvents, attemptSteps, hsteps, attemptWith]
      have heffects : effects env applied (front ++ attemptWith calls) =
          visible.filter (fun call ↦ call.op.writes) ++
            (if takesEffect env applied count then calls else []).filter
              fun call ↦ call.op.writes := by
        rw [effects, serverAfter_append, hserver, foldl_attemptWith, List.filter_append]
      cases hcommit : env.commit count with
      | ok _ =>
        have htakes : takesEffect env applied count = true := by rw [takesEffect, hcommit]
        have hnot : ¬ AppliedButFailed codec env maxTimeMs steps applied count := by
          rintro ⟨⟨error, herror⟩, -, -⟩
          exact absurd (hcommit.symm.trans herror) (by simp)
        rw [runAttempts_of_commit_ok hstarted hsteps hcommit, hevents, rollbackReal_ok_iff hcalls,
          heffects, if_pos htakes, List.append_left_eq_self, and_iff_left hnot]
      | error error =>
        have htransient : ¬ isTransient error = true := by
          intro htransient
          exact hlast (Nat.succ_pos left)
            ⟨hstarted, ⟨_, finished, hsteps⟩, error, hcommit, htransient⟩
        rw [runAttempts_of_commit_error hstarted hsteps hcommit htransient, hevents,
          rollbackReal_error_iff _ rfl, heffects, List.append_eq_nil_iff,
          filter_failed_commit_eq_nil_iff hsteps hcommit]
    · -- a step fails, and the commit is not reached
      have hnot : ¬ AppliedButFailed codec env maxTimeMs steps applied count := by
        rintro ⟨-, -, others, results, hothers, -⟩
        exact absurd (congrArg Prod.snd (hothers.symm.trans hsteps)) (by simp)
      rw [runAttempts_of_step_error hstarted hsteps, rollbackReal_error_iff _ hclaimed, effects,
        serverAfter_append, hserver, List.foldl_cons, List.foldl_cons, List.foldl_append,
        foldl_calls, and_iff_left hnot]
      rfl

/-- In a run whose attempts can all start, the condition speaks of those that are followed by
another, and of the last. -/
theorem condition_iff {count : ℕ} (hvalid : validatePipeline steps = .ok ())
    (hcount : count ≤ defaultTransactionPipelineMaxRetries)
    (hretries : ∀ attempt < count, Retries codec env maxTimeMs steps attempt)
    (hlast : count < defaultTransactionPipelineMaxRetries →
      ¬ Retries codec env maxTimeMs steps count)
    (hstart : count < defaultTransactionPipelineMaxRetries → ¬ StartFails env count) :
    ((∃ attempt, Reached codec env maxTimeMs steps attempt ∧ StartFails env attempt) ∨
        ∀ attempt, Reached codec env maxTimeMs steps attempt →
          ¬ AppliedButFailed codec env maxTimeMs steps applied attempt) ↔
      (∀ attempt < count, ¬ AppliedButFailed codec env maxTimeMs steps applied attempt) ∧
        (count < defaultTransactionPipelineMaxRetries →
          ¬ AppliedButFailed codec env maxTimeMs steps applied count) := by
  simp only [reached_iff hvalid hretries hlast]
  constructor
  · rintro (⟨attempt, ⟨hleft, hle⟩, hfails⟩ | h)
    · rcases hle.lt_or_eq with hlt | rfl
      · exact absurd hfails (hretries attempt hlt).started
      · exact absurd hfails (hstart hleft)
    · exact ⟨fun attempt hlt ↦ h attempt ⟨hlt.trans_le hcount, hlt.le⟩,
        fun hleft ↦ h count ⟨hleft, le_rfl⟩⟩
  · rintro ⟨hearlier, hcurrent⟩
    refine .inr fun attempt ⟨hleft, hle⟩ ↦ ?_
    rcases hle.lt_or_eq with hlt | rfl
    · exact hearlier attempt hlt
    · exact hcurrent hleft

/-- A reported rollback is real if and only if some attempt of the run cannot start, so that none is
reported, or no attempt's commit is applied although it fails. -/
theorem rollbackReal_iff :
    RollbackReal codec env steps applied
        (executeTransactionPipeline codec env maxTimeMs steps).1
        (executeTransactionPipeline codec env maxTimeMs steps).2 ↔
      (∃ attempt, Reached codec env maxTimeMs steps attempt ∧ StartFails env attempt) ∨
        ∀ attempt, Reached codec env maxTimeMs steps attempt →
          ¬ AppliedButFailed codec env maxTimeMs steps applied attempt := by
  unfold executeTransactionPipeline
  cases hvalid : validatePipeline steps with
  | error error =>
    have hnone : ∀ attempt, ¬ Reached codec env maxTimeMs steps attempt := by
      intro attempt hreached
      exact absurd (hvalid.symm.trans hreached.valid) (by simp)
    have hreal : RollbackReal codec env steps applied []
        (.error (failureOutsideSteps 0 (display error.message) [] false)) :=
      rollbackReal_of_not_claimed [] rfl
    exact iff_of_true hreal (.inr fun attempt hreached ↦ absurd hreached (hnone attempt))
  | ok _ =>
    obtain ⟨count, hcount, hretries, hlast⟩ := exists_last_attempt codec env maxTimeMs steps
      defaultTransactionPipelineMaxRetries
    obtain ⟨visible, hserver, hvisible⟩ := serverAfter_of_retries applied hretries
    have hleft : defaultTransactionPipelineMaxRetries =
        count + (defaultTransactionPipelineMaxRetries - count) := (Nat.add_sub_cancel' hcount).symm
    generalize defaultTransactionPipelineMaxRetries - count = left at hleft
    simp only
    have hrun := runAttempts_of_retries left hretries
    rw [← hleft] at hrun
    rw [hrun]
    have hpositive : 0 < left ↔ count < defaultTransactionPipelineMaxRetries := by omega
    by_cases hstart : 0 < left → ¬ StartFails env count
    · rw [rollbackReal_rest hserver hstart fun hpos ↦ hlast (hpositive.mp hpos), hvisible,
        condition_iff hvalid hcount hretries hlast fun hlt ↦ hstart (hpositive.mpr hlt), hpositive]
    · obtain ⟨hpos, hfails⟩ := Classical.not_imp.mp hstart
      have hreached : Reached codec env maxTimeMs steps count :=
        ⟨hvalid, hpositive.mp hpos, hretries⟩
      obtain ⟨before, rfl⟩ := Nat.exists_eq_succ_of_ne_zero hpos.ne'
      obtain ⟨events, failure, hfailure, hnot⟩ := runAttempts_of_startFails codec maxTimeMs
        steps before (not_not.mp hfails)
      rw [hfailure]
      exact iff_of_true (rollbackReal_of_not_claimed _ hnot)
        (.inl ⟨count, hreached, not_not.mp hfails⟩)

/-- Every commit fails with a result that is not known. -/
def unknownCommit : Environment := answering
  (fun _ ↦ .ok (.inserted (.int32 1))) fun _ ↦ .error "UnknownTransactionCommitResult"

/-- A pipeline of one insertion whose commit has an unknown result. -/
def insertAndLose : List SessionEvent × Except PipelineFailure PipelineExecutionResult :=
  executeTransactionPipeline JsonCodec.plain unknownCommit 1000 [insertOrder]

/-- A pipeline reports a rollback although its commit was applied, when the answer is lost. -/
theorem rollback_reported_after_commit :
    (∃ failure, insertAndLose.2 = .error failure ∧ failure.rolledBack = true) ∧
      effects unknownCommit (fun _ ↦ true) insertAndLose.1 =
        [{ database := "shop", collection := "orders", op := .insertOne [] }] ∧
      ¬ RollbackReal JsonCodec.plain unknownCommit [insertOrder] (fun _ ↦ true)
        insertAndLose.1 insertAndLose.2 := by
  have heffects : effects unknownCommit (fun _ ↦ true) insertAndLose.1 =
      [{ database := "shop", collection := "orders", op := .insertOne [] }] := rfl
  refine ⟨⟨_, rfl, rfl⟩, heffects, fun hreal ↦ ?_⟩
  have hnil := hreal.failed _ rfl rfl
  rw [heffects] at hnil
  exact absurd hnil (by simp)

end MongoCore.Operations.Rollback
