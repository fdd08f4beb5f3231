import MongoCore.Operations.Rollback

/-!
# The options of a transaction pipeline

A caller may ask for a read concern, a write concern and a deadline.  The options pass through the
message of the request, which the Python client fills in from a dictionary, and through the options
of the executor, which starts the transaction of every attempt.  The executor sets neither concern,
so that every transaction has those of the client.

The executor looks at the time before each step and nowhere else.  When a commit starts is therefore
a parameter of its own.
-/

namespace MongoCore.Operations.TransactionOptions

open MongoCore.Data MongoCore.Operations.PipelineRefs MongoCore.Operations.TransactionPipeline
open MongoCore.Operations.Rollback

/-! ## From the caller to the driver -/

def defaultTransactionPipelineTimeoutMs : ℕ := 30000

/-- The options that a caller gives, in Python as a dictionary, which can have other keys. -/
structure CallerOptions where
  readConcern : Option String := none
  writeConcern : Option String := none
  maxTimeMs : Option ℕ := none
  otherKeys : List String := []
  deriving DecidableEq, Repr

structure OptionsMessage where
  readConcern : Option String
  writeConcern : Option String
  maxTimeMs : Option ℕ
  deriving DecidableEq, Repr

/-- Who sends the request. -/
inductive Sender where
  | message
  | python
  deriving DecidableEq, Repr

/-- A dictionary without keys. -/
def CallerOptions.isEmpty (options : CallerOptions) : Bool :=
  options.readConcern.isNone && options.writeConcern.isNone && options.maxTimeMs.isNone &&
    options.otherKeys.isEmpty

/-- The options as they are sent.  The Python client sets every field, and leaves out the options if
the dictionary is empty. -/
def Sender.optionsMessage (sender : Sender) (options : Option CallerOptions) :
    Option OptionsMessage :=
  match sender, options with
  | _, none => none
  | .message, some options =>
      some {
        readConcern := options.readConcern
        writeConcern := options.writeConcern
        maxTimeMs := options.maxTimeMs }
  | .python, some options =>
      if options.isEmpty then none
      else some {
        readConcern := some (options.readConcern.getD "")
        writeConcern := some (options.writeConcern.getD "")
        maxTimeMs := some (options.maxTimeMs.getD 0) }

structure TransactionPipelineOptions where
  readConcern : Option String := none
  writeConcern : Option String := none
  maxTimeMs : ℕ := defaultTransactionPipelineTimeoutMs
  deriving DecidableEq, Repr

/-- The conversion that the service makes. -/
def convertOptions : Option OptionsMessage → TransactionPipelineOptions
  | some message => {
      readConcern := message.readConcern
      writeConcern := message.writeConcern
      maxTimeMs := message.maxTimeMs.getD defaultTransactionPipelineTimeoutMs }
  | none => {}

structure DriverTransactionOptions where
  readConcern : Option String := none
  writeConcern : Option String := none
  readsFromPrimary : Bool := false
  deriving DecidableEq, Repr

def txnOptions (_ : TransactionPipelineOptions) : DriverTransactionOptions :=
  { readsFromPrimary := true }

def defaultReadConcern : String := "majority"

def defaultWriteConcern : String := "majority"

/-- A transaction has the concerns of its client where it is given none. -/
def DriverTransactionOptions.inherited (options : DriverTransactionOptions) :
    DriverTransactionOptions :=
  { options with
    readConcern := options.readConcern.or (some defaultReadConcern)
    writeConcern := options.writeConcern.or (some defaultWriteConcern) }

def startedWith (options : TransactionPipelineOptions) : DriverTransactionOptions :=
  (txnOptions options).inherited

def Sender.executorOptions (sender : Sender) (options : Option CallerOptions) :
    TransactionPipelineOptions :=
  convertOptions (sender.optionsMessage options)

def requestedReadConcern (options : Option CallerOptions) : Option String :=
  options.bind CallerOptions.readConcern

def requestedWriteConcern (options : Option CallerOptions) : Option String :=
  options.bind CallerOptions.writeConcern

/-- The deadline of a request: what the caller gives, and otherwise the default. -/
def requestedMaxTimeMs (options : Option CallerOptions) : ℕ :=
  (options.bind CallerOptions.maxTimeMs).getD defaultTransactionPipelineTimeoutMs

/-- A dictionary with keys, but without a deadline, gets no time from the Python client. -/
def DropsDefault (sender : Sender) (options : Option CallerOptions) : Prop :=
  sender = .python ∧ ∃ given, options = some given ∧ given.isEmpty = false ∧ given.maxTimeMs = none

/-- The executor gets the deadline of the request, unless the Python client drops the default. -/
theorem maxTimeMs_executorOptions_iff (sender : Sender) (options : Option CallerOptions) :
    (sender.executorOptions options).maxTimeMs = requestedMaxTimeMs options ↔
      ¬ DropsDefault sender options := by
  unfold DropsDefault Sender.executorOptions requestedMaxTimeMs
  cases options with
  | none => cases sender <;> simp [Sender.optionsMessage, convertOptions]
  | some options =>
    cases sender with
    | message => simp [Sender.optionsMessage, convertOptions]
    | python =>
      cases hempty : options.isEmpty with
      | true =>
        have hnone : options.maxTimeMs = none := by
          simp only [CallerOptions.isEmpty, Bool.and_eq_true, Option.isNone_iff_eq_none] at hempty
          exact hempty.1.2
        simp [Sender.optionsMessage, convertOptions, hempty, hnone]
      | false =>
        cases hgiven : options.maxTimeMs <;>
          simp [Sender.optionsMessage, convertOptions, hempty, hgiven,
            defaultTransactionPipelineTimeoutMs]

/-! ## What a run starts, and when -/

def callOf? : SessionEvent → Option DriverCall
  | .call call => some call
  | _ => none

def callsOf (events : List SessionEvent) : List DriverCall := events.filterMap callOf?

@[simp] theorem callsOf_calls (calls : List DriverCall) : callsOf (calls.map .call) = calls := by
  rw [callsOf, List.filterMap_map]
  exact List.filterMap_some

@[simp] theorem callsOf_append (events later : List SessionEvent) :
    callsOf (events ++ later) = callsOf events ++ callsOf later :=
  List.filterMap_append

@[simp] theorem callsOf_abort : callsOf [.abort] = [] := rfl

variable (codec : JsonCodec) (env : Environment) (maxTimeMs : ℕ) (steps : List PipelineStepDef)

/-- A step makes at most one call. -/
theorem length_executeStep_le (driver : DriverCall → Except String DriverReply)
    (step : PipelineStepDef) (resolved : Json) :
    (executeStep codec driver step resolved).1.length ≤ 1 := by
  unfold executeStep
  split <;> simp

/-- Every call of an attempt starts within the deadline: the time is looked at before its step. -/
theorem elapsed_le_of_runSteps (attempt index : ℕ) (rest : List PipelineStepDef)
    (results : Results) (finished : List StepResult) {j : ℕ}
    (hj : j < (callsOf (runSteps codec env maxTimeMs attempt index rest results
      finished).1).length) :
    env.elapsed attempt (index + j) ≤ maxTimeMs := by
  induction rest generalizing index results finished j with
  | nil => simp [runSteps, callsOf] at hj
  | cons step rest ih =>
    rw [runSteps] at hj
    split_ifs at hj with htime
    · simp at hj
    split at hj
    · simp at hj
    rename_i resolved hresolved
    have hlength := length_executeStep_le codec (env.driver attempt index) step resolved
    cases j with
    | zero => exact not_lt.mp htime
    | succ j =>
      split at hj
      · rename_i calls reason hexecute
        simp only [hexecute] at hlength
        simp only [callsOf_append, callsOf_calls, callsOf_abort, List.append_nil] at hj
        omega
      · rename_i calls value hexecute
        simp only [hexecute] at hlength
        simp only [callsOf_append, callsOf_calls, List.length_append] at hj
        have hrest := ih (index + 1) (Function.update results step.name (some value))
          (finished ++ [{ name := step.name, resultJson := value }]) (j := j) (by omega)
        rwa [Nat.add_assoc, Nat.add_comm 1 j] at hrest

structure TransactionStarted (attempt : ℕ) : Prop where
  reached : Reached codec env maxTimeMs steps attempt
  started : ¬ StartFails env attempt

structure StepStarted (attempt index : ℕ) : Prop where
  transaction : TransactionStarted codec env maxTimeMs steps attempt
  call : index < (callsOf (attemptSteps codec maxTimeMs steps env attempt).1).length

structure CommitStarted (attempt : ℕ) : Prop where
  transaction : TransactionStarted codec env maxTimeMs steps attempt
  finished : ∃ events finished,
    attemptSteps codec maxTimeMs steps env attempt = (events, .ok finished)

def timeoutReason (elapsed maxTimeMs : ℕ) : String :=
  s!"Pipeline timeout exceeded ({elapsed}ms > {maxTimeMs}ms)"

/-- The run is reported as timed out, by a step of an attempt. -/
structure TimedOut (attempt : ℕ) : Prop where
  transaction : TransactionStarted codec env maxTimeMs steps attempt
  reported : ∃ events step index finished elapsed,
    attemptSteps codec maxTimeMs steps env attempt =
      (events, .error (failureAt step index finished (timeoutReason elapsed maxTimeMs)))

/-! ## The promise and its condition -/

variable (sender : Sender) (options : Option CallerOptions) (commitStart : ℕ → ℕ)
  (applied : ℕ → Bool)

/-- The options a caller gives govern a run: every transaction has the concerns that are asked for,
the deadline is the requested one, or the default, no step and no commit starts after it, and a run
that is reported as timed out has no commit that took effect. -/
structure OptionsGovern : Prop where
  readConcern : ∀ attempt,
    TransactionStarted codec env (sender.executorOptions options).maxTimeMs steps attempt →
      ∀ concern, requestedReadConcern options = some concern →
        (startedWith (sender.executorOptions options)).readConcern = some concern
  writeConcern : ∀ attempt,
    TransactionStarted codec env (sender.executorOptions options).maxTimeMs steps attempt →
      ∀ concern, requestedWriteConcern options = some concern →
        (startedWith (sender.executorOptions options)).writeConcern = some concern
  deadline : (sender.executorOptions options).maxTimeMs = requestedMaxTimeMs options
  calls : ∀ attempt index,
    StepStarted codec env (sender.executorOptions options).maxTimeMs steps attempt index →
      env.elapsed attempt index ≤ requestedMaxTimeMs options
  commits : ∀ attempt,
    CommitStarted codec env (sender.executorOptions options).maxTimeMs steps attempt →
      commitStart attempt ≤ requestedMaxTimeMs options
  timedOut : ∀ attempt,
    TimedOut codec env (sender.executorOptions options).maxTimeMs steps attempt →
      ∀ earlier, CommitStarted codec env (sender.executorOptions options).maxTimeMs steps earlier →
        takesEffect env applied earlier = false

/-- What the options of a caller and the course of a run have to be: no concern is asked for but
those of the client if a transaction starts at all, the Python client does not drop the default
deadline, no commit starts after the deadline, and no timeout follows a commit that took effect. -/
structure OptionsSuffice : Prop where
  readConcern : validatePipeline steps = .ok () → ¬ StartFails env 0 →
    ∀ concern, requestedReadConcern options = some concern → concern = defaultReadConcern
  writeConcern : validatePipeline steps = .ok () → ¬ StartFails env 0 →
    ∀ concern, requestedWriteConcern options = some concern → concern = defaultWriteConcern
  deadline : ¬ DropsDefault sender options
  commits : ∀ attempt, CommitStarted codec env (requestedMaxTimeMs options) steps attempt →
    commitStart attempt ≤ requestedMaxTimeMs options
  timedOut : ∀ attempt, TimedOut codec env (requestedMaxTimeMs options) steps attempt →
    ∀ earlier, CommitStarted codec env (requestedMaxTimeMs options) steps earlier →
      takesEffect env applied earlier = false

variable {codec env maxTimeMs steps} in
/-- If a transaction starts, the first does. -/
theorem TransactionStarted.first {attempt : ℕ}
    (h : TransactionStarted codec env maxTimeMs steps attempt) :
    validatePipeline steps = .ok () ∧ ¬ StartFails env 0 := by
  refine ⟨h.reached.valid, ?_⟩
  cases attempt with
  | zero => exact h.started
  | succ attempt => exact (h.reached.earlier 0 attempt.succ_pos).started

theorem transactionStarted_zero (hvalid : validatePipeline steps = .ok ())
    (hstart : ¬ StartFails env 0) : TransactionStarted codec env maxTimeMs steps 0 :=
  ⟨⟨hvalid, by decide, by simp⟩, hstart⟩

/-- A concern that every transaction has is the requested one exactly if it is asked for, or none is,
or no transaction starts. -/
theorem concern_iff (requested : Option String) (inherited : String) :
    (∀ attempt, TransactionStarted codec env maxTimeMs steps attempt →
        ∀ concern, requested = some concern → some inherited = some concern) ↔
      (validatePipeline steps = .ok () → ¬ StartFails env 0 →
        ∀ concern, requested = some concern → concern = inherited) := by
  constructor
  · intro hgoverned hvalid hstart concern hconcern
    have hstarted := transactionStarted_zero codec env maxTimeMs steps hvalid hstart
    exact (Option.some.inj (hgoverned 0 hstarted concern hconcern)).symm
  · intro hinherited attempt hstarted concern hconcern
    obtain ⟨hvalid, hstart⟩ := hstarted.first
    rw [hinherited hvalid hstart concern hconcern]

/-- The options govern a run exactly when they suffice: the executor keeps the deadline before each
step, and leaves both concerns to the client. -/
theorem optionsGovern_iff :
    OptionsGovern codec env steps sender options commitStart applied ↔
      OptionsSuffice codec env steps sender options commitStart applied := by
  constructor
  · intro hgovern
    have hdeadline := hgovern.deadline
    refine ⟨(concern_iff codec env _ steps _ _).mp hgovern.readConcern,
      (concern_iff codec env _ steps _ _).mp hgovern.writeConcern,
      (maxTimeMs_executorOptions_iff sender options).mp hdeadline, ?_, ?_⟩
    · have hcommits := hgovern.commits
      rwa [hdeadline] at hcommits
    · have htimedOut := hgovern.timedOut
      rwa [hdeadline] at htimedOut
  · intro hsuffice
    have hdeadline := (maxTimeMs_executorOptions_iff sender options).mpr hsuffice.deadline
    refine ⟨?_, ?_, hdeadline, ?_, ?_, ?_⟩
    · exact (concern_iff codec env _ steps _ _).mpr hsuffice.readConcern
    · exact (concern_iff codec env _ steps _ _).mpr hsuffice.writeConcern
    · intro attempt index hstarted
      have helapsed := elapsed_le_of_runSteps codec env _ attempt 0 steps _ _ hstarted.call
      rwa [Nat.zero_add, hdeadline] at helapsed
    · rw [hdeadline]
      exact hsuffice.commits
    · rw [hdeadline]
      exact hsuffice.timedOut

/-! ## Three ways to fail -/

/-- A caller who asks for a snapshot and a deadline of ten seconds. -/
def snapshot : CallerOptions := { readConcern := some "snapshot", maxTimeMs := some 10000 }

/-- An environment in which the only call succeeds, and so does the commit. -/
def oneCall : Environment :=
  answering (fun _ ↦ .ok (.inserted (.int32 1))) (fun _ ↦ .ok ())

/-- A concern other than the client's is not passed on; a dictionary without a deadline gets none from
the Python client; and a commit starts after the deadline although the run is in time before its
only step. -/
theorem options_do_not_govern :
    (¬ OptionsGovern JsonCodec.plain oneCall [insertOrder] .message (some snapshot)
      (fun _ ↦ 0) (fun _ ↦ false)) ∧
    (Sender.executorOptions .python (some { readConcern := some "majority" })).maxTimeMs = 0 ∧
    (¬ OptionsGovern JsonCodec.plain oneCall [insertOrder] .python
      (some { readConcern := some "majority" }) (fun _ ↦ 0) (fun _ ↦ false)) ∧
    (¬ OptionsGovern JsonCodec.plain oneCall [insertOrder] .message
      (some { maxTimeMs := some 1000 }) (fun _ ↦ 2000) (fun _ ↦ false)) := by
  have hstarted : ∀ maxTimeMs,
      TransactionStarted JsonCodec.plain oneCall maxTimeMs [insertOrder] 0 := fun maxTimeMs ↦
    transactionStarted_zero _ _ _ _ rfl (not_not.mpr ⟨rfl, rfl⟩)
  refine ⟨fun hgovern ↦ ?_, rfl, fun hgovern ↦ ?_, fun hgovern ↦ ?_⟩
  · exact absurd (hgovern.readConcern 0 (hstarted _) "snapshot" rfl) (by decide)
  · exact absurd hgovern.deadline (by decide)
  · exact absurd (hgovern.commits 0 ⟨hstarted _, _, _, rfl⟩) (by decide)

end MongoCore.Operations.TransactionOptions
