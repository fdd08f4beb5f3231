import MongoCore.Operations.Attempts
import MongoCore.Operations.ValidatedReferences

/-!
# The size of a step's result

The results of a pipeline's steps are kept in memory until the pipeline ends, and a find or an
aggregation is meant to return no more than the default limit of documents.  An aggregation is cut
off by the loop that reads its cursor.  A find is not: it relies on the limit that is passed to the
driver, and validation only refuses limits that are too large.  To the driver a limit of zero is no
limit, and a negative limit is its absolute value.

The main result is the exact condition under which all finds and aggregations of a validated
pipeline return bounded results, in every run: no find has the limit zero, or a negative one
beyond the default.
-/

namespace MongoCore.Operations.StepLimits

open MongoCore.Data MongoCore.Operations.PipelineRefs MongoCore.Operations.TransactionPipeline

/-! ## Limits of the driver -/

/-- The operation returns documents: a find or an aggregation. -/
def Lists : DriverOp → Prop
  | .find _ _ | .aggregate _ => True
  | _ => False

/-- The driver answers a find or an aggregation with documents, and returns no more of them than
the limit of a find says.  Zero is no limit, and a negative limit is its absolute value. -/
structure HonoursLimits (driver : DriverCall → Except String DriverReply) : Prop where
  documents : ∀ call reply, Lists call.op → driver call = .ok reply →
    ∃ documents, reply = .documents documents
  limited : ∀ call filter options limit documents, call.op = .find filter options →
    options.limit = some limit → limit ≠ 0 →
    driver call = .ok (.documents documents) → documents.length ≤ limit.natAbs

/-- A driver with as many documents as a limit allows, and 102 of them if there is no limit. -/
def plentiful (call : DriverCall) : Except String DriverReply :=
  match call.op with
  | .find _ { limit := some limit, .. } =>
      .ok (.documents (List.replicate (if limit = 0 then 102 else limit.natAbs) []))
  | _ => .ok (.documents (List.replicate 102 []))

theorem plentiful_honoursLimits : HonoursLimits plentiful := by
  constructor
  · intro call reply _ hreply
    unfold plentiful at hreply
    split at hreply <;> exact ⟨_, (Except.ok.inj hreply).symm⟩
  · intro call filter options limit documents hcall hlimit hzero hreply
    obtain ⟨database, collection, op⟩ := call
    obtain ⟨_, skip, sort, projection, batchSize⟩ := options
    simp only at hcall hlimit
    subst hcall hlimit
    simp only [plentiful, if_neg hzero, Except.ok.injEq, DriverReply.documents.injEq] at hreply
    rw [← hreply, List.length_replicate]

/-! ## Bounded results -/

/-- If the step is a find or an aggregation, the value is an array of at most as many documents as
the default limit. -/
def Bounded (step : PipelineStepDef) (value : Json) : Prop :=
  step.operationType = "find" ∨ step.operationType = "aggregate" →
    ∃ items, value = .array items ∧ items.length ≤ defaultTransactionPipelineMaxDocs

/-- If the step is a find, its limit is neither zero nor a negative number beyond the default
limit. -/
def WithinLimit (step : PipelineStepDef) : Prop :=
  step.operationType = "find" → ∀ limit, step.findLimit = some limit →
    limit ≠ 0 ∧ -(defaultTransactionPipelineMaxDocs : ℤ) ≤ limit

variable (codec : JsonCodec)

/-- Whatever a driver that honours limits answers, the result of the step is bounded. -/
def StepBounded (step : PipelineStepDef) : Prop :=
  ∀ driver, HonoursLimits driver → ∀ resolved value,
    (executeStep codec driver step resolved).2 = .ok value → Bounded step value

/-- In every run of the pipeline that finishes, each step has a result, and it is bounded. -/
def RunsBounded (steps : List PipelineStepDef) : Prop :=
  ∀ env maxTimeMs result, (∀ attempt index, HonoursLimits (env.driver attempt index)) →
    (executeTransactionPipeline codec env maxTimeMs steps).2 = .ok result →
      List.Forall₂ (fun step stepResult ↦
        stepResult.name = step.name ∧ Bounded step stepResult.resultJson) steps result.steps

/-! ## One step -/

variable {codec}

/-- The result of a step is made from the driver's answer to its call. -/
theorem exists_reply_of_executeStep {step : PipelineStepDef} {type : StepType}
    {driver : DriverCall → Except String DriverReply} {resolved value : Json}
    (htype : StepType.ofName? step.operationType = some type)
    (h : (executeStep codec driver step resolved).2 = .ok value) :
    ∃ reply, value = stepResult codec type reply ∧
      driver { database := step.database, collection := step.collection
               op := stepOp codec type step.findLimit resolved } = .ok reply := by
  simp only [executeStep, htype] at h
  cases hreply : driver { database := step.database, collection := step.collection
                          op := stepOp codec type step.findLimit resolved } with
  | error error => simp [hreply, Except.map] at h
  | ok reply =>
    rw [hreply] at h
    exact ⟨reply, (Except.ok.inj h).symm, rfl⟩

/-- A step that is a find returns what its limit lets through, and no limit is the default one. -/
theorem length_find_le {step : PipelineStepDef}
    {driver : DriverCall → Except String DriverReply} (hdriver : HonoursLimits driver)
    {resolved value : Json} (hfind : step.operationType = "find")
    (hzero : step.findLimit ≠ some 0)
    (h : (executeStep codec driver step resolved).2 = .ok value) :
    ∃ items, value = .array items ∧
      items.length ≤ (step.findLimit.getD defaultTransactionPipelineMaxDocs).natAbs := by
  have htype : StepType.ofName? step.operationType = some .find := by rw [hfind]; rfl
  obtain ⟨reply, hvalue, hreply⟩ := exists_reply_of_executeStep htype h
  have hdocuments := fun hlists ↦ hdriver.documents _ _ hlists hreply
  obtain ⟨documents, rfl⟩ := hdocuments trivial
  refine ⟨_, hvalue, ?_⟩
  rw [List.length_map]
  refine hdriver.limited _ _ _ _ _ rfl rfl ?_ hreply
  cases hlimit : step.findLimit with
  | none => simp [defaultTransactionPipelineMaxDocs]
  | some limit => simpa [hlimit] using hzero

/-- The loop that reads the cursor of an aggregation stops at the default limit. -/
theorem length_aggregate_le {step : PipelineStepDef}
    {driver : DriverCall → Except String DriverReply} (hdriver : HonoursLimits driver)
    {resolved value : Json} (haggregate : step.operationType = "aggregate")
    (h : (executeStep codec driver step resolved).2 = .ok value) :
    ∃ items, value = .array items ∧ items.length ≤ defaultTransactionPipelineMaxDocs := by
  have htype : StepType.ofName? step.operationType = some .aggregate := by rw [haggregate]; rfl
  obtain ⟨reply, hvalue, hreply⟩ := exists_reply_of_executeStep htype h
  have hdocuments := fun hlists ↦ hdriver.documents _ _ hlists hreply
  obtain ⟨documents, rfl⟩ := hdocuments trivial
  refine ⟨_, hvalue, ?_⟩
  rw [List.length_map, List.length_take]
  exact Nat.min_le_left _ _

variable (codec) in
/-- A find with a limit returns that many documents, and more than the default if it is zero. -/
theorem executeStep_plentiful {step : PipelineStepDef} {limit : ℤ}
    (hfind : step.operationType = "find") (hlimit : step.findLimit = some limit)
    (resolved : Json) :
    ∃ items, (executeStep codec plentiful step resolved).2 = .ok (.array items) ∧
      items.length = if limit = 0 then 102 else limit.natAbs := by
  refine ⟨(List.replicate (if limit = 0 then 102 else limit.natAbs) []).map codec.ofDocument,
    ?_, by simp⟩
  have htype : StepType.ofName? step.operationType = some .find := by rw [hfind]; rfl
  simp only [executeStep, htype, stepOp, hlimit, Option.getD_some, plentiful]
  rfl

/-- A step whose limit is not too large returns bounded results exactly when its limit is within
bounds. -/
theorem stepBounded_iff {step : PipelineStepDef}
    (hlarge : ∀ limit, step.findLimit = some limit → limit ≤ defaultTransactionPipelineMaxDocs) :
    StepBounded codec step ↔ WithinLimit step := by
  constructor
  · intro hbounded hfind limit hlimit
    obtain ⟨items, hvalue, hlength⟩ :=
      executeStep_plentiful codec hfind hlimit .null
    obtain ⟨items', hitems, hmost⟩ :=
      hbounded plentiful plentiful_honoursLimits _ _ hvalue (.inl hfind)
    obtain rfl : items = items' := Json.array.inj hitems
    rw [hlength, defaultTransactionPipelineMaxDocs] at hmost
    unfold defaultTransactionPipelineMaxDocs
    split_ifs at hmost with hzero
    · omega
    · exact ⟨hzero, by omega⟩
  · intro hwithin driver hdriver resolved value h htype
    rcases htype with hfind | haggregate
    · have hzero : step.findLimit ≠ some 0 := fun hnone ↦ (hwithin hfind 0 hnone).1 rfl
      obtain ⟨items, hvalue, hlength⟩ := length_find_le hdriver hfind hzero h
      refine ⟨items, hvalue, hlength.trans ?_⟩
      cases hlimit : step.findLimit with
      | none => simp
      | some limit =>
        have hupper := hlarge limit hlimit
        have hlower := (hwithin hfind limit hlimit).2
        rw [Option.getD_some]
        omega
    · exact length_aggregate_le hdriver haggregate h

/-! ## Runs -/

/-- If every step's result is bounded, so are the results of the steps of an attempt. -/
theorem runSteps_bounded {env : Environment} {maxTimeMs attempt : ℕ}
    (hdriver : ∀ index, HonoursLimits (env.driver attempt index)) {rest : List PipelineStepDef}
    (hrest : ∀ step ∈ rest, StepBounded codec step) {index : ℕ} {results : Results}
    {finished final : List StepResult}
    (h : (runSteps codec env maxTimeMs attempt index rest results finished).2 = .ok final) :
    ∃ later, final = finished ++ later ∧ List.Forall₂ (fun step stepResult ↦
      stepResult.name = step.name ∧ Bounded step stepResult.resultJson) rest later := by
  induction rest generalizing index results finished with
  | nil => exact ⟨[], by simpa [runSteps] using (Except.ok.inj h).symm, .nil⟩
  | cons step rest ih =>
    rw [runSteps] at h
    split_ifs at h with htime
    split at h
    · cases h
    rename_i resolved hresolved
    split at h
    · cases h
    rename_i calls value hexecute
    have hbounded : Bounded step value :=
      hrest step List.mem_cons_self (env.driver attempt index) (hdriver index) resolved value
        (congrArg Prod.snd hexecute)
    obtain ⟨later, hfinal, hlater⟩ := ih (fun other hother ↦ hrest other (.tail _ hother)) h
    refine ⟨{ name := step.name, resultJson := value } :: later, ?_, .cons ⟨rfl, hbounded⟩ hlater⟩
    rw [hfinal, List.append_assoc, List.singleton_append]

/-- The results of a finished pipeline are those of one of its attempts. -/
theorem exists_attempt_of_runAttempts {env : Environment} {maxTimeMs : ℕ}
    {steps : List PipelineStepDef} {left attempt : ℕ} {result : PipelineExecutionResult}
    (h : (runAttempts codec env maxTimeMs steps left attempt).2 = .ok result) :
    ∃ last, (attemptSteps codec maxTimeMs steps env last).2 = .ok result.steps := by
  induction left generalizing attempt with
  | zero => cases h
  | succ left ih =>
    unfold runAttempts at h
    split at h
    · cases h
    split at h
    · cases h
    split at h
    · cases h
    rename_i events finished hsteps
    dsimp only at h
    split at h
    · obtain rfl := Except.ok.inj h
      exact ⟨attempt, congrArg Prod.snd hsteps⟩
    · split_ifs at h with htransient
      · exact ih h

/-- Validation refuses a limit beyond the default one. -/
theorem findLimit_le_of_validateStep {steps : List PipelineStepDef} {seen : List String}
    {step : PipelineStepDef} (h : validateStep steps seen step = .ok ()) {limit : ℤ}
    (hlimit : step.findLimit = some limit) : limit ≤ defaultTransactionPipelineMaxDocs := by
  unfold validateStep at h
  split_ifs at h with _ _ _ _ _ _ hlarge
  simpa [hlimit] using hlarge

theorem findLimit_le_of_validatePipeline {steps : List PipelineStepDef}
    (h : validatePipeline steps = .ok ()) :
    ∀ step ∈ steps, ∀ limit, step.findLimit = some limit →
      limit ≤ defaultTransactionPipelineMaxDocs := by
  intro step hstep limit hlimit
  obtain ⟨earlier, later, rfl⟩ := List.append_of_mem hstep
  unfold validatePipeline at h
  split_ifs at h
  obtain ⟨names, hvalid, -⟩ := ValidatedReferences.exists_validateStep_of_validateSteps h
  exact findLimit_le_of_validateStep hvalid hlimit

/-- The results of a validated pipeline's steps are bounded, each for itself and in every run,
exactly when the limit of each find is neither zero nor a negative number beyond the default. -/
theorem resultsBounded_iff (codec : JsonCodec) {steps : List PipelineStepDef}
    (hvalid : validatePipeline steps = .ok ()) :
    ((∀ step ∈ steps, StepBounded codec step) ∧ RunsBounded codec steps) ↔
      ∀ step ∈ steps, WithinLimit step := by
  have hsteps : (∀ step ∈ steps, StepBounded codec step) ↔ ∀ step ∈ steps, WithinLimit step :=
    forall₂_congr fun step hstep ↦
      stepBounded_iff (findLimit_le_of_validatePipeline hvalid step hstep)
  rw [← hsteps, and_iff_left_iff_imp]
  intro hbounded env maxTimeMs result hdriver hresult
  unfold executeTransactionPipeline at hresult
  rw [hvalid] at hresult
  obtain ⟨last, hlast⟩ := exists_attempt_of_runAttempts hresult
  obtain ⟨later, hlater, hall⟩ := runSteps_bounded (hdriver last) hbounded hlast
  rw [hlater]
  exact hall

/-! ## A find without a limit -/

def listOrders (limit : ℤ) : PipelineStepDef where
  name := "list_orders"
  database := "shop"
  collection := "orders"
  operationType := "find"
  operationJson := .object [("filter", .object [])]
  findLimit := some limit

/-- An environment in which no time passes, everything succeeds, and there are plenty of
documents. -/
def plentifulEnvironment : Environment where
  startSession _ := .ok ()
  startTransaction _ := .ok ()
  elapsed _ _ := 0
  driver _ _ := plentiful
  commit _ := .ok ()
  elapsedAtCommit _ := 0

/-- A limit of minus five passes validation, and the results are bounded. -/
theorem resultsBounded_five :
    validatePipeline [listOrders (-5)] = .ok () ∧
      (∀ step ∈ [listOrders (-5)], StepBounded JsonCodec.plain step) ∧
      RunsBounded JsonCodec.plain [listOrders (-5)] := by
  have hvalid : validatePipeline [listOrders (-5)] = .ok () := by rfl
  refine ⟨hvalid, (resultsBounded_iff JsonCodec.plain hvalid).mpr ?_⟩
  simp [WithinLimit, listOrders, defaultTransactionPipelineMaxDocs]

/-- The pipeline of one such find returns as many documents as its limit allows, so they have to
be few. -/
theorem documents_le_of_runsBounded {limit : ℤ}
    (hvalid : validatePipeline [listOrders limit] = .ok ())
    (h : RunsBounded JsonCodec.plain [listOrders limit]) :
    (if limit = 0 then 102 else limit.natAbs) ≤ 101 := by
  let items := (List.replicate (if limit = 0 then 102 else limit.natAbs) []).map
    JsonCodec.plain.ofDocument
  have hrun : (executeTransactionPipeline JsonCodec.plain plentifulEnvironment 0
      [listOrders limit]).2 = .ok
        { steps := [{ name := "list_orders", resultJson := .array items }], totalSteps := 1
          stepsCompleted := 1, elapsedMs := 0 } := by
    unfold executeTransactionPipeline
    rw [hvalid]
    rfl
  have hbounded := h plentifulEnvironment 0 _ (fun _ _ ↦ plentiful_honoursLimits) hrun
  obtain ⟨items', hitems, hlength⟩ := (List.forall₂_cons.mp hbounded).1.2 (.inl rfl)
  rw [← Json.array.inj hitems, List.length_map, List.length_replicate] at hlength
  exact hlength

/-- A limit of zero passes validation, and the result has more documents than the default limit;
so does a negative limit beyond it. -/
theorem unlimited_find :
    (validatePipeline [listOrders 0] = .ok () ∧ ¬ RunsBounded JsonCodec.plain [listOrders 0]) ∧
      validatePipeline [listOrders (-200)] = .ok () ∧
      ¬ RunsBounded JsonCodec.plain [listOrders (-200)] := by
  have hzero : validatePipeline [listOrders 0] = .ok () := by rfl
  have hnegative : validatePipeline [listOrders (-200)] = .ok () := by rfl
  refine ⟨⟨hzero, fun h ↦ ?_⟩, hnegative, fun h ↦ ?_⟩
  · exact absurd (documents_le_of_runsBounded hzero h) (by decide)
  · exact absurd (documents_le_of_runsBounded hnegative h) (by decide)

end MongoCore.Operations.StepLimits
