import MongoCore.Library.TransitionSystem
import MongoCore.Operations.TransactionPipeline
import Mathlib.Data.List.Count
import Mathlib.Logic.Function.Basic

/-!
# The quota of a tenant

A tenant may have a rate limiter, which admits so many calls of `try_acquire` in a window of a
second.  Twenty of the handlers ask it once when a request arrives.  What a request does later is
not counted, and the other handlers do not ask at all.

The module follows the requests of all tenants in any order, at any times, with any interleaving of
the operations they start.  The main result says for which runs, and for which requests, the
operations of a tenant stay within its quota.
-/

namespace MongoCore.Grpc.TenantQuota

open MongoCore.Library.TransitionSystem MongoCore.Operations.TransactionPipeline

/-! ## Rate limiters -/

def nanosPerSecond : ℕ := 1000000000

structure RateLimiter where
  maxPerSecond : ℕ
  count : ℕ
  windowStart : ℕ

/-- A limiter that is set up at some time. -/
def RateLimiter.new (maxPerSecond now : ℕ) : RateLimiter where
  maxPerSecond := maxPerSecond
  count := 0
  windowStart := now

/-- The window is to be reset: at least a second has passed. -/
def RateLimiter.expired (limiter : RateLimiter) (now : ℕ) : Bool :=
  1 ≤ (now - limiter.windowStart) / nanosPerSecond

/-- Reset the window if it is over, then count the call unless the limit is reached. -/
def RateLimiter.tryAcquire (limiter : RateLimiter) (now : ℕ) : Bool × RateLimiter :=
  let limiter :=
    if limiter.expired now then { limiter with count := 0, windowStart := now } else limiter
  let counted := { limiter with count := limiter.count + 1 }
  if limiter.maxPerSecond ≤ limiter.count then
    (false, { counted with count := counted.count - 1 })
  else (true, counted)

/-- The limiters of the tenants.  A service without a quota manager has none. -/
abbrev QuotaManager : Type := String → Option RateLimiter

/-- A request without a tenant, or of a tenant without a limiter, is let through. -/
def checkTenantQuota (quota : QuotaManager) (tenant : Option String) (now : ℕ) :
    Bool × QuotaManager :=
  match tenant with
  | none => (true, quota)
  | some id =>
      match quota id with
      | none => (true, quota)
      | some limiter =>
          ((limiter.tryAcquire now).1, Function.update quota id (some (limiter.tryAcquire now).2))

/-! ## Requests -/

inductive Operation where
  | find | findOne | insert | insertMany | update | updateMany | delete | deleteMany
  | aggregate | findAndModify | runCommand | search
  | createCollection | createIndex | listDatabases | listCollections
  | beginTransaction | commitTransaction | abortTransaction | getAnalytics
  deriving DecidableEq, Repr

/-- A request.  The calls of a job, and the batches of a stream, are up to the table and the
client. -/
inductive Request where
  | operation (rpc : Operation)
  | countDocuments | dropCollection | embedAndStore | semanticSearch
  | watch | findStream | aggregateStream
  | insertManyStream (batches : ℕ)
  | insertManyBidi (batches : ℕ)
  | ingest (calls : ℕ)
  | getIngestStatus | listIngestJobs | cancelIngest
  | watchDirectory (calls : ℕ)
  | stopWatch
  | pipeline (rpcs : List Operation)
  | transactionPipeline (steps : ℕ)
  deriving DecidableEq, Repr

def Request.checksQuota : Request → Bool
  | .operation rpc =>
      match rpc with
      | .find | .findOne | .insert | .insertMany | .update | .updateMany | .delete | .deleteMany
      | .findAndModify | .aggregate | .search | .runCommand => true
      | .beginTransaction | .commitTransaction | .abortTransaction
      | .createCollection | .createIndex | .listDatabases | .listCollections
      | .getAnalytics => false
  | .countDocuments | .dropCollection | .embedAndStore | .semanticSearch
  | .findStream | .aggregateStream | .pipeline _ | .transactionPipeline _ => true
  | .watch | .insertManyStream _ | .insertManyBidi _
  | .ingest _ | .getIngestStatus | .listIngestJobs | .cancelIngest
  | .watchDirectory _ | .stopWatch => false

/-- The most operations of an RPC on its own.  A search goes through a vector search, a full-text
search, a text filter and an empty filter until one has an answer. -/
def Operation.operations : Operation → ℕ
  | .search => 4
  | .getAnalytics => 0
  | _ => 1

def defaultPipelineMaxOps : ℕ := 10000

/-- The most database operations that a request starts: its calls, sessions included.  Each attempt
of a transaction pipeline has a session, its steps, and a commit or an abort. -/
def Request.operations : Request → ℕ
  | .operation rpc => rpc.operations
  | .countDocuments | .dropCollection | .watch | .findStream | .aggregateStream => 1
  | .embedAndStore | .semanticSearch => 0
  | .insertManyStream batches | .insertManyBidi batches => batches
  | .ingest calls | .watchDirectory calls => calls
  | .getIngestStatus | .listIngestJobs | .cancelIngest | .stopWatch => 0
  | .pipeline rpcs =>
      if rpcs = [] ∨ defaultPipelineMaxOps < rpcs.length then 0
      else (rpcs.map Operation.operations).sum
  | .transactionPipeline steps =>
      if steps = 0 ∨ defaultTransactionPipelineMaxSteps < steps then 0
      else defaultTransactionPipelineMaxRetries * (steps + 2)

/-! ## The service -/

/-- A request that was let through.  It is `admitted` as long as the limiter that counted it has not
been reset. -/
structure Running where
  request : Request
  tenant : Option String
  started : ℕ
  admitted : Bool

/-- The limiters, the requests, and how many operations each tenant has started since its limiter
was last reset. -/
structure Service where
  quota : QuotaManager
  running : List Running
  operations : String → ℕ

/-- A service in which some tenants have been given a limit. -/
def Service.start (limits : String → Option ℕ) (now : ℕ) : Service where
  quota := fun id ↦ (limits id).map fun limit ↦ .new limit now
  running := []
  operations := fun _ ↦ 0

/-- A request arrives, or a request that was let through starts its next operation. -/
inductive Event where
  | receive (request : Request) (tenant : Option String) (now : ℕ)
  | start (i : ℕ)

/-- The request was counted before the last reset of its limiter. -/
def Running.forget (id : String) (running : Running) : Running :=
  if running.tenant = some id then { running with admitted := false } else running

/-- A window begins: nothing has been started in it, and no request counted. -/
def Service.reset (service : Service) (id : String) : Service :=
  { service with
    running := service.running.map (Running.forget id)
    operations := Function.update service.operations id 0 }

/-- The bookkeeping of a check that resets the window of its tenant. -/
def Service.beforeCheck (service : Service) (tenant : Option String) (now : ℕ) : Service :=
  match tenant with
  | none => service
  | some id =>
      match service.quota id with
      | none => service
      | some limiter => if limiter.expired now then service.reset id else service

def receive (service : Service) (request : Request) (tenant : Option String) (now : ℕ) : Service :=
  if request.checksQuota then
    let service := service.beforeCheck tenant now
    let (allowed, quota) := checkTenantQuota service.quota tenant now
    if allowed then
      { service with
        quota := quota
        running := service.running ++ [⟨request, tenant, 0, true⟩] }
    else { service with quota := quota }
  else { service with running := service.running ++ [⟨request, tenant, 0, false⟩] }

def countFor (operations : String → ℕ) : Option String → String → ℕ
  | none => operations
  | some id => Function.update operations id (operations id + 1)

/-- One step.  A request can end at any time, which is to start nothing more. -/
def step (service : Service) : Event → Option Service
  | .receive request tenant now => some (receive service request tenant now)
  | .start i =>
      match service.running[i]? with
      | none => none
      | some running =>
          if running.started < running.request.operations then
            some { service with
              running := service.running.set i { running with started := running.started + 1 }
              operations := countFor service.operations running.tenant }
          else none

/-! ## Conditions and properties -/

/-- The operations that the tenant has started since the last reset are within its quota. -/
def Within (id : String) (service : Service) : Prop :=
  ∀ limiter, service.quota id = some limiter → service.operations id ≤ limiter.maxPerSecond

/-- An operation of the tenant is the first one of a request that its limiter has admitted since its
last reset. -/
def Covered (id : String) (service : Service) : Event → Prop
  | .receive _ _ _ => True
  | .start i => ∀ running, service.running[i]? = some running → running.tenant = some id →
      running.started < running.request.operations → running.started = 0 ∧ running.admitted = true

/-- The first operation of a request that is checked starts before its limiter is reset. -/
def Prompt (id : String) (service : Service) : Event → Prop
  | .receive _ _ _ => True
  | .start i => ∀ running, service.running[i]? = some running → running.tenant = some id →
      running.started = 0 → running.request.checksQuota = true → running.admitted = true

def Sends (id : String) (allowed : Request → Prop) : Event → Prop
  | .receive request tenant _ => tenant = some id → allowed request
  | .start _ => True

/-- A request that the quota accounts for: it starts nothing, or it is checked, and either the check
lets nothing through or the request starts at most one operation. -/
def Counted (limit : ℕ) (request : Request) : Prop :=
  request.operations = 0 ∨
    request.checksQuota = true ∧ (limit = 0 ∨ request.operations ≤ 1)

/-! ## What a check does to a limiter -/

/-- A call resets the count or keeps it, and adds itself to it if that stays within the limit. -/
theorem tryAcquire_spec (limiter : RateLimiter) (now : ℕ) :
    (limiter.tryAcquire now).2.maxPerSecond = limiter.maxPerSecond ∧
      (limiter.tryAcquire now).2.count =
        (if limiter.expired now then 0 else limiter.count) +
          (if (limiter.tryAcquire now).1 then 1 else 0) ∧
      ((limiter.tryAcquire now).1 = true →
        (limiter.tryAcquire now).2.count ≤ limiter.maxPerSecond) := by
  cases hexpired : limiter.expired now with
  | true =>
    rcases Nat.eq_zero_or_pos limiter.maxPerSecond with hfull | hroom
    · simp [RateLimiter.tryAcquire, hexpired, hfull]
    · simp [RateLimiter.tryAcquire, hexpired, hroom.ne', Nat.succ_le_of_lt hroom]
  | false =>
    by_cases hfull : limiter.maxPerSecond ≤ limiter.count
    · simp [RateLimiter.tryAcquire, hexpired, hfull]
    · simp [RateLimiter.tryAcquire, hexpired, hfull, Nat.succ_le_of_lt (not_le.mp hfull)]

/-- The calls of one window are admitted up to the limit. -/
theorem tryAcquire_of_lt {limiter : RateLimiter} (h : limiter.count < limiter.maxPerSecond) :
    limiter.tryAcquire limiter.windowStart =
      (true, { limiter with count := limiter.count + 1 }) := by
  have hexpired : limiter.expired limiter.windowStart = false := by simp [RateLimiter.expired]
  simp [RateLimiter.tryAcquire, hexpired, Nat.not_le.mpr h]

/-! ## What a step does to a tenant -/

/-- A request of the tenant that was admitted since the last reset. -/
def isAdmitted (id : String) (running : Running) : Bool :=
  running.tenant == some id && running.admitted

/-- Such a request that has started an operation. -/
def isCovered (id : String) (running : Running) : Bool :=
  isAdmitted id running && decide (0 < running.started)

/-- The bookkeeping of a tenant: the operations since the last reset are at most those requests that
have started one, these are at most the calls counted, and these are at most the limit. -/
structure Sound (id : String) (limit : ℕ) (service : Service) : Prop where
  limiter : ∃ limiter, service.quota id = some limiter ∧ limiter.maxPerSecond = limit ∧
    limiter.count ≤ limit ∧ service.running.countP (isAdmitted id) ≤ limiter.count
  covered : service.operations id ≤ service.running.countP (isCovered id)

theorem isAdmitted_forget (id : String) (running : Running) :
    isAdmitted id (running.forget id) = false := by
  by_cases h : running.tenant = some id <;> simp [Running.forget, isAdmitted, h]

theorem isAdmitted_forget_of_ne {id other : String} (hne : id ≠ other) (running : Running) :
    isAdmitted id (running.forget other) = isAdmitted id running := by
  by_cases h : running.tenant = some other
  · simp [Running.forget, isAdmitted, h, hne.symm]
  · rw [Running.forget, if_neg h]

theorem started_forget (id : String) (running : Running) :
    (running.forget id).started = running.started := by
  unfold Running.forget
  split_ifs <;> rfl

/-- A reset clears the books of its tenant. -/
theorem reset_self (service : Service) (id : String) :
    (service.reset id).operations id = 0 ∧
      (service.reset id).running.countP (isAdmitted id) = 0 := by
  refine ⟨Function.update_self id 0 _, ?_⟩
  rw [Service.reset, List.countP_map, List.countP_eq_zero]
  intro running _
  simp [isAdmitted_forget]

/-- A reset leaves the books of the other tenants alone. -/
theorem reset_of_ne {id other : String} (hne : id ≠ other) (service : Service) :
    (service.reset other).operations id = service.operations id ∧
      (service.reset other).running.countP (isAdmitted id) =
        service.running.countP (isAdmitted id) ∧
      (service.reset other).running.countP (isCovered id) =
        service.running.countP (isCovered id) := by
  refine ⟨Function.update_of_ne hne 0 _, ?_, ?_⟩
  · rw [Service.reset, List.countP_map]
    exact List.countP_congr fun running _ ↦ by simp [isAdmitted_forget_of_ne hne]
  · rw [Service.reset, List.countP_map]
    exact List.countP_congr fun running _ ↦ by
      simp [isCovered, isAdmitted_forget_of_ne hne, started_forget]

section Steps

variable {id : String} {limit : ℕ} {service next : Service}

/-- A step that leaves the books of the tenant alone. -/
theorem Sound.of_books (h : Sound id limit service) (hquota : next.quota id = service.quota id)
    (hoperations : next.operations id = service.operations id)
    (hadmitted : next.running.countP (isAdmitted id) = service.running.countP (isAdmitted id))
    (hcovered : next.running.countP (isCovered id) = service.running.countP (isCovered id)) :
    Sound id limit next := by
  constructor
  · rw [hquota, hadmitted]
    exact h.limiter
  · rw [hoperations, hcovered]
    exact h.covered

/-- A request that the limiter of the tenant has not admitted does not count in its books. -/
theorem countP_append_not {running : Running} (hnot : isAdmitted id running = false)
    (others : List Running) :
    (others ++ [running]).countP (isAdmitted id) = others.countP (isAdmitted id) ∧
      (others ++ [running]).countP (isCovered id) = others.countP (isCovered id) := by
  constructor
  · rw [List.countP_append, List.countP_singleton, if_neg (by simp [hnot]), Nat.add_zero]
  · rw [List.countP_append, List.countP_singleton, if_neg (by simp [isCovered, hnot]),
      Nat.add_zero]

/-- The check of a request of another tenant. -/
theorem Sound.receive_other {other : String} {request : Request} {now : ℕ} (hne : id ≠ other)
    (h : Sound id limit service) :
    Sound id limit (receive service request (some other) now) := by
  have hnot : ∀ admitted, isAdmitted id ⟨request, some other, 0, admitted⟩ = false := by
    intro admitted
    simp [isAdmitted, hne.symm]
  cases hchecks : request.checksQuota with
  | false =>
    obtain ⟨hadmitted, hcovered⟩ := countP_append_not (hnot false) service.running
    simp only [receive, hchecks, Bool.false_eq_true, if_false]
    exact h.of_books rfl rfl hadmitted hcovered
  | true =>
    cases hquota : service.quota other with
    | none =>
      obtain ⟨hadmitted, hcovered⟩ := countP_append_not (hnot true) service.running
      simp only [receive, hchecks, if_true, Service.beforeCheck, hquota, checkTenantQuota]
      exact h.of_books rfl rfl hadmitted hcovered
    | some limiter =>
      have hbefore : Sound id limit (service.beforeCheck (some other) now) := by
        simp only [Service.beforeCheck, hquota]
        split_ifs
        · obtain ⟨hoperations, hadmitted, hcovered⟩ := reset_of_ne hne service
          exact h.of_books rfl hoperations hadmitted hcovered
        · exact h
      have hkept : (checkTenantQuota (service.beforeCheck (some other) now).quota (some other)
          now).2 id = (service.beforeCheck (some other) now).quota id := by
        unfold checkTenantQuota
        simp only
        split
        · rfl
        · exact Function.update_of_ne hne _ _
      simp only [receive, hchecks, if_true]
      split_ifs
      · obtain ⟨hadmitted, hcovered⟩ :=
          countP_append_not (hnot true) (service.beforeCheck (some other) now).running
        exact hbefore.of_books hkept rfl hadmitted hcovered
      · exact hbefore.of_books hkept rfl rfl rfl

/-- The check of a request of the tenant. -/
theorem Sound.receive_own {request : Request} {now : ℕ} (hchecks : request.checksQuota = true)
    (h : Sound id limit service) : Sound id limit (receive service request (some id) now) := by
  obtain ⟨limiter, hquota, hlimit, hcount, hadmitted⟩ := h.limiter
  obtain ⟨hmax, hafter, hroom⟩ := tryAcquire_spec limiter now
  have hbefore : (service.beforeCheck (some id) now).quota = service.quota ∧
      (service.beforeCheck (some id) now).running.countP (isAdmitted id) ≤
        (if limiter.expired now then 0 else limiter.count) ∧
      (service.beforeCheck (some id) now).operations id ≤
        (service.beforeCheck (some id) now).running.countP (isCovered id) := by
    simp only [Service.beforeCheck, hquota]
    cases limiter.expired now with
    | true =>
      obtain ⟨hoperations, hcleared⟩ := reset_self service id
      simp only [if_true]
      exact ⟨rfl, hcleared.le, hoperations.le.trans (Nat.zero_le _)⟩
    | false => exact ⟨rfl, hadmitted, h.covered⟩
  obtain ⟨hsame, hbelow, hcovered⟩ := hbefore
  have hcheck : checkTenantQuota (service.beforeCheck (some id) now).quota (some id) now =
      ((limiter.tryAcquire now).1,
        Function.update service.quota id (some (limiter.tryAcquire now).2)) := by
    rw [hsame]
    simp only [checkTenantQuota, hquota]
  simp only [receive, hchecks, if_true, hcheck]
  cases hallowed : (limiter.tryAcquire now).1 with
  | true =>
    rw [hallowed] at hafter
    refine ⟨⟨_, Function.update_self id _ _, hmax.trans hlimit, ?_, ?_⟩, ?_⟩
    · exact (hroom hallowed).trans hlimit.le
    · rw [hafter]
      simp only [if_true, List.countP_append, List.countP_singleton]
      exact Nat.add_le_add hbelow (by split_ifs <;> decide)
    · simp only [if_true, List.countP_append]
      exact hcovered.trans (Nat.le_add_right _ _)
  | false =>
    rw [hallowed] at hafter
    refine ⟨⟨_, Function.update_self id _ _, hmax.trans hlimit, ?_, ?_⟩, hcovered⟩
    · rw [hafter]
      simp only [Bool.false_eq_true, if_false, Nat.add_zero]
      split_ifs
      · exact Nat.zero_le _
      · exact hcount
    · rw [hafter]
      exact hbelow

theorem Sound.receive (request : Request) (tenant : Option String) (now : ℕ)
    (h : Sound id limit service) : Sound id limit (receive service request tenant now) := by
  cases tenant with
  | none =>
    have hnot : ∀ admitted, isAdmitted id ⟨request, none, 0, admitted⟩ = false := fun _ ↦ rfl
    obtain ⟨hadmitted, hcovered⟩ := countP_append_not (hnot request.checksQuota) service.running
    cases hchecks : request.checksQuota with
    | true =>
      simp only [TenantQuota.receive, hchecks, if_true, Service.beforeCheck, checkTenantQuota]
      rw [hchecks] at hadmitted hcovered
      exact h.of_books rfl rfl hadmitted hcovered
    | false =>
      simp only [TenantQuota.receive, hchecks, Bool.false_eq_true, if_false]
      rw [hchecks] at hadmitted hcovered
      exact h.of_books rfl rfl hadmitted hcovered
  | some other =>
    by_cases hown : id = other
    · subst hown
      cases hchecks : request.checksQuota with
      | true => exact h.receive_own hchecks
      | false =>
        have hnot : isAdmitted id ⟨request, some id, 0, false⟩ = false := by simp [isAdmitted]
        obtain ⟨hadmitted, hcovered⟩ := countP_append_not hnot service.running
        simp only [TenantQuota.receive, hchecks, Bool.false_eq_true, if_false]
        exact h.of_books rfl rfl hadmitted hcovered
    · exact h.receive_other hown

/-- Replacing an element by one that a test treats alike does not change the count. -/
theorem countP_set_of_eq {test : Running → Bool} {others : List Running} {i : ℕ}
    {old new : Running} (hold : others[i]? = some old) (hsame : test new = test old) :
    (others.set i new).countP test = others.countP test := by
  obtain ⟨hi, hget⟩ := List.getElem?_eq_some_iff.mp hold
  rw [List.countP_set hi, hget, hsame]
  by_cases hold : test old = true
  · have hpos : 0 < others.countP test :=
      List.countP_pos_iff.mpr ⟨old, List.mem_iff_getElem.mpr ⟨i, hi, hget⟩, hold⟩
    rw [if_pos hold]
    omega
  · rw [if_neg hold, Nat.sub_zero, Nat.add_zero]

/-- A covered operation is one more operation of one more request. -/
theorem Sound.start {i : ℕ} (h : Sound id limit service) (hcovers : Covered id service (.start i))
    (hstep : step service (.start i) = some next) : Sound id limit next := by
  simp only [step] at hstep
  cases hrunning : service.running[i]? with
  | none =>
    rw [hrunning] at hstep
    cases hstep
  | some running =>
    simp only [hrunning] at hstep
    split_ifs at hstep with hmore
    obtain rfl := Option.some.inj hstep
    have hadmitted : (service.running.set i { running with started := running.started + 1 }).countP
        (isAdmitted id) = service.running.countP (isAdmitted id) := countP_set_of_eq hrunning rfl
    by_cases hown : running.tenant = some id
    · obtain ⟨hstarted, hyes⟩ := hcovers running hrunning hown hmore
      obtain ⟨hi, hget⟩ := List.getElem?_eq_some_iff.mp hrunning
      refine ⟨?_, ?_⟩
      · rw [hadmitted]
        exact h.limiter
      · have hold : isCovered id running = false := by simp [isCovered, hstarted]
        have hnew : isCovered id { running with started := running.started + 1 } = true := by
          simp [isCovered, isAdmitted, hown, hyes]
        have hcount : countFor service.operations running.tenant id = service.operations id + 1 := by
          rw [hown]
          exact Function.update_self id _ _
        change countFor service.operations running.tenant id ≤ List.countP (isCovered id) _
        rw [hcount, List.countP_set hi, hget, hold, hnew]
        exact Nat.succ_le_succ h.covered
    · have hsame : isCovered id { running with started := running.started + 1 } =
          isCovered id running := by
        simp [isCovered, isAdmitted, hown]
      refine h.of_books rfl ?_ hadmitted (countP_set_of_eq hrunning hsame)
      cases htenant : running.tenant with
      | none => rfl
      | some other =>
        rw [htenant] at hown
        exact Function.update_of_ne (fun heq ↦ hown (congrArg some heq.symm)) _ _

end Steps

/-! ## Runs -/

section Runs

variable {id : String} {limit : ℕ} {limits : String → Option ℕ} {now : ℕ}

theorem start_sound (hlimit : limits id = some limit) :
    Sound id limit (Service.start limits now) where
  limiter := ⟨.new limit now, by simp [Service.start, hlimit], rfl, Nat.zero_le _, le_rfl⟩
  covered := le_rfl

theorem Sound.within {service : Service} (h : Sound id limit service) : Within id service := by
  intro limiter hlimiter
  obtain ⟨other, hother, hlimit, hcount, hadmitted⟩ := h.limiter
  obtain rfl := Option.some.inj (hother.symm.trans hlimiter)
  have hcovered : service.running.countP (isCovered id) ≤
      service.running.countP (isAdmitted id) := by
    refine List.countP_mono_left fun running _ hrunning ↦ ?_
    exact (Bool.and_eq_true_iff.mp hrunning).1
  calc service.operations id ≤ service.running.countP (isCovered id) := h.covered
    _ ≤ other.count := hcovered.trans hadmitted
    _ ≤ other.maxPerSecond := hcount.trans hlimit.ge

/-- A run whose operations are all covered stays within the quota. -/
theorem within_of_covered (hlimit : limits id = some limit) {events : List Event}
    (hmeet : StepsMeet step (Covered id) (Service.start limits now) events) :
    Throughout step (Within id) (Service.start limits now) events := by
  have hwithin : ∀ service, Sound id limit service → Within id service := fun _ h ↦ h.within
  refine throughout_of_stepsMeet hwithin ?_ (start_sound hlimit) hmeet
  intro service event next h hcovers hstep
  cases event with
  | receive request tenant time =>
    obtain rfl := Option.some.inj hstep
    exact h.receive request tenant time
  | start i => exact h.start hcovers hstep

/-! ## Requests that keep to the quota -/

/-- No check changes a limit. -/
theorem maxPerSecond_checkTenantQuota (quota : QuotaManager) (tenant : Option String) (time : ℕ)
    (id : String) :
    ((checkTenantQuota quota tenant time).2 id).map RateLimiter.maxPerSecond =
      (quota id).map RateLimiter.maxPerSecond := by
  cases tenant with
  | none => rfl
  | some other =>
    cases hquota : quota other with
    | none => simp only [checkTenantQuota, hquota]
    | some limiter =>
      simp only [checkTenantQuota, hquota]
      by_cases hown : id = other
      · subst hown
        rw [Function.update_self, hquota, Option.map_some, Option.map_some,
          (tryAcquire_spec limiter time).1]
      · rw [Function.update_of_ne hown]

theorem quota_beforeCheck (service : Service) (tenant : Option String) (time : ℕ) :
    (service.beforeCheck tenant time).quota = service.quota := by
  unfold Service.beforeCheck
  split
  · rfl
  · split
    · rfl
    · split_ifs <;> rfl

/-- A check that lets a request of a tenant through has room for it. -/
theorem pos_of_checkTenantQuota {quota : QuotaManager} {limiter : RateLimiter} {time : ℕ}
    (hquota : quota id = some limiter)
    (hallowed : (checkTenantQuota quota (some id) time).1 = true) : 0 < limiter.maxPerSecond := by
  simp only [checkTenantQuota, hquota] at hallowed
  obtain ⟨-, hcount, hroom⟩ := tryAcquire_spec limiter time
  have hpos : 0 < (limiter.tryAcquire time).2.count := by
    rw [hcount, hallowed, if_pos rfl]
    exact Nat.succ_pos _
  exact hpos.trans_le (hroom hallowed)

/-- The requests before a check are those of the service, some of them forgotten. -/
theorem mem_beforeCheck {service : Service} {tenant : Option String} {time : ℕ} {running : Running}
    (hmem : running ∈ (service.beforeCheck tenant time).running) :
    ∃ old ∈ service.running, old.request = running.request ∧ old.tenant = running.tenant := by
  have hreset : ∀ id, running ∈ (service.reset id).running →
      ∃ old ∈ service.running, old.request = running.request ∧ old.tenant = running.tenant := by
    intro id hmem
    obtain ⟨old, hold, rfl⟩ := List.mem_map.mp hmem
    refine ⟨old, hold, ?_⟩
    unfold Running.forget
    split_ifs <;> exact ⟨rfl, rfl⟩
  unfold Service.beforeCheck at hmem
  split at hmem
  · exact ⟨running, hmem, rfl, rfl⟩
  · split at hmem
    · exact ⟨running, hmem, rfl, rfl⟩
    · split_ifs at hmem
      · exact hreset _ hmem
      · exact ⟨running, hmem, rfl, rfl⟩

/-- The tenant keeps its limit, and its requests are of the allowed kinds; if they are checked, the
limit is not zero. -/
structure Known (id : String) (limit : ℕ) (allowed : Request → Prop) (service : Service) :
    Prop where
  limiter : ∃ limiter, service.quota id = some limiter ∧ limiter.maxPerSecond = limit
  sent : ∀ running ∈ service.running, running.tenant = some id →
    allowed running.request ∧ (running.request.checksQuota = true → 0 < limit)

variable {allowed : Request → Prop}

theorem Known.receive {service : Service} {request : Request} {tenant : Option String} {time : ℕ}
    (h : Known id limit allowed service) (hsends : tenant = some id → allowed request) :
    Known id limit allowed (receive service request tenant time) := by
  obtain ⟨limiter, hquota, hlimit⟩ := h.limiter
  have hold : ∀ running ∈ (service.beforeCheck tenant time).running, running.tenant = some id →
      allowed running.request ∧ (running.request.checksQuota = true → 0 < limit) := by
    intro running hmem hown
    obtain ⟨old, hold, hrequest, htenant⟩ := mem_beforeCheck hmem
    rw [← hrequest]
    exact h.sent old hold (htenant.trans hown)
  have hkept : ∃ limiter, (checkTenantQuota (service.beforeCheck tenant time).quota tenant
      time).2 id = some limiter ∧ limiter.maxPerSecond = limit := by
    have hmax := maxPerSecond_checkTenantQuota service.quota tenant time id
    rw [hquota, Option.map_some, Option.map_eq_some_iff] at hmax
    rw [quota_beforeCheck]
    obtain ⟨after, hafter, hsame⟩ := hmax
    exact ⟨after, hafter, hsame.trans hlimit⟩
  unfold TenantQuota.receive
  split_ifs with hchecks
  · simp only
    split_ifs with hallowed
    · refine ⟨hkept, List.forall_mem_append.mpr ⟨hold, List.forall_mem_singleton.mpr ?_⟩⟩
      intro hown
      refine ⟨hsends hown, fun _ ↦ ?_⟩
      rw [quota_beforeCheck] at hallowed
      simp only at hown
      rw [hown] at hallowed
      exact (pos_of_checkTenantQuota hquota hallowed).trans_eq hlimit
    · exact ⟨hkept, hold⟩
  · refine ⟨h.limiter, List.forall_mem_append.mpr ⟨h.sent, List.forall_mem_singleton.mpr ?_⟩⟩
    exact fun hown ↦ ⟨hsends hown, fun hyes ↦ absurd hyes hchecks⟩

theorem Known.start {service next : Service} {i : ℕ} (h : Known id limit allowed service)
    (hstep : step service (.start i) = some next) : Known id limit allowed next := by
  simp only [step] at hstep
  cases hrunning : service.running[i]? with
  | none =>
    rw [hrunning] at hstep
    cases hstep
  | some running =>
    simp only [hrunning] at hstep
    split_ifs at hstep
    obtain rfl := Option.some.inj hstep
    refine ⟨h.limiter, fun other hother ↦ ?_⟩
    rcases List.mem_or_eq_of_mem_set hother with hmem | rfl
    · exact h.sent other hmem
    · exact h.sent running (List.mem_of_getElem? hrunning)

/-- The operations of requests that the quota accounts for are covered, if they are prompt. -/
theorem Known.covered {service : Service} {event : Event} (h : Known id limit allowed service)
    (hcounted : ∀ request, allowed request → Counted limit request)
    (hprompt : Prompt id service event) : Covered id service event := by
  cases event with
  | receive request tenant time => exact trivial
  | start i =>
    intro running hrunning hown hmore
    obtain ⟨hallowed, hpos⟩ := h.sent running (List.mem_of_getElem? hrunning) hown
    rcases hcounted _ hallowed with hnone | ⟨hchecks, hzero | hone⟩
    · rw [hnone] at hmore
      exact absurd hmore (Nat.not_lt_zero _)
    · exact absurd hzero (hpos hchecks).ne'
    · have hfirst : running.started = 0 := Nat.lt_one_iff.mp (hmore.trans_le hone)
      exact ⟨hfirst, hprompt running hrunning hown hfirst hchecks⟩

/-! ## Requests that exceed the quota -/

/-- A request that is let through at once is the last one. -/
theorem receive_of_room {service : Service} {request : Request} {limiter : RateLimiter}
    (hquota : service.quota id = some limiter)
    (hroom : request.checksQuota = true → limiter.count < limiter.maxPerSecond) :
    (receive service request (some id) limiter.windowStart).running =
        service.running ++ [⟨request, some id, 0, request.checksQuota⟩] ∧
      (receive service request (some id) limiter.windowStart).operations = service.operations ∧
      (receive service request (some id) limiter.windowStart).quota id =
        some (if request.checksQuota then { limiter with count := limiter.count + 1 }
          else limiter) := by
  cases hchecks : request.checksQuota with
  | true =>
    have hexpired : limiter.expired limiter.windowStart = false := by simp [RateLimiter.expired]
    have hacquired := tryAcquire_of_lt (hroom hchecks)
    simp [receive, hchecks, Service.beforeCheck, checkTenantQuota, hquota, hexpired, hacquired]
  | false => simp [receive, hchecks, hquota]

/-- The last request starts its next operation. -/
theorem exists_start_last {service : Service} {others : List Running} {request : Request}
    {started : ℕ} {admitted : Bool}
    (hrunning : service.running = others ++ [⟨request, some id, started, admitted⟩])
    (hmore : started < request.operations) :
    ∃ next, step service (.start others.length) = some next ∧
      next.running = others ++ [⟨request, some id, started + 1, admitted⟩] ∧
      next.quota = service.quota ∧ next.operations id = service.operations id + 1 := by
  refine ⟨{ service with
    running := others ++ [⟨request, some id, started + 1, admitted⟩]
    operations := Function.update service.operations id (service.operations id + 1) }, ?_, rfl,
      rfl, Function.update_self id _ _⟩
  simp [step, hrunning, hmore, countFor]

/-- What may happen in a run of the tenant. -/
abbrev Fair (id : String) (allowed : Request → Prop) (service : Service) (event : Event) : Prop :=
  Sends id allowed event ∧ Prompt id service event

/-- The last request can start an operation if it is admitted, or not checked, or has started one
already. -/
theorem fair_start_last {service : Service} {others : List Running} {request : Request}
    {started : ℕ} {admitted : Bool}
    (hrunning : service.running = others ++ [⟨request, some id, started, admitted⟩])
    (hprompt : started = 0 → request.checksQuota = true → admitted = true) :
    Fair id allowed service (.start others.length) := by
  refine ⟨trivial, fun running hlast _ ↦ ?_⟩
  rw [hrunning, List.getElem?_concat_length] at hlast
  obtain rfl := Option.some.inj hlast
  exact hprompt

/-- Requests that are let through one after the other, and each start one operation. -/
theorem exists_run_add {request : Request} (hsome : 0 < request.operations)
    (hallowed : allowed request) (n : ℕ) {service : Service} {limiter : RateLimiter}
    (hquota : service.quota id = some limiter)
    (hroom : request.checksQuota = true → limiter.count + n ≤ limiter.maxPerSecond) :
    ∃ events final, run step service events = some final ∧
      StepsMeet step (Fair id allowed) service events ∧
      final.operations id = service.operations id + n ∧
      (final.quota id).map RateLimiter.maxPerSecond = some limiter.maxPerSecond := by
  induction n generalizing service limiter with
  | zero => exact ⟨[], service, rfl, trivial, rfl, by rw [hquota, Option.map_some]⟩
  | succ n ih =>
    have hless : request.checksQuota = true → limiter.count < limiter.maxPerSecond := by
      intro hchecks
      have hsum := hroom hchecks
      omega
    obtain ⟨hrunning, hoperations, hafter⟩ := receive_of_room hquota hless
    obtain ⟨next, hstart, -, hquotas, hone⟩ := exists_start_last hrunning hsome
    have hmax : (if request.checksQuota then { limiter with count := limiter.count + 1 }
        else limiter).maxPerSecond = limiter.maxPerSecond := by split_ifs <;> rfl
    have hrest : request.checksQuota = true →
        (if request.checksQuota then { limiter with count := limiter.count + 1 }
          else limiter).count + n ≤ (if request.checksQuota then
            { limiter with count := limiter.count + 1 } else limiter).maxPerSecond := by
      intro hchecks
      have hsum := hroom hchecks
      rw [hmax, if_pos hchecks]
      simp only
      omega
    obtain ⟨events, final, hrun, hfair, hsum, hlast⟩ := ih (hquotas ▸ hafter) hrest
    refine ⟨.receive request (some id) limiter.windowStart :: .start service.running.length ::
      events, final, ?_, ?_, ?_, hlast.trans (congrArg some hmax)⟩
    · exact run_cons_eq_some.mpr ⟨_, rfl, run_cons_eq_some.mpr ⟨next, hstart, hrun⟩⟩
    · refine (stepsMeet_cons rfl).mpr ⟨⟨fun _ ↦ hallowed, trivial⟩, ?_⟩
      exact (stepsMeet_cons hstart).mpr ⟨fair_start_last hrunning fun _ h ↦ h, hfair⟩
    · rw [hsum, hone, hoperations]
      omega

variable (now) in
/-- A request that the quota does not account for makes the tenant exceed it. -/
theorem exists_exceeding (hlimit : limits id = some limit) {request : Request}
    (hallowed : allowed request) (hnot : ¬ Counted limit request) :
    ∃ events final, run step (Service.start limits now) events = some final ∧
      StepsMeet step (Fair id allowed) (Service.start limits now) events ∧
      ¬ Within id final := by
  obtain ⟨hsome, hunbounded⟩ := not_or.mp hnot
  have hexceeds : ∀ final : Service,
      (final.quota id).map RateLimiter.maxPerSecond = some limit →
        final.operations id = limit + 1 → ¬ Within id final := by
    intro final hmax hoperations hwithin
    obtain ⟨limiter, hquota, rfl⟩ := Option.map_eq_some_iff.mp hmax
    have hle := hwithin limiter hquota
    omega
  have hquota : (Service.start limits now).quota id = some (.new limit now) := by
    simp [Service.start, hlimit]
  cases hchecks : request.checksQuota with
  | false =>
    obtain ⟨events, final, hrun, hfair, hsum, hmax⟩ := exists_run_add
      (Nat.pos_of_ne_zero hsome) hallowed (limit + 1) hquota fun hyes ↦ by
        rw [hchecks] at hyes
        cases hyes
    refine ⟨events, final, hrun, hfair, hexceeds final hmax ?_⟩
    rw [hsum, Service.start, Nat.zero_add]
  | true =>
    obtain ⟨hpos, hmany⟩ : limit ≠ 0 ∧ 1 < request.operations := by
      have hneither := not_and.mp hunbounded hchecks
      exact ⟨fun h ↦ hneither (.inl h), not_le.mp fun h ↦ hneither (.inr h)⟩
    -- One request starts two operations, and then requests that start one use up the rest.
    obtain ⟨hrunning, hoperations, hafter⟩ := receive_of_room hquota fun _ ↦
      Nat.pos_of_ne_zero hpos
    obtain ⟨first, hfirst, hfirstRunning, hfirstQuota, hone⟩ :=
      exists_start_last hrunning (Nat.zero_lt_of_lt hmany)
    obtain ⟨second, hsecond, -, hsecondQuota, htwo⟩ := exists_start_last hfirstRunning hmany
    rw [if_pos hchecks] at hafter
    have hcounted : second.quota id = some ⟨limit, 1, now⟩ := by
      rw [hsecondQuota, hfirstQuota, hafter]
      rfl
    obtain ⟨events, final, hrun, hfair, hsum, hmax⟩ := exists_run_add
      (Nat.pos_of_ne_zero hsome) hallowed (limit - 1) hcounted fun _ ↦ by
        simp only
        omega
    refine ⟨.receive request (some id) now :: .start 0 :: .start 0 :: events, final, ?_, ?_,
      hexceeds final hmax ?_⟩
    · exact run_cons_eq_some.mpr ⟨_, rfl, run_cons_eq_some.mpr ⟨first, hfirst,
        run_cons_eq_some.mpr ⟨second, hsecond, hrun⟩⟩⟩
    · refine (stepsMeet_cons rfl).mpr ⟨⟨fun _ ↦ hallowed, trivial⟩, ?_⟩
      refine (stepsMeet_cons hfirst).mpr ⟨fair_start_last hrunning fun _ h ↦ h, ?_⟩
      refine (stepsMeet_cons hsecond).mpr ⟨?_, hfair⟩
      exact fair_start_last hfirstRunning fun hzero ↦ absurd hzero (Nat.succ_ne_zero _)
    · have hnone : (Service.start limits now).operations id = 0 := rfl
      rw [hsum, htwo, hone, hoperations, hnone]
      omega

end Runs

/-- A tenant stays within its quota in every run whose operations are all the first ones of requests
that its limiter has admitted since its last reset.  A tenant that sends requests of some kinds only,
whose first operations start before a reset, stays within it in every run exactly when the quota
accounts for these kinds. -/
theorem operations_within_quota (limits : String → Option ℕ) (id : String) (limit now : ℕ) :
    (∀ events, StepsMeet step (Covered id)
        (Service.start (Function.update limits id (some limit)) now) events →
      Throughout step (Within id)
        (Service.start (Function.update limits id (some limit)) now) events) ∧
    ∀ allowed : Request → Prop,
      (∀ events, StepsMeet step (Fair id allowed)
          (Service.start (Function.update limits id (some limit)) now) events →
        Throughout step (Within id)
          (Service.start (Function.update limits id (some limit)) now) events) ↔
      ∀ request, allowed request → Counted limit request := by
  have hlimit : Function.update limits id (some limit) id = some limit :=
    Function.update_self id _ _
  refine ⟨fun events ↦ within_of_covered hlimit, fun allowed ↦ ⟨fun hall request hallowed ↦ ?_,
    fun hcounted events hfair ↦ within_of_covered hlimit ?_⟩⟩
  · by_contra hnot
    obtain ⟨events, final, hrun, hfair, hexceeds⟩ := exists_exceeding now hlimit hallowed hnot
    exact hexceeds (hall events hfair events [] (List.append_nil _).symm final hrun)
  · have hstart : Known id limit allowed
        (Service.start (Function.update limits id (some limit)) now) :=
      ⟨⟨.new limit now, by simp [Service.start], rfl⟩,
        fun running hmem ↦ absurd hmem List.not_mem_nil⟩
    refine hfair.of_invariant ?_ (fun service event hknown h ↦ hknown.covered hcounted h.2) hstart
    intro service event next hknown h hstep
    cases event with
    | receive request tenant time =>
      obtain rfl := Option.some.inj hstep
      exact hknown.receive h.1
    | start i => exact hknown.start hstep

/-- A pipeline of two operations is one request, and exceeds a quota of one operation. -/
theorem pipeline_exceeds_quota : ¬ ∀ events : List Event,
    Throughout step (Within "acme") (Service.start (fun _ ↦ some 1) 0) events := by
  intro hwithin
  have hrun : run step (Service.start (fun _ ↦ some 1) 0)
      [.receive (.pipeline [.find, .find]) (some "acme") 0, .start 0, .start 0] = some _ := rfl
  have hle := hwithin _ _ [] (List.append_nil _).symm _ hrun ⟨1, 1, 0⟩ rfl
  exact absurd hle (by decide)

end MongoCore.Grpc.TenantQuota
