import MongoCore.Library.TransitionSystem
import Mathlib.Algebra.GroupWithZero.Nat
import Mathlib.Data.List.DropRight

/-!
# Collecting events of operations

Every operation of the server is recorded: a counter of operations goes up, a counter of errors may
go up, and the event is pushed to a ring buffer.  The buffer is behind a lock, the counters are
atomic, and a call that records makes its three accesses one by one, so calls can overlap.

A full buffer drops its oldest event before it takes a new one.  It asks whether it is full before
it drops, and so a buffer without any capacity keeps one event nevertheless.
-/

namespace MongoCore.Analytics

open MongoCore.Library.TransitionSystem

/-! ## Events -/

inductive OperationKind where
  | find
  | findOne
  | insert
  | insertMany
  | update
  | updateMany
  | delete
  | deleteMany
  | findAndModify
  | aggregate
  | search
  | watch
  | runCommand
  | beginTransaction
  | commitTransaction
  | abortTransaction
  | createCollection
  | createIndex
  | listDatabases
  | listCollections
  | pipeline
  deriving DecidableEq, Repr

/-- What is recorded of an operation.  The latency counts nanoseconds. -/
structure AnalyticsEvent where
  operation : OperationKind
  database : String
  collection : String
  latency : ℕ
  success : Bool
  deriving DecidableEq, Repr

/-! ## The ring buffer -/

/-- Events in the order they came. -/
structure RingBuffer (α : Type) where
  buffer : List α
  capacity : ℕ

namespace RingBuffer

variable {α : Type}

def new (capacity : ℕ) : RingBuffer α := ⟨[], capacity⟩

def len (ring : RingBuffer α) : ℕ := ring.buffer.length

def isEmpty (ring : RingBuffer α) : Bool := ring.len = 0

/-- Add an event.  If at capacity, the oldest event goes first. -/
def push (ring : RingBuffer α) (event : α) : RingBuffer α :=
  if ring.capacity ≤ ring.len then { ring with buffer := ring.buffer.tail ++ [event] }
  else { ring with buffer := ring.buffer ++ [event] }

def snapshot (ring : RingBuffer α) : List α := ring.buffer

/-- The events, which leave the buffer. -/
def drain (ring : RingBuffer α) : List α × RingBuffer α := (ring.buffer, { ring with buffer := [] })

@[simp] theorem push_capacity (ring : RingBuffer α) (event : α) :
    (ring.push event).capacity = ring.capacity := by
  unfold push
  split <;> rfl

theorem push_buffer (ring : RingBuffer α) (event : α) :
    (ring.push event).buffer =
      (if ring.capacity ≤ ring.len then ring.buffer.tail else ring.buffer) ++ [event] := by
  unfold push
  split <;> rfl

theorem len_push_le (ring : RingBuffer α) (event : α) : (ring.push event).len ≤ ring.len + 1 := by
  unfold len
  rw [push_buffer]
  split <;> simp

/-- Dropping the oldest of the last items makes room for a new one. -/
theorem rtake_concat (items : List α) (item : α) (n : ℕ) :
    (if n + 1 ≤ (items.rtake (n + 1)).length then (items.rtake (n + 1)).tail
      else items.rtake (n + 1)) ++ [item] = (items ++ [item]).rtake (n + 1) := by
  rw [List.rtake_concat_succ, List.append_left_inj]
  unfold List.rtake
  rw [List.length_drop]
  split
  · rw [List.tail_drop]
    congr 1
    omega
  · have hbefore : items.length - (n + 1) = 0 := by omega
    have hafter : items.length - n = 0 := by omega
    rw [hbefore, hafter]

/-- The buffer keeps the last events up to its capacity, and one even without a capacity. -/
theorem push_buffer_of_rtake {ring : RingBuffer α} {pushed : List α}
    (hring : ring.buffer = pushed.rtake (max 1 ring.capacity)) (event : α) :
    (ring.push event).buffer = (pushed ++ [event]).rtake (max 1 ring.capacity) := by
  rw [push_buffer, len]
  cases hcapacity : ring.capacity with
  | zero =>
    rw [hcapacity] at hring
    have hlen : ring.buffer.length ≤ 1 := by
      rw [hring, Nat.max_eq_left (Nat.zero_le 1), List.rtake, List.length_drop]
      omega
    have htail : ring.buffer.tail = [] := List.length_eq_zero_iff.mp (by simp; omega)
    simp [htail, List.rtake_concat_succ pushed 0 event]
  | succ n =>
    rw [hcapacity, Nat.max_eq_right (Nat.le_add_left 1 n)] at hring
    rw [hring, Nat.max_eq_right (Nat.le_add_left 1 n)]
    exact rtake_concat pushed event n

/-! ## Runs of the buffer -/

inductive Op (α : Type) where
  | push (event : α)
  | snapshot
  | drain

def Op.pushed? : Op α → Option α
  | .push event => some event
  | .snapshot | .drain => none

/-- The lock is held for the whole of an operation, so each is one step, and none can fail. -/
def apply (ring : RingBuffer α) : Op α → Option (RingBuffer α)
  | .push event => some (ring.push event)
  | .snapshot => some ring
  | .drain => some ring.drain.2

/-- What has been pushed since the last drain. -/
def sinceDrain (_ : RingBuffer α) (pushed : List α) : Op α → List α
  | .push event => pushed ++ [event]
  | .snapshot => pushed
  | .drain => []

/-- The buffer has exactly the last events pushed since the last drain, as many as it has capacity
for. -/
def HoldsLast (state : RingBuffer α × List α) : Prop :=
  state.1.buffer = state.2.rtake state.1.capacity ∧
    state.1.len = min state.1.capacity state.2.length

/-- What every run keeps: like `HoldsLast`, with one event where there is no capacity, as long as
nothing has been pushed there. -/
structure Keeps (state : RingBuffer α × List α) : Prop where
  buffer_eq : state.1.buffer = state.2.rtake (max 1 state.1.capacity)
  pushed_eq : state.1.capacity = 0 → state.2 = []

theorem length_rtake (items : List α) (n : ℕ) : (items.rtake n).length = min n items.length := by
  rw [List.rtake, List.length_drop]
  omega

theorem Keeps.holdsLast {state : RingBuffer α × List α} (hkeeps : Keeps state) :
    HoldsLast state := by
  have hbuffer : state.1.buffer = state.2.rtake state.1.capacity := by
    by_cases hcapacity : state.1.capacity = 0
    · simp [hkeeps.buffer_eq, hkeeps.pushed_eq hcapacity]
    · rw [hkeeps.buffer_eq, Nat.max_eq_right (by omega)]
  exact ⟨hbuffer, by rw [len, hbuffer, length_rtake]⟩

/-- An operation is harmless if it does not push to a buffer without capacity. -/
def Roomy (state : RingBuffer α × List α) (op : Op α) : Prop :=
  state.1.capacity ≠ 0 ∨ op.pushed? = none

theorem keeps_of_apply (state : RingBuffer α × List α) (op : Op α) (next : RingBuffer α × List α)
    (hkeeps : Keeps state) (hroomy : Roomy state op)
    (hstep : recorded apply sinceDrain state op = some next) : Keeps next := by
  obtain ⟨ring, pushed⟩ := state
  obtain ⟨ring', pushed'⟩ := next
  obtain ⟨happly, rfl⟩ := recorded_eq_some.mp hstep
  cases op with
  | push event =>
    obtain rfl : ring.push event = ring' := Option.some.inj happly
    have hcapacity : ring.capacity ≠ 0 := by simpa [Roomy, Op.pushed?] using hroomy
    refine ⟨?_, fun hzero ↦ absurd hzero (by simpa using hcapacity)⟩
    rw [push_capacity]
    exact push_buffer_of_rtake hkeeps.buffer_eq event
  | snapshot =>
    obtain rfl : ring = ring' := Option.some.inj happly
    exact hkeeps
  | drain =>
    obtain rfl : ring.drain.2 = ring' := Option.some.inj happly
    exact ⟨by simp [drain, sinceDrain], fun _ ↦ rfl⟩

/-- A push to a buffer without capacity leaves it with an event. -/
theorem not_holdsLast_of_push (state : RingBuffer α × List α) (op : Op α)
    (hroomy : ¬ Roomy state op) :
    ∃ next, recorded apply sinceDrain state op = some next ∧ ¬ HoldsLast next := by
  obtain ⟨ring, pushed⟩ := state
  obtain ⟨hcapacity, hpushed⟩ : ring.capacity = 0 ∧ op.pushed? ≠ none := by
    simpa [Roomy] using hroomy
  cases op with
  | push event =>
    refine ⟨(ring.push event, pushed ++ [event]), rfl, fun hholds ↦ ?_⟩
    have hlen : (ring.push event).len = 0 := by simpa [hcapacity] using hholds.2
    rw [len, push_buffer, List.length_append, List.length_singleton] at hlen
    omega
  | snapshot => exact absurd rfl hpushed
  | drain => exact absurd rfl hpushed

theorem stepsMeet_roomy_iff (ring : RingBuffer α) (pushed : List α) (ops : List (Op α)) :
    StepsMeet (recorded apply sinceDrain) Roomy (ring, pushed) ops ↔
      ring.capacity ≠ 0 ∨ ∀ op ∈ ops, op.pushed? = none := by
  induction ops generalizing ring pushed with
  | nil => simp [StepsMeet]
  | cons op ops ih =>
    obtain ⟨next, happly, hcapacity⟩ : ∃ next, apply ring op = some next ∧
        next.capacity = ring.capacity := by
      cases op <;> exact ⟨_, rfl, by simp [drain]⟩
    rw [stepsMeet_cons (recorded_eq_some.mpr ⟨happly, rfl⟩), ih, hcapacity, Roomy,
      List.forall_mem_cons]
    tauto

/-- A buffer holds the last events all along a run exactly if it has a capacity, or nothing is
pushed. -/
theorem throughout_holdsLast_iff (capacity : ℕ) (ops : List (Op α)) :
    Throughout (recorded apply sinceDrain) HoldsLast (new capacity, []) ops ↔
      capacity ≠ 0 ∨ ∀ op ∈ ops, op.pushed? = none := by
  have hinit : Keeps (new capacity, ([] : List α)) := ⟨by simp [new], fun _ ↦ rfl⟩
  rw [throughout_iff_stepsMeet (fun _ ↦ Keeps.holdsLast) keeps_of_apply
    (fun state op _ ↦ not_holdsLast_of_push state op) hinit]
  exact stepsMeet_roomy_iff _ _ ops

end RingBuffer

/-! ## The collector -/

structure AnalyticsCollector where
  buffer : RingBuffer AnalyticsEvent
  totalOps : ℕ
  totalErrors : ℕ

namespace AnalyticsCollector

def new (bufferCapacity : ℕ) : AnalyticsCollector := ⟨.new bufferCapacity, 0, 0⟩

def eventCount (collector : AnalyticsCollector) : ℕ := collector.buffer.len

def totalOperations (collector : AnalyticsCollector) : ℕ := collector.totalOps

/-- Add one to a counter of 64 bits. -/
def fetchAdd (counter : ℕ) : ℕ := (counter + 1) % 2 ^ 64

/-- A call that records an event, after its first access. -/
inductive Pending where
  | counted (event : AnalyticsEvent)
  | examined (event : AnalyticsEvent)

structure State where
  collector : AnalyticsCollector
  pending : List Pending

/-- One access of a call.  A call that records begins with the counter of operations, and is named
by its place in the list afterwards. -/
inductive Access where
  | countOperation (event : AnalyticsEvent)
  | countError (call : ℕ)
  | push (call : ℕ)
  | snapshot

def step (state : State) : Access → Option State
  | .countOperation event =>
      some {
        collector := { state.collector with totalOps := fetchAdd state.collector.totalOps }
        pending := state.pending ++ [.counted event] }
  | .countError call =>
      match state.pending[call]? with
      | some (.counted event) =>
          some {
            collector := { state.collector with
              totalErrors :=
                if event.success then state.collector.totalErrors
                else fetchAdd state.collector.totalErrors }
            pending := state.pending.set call (.examined event) }
      | _ => none
  | .push call =>
      match state.pending[call]? with
      | some (.examined event) =>
          some {
            collector := { state.collector with buffer := state.collector.buffer.push event }
            pending := state.pending.eraseIdx call }
      | _ => none
  | .snapshot => some state

def recordCalls (_ : State) (calls : ℕ) : Access → ℕ
  | .countOperation _ => calls + 1
  | _ => calls

/-- The counter is right, and covers what the buffer has. -/
def Counts (state : State × ℕ) : Prop :=
  state.1.collector.totalOperations = state.2 ∧
    state.1.collector.eventCount ≤ state.1.collector.totalOperations

/-- Every buffered event, and every call in progress, has been counted. -/
structure Accounted (state : State × ℕ) : Prop where
  totalOps_eq : state.1.collector.totalOps = state.2
  covered : state.1.collector.buffer.len + state.1.pending.length ≤ state.2

theorem Accounted.counts {state : State × ℕ} (haccounted : Accounted state) : Counts state := by
  refine ⟨haccounted.totalOps_eq, ?_⟩
  have hcovered := haccounted.covered
  rw [eventCount, totalOperations, haccounted.totalOps_eq]
  omega

/-- The call is not the one at which the counter starts again. -/
def Fits (state : State × ℕ) : Access → Prop
  | .countOperation _ => state.2 + 1 < 2 ^ 64
  | _ => True

theorem accounted_of_step (state : State × ℕ) (access : Access) (next : State × ℕ)
    (haccounted : Accounted state) (hfits : Fits state access)
    (hstep : recorded step recordCalls state access = some next) : Accounted next := by
  obtain ⟨state, calls⟩ := state
  obtain ⟨after, calls'⟩ := next
  obtain ⟨hnext, rfl⟩ := recorded_eq_some.mp hstep
  obtain ⟨htotal, hcovered⟩ := haccounted
  cases access with
  | countOperation event =>
    obtain rfl := Option.some.inj hnext
    have hfits : calls + 1 < 2 ^ 64 := hfits
    constructor
    · have htotal : state.collector.totalOps = calls := htotal
      simpa only [fetchAdd, recordCalls, htotal] using Nat.mod_eq_of_lt hfits
    · simpa [recordCalls, ← add_assoc] using hcovered
  | countError call =>
    simp only [step] at hnext
    split at hnext
    · obtain rfl := Option.some.inj hnext
      exact ⟨htotal, by simpa [recordCalls] using hcovered⟩
    · contradiction
  | push call =>
    simp only [step] at hnext
    split at hnext
    · rename_i event hcall
      obtain rfl := Option.some.inj hnext
      refine ⟨htotal, ?_⟩
      -- the event moves from the calls in progress to the buffer
      have hlt : call < state.pending.length := (List.getElem?_eq_some_iff.mp hcall).1
      have hpush := state.collector.buffer.len_push_le event
      simp only [recordCalls, List.length_eraseIdx_of_lt hlt]
      simp only at hcovered
      omega
    · contradiction
  | snapshot =>
    obtain rfl := Option.some.inj hnext
    exact ⟨htotal, hcovered⟩

/-- The call at which the counter starts again leaves it wrong. -/
theorem not_counts_of_not_fits (state : State × ℕ) (access : Access)
    (hfits : ¬ Fits state access) :
    ∃ next, recorded step recordCalls state access = some next ∧ ¬ Counts next := by
  cases access with
  | countOperation event =>
    refine ⟨(_, state.2 + 1), recorded_eq_some.mpr ⟨rfl, rfl⟩, fun hcounts ↦ hfits ?_⟩
    have htotal : fetchAdd state.1.collector.totalOps = state.2 + 1 := hcounts.1
    rw [fetchAdd] at htotal
    rw [Fits, ← htotal]
    exact Nat.mod_lt _ (Nat.two_pow_pos 64)
  | countError call => exact absurd trivial hfits
  | push call => exact absurd trivial hfits
  | snapshot => exact absurd trivial hfits

/-- The counter is right all along a run exactly if the run has no call at which the counter starts
again. -/
theorem throughout_counts_iff (capacity : ℕ) (accesses : List Access) :
    Throughout (recorded step recordCalls) Counts (⟨new capacity, []⟩, 0) accesses ↔
      StepsMeet (recorded step recordCalls) Fits (⟨new capacity, []⟩, 0) accesses :=
  throughout_iff_stepsMeet (fun _ ↦ Accounted.counts) accounted_of_step
    (fun state access _ ↦ not_counts_of_not_fits state access) ⟨rfl, Nat.le_refl 0⟩

end AnalyticsCollector

/-! ## The contents and the counter -/

/-- For every capacity: the buffer holds the last events exactly if it has a capacity or nothing is
pushed, and the counter of operations is right exactly until it starts again. -/
theorem contents_and_counter_iff (capacity : ℕ) (ops : List (RingBuffer.Op AnalyticsEvent))
    (accesses : List AnalyticsCollector.Access) :
    (Throughout (recorded RingBuffer.apply RingBuffer.sinceDrain) RingBuffer.HoldsLast
        (.new capacity, []) ops ↔ capacity ≠ 0 ∨ ∀ op ∈ ops, op.pushed? = none) ∧
      (Throughout (recorded AnalyticsCollector.step AnalyticsCollector.recordCalls)
          AnalyticsCollector.Counts (⟨.new capacity, []⟩, 0) accesses ↔
        StepsMeet (recorded AnalyticsCollector.step AnalyticsCollector.recordCalls)
          AnalyticsCollector.Fits (⟨.new capacity, []⟩, 0) accesses) :=
  ⟨RingBuffer.throughout_holdsLast_iff capacity ops,
    AnalyticsCollector.throughout_counts_iff capacity accesses⟩

/-- A buffer that is given no capacity has an event after the first push. -/
theorem not_throughout_holdsLast_of_no_capacity :
    ¬ Throughout (recorded RingBuffer.apply RingBuffer.sinceDrain) RingBuffer.HoldsLast
      (.new 0, []) [.push (⟨.find, "shop", "orders", 2500000, true⟩ : AnalyticsEvent)] := by
  rw [RingBuffer.throughout_holdsLast_iff]
  simp [RingBuffer.Op.pushed?]

end MongoCore.Analytics
