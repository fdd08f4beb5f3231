import Mathlib.Algebra.BigOperators.Group.List.Basic
import Mathlib.Algebra.GroupWithZero.Nat
import Mathlib.Data.List.Basic
import MongoCore.Library.TransitionSystem

/-!
# Prefetching from a cursor

A background task reads a cursor ahead of its consumer.  It collects the documents in batches and
sends them through a bounded channel.  The end of the channel is the end of the result.

The batches make up the documents that could be read, in every interleaving of the two sides.  The
main result says when the end of the channel means that nothing is missing.
-/

namespace MongoCore.Transport.Prefetch

open MongoCore.Library MongoCore.Library.TransitionSystem

/-! ## Cursors and batches -/

/-- A result of the cursor: the bytes of a document, or a document that does not deserialize. -/
inductive CursorResult where
  | document (bytes : List UInt8)
  | malformed (reason : String)
  deriving DecidableEq

inductive Ending where
  | exhausted
  | failed (reason : String)
  deriving DecidableEq

structure Cursor where
  results : List CursorResult
  ending : Ending

structure PrefetchBatch where
  documents : List (List UInt8)
  totalBytes : ℕ
  deriving DecidableEq

def byteCount (documents : List (List UInt8)) : ℕ := (documents.map List.length).sum

def CursorResult.bytes? : CursorResult → Option (List UInt8)
  | .document bytes => some bytes
  | .malformed _ => none

def documentsOf (results : List CursorResult) : List (List UInt8) :=
  results.filterMap CursorResult.bytes?

def contents (batches : List PrefetchBatch) : List (List UInt8) :=
  batches.flatMap PrefetchBatch.documents

/-! ## The two sides -/

/-- What the background task does: it reads the cursor, or waits for a place in the channel for a
batch.  The loop ends behind the last batch. -/
inductive Phase where
  | reading
  | sending (batch : PrefetchBatch) (last : Bool)
  | finished
  deriving DecidableEq

/-- The background task with what it has read, the channel, and the consumer with the batches that
it got.  The consumer has been told of the end, or has dropped the channel. -/
structure State where
  cursor : List CursorResult
  docs : List (List UInt8)
  totalBytes : ℕ
  phase : Phase
  queue : List PrefetchBatch
  receiving : Bool
  delivered : List PrefetchBatch
  ended : Bool

inductive Event where
  | advance
  | send
  | nextBatch
  | dropReceiver
  deriving DecidableEq

structure Settings where
  batchSize : ℕ
  prefetchAhead : ℕ

def start (cursor : Cursor) : State where
  cursor := cursor.results
  docs := []
  totalBytes := 0
  phase := .reading
  queue := []
  receiving := true
  delivered := []
  ended := false

section Steps

variable (settings : Settings)

/-- The loop reads one result.  An error of the cursor is logged and ends it like its exhaustion. -/
def advance (state : State) : State :=
  match state.cursor with
  | [] =>
      if state.docs.isEmpty then { state with phase := .finished }
      else
        { state with
          docs := []
          phase := .sending ⟨state.docs, state.totalBytes⟩ true }
  | .malformed _ :: results => { state with cursor := results }
  | .document bytes :: results =>
      let docs := state.docs ++ [bytes]
      let totalBytes := state.totalBytes + bytes.length
      if settings.batchSize ≤ docs.length then
        { state with
          cursor := results
          docs := []
          totalBytes := totalBytes
          phase := .sending ⟨docs, totalBytes⟩ false }
      else { state with cursor := results, docs := docs, totalBytes := totalBytes }

def sent (state : State) (batch : PrefetchBatch) (last : Bool) : State :=
  { state with
    queue := state.queue ++ [batch]
    docs := []
    totalBytes := 0
    phase := if last then .finished else .reading }

/-- A step of the task or of the consumer, if it need not wait. -/
def step (state : State) : Event → Option State
  | .advance => if state.phase = .reading then some (advance settings state) else none
  | .send =>
      match state.phase with
      | .sending batch last =>
          if state.receiving = false then some { state with phase := .finished }
          else if state.queue.length < settings.prefetchAhead then some (sent state batch last)
          else none
      | _ => none
  | .nextBatch =>
      if state.receiving = false then none
      else
        match state.queue with
        | batch :: queue =>
            some { state with queue := queue, delivered := state.delivered ++ [batch] }
        | [] => if state.phase = .finished then some { state with ended := true } else none
  | .dropReceiver =>
      if state.receiving = false then none
      else some { state with receiving := false, queue := [] }

end Steps

inductive Step (settings : Settings) (state : State) : Event → State → Prop where
  | advance : state.phase = .reading → Step settings state .advance (advance settings state)
  | stop {batch : PrefetchBatch} {last : Bool} : state.phase = .sending batch last →
      state.receiving = false → Step settings state .send { state with phase := .finished }
  | send {batch : PrefetchBatch} {last : Bool} : state.phase = .sending batch last →
      state.receiving = true → state.queue.length < settings.prefetchAhead →
      Step settings state .send (sent state batch last)
  | deliver {batch : PrefetchBatch} {queue : List PrefetchBatch} : state.receiving = true →
      state.queue = batch :: queue → Step settings state .nextBatch
        { state with queue := queue, delivered := state.delivered ++ [batch] }
  | finish : state.receiving = true → state.queue = [] → state.phase = .finished →
      Step settings state .nextBatch { state with ended := true }
  | dropReceiver : state.receiving = true →
      Step settings state .dropReceiver { state with receiving := false, queue := [] }

theorem Step.of_eq_some {settings : Settings} {state next : State} {event : Event}
    (hstep : step settings state event = some next) : Step settings state event next := by
  cases event with
  | advance =>
    simp only [step, Option.ite_none_right_eq_some, Option.some.injEq] at hstep
    obtain ⟨hreading, rfl⟩ := hstep
    exact .advance hreading
  | send =>
    cases hphase : state.phase with
    | reading => simp [step, hphase] at hstep
    | finished => simp [step, hphase] at hstep
    | sending batch last =>
      simp only [step, hphase] at hstep
      split_ifs at hstep with hclosed hplace
      · exact Option.some.inj hstep ▸ .stop hphase hclosed
      · exact Option.some.inj hstep ▸ .send hphase (by simpa using hclosed) hplace
  | nextBatch =>
    cases hreceiving : state.receiving with
    | false => simp [step, hreceiving] at hstep
    | true =>
      cases hqueue : state.queue with
      | nil =>
        simp only [step, hreceiving, hqueue, Bool.true_eq_false, if_false,
          Option.ite_none_right_eq_some, Option.some.injEq] at hstep
        obtain ⟨hfinished, rfl⟩ := hstep
        simpa only [hreceiving, hqueue] using Step.finish hreceiving hqueue hfinished
      | cons batch queue =>
        simp only [step, hreceiving, hqueue, Bool.true_eq_false, if_false,
          Option.some.injEq] at hstep
        obtain rfl := hstep
        simpa only [hreceiving] using Step.deliver hreceiving hqueue
  | dropReceiver =>
    simp only [step] at hstep
    split_ifs at hstep with hclosed
    exact Option.some.inj hstep ▸ .dropReceiver (by simpa using hclosed)

/-! ## The law -/

/-- A batch has at least one document and at most as many as it may have, and counts their bytes. -/
structure PrefetchBatch.Proper (settings : Settings) (batch : PrefetchBatch) : Prop where
  nonempty : 1 ≤ batch.documents.length
  bounded : batch.documents.length ≤ settings.batchSize
  counted : batch.totalBytes = byteCount batch.documents

def Cursor.Complete (cursor : Cursor) : Prop :=
  cursor.ending = .exhausted ∧ ∀ result ∈ cursor.results, ∃ bytes, result = .document bytes

structure Transparent (settings : Settings) (cursor : Cursor) (state : State) : Prop where
  proper : ∀ batch ∈ state.delivered, batch.Proper settings
  ordered : contents state.delivered <+: documentsOf cursor.results
  complete : state.ended = true → contents state.delivered = documentsOf cursor.results
  honest : state.ended = true → cursor.Complete
  goesOn : state.ended = false → state.receiving = true →
    ∃ event, event ≠ .dropReceiver ∧ (step settings state event).isSome = true

/-! ## Documents on their way -/

/-- The documents that the task has read and not sent. -/
def Phase.held (docs : List (List UInt8)) : Phase → List (List UInt8)
  | .sending batch _ => batch.documents
  | _ => docs

def State.PhaseInv (settings : Settings) (state : State) : Prop :=
  match state.phase with
  | .reading => state.docs.length < settings.batchSize ∧ state.totalBytes = byteCount state.docs
  | .sending batch last => state.docs = [] ∧ batch.Proper settings ∧ (last = true → state.cursor = [])
  | .finished => state.docs = [] ∧ (state.receiving = true → state.cursor = [])

/-- The documents of the cursor are delivered, in the channel, held by the task, or not read. -/
structure Invariant (settings : Settings) (cursor : Cursor) (state : State) : Prop where
  phase : state.PhaseInv settings
  queue : ∀ batch ∈ state.queue, batch.Proper settings
  delivered : ∀ batch ∈ state.delivered, batch.Proper settings
  ordered : contents state.delivered <+: documentsOf cursor.results
  accounts : state.receiving = true →
    contents state.delivered ++ contents state.queue ++ state.phase.held state.docs ++
      documentsOf state.cursor = documentsOf cursor.results
  ended : state.ended = true → contents state.delivered = documentsOf cursor.results ∧
    state.queue = [] ∧ state.phase = .finished

variable {settings : Settings} {cursor : Cursor} {state next : State}

@[simp] theorem byteCount_append (docs more : List (List UInt8)) :
    byteCount (docs ++ more) = byteCount docs + byteCount more := by
  simp [byteCount]

@[simp] theorem contents_append (batches more : List PrefetchBatch) :
    contents (batches ++ more) = contents batches ++ contents more :=
  List.flatMap_append

@[simp] theorem contents_singleton (batch : PrefetchBatch) : contents [batch] = batch.documents := by
  simp [contents]

theorem invariant_start (hsize : 1 ≤ settings.batchSize) :
    Invariant settings cursor (start cursor) where
  phase := ⟨hsize, rfl⟩
  queue := by simp [start]
  delivered := by simp [start]
  ordered := List.nil_prefix
  accounts := fun _ ↦ by simp [start, contents, Phase.held]
  ended := fun h ↦ by cases h

/-! ### Steps -/

/-- The consumer is told of the end when the task has finished. -/
theorem Invariant.not_ended (h : Invariant settings cursor state) (hphase : state.phase ≠ .finished) :
    ¬ state.ended = true := fun hended ↦ hphase (h.ended hended).2.2

theorem Invariant.advance (h : Invariant settings cursor state) (hreading : state.phase = .reading) :
    Invariant settings cursor (advance settings state) := by
  have hended := h.not_ended (by rw [hreading]; decide)
  have hphase := h.phase
  have haccounts := h.accounts
  simp only [State.PhaseInv, hreading] at hphase
  simp only [hreading, Phase.held] at haccounts
  unfold Prefetch.advance
  cases hcursor : state.cursor with
  | nil =>
    rw [hcursor] at haccounts
    simp only
    split_ifs with hempty
    · have hdocs := List.isEmpty_iff.mp hempty
      exact ⟨⟨hdocs, fun _ ↦ rfl⟩, h.queue, h.delivered, h.ordered, haccounts,
        fun h ↦ absurd h hended⟩
    · have hne : state.docs ≠ [] := fun hnil ↦ hempty (List.isEmpty_iff.mpr hnil)
      exact ⟨⟨rfl, ⟨List.length_pos_iff.mpr hne, Nat.le_of_lt hphase.1, hphase.2⟩,
        fun _ ↦ rfl⟩, h.queue, h.delivered, h.ordered, haccounts, fun h ↦ absurd h hended⟩
  | cons result results =>
    cases result with
    | malformed reason =>
      simp only
      refine ⟨?_, h.queue, h.delivered, h.ordered, ?_, fun h ↦ absurd h hended⟩
      · simpa only [State.PhaseInv, hreading] using hphase
      · intro hreceiving
        rw [← haccounts hreceiving, hcursor]
        simp only [hreading, Phase.held, documentsOf, List.filterMap_cons, CursorResult.bytes?]
    | document bytes =>
      have hcount : state.totalBytes + bytes.length = byteCount (state.docs ++ [bytes]) := by
        rw [hphase.2, byteCount_append]
        simp [byteCount]
      have hmoved : state.receiving = true →
          contents state.delivered ++ contents state.queue ++ (state.docs ++ [bytes]) ++
            documentsOf results = documentsOf cursor.results := by
        intro hreceiving
        rw [← haccounts hreceiving, hcursor]
        simp [documentsOf, CursorResult.bytes?]
      simp only
      split_ifs with hfull
      · refine ⟨⟨rfl, ⟨by simp, ?_, hcount⟩, nofun⟩, h.queue, h.delivered, h.ordered, hmoved,
          fun h ↦ absurd h hended⟩
        simp only [List.length_append, List.length_singleton]
        omega
      · refine ⟨?_, h.queue, h.delivered, h.ordered, ?_, fun h ↦ absurd h hended⟩
        · simp only [State.PhaseInv, hreading]
          exact ⟨Nat.lt_of_not_le hfull, hcount⟩
        · simpa only [hreading, Phase.held] using hmoved

theorem Invariant.sent (h : Invariant settings cursor state) {batch : PrefetchBatch} {last : Bool}
    (hsending : state.phase = .sending batch last) :
    Invariant settings cursor (sent state batch last) := by
  have hended := h.not_ended (by rw [hsending]; nofun)
  have hphase := h.phase
  simp only [State.PhaseInv, hsending] at hphase
  obtain ⟨hdocs, hproper, hlast⟩ := hphase
  have haccounts := h.accounts
  simp only [hsending, Phase.held] at haccounts
  refine ⟨?_, ?_, h.delivered, h.ordered, ?_, fun h ↦ absurd h hended⟩
  · cases last with
    | true => exact ⟨rfl, fun _ ↦ hlast rfl⟩
    | false => exact ⟨Nat.lt_of_lt_of_le hproper.nonempty hproper.bounded, rfl⟩
  · intro other hother
    rcases List.mem_append.mp hother with hother | hother
    · exact h.queue other hother
    · exact List.mem_singleton.mp hother ▸ hproper
  · intro hreceiving
    rw [← haccounts hreceiving]
    cases last <;> simp [Prefetch.sent, Phase.held]

theorem Invariant.step (h : Invariant settings cursor state) {event : Event}
    (hstep : Prefetch.step settings state event = some next) : Invariant settings cursor next := by
  have hphase := h.phase
  unfold State.PhaseInv at hphase
  cases Step.of_eq_some hstep with
  | advance hreading => exact h.advance hreading
  | stop hsending hclosed =>
    -- the consumer is gone, and the task ends
    simp only [hsending] at hphase
    exact ⟨⟨hphase.1, fun hopen ↦ by simp [hclosed] at hopen⟩, h.queue, h.delivered, h.ordered,
      fun hopen ↦ by simp [hclosed] at hopen,
      fun hended ↦ ⟨(h.ended hended).1, (h.ended hended).2.1, rfl⟩⟩
  | send hsending => exact h.sent hsending
  | @deliver batch queue hreceiving hqueue =>
    have hmoved : contents (state.delivered ++ [batch]) ++ contents queue ++
        state.phase.held state.docs ++ documentsOf state.cursor = documentsOf cursor.results := by
      rw [← h.accounts hreceiving, hqueue]
      simp [contents]
    refine ⟨h.phase, fun other hother ↦ h.queue other (hqueue ▸ List.mem_cons_of_mem _ hother), ?_,
      ⟨_, by simpa only [List.append_assoc] using hmoved⟩, fun _ ↦ hmoved, fun hended ↦ ?_⟩
    · intro other hother
      rcases List.mem_append.mp hother with hother | hother
      · exact h.delivered other hother
      · exact List.mem_singleton.mp hother ▸ h.queue batch (hqueue ▸ List.mem_cons_self)
    · have hnil := (h.ended hended).2.1
      rw [hqueue] at hnil
      cases hnil
  | finish hreceiving hqueue hfinished =>
    simp only [hfinished] at hphase
    have haccounts := h.accounts hreceiving
    refine ⟨h.phase, h.queue, h.delivered, h.ordered, h.accounts, fun _ ↦ ⟨?_, hqueue, hfinished⟩⟩
    simpa [hqueue, hfinished, Phase.held, hphase.1, hphase.2 hreceiving, contents,
      documentsOf] using haccounts
  | dropReceiver hreceiving =>
    refine ⟨?_, nofun, h.delivered, h.ordered, nofun,
      fun hended ↦ ⟨(h.ended hended).1, rfl, (h.ended hended).2.2⟩⟩
    unfold State.PhaseInv
    cases hcase : state.phase with
    | finished =>
      simp only [hcase] at hphase
      exact ⟨hphase.1, nofun⟩
    | _ => simpa only [hcase] using hphase

/-! ## Runs -/

/-- Until the consumer is told of the end, something can go on. -/
theorem exists_step (hahead : 1 ≤ settings.prefetchAhead) (hreceiving : state.receiving = true) :
    ∃ event, event ≠ .dropReceiver ∧ (step settings state event).isSome = true := by
  cases hphase : state.phase with
  | reading => exact ⟨.advance, by decide, by simp [step, hphase]⟩
  | finished =>
    refine ⟨.nextBatch, by decide, ?_⟩
    cases hqueue : state.queue <;> simp [step, hreceiving, hqueue, hphase]
  | sending batch last =>
    by_cases hplace : state.queue.length < settings.prefetchAhead
    · exact ⟨.send, by decide, by simp [step, hphase, hreceiving, hplace]⟩
    · refine ⟨.nextBatch, by decide, ?_⟩
      cases hqueue : state.queue with
      | nil =>
        rw [hqueue, List.length_nil] at hplace
        omega
      | cons batch queue => simp [step, hreceiving, hqueue]

/-- How many steps of its kind a phase can still take, and lead to. -/
def Phase.weight : Phase → ℕ
  | .reading => 3
  | .sending _ true => 2
  | .sending _ false => 5
  | .finished => 0

/-- How many steps can be left until the consumer is told of the end. -/
def State.left (state : State) : ℕ :=
  3 * state.cursor.length + state.phase.weight + state.queue.length +
    (if state.ended then 0 else 1)

/-- The steps that can be left, and the one with which the consumer goes away. -/
def State.budget (state : State) : ℕ := state.left + (if state.receiving then 1 else 0)

end MongoCore.Transport.Prefetch
