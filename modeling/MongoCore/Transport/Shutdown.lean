import MongoCore.Transport.Batches

/-!
# Graceful shutdown

A connection learns of a shutdown only while it waits for a frame.  It then sends a notice, reads
and discards frames until the client leaves or a time limit passes, and closes.  The responses that
are buffered because a client announced more requests are not written any more, and the frames that
are discarded are neither processed nor answered.

The signal can be sent at any point of a run, and is noticed later if at all.  The main result is
that a connection closes with every request answered if nothing is buffered when the wait for a
frame ends without one, no frame is read after the notice, and no write fails.
-/

namespace MongoCore.Transport.Shutdown

open MongoCore.Data MongoCore.Library.TransitionSystem

/-! ## The signal -/

/-- What happens next: the shutdown signal is sent, or the connection takes a step. -/
inductive SignalEvent where
  | signal
  | connection (event : Event)

def noticesShutdown : Event → Bool
  | .shutdownChanged value _ => value
  | _ => false

/-- A connection together with whether the shutdown signal was sent.  Only a signal that was sent
can be noticed. -/
def signalStep (maxFrameSize : ℕ) : State × Bool → SignalEvent → Option (State × Bool)
  | (s, _), .signal => some (s, true)
  | (s, signalled), .connection event =>
      if noticesShutdown event && !signalled then none
      else (step maxFrameSize s event).map fun next ↦ (next, signalled)

/-- The request frame that a step reads: any frame after the handshake, whether it is processed or
discarded. -/
def frameRead? (maxFrameSize : ℕ) (s : State) : Event → Option Frame
  | .readDone =>
      match readResult maxFrameSize s.held, s.phase with
      | .ok frame, .waiting | .ok frame, .coalescing _ | .ok frame, .draining => some frame
      | _, _ => none
  | _ => none

/-- A record of a run: its journal, and the request frames read before and after the signal. -/
structure SignalRecord where
  journal : Journal := {}
  early : List Frame := []
  late : List Frame := []

def SignalRecord.record (maxFrameSize : ℕ) (s : State × Bool) (kept : SignalRecord) :
    SignalEvent → SignalRecord
  | .signal => kept
  | .connection event =>
      let frames := (frameRead? maxFrameSize s.1 event).toList
      { journal := kept.journal.record maxFrameSize s.1 event
        early := if s.2 then kept.early else kept.early ++ frames
        late := if s.2 then kept.late ++ frames else kept.late }

/-- One recorded step of a connection that can be told to shut down. -/
def recordedSignalStep (maxFrameSize : ℕ) :
    (State × Bool) × SignalRecord → SignalEvent → Option ((State × Bool) × SignalRecord) :=
  recorded (signalStep maxFrameSize) (SignalRecord.record maxFrameSize)

def signalInit : (State × Bool) × SignalRecord := ((State.init, false), {})

/-! ## The promise and its condition -/

/-- The replies to all processed requests were written, in the order of processing, one for each
request that wants one; and the processed requests are all those that were read, before the signal
or after it. -/
structure Settled (s : State) (kept : SignalRecord) : Prop where
  answered : ∀ entry ∈ kept.journal.processed, AnsweredOnce entry
  written : (kept.journal.processed.flatMap repliesOf).Sublist s.written
  processed : (kept.journal.processed.map Prod.fst).Perm (kept.early ++ kept.late)

/-- Once the server has closed the connection, everything is settled. -/
def AnsweredAtClose (t : (State × Bool) × SignalRecord) : Prop :=
  ∀ reason, t.1.1.phase = .finished reason → Settled t.1.1 t.2

/-- No write of a response fails. -/
def WritesSucceed : Event → Prop
  | .greet _ writeOk => writeOk = true
  | .process _ failAt flushOk => failAt = none ∧ flushOk = true
  | _ => True

instance : DecidablePred WritesSucceed := fun event ↦ by
  induction event using Event.casesOn <;> unfold WritesSucceed <;> infer_instance

/-- The step ends the wait for a frame without one: a shutdown is noticed, the stream ends, or the
frame is rejected. -/
def endsWait (maxFrameSize : ℕ) (s : State) : Event → Bool
  | .shutdownChanged value _ => value
  | .readEof => true
  | .readDone => !(readResult maxFrameSize s.held).isOk
  | _ => false

/-- No write fails, nothing is buffered when the wait for a frame ends without one, and no frame is
read after the notice. -/
def ClosesCleanly (maxFrameSize : ℕ) (s : State) (event : Event) : Prop :=
  WritesSucceed event ∧
    (s.phase = .waiting → endsWait maxFrameSize s event = true → s.pendingResponses = []) ∧
    (s.phase = .draining → frameRead? maxFrameSize s event = none)

instance (maxFrameSize : ℕ) (s : State) (event : Event) :
    Decidable (ClosesCleanly maxFrameSize s event) :=
  inferInstanceAs (Decidable (_ ∧ _ ∧ _))

def OnConnection (condition : State → Event → Prop) (s : (State × Bool) × SignalRecord) :
    SignalEvent → Prop
  | .signal => True
  | .connection event => condition s.1.1 event

instance (condition : State → Event → Prop) [∀ s event, Decidable (condition s event)]
    (s : (State × Bool) × SignalRecord) (event : SignalEvent) :
    Decidable (OnConnection condition s event) := by
  unfold OnConnection
  split <;> infer_instance

/-- A weaker condition on the steps of the connection. -/
theorem OnConnection.imp {condition other : State → Event → Prop}
    {s : (State × Bool) × SignalRecord} {event : SignalEvent} (h : OnConnection condition s event)
    (hweaker : ∀ s event, condition s event → other s event) : OnConnection other s event := by
  cases event with
  | signal => exact trivial
  | connection event => exact hweaker s.1.1 event h

/-! ## What is recorded -/

variable {maxFrameSize : ℕ} {s s' : State} {event : Event}

/-- In the loop, the frames read are those that the journal has as received. -/
theorem received_record (journal : Journal) (hrunning : s.phase ≠ .draining) :
    (journal.record maxFrameSize s event).received =
      journal.received ++ (frameRead? maxFrameSize s event).toList := by
  cases event with
  | readDone =>
    unfold Journal.record frameRead?
    cases readResult maxFrameSize s.held with
    | error error => simp
    | ok frame => cases hphase : s.phase <;> simp_all
  | process outcome failAt flushOk =>
    unfold Journal.record frameRead?
    cases s.phase <;> simp
  | _ => simp [Journal.record, frameRead?]

/-- Once the loop is over, nothing is processed. -/
theorem processed_record_of_isOver (journal : Journal) (hover : s.phase.isOver = true) :
    (journal.record maxFrameSize s event).processed = journal.processed := by
  cases event with
  | readDone =>
    unfold Journal.record
    cases readResult maxFrameSize s.held with
    | error error => rfl
    | ok frame => cases hphase : s.phase <;> simp_all [Phase.isOver]
  | process outcome failAt flushOk =>
    unfold Journal.record
    cases hphase : s.phase <;> simp_all [Phase.isOver]
  | _ => rfl

/-- Once the loop is over, nothing is written. -/
theorem written_of_isOver (hover : s.phase.isOver = true)
    (hstep : step maxFrameSize s event = some s') : s'.written = s.written := by
  have hphase : ∀ phase, s.phase = phase → phase.isOver = true := fun _ heq ↦ heq ▸ hover
  cases stepCase_of_step hstep with
  | readDone hreading hcomplete =>
    cases readResult maxFrameSize s.held with
    | ok frame =>
      rcases State.returnRead_ok hreading frame with
        ⟨-, heq⟩ | ⟨-, heq⟩ | ⟨first, -, heq⟩ | ⟨-, heq⟩ <;> rw [heq]
    | error error =>
      rcases State.returnRead_error hreading error with ⟨reason, heq, -⟩ | ⟨first, -, heq⟩ <;>
        rw [heq]
  | readEof hpending hinbox hclosed =>
    rcases State.endRead_cases hpending.1 with ⟨-, heq⟩ | ⟨first, -, heq⟩ | ⟨-, heq⟩ <;> rw [heq]
  | shutdown writeOk hwaiting => exact absurd (hphase _ hwaiting) (by simp [Phase.isOver])
  | greet frame hgreeting => exact absurd (hphase _ hgreeting) (by simp [Phase.isOver])
  | process frame hprocessing => exact absurd (hphase _ hprocessing) (by simp [Phase.isOver])
  | arrive | close | take | timeout | noShutdown | drainTimeout => rfl

/-- Once the loop is over, frames are read only while the connection drains. -/
theorem frameRead?_of_isOver (hover : s.phase.isOver = true)
    (hclean : ClosesCleanly maxFrameSize s event) : frameRead? maxFrameSize s event = none := by
  cases hphase : s.phase with
  | draining => exact hclean.2.2 hphase
  | finished reason =>
    cases event with
    | readDone =>
      unfold frameRead?
      cases readResult maxFrameSize s.held <;> simp [hphase]
    | _ => rfl
  | _ => simp [hphase, Phase.isOver] at hover

/-! ## The invariant -/

/-- The loop goes on: every frame is accounted for, the frames received are those read before the
signal and after it, and there are none after it unless it was sent. -/
structure Going (s : State × Bool) (kept : SignalRecord) : Prop where
  accounted : Accounted s.1 kept.journal
  received : kept.journal.received = kept.early ++ kept.late
  quiet : s.2 = false → kept.late = []

/-- The loop goes on, or it is over and everything is settled. -/
def Orderly (t : (State × Bool) × SignalRecord) : Prop :=
  (t.1.1.phase.isOver = true ∧ Settled t.1.1 t.2) ∨
    (t.1.1.phase.isOver = false ∧ Going t.1 t.2)

theorem orderly_init : Orderly signalInit :=
  .inr ⟨rfl, { accounted := accounted_init, received := rfl, quiet := fun _ ↦ rfl }⟩

/-- A connection that has nothing in process and nothing buffered is settled. -/
theorem settled_of_accounted {kept : SignalRecord} (h : Accounted s kept.journal)
    (hreceived : kept.journal.received = kept.early ++ kept.late)
    (hrequest : s.phase.request = []) (hpending : s.pendingResponses = []) : Settled s kept where
  answered := h.once.answered
  written := by
    obtain ⟨first, -, hresponses⟩ := h.once.responses
    rw [State.responses, hpending, List.append_nil] at hresponses
    rw [hresponses]
    exact List.sublist_append_right first _
  processed := by
    have hall := h.once.received
    rw [hrequest, h.once.idle hrequest, List.append_nil, List.append_nil, hreceived] at hall
    exact hall

/-- What is settled stays settled when nothing is processed and no frame is read. -/
theorem Settled.of_same {kept kept' : SignalRecord} (h : Settled s kept)
    (hprocessed : kept'.journal.processed = kept.journal.processed)
    (hearly : kept'.early = kept.early) (hlate : kept'.late = kept.late)
    (hwritten : s.written.Sublist s'.written) : Settled s' kept' where
  answered := by
    rw [hprocessed]
    exact h.answered
  written := by
    rw [hprocessed]
    exact h.written.trans hwritten
  processed := by
    rw [hprocessed, hearly, hlate]
    exact h.processed

/-- A step that reads no frame leaves the frames read as they are. -/
theorem record_frames (signalled : Bool) (kept : SignalRecord)
    (hnone : frameRead? maxFrameSize s event = none) :
    (kept.record maxFrameSize (s, signalled) (.connection event)).early = kept.early ∧
      (kept.record maxFrameSize (s, signalled) (.connection event)).late = kept.late := by
  simp [SignalRecord.record, hnone]

/-- The frames received stay those read before the signal and after it. -/
theorem received_frames {signalled : Bool} {kept : SignalRecord} (h : Going (s, signalled) kept) :
    (kept.record maxFrameSize (s, signalled) (.connection event)).journal.received =
      (kept.record maxFrameSize (s, signalled) (.connection event)).early ++
        (kept.record maxFrameSize (s, signalled) (.connection event)).late := by
  simp only [SignalRecord.record]
  rw [received_record _ h.accounted.running, h.received]
  cases signalled with
  | true => simp
  | false => simp [h.quiet rfl]

/-- Before the signal no frame is read after it. -/
theorem quiet_record {kept : SignalRecord} (h : Going (s, false) kept) :
    (kept.record maxFrameSize (s, false) (.connection event)).late = [] := by
  simp [SignalRecord.record, h.quiet rfl]

/-- A step that notices no shutdown and writes what it has to is an uninterrupted one. -/
theorem uninterrupted_of_writesSucceed (hwrites : WritesSucceed event)
    (hnot : noticesShutdown event = false) : Uninterrupted event := by
  cases event with
  | shutdownChanged value writeOk => exact hnot
  | _ => exact hwrites

/-- Nothing is buffered before the loop begins. -/
theorem pendingResponses_of_isGreeting {journal : Journal} (h : Accounted s journal)
    (hgreeting : s.phase.isGreeting = true) : s.pendingResponses = [] :=
  (List.append_eq_nil_iff.mp (h.untouched hgreeting).responses).2

/-- A loop that ends without a shutdown leaves nothing buffered. -/
theorem pendingResponses_of_step {journal : Journal} (h : Accounted s journal)
    (hgoing : s.phase.isOver = false) (hclean : ClosesCleanly maxFrameSize s event)
    (hnot : noticesShutdown event = false) (hstep : step maxFrameSize s event = some s')
    (hover : s'.phase.isOver = true) : s'.pendingResponses = [] := by
  have hwaiting : s.phase = .handshake ∨ s.phase = .waiting → endsWait maxFrameSize s event = true →
      s.pendingResponses = [] := by
    rintro (hphase | hphase) hends
    · exact pendingResponses_of_isGreeting h (by rw [hphase]; rfl)
    · exact hclean.2.1 hphase hends
  cases stepCase_of_step hstep with
  | arrive | close | take | noShutdown => exact absurd (hgoing.symm.trans hover) (by simp)
  | readDone hreading hcomplete =>
    cases hresult : readResult maxFrameSize s.held with
    | ok frame =>
      rw [hresult] at hover
      rcases State.returnRead_ok hreading frame with
        ⟨-, heq⟩ | ⟨-, heq⟩ | ⟨first, hphase, heq⟩ | ⟨hphase, -⟩
      · exact absurd hover (by simp [heq, Phase.isOver])
      · exact absurd hover (by simp [heq, Phase.isOver])
      · exact absurd hover (by simp [heq, hphase, Phase.isOver])
      · exact absurd hphase h.running
    | error error =>
      rw [hresult] at hover
      rcases State.returnRead_error hreading error with ⟨reason, heq, hnone⟩ | ⟨first, -, heq⟩
      · rw [heq]
        refine hwaiting ?_ (by simp [endsWait, hresult, Except.isOk, Except.toBool])
        cases hphase : s.phase <;>
          simp_all [Phase.isReading, Phase.inProcess, Phase.isOver]
      · exact absurd hover (by simp [heq, Phase.isOver])
  | readEof hpending hinbox hclosed =>
    rcases State.endRead_cases hpending.1 with ⟨hphase, heq⟩ | ⟨first, -, heq⟩ | ⟨hphase, -⟩
    · rw [heq]
      exact hwaiting hphase rfl
    · exact absurd hover (by simp [heq, Phase.isOver])
    · exact absurd hphase h.running
  | timeout frame hphase hpending hinbox => exact absurd hover (by simp [Phase.isOver])
  | shutdown writeOk hphase hpending => exact absurd hnot (by simp [noticesShutdown])
  | drainTimeout hphase => exact absurd hphase h.running
  | greet frame hphase greeting writeOk =>
    rw [State.pendingResponses_greet]
    exact pendingResponses_of_isGreeting h (by rw [hphase]; rfl)
  | process frame hphase outcome failAt flushOk =>
    obtain ⟨rfl, rfl⟩ := hclean.1
    rcases (s.advances_processFrame frame outcome none true).phase with
      ⟨hfailed, -⟩ | ⟨hnext, -⟩ | ⟨next, hnext, -⟩
    · exact absurd hfailed (s.phase_processFrame frame outcome)
    · exact absurd hover (by simp [hnext, Phase.isOver])
    · exact absurd hover (by simp [hnext, Phase.isOver])

/-- A step of a connection whose loop is over. -/
theorem settled_step {signalled : Bool} {kept : SignalRecord} (h : Settled s kept)
    (hover : s.phase.isOver = true) (hclean : ClosesCleanly maxFrameSize s event)
    (hstep : step maxFrameSize s event = some s') :
    Settled s' (kept.record maxFrameSize (s, signalled) (.connection event)) := by
  obtain ⟨hearly, hlate⟩ := record_frames signalled kept
    (frameRead?_of_isOver hover hclean)
  refine h.of_same (processed_record_of_isOver _ hover) hearly hlate ?_
  rw [written_of_isOver hover hstep]

/-- A connection that notices a shutdown while nothing is buffered is settled. -/
theorem settled_of_notices {signalled : Bool} {kept : SignalRecord}
    (h : Going (s, signalled) kept) (hnotices : noticesShutdown event = true)
    (hclean : ClosesCleanly maxFrameSize s event) (hstep : step maxFrameSize s event = some s') :
    s'.phase.isOver = true ∧
      Settled s' (kept.record maxFrameSize (s, signalled) (.connection event)) := by
  cases stepCase_of_step hstep with
  | shutdown writeOk hphase hpending =>
    have hbefore : Settled s kept := settled_of_accounted h.accounted h.received
      (by rw [hphase]; rfl) (hclean.2.1 hphase rfl)
    obtain ⟨hearly, hlate⟩ := record_frames signalled kept
      (rfl : frameRead? maxFrameSize s (.shutdownChanged true writeOk) = none)
    exact ⟨rfl, hbefore.of_same rfl hearly hlate (List.sublist_append_left _ _)⟩
  | _ => exact absurd hnotices (by simp [noticesShutdown])

/-- One step of a server that closes cleanly. -/
theorem orderly_step {decode : Bytes → Except String Document} {limit concurrent : UInt32}
    {signalled : Bool} {kept : SignalRecord} (h : Orderly ((s, signalled), kept))
    (hserves : Serves decode limit concurrent s event)
    (hclean : ClosesCleanly maxFrameSize s event) (hstep : step maxFrameSize s event = some s') :
    Orderly ((s', signalled), kept.record maxFrameSize (s, signalled) (.connection event)) := by
  rcases h with ⟨hover, hsettled⟩ | ⟨hgoing, h⟩
  · exact .inl ⟨isOver_step hover hstep, settled_step hsettled hover hclean hstep⟩
  cases hnotices : noticesShutdown event with
  | true => exact .inl (settled_of_notices h hnotices hclean hstep)
  | false =>
    have haccounted := accounted_step h.accounted hserves
      (uninterrupted_of_writesSucceed hclean.1 hnotices) hstep
    have hreceived : (kept.record maxFrameSize (s, signalled) (.connection event)).journal.received =
      _ := received_frames h
    cases hover : s'.phase.isOver with
    | true =>
      refine .inl ⟨hover, settled_of_accounted haccounted hreceived ?_ ?_⟩
      · cases hphase : s'.phase <;> simp_all [Phase.isOver, Phase.request]
      · exact pendingResponses_of_step h.accounted hgoing hclean hnotices hstep hover
    | false =>
      refine .inr ⟨hover, { accounted := haccounted, received := hreceived, quiet := ?_ }⟩
      rintro rfl
      exact quiet_record h

/-- In a run in which nothing is buffered when the wait for a frame ends without one, no frame is
read after the notice and no write fails, every request is answered before the server closes the
connection, wherever the signal comes. -/
theorem answeredAtClose_of_run {decode : Bytes → Except String Document}
    {maxFrameSize maxConcurrent : UInt32} {events : List SignalEvent}
    {t : (State × Bool) × SignalRecord}
    (hmeet : StepsMeet (recordedSignalStep maxFrameSize.toNat)
      (OnConnection fun s event ↦ Serves decode maxFrameSize maxConcurrent s event ∧
        ClosesCleanly maxFrameSize.toNat s event) signalInit events)
    (hrun : run (recordedSignalStep maxFrameSize.toNat) signalInit events = some t) :
    AnsweredAtClose t := by
  have hpreserved : ∀ (s : (State × Bool) × SignalRecord) (event : SignalEvent)
      (next : (State × Bool) × SignalRecord), Orderly s →
      OnConnection (fun s event ↦ Serves decode maxFrameSize maxConcurrent s event ∧
        ClosesCleanly maxFrameSize.toNat s event) s event →
      recordedSignalStep maxFrameSize.toNat s event = some next → Orderly next := by
    rintro ⟨⟨s, signalled⟩, kept⟩ event ⟨⟨s', signalled'⟩, kept'⟩ hs hcondition hstep
    obtain ⟨hsignal, hkept⟩ := recorded_eq_some.mp hstep
    rw [← hkept]
    cases event with
    | signal =>
      obtain ⟨rfl, rfl⟩ := Prod.mk.inj (Option.some.inj hsignal)
      rcases hs with hsettled | ⟨hgoing, hs⟩
      · exact .inl hsettled
      · exact .inr ⟨hgoing, { hs with quiet := by simp }⟩
    | connection event =>
      simp only [signalStep, Option.ite_none_left_eq_some, Option.map_eq_some_iff,
        Prod.mk.injEq] at hsignal
      obtain ⟨-, next, hnext, rfl, rfl⟩ := hsignal
      exact orderly_step hs hcondition.1 hcondition.2 hnext
  intro reason hphase
  rcases invariant_of_run hpreserved orderly_init hmeet hrun with ⟨-, hsettled⟩ | ⟨hgoing, -⟩
  · exact hsettled
  · exact absurd hgoing (by simp [hphase, Phase.isOver])

/-! ## A batch and a late request -/

def connectionEvents (events : List Event) : List SignalEvent := events.map .connection

def shutdownEvents : List SignalEvent :=
  [.signal, .connection (.shutdownChanged true true)]

def answeredRun : List SignalEvent :=
  connectionEvents wholeBatch ++ shutdownEvents ++ connectionEvents [.drainTimeout]

theorem run_answeredRun :
    (run (recordedSignalStep (1024 : UInt32).toNat) signalInit answeredRun).isSome = true ∧
      StepsMeet (recordedSignalStep (1024 : UInt32).toNat) (OnConnection fun s event ↦
        ServesWith (fun _ ↦ .collections []) decodeSlice 1024 16 s event ∧
          ClosesCleanly (1024 : UInt32).toNat s event) signalInit answeredRun := by
  decide +kernel

theorem serves_answeredRun :
    StepsMeet (recordedSignalStep (1024 : UInt32).toNat) (OnConnection fun s event ↦
      Serves decodeSlice 1024 16 s event ∧ ClosesCleanly (1024 : UInt32).toNat s event)
      signalInit answeredRun :=
  run_answeredRun.2.imp fun _ _ h ↦ h.imp fun _ _ h ↦ ⟨h.1.serves, h.2⟩

/-- The batch is answered when the connection closes. -/
theorem answeredAtClose_answeredRun :
    ∃ t, run (recordedSignalStep (1024 : UInt32).toNat) signalInit answeredRun = some t ∧
      AnsweredAtClose t := by
  obtain ⟨t, hrun⟩ := Option.isSome_iff_exists.mp run_answeredRun.1
  exact ⟨t, hrun, answeredAtClose_of_run serves_answeredRun hrun⟩

/-- A request that announces another is executed before the shutdown, the other arrives after the
notice. -/
def batchRun : List SignalEvent :=
  connectionEvents (greetEvents 1024 16 ++ readEvents (batchFrame 2 true .normal) ++
      [.timeout, processEvent (batchFrame 2 true .normal)]) ++
    shutdownEvents ++
    connectionEvents (readEvents (batchFrame 3 false .normal) ++ [.drainTimeout])

/-- What a client and the database see of a connection. -/
structure ShutdownView where
  phase : Phase
  processed : List (Frame × Outcome)
  late : List Frame
  written : List ℕ
  deriving DecidableEq

/-- The phase, the requests processed, those read after the signal, and the request ids of the
frames written. -/
def shutdownView (t : (State × Bool) × SignalRecord) : ShutdownView where
  phase := t.1.1.phase
  processed := t.2.journal.processed
  late := t.2.late
  written := t.1.1.written.map fun frame ↦ frame.header.reqId

theorem run_batchRun :
    (run (recordedSignalStep (1024 : UInt32).toNat) signalInit batchRun).map shutdownView =
        some
          { phase := .finished .shutDown
            processed := [(batchFrame 2 true .normal,
              outcomeOf decodeSlice (batchFrame 2 true .normal) (.collections []))]
            late := [batchFrame 3 false .normal]
            written := [1, 0] } ∧
      StepsMeet (recordedSignalStep (1024 : UInt32).toNat) (OnConnection fun s event ↦
        ServesWith (fun _ ↦ .collections []) decodeSlice 1024 16 s event ∧ WritesSucceed event)
        signalInit batchRun := by
  decide +kernel

theorem serves_batchRun :
    StepsMeet (recordedSignalStep (1024 : UInt32).toNat) (OnConnection fun s event ↦
      Serves decodeSlice 1024 16 s event ∧ WritesSucceed event) signalInit batchRun :=
  run_batchRun.2.imp fun _ _ h ↦ h.imp fun _ _ h ↦ ⟨h.1.serves, h.2⟩

/-- No write fails, but the reply to a request that was executed is not among the frames written
when the connection closes, and a request read after the signal is neither executed nor
answered. -/
theorem batchRun_unanswered :
    ∃ t, run (recordedSignalStep (1024 : UInt32).toNat) signalInit batchRun = some t ∧
      StepsMeet (recordedSignalStep (1024 : UInt32).toNat) (OnConnection fun s event ↦
        Serves decodeSlice 1024 16 s event ∧ WritesSucceed event) signalInit batchRun ∧
      t.1.1.phase = .finished .shutDown ∧
      (∃ entry ∈ t.2.journal.processed, entry.2.isResponse = true ∧
        ∃ reply ∈ repliesOf entry, reply ∉ t.1.1.written) ∧
      (∃ frame ∈ t.2.late, frame ∉ t.2.journal.processed.map Prod.fst ∧
        ∀ reply ∈ t.1.1.written, reply.header.reqId ≠ frame.header.reqId) ∧
      ¬ AnsweredAtClose t := by
  obtain ⟨t, hrun, hview⟩ := Option.map_eq_some_iff.mp run_batchRun.1
  obtain ⟨hphase, hprocessed, hlate, hwritten⟩ := ShutdownView.mk.inj hview
  have hids : ∀ reply ∈ t.1.1.written, reply.header.reqId ∈ [1, 0] :=
    fun reply hreply ↦ hwritten ▸ List.mem_map_of_mem hreply
  have hexecuted : ∃ entry ∈ t.2.journal.processed, entry.2.isResponse = true ∧
      ∃ reply ∈ repliesOf entry, reply ∉ t.1.1.written := by
    obtain ⟨reply, hreplies, hid⟩ := (answeredOnce_outcomeOf decodeSlice
      (batchFrame 2 true .normal) (.collections [])).2 rfl
    refine ⟨_, hprocessed ▸ List.mem_singleton_self _, by decide +kernel, reply,
      hreplies ▸ List.mem_singleton_self reply, fun hreply ↦ ?_⟩
    exact absurd (hid ▸ hids reply hreply) (by decide)
  have hread : ∃ frame ∈ t.2.late, frame ∉ t.2.journal.processed.map Prod.fst ∧
      ∀ reply ∈ t.1.1.written, reply.header.reqId ≠ frame.header.reqId := by
    refine ⟨batchFrame 3 false .normal, hlate ▸ List.mem_singleton_self _, ?_, ?_⟩
    · rw [show t.2.journal.processed = _ from hprocessed]
      decide
    · intro reply hreply hid
      exact absurd (hid ▸ hids reply hreply) (by decide)
  refine ⟨t, hrun, serves_batchRun, hphase, hexecuted, hread, fun hanswered ↦ ?_⟩
  obtain ⟨entry, hentry, -, reply, hreply, hlost⟩ := hexecuted
  have hall := (hanswered _ hphase).written
  exact hlost (hall.subset (List.mem_flatMap.mpr ⟨entry, hentry, hreply⟩))

end MongoCore.Transport.Shutdown
