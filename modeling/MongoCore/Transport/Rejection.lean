import MongoCore.Transport.Batches

/-!
# After a rejected frame

A read that rejects a frame has taken its header only, or its header and a payload.  The loop ends
if it rejects a frame while it waits.  The coalescing reads treat an error like a timeout, so the
loop goes on, and what follows the header is read as the next frame.
-/

namespace MongoCore.Transport

open MongoCore.Data MongoCore.Library.TransitionSystem

def CoalescesWhole (maxFrameSize : ℕ) (s : State) : Event → Prop
  | .readDone => s.phase.request ≠ [] → (readResult maxFrameSize s.held).isOk = true
  | _ => True

instance (maxFrameSize : ℕ) (s : State) (event : Event) :
    Decidable (CoalescesWhole maxFrameSize s event) := by
  induction event using Event.casesOn <;> unfold CoalescesWhole <;> infer_instance

/-- After a rejected frame no byte is taken, and no request is received. -/
structure NoResync (journal : Journal) : Prop where
  resumed : journal.resumed = false
  late : journal.late = []

/-- The invariant: a rejected frame has ended the loop. -/
structure Rejecting (t : State) (journal : Journal) : Prop where
  noResync : NoResync journal
  finished : journal.rejected = true → ∃ reason, t.phase = .finished reason

section Steps

variable {maxFrameSize : ℕ} {s s' : State} {journal : Journal}

/-- An ended loop stays ended, and takes no byte. -/
theorem finished_step {event : Event} (h : ∃ reason, s.phase = .finished reason)
    (hstep : step maxFrameSize s event = some s') :
    s'.phase = s.phase ∧ ∀ journal : Journal, journal.record maxFrameSize s event = journal := by
  obtain ⟨reason, hphase⟩ := h
  have hread : s.phase.isReading = false := by rw [hphase]; rfl
  cases stepCase_of_step hstep with
  | arrive | close => exact ⟨rfl, fun journal ↦ rfl⟩
  | take byte inbox hinbox hpending => exact absurd hpending.1 (by simp [hread])
  | readDone hreading => exact absurd hreading (by simp [hread])
  | readEof hpending => exact absurd hpending.1 (by simp [hread])
  | timeout frame hcoalescing => exact absurd hcoalescing (by simp [hphase])
  | shutdown writeOk hwaiting => exact absurd hwaiting (by simp [hphase])
  | noShutdown writeOk hwaiting => exact absurd hwaiting (by simp [hphase])
  | drainTimeout hdraining => exact absurd hdraining (by simp [hphase])
  | greet frame hgreeting => exact absurd hgreeting (by simp [hphase])
  | process frame hprocessing => exact absurd hprocessing (by simp [hphase])

/-- The record of a step before any frame was rejected. -/
theorem noResync_record (h : NoResync journal) (hrejected : journal.rejected = false)
    (event : Event) : NoResync (journal.record maxFrameSize s event) := by
  cases event with
  | take =>
    constructor
    · change (journal.resumed || journal.rejected) = false
      rw [h.resumed, hrejected]
      rfl
    · exact h.late
  | readDone =>
    unfold Journal.record
    dsimp only
    split
    · exact ⟨h.resumed, by simpa [hrejected] using h.late⟩
    · exact ⟨h.resumed, by simpa [hrejected] using h.late⟩
    · exact h
    · exact ⟨h.resumed, h.late⟩
  | process outcome failAt flushOk =>
    unfold Journal.record
    dsimp only
    split
    · exact ⟨h.resumed, h.late⟩
    · exact h
  | _ => exact h

/-- Only a read rejects a frame. -/
theorem rejected_record (hrejected : journal.rejected = false) {event : Event}
    (h : (journal.record maxFrameSize s event).rejected = true) :
    event = .readDone ∧ ∃ error, readResult maxFrameSize s.held = .error error := by
  cases event with
  | readDone =>
    refine ⟨rfl, ?_⟩
    cases hresult : readResult maxFrameSize s.held with
    | ok frame =>
      have hsame : (journal.record maxFrameSize s .readDone).rejected = journal.rejected := by
        unfold Journal.record
        simp only [hresult]
        split <;> simp_all
      exact absurd (hsame.symm.trans h) (by simp [hrejected])
    | error error => exact ⟨error, rfl⟩
  | process outcome failAt flushOk =>
    have hsame : (journal.record maxFrameSize s (.process outcome failAt flushOk)).rejected =
        journal.rejected := by
      unfold Journal.record
      dsimp only
      split <;> rfl
    exact absurd (hsame.symm.trans h) (by simp [hrejected])
  | _ => exact absurd h (by simp [Journal.record, hrejected])

/-- One step of a connection whose coalescing reads reject nothing. -/
theorem rejecting_step {event : Event} (h : Rejecting s journal)
    (hwhole : CoalescesWhole maxFrameSize s event) (hstep : step maxFrameSize s event = some s') :
    Rejecting s' (journal.record maxFrameSize s event) := by
  cases hrejected : journal.rejected with
  | true =>
    have hended := h.finished hrejected
    obtain ⟨hphase, hrecord⟩ := finished_step hended hstep
    rw [hrecord]
    exact ⟨h.noResync, fun _ ↦ by rwa [hphase]⟩
  | false =>
    refine ⟨noResync_record h.noResync hrejected event, fun hafter ↦ ?_⟩
    obtain ⟨rfl, error, herror⟩ := rejected_record hrejected hafter
    cases stepCase_of_step hstep with
    | readDone hreading hcomplete =>
      rw [herror]
      rcases State.returnRead_error hreading error with ⟨reason, heq, -⟩ | ⟨first, hphase, -⟩
      · exact ⟨reason, by rw [heq]⟩
      · have hok := hwhole (by simp [hphase, Phase.request])
        rw [herror] at hok
        exact absurd hok (by simp [Except.isOk, Except.toBool])

end Steps

/-- If no coalescing read rejects a frame, the connection takes no byte after a rejected frame. -/
theorem noResync_of_run {maxFrameSize : ℕ} {events : List Event} {t : State} {journal : Journal}
    (hmeet : StepsMeet (recordedStep maxFrameSize)
      (fun s event ↦ CoalescesWhole maxFrameSize s.1 event) recordedInit events)
    (hrun : run (recordedStep maxFrameSize) recordedInit events = some (t, journal)) :
    NoResync journal := by
  have hpreserved : ∀ (s : State × Journal) (event : Event) (next : State × Journal),
      Rejecting s.1 s.2 → CoalescesWhole maxFrameSize s.1 event →
      recordedStep maxFrameSize s event = some next → Rejecting next.1 next.2 := by
    intro s event next hs hwhole hstep
    obtain ⟨hstep, hjournal⟩ := recorded_eq_some.mp hstep
    rw [← hjournal]
    exact rejecting_step hs hwhole hstep
  have hinit : Rejecting State.init {} := ⟨⟨rfl, rfl⟩, fun hrejected ↦ absurd hrejected (by simp)⟩
  exact (invariant_of_run hpreserved hinit hmeet hrun).noResync

/-! ## A request inside a rejected frame -/

/-- A header with an opcode that there is not, which announces a payload of 25 bytes. -/
def badHeader : Bytes := [0, 0, 0, 31, 0, 0, 0, 0, 0, 9]

/-- The header alone arrives while the loop waits. -/
def rejectedHeader : List Event :=
  greetEvents 1024 16 ++ [.arrive badHeader] ++ List.replicate 10 .take ++ [.readDone]

theorem run_rejectedHeader :
    ((run (recordedStep 1024) recordedInit rejectedHeader).map fun s ↦ s.2.rejected) =
        some true ∧
      StepsMeet (recordedStep 1024) (fun s event ↦ CoalescesWhole 1024 s.1 event) recordedInit
        rejectedHeader := by
  decide +kernel

/-- A frame that is rejected while the loop waits is the last thing read. -/
theorem noResync_rejectedHeader :
    ∃ t journal, run (recordedStep 1024) recordedInit rejectedHeader = some (t, journal) ∧
      journal.rejected = true ∧ NoResync journal := by
  obtain ⟨⟨t, journal⟩, hrun, hrejected⟩ := Option.map_eq_some_iff.mp run_rejectedHeader.1
  exact ⟨t, journal, hrun, hrejected, noResync_of_run run_rejectedHeader.2 hrun⟩

/-- A request and a frame with the bad header arrive together; the payload of the second frame has
the form of a request. -/
def smuggledRequest : List Event :=
  greetEvents 1024 16 ++ readEvents (Segmentation.listCollectionsFrame 2) ++
    [.arrive (badHeader ++ writeFrame (Segmentation.listCollectionsFrame 3))] ++
    List.replicate 10 .take ++
    [.readDone, processEvent (Segmentation.listCollectionsFrame 2)] ++
    List.replicate 25 .take ++
    [.readDone, .timeout, processEvent (Segmentation.listCollectionsFrame 3)]

/-- The frames processed and the frames received after a rejected one. -/
structure RejectionView where
  processed : List Frame
  late : List Frame
  deriving DecidableEq

def rejectionView (s : State × Journal) : RejectionView where
  processed := s.2.processed.map Prod.fst
  late := s.2.late

theorem run_smuggledRequest :
    ((run (recordedStep (1024 : UInt32).toNat) recordedInit smuggledRequest).map rejectionView =
        some ⟨[Segmentation.listCollectionsFrame 2, Segmentation.listCollectionsFrame 3],
          [Segmentation.listCollectionsFrame 3]⟩) ∧
      StepsMeet (recordedStep (1024 : UInt32).toNat) (fun s event ↦
        ServesWith (fun _ ↦ .collections []) decodeSlice 1024 16 s.1 event ∧ Uninterrupted event)
        recordedInit smuggledRequest := by
  decide +kernel

/-- The payload of the rejected frame is executed. -/
theorem smuggledRequest_processed :
    ∃ t journal, run (recordedStep (1024 : UInt32).toNat) recordedInit smuggledRequest =
        some (t, journal) ∧
      StepsMeet (recordedStep (1024 : UInt32).toNat)
        (fun s event ↦ Serves decodeSlice 1024 16 s.1 event ∧ Uninterrupted event)
        recordedInit smuggledRequest ∧
      Segmentation.listCollectionsFrame 3 ∈ journal.processed.map Prod.fst ∧
      ¬ NoResync journal := by
  obtain ⟨⟨t, journal⟩, hrun, hview⟩ := Option.map_eq_some_iff.mp run_smuggledRequest.1
  obtain ⟨hprocessed, hlate⟩ := RejectionView.mk.inj hview
  refine ⟨t, journal, hrun, run_smuggledRequest.2.imp fun _ _ h ↦ ⟨h.1.serves, h.2⟩, ?_,
    fun hnone ↦ ?_⟩
  · have hprocessed : journal.processed.map Prod.fst = _ := hprocessed
    rw [hprocessed]
    simp
  · exact absurd (hlate.symm.trans hnone.late) (by simp)

end MongoCore.Transport
