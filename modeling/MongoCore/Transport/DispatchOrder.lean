import MongoCore.Transport.Batches

/-!
# The order of dispatch

The frames that wait in the queue of a connection are taken by priority, and within a priority in
the order in which they came.  The order of priorities is that of the effective ones: a critical
frame that is not a handshake counts as a high one.

Two things disturb the order.  A frame is taken before the loop reads what else has arrived, so a
more urgent frame that is read then comes later.  And a critical handshake waits in the queue of
the high ones, behind those that came before it.  Where neither happens, no frame waits that is
more urgent than the one that is dispatched.  Within a priority the order is never disturbed.
-/

namespace MongoCore.Transport

open MongoCore.Library.TransitionSystem

/-! ## Urgency -/

def Priority.rank : Priority → ℕ
  | .low => 0
  | .normal => 1
  | .high => 2
  | .critical => 3

/-- How urgent a frame is, by its effective priority. -/
def urgency (frame : Frame) : ℕ := (resolvePriority frame).rank

def ofPriority (priority : Priority) (frames : List Frame) : List Frame :=
  frames.filter fun frame ↦ resolvePriority frame = priority

@[simp]
theorem ofPriority_append (priority : Priority) (frames more : List Frame) :
    ofPriority priority (frames ++ more) = ofPriority priority frames ++ ofPriority priority more :=
  List.filter_append ..

def MostUrgentFirst (frames : List Frame) : Prop :=
  frames.Pairwise fun earlier later ↦ urgency later ≤ urgency earlier

/-! ## The queue -/

/-- Every frame of a queue is in the list of its effective priority. -/
structure PriorityQueue.Leveled (queue : PriorityQueue) : Prop where
  high : ∀ frame ∈ queue.high, resolvePriority frame = .high ∨ resolvePriority frame = .critical
  normal : ∀ frame ∈ queue.normal, resolvePriority frame = .normal
  low : ∀ frame ∈ queue.low, resolvePriority frame = .low

theorem PriorityQueue.leveled_empty : PriorityQueue.Leveled {} :=
  ⟨fun _ h ↦ absurd h List.not_mem_nil, fun _ h ↦ absurd h List.not_mem_nil,
    fun _ h ↦ absurd h List.not_mem_nil⟩

theorem PriorityQueue.Leveled.push {queue : PriorityQueue} (h : queue.Leveled) (frame : Frame) :
    (queue.push frame (resolvePriority frame)).Leveled := by
  have hend : ∀ {frames : List Frame} {P : Frame → Prop}, (∀ other ∈ frames, P other) → P frame →
      ∀ other ∈ frames ++ [frame], P other := by
    intro frames P hframes hframe other hother
    rcases List.mem_append.mp hother with hother | hother
    · exact hframes other hother
    · exact List.mem_singleton.mp hother ▸ hframe
  cases hpriority : resolvePriority frame with
  | high => exact ⟨hend h.high (.inl hpriority), h.normal, h.low⟩
  | critical => exact ⟨hend h.high (.inr hpriority), h.normal, h.low⟩
  | normal => exact ⟨h.high, hend h.normal hpriority, h.low⟩
  | low => exact ⟨h.high, h.normal, hend h.low hpriority⟩

theorem PriorityQueue.Leveled.pop {queue rest : PriorityQueue} {frame : Frame}
    (h : queue.Leveled) (hpop : queue.pop = some (frame, rest)) : rest.Leveled := by
  obtain ⟨hhigh, hnormal, hlow⟩ := h
  unfold PriorityQueue.pop at hpop
  split at hpop
  · obtain ⟨rfl, rfl⟩ := Prod.mk.inj (Option.some.inj hpop)
    exact ⟨fun other hother ↦ hhigh other (List.mem_cons_of_mem _ hother), hnormal, hlow⟩
  · obtain ⟨rfl, rfl⟩ := Prod.mk.inj (Option.some.inj hpop)
    exact ⟨hhigh, fun other hother ↦ hnormal other (List.mem_cons_of_mem _ hother), hlow⟩
  · obtain ⟨rfl, rfl⟩ := Prod.mk.inj (Option.some.inj hpop)
    exact ⟨hhigh, hnormal, fun other hother ↦ hlow other (List.mem_cons_of_mem _ hother)⟩
  · cases hpop

/-- A frame is enqueued before all that are less urgent, and after others; of these only a frame
that a critical one finds among the high ones can be less urgent. -/
theorem PriorityQueue.Leveled.frames_push {queue : PriorityQueue} (h : queue.Leveled)
    (frame : Frame) :
    ∃ before after, queue.frames = before ++ after ∧
      (queue.push frame (resolvePriority frame)).frames = before ++ frame :: after ∧
      (∀ other ∈ after, urgency other < urgency frame) ∧
      ∀ other ∈ before, urgency frame ≤ urgency other ∨
        resolvePriority frame = .critical ∧ other ∈ queue.high := by
  have hframe : urgency frame = (resolvePriority frame).rank := rfl
  have hnormal : ∀ other ∈ queue.normal, urgency other = 1 :=
    fun other hother ↦ congrArg Priority.rank (h.normal other hother)
  have hlow : ∀ other ∈ queue.low, urgency other = 0 :=
    fun other hother ↦ congrArg Priority.rank (h.low other hother)
  have hhigh : ∀ other ∈ queue.high, 2 ≤ urgency other := by
    intro other hother
    rcases h.high other hother with heq | heq <;> simp [urgency, heq, Priority.rank]
  have hbelow : ∀ other ∈ queue.normal ++ queue.low, urgency other < 2 := by
    intro other hother
    rcases List.mem_append.mp hother with hother | hother
    · simp [hnormal other hother]
    · simp [hlow other hother]
  cases hpriority : resolvePriority frame with
  | high =>
    rw [hpriority, Priority.rank] at hframe
    refine ⟨queue.high, queue.normal ++ queue.low, ?_, ?_, hframe ▸ hbelow, fun other hother ↦ ?_⟩
    · rw [PriorityQueue.frames, List.append_assoc]
    · simp [PriorityQueue.frames, PriorityQueue.push]
    · exact .inl (hframe ▸ hhigh other hother)
  | critical =>
    rw [hpriority, Priority.rank] at hframe
    refine ⟨queue.high, queue.normal ++ queue.low, ?_, ?_, fun other hother ↦ ?_,
      fun other hother ↦ .inr ⟨rfl, hother⟩⟩
    · rw [PriorityQueue.frames, List.append_assoc]
    · simp [PriorityQueue.frames, PriorityQueue.push]
    · exact hframe ▸ Nat.lt_succ_of_lt (hbelow other hother)
  | normal =>
    rw [hpriority, Priority.rank] at hframe
    refine ⟨queue.high ++ queue.normal, queue.low, rfl, ?_, fun other hother ↦ ?_,
      fun other hother ↦ .inl ?_⟩
    · simp [PriorityQueue.frames, PriorityQueue.push]
    · rw [hframe, hlow other hother]
      exact Nat.one_pos
    · rcases List.mem_append.mp hother with hother | hother
      · exact hframe ▸ Nat.le_of_succ_le (hhigh other hother)
      · rw [hframe, hnormal other hother]
  | low =>
    rw [hpriority, Priority.rank] at hframe
    refine ⟨queue.frames, [], (List.append_nil _).symm, ?_,
      fun other hother ↦ absurd hother List.not_mem_nil, fun other _ ↦ .inl ?_⟩
    · simp [PriorityQueue.frames, PriorityQueue.push]
    · exact hframe ▸ Nat.zero_le _

/-- Among the frames of one priority, one that is enqueued is the last. -/
theorem PriorityQueue.Leveled.ofPriority_push {queue : PriorityQueue} (h : queue.Leveled)
    (frame : Frame) (priority : Priority) :
    ofPriority priority (queue.push frame (resolvePriority frame)).frames =
      ofPriority priority queue.frames ++ ofPriority priority [frame] := by
  obtain ⟨before, after, hframes, hpush, hafter, -⟩ := h.frames_push frame
  rw [hframes, hpush, List.append_cons, ofPriority_append, ofPriority_append, ofPriority_append,
    List.append_assoc, List.append_assoc]
  congr 1
  by_cases hpriority : resolvePriority frame = priority
  · have hnone : ofPriority priority after = [] := by
      apply List.filter_eq_nil_iff.mpr
      intro other hother heq
      have hless := hafter other hother
      rw [urgency, urgency, hpriority, of_decide_eq_true heq] at hless
      exact absurd hless (Nat.lt_irrefl _)
    rw [hnone, List.nil_append, List.append_nil]
  · have hnone : ofPriority priority [frame] = [] := by simp [ofPriority, hpriority]
    rw [hnone, List.nil_append, List.append_nil]

/-- A frame between others of a sorted list. -/
theorem mostUrgentFirst_insert {before after : List Frame} {frame : Frame}
    (h : MostUrgentFirst (before ++ after)) (hbefore : ∀ other ∈ before, urgency frame ≤ urgency other)
    (hafter : ∀ other ∈ after, urgency other ≤ urgency frame) :
    MostUrgentFirst (before ++ frame :: after) := by
  obtain ⟨hfront, hback, hacross⟩ := List.pairwise_append.mp h
  refine List.pairwise_append.mpr ⟨hfront, List.pairwise_cons.mpr ⟨hafter, hback⟩, ?_⟩
  intro other hother later hlater
  rcases List.mem_cons.mp hlater with rfl | hlater
  · exact hbefore other hother
  · exact hacross other hother later hlater

/-- A frame that is no more urgent than the one in process, and does not find a high frame waiting
if it is critical, keeps the order when it is enqueued. -/
theorem mostUrgentFirst_push {queue : PriorityQueue} (hleveled : queue.Leveled)
    {first frame : Frame} (h : MostUrgentFirst ([first] ++ queue.frames))
    (hfirst : urgency frame ≤ urgency first)
    (hcritical : resolvePriority frame = .critical →
      ∀ waiting ∈ queue.high, resolvePriority waiting = .critical) :
    MostUrgentFirst ([first] ++ (queue.push frame (resolvePriority frame)).frames) := by
  obtain ⟨before, after, hframes, hpush, hafter, hbefore⟩ := hleveled.frames_push frame
  rw [hframes, ← List.append_assoc] at h
  rw [hpush, ← List.append_assoc]
  refine mostUrgentFirst_insert h (fun other hother ↦ ?_) fun other hother ↦
    (hafter other hother).le
  rcases List.mem_append.mp hother with hother | hother
  · exact List.mem_singleton.mp hother ▸ hfirst
  · rcases hbefore other hother with hle | ⟨hframe, hhigh⟩
    · exact hle
    · rw [urgency, urgency, hframe, hcritical hframe other hhigh]

/-! ## The queue at the top of the loop -/

theorem State.leveled_next {s : State} (h : s.queue.Leveled) : s.next.queue.Leveled := by
  unfold next
  cases hpop : s.queue.pop with
  | none => exact h
  | some popped => exact h.pop hpop

theorem State.leveled_flushBatch {s : State} (h : s.queue.Leveled) (last : Frame)
    (failAt : Option ℕ) (flushOk : Bool) : (s.flushBatch last failAt flushOk).queue.Leveled := by
  unfold flushBatch
  dsimp only
  split_ifs
  · exact State.leveled_next h
  · exact h

theorem State.leveled_flushPending {s : State} (h : s.queue.Leveled) (failAt : Option ℕ)
    (flushOk : Bool) : (s.flushPending failAt flushOk).queue.Leveled := by
  unfold flushPending
  dsimp only
  split_ifs
  · exact State.leveled_next h
  · exact State.leveled_next h
  · exact h

theorem State.leveled_answer {s : State} (h : s.queue.Leveled) (request : Frame)
    (reply? : Option Frame) (failAt : Option ℕ) (flushOk : Bool) :
    (s.answer request reply? failAt flushOk).queue.Leveled := by
  unfold answer
  cases reply? with
  | none => exact State.leveled_next h
  | some reply =>
    dsimp only
    split_ifs
    · exact State.leveled_next h
    · exact State.leveled_flushBatch h reply failAt flushOk

theorem State.leveled_processFrame {s : State} (h : s.queue.Leveled) (frame : Frame)
    (outcome : Outcome) (failAt : Option ℕ) (flushOk : Bool) :
    (s.processFrame frame outcome failAt flushOk).queue.Leveled := by
  unfold processFrame
  by_cases hreply : frame.header.flags.noReply = true
  · simp only [if_pos hreply]
    cases outcome with
    | invalidEnvelope error => exact State.leveled_next h
    | response isError encoded fallback =>
      dsimp only
      split_ifs
      · exact State.leveled_next h
      · exact State.leveled_flushPending (s := { s with handed := s.handed ++ [frame] }) h _ _
  · simp only [if_neg hreply]
    exact State.leveled_answer (s := { s with handed := s.handed ++ [frame] }) h _ _ _ _

theorem State.leveled_greet {s : State} (h : s.queue.Leveled) (frame : Frame)
    (greeting : Greeting) (writeOk : Bool) : (s.greet frame greeting writeOk).queue.Leveled := by
  unfold greet
  cases greeting with
  | refused error => exact h
  | accepted encoded =>
    cases encoded with
    | none => exact h
    | some encoded =>
      by_cases hopcode : frame.header.flags.opcode = .handshake
      · cases writeOk with
        | false => simpa [hopcode] using h
        | true =>
          simp only [hopcode, ne_eq, not_true_eq_false, if_false, if_true]
          exact State.leveled_next h
      · simpa [hopcode] using h

/-! ## The promise and its condition -/

/-- The frame that is dispatched before anything else is read. -/
def Phase.dispatched : Phase → List Frame
  | .greeting frame | .processing frame => [frame]
  | _ => []

/-- No frame waits that is more urgent than the one that is dispatched. -/
def PriorityOrder (s : State) : Prop :=
  ∀ frame ∈ s.phase.dispatched, ∀ waiting ∈ s.queue.frames, urgency waiting ≤ urgency frame

/-- Frames of one priority are dispatched in the order in which they were received. -/
def ArrivalOrder (journal : Journal) : Prop :=
  ∀ priority, ofPriority priority (journal.processed.map Prod.fst) <+:
    ofPriority priority journal.received

/-- A read that returns a frame while another one is taken already returns one that is no more
urgent, and a critical one only if no high one waits. -/
def NothingOvertakes (maxFrameSize : ℕ) (s : State × Journal) : Event → Prop
  | .readDone =>
      match s.1.phase, readResult maxFrameSize s.1.held with
      | .coalescing first, .ok extra => urgency extra ≤ urgency first ∧
          (resolvePriority extra = .critical →
            ∀ waiting ∈ s.1.queue.high, resolvePriority waiting = .critical)
      | _, _ => True
  | _ => True

instance (maxFrameSize : ℕ) (s : State × Journal) (event : Event) :
    Decidable (NothingOvertakes maxFrameSize s event) := by
  induction event using Event.casesOn
  case readDone =>
    dsimp only [NothingOvertakes]
    split <;> infer_instance
  all_goals exact isTrue trivial

/-! ## Steps -/

/-- The invariant of the arrivals: the frames processed, in process and waiting are, of each
priority, those received, in their order.  Before a frame is taken nothing waits. -/
structure InArrivalOrder (s : State) (journal : Journal) : Prop where
  leveled : s.queue.Leveled
  idle : s.phase.isOver = false → s.phase.request = [] → s.queue.frames = []
  waiting : s.phase.isOver = false → ∀ priority, ofPriority priority
    (journal.processed.map Prod.fst ++ (s.phase.request ++ s.queue.frames)) =
      ofPriority priority journal.received
  dispatched : ArrivalOrder journal

section Steps

variable {s s' : State} {journal journal' : Journal}

theorem arrivalOrder_of_waiting {waiting : List Frame}
    (h : ∀ priority, ofPriority priority (journal.processed.map Prod.fst ++ waiting) =
      ofPriority priority journal.received) : ArrivalOrder journal := by
  intro priority
  rw [← h priority, ofPriority_append]
  exact List.prefix_append _ _

/-- A step at whose end the loop goes on. -/
theorem InArrivalOrder.of_going (hleveled : s.queue.Leveled)
    (hidle : s.phase.request = [] → s.queue.frames = [])
    (hwaiting : ∀ priority, ofPriority priority
      (journal.processed.map Prod.fst ++ (s.phase.request ++ s.queue.frames)) =
        ofPriority priority journal.received) : InArrivalOrder s journal :=
  ⟨hleveled, fun _ ↦ hidle, fun _ ↦ hwaiting, arrivalOrder_of_waiting hwaiting⟩

/-- A step at whose end the loop is over. -/
theorem InArrivalOrder.of_over (h : InArrivalOrder s journal) (hover : s'.phase.isOver = true)
    (hqueue : s'.queue = s.queue) (hprocessed : journal'.processed = journal.processed)
    (hreceived : journal'.received = journal.received) : InArrivalOrder s' journal' where
  leveled := hqueue ▸ h.leveled
  idle hgoing := absurd hover (by simp [hgoing])
  waiting hgoing := absurd hover (by simp [hgoing])
  dispatched := by
    intro priority
    rw [hprocessed, hreceived]
    exact h.dispatched priority

/-- A step that moves no frame. -/
theorem InArrivalOrder.of_same (h : InArrivalOrder s journal)
    (hover : s'.phase.isOver = s.phase.isOver) (hrequest : s'.phase.request = s.phase.request)
    (hqueue : s'.queue = s.queue) (hprocessed : journal'.processed = journal.processed)
    (hreceived : journal'.received = journal.received) : InArrivalOrder s' journal' where
  leveled := hqueue ▸ h.leveled
  idle := by
    rw [hover, hrequest, hqueue]
    exact h.idle
  waiting := by
    rw [hover, hrequest, hqueue, hprocessed, hreceived]
    exact h.waiting
  dispatched := by
    intro priority
    rw [hprocessed, hreceived]
    exact h.dispatched priority

/-- A step that dispatches the frame in process and goes back to the top of the loop. -/
theorem InArrivalOrder.of_advances (h : InArrivalOrder s journal)
    (hgoing : s.phase.isOver = false) (hleveled : s'.queue.Leveled)
    (hframes : s'.phase.request ++ s'.queue.frames = s.queue.frames)
    (hidle : s'.phase.isOver = false → s'.phase.request = [] → s'.queue.frames = [])
    (hprocessed : journal'.processed.map Prod.fst =
      journal.processed.map Prod.fst ++ s.phase.request)
    (hreceived : journal'.received = journal.received) : InArrivalOrder s' journal' := by
  have hwaiting : ∀ priority, ofPriority priority
      (journal'.processed.map Prod.fst ++ (s'.phase.request ++ s'.queue.frames)) =
        ofPriority priority journal'.received := by
    intro priority
    rw [hprocessed, hframes, hreceived, List.append_assoc]
    exact h.waiting hgoing priority
  exact ⟨hleveled, hidle, fun _ ↦ hwaiting, arrivalOrder_of_waiting hwaiting⟩

/-- At the top of the loop nothing waits unless a frame was taken. -/
theorem idle_of_advances (h : s.Advances s') (hgoing : s'.phase.isOver = false)
    (hrequest : s'.phase.request = []) : s'.queue.frames = [] := by
  rcases h.phase with ⟨hphase, -⟩ | ⟨-, -, hempty⟩ | ⟨frame, hphase, -⟩
  · exact absurd hgoing (by simp [hphase, Phase.isOver])
  · exact hempty
  · exact absurd hrequest (by simp [hphase, Phase.request])

/-- A read that returns. -/
theorem inArrivalOrder_returnRead {maxFrameSize : ℕ} (h : InArrivalOrder s journal)
    (hreading : s.phase.isReading = true) :
    InArrivalOrder (s.returnRead (readResult maxFrameSize s.held))
      (journal.record maxFrameSize s .readDone) := by
  cases hresult : readResult maxFrameSize s.held with
  | error error =>
    have hjournal : journal.record maxFrameSize s .readDone = { journal with rejected := true } := by
      simp only [Journal.record, hresult]
    rw [hjournal]
    rcases State.returnRead_error hreading error with ⟨reason, heq, -⟩ | ⟨first, hphase, heq⟩
    · rw [heq]
      exact h.of_over rfl rfl rfl rfl
    · rw [heq]
      exact h.of_same (by rw [hphase]; rfl) (by rw [hphase]; rfl) rfl rfl rfl
  | ok frame =>
    rcases State.returnRead_ok hreading frame with
      ⟨hphase, heq⟩ | ⟨hphase, heq⟩ | ⟨first, hphase, heq⟩ | ⟨hphase, heq⟩
    · have hjournal : journal.record maxFrameSize s .readDone = journal := by
        simp only [Journal.record, hresult, hphase]
      rw [heq, hjournal]
      exact h.of_same (by rw [hphase]; rfl) (by rw [hphase]; rfl) rfl rfl rfl
    · obtain ⟨hreceived, hprocessed⟩ := record_readDone journal hresult (.inl hphase)
      have hempty : s.queue.frames = [] := h.idle (by rw [hphase]; rfl) (by rw [hphase]; rfl)
      rw [heq]
      refine .of_going h.leveled (fun hnone ↦ absurd hnone (by simp [Phase.request]))
        fun priority ↦ ?_
      have hrequest : s.phase.request = [] := by
        rw [hphase]
        rfl
      have hold := h.waiting (by rw [hphase]; rfl) priority
      rw [hrequest, hempty, List.nil_append, List.append_nil] at hold
      rw [hreceived, hprocessed, hempty, Phase.request, List.append_nil, ofPriority_append,
        ofPriority_append, hold]
    · obtain ⟨hreceived, hprocessed⟩ := record_readDone journal hresult (.inr ⟨first, hphase⟩)
      rw [heq]
      refine .of_going (h.leveled.push frame)
        (fun hnone ↦ absurd hnone (by simp [Phase.request, hphase])) fun priority ↦ ?_
      have hold := h.waiting (by rw [hphase]; rfl) priority
      rw [hreceived, hprocessed, ofPriority_append, ofPriority_append,
        h.leveled.ofPriority_push, ← List.append_assoc, ← List.append_assoc, ofPriority_append,
        ← hold, ofPriority_append, ofPriority_append, ← List.append_assoc]
    · have hjournal : journal.record maxFrameSize s .readDone = journal := by
        simp only [Journal.record, hresult, hphase]
      rw [heq, hjournal]
      exact h.of_same rfl rfl rfl rfl rfl

/-- Every step keeps the frames of a priority in the order of their arrival. -/
theorem inArrivalOrder_step {maxFrameSize : ℕ} {event : Event} (h : InArrivalOrder s journal)
    (hstep : step maxFrameSize s event = some s') :
    InArrivalOrder s' (journal.record maxFrameSize s event) := by
  cases stepCase_of_step hstep with
  | readDone hreading hcomplete => exact inArrivalOrder_returnRead h hreading
  | readEof hpending hinbox hclosed =>
    rcases State.endRead_cases hpending.1 with ⟨-, heq⟩ | ⟨first, hphase, heq⟩ | ⟨-, heq⟩
    · rw [heq]
      exact h.of_over rfl rfl rfl rfl
    · rw [heq]
      exact h.of_same (by rw [hphase]; rfl) (by rw [hphase]; rfl) rfl rfl rfl
    · rw [heq]
      exact h.of_over rfl rfl rfl rfl
  | timeout frame hphase => exact h.of_same (by rw [hphase]; rfl) (by rw [hphase]; rfl) rfl rfl rfl
  | greet frame hphase greeting writeOk =>
    rcases s.greet_cases frame greeting writeOk with
      ⟨reason, hfinished, -, -, -, -, hqueue, -⟩ | hadvances
    · exact h.of_over (by rw [hfinished]; rfl) hqueue rfl rfl
    · have hframes := request_of_advances hadvances
      have hrequest : s.phase.request = [] := by
        rw [hphase]
        rfl
      apply h.of_advances (by rw [hphase]; rfl) (State.leveled_greet h.leveled _ _ _) hframes
        (idle_of_advances hadvances) _ rfl
      rw [hrequest, List.append_nil]
  | process frame hphase outcome failAt flushOk =>
    have hadvances := s.advances_processFrame frame outcome failAt flushOk
    have hframes := request_of_advances hadvances
    rw [record_process hphase]
    refine h.of_advances (by rw [hphase]; rfl) (State.leveled_processFrame h.leveled _ _ _ _)
      hframes (idle_of_advances hadvances) ?_ rfl
    rw [hphase, Phase.request, List.map_append]
    rfl
  | shutdown | drainTimeout => exact h.of_over rfl rfl rfl rfl
  | arrive | close | take | noShutdown => exact h.of_same rfl rfl rfl rfl rfl

/-- The invariant of the priorities: the frame in process and those that wait are sorted. -/
def InPriorityOrder (s : State) : Prop := MostUrgentFirst (s.phase.request ++ s.queue.frames)

/-- A step at whose end fewer frames wait. -/
theorem InPriorityOrder.of_sublist (h : InPriorityOrder s)
    (hsublist : (s'.phase.request ++ s'.queue.frames).Sublist
      (s.phase.request ++ s.queue.frames)) : InPriorityOrder s' :=
  h.sublist hsublist

/-- A step that moves no frame. -/
theorem InPriorityOrder.of_same (h : InPriorityOrder s)
    (hrequest : s'.phase.request = s.phase.request) (hqueue : s'.queue = s.queue) :
    InPriorityOrder s' := by
  apply h.of_sublist
  rw [hrequest, hqueue]

/-- A step at whose end no frame is in process. -/
theorem InPriorityOrder.of_none (h : InPriorityOrder s) (hrequest : s'.phase.request = [])
    (hqueue : s'.queue = s.queue) : InPriorityOrder s' := by
  apply h.of_sublist
  rw [hrequest, hqueue]
  exact List.sublist_append_right _ _

/-- A step that goes back to the top of the loop. -/
theorem InPriorityOrder.of_advances (h : InPriorityOrder s)
    (hframes : s'.phase.request ++ s'.queue.frames = s.queue.frames) : InPriorityOrder s' := by
  apply h.of_sublist
  rw [hframes]
  exact List.sublist_append_right _ _

/-- Where nothing overtakes, every step keeps the frames sorted. -/
theorem inPriorityOrder_step {maxFrameSize : ℕ} {event : Event} (hpriority : InPriorityOrder s)
    (harrival : InArrivalOrder s journal)
    (hcondition : NothingOvertakes maxFrameSize (s, journal) event)
    (hstep : step maxFrameSize s event = some s') : InPriorityOrder s' := by
  cases stepCase_of_step hstep with
  | readDone hreading hcomplete =>
    cases hresult : readResult maxFrameSize s.held with
    | error error =>
      rcases State.returnRead_error hreading error with ⟨reason, heq, -⟩ | ⟨first, hphase, heq⟩
      · rw [heq]
        exact hpriority.of_none rfl rfl
      · rw [heq]
        exact hpriority.of_same (by rw [hphase]; rfl) rfl
    | ok frame =>
      rcases State.returnRead_ok hreading frame with
        ⟨hphase, heq⟩ | ⟨hphase, heq⟩ | ⟨first, hphase, heq⟩ | ⟨hphase, heq⟩
      · rw [heq]
        exact hpriority.of_none rfl rfl
      · have hempty : s.queue.frames = [] :=
          harrival.idle (by rw [hphase]; rfl) (by rw [hphase]; rfl)
        rw [heq, InPriorityOrder, hempty]
        exact List.pairwise_singleton _ _
      · simp only [NothingOvertakes, hphase, hresult] at hcondition
        rw [InPriorityOrder, hphase] at hpriority
        rw [heq, InPriorityOrder, hphase]
        exact mostUrgentFirst_push harrival.leveled hpriority hcondition.1 hcondition.2
      · rw [heq]
        exact hpriority.of_same rfl rfl
  | readEof hpending hinbox hclosed =>
    rcases State.endRead_cases hpending.1 with ⟨-, heq⟩ | ⟨first, hphase, heq⟩ | ⟨-, heq⟩
    · rw [heq]
      exact hpriority.of_none rfl rfl
    · rw [heq]
      exact hpriority.of_same (by rw [hphase]; rfl) rfl
    · rw [heq]
      exact hpriority.of_none rfl rfl
  | timeout frame hphase => exact hpriority.of_same (by rw [hphase]; rfl) rfl
  | greet frame hphase greeting writeOk =>
    rcases s.greet_cases frame greeting writeOk with
      ⟨reason, hfinished, -, -, -, -, hqueue, -⟩ | hadvances
    · exact hpriority.of_none (by rw [hfinished]; rfl) hqueue
    · have hframes := request_of_advances hadvances
      exact hpriority.of_advances hframes
  | process frame hphase outcome failAt flushOk =>
    have hframes := request_of_advances (s.advances_processFrame frame outcome failAt flushOk)
    exact hpriority.of_advances hframes
  | shutdown | drainTimeout => exact hpriority.of_none rfl rfl
  | arrive | close | take | noShutdown => exact hpriority.of_same rfl rfl

/-- A frame that is dispatched is the first of a sorted list, or alone. -/
theorem priorityOrder_of_sorted (hpriority : InPriorityOrder s)
    (harrival : InArrivalOrder s journal) : PriorityOrder s := by
  intro frame hframe waiting hwaiting
  cases hphase : s.phase with
  | greeting first =>
    have hempty : s.queue.frames = [] :=
      harrival.idle (by rw [hphase]; rfl) (by rw [hphase]; rfl)
    rw [hempty] at hwaiting
    exact absurd hwaiting List.not_mem_nil
  | processing first =>
    rw [hphase] at hframe
    obtain rfl := List.mem_singleton.mp hframe
    rw [InPriorityOrder, hphase] at hpriority
    exact (List.pairwise_cons.mp hpriority).1 waiting hwaiting
  | _ =>
    rw [hphase] at hframe
    exact absurd hframe List.not_mem_nil

end Steps

/-! ## Runs -/

theorem inArrivalOrder_init : InArrivalOrder State.init {} :=
  .of_going PriorityQueue.leveled_empty (fun _ ↦ rfl) fun _ ↦ rfl

/-- In every run the frames of a priority are dispatched in the order in which they were received.
In a run in which nothing overtakes, no frame waits that is more urgent than the one that is
dispatched. -/
theorem dispatchOrder_throughout (maxFrameSize : ℕ) (events : List Event) :
    Throughout (recordedStep maxFrameSize) (fun t ↦ ArrivalOrder t.2) recordedInit events ∧
      (StepsMeet (recordedStep maxFrameSize) (NothingOvertakes maxFrameSize) recordedInit events →
        Throughout (recordedStep maxFrameSize) (fun t ↦ PriorityOrder t.1) recordedInit
          events) := by
  have harrival : ∀ (s : State × Journal) (event : Event) (next : State × Journal),
      InArrivalOrder s.1 s.2 → True → recordedStep maxFrameSize s event = some next →
      InArrivalOrder next.1 next.2 := by
    intro s event next hs _ hstep
    obtain ⟨hstep, hjournal⟩ := recorded_eq_some.mp hstep
    rw [← hjournal]
    exact inArrivalOrder_step hs hstep
  have hboth : ∀ (s : State × Journal) (event : Event) (next : State × Journal),
      InArrivalOrder s.1 s.2 ∧ InPriorityOrder s.1 → NothingOvertakes maxFrameSize s event →
      recordedStep maxFrameSize s event = some next →
      InArrivalOrder next.1 next.2 ∧ InPriorityOrder next.1 := by
    intro s event next hs hcondition hstep
    refine ⟨harrival s event next hs.1 trivial hstep, ?_⟩
    exact inPriorityOrder_step hs.2 hs.1 hcondition (recorded_eq_some.mp hstep).1
  constructor
  · apply throughout_of_stepsMeet (fun s hs ↦ hs.dispatched) harrival inArrivalOrder_init
    exact .of_forall fun _ _ _ ↦ trivial
  · intro hmeet
    exact throughout_of_stepsMeet (fun s hs ↦ priorityOrder_of_sorted hs.2 hs.1) hboth
      ⟨inArrivalOrder_init, List.Pairwise.nil⟩ hmeet

/-- After the handshake frames arrive together, and the first one is dispatched. -/
def readTogether (frames : List Frame) : List Event :=
  greetEvents 1024 16 ++ frames.flatMap readEvents ++ [.timeout]

def criticalHandshake (reqId : ℕ) : Frame :=
  let frame := Segmentation.handshakeFrame
  { frame with header := { frame.header with
      flags := { frame.header.flags with priority := .critical }, reqId := reqId } }

/-- A high request, and then a normal and a low one. -/
theorem priorityOrder_readTogether :
    StepsMeet (recordedStep 1024) (NothingOvertakes 1024) recordedInit
        (readTogether [batchFrame 2 false .high, batchFrame 3 false .normal,
          batchFrame 4 false .low]) ∧
      Throughout (recordedStep 1024) (fun t ↦ PriorityOrder t.1) recordedInit
        (readTogether [batchFrame 2 false .high, batchFrame 3 false .normal,
          batchFrame 4 false .low]) := by
  have hmeet : StepsMeet (recordedStep 1024) (NothingOvertakes 1024) recordedInit
      (readTogether [batchFrame 2 false .high, batchFrame 3 false .normal,
        batchFrame 4 false .low]) := by
    decide +kernel
  exact ⟨hmeet, (dispatchOrder_throughout 1024 _).2 hmeet⟩

instance (s : State) : Decidable (PriorityOrder s) :=
  inferInstanceAs (Decidable (∀ frame ∈ s.phase.dispatched, ∀ waiting ∈ s.queue.frames,
    urgency waiting ≤ urgency frame))

/-- A run loses the order of the priorities if its last state does not have it. -/
theorem not_throughout_of_last {maxFrameSize : ℕ} {events : List Event}
    (h : (run (recordedStep maxFrameSize) recordedInit events).map
      (fun t ↦ decide (PriorityOrder t.1)) = some false) :
    ¬ Throughout (recordedStep maxFrameSize) (fun t ↦ PriorityOrder t.1) recordedInit events := by
  intro hthroughout
  obtain ⟨t, hrun, hlost⟩ := Option.map_eq_some_iff.mp h
  have horder := hthroughout events [] (List.append_nil _).symm t hrun
  exact of_decide_eq_false hlost horder

/-- A low request is dispatched while a high one waits, and a high one while a critical handshake
waits. -/
theorem not_priorityOrder_readTogether :
    ¬ Throughout (recordedStep 1024) (fun t ↦ PriorityOrder t.1) recordedInit
        (readTogether [batchFrame 2 false .low, batchFrame 3 false .high]) ∧
      ¬ Throughout (recordedStep 1024) (fun t ↦ PriorityOrder t.1) recordedInit
        (readTogether [criticalHandshake 2, batchFrame 3 false .high, criticalHandshake 4] ++
          [processEvent (criticalHandshake 2), .timeout]) :=
  ⟨not_throughout_of_last (by decide +kernel), not_throughout_of_last (by decide +kernel)⟩

end MongoCore.Transport
