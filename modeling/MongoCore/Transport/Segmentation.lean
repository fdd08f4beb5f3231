import MongoCore.Transport.Connection
import Mathlib.Algebra.BigOperators.Group.List.Basic
import Mathlib.Algebra.Order.BigOperators.Group.List

/-!
# Independence of segmentation

The frames a connection hands to its parser should be those of the byte stream, however the bytes
arrive in pieces.  They are not: the read with a timeout of zero, and the read that competes with
the shutdown signal, are given up with the bytes they hold.

The main result is exact.  In a run that has settled, the frames handed on are a permutation of
the frames of the stream if and only if no read was given up while it held a byte.  One direction
follows the run with the part of the stream consumed so far; the other counts bytes, since what
was lost once cannot be handed on later.
-/

namespace MongoCore.Transport.Segmentation

open MongoCore.Library.Framing MongoCore.Library.TransitionSystem

/-! ## Settled runs -/

/-- The task waits for a frame with nothing left to read, or it has ended because the client left
or a frame could not be read.  Shutdown, a refused handshake and a failed write are other ends. -/
def Settled (maxFrameSize : ℕ) (s : State) : Prop :=
  ((s.phase = .handshake ∨ s.phase = .waiting) ∧ s.Pending maxFrameSize ∧ s.inbox = []) ∨
    s.phase = .finished .disconnected ∨ ∃ error, s.phase = .finished (.frameError error)

/-- A read is not given up while it holds a byte. -/
def KeepsBytes (s : State) : Event → Prop
  | .timeout | .shutdownChanged _ _ => s.held = []
  | _ => True

/-- The frames that were read and not dropped: handed on, in process, or queued. -/
def framesRead (s : State) : List Frame :=
  s.handed ++ (s.phase.inProcess ++ s.queue.frames)

/-- What is held is an unfinished read or one complete frame. -/
def Held (maxFrameSize : ℕ) (s : State) : Prop :=
  Unfinished (Complete maxFrameSize) s.held ∨ Chunk (Complete maxFrameSize) s.held

variable {maxFrameSize : ℕ}

theorem held_of_eq_nil {s : State} (h : s.held = []) : Held maxFrameSize s := by
  refine .inl ?_
  rw [h]
  exact unfinished_nil (not_complete_nil maxFrameSize)

theorem held_of_held_eq {s s' : State} (h : Held maxFrameSize s) (heq : s'.held = s.held) :
    Held maxFrameSize s' := by
  rwa [Held, heq]

theorem unfinished_of_pending {s : State} (h : Held maxFrameSize s)
    (hpending : s.Pending maxFrameSize) : Unfinished (Complete maxFrameSize) s.held :=
  h.resolve_right fun hchunk ↦ hpending.2 hchunk.1

theorem chunk_of_complete {s : State} (h : Held maxFrameSize s)
    (hcomplete : Complete maxFrameSize s.held) : Chunk (Complete maxFrameSize) s.held :=
  h.resolve_left fun hunfinished ↦ hunfinished s.held (List.prefix_refl _) hcomplete

/-- Going back to the top of the loop drops no frame. -/
theorem framesRead_of_advances {s s' : State} (h : s.Advances s') :
    framesRead s' = s.handed ++ s.queue.frames := by
  obtain ⟨-, -, -, hhanded, hphase⟩ := h
  rw [framesRead, hhanded]
  rcases hphase with ⟨hphase, hqueue⟩ | ⟨hphase, hqueue, hempty⟩ | ⟨frame, hphase, hqueue⟩
  · rw [hphase, hqueue]
    rfl
  · rw [hphase, hqueue, hempty]
    rfl
  · rw [hphase, hqueue]
    rfl

theorem framesRead_of_phase {s : State} {phase : Phase}
    (h : phase.inProcess = s.phase.inProcess) (held : Bytes) :
    framesRead { s with held := held, phase := phase } = framesRead s := by
  simp only [framesRead, h]

/-- A frame that starts to be processed is one frame more, if none was in process. -/
theorem framesRead_of_inProcess {s : State} (phase : Phase) {frame : Frame}
    (h : phase.inProcess = [frame]) (hidle : s.phase.inProcess = []) (held : Bytes) :
    (framesRead { s with held := held, phase := phase }).Perm (framesRead s ++ [frame]) := by
  simp only [framesRead, h, hidle, List.nil_append, List.append_assoc]
  exact (List.perm_append_singleton frame s.queue.frames).symm.append_left s.handed

/-- A queued frame is one frame more. -/
theorem framesRead_of_push (s : State) (frame : Frame) (priority : Priority) (held : Bytes) :
    (framesRead { s with held := held, queue := s.queue.push frame priority }).Perm
      (framesRead s ++ [frame]) := by
  simp only [framesRead, List.append_assoc]
  exact ((s.queue.frames_push frame priority).append_left _).append_left _

/-- The task reads, answers or processes; it is neither draining nor at its end. -/
def isLive : Phase → Bool
  | .draining | .finished _ => false
  | _ => true

/-- A live task that reads a frame has it in process or in the queue, and stays live. -/
theorem framesRead_returnRead {s : State} (hreading : s.phase.isReading = true)
    (hlive : isLive s.phase = true) (frame : Frame) :
    isLive (s.returnRead (.ok frame)).phase = true ∧
      (s.returnRead (.ok frame)).phase.inProcess ≠ [] ∧
      (framesRead (s.returnRead (.ok frame))).Perm (framesRead s ++ [frame]) := by
  rcases State.returnRead_ok hreading frame with
    ⟨hphase, heq⟩ | ⟨hphase, heq⟩ | ⟨first, hphase, heq⟩ | ⟨hphase, -⟩
  · have hidle : s.phase.inProcess = [] := by rw [hphase]; rfl
    rw [heq]
    exact ⟨rfl, List.cons_ne_nil _ _, framesRead_of_inProcess _ rfl hidle []⟩
  · have hidle : s.phase.inProcess = [] := by rw [hphase]; rfl
    rw [heq]
    exact ⟨rfl, List.cons_ne_nil _ _, framesRead_of_inProcess _ rfl hidle []⟩
  · rw [heq]
    exact ⟨hlive, by simp [hphase, Phase.inProcess], framesRead_of_push s frame _ []⟩
  · exact absurd hlive (by simp [hphase, isLive])

/-- With one frame in process, it stands between those handed on and those queued. -/
theorem framesRead_of_processing {s : State} {frame : Frame}
    (hidle : s.phase.inProcess = [frame]) :
    framesRead s = s.handed ++ [frame] ++ s.queue.frames := by
  simp [framesRead, hidle]

/-- Every step keeps what is held an unfinished read or one frame. -/
theorem held_step {s s' : State} {event : Event} (h : Held maxFrameSize s)
    (hstep : step maxFrameSize s event = some s') : Held maxFrameSize s' := by
  cases stepCase_of_step hstep with
  | arrive | close => exact h
  | take byte inbox hinbox hpending =>
    have hunfinished := unfinished_of_pending h hpending
    by_cases hcomplete : Complete maxFrameSize (s.held ++ [byte])
    · exact .inr (hunfinished.chunk hcomplete)
    · exact .inl (hunfinished.concat hcomplete)
  | readDone hreading hcomplete =>
    exact held_of_eq_nil (State.returnRead_frame hreading _).1
  | readEof hpending hinbox hclosed => exact held_of_eq_nil (State.endRead_frame hpending.1).1
  | timeout | shutdown | noShutdown | drainTimeout => exact held_of_eq_nil rfl
  | greet frame hphase greeting writeOk =>
    rcases s.greet_cases frame greeting writeOk with ⟨reason, -, -, -, -, hheld, -⟩ | hadvances
    · exact held_of_held_eq h hheld
    · exact held_of_held_eq h hadvances.held
  | process frame hphase outcome failAt flushOk =>
    exact held_of_held_eq h (s.advances_processFrame frame outcome failAt flushOk).held

/-! ## Following the stream -/

/-- As long as no byte was lost, the frames read are those of the part of the stream consumed so
far, and the rest of the stream is held, in the socket, or still to come. -/
def Tracks (maxFrameSize : ℕ) (stream future : Bytes) (s : State) : Prop :=
  (s.phase.inProcess = [] → s.queue.frames = []) ∧ ∃ frames,
    Consumed maxFrameSize stream (s.held ++ (s.inbox ++ future)) frames ∧
      (framesRead s).Perm frames

structure Follows (maxFrameSize : ℕ) (stream : Bytes) (all : List Frame) (future : Bytes)
    (s : State) : Prop where
  tracks : isLive s.phase = true → Tracks maxFrameSize stream future s
  ended : s.phase = .finished .disconnected → s.handed.Perm all
  readable : ∀ error, s.phase ≠ .finished (.frameError error)

theorem follows_init (stream : Bytes) (all : List Frame) :
    Follows maxFrameSize stream all stream State.init where
  tracks _ := ⟨fun _ ↦ rfl, [], consumed_nil maxFrameSize stream, List.Perm.refl _⟩
  ended h := absurd h (by simp [State.init])
  readable error := by simp [State.init]

/-- A live state follows the stream if it tracks it. -/
theorem follows_of_tracks {stream future : Bytes} {all : List Frame} {s : State}
    (hlive : isLive s.phase = true) (h : Tracks maxFrameSize stream future s) :
    Follows maxFrameSize stream all future s where
  tracks _ := h
  ended hphase := absurd hlive (by simp [hphase, isLive])
  readable error hphase := absurd hlive (by simp [hphase, isLive])

/-- Nothing is claimed of the ends of the task that are not considered. -/
theorem follows_of_dropped {stream future : Bytes} {all : List Frame} {s : State}
    (h : s.phase = .draining ∨ s.phase = .finished .shutDown ∨
      s.phase = .finished .handshakeRefused ∨ s.phase = .finished .writeFailed) :
    Follows maxFrameSize stream all future s := by
  rcases h with h | h | h | h <;> constructor <;> simp [h, isLive]

/-- The top of the loop keeps track of the stream. -/
theorem follows_of_advances {stream future : Bytes} {all : List Frame} {s s' : State}
    (h : s.Advances s') {frames : List Frame}
    (hconsumed : Consumed maxFrameSize stream (s.held ++ (s.inbox ++ future)) frames)
    (hframes : (s.handed ++ s.queue.frames).Perm frames) :
    Follows maxFrameSize stream all future s' := by
  have htracks : (s'.phase.inProcess = [] → s'.queue.frames = []) →
      Tracks maxFrameSize stream future s' := by
    intro hqueue
    refine ⟨hqueue, frames, ?_, ?_⟩
    · rw [h.held, h.inbox]
      exact hconsumed
    · rw [framesRead_of_advances h]
      exact hframes
  rcases h.phase with ⟨hphase, -⟩ | ⟨hphase, -, hempty⟩ | ⟨frame, hphase, -⟩
  · exact follows_of_dropped (.inr (.inr (.inr hphase)))
  · exact follows_of_tracks (by rw [hphase]; rfl) (htracks fun _ ↦ hempty)
  · refine follows_of_tracks (by rw [hphase]; rfl) (htracks fun hidle ↦ ?_)
    exact absurd hidle (by simp [hphase, Phase.inProcess])

/-- A completed read hands the next frame of the stream to a live task. -/
theorem follows_returnRead {stream future : Bytes} {all : List Frame} {s : State}
    (hall : Decodes maxFrameSize stream all) (hheld : Held maxFrameSize s)
    (h : Follows maxFrameSize stream all future s) (hreading : s.phase.isReading = true)
    (hcomplete : Complete maxFrameSize s.held) :
    Follows maxFrameSize stream all future (s.returnRead (readResult maxFrameSize s.held)) := by
  by_cases hlive : isLive s.phase = true
  · obtain ⟨hqueue, frames, hconsumed, hframes⟩ := h.tracks hlive
    obtain ⟨frame, hframe, hrest⟩ := hconsumed.chunk hall (chunk_of_complete hheld hcomplete)
    rw [hframe]
    obtain ⟨hstill, hbusy, hmore⟩ := framesRead_returnRead hreading hlive frame
    obtain ⟨hnothing, hinbox, -⟩ := State.returnRead_frame hreading (.ok frame)
    refine follows_of_tracks hstill ⟨fun hnone ↦ absurd hnone hbusy, _, ?_,
      hmore.trans (hframes.append_right _)⟩
    rw [hnothing, hinbox]
    exact hrest
  · have hphase : s.phase = .draining := by
      cases hphase : s.phase <;> simp_all [isLive, Phase.isReading]
    refine follows_of_dropped ?_
    cases readResult maxFrameSize s.held <;> simp [State.returnRead, hphase]

/-- At the end of the stream nothing is left of it but an unfinished read. -/
theorem follows_endRead {stream : Bytes} {all : List Frame} {s : State}
    (hall : Decodes maxFrameSize stream all) (hheld : Held maxFrameSize s)
    (h : Follows maxFrameSize stream all [] s) (hpending : s.Pending maxFrameSize)
    (hinbox : s.inbox = []) : Follows maxFrameSize stream all [] s.endRead := by
  have hunfinished := unfinished_of_pending hheld hpending
  have htracks : isLive s.phase = true → (s.phase.inProcess = [] → s.queue.frames = []) ∧
      (framesRead s).Perm all := by
    intro hlive
    obtain ⟨hqueue, frames, hconsumed, hframes⟩ := h.tracks hlive
    rw [hinbox] at hconsumed
    have hfinal : frames = all := Consumed.eq_all hall (by simpa using hconsumed) hunfinished
    exact ⟨hqueue, hfinal ▸ hframes⟩
  rcases State.endRead_cases hpending.1 with ⟨hphase, heq⟩ | ⟨first, hphase, heq⟩ | ⟨-, heq⟩
  · have hlive : isLive s.phase = true := by
      rcases hphase with hphase | hphase <;> rw [hphase] <;> rfl
    have hidle : s.phase.inProcess = [] := by
      rcases hphase with hphase | hphase <;> rw [hphase] <;> rfl
    obtain ⟨hqueue, hframes⟩ := htracks hlive
    rw [framesRead, hidle, hqueue hidle, List.append_nil, List.append_nil] at hframes
    rw [heq]
    exact ⟨fun hlive ↦ absurd hlive (by simp [isLive]), fun _ ↦ hframes, by simp⟩
  · obtain ⟨-, hframes⟩ := htracks (by rw [hphase]; rfl)
    rw [heq]
    refine follows_of_tracks rfl ⟨fun hnone ↦ absurd hnone (by simp [Phase.inProcess]), all,
      ?_, ?_⟩
    · rw [hinbox]
      exact ⟨stream, List.append_nil stream, hall⟩
    · rw [framesRead_of_phase (by rw [hphase]; rfl)]
      exact hframes
  · rw [heq]
    exact follows_of_dropped (.inr (.inl rfl))

/-- A step that loses no byte keeps following the stream. -/
theorem follows_step {stream future : Bytes} {all : List Frame} {s s' : State} {event : Event}
    (hall : Decodes maxFrameSize stream all) (hheld : Held maxFrameSize s)
    (hclosed : s.closed = true → future = []) (hkeeps : KeepsBytes s event)
    (h : Follows maxFrameSize stream all (event.bytes ++ future) s)
    (hstep : step maxFrameSize s event = some s') :
    Follows maxFrameSize stream all future s' := by
  cases stepCase_of_step hstep with
  | arrive bytes hopen =>
    refine ⟨fun hlive ↦ ?_, h.ended, h.readable⟩
    obtain ⟨hqueue, frames, hconsumed, hframes⟩ := h.tracks hlive
    refine ⟨hqueue, frames, ?_, hframes⟩
    simpa only [Event.bytes, List.append_assoc] using hconsumed
  | close => exact ⟨h.tracks, h.ended, h.readable⟩
  | take byte inbox hinbox hpending =>
    refine ⟨fun hlive ↦ ?_, h.ended, h.readable⟩
    obtain ⟨hqueue, frames, hconsumed, hframes⟩ := h.tracks hlive
    refine ⟨hqueue, frames, ?_, hframes⟩
    simpa only [hinbox, Event.bytes, List.nil_append, List.append_assoc, List.singleton_append,
      List.cons_append] using hconsumed
  | readDone hreading hcomplete => exact follows_returnRead hall hheld h hreading hcomplete
  | readEof hpending hinbox hclosed' =>
    obtain rfl := hclosed hclosed'
    exact follows_endRead hall hheld h hpending hinbox
  | timeout frame hphase hpending hinbox =>
    obtain ⟨hqueue, frames, hconsumed, hframes⟩ := h.tracks (by rw [hphase]; rfl)
    refine follows_of_tracks rfl ⟨fun hnone ↦ absurd hnone (by simp [Phase.inProcess]), frames,
      ?_, ?_⟩
    · rw [show s.held = [] from hkeeps] at hconsumed
      exact hconsumed
    · rw [framesRead_of_phase (by rw [hphase]; rfl)]
      exact hframes
  | shutdown writeOk hphase hpending => exact follows_of_dropped (.inl rfl)
  | noShutdown writeOk hphase hpending =>
    obtain ⟨hqueue, frames, hconsumed, hframes⟩ := h.tracks (by rw [hphase]; rfl)
    refine follows_of_tracks (by rw [hphase]; rfl) ⟨hqueue, frames, ?_, hframes⟩
    rw [show s.held = [] from hkeeps] at hconsumed
    exact hconsumed
  | drainTimeout hphase => exact follows_of_dropped (.inr (.inl rfl))
  | greet frame hphase greeting writeOk =>
    obtain ⟨hqueue, frames, hconsumed, hframes⟩ := h.tracks (by rw [hphase]; rfl)
    rcases s.greet_cases frame greeting writeOk with ⟨reason, hreason, hkind, -⟩ | hadvances
    · refine follows_of_dropped ?_
      rcases hkind with rfl | rfl
      · exact .inr (.inr (.inl hreason))
      · exact .inr (.inr (.inr hreason))
    · refine follows_of_advances hadvances hconsumed ?_
      rw [framesRead_of_processing (by rw [hphase]; rfl)] at hframes
      exact hframes
  | process frame hphase outcome failAt flushOk =>
    obtain ⟨hqueue, frames, hconsumed, hframes⟩ := h.tracks (by rw [hphase]; rfl)
    refine follows_of_advances (s.advances_processFrame frame outcome failAt flushOk) hconsumed ?_
    rw [framesRead_of_processing (by rw [hphase]; rfl)] at hframes
    exact hframes

/-- A run that loses no byte keeps following the stream. -/
theorem follows_run {stream : Bytes} {all : List Frame} {s t : State} {events : List Event}
    (hall : Decodes maxFrameSize stream all) (hheld : Held maxFrameSize s)
    (hkeeps : StepsMeet (step maxFrameSize) KeepsBytes s events)
    (h : Follows maxFrameSize stream all (arrivals events) s)
    (hrun : run (step maxFrameSize) s events = some t) :
    Held maxFrameSize t ∧ Follows maxFrameSize stream all [] t := by
  induction events generalizing s with
  | nil =>
    obtain rfl := Option.some.inj hrun
    exact ⟨hheld, h⟩
  | cons event events ih =>
    obtain ⟨next, hstep, hrest⟩ := run_cons_eq_some.mp hrun
    obtain ⟨hkeep, hkeeps⟩ := (stepsMeet_cons hstep).mp hkeeps
    have hclosed : s.closed = true → arrivals events = [] := fun hclosed ↦
      arrivals_of_closed (closed_step hclosed hstep).1 hrest
    exact ih (held_step hheld hstep) hkeeps (follows_step hall hheld hclosed hkeep h hstep) hrest

/-- In a settled state that follows the stream to its end, all frames were handed on. -/
theorem handed_perm_of_settled {stream : Bytes} {all : List Frame} {t : State}
    (hall : Decodes maxFrameSize stream all) (hheld : Held maxFrameSize t)
    (h : Follows maxFrameSize stream all [] t) (hsettled : Settled maxFrameSize t) :
    t.handed.Perm all := by
  rcases hsettled with ⟨hphase, hpending, hinbox⟩ | hphase | ⟨error, hphase⟩
  · have hlive : isLive t.phase = true := by
      rcases hphase with hphase | hphase <;> rw [hphase] <;> rfl
    have hidle : t.phase.inProcess = [] := by
      rcases hphase with hphase | hphase <;> rw [hphase] <;> rfl
    obtain ⟨hqueue, frames, hconsumed, hframes⟩ := h.tracks hlive
    rw [hinbox, List.append_nil, List.append_nil] at hconsumed
    rw [framesRead, hidle, hqueue hidle, List.append_nil, List.append_nil] at hframes
    rwa [Consumed.eq_all hall hconsumed (unfinished_of_pending hheld hpending)] at hframes
  · exact h.ended hphase
  · exact absurd hphase (h.readable error)

/-! ## Counting bytes -/

/-- The bytes of the frames read, of the read in progress, and in the socket. -/
def weight (s : State) : ℕ :=
  ((framesRead s).map Frame.size).sum + s.held.length + s.inbox.length

/-- The bytes that a step throws away by giving up a read. -/
def lostBytes (s : State) : Event → ℕ
  | .timeout | .shutdownChanged _ _ => s.held.length
  | _ => 0

theorem keepsBytes_iff (s : State) (event : Event) : KeepsBytes s event ↔ lostBytes s event = 0 := by
  cases event <;> simp [KeepsBytes, lostBytes]

theorem sum_size_of_perm {frames others : List Frame} (h : frames.Perm others) :
    (frames.map Frame.size).sum = (others.map Frame.size).sum :=
  (h.map Frame.size).sum_eq

/-- A frame more weighs its size more. -/
theorem sum_size_concat {frames others : List Frame} {frame : Frame}
    (h : frames.Perm (others ++ [frame])) :
    (frames.map Frame.size).sum = (others.map Frame.size).sum + frame.size := by
  rw [sum_size_of_perm h]
  simp

/-- Dropping the frame in process does not add weight. -/
theorem sum_size_le_of_idle {s : State} {phase : Phase} (h : phase.inProcess = [])
    (held : Bytes) :
    ((framesRead { s with held := held, phase := phase }).map Frame.size).sum ≤
      ((framesRead s).map Frame.size).sum := by
  simp only [framesRead, h, List.map_append, List.sum_append, List.nil_append]
  omega

/-- The weight of a state that differs in the read in progress and the phase. -/
theorem weight_le_of_phase {s : State} (phase : Phase)
    (h : phase.inProcess = s.phase.inProcess ∨ phase.inProcess = []) :
    weight { s with held := [], phase := phase } + s.held.length ≤ weight s := by
  have hsum : ((framesRead { s with held := [], phase := phase }).map Frame.size).sum ≤
      ((framesRead s).map Frame.size).sum := by
    rcases h with h | h
    · rw [framesRead_of_phase h]
    · exact sum_size_le_of_idle h []
  simp only [weight, List.length_nil]
  omega

theorem weight_of_advances {s s' : State} (h : s.Advances s') :
    weight s' = ((s.handed ++ s.queue.frames).map Frame.size).sum + s.held.length +
      s.inbox.length := by
  rw [weight, framesRead_of_advances h, h.held, h.inbox]

/-- No step makes the bytes accounted for more than those that have arrived, and what it loses is
gone. -/
theorem weight_step {s s' : State} {event : Event} (hheld : Held maxFrameSize s)
    (hstep : step maxFrameSize s event = some s') :
    weight s' + lostBytes s event ≤ weight s + event.bytes.length := by
  cases stepCase_of_step hstep with
  | arrive bytes hopen =>
    have hframes : framesRead { s with inbox := s.inbox ++ bytes } = framesRead s := rfl
    simp only [weight, hframes, List.length_append, lostBytes, Event.bytes]
    omega
  | close => exact Nat.le_refl _
  | take byte inbox hinbox hpending =>
    have hframes : framesRead { s with inbox := inbox, held := s.held ++ [byte] } =
        framesRead s := rfl
    simp only [weight, hframes, hinbox, List.length_append, List.length_cons, List.length_nil,
      lostBytes, Event.bytes]
    omega
  | readDone hreading hcomplete =>
    change weight _ ≤ weight s
    cases hresult : readResult maxFrameSize s.held with
    | ok frame =>
      have hsize := size_of_readResult (chunk_of_complete hheld hcomplete) hresult
      obtain ⟨hnothing, hinbox, -⟩ := State.returnRead_frame hreading (.ok frame)
      have hsum : ((framesRead (s.returnRead (.ok frame))).map Frame.size).sum ≤
          ((framesRead s).map Frame.size).sum + frame.size := by
        by_cases hlive : isLive s.phase = true
        · exact (sum_size_concat (framesRead_returnRead hreading hlive frame).2.2).le
        · have hphase : s.phase = .draining := by
            cases hphase : s.phase <;> simp_all [isLive, Phase.isReading]
          simp [State.returnRead, hphase, framesRead]
      rw [weight, weight, hnothing, hinbox, List.length_nil]
      omega
    | error error =>
      rcases State.returnRead_error hreading error with ⟨reason, heq, -⟩ | ⟨first, hphase, heq⟩
      · rw [heq]
        exact Nat.le_of_add_right_le (weight_le_of_phase _ (.inr rfl))
      · rw [heq]
        exact Nat.le_of_add_right_le (weight_le_of_phase _ (.inl (by rw [hphase]; rfl)))
  | readEof hpending hinbox hclosed =>
    change weight _ ≤ weight s
    rcases State.endRead_cases hpending.1 with ⟨-, heq⟩ | ⟨first, hphase, heq⟩ | ⟨-, heq⟩
    · rw [heq]
      exact Nat.le_of_add_right_le (weight_le_of_phase _ (.inr rfl))
    · rw [heq]
      exact Nat.le_of_add_right_le (weight_le_of_phase _ (.inl (by rw [hphase]; rfl)))
    · rw [heq]
      exact Nat.le_of_add_right_le (weight_le_of_phase _ (.inr rfl))
  | timeout frame hphase hpending hinbox =>
    exact weight_le_of_phase _ (.inl (by rw [hphase]; rfl))
  | shutdown writeOk hphase hpending =>
    exact weight_le_of_phase .draining (.inr rfl)
  | noShutdown writeOk hphase hpending =>
    exact weight_le_of_phase s.phase (.inl rfl)
  | drainTimeout hphase =>
    exact Nat.le_of_add_right_le (weight_le_of_phase _ (.inr rfl))
  | greet frame hphase greeting writeOk =>
    have hidle : s.phase.inProcess = [frame] := by rw [hphase]; rfl
    have hframes := framesRead_of_processing hidle
    change weight _ ≤ weight s
    rcases s.greet_cases frame greeting writeOk with
      ⟨reason, hreason, -, hinbox, -, hheld', hqueue, hhanded⟩ | hadvances
    · rw [weight, weight, framesRead, hreason, hinbox, hheld', hqueue, hframes]
      rcases hhanded with hhanded | hhanded <;>
      · rw [hhanded]
        simp only [Phase.inProcess, List.nil_append, List.map_append, List.sum_append]
        omega
    · rw [weight_of_advances hadvances, weight, hframes]
  | process frame hphase outcome failAt flushOk =>
    have hidle : s.phase.inProcess = [frame] := by rw [hphase]; rfl
    have hframes := framesRead_of_processing hidle
    change weight _ ≤ weight s
    rw [weight_of_advances (s.advances_processFrame frame outcome failAt flushOk), weight, hframes]

/-- A run accounts for no more bytes than have arrived, and for all of them only if no read was
given up with a byte. -/
theorem weight_run {s t : State} {events : List Event} (hheld : Held maxFrameSize s)
    (hrun : run (step maxFrameSize) s events = some t) :
    weight t ≤ weight s + (arrivals events).length ∧
      (weight t = weight s + (arrivals events).length →
        StepsMeet (step maxFrameSize) KeepsBytes s events) := by
  induction events generalizing s with
  | nil =>
    obtain rfl := Option.some.inj hrun
    exact ⟨Nat.le_refl _, fun _ ↦ trivial⟩
  | cons event events ih =>
    obtain ⟨next, hstep, hrest⟩ := run_cons_eq_some.mp hrun
    have hweight := weight_step hheld hstep
    obtain ⟨hle, hmeet⟩ := ih (held_step hheld hstep) hrest
    have hlength : (arrivals (event :: events)).length =
        event.bytes.length + (arrivals events).length := by
      rw [arrivals, List.flatMap_cons, List.length_append, arrivals]
    refine ⟨by omega, fun heq ↦ (stepsMeet_cons hstep).mpr ⟨?_, hmeet (by omega)⟩⟩
    rw [keepsBytes_iff]
    omega

/-! ## The main result -/

/-- In a settled run over a stream of well-formed frames, the frames handed to the parser are
those of the stream exactly when no read was given up while it held a byte. -/
theorem handed_perm_iff {stream : Bytes} {frames : List Frame} {events : List Event} {t : State}
    (hrun : run (step maxFrameSize) State.init events = some t)
    (harrivals : arrivals events = stream) (hdecodes : Decodes maxFrameSize stream frames)
    (hsettled : Settled maxFrameSize t) :
    t.handed.Perm frames ↔ StepsMeet (step maxFrameSize) KeepsBytes State.init events := by
  have hinit : Held maxFrameSize State.init := held_of_eq_nil rfl
  constructor
  · intro hperm
    obtain ⟨hle, hmeet⟩ := weight_run hinit hrun
    have harrived : weight State.init + (arrivals events).length = stream.length := by
      rw [harrivals, show weight State.init = 0 from rfl, Nat.zero_add]
    have hhanded : stream.length ≤ weight t := by
      calc
        stream.length = (frames.map Frame.size).sum := hdecodes.sum_size.symm
        _ = (t.handed.map Frame.size).sum := (sum_size_of_perm hperm).symm
        _ ≤ ((framesRead t).map Frame.size).sum := by
          rw [framesRead, List.map_append, List.sum_append]
          omega
        _ ≤ weight t := by
          rw [weight]
          omega
    exact hmeet (by omega)
  · intro hkeeps
    have hfollows : Follows maxFrameSize stream frames (arrivals events) State.init := by
      rw [harrivals]
      exact follows_init stream frames
    obtain ⟨hheld, hfinal⟩ := follows_run hdecodes hinit hkeeps hfollows hrun
    exact handed_perm_of_settled hdecodes hheld hfinal hsettled

/-! ## A frame that arrives in two pieces -/

/-- A frame with an envelope and no raw documents, as a client sends it. -/
def clientFrame (opcode : Opcode) (reqId : ℕ) (envelope : Bytes) : Frame where
  header := { msgLen := 6 + envelope.length, flags := .ofServer opcode, reqId := reqId }
  envelope := envelope
  rawDocs := []

/-- The handshake of a client that gives its language as `go`. -/
def handshakeFrame : Frame :=
  clientFrame .handshake 1 ([29, 0, 0, 0, 2, 99, 108, 105, 101, 110, 116, 95, 108, 97, 110, 103,
    117, 97, 103, 101, 0, 3, 0, 0, 0, 103, 111, 0, 0])

/-- A request for the collections of the database `d`. -/
def listCollectionsFrame (reqId : ℕ) : Frame :=
  clientFrame .listCollections reqId [15, 0, 0, 0, 2, 100, 98, 0, 2, 0, 0, 0, 100, 0, 0]

def twoRequests : List Frame :=
  [handshakeFrame, listCollectionsFrame 2, listCollectionsFrame 3]

theorem wellFormed_twoRequests :
    ∀ frame ∈ twoRequests, WellFormed maxFrameSizeDefault frame := by
  intro frame hframe
  rcases (by simpa [twoRequests] using hframe : frame = handshakeFrame ∨
    frame = listCollectionsFrame 2 ∨ frame = listCollectionsFrame 3) with rfl | rfl | rfl <;>
  constructor <;> decide

def handshakeEvents : List Event :=
  [.arrive (writeFrame handshakeFrame)] ++ List.replicate 39 .take ++
    [.readDone, .greet (.accepted (some ([5, 0, 0, 0, 0], []))) true]

/-- The outcome of a request: a response with an empty document. -/
def emptyResponse : Outcome := .response false (some ([5, 0, 0, 0, 0], [])) none

/-- The second request arrives while the first is answered; its first five bytes come with the
first request, and the coalescing read times out on them. -/
def splitEvents : List Event :=
  handshakeEvents ++
    [.arrive (writeFrame (listCollectionsFrame 2) ++ (writeFrame (listCollectionsFrame 3)).take 5)] ++
    List.replicate 25 .take ++ [.readDone] ++ List.replicate 5 .take ++
    [.timeout, .process emptyResponse none true,
      .arrive ((writeFrame (listCollectionsFrame 3)).drop 5)] ++
    List.replicate 10 .take ++ [.readDone]

/-- Both requests arrive whole. -/
def wholeEvents : List Event :=
  handshakeEvents ++
    [.arrive (writeFrame (listCollectionsFrame 2))] ++ List.replicate 25 .take ++ [.readDone,
      .timeout, .process emptyResponse none true,
      .arrive (writeFrame (listCollectionsFrame 3))] ++ List.replicate 25 .take ++ [.readDone,
      .timeout, .process emptyResponse none true]

theorem decodes_twoRequests :
    Decodes maxFrameSizeDefault (twoRequests.flatMap writeFrame) twoRequests :=
  decodes_writeFrame wellFormed_twoRequests

theorem run_splitEvents :
    (run (step maxFrameSizeDefault) State.init splitEvents).map (fun t ↦ (t.handed, t.phase)) =
      some ([handshakeFrame, listCollectionsFrame 2],
        .finished (.frameError .frameTooLarge)) := by
  decide +kernel

theorem run_wholeEvents :
    (run (step maxFrameSizeDefault) State.init wholeEvents).map
        (fun t ↦ (t.phase, t.inbox, t.held)) = some (.waiting, [], []) := by
  decide +kernel

/-- The second request is lost: what is left of it is read as a header, and the connection ends
with the first request handed on only. -/
theorem splitEvents_lose_frame :
    ∃ t, run (step maxFrameSizeDefault) State.init splitEvents = some t ∧
      arrivals splitEvents = twoRequests.flatMap writeFrame ∧
      Decodes maxFrameSizeDefault (twoRequests.flatMap writeFrame) twoRequests ∧
      Settled maxFrameSizeDefault t ∧ ¬ t.handed.Perm twoRequests := by
  obtain ⟨t, hrun, ht⟩ := Option.map_eq_some_iff.mp run_splitEvents
  obtain ⟨hhanded, hphase⟩ := Prod.mk.inj ht
  refine ⟨t, hrun, by decide, decodes_twoRequests, .inr (.inr ⟨_, hphase⟩), fun hperm ↦ ?_⟩
  have hlength := hperm.length_eq
  rw [hhanded] at hlength
  exact absurd hlength (by decide)

/-- Requests that arrive whole are all handed on, since no read is given up with a byte. -/
theorem handed_perm_iff_wholeEvents :
    ∃ t, run (step maxFrameSizeDefault) State.init wholeEvents = some t ∧
      (t.handed.Perm twoRequests ↔
        StepsMeet (step maxFrameSizeDefault) KeepsBytes State.init wholeEvents) := by
  obtain ⟨t, hrun, ht⟩ := Option.map_eq_some_iff.mp run_wholeEvents
  simp only [Prod.mk.injEq] at ht
  obtain ⟨hphase, hinbox, hheld⟩ := ht
  have hpending : t.Pending maxFrameSizeDefault := by
    refine ⟨by rw [hphase]; rfl, ?_⟩
    rw [hheld]
    exact not_complete_nil _
  exact ⟨t, hrun, handed_perm_iff hrun (by decide) decodes_twoRequests
    (.inl ⟨.inr hphase, hpending, hinbox⟩)⟩

end MongoCore.Transport.Segmentation
