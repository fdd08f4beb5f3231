import Mathlib.Data.List.Basic
import Mathlib.Logic.Function.Basic
import MongoCore.Library.TransitionSystem
import MongoCore.Mcp.EmbedAndStore

/-!
# Embeddings in batches

Calls that embed one text each put their texts in a common list and sleep.  The first that wakes up
takes the whole list and asks the service for all of its texts, and so does a call that fills the
list.  The answers come back through a channel for each call.

A call depends on whoever holds its text.  If the service leaves a text out, or the holder is
cancelled, then another call gets an empty vector or an error that is none of the service, and a
text whose calls are all gone stays in the list.  The main result says that nothing else goes wrong,
in every interleaving of any number of calls.
-/

namespace MongoCore.Search.BatchEmbedding

open MongoCore.Library.TransitionSystem MongoCore.Mcp.EmbedAndStore

/-! ## Calls -/

def maxBatchSize : ℕ := 100

abbrev Outcome := Except VoyageError (List UInt64)

/-- A text in the list, with the call that has the other end of the sender. -/
structure PendingEmbed where
  text : String
  sender : ℕ
  deriving DecidableEq

/-- What a call does: it waits for the list, sleeps until its batch window is over, waits for the
service with a batch, or waits for its own answer.  A call that is cancelled does nothing more. -/
inductive Phase where
  | unborn
  | locking
  | sleeping
  | flushing (batch : List PendingEmbed)
  | receiving
  | returned (outcome : Outcome)
  | cancelled

/-- The channel of a call: its sender is still there, has sent an answer, or was dropped. -/
inductive Channel where
  | empty
  | value (outcome : Outcome)
  | closed

/-- The calls, the common list, the channels, and the answers that the service has given to
batches. -/
structure State where
  phase : ℕ → Phase
  pending : List PendingEmbed
  channel : ℕ → Channel
  answers : List (List PendingEmbed × Except VoyageError EmbeddingResult)

/-- A step of a call, or its cancellation. -/
inductive Event where
  | embedOne (call : ℕ)
  | push (call : ℕ)
  | wake (call : ℕ)
  | answer (call : ℕ) (result : Except VoyageError EmbeddingResult)
  | receive (call : ℕ)
  | cancel (call : ℕ)

def Event.call : Event → ℕ
  | .embedOne call | .push call | .wake call | .answer call _ | .receive call | .cancel call => call

/-- How many steps a call can still take. -/
def Phase.stepsLeft : Phase → ℕ
  | .unborn => 5
  | .locking => 4
  | .sleeping => 3
  | .flushing _ => 2
  | .receiving => 1
  | .returned _ | .cancelled => 0

def start : State where
  phase _ := .unborn
  pending := []
  channel _ := .empty
  answers := []

def outcomes (batch : List PendingEmbed) :
    Except VoyageError EmbeddingResult → List (ℕ × Outcome)
  | .ok result => batch.zipIdx.map fun (pending, i) ↦
      (pending.sender, .ok (result.embeddings[i]?.getD []))
  | .error error => batch.map fun pending ↦ (pending.sender, .error (.apiError error.display))

def sendAll (channel : ℕ → Channel) (sent : List (ℕ × Outcome)) : ℕ → Channel :=
  sent.foldl (fun channel (call, outcome) ↦ Function.update channel call (.value outcome)) channel

def closeAll (channel : ℕ → Channel) (batch : List PendingEmbed) : ℕ → Channel := fun call ↦
  if call ∈ batch.map PendingEmbed.sender then .closed else channel call

section Steps

variable (textOf : ℕ → String)

namespace State

variable (state : State)

def enter (call : ℕ) (phase : Phase) : State :=
  { state with phase := Function.update state.phase call phase }

/-- A call adds its text, and takes the list if it is full. -/
def push (call : ℕ) : State :=
  let pending := state.pending ++ [⟨textOf call, call⟩]
  if maxBatchSize ≤ pending.length then
    { state.enter call (.flushing pending) with pending := [] }
  else { state.enter call .sleeping with pending := pending }

/-- A call has slept and takes the list, if it is not empty. -/
def wake (call : ℕ) : State :=
  if state.pending.isEmpty then state.enter call .receiving
  else { state.enter call (.flushing state.pending) with pending := [] }

def flush (call : ℕ) (batch : List PendingEmbed) (result : Except VoyageError EmbeddingResult) :
    State :=
  { state.enter call .receiving with
    channel := sendAll state.channel (outcomes batch result)
    answers := state.answers ++ [(batch, result)] }

/-- A call with a batch is cancelled, and the senders of the batch are dropped. -/
def abandon (call : ℕ) (batch : List PendingEmbed) : State :=
  { state.enter call .cancelled with channel := closeAll state.channel batch }

end State

/-- A step of a call, if it need not wait.  Each call has a text of its own. -/
def step (state : State) : Event → Option State
  | .embedOne call =>
      match state.phase call with
      | .unborn => some (state.enter call .locking)
      | _ => none
  | .push call =>
      match state.phase call with
      | .locking => some (state.push textOf call)
      | _ => none
  | .wake call =>
      match state.phase call with
      | .sleeping => some (state.wake call)
      | _ => none
  | .answer call result =>
      match state.phase call with
      | .flushing batch => some (state.flush call batch result)
      | _ => none
  | .receive call =>
      match state.phase call, state.channel call with
      | .receiving, .value outcome => some (state.enter call (.returned outcome))
      | .receiving, .closed =>
          some (state.enter call (.returned (.error (.apiError "Batch cancelled"))))
      | _, _ => none
  | .cancel call =>
      match state.phase call with
      | .locking | .sleeping | .receiving => some (state.enter call .cancelled)
      | .flushing batch => some (state.abandon call batch)
      | _ => none

inductive Step (state : State) : Event → State → Prop where
  | embedOne {call : ℕ} : state.phase call = .unborn →
      Step state (.embedOne call) (state.enter call .locking)
  | push {call : ℕ} : state.phase call = .locking →
      Step state (.push call) (state.push textOf call)
  | wake {call : ℕ} : state.phase call = .sleeping → Step state (.wake call) (state.wake call)
  | answer {call : ℕ} {batch : List PendingEmbed} {result : Except VoyageError EmbeddingResult} :
      state.phase call = .flushing batch →
      Step state (.answer call result) (state.flush call batch result)
  | receive {call : ℕ} {outcome : Outcome} : state.phase call = .receiving →
      state.channel call = .value outcome →
      Step state (.receive call) (state.enter call (.returned outcome))
  | receiveNothing {call : ℕ} : state.phase call = .receiving → state.channel call = .closed →
      Step state (.receive call)
        (state.enter call (.returned (.error (.apiError "Batch cancelled"))))
  | cancel {call : ℕ} :
      state.phase call = .locking ∨ state.phase call = .sleeping ∨ state.phase call = .receiving →
      Step state (.cancel call) (state.enter call .cancelled)
  | abandon {call : ℕ} {batch : List PendingEmbed} : state.phase call = .flushing batch →
      Step state (.cancel call) (state.abandon call batch)

variable {textOf}

theorem Step.of_eq_some {state next : State} {event : Event}
    (hstep : step textOf state event = some next) : Step textOf state event next := by
  cases event with
  | embedOne call =>
    simp only [step] at hstep
    split at hstep
    case h_1 hphase => exact Option.some.inj hstep ▸ .embedOne hphase
    case h_2 => cases hstep
  | push call =>
    simp only [step] at hstep
    split at hstep
    case h_1 hphase => exact Option.some.inj hstep ▸ .push hphase
    case h_2 => cases hstep
  | wake call =>
    simp only [step] at hstep
    split at hstep
    case h_1 hphase => exact Option.some.inj hstep ▸ .wake hphase
    case h_2 => cases hstep
  | answer call result =>
    simp only [step] at hstep
    split at hstep
    case h_1 hphase => exact Option.some.inj hstep ▸ .answer hphase
    case h_2 => cases hstep
  | receive call =>
    simp only [step] at hstep
    split at hstep
    case h_1 hphase hchannel => exact Option.some.inj hstep ▸ .receive hphase hchannel
    case h_2 hphase hchannel => exact Option.some.inj hstep ▸ .receiveNothing hphase hchannel
    case h_3 => cases hstep
  | cancel call =>
    simp only [step] at hstep
    split at hstep
    case h_1 hphase => exact Option.some.inj hstep ▸ .cancel (.inl hphase)
    case h_2 hphase => exact Option.some.inj hstep ▸ .cancel (.inr (.inl hphase))
    case h_3 hphase => exact Option.some.inj hstep ▸ .cancel (.inr (.inr hphase))
    case h_4 hphase => exact Option.some.inj hstep ▸ .abandon hphase
    case h_5 => cases hstep

end Steps

/-! ## The law -/

/-- A call has started and has neither returned nor been cancelled. -/
def Phase.InProgress : Phase → Prop
  | .locking | .sleeping | .flushing _ | .receiving => True
  | _ => False

/-- The vector that the service has computed for the text of the call, or an error that it has
given for its batch. -/
def OwnOutcome (textOf : ℕ → String)
    (answers : List (List PendingEmbed × Except VoyageError EmbeddingResult)) (call : ℕ) :
    Outcome → Prop
  | .ok vector => vector ≠ [] ∧
      ∃ (batch : List PendingEmbed) (result : EmbeddingResult) (i : ℕ),
        (batch, .ok result) ∈ answers ∧ batch[i]? = some ⟨textOf call, call⟩ ∧
          result.embeddings[i]? = some vector
  | .error error => ∃ (batch : List PendingEmbed) (cause : VoyageError),
      (batch, .error cause) ∈ answers ∧ ⟨textOf call, call⟩ ∈ batch ∧
        error = .apiError cause.display

/-- The event is a step that a call takes without being started or cancelled. -/
def Event.IsOwn : Event → Prop
  | .embedOne _ | .cancel _ => False
  | _ => True

/-- Every call that returns has an answer of its own, batches are bounded, nothing is left when no
call is in progress, and while one is, something can go on. -/
structure Served (textOf : ℕ → String) (state : State) : Prop where
  own : ∀ call outcome, state.phase call = .returned outcome →
    OwnOutcome textOf state.answers call outcome
  bounded : (∀ call batch, state.phase call = .flushing batch → batch.length ≤ maxBatchSize) ∧
    ∀ request ∈ state.answers, request.1.length ≤ maxBatchSize
  empty : (∀ call, ¬ (state.phase call).InProgress) → state.pending = []
  goesOn : ∀ call, (state.phase call).InProgress →
    ∃ event : Event, event.IsOwn ∧ (step textOf state event).isSome = true

/-- The answer of the service has a vector for every text of a call that was not cancelled. -/
def Answered (state : State) (batch : List PendingEmbed) (result : EmbeddingResult) : Prop :=
  ∀ (i : ℕ) (pending : PendingEmbed), batch[i]? = some pending →
    state.phase pending.sender ≠ .cancelled →
    ∃ vector, result.embeddings[i]? = some vector ∧ vector ≠ []

/-- The service answers a batch in full; a call that is cancelled holds no texts of others that were
not, and leaves a call that sleeps if it does, and there are texts in the list. -/
def Harmless (state : State) : Event → Prop
  | .answer call result => ∀ batch answer, state.phase call = .flushing batch →
      result = .ok answer → Answered state batch answer
  | .cancel call =>
      (∀ batch, state.phase call = .flushing batch →
        ∀ pending ∈ batch, pending.sender = call ∨ state.phase pending.sender = .cancelled) ∧
      (state.phase call = .sleeping → state.pending ≠ [] →
        ∃ other, other ≠ call ∧ state.phase other = .sleeping)
  | _ => True

/-! ## Channels -/

section Channels

variable {call : ℕ}

theorem sendAll_of_notMem (channel : ℕ → Channel) {sent : List (ℕ × Outcome)}
    (h : call ∉ sent.map Prod.fst) : sendAll channel sent call = channel call := by
  induction sent generalizing channel with
  | nil => rfl
  | cons first sent ih =>
    rw [List.map_cons, List.mem_cons, not_or] at h
    exact (ih _ h.2).trans (Function.update_of_ne h.1 _ _)

/-- A call gets one of the answers that are sent to it. -/
theorem exists_sendAll_eq (channel : ℕ → Channel) {sent : List (ℕ × Outcome)}
    (h : call ∈ sent.map Prod.fst) :
    ∃ outcome, (call, outcome) ∈ sent ∧ sendAll channel sent call = .value outcome := by
  induction sent generalizing channel with
  | nil => cases h
  | cons first sent ih =>
    by_cases hrest : call ∈ sent.map Prod.fst
    · obtain ⟨outcome, hmem, hvalue⟩ :=
        ih (Function.update channel first.1 (.value first.2)) hrest
      exact ⟨outcome, List.mem_cons_of_mem first hmem, hvalue⟩
    · obtain rfl : call = first.1 := (List.mem_cons.mp h).resolve_right hrest
      refine ⟨first.2, List.mem_cons_self, (sendAll_of_notMem _ hrest).trans ?_⟩
      exact Function.update_self first.1 _ channel

theorem map_fst_outcomes (batch : List PendingEmbed) (result : Except VoyageError EmbeddingResult) :
    (outcomes batch result).map Prod.fst = batch.map PendingEmbed.sender := by
  cases result with
  | error error => exact List.map_map
  | ok result =>
    rw [outcomes, List.map_map]
    change batch.zipIdx.map (PendingEmbed.sender ∘ Prod.fst) = _
    rw [← List.map_map, List.zipIdx_map_fst]

/-- An answer in full is one for each text of its own. -/
theorem ownOutcome_of_mem_outcomes {textOf : ℕ → String} {batch : List PendingEmbed}
    {result : Except VoyageError EmbeddingResult} {outcome : Outcome}
    {answers : List (List PendingEmbed × Except VoyageError EmbeddingResult)}
    (htexts : ∀ pending ∈ batch, pending.text = textOf pending.sender)
    (hfull : ∀ answer, result = .ok answer → ∀ (i : ℕ) (pending : PendingEmbed),
      batch[i]? = some pending → pending.sender = call →
        ∃ vector, answer.embeddings[i]? = some vector ∧ vector ≠ [])
    (hanswer : (batch, result) ∈ answers) (hmem : (call, outcome) ∈ outcomes batch result) :
    OwnOutcome textOf answers call outcome := by
  have hentry : ∀ pending ∈ batch, pending.sender = call → pending = ⟨textOf call, call⟩ := by
    rintro ⟨text, sender⟩ hpending rfl
    rw [PendingEmbed.mk.injEq]
    exact ⟨htexts _ hpending, rfl⟩
  cases result with
  | error error =>
    obtain ⟨pending, hpending, heq⟩ := List.mem_map.mp hmem
    obtain ⟨hsender, rfl⟩ := Prod.mk.inj heq
    exact ⟨batch, error, hanswer, hentry pending hpending hsender ▸ hpending, rfl⟩
  | ok answer =>
    obtain ⟨⟨pending, i⟩, hpending, heq⟩ := List.mem_map.mp hmem
    obtain ⟨hsender, rfl⟩ := Prod.mk.inj heq
    have hget : batch[i]? = some pending := List.mem_zipIdx_iff_getElem?.mp hpending
    obtain ⟨vector, hvector, hsome⟩ := hfull answer rfl i pending hget hsender
    rw [hentry pending (List.mem_of_getElem? hget) hsender] at hget
    rw [hvector]
    exact ⟨hsome, batch, answer, i, hanswer, hget, hvector⟩

theorem OwnOutcome.mono {textOf : ℕ → String} {outcome : Outcome}
    {answers more : List (List PendingEmbed × Except VoyageError EmbeddingResult)}
    (h : OwnOutcome textOf answers call outcome) (hmore : answers ⊆ more) :
    OwnOutcome textOf more call outcome := by
  cases outcome with
  | error error =>
    obtain ⟨batch, cause, hanswer, hrest⟩ := h
    exact ⟨batch, cause, hmore hanswer, hrest⟩
  | ok vector =>
    obtain ⟨hsome, batch, result, i, hanswer, hrest⟩ := h
    exact ⟨hsome, batch, result, i, hmore hanswer, hrest⟩

end Channels

/-! ## Texts on their way -/

/-- A call has added its text, and does not have its answer yet. -/
def Phase.Waiting : Phase → Prop
  | .sleeping | .flushing _ | .receiving => True
  | _ => False

/-- The answer to a call is there, or its text is in the list or in a batch. -/
def State.Held (state : State) (call : ℕ) : Prop :=
  (∃ outcome, state.channel call = .value outcome) ∨
    call ∈ state.pending.map PendingEmbed.sender ∨
    ∃ other batch, state.phase other = .flushing batch ∧ call ∈ batch.map PendingEmbed.sender

/-- An answer is one of the call itself, and the sender was not dropped. -/
def Channel.Sound (textOf : ℕ → String)
    (answers : List (List PendingEmbed × Except VoyageError EmbeddingResult)) (call : ℕ) :
    Channel → Prop
  | .empty => True
  | .value outcome => OwnOutcome textOf answers call outcome
  | .closed => False

/-- The list is short and has texts of calls that sleep or were cancelled, of which one sleeps;
nobody waits for an answer that will not come, and the answers are those of the service. -/
structure Invariant (textOf : ℕ → String) (state : State) : Prop where
  short : state.pending.length < maxBatchSize
  pending : ∀ pending ∈ state.pending, pending.text = textOf pending.sender ∧
    (state.phase pending.sender = .sleeping ∨ state.phase pending.sender = .cancelled)
  sleeper : state.pending ≠ [] → ∃ call, state.phase call = .sleeping
  batch : ∀ call batch, state.phase call = .flushing batch → batch.length ≤ maxBatchSize ∧
    ∀ pending ∈ batch, pending.text = textOf pending.sender
  answers : ∀ request ∈ state.answers, request.1.length ≤ maxBatchSize
  held : ∀ call, (state.phase call).Waiting → state.Held call
  channel : ∀ call, state.phase call ≠ .cancelled →
    (state.channel call).Sound textOf state.answers call
  returned : ∀ call outcome, state.phase call = .returned outcome →
    OwnOutcome textOf state.answers call outcome

variable {textOf : ℕ → String} {state next : State} {call : ℕ}

theorem Channel.Sound.mono {channel : Channel}
    {answers more : List (List PendingEmbed × Except VoyageError EmbeddingResult)}
    (h : channel.Sound textOf answers call) (hmore : answers ⊆ more) :
    channel.Sound textOf more call := by
  cases channel with
  | empty => exact trivial
  | value outcome => exact OwnOutcome.mono h hmore
  | closed => exact h

theorem invariant_start : Invariant textOf start where
  short := by decide
  pending := nofun
  sleeper := fun h ↦ absurd rfl h
  batch := nofun
  answers := nofun
  held := fun _ h ↦ h.elim
  channel := fun _ _ ↦ trivial
  returned := nofun

theorem phase_enter_self (state : State) (call : ℕ) (phase : Phase) :
    (state.enter call phase).phase call = phase := by
  simp [State.enter]

theorem phase_enter_of_ne (state : State) {call other : ℕ} (phase : Phase) (h : other ≠ call) :
    (state.enter call phase).phase other = state.phase other := by
  simp [State.enter, h]

/-- The phase of a call after a step of one. -/
theorem eq_or_of_phase_enter {phase found : Phase} {other : ℕ}
    (h : (state.enter call phase).phase other = found) :
    other = call ∧ phase = found ∨ other ≠ call ∧ state.phase other = found := by
  by_cases hother : other = call
  case pos =>
    subst hother
    exact .inl ⟨rfl, (phase_enter_self state other phase).symm.trans h⟩
  case neg => exact .inr ⟨hother, (phase_enter_of_ne state phase hother).symm.trans h⟩

/-! ### Steps -/

/-- A call without a batch enters a phase without one. -/
theorem Invariant.enter (h : Invariant textOf state) {phase : Phase}
    (hcancelled : state.phase call ≠ .cancelled)
    (hbefore : ∀ batch, state.phase call ≠ .flushing batch)
    (hafter : ∀ batch, phase ≠ .flushing batch)
    (hpending : call ∈ state.pending.map PendingEmbed.sender → phase = .cancelled)
    (hsleeper : state.pending ≠ [] → ∃ other, other ≠ call ∧ state.phase other = .sleeping)
    (hwaiting : phase.Waiting → (state.phase call).Waiting)
    (hreturned : ∀ outcome, phase = .returned outcome →
      OwnOutcome textOf state.answers call outcome) :
    Invariant textOf (state.enter call phase) where
  short := h.short
  pending := by
    intro pending hmem
    obtain ⟨htext, hphase⟩ := h.pending pending hmem
    refine ⟨htext, ?_⟩
    by_cases hsender : pending.sender = call
    · have hcall : call ∈ state.pending.map PendingEmbed.sender :=
        hsender ▸ List.mem_map_of_mem hmem
      rw [hsender, phase_enter_self]
      exact .inr (hpending hcall)
    · rwa [phase_enter_of_ne state phase hsender]
  sleeper := by
    intro hsome
    obtain ⟨other, hother, hsleeping⟩ := hsleeper hsome
    exact ⟨other, (phase_enter_of_ne state phase hother).trans hsleeping⟩
  batch := by
    intro other batch hother
    rcases eq_or_of_phase_enter hother with ⟨-, hphase⟩ | ⟨-, hphase⟩
    · exact absurd hphase (hafter batch)
    · exact h.batch other batch hphase
  answers := h.answers
  held := by
    intro other hother
    have hbatches : ∀ flusher batch, state.phase flusher = .flushing batch →
        (state.enter call phase).phase flusher = .flushing batch := by
      intro flusher batch hflusher
      have hne : flusher ≠ call := fun heq ↦ hbefore batch (heq ▸ hflusher)
      exact (phase_enter_of_ne state phase hne).trans hflusher
    have hheld : state.Held other := by
      by_cases heq : other = call
      · subst heq
        rw [phase_enter_self] at hother
        exact h.held other (hwaiting hother)
      · rw [phase_enter_of_ne state phase heq] at hother
        exact h.held other hother
    rcases hheld with hvalue | hlist | ⟨flusher, batch, hflusher, hmem⟩
    · exact .inl hvalue
    · exact .inr (.inl hlist)
    · exact .inr (.inr ⟨flusher, batch, hbatches flusher batch hflusher, hmem⟩)
  channel := by
    intro other hother
    refine h.channel other fun hphase ↦ ?_
    by_cases heq : other = call
    · exact hcancelled (heq ▸ hphase)
    · exact hother ((phase_enter_of_ne state phase heq).trans hphase)
  returned := by
    intro other outcome hother
    rcases eq_or_of_phase_enter hother with ⟨rfl, hphase⟩ | ⟨-, hphase⟩
    · exact hreturned outcome hphase
    · exact h.returned other outcome hphase

/-- A call without a batch takes the texts in the list, with its own or without. -/
theorem Invariant.take (h : Invariant textOf state) {batch : List PendingEmbed}
    (hcancelled : state.phase call ≠ .cancelled)
    (hbefore : ∀ batch, state.phase call ≠ .flushing batch)
    (hbatch : ∀ pending ∈ state.pending, pending ∈ batch)
    (htexts : ∀ pending ∈ batch, pending.text = textOf pending.sender)
    (hlength : batch.length ≤ maxBatchSize)
    (hcall : (state.phase call).Waiting ∨ call ∈ batch.map PendingEmbed.sender) :
    Invariant textOf { state.enter call (.flushing batch) with pending := [] } where
  short := (by decide : 0 < maxBatchSize)
  pending := nofun
  sleeper := fun hsome ↦ absurd rfl hsome
  batch := by
    intro other taken hother
    rcases eq_or_of_phase_enter hother with ⟨-, hphase⟩ | ⟨-, hphase⟩
    · obtain rfl := Phase.flushing.inj hphase
      exact ⟨hlength, htexts⟩
    · exact h.batch other taken hphase
  answers := h.answers
  held := by
    intro other hother
    have htaken : other ∈ batch.map PendingEmbed.sender → State.Held
        { state.enter call (.flushing batch) with pending := [] } other := fun hmem ↦
      .inr (.inr ⟨call, batch, phase_enter_self state call (.flushing batch), hmem⟩)
    have hheld : state.Held other ∨ other ∈ batch.map PendingEmbed.sender := by
      by_cases heq : other = call
      · subst heq
        exact hcall.imp_left (h.held other)
      · have hphase := phase_enter_of_ne state (.flushing batch) heq
        exact .inl (h.held other (hphase ▸ hother))
    rcases hheld with (hvalue | hlist | ⟨flusher, others, hflusher, hmem⟩) | hmem
    · exact .inl hvalue
    · obtain ⟨pending, hpending, rfl⟩ := List.mem_map.mp hlist
      exact htaken (List.mem_map_of_mem (hbatch pending hpending))
    · have hne : flusher ≠ call := fun heq ↦ hbefore others (heq ▸ hflusher)
      exact .inr (.inr ⟨flusher, others,
        (phase_enter_of_ne state (.flushing batch) hne).trans hflusher, hmem⟩)
    · exact htaken hmem
  channel := by
    intro other hother
    refine h.channel other fun hphase ↦ ?_
    by_cases heq : other = call
    · exact hcancelled (heq ▸ hphase)
    · exact hother ((phase_enter_of_ne state (.flushing batch) heq).trans hphase)
  returned := by
    intro other outcome hother
    rcases eq_or_of_phase_enter hother with ⟨-, hphase⟩ | ⟨-, hphase⟩
    · cases hphase
    · exact h.returned other outcome hphase

theorem Invariant.push (h : Invariant textOf state) (hphase : state.phase call = .locking) :
    Invariant textOf (state.push textOf call) := by
  have hcancelled : state.phase call ≠ .cancelled := by simp [hphase]
  have hbefore : ∀ batch, state.phase call ≠ .flushing batch := by simp [hphase]
  have htexts : ∀ pending ∈ state.pending ++ [PendingEmbed.mk (textOf call) call],
      pending.text = textOf pending.sender := by
    intro pending hmem
    rcases List.mem_append.mp hmem with hmem | hmem
    · exact (h.pending pending hmem).1
    · rw [List.mem_singleton.mp hmem]
  have hlength : (state.pending ++ [PendingEmbed.mk (textOf call) call]).length =
      state.pending.length + 1 := by
    rw [List.length_append, List.length_singleton]
  unfold State.push
  dsimp only
  split
  case isTrue =>
    refine h.take hcancelled hbefore (fun _ ↦ List.mem_append_left _) htexts ?_ (.inr ?_)
    · have hshort := h.short
      omega
    · simp
  case isFalse hshort =>
    refine ⟨Nat.lt_of_not_le hshort, ?_, fun _ ↦ ⟨call, phase_enter_self state call .sleeping⟩, ?_,
      h.answers, ?_, ?_, ?_⟩
    · intro pending hmem
      refine ⟨htexts pending hmem, ?_⟩
      by_cases hsender : pending.sender = call
      · exact .inl (hsender ▸ phase_enter_self state call .sleeping)
      · have hold : pending ∈ state.pending := by
          refine (List.mem_append.mp hmem).resolve_right fun hnew ↦ hsender ?_
          rw [List.mem_singleton.mp hnew]
        have hsame := phase_enter_of_ne state .sleeping hsender
        exact hsame ▸ (h.pending pending hold).2
    · intro other batch hother
      rcases eq_or_of_phase_enter hother with ⟨-, hflushing⟩ | ⟨-, hflushing⟩
      · cases hflushing
      · exact h.batch other batch hflushing
    · intro other hother
      by_cases heq : other = call
      · exact .inr (.inl (by simp [heq]))
      · have hsame := phase_enter_of_ne state .sleeping heq
        rcases h.held other (hsame ▸ hother) with hvalue | hlist | ⟨flusher, batch, hflusher, hmem⟩
        · exact .inl hvalue
        · refine .inr (.inl ?_)
          rw [List.map_append]
          exact List.mem_append_left _ hlist
        · have hne : flusher ≠ call := fun heq ↦ hbefore batch (heq ▸ hflusher)
          exact .inr (.inr ⟨flusher, batch,
            (phase_enter_of_ne state .sleeping hne).trans hflusher, hmem⟩)
    · intro other hother
      refine h.channel other fun hfound ↦ ?_
      by_cases heq : other = call
      · exact hcancelled (heq ▸ hfound)
      · exact hother ((phase_enter_of_ne state .sleeping heq).trans hfound)
    · intro other outcome hother
      rcases eq_or_of_phase_enter hother with ⟨-, hfound⟩ | ⟨-, hfound⟩
      · cases hfound
      · exact h.returned other outcome hfound

theorem Invariant.wake (h : Invariant textOf state) (hphase : state.phase call = .sleeping) :
    Invariant textOf (state.wake call) := by
  have hcancelled : state.phase call ≠ .cancelled := by simp [hphase]
  have hbefore : ∀ batch, state.phase call ≠ .flushing batch := by simp [hphase]
  have hwaiting : (state.phase call).Waiting := by
    rw [hphase]
    exact trivial
  unfold State.wake
  split
  case isTrue hempty =>
    have hnil : state.pending = [] := List.isEmpty_iff.mp hempty
    refine h.enter hcancelled hbefore nofun ?_ (fun hsome ↦ absurd hnil hsome) (fun _ ↦ hwaiting)
      nofun
    rw [hnil]
    exact nofun
  case isFalse =>
    exact h.take hcancelled hbefore (fun _ ↦ id) (fun pending hmem ↦ (h.pending pending hmem).1)
      (Nat.le_of_lt h.short) (.inl hwaiting)

/-- The service answers a batch: nobody waits in it any more. -/
theorem Invariant.flush (h : Invariant textOf state) {batch : List PendingEmbed}
    {result : Except VoyageError EmbeddingResult} (hphase : state.phase call = .flushing batch)
    (hfull : ∀ answer, result = .ok answer → Answered state batch answer) :
    Invariant textOf (state.flush call batch result) := by
  have hsame : ∀ other, other ≠ call → (state.flush call batch result).phase other =
      state.phase other := fun other ↦ phase_enter_of_ne state .receiving
  have hself : (state.flush call batch result).phase call = .receiving :=
    phase_enter_self state call .receiving
  have hmore : state.answers ⊆ state.answers ++ [(batch, result)] :=
    fun _ ↦ List.mem_append_left _
  obtain ⟨hlength, htexts⟩ := h.batch call batch hphase
  refine ⟨h.short, ?_, ?_, ?_, ?_, ?_, ?_, ?_⟩
  · intro pending hmem
    obtain ⟨htext, hfound⟩ := h.pending pending hmem
    have hne : pending.sender ≠ call := by
      rintro heq
      rw [heq, hphase] at hfound
      exact hfound.elim nofun nofun
    exact ⟨htext, hsame pending.sender hne ▸ hfound⟩
  · intro hsome
    obtain ⟨other, hsleeping⟩ := h.sleeper hsome
    have hne : other ≠ call := by
      rintro rfl
      rw [hphase] at hsleeping
      cases hsleeping
    exact ⟨other, (hsame other hne).trans hsleeping⟩
  · intro other taken hother
    rcases eq_or_of_phase_enter hother with ⟨-, hfound⟩ | ⟨-, hfound⟩
    · cases hfound
    · exact h.batch other taken hfound
  · intro request hmem
    rcases List.mem_append.mp hmem with hmem | hmem
    · exact h.answers request hmem
    · rw [List.mem_singleton.mp hmem]
      exact hlength
  · intro other hother
    by_cases hsent : other ∈ batch.map PendingEmbed.sender
    case pos =>
      rw [← map_fst_outcomes batch result] at hsent
      obtain ⟨outcome, -, hvalue⟩ := exists_sendAll_eq state.channel hsent
      exact .inl ⟨outcome, hvalue⟩
    case neg =>
      have hchannel : sendAll state.channel (outcomes batch result) other = state.channel other :=
        sendAll_of_notMem state.channel (map_fst_outcomes batch result ▸ hsent)
      have hwaiting : (state.phase other).Waiting := by
        by_cases heq : other = call
        · rw [heq, hphase]
          exact trivial
        · exact hsame other heq ▸ hother
      rcases h.held other hwaiting with ⟨outcome, hvalue⟩ | hlist | ⟨flusher, taken, hflusher, hmem⟩
      · exact .inl ⟨outcome, hchannel.trans hvalue⟩
      · exact .inr (.inl hlist)
      · have hne : flusher ≠ call := by
          rintro rfl
          obtain rfl := Phase.flushing.inj (hphase.symm.trans hflusher)
          exact hsent hmem
        exact .inr (.inr ⟨flusher, taken, (hsame flusher hne).trans hflusher, hmem⟩)
  · intro other hother
    have hcancelled : state.phase other ≠ .cancelled := by
      by_cases heq : other = call
      · rw [heq, hphase]
        nofun
      · exact hsame other heq ▸ hother
    change Channel.Sound textOf (state.answers ++ [(batch, result)]) other
      (sendAll state.channel (outcomes batch result) other)
    by_cases hsent : other ∈ (outcomes batch result).map Prod.fst
    case pos =>
      obtain ⟨outcome, hmem, hvalue⟩ := exists_sendAll_eq state.channel hsent
      rw [hvalue]
      refine ownOutcome_of_mem_outcomes htexts ?_
        (List.mem_append_right _ (List.mem_singleton_self _)) hmem
      intro answer hanswer i pending hget hsender
      exact hfull answer hanswer i pending hget (hsender ▸ hcancelled)
    case neg =>
      rw [sendAll_of_notMem state.channel hsent]
      exact (h.channel other hcancelled).mono hmore
  · intro other outcome hother
    rcases eq_or_of_phase_enter hother with ⟨-, hfound⟩ | ⟨-, hfound⟩
    · cases hfound
    · exact (h.returned other outcome hfound).mono hmore

/-- A call with a batch is cancelled: all that waited in the batch were cancelled before. -/
theorem Invariant.abandon (h : Invariant textOf state) {batch : List PendingEmbed}
    (hphase : state.phase call = .flushing batch)
    (hothers : ∀ pending ∈ batch,
      pending.sender = call ∨ state.phase pending.sender = .cancelled) :
    Invariant textOf (state.abandon call batch) := by
  have hsame : ∀ other, other ≠ call → (state.abandon call batch).phase other =
      state.phase other := fun other ↦ phase_enter_of_ne state .cancelled
  have hself : (state.abandon call batch).phase call = .cancelled :=
    phase_enter_self state call .cancelled
  have hlive : ∀ other, (state.abandon call batch).phase other ≠ .cancelled →
      other ≠ call ∧ state.phase other ≠ .cancelled ∧
        other ∉ batch.map PendingEmbed.sender := by
    intro other hother
    have hne : other ≠ call := fun heq ↦ hother (heq ▸ hself)
    rw [hsame other hne] at hother
    refine ⟨hne, hother, fun hmem ↦ ?_⟩
    obtain ⟨pending, hpending, rfl⟩ := List.mem_map.mp hmem
    exact (hothers pending hpending).elim hne hother
  have hchannel : ∀ other, other ∉ batch.map PendingEmbed.sender →
      (state.abandon call batch).channel other = state.channel other := fun _ hmem ↦ if_neg hmem
  refine ⟨h.short, ?_, ?_, ?_, h.answers, ?_, ?_, ?_⟩
  · intro pending hmem
    obtain ⟨htext, hfound⟩ := h.pending pending hmem
    refine ⟨htext, ?_⟩
    by_cases heq : pending.sender = call
    · exact .inr (heq ▸ hself)
    · exact hsame pending.sender heq ▸ hfound
  · intro hsome
    obtain ⟨other, hsleeping⟩ := h.sleeper hsome
    have hne : other ≠ call := by
      rintro rfl
      rw [hphase] at hsleeping
      cases hsleeping
    exact ⟨other, (hsame other hne).trans hsleeping⟩
  · intro other taken hother
    rcases eq_or_of_phase_enter hother with ⟨-, hfound⟩ | ⟨-, hfound⟩
    · cases hfound
    · exact h.batch other taken hfound
  · intro other hother
    obtain ⟨hne, -, hnot⟩ := hlive other fun hfound ↦ by rw [hfound] at hother; exact hother
    rw [hsame other hne] at hother
    rcases h.held other hother with ⟨outcome, hvalue⟩ | hlist | ⟨flusher, taken, hflusher, hmem⟩
    · exact .inl ⟨outcome, (hchannel other hnot).trans hvalue⟩
    · exact .inr (.inl hlist)
    · have hflushing : flusher ≠ call := by
        rintro rfl
        obtain rfl := Phase.flushing.inj (hphase.symm.trans hflusher)
        exact hnot hmem
      exact .inr (.inr ⟨flusher, taken, (hsame flusher hflushing).trans hflusher, hmem⟩)
  · intro other hother
    obtain ⟨-, hcancelled, hnot⟩ := hlive other hother
    rw [hchannel other hnot]
    exact h.channel other hcancelled
  · intro other outcome hother
    rcases eq_or_of_phase_enter hother with ⟨-, hfound⟩ | ⟨-, hfound⟩
    · cases hfound
    · exact h.returned other outcome hfound

/-- A call whose answer is there or that is not asleep leaves the list to the others. -/
theorem Invariant.exists_sleeper_ne (h : Invariant textOf state)
    (hphase : state.phase call ≠ .sleeping) (hsome : state.pending ≠ []) :
    ∃ other, other ≠ call ∧ state.phase other = .sleeping := by
  obtain ⟨other, hsleeping⟩ := h.sleeper hsome
  exact ⟨other, fun heq ↦ hphase (heq ▸ hsleeping), hsleeping⟩

theorem Invariant.notMem_pending (h : Invariant textOf state)
    (hsleeping : state.phase call ≠ .sleeping) (hcancelled : state.phase call ≠ .cancelled) :
    call ∉ state.pending.map PendingEmbed.sender := by
  intro hmem
  obtain ⟨pending, hpending, rfl⟩ := List.mem_map.mp hmem
  exact (h.pending pending hpending).2.elim hsleeping hcancelled

/-- A call that is neither asleep nor cancelled, and has no batch, leaves the list as it is. -/
theorem Invariant.enter_awake (h : Invariant textOf state) {phase : Phase}
    (hphase : state.phase call = .unborn ∨ state.phase call = .locking ∨
      state.phase call = .receiving)
    (hafter : ∀ batch, phase ≠ .flushing batch) (hwaiting : ¬ phase.Waiting)
    (hreturned : ∀ outcome, phase = .returned outcome →
      OwnOutcome textOf state.answers call outcome) :
    Invariant textOf (state.enter call phase) := by
  have hsleeping : state.phase call ≠ .sleeping := by rintro hfound; simp [hfound] at hphase
  have hcancelled : state.phase call ≠ .cancelled := by rintro hfound; simp [hfound] at hphase
  have hbefore : ∀ batch, state.phase call ≠ .flushing batch := by
    rintro batch hfound
    simp [hfound] at hphase
  exact h.enter hcancelled hbefore hafter
    (fun hmem ↦ absurd hmem (h.notMem_pending hsleeping hcancelled))
    (h.exists_sleeper_ne hsleeping) (fun hfound ↦ absurd hfound hwaiting) hreturned

theorem Invariant.step (h : Invariant textOf state) {event : Event}
    (hharmless : Harmless state event) (hstep : step textOf state event = some next) :
    Invariant textOf next := by
  cases Step.of_eq_some hstep with
  | embedOne hphase => exact h.enter_awake (.inl hphase) nofun id nofun
  | push hphase => exact h.push hphase
  | wake hphase => exact h.wake hphase
  | answer hphase => exact h.flush hphase fun answer hanswer ↦ hharmless _ answer hphase hanswer
  | @receive call outcome hphase hchannel =>
    have hsound := h.channel call (by rw [hphase]; nofun)
    rw [hchannel] at hsound
    refine h.enter_awake (.inr (.inr hphase)) nofun id fun other hother ↦ ?_
    obtain rfl := Phase.returned.inj hother
    exact hsound
  | @receiveNothing call hphase hchannel =>
    -- the sender of a call that was not cancelled is not dropped
    have hsound := h.channel call (by rw [hphase]; nofun)
    rw [hchannel] at hsound
    exact hsound.elim
  | @cancel call hphase =>
    rcases hphase with hphase | hphase | hphase
    · exact h.enter_awake (.inr (.inl hphase)) nofun id nofun
    · exact h.enter (by rw [hphase]; nofun) (by rw [hphase]; nofun) nofun (fun _ ↦ rfl)
        (hharmless.2 hphase) (fun hwaiting ↦ hwaiting.elim) nofun
    · exact h.enter_awake (.inr (.inr hphase)) nofun id nofun
  | abandon hphase => exact h.abandon hphase (hharmless.1 _ hphase)

/-- While a call is in progress, it can go on, or the service can answer the one with its text. -/
theorem Invariant.exists_step (h : Invariant textOf state) (hcall : (state.phase call).InProgress) :
    ∃ event : Event, event.IsOwn ∧ (BatchEmbedding.step textOf state event).isSome = true := by
  cases hphase : state.phase call with
  | locking => exact ⟨.push call, trivial, by simp [BatchEmbedding.step, hphase]⟩
  | sleeping => exact ⟨.wake call, trivial, by simp [BatchEmbedding.step, hphase]⟩
  | flushing batch =>
    exact ⟨.answer call (.ok ⟨[], 0⟩), trivial, by simp [BatchEmbedding.step, hphase]⟩
  | receiving =>
    have hwaiting : (state.phase call).Waiting := by
      rw [hphase]
      exact trivial
    rcases h.held call hwaiting with ⟨outcome, hvalue⟩ | hlist | ⟨flusher, batch, hflusher, -⟩
    · exact ⟨.receive call, trivial, by simp [BatchEmbedding.step, hphase, hvalue]⟩
    · exact absurd hlist (h.notMem_pending (by rw [hphase]; nofun) (by rw [hphase]; nofun))
    · exact ⟨.answer flusher (.ok ⟨[], 0⟩), trivial, by simp [BatchEmbedding.step, hflusher]⟩
  | unborn | returned | cancelled =>
    rw [hphase] at hcall
    exact hcall.elim

theorem Invariant.served (h : Invariant textOf state) : Served textOf state where
  own := h.returned
  bounded := ⟨fun call batch hphase ↦ (h.batch call batch hphase).1, h.answers⟩
  empty := by
    intro hidle
    by_contra hsome
    obtain ⟨call, hsleeping⟩ := h.sleeper hsome
    apply hidle call
    rw [hsleeping]
    exact trivial
  goesOn := fun _ ↦ h.exists_step

/-! ## Runs -/

theorem phase_push (textOf : ℕ → String) (state : State) (call : ℕ) :
    ∃ phase : Phase, phase.stepsLeft ≤ 3 ∧
      (state.push textOf call).phase = (state.enter call phase).phase := by
  unfold State.push
  dsimp only
  split
  · exact ⟨.flushing (state.pending ++ [⟨textOf call, call⟩]), (by decide : 2 ≤ 3), rfl⟩
  · exact ⟨.sleeping, Nat.le_refl 3, rfl⟩

theorem phase_wake (state : State) (call : ℕ) :
    ∃ phase : Phase, phase.stepsLeft ≤ 2 ∧
      (state.wake call).phase = (state.enter call phase).phase := by
  unfold State.wake
  split
  · exact ⟨.receiving, (by decide : 1 ≤ 2), rfl⟩
  · exact ⟨.flushing state.pending, Nat.le_refl 2, rfl⟩

/-- A step moves its call on and leaves the others where they are. -/
theorem exists_phase_of_step {event : Event} (hstep : step textOf state event = some next) :
    ∃ phase : Phase, phase.stepsLeft < (state.phase event.call).stepsLeft ∧
      next.phase = (state.enter event.call phase).phase := by
  cases Step.of_eq_some hstep with
  | @embedOne call hphase =>
    refine ⟨.locking, ?_, rfl⟩
    simp [Event.call, hphase, Phase.stepsLeft]
  | @push call hphase =>
    obtain ⟨phase, hle, hnext⟩ := phase_push textOf state call
    refine ⟨phase, Nat.lt_of_le_of_lt hle ?_, hnext⟩
    simp [Event.call, hphase, Phase.stepsLeft]
  | @wake call hphase =>
    obtain ⟨phase, hle, hnext⟩ := phase_wake state call
    refine ⟨phase, Nat.lt_of_le_of_lt hle ?_, hnext⟩
    simp [Event.call, hphase, Phase.stepsLeft]
  | @answer call batch result hphase =>
    refine ⟨.receiving, ?_, rfl⟩
    simp [Event.call, hphase, Phase.stepsLeft]
  | @receive call outcome hphase =>
    refine ⟨.returned outcome, ?_, rfl⟩
    simp [Event.call, hphase, Phase.stepsLeft]
  | @receiveNothing call hphase =>
    refine ⟨_, ?_, rfl⟩
    simp [Event.call, hphase, Phase.stepsLeft]
  | @cancel call hphase =>
    refine ⟨.cancelled, ?_, rfl⟩
    rcases hphase with hphase | hphase | hphase <;> simp [Event.call, hphase, Phase.stepsLeft]
  | @abandon call batch hphase =>
    refine ⟨.cancelled, ?_, rfl⟩
    simp [Event.call, hphase, Phase.stepsLeft]

/-- A call takes no more steps than it had left. -/
theorem countP_call_le {events : List Event} {final : State} (call : ℕ)
    (hrun : run (step textOf) state events = some final) :
    events.countP (fun event ↦ event.call = call) + (final.phase call).stepsLeft ≤
      (state.phase call).stepsLeft := by
  induction events generalizing state with
  | nil =>
    obtain rfl := Option.some.inj hrun
    simp
  | cons event events ih =>
    obtain ⟨next, hstep, hrest⟩ := run_cons_eq_some.mp hrun
    obtain ⟨phase, hlt, hnext⟩ := exists_phase_of_step hstep
    have hleft := ih hrest
    rw [hnext] at hleft
    by_cases heq : event.call = call
    case pos =>
      rw [List.countP_cons_of_pos (by simpa using heq)]
      rw [heq, phase_enter_self] at hleft
      rw [heq] at hlt
      omega
    case neg =>
      rw [List.countP_cons_of_neg (by simpa using heq)]
      rwa [phase_enter_of_ne state phase (Ne.symm heq)] at hleft

/-- In every run of harmless steps, of any calls in any order, every call that returns has an answer
of its own, batches are bounded, and nothing is left when no call is in progress.  While a call is
in progress something goes on, and no call takes more than five steps. -/
theorem served_of_harmless (textOf : ℕ → String) {events : List Event}
    (hmeet : StepsMeet (step textOf) Harmless start events) :
    Throughout (step textOf) (Served textOf) start events ∧
      ∀ final, run (step textOf) start events = some final →
        ∀ call, events.countP (fun event ↦ event.call = call) ≤ 5 := by
  constructor
  · exact throughout_of_stepsMeet (fun _ h ↦ h.served)
      (fun _ _ _ h hharmless hstep ↦ h.step hharmless hstep) invariant_start hmeet
  · intro final hrun call
    exact Nat.le_of_add_right_le (countP_call_le call hrun)

/-- Two calls of which the first takes both texts. -/
def twoCalls (result : Except VoyageError EmbeddingResult) : List Event :=
  [.embedOne 0, .embedOne 1, .push 0, .push 1, .wake 0, .answer 0 result, .receive 0, .wake 1,
    .receive 1]

theorem harmless_twoCalls : StepsMeet (step fun _ ↦ "text") Harmless start
    (twoCalls (.ok ⟨[[1], [2]], 0⟩)) := by
  refine ⟨trivial, fun next hstep ↦ ?_⟩
  obtain rfl := Option.some.inj hstep
  refine ⟨trivial, fun next hstep ↦ ?_⟩
  obtain rfl := Option.some.inj hstep
  refine ⟨trivial, fun next hstep ↦ ?_⟩
  obtain rfl := Option.some.inj hstep
  refine ⟨trivial, fun next hstep ↦ ?_⟩
  obtain rfl := Option.some.inj hstep
  refine ⟨trivial, fun next hstep ↦ ?_⟩
  obtain rfl := Option.some.inj hstep
  refine ⟨fun batch answer hphase hanswer i pending hget _ ↦ ?_, fun next hstep ↦ ?_⟩
  · obtain rfl := Phase.flushing.inj hphase
    obtain rfl := Except.ok.inj hanswer
    match i with
    | 0 => exact ⟨[1], rfl, by decide⟩
    | 1 => exact ⟨[2], rfl, by decide⟩
    | _ + 2 => cases hget
  obtain rfl := Option.some.inj hstep
  refine ⟨trivial, fun next hstep ↦ ?_⟩
  obtain rfl := Option.some.inj hstep
  refine ⟨trivial, fun next hstep ↦ ?_⟩
  obtain rfl := Option.some.inj hstep
  exact ⟨trivial, fun _ _ ↦ trivial⟩

theorem served_twoCalls :
    Throughout (step fun _ ↦ "text") (Served fun _ ↦ "text") start
        (twoCalls (.ok ⟨[[1], [2]], 0⟩)) ∧
      ∀ final, run (step fun _ ↦ "text") start (twoCalls (.ok ⟨[[1], [2]], 0⟩)) = some final →
        ∀ call, (twoCalls (.ok ⟨[[1], [2]], 0⟩)).countP (fun event ↦ event.call = call) ≤ 5 :=
  served_of_harmless (fun _ ↦ "text") harmless_twoCalls

/-- The first of two calls is cancelled while it waits for the service with both texts. -/
def firstCancelled : List Event :=
  [.embedOne 0, .embedOne 1, .push 0, .push 1, .wake 0, .cancel 0, .wake 1, .receive 1]

def lastCancelled : List Event := [.embedOne 0, .push 0, .cancel 0]

/-- A service that leaves a text out, a call that is cancelled with the text of another one, and one
that is cancelled in its sleep: the second call gets an empty vector, or an error of the first one,
and a text is left in the list. -/
theorem not_served :
    ¬ Throughout (step fun _ ↦ "text") (Served fun _ ↦ "text") start
        (twoCalls (.ok ⟨[[1]], 0⟩)) ∧
      ¬ Throughout (step fun _ ↦ "text") (Served fun _ ↦ "text") start firstCancelled ∧
      ¬ Throughout (step fun _ ↦ "text") (Served fun _ ↦ "text") start lastCancelled := by
  refine ⟨fun h ↦ ?_, fun h ↦ ?_, fun h ↦ ?_⟩
  · have hserved := h (twoCalls (.ok ⟨[[1]], 0⟩)) [] (List.append_nil _).symm _ rfl
    exact (hserved.own 1 (.ok []) rfl).1 rfl
  · have hserved := h firstCancelled [] (List.append_nil _).symm _ rfl
    obtain ⟨batch, cause, hanswer, -⟩ :=
      hserved.own 1 (.error (.apiError "Batch cancelled")) rfl
    cases hanswer
  · have hserved := h lastCancelled [] (List.append_nil _).symm _ rfl
    have hidle : ∀ call, ¬ Phase.InProgress (Function.update (Function.update (Function.update
        (fun _ ↦ Phase.unborn) 0 .locking) 0 .sleeping) 0 .cancelled call) := by
      intro call
      by_cases hcall : call = 0
      · rw [hcall, Function.update_self]
        exact id
      · rw [Function.update_of_ne hcall, Function.update_of_ne hcall, Function.update_of_ne hcall]
        exact id
    exact List.cons_ne_nil _ _ (hserved.empty hidle)

end MongoCore.Search.BatchEmbedding
