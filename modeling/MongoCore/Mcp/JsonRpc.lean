import MongoCore.Compiled.QuerySafety
import MongoCore.Mcp.AnsweredRequests
import Mathlib.Data.List.Nodup

/-!
# The discipline of JSON-RPC over stdio

Requests, notifications and the replies to sampling requests arrive as lines of one stream.  A
ledger beside the loop keeps what every line was, what was written for it, and which sampling
requests were written.

The main result says which runs keep to the discipline: all those in which no notification is
handled to its end, no call for a request with an id panics, and every reply carries the id of a
pending sampling request.  If, moreover, no sampling request is made while the channel is full, then
a request that is handled can always be answered.  That the host reads what is written is not
claimed.
-/

namespace MongoCore.Mcp

open MongoCore.Data MongoCore.Compiled MongoCore.Library.TransitionSystem
open MongoCore.Operations.Placeholders

variable {Regex : Type}

/-! ## Messages -/

/-- What a line of the host is.  An object with a result or an error is a reply; another one that
reads as a request is a notification if it has no id. -/
inductive Message where
  | blank
  | notJson
  | reply (value : Json)
  | request (id : Json)
  | notification
  | invalid

def Server.message (server : Server Regex) (text : String) : Message :=
  let line := trim text.toList
  if line.isEmpty then .blank
  else
    match server.crates.fromStr (String.ofList line) with
    | .error _ => .notJson
    | .ok value =>
        match value with
        | .object _ =>
            if (value.get? "result").isSome || (value.get? "error").isSome then .reply value
            else
              match server.readRequest value with
              | .error _ => .invalid
              | .ok _ =>
                  match value.get? "id" with
                  | some id => .request id
                  | none => .notification
        | _ => .invalid

/-- The id of a request is read from its member; no id and null are the same. -/
def ReadsIds (server : Server Regex) : Prop :=
  ∀ members request, server.readRequest (.object members) = .ok request →
    request.id.getD .null = ((Json.object members).get? "id").getD .null

/-! ## The ledger -/

def Output.samplingId? : Output → Option String
  | .createMessage id _ _ _ => some id
  | .error _ _ _ | .result _ => none

/-- A line, the states before and after it is read, and what is written for it. -/
structure Exchange (Regex : Type) where
  message : Message
  before : State Regex
  after : State Regex
  outputs : List Output

/-- The messages in all lines that were read, the lines that are dealt with, the line whose request is
handled, and the sampling requests that were written, with their slots. -/
structure Ledger (Regex : Type) where
  lines : List Message
  exchanges : List (Exchange Regex)
  current : Option (Exchange Regex)
  written : List (String × ℕ)

/-- What has been written by a step. -/
def State.newOutputs (state next : State Regex) : List Output :=
  next.stdout.drop state.stdout.length

def State.handled (state : State Regex) : Option (Option Json) :=
  match state.loop with
  | .handling id _ _ => some id
  | .selecting | .stopped => none

/-- The event reads or writes a line, or ends the loop. -/
def Event.OnWire : Event → Bool
  | .line _ | .endOfInput | .recv | .respond | .panic _ => true
  | .call _ | .look _ _ | .answer _ _ | .send _ | .receive _ | .timeout _ | .read _ _ | .finish _
  | .cacheChange _ => false

/-- A line is dealt with at once, or its request is handled. -/
def Ledger.read (ledger : Ledger Regex) (exchange : Exchange Regex) : Ledger Regex :=
  let lines := ledger.lines ++ [exchange.message]
  if exchange.after.handled.isSome then { ledger with lines := lines, current := some exchange }
  else { ledger with lines := lines, exchanges := ledger.exchanges ++ [exchange] }

def Ledger.record (server : Server Regex) (ledger : Ledger Regex) (state next : State Regex) :
    Event → Ledger Regex
  | .line text => ledger.read ⟨server.message text, state, next, state.newOutputs next⟩
  | .respond =>
      { ledger with
        exchanges := ledger.exchanges ++ (ledger.current.map fun exchange ↦
          { exchange with outputs := state.newOutputs next }).toList
        current := none }
  | .recv =>
      { ledger with
        written := ledger.written ++ (state.channel.head?.map fun request ↦
          (s!"sampling-{next.samplingIdCounter}", request.slot)).toList }
  | _ => ledger

def Server.ledgerStep (server : Server Regex) :
    State Regex × Ledger Regex → Event → Option (State Regex × Ledger Regex)
  | (state, ledger), event => (server.step state event).map fun next ↦
      (next, ledger.record server state next event)

/-- Nothing has been read or written. -/
def Ledger.empty : Ledger Regex where
  lines := []
  exchanges := []
  current := none
  written := []

/-! ## The discipline -/

/-- A reply completes the one pending request whose id it carries: its sender gets the answer. -/
def Completes (value : Json) (before after : State Regex) : Prop :=
  ∃ id slot, value.get? "id" = some (.string id) ∧ (id, slot) ∈ before.pending ∧
    after = { before with
      pending := before.pending.erase (id, slot)
      answers := before.answers ++ [(slot, samplingResult value)] }

/-- A line has got what it should get.  Nothing is said about a line that is neither a request nor a
reply. -/
def Exchange.Proper (exchange : Exchange Regex) : Prop :=
  match exchange.message with
  | .blank | .notification => exchange.outputs = []
  | .notJson => ∃ reason, exchange.outputs = [.error none (-32700) reason]
  | .request id => ∃ output, exchange.outputs = [output] ∧ output.Carries id
  | .reply value => exchange.outputs = [] ∧
      (exchange.after = exchange.before ∨ Completes value exchange.before exchange.after)
  | .invalid => True

/-- Nothing but a request is handled. -/
def Message.MayBeHandled : Message → Prop
  | .blank | .notJson | .reply _ => False
  | .request _ | .notification | .invalid => True

def Message.IsRequest : Message → Prop
  | .request _ => True
  | .blank | .notJson | .reply _ | .notification | .invalid => False

/-- The discipline: every line that was read is dealt with or handled, and a request with an id is
dealt with when the loop does not handle it any more; every line that is dealt with has got what it
should get, a reply is never handled as a request, there are no other responses, and the sampling
requests that are written have ids of their own and are written once. -/
structure Disciplined (books : State Regex × Ledger Regex) : Prop where
  lines : books.2.lines =
    books.2.exchanges.map Exchange.message ++ (books.2.current.map Exchange.message).toList
  answered : books.1.handled = none → ∀ exchange, books.2.current = some exchange →
    ¬ exchange.message.IsRequest
  exchanges : ∀ exchange ∈ books.2.exchanges, exchange.Proper
  current : ∀ exchange, books.2.current = some exchange → exchange.message.MayBeHandled
  responses : books.1.stdout.filter (fun output ↦ output.samplingId?.isNone) =
    books.2.exchanges.flatMap Exchange.outputs
  requests : books.1.stdout.filterMap Output.samplingId? = books.2.written.map Prod.fst
  fresh : (books.2.written.map Prod.fst).Nodup
  once : (books.2.written.map Prod.snd).Nodup

/-- A reply answers a pending sampling request, the request whose handling comes to an end is not a
notification, and no call for a request with an id panics. -/
def Server.Expected (server : Server Regex) (books : State Regex × Ledger Regex) : Event → Prop
  | .line text => ∀ value, server.message text = .reply value →
      books.1.loop = .selecting → (Server.answered books.1 value).isSome
  | .respond => ∀ id failure tasks, books.1.loop = .handling id failure tasks →
      (tasks.all fun task ↦ task matches .done) = true →
        ∀ exchange, books.2.current = some exchange → exchange.message ≠ .notification
  | .panic i => (server.step books.1 (.panic i)).isSome = true →
      ∀ exchange, books.2.current = some exchange → ¬ exchange.message.IsRequest
  | _ => True

/-! ## Sampling requests that are not written yet -/

/-- The slot of the request that a task holds. -/
def Task.unsent : Task → List ℕ
  | .sending _ request => [request.slot]
  | _ => []

/-- The slots of the requests in the channel or held by tasks. -/
def State.unsent (state : State Regex) : List ℕ :=
  state.channel.map SamplingRequest.slot ++ state.tasks.flatMap Task.unsent

theorem count_splice {tasks : List Task} {i : ℕ} {task : Task} (htask : tasks[i]? = some task)
    (others : List Task) (slot : ℕ) :
    ((splice tasks i others).flatMap Task.unsent).count slot + task.unsent.count slot =
      (tasks.flatMap Task.unsent).count slot + (others.flatMap Task.unsent).count slot := by
  obtain ⟨hi, rfl⟩ := List.getElem?_eq_some_iff.mp htask
  have hsplit : tasks = tasks.take i ++ tasks[i] :: tasks.drop (i + 1) := by
    rw [← List.drop_eq_getElem_cons hi, List.take_append_drop]
  have hcount : (tasks.flatMap Task.unsent).count slot =
      ((tasks.take i).flatMap Task.unsent).count slot + (tasks[i].unsent.count slot +
        ((tasks.drop (i + 1)).flatMap Task.unsent).count slot) := by
    conv_lhs => rw [hsplit]
    rw [List.flatMap_append, List.flatMap_cons, List.count_append, List.count_append]
  rw [hcount]
  simp only [splice, List.flatMap_append, List.count_append]
  omega

namespace State

variable (state : State Regex) (i : ℕ) (others : List Task)

@[simp] theorem pending_replace : (state.replace i others).pending = state.pending := by
  unfold replace
  cases state.loop <;> rfl

@[simp] theorem samplingIdCounter_replace :
    (state.replace i others).samplingIdCounter = state.samplingIdCounter := by
  unfold replace
  cases state.loop <;> rfl

@[simp] theorem slots_replace : (state.replace i others).slots = state.slots := by
  unfold replace
  cases state.loop <;> rfl

theorem selecting_of_replace (h : (state.replace i others).loop = .selecting) :
    state.loop = .selecting := by
  unfold replace at h
  cases hloop : state.loop <;> simp_all

@[simp] theorem handled_replace : (state.replace i others).handled = state.handled := by
  unfold replace handled
  cases hloop : state.loop <;> simp [hloop]

/-- The tasks after a replacement. -/
theorem tasks_replace {task : Task} (htask : state.tasks[i]? = some task) :
    (state.replace i others).tasks = splice state.tasks i others := by
  unfold replace
  unfold tasks at htask ⊢
  cases hloop : state.loop with
  | selecting => simp [hloop] at htask
  | stopped => simp [hloop] at htask
  | handling id failure tasks => rfl

theorem count_unsent_replace {task : Task} (htask : state.tasks[i]? = some task) (slot : ℕ) :
    (state.replace i others).unsent.count slot + task.unsent.count slot =
      state.unsent.count slot + (others.flatMap Task.unsent).count slot := by
  have hsplice := count_splice htask others slot
  simp only [unsent, channel_replace, tasks_replace state i others htask, List.count_append]
  omega

end State

/-! ## What a step does to the lines -/

/-- A step of a task neither reads nor writes a line; it may make sampling requests with new
slots. -/
structure Internal (state next : State Regex) : Prop where
  stdout : next.stdout = state.stdout
  pending : next.pending = state.pending
  samplingIdCounter : next.samplingIdCounter = state.samplingIdCounter
  handled : next.handled = state.handled
  selecting : next.loop = .selecting → state.loop = .selecting
  slots : state.slots ≤ next.slots
  unsent : ∀ slot, next.unsent.count slot = state.unsent.count slot +
    if state.slots ≤ slot ∧ slot < next.slots then 1 else 0

namespace Server

variable {server : Server Regex} {state next : State Regex} {i : ℕ}

/-- A task is replaced by others that hold as many sampling requests. -/
theorem internal_replace {task : Task} (htask : state.tasks[i]? = some task) {others : List Task}
    (hsame : others.flatMap Task.unsent = task.unsent) : Internal state (state.replace i others) where
  stdout := state.stdout_replace i others
  pending := state.pending_replace i others
  samplingIdCounter := state.samplingIdCounter_replace i others
  handled := state.handled_replace i others
  selecting := state.selecting_of_replace i others
  slots := (state.slots_replace i others).ge
  unsent slot := by
    have hcount := state.count_unsent_replace i others htask slot
    rw [hsame] at hcount
    rw [State.slots_replace, if_neg (by omega)]
    omega

theorem internal_translated {task : Task} (htask : state.tasks[i]? = some task)
    (hnone : task.unsent = [])
    (result : Except TranslateError (CompiledQuery × CompiledQueryTranslator Regex)) :
    Internal state (translated state i result) := by
  have hdone : [Task.done].flatMap Task.unsent = task.unsent := hnone.symm
  have hfinishing : [Task.finishing].flatMap Task.unsent = task.unsent := hnone.symm
  cases result with
  | error error => exact internal_replace htask hdone
  | ok pair =>
    have hsame : (State.tasks { state with translator := some pair.2 })[i]? = some task := htask
    have hinternal : Internal { state with translator := some pair.2 }
        (State.replace { state with translator := some pair.2 } i [.finishing]) :=
      internal_replace hsame hfinishing
    exact ⟨hinternal.stdout, hinternal.pending, hinternal.samplingIdCounter, hinternal.handled,
      hinternal.selecting, hinternal.slots, hinternal.unsent⟩

theorem internal_complete {task : Task} (htask : state.tasks[i]? = some task)
    (hnone : task.unsent = []) (translator : CompiledQueryTranslator Regex) (question : Question)
    (response : Except LlmError String) :
    Internal state (server.complete state translator i question response) := by
  unfold complete
  cases response <;> exact internal_translated htask hnone _

/-- A sampling request with a new slot goes into the channel, or stays with its task. -/
theorem internal_sample {task : Task} (htask : state.tasks[i]? = some task)
    (hnone : task.unsent = []) (question : Question) {request : SamplingRequest}
    (hslot : request.slot = state.slots) : Internal state (sample state i question request) := by
  have hnew : ∀ slot, (if state.slots ≤ slot ∧ slot < state.slots + 1 then 1 else 0) =
      [request.slot].count slot := by
    intro slot
    rw [hslot, List.count_singleton]
    by_cases heq : state.slots = slot
    · rw [if_pos (by omega), if_pos (beq_iff_eq.mpr heq)]
    · rw [if_neg (by omega), if_neg (by simpa using heq)]
  unfold sample
  split_ifs with hroom
  · refine ⟨by simp, by simp, by simp, State.handled_replace _ i _, State.selecting_of_replace _ i _,
      by simp, fun slot ↦ ?_⟩
    have hcount := State.count_unsent_replace
      { state with channel := state.channel ++ [request], slots := state.slots + 1 } i
      [.awaiting question request.slot] htask slot
    rw [State.slots_replace, hnew]
    rw [hnone] at hcount
    simp only [State.unsent, State.tasks, List.map_append, List.map_singleton, List.count_append,
      List.flatMap_singleton, Task.unsent, List.count_nil] at hcount ⊢
    omega
  · refine ⟨by simp, by simp, by simp, State.handled_replace _ i _, State.selecting_of_replace _ i _,
      by simp, fun slot ↦ ?_⟩
    have hcount := State.count_unsent_replace { state with slots := state.slots + 1 } i
      [.sending question request] htask slot
    rw [State.slots_replace, hnew]
    rw [hnone] at hcount
    simp only [State.unsent, State.tasks, List.count_append, List.flatMap_singleton, Task.unsent,
      List.count_nil] at hcount ⊢
    omega

theorem internal_look {question : Question} (htask : state.tasks[i]? = some (.looking question))
    (translator : CompiledQueryTranslator Regex) (sampleDocuments : List String) :
    Internal state (server.look state translator i question sampleDocuments) := by
  unfold look
  split
  · exact internal_replace htask rfl
  · split
    · exact internal_translated htask rfl _
    · split
      · exact internal_replace htask rfl
      · exact internal_replace htask rfl
      · exact internal_sample htask rfl question rfl

/-- The tasks that a call starts hold no sampling request. -/
theorem unsent_startTool (translator : Option (CompiledQueryTranslator Regex)) (name : String)
    (arguments : Json) : (server.startTool translator name arguments).flatMap Task.unsent = [] := by
  unfold startTool
  split
  · split
    · rfl
    · rw [List.flatMap_map]
      exact List.flatMap_eq_nil_iff.mpr fun operation _ ↦ rfl
  · split
    · rfl
    · split <;> rfl

/-- A waiting request goes into the channel. -/
theorem internal_send {question : Question} {request : SamplingRequest}
    (htask : state.tasks[i]? = some (.sending question request)) :
    Internal state (State.replace { state with channel := state.channel ++ [request] } i
      [.awaiting question request.slot]) := by
  refine ⟨by simp, by simp, by simp, State.handled_replace _ i _, State.selecting_of_replace _ i _,
      by simp, fun slot ↦ ?_⟩
  have hcount := State.count_unsent_replace { state with channel := state.channel ++ [request] } i
    [.awaiting question request.slot] htask slot
  rw [State.slots_replace, if_neg (by simp only; omega)]
  simp only [State.unsent, State.tasks, List.map_append, List.map_singleton, List.count_append,
    List.flatMap_singleton, Task.unsent, List.count_nil] at hcount ⊢
  omega

/-- Every event that neither reads nor writes a line, nor ends the input, is a step of a task. -/
theorem internal_step {event : Event} (hstep : server.step state event = some next)
    (hwire : event.OnWire = false) : Internal state next := by
  cases event with
  | line | endOfInput | recv | respond | panic => cases hwire
  | call i =>
    simp only [step] at hstep
    split at hstep
    · rename_i htask
      exact Option.some.inj hstep ▸ internal_replace htask (unsent_startTool _ _ _)
    · cases hstep
  | look i sampleDocuments =>
    simp only [step] at hstep
    split at hstep
    · rename_i htask _
      exact Option.some.inj hstep ▸ internal_look htask _ sampleDocuments
    · cases hstep
  | answer i response =>
    simp only [step] at hstep
    split at hstep
    · rename_i htask _
      exact Option.some.inj hstep ▸ internal_complete htask rfl _ _ response
    · cases hstep
  | send i =>
    simp only [step] at hstep
    split at hstep
    · rename_i htask
      split_ifs at hstep
      exact Option.some.inj hstep ▸ internal_send htask
    · cases hstep
  | receive i =>
    simp only [step] at hstep
    split at hstep
    · rename_i htask _
      obtain ⟨response, _, rfl⟩ := Option.map_eq_some_iff.mp hstep
      exact internal_complete htask rfl _ _ response
    · cases hstep
  | timeout i =>
    simp only [step] at hstep
    split at hstep
    · rename_i htask
      exact Option.some.inj hstep ▸ internal_replace htask rfl
    · cases hstep
  | read i error =>
    simp only [step] at hstep
    split at hstep
    · rename_i id failure tasks htask hloop
      have hreplaced : Internal state (state.replace i [.done]) := internal_replace htask rfl
      obtain rfl := Option.some.inj hstep
      refine ⟨rfl, rfl, rfl, by simp [State.handled, hloop], fun h ↦ (by cases h), le_rfl,
        fun slot ↦ ?_⟩
      have hlength : i < tasks.length := by
        simp only [State.tasks, hloop] at htask
        exact (List.getElem?_eq_some_iff.mp htask).1
      have hset : tasks.set i .done = splice tasks i [.done] := by
        rw [List.set_eq_take_append_cons_drop, if_pos hlength, splice, List.append_assoc]
        rfl
      have hcount := hreplaced.unsent slot
      simp only [State.unsent, State.tasks, State.replace, hloop] at hcount ⊢
      rwa [hset]
    · cases hstep
  | finish i =>
    simp only [step] at hstep
    split at hstep
    · rename_i htask
      exact Option.some.inj hstep ▸ internal_replace htask rfl
    · cases hstep
  | cacheChange cache =>
    obtain rfl := Option.some.inj hstep
    exact ⟨rfl, rfl, rfl, rfl, fun h ↦ h, le_rfl, fun slot ↦ by rw [if_neg (by simp only; omega)]; rfl⟩

/-! ## What a line does -/

theorem handleRequest_eq (server : Server Regex) (request : JsonRpcRequest) :
    ∃ failure tasks, server.handleRequest request = .handling request.id failure tasks ∧
      tasks.flatMap Task.unsent = [] := by
  unfold handleRequest
  split_ifs
  · exact ⟨_, _, rfl, rfl⟩
  · split
    · exact ⟨_, _, rfl, rfl⟩
    · split <;> exact ⟨_, _, rfl, rfl⟩
  · exact ⟨_, _, rfl, rfl⟩
  · split
    · exact ⟨_, _, rfl, rfl⟩
    · split_ifs <;> exact ⟨_, _, rfl, rfl⟩
  · exact ⟨_, _, rfl, rfl⟩

/-- What is read becomes of the message in the line.  A reply that is not waited for goes the way of
a request. -/
inductive LineCase (server : Server Regex) (state : State Regex) : Message → State Regex → Prop
  | blank : LineCase server state .blank state
  | notJson (reason : String) :
      LineCase server state .notJson (state.write (.error none (-32700) reason))
  | answered {value : Json} {id : String} {slot : ℕ} (h : answered state value = some (id, slot)) :
      LineCase server state (.reply value) { state with
        pending := state.pending.filter fun entry ↦ entry.1 ≠ id
        answers := state.answers ++ [(slot, samplingResult value)] }
  | late {value : Json} {next : State Regex} (h : answered state value = none)
      (hnext : (∃ reason, next = state.write (.error none (-32700) reason)) ∨
        ∃ request, next = { state with loop := server.handleRequest request }) :
      LineCase server state (.reply value) next
  | request {own : Json} {request : JsonRpcRequest} (hid : request.id.getD .null = own) :
      LineCase server state (.request own) { state with loop := server.handleRequest request }
  | notification (request : JsonRpcRequest) :
      LineCase server state .notification { state with loop := server.handleRequest request }
  | invalid {next : State Regex}
      (hnext : (∃ reason, next = state.write (.error none (-32700) reason)) ∨
        ∃ request, next = { state with loop := server.handleRequest request }) :
      LineCase server state .invalid next

/-- What follows on a value that answers nothing. -/
theorem unanswered (server : Server Regex) (state : State Regex) (value : Json) :
    let next := match server.readRequest value with
      | .error reason => state.write (.error none (-32700) s!"Parse error: {reason}")
      | .ok request => { state with loop := server.handleRequest request }
    (∃ reason, next = state.write (.error none (-32700) reason)) ∨
      ∃ request, next = { state with loop := server.handleRequest request } := by
  cases server.readRequest value with
  | error reason => exact .inl ⟨_, rfl⟩
  | ok request => exact .inr ⟨request, rfl⟩

theorem lineCase_readLine (hreads : ReadsIds server) (text : String) :
    LineCase server state (server.message text) (server.readLine state text) := by
  unfold message readLine
  simp only
  split_ifs with hblank
  · exact .blank
  · cases server.crates.fromStr (String.ofList (trim text.toList)) with
    | error reason => exact .notJson _
    | ok value =>
      cases value with
      | object members =>
        simp only
        by_cases hreply : (((Json.object members).get? "result").isSome ||
            ((Json.object members).get? "error").isSome) = true
        · rw [if_pos hreply]
          cases hanswered : answered state (.object members) with
          | some pair => exact .answered hanswered
          | none => exact .late hanswered (unanswered server state _)
        · have hanswered : answered state (.object members) = none := if_neg hreply
          rw [if_neg hreply]
          simp only [hanswered]
          cases hrequest : server.readRequest (.object members) with
          | error reason => exact .invalid (.inl ⟨_, rfl⟩)
          | ok request =>
            have hid := hreads members request hrequest
            simp only
            cases hmember : (Json.object members).get? "id" with
            | none => exact .notification request
            | some own =>
              rw [hmember] at hid
              exact .request hid
      | _ => exact .invalid (unanswered server state _)

/-! ## The invariant -/

/-- The books are in order: the discipline is kept so far, the request that is handled has the id of
its line, the ids of the sampling requests count up, the pending ones are among those written, and
no slot is used twice. -/
structure Sound (books : State Regex × Ledger Regex) : Prop where
  disciplined : Disciplined books
  idle : books.1.loop = .selecting → books.2.current = none
  handling : ∀ id, books.1.handled = some id → ∃ exchange, books.2.current = some exchange ∧
    ∀ own, exchange.message = .request own → id.getD .null = own
  written : books.2.written.map Prod.fst =
    (List.range books.1.samplingIdCounter).map fun n ↦ s!"sampling-{n + 1}"
  pending : books.1.pending.Sublist books.2.written.reverse
  slots : ∀ slot, books.1.unsent.count slot + (books.2.written.map Prod.snd).count slot ≤
    if slot < books.1.slots then 1 else 0

/-- Different counts give different ids. -/
theorem samplingId_injective : Function.Injective fun n : ℕ ↦ s!"sampling-{n + 1}" :=
  (numbered_injective "sampling-").comp Nat.succ_injective

theorem fresh_of_counting {written : List (String × ℕ)} {count : ℕ}
    (h : written.map Prod.fst = (List.range count).map fun n ↦ s!"sampling-{n + 1}") :
    (written.map Prod.fst).Nodup := by
  rw [h]
  exact List.Nodup.map samplingId_injective List.nodup_range

theorem once_of_slots {unsent written : List ℕ} {slots : ℕ}
    (h : ∀ slot, unsent.count slot + written.count slot ≤ if slot < slots then 1 else 0) :
    written.Nodup := by
  refine List.nodup_iff_count_le_one.mpr fun slot ↦ ?_
  have hcount := h slot
  split_ifs at hcount <;> omega

theorem sound_initial (translator : Option (CompiledQueryTranslator Regex)) :
    Sound (State.initial translator, Ledger.empty) where
  disciplined := ⟨rfl, fun _ _ hcurrent ↦ absurd hcurrent (Option.some_ne_none _).symm,
    fun _ hmem ↦ absurd hmem List.not_mem_nil, fun _ hcurrent ↦ absurd hcurrent (Option.some_ne_none _).symm, rfl, rfl, List.nodup_nil,
    List.nodup_nil⟩
  idle _ := rfl
  handling id hhandled := by cases hhandled
  written := rfl
  pending := List.Sublist.refl _
  slots slot := Nat.zero_le _

/-- A step of a task leaves the books in order. -/
theorem Sound.internal {ledger : Ledger Regex} (h : Sound (state, ledger))
    (hstep : Internal state next) : Sound (next, ledger) := by
  refine ⟨⟨h.disciplined.lines, fun hhandled ↦ h.disciplined.answered
    (hstep.handled.symm.trans hhandled), h.disciplined.exchanges, h.disciplined.current, ?_, ?_,
    h.disciplined.fresh, h.disciplined.once⟩, fun hloop ↦ h.idle (hstep.selecting hloop), ?_, ?_, ?_,
    ?_⟩
  · exact hstep.stdout ▸ h.disciplined.responses
  · exact hstep.stdout ▸ h.disciplined.requests
  · exact fun id hhandled ↦ h.handling id (hstep.handled.symm.trans hhandled)
  · exact h.written.trans (by rw [hstep.samplingIdCounter])
  · exact hstep.pending ▸ h.pending
  · intro slot
    have hbefore := h.slots slot
    have hslots := hstep.slots
    have hcount := hstep.unsent slot
    simp only at hbefore ⊢
    split_ifs at hbefore hcount ⊢ <;> omega

/-- A sampling request that is written goes into the books with its slot. -/
theorem Sound.recv {ledger : Ledger Regex} (h : Sound (state, ledger))
    (hstep : server.step state .recv = some next) :
    Sound (next, ledger.record server state next .recv) := by
  simp only [step] at hstep
  cases hloop : state.loop with
  | handling => simp [hloop] at hstep
  | stopped => simp [hloop] at hstep
  | selecting =>
    cases hchannel : state.channel with
    | nil => simp [hloop, hchannel] at hstep
    | cons request rest =>
      simp only [hloop, hchannel] at hstep
      obtain rfl := Option.some.inj hstep
      have hwritten : (ledger.written ++ [(s!"sampling-{state.samplingIdCounter + 1}",
          request.slot)]).map Prod.fst =
            (List.range (state.samplingIdCounter + 1)).map fun n ↦ s!"sampling-{n + 1}" := by
        rw [List.map_append, h.written, List.range_succ, List.map_append]
        rfl
      have hslots : ∀ slot, (rest.map SamplingRequest.slot).count slot +
          ((ledger.written ++ [(s!"sampling-{state.samplingIdCounter + 1}",
            request.slot)]).map Prod.snd).count slot ≤ if slot < state.slots then 1 else 0 := by
        intro slot
        have hbefore := h.slots slot
        simp only [State.unsent, State.tasks, hloop, hchannel, List.map_cons, List.flatMap_nil,
          List.append_nil, List.count_cons] at hbefore
        simp only [List.map_append, List.map_cons, List.map_nil, List.count_append, List.count_cons,
          List.count_nil]
        omega
      simp only [Ledger.record, hchannel, List.head?_cons, Option.map_some, Option.toList_some]
      have hidle : ledger.current = none := h.idle hloop
      refine ⟨⟨h.disciplined.lines, fun _ exchange hcurrent ↦ ?_, h.disciplined.exchanges,
        h.disciplined.current, ?_, ?_, fresh_of_counting hwritten, once_of_slots hslots⟩,
        fun _ ↦ hidle, ?_, hwritten, ?_, ?_⟩
      · exact absurd (hidle.symm.trans hcurrent) (Option.some_ne_none _).symm
      · simp only [List.filter_append]
        exact (List.append_nil _).trans h.disciplined.responses
      · simp only [List.filterMap_append, List.map_append]
        rw [h.disciplined.requests]
        rfl
      · exact fun id hhandled ↦ h.handling id (absurd hhandled (by simp [State.handled]))
      · simp only [List.reverse_append, List.reverse_cons, List.reverse_nil, List.nil_append,
          List.singleton_append]
        exact h.pending.cons_cons _
      · intro slot
        simpa [State.unsent, State.tasks, hloop] using hslots slot

/-- What reading a line, or responding to it, does to the rest of the state. -/
structure Read (state next : State Regex) (outputs : List Output) : Prop where
  stdout : next.stdout = state.stdout ++ outputs
  responses : ∀ output ∈ outputs, output.samplingId? = none
  pending : next.pending.Sublist state.pending
  samplingIdCounter : next.samplingIdCounter = state.samplingIdCounter
  slots : next.slots = state.slots
  unsent : next.unsent.Sublist state.unsent

theorem Read.newOutputs {outputs : List Output} (h : Read state next outputs) :
    state.newOutputs next = outputs := by
  rw [State.newOutputs, h.stdout, List.drop_left]

theorem Sound.slots_of_read {ledger : Ledger Regex} {outputs : List Output}
    (h : Sound (state, ledger)) (hread : Read state next outputs) (slot : ℕ) :
    next.unsent.count slot + (ledger.written.map Prod.snd).count slot ≤
      if slot < next.slots then 1 else 0 := by
  have hcount := hread.unsent.count_le slot
  have hbefore := h.slots slot
  rw [hread.slots]
  simp only at hbefore
  omega

/-- A line has got what it should get. -/
theorem Sound.settle {ledger after : Ledger Regex} {exchange : Exchange Regex}
    (h : Sound (state, ledger)) (hread : Read state next exchange.outputs)
    (hnone : next.handled = none) (hproper : exchange.Proper)
    (hlines : after.lines = after.exchanges.map Exchange.message)
    (hexchanges : after.exchanges = ledger.exchanges ++ [exchange])
    (hcurrent : after.current = none)
    (hwritten : after.written = ledger.written) : Sound (next, after) := by
  have hno : ∀ other, after.current ≠ some other := fun other hother ↦
    absurd (hcurrent.symm.trans hother) (Option.some_ne_none _).symm
  refine ⟨⟨?_, fun _ other hother ↦ absurd hother (hno other), ?_,
    fun other hother ↦ absurd hother (hno other), ?_, ?_, hwritten ▸ h.disciplined.fresh,
    hwritten ▸ h.disciplined.once⟩, fun _ ↦ hcurrent, ?_, ?_, ?_, ?_⟩
  · simp only [hlines, hcurrent, Option.map_none, Option.toList_none, List.append_nil]
  · rw [hexchanges]
    exact List.forall_mem_append.mpr ⟨h.disciplined.exchanges,
      List.forall_mem_singleton.mpr hproper⟩
  · have hall : exchange.outputs.filter (fun output ↦ output.samplingId?.isNone) =
        exchange.outputs := List.filter_eq_self.mpr fun output houtput ↦ by
      rw [hread.responses output houtput]
      rfl
    have hbefore := h.disciplined.responses
    simp only at hbefore ⊢
    rw [hread.stdout, hexchanges, List.filter_append, hbefore, hall, List.flatMap_append,
      List.flatMap_singleton]
  · have hno : exchange.outputs.filterMap Output.samplingId? = [] :=
      List.filterMap_eq_nil_iff.mpr hread.responses
    have hbefore := h.disciplined.requests
    simp only at hbefore ⊢
    rw [hread.stdout, List.filterMap_append, hno, List.append_nil, hwritten, hbefore]
  · intro id hhandled
    rw [hnone] at hhandled
    cases hhandled
  · simp only
    rw [hwritten, hread.samplingIdCounter]
    exact h.written
  · simp only
    rw [hwritten]
    exact hread.pending.trans h.pending
  · intro slot
    simp only
    rw [hwritten]
    exact h.slots_of_read hread slot

/-- The request of a line is handled. -/
theorem Sound.handle {ledger : Ledger Regex} {exchange : Exchange Regex}
    (h : Sound (state, ledger)) (hread : Read state next [])
    (hmay : exchange.message.MayBeHandled) (hloop : state.loop = .selecting)
    (hhandled : next.handled.isSome = true)
    (hid : ∀ id, next.handled = some id → ∀ own, exchange.message = .request own →
      id.getD .null = own) :
    Sound (next, { ledger with
      lines := ledger.lines ++ [exchange.message], current := some exchange }) := by
  have hstdout : next.stdout = state.stdout := hread.stdout.trans (List.append_nil _)
  have hlines := h.disciplined.lines
  have hidle : ledger.current = none := h.idle hloop
  simp only [hidle, Option.map_none, Option.toList_none, List.append_nil] at hlines
  refine ⟨⟨?_, ?_, h.disciplined.exchanges, ?_, ?_, ?_, h.disciplined.fresh, h.disciplined.once⟩,
    ?_, fun id hhandled ↦ ⟨exchange, rfl, hid id hhandled⟩, ?_, hread.pending.trans h.pending,
    h.slots_of_read hread⟩
  · simp only [hlines, Option.map_some, Option.toList_some]
  · intro hnone
    simp only [hnone, Option.isSome_none, Bool.false_eq_true] at hhandled
  · intro other hother
    exact Option.some.inj hother ▸ hmay
  · simp only
    rw [hstdout]
    exact h.disciplined.responses
  · simp only
    rw [hstdout]
    exact h.disciplined.requests
  · intro hselecting
    have hnone : next.handled = none := by rw [State.handled, hselecting]
    rw [hnone] at hhandled
    cases hhandled
  · simp only
    rw [hread.samplingIdCounter]
    exact h.written

/-- The pending request that is answered is the only one with its id. -/
theorem Sound.completes {ledger : Ledger Regex} {value : Json} {id : String} {slot : ℕ}
    (h : Sound (state, ledger)) (hanswered : answered state value = some (id, slot)) :
    Completes value state { state with
      pending := state.pending.filter fun entry ↦ entry.1 ≠ id
      answers := state.answers ++ [(slot, samplingResult value)] } := by
  unfold answered at hanswered
  split_ifs at hanswered
  obtain ⟨own, hown, hlookup⟩ := Option.bind_eq_some_iff.mp hanswered
  obtain ⟨found, hfound, hpair⟩ := Option.map_eq_some_iff.mp hlookup
  obtain ⟨rfl, rfl⟩ := Prod.mk.inj hpair
  have hid : value.get? "id" = some (.string own) := by
    obtain ⟨member, hmember, htext⟩ := Option.bind_eq_some_iff.mp hown
    cases member with
    | string text =>
      obtain rfl := Option.some.inj htext
      exact hmember
    | _ => cases htext
  have hmem : (own, found) ∈ state.pending := by
    obtain ⟨front, back, hsplit, -⟩ := List.lookup_eq_some_iff.mp hfound
    rw [hsplit]
    exact List.mem_append_right _ List.mem_cons_self
  have hnodup : (state.pending.map Prod.fst).Nodup := by
    have hreverse : (ledger.written.reverse.map Prod.fst).Nodup := by
      rw [List.map_reverse]
      exact List.nodup_reverse.mpr h.disciplined.fresh
    exact (h.pending.map Prod.fst).nodup hreverse
  have herase : (state.pending.filter fun entry ↦ entry.1 ≠ own) =
      state.pending.erase (own, found) := by
    rw [hnodup.of_map.erase_eq_filter]
    refine List.filter_congr fun entry hentry ↦ ?_
    have hiff : entry.1 = own ↔ entry = (own, found) :=
      ⟨fun heq ↦ List.inj_on_of_nodup_map hnodup hentry hmem heq, fun heq ↦ congrArg Prod.fst heq⟩
    by_cases heq : entry = (own, found) <;> simp [heq, hiff]
  refine ⟨own, found, hid, hmem, ?_⟩
  rw [herase]

/-! ## Lines and responses -/

theorem handled_of_selecting (hloop : state.loop = .selecting) : state.handled = none := by
  rw [State.handled, hloop]

/-- An error is written for a line. -/
theorem read_write (reason : String) :
    Read state (state.write (.error none (-32700) reason)) [.error none (-32700) reason] where
  stdout := rfl
  responses output houtput := by
    obtain rfl := List.mem_singleton.mp houtput
    rfl
  pending := List.Sublist.refl _
  samplingIdCounter := rfl
  slots := rfl
  unsent := List.Sublist.refl _

/-- The request of a line is handled next. -/
theorem read_handle (server : Server Regex) (hloop : state.loop = .selecting)
    (request : JsonRpcRequest) :
    Read state { state with loop := server.handleRequest request } [] ∧
      State.handled { state with loop := server.handleRequest request } = some request.id := by
  obtain ⟨failure, tasks, hhandling, hunsent⟩ := handleRequest_eq server request
  refine ⟨⟨(List.append_nil _).symm, fun _ houtput ↦ absurd houtput List.not_mem_nil,
    List.Sublist.refl _, rfl, rfl, ?_⟩, ?_⟩
  · simp only [State.unsent, State.tasks, hhandling, hloop, hunsent, List.flatMap_nil]
    exact List.Sublist.refl _
  · simp only [State.handled, hhandling]

theorem Ledger.read_settled (ledger : Ledger Regex) {exchange : Exchange Regex}
    (hnone : exchange.after.handled = none) :
    ledger.read exchange = { ledger with
      lines := ledger.lines ++ [exchange.message]
      exchanges := ledger.exchanges ++ [exchange] } := by
  rw [Ledger.read, hnone]
  rfl

theorem Ledger.read_handled (ledger : Ledger Regex) {exchange : Exchange Regex}
    {id : Option Json} (hsome : exchange.after.handled = some id) :
    ledger.read exchange = { ledger with
      lines := ledger.lines ++ [exchange.message], current := some exchange } := by
  rw [Ledger.read, hsome]
  rfl

/-- A line that is dealt with at once. -/
theorem Sound.read_settled {ledger : Ledger Regex} {message : Message} {outputs : List Output}
    (h : Sound (state, ledger)) (hloop : state.loop = .selecting)
    (hread : Read state next outputs) (hnone : next.handled = none)
    (hproper : (Exchange.mk message state next outputs).Proper) :
    Sound (next, ledger.read ⟨message, state, next, state.newOutputs next⟩) := by
  have hsettled : (Exchange.mk message state next (state.newOutputs next)).after.handled = none :=
    hnone
  rw [Ledger.read_settled ledger hsettled, hread.newOutputs]
  have hexchange : Read state next (Exchange.mk message state next outputs).outputs := hread
  have hlines := h.disciplined.lines
  have hidle : ledger.current = none := h.idle hloop
  simp only [hidle, Option.map_none, Option.toList_none, List.append_nil] at hlines
  refine h.settle hexchange hnone hproper ?_ rfl hidle rfl
  simp only [hlines, List.map_append, List.map_singleton]

/-- A line whose request is handled. -/
theorem Sound.read_handled {ledger : Ledger Regex} {message : Message} (h : Sound (state, ledger))
    (hloop : state.loop = .selecting) (request : JsonRpcRequest) (hmay : message.MayBeHandled)
    (hid : ∀ own, message = .request own → request.id.getD .null = own) :
    Sound ({ state with loop := server.handleRequest request }, ledger.read ⟨message, state,
      { state with loop := server.handleRequest request },
      state.newOutputs { state with loop := server.handleRequest request }⟩) := by
  obtain ⟨hread, hhandled⟩ := read_handle server hloop request
  have hsome : (Exchange.mk message state { state with loop := server.handleRequest request }
      (state.newOutputs { state with loop := server.handleRequest request })).after.handled =
        some request.id := hhandled
  rw [Ledger.read_handled ledger hsome]
  refine h.handle hread hmay hloop (by rw [hhandled]; rfl) fun id hid' own hown ↦ ?_
  obtain rfl := Option.some.inj (hhandled.symm.trans hid')
  exact hid own hown

/-- A line that is expected leaves the books in order. -/
theorem Sound.line {ledger : Ledger Regex} {message : Message} (h : Sound (state, ledger))
    (hloop : state.loop = .selecting) (hcase : LineCase server state message next)
    (hexpected : ∀ value, message = .reply value → (answered state value).isSome) :
    Sound (next, ledger.read ⟨message, state, next, state.newOutputs next⟩) := by
  have hidle : state.handled = none := handled_of_selecting hloop
  cases hcase with
  | blank =>
    refine h.read_settled hloop ⟨(List.append_nil _).symm, ?_, List.Sublist.refl _, rfl, rfl,
      List.Sublist.refl _⟩ hidle rfl
    exact fun _ houtput ↦ absurd houtput List.not_mem_nil
  | notJson reason => exact h.read_settled hloop (read_write reason) hidle ⟨reason, rfl⟩
  | answered hanswered =>
    refine h.read_settled hloop ⟨(List.append_nil _).symm, ?_, List.filter_sublist, rfl, rfl,
      List.Sublist.refl _⟩ hidle ⟨rfl, .inr (h.completes hanswered)⟩
    exact fun _ houtput ↦ absurd houtput List.not_mem_nil
  | late hnone =>
    have hsome := hexpected _ rfl
    rw [hnone] at hsome
    cases hsome
  | request hid =>
    refine h.read_handled hloop _ trivial fun own hown ↦ ?_
    obtain rfl := Message.request.inj hown
    exact hid
  | notification request =>
    exact h.read_handled hloop request trivial fun own hown ↦ Message.noConfusion hown
  | invalid hnext =>
    rcases hnext with ⟨reason, rfl⟩ | ⟨request, rfl⟩
    · exact h.read_settled hloop (read_write reason) hidle trivial
    · exact h.read_handled hloop request trivial fun own hown ↦ Message.noConfusion hown

/-- A late reply gets a response or is handled. -/
theorem not_disciplined_of_late {ledger : Ledger Regex} {value : Json}
    (hloop : state.loop = .selecting) (hnone : answered state value = none)
    (hcase : LineCase server state (.reply value) next) :
    ¬ Disciplined (next, ledger.read ⟨.reply value, state, next, state.newOutputs next⟩) := by
  intro hdisciplined
  cases hcase with
  | answered hanswered =>
    rw [hnone] at hanswered
    cases hanswered
  | late _ hnext =>
    rcases hnext with ⟨reason, rfl⟩ | ⟨request, rfl⟩
    · have hsettled : (Exchange.mk (.reply value) state (state.write (.error none (-32700) reason))
          (state.newOutputs (state.write (.error none (-32700) reason)))).after.handled = none :=
        handled_of_selecting hloop
      rw [Ledger.read_settled ledger hsettled, (read_write reason).newOutputs] at hdisciplined
      have hproper := hdisciplined.exchanges _ (List.mem_append_right _ (List.mem_singleton_self _))
      exact absurd hproper.1 (List.cons_ne_nil _ _)
    · obtain ⟨-, hhandled⟩ := read_handle server hloop request
      have hsome : (Exchange.mk (.reply value) state
          { state with loop := server.handleRequest request } (state.newOutputs
            { state with loop := server.handleRequest request })).after.handled =
              some request.id := hhandled
      rw [Ledger.read_handled ledger hsome] at hdisciplined
      exact hdisciplined.current _ rfl

/-- The response to a request is written when its tasks are done. -/
theorem respond_cases (hstep : server.step state .respond = some next) :
    ∃ id failure tasks output, state.loop = .handling id failure tasks ∧
      (tasks.all fun task ↦ task matches .done) = true ∧
      next = { state.write output with loop := .selecting } ∧
      output.samplingId? = none ∧ output.Carries (id.getD .null) := by
  simp only [step] at hstep
  cases hloop : state.loop with
  | selecting => simp [hloop] at hstep
  | stopped => simp [hloop] at hstep
  | handling id failure tasks =>
    simp only [hloop] at hstep
    split_ifs at hstep with hdone
    refine ⟨id, failure, tasks, _, rfl, hdone, (Option.some.inj hstep).symm, ?_⟩
    cases failure with
    | none => exact ⟨rfl, rfl⟩
    | some error => exact ⟨rfl, rfl⟩

theorem read_respond {output : Output} (hresponse : output.samplingId? = none) :
    Read state { state.write output with loop := .selecting } [output] where
  stdout := rfl
  responses other hother := by
    obtain rfl := List.mem_singleton.mp hother
    exact hresponse
  pending := List.Sublist.refl _
  samplingIdCounter := rfl
  slots := rfl
  unsent := by
    simp only [State.unsent, State.write, State.tasks, List.flatMap_nil, List.append_nil]
    exact List.sublist_append_left _ _

theorem record_respond {ledger : Ledger Regex} {exchange : Exchange Regex} {outputs : List Output}
    (hcurrent : ledger.current = some exchange) (hread : Read state next outputs) :
    ledger.record server state next .respond = { ledger with
      exchanges := ledger.exchanges ++ [{ exchange with outputs := outputs }]
      current := none } := by
  simp only [Ledger.record, hcurrent, hread.newOutputs, Option.map_some, Option.toList_some]

/-- The response to a request with an id leaves the books in order. -/
theorem Sound.respond {ledger : Ledger Regex} (h : Sound (state, ledger))
    (hexpected : server.Expected (state, ledger) .respond)
    (hstep : server.step state .respond = some next) :
    Sound (next, ledger.record server state next .respond) := by
  obtain ⟨id, failure, tasks, output, hloop, hdone, rfl, hresponse, hcarries⟩ :=
    respond_cases hstep
  obtain ⟨exchange, hcurrent, hown⟩ := h.handling id (by rw [State.handled, hloop])
  have hread : Read state { state.write output with loop := .selecting } [output] :=
    read_respond hresponse
  rw [record_respond hcurrent hread]
  have hexchange : Read state { state.write output with loop := .selecting }
      (Exchange.mk exchange.message exchange.before exchange.after [output]).outputs := hread
  refine h.settle hexchange rfl ?_ ?_ rfl rfl rfl
  swap
  · have hlines := h.disciplined.lines
    rw [hcurrent] at hlines
    simpa using hlines
  have hmay := h.disciplined.current exchange hcurrent
  have hnot := hexpected id failure tasks hloop hdone exchange hcurrent
  unfold Exchange.Proper
  cases hmessage : exchange.message with
  | blank | notJson | reply =>
    rw [hmessage] at hmay
    exact hmay.elim
  | request own =>
    rw [hown own hmessage] at hcarries
    exact ⟨output, rfl, hcarries⟩
  | notification => exact absurd hmessage hnot
  | invalid => trivial

/-- At the end of the input nothing is written. -/
theorem Sound.endOfInput {ledger : Ledger Regex} (h : Sound (state, ledger))
    (hstep : server.step state .endOfInput = some next) : Sound (next, ledger) := by
  simp only [step] at hstep
  cases hloop : state.loop with
  | handling => simp [hloop] at hstep
  | stopped => simp [hloop] at hstep
  | selecting =>
    simp only [hloop] at hstep
    obtain rfl := Option.some.inj hstep
    have hidle : ledger.current = none := h.idle hloop
    refine ⟨⟨h.disciplined.lines, fun _ exchange hcurrent ↦ ?_, h.disciplined.exchanges,
      h.disciplined.current, h.disciplined.responses, h.disciplined.requests, h.disciplined.fresh,
      h.disciplined.once⟩, fun _ ↦ hidle, fun id hhandled ↦ ?_, h.written, List.nil_sublist _,
      fun slot ↦ ?_⟩
    · exact absurd (hidle.symm.trans hcurrent) (Option.some_ne_none _).symm
    · cases hhandled
    · have hbefore := h.slots slot
      simp only [State.unsent, State.tasks, List.map_nil, List.flatMap_nil, List.append_nil,
        List.count_nil] at hbefore ⊢
      omega

/-- What is left when a call panics. -/
theorem eq_of_panic {i : ℕ} (hstep : server.step state (.panic i) = some next) :
    next = { state with loop := .stopped, channel := [], pending := [] } := by
  simp only [step] at hstep
  split at hstep
  · cases hstep
  · exact (Option.some.inj hstep).symm
  · cases hstep

/-- When a call panics nothing is written. -/
theorem Sound.panic {ledger : Ledger Regex} {i : ℕ} (h : Sound (state, ledger))
    (hexpected : server.Expected (state, ledger) (.panic i))
    (hstep : server.step state (.panic i) = some next) : Sound (next, ledger) := by
  have henabled : (server.step state (.panic i)).isSome = true := by rw [hstep]; rfl
  obtain rfl := eq_of_panic hstep
  refine ⟨⟨h.disciplined.lines, fun _ ↦ hexpected henabled, h.disciplined.exchanges,
    h.disciplined.current, h.disciplined.responses, h.disciplined.requests, h.disciplined.fresh,
    h.disciplined.once⟩, fun hloop ↦ (by cases hloop), fun id hhandled ↦ (by cases hhandled),
    h.written, List.nil_sublist _, fun slot ↦ ?_⟩
  have hbefore := h.slots slot
  simp only [State.unsent, State.tasks, List.map_nil, List.flatMap_nil, List.append_nil,
    List.count_nil] at hbefore ⊢
  omega

variable (server) in
/-- A response to a notification breaks the discipline. -/
theorem not_disciplined_of_notification {ledger : Ledger Regex} {exchange : Exchange Regex}
    {id : Option Json} {failure : Option (ℤ × String)} {tasks : List Task}
    (hloop : state.loop = .handling id failure tasks)
    (hdone : (tasks.all fun task ↦ task matches .done) = true)
    (hcurrent : ledger.current = some exchange) (hmessage : exchange.message = .notification) :
    ∃ next, server.step state .respond = some next ∧
      ¬ Disciplined (next, ledger.record server state next .respond) := by
  have hstep : ∃ next, server.step state .respond = some next := by
    simp only [step, hloop]
    exact ⟨_, if_pos hdone⟩
  obtain ⟨next, hstep⟩ := hstep
  obtain ⟨_, _, _, output, _, _, rfl, hresponse, _⟩ := respond_cases hstep
  have hread : Read state { state.write output with loop := .selecting } [output] :=
    read_respond hresponse
  refine ⟨_, hstep, fun hdisciplined ↦ ?_⟩
  rw [record_respond hcurrent hread] at hdisciplined
  have hproper := hdisciplined.exchanges _ (List.mem_append_right _ (List.mem_singleton_self _))
  simp only [Exchange.Proper, hmessage] at hproper
  exact absurd hproper (List.cons_ne_nil _ _)

/-! ## Runs -/

variable (server) in
/-- The discipline is kept all along a run exactly if every reply that is read answers a pending
sampling request, no notification is handled to its end, and no call for a request with an id panics.
If no sampling request is made while the channel is full, a request that is handled can always be
answered. -/
theorem disciplined_iff_expected (hreads : ReadsIds server)
    (translator : Option (CompiledQueryTranslator Regex)) (events : List Event) :
    (Throughout server.ledgerStep Disciplined (State.initial translator, Ledger.empty) events ↔
      StepsMeet server.ledgerStep server.Expected (State.initial translator, Ledger.empty)
        events) ∧
      (StepsMeet server.step server.HasRoom (State.initial translator) events →
        Throughout server.step server.Answerable (State.initial translator) events) := by
  refine ⟨?_, answerable_of_hasRoom translator⟩
  have hdisciplined : ∀ books : State Regex × Ledger Regex, Sound books → Disciplined books :=
    fun _ h ↦ h.disciplined
  refine throughout_iff_stepsMeet hdisciplined ?_ ?_ (sound_initial translator)
  · rintro ⟨state, ledger⟩ event books h hexpected hledger
    obtain ⟨next, hstep, rfl⟩ := Option.map_eq_some_iff.mp hledger
    cases event with
    | line text =>
      have hline := hstep
      simp only [step] at hline
      cases hloop : state.loop with
      | handling => simp [hloop] at hline
      | stopped => simp [hloop] at hline
      | selecting =>
        simp only [hloop] at hline
        obtain rfl := Option.some.inj hline
        exact h.line hloop (lineCase_readLine hreads text) fun value hvalue ↦
          hexpected value hvalue hloop
    | respond => exact h.respond hexpected hstep
    | recv => exact h.recv hstep
    | endOfInput => exact h.endOfInput hstep
    | panic => exact h.panic hexpected hstep
    | call | look | answer | send | receive | timeout | read | finish | cacheChange =>
      exact h.internal (internal_step hstep rfl)
  · rintro ⟨state, ledger⟩ event h hnot
    cases event with
    | line text =>
      simp only [Expected, not_forall] at hnot
      obtain ⟨value, hvalue, hloop, hnone⟩ := hnot
      have hcase : LineCase server state (server.message text) (server.readLine state text) :=
        lineCase_readLine hreads text
      have hstep : server.step state (.line text) = some (server.readLine state text) := by
        simp only [step, hloop]
      refine ⟨_, Option.map_eq_some_iff.mpr ⟨_, hstep, rfl⟩, ?_⟩
      rw [hvalue] at hcase
      simp only [Ledger.record, hvalue]
      exact not_disciplined_of_late hloop (Option.not_isSome_iff_eq_none.mp hnone) hcase
    | respond =>
      simp only [Expected, not_forall, not_not] at hnot
      obtain ⟨id, failure, tasks, hloop, hdone, exchange, hcurrent, hmessage⟩ := hnot
      obtain ⟨next, hstep, hlost⟩ :=
        not_disciplined_of_notification server hloop hdone hcurrent hmessage
      exact ⟨_, Option.map_eq_some_iff.mpr ⟨next, hstep, rfl⟩, hlost⟩
    | panic i =>
      simp only [Expected, not_forall, not_not] at hnot
      obtain ⟨henabled, exchange, hcurrent, hrequest⟩ := hnot
      obtain ⟨next, hstep⟩ := Option.isSome_iff_exists.mp henabled
      refine ⟨_, Option.map_eq_some_iff.mpr ⟨next, hstep, rfl⟩, fun hdisciplined ↦ ?_⟩
      obtain rfl := eq_of_panic hstep
      exact hdisciplined.answered rfl exchange hcurrent hrequest
    | _ => exact absurd trivial hnot

/-! ## A request and a notification that are answered -/

/-- What a host sends when it has been initialized. -/
def initializedNotification : Json :=
  .object [("jsonrpc", .string "2.0"), ("method", .string "notifications/initialized")]

def initializedLine : String :=
  "\x7b\"jsonrpc\":\"2.0\",\"method\":\"notifications/initialized\"\x7d"

/-- A server in a session where the host sends a notification. -/
def initializedServer : Server Unit where
  crates := readingCrates initializedNotification
  readRequest := askedServer.readRequest
  hasSkill := fun _ ↦ false
  safety := ⟨false⟩
  provider := none

theorem readsIds_askedServer : ReadsIds askedServer := by
  intro members request hrequest
  simp only [askedServer] at hrequest
  split at hrequest
  · obtain rfl := Except.ok.inj hrequest
    rfl
  · cases hrequest
  · cases hrequest

/-- A question is asked twice; the first time the host is asked for a completion in vain. -/
def askSession : List Event := askEvents ++ [.timeout 0, .respond, .line askLine]

set_option maxRecDepth 2000 in
theorem message_askLine : askedServer.message askLine = .request (.number (.posInt 1)) := rfl

set_option maxRecDepth 2000 in
/-- The session keeps to the discipline, and the request that is handled can always be answered. -/
theorem disciplined_askSession :
    Throughout askedServer.ledgerStep Disciplined
        (State.initial (some ⟨fun _ ↦ none, none, []⟩), Ledger.empty) askSession ∧
      Throughout askedServer.step askedServer.Answerable
        (State.initial (some ⟨fun _ ↦ none, none, []⟩)) askSession := by
  obtain ⟨hdisciplined, hanswerable⟩ := disciplined_iff_expected askedServer readsIds_askedServer
    (some ⟨fun _ ↦ none, none, []⟩) askSession
  have hline : ∀ books, askedServer.Expected books (.line askLine) := by
    intro books value hvalue
    rw [message_askLine] at hvalue
    cases hvalue
  refine ⟨hdisciplined.mpr ⟨hline _, fun _ h₁ ↦ ⟨trivial, fun _ h₂ ↦ ⟨trivial, fun _ h₃ ↦
    ⟨trivial, fun _ h₄ ↦ ⟨?_, fun _ _ ↦ ⟨hline _, fun _ _ ↦ trivial⟩⟩⟩⟩⟩⟩,
    hanswerable ⟨False.elim, fun _ h₁ ↦ ⟨False.elim, fun _ h₂ ↦ ⟨?_, fun _ _ ↦ ⟨False.elim,
      fun _ _ ↦ ⟨False.elim, fun _ _ ↦ ⟨False.elim, fun _ _ ↦ trivial⟩⟩⟩⟩⟩⟩⟩
  · obtain rfl := Option.some.inj h₁
    obtain rfl := Option.some.inj h₂
    obtain rfl := Option.some.inj h₃
    obtain rfl := Option.some.inj h₄
    intro id failure tasks _ _ exchange hcurrent
    obtain rfl := Option.some.inj hcurrent
    rw [message_askLine]
    exact Message.noConfusion
  · obtain rfl := Option.some.inj h₁
    obtain rfl := Option.some.inj h₂
    exact fun _ ↦ by decide

/-- The notification gets an error that says that there is no such method. -/
theorem notification_is_answered : ¬ ∀ events : List Event,
    Throughout initializedServer.ledgerStep Disciplined (State.initial none, Ledger.empty)
      events := by
  intro hdisciplined
  have hrun : run initializedServer.ledgerStep (State.initial none, Ledger.empty)
      [.line initializedLine, .respond] = some _ := rfl
  have hexchange := (hdisciplined _ _ [] (List.append_nil _).symm _ hrun).exchanges _
    (List.mem_singleton_self _)
  exact absurd hexchange (List.cons_ne_nil _ _)

end Server

end MongoCore.Mcp
