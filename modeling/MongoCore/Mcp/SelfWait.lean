import MongoCore.Compiled.QuerySafety
import MongoCore.Mcp.StdioLoop

/-!
# The stdio loop and its own sampling requests

The loop waits for itself if it handles a request of which a task awaits the answer to a sampling
request that is still in the channel: only the loop takes requests out of the channel, and it does
so only after the task is done.  The answer cannot come before the request is written, so such a
task ends by its timeout.

The main result says that a run keeps out of these states exactly if no question needs a completion
by the host.
-/

namespace MongoCore.Mcp

open MongoCore.Data MongoCore.Compiled MongoCore.Library.TransitionSystem

variable {Regex : Type}

/-- The loop handles a request, and a task of it awaits the answer to a sampling request that is
still in the channel. -/
def State.WaitsForItself (state : State Regex) : Prop :=
  ∃ request ∈ state.channel, ∃ question, Task.awaiting question request.slot ∈ state.tasks

/-- The task holds a sampling request that the channel has no room for. -/
def Task.HoldsRequest : Task → Prop
  | .sending _ _ => True
  | _ => False

namespace Server

variable (server : Server Regex)

/-- The task that looks up its question finds no query, and completions are left to the host. -/
def NeedsSampling (state : State Regex) : Event → Prop
  | .look i _ => server.provider = some .sampling ∧
      ∃ question, state.tasks[i]? = some (.looking question) ∧
        ∃ translator, state.translator = some translator ∧ question.Misses server.crates translator
  | _ => False

/-! ## Runs without sampling -/

/-- No sampling request is under way. -/
structure Quiet (state : State Regex) : Prop where
  channel : state.channel = []
  tasks : ∀ task ∈ state.tasks, ¬ task.HoldsRequest

variable {server} {state : State Regex}

theorem Quiet.not_waitsForItself (h : Quiet state) : ¬ state.WaitsForItself := by
  intro ⟨request, hrequest, _⟩
  rw [h.channel] at hrequest
  exact List.not_mem_nil hrequest

theorem quiet_initial (translator : Option (CompiledQueryTranslator Regex)) :
    Quiet (State.initial translator) where
  channel := rfl
  tasks := fun _ hmem ↦ absurd hmem List.not_mem_nil

theorem Quiet.replace (h : Quiet state) (i : ℕ) {others : List Task}
    (hothers : ∀ task ∈ others, ¬ task.HoldsRequest) : Quiet (state.replace i others) where
  channel := by rw [State.channel_replace, h.channel]
  tasks := by
    intro task hmem
    apply (State.mem_tasks_replace hmem).elim
    · exact hothers task
    · exact h.tasks task

/-- A task is replaced by one that holds no request. -/
theorem Quiet.become (h : Quiet state) (i : ℕ) {task : Task} (htask : ¬ task.HoldsRequest) :
    Quiet (state.replace i [task]) :=
  h.replace i fun _ hmem ↦ List.mem_singleton.mp hmem ▸ htask

theorem not_holdsRequest_of_startTool {translator : Option (CompiledQueryTranslator Regex)}
    {name : String} {arguments : Json} :
    ∀ task ∈ server.startTool translator name arguments, ¬ task.HoldsRequest := by
  intro task hmem hholds
  unfold startTool at hmem
  split at hmem
  · split at hmem
    · obtain rfl := List.mem_singleton.mp hmem
      exact hholds
    · obtain ⟨operation, _, rfl⟩ := List.mem_map.mp hmem
      exact hholds
  · split at hmem
    · obtain rfl := List.mem_singleton.mp hmem
      exact hholds
    · split at hmem <;>
      · obtain rfl := List.mem_singleton.mp hmem
        exact hholds

theorem Quiet.handleRequest (h : Quiet state) (request : JsonRpcRequest) :
    Quiet { state with loop := server.handleRequest request } where
  channel := h.channel
  tasks := by
    have hloop : ∀ loop : LoopState, loop = server.handleRequest request →
        ∀ task ∈ State.tasks { state with loop := loop }, ¬ task.HoldsRequest := by
      intro loop hloop task hmem hholds
      unfold Server.handleRequest at hloop
      repeat' split at hloop
      all_goals
        subst hloop
        simp only [State.tasks, List.not_mem_nil, List.mem_singleton] at hmem
      all_goals
        subst hmem
        exact hholds
    exact hloop _ rfl

theorem Quiet.readLine (h : Quiet state) (text : String) :
    Quiet (server.readLine state text) := by
  unfold Server.readLine
  simp only
  split
  · exact h
  · split
    · exact ⟨h.channel, h.tasks⟩
    · split
      · exact ⟨h.channel, h.tasks⟩
      · split
        · exact ⟨h.channel, h.tasks⟩
        · exact h.handleRequest _

theorem Quiet.translated (h : Quiet state) (i : ℕ)
    (result : Except TranslateError (CompiledQuery × CompiledQueryTranslator Regex)) :
    Quiet (translated state i result) := by
  unfold Server.translated
  cases result with
  | error error => exact h.become i id
  | ok pair =>
    have hnext : Quiet { state with translator := some pair.2 } := ⟨h.channel, h.tasks⟩
    exact hnext.become i id

theorem Quiet.complete (h : Quiet state) (translator : CompiledQueryTranslator Regex) (i : ℕ)
    (question : Question) (response : Except LlmError String) :
    Quiet (server.complete state translator i question response) := by
  unfold Server.complete
  cases response <;> exact h.translated i _

/-- A look that finds a query, or that the host is not needed for, makes no sampling request. -/
theorem Quiet.look (h : Quiet state) {translator : CompiledQueryTranslator Regex} {i : ℕ}
    {question : Question} (sampleDocuments : List String)
    (hneeds : ¬ (server.provider = some .sampling ∧ question.Misses server.crates translator)) :
    Quiet (server.look state translator i question sampleDocuments) := by
  unfold Server.look
  cases hcache : translator.cache (question.key server.crates) with
  | some cached => exact h.become i id
  | none =>
    cases hmatch : tryMatch server.crates translator.templates question.text question.database
        question.collection with
    | some found => exact h.translated i _
    | none =>
      cases hprovider : server.provider with
      | none => exact h.become i id
      | some provider =>
        cases provider with
        | gateway => exact h.become i id
        | sampling => exact absurd ⟨hprovider, hcache, hmatch⟩ hneeds

/-- Every step keeps a run quiet, except a look that needs a completion by the host. -/
theorem quiet_step {next : State Regex} {event : Event} (h : Quiet state)
    (hneeds : ¬ server.NeedsSampling state event) (hstep : server.step state event = some next) :
    Quiet next := by
  cases event with
  | line text =>
    simp only [step] at hstep
    cases hloop : state.loop <;> simp only [hloop] at hstep
    · exact Option.some.inj hstep ▸ h.readLine text
    all_goals cases hstep
  | endOfInput =>
    simp only [step] at hstep
    cases hloop : state.loop <;> simp only [hloop] at hstep
    · exact Option.some.inj hstep ▸ ⟨rfl, fun _ hmem ↦ absurd hmem List.not_mem_nil⟩
    all_goals cases hstep
  | recv =>
    simp only [step, h.channel] at hstep
    cases hloop : state.loop <;> simp [hloop] at hstep
  | call i =>
    simp only [step] at hstep
    split at hstep
    · exact Option.some.inj hstep ▸ h.replace i not_holdsRequest_of_startTool
    · cases hstep
  | look i sampleDocuments =>
    simp only [step] at hstep
    split at hstep
    · rename_i question translator htask htranslator
      apply Option.some.inj hstep ▸ h.look sampleDocuments _
      intro ⟨hprovider, hmisses⟩
      exact hneeds ⟨hprovider, question, htask, translator, htranslator, hmisses⟩
    · cases hstep
  | answer i response =>
    simp only [step] at hstep
    split at hstep
    · exact Option.some.inj hstep ▸ h.complete _ i _ response
    · cases hstep
  | send i =>
    simp only [step] at hstep
    split at hstep
    · rename_i htask
      exact absurd trivial (h.tasks _ (List.mem_of_getElem? htask))
    · cases hstep
  | receive i =>
    simp only [step] at hstep
    split at hstep
    · obtain ⟨response, _, rfl⟩ := Option.map_eq_some_iff.mp hstep
      exact h.complete _ i _ response
    · cases hstep
  | timeout i =>
    simp only [step] at hstep
    split at hstep
    · exact Option.some.inj hstep ▸ h.become i id
    · cases hstep
  | read i error =>
    simp only [step] at hstep
    split at hstep
    · rename_i htask hloop
      refine Option.some.inj hstep ▸ ⟨h.channel, fun task hmem ↦ ?_⟩
      apply (List.mem_or_eq_of_mem_set hmem).elim
      · intro hmem
        apply h.tasks task
        simpa [State.tasks, hloop] using hmem
      · intro hdone
        exact hdone ▸ id
    · cases hstep
  | finish i =>
    simp only [step] at hstep
    split at hstep
    · exact Option.some.inj hstep ▸ h.become i id
    · cases hstep
  | panic i =>
    simp only [step] at hstep
    split at hstep
    · cases hstep
    · exact Option.some.inj hstep ▸ ⟨rfl, fun _ hmem ↦ absurd hmem List.not_mem_nil⟩
    · cases hstep
  | respond =>
    simp only [step] at hstep
    cases hloop : state.loop <;> simp only [hloop] at hstep
    case handling id failure tasks =>
      split at hstep
      · exact Option.some.inj hstep ▸ ⟨h.channel, fun _ hmem ↦ absurd hmem List.not_mem_nil⟩
      · cases hstep
    all_goals cases hstep
  | cacheChange cache => exact Option.some.inj hstep ▸ ⟨h.channel, h.tasks⟩

/-! ## Waiting -/

/-- The request goes into the empty channel, and its task awaits the answer. -/
theorem waitsForItself_sample (h : Quiet state) {i : ℕ} {task : Task}
    (htask : state.tasks[i]? = some task) {question : Question} (request : SamplingRequest) :
    (sample state i question request).WaitsForItself := by
  have hroom : state.channel.length < channelCapacity := by
    rw [h.channel]
    decide
  unfold sample
  rw [if_pos hroom]
  refine ⟨request, ?_, question, ?_⟩
  · rw [State.channel_replace]
    exact List.mem_append_right _ (List.mem_singleton_self request)
  · apply State.mem_tasks_replace_of_mem
    · exact htask
    · exact List.mem_singleton_self _

/-- A look that needs a completion by the host makes the loop wait for itself. -/
theorem waitsForItself_of_needsSampling {event : Event} (h : Quiet state)
    (hneeds : server.NeedsSampling state event) :
    ∃ next, server.step state event = some next ∧ next.WaitsForItself := by
  cases event with
  | look i sampleDocuments =>
    obtain ⟨hprovider, question, htask, translator, htranslator, hcache, hmatch⟩ := hneeds
    have hstep : server.step state (.look i sampleDocuments) =
        some (sample state i question (samplingRequest state question sampleDocuments)) := by
      simp only [step, htask, htranslator, look, hcache, hmatch, hprovider]
    exact ⟨_, hstep, waitsForItself_sample h htask _⟩
  | _ => exact hneeds.elim

variable (server) in
/-- The loop never waits for itself in a run if and only if no question of the run needs a
completion by the host. -/
theorem notWaiting_iff_noSampling (translator : Option (CompiledQueryTranslator Regex))
    (events : List Event) :
    Throughout server.step (fun state ↦ ¬ state.WaitsForItself) (State.initial translator) events ↔
      StepsMeet server.step (fun state event ↦ ¬ server.NeedsSampling state event)
        (State.initial translator) events := by
  have hlost : ∀ state event, Quiet state → ¬ ¬ server.NeedsSampling state event →
      ∃ next, server.step state event = some next ∧ ¬ ¬ next.WaitsForItself := by
    intro state event h hneeds
    obtain ⟨next, hstep, hwaits⟩ := waitsForItself_of_needsSampling h (not_not.mp hneeds)
    exact ⟨next, hstep, not_not.mpr hwaits⟩
  apply throughout_iff_stepsMeet
  · exact fun _ h ↦ Quiet.not_waitsForItself h
  · exact fun _ _ _ h hneeds hstep ↦ quiet_step h hneeds hstep
  · exact hlost
  · exact quiet_initial translator

/-! ## A question that nothing is cached for -/

def askCall : Json :=
  .object [("jsonrpc", .string "2.0"), ("id", .number (.posInt 1)), ("method", .string "tools/call"),
    ("params", .object [("name", .string "ask"), ("arguments", .object [
      ("question", .string "all cats"), ("database", .string "shop"),
      ("collection", .string "pets")])])]

def askLine : String :=
  "\x7b\"jsonrpc\":\"2.0\",\"id\":1,\"method\":\"tools/call\",\"params\":\x7b\"name\":\"ask\"," ++
    "\"arguments\":\x7b\"question\":\"all cats\",\"database\":\"shop\"," ++
    "\"collection\":\"pets\"\x7d\x7d\x7d"

/-- A server without a gateway, in a session where the host calls a tool. -/
def askedServer : Server Unit where
  crates := readingCrates askCall
  readRequest := fun value ↦
    match strField value "jsonrpc", strField value "method" with
    | some jsonrpc, some method => .ok ⟨jsonrpc, method, value.get? "params", value.get? "id"⟩
    | none, _ => .error "missing field jsonrpc"
    | _, none => .error "missing field method"
  hasSkill := fun _ ↦ false
  safety := ⟨false⟩
  provider := some .sampling

/-- The call is read, starts, and looks for a query. -/
def askEvents : List Event := [.line askLine, .call 0, .look 0 []]

set_option maxRecDepth 2000 in
/-- A question that misses the cache makes the loop wait for itself. -/
theorem not_notWaiting_of_ask : ¬ ∀ (translator : Option (CompiledQueryTranslator Unit))
    (events : List Event), Throughout askedServer.step (fun state ↦ ¬ state.WaitsForItself)
      (State.initial translator) events := by
  intro hnever
  have hrun : run askedServer.step (State.initial (some ⟨fun _ ↦ none, none, []⟩)) askEvents =
      some _ := rfl
  apply hnever (some ⟨fun _ ↦ none, none, []⟩) askEvents askEvents [] rfl _ hrun
  exact ⟨_, List.mem_singleton_self _, _, List.mem_singleton_self _⟩

end Server

end MongoCore.Mcp
