import MongoCore.Mcp.NestedPipelines
import MongoCore.Mcp.SelfWait

/-!
# Requests of the host are answered

A request of the host has been handled when all its tasks are done.  Every task can be brought to its
end, except one that waits for room in the channel of sampling requests: nothing is taken out of the
channel while a request is handled.

A request that is handled can therefore always be answered, in runs in which no sampling request is
made while the channel is full.
-/

namespace MongoCore.Mcp

open MongoCore.Data MongoCore.Compiled MongoCore.Library.TransitionSystem

variable {Regex : Type}

/-- A response carries an id.  Without one it is written with null. -/
def Output.Carries (id : Json) : Output → Prop
  | .error own _ _ | .result own => own.getD .null = id
  | .createMessage _ _ _ _ => False

/-- The task can go on: it needs the translator only if there is one, and no room in the channel. -/
def Task.GoesOn (translator : Option (CompiledQueryTranslator Regex)) : Task → Prop
  | .sending _ _ => False
  | .looking _ | .asking _ => translator.isSome = true
  | .running _ _ | .awaiting _ _ | .reading | .finishing | .done => True

theorem Task.GoesOn.mono {task : Task}
    {translator other : Option (CompiledQueryTranslator Regex)} (h : task.GoesOn translator)
    (hsome : translator.isSome = true → other.isSome = true) : task.GoesOn other := by
  cases task with
  | looking | asking => exact hsome h
  | sending => exact h
  | running | awaiting | reading | finishing | done => exact h

namespace State

def GoesOn (state : State Regex) : Prop :=
  ∀ task ∈ state.tasks, task.GoesOn state.translator

@[simp] theorem translator_replace (state : State Regex) (i : ℕ) (others : List Task) :
    (state.replace i others).translator = state.translator := by
  unfold replace
  cases state.loop <;> rfl

theorem GoesOn.replace {state : State Regex} (h : state.GoesOn) (i : ℕ) {others : List Task}
    (hothers : ∀ task ∈ others, task.GoesOn state.translator) :
    (state.replace i others).GoesOn := by
  intro task hmem
  rw [translator_replace]
  exact (mem_tasks_replace hmem).elim (hothers task) (h task)

theorem GoesOn.become {state : State Regex} (h : state.GoesOn) (i : ℕ) {task : Task}
    (htask : task.GoesOn state.translator) : (state.replace i [task]).GoesOn :=
  h.replace i fun _ hmem ↦ List.mem_singleton.mp hmem ▸ htask

/-- Without tasks nothing has to go on. -/
theorem goesOn_of_tasks {state : State Regex} (h : state.tasks = []) : state.GoesOn :=
  fun _ hmem ↦ absurd (h ▸ hmem) List.not_mem_nil

end State

namespace Server

variable (server : Server Regex)

/-- The request that is handled can be answered: its tasks can be brought to their ends, and then its
response is written, with its id. -/
def Answerable (state : State Regex) : Prop :=
  ∀ id failure tasks, state.loop = .handling id failure tasks →
    ∃ events final output, run server.step state events = some final ∧ final.loop = .selecting ∧
      final.stdout = state.stdout ++ [output] ∧ output.Carries (id.getD .null)

/-- No sampling request is made while the channel is full. -/
def HasRoom (state : State Regex) (event : Event) : Prop :=
  server.NeedsSampling state event → state.channel.length < channelCapacity

variable {server} {state next : State Regex}

/-! ## Tasks that go on -/

theorem goesOn_startTool (translator : Option (CompiledQueryTranslator Regex)) (name : String)
    (arguments : Json) :
    ∀ task ∈ server.startTool translator name arguments, task.GoesOn translator := by
  intro task hmem
  unfold startTool at hmem
  split at hmem
  · split at hmem
    · obtain rfl := List.mem_singleton.mp hmem
      trivial
    · obtain ⟨operation, -, rfl⟩ := List.mem_map.mp hmem
      trivial
  · split at hmem
    · obtain rfl := List.mem_singleton.mp hmem
      trivial
    · split at hmem
      · obtain rfl := List.mem_singleton.mp hmem
        rfl
      · obtain rfl := List.mem_singleton.mp hmem
        trivial

theorem goesOn_handleRequest (request : JsonRpcRequest) :
    State.GoesOn { state with loop := server.handleRequest request } := by
  have hloop : ∀ loop : LoopState, loop = server.handleRequest request →
      State.GoesOn { state with loop := loop } := by
    intro loop hloop task hmem
    unfold Server.handleRequest at hloop
    repeat' split at hloop
    all_goals
      subst hloop
      simp only [State.tasks, List.not_mem_nil, List.mem_singleton] at hmem
    all_goals
      subst hmem
      trivial
  exact hloop _ rfl

theorem goesOn_readLine (h : state.GoesOn) (text : String) :
    (server.readLine state text).GoesOn := by
  unfold Server.readLine
  simp only
  split
  · exact h
  · split
    · exact h
    · split
      · exact h
      · split
        · exact h
        · exact goesOn_handleRequest _

theorem goesOn_translated (h : state.GoesOn) (i : ℕ)
    (result : Except TranslateError (CompiledQuery × CompiledQueryTranslator Regex)) :
    (translated state i result).GoesOn := by
  unfold Server.translated
  cases result with
  | error error => exact h.become i trivial
  | ok pair =>
    have hnext : State.GoesOn { state with translator := some pair.2 } :=
      fun task hmem ↦ (h task hmem).mono fun _ ↦ rfl
    exact hnext.become i trivial

theorem goesOn_complete (h : state.GoesOn) (translator : CompiledQueryTranslator Regex) (i : ℕ)
    (question : Question) (response : Except LlmError String) :
    (server.complete state translator i question response).GoesOn := by
  unfold Server.complete
  cases response <;> exact goesOn_translated h i _

theorem goesOn_look (h : state.GoesOn) {translator : CompiledQueryTranslator Regex} {i : ℕ}
    {question : Question} (htranslator : state.translator = some translator)
    (sampleDocuments : List String)
    (hroom : server.provider = some .sampling → question.Misses server.crates translator →
      state.channel.length < channelCapacity) :
    (server.look state translator i question sampleDocuments).GoesOn := by
  unfold Server.look
  cases hcache : translator.cache (question.key server.crates) with
  | some cached => exact h.become i trivial
  | none =>
    cases hmatch : tryMatch server.crates translator.templates question.text question.database
        question.collection with
    | some found => exact goesOn_translated h i _
    | none =>
      cases hprovider : server.provider with
      | none => exact h.become i trivial
      | some provider =>
        cases provider with
        | gateway =>
          apply h.become i
          rw [htranslator]
          rfl
        | sampling =>
          simp only [sample, if_pos (hroom hprovider ⟨hcache, hmatch⟩)]
          have hnext : State.GoesOn { state with
              channel := state.channel ++ [samplingRequest state question sampleDocuments]
              slots := state.slots + 1 } := h
          exact hnext.become i trivial

/-- Every step lets the tasks go on, except a look that needs a completion by the host while the
channel is full. -/
theorem goesOn_step {event : Event} (h : state.GoesOn) (hroom : server.HasRoom state event)
    (hstep : server.step state event = some next) : next.GoesOn := by
  cases event with
  | line text =>
    simp only [step] at hstep
    cases hloop : state.loop <;> simp only [hloop] at hstep
    · exact Option.some.inj hstep ▸ goesOn_readLine h text
    all_goals cases hstep
  | endOfInput =>
    simp only [step] at hstep
    cases hloop : state.loop <;> simp only [hloop] at hstep
    · exact Option.some.inj hstep ▸ State.goesOn_of_tasks rfl
    all_goals cases hstep
  | recv =>
    simp only [step] at hstep
    split at hstep
    · rename_i hloop _
      exact Option.some.inj hstep ▸ State.goesOn_of_tasks (by simp [State.tasks, hloop])
    · cases hstep
  | call i =>
    simp only [step] at hstep
    split at hstep
    · exact Option.some.inj hstep ▸ h.replace i (goesOn_startTool _ _ _)
    · cases hstep
  | look i sampleDocuments =>
    simp only [step] at hstep
    split at hstep
    · rename_i question translator htask htranslator
      refine Option.some.inj hstep ▸ goesOn_look h htranslator sampleDocuments ?_
      exact fun hprovider hmisses ↦ hroom ⟨hprovider, question, htask, translator, htranslator, hmisses⟩
    · cases hstep
  | answer i response =>
    simp only [step] at hstep
    split at hstep
    · exact Option.some.inj hstep ▸ goesOn_complete h _ i _ response
    · cases hstep
  | send i =>
    simp only [step] at hstep
    split at hstep
    · rename_i htask
      exact (h _ (List.mem_of_getElem? htask)).elim
    · cases hstep
  | receive i =>
    simp only [step] at hstep
    split at hstep
    · obtain ⟨response, _, rfl⟩ := Option.map_eq_some_iff.mp hstep
      exact goesOn_complete h _ i _ response
    · cases hstep
  | timeout i =>
    simp only [step] at hstep
    split at hstep
    · exact Option.some.inj hstep ▸ h.become i trivial
    · cases hstep
  | read i error =>
    simp only [step] at hstep
    split at hstep
    · rename_i htask hloop
      refine Option.some.inj hstep ▸ fun task hmem ↦ ?_
      rcases List.mem_or_eq_of_mem_set hmem with hmem | rfl
      · exact h task (by simpa [State.tasks, hloop] using hmem)
      · trivial
    · cases hstep
  | finish i =>
    simp only [step] at hstep
    split at hstep
    · exact Option.some.inj hstep ▸ h.become i trivial
    · cases hstep
  | panic i =>
    simp only [step] at hstep
    split at hstep
    · cases hstep
    · exact Option.some.inj hstep ▸ State.goesOn_of_tasks rfl
    · cases hstep
  | respond =>
    simp only [step] at hstep
    cases hloop : state.loop <;> simp only [hloop] at hstep
    case handling id failure tasks =>
      split at hstep
      · exact Option.some.inj hstep ▸ State.goesOn_of_tasks rfl
      · cases hstep
    all_goals cases hstep
  | cacheChange cache =>
    refine Option.some.inj hstep ▸ fun task hmem ↦ (h task hmem).mono fun hsome ↦ ?_
    rw [Option.isSome_map]
    exact hsome

/-! ## Bringing tasks to their ends -/

variable (server) in
/-- The tasks can be brought to their ends, wherever they stand among the tasks of a request. -/
def Clears (tasks : List Task) : Prop :=
  ∀ (state : State Regex) id failure before after,
    state.loop = .handling id failure (before ++ tasks ++ after) →
    (∀ task ∈ tasks, task.GoesOn state.translator) →
    ∃ events final failure' ends, run server.step state events = some final ∧
      final.loop = .handling id failure' (before ++ ends ++ after) ∧ (∀ task ∈ ends, task = .done) ∧
      final.stdout = state.stdout ∧
      (state.translator.isSome = true → final.translator.isSome = true)

theorem clears_nil : server.Clears [] :=
  fun state _ failure _ _ hloop _ ↦
    ⟨[], state, failure, [], rfl, hloop, fun _ hmem ↦ absurd hmem List.not_mem_nil, rfl, fun h ↦ h⟩

theorem clears_cons {task : Task} {tasks : List Task} (htask : server.Clears [task])
    (htasks : server.Clears tasks) : server.Clears (task :: tasks) := by
  intro state id failure before after hloop hgoes
  obtain ⟨hfirst, hrest⟩ := List.forall_mem_cons.mp hgoes
  obtain ⟨events, middle, failure₁, ends₁, hrun, hmiddle, hdone₁, hstdout₁, hsome₁⟩ :=
    htask state id failure before (tasks ++ after) (by simpa using hloop)
      (List.forall_mem_singleton.mpr hfirst)
  obtain ⟨more, final, failure₂, ends₂, hmore, hfinal, hdone₂, hstdout₂, hsome₂⟩ :=
    htasks middle id failure₁ (before ++ ends₁) after (by simpa using hmiddle)
      fun other hother ↦ (hrest other hother).mono hsome₁
  refine ⟨events ++ more, final, failure₂, ends₁ ++ ends₂, ?_, by simpa using hfinal,
    List.forall_mem_append.mpr ⟨hdone₁, hdone₂⟩, hstdout₂.trans hstdout₁, hsome₂ ∘ hsome₁⟩
  rw [run_append, hrun]
  exact hmore

theorem clears_of_forall {tasks : List Task} (h : ∀ task ∈ tasks, server.Clears [task]) :
    server.Clears tasks := by
  induction tasks with
  | nil => exact clears_nil
  | cons task tasks ih =>
    obtain ⟨htask, htasks⟩ := List.forall_mem_cons.mp h
    exact clears_cons htask (ih htasks)

/-- A task that a step replaces by tasks that can be brought to their ends. -/
theorem clears_of_step {task : Task}
    (hstep : ∀ (state : State Regex) id failure before after,
      state.loop = .handling id failure (before ++ [task] ++ after) →
      task.GoesOn state.translator →
      ∃ others event next failure', server.Clears others ∧
        server.step state event = some next ∧
        next.loop = .handling id failure' (before ++ others ++ after) ∧
        next.stdout = state.stdout ∧
        (state.translator.isSome = true → next.translator.isSome = true) ∧
        ∀ other ∈ others, other.GoesOn next.translator) : server.Clears [task] := by
  intro state id failure before after hloop hgoes
  obtain ⟨others, event, next, failure₁, hothers, hnext, hloop₁, hstdout₁, hsome₁, hgoes₁⟩ :=
    hstep state id failure before after hloop (hgoes task (List.mem_singleton_self task))
  obtain ⟨events, final, failure₂, ends, hrun, hfinal, hdone, hstdout₂, hsome₂⟩ :=
    hothers next id failure₁ before after hloop₁ hgoes₁
  exact ⟨event :: events, final, failure₂, ends, run_cons_eq_some.mpr ⟨next, hnext, hrun⟩, hfinal,
    hdone, hstdout₂.trans hstdout₁, hsome₂ ∘ hsome₁⟩

theorem clears_done : server.Clears [.done] :=
  fun state _ failure _ _ hloop _ ↦
    ⟨[], state, failure, [.done], rfl, hloop, fun _ hmem ↦ List.mem_singleton.mp hmem, rfl, fun h ↦ h⟩

theorem tasks_getElem? {id : Option Json} {failure : Option (ℤ × String)} {before after : List Task}
    {task : Task} (hloop : state.loop = .handling id failure (before ++ [task] ++ after)) :
    state.tasks[before.length]? = some task := by
  simp [State.tasks, hloop]

theorem loop_replace {id : Option Json} {failure : Option (ℤ × String)} {before after : List Task}
    {task : Task} (hloop : state.loop = .handling id failure (before ++ [task] ++ after))
    (others : List Task) : (state.replace before.length others).loop =
      .handling id failure (before ++ others ++ after) := by
  simp [State.replace, hloop, splice]

/-- A task that an event replaces, leaving the rest as it is. -/
theorem clears_of_replace {task : Task} (event : ℕ → Event)
    (hstep : ∀ (state : State Regex) i, state.tasks[i]? = some task →
      task.GoesOn state.translator → ∃ others, server.Clears others ∧
        server.step state (event i) = some (state.replace i others) ∧
        ∀ other ∈ others, other.GoesOn state.translator) : server.Clears [task] := by
  apply clears_of_step
  intro state id failure before after hloop htask
  obtain ⟨others, hothers, hnext, hgoes⟩ := hstep state _ (tasks_getElem? hloop) htask
  refine ⟨others, event before.length, _, failure, hothers, hnext, loop_replace hloop others,
    State.stdout_replace _ _ _, fun h ↦ ?_, fun other hother ↦ ?_⟩
  · rwa [State.translator_replace]
  · rw [State.translator_replace]
    exact hgoes other hother

theorem clears_finishing : server.Clears [.finishing] := by
  apply clears_of_replace .finish
  intro state i htask _
  exact ⟨[.done], clears_done, by simp [step, htask], List.forall_mem_singleton.mpr trivial⟩

theorem clears_awaiting (question : Question) (slot : ℕ) :
    server.Clears [.awaiting question slot] := by
  apply clears_of_replace .timeout
  intro state i htask _
  exact ⟨[.done], clears_done, by simp [step, htask], List.forall_mem_singleton.mpr trivial⟩

/-- A completion may fail. -/
theorem clears_asking (question : Question) : server.Clears [.asking question] := by
  apply clears_of_replace fun i ↦ .answer i (.error .notConfigured)
  intro state i htask hgoes
  obtain ⟨translator, htranslator⟩ := Option.isSome_iff_exists.mp hgoes
  refine ⟨[.done], clears_done, ?_, List.forall_mem_singleton.mpr trivial⟩
  simp [step, htask, htranslator, complete, translated]

theorem clears_reading : server.Clears [.reading] := by
  apply clears_of_step
  intro state id failure before after hloop _
  refine ⟨[.done], .read before.length none,
    { state with loop := .handling id none (before ++ [.done] ++ after) }, none, clears_done, ?_, rfl,
    rfl, fun h ↦ h, List.forall_mem_singleton.mpr trivial⟩
  have hset : (before ++ [Task.reading] ++ after).set before.length Task.done =
      before ++ [.done] ++ after := by simp
  simp only [step, tasks_getElem? hloop, hloop, Option.map_none, hset]

/-- A query that another process puts into the cache is found. -/
theorem clears_looking (question : Question) : server.Clears [.looking question] := by
  intro state id failure before after hloop hgoes
  obtain ⟨translator, htranslator⟩ := Option.isSome_iff_exists.mp
    (hgoes _ (List.mem_singleton_self _))
  let cached : CompiledQuery := ⟨"", "", "", "", .aggregate [], none⟩
  let filled : State Regex :=
    { state with translator := some { translator with cache := fun _ ↦ some cached } }
  have hfilled : server.step state (.cacheChange fun _ ↦ some cached) = some filled := by
    simp only [step, htranslator, Option.map_some, filled]
  have hreplaced : (filled.replace before.length [.finishing]).loop =
      .handling id failure (before ++ [.finishing] ++ after) := by
    simp [State.replace, filled, hloop, splice]
  have hlook : server.step filled (.look before.length []) =
      some (filled.replace before.length [.finishing]) := by
    have htask : filled.tasks[before.length]? = some (.looking question) := tasks_getElem? hloop
    simp only [step, htask, look, filled]
  obtain ⟨events, final, failure', ends, hrun, hfinal, hdone, hstdout, hsome⟩ :=
    clears_finishing (filled.replace before.length [.finishing]) id failure before after
      hreplaced (List.forall_mem_singleton.mpr trivial)
  refine ⟨.cacheChange (fun _ ↦ some cached) :: .look before.length [] :: events, final, failure',
    ends, run_cons_eq_some.mpr ⟨filled, hfilled, run_cons_eq_some.mpr ⟨_, hlook, hrun⟩⟩, hfinal,
    hdone, ?_, fun _ ↦ ?_⟩
  · rw [hstdout, State.stdout_replace]
  · apply hsome
    rw [State.translator_replace]
    rfl

/-- A call of a tool, by induction on its arguments: a pipeline may call pipelines. -/
theorem clears_running (name : String) (arguments : Json) :
    server.Clears [.running name arguments] := by
  have hstarted (translator : Option (CompiledQueryTranslator Regex)) :
      server.Clears (server.startTool translator name arguments) := by
    unfold startTool
    split
    · split
      · exact clears_done
      · rename_i operations hoperations
        apply clears_of_forall
        intro task hmem
        obtain ⟨operation, hoperation, rfl⟩ := List.mem_map.mp hmem
        have hlisted : operation ∈ NestedPipelines.listedOperations arguments := by
          unfold pipelineOperations at hoperations
          split at hoperations
          · cases hoperations
          · rename_i listed hlisted
            split_ifs at hoperations
            split at hoperations
            · cases hoperations
            · obtain rfl := Except.ok.inj hoperations
              rw [NestedPipelines.listedOperations, hlisted]
              exact hoperation
        have hlt := NestedPipelines.sizeOf_lt_of_mem_listedOperations hlisted
        exact clears_running (operationTool operation) operation
    · split
      · exact clears_finishing
      · split
        · exact clears_looking _
        · exact clears_done
  apply clears_of_replace .call
  intro state i htask _
  exact ⟨_, hstarted state.translator, by simp only [step, htask], goesOn_startTool _ _ _⟩
termination_by sizeOf arguments

/-- Every task that can go on can be brought to its end. -/
theorem clears_of_goesOn {tasks : List Task}
    {translator : Option (CompiledQueryTranslator Regex)}
    (hgoes : ∀ task ∈ tasks, task.GoesOn translator) : server.Clears tasks := by
  refine clears_of_forall fun task hmem ↦ ?_
  cases task with
  | running name arguments => exact clears_running name arguments
  | looking question => exact clears_looking question
  | asking question => exact clears_asking question
  | sending question request => exact (hgoes _ hmem).elim
  | awaiting question slot => exact clears_awaiting question slot
  | reading => exact clears_reading
  | finishing => exact clears_finishing
  | done => exact clears_done

variable (server) in
/-- The response to a request whose tasks are done. -/
theorem exists_respond {id : Option Json} {failure : Option (ℤ × String)} {tasks : List Task}
    (hloop : state.loop = .handling id failure tasks) (hdone : ∀ task ∈ tasks, task = .done) :
    ∃ next output, server.step state .respond = some next ∧ next.loop = .selecting ∧
      next.stdout = state.stdout ++ [output] ∧ output.Carries (id.getD .null) := by
  cases failure with
  | none =>
    have hstep : server.step state .respond =
        some { state.write (.result id) with loop := .selecting } := by
      simp only [step, hloop]
      exact if_pos (List.all_eq_true.mpr fun task hmem ↦ by rw [hdone task hmem])
    exact ⟨_, .result id, hstep, rfl, rfl, rfl⟩
  | some error =>
    have hstep : server.step state .respond =
        some { state.write (.error id error.1 error.2) with loop := .selecting } := by
      simp only [step, hloop]
      exact if_pos (List.all_eq_true.mpr fun task hmem ↦ by rw [hdone task hmem])
    exact ⟨_, .error id error.1 error.2, hstep, rfl, rfl, rfl⟩

/-- A request whose tasks can all go on can be answered. -/
theorem answerable_of_goesOn (h : state.GoesOn) : server.Answerable state := by
  intro id failure tasks hloop
  have hgoes : ∀ task ∈ tasks, task.GoesOn state.translator := by
    simpa [State.GoesOn, State.tasks, hloop] using h
  have hclears : server.Clears tasks := clears_of_goesOn hgoes
  obtain ⟨events, middle, failure', ends, hrun, hmiddle, hdone, hstdout, -⟩ :=
    hclears state id failure [] [] (by simpa using hloop) hgoes
  have hends : middle.loop = .handling id failure' ends := hmiddle.trans (by simp)
  obtain ⟨next, output, hnext, hselecting, hwritten, hcarries⟩ :=
    exists_respond server hends hdone
  refine ⟨events ++ [.respond], next, output, ?_, hselecting, hstdout ▸ hwritten, hcarries⟩
  rw [run_append, hrun]
  exact run_cons_eq_some.mpr ⟨next, hnext, rfl⟩

/-- In a run in which no sampling request is made while the channel is full, the request that is
handled can always be answered. -/
theorem answerable_of_hasRoom (translator : Option (CompiledQueryTranslator Regex))
    {events : List Event}
    (hmeet : StepsMeet server.step server.HasRoom (State.initial translator) events) :
    Throughout server.step server.Answerable (State.initial translator) events :=
  throughout_of_stepsMeet (fun _ h ↦ answerable_of_goesOn h)
    (fun _ _ _ h hroom hstep ↦ goesOn_step h hroom hstep) (State.goesOn_of_tasks rfl) hmeet

end Server

end MongoCore.Mcp
