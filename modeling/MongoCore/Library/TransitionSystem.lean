import Mathlib.Data.List.Basic

/-!
# Runs of a transition system

A system is a partial step function: an event either takes a state to the next one or cannot
happen in it.  All choices of the environment are part of the event, so a run is determined by its
first state and its list of events.

The module gives the rules by which facts about one step become facts about runs.  The rules speak
of conditions on the steps of a run, `StepsMeet`, because many properties hold only of the runs in
which the environment or the caller behaves.
-/

namespace MongoCore.Library.TransitionSystem

variable {σ ε : Type*} (step : σ → ε → Option σ)

/-- Follow a list of events, if each can happen in its turn. -/
def run : σ → List ε → Option σ
  | state, [] => some state
  | state, event :: events => (step state event).bind fun next ↦ run next events

@[simp] theorem run_nil (state : σ) : run step state [] = some state := rfl

theorem run_cons (state : σ) (event : ε) (events : List ε) :
    run step state (event :: events) = (step state event).bind fun next ↦ run step next events :=
  rfl

variable {step}

theorem run_cons_eq_some {state final : σ} {event : ε} {events : List ε} :
    run step state (event :: events) = some final ↔
      ∃ next, step state event = some next ∧ run step next events = some final :=
  Option.bind_eq_some_iff

variable (step) in
theorem run_append (state : σ) (events more : List ε) :
    run step state (events ++ more) =
      (run step state events).bind fun next ↦ run step next more := by
  induction events generalizing state with
  | nil => rfl
  | cons event events ih =>
    rw [List.cons_append, run_cons, run_cons, Option.bind_assoc]
    exact congrArg _ (funext ih)

/-! ## Conditions on the steps of a run -/

variable (step) in
/-- Every step of the run meets a condition on the state before it and the event. -/
def StepsMeet (condition : σ → ε → Prop) : σ → List ε → Prop
  | _, [] => True
  | state, event :: events => condition state event ∧
      ∀ next, step state event = some next → StepsMeet condition next events

theorem stepsMeet_cons {condition : σ → ε → Prop} {state next : σ} {event : ε}
    {events : List ε} (hstep : step state event = some next) :
    StepsMeet step condition state (event :: events) ↔
      condition state event ∧ StepsMeet step condition next events := by
  refine and_congr_right fun _ ↦ ⟨fun h ↦ h next hstep, fun h other hother ↦ ?_⟩
  obtain rfl := Option.some.inj (hstep.symm.trans hother)
  exact h

/-- A condition that every event of a run meets in every state is met by its steps. -/
theorem StepsMeet.of_forall {condition : σ → ε → Prop} {state : σ} {events : List ε}
    (h : ∀ state, ∀ event ∈ events, condition state event) :
    StepsMeet step condition state events := by
  induction events generalizing state with
  | nil => exact trivial
  | cons event events ih =>
    refine ⟨h state event List.mem_cons_self, fun next _ ↦ ih fun state other hother ↦ ?_⟩
    exact h state other (List.mem_cons_of_mem event hother)

/-- A condition can be replaced by a weaker one. -/
theorem StepsMeet.imp {condition other : σ → ε → Prop} {state : σ} {events : List ε}
    (h : StepsMeet step condition state events)
    (hweaker : ∀ state event, condition state event → other state event) :
    StepsMeet step other state events := by
  induction events generalizing state with
  | nil => exact trivial
  | cons event events ih =>
    exact ⟨hweaker state event h.1, fun next hstep ↦ ih (h.2 next hstep)⟩

/-- A run that is continued meets a condition if both of its parts do. -/
theorem StepsMeet.append {condition : σ → ε → Prop} {state : σ} {events more : List ε}
    (h : StepsMeet step condition state events)
    (hmore : ∀ final, run step state events = some final → StepsMeet step condition final more) :
    StepsMeet step condition state (events ++ more) := by
  induction events generalizing state with
  | nil => exact hmore state rfl
  | cons event events ih =>
    refine ⟨h.1, fun next hstep ↦ ih (h.2 next hstep) fun final hfinal ↦ hmore final ?_⟩
    exact run_cons_eq_some.mpr ⟨next, hstep, hfinal⟩

/-- Whether a decidable condition is met can be decided by following the run. -/
instance StepsMeet.decidable {condition : σ → ε → Prop}
    [∀ state event, Decidable (condition state event)] :
    (state : σ) → (events : List ε) → Decidable (StepsMeet step condition state events)
  | _, [] => isTrue trivial
  | state, event :: events =>
      match hstep : step state event with
      | none => decidable_of_iff (condition state event)
          ⟨fun h ↦ ⟨h, fun next hnext ↦ absurd (hstep.symm.trans hnext) (by simp)⟩, And.left⟩
      | some next =>
          have : Decidable (StepsMeet step condition next events) :=
            StepsMeet.decidable next events
          decidable_of_iff _ (stepsMeet_cons hstep).symm

theorem StepsMeet.and {condition other : σ → ε → Prop} {state : σ} {events : List ε}
    (h : StepsMeet step condition state events) (hother : StepsMeet step other state events) :
    StepsMeet step (fun state event ↦ condition state event ∧ other state event) state events := by
  induction events generalizing state with
  | nil => exact trivial
  | cons event events ih =>
    exact ⟨⟨h.1, hother.1⟩, fun next hstep ↦ ih (h.2 next hstep) (hother.2 next hstep)⟩

/-- An invariant of the steps that meet a condition holds along every run of such steps. -/
theorem invariant_of_run {condition : σ → ε → Prop} {invariant : σ → Prop}
    (hpreserved : ∀ state event next, invariant state → condition state event →
      step state event = some next → invariant next)
    {state final : σ} {events : List ε} (hinit : invariant state)
    (hmeet : StepsMeet step condition state events)
    (hrun : run step state events = some final) : invariant final := by
  induction events generalizing state with
  | nil =>
    obtain rfl := Option.some.inj hrun
    exact hinit
  | cons event events ih =>
    obtain ⟨next, hstep, hrest⟩ := run_cons_eq_some.mp hrun
    obtain ⟨hcondition, hmeet⟩ := (stepsMeet_cons hstep).mp hmeet
    exact ih (hpreserved state event next hinit hcondition hstep) hmeet hrest

/-- What an invariant of the steps that meet a condition gives for each of them is met by the
steps of the run. -/
theorem StepsMeet.of_invariant {condition other : σ → ε → Prop} {invariant : σ → Prop}
    {state : σ} {events : List ε} (hmeet : StepsMeet step condition state events)
    (hpreserved : ∀ state event next, invariant state → condition state event →
      step state event = some next → invariant next)
    (hother : ∀ state event, invariant state → condition state event → other state event)
    (hinit : invariant state) : StepsMeet step other state events := by
  induction events generalizing state with
  | nil => exact trivial
  | cons event events ih =>
    refine ⟨hother state event hinit hmeet.1, fun next hstep ↦ ?_⟩
    exact ih (hmeet.2 next hstep) (hpreserved state event next hinit hmeet.1 hstep)

/-! ## Properties of all states of a run -/

variable (step) in
/-- Every state that a run passes through has a property. -/
def Throughout (good : σ → Prop) (state : σ) (events : List ε) : Prop :=
  ∀ front back, events = front ++ back → ∀ middle, run step state front = some middle → good middle

theorem throughout_cons {good : σ → Prop} {state : σ} {event : ε} {events : List ε} :
    Throughout step good state (event :: events) ↔
      good state ∧ ∀ next, step state event = some next → Throughout step good next events := by
  constructor
  · intro h
    constructor
    · exact h [] (event :: events) rfl state rfl
    · intro next hstep front back hevents middle hrun
      apply h (event :: front) back (by rw [hevents, List.cons_append]) middle
      exact run_cons_eq_some.mpr ⟨next, hstep, hrun⟩
  · intro h front back hevents middle hrun
    cases front with
    | nil =>
      have hmiddle : state = middle := Option.some.inj hrun
      rw [← hmiddle]
      exact h.1
    | cons first front =>
      rw [List.cons_append, List.cons_eq_cons] at hevents
      rw [← hevents.1, run_cons_eq_some] at hrun
      obtain ⟨next, hstep, hrest⟩ := hrun
      exact h.2 next hstep front back hevents.2 middle hrest

/-- A property that an invariant of the steps that meet a condition has holds all along a run of
such steps. -/
theorem throughout_of_stepsMeet {condition : σ → ε → Prop} {invariant good : σ → Prop}
    (hgood : ∀ state, invariant state → good state)
    (hkept : ∀ state event next, invariant state → condition state event →
      step state event = some next → invariant next)
    {state : σ} {events : List ε} (hinit : invariant state)
    (hmeet : StepsMeet step condition state events) : Throughout step good state events := by
  induction events generalizing state with
  | nil =>
    intro front back hevents middle hrun
    have hfront : front = [] := (List.append_eq_nil_iff.mp hevents.symm).1
    rw [hfront, run_nil, Option.some.injEq] at hrun
    rw [← hrun]
    exact hgood state hinit
  | cons event events ih =>
    refine throughout_cons.mpr ⟨hgood state hinit, fun next hstep ↦ ?_⟩
    exact ih (hkept state event next hinit hmeet.1 hstep) (hmeet.2 next hstep)

/-- If an invariant of the steps that meet a condition has the property, and every other step loses
the property, then a run keeps the property exactly if its steps meet the condition. -/
theorem throughout_iff_stepsMeet {condition : σ → ε → Prop} {invariant good : σ → Prop}
    (hgood : ∀ state, invariant state → good state)
    (hkept : ∀ state event next, invariant state → condition state event →
      step state event = some next → invariant next)
    (hlost : ∀ state event, invariant state → ¬ condition state event →
      ∃ next, step state event = some next ∧ ¬ good next)
    {state : σ} {events : List ε} (hinit : invariant state) :
    Throughout step good state events ↔ StepsMeet step condition state events := by
  refine ⟨fun h ↦ ?_, throughout_of_stepsMeet hgood hkept hinit⟩
  induction events generalizing state with
  | nil => exact trivial
  | cons event events ih =>
    rw [throughout_cons] at h
    have hcondition : condition state event := by
      by_contra hnot
      obtain ⟨next, hstep, hbad⟩ := hlost state event hinit hnot
      exact hbad (h.2 next hstep [] events rfl next rfl)
    refine ⟨hcondition, fun next hstep ↦ ?_⟩
    exact ih (hkept state event next hinit hcondition hstep) (h.2 next hstep)

/-! ## Erasing events -/

/-- If the steps that meet a condition keep a relation, where erased events move only the first
side, then a run of such steps is matched by the run without the erased events. -/
theorem erase_of_run {condition : σ → ε → Prop} {erased : ε → Prop} [DecidablePred erased]
    {related : σ → σ → Prop}
    (herased : ∀ state other event next, related state other → condition state event →
      erased event → step state event = some next → related next other)
    (hkept : ∀ state other event next, related state other → condition state event →
      ¬ erased event → step state event = some next →
      ∃ otherNext, step other event = some otherNext ∧ related next otherNext)
    {state other final : σ} {events : List ε} (hrelated : related state other)
    (hmeet : StepsMeet step condition state events)
    (hrun : run step state events = some final) :
    ∃ otherFinal, run step other (events.filter fun event ↦ ¬ erased event) = some otherFinal ∧
      related final otherFinal := by
  induction events generalizing state other with
  | nil =>
    obtain rfl := Option.some.inj hrun
    exact ⟨other, rfl, hrelated⟩
  | cons event events ih =>
    obtain ⟨next, hstep, hrest⟩ := run_cons_eq_some.mp hrun
    obtain ⟨hcondition, hmeet⟩ := (stepsMeet_cons hstep).mp hmeet
    by_cases hevent : erased event
    · rw [List.filter_cons_of_neg (by simpa using hevent)]
      exact ih (herased state other event next hrelated hcondition hevent hstep) hmeet hrest
    · obtain ⟨otherNext, hother, hnext⟩ :=
        hkept state other event next hrelated hcondition hevent hstep
      obtain ⟨otherFinal, hfinal, hrelated⟩ := ih hnext hmeet hrest
      rw [List.filter_cons_of_pos (by simpa using hevent)]
      exact ⟨otherFinal, run_cons_eq_some.mpr ⟨otherNext, hother, hfinal⟩, hrelated⟩

/-! ## Recording a run -/

/-- A system that keeps a record of its steps.  The record has no influence on them. -/
def recorded {ρ : Type*} (step : σ → ε → Option σ) (record : σ → ρ → ε → ρ) :
    σ × ρ → ε → Option (σ × ρ)
  | (state, kept), event => (step state event).map fun next ↦ (next, record state kept event)

theorem recorded_eq_some {ρ : Type*} {record : σ → ρ → ε → ρ} {state next : σ} {kept after : ρ}
    {event : ε} : recorded step record (state, kept) event = some (next, after) ↔
      step state event = some next ∧ record state kept event = after := by
  simp [recorded, Option.map_eq_some_iff]

/-- Every run can be recorded. -/
theorem exists_run_recorded {ρ : Type*} (record : σ → ρ → ε → ρ) {state final : σ} (kept : ρ)
    {events : List ε} (hrun : run step state events = some final) :
    ∃ after, run (recorded step record) (state, kept) events = some (final, after) := by
  induction events generalizing state kept with
  | nil =>
    obtain rfl := Option.some.inj hrun
    exact ⟨kept, rfl⟩
  | cons event events ih =>
    obtain ⟨next, hstep, hrest⟩ := run_cons_eq_some.mp hrun
    obtain ⟨after, hafter⟩ := ih (record state kept event) hrest
    exact ⟨after, run_cons_eq_some.mpr ⟨_, recorded_eq_some.mpr ⟨hstep, rfl⟩, hafter⟩⟩

/-- What the steps of a run meet, they meet when they are recorded. -/
theorem StepsMeet.recorded {ρ : Type*} (record : σ → ρ → ε → ρ) {condition : σ → ε → Prop}
    {state : σ} (kept : ρ) {events : List ε} (hmeet : StepsMeet step condition state events) :
    StepsMeet (recorded step record) (fun pair event ↦ condition pair.1 event) (state, kept)
      events := by
  induction events generalizing state kept with
  | nil => exact trivial
  | cons event events ih =>
    refine ⟨hmeet.1, fun next hstep ↦ ?_⟩
    obtain ⟨hnext, hafter⟩ := recorded_eq_some.mp hstep
    exact ih next.2 (hmeet.2 next.1 hnext)

end MongoCore.Library.TransitionSystem
