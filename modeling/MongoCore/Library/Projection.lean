import MongoCore.Library.TransitionSystem

/-!
# Projections of runs

A part of a system is a system of its own if every event of the whole either leaves the part as it
is, or is an event of the part.  What the part goes through along a run is then a run of its own,
without the events that it does not see, and what these events emit is emitted in it as well.
-/

namespace MongoCore.Library.TransitionSystem

variable {σ τ ε δ α : Type*}

def collect (step : σ → ε → Option σ) (emit : σ → ε → List α) : σ → List ε → List α
  | _, [] => []
  | state, event :: events =>
      emit state event ++ (step state event).elim [] fun next ↦ collect step emit next events

theorem collect_cons {step : σ → ε → Option σ} (emit : σ → ε → List α) {state next : σ} {event : ε}
    (events : List ε) (hstep : step state event = some next) :
    collect step emit state (event :: events) =
      emit state event ++ collect step emit next events := by
  rw [collect, hstep]
  rfl

/-- A part of a system, and the events of the whole as events of the part.  An event that is none
leaves the part as it is, and emits nothing. -/
structure Projects (step : σ → ε → Option σ) (emit : σ → ε → List α) (other : τ → δ → Option τ)
    (emits : τ → δ → List α) (project : σ → τ) (translate : σ → ε → Option δ) : Prop where
  hidden : ∀ state event next, step state event = some next → translate state event = none →
    project next = project state ∧ emit state event = []
  seen : ∀ state event next seen, step state event = some next →
    translate state event = some seen →
    other (project state) seen = some (project next) ∧
      emits (project state) seen = emit state event

/-- The events of a run that are events of the part. -/
def seenBy (step : σ → ε → Option σ) (translate : σ → ε → Option δ) : σ → List ε → List δ :=
  collect step fun state event ↦ (translate state event).toList

variable {step : σ → ε → Option σ} {emit : σ → ε → List α} {other : τ → δ → Option τ}
  {emits : τ → δ → List α} {project : σ → τ} {translate : σ → ε → Option δ}

/-- The part goes through a run of its own, in which the same is emitted. -/
theorem Projects.of_run (h : Projects step emit other emits project translate) {state final : σ}
    {events : List ε} (hrun : run step state events = some final) :
    run other (project state) (seenBy step translate state events) = some (project final) ∧
      collect other emits (project state) (seenBy step translate state events) =
        collect step emit state events := by
  induction events generalizing state with
  | nil =>
    obtain rfl := Option.some.inj hrun
    exact ⟨rfl, rfl⟩
  | cons event events ih =>
    obtain ⟨next, hstep, hrest⟩ := run_cons_eq_some.mp hrun
    obtain ⟨hpart, hemitted⟩ := ih hrest
    rw [seenBy, collect_cons _ events hstep, collect_cons emit events hstep]
    cases hseen : translate state event with
    | none =>
      obtain ⟨hproject, hemit⟩ := h.hidden state event next hstep hseen
      rw [hproject] at hpart hemitted
      rw [hemit]
      exact ⟨hpart, hemitted⟩
    | some seen =>
      obtain ⟨hother, hemit⟩ := h.seen state event next seen hstep hseen
      constructor
      · exact run_cons_eq_some.mpr ⟨project next, hother, hpart⟩
      · calc collect other emits (project state) (seen :: seenBy step translate next events)
            = emits (project state) seen ++
                collect other emits (project next) (seenBy step translate next events) :=
              collect_cons emits _ hother
          _ = emit state event ++ collect step emit next events := by rw [hemit, hemitted]

end MongoCore.Library.TransitionSystem
