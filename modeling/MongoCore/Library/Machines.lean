import Mathlib.Data.List.Basic

/-!
# Machines with outputs

A machine answers every input with an output and goes to its next state.  Other than a transition
system it can always take a step, so its run is determined by its first state and the list of
inputs.

Two machines that are related step by step give the same outputs.  Often the relation can be kept
only for a while, because a step uses up some resource.  The cost of a step says how much, and the
rule for related machines asks that the cost of the run stays within a budget.
-/

namespace MongoCore.Library.Machines

variable {σ τ ε ο : Type*} (step : σ → ε → ο × σ)

def after (state : σ) (inputs : List ε) : σ :=
  inputs.foldl (fun state input ↦ (step state input).2) state

def outputs : σ → List ε → List ο
  | _, [] => []
  | state, input :: inputs => (step state input).1 :: outputs (step state input).2 inputs

/-- What the steps along a list of inputs cost together. -/
def total (cost : σ → ε → ℕ) : σ → List ε → ℕ
  | _, [] => 0
  | state, input :: inputs => cost state input + total cost (step state input).2 inputs

variable {step}

@[simp] theorem after_cons (state : σ) (input : ε) (inputs : List ε) :
    after step state (input :: inputs) = after step (step state input).2 inputs := rfl

theorem outputs_append (state : σ) (inputs more : List ε) :
    outputs step state (inputs ++ more) =
      outputs step state inputs ++ outputs step (after step state inputs) more := by
  induction inputs generalizing state with
  | nil => rfl
  | cons input inputs ih =>
    rw [List.cons_append, outputs, outputs, ih, List.cons_append, after_cons]

/-- Two machines give the same outputs if each step within the budget gives the same output and
keeps a relation.  The relation may depend on what has been spent. -/
theorem related_of_budget {other : τ → ε → ο × τ} {related : ℕ → σ → τ → Prop}
    {cost : σ → ε → ℕ} {budget : ℕ}
    (hstep : ∀ spent state twin input, related spent state twin →
      spent + cost state input ≤ budget →
      (step state input).1 = (other twin input).1 ∧
        related (spent + cost state input) (step state input).2 (other twin input).2)
    {spent : ℕ} {state : σ} {twin : τ} (hrelated : related spent state twin) (inputs : List ε)
    (hbudget : spent + total step cost state inputs ≤ budget) :
    outputs step state inputs = outputs other twin inputs ∧
      related (spent + total step cost state inputs) (after step state inputs)
        (after other twin inputs) := by
  induction inputs generalizing spent state twin with
  | nil => exact ⟨rfl, hrelated⟩
  | cons input inputs ih =>
    rw [total, ← Nat.add_assoc] at hbudget
    obtain ⟨houtput, hnext⟩ := hstep spent state twin input hrelated (by omega)
    obtain ⟨houtputs, hlast⟩ := ih hnext hbudget
    rw [outputs, outputs, houtput, houtputs, total, ← Nat.add_assoc]
    exact ⟨rfl, hlast⟩

end MongoCore.Library.Machines
