import MongoCore.Library.TransitionSystem
import Mathlib.Order.Lattice
import Mathlib.Order.Nat

/-!
# Loops over chunks

A loop goes through the rows of a table in chunks of a size.  Its steps are those of a transition
system, in which a step visits the next chunk or none.  If the size is positive, every chunk that is
visited ends behind its start, there are at most as many as the table has rows, and a loop that has
gone through the whole table has visited every row in one chunk.
-/

namespace MongoCore.Library.Chunks

open MongoCore.Library.TransitionSystem

variable {σ ε : Type*}

/-- A row lies in the chunk from a first row to a last one, which is not included. -/
def inChunk (row : ℕ) (chunk : ℕ × ℕ) : Bool := decide (chunk.1 ≤ row ∧ row < chunk.2)

def visiting (step : σ → ε → Option σ) (visit : σ → ε → List (ℕ × ℕ)) :
    σ × List (ℕ × ℕ) → ε → Option (σ × List (ℕ × ℕ)) :=
  recorded step fun state chunks event ↦ chunks ++ visit state event

/-- In every run from a state each visited chunk ends behind its start, there are at most as many
chunks as rows, and at the end every row has been visited in exactly one of them. -/
def Ends (step : σ → ε → Option σ) (visit : σ → ε → List (ℕ × ℕ)) (ended : σ → Prop) (total : ℕ)
    (start : σ) : Prop :=
  ∀ events final chunks, run (visiting step visit) (start, []) events = some (final, chunks) →
    (∀ chunk ∈ chunks, chunk.1 < chunk.2) ∧ chunks.length ≤ total ∧
      (ended final → ∀ row < total, chunks.countP (inChunk row) = 1)

/-- Every step visits no chunk, or the one of a given size at the row reached so far.  At the end all
rows are reached. -/
structure ByChunks (step : σ → ε → Option σ) (visit : σ → ε → List (ℕ × ℕ)) (ended : σ → Prop)
    (reaches : σ → ℕ → Prop) (size total : ℕ) : Prop where
  step : ∀ {state row event next}, reaches state row → step state event = some next →
    (visit state event = [] ∧ reaches next row) ∨
      (row < total ∧ visit state event = [(row, min (row + size) total)] ∧
        reaches next (min (row + size) total))
  ended : ∀ {state row}, reaches state row → ended state → row = total

/-- Chunks that do not go backwards and cover each row before a bound once. -/
structure Covered (chunks : List (ℕ × ℕ)) (bound : ℕ) : Prop where
  advances : ∀ chunk ∈ chunks, chunk.1 < chunk.2
  below : ∀ chunk ∈ chunks, chunk.2 ≤ bound
  length : chunks.length ≤ bound
  once : ∀ row < bound, chunks.countP (inChunk row) = 1

theorem Covered.nil : Covered [] 0 := ⟨by simp, by simp, le_rfl, by simp⟩

/-- The next chunk starts where the rows covered so far end. -/
theorem Covered.append {chunks : List (ℕ × ℕ)} {bound stop : ℕ} (h : Covered chunks bound)
    (hstop : bound < stop) : Covered (chunks ++ [(bound, stop)]) stop where
  advances chunk hchunk := by
    rcases List.mem_append.mp hchunk with hchunk | hchunk
    · exact h.advances chunk hchunk
    · rwa [List.mem_singleton.mp hchunk]
  below chunk hchunk := by
    rcases List.mem_append.mp hchunk with hchunk | hchunk
    · exact (h.below chunk hchunk).trans hstop.le
    · rw [List.mem_singleton.mp hchunk]
  length := by
    have hlength := h.length
    rw [List.length_append, List.length_singleton]
    omega
  once row hrow := by
    rw [List.countP_append, List.countP_singleton]
    by_cases hbefore : row < bound
    · have hout : inChunk row (bound, stop) = false := by
        simp only [inChunk, decide_eq_false_iff_not, not_and]
        omega
      rw [h.once row hbefore, hout]
      rfl
    · have hnone : chunks.countP (inChunk row) = 0 := by
        refine List.countP_eq_zero.mpr fun chunk hchunk ↦ ?_
        have hbelow := h.below chunk hchunk
        simp only [inChunk, decide_eq_true_eq, not_and]
        omega
      have hin : inChunk row (bound, stop) = true := by
        simp only [inChunk, decide_eq_true_eq]
        omega
      rw [hnone, hin]
      rfl

/-- A loop that goes by chunks of a positive size ends, and so does one over no rows. -/
theorem ByChunks.ends {step : σ → ε → Option σ} {visit : σ → ε → List (ℕ × ℕ)} {ended : σ → Prop}
    {reaches : σ → ℕ → Prop} {size total : ℕ} (h : ByChunks step visit ended reaches size total)
    (hsize : size ≠ 0 ∨ total = 0) {start : σ} (hstart : reaches start 0) :
    Ends step visit ended total start := by
  intro events final chunks hrun
  -- the row reached bounds the chunks visited so far
  have hkept : ∀ (state : σ × List (ℕ × ℕ)) event next,
      (∃ row ≤ total, reaches state.1 row ∧ Covered state.2 row) → True →
      visiting step visit state event = some next →
      ∃ row ≤ total, reaches next.1 row ∧ Covered next.2 row := by
    rintro ⟨state, chunks⟩ event ⟨next, after⟩ ⟨row, hrow, hreaches, hcovered⟩ - hvisiting
    obtain ⟨hstep, rfl⟩ := recorded_eq_some.mp hvisiting
    rcases h.step hreaches hstep with ⟨hvisit, hnext⟩ | ⟨hmore, hvisit, hnext⟩
    · rw [hvisit, List.append_nil]
      exact ⟨row, hrow, hnext, hcovered⟩
    · rw [hvisit]
      exact ⟨_, min_le_right _ _, hnext, hcovered.append (by omega)⟩
  have hcovered := invariant_of_run hkept ⟨0, Nat.zero_le total, hstart, .nil⟩
    (StepsMeet.of_forall fun _ _ _ ↦ trivial) hrun
  obtain ⟨row, hrow, hreaches, hcovered⟩ := hcovered
  refine ⟨hcovered.advances, hcovered.length.trans hrow, fun hended other hother ↦ ?_⟩
  obtain rfl := h.ended hreaches hended
  exact hcovered.once other hother

end MongoCore.Library.Chunks
