import Mathlib.Data.List.Basic
import Mathlib.Data.List.Infix

/-!
# Self-delimiting streams

A framing is given by a predicate that tells when a prefix of the input is a complete chunk.  A
reader takes letters until the predicate holds for the first time, hands the chunk on, and starts
again.  What it reads therefore depends on the letters only, and not on the pieces in which they
arrive.

`Splits` says what reading a stream from the front gives.  The lemmas compare a reader that has
consumed part of a stream, and holds an unfinished chunk, with the split of the whole stream.
-/

namespace MongoCore.Library.Framing

variable {α : Type*} (complete : List α → Prop)

/-- A chunk that has just become complete. -/
def Chunk (chunk : List α) : Prop :=
  complete chunk ∧ ∀ front, front <+: chunk → front ≠ chunk → ¬ complete front

/-- A chunk that is still being read: no part of it was complete. -/
def Unfinished (held : List α) : Prop := ∀ front, front <+: held → ¬ complete front

/-- The chunks read from the front of a stream that ends with a chunk. -/
inductive Splits : List α → List (List α) → Prop
  | nil : Splits [] []
  | cons {chunk rest : List α} {chunks : List (List α)} :
      Chunk complete chunk → Splits rest chunks → Splits (chunk ++ rest) (chunk :: chunks)

variable {complete}

theorem unfinished_nil (hnil : ¬ complete []) : Unfinished complete [] := by
  intro front hfront
  rwa [List.prefix_nil.mp hfront]

theorem prefix_concat_iff {front held : List α} {letter : α} :
    front <+: held ++ [letter] ↔ front <+: held ∨ front = held ++ [letter] := by
  rw [List.prefix_concat_iff, or_comm]

/-- Another letter either completes an unfinished chunk or leaves it unfinished. -/
theorem Unfinished.concat {held : List α} (h : Unfinished complete held) {letter : α}
    (hletter : ¬ complete (held ++ [letter])) : Unfinished complete (held ++ [letter]) := by
  intro front hfront
  rcases prefix_concat_iff.mp hfront with hfront | rfl
  · exact h front hfront
  · exact hletter

theorem Unfinished.chunk {held : List α} (h : Unfinished complete held) {letter : α}
    (hletter : complete (held ++ [letter])) : Chunk complete (held ++ [letter]) := by
  refine ⟨hletter, fun front hfront hne ↦ ?_⟩
  rcases prefix_concat_iff.mp hfront with hfront | heq
  · exact h front hfront
  · exact absurd heq hne

/-- The first chunk of a stream is determined by the stream. -/
theorem Chunk.unique {chunk other rest otherRest : List α} (hchunk : Chunk complete chunk)
    (hother : Chunk complete other) (heq : chunk ++ rest = other ++ otherRest) :
    chunk = other ∧ rest = otherRest := by
  have hsame : chunk = other := by
    rcases List.prefix_or_prefix_of_prefix (List.prefix_append chunk rest)
        (heq ▸ List.prefix_append other otherRest) with hprefix | hprefix
    · by_contra hne
      exact hother.2 chunk hprefix hne hchunk.1
    · by_contra hne
      exact hchunk.2 other hprefix (fun h ↦ hne h.symm) hother.1
  subst hsame
  exact ⟨rfl, List.append_cancel_left heq⟩

/-- A stream that starts with a chunk splits into that chunk and the split of the rest. -/
theorem Splits.uncons {chunk rest : List α} {chunks : List (List α)}
    (hsplits : Splits complete (chunk ++ rest) chunks) (hchunk : Chunk complete chunk)
    (hne : chunk ≠ []) :
    ∃ tail, chunks = chunk :: tail ∧ Splits complete rest tail := by
  generalize hstream : chunk ++ rest = stream at hsplits
  cases hsplits with
  | nil => exact absurd (List.append_eq_nil_iff.mp hstream).1 hne
  | cons hfirst htail =>
    obtain ⟨rfl, rfl⟩ := hchunk.unique hfirst hstream
    exact ⟨_, rfl, htail⟩

/-- What has been consumed as whole chunks is the front of the split of the whole stream. -/
theorem Splits.append_inv (hnil : ¬ complete []) {consumed rest : List α}
    {chunks all : List (List α)} (hconsumed : Splits complete consumed chunks)
    (hall : Splits complete (consumed ++ rest) all) :
    ∃ tail, all = chunks ++ tail ∧ Splits complete rest tail := by
  induction hconsumed generalizing all with
  | nil => exact ⟨all, rfl, hall⟩
  | cons hchunk _ ih =>
    rw [List.append_assoc] at hall
    obtain ⟨tail, rfl, htail⟩ := hall.uncons hchunk (fun h ↦ hnil (h ▸ hchunk.1))
    obtain ⟨others, rfl, hothers⟩ := ih htail
    exact ⟨others, rfl, hothers⟩

/-- Consuming one more chunk. -/
theorem Splits.concat {consumed chunk : List α} {chunks : List (List α)}
    (hconsumed : Splits complete consumed chunks) (hchunk : Chunk complete chunk) :
    Splits complete (consumed ++ chunk) (chunks ++ [chunk]) := by
  induction hconsumed with
  | nil => simpa using Splits.cons hchunk Splits.nil
  | cons hfirst _ ih =>
    rw [List.append_assoc, List.cons_append]
    exact Splits.cons hfirst ih

/-- A stream that splits into chunks and is an unfinished chunk is empty. -/
theorem Splits.eq_nil_of_unfinished {held : List α} {chunks : List (List α)}
    (hsplits : Splits complete held chunks) (hheld : Unfinished complete held) :
    held = [] ∧ chunks = [] := by
  cases hsplits with
  | nil => exact ⟨rfl, rfl⟩
  | cons hchunk _ => exact absurd hchunk.1 (hheld _ (List.prefix_append _ _))

end MongoCore.Library.Framing
