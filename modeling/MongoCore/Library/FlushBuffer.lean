import Mathlib.Data.List.Basic
import Mathlib.Data.List.TakeDrop

/-!
# A buffer that is flushed when it is full

Items are put into a buffer one by one, and the buffer is flushed as soon as it holds a given number
of them.  What was flushed and what is still in the buffer make up the items in order.  Every flush
has exactly the given number of items, and fewer are left at the end: the remainder of a division.
-/

namespace MongoCore.Library.FlushBuffer

variable {α : Type*}

/-- The flushes of a sequence of items, and what is in the buffer at the end. -/
def flushes (size : ℕ) (buffer : List α) : List α → List (List α) × List α
  | [] => ([], buffer)
  | item :: items =>
      if size ≤ (buffer ++ [item]).length then
        let (full, rest) := flushes size [] items
        ((buffer ++ [item]) :: full, rest)
      else flushes size (buffer ++ [item]) items

/-- Nothing is lost or put in another order. -/
theorem flatten_flushes (size : ℕ) (buffer items : List α) :
    (flushes size buffer items).1.flatten ++ (flushes size buffer items).2 = buffer ++ items := by
  induction items generalizing buffer with
  | nil => simp [flushes]
  | cons item items ih =>
    unfold flushes
    split_ifs
    · simp [ih]
    · simp [ih]

/-- A flush has as many items as the buffer holds. -/
theorem length_of_mem_flushes {size : ℕ} {buffer items : List α} (hbuffer : buffer.length < size)
    {flush : List α} (h : flush ∈ (flushes size buffer items).1) : flush.length = size := by
  induction items generalizing buffer with
  | nil => exact absurd h List.not_mem_nil
  | cons item items ih =>
    unfold flushes at h
    split_ifs at h with hfull
    · rcases List.mem_cons.mp h with rfl | h
      · rw [List.length_append, List.length_singleton] at hfull ⊢
        omega
      · exact ih (by rw [List.length_nil]; omega) h
    · exact ih (by omega) h

theorem length_rest_lt {size : ℕ} {buffer : List α} (hbuffer : buffer.length < size)
    (items : List α) : (flushes size buffer items).2.length < size := by
  induction items generalizing buffer with
  | nil => exact hbuffer
  | cons item items ih =>
    unfold flushes
    split_ifs with hfull
    · exact ih (by rw [List.length_nil]; omega)
    · exact ih (by omega)

/-- The numbers of flushes and of items left are a quotient and its remainder. -/
theorem size_mul_add {size : ℕ} {buffer : List α} (hbuffer : buffer.length < size)
    (items : List α) :
    size * (flushes size buffer items).1.length + (flushes size buffer items).2.length =
      buffer.length + items.length := by
  have hflatten := congrArg List.length (flatten_flushes size buffer items)
  rw [List.length_append, List.length_append] at hflatten
  have hfull : (flushes size buffer items).1.flatten.length =
      size * (flushes size buffer items).1.length := by
    have hsizes : ∀ n ∈ (flushes size buffer items).1.map List.length, n = size := by
      intro n hn
      obtain ⟨flush, hflush, rfl⟩ := List.mem_map.mp hn
      exact length_of_mem_flushes hbuffer hflush
    rw [List.length_flatten, List.eq_replicate_of_mem hsizes, List.sum_replicate_nat,
      List.length_map, Nat.mul_comm]
  rw [← hfull]
  exact hflatten

theorem length_flushes {size : ℕ} (hsize : 0 < size) (items : List α) :
    (flushes size [] items).1.length = items.length / size := by
  have hempty : ([] : List α).length < size := hsize
  have hsum := size_mul_add hempty items
  have hrest := length_rest_lt hempty items
  rw [List.length_nil, Nat.zero_add] at hsum
  rw [← hsum, Nat.mul_add_div hsize, Nat.div_eq_of_lt hrest, Nat.add_zero]

/-- Nothing is left in the buffer exactly if the items fill it a whole number of times. -/
theorem rest_eq_nil_iff {size : ℕ} (hsize : 0 < size) (items : List α) :
    (flushes size [] items).2 = [] ↔ size ∣ items.length := by
  have hempty : ([] : List α).length < size := hsize
  have hsum := size_mul_add hempty items
  have hrest := length_rest_lt hempty items
  rw [List.length_nil, Nat.zero_add] at hsum
  rw [← List.length_eq_zero_iff, Nat.dvd_iff_mod_eq_zero, ← hsum, Nat.mul_add_mod,
    Nat.mod_eq_of_lt hrest]

end MongoCore.Library.FlushBuffer
