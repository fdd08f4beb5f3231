import Mathlib.Algebra.GroupWithZero.Nat
import Mathlib.Data.Nat.Log

/-!
# Rounding to a binary precision

A binary floating-point format keeps a natural number exactly if the number is a power of two times
a number of at most so many bits.  Other numbers are rounded to the nearest of these, ties to the
even one.
-/

namespace MongoCore.Library.BinaryRounding

/-- The distance of the numbers that are kept exactly, around a number of more bits. -/
def unit (precision n : ℕ) : ℕ := 2 ^ (Nat.log2 n + 1 - precision)

/-- The nearest number that is kept exactly. -/
def roundTo (precision n : ℕ) : ℕ :=
  if n < 2 ^ precision then n
  else
    let below := n / unit precision n * unit precision n
    let rest := n % unit precision n
    if unit precision n < 2 * rest ∨ 2 * rest = unit precision n ∧ n / unit precision n % 2 = 1 then
      below + unit precision n
    else below

/-- A number that is kept exactly. -/
def Exact (precision n : ℕ) : Prop := ∃ m e, m ≤ 2 ^ precision ∧ n = m * 2 ^ e

variable {precision n : ℕ}

theorem exact_of_lt (hn : n < 2 ^ precision) : Exact precision n :=
  ⟨n, 0, Nat.le_of_lt hn, by rw [pow_zero, mul_one]⟩

theorem div_unit_lt (hn : 2 ^ precision ≤ n) : n / unit precision n < 2 ^ precision := by
  have hlog : precision ≤ Nat.log2 n := by
    rw [Nat.le_log2 (Nat.pos_iff_ne_zero.mp (lt_of_lt_of_le (Nat.two_pow_pos _) hn))]
    exact hn
  rw [unit, Nat.div_lt_iff_lt_mul (Nat.two_pow_pos _), ← pow_add]
  calc n < 2 ^ (Nat.log2 n + 1) := Nat.lt_log2_self
    _ = 2 ^ (precision + (Nat.log2 n + 1 - precision)) := by
      congr 1
      omega

/-- Rounding gives a number that is kept exactly. -/
theorem exact_roundTo (precision n : ℕ) : Exact precision (roundTo precision n) := by
  unfold roundTo
  by_cases hn : n < 2 ^ precision
  · rw [if_pos hn]
    exact exact_of_lt hn
  · have hdiv := div_unit_lt (Nat.not_lt.mp hn)
    rw [if_neg hn]
    dsimp only
    split_ifs
    · exact ⟨n / unit precision n + 1, _, hdiv, by rw [unit, Nat.add_mul, one_mul]⟩
    · exact ⟨n / unit precision n, _, Nat.le_of_lt hdiv, rfl⟩

/-- What is kept exactly is a multiple of the distance around it. -/
theorem unit_dvd_of_exact (hprecision : 0 < precision) (hn : 2 ^ precision ≤ n)
    (hexact : Exact precision n) : unit precision n ∣ n := by
  obtain ⟨m, e, hm, rfl⟩ := hexact
  have hne : m * 2 ^ e ≠ 0 := Nat.pos_iff_ne_zero.mp (lt_of_lt_of_le (Nat.two_pow_pos _) hn)
  have hle : 2 ^ Nat.log2 (m * 2 ^ e) ≤ m * 2 ^ e := Nat.log2_self_le hne
  have hbound : m * 2 ^ e ≤ 2 ^ (precision + e) := by
    rw [pow_add]
    exact Nat.mul_le_mul_right _ hm
  have hlog : Nat.log2 (m * 2 ^ e) ≤ precision + e :=
    (Nat.pow_le_pow_iff_right (by decide)).mp (hle.trans hbound)
  unfold unit
  by_cases hexponent : Nat.log2 (m * 2 ^ e) + 1 - precision ≤ e
  · exact Nat.dvd_mul_left_of_dvd (Nat.pow_dvd_pow 2 hexponent) m
  · -- only the largest number of all bits is above its bound, and it is a power of two
    have heq : m * 2 ^ e = 2 ^ (precision + e) :=
      Nat.le_antisymm hbound (le_trans (Nat.pow_le_pow_right (by decide) (by omega)) hle)
    rw [heq, Nat.log2_two_pow]
    exact Nat.pow_dvd_pow 2 (by omega)

/-- Rounding keeps exactly the numbers that are kept exactly. -/
theorem roundTo_eq_self_iff (hprecision : 0 < precision) :
    roundTo precision n = n ↔ Exact precision n := by
  constructor
  · intro hround
    rw [← hround]
    exact exact_roundTo precision n
  · intro hexact
    by_cases hn : n < 2 ^ precision
    · exact if_pos hn
    · have hdvd := unit_dvd_of_exact hprecision (Nat.not_lt.mp hn) hexact
      have hpos : 0 < unit precision n := Nat.two_pow_pos _
      rw [roundTo, if_neg hn, Nat.mod_eq_zero_of_dvd hdvd, Nat.div_mul_cancel hdvd]
      dsimp only
      rw [if_neg (by omega)]

end MongoCore.Library.BinaryRounding
