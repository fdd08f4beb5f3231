import Mathlib.Data.List.Induction

/-!
# Tokens and numerals

A scanner takes the longest run of characters of a kind from the front of a text.  The run is a
token if what follows it starts with a character of another kind.  Decimal numerals are tokens of
digits; a numeral has zeros in front of the digits of its value.
-/

namespace MongoCore.Library.Tokens

/-! ## Tokens -/

variable {α : Type*} {kind : α → Bool} {token rest : List α}

/-- The text does not go on with a character of the kind. -/
def Stops (kind : α → Bool) (rest : List α) : Prop := ∀ c ∈ rest.head?, kind c = false

@[simp] theorem stops_nil : Stops kind ([] : List α) := fun _ hc ↦ by cases hc

@[simp] theorem stops_cons {c : α} : Stops kind (c :: rest) ↔ kind c = false := by
  simp [Stops]

theorem takeWhile_token (htoken : ∀ c ∈ token, kind c = true) (hrest : Stops kind rest) :
    (token ++ rest).takeWhile kind = token := by
  rw [List.takeWhile_append_of_pos htoken]
  cases rest with
  | nil => rw [List.takeWhile_nil, List.append_nil]
  | cons c rest =>
    rw [List.takeWhile_cons_of_neg (Bool.not_eq_true _ ▸ stops_cons.mp hrest), List.append_nil]

theorem dropWhile_token (htoken : ∀ c ∈ token, kind c = true) (hrest : Stops kind rest) :
    (token ++ rest).dropWhile kind = rest := by
  rw [List.dropWhile_append_of_pos htoken]
  cases rest with
  | nil => rfl
  | cons c rest => exact List.dropWhile_cons_of_neg (Bool.not_eq_true _ ▸ stops_cons.mp hrest)

/-- Behind its longest run of characters of a kind a text is what a scanner has not passed over. -/
theorem drop_length_takeWhile (text : List α) :
    text.drop (text.takeWhile kind).length = text.dropWhile kind := by
  calc text.drop (text.takeWhile kind).length
      = (text.takeWhile kind ++ text.dropWhile kind).drop (text.takeWhile kind).length := by
        rw [List.takeWhile_append_dropWhile]
    _ = text.dropWhile kind := List.drop_left

/-! ## Numerals -/

/-- A text of decimal digits, at least one. -/
structure IsNumeral (digits : List Char) : Prop where
  ne_nil : digits ≠ []
  digit : ∀ c ∈ digits, c.isDigit = true

theorem isNumeral_toDigits (n : ℕ) : IsNumeral (Nat.toDigits 10 n) where
  ne_nil := Nat.toDigits_ne_nil
  digit _ hc := Nat.isDigit_of_mem_toDigits (by decide) (by decide) hc

theorem isNumeral_zeros_append (zeros n : ℕ) :
    IsNumeral (List.replicate zeros '0' ++ Nat.toDigits 10 n) where
  ne_nil := List.append_ne_nil_of_right_ne_nil _ Nat.toDigits_ne_nil
  digit c hc := by
    rcases List.mem_append.mp hc with hc | hc
    · rw [List.eq_of_mem_replicate hc]
      rfl
    · exact (isNumeral_toDigits n).digit c hc

theorem code_of_isDigit {c : Char} (hc : c.isDigit = true) : 48 ≤ c.toNat ∧ c.toNat ≤ 57 := by
  simpa [Char.isDigit, Char.le_def, UInt32.le_iff_toNat_le] using hc

theorem digit_lt {c : Char} (hc : c.isDigit = true) : c.toNat - '0'.toNat < 10 := by
  have hcode := code_of_isDigit hc
  have hzero : '0'.toNat = 48 := rfl
  omega

/-- A digit is the numeral of its value. -/
theorem toDigits_of_isDigit {c : Char} (hc : c.isDigit = true) :
    Nat.toDigits 10 (c.toNat - '0'.toNat) = [c] := by
  rw [Nat.toDigits_of_lt_base (digit_lt hc)]
  have hcode : c.toNat ∈ List.range' 48 10 := by
    have hbounds := code_of_isDigit hc
    rw [List.mem_range'_1]
    omega
  have hall : ∀ code ∈ List.range' 48 10, (code - '0'.toNat).digitChar = Char.ofNat code := by
    decide
  rw [hall _ hcode, Char.ofNat_toNat]

/-- In front of the digits of its value a numeral has only zeros. -/
theorem IsNumeral.exists_zeros {digits : List Char} (h : IsNumeral digits) :
    ∃ zeros, digits =
      List.replicate zeros '0' ++ Nat.toDigits 10 (Nat.ofDigitChars 10 digits 0) := by
  obtain ⟨hne, hdigits⟩ := h
  induction digits using List.reverseRecOn with
  | nil => exact absurd rfl hne
  | append_singleton digits c ih =>
    have hc : c.isDigit = true := hdigits c (by simp)
    have hvalue : Nat.ofDigitChars 10 (digits ++ [c]) 0 =
        10 * Nat.ofDigitChars 10 digits 0 + (c.toNat - '0'.toNat) := by
      rw [Nat.ofDigitChars_append, Nat.ofDigitChars_cons, Nat.ofDigitChars_nil]
    by_cases hnil : digits = []
    · subst hnil
      refine ⟨0, ?_⟩
      rw [hvalue, Nat.ofDigitChars_nil, Nat.mul_zero, Nat.zero_add, toDigits_of_isDigit hc]
      rfl
    · obtain ⟨zeros, hzeros⟩ := ih hnil fun d hd ↦ hdigits d (List.mem_append_left [c] hd)
      generalize Nat.ofDigitChars 10 digits 0 = value at hvalue hzeros
      rw [hvalue, hzeros]
      rcases Nat.eq_zero_or_pos value with rfl | hpos
      · refine ⟨zeros + 1, ?_⟩
        rw [Nat.mul_zero, Nat.zero_add, toDigits_of_isDigit hc, Nat.toDigits_zero,
          List.replicate_succ']
      · refine ⟨zeros, ?_⟩
        rw [← Nat.toDigits_append_toDigits (by decide) hpos (digit_lt hc),
          toDigits_of_isDigit hc, List.append_assoc]

/-- Zeros in front of a numeral do not change its value. -/
theorem ofDigitChars_zeros_append (zeros n : ℕ) :
    Nat.ofDigitChars 10 (List.replicate zeros '0' ++ Nat.toDigits 10 n) 0 = n := by
  rw [Nat.ofDigitChars_append, Nat.ofDigitChars_replicate_zero, Nat.mul_zero,
    Nat.ofDigitChars_ten_toDigits]

end MongoCore.Library.Tokens
