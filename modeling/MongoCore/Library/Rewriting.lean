import Mathlib.Data.List.Basic
import Mathlib.Data.List.Infix

/-!
# Replacing a pattern in a list

`replaceAll` scans a list from the left and replaces every non-overlapping occurrence of a fixed
pattern.  A list that was assembled from letters and holes, the holes filled with the pattern,
comes back with the holes filled by the replacement exactly when the scan starts no match at a
letter.  That condition, `StartsOnlyAtHoles`, is what separates filling the holes from rewriting
text that merely looks like one.

What the scan replaces is a cut of its text into letters and holes of its own.  That cut is the
one the list was assembled from under the same condition and no other, so a pattern that does start
at a letter is always noticed by the cut, though not always by the result of the replacement.
-/

namespace MongoCore.Library.Rewriting

variable {α : Type*}

/-! ## Letters and holes -/

/-- Fill the holes of a list of letters and holes. -/
def fill (filling : List α) : List (Option α) → List α
  | [] => []
  | some letter :: rest => letter :: fill filling rest
  | none :: rest => filling ++ fill filling rest

@[simp] theorem fill_nil (filling : List α) : fill filling [] = [] := rfl

@[simp] theorem fill_some (filling : List α) (letter : α) (rest : List (Option α)) :
    fill filling (some letter :: rest) = letter :: fill filling rest := rfl

@[simp] theorem fill_none (filling : List α) (rest : List (Option α)) :
    fill filling (none :: rest) = filling ++ fill filling rest := rfl

@[simp] theorem fill_append (filling : List α) (front back : List (Option α)) :
    fill filling (front ++ back) = fill filling front ++ fill filling back := by
  induction front with
  | nil => rfl
  | cons token front ih => cases token <;> simp [ih]

@[simp] theorem fill_map_some (filling letters : List α) :
    fill filling (letters.map some) = letters := by
  induction letters with
  | nil => rfl
  | cons letter letters ih => simp [ih]

theorem fill_flatMap {β : Type*} (filling : List α) (front : β → List (Option α)) (items : List β) :
    fill filling (items.flatMap front) = items.flatMap fun item ↦ fill filling (front item) := by
  induction items with
  | nil => rfl
  | cons item items ih => rw [List.flatMap_cons, List.flatMap_cons, fill_append, ih]

/-- With the holes filled by the pattern, no occurrence of the pattern starts at a letter. -/
def StartsOnlyAtHoles (pattern : List α) (tokens : List (Option α)) : Prop :=
  ∀ front letter back, tokens = front ++ some letter :: back →
    ¬ pattern <+: letter :: fill pattern back

theorem StartsOnlyAtHoles.tail {pattern : List α} {token : Option α} {tokens : List (Option α)}
    (h : StartsOnlyAtHoles pattern (token :: tokens)) : StartsOnlyAtHoles pattern tokens := by
  intro front letter back htokens
  exact h (token :: front) letter back (by rw [htokens, List.cons_append])

@[simp] theorem startsOnlyAtHoles_nil (pattern : List α) : StartsOnlyAtHoles pattern [] := by
  intro front letter back htokens
  exact absurd htokens (by simp)

@[simp] theorem startsOnlyAtHoles_none {pattern : List α} {tokens : List (Option α)} :
    StartsOnlyAtHoles pattern (none :: tokens) ↔ StartsOnlyAtHoles pattern tokens := by
  refine ⟨StartsOnlyAtHoles.tail, fun h front letter back htokens ↦ ?_⟩
  cases front with
  | nil => exact absurd htokens (by simp)
  | cons token front =>
    exact h front letter back (List.cons.inj htokens).2

@[simp] theorem startsOnlyAtHoles_some {pattern : List α} {letter : α}
    {tokens : List (Option α)} :
    StartsOnlyAtHoles pattern (some letter :: tokens) ↔
      ¬ pattern <+: letter :: fill pattern tokens ∧ StartsOnlyAtHoles pattern tokens := by
  refine ⟨fun h ↦ ⟨h [] letter tokens rfl, h.tail⟩, fun h front other back htokens ↦ ?_⟩
  cases front with
  | nil =>
    obtain ⟨hletter, rfl⟩ := List.cons.inj htokens
    obtain rfl := Option.some.inj hletter
    exact h.1
  | cons token front =>
    exact h.2 front other back (List.cons.inj htokens).2

/-! ## The scan -/

variable [DecidableEq α]

/-- Whether a pattern starts only at holes is decided token by token. -/
instance decidableStartsOnlyAtHoles (pattern : List α) :
    (tokens : List (Option α)) → Decidable (StartsOnlyAtHoles pattern tokens)
  | [] => isTrue (startsOnlyAtHoles_nil pattern)
  | none :: tokens =>
      have := decidableStartsOnlyAtHoles pattern tokens
      decidable_of_iff (StartsOnlyAtHoles pattern tokens) startsOnlyAtHoles_none.symm
  | some letter :: tokens =>
      have := decidableStartsOnlyAtHoles pattern tokens
      decidable_of_iff (¬ pattern <+: letter :: fill pattern tokens ∧
        StartsOnlyAtHoles pattern tokens) startsOnlyAtHoles_some.symm

/-- Replace the pattern from the left, after passing over `skip` letters of a match already
replaced. -/
def replaceFrom (pattern replacement : List α) : ℕ → List α → List α
  | _, [] => []
  | skip + 1, _ :: rest => replaceFrom pattern replacement skip rest
  | 0, letter :: rest =>
      if pattern.isPrefixOf (letter :: rest) then
        replacement ++ replaceFrom pattern replacement (pattern.length - 1) rest
      else
        letter :: replaceFrom pattern replacement 0 rest

/-- Replace every non-overlapping occurrence of a nonempty pattern, from the left. -/
def replaceAll (pattern replacement text : List α) : List α :=
  replaceFrom pattern replacement 0 text

theorem replaceFrom_append (pattern replacement passed text : List α) :
    replaceFrom pattern replacement passed.length (passed ++ text) =
      replaceFrom pattern replacement 0 text := by
  induction passed with
  | nil => rfl
  | cons letter passed ih => exact ih

/-- A match at the front is replaced, and the scan goes on behind it. -/
theorem replaceAll_pattern_append {pattern : List α} (hpattern : pattern ≠ [])
    (replacement text : List α) :
    replaceAll pattern replacement (pattern ++ text) =
      replacement ++ replaceAll pattern replacement text := by
  cases pattern with
  | nil => exact absurd rfl hpattern
  | cons letter rest =>
    have hprefix : (letter :: rest).isPrefixOf (letter :: (rest ++ text)) = true := by
      simp
    rw [List.cons_append, replaceAll, replaceFrom, if_pos hprefix]
    exact congrArg (replacement ++ ·) (replaceFrom_append _ _ rest text)

/-- A letter at which no match starts is kept. -/
theorem replaceAll_cons_of_not_prefix {pattern text : List α} {letter : α}
    (h : ¬ pattern <+: letter :: text) (replacement : List α) :
    replaceAll pattern replacement (letter :: text) =
      letter :: replaceAll pattern replacement text := by
  have hprefix : ¬ pattern.isPrefixOf (letter :: text) = true := by
    simpa using h
  rw [replaceAll, replaceFrom, if_neg hprefix, replaceAll]

/-- If the pattern starts only at holes, replacing it fills exactly the holes. -/
theorem replaceAll_fill {pattern : List α} (hpattern : pattern ≠ []) (replacement : List α)
    {tokens : List (Option α)} (h : StartsOnlyAtHoles pattern tokens) :
    replaceAll pattern replacement (fill pattern tokens) = fill replacement tokens := by
  induction tokens with
  | nil => rfl
  | cons token tokens ih =>
    cases token with
    | none =>
      rw [fill_none, fill_none, replaceAll_pattern_append hpattern, ih h.tail]
    | some letter =>
      rw [fill_some, fill_some, replaceAll_cons_of_not_prefix (h [] letter tokens rfl),
        ih h.tail]

/-! ## The cut of a scan -/

/-- The letters that a scan keeps, and a hole for each match that it replaces, after passing over
`skip` letters of a match already found. -/
def scanFrom (pattern : List α) : ℕ → List α → List (Option α)
  | _, [] => []
  | skip + 1, _ :: rest => scanFrom pattern skip rest
  | 0, letter :: rest =>
      if pattern.isPrefixOf (letter :: rest) then
        none :: scanFrom pattern (pattern.length - 1) rest
      else
        some letter :: scanFrom pattern 0 rest

/-- The letters that a scan keeps, and a hole for each match. -/
def scan (pattern text : List α) : List (Option α) := scanFrom pattern 0 text

theorem replaceFrom_eq_fill_scanFrom (pattern replacement : List α) (skip : ℕ) (text : List α) :
    replaceFrom pattern replacement skip text = fill replacement (scanFrom pattern skip text) := by
  induction text generalizing skip with
  | nil => cases skip <;> rfl
  | cons letter text ih =>
    cases skip with
    | succ skip => exact ih skip
    | zero =>
      rw [replaceFrom, scanFrom]
      split_ifs
      · rw [fill_none, ih]
      · rw [fill_some, ih]

/-- Replacing is filling the holes of the scan. -/
theorem replaceAll_eq_fill_scan (pattern replacement text : List α) :
    replaceAll pattern replacement text = fill replacement (scan pattern text) :=
  replaceFrom_eq_fill_scanFrom pattern replacement 0 text

theorem replaceFrom_self {pattern : List α} (hpattern : pattern ≠ []) (skip : ℕ)
    (text : List α) : replaceFrom pattern pattern skip text = text.drop skip := by
  induction text generalizing skip with
  | nil => cases skip <;> rfl
  | cons letter text ih =>
    cases skip with
    | succ skip => exact ih skip
    | zero =>
      rw [replaceFrom]
      split_ifs with hprefix
      · obtain ⟨first, pattern, rfl⟩ := List.exists_cons_of_ne_nil hpattern
        obtain ⟨rest, hrest⟩ := List.isPrefixOf_iff_prefix.mp hprefix
        have htext : pattern ++ rest = text := (List.cons.inj hrest).2
        rw [ih, List.length_cons, Nat.add_sub_cancel, ← htext, List.drop_left, hrest, htext]
        rfl
      · rw [ih]
        rfl

/-- With the matches put back into its holes, the scan of a text is the text. -/
theorem fill_scan {pattern : List α} (hpattern : pattern ≠ []) (text : List α) :
    fill pattern (scan pattern text) = text := by
  rw [← replaceAll_eq_fill_scan, replaceAll, replaceFrom_self hpattern, List.drop_zero]

theorem scanFrom_append (pattern passed text : List α) :
    scanFrom pattern passed.length (passed ++ text) = scan pattern text := by
  induction passed with
  | nil => rfl
  | cons letter passed ih => exact ih

theorem scan_pattern_append {pattern : List α} (hpattern : pattern ≠ []) (text : List α) :
    scan pattern (pattern ++ text) = none :: scan pattern text := by
  cases pattern with
  | nil => exact absurd rfl hpattern
  | cons letter rest =>
    have hprefix : (letter :: rest).isPrefixOf (letter :: (rest ++ text)) = true := by
      simp
    rw [List.cons_append, scan, scanFrom, if_pos hprefix]
    exact congrArg (none :: ·) (scanFrom_append _ rest text)

/-- A scan finds exactly the holes if and only if the pattern starts only at holes. -/
theorem scan_fill_iff {pattern : List α} (hpattern : pattern ≠ []) {tokens : List (Option α)} :
    scan pattern (fill pattern tokens) = tokens ↔ StartsOnlyAtHoles pattern tokens := by
  induction tokens with
  | nil => exact iff_of_true rfl (startsOnlyAtHoles_nil pattern)
  | cons token tokens ih =>
    cases token with
    | none =>
      rw [fill_none, scan_pattern_append hpattern, startsOnlyAtHoles_none, ← ih]
      exact ⟨fun h ↦ (List.cons.inj h).2, fun h ↦ congrArg (none :: ·) h⟩
    | some letter =>
      rw [fill_some, startsOnlyAtHoles_some, ← ih, scan, scanFrom]
      by_cases hstart : pattern <+: letter :: fill pattern tokens
      · rw [if_pos (List.isPrefixOf_iff_prefix.mpr hstart)]
        refine iff_of_false (fun h ↦ ?_) fun h ↦ h.1 hstart
        cases (List.cons.inj h).1
      · rw [if_neg (mt List.isPrefixOf_iff_prefix.mp hstart)]
        exact ⟨fun h ↦ ⟨hstart, (List.cons.inj h).2⟩, fun h ↦ congrArg (some letter :: ·) h.2⟩

end MongoCore.Library.Rewriting
