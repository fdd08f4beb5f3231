import Mathlib.Data.List.DropRight
import Mathlib.Data.List.Infix

/-!
# Placeholders in text

A placeholder is a reference between double braces.  There are two recognisers of placeholders.
Validation and interpolation use a regular expression, translated as `matchAt` and `cut`.
Resolution first asks whether a whole string is one placeholder, translated as
`wholeReference?`, and does not use the regular expression for that.

The two agree on a whole string exactly as far as its inner text is one the regular expression
accepts: nonempty, and without a closing brace.
-/

namespace MongoCore.Operations.Placeholders

/-! ## Characters -/

/-- The characters with the Unicode property `White_Space`, which `trim` removes. -/
def isWhitespace (c : Char) : Bool :=
  let n := c.toNat
  (9 ≤ n && n ≤ 13) || n == 0x20 || n == 0x85 || n == 0xA0 || n == 0x1680 ||
    (0x2000 ≤ n && n ≤ 0x200A) || n == 0x2028 || n == 0x2029 || n == 0x202F || n == 0x205F ||
    n == 0x3000

/-- Remove whitespace at both ends. -/
def trim (text : List Char) : List Char :=
  (text.dropWhile isWhitespace).rdropWhile isWhitespace

def openBraces : List Char := ['{', '{']

def closeBraces : List Char := ['}', '}']

def placeholder (inner : List Char) : List Char :=
  openBraces ++ inner ++ closeBraces

/-! ## The regular expression -/

/-- Match two opening braces, one or more characters other than a closing brace, and two closing
braces at the front of a text.  The result is the captured group. -/
def matchAt : List Char → Option (List Char)
  | '{' :: '{' :: rest =>
      let group := rest.takeWhile (· ≠ '}')
      if !group.isEmpty && closeBraces.isPrefixOf (rest.dropWhile (· ≠ '}')) then some group
      else none
  | _ => none

/-- A character between two matches, or a match with its group. -/
inductive Piece where
  | lit (c : Char)
  | hole (group : List Char)
  deriving DecidableEq, Repr

/-- Cut a text at its matches, leftmost first, after passing over `skip` characters of a match
already found. -/
def cutFrom : ℕ → List Char → List Piece
  | _, [] => []
  | skip + 1, _ :: rest => cutFrom skip rest
  | 0, c :: rest =>
      match matchAt (c :: rest) with
      | some group => .hole group :: cutFrom (group.length + 3) rest
      | none => .lit c :: cutFrom 0 rest

/-- Cut a text at the matches of the regular expression. -/
def cut (text : List Char) : List Piece := cutFrom 0 text

def Piece.group? : Piece → Option (List Char)
  | .lit _ => none
  | .hole group => some group

/-- The groups captured in a text, from left to right. -/
def captures (text : List Char) : List (List Char) := (cut text).filterMap Piece.group?

def Piece.text : Piece → List Char
  | .lit c => [c]
  | .hole group => placeholder group

@[simp] theorem Piece.text_lit (c : Char) : (Piece.lit c).text = [c] := rfl

@[simp] theorem Piece.text_hole (group : List Char) :
    (Piece.hole group).text = placeholder group := rfl

scoped instance decidableMem (text : List Char) (texts : List (List Char)) :
    Decidable (text ∈ texts) :=
  List.instDecidableMemOfLawfulBEq text texts

/-- What the regular expression accepts inside the braces. -/
def IsGroup (group : List Char) : Prop := group ≠ [] ∧ '}' ∉ group

instance (group : List Char) : Decidable (IsGroup group) :=
  inferInstanceAs (Decidable (_ ∧ _))

theorem placeholder_ne_nil (group : List Char) : placeholder group ≠ [] := by
  simp [placeholder, openBraces]

theorem matchAt_placeholder_append {group : List Char} (hgroup : IsGroup group)
    (rest : List Char) : matchAt (placeholder group ++ rest) = some group := by
  have hall : ∀ c ∈ group, decide (c ≠ '}') = true := by
    intro c hc
    simpa using fun heq : c = '}' ↦ hgroup.2 (heq ▸ hc)
  have htake : (group ++ '}' :: '}' :: rest).takeWhile (· ≠ '}') = group := by
    rw [List.takeWhile_append_of_pos hall]
    simp
  have hdrop : (group ++ '}' :: '}' :: rest).dropWhile (· ≠ '}') = '}' :: '}' :: rest := by
    rw [List.dropWhile_append_of_pos hall]
    simp
  have hempty : group.isEmpty = false := by
    simpa using hgroup.1
  have hshape : placeholder group ++ rest = '{' :: '{' :: (group ++ '}' :: '}' :: rest) := by
    simp [placeholder, openBraces, closeBraces]
  rw [hshape]
  simp only [matchAt, htake, hdrop, hempty]
  simp [closeBraces]

/-- A match is a placeholder at the front of the text. -/
theorem exists_of_matchAt {text group : List Char} (h : matchAt text = some group) :
    IsGroup group ∧ ∃ rest, text = placeholder group ++ rest := by
  unfold matchAt at h
  split at h
  · rename_i rest
    simp only [Option.ite_none_right_eq_some, Bool.and_eq_true, Bool.not_eq_true',
      List.isEmpty_eq_false_iff, Option.some.injEq] at h
    obtain ⟨⟨hne, hclose⟩, rfl⟩ := h
    obtain ⟨back, hback⟩ := List.isPrefixOf_iff_prefix.mp hclose
    refine ⟨⟨hne, fun hmem ↦ ?_⟩, back, ?_⟩
    · simpa using List.mem_takeWhile_imp hmem
    · calc
        '{' :: '{' :: rest = openBraces ++ rest := rfl
        _ = openBraces ++ (rest.takeWhile (· ≠ '}') ++ rest.dropWhile (· ≠ '}')) := by
          rw [List.takeWhile_append_dropWhile]
        _ = placeholder (rest.takeWhile (· ≠ '}')) ++ back := by
          rw [← hback, placeholder]
          simp only [List.append_assoc]
  · exact absurd h (by simp)

theorem cutFrom_append (passed text : List Char) :
    cutFrom passed.length (passed ++ text) = cut text := by
  induction passed with
  | nil => rfl
  | cons c passed ih => exact ih

/-- A placeholder at the front is cut off as a match. -/
theorem cut_placeholder_append {group : List Char} (hgroup : IsGroup group) (text : List Char) :
    cut (placeholder group ++ text) = .hole group :: cut text := by
  have hmatch := matchAt_placeholder_append hgroup text
  have hlength : group.length + 3 = ('{' :: group ++ closeBraces).length := by
    simp [closeBraces]
  have hshape : placeholder group ++ text = '{' :: (('{' :: group ++ closeBraces) ++ text) := by
    simp [placeholder, openBraces]
  rw [hshape] at hmatch ⊢
  rw [cut, cutFrom, hmatch]
  simp only
  rw [hlength, cutFrom_append]

/-- A character at which no match starts is cut off alone. -/
theorem cut_cons_of_matchAt_eq_none {c : Char} {text : List Char}
    (h : matchAt (c :: text) = none) : cut (c :: text) = .lit c :: cut text := by
  rw [cut, cutFrom, h, cut]

/-- Induction along the cut of a text. -/
theorem cut_induction {motive : List Char → Prop} (nil : motive [])
    (lit : ∀ c text, matchAt (c :: text) = none → motive text → motive (c :: text))
    (hole : ∀ group text, IsGroup group → motive text → motive (placeholder group ++ text)) :
    ∀ text, motive text := by
  intro text
  induction hlength : text.length using Nat.strong_induction_on generalizing text with
  | _ length ih =>
    cases text with
    | nil => exact nil
    | cons c text =>
      cases hmatch : matchAt (c :: text) with
      | none =>
        have hshorter : text.length < length := by
          rw [← hlength, List.length_cons]
          omega
        exact lit c text hmatch (ih _ hshorter text rfl)
      | some group =>
        obtain ⟨hgroup, rest, hrest⟩ := exists_of_matchAt hmatch
        have hshorter : rest.length < length := by
          rw [← hlength, hrest, placeholder]
          simp only [List.length_append, openBraces, List.length_cons]
          omega
        rw [hrest]
        exact hole group rest hgroup (ih _ hshorter rest rfl)

/-- The pieces of a text make up the text. -/
theorem cut_flatMap_text (text : List Char) : (cut text).flatMap Piece.text = text := by
  induction text using cut_induction with
  | nil => rfl
  | lit c text hmatch ih =>
    rw [cut_cons_of_matchAt_eq_none hmatch, List.flatMap_cons, ih]
    rfl
  | hole group text hgroup ih =>
    rw [cut_placeholder_append hgroup, List.flatMap_cons, ih]
    rfl

/-- Every captured group is a group of the regular expression. -/
theorem isGroup_of_mem_captures {text group : List Char} (h : group ∈ captures text) :
    IsGroup group := by
  induction text using cut_induction with
  | nil => exact absurd h (by simp [captures, cut, cutFrom])
  | lit c text hmatch ih =>
    rw [captures, cut_cons_of_matchAt_eq_none hmatch] at h
    exact ih (by simpa [captures, Piece.group?] using h)
  | hole other text hother ih =>
    rw [captures, cut_placeholder_append hother] at h
    rcases (by simpa [captures, Piece.group?] using h :
      group = other ∨ group ∈ captures text) with rfl | h
    · exact hother
    · exact ih h

/-- A text is cut to a single match exactly when it is a placeholder. -/
theorem cut_eq_hole_iff {text group : List Char} :
    cut text = [.hole group] ↔ text = placeholder group ∧ IsGroup group := by
  constructor
  · intro h
    have hmem : group ∈ captures text := by
      simp [captures, h, Piece.group?]
    refine ⟨?_, isGroup_of_mem_captures hmem⟩
    rw [← cut_flatMap_text text, h]
    simp
  · rintro ⟨rfl, hgroup⟩
    have hcut := cut_placeholder_append hgroup []
    rwa [List.append_nil] at hcut

/-! ## Whole strings -/

/-- The inner text of a string that is one placeholder: trimmed, it starts with two opening
braces, ends with two closing ones, and has neither pair in between. -/
def wholeReference? (text : List Char) : Option (List Char) :=
  let trimmed := trim text
  if openBraces <+: trimmed ∧ closeBraces <:+ trimmed then
    let inner := (trimmed.drop 2).take (trimmed.length - 4)
    if ¬ openBraces <:+: inner ∧ ¬ closeBraces <:+: inner then some inner else none
  else none

/-- A text that starts with the opening braces and ends with the closing ones has both, without
overlap. -/
theorem eq_placeholder_of_prefix_suffix {text : List Char} (hopen : openBraces <+: text)
    (hclose : closeBraces <:+ text) :
    text = placeholder ((text.drop 2).take (text.length - 4)) := by
  obtain ⟨rest, rfl⟩ := hopen
  obtain ⟨front, hfront⟩ := hclose
  have hrest : ∃ inner, rest = inner ++ closeBraces := by
    rcases List.append_eq_append_iff.mp hfront with ⟨overlap, hopen, hclose⟩ | ⟨inner, -, hrest⟩
    · cases overlap with
      | nil => exact ⟨[], by simpa using hclose.symm⟩
      | cons c overlap =>
        -- a character of both pairs would be an opening and a closing brace
        have hmem : c ∈ openBraces := by
          rw [hopen]
          simp
        have hc : c = '}' := by
          simp only [closeBraces, List.cons_append, List.cons.injEq] at hclose
          exact hclose.1.symm
        rw [hc] at hmem
        exact absurd hmem (by decide)
    · exact ⟨inner, hrest⟩
  obtain ⟨inner, rfl⟩ := hrest
  simp [placeholder, openBraces, closeBraces]

/-- Trimming takes whitespace off both ends and nothing else. -/
theorem exists_trim (text : List Char) :
    ∃ lead trail, (∀ c ∈ lead, isWhitespace c = true) ∧ (∀ c ∈ trail, isWhitespace c = true) ∧
      text = lead ++ trim text ++ trail := by
  let rest := text.dropWhile isWhitespace
  refine ⟨text.takeWhile isWhitespace, rest.rtakeWhile isWhitespace,
    fun c hc ↦ List.mem_takeWhile_imp hc, fun c hc ↦ List.mem_rtakeWhile_imp hc, ?_⟩
  calc
    text = text.takeWhile isWhitespace ++ rest := List.takeWhile_append_dropWhile.symm
    _ = text.takeWhile isWhitespace ++
        (rest.rdropWhile isWhitespace ++ rest.rtakeWhile isWhitespace) := by
      rw [List.rdropWhile_append_rtakeWhile]
    _ = text.takeWhile isWhitespace ++ trim text ++ rest.rtakeWhile isWhitespace := by
      rw [List.append_assoc]
      rfl

abbrev Blank (text : List Char) : Prop := ∀ c ∈ text, isWhitespace c = true

theorem trim_blank_append {lead : List Char} (hlead : Blank lead) (text : List Char) :
    trim (lead ++ text) = trim text := by
  rw [trim, List.dropWhile_append_of_pos hlead, trim]

theorem trim_append_blank (text : List Char) {trail : List Char} (htrail : Blank trail) :
    trim (text ++ trail) = trim text := by
  have hright (front : List Char) :
      (front ++ trail).rdropWhile isWhitespace = front.rdropWhile isWhitespace := by
    rw [List.rdropWhile, List.reverse_append,
      List.dropWhile_append_of_pos fun c hc ↦ htrail c (List.mem_reverse.mp hc), List.rdropWhile]
  rw [trim, List.dropWhile_append, trim]
  by_cases hblank : (text.dropWhile isWhitespace).isEmpty
  · rw [if_pos hblank, List.isEmpty_iff.mp hblank, List.dropWhile_eq_nil_iff.mpr htrail]
  · rw [if_neg hblank, hright]

/-- A text that starts and ends with other characters is not trimmed. -/
theorem trim_cons_concat {first last : Char} (hfirst : isWhitespace first = false)
    (hlast : isWhitespace last = false) (middle : List Char) :
    trim (first :: (middle ++ [last])) = first :: (middle ++ [last]) := by
  rw [trim, List.dropWhile_cons_of_neg (by simp [hfirst]), ← List.cons_append,
    List.rdropWhile_concat_neg _ _ _ (by simp [hlast])]

/-- A whole reference is its inner text between the braces, up to whitespace around it. -/
theorem wholeReference?_eq_some_iff {text inner : List Char} :
    wholeReference? text = some inner ↔
      trim text = placeholder inner ∧ ¬ openBraces <:+: inner ∧ ¬ closeBraces <:+: inner := by
  simp only [wholeReference?, Option.ite_none_right_eq_some, Option.some.injEq]
  constructor
  · rintro ⟨hbraces, hinner, rfl⟩
    exact ⟨eq_placeholder_of_prefix_suffix hbraces.1 hbraces.2, hinner⟩
  · rintro ⟨htrim, hinner⟩
    have hmiddle : ((trim text).drop 2).take ((trim text).length - 4) = inner := by
      rw [htrim]
      simp [placeholder, openBraces, closeBraces]
    rw [hmiddle]
    refine ⟨⟨?_, ?_⟩, hinner, rfl⟩
    · rw [htrim, placeholder, List.append_assoc]
      exact List.prefix_append _ _
    · rw [htrim, placeholder]
      exact List.suffix_append _ _

/-- If the regular expression accepts the inner text of a whole reference, it captures it. -/
theorem mem_captures_of_wholeReference {text inner : List Char}
    (h : wholeReference? text = some inner) (hinner : IsGroup inner) :
    inner ∈ captures text := by
  obtain ⟨lead, trail, hlead, -, htext⟩ := exists_trim text
  rw [htext, (wholeReference?_eq_some_iff.mp h).1, List.append_assoc]
  clear htext h
  induction lead with
  | nil =>
    simp [captures, cut_placeholder_append hinner, Piece.group?]
  | cons c lead ih =>
    have hc : c ≠ '{' := by
      rintro rfl
      exact absurd (hlead _ (List.mem_cons_self)) (by decide)
    have hmatch : matchAt (c :: (lead ++ (placeholder inner ++ trail))) = none := by
      unfold matchAt
      split
      · rename_i heq
        exact absurd (List.cons.inj heq).1 hc
      · rfl
    rw [List.cons_append, captures, cut_cons_of_matchAt_eq_none hmatch]
    simpa [captures, Piece.group?] using
      ih fun other hother ↦ hlead other (List.mem_cons_of_mem _ hother)

end MongoCore.Operations.Placeholders
