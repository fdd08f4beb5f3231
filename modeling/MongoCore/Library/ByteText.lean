import Mathlib.Data.List.Infix
import Mathlib.Data.String.Basic

/-!
# Text that is addressed by bytes

A text is a list of characters, and its positions are numbers of bytes in UTF-8.  Taking a slice
fails if one of its ends is outside the text, is inside a character, or if the ends are in the
wrong order.

The results say when it does not fail: the ends are reached by reading whole characters.  A search
returns such a position, and so does a scan of the bytes for a character of one byte.
-/

namespace MongoCore.Library.ByteText

open String (utf8Len utf8Len_nil utf8Len_cons utf8Len_append)

/-! ## Slices -/

def bytes (text : List Char) : List UInt8 := text.flatMap String.utf8EncodeChar

/-- What follows the first `n` bytes, if they are whole characters. -/
def dropBytes (n : ℕ) : List Char → Option (List Char)
  | [] => if n = 0 then some [] else none
  | c :: text =>
      if n = 0 then some (c :: text)
      else if c.utf8Size ≤ n then dropBytes (n - c.utf8Size) text
      else none

/-- The first `n` bytes, if they are whole characters. -/
def takeBytes (n : ℕ) : List Char → Option (List Char)
  | [] => if n = 0 then some [] else none
  | c :: text =>
      if n = 0 then some []
      else if c.utf8Size ≤ n then (takeBytes (n - c.utf8Size) text).map (c :: ·)
      else none

/-- The slice between two positions. -/
def slice (text : List Char) (start stop : ℕ) : Option (List Char) :=
  if start ≤ stop then (dropBytes start text).bind (takeBytes (stop - start)) else none

def sliceTo (text : List Char) (stop : ℕ) : Option (List Char) := slice text 0 stop

def sliceFrom (text : List Char) (start : ℕ) : Option (List Char) := slice text start (utf8Len text)

@[simp] theorem bytes_cons (c : Char) (text : List Char) :
    bytes (c :: text) = String.utf8EncodeChar c ++ bytes text := rfl

/-- The first characters of a text can be dropped by their bytes. -/
theorem dropBytes_utf8Len_append (front back : List Char) :
    dropBytes (utf8Len front) (front ++ back) = some back := by
  induction front with
  | nil => cases back <;> rfl
  | cons c front ih =>
    have hpos := c.utf8Size_pos
    have hne : utf8Len front + c.utf8Size ≠ 0 := by omega
    rw [List.cons_append, utf8Len_cons, dropBytes, if_neg hne, if_pos (by omega),
      Nat.add_sub_cancel, ih]

theorem takeBytes_utf8Len_append (front back : List Char) :
    takeBytes (utf8Len front) (front ++ back) = some front := by
  induction front with
  | nil => cases back <;> rfl
  | cons c front ih =>
    have hpos := c.utf8Size_pos
    have hne : utf8Len front + c.utf8Size ≠ 0 := by omega
    rw [List.cons_append, utf8Len_cons, takeBytes, if_neg hne, if_pos (by omega),
      Nat.add_sub_cancel, ih]
    rfl

/-- The first bytes are whole characters exactly if the text has characters with that many bytes in
front. -/
theorem takeBytes_eq_some {n : ℕ} {text front : List Char} :
    takeBytes n text = some front ↔ utf8Len front = n ∧ front <+: text := by
  constructor
  · intro h
    induction text generalizing n front with
    | nil =>
      rw [takeBytes] at h
      obtain ⟨rfl, hfront⟩ := Option.ite_none_right_eq_some.mp h
      obtain rfl := Option.some.inj hfront
      exact ⟨utf8Len_nil, List.prefix_refl []⟩
    | cons c text ih =>
      rw [takeBytes] at h
      by_cases hzero : n = 0
      · rw [if_pos hzero] at h
        obtain rfl := Option.some.inj h
        exact ⟨hzero.symm, List.nil_prefix⟩
      · rw [if_neg hzero] at h
        obtain ⟨hsize, hmap⟩ := Option.ite_none_right_eq_some.mp h
        obtain ⟨rest, hrest, rfl⟩ := Option.map_eq_some_iff.mp hmap
        obtain ⟨hlength, hprefix⟩ := ih hrest
        refine ⟨?_, List.cons_prefix_cons.mpr ⟨rfl, hprefix⟩⟩
        rw [utf8Len_cons, hlength]
        omega
  · rintro ⟨rfl, back, rfl⟩
    exact takeBytes_utf8Len_append front back

/-- The slice of what stands between two texts. -/
theorem slice_append (front middle back : List Char) :
    slice (front ++ middle ++ back) (utf8Len front) (utf8Len front + utf8Len middle) = some middle := by
  rw [slice, if_pos (Nat.le_add_right _ _), List.append_assoc, dropBytes_utf8Len_append,
    Option.bind_some, Nat.add_sub_cancel_left, takeBytes_utf8Len_append]

theorem sliceTo_append (front back : List Char) :
    sliceTo (front ++ back) (utf8Len front) = some front := by
  have h := slice_append [] front back
  rwa [utf8Len_nil, Nat.zero_add] at h

theorem sliceTo_eq_some {n : ℕ} {text front : List Char} :
    sliceTo text n = some front ↔ utf8Len front = n ∧ front <+: text := by
  have hdrop : dropBytes 0 text = some text := dropBytes_utf8Len_append [] text
  rw [sliceTo, slice, if_pos (Nat.zero_le n), hdrop, Option.bind_some, Nat.sub_zero,
    takeBytes_eq_some]

theorem sliceFrom_append (front back : List Char) :
    sliceFrom (front ++ back) (utf8Len front) = some back := by
  have h := slice_append front back []
  rwa [List.append_nil, ← utf8Len_append] at h

/-- What stands between two characters of one byte. -/
theorem slice_enclosed {first last : Char} (hfirst : first.utf8Size = 1)
    (hlast : last.utf8Size = 1) (middle : List Char) :
    slice (first :: (middle ++ [last])) 1 (utf8Len (first :: (middle ++ [last])) - 1) =
      some middle := by
  have hone : utf8Len [first] = 1 := by
    rw [utf8Len_cons, utf8Len_nil, hfirst]
  have hstop : utf8Len (first :: (middle ++ [last])) - 1 = utf8Len [first] + utf8Len middle := by
    rw [utf8Len_cons, utf8Len_append, utf8Len_cons, utf8Len_nil, hone, hfirst, hlast]
    omega
  have h := slice_append [first] middle [last]
  rwa [← hstop, hone] at h

/-- A text that starts and ends with one character is that character or has something between two of
it. -/
theorem eq_singleton_or_enclosed {c : Char} {text : List Char} (hstart : [c] <+: text)
    (hend : [c] <:+ text) : text = [c] ∨ ∃ middle, text = c :: (middle ++ [c]) := by
  obtain ⟨rest, rfl⟩ := hstart
  obtain ⟨front, hfront⟩ := hend
  cases front with
  | nil =>
    left
    rw [← hfront, List.nil_append]
  | cons d middle =>
    right
    obtain ⟨rfl, hrest⟩ := List.cons.inj hfront
    exact ⟨middle, congrArg (List.cons d) hrest.symm⟩

/-! ## Searching -/

/-- The position of the first occurrence of a pattern. -/
def find (pattern : List Char) : List Char → Option ℕ
  | [] => if pattern = [] then some 0 else none
  | c :: text =>
      if pattern.isPrefixOf (c :: text) then some 0
      else (find pattern text).map (· + c.utf8Size)

/-- A pattern is found exactly if it occurs. -/
theorem find_eq_none {pattern text : List Char} : find pattern text = none ↔ ¬ pattern <:+: text := by
  induction text with
  | nil => simp [find]
  | cons c text ih =>
    rw [find, List.infix_cons_iff]
    by_cases hstart : pattern <+: c :: text
    · simp [hstart]
    · simp [hstart, ih]

/-- The position found has the pattern behind it, and no occurrence starts earlier. -/
theorem find_eq_some {pattern text : List Char} {position : ℕ}
    (h : find pattern text = some position) :
    ∃ front back, text = front ++ pattern ++ back ∧ position = utf8Len front ∧
      ∀ front' back', text = front' ++ pattern ++ back' → front.length ≤ front'.length := by
  induction text generalizing position with
  | nil =>
    rw [find] at h
    obtain ⟨rfl, hposition⟩ := Option.ite_none_right_eq_some.mp h
    exact ⟨[], [], rfl, (Option.some.inj hposition).symm, fun _ _ _ ↦ Nat.zero_le _⟩
  | cons c text ih =>
    rw [find] at h
    by_cases hstart : pattern <+: c :: text
    · rw [if_pos (List.isPrefixOf_iff_prefix.mpr hstart)] at h
      obtain ⟨back, hback⟩ := hstart
      exact ⟨[], back, hback.symm, (Option.some.inj h).symm, fun _ _ _ ↦ Nat.zero_le _⟩
    · rw [if_neg (mt List.isPrefixOf_iff_prefix.mp hstart)] at h
      obtain ⟨rest, hrest, hposition⟩ := Option.map_eq_some_iff.mp h
      obtain ⟨front, back, htext, hsize, hfirst⟩ := ih hrest
      refine ⟨c :: front, back, by rw [htext]; rfl, by rw [← hposition, hsize, utf8Len_cons], ?_⟩
      intro front' back' htext'
      cases front' with
      | nil => exact absurd ⟨back', htext'.symm⟩ hstart
      | cons c' front' =>
        have hlength := hfirst front' back' (List.cons.inj htext').2
        exact Nat.succ_le_succ hlength

/-- An occurrence before which there is no other is the one found. -/
theorem find_append {pattern front back : List Char}
    (hfirst : ∀ front' back', front ++ pattern ++ back = front' ++ pattern ++ back' →
      front.length ≤ front'.length) :
    find pattern (front ++ pattern ++ back) = some (utf8Len front) := by
  cases hfind : find pattern (front ++ pattern ++ back) with
  | none => exact absurd ⟨front, back, rfl⟩ (find_eq_none.mp hfind)
  | some position =>
    obtain ⟨other, rest, htext, hposition, hother⟩ := find_eq_some hfind
    have hlength : other.length = front.length :=
      Nat.le_antisymm (hother front back rfl) (hfirst other rest htext)
    rw [List.append_assoc, List.append_assoc] at htext
    have hsame := (List.append_inj htext hlength.symm).1
    rw [hposition, hsame]

/-- A pattern without the separator that is at the front of a text is before the separator. -/
theorem isPrefix_of_isPrefix_append_cons {pattern front back : List Char} {separator : Char}
    (hseparator : separator ∉ pattern) (h : pattern <+: front ++ separator :: back) :
    pattern <+: front := by
  rcases List.prefix_or_prefix_of_prefix h (List.prefix_append front (separator :: back)) with
    hshort | ⟨rest, rfl⟩
  · exact hshort
  · have hrest : rest <+: separator :: back := (List.prefix_append_right_inj front).mp h
    cases rest with
    | nil => rw [List.append_nil]
    | cons c rest =>
      obtain ⟨rfl, -⟩ := List.cons_prefix_cons.mp hrest
      exact absurd (List.mem_append_right front List.mem_cons_self) hseparator

/-- A pattern that is not before a separator is searched for behind it. -/
theorem find_append_cons {pattern front back : List Char} {separator : Char}
    (hseparator : separator ∉ pattern) (hfront : ¬ pattern <:+: front) :
    find pattern (front ++ separator :: back) =
      (find pattern back).map (· + utf8Len (front ++ [separator])) := by
  induction front with
  | nil =>
    have hstart : ¬ pattern <+: separator :: back := fun h ↦
      have hempty : pattern <+: [] := isPrefix_of_isPrefix_append_cons hseparator h
      hfront hempty.isInfix
    rw [List.nil_append, find, if_neg (mt List.isPrefixOf_iff_prefix.mp hstart), List.nil_append,
      utf8Len_cons, utf8Len_nil, Nat.zero_add]
  | cons c front ih =>
    have hstart : ¬ pattern <+: c :: (front ++ separator :: back) := fun h ↦
      have hshort : pattern <+: c :: front := isPrefix_of_isPrefix_append_cons hseparator h
      hfront hshort.isInfix
    have hrest : ¬ pattern <:+: front := fun h ↦ hfront (List.infix_cons h)
    rw [List.cons_append, find, if_neg (mt List.isPrefixOf_iff_prefix.mp hstart), ih hrest,
      Option.map_map]
    refine Option.map_congr fun position _ ↦ ?_
    simp only [Function.comp_apply, List.cons_append, utf8Len_cons]
    omega

/-- A pattern that is not before a separator occurs exactly if it occurs behind it. -/
theorem infix_append_cons {pattern front back : List Char} {separator : Char}
    (hseparator : separator ∉ pattern) (hfront : ¬ pattern <:+: front) :
    pattern <:+: front ++ separator :: back ↔ pattern <:+: back := by
  rw [← not_iff_not, ← find_eq_none, ← find_eq_none, find_append_cons hseparator hfront,
    Option.map_eq_none_iff]

theorem find_append_self (pattern back : List Char) :
    find pattern (pattern ++ back) = some 0 := by
  have h : find pattern ([] ++ pattern ++ back) = some (utf8Len []) :=
    find_append fun _ _ _ ↦ Nat.zero_le _
  exact h

/-! ## Bytes of characters -/

/-- A character of one byte is its own byte. -/
theorem utf8EncodeChar_of_lt {c : Char} (h : c.toNat < 128) :
    String.utf8EncodeChar c = [c.toNat.toUInt8] := by
  have hval : c.val.toNat ≤ 127 := Nat.le_of_lt_succ h
  rw [String.utf8EncodeChar, if_pos hval]
  rfl

/-- The bytes of other characters are no characters of one byte. -/
theorem le_of_mem_utf8EncodeChar {c : Char} (h : ¬ c.toNat < 128) {b : UInt8}
    (hb : b ∈ String.utf8EncodeChar c) : 128 ≤ b.toNat := by
  have hval : ¬ c.val.toNat ≤ 127 := fun hle ↦ h (Nat.lt_succ_of_le hle)
  have htoNat (n : ℕ) : (UInt8.ofNat n).toNat = n % 256 := rfl
  rw [String.utf8EncodeChar, if_neg hval] at hb
  split at hb
  · rcases List.mem_pair.mp hb with rfl | rfl <;> rw [htoNat] <;> omega
  · split at hb
    · simp only [List.mem_cons, List.not_mem_nil, or_false] at hb
      rcases hb with rfl | rfl | rfl <;> rw [htoNat] <;> omega
    · simp only [List.mem_cons, List.not_mem_nil, or_false] at hb
      rcases hb with rfl | rfl | rfl | rfl <;> rw [htoNat] <;> omega

end MongoCore.Library.ByteText
