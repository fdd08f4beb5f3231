import Mathlib.Algebra.GroupWithZero.Nat
import Mathlib.Data.List.Basic
import Mathlib.Data.List.TakeDrop

/-!
# Text between tags

A reader of marked-up text takes a less-than sign as the start of a tag or a comment if a letter, a
slash, an exclamation mark or a question mark follows, and as text otherwise.  How far a tag reaches
is a parameter, of which only is known that it reads plain tags.

A page is spelled by plain tags and the texts before them.  Its tags are read back exactly if no
text contains the start of one.
-/

namespace MongoCore.Library.Markup

/-! ## Reading tags -/

/-- A character that makes the less-than sign before it the start of a tag or a comment. -/
def startsTag (c : Char) : Bool := c.isAlpha || c = '/' || c = '!' || c = '?'

/-- The less-than sign before a text starts a tag or a comment. -/
def opensBefore (text : List Char) : Bool := text.head?.any startsTag

/-- How many tags and comments start in a text. -/
def openings : List Char → ℕ
  | [] => 0
  | c :: text => (if c = '<' ∧ opensBefore text = true then 1 else 0) + openings text

def TagFree (text : List Char) : Prop := ∀ c, startsTag c = true → ¬ ['<', c] <:+: text

/-- A tag without attributes. -/
structure PlainTag where
  closing : Bool
  name : List Char
  letters : name ≠ [] ∧ name.all Char.isAlpha = true

/-- What follows the less-than sign of a tag. -/
def PlainTag.inner (tag : PlainTag) : List Char :=
  (if tag.closing then ['/'] else []) ++ tag.name ++ ['>']

def PlainTag.source (tag : PlainTag) : List Char := '<' :: tag.inner

/-- A reader of tags: the number of characters that a tag or a comment at the front of a text has.
Tags without attributes are read to their end. -/
structure Reader where
  size : List Char → ℕ
  size_source : ∀ (tag : PlainTag) rest, size (tag.source ++ rest) = tag.source.length

/-- A reader for which a tag reaches to the next greater-than sign. -/
def Reader.toBracket : Reader where
  size text := (text.takeWhile (· ≠ '>')).length + 1
  size_source tag rest := by
    have hname : ∀ c ∈ tag.name, c ≠ '>' := fun c hc heq ↦
      absurd (List.all_eq_true.mp tag.letters.2 c hc) (by rw [heq]; decide)
    have hfront : ∀ c ∈ '<' :: ((if tag.closing then ['/'] else []) ++ tag.name), c ≠ '>' := by
      intro c hc
      rw [List.mem_cons, List.mem_append] at hc
      rcases hc with rfl | hc | hc
      · decide
      · split at hc
        · rw [List.mem_singleton.mp hc]
          decide
        · exact absurd hc List.not_mem_nil
      · exact hname c hc
    have hsource : tag.source ++ rest =
        ('<' :: ((if tag.closing then ['/'] else []) ++ tag.name)) ++ '>' :: rest := by
      simp [PlainTag.source, PlainTag.inner]
    rw [hsource, List.takeWhile_append_of_pos (by simpa using hfront),
      List.takeWhile_cons_of_neg (by simp), List.append_nil]
    simp [PlainTag.source, PlainTag.inner, Nat.add_assoc]

/-- The tags and comments of a text, the first characters of which have been read. -/
def tagsFrom (reader : Reader) : ℕ → List Char → List (List Char)
  | _, [] => []
  | read + 1, _ :: text => tagsFrom reader read text
  | 0, c :: text =>
      if c = '<' ∧ opensBefore text = true then
        (c :: text).take (reader.size (c :: text)) ::
          tagsFrom reader (reader.size (c :: text) - 1) text
      else tagsFrom reader 0 text

def tags (reader : Reader) (text : List Char) : List (List Char) := tagsFrom reader 0 text

/-! ## Openings -/

theorem openings_eq_zero_iff {text : List Char} : openings text = 0 ↔ TagFree text := by
  induction text with
  | nil => simp [openings, TagFree]
  | cons c text ih =>
    have hfront : (c = '<' ∧ opensBefore text = true) ↔
        ∃ d, startsTag d = true ∧ ['<', d] <+: c :: text := by
      cases text with
      | nil => simp [opensBefore]
      | cons next text =>
        simp only [opensBefore, List.head?_cons, Option.any_some, List.cons_prefix_cons,
          List.nil_prefix, and_true]
        constructor
        · rintro ⟨rfl, hnext⟩
          exact ⟨next, hnext, rfl, rfl⟩
        · rintro ⟨d, hd, rfl, rfl⟩
          exact ⟨rfl, hd⟩
    rw [openings, Nat.add_eq_zero_iff, ih, ite_eq_right_iff, TagFree]
    simp only [Nat.one_ne_zero, imp_false, hfront, TagFree, List.infix_cons_iff, not_or, not_exists,
      not_and]
    exact forall_and.symm.trans (forall_congr' fun d ↦ by tauto)

theorem openings_append_lt (text rest : List Char) :
    openings (text ++ '<' :: rest) = openings text + openings ('<' :: rest) := by
  induction text with
  | nil => rw [List.nil_append, openings, Nat.zero_add]
  | cons c text ih =>
    have hopens : opensBefore (text ++ '<' :: rest) = opensBefore text := by
      cases text <;> rfl
    rw [List.cons_append, openings, ih, hopens, ← Nat.add_assoc]
    rfl

/-- Nothing starts in a text without less-than signs. -/
theorem openings_append_of_notMem {text : List Char} (htext : '<' ∉ text) (rest : List Char) :
    openings (text ++ rest) = openings rest := by
  induction text with
  | nil => rfl
  | cons c text ih =>
    rw [List.mem_cons, not_or] at htext
    rw [List.cons_append, openings, ih htext.2, if_neg fun h ↦ htext.1 h.1.symm, Nat.zero_add]

theorem tagFree_of_notMem {text : List Char} (htext : '<' ∉ text) : TagFree text :=
  fun _ _ hmark ↦ htext (hmark.subset List.mem_cons_self)

theorem notMem_inner (tag : PlainTag) : '<' ∉ tag.inner := by
  have hname : '<' ∉ tag.name := fun hmem ↦
    absurd (List.all_eq_true.mp tag.letters.2 _ hmem) (by decide)
  rw [PlainTag.inner]
  split <;> simp [hname]

theorem opensBefore_inner (tag : PlainTag) (rest : List Char) :
    opensBefore (tag.inner ++ rest) = true := by
  obtain ⟨hne, hletters⟩ := tag.letters
  rw [PlainTag.inner]
  split
  · rfl
  · cases hname : tag.name with
    | nil => exact absurd hname hne
    | cons c name =>
      rw [hname, List.all_cons, Bool.and_eq_true] at hletters
      simp [opensBefore, startsTag, hletters.1]

/-- One thing starts in a tag. -/
theorem openings_source_append (tag : PlainTag) (rest : List Char) :
    openings (tag.source ++ rest) = openings rest + 1 := by
  rw [PlainTag.source, List.cons_append, openings,
    if_pos ⟨rfl, opensBefore_inner tag rest⟩, openings_append_of_notMem (notMem_inner tag),
    Nat.add_comm]

/-! ## Pages -/

def spelled (page : List (List Char × PlainTag)) : List Char :=
  page.flatMap fun part ↦ part.1 ++ part.2.source

theorem spelled_nil : spelled [] = [] := rfl

theorem spelled_cons (text : List Char) (tag : PlainTag) (page : List (List Char × PlainTag)) :
    spelled ((text, tag) :: page) = text ++ (tag.source ++ spelled page) := by
  rw [spelled, List.flatMap_cons, List.append_assoc]
  rfl

theorem openings_spelled (page : List (List Char × PlainTag)) :
    openings (spelled page) = (page.map fun part ↦ openings part.1).sum + page.length := by
  induction page with
  | nil => rfl
  | cons part page ih =>
    obtain ⟨text, tag⟩ := part
    have hsource : tag.source ++ spelled page = '<' :: (tag.inner ++ spelled page) := rfl
    rw [spelled_cons, hsource, openings_append_lt, ← hsource, openings_source_append, ih,
      List.map_cons, List.sum_cons, List.length_cons, Nat.add_assoc, Nat.add_assoc]

variable {reader : Reader}

/-- If the tags that are read have no second less-than sign, they are all that starts in the text. -/
theorem length_tagsFrom {read : ℕ} {text : List Char} (hread : '<' ∉ text.take read)
    (htags : ∀ source ∈ tagsFrom reader read text, '<' ∉ source.tail) :
    (tagsFrom reader read text).length = openings text := by
  induction text generalizing read with
  | nil => rw [tagsFrom, openings, List.length_nil]
  | cons c text ih =>
    rw [openings]
    cases read with
    | succ read =>
      rw [List.take_succ_cons, List.mem_cons, not_or] at hread
      rw [if_neg fun h ↦ hread.1 h.1.symm, Nat.zero_add]
      exact ih hread.2 htags
    | zero =>
      rw [tagsFrom] at htags ⊢
      by_cases hopens : c = '<' ∧ opensBefore text = true
      · rw [if_pos hopens] at htags ⊢
        rw [List.forall_mem_cons, List.tail_take_eq_take_tail, List.tail_cons] at htags
        rw [if_pos hopens, List.length_cons, ih htags.1 htags.2, Nat.add_comm]
      · rw [if_neg hopens] at htags ⊢
        rw [if_neg hopens, Nat.zero_add]
        exact ih List.not_mem_nil htags

/-- Characters that have been read are passed over. -/
theorem tagsFrom_length_append (front rest : List Char) :
    tagsFrom reader front.length (front ++ rest) = tags reader rest := by
  induction front with
  | nil => rfl
  | cons c front ih => rw [List.length_cons, List.cons_append, tagsFrom, ih]

/-- A text in which nothing starts is passed over up to a less-than sign. -/
theorem tags_append_lt {text : List Char} (htext : openings text = 0) (rest : List Char) :
    tags reader (text ++ '<' :: rest) = tags reader ('<' :: rest) := by
  induction text with
  | nil => rfl
  | cons c text ih =>
    rw [openings, Nat.add_eq_zero_iff] at htext
    have hopens : opensBefore (text ++ '<' :: rest) = opensBefore text := by
      cases text <;> rfl
    have hnot : ¬ (c = '<' ∧ opensBefore (text ++ '<' :: rest) = true) := fun h ↦ by
      rw [hopens] at h
      rw [if_pos h] at htext
      cases htext.1
    rw [List.cons_append, tags, tagsFrom, if_neg hnot]
    exact ih htext.2

theorem tags_source_append (tag : PlainTag) (rest : List Char) :
    tags reader (tag.source ++ rest) = tag.source :: tags reader rest := by
  have hsource : tag.source ++ rest = '<' :: (tag.inner ++ rest) := rfl
  have hlength : tag.source.length - 1 = tag.inner.length := rfl
  rw [tags, hsource, tagsFrom, if_pos ⟨rfl, opensBefore_inner tag rest⟩, ← hsource,
    reader.size_source, List.take_left, hlength, tagsFrom_length_append]

/-- The tags of a page are read back exactly if nothing starts in its texts. -/
theorem tags_spelled_iff {page : List (List Char × PlainTag)} :
    tags reader (spelled page) = page.map (fun part ↦ part.2.source) ↔
      ∀ part ∈ page, TagFree part.1 := by
  constructor
  · intro h
    have htail : ∀ source ∈ tags reader (spelled page), '<' ∉ source.tail := by
      rw [h]
      intro source hsource
      obtain ⟨part, -, rfl⟩ := List.mem_map.mp hsource
      exact notMem_inner part.2
    have hcount : (tags reader (spelled page)).length = openings (spelled page) :=
      length_tagsFrom List.not_mem_nil htail
    rw [h, List.length_map, openings_spelled] at hcount
    have hsum : (page.map fun part ↦ openings part.1).sum = 0 := by omega
    rw [List.sum_eq_zero_iff_forall_eq_nat, List.forall_mem_map] at hsum
    exact fun part hpart ↦ openings_eq_zero_iff.mp (hsum part hpart)
  · intro h
    induction page with
    | nil => rfl
    | cons part page ih =>
      obtain ⟨text, tag⟩ := part
      rw [List.forall_mem_cons] at h
      have hsource : tag.source ++ spelled page = '<' :: (tag.inner ++ spelled page) := rfl
      rw [spelled_cons, hsource, tags_append_lt (openings_eq_zero_iff.mpr h.1), ← hsource,
        tags_source_append, ih h.2]
      rfl

/-- Two pages that differ in their texts only, one of which has none that something starts in, have
the same tags exactly if the other has none either. -/
theorem tags_spelled_eq_iff {page plain : List (List Char × PlainTag)}
    (hsame : page.map Prod.snd = plain.map Prod.snd) (hplain : ∀ part ∈ plain, TagFree part.1) :
    tags reader (spelled page) = tags reader (spelled plain) ↔
      ∀ part ∈ page, TagFree part.1 := by
  have hsources : plain.map (fun part ↦ part.2.source) = page.map fun part ↦ part.2.source := by
    have h := congrArg (List.map PlainTag.source) hsame
    rw [List.map_map, List.map_map] at h
    exact h.symm
  rw [tags_spelled_iff.mpr hplain, hsources, tags_spelled_iff]

end MongoCore.Library.Markup
