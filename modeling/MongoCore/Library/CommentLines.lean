import Mathlib.Data.List.Basic
import MongoCore.Library.Escapes

/-!
# Lines and comments

A language finds the lines of its source by the characters that end them, after it has replaced the
escapes that it knows everywhere.  A comment goes from its mark to the end of the line.  A text that
is written behind a mark is part of the comment up to the first end of a line in it; each of its
further lines is part of the program, unless it is blank or starts with a mark of its own.
-/

namespace MongoCore.Library.CommentLines

open MongoCore.Library.Escapes

/-- A character that may stand before a comment in its line. -/
def isBlank (c : Char) : Bool := c = ' ' || c = '\t'

/-! ## Languages -/

/-- How a language finds lines and comments: what it makes of the text first, the characters that
end a line, and the mark of a comment. -/
structure LineSyntax where
  translate : List Char → List Char
  ends : List Char
  mark : List Char
  translate_nil : translate [] = []
  translate_cons : ∀ {c : Char} (rest : List Char), Plain c →
    translate (c :: rest) = c :: translate rest
  translate_newline : ∀ front back : List Char,
    translate (front ++ '\n' :: back) = translate front ++ '\n' :: translate back
  newline_mem : '\n' ∈ ends
  ends_not_blank : ∀ c ∈ ends, isBlank c = false
  mark_inside : ∀ c ∈ mark, Plain c ∧ c ∉ ends ∧ isBlank c = false

namespace LineSyntax

/-- A language that replaces nothing. -/
def untranslated (ends mark : List Char) (newline_mem : '\n' ∈ ends)
    (ends_not_blank : ∀ c ∈ ends, isBlank c = false)
    (mark_inside : ∀ c ∈ mark, Plain c ∧ c ∉ ends ∧ isBlank c = false) : LineSyntax where
  translate := id
  ends := ends
  mark := mark
  translate_nil := rfl
  translate_cons _ _ := rfl
  translate_newline _ _ := rfl
  newline_mem := newline_mem
  ends_not_blank := ends_not_blank
  mark_inside := mark_inside

/-- A language that replaces the escapes of characters. -/
def withEscapes (ends mark : List Char) (newline_mem : '\n' ∈ ends)
    (ends_not_blank : ∀ c ∈ ends, isBlank c = false)
    (mark_inside : ∀ c ∈ mark, Plain c ∧ c ∉ ends ∧ isBlank c = false) : LineSyntax where
  translate := translateEscapes 0
  ends := ends
  mark := mark
  translate_nil := rfl
  translate_cons := translateEscapes_cons
  translate_newline _ := translateEscapes_newline (Nat.zero_le _)
  newline_mem := newline_mem
  ends_not_blank := ends_not_blank
  mark_inside := mark_inside

variable (language : LineSyntax)

def isEnd (c : Char) : Bool := language.ends.contains c

theorem isEnd_eq_false {c : Char} : language.isEnd c = false ↔ c ∉ language.ends := by
  rw [isEnd, ← Bool.not_eq_true, List.contains_iff_mem]

theorem isEnd_newline : language.isEnd '\n' = true :=
  List.contains_iff_mem.mpr language.newline_mem

/-! ## Lines -/

/-- What stands between the ends of lines. -/
def pieces (text : List Char) : List (List Char) :=
  (language.translate text).splitOnP language.isEnd

/-- The lines of a text.  Behind the last end of a line there is a line only if it is not empty. -/
def lines (text : List Char) : List (List Char) :=
  if (language.pieces text).getLast? = some [] then (language.pieces text).dropLast
  else language.pieces text

theorem pieces_newline (front back : List Char) :
    language.pieces (front ++ '\n' :: back) = language.pieces front ++ language.pieces back := by
  unfold pieces
  rw [language.translate_newline, List.splitOnP_append_cons _ _ language.isEnd_newline]

theorem pieces_ne_nil (text : List Char) : language.pieces text ≠ [] := List.splitOnP_ne_nil _ _

theorem pieces_nil : language.pieces [] = [[]] := by
  rw [pieces, language.translate_nil, List.splitOnP_nil]

theorem lines_newline (front back : List Char) :
    language.lines (front ++ '\n' :: back) = language.pieces front ++ language.lines back := by
  have hne := language.pieces_ne_nil back
  unfold lines
  rw [pieces_newline, List.getLast?_append_of_ne_nil _ hne, List.dropLast_append_of_ne_nil hne]
  split_ifs <;> rfl

theorem lines_nil : language.lines [] = [] := by
  rw [lines, pieces_nil]
  rfl

def Ended (text : List Char) : Prop := ∃ front, text = front ++ ['\n']

theorem ended_append {back : List Char} (hback : Ended back) (front : List Char) :
    Ended (front ++ back) := by
  obtain ⟨rest, rfl⟩ := hback
  exact ⟨front ++ rest, (List.append_assoc _ _ _).symm⟩

theorem lines_ended (front : List Char) :
    language.lines (front ++ ['\n']) = language.pieces front := by
  rw [lines_newline, lines_nil, List.append_nil]

/-- Texts that end with their lines have their own lines when they stand together. -/
theorem lines_append {front : List Char} (hfront : Ended front) (back : List Char) :
    language.lines (front ++ back) = language.lines front ++ language.lines back := by
  obtain ⟨text, rfl⟩ := hfront
  rw [lines_ended, List.append_assoc, List.singleton_append, lines_newline]

theorem lines_flatten {texts : List (List Char)} (htexts : ∀ text ∈ texts, Ended text) :
    language.lines texts.flatten = texts.flatMap language.lines := by
  induction texts with
  | nil => exact language.lines_nil
  | cons text texts ih =>
    rw [List.forall_mem_cons] at htexts
    rw [List.flatten_cons, language.lines_append htexts.1, ih htexts.2, List.flatMap_cons]

/-! ## Comments -/

/-- A line without a part that is not a comment. -/
def Commented (line : List Char) : Prop :=
  line.all isBlank = true ∨ language.mark <+: line.dropWhile isBlank

instance decidableCommented (line : List Char) : Decidable (language.Commented line) :=
  inferInstanceAs (Decidable (_ ∨ _))

def AllCommented (text : List Char) : Prop := ∀ line ∈ language.lines text, language.Commented line

/-- A text that stays in a comment: where a line of it ends, the next one is a comment, too. -/
def Contained (text : List Char) : Prop :=
  ∀ line ∈ (language.pieces text).tail, language.Commented line

instance decidableContained (text : List Char) : Decidable (language.Contained text) :=
  inferInstanceAs (Decidable (∀ line ∈ _, _))

theorem allCommented_append {front : List Char} (hfront : Ended front) (back : List Char) :
    language.AllCommented (front ++ back) ↔
      language.AllCommented front ∧ language.AllCommented back := by
  unfold AllCommented
  rw [language.lines_append hfront, List.forall_mem_append]

theorem allCommented_flatten {texts : List (List Char)} (htexts : ∀ text ∈ texts, Ended text) :
    language.AllCommented texts.flatten ↔ ∀ text ∈ texts, language.AllCommented text := by
  unfold AllCommented
  rw [language.lines_flatten htexts, List.forall_mem_flatMap]

/-- A text in front that a replacement cannot start in, and in which no line ends. -/
theorem pieces_append {front : List Char}
    (hfront : ∀ c ∈ front, Plain c ∧ c ∉ language.ends) (text : List Char) :
    language.pieces (front ++ text) = (language.pieces text).modifyHead (front ++ ·) := by
  induction front with
  | nil =>
    change _ = (language.pieces text).modifyHead id
    rw [List.modifyHead_id]
    rfl
  | cons c front ih =>
    rw [List.forall_mem_cons] at hfront
    have hpieces := ih hfront.2
    unfold pieces at hpieces ⊢
    rw [List.cons_append, language.translate_cons _ hfront.1.1, List.splitOnP_cons_eq_if_modifyHead,
      language.isEnd_eq_false.mpr hfront.1.2, if_neg Bool.false_ne_true, hpieces,
        List.modifyHead_modifyHead]
    rfl

theorem contained_append {front : List Char}
    (hfront : ∀ c ∈ front, Plain c ∧ c ∉ language.ends) (text : List Char) :
    language.Contained (front ++ text) ↔ language.Contained text := by
  unfold Contained
  rw [language.pieces_append hfront, List.tail_modifyHead]

/-- A mark behind blanks makes its line a comment. -/
theorem commented_of_mark {indent : List Char} (hindent : ∀ c ∈ indent, isBlank c = true)
    (rest : List Char) : language.Commented (indent ++ (language.mark ++ rest)) := by
  right
  rw [List.dropWhile_append_of_pos hindent]
  cases hmark : language.mark with
  | nil => exact List.nil_prefix
  | cons c mark =>
    have hc := (language.mark_inside c (hmark ▸ List.mem_cons_self)).2.2
    rw [List.cons_append, List.dropWhile_cons_of_neg (Bool.not_eq_true _ ▸ hc)]
    exact ⟨rest, rfl⟩

/-- A comment is one in all its lines exactly if its text stays in it. -/
theorem allCommented_comment {indent : List Char} (hindent : ∀ c ∈ indent, isBlank c = true)
    (text : List Char) :
    language.AllCommented (indent ++ (language.mark ++ text) ++ ['\n']) ↔
      language.Contained text := by
  have hfront : ∀ c ∈ indent ++ language.mark, Plain c ∧ c ∉ language.ends := by
    intro c hc
    rcases List.mem_append.mp hc with hc | hc
    · have hblank := hindent c hc
      refine ⟨?_, fun hend ↦ ?_⟩
      · rintro rfl
        exact absurd hblank (by decide)
      · rw [language.ends_not_blank c hend] at hblank
        cases hblank
    · exact ⟨(language.mark_inside c hc).1, (language.mark_inside c hc).2.1⟩
  unfold AllCommented Contained
  rw [lines_ended, ← List.append_assoc, language.pieces_append hfront]
  cases hpieces : language.pieces text with
  | nil => exact absurd hpieces (language.pieces_ne_nil text)
  | cons first rest =>
    rw [List.modifyHead_cons, List.forall_mem_cons, List.append_assoc]
    exact and_iff_right (language.commented_of_mark hindent first)

/-- A text in which no line ends stays in a comment. -/
theorem contained_of_no_end {text : List Char}
    (htext : ∀ c ∈ language.translate text, c ∉ language.ends) :
    language.Contained text := by
  unfold Contained pieces
  rw [List.splitOnP_eq_singleton fun c hc ↦ language.isEnd_eq_false.mpr (htext c hc)]
  exact fun _ hline ↦ absurd hline List.not_mem_nil

end LineSyntax

end MongoCore.Library.CommentLines
