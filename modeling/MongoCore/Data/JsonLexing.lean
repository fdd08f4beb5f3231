import MongoCore.Data.JsonText
import MongoCore.Library.Tokens

/-!
# Finding the pieces of a JSON text

The pieces of a printed value can be told apart where they are written: a word is followed by a mark
or by layout.  So a lexer finds them, if it reads the characters of quoted texts as they are
written.
-/

namespace MongoCore.Data

open MongoCore.Library.Escapes MongoCore.Library.Tokens

section Lexing

variable {floats : FloatText}

/-! ## Digits -/

theorem isAlpha_of_isDigit {c : Char} (hc : c.isDigit = true) : c.isAlpha = false := by
  have hcode := code_of_isDigit hc
  have hupper : c.isUpper = false := by
    refine decide_eq_false fun h ↦ ?_
    have hfirst : 65 ≤ c.toNat := UInt32.le_iff_toNat_le.mp h.1
    omega
  have hlower : c.isLower = false := by
    refine Bool.eq_false_iff.mpr fun h ↦ ?_
    have hletter := of_decide_eq_true (Bool.and_eq_true_iff.mp h).1
    have hfirst : 97 ≤ c.toNat := UInt32.le_iff_toNat_le.mp hletter
    omega
  exact Bool.or_eq_false_iff.mpr ⟨hupper, hlower⟩

theorem isFloatMark_of_isDigit {c : Char} (hc : c.isDigit = true) : isFloatMark c = false := by
  unfold isFloatMark
  rw [Bool.eq_false_iff]
  intro hmark
  simp only [Bool.or_eq_true, decide_eq_true_eq] at hmark
  rcases hmark with (rfl | rfl) | rfl <;> exact absurd hc (by decide)

theorem isWordChar_of_isDigit {c : Char} (hc : c.isDigit = true) : isWordChar c = true := by
  simp [isWordChar, Char.isAlphanum, hc]

/-- Digits, the first of which is not a sign. -/
theorem head_toDigits (value : ℕ) :
    ∃ c rest, Nat.toDigits 10 value = c :: rest ∧ c.isDigit = true ∧ c ≠ '-' := by
  obtain ⟨hne, hdigits⟩ := isNumeral_toDigits value
  obtain ⟨c, rest, heq⟩ := List.exists_cons_of_ne_nil hne
  have hc : c.isDigit = true := hdigits c (heq ▸ List.mem_cons_self)
  refine ⟨c, rest, heq, hc, ?_⟩
  rintro rfl
  exact absurd hc (by decide)

theorem any_isFloatMark_toDigits (value : ℕ) :
    (Nat.toDigits 10 value).any isFloatMark = false := by
  rw [List.any_eq_false]
  intro c hc
  rw [isFloatMark_of_isDigit ((isNumeral_toDigits value).digit c hc)]
  exact Bool.false_ne_true

/-! ## Arranged pieces -/

def TextPiece.isWord : TextPiece → Bool
  | .word _ => true
  | .mark _ | .text _ | .blank _ => false

def TextPiece.Fine : TextPiece → Prop
  | .mark c => isMark c = true
  | .text _ => True
  | .word chars => chars ≠ [] ∧ ∀ c ∈ chars, isWordChar c = true
  | .blank chars => chars ≠ [] ∧ ∀ c ∈ chars, c = '\n' ∨ c = ' '

/-- What follows a word does not start with one. -/
def Apart (parts : List TextPiece) : Prop := ∀ next ∈ parts.head?, next.isWord = false

/-- Pieces that can be told apart where they are written. -/
def Arranged : List TextPiece → Prop
  | [] => True
  | part :: parts => part.Fine ∧ (part.isWord = true → Apart parts) ∧ Arranged parts

theorem fine_of_mem {parts : List TextPiece} (hparts : Arranged parts) {part : TextPiece}
    (hpart : part ∈ parts) : part.Fine := by
  induction parts with
  | nil => exact absurd hpart List.not_mem_nil
  | cons first parts ih =>
    rcases List.mem_cons.mp hpart with rfl | hpart
    · exact hparts.1
    · exact ih hparts.2.2 hpart

theorem fine_line (level : ℕ) : (line level).Fine := by
  refine ⟨List.cons_ne_nil _ _, fun c hc ↦ ?_⟩
  exact (List.mem_cons.mp hc).imp_right List.eq_of_mem_replicate

/-- The text of a number is a word. -/
theorem fine_numberText (laws : floats.Laws) {number : Number} (hnumber : number.Valid) :
    (TextPiece.word (numberText floats number)).Fine := by
  cases number with
  | posInt value =>
    exact ⟨Nat.toDigits_ne_nil, fun c hc ↦
      isWordChar_of_isDigit ((isNumeral_toDigits value).digit c hc)⟩
  | negInt value =>
    refine ⟨List.cons_ne_nil _ _, fun c hc ↦ ?_⟩
    rcases List.mem_cons.mp hc with rfl | hc
    · rfl
    · exact isWordChar_of_isDigit ((isNumeral_toDigits value.natAbs).digit c hc)
  | float bits =>
    refine ⟨fun hnil ↦ ?_, laws.isWordChar_print bits hnumber⟩
    have hmarked := laws.marked_print bits hnumber
    rw [show floats.print bits = [] from hnil] at hmarked
    cases hmarked

section Arranged

variable {parts : List TextPiece}

theorem arranged_mark (hparts : Arranged parts) {c : Char} (hc : isMark c = true) :
    Arranged (.mark c :: parts) :=
  ⟨hc, fun h ↦ absurd h Bool.false_ne_true, hparts⟩

theorem arranged_text (hparts : Arranged parts) (value : List Char) :
    Arranged (.text value :: parts) :=
  ⟨trivial, fun h ↦ absurd h Bool.false_ne_true, hparts⟩

theorem arranged_line (hparts : Arranged parts) (level : ℕ) : Arranged (line level :: parts) :=
  ⟨fine_line level, fun h ↦ absurd h Bool.false_ne_true, hparts⟩

theorem arranged_space (hparts : Arranged parts) : Arranged (.blank [' '] :: parts) :=
  ⟨⟨List.cons_ne_nil _ _, by simp⟩, fun h ↦ absurd h Bool.false_ne_true, hparts⟩

end Arranged

theorem arranged_word {chars : List Char} (hfine : (TextPiece.word chars).Fine)
    {rest : List TextPiece} (hrest : Arranged rest) (hapart : Apart rest) : Arranged ([.word chars] ++ rest) :=
  ⟨hfine, fun _ ↦ hapart, hrest⟩

def Arrangeable (parts : List TextPiece) : Prop :=
  ∀ rest, Arranged rest → Apart rest → Arranged (parts ++ rest)

theorem apart_cons {part : TextPiece} (hword : part.isWord = false) (parts : List TextPiece) :
    Apart (part :: parts) := by
  rintro next hnext
  obtain rfl : part = next := Option.some.inj hnext
  exact hword

theorem arranged_itemPieces {items : List Json}
    (hitems : ∀ item ∈ items, ∀ level, Arrangeable (pieces floats level item)) (level : ℕ)
    {rest : List TextPiece} (hrest : Arranged rest) :
    Arranged (itemPieces floats level items ++ rest) ∧
      Apart (itemPieces floats level items ++ rest) := by
  induction items with
  | nil =>
    exact ⟨arranged_line (arranged_mark hrest rfl) level, apart_cons rfl _⟩
  | cons item items ih =>
    rw [List.forall_mem_cons] at hitems
    obtain ⟨hmore, hapart⟩ := ih hitems.2
    rw [itemPieces, List.cons_append, List.cons_append, List.append_assoc]
    have hitem := hitems.1 (level + 1) _ hmore hapart
    exact ⟨arranged_mark (arranged_line hitem _) rfl, apart_cons rfl _⟩

theorem arranged_memberPieces {members : List (String × Json)}
    (hmembers : ∀ entry ∈ members, ∀ level, Arrangeable (pieces floats level entry.2)) (level : ℕ)
    {rest : List TextPiece} (hrest : Arranged rest) :
    Arranged (memberPieces floats level members ++ rest) ∧
      Apart (memberPieces floats level members ++ rest) := by
  induction members with
  | nil =>
    exact ⟨arranged_line (arranged_mark hrest rfl) level, apart_cons rfl _⟩
  | cons entry members ih =>
    obtain ⟨key, value⟩ := entry
    rw [List.forall_mem_cons] at hmembers
    obtain ⟨hmore, hapart⟩ := ih hmembers.2
    have hspace := arranged_space (hmembers.1 (level + 1) _ hmore hapart)
    have hvalue := arranged_mark (c := ':') hspace rfl
    rw [memberPieces]
    simp only [List.cons_append, List.append_assoc]
    exact ⟨arranged_mark (arranged_line (arranged_text hvalue _) _) rfl, apart_cons rfl _⟩

theorem arrangeable_pieces (laws : floats.Laws) {value : Json} (hvalid : value.Valid) (level : ℕ) :
    Arrangeable (pieces floats level value) := by
  induction value using Json.induction generalizing level with
  | null => exact fun rest ↦ arranged_word ⟨List.cons_ne_nil _ _, List.all_eq_true.mp rfl⟩
  | bool value =>
    cases value with
    | false => exact fun rest ↦ arranged_word ⟨List.cons_ne_nil _ _, List.all_eq_true.mp rfl⟩
    | true => exact fun rest ↦ arranged_word ⟨List.cons_ne_nil _ _, List.all_eq_true.mp rfl⟩
  | number number => exact fun rest ↦ arranged_word (fine_numberText laws (hvalid number rfl))
  | string text => exact fun rest hrest _ ↦ arranged_text hrest _
  | array items ih =>
    have hall := (Json.every_array.mp hvalid).2
    intro rest hrest _
    cases items with
    | nil => exact arranged_mark (arranged_mark hrest rfl) rfl
    | cons item items =>
      rw [List.forall_mem_cons] at ih hall
      obtain ⟨hmore, hapart⟩ := arranged_itemPieces
        (fun other hother ↦ ih.2 other hother (hall.2 other hother)) level hrest
      rw [pieces, List.cons_append, List.cons_append, List.append_assoc]
      exact arranged_mark (arranged_line (ih.1 hall.1 _ _ hmore hapart) _) rfl
  | object members ih =>
    have hall := (Json.every_object.mp hvalid).2
    intro rest hrest _
    cases members with
    | nil => exact arranged_mark (arranged_mark hrest rfl) rfl
    | cons entry members =>
      obtain ⟨key, value⟩ := entry
      rw [List.forall_mem_cons] at ih hall
      obtain ⟨hmore, hapart⟩ := arranged_memberPieces
        (fun other hother ↦ ih.2 other hother (hall.2 other hother).2) level hrest
      have hspace := arranged_space (ih.1 hall.1.2 (level + 1) _ hmore hapart)
      have hvalue := arranged_mark (c := ':') hspace rfl
      rw [pieces]
      simp only [List.cons_append, List.append_assoc]
      exact arranged_mark (arranged_line (arranged_text hvalue _) _) rfl

theorem isLayout_of_isMark {c : Char} (hc : isMark c = true) : isLayout c = false := by
  simp only [isMark, Bool.or_eq_true, decide_eq_true_eq] at hc
  rcases hc with ((((rfl | rfl) | rfl) | rfl) | rfl) | rfl <;> rfl

theorem isLayout_of_mem {c : Char} (hc : c = '\n' ∨ c = ' ') : isLayout c = true := by
  rcases hc with rfl | rfl <;> rfl

theorem isWordChar_of_isMark {c : Char} (hc : isMark c = true) : isWordChar c = false := by
  simp only [isMark, Bool.or_eq_true, decide_eq_true_eq] at hc
  rcases hc with ((((rfl | rfl) | rfl) | rfl) | rfl) | rfl <;> rfl

theorem isWordChar_of_isLayout {c : Char} (hc : isLayout c = true) : isWordChar c = false := by
  simp only [isLayout, Bool.or_eq_true, decide_eq_true_eq] at hc
  rcases hc with ((rfl | rfl) | rfl) | rfl <;> rfl

theorem lex_append (quoted : QuotedSyntax) (front rest : List Char) :
    lex quoted front.length (front ++ rest) = lex quoted 0 rest := by
  induction front with
  | nil => rfl
  | cons c front ih => exact ih

theorem lex_layout (quoted : QuotedSyntax) {front : List Char}
    (hfront : ∀ c ∈ front, isLayout c = true) (rest : List Char) :
    lex quoted 0 (front ++ rest) = lex quoted 0 rest := by
  induction front with
  | nil => rfl
  | cons c front ih =>
    rw [List.forall_mem_cons] at hfront
    rw [List.cons_append, lex, if_pos hfront.1, ih hfront.2]

theorem lex_mark (quoted : QuotedSyntax) {c : Char} (hc : isMark c = true) (rest : List Char) :
    lex quoted 0 (c :: rest) = (lex quoted 0 rest).map (.mark c :: ·) := by
  rw [lex, isLayout_of_isMark hc, if_neg Bool.false_ne_true, if_pos hc]

theorem lex_word (quoted : QuotedSyntax) {chars rest : List Char} (hne : chars ≠ [])
    (hchars : ∀ c ∈ chars, isWordChar c = true) (hrest : Stops isWordChar rest) :
    lex quoted 0 (chars ++ rest) = (lex quoted 0 rest).map (.word chars :: ·) := by
  obtain ⟨c, chars, rfl⟩ := List.exists_cons_of_ne_nil hne
  rw [List.forall_mem_cons] at hchars
  have hlayout : ¬ isLayout c = true := fun h ↦
    Bool.false_ne_true ((isWordChar_of_isLayout h).symm.trans hchars.1)
  have hmark : ¬ isMark c = true := fun h ↦
    Bool.false_ne_true ((isWordChar_of_isMark h).symm.trans hchars.1)
  rw [List.cons_append, lex, if_neg hlayout, if_neg hmark, if_pos hchars.1,
    takeWhile_token hchars.2 hrest, lex_append]

theorem lex_text (quoted : QuotedSyntax) {value written after : List Char}
    (hread : quoted.readQuoted 0 (written ++ '"' :: after) = some (value, after)) :
    lex quoted 0 ('"' :: (written ++ '"' :: after)) =
      (lex quoted 0 after).map (.text value :: ·) := by
  have hlayout : ¬ isLayout '"' = true := by decide
  have hmark : ¬ isMark '"' = true := by decide
  have hword : ¬ isWordChar '"' = true := by decide
  have hsplit : written ++ '"' :: after = (written ++ ['"']) ++ after := by
    rw [List.append_assoc, List.singleton_append]
  rw [lex, if_neg hlayout, if_neg hmark, if_neg hword, if_pos rfl, hread]
  dsimp only
  rw [hsplit, List.length_append, Nat.add_sub_cancel, lex_append]

/-! ## Quoted texts -/

def AllTexts (p : List Char → Prop) (parts : List TextPiece) : Prop :=
  ∀ value, .text value ∈ parts → p value

section AllTexts

variable {p : List Char → Prop}

@[simp] theorem allTexts_nil : AllTexts p [] := fun _ h ↦ absurd h List.not_mem_nil

@[simp] theorem allTexts_append {front back : List TextPiece} :
    AllTexts p (front ++ back) ↔ AllTexts p front ∧ AllTexts p back := by
  simp only [AllTexts, List.mem_append, or_imp, forall_and]

@[simp] theorem allTexts_text {value : List Char} {parts : List TextPiece} :
    AllTexts p (.text value :: parts) ↔ p value ∧ AllTexts p parts := by
  simp [AllTexts]

@[simp] theorem allTexts_mark {c : Char} {parts : List TextPiece} :
    AllTexts p (.mark c :: parts) ↔ AllTexts p parts := by
  simp [AllTexts]

@[simp] theorem allTexts_word {chars : List Char} {parts : List TextPiece} :
    AllTexts p (.word chars :: parts) ↔ AllTexts p parts := by
  simp [AllTexts]

@[simp] theorem allTexts_blank {chars : List Char} {parts : List TextPiece} :
    AllTexts p (.blank chars :: parts) ↔ AllTexts p parts := by
  simp [AllTexts]

variable (p) in
/-- A property of every string in a value and of every name of a member. -/
def Json.EveryText (value : Json) : Prop :=
  value.Every (fun inner ↦ ∀ text, inner = .string text → p text.toList) fun name ↦ p name.toList

theorem allTexts_itemPieces {items : List Json}
    (hitems : ∀ item ∈ items, ∀ level, AllTexts p (pieces floats level item) ↔ item.EveryText p)
    (level : ℕ) :
    AllTexts p (itemPieces floats level items) ↔ ∀ item ∈ items, item.EveryText p := by
  induction items with
  | nil => simp [itemPieces, line]
  | cons item items ih =>
    rw [List.forall_mem_cons] at hitems
    simp only [itemPieces, line, allTexts_mark, allTexts_blank, allTexts_append, ih hitems.2,
      hitems.1, List.forall_mem_cons]

theorem allTexts_memberPieces {members : List (String × Json)}
    (hmembers : ∀ entry ∈ members, ∀ level,
      AllTexts p (pieces floats level entry.2) ↔ entry.2.EveryText p) (level : ℕ) :
    AllTexts p (memberPieces floats level members) ↔
      ∀ entry ∈ members, p entry.1.toList ∧ entry.2.EveryText p := by
  induction members with
  | nil => simp [memberPieces, line]
  | cons entry members ih =>
    obtain ⟨key, value⟩ := entry
    rw [List.forall_mem_cons] at hmembers
    simp only [memberPieces, line, allTexts_mark, allTexts_blank, allTexts_text, allTexts_append,
      ih hmembers.2, hmembers.1, List.forall_mem_cons, and_assoc]

/-- The quoted texts of a printed value are its strings and the names of its members. -/
theorem allTexts_pieces (level : ℕ) (value : Json) :
    AllTexts p (pieces floats level value) ↔ value.EveryText p := by
  induction value using Json.induction generalizing level with
  | null => simp [pieces, Json.EveryText, Json.Every]
  | bool value => cases value <;> simp [pieces, Json.EveryText, Json.Every]
  | number number => simp [pieces, Json.EveryText, Json.Every]
  | string text => simp [pieces, Json.EveryText, Json.Every]
  | array items ih =>
    rw [Json.EveryText, Json.every_array]
    cases items with
    | nil => simp [pieces]
    | cons item items =>
      rw [List.forall_mem_cons] at ih
      rw [List.forall_mem_cons, and_iff_right (fun text h ↦ by cases h)]
      simp only [pieces, line, allTexts_mark, allTexts_blank, allTexts_append, ih.1,
        allTexts_itemPieces ih.2]
      rfl
  | object members ih =>
    rw [Json.EveryText, Json.every_object]
    cases members with
    | nil => simp [pieces]
    | cons entry members =>
      obtain ⟨key, value⟩ := entry
      rw [List.forall_mem_cons] at ih
      rw [List.forall_mem_cons, and_iff_right (fun text h ↦ by cases h)]
      simp only [pieces, line, allTexts_mark, allTexts_blank, allTexts_text, allTexts_append, ih.1,
        allTexts_memberPieces ih.2, and_assoc]
      rfl

theorem Json.everyText_congr {q : List Char → Prop} (hpq : ∀ text, p text ↔ q text)
    (value : Json) : value.EveryText p ↔ value.EveryText q := by
  rw [show p = q from funext fun text ↦ propext (hpq text)]

theorem Json.everyText_and {q : List Char → Prop} {value : Json} :
    value.EveryText (fun text ↦ p text ∧ q text) ↔ value.EveryText p ∧ value.EveryText q := by
  have floats : FloatText := ⟨fun _ ↦ [], fun _ ↦ none⟩
  rw [← @allTexts_pieces floats _ 0, ← @allTexts_pieces floats _ 0, ← @allTexts_pieces floats _ 0]
  exact forall₂_and

end AllTexts

/-! ## Escapes -/

/-- A language that knows the escapes with which texts are printed. -/
structure KnowsEscapes (quoted : QuotedSyntax) : Prop where
  codes : quoted.codes = true
  quote : quoted.simple '"' = some '"'
  backslash : quoted.simple '\\' = some '\\'
  backspace : quoted.simple 'b' = some '\x08'
  formFeed : quoted.simple 'f' = some '\x0c'
  newline : quoted.simple 'n' = some '\n'
  carriageReturn : quoted.simple 'r' = some '\r'
  tab : quoted.simple 't' = some '\t'
  inside : ∀ c, 0x20 ≤ c.toNat → quoted.inside c = true

/-- The code of a control character. -/
theorem hexCode_control {code : ℕ} (hcode : code < 0x20) :
    hexCode ['0', '0', hexDigit (code / 16), hexDigit (code % 16)] = some code := by
  have hall : ∀ n < 0x20, hexCode ['0', '0', hexDigit (n / 16), hexDigit (n % 16)] = some n := by
    decide
  exact hall code hcode

theorem readsAs_escapeChar {quoted : QuotedSyntax} (hknows : KnowsEscapes quoted) (c : Char) :
    quoted.ReadsAs (escapeChar c) c := by
  unfold escapeChar
  split_ifs with hquote hbackslash hbackspace hform hnewline hreturn htab hcontrol
  · rw [hquote]
    exact quoted.readsAs_simple (by decide) hknows.quote
  · rw [hbackslash]
    exact quoted.readsAs_simple (by decide) hknows.backslash
  · rw [hbackspace]
    exact quoted.readsAs_simple (by decide) hknows.backspace
  · rw [hform]
    exact quoted.readsAs_simple (by decide) hknows.formFeed
  · rw [hnewline]
    exact quoted.readsAs_simple (by decide) hknows.newline
  · rw [hreturn]
    exact quoted.readsAs_simple (by decide) hknows.carriageReturn
  · rw [htab]
    exact quoted.readsAs_simple (by decide) hknows.tab
  · exact quoted.readsAs_code hknows.codes (hexCode_control hcontrol)
  · exact quoted.readsAs_self hquote hbackslash (hknows.inside c (Nat.not_lt.mp hcontrol))

/-! ## Characters of a printed text -/

/-- A character that a printed value has in its quoted texts only. -/
def Unusual (c : Char) : Prop :=
  isMark c = false ∧ isWordChar c = false ∧ c ∉ ['\n', ' ', '"', '\\']

instance decidableUnusual (c : Char) : Decidable (Unusual c) :=
  inferInstanceAs (Decidable (_ ∧ _ ∧ _))

theorem isWordChar_hexDigit {code : ℕ} (hcode : code < 0x20) :
    isWordChar (hexDigit (code / 16)) = true ∧ isWordChar (hexDigit (code % 16)) = true := by
  have hall : ∀ n < 0x20, isWordChar (hexDigit (n / 16)) = true ∧
      isWordChar (hexDigit (n % 16)) = true := by
    decide
  exact hall code hcode

theorem eq_of_mem_escapeChar {c d : Char} (hunusual : Unusual c) (hmem : c ∈ escapeChar d) :
    c = d := by
  obtain ⟨-, hword, hnot⟩ := hunusual
  have hletter : ∀ letter, isWordChar letter = true → c ≠ letter := by
    rintro letter hletter rfl
    exact Bool.false_ne_true (hword.symm.trans hletter)
  simp only [List.mem_cons, List.not_mem_nil, or_false, not_or] at hnot
  obtain ⟨-, -, hquote, hbackslash⟩ := hnot
  have hpair : ∀ second, c ≠ second → c ∉ ['\\', second] := by
    simp [hbackslash]
  unfold escapeChar at hmem
  split_ifs at hmem with _ _ _ _ _ _ _ hcontrol
  · exact absurd hmem (hpair '"' hquote)
  · exact absurd hmem (hpair '\\' hbackslash)
  · exact absurd hmem (hpair 'b' (hletter 'b' rfl))
  · exact absurd hmem (hpair 'f' (hletter 'f' rfl))
  · exact absurd hmem (hpair 'n' (hletter 'n' rfl))
  · exact absurd hmem (hpair 'r' (hletter 'r' rfl))
  · exact absurd hmem (hpair 't' (hletter 't' rfl))
  · obtain ⟨hhigh, hlow⟩ := isWordChar_hexDigit hcontrol
    exact absurd hmem (by simp [hbackslash, hletter 'u' rfl, hletter '0' rfl, hletter _ hhigh,
      hletter _ hlow])
  · exact List.mem_singleton.mp hmem

/-- An unusual character of a printed text is one of a quoted text, where it stands for itself. -/
theorem exists_of_mem_render {parts : List TextPiece} (hparts : Arranged parts) {c : Char}
    (hunusual : Unusual c) (hmem : c ∈ render id escapeChar parts) :
    c ∈ escapeChar c ∧ ∃ value, .text value ∈ parts ∧ c ∈ value := by
  obtain ⟨part, hpart, hmem⟩ := List.mem_flatMap.mp hmem
  have hfine := fine_of_mem hparts hpart
  obtain ⟨hmark, hword, hnot⟩ := id hunusual
  simp only [List.mem_cons, List.not_mem_nil, or_false, not_or] at hnot
  cases part with
  | mark d =>
    obtain rfl := List.mem_singleton.mp hmem
    exact absurd (hmark.symm.trans hfine) Bool.false_ne_true
  | text value =>
    rcases List.mem_cons.mp hmem with hquote | hmem
    · exact absurd hquote hnot.2.2.1
    rcases List.mem_append.mp hmem with hmem | hquote
    · obtain ⟨d, hd, hescape⟩ := List.mem_flatMap.mp hmem
      obtain rfl := eq_of_mem_escapeChar hunusual hescape
      exact ⟨hescape, value, hpart, hd⟩
    · exact absurd (List.mem_singleton.mp hquote) hnot.2.2.1
  | word chars => exact absurd (hword.symm.trans (hfine.2 c hmem)) Bool.false_ne_true
  | blank chars =>
    rw [TextPiece.written, List.map_id] at hmem
    rcases hfine.2 c hmem with hnewline | hspace
    · exact absurd hnewline hnot.1
    · exact absurd hspace hnot.2.1

theorem mem_render_of_mem {parts : List TextPiece} {value : List Char}
    (hvalue : .text value ∈ parts) {c : Char} (hescape : c ∈ escapeChar c) (hc : c ∈ value) :
    c ∈ render id escapeChar parts := by
  refine List.mem_flatMap.mpr ⟨_, hvalue, List.mem_cons_of_mem _ (List.mem_append_left _ ?_)⟩
  exact List.mem_flatMap.mpr ⟨c, hc, hescape⟩

/-- An unusual character that is not escaped is in a printed value exactly if it is in a string or
in the name of a member. -/
theorem not_mem_prettyText_iff (laws : floats.Laws) {value : Json} (hvalid : value.Valid) {c : Char}
    (hunusual : Unusual c) (hescape : c ∈ escapeChar c) :
    c ∉ prettyText floats value ↔ value.EveryText fun text ↦ c ∉ text := by
  have harranged := arrangeable_pieces laws hvalid 0 [] trivial fun _ h ↦ by cases h
  rw [List.append_nil] at harranged
  rw [← @allTexts_pieces floats _ 0]
  constructor
  · exact fun hnot text htext hc ↦ hnot (mem_render_of_mem htext hescape hc)
  · intro hall hmem
    obtain ⟨-, text, htext, hc⟩ := exists_of_mem_render harranged hunusual hmem
    exact hall text htext hc

/-- An unusual character that is escaped is not in a printed value. -/
theorem not_mem_prettyText (laws : floats.Laws) {value : Json} (hvalid : value.Valid) {c : Char}
    (hunusual : Unusual c) (hescape : c ∉ escapeChar c) : c ∉ prettyText floats value := by
  have harranged := arrangeable_pieces laws hvalid 0 [] trivial fun _ h ↦ by cases h
  rw [List.append_nil] at harranged
  exact fun hmem ↦ hescape (exists_of_mem_render harranged hunusual hmem).1

/-! ## Lexing what is written -/

section Render

variable {quoted : QuotedSyntax} {layout : Char → Char} {content : Char → List Char}

theorem render_cons (part : TextPiece) (parts : List TextPiece) :
    render layout content (part :: parts) =
      part.written layout content ++ render layout content parts :=
  List.flatMap_cons

/-- What is written behind a word does not go on with it. -/
theorem stops_render (hlayout : ∀ c, isLayout c = true → isLayout (layout c) = true)
    {parts : List TextPiece} (hparts : Arranged parts) (hapart : Apart parts) :
    Stops isWordChar (render layout content parts) := by
  cases parts with
  | nil => exact stops_nil
  | cons part parts =>
    have hword := hapart part rfl
    rw [render_cons]
    cases part with
    | mark c => exact stops_cons.mpr (isWordChar_of_isMark hparts.1)
    | text value => exact stops_cons.mpr rfl
    | word chars => cases hword
    | blank chars =>
      obtain ⟨hne, hchars⟩ := hparts.1
      obtain ⟨c, chars, rfl⟩ := List.exists_cons_of_ne_nil hne
      have hc := isLayout_of_mem (hchars c List.mem_cons_self)
      exact stops_cons.mpr (isWordChar_of_isLayout (hlayout c hc))

/-- The lexer finds the pieces that are written, without the layout. -/
theorem lex_render (hlayout : ∀ c, isLayout c = true → isLayout (layout c) = true)
    {parts : List TextPiece} (hparts : Arranged parts)
    (htexts : AllTexts (fun value ↦ ∀ c ∈ value, quoted.ReadsAs (content c) c) parts) :
    lex quoted 0 (render layout content parts) = some (parts.filter TextPiece.solid) := by
  induction parts with
  | nil => rfl
  | cons part parts ih =>
    obtain ⟨hfine, hapart, hmore⟩ := hparts
    have hrest := ih hmore fun value hvalue ↦ htexts value (List.mem_cons_of_mem _ hvalue)
    rw [render_cons]
    cases part with
    | mark c =>
      rw [TextPiece.written, List.singleton_append, lex_mark quoted hfine, hrest]
      rfl
    | text value =>
      have hread := quoted.readQuoted_flatMap (htexts value List.mem_cons_self)
        (render layout content parts)
      rw [TextPiece.written, List.cons_append, List.append_assoc, List.singleton_append,
        lex_text quoted hread, hrest]
      rfl
    | word chars =>
      rw [TextPiece.written,
        lex_word quoted hfine.1 hfine.2 (stops_render hlayout hmore (hapart rfl)), hrest]
      rfl
    | blank chars =>
      have hchars : ∀ c ∈ chars.map layout, isLayout c = true :=
        List.forall_mem_map.mpr fun c hc ↦ hlayout c (isLayout_of_mem (hfine.2 c hc))
      rw [TextPiece.written, lex_layout quoted hchars, hrest]
      rfl

/-- A quoted text is found only if it is read. -/
theorem exists_readQuoted_of_lex {text : List Char} {found : List TextPiece}
    (hlex : lex quoted 0 ('"' :: text) = some found) :
    ∃ value after others, quoted.readQuoted 0 text = some (value, after) ∧
      found = .text value :: others := by
  have hlayout : ¬ isLayout '"' = true := by decide
  have hmark : ¬ isMark '"' = true := by decide
  have hword : ¬ isWordChar '"' = true := by decide
  rw [lex, if_neg hlayout, if_neg hmark, if_neg hword, if_pos rfl] at hlex
  cases hread : quoted.readQuoted 0 text with
  | none => simp [hread] at hlex
  | some read =>
    rw [hread] at hlex
    obtain ⟨others, -, rfl⟩ := Option.map_eq_some_iff.mp hlex
    exact ⟨read.1, read.2, others, rfl, rfl⟩

/-- A piece without the characters of a word. -/
def TextPiece.shape : TextPiece → TextPiece
  | .word _ => .word []
  | part => part

/-- Texts without quotes that are quoted as they are.  If the lexer finds them, up to the characters
of words, none of them has an escape in it. -/
theorem plain_of_lex_render (hlayout : ∀ c, isLayout c = true → isLayout (layout c) = true)
    {parts found : List TextPiece} (hparts : Arranged parts)
    (hquote : AllTexts (fun value ↦ '"' ∉ value) parts)
    (hlex : lex quoted 0 (render layout (fun c ↦ [c]) parts) = some found)
    (hshape : found.map TextPiece.shape = (parts.filter TextPiece.solid).map TextPiece.shape) :
    AllTexts (fun value ↦ ∀ c ∈ value, c ≠ '\\' ∧ quoted.inside c = true) parts := by
  induction parts generalizing found with
  | nil => exact fun value hvalue ↦ absurd hvalue List.not_mem_nil
  | cons part parts ih =>
    obtain ⟨hfine, hapart, hmore⟩ := hparts
    have hquotes : AllTexts (fun value ↦ '"' ∉ value) parts := fun value hvalue ↦
      hquote value (List.mem_cons_of_mem _ hvalue)
    rw [render_cons] at hlex
    cases part with
    | mark c =>
      rw [TextPiece.written, List.singleton_append, lex_mark quoted hfine] at hlex
      obtain ⟨others, hothers, rfl⟩ := Option.map_eq_some_iff.mp hlex
      exact allTexts_mark.mpr (ih hmore hquotes hothers (List.cons.inj hshape).2)
    | text value =>
      have hvalue := hquote value List.mem_cons_self
      rw [TextPiece.written, List.flatMap_singleton', List.cons_append, List.append_assoc,
        List.singleton_append] at hlex
      obtain ⟨read, after, others, hread, rfl⟩ := exists_readQuoted_of_lex hlex
      have hhead : TextPiece.text read = .text value := (List.cons.inj hshape).1
      obtain rfl : read = value := TextPiece.text.inj hhead
      obtain ⟨rfl, hplain⟩ := quoted.eq_of_readQuoted_raw hvalue hread
      rw [lex_text quoted hread] at hlex
      obtain ⟨more, hothers, heq⟩ := Option.map_eq_some_iff.mp hlex
      obtain rfl : more = others := (List.cons.inj heq).2
      exact allTexts_text.mpr ⟨hplain, ih hmore hquotes hothers (List.cons.inj hshape).2⟩
    | word chars =>
      rw [TextPiece.written, lex_word quoted hfine.1 hfine.2
        (stops_render hlayout hmore (hapart rfl))] at hlex
      obtain ⟨others, hothers, rfl⟩ := Option.map_eq_some_iff.mp hlex
      exact allTexts_word.mpr (ih hmore hquotes hothers (List.cons.inj hshape).2)
    | blank chars =>
      have hchars : ∀ c ∈ chars.map layout, isLayout c = true :=
        List.forall_mem_map.mpr fun c hc ↦ hlayout c (isLayout_of_mem (hfine.2 c hc))
      rw [TextPiece.written, lex_layout quoted hchars] at hlex
      exact allTexts_blank.mpr (ih hmore hquotes hlex hshape)

end Render

end Lexing

end MongoCore.Data
