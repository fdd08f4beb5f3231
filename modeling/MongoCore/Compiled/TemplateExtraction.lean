import MongoCore.Compiled.Translator
import MongoCore.Library.FirstOccurrence
import MongoCore.Library.Scanning

/-!
# Extracting a template from an intent

The prices of an intent, then its numbers, then its quoted strings are replaced by placeholders.
Each of the three passes finds its matches in the text as it is before the pass, and then replaces
the first occurrence of the text of each match, wherever that is.

An extraction is faithful if every placeholder stands in the place of its own match.  What that
means is a cut of the intent into tokens: the letters that stay, and the values that get a
placeholder.
-/

namespace MongoCore.Compiled.TemplateExtractor

open MongoCore.Library.FirstOccurrence MongoCore.Library.Scanning

/-! ## The expressions -/

/-- The Unicode classes `\d` and `\w` of the regular expressions, as far as they are known here. -/
structure CharClasses where
  digit : Char → Bool
  word : Char → Bool
  word_of_digit : ∀ c, digit c = true → word c = true
  digit_ascii : ∀ c : Char, c.toNat < 128 → digit c = c.isDigit
  word_ascii : ∀ c : Char, c.toNat < 128 → word c = (c.isAlphanum || c == '_')

section Expressions

variable {τ : Type} (view : τ → Option Char)

/-- An item of a text is a character of a class. -/
def has (test : Char → Bool) (item : τ) : Bool := (view item).any test

def isQuote (c : Char) : Bool := c == '"' || c == '\''

variable (classes : CharClasses)

/-- The length of `\d*` at the start of a text. -/
def digitsLength (text : List τ) : ℕ := (text.takeWhile (has view classes.digit)).length

/-- The length of `(?:\.\d+)?` at the start of a text. -/
def fractionLength : List τ → ℕ
  | [] => 0
  | item :: rest =>
      if has view (· == '.') item && digitsLength view classes rest != 0 then
        1 + digitsLength view classes rest
      else 0

/-- After a digit, `\b`. -/
def boundary : List τ → Bool
  | [] => true
  | item :: _ => !has view classes.word item

/-- The length of a match of `\$(\d+(?:\.\d+)?)` at the start of a text, or zero. -/
def priceLength (_previous : Option τ) : List τ → ℕ
  | [] => 0
  | item :: rest =>
      let digits := digitsLength view classes rest
      if has view (· == '$') item && digits != 0 then
        1 + digits + fractionLength view classes (rest.drop digits)
      else 0

/-- The length of a match of `\b(\d+(?:\.\d+)?)\b` at the start of a text, or zero. -/
def numberLength (previous : Option τ) (text : List τ) : ℕ :=
  let digits := digitsLength view classes text
  let whole := digits + fractionLength view classes (text.drop digits)
  if previous.any (has view classes.word) || digits == 0 then 0
  else if boundary view classes (text.drop whole) then whole
  else if boundary view classes (text.drop digits) then digits
  else 0

/-- The length of a match of `["']([^"']+)["']` at the start of a text, or zero. -/
def quotedLength (_previous : Option τ) : List τ → ℕ
  | [] => 0
  | item :: rest =>
      let inner := (rest.takeWhile fun other ↦ !has view isQuote other).length
      if has view isQuote item && inner != 0 && inner != rest.length then inner + 2 else 0

end Expressions

/-! ## The extractor -/

structure TemplateParameter where
  name : String
  placeholder : String
  valueType : ParameterType
  deriving DecidableEq

structure QueryTemplate where
  pattern : String
  parameters : List TemplateParameter

inductive Kind where
  | price | num | str
  deriving DecidableEq

def Kind.stem : Kind → String
  | .price => "price_"
  | .num => "num_"
  | .str => "str_"

def Kind.valueType : Kind → ParameterType
  | .price => .number
  | .num => .number
  | .str => .string

/-- The parameter that is added after so many others. -/
def parameter (kind : Kind) (count : ℕ) : TemplateParameter where
  name := kind.stem ++ toString count
  placeholder := "\x7b" ++ (kind.stem ++ toString count) ++ "\x7d"
  valueType := kind.valueType

def placeholder (kind : Kind) (count : ℕ) : List Char := (parameter kind count).placeholder.toList

def contains (text word : List Char) : Bool := decide (word <:+: text)

/-- Replace the first occurrence of the text of a match, unless it is skipped. -/
def replaceMatch (kind : Kind) (test : List Char → List Char → Bool)
    (state : List Char × List TemplateParameter) (fullMatch : List Char) :
    List Char × List TemplateParameter :=
  if test state.1 fullMatch then
    (replaceFirst fullMatch (placeholder kind state.2.length) state.1,
      state.2 ++ [parameter kind state.2.length])
  else state

variable (classes : CharClasses)

def replacePrices (intent : List Char) : List Char × List TemplateParameter :=
  (matchesOf (cells (priceLength some classes) intent)).foldl
    (replaceMatch .price fun _ _ ↦ true) (intent, [])

/-- A number is not replaced if its text stands right after an opening brace. -/
def notAfterBrace (currentPattern fullMatch : List Char) : Bool :=
  !contains currentPattern ('\x7b' :: fullMatch)

def replaceNumbers (state : List Char × List TemplateParameter) :
    List Char × List TemplateParameter :=
  (matchesOf (cells (numberLength some classes) state.1)).foldl
    (replaceMatch .num fun pattern fullMatch ↦
      contains pattern fullMatch && notAfterBrace state.1 fullMatch) state

def replaceQuoted (state : List Char × List TemplateParameter) :
    List Char × List TemplateParameter :=
  (matchesOf (cells (quotedLength some) state.1)).foldl (replaceMatch .str contains) state

def extract (intent : String) : Option QueryTemplate :=
  let (pattern, parameters) :=
    replaceQuoted (replaceNumbers classes (replacePrices classes intent.toList))
  if parameters.isEmpty then none else some ⟨String.ofList pattern, parameters⟩

/-! ## Tokens -/

/-- A letter of the intent that stays, or a value that gets a placeholder. -/
inductive Token where
  | lit (c : Char)
  | hole (kind : Kind) (count : ℕ) (value : List Char)
  deriving DecidableEq

def Token.char? : Token → Option Char
  | .lit c => some c
  | .hole _ _ _ => none

def Token.parameter? : Token → Option TemplateParameter
  | .lit _ => none
  | .hole kind count _ => some (parameter kind count)

def render (tokens : List Token) : List Char :=
  tokens.flatMap fun
    | .lit c => [c]
    | .hole kind count _ => placeholder kind count

def spell (tokens : List Token) : List Char :=
  tokens.flatMap fun
    | .lit c => [c]
    | .hole _ _ value => value

def holes (tokens : List Token) : List TemplateParameter := tokens.filterMap Token.parameter?

/-- Give the matches that pass a test their placeholders, in their own places. -/
def mark (kind : Kind) (test : List Char → Bool) : ℕ → List (Cell Token) → List Token
  | _, [] => []
  | count, .kept token :: cells => token :: mark kind test count cells
  | count, .found tokens :: cells =>
      if test (render tokens) then
        .hole kind count (spell tokens) :: mark kind test (count + 1) cells
      else tokens ++ mark kind test count cells

def priceCells (tokens : List Token) : List (Cell Token) :=
  cells (priceLength Token.char? classes) tokens

def numberCells (tokens : List Token) : List (Cell Token) :=
  cells (numberLength Token.char? classes) tokens

def quotedCells (tokens : List Token) : List (Cell Token) := cells (quotedLength Token.char?) tokens

def cutPrices (intent : List Char) : List Token :=
  mark .price (fun _ ↦ true) 0 (priceCells classes (intent.map .lit))

def cutNumbers (tokens : List Token) : List Token :=
  mark .num (notAfterBrace (render tokens)) (holes tokens).length (numberCells classes tokens)

def cutQuoted (tokens : List Token) : List Token :=
  mark .str (fun _ ↦ true) (holes tokens).length (quotedCells tokens)

def cut (intent : List Char) : List Token :=
  cutQuoted (cutNumbers classes (cutPrices classes intent))

/-! ## Texts of tokens -/

@[simp] theorem render_nil : render [] = [] := rfl

@[simp] theorem render_lit (c : Char) (tokens : List Token) :
    render (.lit c :: tokens) = c :: render tokens := rfl

@[simp] theorem render_hole (kind : Kind) (count : ℕ) (value : List Char) (tokens : List Token) :
    render (.hole kind count value :: tokens) = placeholder kind count ++ render tokens := rfl

theorem render_append (front back : List Token) :
    render (front ++ back) = render front ++ render back := List.flatMap_append

theorem spell_append (front back : List Token) :
    spell (front ++ back) = spell front ++ spell back := List.flatMap_append

theorem holes_append (front back : List Token) :
    holes (front ++ back) = holes front ++ holes back := List.filterMap_append

theorem render_map_lit (text : List Char) : render (text.map .lit) = text := by
  induction text with
  | nil => rfl
  | cons c text ih => exact congrArg _ ih

theorem spell_map_lit (text : List Char) : spell (text.map .lit) = text := by
  induction text with
  | nil => rfl
  | cons c text ih => exact congrArg _ ih

theorem holes_map_lit (text : List Char) : holes (text.map .lit) = [] := by
  induction text with
  | nil => rfl
  | cons c text ih => exact ih

/-- Marking does not change what tokens spell. -/
theorem spell_mark (kind : Kind) (test : List Char → Bool) (count : ℕ) (cells : List (Cell Token)) :
    spell (mark kind test count cells) = spell (cells.flatMap Cell.items) := by
  induction cells generalizing count with
  | nil => rfl
  | cons cell cells ih =>
    cases cell with
    | kept token =>
      have hsplit := spell_append [token] (mark kind test count cells)
      rw [mark, List.flatMap_cons, Cell.items, spell_append, ← ih]
      exact hsplit
    | found tokens =>
      rw [mark, List.flatMap_cons, Cell.items, spell_append]
      split
      · rw [← ih (count + 1)]
        rfl
      · rw [spell_append, ih]

theorem render_mark_kept (kind : Kind) (test : List Char → Bool) (count : ℕ) (token : Token)
    (cells : List (Cell Token)) : render (mark kind test count (.kept token :: cells)) =
      render [token] ++ render (mark kind test count cells) :=
  render_append [token] _

theorem render_mark_found (kind : Kind) (test : List Char → Bool) (count : ℕ) (tokens : List Token)
    (cells : List (Cell Token)) : render (mark kind test count (.found tokens :: cells)) =
      if test (render tokens) then
        placeholder kind count ++ render (mark kind test (count + 1) cells)
      else render tokens ++ render (mark kind test count cells) := by
  rw [mark]
  split
  · rfl
  · exact render_append tokens _

/-- The text that cells were found in. -/
theorem render_items_cons (cell : Cell Token) (cells : List (Cell Token)) :
    render ((cell :: cells).flatMap Cell.items) =
      render cell.items ++ render (cells.flatMap Cell.items) :=
  render_append cell.items _

/-! ## Placeholders -/

theorem placeholder_eq (kind : Kind) (count : ℕ) : placeholder kind count =
    '\x7b' :: (kind.stem.toList ++ Nat.toDigits 10 count) ++ ['\x7d'] := by
  have hdigits : (toString count).toList = Nat.toDigits 10 count := Nat.toList_repr
  simp only [placeholder, parameter, String.toList_append, hdigits]
  rfl

theorem placeholder_ne_nil (kind : Kind) (count : ℕ) : placeholder kind count ≠ [] := by
  rw [placeholder_eq]
  exact List.cons_ne_nil _ _

/-- Between its braces, a placeholder has letters, underscores and digits. -/
theorem isAlphanum_of_mem_placeholder {kind : Kind} {count : ℕ} {c : Char}
    (h : c ∈ kind.stem.toList ++ Nat.toDigits 10 count) : c.isAlphanum = true ∨ c = '_' := by
  rcases List.mem_append.mp h with hstem | hdigits
  · have hall : (kind.stem.toList.all fun c ↦ c.isAlphanum || c == '_') = true := by
      cases kind <;> rfl
    have hc := List.all_eq_true.mp hall c hstem
    rwa [Bool.or_eq_true, beq_iff_eq] at hc
  · left
    rw [Char.isAlphanum, Nat.isDigit_of_mem_toDigits (by decide) (by decide) hdigits, Bool.or_true]

/-- A test that braces, letters, digits and underscores pass is passed by placeholders. -/
theorem forall_mem_placeholder {p : Char → Prop} (hopen : p '\x7b') (hclose : p '\x7d')
    (hword : ∀ c : Char, c.isAlphanum = true ∨ c = '_' → p c) {kind : Kind} {count : ℕ} :
    ∀ c ∈ placeholder kind count, p c := by
  intro c hc
  rw [placeholder_eq, List.mem_append, List.mem_cons, List.mem_singleton] at hc
  rcases hc with (rfl | hinner) | rfl
  · exact hopen
  · exact hword c (isAlphanum_of_mem_placeholder hinner)
  · exact hclose

theorem isQuote_of_mem_placeholder {kind : Kind} {count : ℕ} :
    ∀ c ∈ placeholder kind count, isQuote c = false := by
  refine forall_mem_placeholder (by decide) (by decide) fun c hc ↦ ?_
  rw [isQuote, Bool.or_eq_false_iff, beq_eq_false_iff_ne, beq_eq_false_iff_ne]
  constructor <;> rintro rfl <;> revert hc <;> decide

/-! ## What matches consist of -/

section Matches

variable {τ : Type} {view : τ → Option Char} {classes : CharClasses}

theorem forall_mem_take_takeWhile (test : τ → Bool) (text : List τ) :
    ∀ item ∈ text.take (text.takeWhile test).length, test item = true := by
  rw [← List.prefix_iff_eq_take.mp (List.takeWhile_prefix test)]
  exact fun item hitem ↦ List.mem_takeWhile_imp hitem

theorem has_iff {test : Char → Bool} {item : τ} :
    has view test item = true ↔ ∃ c, view item = some c ∧ test c = true := by
  unfold has
  cases view item <;> simp

def CharClasses.numeric (classes : CharClasses) (c : Char) : Bool := classes.digit c || c == '.'

theorem has_numeric_of_digit {item : τ} (h : has view classes.digit item = true) :
    has view classes.numeric item = true := by
  obtain ⟨c, hview, hdigit⟩ := has_iff.mp h
  exact has_iff.mpr ⟨c, hview, by rw [CharClasses.numeric, hdigit, Bool.true_or]⟩

theorem has_numeric_of_dot {item : τ} (h : has view (· == '.') item = true) :
    has view classes.numeric item = true := by
  obtain ⟨c, hview, hdot⟩ := has_iff.mp h
  exact has_iff.mpr ⟨c, hview, by rw [CharClasses.numeric, hdot, Bool.or_true]⟩

theorem forall_mem_take_digits (text : List τ) :
    ∀ item ∈ text.take (digitsLength view classes text), has view classes.numeric item = true :=
  fun item hitem ↦ has_numeric_of_digit (forall_mem_take_takeWhile _ text item hitem)

theorem forall_mem_take_fraction (text : List τ) :
    ∀ item ∈ text.take (fractionLength view classes text),
      has view classes.numeric item = true := by
  cases text with
  | nil => exact fun item hitem ↦ absurd hitem (by simp)
  | cons first rest =>
    rw [fractionLength]
    split
    case isFalse => exact fun item hitem ↦ absurd hitem (by simp)
    case isTrue h =>
      rw [Nat.add_comm, List.take_succ_cons, List.forall_mem_cons]
      exact ⟨has_numeric_of_dot (Bool.and_eq_true_iff.mp h).1, forall_mem_take_digits rest⟩

theorem forall_mem_take_whole (text : List τ) :
    ∀ item ∈ text.take (digitsLength view classes text +
        fractionLength view classes (text.drop (digitsLength view classes text))),
      has view classes.numeric item = true := by
  intro item hitem
  rw [List.take_add, List.mem_append] at hitem
  exact hitem.elim (forall_mem_take_digits text item) (forall_mem_take_fraction _ item)

/-- Numbers consist of digits and points. -/
theorem forall_mem_take_number (previous : Option τ) (text : List τ) :
    ∀ item ∈ text.take (numberLength view classes previous text),
      has view classes.numeric item = true := by
  unfold numberLength
  dsimp only
  split
  case isTrue => exact fun item hitem ↦ absurd hitem (by simp)
  case isFalse =>
    split
    case isTrue => exact forall_mem_take_whole text
    case isFalse =>
      split
      case isTrue => exact forall_mem_take_digits text
      case isFalse => exact fun item hitem ↦ absurd hitem (by simp)

theorem digitsLength_le (text : List τ) : digitsLength view classes text ≤ text.length :=
  (List.takeWhile_prefix _).length_le

theorem fractionLength_le (text : List τ) : fractionLength view classes text ≤ text.length := by
  cases text with
  | nil => exact Nat.le_refl 0
  | cons item rest =>
    have hle : digitsLength view classes rest ≤ rest.length := digitsLength_le rest
    rw [fractionLength, List.length_cons]
    split <;> omega

theorem priceLength_le (previous : Option τ) (text : List τ) :
    priceLength view classes previous text ≤ text.length := by
  cases text with
  | nil => exact Nat.le_refl 0
  | cons item rest =>
    have hdigits : digitsLength view classes rest ≤ rest.length := digitsLength_le rest
    have hfraction := (List.length_drop ▸ fractionLength_le _ :
      fractionLength view classes (rest.drop (digitsLength view classes rest)) ≤
        rest.length - digitsLength view classes rest)
    unfold priceLength
    dsimp only
    rw [List.length_cons]
    split <;> omega

theorem numberLength_le (previous : Option τ) (text : List τ) :
    numberLength view classes previous text ≤ text.length := by
  have hdigits : digitsLength view classes text ≤ text.length := digitsLength_le text
  have hfraction := (List.length_drop ▸ fractionLength_le _ :
    fractionLength view classes (text.drop (digitsLength view classes text)) ≤
      text.length - digitsLength view classes text)
  unfold numberLength
  dsimp only
  split
  · exact Nat.zero_le _
  · split
    · omega
    · split <;> omega

theorem quotedLength_le (previous : Option τ) (text : List τ) :
    quotedLength view previous text ≤ text.length := by
  cases text with
  | nil => exact Nat.le_refl 0
  | cons item rest =>
    have hle : (rest.takeWhile fun other ↦ !has view isQuote other).length ≤ rest.length :=
      (List.takeWhile_prefix _).length_le
    unfold quotedLength
    dsimp only
    rw [List.length_cons]
    split
    case isTrue h =>
      simp only [Bool.and_eq_true, bne_iff_ne] at h
      omega
    case isFalse => exact Nat.zero_le _

end Matches

/-! ## Matches of texts and of tokens -/

@[simp] theorem has_some (test : Char → Bool) (c : Char) : has some test c = test c := rfl

@[simp] theorem has_lit (test : Char → Bool) (c : Char) :
    has Token.char? test (.lit c) = test c := rfl

@[simp] theorem has_hole (test : Char → Bool) (kind : Kind) (count : ℕ) (value : List Char) :
    has Token.char? test (.hole kind count value) = false := rfl

/-- A placeholder begins with a brace. -/
theorem exists_placeholder_eq (kind : Kind) (count : ℕ) :
    ∃ rest, placeholder kind count = '\x7b' :: rest :=
  ⟨_, placeholder_eq kind count⟩

theorem exists_render_eq_cons {tokens : List Token} (h : tokens ≠ []) :
    ∃ c rest, render tokens = c :: rest := by
  cases tokens with
  | nil => exact absurd rfl h
  | cons token tokens =>
    cases token with
    | lit c => exact ⟨c, render tokens, rfl⟩
    | hole kind count value =>
      obtain ⟨rest, hrest⟩ := exists_placeholder_eq kind count
      exact ⟨'\x7b', rest ++ render tokens, by rw [render_hole, hrest, List.cons_append]⟩

def renderCell : Cell Token → List (Cell Char)
  | .kept token => (render [token]).map .kept
  | .found tokens => [.found (render tokens)]

theorem matchesOf_flatMap_renderCell (cells : List (Cell Token)) :
    matchesOf (cells.flatMap renderCell) = (matchesOf cells).map render := by
  induction cells with
  | nil => rfl
  | cons cell cells ih =>
    rw [List.flatMap_cons, matchesOf_append, ih]
    cases cell with
    | kept token => rw [renderCell, matchesOf_map_kept, matchesOf_kept, List.nil_append]
    | found tokens => rfl

/-- An expression has the same matches in tokens and in their text, where `related` says what it can
see of the item before a place. -/
structure Agrees (ofTokens : Option Token → List Token → ℕ) (ofText : Option Char → List Char → ℕ)
    (related : Option Token → Option Char → Prop) : Prop where
  kept : ∀ previous before token tokens, related previous before →
    ofTokens previous (token :: tokens) = 0 → ∀ front c back, render [token] = front ++ c :: back →
    ofText (front.getLast?.or before) (c :: back ++ render tokens) = 0
  found : ∀ previous before items tokens, related previous before → items ≠ [] →
    ofTokens previous (items ++ tokens) = items.length →
    ofText before (render items ++ render tokens) = (render items).length
  last : ∀ token, related (some token) (render [token]).getLast?

theorem Agrees.related_last {ofTokens : Option Token → List Token → ℕ}
    {ofText : Option Char → List Char → ℕ} {related : Option Token → Option Char → Prop}
    (h : Agrees ofTokens ofText related) {items : List Token} (hne : items ≠ []) :
    related items.getLast? (render items).getLast? := by
  induction items using List.reverseRecOn with
  | nil => exact absurd rfl hne
  | append_singleton items token _ =>
    obtain ⟨c, rest, hrender⟩ := exists_render_eq_cons (List.cons_ne_nil token [])
    rw [List.getLast?_concat, render_append, List.getLast?_append_of_ne_nil _
      (hrender ▸ List.cons_ne_nil c rest)]
    exact h.last token

theorem Agrees.scan {ofTokens : Option Token → List Token → ℕ}
    {ofText : Option Char → List Char → ℕ} {related : Option Token → Option Char → Prop}
    (h : Agrees ofTokens ofText related) {previous : Option Token} {tokens : List Token}
    {cells : List (Cell Token)} (hscan : Scan ofTokens previous tokens cells) {before : Option Char}
    (hrelated : related previous before) :
    Scan ofText before (render tokens) (cells.flatMap renderCell) := by
  induction hscan generalizing before with
  | nil => exact .nil
  | @kept previous token rest cells hlength _ ih =>
    have hsplit : render (token :: rest) = render [token] ++ render rest :=
      render_append [token] rest
    have hlast : (render [token]).getLast?.or before = (render [token]).getLast? := by
      obtain ⟨c, text, hrender⟩ := exists_render_eq_cons (List.cons_ne_nil token [])
      rw [hrender, List.getLast?_cons]
      rfl
    rw [hsplit, List.flatMap_cons]
    refine Scan.kept_append (h.kept previous before token rest hrelated hlength) ?_
    rw [hlast]
    exact ih (h.last token)
  | @found previous items rest cells hne hlength _ ih =>
    obtain ⟨c, text, hrender⟩ := exists_render_eq_cons hne
    rw [render_append, List.flatMap_cons]
    refine .found (hrender ▸ List.cons_ne_nil c text) ?_ (ih (h.related_last hne))
    exact h.found previous before items rest hrelated hne hlength

/-- The matches of a text are those of its tokens. -/
theorem Agrees.matchesOf_render {ofTokens : Option Token → List Token → ℕ}
    {ofText : Option Char → List Char → ℕ} {related : Option Token → Option Char → Prop}
    (h : Agrees ofTokens ofText related) (hnone : related none none)
    (hle : ∀ previous text, ofTokens previous text ≤ text.length) (tokens : List Token) :
    matchesOf (cells ofText (render tokens)) = (matchesOf (cells ofTokens tokens)).map render := by
  have hscan := h.scan (scan_cellsFrom hle none tokens) hnone
  rw [cells, hscan.eq_cellsFrom, matchesOf_flatMap_renderCell, cells]

section Agreement

variable {classes : CharClasses}

theorem digit_brace : classes.digit '\x7b' = false := by
  rw [classes.digit_ascii _ (by decide)]
  decide

theorem word_brace : classes.word '\x7b' = false := by
  rw [classes.word_ascii _ (by decide)]
  decide

/-- The items at the start of tokens that pass a test are those at the start of their text, if
placeholders pass it or fail it at once. -/
theorem takeWhile_render {test : Char → Bool} {testToken : Token → Bool}
    (hlit : ∀ c, testToken (.lit c) = test c)
    (hhole : ∀ kind count value, (testToken (.hole kind count value) = true ∧
        ∀ c ∈ placeholder kind count, test c = true) ∨
      testToken (.hole kind count value) = false ∧ test '\x7b' = false) (tokens : List Token) :
    (render tokens).takeWhile test = render (tokens.takeWhile testToken) := by
  induction tokens with
  | nil => rfl
  | cons token tokens ih =>
    cases token with
    | lit c =>
      rw [render_lit, List.takeWhile_cons, List.takeWhile_cons, hlit, ih]
      split <;> rfl
    | hole kind count value =>
      rw [render_hole, List.takeWhile_cons]
      rcases hhole kind count value with ⟨hpass, hall⟩ | ⟨hfail, hbrace⟩
      · rw [List.takeWhile_append_of_pos hall, hpass, if_pos rfl, render_hole, ih]
      · obtain ⟨rest, hrest⟩ := exists_placeholder_eq kind count
        rw [hrest, List.cons_append, List.takeWhile_cons, hbrace, hfail]
        rfl

def Literal (tokens : List Token) : Prop := ∀ token ∈ tokens, ∃ c, token.char? = some c

theorem length_render_of_literal {tokens : List Token} (h : Literal tokens) :
    (render tokens).length = tokens.length := by
  induction tokens with
  | nil => rfl
  | cons token tokens ih =>
    obtain ⟨hfirst, hrest⟩ := List.forall_mem_cons.mp h
    cases token with
    | lit c => exact congrArg (· + 1) (ih hrest)
    | hole kind count value =>
      obtain ⟨c, hc⟩ := hfirst
      cases hc

theorem drop_render {count : ℕ} {tokens : List Token} (h : Literal (tokens.take count)) :
    (render tokens).drop count = render (tokens.drop count) := by
  rcases Nat.le_total tokens.length count with hle | hle
  · rw [List.take_of_length_le hle] at h
    rw [List.drop_of_length_le hle, List.drop_of_length_le (length_render_of_literal h ▸ hle)]
    rfl
  · have hlength : (render (tokens.take count)).length = count := by
      rw [length_render_of_literal h, List.length_take_of_le hle]
    calc (render tokens).drop count
        = (render (tokens.take count) ++ render (tokens.drop count)).drop count := by
          rw [← render_append, List.take_append_drop]
      _ = render (tokens.drop count) := by rw [List.drop_append_of_le_length (Nat.le_of_eq
          hlength.symm), List.drop_of_length_le (Nat.le_of_eq hlength), List.nil_append]

theorem literal_of_has {test : Char → Bool} {tokens : List Token}
    (h : ∀ token ∈ tokens, has Token.char? test token = true) : Literal tokens := by
  intro token htoken
  obtain ⟨c, hc, -⟩ := has_iff.mp (h token htoken)
  exact ⟨c, hc⟩

theorem digitsLength_render (tokens : List Token) :
    digitsLength some classes (render tokens) = digitsLength Token.char? classes tokens := by
  have htake := takeWhile_render (has_lit classes.digit)
    (fun kind count value ↦ .inr ⟨has_hole classes.digit kind count value, digit_brace⟩) tokens
  have hliteral : Literal (tokens.takeWhile (has Token.char? classes.digit)) :=
    literal_of_has fun token htoken ↦ List.mem_takeWhile_imp htoken
  calc digitsLength some classes (render tokens)
      = (render (tokens.takeWhile (has Token.char? classes.digit))).length :=
        congrArg List.length htake
    _ = digitsLength Token.char? classes tokens := length_render_of_literal hliteral

theorem fractionLength_render (tokens : List Token) :
    fractionLength some classes (render tokens) = fractionLength Token.char? classes tokens := by
  cases tokens with
  | nil => rfl
  | cons token tokens =>
    cases token with
    | lit c =>
      rw [render_lit, fractionLength, fractionLength, digitsLength_render, has_some, has_lit]
    | hole kind count value =>
      obtain ⟨rest, hrest⟩ := exists_placeholder_eq kind count
      rw [render_hole, hrest, List.cons_append, fractionLength, fractionLength, has_hole]
      rfl

theorem boundary_render (tokens : List Token) :
    boundary some classes (render tokens) = boundary Token.char? classes tokens := by
  cases tokens with
  | nil => rfl
  | cons token tokens =>
    cases token with
    | lit c => rfl
    | hole kind count value =>
      obtain ⟨rest, hrest⟩ := exists_placeholder_eq kind count
      rw [render_hole, hrest, List.cons_append, boundary, boundary, has_hole, has_some, word_brace]

theorem numberLength_render {previous : Option Token} {before : Option Char}
    (hrelated : previous.any (has Token.char? classes.word) = before.any (has some classes.word))
    (tokens : List Token) : numberLength some classes before (render tokens) =
      numberLength Token.char? classes previous tokens := by
  have hdigits : (render tokens).drop (digitsLength Token.char? classes tokens) =
      render (tokens.drop (digitsLength Token.char? classes tokens)) :=
    drop_render (literal_of_has (forall_mem_take_digits tokens))
  have hwhole := drop_render (literal_of_has (forall_mem_take_whole tokens :
    ∀ token ∈ tokens.take _, has Token.char? classes.numeric token = true))
  unfold numberLength
  dsimp only
  rw [digitsLength_render, hdigits, fractionLength_render, hwhole, boundary_render, boundary_render,
    hrelated]

theorem toNat_lt_of_isAlphanum {c : Char} (h : c.isAlphanum = true) : c.toNat < 128 := by
  have hascii : ∀ {last : Char}, c.val ≤ last.val → last.val.toNat < 128 → c.toNat < 128 :=
    fun hle hlast ↦ Nat.lt_of_le_of_lt (UInt32.le_iff_toNat_le.mp hle) hlast
  rcases Bool.or_eq_true_iff.mp h with hletter | hdigit
  · rcases Bool.or_eq_true_iff.mp hletter with hupper | hlower
    · exact hascii (of_decide_eq_true hupper).2 (by decide)
    · exact hascii (of_decide_eq_true (Bool.and_eq_true_iff.mp hlower).2) (by decide)
  · exact hascii (of_decide_eq_true (Bool.and_eq_true_iff.mp hdigit).2) (by decide)

/-- No number begins inside a placeholder: what is not the first character of its name stands after
a character of its name. -/
theorem digit_or_word_of_placeholder {kind : Kind} {count : ℕ} {front back : List Char} {c : Char}
    (h : placeholder kind count = front ++ c :: back) :
    classes.digit c = false ∨ ∃ d, front.getLast? = some d ∧ classes.word d = true := by
  rw [placeholder_eq, List.cons_append] at h
  induction front using List.reverseRecOn with
  | nil =>
    left
    rw [← (List.cons.inj h).1]
    exact digit_brace
  | append_singleton front d _ =>
    cases front with
    | nil =>
      left
      obtain ⟨-, hinner⟩ := List.cons.inj h
      have hletter : c = 'p' ∨ c = 'n' ∨ c = 's' := by
        cases kind
        · exact .inl (List.cons.inj hinner).1.symm
        · exact .inr (.inl (List.cons.inj hinner).1.symm)
        · exact .inr (.inr (List.cons.inj hinner).1.symm)
      rcases hletter with rfl | rfl | rfl <;> exact classes.digit_ascii _ (by decide)
    | cons first front =>
      right
      refine ⟨d, List.getLast?_concat .., ?_⟩
      obtain ⟨-, hinner⟩ := List.cons.inj h
      have hstarts : front ++ [d] <+: (kind.stem.toList ++ Nat.toDigits 10 count) ++ ['\x7d'] :=
        ⟨c :: back, hinner.symm⟩
      have hlength : (front ++ [d] ++ c :: back).length =
          (kind.stem.toList ++ Nat.toDigits 10 count ++ ['\x7d']).length :=
        congrArg List.length hinner.symm
      simp only [List.length_append, List.length_cons, List.length_nil] at hlength
      have hmem : d ∈ kind.stem.toList ++ Nat.toDigits 10 count := by
        have hpart := List.prefix_of_prefix_length_le hstarts (List.prefix_append _ _)
          (by simp only [List.length_append, List.length_cons, List.length_nil]; omega)
        exact hpart.subset (List.mem_append_right front List.mem_cons_self)
      rcases isAlphanum_of_mem_placeholder hmem with halnum | rfl
      · rw [classes.word_ascii d (toNat_lt_of_isAlphanum halnum), halnum, Bool.true_or]
      · rw [classes.word_ascii _ (by decide)]
        decide

/-- Where a text does not begin with a digit, or stands after a character of a word, it does not
begin with a number. -/
theorem numberLength_eq_zero {before : Option Char} {c : Char}
    (h : classes.digit c = false ∨ ∃ d, before = some d ∧ classes.word d = true)
    (rest : List Char) : numberLength some classes before (c :: rest) = 0 := by
  unfold numberLength
  dsimp only
  rw [if_pos]
  rcases h with hdigit | ⟨d, rfl, hword⟩
  · have hnone : digitsLength some classes (c :: rest) = 0 := by
      rw [digitsLength, List.takeWhile_cons, has_some, hdigit]
      rfl
    rw [hnone, beq_self_eq_true, Bool.or_true]
  · rw [Option.any_some, has_some, hword, Bool.true_or]

theorem eq_of_render_lit {front back : List Char} {c d : Char}
    (h : render [.lit d] = front ++ c :: back) : front = [] ∧ c = d ∧ back = [] := by
  cases front with
  | nil =>
    obtain ⟨rfl, rfl⟩ := List.cons.inj h
    exact ⟨rfl, rfl, rfl⟩
  | cons first front =>
    have hlength := congrArg List.length h
    simp [render] at hlength

theorem literal_of_numberLength {previous : Option Token} {items rest : List Token}
    (h : numberLength Token.char? classes previous (items ++ rest) = items.length) :
    Literal items := by
  have hnumeric : ∀ token ∈ (items ++ rest).take
      (numberLength Token.char? classes previous (items ++ rest)),
      has Token.char? classes.numeric token = true :=
    forall_mem_take_number previous (items ++ rest)
  rw [h, List.take_left] at hnumeric
  exact literal_of_has hnumeric

theorem agrees_number : Agrees (numberLength Token.char? classes) (numberLength some classes)
    fun previous before ↦
      previous.any (has Token.char? classes.word) = before.any (has some classes.word) where
  kept := fun previous before token tokens hrelated hzero front c back hsplit ↦ by
    cases token with
    | lit d =>
      obtain ⟨rfl, rfl, rfl⟩ := eq_of_render_lit hsplit
      exact (numberLength_render hrelated (.lit c :: tokens)).trans hzero
    | hole kind count value =>
      rw [render_hole, render_nil, List.append_nil] at hsplit
      rw [List.cons_append]
      refine numberLength_eq_zero ((digit_or_word_of_placeholder hsplit).imp_right ?_) _
      rintro ⟨d, hlast, hword⟩
      exact ⟨d, by rw [hlast, Option.some_or], hword⟩
  found := fun previous before items tokens hrelated _ hlength ↦ by
    rw [← render_append, numberLength_render hrelated, hlength,
      length_render_of_literal (literal_of_numberLength hlength)]
  last := fun token ↦ by
    cases token with
    | lit c => rfl
    | hole kind count value =>
      have hlast : (render [.hole kind count value]).getLast? = some '\x7d' := by
        rw [render_hole, render_nil, List.append_nil, placeholder_eq, List.getLast?_concat]
      rw [hlast, Option.any_some, Option.any_some, has_hole, has_some,
        classes.word_ascii _ (by decide)]
      decide

theorem priceLength_render (previous : Option Token) (before : Option Char) (tokens : List Token) :
    priceLength some classes before (render tokens) =
      priceLength Token.char? classes previous tokens := by
  cases tokens with
  | nil => rfl
  | cons token tokens =>
    cases token with
    | lit c =>
      have hdigits : (render tokens).drop (digitsLength Token.char? classes tokens) =
          render (tokens.drop (digitsLength Token.char? classes tokens)) :=
        drop_render (literal_of_has (forall_mem_take_digits tokens))
      rw [render_lit, priceLength, priceLength, digitsLength_render, hdigits, fractionLength_render,
        has_some, has_lit]
    | hole kind count value =>
      obtain ⟨rest, hrest⟩ := exists_placeholder_eq kind count
      rw [render_hole, hrest, List.cons_append, priceLength, priceLength, has_hole]
      rfl

/-- A price is a dollar sign with digits and points. -/
theorem forall_mem_take_price (previous : Option Token) (tokens : List Token) :
    ∀ token ∈ tokens.take (priceLength Token.char? classes previous tokens),
      has Token.char? (fun c ↦ classes.numeric c || c == '$') token = true := by
  cases tokens with
  | nil => exact fun token htoken ↦ absurd htoken (by simp)
  | cons first tokens =>
    unfold priceLength
    dsimp only
    split
    case isFalse => exact fun token htoken ↦ absurd htoken (by simp)
    case isTrue h =>
      rw [Nat.add_assoc, Nat.add_comm, List.take_succ_cons, List.forall_mem_cons]
      constructor
      · obtain ⟨c, hview, hdollar⟩ := has_iff.mp (Bool.and_eq_true_iff.mp h).1
        exact has_iff.mpr ⟨c, hview, by rw [hdollar, Bool.or_true]⟩
      · intro token htoken
        obtain ⟨c, hview, hnumeric⟩ := has_iff.mp (forall_mem_take_whole tokens token htoken)
        exact has_iff.mpr ⟨c, hview, by rw [hnumeric, Bool.true_or]⟩

theorem literal_of_priceLength {previous : Option Token} {items rest : List Token}
    (h : priceLength Token.char? classes previous (items ++ rest) = items.length) :
    Literal items := by
  have hprice : ∀ token ∈ (items ++ rest).take
      (priceLength Token.char? classes previous (items ++ rest)),
      has Token.char? (fun c ↦ classes.numeric c || c == '$') token = true :=
    forall_mem_take_price previous (items ++ rest)
  rw [h, List.take_left] at hprice
  exact literal_of_has hprice

theorem agrees_price : Agrees (priceLength Token.char? classes) (priceLength some classes)
    fun _ _ ↦ True where
  kept := fun previous before token tokens _ hzero front c back hsplit ↦ by
    cases token with
    | lit d =>
      obtain ⟨rfl, rfl, rfl⟩ := eq_of_render_lit hsplit
      exact (priceLength_render previous _ (.lit c :: tokens)).trans hzero
    | hole kind count value =>
      have hdollar : (c == '$') = false := by
        have hnone : ∀ c ∈ placeholder kind count, (c == '$') = false :=
          forall_mem_placeholder (by decide) (by decide) fun c hc ↦ by
            rw [beq_eq_false_iff_ne]
            rintro rfl
            revert hc
            decide
        refine hnone c ?_
        rw [← List.append_nil (placeholder kind count), ← render_nil, ← render_hole, hsplit]
        exact List.mem_append_right front List.mem_cons_self
      rw [List.cons_append, priceLength, has_some, hdollar]
      rfl
  found := fun previous before items tokens _ _ hlength ↦ by
    rw [← render_append, priceLength_render previous, hlength,
      length_render_of_literal (literal_of_priceLength hlength)]
  last := fun _ ↦ trivial

end Agreement

/-! ## Quoted strings -/

/-- Two quotes with something between them that has no quotes. -/
def IsQuoted {τ : Type} (view : τ → Option Char) (items : List τ) : Prop :=
  ∃ opening inner closing, items = opening :: (inner ++ [closing]) ∧
    has view isQuote opening = true ∧ inner ≠ [] ∧ (∀ item ∈ inner, has view isQuote item = false) ∧
    has view isQuote closing = true

section Quoted

variable {τ : Type} {view : τ → Option Char}

/-- A text has no quotes, or a first one. -/
theorem exists_quote_or (text : List τ) : (∀ item ∈ text, has view isQuote item = false) ∨
    ∃ inner closing rest, text = inner ++ closing :: rest ∧
      (∀ item ∈ inner, has view isQuote item = false) ∧ has view isQuote closing = true := by
  induction text with
  | nil => exact .inl fun item hitem ↦ absurd hitem List.not_mem_nil
  | cons item text ih =>
    cases hitem : has view isQuote item with
    | true => exact .inr ⟨[], item, text, rfl, fun _ h ↦ absurd h List.not_mem_nil, hitem⟩
    | false =>
      rcases ih with hnone | ⟨inner, closing, rest, rfl, hinner, hclosing⟩
      · exact .inl (List.forall_mem_cons.mpr ⟨hitem, hnone⟩)
      · exact .inr ⟨item :: inner, closing, rest, rfl, List.forall_mem_cons.mpr ⟨hitem, hinner⟩,
          hclosing⟩

theorem takeWhile_inner {inner : List τ} (hinner : ∀ item ∈ inner, has view isQuote item = false) :
    (inner.takeWhile fun other ↦ !has view isQuote other) = inner := by
  rw [List.takeWhile_eq_self_iff]
  exact fun item hitem ↦ by rw [hinner item hitem]; rfl

theorem takeWhile_inner_append {inner rest : List τ} {closing : τ}
    (hinner : ∀ item ∈ inner, has view isQuote item = false)
    (hclosing : has view isQuote closing = true) :
    ((inner ++ closing :: rest).takeWhile fun other ↦ !has view isQuote other) = inner := by
  rw [List.takeWhile_append_of_pos fun item hitem ↦ by rw [hinner item hitem]; rfl,
    List.takeWhile_cons, hclosing]
  exact List.append_nil inner

theorem IsQuoted.quotedLength {items : List τ} (h : IsQuoted view items) (previous : Option τ)
    (rest : List τ) : quotedLength view previous (items ++ rest) = items.length := by
  obtain ⟨opening, inner, closing, rfl, hopening, hne, hinner, hclosing⟩ := h
  have hpos := List.length_pos_of_ne_nil hne
  rw [List.cons_append, List.append_assoc, List.singleton_append, TemplateExtractor.quotedLength,
    takeWhile_inner_append hinner hclosing, hopening, if_pos]
  · simp
  · simp only [Bool.true_and, Bool.and_eq_true, bne_iff_ne, List.length_append, List.length_cons]
    omega

/-- What the expression finds is quoted. -/
theorem exists_isQuoted {previous : Option τ} {text : List τ}
    (h : quotedLength view previous text ≠ 0) :
    ∃ items rest, text = items ++ rest ∧ IsQuoted view items := by
  cases text with
  | nil => exact absurd rfl h
  | cons opening text =>
    rw [quotedLength] at h
    split at h
    case isFalse => exact absurd rfl h
    case isTrue hquoted =>
      simp only [Bool.and_eq_true, bne_iff_ne] at hquoted
      obtain ⟨⟨hopening, hpos⟩, hlength⟩ := hquoted
      rcases exists_quote_or text with hnone | ⟨inner, closing, rest, rfl, hinner, hclosing⟩
      · exact absurd (congrArg List.length (takeWhile_inner hnone)) hlength
      · rw [takeWhile_inner_append hinner hclosing] at hpos
        refine ⟨opening :: (inner ++ [closing]), rest, by simp, opening, inner, closing, rfl,
          hopening, ?_, hinner, hclosing⟩
        exact List.ne_nil_of_length_pos (Nat.pos_of_ne_zero hpos)

/-- Quoted items at the start of a text are a match, and there is no other. -/
theorem isQuoted_of_quotedLength {previous : Option τ} {items rest : List τ} (hne : items ≠ [])
    (h : quotedLength view previous (items ++ rest) = items.length) : IsQuoted view items := by
  have hpos : quotedLength view previous (items ++ rest) ≠ 0 :=
    h ▸ Nat.ne_of_gt (List.length_pos_of_ne_nil hne)
  obtain ⟨found, other, heq, hquoted⟩ := exists_isQuoted hpos
  rw [heq, hquoted.quotedLength] at h
  obtain ⟨rfl, -⟩ := List.append_inj heq h.symm
  exact hquoted

end Quoted

theorem isQuoted_render {items : List Token} (h : IsQuoted Token.char? items) :
    IsQuoted some (render items) := by
  have hquote : ∀ token, has Token.char? isQuote token = true →
      ∃ c, token = .lit c ∧ isQuote c = true := by
    intro token htoken
    cases token with
    | lit c => exact ⟨c, rfl, htoken⟩
    | hole kind count value => cases htoken
  obtain ⟨opening, inner, closing, rfl, hopening, hne, hinner, hclosing⟩ := h
  obtain ⟨c, rfl, hc⟩ := hquote opening hopening
  obtain ⟨d, rfl, hd⟩ := hquote closing hclosing
  obtain ⟨first, rest, hrender⟩ := exists_render_eq_cons hne
  refine ⟨c, render inner, d, by rw [render_lit, render_append]; rfl, hc,
    hrender ▸ List.cons_ne_nil first rest, fun other hother ↦ ?_, hd⟩
  obtain ⟨token, htoken, hmem⟩ := List.mem_flatMap.mp hother
  cases token with
  | lit e =>
    rw [List.mem_singleton.mp hmem]
    exact hinner (.lit e) htoken
  | hole kind count value => exact isQuote_of_mem_placeholder other hmem

theorem agrees_quoted : Agrees (quotedLength Token.char?) (quotedLength some)
    fun _ _ ↦ True where
  kept := fun previous before token tokens _ hzero front c back hsplit ↦ by
    cases token with
    | lit d =>
      obtain ⟨rfl, rfl, rfl⟩ := eq_of_render_lit hsplit
      have hinner : (render tokens).takeWhile (fun other ↦ !has some isQuote other) =
          render (tokens.takeWhile fun other ↦ !has Token.char? isQuote other) := by
        apply takeWhile_render
        · exact fun _ ↦ rfl
        · refine fun kind count value ↦ .inl ⟨rfl, fun c hc ↦ ?_⟩
          rw [has_some, isQuote_of_mem_placeholder c hc]
          rfl
      rw [List.singleton_append, quotedLength, hinner, ite_eq_right_iff]
      intro hquoted
      simp only [Bool.and_eq_true, bne_iff_ne] at hquoted
      obtain ⟨⟨hopening, hpos⟩, hlength⟩ := hquoted
      have hpos' : (tokens.takeWhile fun other ↦ !has Token.char? isQuote other).length ≠ 0 :=
        fun hnil ↦ hpos (by rw [List.eq_nil_of_length_eq_zero hnil]; rfl)
      have hlength' : (tokens.takeWhile fun other ↦ !has Token.char? isQuote other).length ≠
          tokens.length := fun heq ↦ hlength (by
        rw [(List.takeWhile_prefix _).eq_of_length heq])
      rw [quotedLength, if_pos] at hzero
      · cases hzero
      · simp only [Bool.and_eq_true, bne_iff_ne]
        exact ⟨⟨hopening, hpos'⟩, hlength'⟩
    | hole kind count value =>
      have hquote : isQuote c = false := by
        have hmem : c ∈ placeholder kind count := by
          rw [← List.append_nil (placeholder kind count), ← render_nil, ← render_hole, hsplit]
          exact List.mem_append_right front List.mem_cons_self
        exact isQuote_of_mem_placeholder c hmem
      rw [List.cons_append, quotedLength, has_some, hquote]
      rfl
  found := fun previous before items tokens _ hne hlength ↦
    (isQuoted_render (isQuoted_of_quotedLength hne hlength)).quotedLength before (render tokens)
  last := fun _ ↦ trivial

end MongoCore.Compiled.TemplateExtractor
