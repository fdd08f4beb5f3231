import MongoCore.Ingestion.Transform
import MongoCore.Library.Precedence

/-!
# Computed columns

The expression of a computed column is cut into words at the bytes of the four operators.  The words
are joined from the left, an operator and an operand at a time.  The precedences play no part, a
leading minus is taken for an operand, and a word that is left over at the end is dropped.

The results say which expressions are nevertheless read as they are meant, and which of the other
texts are rejected.
-/

namespace MongoCore.Ingestion.Transform

open MongoCore.Library MongoCore.Library.ByteText MongoCore.Operations.Placeholders
open String (utf8Len utf8Len_append utf8Len_nil)

/-! ## Words -/

def isOperator (c : Char) : Bool := c == '+' || c == '-' || c == '*' || c == '/'

/-- What stands between two operators is a word if it is not empty. -/
def pieceWords (piece : List Char) : List (List Char) := if piece = [] then [] else [trim piece]

/-- The words of a text behind a piece that has no operator. -/
def wordsFrom (piece : List Char) : List Char → List (List Char)
  | [] => pieceWords piece
  | c :: text =>
      if isOperator c then pieceWords piece ++ [c] :: wordsFrom [] text
      else wordsFrom (piece ++ [c]) text

/-- The operators of a text and what stands between them, in order. -/
def words (text : List Char) : List (List Char) := wordsFrom [] text

theorem wordsFrom_append {piece front : List Char} (hfront : ∀ c ∈ front, isOperator c = false)
    (text : List Char) : wordsFrom piece (front ++ text) = wordsFrom (piece ++ front) text := by
  induction front generalizing piece with
  | nil => rw [List.nil_append, List.append_nil]
  | cons c front ih =>
    obtain ⟨hc, hrest⟩ := List.forall_mem_cons.mp hfront
    rw [List.cons_append, wordsFrom, if_neg (by simp [hc]), ih hrest, List.append_assoc,
      List.singleton_append]

theorem words_of_forall {piece : List Char} (hpiece : ∀ c ∈ piece, isOperator c = false) :
    words piece = pieceWords piece := by
  rw [words, ← List.append_nil piece, wordsFrom_append hpiece, wordsFrom, List.nil_append,
    List.append_nil]

/-- The words before and behind an operator. -/
theorem words_append_cons {piece : List Char} (hpiece : ∀ c ∈ piece, isOperator c = false) {c : Char}
    (hc : isOperator c = true) (text : List Char) :
    words (piece ++ c :: text) = pieceWords piece ++ [c] :: words text := by
  rw [words, wordsFrom_append hpiece, wordsFrom, if_pos hc, List.nil_append, words]

/-! ## The tokens -/

/-- The bytes of a character that is no operator are no operators. -/
theorem isOperatorByte_of_mem_utf8EncodeChar {c : Char} (hc : isOperator c = false) {b : UInt8}
    (hb : b ∈ String.utf8EncodeChar c) : isOperatorByte b = false := by
  by_cases hascii : c.toNat < 128
  · rw [utf8EncodeChar_of_lt hascii, List.mem_singleton] at hb
    have hval : b.toNat = c.toNat := by
      rw [hb]
      exact Nat.mod_eq_of_lt (by omega)
    have hbyte (other : Char) (hne : c ≠ other) : b ≠ other.toNat.toUInt8 ∨ 128 ≤ other.toNat := by
      by_contra hcontra
      obtain ⟨hsame, hother⟩ := not_or.mp hcontra
      have hsame := congrArg UInt8.toNat (not_not.mp hsame)
      have hmod : (other.toNat.toUInt8).toNat = other.toNat := Nat.mod_eq_of_lt (by omega)
      exact hne (Char.toNat_inj.mp (by omega))
    simp only [isOperator, Bool.or_eq_false_iff, beq_eq_false_iff_ne] at hc
    obtain ⟨⟨⟨hplus, hminus⟩, hstar⟩, hslash⟩ := hc
    have hplus := (hbyte '+' hplus).resolve_right (by decide)
    have hminus := (hbyte '-' hminus).resolve_right (by decide)
    have hstar := (hbyte '*' hstar).resolve_right (by decide)
    have hslash := (hbyte '/' hslash).resolve_right (by decide)
    simp only [isOperatorByte, Bool.or_eq_false_iff, beq_eq_false_iff_ne]
    exact ⟨⟨⟨hplus, hminus⟩, hstar⟩, hslash⟩
  · have hle := le_of_mem_utf8EncodeChar hascii hb
    have hne (other : UInt8) (hother : other.toNat < 128) : b ≠ other := by
      rintro rfl
      omega
    simp only [isOperatorByte, Bool.or_eq_false_iff, beq_eq_false_iff_ne]
    exact ⟨⟨⟨hne 43 (by decide), hne 45 (by decide)⟩, hne 42 (by decide)⟩, hne 47 (by decide)⟩

/-- An operator is one byte. -/
theorem utf8EncodeChar_of_isOperator {c : Char} (hc : isOperator c = true) :
    ∃ b, String.utf8EncodeChar c = [b] ∧ isOperatorByte b = true ∧ utf8Len [c] = 1 := by
  simp only [isOperator, Bool.or_eq_true, beq_iff_eq] at hc
  rcases hc with ((rfl | rfl) | rfl) | rfl
  · exact ⟨43, by decide⟩
  · exact ⟨45, by decide⟩
  · exact ⟨42, by decide⟩
  · exact ⟨47, by decide⟩

/-- Bytes that are no operators are passed over. -/
theorem tokenizeFrom_append (expr : List Char) {front : List UInt8}
    (hfront : ∀ b ∈ front, isOperatorByte b = false) (rest : List UInt8) (i last : ℕ)
    (tokens : List (List Char)) :
    tokenizeFrom expr (front ++ rest) i last tokens =
      tokenizeFrom expr rest (i + front.length) last tokens := by
  induction front generalizing i with
  | nil => rfl
  | cons b front ih =>
    obtain ⟨hb, hrest⟩ := List.forall_mem_cons.mp hfront
    rw [List.cons_append, tokenizeFrom, if_neg (by simp [hb]), ih hrest, List.length_cons]
    congr 1
    omega

theorem pieceTokens_append (front piece back : List Char) :
    pieceTokens (front ++ piece ++ back) (utf8Len front) (utf8Len (front ++ piece)) =
      some (pieceWords piece) := by
  rw [pieceTokens, pieceWords, utf8Len_append, slice_append]
  cases piece with
  | nil => simp
  | cons c piece =>
    have hpos := c.utf8Size_pos
    have hsize : utf8Len front < utf8Len front + utf8Len (c :: piece) := by
      rw [String.utf8Len_cons]
      omega
    rw [if_pos hsize, if_neg (List.cons_ne_nil c piece), Option.map_some]

/-- From behind an operator and a piece without operators, the loop finds the words that are left. -/
theorem tokenizeFrom_eq_some {expr front piece rest : List Char}
    (hexpr : expr = front ++ piece ++ rest) (tokens : List (List Char)) :
    ∃ last found pieces,
      tokenizeFrom expr (bytes rest) (utf8Len (front ++ piece)) (utf8Len front) tokens =
          some (last, found) ∧
        pieceTokens expr last (utf8Len expr) = some pieces ∧
        found ++ pieces = tokens ++ wordsFrom piece rest := by
  induction rest generalizing front piece tokens with
  | nil =>
    have hpieces := pieceTokens_append front piece []
    rw [← hexpr, ← List.append_nil (front ++ piece), ← hexpr] at hpieces
    exact ⟨_, _, _, rfl, hpieces, rfl⟩
  | cons c rest ih =>
    rw [bytes_cons, wordsFrom]
    by_cases hc : isOperator c = true
    · obtain ⟨b, hbytes, hb, hsize⟩ := utf8EncodeChar_of_isOperator hc
      have hpieces := pieceTokens_append front piece (c :: rest)
      have hop := slice_append (front ++ piece) [c] rest
      rw [hsize, List.append_assoc (front ++ piece), List.singleton_append, ← hexpr] at hop
      rw [← hexpr] at hpieces
      have hexpr' : expr = (front ++ piece ++ [c]) ++ [] ++ rest := by
        rw [hexpr]
        simp
      obtain ⟨last, found, pieces, hfound, hlast, hwords⟩ :=
        ih hexpr' (tokens ++ pieceWords piece ++ [[c]])
      rw [List.append_nil, utf8Len_append (front ++ piece), hsize] at hfound
      refine ⟨last, found, pieces, ?_, hlast, ?_⟩
      · rw [hbytes, List.singleton_append, tokenizeFrom, if_pos hb]
        simp only [hpieces, hop, Option.bind_eq_bind, Option.bind_some]
        exact hfound
      · rw [hwords, if_pos hc]
        simp
    · have hno : isOperator c = false := Bool.eq_false_iff.mpr hc
      have hexpr' : expr = front ++ (piece ++ [c]) ++ rest := by
        rw [hexpr]
        simp
      have hsize : utf8Len (front ++ (piece ++ [c])) =
          utf8Len (front ++ piece) + (String.utf8EncodeChar c).length := by
        rw [String.length_utf8EncodeChar, ← List.append_assoc, utf8Len_append (front ++ piece)]
        simp
      rw [tokenizeFrom_append expr fun b hb ↦ isOperatorByte_of_mem_utf8EncodeChar hno hb, ← hsize,
        if_neg hc]
      exact ih hexpr' tokens

/-- The tokens are the words. -/
theorem tokenize_eq_words (expr : List Char) : tokenize expr = some (words expr) := by
  have hexpr : expr = [] ++ [] ++ expr := rfl
  obtain ⟨last, found, pieces, hfound, hlast, hwords⟩ := tokenizeFrom_eq_some hexpr []
  have hfound : tokenizeFrom expr (bytes expr) 0 0 [] = some (last, found) := hfound
  unfold tokenize
  simp only [hfound, hlast, Option.bind_eq_bind, Option.bind_some]
  rw [hwords]
  rfl

/-! ## The loop over the tokens -/

section

variable {F : Type} (toF64 : List Char → F)

/-- Join the words behind an operand from the left.  A word without a partner is dropped. -/
def foldWords (result : Expr F) : List (List Char) → Except String (Expr F)
  | op :: token :: rest =>
      match arithmeticOf op with
      | none =>
          let given := String.ofList op
          .error s!"Unknown operator in arithmetic expression: {given}"
      | some op => foldWords (.arithmetic op result (tokenToExpr toF64 token)) rest
  | _ => .ok result

theorem foldTokens_eq_foldWords (tokens : List (List Char)) (i : ℕ) (result : Expr F) :
    foldTokens toF64 tokens i result = some (foldWords toF64 result (tokens.drop i)) := by
  induction i, result using foldTokens.induct toF64 tokens with
  | case1 i result hlt ih =>
    have hi : i < tokens.length := by omega
    have hi' : i + 1 < tokens.length := by omega
    have hop : tokens[i]? = some tokens[i] := List.getElem?_eq_getElem hi
    have htoken : tokens[i + 1]? = some tokens[i + 1] := List.getElem?_eq_getElem hi'
    rw [List.drop_eq_getElem_cons hi, List.drop_eq_getElem_cons hi', foldWords, foldTokens,
      if_pos hlt]
    simp only [hop, htoken, Option.bind_eq_bind, Option.bind_some]
    cases harithmetic : arithmeticOf tokens[i] with
    | none => rfl
    | some op => exact ih tokens[i + 1] op
  | case2 i result hlt =>
    rw [foldTokens, if_neg hlt]
    have hshort : (tokens.drop i).length ≤ 1 := by
      rw [List.length_drop]
      omega
    cases hdrop : tokens.drop i with
    | nil => rfl
    | cons word rest =>
      cases rest with
      | nil => rfl
      | cons next rest =>
        rw [hdrop, List.length_cons, List.length_cons] at hshort
        omega

/-- The words of the trimmed text, joined from the left. -/
theorem parseArithmeticExpr_eq (text : List Char) :
    parseArithmeticExpr toF64 text = some (match words (trim text) with
      | [] => .error "Empty arithmetic expression"
      | first :: rest => foldWords toF64 (tokenToExpr toF64 first) rest) := by
  unfold parseArithmeticExpr
  simp only [tokenize_eq_words, Option.bind_eq_bind, Option.bind_some]
  cases words (trim text) with
  | nil => rfl
  | cons first rest => exact foldTokens_eq_foldWords toF64 (first :: rest) 1 _

/-! ## Rejected words -/

def operatorWords : List (List Char) := [['+'], ['-'], ['*'], ['/']]

theorem arithmeticOf_eq_none {word : List Char} :
    arithmeticOf word = none ↔ word ∉ operatorWords := by
  unfold arithmeticOf operatorWords
  split_ifs <;> simp_all

/-- There are no words, or a word other than the last one stands at the place of an operator and is
none. -/
def RejectedWords (ws : List (List Char)) : Prop :=
  ws = [] ∨ ∃ i word, ws[2 * i + 1]? = some word ∧ 2 * i + 2 < ws.length ∧ word ∉ operatorWords

theorem foldWords_eq_error {result : Expr F} {ws : List (List Char)} :
    (∃ reason, foldWords toF64 result ws = .error reason) ↔
      ∃ i word, ws[2 * i]? = some word ∧ 2 * i + 1 < ws.length ∧ word ∉ operatorWords := by
  induction result, ws using foldWords.induct toF64 with
  | case1 result op token rest harithmetic =>
    have hop := arithmeticOf_eq_none.mp harithmetic
    constructor
    · intro _
      exact ⟨0, op, rfl, by simp, hop⟩
    · intro _
      exact ⟨_, by rw [foldWords, harithmetic]⟩
  | case2 result op token rest arithmetic harithmetic ih =>
    have hop : op ∈ operatorWords := by
      by_contra hop
      rw [arithmeticOf_eq_none.mpr hop] at harithmetic
      exact absurd harithmetic (by simp)
    rw [foldWords, harithmetic]
    refine ih.trans ⟨?_, ?_⟩
    · rintro ⟨i, word, hword, hlt, hno⟩
      exact ⟨i + 1, word, hword, by simp only [List.length_cons]; omega, hno⟩
    · rintro ⟨i, word, hword, hlt, hno⟩
      cases i with
      | zero =>
        obtain rfl : op = word := by simpa using hword
        exact absurd hop hno
      | succ i => exact ⟨i, word, hword, by simp only [List.length_cons] at hlt; omega, hno⟩
  | case3 ws result hshort =>
    have hlength : ws.length ≤ 1 := by
      match ws with
      | [] => simp
      | [_] => simp
      | op :: token :: rest => exact absurd rfl (hshort op token rest)
    constructor
    · rintro ⟨reason, hreason⟩
      rw [foldWords.eq_2 _ _ _ hshort] at hreason
      exact absurd hreason (by simp)
    · rintro ⟨i, word, -, hlt, -⟩
      omega

/-- A text is rejected exactly if its words are. -/
theorem parseArithmeticExpr_eq_error {text : List Char} :
    (∃ reason, parseArithmeticExpr toF64 text = some (.error reason)) ↔
      RejectedWords (words (trim text)) := by
  rw [parseArithmeticExpr_eq, RejectedWords]
  cases words (trim text) with
  | nil => simp
  | cons first rest =>
    simp only [Option.some.injEq, List.cons_ne_nil, false_or, List.getElem?_cons_succ,
      List.length_cons]
    refine (foldWords_eq_error toF64).trans (exists_congr fun i ↦ exists_congr fun word ↦ ?_)
    rw [show 2 * i + 2 < rest.length + 1 ↔ 2 * i + 1 < rest.length by omega]

end

/-! ## Expressions and how they are spelled -/

/-- The loosely binding operators. -/
inductive Additive where
  | add
  | sub
  deriving DecidableEq, Repr

/-- The tightly binding operators. -/
inductive Multiplicative where
  | mul
  | div
  deriving DecidableEq, Repr

def Additive.arithmetic : Additive → Arithmetic
  | .add => .add
  | .sub => .sub

def Multiplicative.arithmetic : Multiplicative → Arithmetic
  | .mul => .mul
  | .div => .div

/-- The operator of either kind. -/
def arithmeticOp (op : Additive ⊕ Multiplicative) : Arithmetic :=
  Sum.elim Additive.arithmetic Multiplicative.arithmetic op

def Arithmetic.char : Arithmetic → Char
  | .add => '+'
  | .sub => '-'
  | .mul => '*'
  | .div => '/'

/-- The name of a column or a decimal literal, perhaps with a minus before it. -/
structure Operand where
  negative : Bool
  text : List Char
  text_ne_nil : text ≠ []
  trim_text : trim text = text
  no_operator : ∀ c ∈ text, isOperator c = false

/-- Operands joined by the four operators, `*` and `/` binding tighter than `+` and `-`. -/
abbrev ArithmeticExpression := Precedence.Expression Additive Multiplicative Operand

/-- The minus of an operand, with whitespace behind it. -/
def Operand.sign (o : Operand) (gap : List Char) : List Char := if o.negative then '-' :: gap else []

def Operand.Spelled (o : Operand) (text : List Char) : Prop :=
  ∃ lead gap trail, Blank lead ∧ Blank gap ∧ Blank trail ∧
    text = lead ++ o.sign gap ++ o.text ++ trail

def SpelledSteps : List ((Additive ⊕ Multiplicative) × Operand) → List Char → Prop
  | [], text => text = []
  | (op, o) :: steps, text => ∃ front back,
      text = (arithmeticOp op).char :: (front ++ back) ∧ o.Spelled front ∧ SpelledSteps steps back

def Spelled (e : ArithmeticExpression) (text : List Char) : Prop :=
  ∃ front back, text = front ++ back ∧ e.head.head.Spelled front ∧ SpelledSteps e.flat back

theorem isOperator_char (op : Arithmetic) : isOperator op.char = true := by
  cases op <;> decide

theorem arithmeticOf_char (op : Arithmetic) : arithmeticOf [op.char] = some op := by
  cases op <;> decide

theorem isOperator_of_isWhitespace {c : Char} (hc : isWhitespace c = true) :
    isOperator c = false := by
  by_contra hop
  have hop : isOperator c = true := by
    simpa using hop
  simp only [isOperator, Bool.or_eq_true, beq_iff_eq] at hop
  rcases hop with ((rfl | rfl) | rfl) | rfl <;> exact absurd hc (by decide)

/-- An operand without a minus is one word. -/
theorem pieceWords_of_spelled {o : Operand} (hpositive : o.negative = false) {text : List Char}
    (h : o.Spelled text) :
    (∀ c ∈ text, isOperator c = false) ∧ pieceWords text = [o.text] := by
  obtain ⟨lead, gap, trail, hlead, -, htrail, rfl⟩ := h
  have hsign : o.sign gap = [] := by
    rw [Operand.sign, hpositive, if_neg (by simp)]
  rw [hsign, List.append_nil]
  constructor
  · intro c hc
    rcases List.mem_append.mp hc with hc | hc
    · rcases List.mem_append.mp hc with hc | hc
      · exact isOperator_of_isWhitespace (hlead c hc)
      · exact o.no_operator c hc
    · exact isOperator_of_isWhitespace (htrail c hc)
  · have hne : lead ++ o.text ++ trail ≠ [] := by
      simp [o.text_ne_nil]
    rw [pieceWords, if_neg hne, trim_append_blank _ htrail, trim_blank_append hlead, o.trim_text]

/-- The words of operators with operands without a minus. -/
def stepWords (steps : List ((Additive ⊕ Multiplicative) × Operand)) : List (List Char) :=
  steps.flatMap fun step ↦ [[(arithmeticOp step.1).char], step.2.text]

theorem words_of_spelledSteps {steps : List ((Additive ⊕ Multiplicative) × Operand)} {o : Operand}
    (hpositive : o.negative = false) (hsteps : ∀ step ∈ steps, step.2.negative = false)
    {front back : List Char} (hfront : o.Spelled front) (hback : SpelledSteps steps back) :
    words (front ++ back) = o.text :: stepWords steps := by
  obtain ⟨hplain, hword⟩ := pieceWords_of_spelled hpositive hfront
  induction steps generalizing o front back with
  | nil =>
    obtain rfl : back = [] := hback
    rw [List.append_nil, words_of_forall hplain, hword]
    rfl
  | cons step steps ih =>
    obtain ⟨op, o'⟩ := step
    obtain ⟨hpositive', hrest⟩ := List.forall_mem_cons.mp hsteps
    obtain ⟨front', back', rfl, hfront', hback'⟩ := hback
    obtain ⟨hplain', hword'⟩ := pieceWords_of_spelled hpositive' hfront'
    rw [words_append_cons hplain (isOperator_char _), hword,
      ih hpositive' hrest hfront' hback' hplain' hword']
    rfl

/-! ## What expressions mean -/

/-- A meaning of the operators and the constants. -/
structure Interpretation (F V : Type) where
  literal : Literal F → V
  arithmetic : Arithmetic → V → V → V
  negate : V → V
  compare : Comparison → V → V → V
  cast : V → DataType → V

def Expr.evaluate {F V : Type} (meaning : Interpretation F V) (row : List Char → V) : Expr F → V
  | .col name => row name
  | .lit value => meaning.literal value
  | .arithmetic op left right =>
      meaning.arithmetic op (left.evaluate meaning row) (right.evaluate meaning row)
  | .compare op left right =>
      meaning.compare op (left.evaluate meaning row) (right.evaluate meaning row)
  | .cast input dtype => meaning.cast (input.evaluate meaning row) dtype
  | .aliased input _ => input.evaluate meaning row

/-- Digits, perhaps with a point among them. -/
def isDecimal (text : List Char) : Bool :=
  match text.dropWhile Char.isDigit with
  | [] => !text.isEmpty
  | '.' :: rest => (text.head? != some '.' || !rest.isEmpty) && rest.all Char.isDigit
  | _ => false

section

variable {F V : Type} (toF64 : List Char → F) (meaning : Interpretation F V) (row : List Char → V)

/-- The value of an operand without its minus: that of the number it writes or of the column it
names. -/
def Operand.magnitude (o : Operand) : V :=
  if isDecimal o.text then meaning.literal (.float64 (toF64 o.text)) else row o.text

def Operand.value (o : Operand) : V :=
  if o.negative then meaning.negate (o.magnitude toF64 meaning row)
  else o.magnitude toF64 meaning row

/-- The value of an expression with the usual precedences. -/
def conventionalValue (e : ArithmeticExpression) : V :=
  e.value (fun op ↦ meaning.arithmetic op.arithmetic) (fun op ↦ meaning.arithmetic op.arithmetic)
    (Operand.value toF64 meaning row)

end

/-- For every row, and whatever the operators mean, an expression computes the usual value. -/
def SameValue {F : Type} (toF64 : List Char → F) (x : Expr F) (e : ArithmeticExpression) : Prop :=
  ∀ (V : Type) (meaning : Interpretation F V) (row : List Char → V),
    x.evaluate meaning row = conventionalValue toF64 meaning row e

/-! ## Where the loop computes the usual value -/

/-- Decimal literals are read as numbers. -/
theorem isF64_of_isDecimal {text : List Char} (h : isDecimal text = true) : isF64 text = true := by
  have hunsigned : unsigned text = text := by
    unfold unsigned
    split
    · exact absurd h (by simp [isDecimal])
    · exact absurd h (by simp [isDecimal])
    · rfl
  have hsplit : text.takeWhile Char.isDigit ++ text.dropWhile Char.isDigit = text :=
    List.takeWhile_append_dropWhile
  have hnumber : isNumber text = true := by
    unfold isDecimal at h
    unfold isNumber
    cases hrest : text.dropWhile Char.isDigit with
    | nil =>
      rw [hrest, List.append_nil] at hsplit
      simpa [hrest, hsplit, isExponent] using h
    | cons c rest =>
      rw [hrest] at h
      by_cases hc : c = '.'
      · subst hc
        simp only [Bool.and_eq_true, Bool.or_eq_true, bne_iff_ne, Bool.not_eq_true',
          List.isEmpty_eq_false_iff, List.all_eq_true] at h
        obtain ⟨hsome, hdigits⟩ := h
        have htake : rest.takeWhile Char.isDigit = rest := List.takeWhile_eq_self_iff.mpr hdigits
        have hdrop : rest.dropWhile Char.isDigit = [] := List.dropWhile_eq_nil_iff.mpr hdigits
        have hwhole : text.head? ≠ some '.' → text.takeWhile Char.isDigit ≠ [] := by
          intro hhead hnil
          rw [hrest, hnil, List.nil_append] at hsplit
          rw [← hsplit] at hhead
          exact hhead rfl
        simp only [htake, hdrop, isExponent, Bool.and_true, Bool.or_eq_true, Bool.not_eq_true',
          List.isEmpty_eq_false_iff]
        exact hsome.imp_left hwhole
      · exact absurd h (by simp [hc])
  rw [isF64, hunsigned, hnumber, Bool.true_or]

section

variable {F : Type} (toF64 : List Char → F)

/-- What the loop makes of an expression without a minus before an operand. -/
def joined (e : ArithmeticExpression) : Expr F :=
  e.leftValue (fun op ↦ Expr.arithmetic op.arithmetic) (fun op ↦ Expr.arithmetic op.arithmetic)
    fun o ↦ tokenToExpr toF64 o.text

theorem foldWords_stepWords (result : Expr F)
    (steps : List ((Additive ⊕ Multiplicative) × Operand)) :
    foldWords toF64 result (stepWords steps) =
      .ok (Precedence.leftFold (fun op ↦ Expr.arithmetic op.arithmetic)
        (fun op ↦ Expr.arithmetic op.arithmetic) (fun o ↦ tokenToExpr toF64 o.text) result
        steps) := by
  induction steps generalizing result with
  | nil => rfl
  | cons step steps ih =>
    obtain ⟨op, o⟩ := step
    have hstep : Sum.elim (fun op ↦ Expr.arithmetic op.arithmetic)
        (fun op ↦ Expr.arithmetic op.arithmetic) op result (tokenToExpr toF64 o.text) =
        Expr.arithmetic (arithmeticOp op) result (tokenToExpr toF64 o.text) := by
      cases op <;> rfl
    rw [stepWords, List.flatMap_cons, List.cons_append, List.singleton_append, foldWords,
      arithmeticOf_char]
    refine (ih _).trans ?_
    rw [Precedence.leftFold, Precedence.leftFold, List.foldl_cons, hstep]

/-- An expression without a minus before an operand is joined from the left. -/
theorem parseArithmeticExpr_of_spelled {e : ArithmeticExpression}
    (hpositive : ∀ o ∈ e.operands, o.negative = false) {text : List Char}
    (h : Spelled e (trim text)) :
    parseArithmeticExpr toF64 text = some (.ok (joined toF64 e)) := by
  obtain ⟨front, back, htext, hfront, hback⟩ := h
  obtain ⟨hhead, hflat⟩ := List.forall_mem_cons.mp hpositive
  have hwords := words_of_spelledSteps hhead (List.forall_mem_map.mp hflat) hfront hback
  rw [parseArithmeticExpr_eq, htext, hwords]
  exact congrArg some (foldWords_stepWords toF64 _ _)

variable {V : Type} (meaning : Interpretation F V) (row : List Char → V)

def Operand.readValue (o : Operand) : V :=
  if isF64 o.text then meaning.literal (.float64 (toF64 o.text)) else row o.text

theorem evaluate_tokenToExpr (o : Operand) :
    (tokenToExpr toF64 o.text).evaluate meaning row = o.readValue toF64 meaning row := by
  unfold tokenToExpr parseF64 Operand.readValue
  split_ifs <;> rfl

theorem evaluate_joined (e : ArithmeticExpression) :
    (joined toF64 e).evaluate meaning row =
      e.leftValue (fun op ↦ meaning.arithmetic op.arithmetic)
        (fun op ↦ meaning.arithmetic op.arithmetic) (Operand.readValue toF64 meaning row) := by
  have hsteps (start : Expr F) (steps : List ((Additive ⊕ Multiplicative) × Operand)) :
      (Precedence.leftFold (fun op ↦ Expr.arithmetic op.arithmetic)
        (fun op ↦ Expr.arithmetic op.arithmetic) (fun o ↦ tokenToExpr toF64 o.text) start
        steps).evaluate meaning row =
      Precedence.leftFold (fun op ↦ meaning.arithmetic op.arithmetic)
        (fun op ↦ meaning.arithmetic op.arithmetic) (Operand.readValue toF64 meaning row)
        (start.evaluate meaning row) steps := by
    induction steps generalizing start with
    | nil => rfl
    | cons step steps ih =>
      obtain ⟨op, o⟩ := step
      refine (ih _).trans ?_
      rw [Precedence.leftFold, Precedence.leftFold, List.foldl_cons, ← evaluate_tokenToExpr]
      cases op <;> rfl
  rw [joined, Precedence.Expression.leftValue, hsteps, evaluate_tokenToExpr]
  rfl

/-- No operand has a minus, no column name reads as a number, and no product or quotient stands behind
a sum or a difference. -/
def Plain (e : ArithmeticExpression) : Prop :=
  (∀ o ∈ e.operands, o.negative = false ∧ (isF64 o.text = true → isDecimal o.text = true)) ∧
    e.Shallow

/-- Expressions as the meaning of expressions: nothing is computed. -/
def syntactic (F : Type) : Interpretation F (Expr F) where
  literal := .lit
  arithmetic := .arithmetic
  negate := id
  compare := .compare
  cast := .cast

theorem free_arithmetic :
    Precedence.Free (fun op : Additive ↦ (Expr.arithmetic op.arithmetic : Expr F → Expr F → Expr F))
      (fun op : Multiplicative ↦ Expr.arithmetic op.arithmetic) where
  loose_inj {a a'} _ _ _ _ h := by
    obtain ⟨hop, hargs⟩ := Expr.arithmetic.inj h
    have ha : a = a' := by
      revert hop
      cases a <;> cases a' <;> simp [Additive.arithmetic]
    exact ⟨ha, hargs⟩
  tight_inj {m m'} _ _ _ _ h := by
    obtain ⟨hop, hargs⟩ := Expr.arithmetic.inj h
    have hm : m = m' := by
      revert hop
      cases m <;> cases m' <;> simp [Multiplicative.arithmetic]
    exact ⟨hm, hargs⟩
  distinct {a m} _ _ _ _ h := by
    have hop := (Expr.arithmetic.inj h).1
    revert hop
    cases a <;> cases m <;> simp [Additive.arithmetic, Multiplicative.arithmetic]

/-- Of expressions without a minus before an operand, the plain ones get the usual value. -/
theorem sameValue_joined_iff {e : ArithmeticExpression}
    (hpositive : ∀ o ∈ e.operands, o.negative = false) :
    SameValue toF64 (joined toF64 e) e ↔ Plain e := by
  constructor
  · intro hsame
    have hvalue := hsame (Expr F) (syntactic F) .col
    rw [evaluate_joined] at hvalue
    obtain ⟨hshallow, hoperands⟩ :=
      (Precedence.leftValue_eq_value_iff free_arithmetic).mp hvalue
    refine ⟨fun o ho ↦ ⟨hpositive o ho, fun hf64 ↦ ?_⟩, hshallow⟩
    by_contra hdecimal
    have hread := hoperands o ho
    rw [Operand.readValue, if_pos hf64, Operand.value, hpositive o ho, if_neg (by simp),
      Operand.magnitude, if_neg hdecimal] at hread
    exact absurd hread (by simp [syntactic])
  · rintro ⟨hoperands, hshallow⟩ V meaning row
    have hread (o : Operand) (ho : o ∈ e.operands) :
        o.readValue toF64 meaning row = o.value toF64 meaning row := by
      have hiff : isF64 o.text = true ↔ isDecimal o.text = true :=
        ⟨(hoperands o ho).2, isF64_of_isDecimal⟩
      rw [Operand.value, (hoperands o ho).1, if_neg (by simp), Operand.readValue,
        Operand.magnitude, ite_cond_congr (propext hiff)]
    calc
      _ = e.leftValue (fun op ↦ meaning.arithmetic op.arithmetic)
          (fun op ↦ meaning.arithmetic op.arithmetic) (Operand.readValue toF64 meaning row) :=
        evaluate_joined toF64 meaning row e
      _ = e.leftValue (fun op ↦ meaning.arithmetic op.arithmetic)
          (fun op ↦ meaning.arithmetic op.arithmetic) (Operand.value toF64 meaning row) :=
        Precedence.leftValue_congr hread
      _ = conventionalValue toF64 meaning row e := Precedence.leftValue_eq_value _ hshallow

def negated (F : Type) : Interpretation F Bool where
  literal _ := false
  arithmetic _ := or
  negate _ := true
  compare _ := or
  cast value _ := value

/-- No expression negates. -/
theorem evaluate_negated (x : Expr F) : x.evaluate (negated F) (fun _ ↦ false) = false := by
  induction x with
  | col name => rfl
  | lit value => rfl
  | arithmetic op left right hleft hright =>
    rw [Expr.evaluate, hleft, hright]
    rfl
  | compare op left right hleft hright =>
    rw [Expr.evaluate, hleft, hright]
    rfl
  | cast input dtype ih => exact ih
  | aliased input name ih => exact ih

/-- Nothing computes the usual value of an expression with a minus before an operand. -/
theorem positive_of_sameValue {x : Expr F} {e : ArithmeticExpression} (h : SameValue toF64 x e) :
    ∀ o ∈ e.operands, o.negative = false := by
  have hvalue := h Bool (negated F) fun _ ↦ false
  rw [evaluate_negated] at hvalue
  have hany : e.operands.any (Operand.value toF64 (negated F) fun _ ↦ false) = false :=
    (Precedence.value_or_eq_any _ e).symm.trans hvalue.symm
  intro o ho
  have hoperand := List.any_eq_false.mp hany o ho
  by_contra hnegative
  have hnegative : o.negative = true := by
    simpa using hnegative
  rw [Operand.value, hnegative, if_pos rfl] at hoperand
  exact hoperand rfl

/-! ## The claim of the parser -/

/-- An expression is accepted and computes the usual value, and every other text is rejected. -/
def ReadAsMeant (text : List Char) : Prop :=
  (∀ e : ArithmeticExpression, Spelled e (trim text) →
      ∃ x, parseArithmeticExpr toF64 text = some (.ok x) ∧ SameValue toF64 x e) ∧
    ((∀ e : ArithmeticExpression, ¬ Spelled e (trim text)) →
      ∃ reason, parseArithmeticExpr toF64 text = some (.error reason))

/-- A text is read as it is meant exactly if, where it is an expression, the expression is plain, and
where it is none, its words are rejected. -/
theorem readAsMeant_iff (text : List Char) :
    ReadAsMeant toF64 text ↔
      (∀ e : ArithmeticExpression, Spelled e (trim text) → Plain e) ∧
        ((∀ e : ArithmeticExpression, ¬ Spelled e (trim text)) →
          RejectedWords (words (trim text))) := by
  refine and_congr (forall₂_congr fun e hspelled ↦ ?_)
    (imp_congr_right fun _ ↦ parseArithmeticExpr_eq_error toF64)
  constructor
  · rintro ⟨x, hx, hsame⟩
    have hpositive := positive_of_sameValue toF64 hsame
    rw [parseArithmeticExpr_of_spelled toF64 hpositive hspelled] at hx
    obtain rfl : joined toF64 e = x := by
      simpa using hx
    exact (sameValue_joined_iff toF64 hpositive).mp hsame
  · intro hplain
    have hpositive : ∀ o ∈ e.operands, o.negative = false := fun o ho ↦ (hplain.1 o ho).1
    exact ⟨joined toF64 e, parseArithmeticExpr_of_spelled toF64 hpositive hspelled,
      (sameValue_joined_iff toF64 hpositive).mpr hplain⟩

end

def letterColumn (c : Char) (htrim : trim [c] = [c]) (hop : isOperator c = false) : Operand where
  negative := false
  text := [c]
  text_ne_nil := List.cons_ne_nil c []
  trim_text := htrim
  no_operator := List.forall_mem_singleton.mpr hop

/-- The product in `a + b * c`. -/
def productTerm : Precedence.Term Multiplicative Operand where
  head := letterColumn 'b' (by decide) (by decide)
  factors := [(.mul, letterColumn 'c' (by decide) (by decide))]

/-- The expression `a + b * c`. -/
def sumOfProduct : ArithmeticExpression where
  head := ⟨letterColumn 'a' (by decide) (by decide), []⟩
  terms := [(.add, productTerm)]

theorem spelled_sumOfProduct : Spelled sumOfProduct (trim "a + b * c".toList) := by
  have hblank : Blank [' '] := List.forall_mem_singleton.mpr (by decide)
  have hnil : Blank [] := List.forall_mem_nil _
  refine ⟨"a ".toList, "+ b * c".toList, by decide, ⟨[], [], [' '], hnil, hnil, hblank, by decide⟩, ?_⟩
  refine ⟨" b ".toList, "* c".toList, by decide, ⟨[' '], [], [' '], hblank, hnil, hblank, by decide⟩, ?_⟩
  exact ⟨" c".toList, [], by decide, ⟨[' '], [], [], hblank, hnil, hnil, by decide⟩, rfl⟩

/-- The integers, with the usual operators. -/
def integers : Interpretation ℤ ℤ where
  literal
    | .float64 value => value
    | _ => 0
  arithmetic
    | .add => (· + ·)
    | .sub => (· - ·)
    | .mul => (· * ·)
    | .div => (· / ·)
  negate := (- ·)
  compare _ _ _ := 0
  cast value _ := value

/-- In `a + b * c` the sum is multiplied. -/
theorem not_readAsMeant_of_precedence :
    ¬ ∀ (toF64 : List Char → ℤ) (text : List Char), ReadAsMeant toF64 text := by
  intro hread
  obtain ⟨x, hx, hsame⟩ :=
    (hread (fun _ ↦ 0) "a + b * c".toList).1 sumOfProduct spelled_sumOfProduct
  have hparsed : parseArithmeticExpr (fun _ ↦ 0) "a + b * c".toList = some (.ok
      (.arithmetic .mul (.arithmetic .add (.col ['a']) (.col ['b'])) (.col ['c'] : Expr ℤ))) := by
    rw [parseArithmeticExpr_eq]
    rfl
  rw [hparsed] at hx
  obtain rfl := Except.ok.inj (Option.some.inj hx)
  -- a row with 1, 2 and 3: the sum times 3 is 9, and 1 plus the product is 7
  have hrow := hsame ℤ integers fun name ↦ if name = ['a'] then 1 else if name = ['b'] then 2 else 3
  exact absurd hrow (by decide)

end MongoCore.Ingestion.Transform
