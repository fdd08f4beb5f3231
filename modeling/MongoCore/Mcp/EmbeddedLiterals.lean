import MongoCore.Data.JsonReading
import MongoCore.Library.BinaryRounding
import MongoCore.Mcp.Codegen

/-!
# Literals in generated code

The arguments of an operation stand in the generated code as literals: in Python and TypeScript as
an expression, in Go as a raw string with JSON in it, in Java as a string with JSON in it.  All of
them are the printed JSON value; for Java two of its characters are replaced.

The main result says for each language which values are the values of their literals.
-/

namespace MongoCore.Mcp.EmbeddedLiterals

open MongoCore.Data MongoCore.Mcp.Codegen MongoCore.Library.Escapes
open MongoCore.Library.BinaryRounding MongoCore.Library.Tokens

/-! ## How the languages read literals

Escapes with octal digits, with two hexadecimal digits and with names are left out: no printed value
has one.
-/

/-- The escapes of one character that all of the languages have. -/
def commonEscape : Char → Option Char
  | '"' => some '"'
  | '\\' => some '\\'
  | 'b' => some '\x08'
  | 'f' => some '\x0c'
  | 'n' => some '\n'
  | 'r' => some '\r'
  | 't' => some '\t'
  | _ => none

def insideLine (c : Char) : Bool := c ≠ '\n' && c ≠ '\r'

def jsonQuoted : QuotedSyntax where
  inside c := 0x20 ≤ c.toNat
  simple c := if c = '/' then some '/' else commonEscape c
  codes := true
  pairs := true
  simple_quote _ h := (Option.some.inj h).symm

def pythonQuoted : QuotedSyntax where
  inside := insideLine
  simple c :=
    if c = 'a' then some '\x07'
    else if c = 'v' then some '\x0b'
    else if c = '\x27' then some '\x27'
    else commonEscape c
  codes := true
  pairs := false
  simple_quote _ h := (Option.some.inj h).symm

/-- Strings of TypeScript.  A character without a meaning as an escape stands for itself. -/
def scriptQuoted : QuotedSyntax where
  inside := insideLine
  simple c :=
    if c = 'v' then some '\x0b'
    else if c = 'x' || c.isDigit || !insideLine c then none
    else some ((commonEscape c).getD c)
  codes := true
  pairs := true
  simple_quote _ h := (Option.some.inj h).symm

/-- Strings of Java, where codes have been replaced before. -/
def javaQuoted : QuotedSyntax where
  inside := insideLine
  simple c :=
    if c = 's' then some ' '
    else if c = '\x27' then some '\x27'
    else commonEscape c
  codes := false
  pairs := false
  simple_quote _ h := (Option.some.inj h).symm

def jsonWord (chars : List Char) : Option Json :=
  if chars = ['n', 'u', 'l', 'l'] then some .null
  else if chars = ['t', 'r', 'u', 'e'] then some (.bool true)
  else if chars = ['f', 'a', 'l', 's', 'e'] then some (.bool false)
  else none

def pythonWord (chars : List Char) : Option Json :=
  if chars = ['N', 'o', 'n', 'e'] then some .null
  else if chars = ['T', 'r', 'u', 'e'] then some (.bool true)
  else if chars = ['F', 'a', 'l', 's', 'e'] then some (.bool false)
  else none

def jsonDialect : Dialect where
  quoted := jsonQuoted
  word := jsonWord
  natural := id
  own _ := true

def pythonDialect : Dialect where
  quoted := pythonQuoted
  word := pythonWord
  natural := id
  own _ := true

/-- Expressions of TypeScript.  All numbers are doubles, and a member of one name is not a member of
the object, but sets its prototype. -/
def scriptDialect : Dialect where
  quoted := scriptQuoted
  word := jsonWord
  natural := roundTo 53
  own name := name ≠ "__proto__"

/-- The mark around a raw string of Go. -/
def rawMark : Char := '\x60'

/-- The mark of the order of bytes, which may only start a source of Go. -/
def byteOrderMark : Char := '\ufeff'

/-- The text of a raw string of Go. -/
def goLiteral (token : List Char) : Option (List Char) :=
  match token with
  | [] => none
  | c :: rest =>
      let text := rest.takeWhile (· ≠ rawMark)
      if c = rawMark ∧ rest.drop text.length = [rawMark] ∧ byteOrderMark ∉ text then
        some (text.filter (· ≠ '\r'))
      else none

def javaLiteral (token : List Char) : Option (List Char) :=
  match translateEscapes 0 token with
  | '"' :: rest =>
      match javaQuoted.readQuoted 0 rest with
      | some (text, []) => some text
      | _ => none
  | _ => none

/-! ## Literals of values -/

section Literals

variable (printing : Printing) (floats : FloatText)

def literal (language : Language) (value : Json) : String :=
  match language with
  | .python | .typeScript => printing.pretty value
  | .go => s!"\x60{printing.pretty value}\x60"
  | .java => s!"\"{escaped (printing.pretty value)}\""

def denoted (language : Language) (token : List Char) : Option Json :=
  match language with
  | .python => readText floats pythonDialect token
  | .typeScript => readText floats scriptDialect token
  | .go => (goLiteral token).bind (readText floats jsonDialect)
  | .java => (javaLiteral token).bind (readText floats jsonDialect)

/-- The printer writes every value on several lines. -/
structure PrintsPretty : Prop where
  laws : floats.Laws
  pretty : ∀ value : Json, value.Valid → (printing.pretty value).toList = prettyText floats value

end Literals

def FitsDouble : Number → Prop
  | .posInt value => Exact 53 value
  | .negInt value => Exact 53 value.natAbs
  | .float _ => True

/-- The values that are the values of their literals.  Python has other words for the words of JSON;
TypeScript has doubles only and a name that is none; a raw string of Go ends at its mark; and the
strings for Java keep the escapes of the JSON in them as their own. -/
def Embeddable (language : Language) (value : Json) : Prop :=
  match language with
  | .python => value.Every (fun inner ↦ inner ≠ .null ∧ ∀ b, inner ≠ .bool b) fun _ ↦ True
  | .typeScript => value.Every (fun inner ↦ ∀ number, inner = .number number → FitsDouble number)
      fun name ↦ name ≠ "__proto__"
  | .go => value.EveryText fun text ↦ ∀ c ∈ text, c ≠ rawMark ∧ c ≠ byteOrderMark
  | .java => value.EveryText fun text ↦ ∀ c ∈ text, c ≠ '"' ∧ c ≠ '\\' ∧ 0x20 ≤ c.toNat

/-! ## Python and TypeScript -/

theorem knowsEscapes_json : KnowsEscapes jsonQuoted where
  codes := rfl
  quote := rfl
  backslash := rfl
  backspace := rfl
  formFeed := rfl
  newline := rfl
  carriageReturn := rfl
  tab := rfl
  inside _ hc := decide_eq_true hc

theorem insideLine_of_le {c : Char} (hc : 0x20 ≤ c.toNat) : insideLine c = true := by
  simp only [insideLine, Bool.and_eq_true, decide_eq_true_eq]
  refine ⟨?_, ?_⟩ <;> rintro rfl <;> exact absurd hc (by decide)

theorem knowsEscapes_python : KnowsEscapes pythonQuoted where
  codes := rfl
  quote := rfl
  backslash := rfl
  backspace := rfl
  formFeed := rfl
  newline := rfl
  carriageReturn := rfl
  tab := rfl
  inside _ hc := insideLine_of_le hc

theorem knowsEscapes_script : KnowsEscapes scriptQuoted where
  codes := rfl
  quote := rfl
  backslash := rfl
  backspace := rfl
  formFeed := rfl
  newline := rfl
  carriageReturn := rfl
  tab := rfl
  inside _ hc := insideLine_of_le hc

theorem negative_natAbs {value : ℤ} (hvalue : value < 0) :
    negative value.natAbs = .negInt value := by
  have hne : value.natAbs ≠ 0 := by omega
  have habs : -(value.natAbs : ℤ) = value := by omega
  rw [negative, if_neg hne, habs]

/-- A language that keeps natural numbers keeps the numbers of values. -/
theorem imageNumber_eq_self {dialect : Dialect} (hnatural : dialect.natural = id) {number : Number}
    (hnumber : number.Valid) : imageNumber dialect number = number := by
  cases number with
  | posInt value => rw [imageNumber, hnatural, id]
  | negInt value => rw [imageNumber, hnatural, id, negative_natAbs hnumber.2]
  | float bits => rfl

theorem negative_eq_iff {value : ℤ} (hvalue : value < 0) {rounded : ℕ} :
    negative rounded = .negInt value ↔ rounded = value.natAbs := by
  unfold negative
  split_ifs with hzero
  · simp only [false_iff]
    omega
  · rw [Number.negInt.injEq]
    omega

theorem imageNumber_script_eq_self_iff {number : Number} (hnumber : number.Valid) :
    imageNumber scriptDialect number = number ↔ FitsDouble number := by
  have hprecision : 0 < 53 := by decide
  cases number with
  | posInt value =>
    rw [imageNumber, Number.posInt.injEq]
    exact roundTo_eq_self_iff hprecision
  | negInt value =>
    rw [imageNumber, negative_eq_iff hnumber.2]
    exact roundTo_eq_self_iff hprecision
  | float bits => exact iff_of_true rfl trivial

/-- Python reads a value as itself exactly if no word of JSON is in it. -/
theorem image_python_eq_self_iff {value : Json} (hvalid : value.Valid) :
    image pythonDialect value = some value ↔ Embeddable .python value := by
  rw [image_eq_self_iff]
  refine Json.every_congr hvalid (fun inner hinner ↦ ?_) fun _ ↦ iff_of_true rfl trivial
  cases inner with
  | null => simp [KeptScalar, image, pythonDialect, pythonWord]
  | bool b => cases b <;> simp [KeptScalar, image, pythonDialect, pythonWord]
  | number number =>
    have hkept : imageNumber pythonDialect number = number :=
      imageNumber_eq_self rfl (hinner number rfl)
    simp [KeptScalar, image, hkept]
  | string text => simp [KeptScalar, image]
  | array items => simp [KeptScalar]
  | object members => simp [KeptScalar]

/-- TypeScript reads a value as itself exactly if doubles keep its integers and no member has the
name of the prototype. -/
theorem image_script_eq_self_iff {value : Json} (hvalid : value.Valid) :
    image scriptDialect value = some value ↔ Embeddable .typeScript value := by
  rw [image_eq_self_iff]
  refine Json.every_congr hvalid (fun inner hinner ↦ ?_) fun key ↦ decide_eq_true_iff
  cases inner with
  | null => simp [KeptScalar, image, scriptDialect, jsonWord]
  | bool b => cases b <;> simp [KeptScalar, image, scriptDialect, jsonWord]
  | number number =>
    simp [KeptScalar, image, imageNumber_script_eq_self_iff (hinner number rfl)]
  | string text => simp [KeptScalar, image]
  | array items => simp [KeptScalar]
  | object members => simp [KeptScalar]

theorem keptScalar_json {value : Json}
    (hvalid : ∀ number, value = .number number → number.Valid) : KeptScalar jsonDialect value := by
  cases value with
  | null => rfl
  | bool b => cases b <;> rfl
  | number number =>
    change image jsonDialect (.number number) = some (.number number)
    rw [image, imageNumber_eq_self rfl (hvalid number rfl)]
  | string text => rfl
  | array items => trivial
  | object members => trivial

/-- JSON is read as itself. -/
theorem image_json {value : Json} (hvalid : value.Valid) :
    image jsonDialect value = some value :=
  (image_eq_self_iff value).mpr ((Json.every_congr hvalid
    (fun _ hinner ↦ iff_of_true hinner (keptScalar_json hinner))
      fun _ ↦ iff_of_true trivial rfl).mp hvalid)

/-! ## Go -/

/-- A raw string ends at the first mark in it. -/
theorem drop_takeWhile_rawMark_iff (text : List Char) :
    (text ++ [rawMark]).drop ((text ++ [rawMark]).takeWhile (· ≠ rawMark)).length = [rawMark] ↔
      rawMark ∉ text := by
  rw [drop_length_takeWhile]
  constructor
  · intro hrest hmem
    have hsplit := List.takeWhile_append_dropWhile (p := (· ≠ rawMark)) (l := text ++ [rawMark])
    rw [hrest] at hsplit
    have htext := List.append_cancel_right hsplit
    rw [← htext] at hmem
    have hne : decide (rawMark ≠ rawMark) = true :=
      List.all_eq_true.mp List.all_takeWhile rawMark hmem
    exact of_decide_eq_true hne rfl
  · intro hnot
    refine dropWhile_token (fun c hc ↦ decide_eq_true ?_) (stops_cons.mpr (by decide))
    rintro rfl
    exact hnot hc

theorem forall_mem_ne_iff {text : List Char} {c d : Char} :
    (∀ other ∈ text, other ≠ c ∧ other ≠ d) ↔ c ∉ text ∧ d ∉ text := by
  rw [forall₂_and]
  exact and_congr List.forall_mem_ne' List.forall_mem_ne'

theorem goLiteral_eq_some_iff {text content : List Char} :
    goLiteral (rawMark :: (text ++ [rawMark])) = some content ↔
      (rawMark ∉ text ∧ byteOrderMark ∉ text) ∧ content = text.filter (· ≠ '\r') := by
  have hdrop := drop_takeWhile_rawMark_iff text
  unfold goLiteral
  dsimp only
  by_cases hmark : rawMark ∉ text
  · have htake : (text ++ [rawMark]).takeWhile (· ≠ rawMark) = text := by
      refine takeWhile_token (fun c hc ↦ decide_eq_true ?_) (stops_cons.mpr (by decide))
      rintro rfl
      exact hmark hc
    rw [htake] at hdrop ⊢
    rw [and_iff_right hmark]
    by_cases horder : byteOrderMark ∉ text
    · rw [if_pos ⟨rfl, hdrop.mpr hmark, horder⟩, and_iff_right horder, Option.some.injEq, eq_comm]
    · rw [if_neg fun h ↦ horder h.2.2]
      exact iff_of_false (fun h ↦ by cases h) fun h ↦ horder h.1
  · rw [if_neg fun h ↦ hmark (hdrop.mp h.2.1)]
    exact iff_of_false (fun h ↦ by cases h) fun h ↦ hmark h.1.1

/-! ## Java -/

/-- A character of the text of a value, as it stands in a string of Java. -/
def javaChar (c : Char) : List Char :=
  if c = '"' then ['\\', '"'] else if c = '\n' then [' '] else [c]

theorem toList_escaped (text : String) : (escaped text).toList = text.toList.flatMap javaChar := by
  simp only [escaped, replaceChar, String.toList_ofList, List.flatMap_assoc]
  refine congrArg (List.flatMap · _) (funext fun c ↦ ?_)
  unfold javaChar
  by_cases hquote : c = '"'
  · rw [if_pos hquote, if_pos hquote]
    decide
  · rw [if_neg hquote, if_neg hquote, List.flatMap_singleton]
    rfl

def javaLayout (c : Char) : Char := if c = '\n' then ' ' else c

theorem isLayout_javaLayout {c : Char} (hc : isLayout c = true) :
    isLayout (javaLayout c) = true := by
  unfold javaLayout
  split_ifs
  · rfl
  · exact hc

/-- A character of a quoted text, in a string of Java. -/
def javaContent (c : Char) : List Char := (escapeChar c).flatMap javaChar

theorem javaChar_of_isWordChar {c : Char} (hc : isWordChar c = true) : javaChar c = [c] := by
  have hquote : c ≠ '"' := by
    rintro rfl
    exact absurd hc (by decide)
  have hnewline : c ≠ '\n' := by
    rintro rfl
    exact absurd hc (by decide)
  rw [javaChar, if_neg hquote, if_neg hnewline]

/-- The characters of a quoted text stand for themselves in a string of Java. -/
theorem readsSource_javaContent {c : Char} (hquote : c ≠ '"') :
    javaQuoted.ReadsSource (javaContent c) [c] := by
  unfold javaContent escapeChar
  rw [if_neg hquote]
  split_ifs with hbackslash hbackspace hform hnewline hreturn htab hcontrol
  · rw [hbackslash]
    exact QuotedSyntax.readsSource_simple (by decide) rfl
  · rw [hbackspace]
    exact QuotedSyntax.readsSource_simple (by decide) rfl
  · rw [hform]
    exact QuotedSyntax.readsSource_simple (by decide) rfl
  · rw [hnewline]
    exact QuotedSyntax.readsSource_simple (by decide) rfl
  · rw [hreturn]
    exact QuotedSyntax.readsSource_simple (by decide) rfl
  · rw [htab]
    exact QuotedSyntax.readsSource_simple (by decide) rfl
  · obtain ⟨hhigh, hlow⟩ := isWordChar_hexDigit hcontrol
    have hinside : insideLine c = true := by
      simp [insideLine, hnewline, hreturn]
    have hsame : ['\\', 'u', '0', '0', hexDigit (c.toNat / 16), hexDigit (c.toNat % 16)].flatMap
        javaChar = ['\\', 'u', '0', '0', hexDigit (c.toNat / 16), hexDigit (c.toNat % 16)] := by
      simp only [List.flatMap_cons, List.flatMap_nil, javaChar_of_isWordChar hhigh,
        javaChar_of_isWordChar hlow]
      rfl
    rw [hsame]
    exact QuotedSyntax.readsSource_code (hexCode_control hcontrol) hquote hbackslash hinside
  · have hsame : javaChar c = [c] := by
      rw [javaChar, if_neg hquote, if_neg hnewline]
    rw [List.flatMap_singleton, hsame]
    exact QuotedSyntax.readsSource_self hquote hbackslash
      (insideLine_of_le (Nat.not_lt.mp hcontrol))

/-- A quote in a quoted text ends the string of Java. -/
theorem closes_javaContent : javaQuoted.Closes (javaContent '"') :=
  QuotedSyntax.closes_escaped rfl

/-- A piece of a printed value, in a string of Java. -/
def javaPiece (part : TextPiece) : List Char := (part.written id escapeChar).flatMap javaChar

theorem flatMap_javaPiece (parts : List TextPiece) :
    (render id escapeChar parts).flatMap javaChar = parts.flatMap javaPiece := List.flatMap_assoc

theorem javaPiece_text (value : List Char) :
    javaPiece (.text value) = ['\\', '"'] ++ (value.flatMap javaContent ++ ['\\', '"']) := by
  rw [javaPiece, TextPiece.written, List.flatMap_cons, List.flatMap_append, List.flatMap_assoc]
  rfl

theorem readsSource_javaQuote : javaQuoted.ReadsSource ['\\', '"'] ['"'] :=
  QuotedSyntax.readsSource_simple (by decide) rfl

/-- A character that stands for itself in strings of Java. -/
theorem readsSource_javaChar {c : Char} (hquote : c ≠ '"') (hplain : c ≠ '\\')
    (hreturn : c ≠ '\r') : javaQuoted.ReadsSource (javaChar c) [javaLayout c] := by
  by_cases hnewline : c = '\n'
  · rw [hnewline]
    exact QuotedSyntax.readsSource_self (by decide) (by decide) rfl
  · rw [javaChar, javaLayout, if_neg hquote, if_neg hnewline, if_neg hnewline]
    exact QuotedSyntax.readsSource_self hquote hplain (by simp [javaQuoted, insideLine, *])

theorem readsSource_chars {chars : List Char}
    (hchars : ∀ c ∈ chars, c ≠ '"' ∧ c ≠ '\\' ∧ c ≠ '\r') :
    javaQuoted.ReadsSource (chars.flatMap javaChar) (chars.map javaLayout) := by
  rw [List.map_eq_flatMap]
  refine QuotedSyntax.readsSource_flatMap fun c hc ↦ ?_
  obtain ⟨hquote, hplain, hreturn⟩ := hchars c hc
  exact readsSource_javaChar hquote hplain hreturn

/-- Characters of marks and words stand for themselves. -/
theorem readsSource_solid {chars : List Char}
    (hchars : ∀ c ∈ chars, isMark c = true ∨ isWordChar c = true) :
    javaQuoted.ReadsSource (chars.flatMap javaChar) chars := by
  have hne : ∀ other, isMark other = false → isWordChar other = false → ∀ c ∈ chars, c ≠ other := by
    rintro other hmark hword c hc rfl
    rcases hchars c hc with h | h
    · exact Bool.false_ne_true (hmark.symm.trans h)
    · exact Bool.false_ne_true (hword.symm.trans h)
  have hlayout : chars.map javaLayout = chars :=
    (List.map_congr_left fun c hc ↦ if_neg (hne '\n' rfl rfl c hc)).trans (List.map_id' chars)
  have hreads := readsSource_chars fun c hc ↦
    ⟨hne '"' rfl rfl c hc, hne '\\' rfl rfl c hc, hne '\r' rfl rfl c hc⟩
  rwa [hlayout] at hreads

/-- A piece without a quote in a quoted text. -/
theorem readsSource_javaPiece {part : TextPiece} (hfine : part.Fine)
    (hquote : ∀ value, part = .text value → '"' ∉ value) :
    javaQuoted.ReadsSource (javaPiece part) (part.written javaLayout fun c ↦ [c]) := by
  cases part with
  | mark c => exact readsSource_solid (List.forall_mem_singleton.mpr (.inl hfine))
  | text value =>
    have hcontent : javaQuoted.ReadsSource (value.flatMap javaContent) (value.flatMap ([·])) := by
      refine QuotedSyntax.readsSource_flatMap fun c hc ↦ readsSource_javaContent ?_
      rintro rfl
      exact hquote value rfl hc
    rw [javaPiece_text]
    exact readsSource_javaQuote.append (hcontent.append readsSource_javaQuote)
  | word chars => exact readsSource_solid fun c hc ↦ .inr (hfine.2 c hc)
  | blank chars =>
    rw [javaPiece, TextPiece.written, List.map_id]
    refine readsSource_chars fun c hc ↦ ?_
    rcases hfine.2 c hc with rfl | rfl <;> decide

/-- A piece with a quote in a quoted text. -/
theorem closes_javaPiece {value : List Char} (hquote : '"' ∈ value) :
    javaQuoted.Closes (javaPiece (.text value)) := by
  have hreads : ∀ c ∈ value,
      javaQuoted.ReadsSource (javaContent c) [c] ∨ javaQuoted.Closes (javaContent c) := by
    intro c _
    by_cases hc : c = '"'
    · exact .inr (hc ▸ closes_javaContent)
    · exact .inl (readsSource_javaContent hc)
  rw [javaPiece_text]
  exact readsSource_javaQuote.closes_append
    ((QuotedSyntax.closes_flatMap hreads ⟨'"', hquote, closes_javaContent⟩).append _)

theorem readsSource_or_closes_javaPiece {part : TextPiece} (hfine : part.Fine) :
    javaQuoted.ReadsSource (javaPiece part) (part.written javaLayout fun c ↦ [c]) ∨
      javaQuoted.Closes (javaPiece part) := by
  by_cases hquote : ∀ value, part = .text value → '"' ∉ value
  · exact .inl (readsSource_javaPiece hfine hquote)
  · simp only [not_forall, not_not] at hquote
    obtain ⟨value, rfl, hmem⟩ := hquote
    exact .inr (closes_javaPiece hmem)

theorem javaLiteral_of_readsSource {source content : List Char}
    (hreads : javaQuoted.ReadsSource source content) :
    javaLiteral ('"' :: (source ++ ['"'])) = some content := by
  have hread : javaQuoted.readQuoted 0 (translateEscapes 0 (source ++ ['"'])) =
      some (content ++ [], []) := hreads ['"']
  rw [List.append_nil] at hread
  rw [javaLiteral, translateEscapes_cons _ (by decide)]
  simp only [hread]

theorem javaLiteral_of_closes {source : List Char} (hcloses : javaQuoted.Closes source) :
    javaLiteral ('"' :: (source ++ ['"'])) = none := by
  obtain ⟨content, left, hread, hleft⟩ := hcloses ['"'] (List.cons_ne_nil _ _)
  obtain ⟨c, left, rfl⟩ := List.exists_cons_of_ne_nil hleft
  change javaQuoted.readQuoted 0 (translateEscapes 0 (source ++ ['"'])) = _ at hread
  rw [javaLiteral, translateEscapes_cons _ (by decide)]
  simp only [hread]

section Denoted

variable {printing : Printing} {floats : FloatText}

theorem denoted_go_iff (laws : floats.Laws) {value : Json} (hvalid : value.Valid) :
    denoted floats .go (rawMark :: (prettyText floats value ++ [rawMark])) = some value ↔
      Embeddable .go value := by
  have hread : readText floats jsonDialect (prettyText floats value) = some value := by
    rw [readText_prettyText laws knowsEscapes_json hvalid, image_json hvalid]
  have hreturn : (prettyText floats value).filter (· ≠ '\r') = prettyText floats value := by
    rw [List.filter_eq_self]
    rintro c hc
    refine decide_eq_true ?_
    rintro rfl
    exact not_mem_prettyText laws hvalid (by decide) (by decide) hc
  have hmark := not_mem_prettyText_iff laws hvalid (c := rawMark) (by decide) (by decide)
  have horder := not_mem_prettyText_iff laws hvalid (c := byteOrderMark) (by decide) (by decide)
  have hboth : Embeddable .go value ↔
      value.EveryText (rawMark ∉ ·) ∧ value.EveryText (byteOrderMark ∉ ·) := by
    rw [← Json.everyText_and]
    exact Json.everyText_congr (fun text ↦ @forall_mem_ne_iff text rawMark byteOrderMark) value
  rw [hboth, ← hmark, ← horder, denoted, Option.bind_eq_some_iff]
  constructor
  · rintro ⟨content, hcontent, -⟩
    exact (goLiteral_eq_some_iff.mp hcontent).1
  · intro hplain
    exact ⟨_, goLiteral_eq_some_iff.mpr ⟨hplain, rfl⟩, by rw [hreturn, hread]⟩

theorem denoted_python_iff (laws : floats.Laws) {value : Json} (hvalid : value.Valid) :
    denoted floats .python (prettyText floats value) = some value ↔ Embeddable .python value := by
  have hread : denoted floats .python (prettyText floats value) = image pythonDialect value :=
    readText_prettyText laws knowsEscapes_python hvalid
  rw [hread, image_python_eq_self_iff hvalid]

theorem denoted_typeScript_iff (laws : floats.Laws) {value : Json} (hvalid : value.Valid) :
    denoted floats .typeScript (prettyText floats value) = some value ↔
      Embeddable .typeScript value := by
  have hread : denoted floats .typeScript (prettyText floats value) = image scriptDialect value :=
    readText_prettyText laws knowsEscapes_script hvalid
  rw [hread, image_script_eq_self_iff hvalid]

theorem transparent_json : jsonDialect.Transparent where
  word chars value hword := by
    change jsonWord chars = some value at hword
    unfold jsonWord at hword
    split_ifs at hword
    · exact .inl (Option.some.inj hword).symm
    · exact .inr ⟨true, (Option.some.inj hword).symm⟩
    · exact .inr ⟨false, (Option.some.inj hword).symm⟩
  own _ := rfl

/-- The text in a string of Java is the printed value with its quoted texts as they are, if no quote
is in them.  The first one that is ends the string. -/
theorem javaLiteral_prettyText (laws : floats.Laws) {value : Json} (hvalid : value.Valid) :
    javaLiteral ('"' :: ((prettyText floats value).flatMap javaChar ++ ['"'])) = none ∧
        ¬ value.EveryText ('"' ∉ ·) ∨
      javaLiteral ('"' :: ((prettyText floats value).flatMap javaChar ++ ['"'])) =
          some (render javaLayout (fun c ↦ [c]) (pieces floats 0 value)) ∧
        value.EveryText ('"' ∉ ·) := by
  have harranged := arrangeable_pieces laws hvalid 0 [] trivial fun _ h ↦ by cases h
  rw [List.append_nil] at harranged
  rw [prettyText, flatMap_javaPiece, ← @allTexts_pieces floats _ 0]
  by_cases hquote : AllTexts ('"' ∉ ·) (pieces floats 0 value)
  · refine .inr ⟨javaLiteral_of_readsSource (QuotedSyntax.readsSource_flatMap ?_), hquote⟩
    intro part hpart
    exact readsSource_javaPiece (fine_of_mem harranged hpart) fun text htext ↦
      hquote text (htext ▸ hpart)
  · obtain ⟨text, htext, hmem⟩ : ∃ text, .text text ∈ pieces floats 0 value ∧ '"' ∈ text := by
      simpa [AllTexts] using hquote
    refine .inl ⟨javaLiteral_of_closes ?_, hquote⟩
    exact QuotedSyntax.closes_flatMap
      (fun part hpart ↦ readsSource_or_closes_javaPiece (fine_of_mem harranged hpart))
      ⟨_, htext, closes_javaPiece hmem⟩

theorem denoted_java_iff (laws : floats.Laws) {value : Json} (hvalid : value.Valid) :
    denoted floats .java ('"' :: ((prettyText floats value).flatMap javaChar ++ ['"'])) =
      some value ↔ Embeddable .java value := by
  have hboth : Embeddable .java value ↔ value.EveryText ('"' ∉ ·) ∧
      value.EveryText fun text ↦ ∀ c ∈ text, c ≠ '\\' ∧ jsonQuoted.inside c = true := by
    rw [← Json.everyText_and, Embeddable]
    refine Json.everyText_congr (fun text ↦ ?_) value
    rw [forall₂_and]
    exact and_congr List.forall_mem_ne' (forall₂_congr fun c _ ↦
      and_congr_right fun _ ↦ decide_eq_true_iff.symm)
  rw [hboth, denoted]
  rcases javaLiteral_prettyText laws hvalid with ⟨hnone, hquote⟩ | ⟨hsome, hquote⟩
  · rw [hnone]
    exact iff_of_false (fun h ↦ by cases h) fun h ↦ hquote h.1
  · have hraw := readText_raw_iff laws transparent_json hvalid (image_json hvalid)
      (fun _ ↦ isLayout_javaLayout) hquote
    rw [hsome, Option.bind_some, and_iff_right hquote, hraw]
    rfl

theorem toList_quoted (mark text : String) :
    s!"{mark}{text}{mark}".toList = mark.toList ++ (text.toList ++ mark.toList) := by
  simp [toString]

/-- A literal stands for its value exactly if the value is one that can be embedded. -/
theorem denoted_literal_iff (hprints : PrintsPretty printing floats) (language : Language)
    {value : Json} (hvalid : value.Valid) :
    denoted floats language (literal printing language value).toList = some value ↔
      Embeddable language value := by
  have hpretty := hprints.pretty value hvalid
  cases language with
  | python =>
    rw [literal, hpretty]
    exact denoted_python_iff hprints.laws hvalid
  | typeScript =>
    rw [literal, hpretty]
    exact denoted_typeScript_iff hprints.laws hvalid
  | go =>
    have hliteral : (literal printing .go value).toList =
        rawMark :: (prettyText floats value ++ [rawMark]) :=
      (toList_quoted "\x60" _).trans (hpretty ▸ rfl)
    rw [hliteral]
    exact denoted_go_iff hprints.laws hvalid
  | java =>
    have hliteral : (literal printing .java value).toList =
        '"' :: ((prettyText floats value).flatMap javaChar ++ ['"']) :=
      (toList_quoted "\"" _).trans (by rw [toList_escaped, hpretty]; rfl)
    rw [hliteral]
    exact denoted_java_iff hprints.laws hvalid

end Denoted

end MongoCore.Mcp.EmbeddedLiterals
