import MongoCore.Compiled.Translator
import MongoCore.Library.EntryMap

/-!
# The matches of a template

A pattern of intents is cut at its braces.  The texts between the placeholders become the literal
parts of a regular expression, and the placeholders its groups.  What a group captures is recorded
under the name of its placeholder, converted by the type that stands at its position in the list of
parameters.

A match is sound if the recorded values come from texts that, put into the pattern, give the intent
back, each converted by the type that is declared for its name.  The main result is the exact
condition on a template under which all its matches are sound.
-/

namespace MongoCore.Compiled

open MongoCore.Data MongoCore.Library MongoCore.Operations.Placeholders

/-! ## The parts of a pattern -/

/-- The text before the first opening braces. -/
def leadingText (pattern : String) : List Char := (splitOpen pattern.toList).headD []

def openedParts (pattern : String) : List (List Char) := (splitOpen pattern.toList).drop 1

/-- The parts with closing braces: a name and the text that follows. -/
def closedParts (pattern : String) : List (List Char × List Char) :=
  (openedParts pattern).filterMap splitClose

def parameterNames (pattern : String) : List String :=
  (closedParts pattern).map fun part ↦ String.ofList part.1

/-- A part with a text in place of its placeholder.  Braces that are not closed are text. -/
def fillPart (texts : String → List Char) (part : List Char) : List Char :=
  match splitClose part with
  | some (name, after) => texts (String.ofList name) ++ after
  | none => openBraces ++ part

def fillPattern (texts : String → List Char) (pattern : String) : List Char :=
  leadingText pattern ++ (openedParts pattern).flatMap (fillPart texts)

theorem splitOpen_ne_nil (text : List Char) : splitOpen text ≠ [] := by
  fun_cases splitOpen text <;> simp_all

/-- The parts of a text, with the opening braces between them, are the text. -/
theorem headD_append_flatMap_splitOpen (text : List Char) :
    (splitOpen text).headD [] ++ ((splitOpen text).drop 1).flatMap (openBraces ++ ·) = text := by
  fun_induction splitOpen text with
  | case1 => rfl
  | case2 rest ih =>
    cases hparts : splitOpen rest with
    | nil => exact absurd hparts (splitOpen_ne_nil rest)
    | cons part parts =>
      rw [hparts] at ih
      simpa [openBraces] using ih
  | case3 c rest _ hparts => exact absurd hparts (splitOpen_ne_nil rest)
  | case4 c rest _ part parts hparts ih =>
    rw [hparts] at ih
    simpa using ih

/-- The name and the text of a part, with the closing braces between them, are the part. -/
theorem eq_of_splitClose {part name after : List Char} (h : splitClose part = some (name, after)) :
    part = name ++ closeBraces ++ after := by
  fun_induction splitClose part generalizing name with
  | case1 => cases h
  | case2 rest =>
    obtain ⟨rfl, rfl⟩ := Prod.mk.inj (Option.some.inj h)
    rfl
  | case3 c rest _ ih =>
    obtain ⟨⟨tail, back⟩, hsplit, hpair⟩ := Option.map_eq_some_iff.mp h
    obtain ⟨rfl, rfl⟩ := Prod.mk.inj hpair
    rw [ih hsplit]
    rfl

/-- A pattern with its own placeholders put in is the pattern. -/
theorem fillPattern_placeholder (pattern : String) :
    fillPattern (fun name ↦ placeholder name.toList) pattern = pattern.toList := by
  have hparts : ∀ part ∈ openedParts pattern,
      fillPart (fun name ↦ placeholder name.toList) part = openBraces ++ part := by
    intro part _
    unfold fillPart
    split
    case h_1 name after hsplit =>
      simp only [eq_of_splitClose hsplit, placeholder, String.toList_ofList, List.append_assoc]
    case h_2 => rfl
  rw [fillPattern, List.flatMap_congr hparts]
  exact headD_append_flatMap_splitOpen pattern.toList

/-! ## Texts in the place of the groups -/

/-- Texts, each followed by the literal part after its placeholder. -/
def interleave : List (List Char) → List (List Char × List Char) → List Char
  | text :: texts, part :: parts => text ++ part.2 ++ interleave texts parts
  | _, _ => []

/-- The literal parts of a pattern with a text for each group. -/
def withTexts (pattern : String) (texts : List (List Char)) : List Char :=
  leadingText pattern ++ interleave texts (closedParts pattern)

def textsOf (texts : String → List Char) (parts : List (List Char × List Char)) :
    List (List Char) :=
  parts.map fun part ↦ texts (String.ofList part.1)

theorem map_parameterNames (texts : String → List Char) (pattern : String) :
    (parameterNames pattern).map texts = textsOf texts (closedParts pattern) := by
  rw [parameterNames, textsOf, List.map_map]
  rfl

theorem flatMap_fillPart_of_closed (texts : String → List Char) {parts : List (List Char)}
    (hclosed : ∀ part ∈ parts, (splitClose part).isSome = true) :
    parts.flatMap (fillPart texts) =
      interleave (textsOf texts (parts.filterMap splitClose)) (parts.filterMap splitClose) := by
  induction parts with
  | nil => rfl
  | cons part parts ih =>
    obtain ⟨hpart, hrest⟩ := List.forall_mem_cons.mp hclosed
    obtain ⟨⟨name, after⟩, hsplit⟩ := Option.isSome_iff_exists.mp hpart
    rw [List.flatMap_cons, ih hrest, List.filterMap_cons_some hsplit, fillPart, hsplit]
    rfl

/-- If all braces are closed, a pattern has no other literal parts. -/
theorem fillPattern_of_closed {pattern : String}
    (hclosed : ∀ part ∈ openedParts pattern, (splitClose part).isSome = true)
    (texts : String → List Char) :
    fillPattern texts pattern = withTexts pattern ((parameterNames pattern).map texts) := by
  rw [fillPattern, flatMap_fillPart_of_closed texts hclosed, map_parameterNames]
  rfl

/-- Braces that are not closed add to the length. -/
theorem length_interleave_le (texts : String → List Char) (parts : List (List Char)) :
    (interleave (textsOf texts (parts.filterMap splitClose))
        (parts.filterMap splitClose)).length ≤ (parts.flatMap (fillPart texts)).length ∧
      ((parts.flatMap (fillPart texts)).length =
          (interleave (textsOf texts (parts.filterMap splitClose))
            (parts.filterMap splitClose)).length →
        ∀ part ∈ parts, (splitClose part).isSome = true) := by
  induction parts with
  | nil => exact ⟨Nat.le_refl _, fun _ _ h ↦ absurd h List.not_mem_nil⟩
  | cons part parts ih =>
    obtain ⟨hle, hclosed⟩ := ih
    cases hsplit : splitClose part with
    | none =>
      rw [List.filterMap_cons_none hsplit, List.flatMap_cons, List.length_append, fillPart, hsplit]
      refine ⟨Nat.le_trans hle (Nat.le_add_left _ _), fun heq ↦ ?_⟩
      have hbraces : (openBraces ++ part).length = part.length + 2 := by
        rw [List.length_append, Nat.add_comm]
        rfl
      simp only [hbraces] at heq
      omega
    | some split =>
      obtain ⟨name, after⟩ := split
      rw [List.filterMap_cons_some hsplit, List.flatMap_cons, fillPart, hsplit, textsOf,
        List.map_cons, interleave]
      simp only [List.length_append]
      refine ⟨Nat.add_le_add_left hle _, fun heq ↦ ?_⟩
      refine List.forall_mem_cons.mpr ⟨by rw [hsplit]; rfl, ?_⟩
      exact hclosed (Nat.add_left_cancel heq)

/-- A filled pattern that is no longer than its literal parts with the texts of the names has no
braces that are not closed. -/
theorem closed_of_length_fillPattern {pattern : String} {texts : String → List Char}
    (hlength : (fillPattern texts pattern).length =
      (withTexts pattern ((parameterNames pattern).map texts)).length) :
    ∀ part ∈ openedParts pattern, (splitClose part).isSome = true := by
  apply (length_interleave_le texts (openedParts pattern)).2
  rw [fillPattern, withTexts, List.length_append, List.length_append, map_parameterNames] at hlength
  exact Nat.add_left_cancel hlength

/-- Of the texts that are not empty, those of one letter each are the shortest, and they can be told
from the result. -/
theorem interleave_letters {texts letters : List (List Char)}
    {parts : List (List Char × List Char)} (hletters : ∀ text ∈ letters, text.length = 1)
    (htexts : ∀ text ∈ texts, text ≠ []) (hlength : letters.length = parts.length)
    (hlength' : texts.length = parts.length) :
    (interleave letters parts).length ≤ (interleave texts parts).length ∧
      (interleave texts parts = interleave letters parts → texts = letters) := by
  induction parts generalizing texts letters with
  | nil =>
    rw [List.eq_nil_of_length_eq_zero hlength, List.eq_nil_of_length_eq_zero hlength']
    exact ⟨Nat.le_refl _, fun _ ↦ rfl⟩
  | cons part parts ih =>
    obtain ⟨letter, letters, rfl⟩ := List.exists_cons_of_length_eq_add_one hlength
    obtain ⟨text, texts, rfl⟩ := List.exists_cons_of_length_eq_add_one hlength'
    obtain ⟨hletter, hletters⟩ := List.forall_mem_cons.mp hletters
    obtain ⟨htext, htexts⟩ := List.forall_mem_cons.mp htexts
    obtain ⟨hle, hunique⟩ := ih hletters htexts (Nat.succ.inj hlength) (Nat.succ.inj hlength')
    have hpos := List.length_pos_of_ne_nil htext
    simp only [interleave, List.append_assoc]
    refine ⟨by simp only [List.length_append]; omega, fun heq ↦ ?_⟩
    have hlengths := congrArg List.length heq
    simp only [List.length_append] at hlengths
    obtain ⟨hfirst, hrest⟩ := List.append_inj heq (by omega)
    rw [hfirst, hunique (List.append_cancel_left hrest)]

/-- Texts of one letter each are determined by the intent. -/
theorem eq_of_withTexts_eq {pattern : String} {texts letters : List (List Char)}
    (hletters : ∀ text ∈ letters, text.length = 1) (htexts : ∀ text ∈ texts, text ≠ [])
    (hlength : letters.length = (closedParts pattern).length)
    (hlength' : texts.length = (closedParts pattern).length)
    (h : withTexts pattern texts = withTexts pattern letters) : texts = letters :=
  (interleave_letters hletters htexts hlength hlength').2 (List.append_cancel_left h)

/-! ## Recorded values -/

section Values

variable {Regex : Type} (crates : Crates Regex)

/-- A hash map gives the entry that was set last. -/
theorem lookup_setEntry (name other : String) (value : Json) (values : List (String × Json)) :
    (setEntry name value values).lookup other = ((name, value) :: values).lookup other := by
  have hfilter : other ≠ name → ∀ values : List (String × Json),
      (values.filter fun entry ↦ entry.1 ≠ name).lookup other = values.lookup other := by
    intro hne values
    induction values with
    | nil => rfl
    | cons entry values ih =>
      by_cases hentry : entry.1 = name
      · rw [List.filter_cons_of_neg (by simpa using hentry), ih, List.lookup_cons, hentry,
          beq_false_of_ne hne]
      · rw [List.filter_cons_of_pos (by simpa using hentry), List.lookup_cons, List.lookup_cons, ih]
  by_cases hname : other = name
  · rw [setEntry, List.lookup_cons, List.lookup_cons, hname, beq_self_eq_true]
  · rw [setEntry, List.lookup_cons, List.lookup_cons, beq_false_of_ne hname]
    exact hfilter hname values

theorem lookup_foldl_setEntry (pairs values : List (String × Json)) (name : String) :
    (pairs.foldl (fun values pair ↦ setEntry pair.1 pair.2 values) values).lookup name =
      (pairs.reverse ++ values).lookup name := by
  induction pairs generalizing values with
  | nil => rfl
  | cons pair pairs ih =>
    rw [List.foldl_cons, ih, List.lookup_append, lookup_setEntry, List.reverse_cons,
      List.append_assoc, List.lookup_append, List.singleton_append]

/-- The names with the values that the groups give them, in the order of the groups. -/
def capturedPairs (template : RegisteredTemplate Regex) (groups : List (Option String)) :
    List (String × Json) :=
  template.paramNames.zipIdx.filterMap fun (name, i) ↦
    groups[i]?.join.map fun text ↦ (name, captureValue crates template.paramTypes[i]? text)

theorem captureValues_eq_foldl (template : RegisteredTemplate Regex)
    (groups : List (Option String)) :
    captureValues crates template groups = (capturedPairs crates template groups).foldl
      (fun values pair ↦ setEntry pair.1 pair.2 values) [] := by
  rw [captureValues, capturedPairs, List.foldl_filterMap]
  congr 1
  funext values entry
  obtain ⟨name, i⟩ := entry
  dsimp only
  cases groups[i]?.join <;> rfl

variable {crates}

theorem join_getElem?_map_some (texts : List String) (i : ℕ) :
    (texts.map some)[i]?.join = texts[i]? := by
  rw [List.getElem?_map]
  cases texts[i]? <;> rfl

theorem mem_capturedPairs {template : RegisteredTemplate Regex} {texts : List String}
    {name : String} {value : Json} :
    (name, value) ∈ capturedPairs crates template (texts.map some) ↔
      ∃ (i : ℕ) (text : String), template.paramNames[i]? = some name ∧ texts[i]? = some text ∧
        value = captureValue crates template.paramTypes[i]? text := by
  rw [capturedPairs, List.mem_filterMap]
  constructor
  · rintro ⟨⟨other, i⟩, hmem, hsome⟩
    obtain ⟨text, htext, hpair⟩ := Option.map_eq_some_iff.mp hsome
    obtain ⟨rfl, rfl⟩ := Prod.mk.inj hpair
    rw [join_getElem?_map_some] at htext
    exact ⟨i, text, List.mem_zipIdx_iff_getElem?.mp hmem, htext, rfl⟩
  · rintro ⟨i, text, hname, htext, rfl⟩
    refine ⟨(name, i), List.mem_zipIdx_iff_getElem?.mpr hname, ?_⟩
    dsimp only
    rw [join_getElem?_map_some, htext]
    rfl

/-- A recorded value is that of a group at a position of its name. -/
theorem exists_of_lookup_captureValues {template : RegisteredTemplate Regex} {texts : List String}
    {name : String} {value : Json}
    (h : (captureValues crates template (texts.map some)).lookup name = some value) :
    ∃ (i : ℕ) (text : String), template.paramNames[i]? = some name ∧ texts[i]? = some text ∧
      value = captureValue crates template.paramTypes[i]? text := by
  rw [captureValues_eq_foldl, lookup_foldl_setEntry, List.append_nil] at h
  obtain ⟨front, back, hsplit, -⟩ := List.lookup_eq_some_iff.mp h
  apply mem_capturedPairs.mp
  rw [← List.mem_reverse, hsplit]
  exact List.mem_append_right front List.mem_cons_self

/-- A value is recorded for the name of every group. -/
theorem exists_lookup_captureValues {template : RegisteredTemplate Regex} {texts : List String}
    {i : ℕ} {name text : String} (hname : template.paramNames[i]? = some name)
    (htext : texts[i]? = some text) :
    ∃ value, (captureValues crates template (texts.map some)).lookup name = some value := by
  rw [captureValues_eq_foldl, lookup_foldl_setEntry, List.append_nil]
  apply exists_lookup_of_mem
  have hmem : (name, captureValue crates template.paramTypes[i]? text) ∈
      capturedPairs crates template (texts.map some) :=
    mem_capturedPairs.mpr ⟨i, text, hname, htext, rfl⟩
  exact List.mem_map_of_mem (List.mem_reverse.mpr hmem)

/-- Without groups nothing is recorded. -/
theorem lookup_captureValues_nil (template : RegisteredTemplate Regex) (name : String) :
    (captureValues crates template []).lookup name = none := by
  have hpairs : capturedPairs crates template [] = [] := by simp [capturedPairs]
  rw [captureValues_eq_foldl, hpairs]
  rfl

end Values

/-! ## What the crates promise -/

section Laws

variable {Regex : Type} (crates : Crates Regex)

/-- The text of the regular expression of a pattern. -/
def patternSource (pattern : String) : List Char :=
  ['^'] ++ crates.escape (leadingText pattern) ++
    ((closedParts pattern).flatMap fun (_, after) ↦ "(.+?)".toList ++ crates.escape after) ++ ['$']

/-- A pattern is compiled to its expression, if the crate accepts it, and to its names. -/
theorem compilePattern_eq (pattern : String) :
    compilePattern crates pattern =
      ((crates.regex (patternSource crates pattern)).getD crates.emptyRegex,
        parameterNames pattern) := rfl

/-- An intent consists of the literal parts of a pattern and a text for each group, none of them
empty. -/
structure Splits (pattern : String) (texts : List String) (intent : String) : Prop where
  length : texts.length = (closedParts pattern).length
  nonempty : ∀ text ∈ texts, text ≠ ""
  intent : intent.toList = withTexts pattern (texts.map String.toList)

/-- What the expression of a pattern matches: the intents that split, where a group has no line
break.  The groups are texts by which the intent splits.  The expression that is taken where the
crate refuses one matches the empty intent, and has no groups. -/
structure RegexLaws (pattern : String) : Prop where
  sound : ∀ regex, crates.regex (patternSource crates pattern) = some regex →
    ∀ intent groups, crates.captures regex intent = some groups →
      ∃ texts : List String, groups = texts.map some ∧ Splits pattern texts intent
  complete : ∀ regex, crates.regex (patternSource crates pattern) = some regex →
    ∀ intent texts, Splits pattern texts intent → (∀ text ∈ texts, '\n' ∉ text.toList) →
      (crates.captures regex intent).isSome = true
  empty : ∀ intent, crates.captures crates.emptyRegex intent =
    if intent = "" then some [] else none

/-- What the reading of a number promises: it does not give a text, and it accepts a digit and
refuses a letter. -/
structure FloatLaws : Prop where
  number : ∀ text other, crates.parseFloat text ≠ some (.string other)
  digit : (crates.parseFloat "1").isSome = true
  letters : crates.parseFloat "a" = none ∧ crates.parseFloat "b" = none

/-! ## The promise -/

structure DeclaredParameter where
  name : String
  paramType : ParameterType

/-- A template of the language model with the names of its parameters. -/
structure DeclaredTemplate where
  intentPattern : String
  parameters : List DeclaredParameter
  mqlPattern : Json

/-- The template as it is registered, where the types have lost their names. -/
def DeclaredTemplate.toLlmTemplate (template : DeclaredTemplate) : LlmTemplate where
  intentPattern := template.intentPattern
  parameters := template.parameters.map DeclaredParameter.paramType
  mqlPattern := template.mqlPattern

/-- The value recorded for a name is a text, converted by the type that is declared for the name. -/
def Recorded (template : DeclaredTemplate) (values : List (String × Json)) (name text : String) :
    Prop :=
  ∃ value, values.lookup name = some value ∧ (∃ type, value = captureValue crates type text) ∧
    ∀ parameter ∈ template.parameters, parameter.name = name →
      value = captureValue crates (some parameter.paramType) text

/-- Whenever the expression of a template matches an intent, there are texts that give the intent
when they are put in place of the placeholders, and the values recorded are those texts, converted
by the declared types. -/
def SoundMatches (template : DeclaredTemplate) : Prop :=
  ∀ (method database collection intent : String) (groups : List (Option String)),
    let registered := register crates template.toLlmTemplate method database collection
    crates.captures registered.regex intent = some groups →
    ∃ texts : String → String,
      fillPattern (fun name ↦ (texts name).toList) template.intentPattern = intent.toList ∧
      ∀ name ∈ parameterNames template.intentPattern,
        Recorded crates template (captureValues crates registered groups) name (texts name)

/-- The condition: all braces are closed, no name is repeated, the type at the position of a name is
a number exactly if the declared one is, and the expression is accepted. -/
structure WellDeclared (template : DeclaredTemplate) : Prop where
  closed : ∀ part ∈ openedParts template.intentPattern, (splitClose part).isSome = true
  nodup : (parameterNames template.intentPattern).Nodup
  types : ∀ (i : ℕ) (name : String), (parameterNames template.intentPattern)[i]? = some name →
    ∀ parameter ∈ template.parameters, parameter.name = name →
      ((template.parameters[i]?.map DeclaredParameter.paramType = some .number) ↔
        parameter.paramType = .number)
  compiles : (crates.regex (patternSource crates template.intentPattern)).isSome = true ∨
    template.intentPattern = ""

variable {crates}

theorem length_parameterNames (pattern : String) :
    (parameterNames pattern).length = (closedParts pattern).length :=
  List.length_map ..

/-- Only numbers are converted. -/
theorem captureValue_of_ne {type : Option ParameterType} (h : type ≠ some .number) (text : String) :
    captureValue crates type text = .string text := by
  unfold captureValue
  split
  · exact absurd rfl h
  · rfl

theorem captureValue_congr {type other : Option ParameterType}
    (h : type = some .number ↔ other = some .number) (text : String) :
    captureValue crates type text = captureValue crates other text := by
  by_cases htype : type = some .number
  · rw [htype, h.mp htype]
  · rw [captureValue_of_ne htype, captureValue_of_ne (mt h.mpr htype)]

/-- A text that is no number is its own value, and the value of no other text. -/
theorem eq_of_captureValue (hfloat : FloatLaws crates) {type other : Option ParameterType}
    {text letter : String} (hletter : crates.parseFloat letter = none)
    (h : captureValue crates type letter = captureValue crates other text) : text = letter := by
  have hleft : captureValue crates type letter = .string letter := by
    by_cases htype : type = some .number
    · rw [htype, captureValue, hletter]
      rfl
    · exact captureValue_of_ne htype letter
  rw [hleft] at h
  by_cases hother : other = some .number
  · rw [hother, captureValue] at h
    cases hnumber : crates.parseFloat text with
    | none =>
      rw [hnumber] at h
      exact (Json.string.inj h).symm
    | some value =>
      rw [hnumber] at h
      exact absurd (hnumber.trans (congrArg some h.symm)) (hfloat.number text letter)
  · rw [captureValue_of_ne hother] at h
    exact (Json.string.inj h).symm

/-- The value of a digit tells whether it was converted. -/
theorem number_iff_of_captureValue (hfloat : FloatLaws crates) {type other : Option ParameterType}
    {text : String} (h : captureValue crates type "1" = captureValue crates other text) :
    type = some .number ↔ other = some .number := by
  obtain ⟨one, hone⟩ := Option.isSome_iff_exists.mp hfloat.digit
  have hvalue : captureValue crates (some .number) "1" = one := by
    rw [captureValue, hone]
    rfl
  have hone' : ∀ other, one ≠ .string other :=
    fun other heq ↦ hfloat.number "1" other (hone.trans (congrArg some heq))
  by_cases htype : type = some .number
  · refine iff_of_true htype ?_
    by_contra hother
    rw [htype, hvalue, captureValue_of_ne hother] at h
    exact hone' text h
  · refine iff_of_false htype fun hother ↦ ?_
    rw [captureValue_of_ne htype, hother, captureValue] at h
    cases hnumber : crates.parseFloat text with
    | none =>
      rw [hnumber] at h
      have htext : "1" = text := Json.string.inj h
      rw [← htext, hone] at hnumber
      cases hnumber
    | some value =>
      rw [hnumber] at h
      exact hfloat.number text "1" (hnumber.trans (congrArg some h.symm))

end Laws

/-! ## The condition is necessary -/

section Condition

variable {Regex : Type} {crates : Crates Regex} {template : DeclaredTemplate}

theorem toList_of_letter {letter : String} (h : letter ∈ ["1", "a", "b"]) :
    ∃ c, letter.toList = [c] ∧ c ≠ '\n' := by
  simp only [List.mem_cons, List.not_mem_nil, or_false] at h
  rcases h with rfl | rfl | rfl
  · exact ⟨'1', rfl, by decide⟩
  · exact ⟨'a', rfl, by decide⟩
  · exact ⟨'b', rfl, by decide⟩

/-- An expression captures texts of one letter each as they are. -/
theorem captures_letters {pattern : String} (hlaws : RegexLaws crates pattern) {regex : Regex}
    (hregex : crates.regex (patternSource crates pattern) = some regex) {letters : List String}
    (hlength : letters.length = (closedParts pattern).length)
    (hletters : ∀ letter ∈ letters, letter ∈ ["1", "a", "b"]) :
    crates.captures regex (String.ofList (withTexts pattern (letters.map String.toList))) =
      some (letters.map some) := by
  have hone : ∀ letter ∈ letters, letter.toList.length = 1 ∧ '\n' ∉ letter.toList := by
    intro letter hletter
    obtain ⟨c, hc, hline⟩ := toList_of_letter (hletters letter hletter)
    rw [hc, List.mem_singleton]
    exact ⟨rfl, Ne.symm hline⟩
  have hsplits : Splits pattern letters
      (String.ofList (withTexts pattern (letters.map String.toList))) := by
    refine ⟨hlength, fun letter hletter hempty ↦ ?_, String.toList_ofList⟩
    have hlen := (hone letter hletter).1
    rw [hempty] at hlen
    exact absurd hlen (by decide)
  obtain ⟨groups, hgroups⟩ := Option.isSome_iff_exists.mp
    (hlaws.complete regex hregex _ _ hsplits fun letter hletter ↦ (hone letter hletter).2)
  obtain ⟨texts, rfl, hother⟩ := hlaws.sound regex hregex _ _ hgroups
  have htexts : texts.map String.toList = letters.map String.toList := by
    apply eq_of_withTexts_eq _ _ _ _ (hother.intent.symm.trans String.toList_ofList)
    · intro text htext
      obtain ⟨letter, hletter, rfl⟩ := List.mem_map.mp htext
      exact (hone letter hletter).1
    · intro text htext hempty
      obtain ⟨other, hmem, rfl⟩ := List.mem_map.mp htext
      exact hother.nonempty other hmem (String.toList_eq_nil_iff.mp hempty)
    · rw [List.length_map, hlength]
    · rw [List.length_map, hother.length]
  have hinjective : Function.Injective String.toList := fun _ _ heq ↦ String.toList_injective heq
  rw [hgroups, List.map_injective_iff.mpr hinjective htexts]

/-- What sound matches say of an intent with one letter for each group. -/
theorem SoundMatches.of_letters (h : SoundMatches crates template)
    (hlaws : RegexLaws crates template.intentPattern)
    (hregex : (crates.regex (patternSource crates template.intentPattern)).isSome = true)
    {letters : List String} (hlength : letters.length = (closedParts template.intentPattern).length)
    (hletters : ∀ letter ∈ letters, letter ∈ ["1", "a", "b"]) :
    ∃ texts : String → String,
      fillPattern (fun name ↦ (texts name).toList) template.intentPattern =
          withTexts template.intentPattern (letters.map String.toList) ∧
        ∀ name ∈ parameterNames template.intentPattern, ∃ (i : ℕ) (letter : String),
          (parameterNames template.intentPattern)[i]? = some name ∧ letters[i]? = some letter ∧
          (∃ type, captureValue crates (template.parameters[i]?.map DeclaredParameter.paramType)
            letter = captureValue crates type (texts name)) ∧
          ∀ parameter ∈ template.parameters, parameter.name = name →
            captureValue crates (template.parameters[i]?.map DeclaredParameter.paramType) letter =
              captureValue crates (some parameter.paramType) (texts name) := by
  obtain ⟨regex, hregex⟩ := Option.isSome_iff_exists.mp hregex
  have hcaptures := captures_letters hlaws hregex hlength hletters
  have hcompiled : (register crates template.toLlmTemplate "" "" "").regex = regex := by
    have hsource := congrArg Prod.fst (compilePattern_eq crates template.intentPattern)
    rw [hregex] at hsource
    exact hsource
  rw [← hcompiled] at hcaptures
  obtain ⟨texts, hfill, hrecorded⟩ := h "" "" "" _ _ hcaptures
  refine ⟨texts, hfill.trans String.toList_ofList, fun name hname ↦ ?_⟩
  obtain ⟨value, hvalue, htype, hdeclared⟩ := hrecorded name hname
  obtain ⟨i, letter, hindex, hletter, rfl⟩ := exists_of_lookup_captureValues hvalue
  have htypes : (register crates template.toLlmTemplate "" "" "").paramTypes[i]? =
      template.parameters[i]?.map DeclaredParameter.paramType := List.getElem?_map ..
  rw [htypes] at htype hdeclared
  exact ⟨i, letter, hindex, hletter, htype, hdeclared⟩

/-- A letter is recorded as a text. -/
theorem text_eq_letter (hfloat : FloatLaws crates) {type other : Option ParameterType}
    {letter text : String} (hletter : letter ∈ ["a", "b"])
    (h : captureValue crates type letter = captureValue crates other text) : text = letter := by
  simp only [List.mem_cons, List.not_mem_nil, or_false] at hletter
  rcases hletter with rfl | rfl
  · exact eq_of_captureValue hfloat hfloat.letters.1 h
  · exact eq_of_captureValue hfloat hfloat.letters.2 h

theorem SoundMatches.closed (h : SoundMatches crates template)
    (hlaws : RegexLaws crates template.intentPattern) (hfloat : FloatLaws crates)
    (hregex : (crates.regex (patternSource crates template.intentPattern)).isSome = true) :
    ∀ part ∈ openedParts template.intentPattern, (splitClose part).isSome = true := by
  obtain ⟨texts, hfill, hnames⟩ := h.of_letters hlaws hregex
    (List.length_replicate (a := "a"))
    fun letter hletter ↦ by simp [List.eq_of_mem_replicate hletter]
  have htexts : (parameterNames template.intentPattern).map (fun name ↦ (texts name).toList) =
      (List.replicate (closedParts template.intentPattern).length "a").map String.toList := by
    rw [List.map_replicate, ← length_parameterNames, List.eq_replicate_iff]
    refine ⟨List.length_map .., fun text htext ↦ ?_⟩
    obtain ⟨name, hname, rfl⟩ := List.mem_map.mp htext
    obtain ⟨i, letter, -, hletter, ⟨type, hvalue⟩, -⟩ := hnames name hname
    obtain rfl := List.eq_of_mem_replicate (List.mem_of_getElem? hletter)
    rw [text_eq_letter hfloat (by simp) hvalue]
  apply closed_of_length_fillPattern
  rw [hfill, htexts]

theorem SoundMatches.nodup (h : SoundMatches crates template)
    (hlaws : RegexLaws crates template.intentPattern) (hfloat : FloatLaws crates)
    (hregex : (crates.regex (patternSource crates template.intentPattern)).isSome = true) :
    (parameterNames template.intentPattern).Nodup := by
  rw [List.nodup_iff_getElem?_ne_getElem?]
  intro i j hij hj heq
  have hlength := length_parameterNames template.intentPattern
  -- a letter at the first of two positions of a name, and another one elsewhere
  let letters := (List.range (closedParts template.intentPattern).length).map fun k ↦
    if k = i then "b" else "a"
  have hletters : ∀ letter ∈ letters, letter ∈ ["a", "b"] := by
    intro letter hletter
    obtain ⟨k, -, rfl⟩ := List.mem_map.mp hletter
    split_ifs <;> simp
  have hletter : ∀ k < (closedParts template.intentPattern).length,
      letters[k]? = some (if k = i then "b" else "a") := by
    intro k hk
    simp [letters, hk]
  have hcount : letters.length = (closedParts template.intentPattern).length := by simp [letters]
  obtain ⟨texts, hfill, hnames⟩ := h.of_letters hlaws hregex hcount
    fun letter hmem ↦ List.mem_cons_of_mem _ (hletters letter hmem)
  have htext : ∀ name ∈ parameterNames template.intentPattern, texts name ∈ letters := by
    intro name hname
    obtain ⟨k, letter, -, hletter, ⟨type, hvalue⟩, -⟩ := hnames name hname
    have hmem := List.mem_of_getElem? hletter
    rw [text_eq_letter hfloat (hletters letter hmem) hvalue]
    exact hmem
  rw [fillPattern_of_closed (h.closed hlaws hfloat hregex)] at hfill
  have hall : (parameterNames template.intentPattern).map (fun name ↦ (texts name).toList) =
      letters.map String.toList := by
    apply eq_of_withTexts_eq _ _ _ _ hfill
    · intro text hmem
      obtain ⟨letter, hletter, rfl⟩ := List.mem_map.mp hmem
      obtain ⟨c, hc, -⟩ := toList_of_letter (List.mem_cons_of_mem _ (hletters letter hletter))
      rw [hc]
      rfl
    · intro text hmem hempty
      obtain ⟨name, hname, rfl⟩ := List.mem_map.mp hmem
      obtain ⟨c, hc, -⟩ :=
        toList_of_letter (List.mem_cons_of_mem _ (hletters _ (htext name hname)))
      exact List.cons_ne_nil _ _ (hc.symm.trans hempty)
    · rw [List.length_map, hcount]
    · rw [List.length_map, hlength]
  have hat : ∀ k : ℕ, (parameterNames template.intentPattern)[k]?.map
      (fun name ↦ (texts name).toList) = letters[k]?.map String.toList := by
    intro k
    rw [← List.getElem?_map, hall, List.getElem?_map]
  have hi := hat i
  rw [heq, hat j, hletter i (by omega), hletter j (by omega), if_pos rfl, if_neg (by omega)] at hi
  exact absurd hi (by decide)

theorem SoundMatches.types (h : SoundMatches crates template)
    (hlaws : RegexLaws crates template.intentPattern) (hfloat : FloatLaws crates)
    (hregex : (crates.regex (patternSource crates template.intentPattern)).isSome = true)
    (i : ℕ) (name : String) (hi : (parameterNames template.intentPattern)[i]? = some name) :
    ∀ parameter ∈ template.parameters, parameter.name = name →
      ((template.parameters[i]?.map DeclaredParameter.paramType = some .number) ↔
        parameter.paramType = .number) := by
  intro parameter hparameter hname
  obtain ⟨texts, -, hnames⟩ := h.of_letters hlaws hregex
    (List.length_replicate (a := "1"))
    fun letter hletter ↦ by simp [List.eq_of_mem_replicate hletter]
  obtain ⟨j, letter, hj, hletter, -, hdeclared⟩ := hnames name (List.mem_of_getElem? hi)
  have hlt : i < (parameterNames template.intentPattern).length :=
    (List.getElem?_eq_some_iff.mp hi).1
  obtain rfl := (List.getElem?_inj hlt (h.nodup hlaws hfloat hregex)).mp (hi.trans hj.symm)
  obtain rfl := List.eq_of_mem_replicate (List.mem_of_getElem? hletter)
  rw [number_iff_of_captureValue hfloat (hdeclared parameter hparameter hname), Option.some.injEq]

/-- An expression that is refused matches the empty intent, where nothing is recorded. -/
theorem SoundMatches.compiles (h : SoundMatches crates template)
    (hlaws : RegexLaws crates template.intentPattern) :
    (crates.regex (patternSource crates template.intentPattern)).isSome = true ∨
      template.intentPattern = "" := by
  cases hregex : crates.regex (patternSource crates template.intentPattern) with
  | some regex => exact .inl rfl
  | none =>
    right
    have hcompiled : (register crates template.toLlmTemplate "" "" "").regex =
        crates.emptyRegex := by
      have hsource := congrArg Prod.fst (compilePattern_eq crates template.intentPattern)
      rw [hregex] at hsource
      exact hsource
    have hcaptures : crates.captures (register crates template.toLlmTemplate "" "" "").regex "" =
        some [] := by
      rw [hcompiled, hlaws.empty, if_pos rfl]
    obtain ⟨texts, hfill, hrecorded⟩ := h "" "" "" _ _ hcaptures
    have hnames : parameterNames template.intentPattern = [] := by
      apply List.eq_nil_iff_forall_not_mem.mpr
      intro name hname
      obtain ⟨value, hvalue, -⟩ := hrecorded name hname
      rw [lookup_captureValues_nil] at hvalue
      cases hvalue
    have hparts : ∀ part ∈ openedParts template.intentPattern, splitClose part = none := by
      have hclosed : closedParts template.intentPattern = [] := List.map_eq_nil_iff.mp hnames
      exact List.filterMap_eq_nil_iff.mp hclosed
    -- without placeholders the filled pattern is the pattern
    have hsame : fillPattern (fun name ↦ (texts name).toList) template.intentPattern =
        fillPattern (fun name ↦ placeholder name.toList) template.intentPattern := by
      rw [fillPattern, fillPattern]
      congr 1
      apply List.flatMap_congr
      intro part hpart
      rw [fillPart, fillPart, hparts part hpart]
    rw [hsame, fillPattern_placeholder] at hfill
    exact String.toList_injective hfill

/-! ## The condition is sufficient -/

def textAt (names texts : List String) (name : String) : String :=
  ((names.zip texts).lookup name).getD ""

theorem map_textAt {names texts : List String} (hnodup : names.Nodup)
    (hlength : texts.length = names.length) : names.map (textAt names texts) = texts := by
  induction names generalizing texts with
  | nil => exact (List.eq_nil_of_length_eq_zero hlength).symm
  | cons name names ih =>
    obtain ⟨text, texts, rfl⟩ := List.exists_cons_of_length_eq_add_one hlength
    obtain ⟨hname, hnodup⟩ := List.nodup_cons.mp hnodup
    rw [List.map_cons]
    congr 1
    · simp [textAt]
    · rw [← ih hnodup (Nat.succ.inj hlength)]
      apply List.map_congr_left
      intro other hother
      have hne : other ≠ name := fun heq ↦ hname (heq ▸ hother)
      rw [ih hnodup (Nat.succ.inj hlength), textAt, textAt, List.zip_cons_cons, List.lookup_cons,
        beq_false_of_ne hne]

theorem recorded_of_wellDeclared (hdeclared : WellDeclared crates template) {texts : List String}
    (hlength : texts.length = (closedParts template.intentPattern).length)
    {method database collection name : String}
    (hname : name ∈ parameterNames template.intentPattern) :
    Recorded crates template
      (captureValues crates (register crates template.toLlmTemplate method database collection)
        (texts.map some)) name (textAt (parameterNames template.intentPattern) texts name) := by
  have hlength' : texts.length = (parameterNames template.intentPattern).length :=
    hlength.trans (length_parameterNames _).symm
  obtain ⟨i, hi⟩ := List.getElem?_of_mem hname
  have hlt : i < (parameterNames template.intentPattern).length :=
    (List.getElem?_eq_some_iff.mp hi).1
  have htext : texts[i]? = some (textAt (parameterNames template.intentPattern) texts name) := by
    rw [← map_textAt hdeclared.nodup hlength', List.getElem?_map, hi,
      map_textAt hdeclared.nodup hlength']
    rfl
  have hnames : (register crates template.toLlmTemplate method database collection).paramNames =
      parameterNames template.intentPattern := rfl
  have htypes : (register crates template.toLlmTemplate method database collection).paramTypes[i]? =
      template.parameters[i]?.map DeclaredParameter.paramType := List.getElem?_map ..
  obtain ⟨value, hvalue⟩ : ∃ value, (captureValues crates
      (register crates template.toLlmTemplate method database collection)
      (texts.map some)).lookup name = some value :=
    exists_lookup_captureValues hi htext
  obtain ⟨j, text, hj, htext', rfl⟩ := exists_of_lookup_captureValues hvalue
  obtain rfl := (List.getElem?_inj hlt hdeclared.nodup).mp (hi.trans (hnames ▸ hj).symm)
  obtain rfl := Option.some.inj (htext.symm.trans htext')
  refine ⟨_, hvalue, ⟨_, rfl⟩, fun parameter hparameter hparameterName ↦ ?_⟩
  rw [htypes]
  apply captureValue_congr
  rw [hdeclared.types i name hi parameter hparameter hparameterName, Option.some.injEq]

/-- The empty pattern has no placeholders. -/
theorem wellDeclared_of_empty (hempty : template.intentPattern = "") :
    WellDeclared crates template where
  closed := by
    rw [hempty]
    exact fun part hpart ↦ absurd hpart List.not_mem_nil
  nodup := by
    rw [hempty]
    exact List.nodup_nil
  types := by
    rw [hempty]
    exact fun i name hi ↦ absurd (List.mem_of_getElem? hi) List.not_mem_nil
  compiles := .inr hempty

/-- All matches of a template are sound if and only if its braces are closed, its names are
distinct, the type at the position of a name is a number exactly if the declared one is, and its
expression is accepted. -/
theorem soundMatches_iff (template : DeclaredTemplate)
    (hlaws : RegexLaws crates template.intentPattern) (hfloat : FloatLaws crates) :
    SoundMatches crates template ↔ WellDeclared crates template := by
  constructor
  · intro h
    rcases h.compiles hlaws with hregex | hempty
    · exact ⟨h.closed hlaws hfloat hregex, h.nodup hlaws hfloat hregex,
        h.types hlaws hfloat hregex, .inl hregex⟩
    · exact wellDeclared_of_empty hempty
  · intro hdeclared method database collection intent groups registered hcaptures
    have hcompiled : registered.regex =
        (crates.regex (patternSource crates template.intentPattern)).getD crates.emptyRegex :=
      congrArg Prod.fst (compilePattern_eq crates template.intentPattern)
    rw [hcompiled] at hcaptures
    cases hregex : crates.regex (patternSource crates template.intentPattern) with
    | some regex =>
      rw [hregex, Option.getD_some] at hcaptures
      obtain ⟨texts, rfl, hsplits⟩ := hlaws.sound regex hregex intent groups hcaptures
      have hlength : texts.length = (parameterNames template.intentPattern).length :=
        hsplits.length.trans (length_parameterNames _).symm
      refine ⟨textAt (parameterNames template.intentPattern) texts, ?_, fun name hname ↦
        recorded_of_wellDeclared hdeclared hsplits.length hname⟩
      calc fillPattern (fun name ↦
            (textAt (parameterNames template.intentPattern) texts name).toList)
              template.intentPattern
          = withTexts template.intentPattern (((parameterNames template.intentPattern).map
              (textAt (parameterNames template.intentPattern) texts)).map String.toList) := by
            rw [fillPattern_of_closed hdeclared.closed, List.map_map]
            rfl
        _ = withTexts template.intentPattern (texts.map String.toList) := by
            rw [map_textAt hdeclared.nodup hlength]
        _ = intent.toList := hsplits.intent.symm
    | none =>
      have hempty : template.intentPattern = "" :=
        hdeclared.compiles.resolve_left (by simp [hregex])
      rw [hregex, Option.getD_none, hlaws.empty, Option.ite_none_right_eq_some] at hcaptures
      refine ⟨fun _ ↦ "", ?_, ?_⟩
      · rw [hempty, hcaptures.1]
        rfl
      · rw [hempty]
        exact fun name hname ↦ absurd hname List.not_mem_nil

end Condition

/-! ## A pattern with one placeholder -/

/-- Crates whose one expression is the word to find and a group, and that read one number.  The
other expression is the empty one. -/
def findCrates : Crates Bool where
  fromStr := fun text ↦ .ok (.string text)
  toDocument := fun _ ↦ .ok []
  toLlmTemplate := fun _ ↦ none
  toText := fun _ ↦ ""
  parseFloat := fun text ↦
    if text = "1" then some (.number (.float 0x3FF0000000000000)) else none
  escape := id
  regex := fun source ↦ if source = "^find (.+?)$".toList then some true else none
  emptyRegex := false
  captures := fun regex intent ↦
    if regex then (stripPrefix "find ".toList intent.toList).bind fun text ↦
      if text ≠ [] ∧ '\n' ∉ text then some [some (String.ofList text)] else none
    else if intent = "" then some [] else none
  listEntries := id
  trimLowercase := id
  sha256 := id

theorem regexLaws_findCrates : RegexLaws findCrates "find \x7b\x7bx\x7d\x7d" where
  sound := by
    intro regex hregex intent groups hgroups
    obtain rfl : regex = true := (Option.some.inj hregex).symm
    obtain ⟨text, htext, hgroups⟩ := Option.bind_eq_some_iff.mp hgroups
    rw [stripPrefix, Option.ite_none_right_eq_some] at htext
    rw [Option.ite_none_right_eq_some] at hgroups
    obtain ⟨hstart, htext⟩ := htext
    obtain ⟨⟨hnonempty, -⟩, hgroups⟩ := hgroups
    obtain ⟨rest, hrest⟩ := List.isPrefixOf_iff_prefix.mp hstart
    refine ⟨[String.ofList text], (Option.some.inj hgroups).symm, rfl, ?_, ?_⟩
    · intro other hother hempty
      obtain rfl := List.mem_singleton.mp hother
      exact hnonempty (String.ofList_eq_empty_iff.mp hempty)
    · have hsplit : text = rest := by
        rw [← Option.some.inj htext, ← hrest, List.drop_left]
      rw [hsplit, ← hrest, List.map_singleton, String.toList_ofList]
      simp [withTexts, interleave, leadingText, closedParts, openedParts, splitOpen, splitClose]
  complete := by
    intro regex hregex intent texts hsplits hlines
    obtain rfl : regex = true := (Option.some.inj hregex).symm
    obtain ⟨text, rfl⟩ := List.length_eq_one_iff.mp hsplits.length
    have hnonempty : text.toList ≠ [] :=
      fun hempty ↦ hsplits.nonempty text (List.mem_singleton_self _)
        (String.toList_injective hempty)
    have hline := hlines text (List.mem_singleton_self _)
    have hintent : intent.toList = "find ".toList ++ text.toList := by
      rw [hsplits.intent]
      simp [withTexts, interleave, leadingText, closedParts, openedParts, splitOpen, splitClose]
    have hstrip : stripPrefix "find ".toList intent.toList = some text.toList := by
      rw [stripPrefix, hintent, if_pos (List.isPrefixOf_iff_prefix.mpr (List.prefix_append _ _)),
        List.drop_left]
    have hcaptures : findCrates.captures true intent = some [some (String.ofList text.toList)] := by
      simp only [findCrates, if_true, hstrip, Option.bind_some]
      exact if_pos ⟨hnonempty, hline⟩
    rw [hcaptures]
    rfl
  empty := fun intent ↦ rfl

theorem floatLaws_findCrates : FloatLaws findCrates where
  number := by
    intro text other h
    simp only [findCrates, Option.ite_none_right_eq_some, Option.some.injEq] at h
    cases h.2
  digit := rfl
  letters := ⟨rfl, rfl⟩

/-- The matches of a pattern with one text parameter are sound. -/
theorem soundMatches_find :
    RegexLaws findCrates "find \x7b\x7bx\x7d\x7d" ∧ FloatLaws findCrates ∧
      SoundMatches findCrates ⟨"find \x7b\x7bx\x7d\x7d", [⟨"x", .string⟩], .null⟩ := by
  refine ⟨regexLaws_findCrates, floatLaws_findCrates,
    (soundMatches_iff ⟨"find \x7b\x7bx\x7d\x7d", [⟨"x", .string⟩], .null⟩
      regexLaws_findCrates floatLaws_findCrates).mpr ⟨by decide, by decide, ?_, .inl (by decide)⟩⟩
  intro i name hi parameter hparameter hname
  obtain rfl := List.mem_singleton.mp hparameter
  rcases i with - | i <;> simp

/-- Braces that are not closed are lost, and a type is taken by position and not by name. -/
theorem not_soundMatches_find :
    ¬ SoundMatches findCrates ⟨"find \x7b\x7bx\x7d\x7d\x7b\x7by", [⟨"x", .string⟩], .null⟩ ∧
      ¬ SoundMatches findCrates
        ⟨"find \x7b\x7bx\x7d\x7d", [⟨"y", .number⟩, ⟨"x", .string⟩], .null⟩ := by
  constructor
  · intro h
    obtain ⟨texts, hfill, -⟩ := h "" "" "" "find a" [some "a"] (by decide)
    have hlast := congrArg List.reverse hfill
    simp [fillPattern, fillPart, leadingText, openedParts, splitOpen, splitClose,
      openBraces] at hlast
  · intro h
    obtain ⟨texts, -, hrecorded⟩ := h "" "" "" "find 1" [some "1"] (by decide)
    obtain ⟨value, hvalue, -, hdeclared⟩ := hrecorded "x" (by decide)
    have hstring := hdeclared ⟨"x", .string⟩ (by simp) rfl
    obtain rfl := Option.some.inj hvalue
    cases hstring

end MongoCore.Compiled
