import MongoCore.Compiled.QuotedStrings

/-!
# Orderly intents

If a template is faithful, then its intent is orderly.  What is to be shown is that a number which
is replaced in a wrong place is never made good by what comes after it.  The replacement may be in a
quoted string, and so disappear.  But then the pattern has fewer opening braces than it should have.
-/

namespace MongoCore.Compiled.TemplateExtractor

open MongoCore.Library.FirstOccurrence MongoCore.Library.Scanning

/-! ## How many parameters there are -/

theorem mem_map_parameter {kind other : Kind} {number start count : ℕ} :
    parameter other number ∈ (List.range' start count).map (parameter kind) ↔
      other = kind ∧ start ≤ number ∧ number < start + count := by
  rw [List.mem_map]
  constructor
  · rintro ⟨found, hfound, heq⟩
    obtain ⟨rfl, rfl⟩ := parameter_injective heq
    exact ⟨rfl, List.mem_range'_1.mp hfound⟩
  · rintro ⟨rfl, hnumber⟩
    exact ⟨number, List.mem_range'_1.mpr hnumber, rfl⟩

/-- If numbers and quoted strings get the right parameters, then there are as many of them as there
should be, and none are lost. -/
theorem length_eq_of_perm {prices lost : List TemplateParameter}
    {start numbers quoted numbers' quoted' : ℕ}
    (hprices : ∀ number, parameter .str number ∉ prices)
    (hlost : ∀ number, parameter .str number ∉ lost) (hnone : quoted' = 0 → lost = [])
    (hperm : (prices ++ (List.range' start numbers).map (parameter .num) ++
        (List.range' (start + numbers) quoted).map (parameter .str) ++ lost).Perm
      (prices ++ (List.range' start numbers').map (parameter .num) ++
        (List.range' (start + numbers') quoted').map (parameter .str))) :
    numbers = numbers' ∧ quoted = quoted' ∧ lost = [] := by
  have hlength : numbers + quoted + lost.length = numbers' + quoted' := by
    have heq := hperm.length_eq
    simp only [List.length_append, List.length_map, List.length_range'] at heq
    omega
  have hquoted : ∀ number, (start + numbers ≤ number ∧ number < start + numbers + quoted) ↔
      (start + numbers' ≤ number ∧ number < start + numbers' + quoted') := by
    intro number
    have hmem := hperm.mem_iff (a := parameter .str number)
    simpa [mem_map_parameter, hprices, hlost] using hmem
  have hfirst := hquoted (start + numbers)
  have hfirst' := hquoted (start + numbers')
  have hlast := hquoted (start + numbers + quoted - 1)
  have hlast' := hquoted (start + numbers' + quoted' - 1)
  rcases Nat.eq_zero_or_pos quoted' with hzero | hpos
  · have hnil := hnone hzero
    rw [hnil, List.length_nil] at hlength
    exact ⟨by omega, by omega, hnil⟩
  · exact ⟨by omega, by omega, List.eq_nil_of_length_eq_zero (by omega)⟩

/-! ## Quoted strings of the pattern -/

def quotedStrings (text : List Char) : List (List Char) :=
  matchesOf (cells (quotedLength some) text)

theorem quotedStrings_render (tokens : List Token) :
    quotedStrings (render tokens) = (matchesOf (quotedCells tokens)).map render :=
  agrees_quoted.matchesOf_render trivial quotedLength_le tokens

/-- A word that a pass looks for, if it is not for quoted strings. -/
structure Plain (word : List Char) : Prop where
  ne_nil : word ≠ []
  quote : ∀ c ∈ word, isQuote c = false
  brace : word.countP isBrace = 0

theorem quotedStrings_replace {word : List Char} (h : Plain word) (kind : Kind) (count : ℕ)
    (front back : List Char) :
    quotedStrings (front ++ (placeholder kind count ++ back)) =
        quotedStrings (front ++ (word ++ back)) ∨
      (quotedStrings (front ++ (placeholder kind count ++ back))).length =
          (quotedStrings (front ++ (word ++ back))).length ∧
        (quotedStrings (front ++ (placeholder kind count ++ back))).flatten.countP isBrace =
          (quotedStrings (front ++ (word ++ back))).flatten.countP isBrace + 1 := by
  have hword : ∀ c ∈ word, has some isQuote c = false := h.quote
  have hplaceholder : ∀ c ∈ placeholder kind count, has some isQuote c = false :=
    isQuote_of_mem_placeholder
  exact matchesOf_replace isBrace h.ne_nil (placeholder_ne_nil kind count) hword hplaceholder
    h.brace (countP_isBrace_placeholder kind count) front back

/-- A pass over plain words keeps the quoted strings, or puts placeholders in them. -/
theorem quotedStrings_foldl (kind : Kind) {guard : List Char → List Char → Bool}
    (hguard : ∀ pattern word, guard pattern word = true → word <:+: pattern)
    {found : List (List Char)} (hfound : ∀ word ∈ found, Plain word)
    (state : List Char × List TemplateParameter) :
    (quotedStrings (found.foldl (replaceMatch kind guard) state).1).length =
        (quotedStrings state.1).length ∧
      (quotedStrings (found.foldl (replaceMatch kind guard) state).1 = quotedStrings state.1 ∨
        (quotedStrings state.1).flatten.countP isBrace <
          (quotedStrings (found.foldl (replaceMatch kind guard) state).1).flatten.countP
            isBrace) := by
  induction found generalizing state with
  | nil => exact ⟨rfl, .inl rfl⟩
  | cons word found ih =>
    obtain ⟨hword, hrest⟩ := List.forall_mem_cons.mp hfound
    rw [List.foldl_cons]
    cases htest : guard state.1 word with
    | false =>
      rw [replaceMatch, htest, if_neg Bool.false_ne_true]
      exact ih hrest state
    | true =>
      rw [replaceMatch, htest, if_pos rfl]
      obtain ⟨front, back, hsplit, hfirst⟩ := exists_firstAfter hword.ne_nil (hguard _ _ htest)
      rw [hsplit, replaceFirst_of_firstAfter hword.ne_nil hfirst]
      obtain ⟨hlength, hnext⟩ := ih hrest
        (front ++ (placeholder kind state.2.length ++ back),
          state.2 ++ [parameter kind state.2.length])
      rcases quotedStrings_replace hword kind state.2.length front back with hsame | ⟨hcount, hmore⟩
      · rw [hsame] at hlength hnext
        exact ⟨hlength, hnext⟩
      · refine ⟨hlength.trans hcount, .inr ?_⟩
        rcases hnext with hnext | hlt
        · rw [hnext, hmore]
          exact Nat.lt_succ_self _
        · rw [hmore] at hlt
          exact Nat.lt_of_succ_lt hlt

/-! ## The pass over the numbers -/

section Numbers

variable {classes : CharClasses}

theorem not_of_numeric {p : Char → Bool} (hdot : p '.' = false)
    (hdigit : ∀ c, p c = true → c.toNat < 128 ∧ c.isDigit = false) {τ : Type}
    {view : τ → Option Char} {item : τ} (h : has view classes.numeric item = true) :
    has view p item = false := by
  obtain ⟨c, hview, hnumeric⟩ := has_iff.mp h
  rw [has, hview, Option.any_some, Bool.eq_false_iff]
  intro hp
  obtain ⟨hascii, hnot⟩ := hdigit c hp
  rw [CharClasses.numeric, classes.digit_ascii c hascii, hnot, Bool.false_or, beq_iff_eq]
    at hnumeric
  rw [hnumeric, hdot] at hp
  cases hp

theorem not_quote_of_numeric {τ : Type} {view : τ → Option Char} {item : τ}
    (h : has view classes.numeric item = true) : has view isQuote item = false := by
  refine not_of_numeric rfl (fun c hc ↦ ?_) h
  rw [isQuote, Bool.or_eq_true, beq_iff_eq, beq_iff_eq] at hc
  rcases hc with rfl | rfl <;> decide

theorem not_brace_of_numeric {c : Char} (h : classes.numeric c = true) : isBrace c = false := by
  have hbrace : has some isBrace c = false := by
    refine not_of_numeric rfl (fun c hc ↦ ?_) h
    rw [isBrace, beq_iff_eq] at hc
    subst hc
    decide
  exact hbrace

theorem forall_numeric {τ : Type} {view : τ → Option Char} {previous : Option τ}
    {items rest : List τ} (h : numberLength view classes previous (items ++ rest) = items.length) :
    ∀ item ∈ items, has view classes.numeric item = true := by
  have hnumeric : ∀ item ∈ (items ++ rest).take
      (numberLength view classes previous (items ++ rest)),
      has view classes.numeric item = true :=
    forall_mem_take_number previous (items ++ rest)
  rwa [h, List.take_left] at hnumeric

variable (classes) in
theorem plain_number (text : List Char) :
    ∀ word ∈ matchesOf (cells (numberLength some classes) text), Plain word := by
  have hscan :
      Scan (numberLength some classes) none text (cells (numberLength some classes) text) :=
    scan_cellsFrom numberLength_le none text
  refine hscan.forall_matches fun _ items _ hne hlength ↦ ⟨hne, fun c hc ↦ ?_, ?_⟩
  · exact not_quote_of_numeric (forall_numeric hlength c hc)
  · rw [List.countP_eq_zero]
    intro c hc
    rw [not_brace_of_numeric (forall_numeric hlength c hc)]
    exact Bool.false_ne_true

theorem countP_flatten_eq_zero {words : List (List Char)} (h : ∀ word ∈ words, Plain word) :
    words.flatten.countP isBrace = 0 := by
  rw [List.countP_flatten, List.sum_eq_zero_iff_forall_eq_nat]
  intro count hcount
  obtain ⟨word, hword, rfl⟩ := List.mem_map.mp hcount
  exact (h word hword).brace

variable (classes) in
/-- The pass over the numbers, wherever it puts the placeholders. -/
theorem exists_numbers (text : List Char) (parameters : List TemplateParameter) :
    ∃ count, (replaceNumbers classes (text, parameters)).2 =
        parameters ++ (List.range' parameters.length count).map (parameter .num) ∧
      (replaceNumbers classes (text, parameters)).1.countP isBrace =
        text.countP isBrace + count ∧
      (quotedStrings (replaceNumbers classes (text, parameters)).1).length =
        (quotedStrings text).length ∧
      (quotedStrings (replaceNumbers classes (text, parameters)).1 = quotedStrings text ∨
        (quotedStrings text).flatten.countP isBrace <
          (quotedStrings (replaceNumbers classes (text, parameters)).1).flatten.countP
            isBrace) := by
  have hguard : ∀ pattern word, (contains pattern word && notAfterBrace text word) = true →
      word <:+: pattern :=
    fun pattern word h ↦ of_decide_eq_true (Bool.and_eq_true_iff.mp h).1
  have hplain : ∀ word ∈ matchesOf (cells (numberLength some classes) text), Plain word :=
    plain_number classes text
  obtain ⟨listed, hsublist, hparameters, hcount⟩ :=
    exists_listed .num hguard (fun word hword ↦ (hplain word hword).ne_nil) (text, parameters)
  rw [countP_flatten_eq_zero fun word hword ↦ hplain word (hsublist.subset hword), Nat.add_zero]
    at hcount
  exact ⟨listed.length, hparameters, hcount, quotedStrings_foldl .num hguard hplain _⟩

def numberCount (classes : CharClasses) (tokens : List Token) : ℕ :=
  (taken (notAfterBrace (render tokens)) (numberCells classes tokens)).length

variable (classes) in
theorem countP_cutNumbers (tokens : List Token) :
    (render (cutNumbers classes tokens)).countP isBrace =
      (render tokens).countP isBrace + numberCount classes tokens := by
  have hmatches : matchesOf (cells (numberLength some classes) (render tokens)) =
      (matchesOf (numberCells classes tokens)).map render :=
    agrees_number.matchesOf_render rfl numberLength_le tokens
  have hplain : ∀ word ∈ (taken (notAfterBrace (render tokens))
      (numberCells classes tokens)).map render, Plain word := by
    intro word hword
    refine plain_number classes (render tokens) word ?_
    rw [hmatches]
    exact List.map_subset render List.filter_sublist.subset hword
  have hcount := countP_mark .num (notAfterBrace (render tokens)) (holes tokens).length
    (numberCells classes tokens)
  rwa [countP_flatten_eq_zero hplain, Nat.add_zero, (scan_numberCells tokens).items] at hcount

/-- If no quoted string has a value in it after the pass, the quoted strings are as before. -/
theorem quotedStrings_cutNumbers {tokens : List Token}
    (h : ∀ items ∈ matchesOf (quotedCells (cutNumbers classes tokens)), holes items = []) :
    quotedStrings (render (cutNumbers classes tokens)) = quotedStrings (render tokens) := by
  have hcells : ∀ items ∈ matchesOf (numberCells classes tokens), items ≠ [] ∧ holes items = [] ∧
      ∀ token ∈ items, has Token.char? isQuote token = false :=
    (scan_numberCells tokens).forall_matches fun _ items _ hne hlength ↦
      ⟨hne, holes_eq_nil_of_literal (literal_of_numberLength hlength),
        fun token htoken ↦ not_quote_of_numeric (forall_numeric hlength token htoken)⟩
  have hmark := matchesOf_mark .num (notAfterBrace (render tokens)) hcells (holes tokens).length []
  rw [(scan_numberCells tokens).items] at hmark
  have hnone : (matchesOf (quotedCells (cutNumbers classes tokens))).flatten.countP
      Token.isHole = 0 := by
    rw [List.countP_flatten, List.sum_eq_zero_iff_forall_eq_nat]
    intro count hcount
    obtain ⟨items, hitems, rfl⟩ := List.mem_map.mp hcount
    rw [countP_isHole, h items hitems]
    rfl
  rw [quotedStrings_render, quotedStrings_render]
  rcases hmark with hsame | hlt
  · exact congrArg _ hsame
  · exact absurd (hnone ▸ hlt) (Nat.not_lt_zero _)

end Numbers

/-! ## The pass over the quoted strings -/

/-- The pass fills a text, or it spoils what it should have filled. -/
theorem replaceQuoted_or_spoiled (text : List Char) (parameters : List TemplateParameter) :
    (replaceQuoted (text, parameters)).1 = fillQuoted parameters.length text ∨
      Spoiled '\x7b' (isQuote · = true) (replaceQuoted (text, parameters)).1
        (fillQuoted parameters.length text) := by
  have hmatches : quotedStrings text = (matchesOf (quotedCells (text.map .lit))).map render := by
    rw [← quotedStrings_render, render_map_lit]
  have hbegins : ∀ items ∈ matchesOf (quotedCells (text.map .lit)),
      ∃ c rest, render items = c :: rest ∧ isQuote c = true :=
    (scan_quotedCells _).forall_matches
      fun _ _ _ hne hlength ↦ exists_eq_of_quotedLength hne hlength
  have hpass := foldl_replaceMatch .str contains (isQuote · = true) (by decide)
    (fun pattern fullMatch hwithin ↦ decide_eq_true hwithin) hbegins [] parameters
  rw [(scan_quotedCells _).items, List.nil_append, List.nil_append, render_map_lit,
    render_mark_quotedCells, render_map_lit, ← hmatches] at hpass
  exact hpass.imp (fun h ↦ congrArg Prod.fst h.2) (·.2)

/-- What the pass lists, wherever it puts the placeholders. -/
theorem exists_quoted (text : List Char) (parameters : List TemplateParameter) :
    ∃ listed : List (List Char), listed.Sublist (quotedStrings text) ∧
      (replaceQuoted (text, parameters)).2 =
        parameters ++ (List.range' parameters.length listed.length).map (parameter .str) ∧
      (replaceQuoted (text, parameters)).1.countP isBrace + listed.flatten.countP isBrace =
        text.countP isBrace + listed.length := by
  have hscan : Scan (quotedLength some) none text (cells (quotedLength some) text) :=
    scan_cellsFrom quotedLength_le none text
  exact exists_listed .str (fun _ _ h ↦ of_decide_eq_true h)
    (hscan.forall_matches fun _ _ _ hne _ ↦ hne) (text, parameters)

theorem countP_cutQuoted (tokens : List Token) :
    (render (cutQuoted tokens)).countP isBrace +
        (quotedStrings (render tokens)).flatten.countP isBrace =
      (render tokens).countP isBrace + (quotedStrings (render tokens)).length := by
  have hcount := countP_mark .str (fun _ ↦ true) (holes tokens).length (quotedCells tokens)
  rwa [taken_true, (scan_quotedCells tokens).items, ← quotedStrings_render,
    ← List.length_map (f := render), ← quotedStrings_render] at hcount

/-- If the numbers are not replaced in their own places, but the counts are right, then the pattern
is not what it should be. -/
theorem inPlaceFrom_numbers {classes : CharClasses} {tokens : List Token}
    {parameters : List TemplateParameter} (hparameters : parameters.length = (holes tokens).length)
    {pattern : List Char} {parameters' : List TemplateParameter}
    (hnumbers : replaceNumbers classes (render tokens, parameters) = (pattern, parameters'))
    (hlength : parameters'.length = (holes (cutNumbers classes tokens)).length)
    (hquoted : quotedStrings pattern = quotedStrings (render (cutNumbers classes tokens)))
    (hpattern : (replaceQuoted (pattern, parameters')).1 =
      render (cutQuoted (cutNumbers classes tokens))) :
    InPlaceFrom .num (notAfterBrace (render tokens)) [] (holes tokens).length
      (numberCells classes tokens) := by
  rcases replaceNumbers_cases classes tokens hparameters with ⟨h, -⟩ | ⟨-, hspoiled⟩
  · exact h
  · have hbrace : ¬ classes.digit '\x7b' = true := by rw [digit_brace]; decide
    have hdigit : ∀ c, classes.digit c = true → isQuote c = false := fun c hc ↦ by
      have hnumeric : has some classes.numeric c = true := has_numeric_of_digit hc
      exact not_quote_of_numeric hnumeric
    rw [hnumbers] at hspoiled
    have hfilled := spoiled_fillQuoted hbrace hdigit hspoiled hquoted parameters'.length
    have htarget : render (cutQuoted (cutNumbers classes tokens)) =
        fillQuoted parameters'.length (render (cutNumbers classes tokens)) := by
      rw [cutQuoted, render_mark_quotedCells, hlength]
    rw [htarget] at hpattern
    rcases replaceQuoted_or_spoiled pattern parameters' with hfill | hlate
    · exact absurd (hfill.symm.trans hpattern) (hfilled.ne hbrace)
    · exact absurd hpattern (hlate.ne_trans hfilled (by decide) hbrace)

/-! ## From faithful templates to orderly intents -/

section Backward

variable {classes : CharClasses}

theorem mem_of_mem_swallowed {test : List Char → Bool} {cells : List (Cell Token)}
    {found : TemplateParameter} (h : found ∈ swallowed test cells) :
    found ∈ holes (cells.flatMap Cell.items) := by
  induction cells with
  | nil => exact h
  | cons cell cells ih =>
    rw [List.flatMap_cons, holes_append, List.mem_append]
    cases cell with
    | kept token => exact .inr (ih h)
    | found tokens =>
      rw [swallowed] at h
      split at h
      case isTrue => exact (List.mem_append.mp h).imp_right ih
      case isFalse => exact .inr (ih h)

theorem parameter_not_mem_added {kind other : Kind} (hne : kind ≠ other)
    {test : List Char → Bool} {count number : ℕ} {cells : List (Cell Token)} :
    parameter kind number ∉ added other test count cells := by
  intro h
  obtain ⟨_, -, heq⟩ := mem_added h
  exact hne (parameter_injective heq).1

/-- No placeholder of a quoted string is lost in a quoted string. -/
theorem str_not_mem_swallowed (intent : List Char) (number : ℕ) : parameter .str number ∉
    swallowed (fun _ ↦ true) (quotedCells (cutNumbers classes (cutPrices classes intent))) := by
  intro h
  have hmem := mem_of_mem_swallowed h
  rw [(scan_quotedCells _).items, (perm_holes_cutNumbers _).mem_iff, List.mem_append,
    (perm_holes_cutPrices intent).mem_iff] at hmem
  exact hmem.elim (parameter_not_mem_added (by decide)) (parameter_not_mem_added (by decide))

theorem length_holes_numbers (tokens : List Token) : (holes (cutNumbers classes tokens)).length =
    (holes tokens).length + numberCount classes tokens := by
  rw [(perm_holes_cutNumbers tokens).length_eq, List.length_append, added_eq, List.length_map,
    List.length_range', numberCount]

theorem allAdded_eq (intent : List Char) : allAdded classes intent =
    added .price (fun _ ↦ true) 0 (priceCells classes (intent.map .lit)) ++
      (List.range' (holes (cutPrices classes intent)).length
        (numberCount classes (cutPrices classes intent))).map (parameter .num) ++
      (List.range' ((holes (cutPrices classes intent)).length +
          numberCount classes (cutPrices classes intent))
        (quotedStrings (render (cutNumbers classes (cutPrices classes intent)))).length).map
          (parameter .str) := by
  rw [allAdded, added_eq .num, added_eq .str, taken_true, length_holes_numbers,
    quotedStrings_render, List.length_map, numberCount]

/-- If the values of the intent are those that are listed, then as many are listed as there are, and
none are lost. -/
theorem counts_of_perm {intent : List Char} {numbers quoted : ℕ}
    (hperm : (holes (cut classes intent)).Perm
      (added .price (fun _ ↦ true) 0 (priceCells classes (intent.map .lit)) ++
        (List.range' (holes (cutPrices classes intent)).length numbers).map (parameter .num) ++
        (List.range' ((holes (cutPrices classes intent)).length + numbers) quoted).map
          (parameter .str))) :
    numbers = numberCount classes (cutPrices classes intent) ∧
      quoted =
        (quotedStrings (render (cutNumbers classes (cutPrices classes intent)))).length ∧
      ∀ tokens ∈ matchesOf (quotedCells (cutNumbers classes (cutPrices classes intent))),
        holes tokens = [] := by
  have hall := perm_holes_cut classes intent
  rw [allAdded_eq] at hall
  have hnone :
      (quotedStrings (render (cutNumbers classes (cutPrices classes intent)))).length = 0 →
        swallowed (fun _ ↦ true)
          (quotedCells (cutNumbers classes (cutPrices classes intent))) = [] := by
    intro hzero
    rw [quotedStrings_render, List.length_map] at hzero
    refine swallowed_eq_nil fun tokens htokens ↦ ?_
    rw [List.eq_nil_of_length_eq_zero hzero] at htokens
    exact absurd htokens List.not_mem_nil
  obtain ⟨hnumbers, hquoted, hlost⟩ := length_eq_of_perm
    (fun number ↦ parameter_not_mem_added (by decide)) (str_not_mem_swallowed intent) hnone
    ((hperm.symm.append_right _).trans hall)
  exact ⟨hnumbers, hquoted, holes_eq_nil_of_swallowed hlost⟩

/-- If the template of an intent is faithful, then its numbers are replaced in their own places. -/
theorem numbers_of_faithful {intent pattern pattern' : List Char}
    {parameters parameters' : List TemplateParameter}
    (hnumbers : replaceNumbers classes (replacePrices classes intent) = (pattern, parameters))
    (hquoted : replaceQuoted (pattern, parameters) = (pattern', parameters'))
    (hpattern : pattern' = render (cut classes intent))
    (hvalues : (holes (cut classes intent)).Perm parameters') :
    InPlaceFrom .num (notAfterBrace (render (cutPrices classes intent))) []
        (holes (cutPrices classes intent)).length (numberCells classes (cutPrices classes intent)) ∧
      ∀ tokens ∈ matchesOf (quotedCells (cutNumbers classes (cutPrices classes intent))),
        holes tokens = [] := by
  have hprices := length_holes_cutPrices classes intent
  rw [replacePrices_eq] at hnumbers
  obtain ⟨count, hparameters, hbraces, hlength, hsame⟩ := exists_numbers classes
    (render (cutPrices classes intent))
    (added .price (fun _ ↦ true) 0 (priceCells classes (intent.map .lit)))
  rw [hnumbers] at hparameters hbraces hlength hsame
  rw [hprices] at hparameters
  dsimp only at hparameters hbraces hlength hsame
  obtain ⟨listed, hsublist, hparameters', hbraces'⟩ := exists_quoted pattern parameters
  rw [hquoted] at hparameters' hbraces'
  dsimp only at hparameters' hbraces'
  have hcount : parameters.length = (holes (cutPrices classes intent)).length + count := by
    rw [hparameters, List.length_append, hprices, List.length_map, List.length_range']
  rw [hparameters', hcount, hparameters] at hvalues
  obtain ⟨hcounts, hcounts', hunquoted⟩ := counts_of_perm hvalues
  have hkept := quotedStrings_cutNumbers hunquoted
  -- All quoted strings of the pattern are listed, so what they have in them can be counted.
  have hlisted : listed = quotedStrings pattern :=
    hsublist.eq_of_length (by rw [hcounts', hkept, hlength])
  have hstrings : quotedStrings pattern =
      quotedStrings (render (cutNumbers classes (cutPrices classes intent))) := by
    have hcut := countP_cutNumbers classes (cutPrices classes intent)
    have hcut' := countP_cutQuoted (cutNumbers classes (cutPrices classes intent))
    rw [hlisted, hpattern, cut] at hbraces'
    rw [hkept] at hcut' ⊢
    exact hsame.resolve_right (by omega)
  refine ⟨inPlaceFrom_numbers hprices hnumbers ?_ hstrings ?_, hunquoted⟩
  · rw [hcount, hcounts, length_holes_numbers]
  · rw [hquoted]
    exact hpattern

theorem orderly_of_faithful {intent : String} {template : QueryTemplate}
    (hextract : extract classes intent = some template) (h : Faithful classes intent template) :
    Orderly classes intent := by
  obtain ⟨pattern, parameters, hstate, rfl⟩ := extract_eq_some hextract
  obtain ⟨hpattern, -, hvalues, honce⟩ := h
  rw [String.toList_ofList] at hpattern
  dsimp only at hvalues honce
  have hprices := length_holes_cutPrices classes intent.toList
  obtain ⟨hnumbers, hunquoted⟩ := numbers_of_faithful rfl hstate hpattern hvalues
  refine ⟨hnumbers, ?_, hunquoted, fun parameter hparameter ↦ ?_⟩
  · rw [replacePrices_eq] at hstate
    rcases replaceNumbers_cases classes _ hprices with ⟨-, hpass⟩ | ⟨hnot, -⟩
    · rw [hpass] at hstate
      rcases replaceQuoted_cases (cutNumbers classes (cutPrices classes intent.toList))
        (length_holes_cutNumbers intent.toList) with ⟨hplaces, -⟩ | ⟨-, hspoiled⟩
      · exact hplaces
      · rw [hstate] at hspoiled
        exact absurd hpattern (hspoiled.ne (by decide))
    · exact absurd hnumbers hnot
  · rw [← occurrences_eq_one_iff nodup_holes_cut hparameter, ← hpattern]
    have hone := honce parameter (hvalues.mem_iff.mp hparameter)
    rwa [String.toList_ofList] at hone

/-- A template is faithful exactly if its intent is orderly. -/
theorem faithful_iff_orderly {intent : String} {template : QueryTemplate}
    (hextract : extract classes intent = some template) :
    Faithful classes intent template ↔ Orderly classes intent :=
  ⟨orderly_of_faithful hextract, faithful_of_orderly hextract⟩

end Backward

/-! ## In ASCII -/

def asciiClasses : CharClasses where
  digit := Char.isDigit
  word := fun c ↦ c.isAlphanum || c == '_'
  word_of_digit := fun c h ↦ by simp [Char.isAlphanum, h]
  digit_ascii := fun _ _ ↦ rfl
  word_ascii := fun _ _ ↦ rfl

def priceOrNumber : QueryTemplate where
  pattern := "\x7bprice_0\x7d or \x7bnum_1\x7d"
  parameters := [parameter .price 0, parameter .num 1]

theorem faithful_iff_orderly_priceOrNumber :
    Faithful asciiClasses "$5 or 7" priceOrNumber ↔ Orderly asciiClasses "$5 or 7" :=
  faithful_iff_orderly rfl

example : Orderly asciiClasses "$5 or 7" := by
  have hextract : extract asciiClasses "$5 or 7" = some priceOrNumber := rfl
  refine orderly_of_faithful hextract ⟨rfl, rfl, List.Perm.refl _, ?_⟩
  decide

/-- The number that follows a price is found in the placeholder of the price. -/
theorem not_forall_faithful : ¬ ∀ classes intent template,
    extract classes intent = some template → Faithful classes intent template := by
  intro h
  have hextract : extract asciiClasses "$50 and 0 items" =
      some ⟨"\x7bprice_\x7bnum_1\x7d\x7d and 0 items", [parameter .price 0, parameter .num 1]⟩ :=
    rfl
  have honce := (h _ _ _ hextract).once (parameter .price 0) List.mem_cons_self
  revert honce
  decide

end MongoCore.Compiled.TemplateExtractor
