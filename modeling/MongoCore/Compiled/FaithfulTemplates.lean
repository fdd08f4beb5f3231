import Mathlib.Data.List.Nodup
import Mathlib.Data.List.Perm.Basic
import MongoCore.Compiled.TemplateExtraction

/-!
# Faithful templates

A pass over an intent gives its matches their placeholders in their own places, unless the text of a
match begins somewhere before.  From there on the pattern differs from what was meant.

The main result says for which intents a template is faithful: the text of no number and no quoted
string begins before its place, no quoted string has another value in it, and no placeholder is
spelled out.
-/

namespace MongoCore.Compiled.TemplateExtractor

open MongoCore.Library.FirstOccurrence MongoCore.Library.Scanning

/-! ## Passes -/

def added (kind : Kind) (test : List Char → Bool) :
    ℕ → List (Cell Token) → List TemplateParameter
  | _, [] => []
  | count, .kept _ :: cells => added kind test count cells
  | count, .found tokens :: cells =>
      if test (render tokens) then parameter kind count :: added kind test (count + 1) cells
      else added kind test count cells

/-- The text of no match that passes the test begins before its place, where matches that passed
before have their placeholders. -/
def InPlaceFrom (kind : Kind) (test : List Char → Bool) (front : List Char) (count : ℕ)
    (cells : List (Cell Token)) : Prop :=
  ∀ before tokens after, cells = before ++ .found tokens :: after → test (render tokens) = true →
    FirstAfter (render tokens) (front ++ render (mark kind test count before))

section Passes

variable {kind : Kind} {test : List Char → Bool} {front : List Char} {count : ℕ}
  {cells : List (Cell Token)}

theorem inPlaceFrom_kept (token : Token) :
    InPlaceFrom kind test front count (.kept token :: cells) ↔
      InPlaceFrom kind test (front ++ render [token]) count cells := by
  have hmark : ∀ before, front ++ render (mark kind test count (.kept token :: before)) =
      front ++ render [token] ++ render (mark kind test count before) := by
    intro before
    rw [render_mark_kept, List.append_assoc]
  constructor
  · intro h before tokens after hcells htest
    rw [← hmark]
    exact h (.kept token :: before) tokens after (by rw [hcells, List.cons_append]) htest
  · intro h before tokens after hcells htest
    cases before with
    | nil => cases hcells
    | cons first before =>
      obtain ⟨rfl, hrest⟩ := List.cons.inj hcells
      rw [hmark]
      exact h before tokens after hrest htest

/-- A match that begins the cells is in its place, if it passes, and so are the others after what
stands for it. -/
theorem inPlaceFrom_cons {tokens : List Token} {text : List Char} {next : ℕ}
    (hmark : ∀ before, render (mark kind test count (.found tokens :: before)) =
      text ++ render (mark kind test next before)) :
    InPlaceFrom kind test front count (.found tokens :: cells) ↔
      (test (render tokens) = true → FirstAfter (render tokens) front) ∧
        InPlaceFrom kind test (front ++ text) next cells := by
  constructor
  · intro h
    refine ⟨fun htest ↦ ?_, fun before others after hcells hothers ↦ ?_⟩
    · have hfirst := h [] tokens cells rfl htest
      rwa [mark, render_nil, List.append_nil] at hfirst
    · rw [List.append_assoc, ← hmark]
      exact h (.found tokens :: before) others after (by rw [hcells, List.cons_append]) hothers
  · rintro ⟨hfirst, h⟩ before others after hcells hothers
    cases before with
    | nil =>
      obtain ⟨hfound, -⟩ := List.cons.inj hcells
      obtain rfl := Cell.found.inj hfound
      rw [mark, render_nil, List.append_nil]
      exact hfirst hothers
    | cons first before =>
      obtain ⟨rfl, hrest⟩ := List.cons.inj hcells
      rw [hmark, ← List.append_assoc]
      exact h before others after hrest hothers

theorem inPlaceFrom_found {tokens : List Token} (htest : test (render tokens) = true) :
    InPlaceFrom kind test front count (.found tokens :: cells) ↔
      FirstAfter (render tokens) front ∧
        InPlaceFrom kind test (front ++ placeholder kind count) (count + 1) cells := by
  have hmark : ∀ before, render (mark kind test count (.found tokens :: before)) =
      placeholder kind count ++ render (mark kind test (count + 1) before) := by
    intro before
    rw [render_mark_found, if_pos htest]
  rw [inPlaceFrom_cons hmark, forall_prop_of_true htest]

theorem inPlaceFrom_skipped {tokens : List Token} (htest : test (render tokens) = false) :
    InPlaceFrom kind test front count (.found tokens :: cells) ↔
      InPlaceFrom kind test (front ++ render tokens) count cells := by
  have hmark : ∀ before, render (mark kind test count (.found tokens :: before)) =
      render tokens ++ render (mark kind test count before) := by
    intro before
    rw [render_mark_found, htest, if_neg Bool.false_ne_true]
  have hpass : test (render tokens) = true → FirstAfter (render tokens) front := by
    rw [htest]
    exact fun h ↦ absurd h Bool.false_ne_true
  rw [inPlaceFrom_cons hmark, and_iff_right hpass]

variable {guard : List Char → List Char → Bool} {begins : Char → Prop}

variable (kind guard) in
/-- A pattern that is spoiled stays so to the end of a pass. -/
theorem spoiled_foldl (hbrace : ¬ begins '\x7b') {target : List Char} {found : List (List Char)}
    (hbegins : ∀ fullMatch ∈ found, ∃ c rest, fullMatch = c :: rest ∧ begins c)
    {state : List Char × List TemplateParameter} (h : Spoiled '\x7b' begins state.1 target) :
    Spoiled '\x7b' begins (found.foldl (replaceMatch kind guard) state).1 target := by
  induction found generalizing state with
  | nil => exact h
  | cons fullMatch found ih =>
    obtain ⟨⟨c, rest, rfl, hc⟩, hrest⟩ := List.forall_mem_cons.mp hbegins
    refine ih hrest ?_
    unfold replaceMatch
    split
    · obtain ⟨inner, hinner⟩ := exists_placeholder_eq kind state.2.length
      rw [hinner]
      exact h.replaceFirst hbrace hc rest inner
    · exact h

variable (kind guard begins) in
/-- A pass puts every placeholder in the place of its match, or it spoils the pattern. -/
theorem foldl_replaceMatch (hbrace : ¬ begins '\x7b')
    (hguard : ∀ pattern fullMatch, fullMatch <:+: pattern →
      guard pattern fullMatch = test fullMatch)
    (hbegins : ∀ tokens ∈ matchesOf cells, ∃ c rest, render tokens = c :: rest ∧ begins c)
    (front : List Char) (parameters : List TemplateParameter) :
    (InPlaceFrom kind test front parameters.length cells ∧
      ((matchesOf cells).map render).foldl (replaceMatch kind guard)
          (front ++ render (cells.flatMap Cell.items), parameters) =
        (front ++ render (mark kind test parameters.length cells),
          parameters ++ added kind test parameters.length cells)) ∨
    (¬ InPlaceFrom kind test front parameters.length cells ∧
      Spoiled '\x7b' begins
        (((matchesOf cells).map render).foldl (replaceMatch kind guard)
          (front ++ render (cells.flatMap Cell.items), parameters)).1
        (front ++ render (mark kind test parameters.length cells))) := by
  induction cells generalizing front parameters with
  | nil =>
    left
    refine ⟨fun before tokens after hcells ↦ ?_, ?_⟩
    · exact absurd hcells (by simp)
    · rw [added, List.append_nil]
      rfl
  | cons cell cells ih =>
    cases cell with
    | kept token =>
      rw [inPlaceFrom_kept, render_items_cons, render_mark_kept, matchesOf_kept, added,
        ← List.append_assoc, ← List.append_assoc]
      exact ih hbegins (front ++ render [token]) parameters
    | found tokens =>
      obtain ⟨⟨c, word, hword, hc⟩, hrest⟩ := List.forall_mem_cons.mp hbegins
      have hstep : replaceMatch kind guard
          (front ++ (render tokens ++ render (cells.flatMap Cell.items)), parameters)
          (render tokens) =
        if test (render tokens) then
          (replaceFirst (render tokens) (placeholder kind parameters.length)
            (front ++ (render tokens ++ render (cells.flatMap Cell.items))),
            parameters ++ [parameter kind parameters.length])
        else (front ++ (render tokens ++ render (cells.flatMap Cell.items)), parameters) := by
        rw [replaceMatch, hguard _ _ (List.infix_append' front (render tokens) _)]
      rw [render_items_cons, Cell.items, matchesOf_found, List.map_cons, List.foldl_cons, hstep,
        render_mark_found]
      cases htest : test (render tokens) with
      | false =>
        rw [inPlaceFrom_skipped htest, added, htest, if_neg Bool.false_ne_true,
          if_neg Bool.false_ne_true, if_neg Bool.false_ne_true, ← List.append_assoc front,
          ← List.append_assoc front]
        exact ih hrest (front ++ render tokens) parameters
      | true =>
        rw [inPlaceFrom_found htest, added, htest, if_pos rfl, if_pos rfl, if_pos rfl]
        by_cases hfirst : FirstAfter (render tokens) front
        case pos =>
          have hlength : (parameters ++ [parameter kind parameters.length]).length =
              parameters.length + 1 := List.length_append
          have hnext := ih hrest (front ++ placeholder kind parameters.length)
            (parameters ++ [parameter kind parameters.length])
          rw [hlength, List.append_assoc parameters, List.singleton_append] at hnext
          rw [replaceFirst_of_firstAfter (hword ▸ List.cons_ne_nil c word) hfirst,
            and_iff_right hfirst, ← List.append_assoc front, ← List.append_assoc front]
          exact hnext
        case neg =>
          right
          refine ⟨fun hboth ↦ hfirst hboth.1, ?_⟩
          obtain ⟨inner, hinner⟩ := exists_placeholder_eq kind parameters.length
          rw [hword] at hfirst
          refine spoiled_foldl kind guard hbrace (fun fullMatch hmem ↦ ?_) ?_
          · obtain ⟨others, hothers, rfl⟩ := List.mem_map.mp hmem
            exact hrest others hothers
          · rw [hword, hinner]
            exact spoiled_of_not_firstAfter hc hfirst inner _ _

end Passes

/-! ## What the matches begin with -/

section Begins

variable {classes : CharClasses} {previous : Option Token} {items rest : List Token}

theorem eq_lit_of_has {test : Char → Bool} {token : Token} (h : has Token.char? test token = true) :
    ∃ c, token = .lit c ∧ test c = true := by
  cases token with
  | lit c => exact ⟨c, rfl, h⟩
  | hole kind count value => cases h

theorem exists_digit_of_digitsLength {tokens : List Token}
    (h : digitsLength Token.char? classes tokens ≠ 0) :
    ∃ d rest, tokens = .lit d :: rest ∧ classes.digit d = true := by
  cases tokens with
  | nil => exact absurd rfl h
  | cons token tokens =>
    cases hdigit : has Token.char? classes.digit token with
    | false =>
      rw [digitsLength, List.takeWhile_cons, hdigit] at h
      exact absurd rfl h
    | true =>
      obtain ⟨d, rfl, hd⟩ := eq_lit_of_has hdigit
      exact ⟨d, tokens, rfl, hd⟩

theorem exists_eq_of_priceLength (hne : items ≠ [])
    (h : priceLength Token.char? classes previous (items ++ rest) = items.length) :
    ∃ d word, render items = '$' :: d :: word ∧ classes.digit d = true := by
  cases items with
  | nil => exact absurd rfl hne
  | cons token items =>
    rw [List.cons_append, priceLength] at h
    split at h
    case isFalse => cases h
    case isTrue hprice =>
      obtain ⟨hdollar, hdigits⟩ := Bool.and_eq_true_iff.mp hprice
      obtain ⟨c, rfl, hc⟩ := eq_lit_of_has hdollar
      obtain rfl := eq_of_beq hc
      have hdigits := bne_iff_ne.mp hdigits
      obtain ⟨d, tokens, htokens, hd⟩ := exists_digit_of_digitsLength hdigits
      cases items with
      | nil =>
        rw [List.length_singleton] at h
        omega
      | cons second items =>
        obtain ⟨rfl, -⟩ := List.cons.inj htokens
        exact ⟨d, render items, rfl, hd⟩

theorem exists_eq_of_numberLength (hne : items ≠ [])
    (h : numberLength Token.char? classes previous (items ++ rest) = items.length) :
    ∃ d word, render items = d :: word ∧ classes.digit d = true := by
  have hdigits : digitsLength Token.char? classes (items ++ rest) ≠ 0 := by
    intro hzero
    rw [numberLength, hzero, beq_self_eq_true, Bool.or_true, if_pos rfl] at h
    exact hne (List.eq_nil_of_length_eq_zero h.symm)
  obtain ⟨d, tokens, htokens, hd⟩ := exists_digit_of_digitsLength hdigits
  cases items with
  | nil => exact absurd rfl hne
  | cons token items =>
    obtain ⟨rfl, -⟩ := List.cons.inj htokens
    exact ⟨d, render items, rfl, hd⟩

theorem exists_eq_of_quotedLength (hne : items ≠ [])
    (h : quotedLength Token.char? previous (items ++ rest) = items.length) :
    ∃ c word, render items = c :: word ∧ isQuote c = true := by
  obtain ⟨opening, inner, closing, heq, hopening, -⟩ :=
    isQuoted_render (isQuoted_of_quotedLength hne h)
  exact ⟨opening, inner ++ [closing], heq, hopening⟩

end Begins

/-! ## Prices -/

section Prices

variable {classes : CharClasses}

theorem dollar_not_mem_placeholder (kind : Kind) (count : ℕ) : '$' ∉ placeholder kind count := by
  intro hmem
  have hne : ∀ c ∈ placeholder kind count, c ≠ '$' :=
    forall_mem_placeholder (by decide) (by decide) fun c hc ↦ by
      rintro rfl
      revert hc
      decide
  exact hne '$' hmem rfl

/-- A word does not begin in a part of a text that does not have its first letter. -/
theorem infix_of_append {c : Char} {word part text : List Char} (hc : c ∉ part)
    (h : c :: word <:+: part ++ text) : c :: word <:+: text := by
  induction part with
  | nil => exact h
  | cons first part ih =>
    rw [List.mem_cons, not_or] at hc
    rw [List.cons_append, List.infix_cons_iff] at h
    refine ih hc.2 (h.resolve_left fun hstarts ↦ hc.1 ?_)
    exact (List.cons_prefix_cons.mp hstarts).1

/-- What is left of a text between its prices has no dollar sign that a digit follows. -/
theorem not_dollar_digit {previous : Option Token} {tokens : List Token}
    {cells : List (Cell Token)}
    (hscan : Scan (priceLength Token.char? classes) previous tokens cells)
    {before after : List (Cell Token)} (hcells : cells = before ++ after) (count : ℕ) {d : Char}
    (hd : classes.digit d = true) :
    ¬ ['$', d] <:+: render (mark .price (fun _ ↦ true) count before) := by
  have hnil : ¬ ['$', d] <:+: ([] : List Char) :=
    fun hwithin ↦ absurd (List.infix_nil.mp hwithin) (List.cons_ne_nil _ _)
  have hplaceholder : ∀ kind count text, ¬ [d] <+: placeholder kind count ++ text := by
    intro kind count text hstarts
    obtain ⟨inner, hinner⟩ := exists_placeholder_eq kind count
    rw [hinner, List.cons_append, List.cons_prefix_cons] at hstarts
    rw [hstarts.1, digit_brace] at hd
    cases hd
  induction hscan generalizing before count with
  | nil =>
    obtain ⟨rfl, -⟩ := List.append_eq_nil_iff.mp hcells.symm
    exact hnil
  | @kept previous token rest cells hlength hrest ih =>
    cases before with
    | nil => exact hnil
    | cons first before =>
      obtain ⟨rfl, rfl⟩ := List.cons.inj hcells
      have htail := ih rfl count
      cases token with
      | hole kind number value =>
        rw [mark, render_hole]
        exact fun hwithin ↦ htail (infix_of_append (dollar_not_mem_placeholder kind number) hwithin)
      | lit c =>
        rw [mark, render_lit, List.infix_cons_iff, not_or, List.cons_prefix_cons]
        refine ⟨?_, htail⟩
        rintro ⟨rfl, hstarts⟩
        cases before with
        | nil => exact absurd (List.prefix_nil.mp hstarts) (List.cons_ne_nil _ _)
        | cons cell before =>
          cases cell with
          | found items =>
            rw [mark, if_pos rfl, render_hole] at hstarts
            exact hplaceholder _ _ _ hstarts
          | kept token =>
            cases token with
            | hole kind number value =>
              rw [mark, render_hole] at hstarts
              exact hplaceholder _ _ _ hstarts
            | lit e =>
              rw [mark, render_lit, List.cons_prefix_cons] at hstarts
              obtain ⟨rfl, -⟩ := hstarts
              cases hrest with
              | kept _ _ => simp [priceLength, digitsLength, hd] at hlength
  | @found previous items rest cells hne hlength hrest ih =>
    cases before with
    | nil => exact hnil
    | cons first before =>
      obtain ⟨rfl, hafter⟩ := List.cons.inj hcells
      rw [mark, if_pos rfl, render_hole]
      exact fun hwithin ↦ ih hafter (count + 1)
        (infix_of_append (dollar_not_mem_placeholder .price count) hwithin)

/-- Prices are always replaced in their own places. -/
theorem inPlaceFrom_prices (tokens : List Token) :
    InPlaceFrom .price (fun _ ↦ true) [] 0 (priceCells classes tokens) := by
  have hscan : Scan (priceLength Token.char? classes) none tokens (priceCells classes tokens) :=
    scan_cellsFrom priceLength_le none tokens
  intro before items after hcells _
  have hmem : items ∈ matchesOf (priceCells classes tokens) := by
    rw [hcells, matchesOf_append]
    exact List.mem_append_right _ List.mem_cons_self
  obtain ⟨d, word, hword, hd⟩ := hscan.forall_matches
    (fun _ _ _ hne hlength ↦ exists_eq_of_priceLength hne hlength) items hmem
  have hnot := not_dollar_digit hscan hcells 0 hd
  rw [List.nil_append, hword]
  rintro ⟨front, back, heq⟩
  rw [List.append_assoc] at heq
  rcases List.append_eq_append_iff.mp heq with ⟨between, hfront, hrest⟩ | ⟨between, -, hrest⟩
  · cases between with
    | nil =>
      have hlength := congrArg List.length hrest
      simp at hlength
      omega
    | cons c between =>
      obtain ⟨rfl, htail⟩ := List.cons.inj hrest
      cases between with
      | nil =>
        obtain ⟨rfl, -⟩ := List.cons.inj htail
        rw [classes.digit_ascii _ (by decide)] at hd
        revert hd
        decide
      | cons e between =>
        obtain ⟨rfl, -⟩ := List.cons.inj htail
        exact hnot ⟨front, between, by rw [hfront, List.append_assoc]; rfl⟩
  · have hlength := congrArg List.length hrest
    simp at hlength
    omega

end Prices

/-! ## What is promised -/

variable (classes : CharClasses)

def occurrences (word text : List Char) : ℕ := text.tails.countP fun tail ↦ decide (word <+: tail)

/-- The pattern is the intent with the values cut out, each in its own place, and the values are
those of the parameters.  With the values in place of the placeholders it is the intent, and every
placeholder occurs once. -/
structure Faithful (intent : String) (template : QueryTemplate) : Prop where
  pattern : template.pattern.toList = render (cut classes intent.toList)
  restored : spell (cut classes intent.toList) = intent.toList
  values : (holes (cut classes intent.toList)).Perm template.parameters
  once : ∀ parameter ∈ template.parameters,
    occurrences parameter.placeholder.toList template.pattern.toList = 1

/-- The text of no number and of no quoted string begins before its own place, where the values
before it have their placeholders.  No quoted string has a price in it, or a number that is
replaced, and the rest of the intent does not spell the placeholder of a value. -/
structure Orderly (intent : String) : Prop where
  numbers : InPlaceFrom .num (notAfterBrace (render (cutPrices classes intent.toList))) []
    (holes (cutPrices classes intent.toList)).length
    (numberCells classes (cutPrices classes intent.toList))
  quoted : InPlaceFrom .str (fun _ ↦ true) []
    (holes (cutNumbers classes (cutPrices classes intent.toList))).length
    (quotedCells (cutNumbers classes (cutPrices classes intent.toList)))
  unquoted : ∀ tokens ∈ matchesOf
    (quotedCells (cutNumbers classes (cutPrices classes intent.toList))), holes tokens = []
  unspelled : ∀ parameter ∈ holes (cut classes intent.toList),
    ¬ parameter.placeholder.toList.map Token.lit <:+: cut classes intent.toList

/-! ## The three passes -/

section ThreePasses

variable {classes : CharClasses}

theorem scan_priceCells (tokens : List Token) :
    Scan (priceLength Token.char? classes) none tokens (priceCells classes tokens) :=
  scan_cellsFrom priceLength_le none tokens

theorem scan_numberCells (tokens : List Token) :
    Scan (numberLength Token.char? classes) none tokens (numberCells classes tokens) :=
  scan_cellsFrom numberLength_le none tokens

theorem scan_quotedCells (tokens : List Token) :
    Scan (quotedLength Token.char?) none tokens (quotedCells tokens) :=
  scan_cellsFrom quotedLength_le none tokens

/-- The values are cut out of the intent. -/
theorem spell_cut (intent : List Char) : spell (cut classes intent) = intent := by
  rw [cut, cutQuoted, spell_mark, (scan_quotedCells _).items, cutNumbers, spell_mark,
    (scan_numberCells _).items, cutPrices, spell_mark, (scan_priceCells _).items, spell_map_lit]

theorem replacePrices_eq (intent : List Char) : replacePrices classes intent =
    (render (cutPrices classes intent),
      added .price (fun _ ↦ true) 0 (priceCells classes (intent.map .lit))) := by
  have hmatches : matchesOf (cells (priceLength some classes) (render (intent.map .lit))) =
      (matchesOf (priceCells classes (intent.map .lit))).map render :=
    agrees_price.matchesOf_render trivial priceLength_le _
  rw [render_map_lit] at hmatches
  have hbegins : ∀ tokens ∈ matchesOf (priceCells classes (intent.map .lit)),
      ∃ c rest, render tokens = c :: rest ∧ c = '$' := by
    intro tokens htokens
    obtain ⟨d, word, hword, -⟩ := (scan_priceCells _).forall_matches
      (fun _ _ _ hne hlength ↦ exists_eq_of_priceLength hne hlength) tokens htokens
    exact ⟨'$', d :: word, hword, rfl⟩
  have hpass := foldl_replaceMatch .price (fun _ _ ↦ true) (· = '$') (by decide)
    (fun _ _ _ ↦ rfl) hbegins [] []
  rw [(scan_priceCells _).items, render_map_lit] at hpass
  rw [replacePrices, hmatches]
  rcases hpass with ⟨-, hpass⟩ | ⟨hnot, -⟩
  · exact hpass
  · exact absurd (inPlaceFrom_prices _) hnot

variable (classes) in
/-- What the pass over the numbers does to the text of tokens. -/
theorem replaceNumbers_cases (tokens : List Token) {parameters : List TemplateParameter}
    (hlength : parameters.length = (holes tokens).length) :
    (InPlaceFrom .num (notAfterBrace (render tokens)) [] (holes tokens).length
        (numberCells classes tokens) ∧
      replaceNumbers classes (render tokens, parameters) =
        (render (cutNumbers classes tokens), parameters ++ added .num
          (notAfterBrace (render tokens)) (holes tokens).length (numberCells classes tokens))) ∨
    (¬ InPlaceFrom .num (notAfterBrace (render tokens)) [] (holes tokens).length
        (numberCells classes tokens) ∧
      Spoiled '\x7b' (classes.digit · = true) (replaceNumbers classes (render tokens, parameters)).1
        (render (cutNumbers classes tokens))) := by
  have hmatches : matchesOf (cells (numberLength some classes) (render tokens)) =
      (matchesOf (numberCells classes tokens)).map render :=
    agrees_number.matchesOf_render rfl numberLength_le tokens
  have hbegins : ∀ items ∈ matchesOf (numberCells classes tokens),
      ∃ c rest, render items = c :: rest ∧ classes.digit c = true :=
    (scan_numberCells tokens).forall_matches
      fun _ _ _ hne hlength ↦ exists_eq_of_numberLength hne hlength
  have hpass := foldl_replaceMatch .num (fun pattern fullMatch ↦
      contains pattern fullMatch && notAfterBrace (render tokens) fullMatch)
    (classes.digit · = true) (by rw [digit_brace]; decide)
    (fun pattern fullMatch hwithin ↦ by rw [contains, decide_eq_true hwithin, Bool.true_and])
    hbegins [] parameters
  rw [(scan_numberCells tokens).items, hlength] at hpass
  rw [replaceNumbers, hmatches]
  exact hpass

/-- What the pass over the quoted strings does to the text of tokens. -/
theorem replaceQuoted_cases (tokens : List Token) {parameters : List TemplateParameter}
    (hlength : parameters.length = (holes tokens).length) :
    (InPlaceFrom .str (fun _ ↦ true) [] (holes tokens).length (quotedCells tokens) ∧
      replaceQuoted (render tokens, parameters) = (render (cutQuoted tokens),
        parameters ++ added .str (fun _ ↦ true) (holes tokens).length (quotedCells tokens))) ∨
    (¬ InPlaceFrom .str (fun _ ↦ true) [] (holes tokens).length (quotedCells tokens) ∧
      Spoiled '\x7b' (isQuote · = true) (replaceQuoted (render tokens, parameters)).1
        (render (cutQuoted tokens))) := by
  have hmatches : matchesOf (cells (quotedLength some) (render tokens)) =
      (matchesOf (quotedCells tokens)).map render :=
    agrees_quoted.matchesOf_render trivial quotedLength_le tokens
  have hbegins : ∀ items ∈ matchesOf (quotedCells tokens),
      ∃ c rest, render items = c :: rest ∧ isQuote c = true :=
    (scan_quotedCells tokens).forall_matches
      fun _ _ _ hne hlength ↦ exists_eq_of_quotedLength hne hlength
  have hpass := foldl_replaceMatch .str contains (isQuote · = true) (by decide)
    (fun pattern fullMatch hwithin ↦ decide_eq_true hwithin) hbegins [] parameters
  rw [(scan_quotedCells tokens).items, hlength] at hpass
  rw [replaceQuoted, hmatches]
  exact hpass

end ThreePasses

/-! ## The parameters of tokens -/

section Holes

variable {classes : CharClasses}

/-- The parameters that are lost in matches that get a placeholder of their own. -/
def swallowed (test : List Char → Bool) : List (Cell Token) → List TemplateParameter
  | [] => []
  | .kept _ :: cells => swallowed test cells
  | .found tokens :: cells =>
      if test (render tokens) then holes tokens ++ swallowed test cells else swallowed test cells

/-- A pass adds parameters to those that it does not lose. -/
theorem perm_holes_mark (kind : Kind) (test : List Char → Bool) (count : ℕ)
    (cells : List (Cell Token)) :
    (holes (mark kind test count cells) ++ swallowed test cells).Perm
      (holes (cells.flatMap Cell.items) ++ added kind test count cells) := by
  induction cells generalizing count with
  | nil => exact List.Perm.nil
  | cons cell cells ih =>
    rw [List.flatMap_cons, holes_append]
    cases cell with
    | kept token =>
      have hmark : holes (mark kind test count (.kept token :: cells)) =
          holes [token] ++ holes (mark kind test count cells) := holes_append [token] _
      rw [hmark, swallowed, added, Cell.items, List.append_assoc, List.append_assoc]
      exact (ih count).append_left (holes [token])
    | found tokens =>
      rw [mark, swallowed, added, Cell.items]
      split
      case isTrue =>
        have hnext := ih (count + 1)
        rw [List.perm_iff_count] at hnext ⊢
        intro parameter
        have hcount := hnext parameter
        simp only [holes, List.filterMap_cons, Token.parameter?, List.count_append, List.count_cons]
          at hcount ⊢
        omega
      case isFalse =>
        rw [holes_append, List.append_assoc, List.append_assoc]
        exact (ih count).append_left (holes tokens)

theorem swallowed_eq_nil {test : List Char → Bool} {cells : List (Cell Token)}
    (h : ∀ tokens ∈ matchesOf cells, holes tokens = []) : swallowed test cells = [] := by
  induction cells with
  | nil => rfl
  | cons cell cells ih =>
    cases cell with
    | kept token => exact ih h
    | found tokens =>
      obtain ⟨htokens, hrest⟩ := List.forall_mem_cons.mp h
      rw [swallowed, htokens, ih hrest]
      exact ite_self []

/-- All matches of quoted strings get a placeholder. -/
theorem holes_eq_nil_of_swallowed {cells : List (Cell Token)}
    (h : swallowed (fun _ ↦ true) cells = []) : ∀ tokens ∈ matchesOf cells, holes tokens = [] := by
  induction cells with
  | nil => exact fun _ htokens ↦ absurd htokens List.not_mem_nil
  | cons cell cells ih =>
    cases cell with
    | kept token => exact ih h
    | found tokens =>
      rw [swallowed, if_pos rfl, List.append_eq_nil_iff] at h
      exact List.forall_mem_cons.mpr ⟨h.1, ih h.2⟩

theorem holes_eq_nil_of_literal {tokens : List Token} (h : Literal tokens) : holes tokens = [] := by
  induction tokens with
  | nil => rfl
  | cons token tokens ih =>
    obtain ⟨⟨c, hc⟩, hrest⟩ := List.forall_mem_cons.mp h
    cases token with
    | lit c => exact ih hrest
    | hole kind count value => cases hc

theorem perm_holes_cutPrices (intent : List Char) : (holes (cutPrices classes intent)).Perm
    (added .price (fun _ ↦ true) 0 (priceCells classes (intent.map .lit))) := by
  have hperm := perm_holes_mark .price (fun _ ↦ true) 0 (priceCells classes (intent.map .lit))
  have hswallowed : swallowed (fun _ ↦ true) (priceCells classes (intent.map .lit)) = [] :=
    swallowed_eq_nil ((scan_priceCells _).forall_matches
      fun _ _ _ _ hlength ↦ holes_eq_nil_of_literal (literal_of_priceLength hlength))
  rwa [hswallowed, List.append_nil, (scan_priceCells _).items, holes_map_lit, List.nil_append]
    at hperm

theorem perm_holes_cutNumbers (tokens : List Token) : (holes (cutNumbers classes tokens)).Perm
    (holes tokens ++ added .num (notAfterBrace (render tokens)) (holes tokens).length
      (numberCells classes tokens)) := by
  have hperm := perm_holes_mark .num (notAfterBrace (render tokens)) (holes tokens).length
    (numberCells classes tokens)
  have hswallowed : swallowed (notAfterBrace (render tokens)) (numberCells classes tokens) = [] :=
    swallowed_eq_nil ((scan_numberCells _).forall_matches
      fun _ _ _ _ hlength ↦ holes_eq_nil_of_literal (literal_of_numberLength hlength))
  rwa [hswallowed, List.append_nil, (scan_numberCells _).items] at hperm

end Holes

/-! ## Occurrences of placeholders -/

section Occurrences

theorem occurrences_cons (word : List Char) (c : Char) (text : List Char) :
    occurrences word (c :: text) = occurrences word text + if word <+: c :: text then 1 else 0 := by
  rw [occurrences, List.tails_cons, List.countP_cons, occurrences]
  simp only [decide_eq_true_eq]

/-- A word does not occur where its first letter does not. -/
theorem occurrences_append {c : Char} {word part : List Char} (hc : c ∉ part) (text : List Char) :
    occurrences (c :: word) (part ++ text) = occurrences (c :: word) text := by
  induction part with
  | nil => rfl
  | cons first part ih =>
    rw [List.mem_cons, not_or] at hc
    rw [List.cons_append, occurrences_cons, ih hc.2, if_neg, Nat.add_zero]
    exact fun hstarts ↦ hc.1 (List.cons_prefix_cons.mp hstarts).1

/-- A placeholder has braces at its ends and nowhere else. -/
theorem exists_inner (kind : Kind) (count : ℕ) : ∃ inner,
    placeholder kind count = '\x7b' :: (inner ++ ['\x7d']) ∧ '\x7b' ∉ inner ∧ '\x7d' ∉ inner := by
  refine ⟨kind.stem.toList ++ Nat.toDigits 10 count, placeholder_eq kind count, ?_, ?_⟩ <;>
    exact fun hmem ↦ absurd (isAlphanum_of_mem_placeholder hmem) (by decide)

theorem placeholder_injective {kind other : Kind} {count number : ℕ}
    (h : placeholder kind count = placeholder other number) : kind = other ∧ count = number := by
  rw [placeholder_eq, placeholder_eq, List.append_cancel_right_eq, List.cons.injEq] at h
  obtain ⟨-, hname⟩ := h
  have hkind : kind = other := by
    have hletter := congrArg List.head? hname
    cases kind <;> cases other <;> first | rfl | exact absurd hletter (by simp [Kind.stem])
  subst hkind
  have hdigits := List.append_cancel_left hname
  refine ⟨rfl, ?_⟩
  rw [← Nat.ofDigitChars_ten_toDigits (n := count), hdigits, Nat.ofDigitChars_ten_toDigits]

/-- No placeholder is the start of another one. -/
theorem placeholder_eq_of_starts {kind other : Kind} {count number : ℕ} {text : List Char}
    (h : placeholder kind count <+: placeholder other number ++ text) :
    placeholder other number = placeholder kind count := by
  have hends : ∀ {kind other : Kind} {count number : ℕ},
      placeholder kind count <+: placeholder other number →
      placeholder other number = placeholder kind count := by
    rintro kind other count number ⟨rest, hrest⟩
    obtain ⟨inner, hinner, -, -⟩ := exists_inner kind count
    obtain ⟨outer, houter, -, hnot⟩ := exists_inner other number
    cases rest using List.reverseRecOn with
    | nil => rw [← hrest, List.append_nil]
    | append_singleton rest last =>
      rw [hinner, houter, List.cons_append, List.cons.injEq, ← List.append_assoc] at hrest
      have houter' := (List.append_inj' hrest.2 rfl).1
      refine absurd ?_ hnot
      rw [← houter']
      simp
  rcases List.prefix_or_prefix_of_prefix h (List.prefix_append _ text) with hstarts | hstarts
  · exact hends hstarts
  · exact (hends hstarts).symm

/-- A word without opening braces stands only in letters. -/
theorem prefix_render {word : List Char} (hword : '\x7b' ∉ word) (tokens : List Token) :
    word <+: render tokens ↔ word.map Token.lit <+: tokens := by
  induction word generalizing tokens with
  | nil => exact iff_of_true List.nil_prefix List.nil_prefix
  | cons c word ih =>
    rw [List.mem_cons, not_or] at hword
    cases tokens with
    | nil => simp
    | cons token tokens =>
      cases token with
      | lit d =>
        rw [render_lit, List.map_cons, List.cons_prefix_cons, List.cons_prefix_cons, ih hword.2,
          Token.lit.injEq]
      | hole kind count value =>
        obtain ⟨inner, hinner⟩ := exists_placeholder_eq kind count
        rw [render_hole, hinner, List.cons_append, List.map_cons, List.cons_prefix_cons,
          List.cons_prefix_cons]
        exact iff_of_false (fun h ↦ hword.1 h.1.symm) (fun h ↦ by cases h.1)

/-- A placeholder occurs where it was put and where letters spell it. -/
theorem occurrences_render (kind : Kind) (count : ℕ) (tokens : List Token) :
    occurrences (placeholder kind count) (render tokens) =
      (holes tokens).countP (fun other ↦ other.placeholder.toList = placeholder kind count) +
        tokens.tails.countP fun tail ↦
          decide ((placeholder kind count).map Token.lit <+: tail) := by
  obtain ⟨inner, hinner, hopen, hclose⟩ := exists_inner kind count
  induction tokens with
  | nil =>
    rw [hinner]
    rfl
  | cons token tokens ih =>
    rw [List.tails_cons, List.countP_cons]
    simp only [decide_eq_true_eq]
    cases token with
    | lit c =>
      have hstarts : placeholder kind count <+: c :: render tokens ↔
          (placeholder kind count).map Token.lit <+: .lit c :: tokens := by
        have hrest : '\x7b' ∉ inner ++ ['\x7d'] := by simpa using hopen
        rw [hinner, List.map_cons, List.cons_prefix_cons, List.cons_prefix_cons,
          prefix_render hrest, Token.lit.injEq]
      rw [render_lit, occurrences_cons, ih, Nat.add_assoc, if_congr hstarts rfl rfl]
      rfl
    | hole other number value =>
      have hnot :
          ¬ (placeholder kind count).map Token.lit <+: .hole other number value :: tokens := by
        rw [hinner, List.map_cons, List.cons_prefix_cons]
        exact fun h ↦ by cases h.1
      have hstarts : placeholder kind count <+: placeholder other number ++ render tokens ↔
          placeholder other number = placeholder kind count :=
        ⟨placeholder_eq_of_starts, fun heq ↦ heq ▸ List.prefix_append _ _⟩
      have hholes : holes (.hole other number value :: tokens) =
          parameter other number :: holes tokens := rfl
      have hrest :
          occurrences (placeholder kind count) (placeholder other number ++ render tokens) =
            occurrences (placeholder kind count) (render tokens) +
              if placeholder kind count <+: placeholder other number ++ render tokens then 1
              else 0 := by
        obtain ⟨part, hpart, hpartOpen, -⟩ := exists_inner other number
        have hnone : '\x7b' ∉ part ++ ['\x7d'] := by simpa using hpartOpen
        rw [hpart, List.cons_append, occurrences_cons]
        congr 1
        rw [hinner, occurrences_append hnone]
      rw [render_hole, hrest, ih, if_congr hstarts rfl rfl, hholes, List.countP_cons, if_neg hnot]
      simp only [decide_eq_true_eq]
      change _ + (if placeholder other number = placeholder kind count then 1 else 0) =
        _ + (if placeholder other number = placeholder kind count then 1 else 0) + _
      omega

theorem parameter_injective {kind other : Kind} {count number : ℕ}
    (h : parameter kind count = parameter other number) : kind = other ∧ count = number :=
  placeholder_injective (congrArg (fun parameter ↦ parameter.placeholder.toList) h)

theorem exists_of_mem_holes {tokens : List Token} {found : TemplateParameter}
    (h : found ∈ holes tokens) : ∃ kind count, found = parameter kind count := by
  obtain ⟨token, -, htoken⟩ := List.mem_filterMap.mp h
  cases token with
  | lit c => cases htoken
  | hole kind count value => exact ⟨kind, count, (Option.some.inj htoken).symm⟩

/-- The placeholder of a value occurs once if letters do not spell it. -/
theorem occurrences_eq_one_iff {tokens : List Token} (hnodup : (holes tokens).Nodup)
    {found : TemplateParameter} (hfound : found ∈ holes tokens) :
    occurrences found.placeholder.toList (render tokens) = 1 ↔
      ¬ found.placeholder.toList.map Token.lit <:+: tokens := by
  obtain ⟨kind, count, rfl⟩ := exists_of_mem_holes hfound
  have hone : (holes tokens).countP
      (fun other ↦ other.placeholder.toList = placeholder kind count) = 1 := by
    rw [← List.count_eq_one_of_mem hnodup hfound, List.count]
    refine List.countP_congr fun other hother ↦ ?_
    obtain ⟨otherKind, number, rfl⟩ := exists_of_mem_holes hother
    rw [decide_eq_true_eq, beq_iff_eq]
    refine ⟨fun heq ↦ ?_, fun heq ↦ by rw [heq]; rfl⟩
    obtain ⟨rfl, rfl⟩ := placeholder_injective heq
    rfl
  have hspelled : (tokens.tails.countP fun tail ↦
      decide ((placeholder kind count).map Token.lit <+: tail)) = 0 ↔
      ¬ (placeholder kind count).map Token.lit <:+: tokens := by
    rw [List.countP_eq_zero]
    simp only [List.mem_tails, decide_eq_true_eq]
    constructor
    · intro h hwithin
      obtain ⟨tail, hstarts, hsuffix⟩ := List.infix_iff_prefix_suffix.mp hwithin
      exact h tail hsuffix hstarts
    · exact fun h tail hsuffix hstarts ↦ h (hstarts.isInfix.trans hsuffix.isInfix)
  change occurrences (placeholder kind count) (render tokens) = 1 ↔
    ¬ (placeholder kind count).map Token.lit <:+: tokens
  rw [occurrences_render, hone, ← hspelled]
  omega

end Occurrences

/-! ## Orderly intents -/

section Forward

variable {classes : CharClasses}

theorem mem_added {kind : Kind} {test : List Char → Bool} {count : ℕ} {cells : List (Cell Token)}
    {found : TemplateParameter} (h : found ∈ added kind test count cells) :
    ∃ number, count ≤ number ∧ found = parameter kind number := by
  induction cells generalizing count with
  | nil => exact absurd h List.not_mem_nil
  | cons cell cells ih =>
    cases cell with
    | kept token => exact ih h
    | found tokens =>
      rw [added] at h
      split at h
      case isFalse => exact ih h
      case isTrue =>
        rcases List.mem_cons.mp h with rfl | h
        · exact ⟨count, Nat.le_refl count, rfl⟩
        · obtain ⟨number, hle, heq⟩ := ih h
          exact ⟨number, Nat.le_of_succ_le hle, heq⟩

theorem nodup_added (kind : Kind) (test : List Char → Bool) (count : ℕ)
    (cells : List (Cell Token)) : (added kind test count cells).Nodup := by
  induction cells generalizing count with
  | nil => exact List.nodup_nil
  | cons cell cells ih =>
    cases cell with
    | kept token => exact ih count
    | found tokens =>
      rw [added]
      split
      case isFalse => exact ih count
      case isTrue =>
        refine List.nodup_cons.mpr ⟨fun hmem ↦ ?_, ih (count + 1)⟩
        obtain ⟨number, hle, heq⟩ := mem_added hmem
        exact Nat.not_succ_le_self count ((parameter_injective heq).2 ▸ hle)

/-- Parameters of different kinds are different. -/
theorem disjoint_added {kind other : Kind} (hne : kind ≠ other) {test test' : List Char → Bool}
    {count number : ℕ} {cells cells' : List (Cell Token)} :
    (added kind test count cells).Disjoint (added other test' number cells') := by
  intro found hfound hother
  obtain ⟨_, -, heq⟩ := mem_added hfound
  obtain ⟨_, -, heq'⟩ := mem_added hother
  exact hne (parameter_injective (heq.symm.trans heq')).1

/-- The parameters that the three passes add to an intent whose values are cut out. -/
def allAdded (classes : CharClasses) (intent : List Char) : List TemplateParameter :=
  added .price (fun _ ↦ true) 0 (priceCells classes (intent.map .lit)) ++
    added .num (notAfterBrace (render (cutPrices classes intent)))
      (holes (cutPrices classes intent)).length (numberCells classes (cutPrices classes intent)) ++
    added .str (fun _ ↦ true) (holes (cutNumbers classes (cutPrices classes intent))).length
      (quotedCells (cutNumbers classes (cutPrices classes intent)))

theorem nodup_allAdded (intent : List Char) : (allAdded classes intent).Nodup := by
  refine List.Nodup.append (List.Nodup.append (nodup_added ..) (nodup_added ..) ?_)
    (nodup_added ..) ?_
  · exact disjoint_added (by decide)
  · rw [List.disjoint_append_left]
    exact ⟨disjoint_added (by decide), disjoint_added (by decide)⟩

variable (classes) in
/-- The values of the intent and those that are lost in quoted strings are the parameters. -/
theorem perm_holes_cut (intent : List Char) : (holes (cut classes intent) ++
    swallowed (fun _ ↦ true) (quotedCells (cutNumbers classes (cutPrices classes intent)))).Perm
      (allAdded classes intent) := by
  have hquoted := perm_holes_mark .str (fun _ ↦ true)
    (holes (cutNumbers classes (cutPrices classes intent))).length
    (quotedCells (cutNumbers classes (cutPrices classes intent)))
  rw [(scan_quotedCells _).items] at hquoted
  refine hquoted.trans (List.Perm.append_right _ ?_)
  exact (perm_holes_cutNumbers _).trans (List.Perm.append_right _ (perm_holes_cutPrices intent))

variable (classes) in
theorem length_holes_cutPrices (intent : List Char) :
    (added .price (fun _ ↦ true) 0 (priceCells classes (intent.map .lit))).length =
      (holes (cutPrices classes intent)).length :=
  (perm_holes_cutPrices intent).length_eq.symm

theorem length_holes_cutNumbers (intent : List Char) :
    (added .price (fun _ ↦ true) 0 (priceCells classes (intent.map .lit)) ++
      added .num (notAfterBrace (render (cutPrices classes intent)))
        (holes (cutPrices classes intent)).length
        (numberCells classes (cutPrices classes intent))).length =
      (holes (cutNumbers classes (cutPrices classes intent))).length :=
  ((perm_holes_cutNumbers _).trans
    (List.Perm.append_right _ (perm_holes_cutPrices intent))).length_eq.symm

/-- The state of an extraction is what the template is made of. -/
theorem extract_eq_some {intent : String} {template : QueryTemplate}
    (h : extract classes intent = some template) : ∃ pattern parameters,
      replaceQuoted (replaceNumbers classes (replacePrices classes intent.toList)) =
        (pattern, parameters) ∧ template = ⟨String.ofList pattern, parameters⟩ := by
  unfold extract at h
  cases hstate : replaceQuoted (replaceNumbers classes (replacePrices classes intent.toList)) with
  | mk pattern parameters =>
    refine ⟨pattern, parameters, rfl, ?_⟩
    rw [hstate] at h
    dsimp only at h
    split at h
    · cases h
    · exact (Option.some.inj h).symm

/-- Where every text is replaced in its own place, the pattern is the intent with its values cut
out. -/
theorem replace_eq {intent : String} (hnumbers : InPlaceFrom .num
      (notAfterBrace (render (cutPrices classes intent.toList))) []
      (holes (cutPrices classes intent.toList)).length
      (numberCells classes (cutPrices classes intent.toList)))
    (hquoted : InPlaceFrom .str (fun _ ↦ true) []
      (holes (cutNumbers classes (cutPrices classes intent.toList))).length
      (quotedCells (cutNumbers classes (cutPrices classes intent.toList)))) :
    replaceQuoted (replaceNumbers classes (replacePrices classes intent.toList)) =
      (render (cut classes intent.toList), allAdded classes intent.toList) := by
  rw [replacePrices_eq]
  rcases replaceNumbers_cases classes (cutPrices classes intent.toList)
    (length_holes_cutPrices classes intent.toList) with ⟨-, hpass⟩ | ⟨hnot, -⟩
  · rw [hpass]
    rcases replaceQuoted_cases (cutNumbers classes (cutPrices classes intent.toList))
      (length_holes_cutNumbers intent.toList) with ⟨-, hpass⟩ | ⟨hnot, -⟩
    · exact hpass
    · exact absurd hquoted hnot
  · exact absurd hnumbers hnot

theorem nodup_holes_cut {intent : List Char} : (holes (cut classes intent)).Nodup :=
  (List.nodup_append.mp ((perm_holes_cut classes intent).nodup_iff.mpr (nodup_allAdded intent))).1

theorem faithful_of_orderly {intent : String} {template : QueryTemplate}
    (hextract : extract classes intent = some template) (h : Orderly classes intent) :
    Faithful classes intent template := by
  obtain ⟨pattern, parameters, hstate, rfl⟩ := extract_eq_some hextract
  rw [replace_eq h.numbers h.quoted, Prod.mk.injEq] at hstate
  obtain ⟨rfl, rfl⟩ := hstate
  have hvalues : (holes (cut classes intent.toList)).Perm (allAdded classes intent.toList) := by
    have hperm := perm_holes_cut classes intent.toList
    rwa [swallowed_eq_nil h.unquoted, List.append_nil] at hperm
  refine ⟨String.toList_ofList, spell_cut intent.toList, hvalues, fun parameter hparameter ↦ ?_⟩
  have hmem := hvalues.mem_iff.mpr hparameter
  rw [String.toList_ofList, occurrences_eq_one_iff nodup_holes_cut hmem]
  exact h.unspelled parameter hmem

end Forward

end MongoCore.Compiled.TemplateExtractor
