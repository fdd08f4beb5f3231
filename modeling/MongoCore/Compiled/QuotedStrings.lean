import MongoCore.Compiled.FaithfulTemplates

/-!
# Quoted strings

What a replacement in a text does to the quoted strings of the text.  If neither what is replaced
nor the replacement has a quote, then there are as many of them as before, and they are the same, or
the replacement is in one of them.  So it is enough to count what they have in them to know that
they are the same.
-/

namespace MongoCore.Compiled.TemplateExtractor

open MongoCore.Library.FirstOccurrence MongoCore.Library.Scanning

/-! ## Cells of texts with quotes -/

section QuotedCells

variable {τ : Type} {view : τ → Option Char}

theorem quotedLength_previous (previous other : Option τ) (text : List τ) :
    quotedLength view previous text = quotedLength view other text := by
  cases text <;> rfl

/-- What stands before a text does not matter to its quoted strings. -/
theorem Scan.change_previous {previous : Option τ} {text : List τ} {cells : List (Cell τ)}
    (h : Scan (quotedLength view) previous text cells) (other : Option τ) :
    Scan (quotedLength view) other text cells := by
  cases h with
  | nil => exact .nil
  | kept hlength hrest => exact .kept ((quotedLength_previous ..).trans hlength) hrest
  | found hne hlength hrest => exact .found hne ((quotedLength_previous ..).trans hlength) hrest

theorem scan_quoted (previous : Option τ) (text : List τ) :
    Scan (quotedLength view) previous text (cells (quotedLength view) text) :=
  Scan.change_previous (scan_cellsFrom quotedLength_le none text) previous

theorem cells_kept {item : τ} {text : List τ} (h : quotedLength view none (item :: text) = 0) :
    cells (quotedLength view) (item :: text) = .kept item :: cells (quotedLength view) text :=
  (Scan.kept h (scan_quoted (some item) text)).eq_cellsFrom

theorem cells_of_not_quote {item : τ} (h : has view isQuote item = false) (text : List τ) :
    cells (quotedLength view) (item :: text) = .kept item :: cells (quotedLength view) text :=
  cells_kept (by rw [quotedLength, h]; rfl)

theorem cells_of_quoted {items : List τ} (h : IsQuoted view items) (text : List τ) :
    cells (quotedLength view) (items ++ text) = .found items :: cells (quotedLength view) text := by
  have hne : items ≠ [] := by
    obtain ⟨opening, inner, closing, rfl, -⟩ := h
    exact List.cons_ne_nil _ _
  exact (Scan.found hne (h.quotedLength none text) (scan_quoted _ text)).eq_cellsFrom

theorem cells_append_of_not_quote {items : List τ}
    (h : ∀ item ∈ items, has view isQuote item = false) (text : List τ) :
    cells (quotedLength view) (items ++ text) =
      items.map .kept ++ cells (quotedLength view) text := by
  induction items with
  | nil => rfl
  | cons item items ih =>
    obtain ⟨hitem, hrest⟩ := List.forall_mem_cons.mp h
    rw [List.cons_append, cells_of_not_quote hitem, ih hrest]
    rfl

/-- A quote after which there is no other one is kept, and all that follows. -/
theorem cells_of_last_quote (item : τ) {text : List τ}
    (h : ∀ other ∈ text, has view isQuote other = false) :
    cells (quotedLength view) (item :: text) = (item :: text).map .kept := by
  have hcells := cells_append_of_not_quote h []
  rw [List.append_nil] at hcells
  have hzero : quotedLength view none (item :: text) = 0 := by
    rw [quotedLength, takeWhile_inner h, bne_self_eq_false, Bool.and_false]
    rfl
  rw [cells_kept hzero, hcells, List.map_cons]
  exact congrArg _ (List.append_nil _)

/-- A quote right before another one is kept. -/
theorem cells_of_two_quotes (item : τ) {other : τ} (h : has view isQuote other = true)
    (text : List τ) : cells (quotedLength view) (item :: other :: text) =
      .kept item :: cells (quotedLength view) (other :: text) := by
  refine cells_kept ?_
  rw [quotedLength, List.takeWhile_cons, h]
  simp

/-- The first quoted string of a text that begins with a quote. -/
theorem cells_of_first_quoted {opening closing : τ} {inner : List τ}
    (hopening : has view isQuote opening = true) (hne : inner ≠ [])
    (hinner : ∀ item ∈ inner, has view isQuote item = false)
    (hclosing : has view isQuote closing = true) (text : List τ) :
    cells (quotedLength view) (opening :: (inner ++ closing :: text)) =
      .found (opening :: (inner ++ [closing])) :: cells (quotedLength view) text := by
  have hquoted : IsQuoted view (opening :: (inner ++ [closing])) :=
    ⟨opening, inner, closing, rfl, hopening, hne, hinner, hclosing⟩
  have hsplit : opening :: (inner ++ closing :: text) =
      opening :: (inner ++ [closing]) ++ text := by
    rw [List.cons_append, List.append_assoc, List.singleton_append]
  rw [hsplit, cells_of_quoted hquoted]

/-- A text that begins with a quoted string. -/
theorem cells_quoted_append {opening closing : τ} {inner : List τ}
    (hopening : has view isQuote opening = true) (hne : inner ≠ [])
    (hinner : ∀ item ∈ inner, has view isQuote item = false)
    (hclosing : has view isQuote closing = true) (front text : List τ) :
    cells (quotedLength view) (opening :: (inner ++ closing :: front) ++ text) =
      .found (opening :: (inner ++ [closing])) :: cells (quotedLength view) (front ++ text) := by
  rw [← cells_of_first_quoted hopening hne hinner hclosing]
  simp only [List.cons_append, List.append_assoc]

/-- A quote that the front of a text leaves open. -/
theorem cells_unclosed_append {opening closing : τ} {front inner : List τ}
    (hopening : has view isQuote opening = true)
    (hfront : ∀ item ∈ front, has view isQuote item = false) (hne : inner ≠ [])
    (hinner : ∀ item ∈ inner, has view isQuote item = false)
    (hclosing : has view isQuote closing = true) (text : List τ) :
    cells (quotedLength view) (opening :: front ++ (inner ++ closing :: text)) =
      .found (opening :: (front ++ inner ++ [closing])) :: cells (quotedLength view) text := by
  have hne' : front ++ inner ≠ [] := by simp [hne]
  rw [← cells_of_first_quoted hopening hne' (List.forall_mem_append.mpr ⟨hfront, hinner⟩) hclosing]
  simp only [List.cons_append, List.append_assoc]

/-- The front of a text as it is scanned: what is behind it matters only if it leaves a quote
open. -/
@[elab_as_elim]
theorem front_induction (view : τ → Option Char) {motive : List τ → Prop} (front : List τ)
    (nil : motive [])
    (kept : ∀ first front, has view isQuote first = false → motive front →
      motive (first :: front))
    (two : ∀ first second front, has view isQuote second = true → motive (second :: front) →
      motive (first :: second :: front))
    (quoted : ∀ opening inner closing front, has view isQuote opening = true → inner ≠ [] →
      (∀ item ∈ inner, has view isQuote item = false) → has view isQuote closing = true →
      motive front → motive (opening :: (inner ++ closing :: front)))
    (unclosed : ∀ opening front, has view isQuote opening = true →
      (∀ item ∈ front, has view isQuote item = false) → motive (opening :: front)) :
    motive front := by
  induction hsize : front.length using Nat.strongRecOn generalizing front with
  | ind size ih =>
    cases front with
    | nil => exact nil
    | cons first front =>
      subst hsize
      cases hfirst : has view isQuote first with
      | false => exact kept first front hfirst (ih front.length (Nat.lt_succ_self _) front rfl)
      | true =>
        rcases exists_quote_or front with hnone | ⟨inner, closing, rest, rfl, hinner, hclosing⟩
        · exact unclosed first front hfirst hnone
        · cases inner with
          | nil =>
            exact two first closing rest hclosing
              (ih (closing :: rest).length (Nat.lt_succ_self _) (closing :: rest) rfl)
          | cons second inner =>
            have hshort : rest.length < (first :: (second :: inner ++ closing :: rest)).length := by
              simp only [List.length_cons, List.length_append]
              omega
            exact quoted first (second :: inner) closing rest hfirst (List.cons_ne_nil _ _) hinner
              hclosing (ih rest.length hshort rest rfl)

/-- Where something without quotes is replaced by something without quotes, the quoted strings are
the same, or one of them has the replacement in it. -/
theorem matchesOf_replace (p : τ → Bool) {items replacement : List τ} (hne : items ≠ [])
    (hne' : replacement ≠ []) (hitems : ∀ item ∈ items, has view isQuote item = false)
    (hreplacement : ∀ item ∈ replacement, has view isQuote item = false)
    (hcount : items.countP p = 0) (hcount' : replacement.countP p = 1) (front back : List τ) :
    matchesOf (cells (quotedLength view) (front ++ (replacement ++ back))) =
        matchesOf (cells (quotedLength view) (front ++ (items ++ back))) ∨
      (matchesOf (cells (quotedLength view) (front ++ (replacement ++ back)))).length =
          (matchesOf (cells (quotedLength view) (front ++ (items ++ back)))).length ∧
        (matchesOf (cells (quotedLength view) (front ++ (replacement ++ back)))).flatten.countP p =
          (matchesOf (cells (quotedLength view) (front ++ (items ++ back)))).flatten.countP p +
            1 := by
  induction front using front_induction view with
  | nil =>
    left
    rw [List.nil_append, List.nil_append, cells_append_of_not_quote hitems,
      cells_append_of_not_quote hreplacement, matchesOf_append, matchesOf_append,
      matchesOf_map_kept, matchesOf_map_kept]
  | kept first front hfirst ih =>
    rw [List.cons_append, List.cons_append, cells_of_not_quote hfirst, cells_of_not_quote hfirst]
    exact ih
  | two first second front hsecond ih =>
    simp only [List.cons_append] at ih ⊢
    rw [cells_of_two_quotes first hsecond, cells_of_two_quotes first hsecond]
    exact ih
  | quoted opening inner closing front hopening hsome hinner hclosing ih =>
    rw [cells_quoted_append hopening hsome hinner hclosing,
      cells_quoted_append hopening hsome hinner hclosing, matchesOf_found, matchesOf_found]
    refine ih.imp (congrArg _) fun h ↦ ⟨congrArg (· + 1) h.1, ?_⟩
    rw [List.flatten_cons, List.flatten_cons, List.countP_append, List.countP_append, h.2,
      Nat.add_assoc]
  | unclosed opening front hopening hfront =>
    rcases exists_quote_or back with hback | ⟨inner, closing, rest, rfl, hinner, hclosing⟩
    · left
      have hall : ∀ {part : List τ}, (∀ item ∈ part, has view isQuote item = false) →
          matchesOf (cells (quotedLength view) (opening :: front ++ (part ++ back))) = [] := by
        intro part hpart
        rw [List.cons_append, cells_of_last_quote opening, matchesOf_map_kept]
        exact List.forall_mem_append.mpr ⟨hfront, List.forall_mem_append.mpr ⟨hpart, hback⟩⟩
      rw [hall hitems, hall hreplacement]
    · right
      have hall : ∀ {part : List τ}, part ≠ [] → (∀ item ∈ part, has view isQuote item = false) →
          matchesOf (cells (quotedLength view)
              (opening :: front ++ (part ++ (inner ++ closing :: rest)))) =
            (opening :: (front ++ (part ++ inner) ++ [closing])) ::
              matchesOf (cells (quotedLength view) rest) := by
        intro part hpart hquotes
        rw [← List.append_assoc part, cells_unclosed_append hopening hfront (by simp [hpart])
          (List.forall_mem_append.mpr ⟨hquotes, hinner⟩) hclosing, matchesOf_found]
      rw [hall hne hitems, hall hne' hreplacement]
      refine ⟨rfl, ?_⟩
      simp only [List.flatten_cons, List.countP_append, List.countP_cons, hcount, hcount']
      omega

end QuotedCells

/-! ## Texts with placeholders for quoted strings -/

/-- The text of cells with placeholders for the matches. -/
def fillCells : ℕ → List (Cell Char) → List Char
  | _, [] => []
  | count, .kept c :: cells => c :: fillCells count cells
  | count, .found _ :: cells => placeholder .str count ++ fillCells (count + 1) cells

def fillQuoted (count : ℕ) (text : List Char) : List Char :=
  fillCells count (cells (quotedLength some) text)

theorem fillCells_map_kept (count : ℕ) (text : List Char) (cells : List (Cell Char)) :
    fillCells count (text.map .kept ++ cells) = text ++ fillCells count cells := by
  induction text with
  | nil => rfl
  | cons c text ih => exact congrArg (c :: ·) ih

theorem render_mark_quoted (count : ℕ) (cells : List (Cell Token)) :
    render (mark .str (fun _ ↦ true) count cells) =
      fillCells count (cells.flatMap renderCell) := by
  induction cells generalizing count with
  | nil => rfl
  | cons cell cells ih =>
    rw [List.flatMap_cons]
    cases cell with
    | kept token =>
      rw [renderCell, fillCells_map_kept, ← ih, ← render_append]
      rfl
    | found tokens =>
      rw [mark, if_pos rfl, render_hole, ih]
      rfl

/-- Cutting out the quoted strings of tokens is filling the text. -/
theorem render_mark_quotedCells (count : ℕ) (tokens : List Token) :
    render (mark .str (fun _ ↦ true) count (quotedCells tokens)) =
      fillQuoted count (render tokens) := by
  have hcells : cells (quotedLength some) (render tokens) =
      (quotedCells tokens).flatMap renderCell :=
    (agrees_quoted.scan (scan_quotedCells tokens) trivial).eq_cellsFrom
  rw [render_mark_quoted, fillQuoted, hcells]

/-- If two texts differ after an open quote, where neither has a quote, but not in their quoted
strings, then the quote is not closed in either of them. -/
theorem fillQuoted_unclosed {opening c d : Char} {common rest back : List Char}
    (hopening : has some isQuote opening = true)
    (hcommon : ∀ other ∈ common, has some isQuote other = false)
    (hc : has some isQuote c = false) (hd : has some isQuote d = false) (hne : c ≠ d)
    (hmatches : matchesOf (cells (quotedLength some) (opening :: common ++ c :: rest)) =
      matchesOf (cells (quotedLength some) (opening :: common ++ d :: back))) (count : ℕ) :
    fillQuoted count (opening :: common ++ c :: rest) = opening :: common ++ c :: rest ∧
      fillQuoted count (opening :: common ++ d :: back) = opening :: common ++ d :: back := by
  have hlast : ∀ {c : Char} {tail : List Char}, has some isQuote c = false →
      (∀ other ∈ tail, has some isQuote other = false) →
      cells (quotedLength some) (opening :: common ++ c :: tail) =
        (opening :: common ++ c :: tail).map .kept := fun hc htail ↦
    cells_of_last_quote opening
      (List.forall_mem_append.mpr ⟨hcommon, List.forall_mem_cons.mpr ⟨hc, htail⟩⟩)
  have hfound : ∀ {c closing : Char} {inner tail : List Char}, has some isQuote c = false →
      (∀ other ∈ inner, has some isQuote other = false) → has some isQuote closing = true →
      cells (quotedLength some) (opening :: common ++ c :: (inner ++ closing :: tail)) =
        .found (opening :: (common ++ c :: inner ++ [closing])) ::
          cells (quotedLength some) tail := fun hc hinner hclosing ↦
    cells_unclosed_append hopening hcommon (List.cons_ne_nil _ _)
      (List.forall_mem_cons.mpr ⟨hc, hinner⟩) hclosing _
  rcases exists_quote_or rest with hrest | ⟨inner, closing, last, rfl, hinner, hclosing⟩
  · rcases exists_quote_or back with hback | ⟨inner, closing, last, rfl, hinner, hclosing⟩
    · have hkept := fun part ↦ fillCells_map_kept count part []
      simp only [List.append_nil, fillCells] at hkept
      rw [fillQuoted, fillQuoted, hlast hc hrest, hlast hd hback, hkept, hkept]
      exact ⟨rfl, rfl⟩
    · rw [hlast hc hrest, hfound hd hinner hclosing, matchesOf_map_kept] at hmatches
      cases hmatches
  · rw [hfound hc hinner hclosing] at hmatches
    rcases exists_quote_or back with hback | ⟨other, ending, last', rfl, hother, hending⟩
    · rw [hlast hd hback, matchesOf_map_kept] at hmatches
      cases hmatches
    · rw [hfound hd hother hending, matchesOf_found, matchesOf_found, List.cons_eq_cons,
        List.cons_eq_cons, List.append_assoc, List.append_assoc, List.append_cancel_left_eq,
        List.cons_append, List.cons_append, List.cons_eq_cons] at hmatches
      exact absurd hmatches.1.2.1 hne

/-- If a text is spoiled, but not in its quoted strings, then it is so with placeholders for
these. -/
theorem spoiled_fillQuoted {begins : Char → Prop} (hmark : ¬ begins '\x7b')
    (hbegins : ∀ c, begins c → isQuote c = false)
    {text target : List Char} (h : Spoiled '\x7b' begins text target)
    (hmatches : matchesOf (cells (quotedLength some) text) =
      matchesOf (cells (quotedLength some) target)) (count : ℕ) :
    Spoiled '\x7b' begins (fillQuoted count text) (fillQuoted count target) := by
  obtain ⟨common, rest, letter, back, rfl, rfl, hletter⟩ := h
  have hbrace : has some isQuote '\x7b' = false := by decide
  have hquote : has some isQuote letter = false := hbegins letter hletter
  induction common using front_induction some generalizing count with
  | nil =>
    rw [List.nil_append, List.nil_append, fillQuoted, fillQuoted, cells_of_not_quote hbrace,
      cells_of_not_quote hquote]
    exact ⟨[], _, letter, _, rfl, rfl, hletter⟩
  | kept first common hfirst ih =>
    rw [List.cons_append, List.cons_append, cells_of_not_quote hfirst,
      cells_of_not_quote hfirst] at hmatches
    rw [List.cons_append, List.cons_append, fillQuoted, fillQuoted, cells_of_not_quote hfirst,
      cells_of_not_quote hfirst]
    exact (ih count hmatches).append_left [first]
  | two first second common hsecond ih =>
    simp only [List.cons_append, fillQuoted] at hmatches ih ⊢
    rw [cells_of_two_quotes first hsecond, cells_of_two_quotes first hsecond] at hmatches ⊢
    exact (ih count hmatches).append_left [first]
  | quoted opening inner closing common hopening hsome hinner hclosing ih =>
    rw [cells_quoted_append hopening hsome hinner hclosing,
      cells_quoted_append hopening hsome hinner hclosing, matchesOf_found, matchesOf_found,
      List.cons_eq_cons] at hmatches
    rw [fillQuoted, fillQuoted, cells_quoted_append hopening hsome hinner hclosing,
      cells_quoted_append hopening hsome hinner hclosing]
    exact (ih (count + 1) hmatches.2).append_left (placeholder .str count)
  | unclosed opening common hopening hcommon =>
    have hne : '\x7b' ≠ letter := fun heq ↦ hmark (heq ▸ hletter)
    obtain ⟨htext, htarget⟩ :=
      fillQuoted_unclosed hopening hcommon hbrace hquote hne hmatches count
    rw [htext, htarget]
    exact ⟨opening :: common, rest, letter, back, rfl, rfl, hletter⟩

/-! ## Quoted strings in the course of a pass -/

def Token.isHole (token : Token) : Bool := token.parameter?.isSome

def isBrace (c : Char) : Bool := c == '\x7b'

theorem countP_isHole (tokens : List Token) :
    tokens.countP Token.isHole = (holes tokens).length := by
  rw [holes, List.length_filterMap_eq_countP]
  rfl

theorem countP_isBrace_placeholder (kind : Kind) (count : ℕ) :
    (placeholder kind count).countP isBrace = 1 := by
  obtain ⟨inner, hinner, hopen, -⟩ := exists_inner kind count
  have hnone : (inner ++ ['\x7d']).countP isBrace = 0 := by
    rw [List.countP_eq_zero]
    intro c hc hbrace
    obtain rfl := eq_of_beq hbrace
    exact absurd hc (by simpa using hopen)
  rw [hinner, List.countP_cons, hnone]
  rfl

/-- Where matches without quotes and without other values are cut out, the quoted strings stay the
same, or have more values in them. -/
theorem matchesOf_mark (kind : Kind) (test : List Char → Bool) {cells : List (Cell Token)}
    (hcells : ∀ tokens ∈ matchesOf cells, tokens ≠ [] ∧ holes tokens = [] ∧
      ∀ token ∈ tokens, has Token.char? isQuote token = false) (count : ℕ) (front : List Token) :
    matchesOf (quotedCells (front ++ mark kind test count cells)) =
        matchesOf (quotedCells (front ++ cells.flatMap Cell.items)) ∨
      (matchesOf (quotedCells (front ++ cells.flatMap Cell.items))).flatten.countP Token.isHole <
        (matchesOf (quotedCells (front ++ mark kind test count cells))).flatten.countP
          Token.isHole := by
  induction cells generalizing count front with
  | nil => exact .inl rfl
  | cons cell cells ih =>
    cases cell with
    | kept token =>
      have hnext := ih hcells count (front ++ [token])
      rwa [List.append_assoc, List.append_assoc] at hnext
    | found tokens =>
      obtain ⟨⟨hne, hholes, hquotes⟩, hrest⟩ := List.forall_mem_cons.mp hcells
      rw [List.flatMap_cons, mark]
      split
      case isFalse =>
        have hnext := ih hrest count (front ++ tokens)
        rwa [List.append_assoc, List.append_assoc] at hnext
      case isTrue =>
        have hnext := ih hrest (count + 1) (front ++ [.hole kind count (spell tokens)])
        rw [List.append_assoc, List.append_assoc, List.singleton_append, List.singleton_append]
          at hnext
        have hstep := matchesOf_replace Token.isHole hne
          (List.cons_ne_nil (Token.hole kind count (spell tokens)) []) hquotes
          (List.forall_mem_singleton.mpr rfl) (by rw [countP_isHole, hholes]; rfl) rfl front
          (cells.flatMap Cell.items)
        rw [List.singleton_append] at hstep
        rcases hstep with hstep | ⟨-, hstep⟩
        · exact hnext.imp (·.trans hstep) fun hlt ↦ by rwa [quotedCells, hstep] at hlt
        · right
          rcases hnext with hnext | hlt
          · rw [hnext, quotedCells, quotedCells, hstep]
            exact Nat.lt_succ_self _
          · rw [quotedCells, hstep] at hlt
            exact Nat.lt_of_succ_lt hlt

/-- What a pass leaves without replacing it is not counted, and what it replaces is. -/
theorem exists_listed (kind : Kind) {guard : List Char → List Char → Bool}
    (hguard : ∀ pattern word, guard pattern word = true → word <:+: pattern)
    {found : List (List Char)} (hne : ∀ word ∈ found, word ≠ [])
    (state : List Char × List TemplateParameter) :
    ∃ listed : List (List Char), listed.Sublist found ∧
      (found.foldl (replaceMatch kind guard) state).2 =
        state.2 ++ (List.range' state.2.length listed.length).map (parameter kind) ∧
      (found.foldl (replaceMatch kind guard) state).1.countP isBrace +
          listed.flatten.countP isBrace = state.1.countP isBrace + listed.length := by
  induction found generalizing state with
  | nil => exact ⟨[], List.Sublist.refl [], (List.append_nil _).symm, rfl⟩
  | cons word found ih =>
    obtain ⟨hword, hrest⟩ := List.forall_mem_cons.mp hne
    rw [List.foldl_cons]
    cases htest : guard state.1 word with
    | false =>
      rw [replaceMatch, htest, if_neg Bool.false_ne_true]
      obtain ⟨listed, hsublist, hparameters, hcount⟩ := ih hrest state
      exact ⟨listed, hsublist.cons word, hparameters, hcount⟩
    | true =>
      rw [replaceMatch, htest, if_pos rfl]
      obtain ⟨front, back, hsplit, hfirst⟩ := exists_firstAfter hword (hguard _ _ htest)
      rw [hsplit, replaceFirst_of_firstAfter hword hfirst]
      obtain ⟨listed, hsublist, hparameters, hcount⟩ := ih hrest
        (front ++ (placeholder kind state.2.length ++ back),
          state.2 ++ [parameter kind state.2.length])
      refine ⟨word :: listed, hsublist.cons_cons word, ?_, ?_⟩
      · rw [hparameters, List.length_append, List.length_singleton, List.append_assoc,
          List.length_cons, List.range'_succ, List.map_cons, List.singleton_append]
      · simp only [List.countP_append, countP_isBrace_placeholder] at hcount
        simp only [List.flatten_cons, List.countP_append, List.length_cons]
        omega

def taken (test : List Char → Bool) (cells : List (Cell Token)) : List (List Token) :=
  (matchesOf cells).filter fun tokens ↦ test (render tokens)

theorem taken_found (test : List Char → Bool) (tokens : List Token) (cells : List (Cell Token)) :
    taken test (.found tokens :: cells) =
      if test (render tokens) then tokens :: taken test cells else taken test cells :=
  List.filter_cons

theorem taken_true (cells : List (Cell Token)) : taken (fun _ ↦ true) cells = matchesOf cells :=
  List.filter_true _

theorem added_eq (kind : Kind) (test : List Char → Bool) (count : ℕ) (cells : List (Cell Token)) :
    added kind test count cells =
      (List.range' count (taken test cells).length).map (parameter kind) := by
  induction cells generalizing count with
  | nil => rfl
  | cons cell cells ih =>
    cases cell with
    | kept token => exact ih count
    | found tokens =>
      rw [added, taken_found]
      split
      case isTrue => rw [ih, List.length_cons, List.range'_succ, List.map_cons]
      case isFalse => exact ih count

/-- What a pass cuts out in its own place is counted in the same way. -/
theorem countP_mark (kind : Kind) (test : List Char → Bool) (count : ℕ)
    (cells : List (Cell Token)) :
    (render (mark kind test count cells)).countP isBrace +
        ((taken test cells).map render).flatten.countP isBrace =
      (render (cells.flatMap Cell.items)).countP isBrace + (taken test cells).length := by
  induction cells generalizing count with
  | nil => rfl
  | cons cell cells ih =>
    cases cell with
    | kept token =>
      have htaken : taken test (.kept token :: cells) = taken test cells := rfl
      have hcount := ih count
      rw [render_mark_kept, render_items_cons, Cell.items, htaken, List.countP_append,
        List.countP_append]
      omega
    | found tokens =>
      rw [render_mark_found, taken_found, render_items_cons, Cell.items, List.countP_append]
      split
      case isTrue =>
        have hcount := ih (count + 1)
        rw [List.countP_append, countP_isBrace_placeholder, List.map_cons, List.flatten_cons,
          List.countP_append, List.length_cons]
        omega
      case isFalse =>
        have hcount := ih count
        rw [List.countP_append]
        omega

end MongoCore.Compiled.TemplateExtractor
