import MongoCore.Ingestion.ArithmeticExpressions
import MongoCore.Ingestion.FilterExpressions

/-!
# Transforms that panic

The parsers of transforms take slices at positions that come from searches.  These slices exist, with
one exception: a value of one quote starts and ends with a quote, and what would stand between the two
is no slice.

A text is the call of a function or it is malformed.  For each text the results say whether it panics,
is refused or adds a step to the plan, and for a sequence of texts whether one that panics is reached.
-/

namespace MongoCore.Ingestion.Transform

open MongoCore.Library.ByteText MongoCore.Operations.Placeholders
open String (utf8Len)

/-! ## Calls -/

/-- A text is the call of a function, up to whitespace around it. -/
def Call (text func inner : List Char) : Prop :=
  trim text = func ++ '(' :: (inner ++ [')']) ∧ '(' ∉ func

/-- A parenthesis is found behind a text without parentheses. -/
theorem find_of_call {text func inner : List Char} (h : Call text func inner) :
    find ['('] (trim text) = some (utf8Len func) := by
  have htext : trim text = func ++ ['('] ++ (inner ++ [')']) := by
    rw [h.1, List.append_assoc, List.singleton_append]
  rw [htext]
  apply find_append
  intro front back hsame
  by_contra hshort
  have hlt : front.length < func.length := Nat.lt_of_not_le hshort
  have hat : (func ++ ['('] ++ (inner ++ [')']))[front.length]? = some '(' := by
    rw [hsame, List.append_assoc, List.getElem?_append_right le_rfl, Nat.sub_self]
    rfl
  rw [List.append_assoc, List.getElem?_append_left hlt] at hat
  exact h.2 (List.mem_of_getElem? hat)

theorem parseExpression_of_call {text func inner : List Char} (h : Call text func inner) :
    parseExpression text = some (parseCall func inner) := by
  have hfind := find_of_call h
  have hend : [')'] <:+ trim text := by
    rw [h.1, ← List.cons_append, ← List.append_assoc]
    exact List.suffix_append _ _
  have hfunc : sliceTo (trim text) (utf8Len func) = some func := by
    rw [h.1, sliceTo_append]
  have hinner : slice (trim text) (utf8Len func + 1) (utf8Len (trim text) - 1) = some inner := by
    have hslice := slice_append (func ++ ['(']) inner [')']
    have hparen : utf8Len ['('] = 1 ∧ utf8Len [')'] = 1 := by decide
    have htext : func ++ ['('] ++ inner ++ [')'] = trim text := by
      rw [h.1]
      simp
    have hstop : utf8Len (trim text) - 1 = utf8Len func + 1 + utf8Len inner := by
      rw [← htext, String.utf8Len_append, String.utf8Len_append, String.utf8Len_append, hparen.1,
        hparen.2]
      omega
    rwa [htext, String.utf8Len_append, hparen.1, ← hstop] at hslice
  unfold parseExpression
  simp only [hfind, if_pos hend, hfunc, hinner, Option.bind_eq_bind, Option.bind_some]
  rfl

/-- A text that is no call is refused. -/
theorem parseExpression_of_malformed {text : List Char} (h : ∀ func inner, ¬ Call text func inner) :
    ∃ reason, parseExpression text = some (.error reason) := by
  unfold parseExpression
  cases hfind : find ['('] (trim text) with
  | none => simp [hfind]
  | some opening =>
    by_cases hend : [')'] <:+ trim text
    · obtain ⟨func, back, htext, -, hfirst⟩ := find_eq_some hfind
      obtain ⟨front, hfront⟩ := hend
      have hback : back ≠ [] := by
        rintro rfl
        rw [List.append_nil, ← hfront] at htext
        exact absurd (List.append_inj_right' htext rfl) (by decide)
      obtain ⟨inner, last, rfl⟩ := (List.eq_nil_or_concat back).resolve_left hback
      have hlast : last = ')' := by
        rw [← hfront, List.concat_eq_append, ← List.append_assoc] at htext
        exact (List.cons.inj (List.append_inj_right' htext rfl)).1.symm
      have hnone : '(' ∉ func := by
        intro hmem
        obtain ⟨front', back', hfunc⟩ := List.append_of_mem hmem
        have hle := hfirst front' (back' ++ ['('] ++ inner.concat last) (by
          rw [htext, hfunc]
          simp)
        rw [hfunc, List.length_append, List.length_cons] at hle
        omega
      refine absurd ⟨?_, hnone⟩ (h func inner)
      rw [htext, hlast, List.concat_eq_append, List.append_assoc, List.singleton_append]
    · simp [hfind, hend]

/-! ## Literals and filters -/

section

variable {F : Type} (toF64 : List Char → F)

/-- A constant is not parsed exactly if it is a lone quote. -/
theorem parseLiteral_eq_none {text : List Char} :
    parseLiteral toF64 text = none ↔ text = ['"'] ∨ text = ['\''] := by
  have hquoted {q : Char} (hq : q.utf8Size = 1) (hends : [q] <+: text ∧ [q] <:+ text)
      (hslice : slice text 1 (utf8Len text - 1) = none) : text = [q] := by
    rcases eq_singleton_or_enclosed hends.1 hends.2 with htext | ⟨middle, htext⟩
    · exact htext
    · rw [htext, slice_enclosed hq hq] at hslice
      exact absurd hslice (by simp)
  constructor
  · intro h
    unfold parseLiteral at h
    split at h
    · exact absurd h (by simp)
    · split at h
      · exact absurd h (by simp)
      · split_ifs at h with htrue hfalse hends
        have hslice : slice text 1 (utf8Len text - 1) = none := by
          cases hmiddle : slice text 1 (utf8Len text - 1) with
          | none => rfl
          | some middle =>
            rw [hmiddle] at h
            exact absurd h (by simp)
        exact hends.imp (fun hends ↦ hquoted (by decide) hends hslice)
          fun hends ↦ hquoted (by decide) hends hslice
  · rintro (rfl | rfl) <;> rfl

/-- Constants are not refused. -/
theorem parseLiteral_ne_error (text : List Char) (reason : String) :
    parseLiteral toF64 text ≠ some (.error reason) := by
  intro h
  unfold parseLiteral at h
  split at h
  · exact absurd h (by simp)
  · split at h
    · exact absurd h (by simp)
    · split_ifs at h with htrue hfalse hends
      · exact absurd h (by simp)
      · exact absurd h (by simp)
      · cases hmiddle : slice text 1 (utf8Len text - 1) with
        | none =>
          rw [hmiddle] at h
          exact absurd h (by simp)
        | some middle =>
          rw [hmiddle] at h
          exact absurd h (by simp)
      · exact absurd h (by simp)

/-- A filter in which nothing but a quote stands behind the operator. -/
def LoneQuote (expr : List Char) : Prop :=
  ∃ op : Comparison, ∃ front back, expr = front ++ op.text ++ back ∧
    (trim back = ['"'] ∨ trim back = ['\'']) ∧
    (∀ front' back', expr = front' ++ op.text ++ back' → front.length ≤ front'.length) ∧
    ∀ earlier ∈ op.before, ¬ earlier.text <:+: expr

theorem parseFilterExpr_eq_none {expr : List Char} :
    parseFilterExpr toF64 expr = none ↔ LoneQuote expr := by
  constructor
  · intro h
    cases hfound : findOperator expr with
    | none =>
      unfold parseFilterExpr at h
      simp [hfound] at h
    | some found =>
      obtain ⟨op, position⟩ := found
      obtain ⟨hposition, hbefore⟩ := findOperator_eq_some.mp hfound
      obtain ⟨front, back, rfl, rfl, hfirst⟩ := find_eq_some hposition
      rw [parseFilterExpr_append toF64 hfound, Option.map_eq_none_iff, parseLiteral_eq_none] at h
      exact ⟨op, front, back, rfl, h, hfirst, hbefore⟩
  · rintro ⟨op, front, back, rfl, hquote, hfirst, hbefore⟩
    have hfound : findOperator (front ++ op.text ++ back) = some (op, utf8Len front) :=
      findOperator_eq_some.mpr ⟨find_append hfirst, hbefore⟩
    rw [parseFilterExpr_append toF64 hfound, (parseLiteral_eq_none toF64).mpr hquote]
    rfl

theorem parseFilterExpr_eq_error {expr : List Char} :
    (∃ reason, parseFilterExpr toF64 expr = some (.error reason)) ↔
      ∀ op : Comparison, ¬ op.text <:+: expr := by
  rw [← findOperator_eq_none]
  constructor
  · rintro ⟨reason, h⟩
    by_contra hsome
    obtain ⟨⟨op, position⟩, hfound⟩ := Option.ne_none_iff_exists'.mp hsome
    obtain ⟨front, back, rfl, rfl, -⟩ := find_eq_some (findOperator_eq_some.mp hfound).1
    rw [parseFilterExpr_append toF64 hfound, Option.map_eq_some_iff] at h
    obtain ⟨parsed, hparsed, herror⟩ := h
    cases parsed with
    | error reason' => exact parseLiteral_ne_error toF64 _ _ hparsed
    | ok literal => exact absurd herror (by simp [Except.map])
  · intro hnone
    unfold parseFilterExpr
    simp [hnone]

theorem parseArithmeticExpr_ne_none (text : List Char) :
    parseArithmeticExpr toF64 text ≠ none := by
  rw [parseArithmeticExpr_eq]
  exact Option.some_ne_none _

/-! ## One call -/

def functionNames : List (List Char) :=
  ["rename".toList, "drop".toList, "filter".toList, "cast".toList, "select".toList,
    "compute".toList]

def pairFunctions : List (List Char) := ["rename".toList, "cast".toList, "compute".toList]

/-- The names of data types, in lower case. -/
def typeNames : List (List Char) :=
  ["string".toList, "str".toList, "utf8".toList, "int32".toList, "i32".toList, "int64".toList,
    "i64".toList, "float32".toList, "f32".toList, "float64".toList, "f64".toList,
    "boolean".toList, "bool".toList, "date".toList]

/-- A call that is refused: there is no such function, it lacks an argument, or its argument names no
type, has no operator or has rejected words. -/
def RefusedCall (func inner : List Char) : Prop :=
  func ∉ functionNames ∨ (func ∈ pairFunctions ∧ ',' ∉ inner) ∨
    (func = "cast".toList ∧
      ∃ column name, splitn2 inner = [column, name] ∧ lowercase name ∉ typeNames) ∨
    (func = "filter".toList ∧ ∀ op : Comparison, ¬ op.text <:+: trim inner) ∨
    (func = "compute".toList ∧
      ∃ name expr, splitn2 inner = [name, expr] ∧ RejectedWords (words (trim expr)))

theorem splitn2_of_not_mem {inner : List Char} (h : ',' ∉ inner) : splitn2 inner = [trim inner] := by
  have hdrop : inner.dropWhile (· ≠ ',') = [] := by
    rw [List.dropWhile_eq_nil_iff]
    intro c hc
    rw [decide_eq_true_eq]
    rintro rfl
    exact h hc
  rw [splitn2, hdrop]

theorem splitn2_of_mem {inner : List Char} (h : ',' ∈ inner) :
    ∃ front back, splitn2 inner = [front, back] := by
  unfold splitn2
  cases hdrop : inner.dropWhile (· ≠ ',') with
  | nil =>
    have hall := List.dropWhile_eq_nil_iff.mp hdrop ',' h
    exact absurd hall (by simp)
  | cons c rest => exact ⟨_, _, rfl⟩

theorem parsePolarsDtype_eq_error {name : List Char} :
    (∃ reason, parsePolarsDtype name = .error reason) ↔ lowercase name ∉ typeNames := by
  unfold parsePolarsDtype typeNames
  dsimp only
  generalize lowercase name = lower
  split_ifs <;> simp_all <;> tauto

def applyCall (lf : LazyFrame F) (func inner : List Char) : Option (Except String (LazyFrame F)) :=
  match parseCall func inner with
  | .error reason => some (.error reason)
  | .ok op => compileTransform toF64 op lf

theorem parseCall_pair {func inner : List Char} (hfunc : func ∈ pairFunctions) (h : ',' ∉ inner) :
    ∃ reason, parseCall func inner = .error reason := by
  have hsplit := splitn2_of_not_mem h
  simp only [pairFunctions, List.mem_cons, List.not_mem_nil, or_false] at hfunc
  rcases hfunc with rfl | rfl | rfl <;> unfold parseCall <;> rw [hsplit] <;> exact ⟨_, rfl⟩

theorem parseCall_unknown {func : List Char} (h : func ∉ functionNames) (inner : List Char) :
    ∃ reason, parseCall func inner = .error reason := by
  simp only [functionNames, List.mem_cons, List.not_mem_nil, or_false, not_or] at h
  obtain ⟨hrename, hdrop, hfilter, hcast, hselect, hcompute⟩ := h
  unfold parseCall
  rw [if_neg hrename, if_neg hdrop, if_neg hfilter, if_neg hcast, if_neg hselect, if_neg hcompute]
  exact ⟨_, rfl⟩

/-- The functions of two arguments, once their arguments are divided. -/
theorem parseCall_rename {inner existing new : List Char} (h : splitn2 inner = [existing, new]) :
    parseCall "rename".toList inner = .ok (.rename existing new) := by
  unfold parseCall
  rw [h]
  rfl

theorem parseCall_cast {inner column name : List Char} (h : splitn2 inner = [column, name]) :
    parseCall "cast".toList inner = (parsePolarsDtype name).map (.cast column) := by
  unfold parseCall
  rw [h]
  rfl

theorem parseCall_compute {inner name expr : List Char} (h : splitn2 inner = [name, expr]) :
    parseCall "compute".toList inner = .ok (.compute name expr) := by
  unfold parseCall
  rw [h]
  rfl

theorem applyCall_of_loneQuote (lf : LazyFrame F) {inner : List Char} (h : LoneQuote (trim inner)) :
    applyCall toF64 lf "filter".toList inner = none := by
  have hparsed : parseCall "filter".toList inner = .ok (.filter (trim inner)) := rfl
  rw [applyCall, hparsed]
  exact Option.map_eq_none_iff.mpr ((parseFilterExpr_eq_none toF64).mpr h)

theorem applyCall_of_refused (lf : LazyFrame F) {func inner : List Char}
    (h : RefusedCall func inner) : ∃ reason, applyCall toF64 lf func inner = some (.error reason) := by
  have hparse (hfailed : ∃ reason, parseCall func inner = .error reason) :
      ∃ reason, applyCall toF64 lf func inner = some (.error reason) := by
    obtain ⟨reason, hreason⟩ := hfailed
    exact ⟨reason, by rw [applyCall, hreason]⟩
  rcases h with hunknown | ⟨hpair, hcomma⟩ | ⟨rfl, column, name, hsplit, htype⟩ |
    ⟨rfl, hoperator⟩ | ⟨rfl, name, expr, hsplit, hwords⟩
  · exact hparse (parseCall_unknown hunknown inner)
  · exact hparse (parseCall_pair hpair hcomma)
  · obtain ⟨reason, hreason⟩ := parsePolarsDtype_eq_error.mpr htype
    apply hparse
    rw [parseCall_cast hsplit, hreason]
    exact ⟨reason, rfl⟩
  · obtain ⟨reason, hreason⟩ := (parseFilterExpr_eq_error toF64).mpr hoperator
    have hparsed : parseCall "filter".toList inner = .ok (.filter (trim inner)) := rfl
    rw [applyCall, hparsed]
    simp only [compileTransform, hreason]
    exact ⟨reason, rfl⟩
  · obtain ⟨reason, hreason⟩ := (parseArithmeticExpr_eq_error toF64).mpr hwords
    rw [applyCall, parseCall_compute hsplit]
    simp only [compileTransform, hreason]
    exact ⟨reason, rfl⟩

/-- A call that is not refused adds a step, unless it is a filter with a lone quote. -/
theorem applyCall_of_accepted (lf : LazyFrame F) {func inner : List Char}
    (haccepted : ¬ RefusedCall func inner)
    (hquote : func = "filter".toList → ¬ LoneQuote (trim inner)) :
    ∃ lf', applyCall toF64 lf func inner = some (.ok lf') := by
  obtain ⟨hknown, hcomma, htype, hoperator, hwords⟩ :
      func ∈ functionNames ∧ (func ∈ pairFunctions → ',' ∈ inner) ∧
        (func = "cast".toList → ∀ column name, splitn2 inner = [column, name] →
          lowercase name ∈ typeNames) ∧
        (func = "filter".toList → ∃ op : Comparison, op.text <:+: trim inner) ∧
        (func = "compute".toList → ∀ name expr, splitn2 inner = [name, expr] →
          ¬ RejectedWords (words (trim expr))) := by
    unfold RefusedCall at haccepted
    push Not at haccepted
    exact haccepted
  have hpair (hmem : func ∈ pairFunctions) : ∃ front back, splitn2 inner = [front, back] :=
    splitn2_of_mem (hcomma hmem)
  simp only [functionNames, List.mem_cons, List.not_mem_nil, or_false] at hknown
  rcases hknown with rfl | rfl | rfl | rfl | rfl | rfl
  · obtain ⟨existing, new, hsplit⟩ := hpair (by decide)
    rw [applyCall, parseCall_rename hsplit]
    exact ⟨_, rfl⟩
  · exact ⟨_, rfl⟩
  · obtain ⟨parsed, hparsed⟩ := Option.ne_none_iff_exists'.mp
      (mt (parseFilterExpr_eq_none toF64).mp (hquote rfl))
    cases parsed with
    | error reason =>
      obtain ⟨op, hop⟩ := hoperator rfl
      exact absurd hop ((parseFilterExpr_eq_error toF64).mp ⟨reason, hparsed⟩ op)
    | ok predicate =>
      have hcall : parseCall "filter".toList inner = .ok (.filter (trim inner)) := rfl
      rw [applyCall, hcall]
      simp only [compileTransform, hparsed]
      exact ⟨_, rfl⟩
  · obtain ⟨column, name, hsplit⟩ := hpair (by decide)
    cases hdtype : parsePolarsDtype name with
    | error reason =>
      exact absurd (htype rfl column name hsplit) (parsePolarsDtype_eq_error.mp ⟨reason, hdtype⟩)
    | ok dtype =>
      rw [applyCall, parseCall_cast hsplit, hdtype]
      exact ⟨_, rfl⟩
  · exact ⟨_, rfl⟩
  · obtain ⟨name, expr, hsplit⟩ := hpair (by decide)
    obtain ⟨parsed, hparsed⟩ :=
      Option.ne_none_iff_exists'.mp (parseArithmeticExpr_ne_none toF64 expr)
    cases parsed with
    | error reason =>
      exact absurd ((parseArithmeticExpr_eq_error toF64).mp ⟨reason, hparsed⟩)
        (hwords rfl name expr hsplit)
    | ok computed =>
      rw [applyCall, parseCall_compute hsplit]
      simp only [compileTransform, hparsed]
      exact ⟨_, rfl⟩

/-! ## Sequences of transforms -/

/-- A text that panics: a filter with nothing but a quote behind its operator. -/
def LoneQuoteFilter (text : List Char) : Prop :=
  ∃ inner, Call text "filter".toList inner ∧ LoneQuote (trim inner)

/-- A text that is refused with an error. -/
def Refused (text : List Char) : Prop :=
  (∀ func inner, ¬ Call text func inner) ∨ ∃ func inner, Call text func inner ∧ RefusedCall func inner

theorem applyExpressions_of_call (lf : LazyFrame F) {text func inner : List Char}
    (h : Call text func inner) (texts : List (List Char)) :
    applyExpressions toF64 lf (text :: texts) =
      match applyCall toF64 lf func inner with
      | none => none
      | some (.error reason) => some (.error reason)
      | some (.ok lf) => applyExpressions toF64 lf texts := by
  rw [applyExpressions]
  simp only [parseExpression_of_call h, Option.bind_eq_bind, Option.bind_some]
  unfold applyCall
  cases parseCall func inner with
  | error reason => rfl
  | ok op =>
    dsimp only
    cases compileTransform toF64 op lf with
    | none => rfl
    | some compiled => cases compiled <;> rfl

theorem applyExpressions_of_loneQuoteFilter (lf : LazyFrame F) {text : List Char}
    (h : LoneQuoteFilter text) (texts : List (List Char)) :
    applyExpressions toF64 lf (text :: texts) = none := by
  obtain ⟨inner, hcall, hquote⟩ := h
  rw [applyExpressions_of_call toF64 lf hcall, applyCall_of_loneQuote toF64 lf hquote]

theorem applyExpressions_of_refused (lf : LazyFrame F) {text : List Char} (h : Refused text)
    (texts : List (List Char)) :
    ∃ reason, applyExpressions toF64 lf (text :: texts) = some (.error reason) := by
  rcases h with hmalformed | ⟨func, inner, hcall, hrefused⟩
  · obtain ⟨reason, hreason⟩ := parseExpression_of_malformed hmalformed
    rw [applyExpressions]
    simp only [hreason, Option.bind_eq_bind, Option.bind_some]
    exact ⟨reason, rfl⟩
  · obtain ⟨reason, hreason⟩ := applyCall_of_refused toF64 lf hrefused
    rw [applyExpressions_of_call toF64 lf hcall, hreason]
    exact ⟨reason, rfl⟩

theorem applyExpressions_of_accepted (lf : LazyFrame F) {text : List Char}
    (haccepted : ¬ Refused text) (hquote : ¬ LoneQuoteFilter text) (texts : List (List Char)) :
    ∃ lf', applyExpressions toF64 lf (text :: texts) = applyExpressions toF64 lf' texts := by
  obtain ⟨hcall, hrefused⟩ := not_or.mp haccepted
  push Not at hcall
  obtain ⟨func, inner, hcall⟩ := hcall
  have hnot : ¬ RefusedCall func inner := fun h ↦ hrefused ⟨func, inner, hcall, h⟩
  have hlone : func = "filter".toList → ¬ LoneQuote (trim inner) := by
    rintro rfl h
    exact hquote ⟨inner, hcall, h⟩
  obtain ⟨lf', happlied⟩ := applyCall_of_accepted toF64 lf hnot hlone
  exact ⟨lf', by rw [applyExpressions_of_call toF64 lf hcall, happlied]⟩

/-- No panic is reached exactly if before each filter with a lone quote there is a text that is
refused. -/
theorem applyExpressions_ne_none_iff (lf : LazyFrame F) (texts : List (List Char)) :
    applyExpressions toF64 lf texts ≠ none ↔
      ∀ front text back, texts = front ++ text :: back → LoneQuoteFilter text →
        ∃ earlier ∈ front, Refused earlier := by
  induction texts generalizing lf with
  | nil =>
    refine ⟨fun _ front text back htexts ↦ absurd htexts (by simp), fun _ ↦ ?_⟩
    rw [applyExpressions]
    exact Option.some_ne_none _
  | cons text texts ih =>
    by_cases hrefused : Refused text
    · obtain ⟨reason, hreason⟩ := applyExpressions_of_refused toF64 lf hrefused texts
      rw [hreason]
      refine ⟨fun _ front other back htexts hquote ↦ ?_, fun _ ↦ Option.some_ne_none _⟩
      cases front with
      | nil =>
        obtain ⟨rfl, -⟩ := List.cons.inj htexts
        exact absurd (applyExpressions_of_loneQuoteFilter toF64 lf hquote texts) (by simp [hreason])
      | cons first front =>
        obtain ⟨rfl, -⟩ := List.cons.inj htexts
        exact ⟨text, List.mem_cons_self, hrefused⟩
    · by_cases hquote : LoneQuoteFilter text
      · rw [applyExpressions_of_loneQuoteFilter toF64 lf hquote]
        refine ⟨fun h ↦ absurd rfl h, fun h ↦ ?_⟩
        obtain ⟨earlier, hearlier, -⟩ := h [] text texts rfl hquote
        exact absurd hearlier List.not_mem_nil
      · obtain ⟨lf', happlied⟩ := applyExpressions_of_accepted toF64 lf hrefused hquote texts
        rw [happlied, ih lf']
        constructor
        · intro h front other back htexts hother
          cases front with
          | nil =>
            obtain ⟨rfl, -⟩ := List.cons.inj htexts
            exact absurd hother hquote
          | cons first front =>
            obtain ⟨rfl, hrest⟩ := List.cons.inj htexts
            obtain ⟨earlier, hearlier, hstop⟩ := h front other back hrest hother
            exact ⟨earlier, List.mem_cons_of_mem _ hearlier, hstop⟩
        · intro h front other back htexts hother
          obtain ⟨earlier, hearlier, hstop⟩ :=
            h (text :: front) other back (by rw [htexts]; rfl) hother
          rcases List.mem_cons.mp hearlier with rfl | hearlier
          · exact absurd hstop hrefused
          · exact ⟨earlier, hearlier, hstop⟩

/-- A filter whose value is one quote panics. -/
theorem applyExpressions_quote_eq_none :
    ¬ ∀ (toF64 : List Char → ℤ) (texts : List (List Char)),
      applyExpressions toF64 [] texts ≠ none := by
  intro hnever
  exact hnever (fun _ ↦ 0) ["filter(a > \")".toList] (by decide)

end

end MongoCore.Ingestion.Transform
