import MongoCore.Ingestion.Transform

/-!
# Filter expressions

The operator of a filter is searched for in the whole text, one operator after the other.  The first
operator of the list that occurs anywhere divides the text, so an operator in the value may be taken
for that of the filter.  A filter with a quoted value is read as it was meant exactly if its value has
no operator that is searched for before its own.
-/

namespace MongoCore.Ingestion.Transform

open MongoCore.Library.ByteText MongoCore.Operations.Placeholders
open String (utf8Len)

/-! ## The operator that is found -/

def Comparison.before (op : Comparison) : List Comparison := operators.takeWhile (· ≠ op)

theorem mem_operators (op : Comparison) : op ∈ operators := by
  cases op <;> decide

/-- An operator divides the list into those before it and those behind it. -/
theorem before_eq {op : Comparison} {front back : List Comparison}
    (h : operators = front ++ op :: back) : op.before = front := by
  have hnodup : (front ++ op :: back).Nodup := by
    rw [← h]
    decide
  have hfront : ∀ other ∈ front, decide (other ≠ op) = true := by
    intro other hother
    rw [decide_eq_true_eq]
    rintro rfl
    exact (List.nodup_append.mp hnodup).2.2 other hother other List.mem_cons_self rfl
  rw [Comparison.before, h, List.takeWhile_append_of_pos hfront,
    List.takeWhile_cons_of_neg (by simp), List.append_nil]

theorem findOperator_eq_none {expr : List Char} :
    findOperator expr = none ↔ ∀ op : Comparison, ¬ op.text <:+: expr := by
  rw [findOperator, List.findSome?_eq_none_iff]
  simp only [Option.map_eq_none_iff, find_eq_none]
  exact ⟨fun h op ↦ h op (mem_operators op), fun h op _ ↦ h op⟩

/-- The operator found occurs at the position found, and none that is searched for before it occurs
at all. -/
theorem findOperator_eq_some {expr : List Char} {op : Comparison} {position : ℕ} :
    findOperator expr = some (op, position) ↔
      find op.text expr = some position ∧ ∀ earlier ∈ op.before, ¬ earlier.text <:+: expr := by
  rw [findOperator, List.findSome?_eq_some_iff]
  constructor
  · rintro ⟨front, other, back, hoperators, hfound, hfront⟩
    obtain ⟨position', hposition, hpair⟩ := Option.map_eq_some_iff.mp hfound
    obtain ⟨rfl, rfl⟩ := Prod.mk.inj hpair
    refine ⟨hposition, fun earlier hearlier ↦ ?_⟩
    rw [before_eq hoperators] at hearlier
    exact find_eq_none.mp (Option.map_eq_none_iff.mp (hfront earlier hearlier))
  · rintro ⟨hposition, hbefore⟩
    obtain ⟨front, back, hoperators⟩ := List.append_of_mem (mem_operators op)
    refine ⟨front, op, back, hoperators, by rw [hposition]; rfl, fun earlier hearlier ↦ ?_⟩
    rw [← before_eq hoperators] at hearlier
    exact Option.map_eq_none_iff.mpr (find_eq_none.mpr (hbefore earlier hearlier))

section

variable {F : Type} (toF64 : List Char → F)

/-- A filter is divided at the operator found. -/
theorem parseFilterExpr_append {op : Comparison} {front back : List Char}
    (h : findOperator (front ++ op.text ++ back) = some (op, utf8Len front)) :
    parseFilterExpr toF64 (front ++ op.text ++ back) =
      (parseLiteral toF64 (trim back)).map fun parsed ↦
        parsed.map (.compare op (.col (trim front))) := by
  have hcolumn : sliceTo (front ++ op.text ++ back) (utf8Len front) = some front := by
    rw [List.append_assoc, sliceTo_append]
  have hvalue : sliceFrom (front ++ op.text ++ back) (utf8Len front + utf8Len op.text) =
      some back := by
    rw [← String.utf8Len_append, sliceFrom_append]
  unfold parseFilterExpr
  simp only [h, hcolumn, hvalue, Option.bind_eq_bind, Option.bind_some]
  cases parseLiteral toF64 (trim back) with
  | none => rfl
  | some parsed => cases parsed <;> rfl

/-- An accepted filter compares with the operator found. -/
theorem exists_findOperator_of_parseFilterExpr {expr : List Char} {predicate : Expr F}
    (h : parseFilterExpr toF64 expr = some (.ok predicate)) :
    ∃ op position left right,
      findOperator expr = some (op, position) ∧ predicate = .compare op left right := by
  cases hfound : findOperator expr with
  | none =>
    unfold parseFilterExpr at h
    simp [hfound] at h
  | some found =>
    obtain ⟨op, position⟩ := found
    obtain ⟨front, back, rfl, rfl, -⟩ := find_eq_some (findOperator_eq_some.mp hfound).1
    rw [parseFilterExpr_append toF64 hfound, Option.map_eq_some_iff] at h
    obtain ⟨parsed, -, hparsed⟩ := h
    cases parsed with
    | error reason => exact absurd hparsed (by simp [Except.map])
    | ok literal => exact ⟨op, _, .col (trim front), literal, rfl, (Except.ok.inj hparsed).symm⟩

/-! ## Quoted values -/

/-- A quoted text is no number and no truth value. -/
theorem parseLiteral_quoted (value : List Char) :
    parseLiteral toF64 ('"' :: (value ++ ['"'])) = some (.ok (.lit (.string value))) := by
  have hint : parseI64 ('"' :: (value ++ ['"'])) = none := by
    simp [parseI64, unsigned]
  have hfloat : isF64 ('"' :: (value ++ ['"'])) = false := by
    simp [isF64, unsigned, isNumber, lowercase]
  have hslice : slice ('"' :: (value ++ ['"'])) 1 (utf8Len ('"' :: (value ++ ['"'])) - 1) =
      some value := slice_enclosed (by decide) (by decide) value
  have hends : ['"'] <+: '"' :: (value ++ ['"']) ∧ ['"'] <:+ '"' :: (value ++ ['"']) :=
    ⟨List.prefix_append ['"'] _, List.suffix_append ('"' :: value) ['"']⟩
  unfold parseLiteral parseF64
  rw [hint, hfloat, if_neg (by simp), if_neg (by simp [lowercase]), if_neg (by simp [lowercase]),
    if_pos (.inl hends), hslice]
  rfl

/-! ## The round trip -/

def filterText (column : List Char) (op : Comparison) (value : List Char) : List Char :=
  column ++ ' ' :: (op.text ++ ' ' :: '"' :: (value ++ ['"']))

/-- A column name without characters of which the operators are made. -/
def PlainColumn (column : List Char) : Prop := ∀ c ∈ column, c ∉ ['<', '>', '=']

instance (column : List Char) : Decidable (PlainColumn column) := List.decidableBAll _ _

theorem not_infix_of_plainColumn {column : List Char} (hcolumn : PlainColumn column)
    (op : Comparison) : ¬ op.text <:+: column := by
  intro hop
  have hchars : ∃ c ∈ op.text, c ∈ ['<', '>', '='] := by
    cases op <;> simp [Comparison.text]
  obtain ⟨c, hc, hmem⟩ := hchars
  exact hcolumn c (hop.subset hc) hmem

/-- An operator that does not occur in that of the filter occurs in the filter exactly if it occurs
in the value. -/
theorem infix_filterText {column value : List Char} {op other : Comparison}
    (hcolumn : PlainColumn column) (hop : ¬ other.text <:+: op.text) :
    other.text <:+: filterText column op value ↔ other.text <:+: value := by
  have hblank : ' ' ∉ other.text := by
    cases other <;> decide
  have hquote : '"' ∉ other.text := by
    cases other <;> decide
  have hempty : ¬ other.text <:+: [] := by
    cases other <;> decide
  rw [filterText, infix_append_cons hblank (not_infix_of_plainColumn hcolumn other),
    infix_append_cons hblank hop, ← List.nil_append ('"' :: _), infix_append_cons hquote hempty]
  by_cases hvalue : other.text <:+: value
  · exact ⟨fun _ ↦ hvalue, fun h ↦ h.trans (List.infix_append [] value ['"'])⟩
  · exact (infix_append_cons hquote hvalue).trans
      ⟨fun h ↦ absurd h hempty, fun h ↦ absurd h hvalue⟩

theorem not_infix_text_of_mem_before {op earlier : Comparison} (h : earlier ∈ op.before) :
    ¬ earlier.text <:+: op.text := by
  revert h
  cases op <;> cases earlier <;> decide

/-- If no operator searched for earlier is in the value, the filter is divided at its operator. -/
theorem parseFilterExpr_filterText {column value : List Char} {op : Comparison}
    (hcolumn : PlainColumn column) (hvalue : ∀ earlier ∈ op.before, ¬ earlier.text <:+: value) :
    parseFilterExpr toF64 (filterText column op value) =
      some (.ok (.compare op (.col (trim column)) (.lit (.string value)))) := by
  have hblank : ' ' ∉ op.text := by
    cases op <;> decide
  have hposition : find op.text (filterText column op value) = some (utf8Len (column ++ [' '])) := by
    rw [filterText, find_append_cons hblank (not_infix_of_plainColumn hcolumn op),
      find_append_self, Option.map_some, Nat.zero_add]
  have hfound : findOperator (filterText column op value) =
      some (op, utf8Len (column ++ [' '])) :=
    findOperator_eq_some.mpr ⟨hposition, fun earlier hearlier ↦
      mt (infix_filterText hcolumn (not_infix_text_of_mem_before hearlier)).mp
        (hvalue earlier hearlier)⟩
  have htext : filterText column op value =
      (column ++ [' ']) ++ op.text ++ (' ' :: '"' :: (value ++ ['"'])) := by
    simp [filterText]
  rw [htext] at hfound ⊢
  have hspace : Blank [' '] := List.forall_mem_singleton.mpr (by decide)
  have hquoted : trim (' ' :: '"' :: (value ++ ['"'])) = '"' :: (value ++ ['"']) := by
    rw [← List.singleton_append, trim_blank_append hspace,
      trim_cons_concat (by decide) (by decide)]
  rw [parseFilterExpr_append toF64 hfound, trim_append_blank column hspace, hquoted,
    parseLiteral_quoted]
  rfl

/-- A filter of a column and a quoted value is read as it was meant exactly if the name of the
column has no whitespace around it and the value has no operator that is searched for before that of
the filter. -/
theorem parseFilterExpr_roundTrip_iff {column : List Char} (hcolumn : PlainColumn column)
    (op : Comparison) (value : List Char) :
    parseFilterExpr toF64 (filterText column op value) =
        some (.ok (.compare op (.col column) (.lit (.string value)))) ↔
      trim column = column ∧ ∀ earlier ∈ op.before, ¬ earlier.text <:+: value := by
  constructor
  · intro h
    obtain ⟨op', position, left, right, hfound, hcompare⟩ :=
      exists_findOperator_of_parseFilterExpr toF64 h
    obtain rfl : op = op' := (Expr.compare.inj hcompare).1
    have hvalue : ∀ earlier ∈ op.before, ¬ earlier.text <:+: value := fun earlier hearlier ↦
      mt (infix_filterText hcolumn (not_infix_text_of_mem_before hearlier)).mpr
        ((findOperator_eq_some.mp hfound).2 earlier hearlier)
    rw [parseFilterExpr_filterText toF64 hcolumn hvalue] at h
    have htrim : trim column = column := by
      simpa using h
    exact ⟨htrim, hvalue⟩
  · rintro ⟨htrim, hvalue⟩
    rw [parseFilterExpr_filterText toF64 hcolumn hvalue, htrim]

end

/-- A value with digits, a quote, a truth value and the operator itself comes back. -/
theorem roundTrip_of_quotedOperator :
    parseFilterExpr id (filterText "age".toList .gtEq "\"nan true 12 >= <".toList) =
      some (.ok (.compare .gtEq (.col "age".toList) (.lit (.string "\"nan true 12 >= <".toList)))) :=
  (parseFilterExpr_roundTrip_iff id (by decide) .gtEq _).mpr (by decide)

/-- In `a > "x>=y"` the operator of the value is found first. -/
theorem not_roundTrip_of_operatorInValue :
    ¬ ∀ column value : List Char, ∀ op : Comparison, PlainColumn column →
      parseFilterExpr id (filterText column op value) =
        some (.ok (.compare op (.col column) (.lit (.string value)))) := by
  intro hroundTrip
  have h := hroundTrip "a".toList "x>=y".toList .gt (by decide)
  exact absurd h (by decide)

end MongoCore.Ingestion.Transform
