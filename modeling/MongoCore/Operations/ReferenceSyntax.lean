import MongoCore.Library.Results
import MongoCore.Library.Tokens
import MongoCore.Operations.TransactionPipeline

/-!
# The syntax of references

A reference is written as the name of a step and the segments of a path: a field behind a dot, an
index or a star in brackets.  The parser reads back every reference that is written so.  What it
accepts beyond that is other spellings of an index: the integer parser of the standard library
takes a plus sign and zeros in front of the digits.  Nothing else of an accepted reference is
ignored.
-/

namespace MongoCore.Operations.PipelineRefs

open MongoCore.Library MongoCore.Library.Tokens MongoCore.Operations.TransactionPipeline

/-! ## Writing a reference -/

def PathSegment.text : PathSegment → List Char
  | .field name => '.' :: name.toList
  | .index position => '[' :: (Nat.toDigits 10 position ++ [']'])
  | .wildcard => ['[', '*', ']']

def renderReference (name : String) (path : List PathSegment) : List Char :=
  name.toList ++ path.flatMap PathSegment.text

/-- A name that goes on to the next dot or bracket. -/
def IsName (name : String) : Prop := name.toList ≠ [] ∧ ∀ c ∈ name.toList, isNameEnd c = false

instance (name : String) : Decidable (IsName name) := inferInstanceAs (Decidable (_ ∧ _))

/-- A segment that a path can have: its field is a name, and its index is an unsigned 64-bit
integer. -/
def PathSegment.Writable : PathSegment → Prop
  | .field name => IsName name
  | .index position => position < 2 ^ 64
  | .wildcard => True

/-- The signs that the integer parser passes over. -/
def plusSigns : List (List Char) := [[], ['+']]

/-- A spelling of a segment: its text, but an index may have a plus sign and zeros in front of its
digits. -/
def PathSegment.Spelling : PathSegment → List Char → Prop
  | .index position, text => ∃ sign ∈ plusSigns, ∃ zeros,
      text = '[' :: (sign ++ (List.replicate zeros '0' ++ Nat.toDigits 10 position) ++ [']'])
  | segment, text => text = segment.text

theorem PathSegment.spelling_text (segment : PathSegment) : segment.Spelling segment.text := by
  cases segment with
  | index position => exact ⟨[], by simp [plusSigns], 0, rfl⟩
  | field name => rfl
  | wildcard => rfl

/-! ## Indices -/

/-- The digits of an index with a plus sign and zeros are no sign and no bracket. -/
theorem parseUsize_spelling {sign : List Char} (hsign : sign ∈ plusSigns) {digits : List Char}
    (hdigits : IsNumeral digits) :
    parseUsize (sign ++ digits) =
      if Nat.ofDigitChars 10 digits 0 < 2 ^ 64 then some (Nat.ofDigitChars 10 digits 0)
      else none := by
  obtain ⟨c, rest, rfl⟩ := List.exists_cons_of_ne_nil hdigits.ne_nil
  have hplus : c ≠ '+' := by
    rintro rfl
    exact absurd (hdigits.digit '+' List.mem_cons_self) (by decide)
  have hall : (c :: rest).all Char.isDigit = true := List.all_eq_true.mpr hdigits.digit
  rcases List.mem_cons.mp hsign with rfl | hsign
  · unfold parseUsize
    split
    · exact absurd (List.cons.inj ‹_›).1 hplus
    · simp [hall, Nat.ofDigitChars_eq_foldl, digitValue]
  · rw [List.mem_singleton.mp hsign, List.singleton_append]
    unfold parseUsize
    simp [hall, Nat.ofDigitChars_eq_foldl, digitValue]

/-- The texts that the integer parser accepts. -/
theorem parseUsize_eq_some_iff {text : List Char} {value : ℕ} :
    parseUsize text = some value ↔ value < 2 ^ 64 ∧ ∃ sign ∈ plusSigns, ∃ zeros,
      text = sign ++ (List.replicate zeros '0' ++ Nat.toDigits 10 value) := by
  constructor
  · intro h
    obtain ⟨sign, hsign, digits, rfl, hnumeral⟩ : ∃ sign ∈ plusSigns, ∃ digits,
        text = sign ++ digits ∧ IsNumeral digits := by
      unfold parseUsize at h
      simp only at h
      split_ifs at h with hbad hlt
      simp only [Bool.or_eq_true, List.isEmpty_iff, Bool.not_eq_true', not_or,
        Bool.not_eq_false, List.all_eq_true] at hbad
      split at hbad
      · exact ⟨['+'], by simp [plusSigns], _, rfl, hbad.1, hbad.2⟩
      · exact ⟨[], by simp [plusSigns], _, rfl, hbad.1, hbad.2⟩
    rw [parseUsize_spelling hsign hnumeral] at h
    split_ifs at h with hlt
    obtain rfl := Option.some.inj h
    obtain ⟨zeros, hzeros⟩ := hnumeral.exists_zeros
    exact ⟨hlt, sign, hsign, zeros, congrArg _ hzeros⟩
  · rintro ⟨hlt, sign, hsign, zeros, rfl⟩
    rw [parseUsize_spelling hsign (isNumeral_zeros_append zeros value),
      ofDigitChars_zeros_append, if_pos hlt]

/-- An accepted index has no bracket and is no star. -/
theorem not_mem_of_parseUsize {text : List Char} {value : ℕ} (h : parseUsize text = some value) :
    ']' ∉ text ∧ text ≠ ['*'] := by
  obtain ⟨-, sign, hsign, zeros, rfl⟩ := parseUsize_eq_some_iff.mp h
  have hnumeral := isNumeral_zeros_append zeros value
  have hfront : ∀ c ∈ sign, c = '+' := by
    rcases List.mem_cons.mp hsign with rfl | hsign
    · simp
    · rw [List.mem_singleton.mp hsign]
      simp
  have hall : ∀ c ∈ sign ++ (List.replicate zeros '0' ++ Nat.toDigits 10 value),
      c = '+' ∨ c.isDigit = true := by
    intro c hc
    rcases List.mem_append.mp hc with hc | hc
    · exact .inl (hfront c hc)
    · exact .inr (hnumeral.digit c hc)
  constructor
  · intro hmem
    exact absurd (hall ']' hmem) (by decide)
  · intro hstar
    exact absurd (hall '*' (hstar ▸ List.mem_cons_self)) (by decide)

/-! ## Reading segments -/

/-- What is passed over is not read. -/
theorem parseSegments_append (reference : String) (front text : List Char) :
    parseSegments reference front.length (front ++ text) = parseSegments reference 0 text := by
  induction front with
  | nil => rfl
  | cons c front ih =>
    rw [List.length_cons, List.cons_append, parseSegments]
    exact ih

/-- A path ends or goes on with a dot or a bracket. -/
theorem stops_flatten {path : List PathSegment} {texts : List (List Char)}
    (h : List.Forall₂ PathSegment.Spelling path texts) :
    Stops (fun c ↦ !isNameEnd c) texts.flatten := by
  cases h with
  | nil => exact stops_nil
  | @cons segment text path texts hsegment _ =>
    cases segment with
    | field name =>
      obtain rfl : text = _ := hsegment
      exact stops_cons.mpr rfl
    | wildcard =>
      obtain rfl : text = _ := hsegment
      exact stops_cons.mpr rfl
    | index position =>
      obtain ⟨sign, -, zeros, rfl⟩ := hsegment
      exact stops_cons.mpr rfl

theorem parseSegments_field (reference : String) {name : String} (hname : IsName name)
    {rest : List Char} (hrest : Stops (fun c ↦ !isNameEnd c) rest) :
    parseSegments reference 0 ('.' :: (name.toList ++ rest)) =
      (parseSegments reference 0 rest).map (.field name :: ·) := by
  have hfield : (name.toList ++ rest).takeWhile (fun c ↦ !isNameEnd c) = name.toList :=
    takeWhile_token (fun c hc ↦ by rw [hname.2 c hc, Bool.not_false]) hrest
  have hempty : name.toList.isEmpty = false := List.isEmpty_eq_false_iff.mpr hname.1
  rw [parseSegments, if_pos rfl]
  simp only [hfield, hempty, Bool.false_eq_true, if_false, parseSegments_append,
    String.ofList_toList]
  rfl

theorem parseSegments_bracket (reference : String) {inside : List Char} (hinside : ']' ∉ inside)
    (rest : List Char) :
    parseSegments reference 0 ('[' :: (inside ++ ']' :: rest)) =
      if inside = ['*'] then (parseSegments reference 0 rest).map (.wildcard :: ·)
      else match parseUsize inside with
        | none => .error (.invalidIndex (String.ofList inside) reference)
        | some position => (parseSegments reference 0 rest).map (.index position :: ·) := by
  have htake : (inside ++ ']' :: rest).takeWhile (· ≠ ']') = inside :=
    takeWhile_token (fun c hc ↦ decide_eq_true fun heq ↦ hinside (heq ▸ hc)) (by simp)
  have hskip : parseSegments reference (inside.length + 1) (inside ++ ']' :: rest) =
      parseSegments reference 0 rest := by
    have happend := parseSegments_append reference (inside ++ [']']) rest
    rwa [List.length_append, List.length_singleton, List.append_assoc, List.singleton_append]
      at happend
  rw [parseSegments, if_neg (by decide), if_pos rfl, if_pos (by simp)]
  simp only [htake, hskip]
  rfl

/-- Every spelling of a path is read as the path. -/
theorem parseSegments_of_spelling (reference : String) {path : List PathSegment}
    {texts : List (List Char)} (h : List.Forall₂ PathSegment.Spelling path texts)
    (hwritable : ∀ segment ∈ path, segment.Writable) :
    parseSegments reference 0 texts.flatten = .ok path := by
  induction h with
  | nil => rfl
  | @cons segment text path texts hsegment hrest ih =>
    obtain ⟨hfirst, hothers⟩ := List.forall_mem_cons.mp hwritable
    have hread := ih hothers
    rw [List.flatten_cons]
    cases segment with
    | field name =>
      obtain rfl : text = _ := hsegment
      rw [PathSegment.text, List.cons_append,
        parseSegments_field reference hfirst (stops_flatten hrest), hread]
      rfl
    | wildcard =>
      obtain rfl : text = _ := hsegment
      have hopen : ']' ∉ ['*'] := by decide
      have hbracket := parseSegments_bracket reference hopen texts.flatten
      rw [if_pos rfl, hread] at hbracket
      exact hbracket
    | index position =>
      obtain ⟨sign, hsign, zeros, rfl⟩ := hsegment
      have hvalue := parseUsize_eq_some_iff.mpr ⟨hfirst, sign, hsign, zeros, rfl⟩
      obtain ⟨hclosing, hstar⟩ := not_mem_of_parseUsize hvalue
      rw [List.cons_append, List.append_assoc, List.singleton_append,
        parseSegments_bracket reference hclosing, if_neg hstar, hvalue, hread]
      rfl

/-- A text with a bracket is cut behind the first one. -/
theorem eq_takeWhile_append_bracket {rest : List Char} (hclosed : ']' ∈ rest) :
    rest = rest.takeWhile (· ≠ ']') ++ [']'] ++
      rest.drop ((rest.takeWhile (· ≠ ']')).length + 1) := by
  have hnot : ¬ ∀ c ∈ rest, decide (c ≠ ']') = true := fun hall ↦
    of_decide_eq_true (hall ']' hclosed) rfl
  have hne : rest.dropWhile (· ≠ ']') ≠ [] := fun hnil ↦
    hnot (List.dropWhile_eq_nil_iff.mp hnil)
  obtain ⟨c, after, hafter⟩ := List.exists_cons_of_ne_nil hne
  have hc : c = ']' := by
    have hhead := List.head_dropWhile_not (fun c ↦ decide (c ≠ ']')) hne
    simp only [hafter, List.head_cons] at hhead
    simpa using hhead
  have hdrop : rest.drop ((rest.takeWhile (· ≠ ']')).length + 1) = after := by
    rw [← List.drop_drop, drop_length_takeWhile, hafter, List.drop_one, List.tail_cons]
  calc rest = rest.takeWhile (· ≠ ']') ++ rest.dropWhile (· ≠ ']') :=
        List.takeWhile_append_dropWhile.symm
    _ = rest.takeWhile (· ≠ ']') ++ [']'] ++
          rest.drop ((rest.takeWhile (· ≠ ']')).length + 1) := by
        rw [hafter, hdrop, hc, List.append_assoc, List.singleton_append]

/-- What is read as a path, with a segment in front of it. -/
theorem spelling_cons {segment : PathSegment} {read : Except RefError (List PathSegment)}
    {written rest : List Char} (hwritten : segment.Spelling written) (hsegment : segment.Writable)
    (hread : ∀ path, read = .ok path → (∀ other ∈ path, other.Writable) ∧
      ∃ texts, List.Forall₂ PathSegment.Spelling path texts ∧ rest = texts.flatten) :
    ∀ path, (do let segments ← read; pure (segment :: segments)) = .ok path →
      (∀ other ∈ path, other.Writable) ∧
        ∃ texts, List.Forall₂ PathSegment.Spelling path texts ∧ written ++ rest = texts.flatten := by
  intro path h
  obtain ⟨segments, hsegments, hpath⟩ := Results.bind_eq_ok.mp h
  obtain rfl := Except.ok.inj hpath
  obtain ⟨hwritable, texts, hspelling, rfl⟩ := hread segments hsegments
  exact ⟨List.forall_mem_cons.mpr ⟨hsegment, hwritable⟩, written :: texts,
    .cons hwritten hspelling, rfl⟩

/-- What is read as a path is a spelling of it, and the path can be written. -/
theorem spelling_of_parseSegments {reference : String} {skip : ℕ} {text : List Char} :
    ∀ path, parseSegments reference skip text = .ok path →
      (∀ segment ∈ path, segment.Writable) ∧
        ∃ texts, List.Forall₂ PathSegment.Spelling path texts ∧
          text.drop skip = texts.flatten := by
  fun_induction parseSegments reference skip text with
  | case1 skip =>
    intro path h
    obtain rfl := Except.ok.inj h
    exact ⟨by simp, [], .nil, List.drop_nil⟩
  | case2 skip c rest ih => exact ih
  | case4 rest field hfield ih =>
    have hname : IsName (String.ofList field) := by
      rw [IsName, String.toList_ofList]
      refine ⟨List.isEmpty_eq_false_iff.mp (Bool.not_eq_true _ ▸ hfield), fun c hc ↦ ?_⟩
      simpa using List.mem_takeWhile_imp hc
    have hwritten : (PathSegment.field (String.ofList field)).Spelling ('.' :: field) := by
      change '.' :: field = '.' :: (String.ofList field).toList
      rw [String.toList_ofList]
    have hcons := spelling_cons hwritten hname ih
    rwa [drop_length_takeWhile, List.cons_append, List.takeWhile_append_dropWhile] at hcons
  | case5 rest hclosed inside hinside hdot ih =>
    have hwritten : PathSegment.wildcard.Spelling ('[' :: (inside ++ [']'])) := by
      rw [hinside]
      rfl
    have hcons := spelling_cons hwritten trivial ih
    rwa [List.cons_append, ← eq_takeWhile_append_bracket hclosed] at hcons
  | case7 rest hclosed inside hinside position hposition hdot ih =>
    obtain ⟨hlt, sign, hsign, zeros, hspelt⟩ := parseUsize_eq_some_iff.mp hposition
    have hwritten : (PathSegment.index position).Spelling ('[' :: (inside ++ [']'])) :=
      ⟨sign, hsign, zeros, by rw [hspelt]⟩
    have hcons := spelling_cons hwritten hlt ih
    rwa [List.cons_append, ← eq_takeWhile_append_bracket hclosed] at hcons
  | case3 | case6 | case8 | case9 =>
    intro path h
    cases h

/-! ## Reading references -/

/-- A text is read as a name and a path exactly if it is the name and a spelling of the path. -/
theorem parseReference_eq_ok_iff {text : List Char} {name : String} {path : List PathSegment} :
    parseReference text = .ok (name, path) ↔
      IsName name ∧ (∀ segment ∈ path, segment.Writable) ∧
        ∃ texts, List.Forall₂ PathSegment.Spelling path texts ∧
          text = name.toList ++ texts.flatten := by
  constructor
  · intro h
    unfold parseReference at h
    simp only at h
    split_ifs at h with hempty hname
    obtain ⟨segments, hsegments, hresult⟩ := Results.bind_eq_ok.mp h
    obtain ⟨rfl, rfl⟩ := Prod.mk.inj (Except.ok.inj hresult)
    obtain ⟨hwritable, texts, hspelling, htexts⟩ := spelling_of_parseSegments _ hsegments
    refine ⟨?_, hwritable, texts, hspelling, ?_⟩
    · rw [IsName, String.toList_ofList]
      refine ⟨List.isEmpty_eq_false_iff.mp (Bool.not_eq_true _ ▸ hname), fun c hc ↦ ?_⟩
      simpa using List.mem_takeWhile_imp hc
    · rw [String.toList_ofList, ← htexts, List.drop_zero, List.takeWhile_append_dropWhile]
  · rintro ⟨hname, hwritable, texts, hspelling, rfl⟩
    have hkind : ∀ c ∈ name.toList, (!isNameEnd c) = true := fun c hc ↦ by
      rw [hname.2 c hc, Bool.not_false]
    have hstops := stops_flatten hspelling
    have hempty : (name.toList ++ texts.flatten).isEmpty = false :=
      List.isEmpty_eq_false_iff.mpr (List.append_ne_nil_of_left_ne_nil hname.1 _)
    have hnonempty : name.toList.isEmpty = false := List.isEmpty_eq_false_iff.mpr hname.1
    unfold parseReference
    simp only [hempty, takeWhile_token hkind hstops, dropWhile_token hkind hstops, hnonempty,
      parseSegments_of_spelling _ hspelling hwritable, Bool.false_eq_true, if_false,
      String.ofList_toList]
    rfl

/-- A valid step name has no dot and no bracket. -/
theorem isName_of_isValidName {name : String} (h : isValidName name = true) : IsName name := by
  unfold isValidName at h
  split at h
  · cases h
  · next c rest hname =>
    have hall : ∀ d ∈ c :: rest, d.isAlphanum = true ∨ d = '_' := by
      simp only [Bool.and_eq_true, Bool.or_eq_true, beq_iff_eq, List.all_eq_true] at h
      refine List.forall_mem_cons.mpr ⟨h.1.imp (fun hc ↦ ?_) id, h.2⟩
      rw [Char.isAlphanum, hc, Bool.true_or]
    rw [IsName, hname]
    refine ⟨List.cons_ne_nil c rest, fun d hd ↦ ?_⟩
    rw [isNameEnd, Bool.or_eq_false_iff, beq_eq_false_iff_ne, beq_eq_false_iff_ne]
    constructor
    · rintro rfl
      exact absurd (hall '.' hd) (by decide)
    · rintro rfl
      exact absurd (hall '[' hd) (by decide)

/-- What is written is read back; and what is read is what was written, but for a plus sign and
zeros in front of the digits of an index. -/
theorem reference_roundTrip (name : String) (path : List PathSegment) :
    (isValidName name = true → (∀ segment ∈ path, segment.Writable) →
      parseReference (renderReference name path) = .ok (name, path)) ∧
    ∀ text, parseReference text = .ok (name, path) →
      ∃ texts, List.Forall₂ PathSegment.Spelling path texts ∧
        text = name.toList ++ texts.flatten := by
  constructor
  · intro hname hwritable
    refine parseReference_eq_ok_iff.mpr ⟨isName_of_isValidName hname, hwritable,
      path.map PathSegment.text, ?_, ?_⟩
    · rw [List.forall₂_map_right_iff, List.forall₂_same]
      exact fun segment _ ↦ segment.spelling_text
    · rw [renderReference, List.flatMap_def]
  · intro text h
    exact (parseReference_eq_ok_iff.mp h).2.2

/-- A reference with all kinds of segments. -/
theorem reference_roundTrip_email :
    parseReference (renderReference "find_users" [.index 3, .field "emails", .wildcard]) =
        .ok ("find_users", [.index 3, .field "emails", .wildcard]) ∧
      ∃ texts, List.Forall₂ PathSegment.Spelling [.index 3] texts ∧
        "users[+03]".toList = "users".toList ++ texts.flatten :=
  ⟨(reference_roundTrip "find_users" [.index 3, .field "emails", .wildcard]).1 (by decide)
      (by simp [PathSegment.Writable, IsName, isNameEnd]),
    (reference_roundTrip "users" [.index 3]).2 "users[+03]".toList (by decide)⟩

/-- An index with a sign and a zero is read as the index without them. -/
theorem not_renderReference_of_plusSign :
    ¬ ∀ (text : List Char) (name : String) (path : List PathSegment),
      parseReference text = .ok (name, path) → renderReference name path = text := by
  intro h
  exact absurd (h "users[+03]".toList "users" [.index 3] (by decide)) (by decide)

end MongoCore.Operations.PipelineRefs
