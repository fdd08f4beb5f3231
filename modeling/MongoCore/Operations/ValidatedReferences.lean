import MongoCore.Operations.TransactionPipeline

/-!
# References of an accepted pipeline

Validation extracts references with the regular expression and checks that each can be parsed and
names a step seen so far.  Execution recognises whole-string references by another rule and looks
the name up in the results of the steps that have run.  This module compares the two.

They differ in two ways.  A step's own name is already seen when its references are checked, but
its result does not exist when they are resolved.  And a whole string such as an empty pair of
double braces is a reference for the executor, while the regular expression finds nothing in it.
The main result shows that nothing else goes wrong: an accepted step fails for an unparsable or
unknown reference exactly when resolution reaches one of these two kinds.
-/

namespace MongoCore.Operations.ValidatedReferences

open MongoCore.Data MongoCore.Operations.Placeholders
open MongoCore.Operations.PipelineRefs MongoCore.Operations.TransactionPipeline

/-! ## Strings of a value -/

mutual

/-- The strings in a value, in the order in which they are visited; keys are not visited. -/
def strings : Json → List String
  | .string text => [text]
  | .array items => stringsOfItems items
  | .object members => stringsOfMembers members
  | _ => []

def stringsOfItems : List Json → List String
  | [] => []
  | item :: items => strings item ++ stringsOfItems items

def stringsOfMembers : List (String × Json) → List String
  | [] => []
  | (_, value) :: members => strings value ++ stringsOfMembers members

end

/-! ## Extracted references -/

theorem mem_extractFromText {text : String} {refs : List (List Char)} {reference : List Char} :
    reference ∈ extractFromText text refs ↔
      reference ∈ refs ∨ ∃ group ∈ captures text.toList, trim group = reference := by
  unfold extractFromText
  induction captures text.toList generalizing refs with
  | nil => simp
  | cons group groups ih =>
    rw [List.foldl_cons, ih]
    by_cases hmem : trim group ∈ refs
    · rw [if_pos hmem]
      constructor
      · rintro (h | ⟨other, hother, h⟩)
        · exact .inl h
        · exact .inr ⟨other, List.mem_cons_of_mem _ hother, h⟩
      · rintro (h | ⟨other, hother, rfl⟩)
        · exact .inl h
        · rcases List.mem_cons.mp hother with rfl | hother
          · exact .inl hmem
          · exact .inr ⟨other, hother, rfl⟩
    · rw [if_neg hmem]
      simp only [List.mem_append, List.mem_cons, List.not_mem_nil, or_false, exists_eq_or_imp]
      rw [or_assoc, eq_comm]

/-- The references found in a value are the trimmed captures of its strings. -/
theorem mem_extractRefsRecursive {value : Json} {refs : List (List Char)}
    {reference : List Char} :
    reference ∈ extractRefsRecursive value refs ↔
      reference ∈ refs ∨
        ∃ text ∈ strings value, ∃ group ∈ captures text.toList, trim group = reference := by
  induction value using Json.induction generalizing refs with
  | string text => simp [extractRefsRecursive, strings, mem_extractFromText]
  | array items ih =>
    rw [extractRefsRecursive, strings]
    induction items generalizing refs with
    | nil => simp [extractRefsItems, stringsOfItems]
    | cons item items ihitems =>
      rw [extractRefsItems, stringsOfItems,
        ihitems (fun other hother ↦ ih other (List.mem_cons_of_mem _ hother)),
        ih item List.mem_cons_self]
      simp only [List.mem_append, or_and_right, exists_or, or_assoc]
  | object entries ih =>
    rw [extractRefsRecursive, strings]
    induction entries generalizing refs with
    | nil => simp [extractRefsMembers, stringsOfMembers]
    | cons entry entries ihentries =>
      rw [extractRefsMembers, stringsOfMembers,
        ihentries (fun other hother ↦ ih other (List.mem_cons_of_mem _ hother)),
        ih entry List.mem_cons_self]
      simp only [List.mem_append, or_and_right, exists_or, or_assoc]
  | _ => simp [extractRefsRecursive, strings]

/-! ## Attempted references -/

/-- A reference that resolution looks up: the text between its braces, and whether it was
recognised as a whole string. -/
structure Attempt where
  inner : List Char
  whole : Bool
  deriving DecidableEq, Repr

def Attempt.reference (a : Attempt) : List Char := trim a.inner

/-- The references that resolving a string looks up, in order. -/
def stringAttempts (text : String) : List Attempt :=
  match wholeReference? text.toList with
  | some inner => [{ inner := inner, whole := true }]
  | none => (captures text.toList).map fun group ↦ { inner := group, whole := false }

/-- The references that resolving a value looks up, in order. -/
def attempts (value : Json) : List Attempt := (strings value).flatMap stringAttempts

/-- The error of a failed computation. -/
def errorOf {ε α : Type} : Except ε α → Option ε
  | .error error => some error
  | .ok _ => none

@[simp] theorem errorOf_ok {ε α : Type} (value : α) : errorOf (.ok value : Except ε α) = none :=
  rfl

@[simp] theorem errorOf_error {ε α : Type} (error : ε) :
    errorOf (.error error : Except ε α) = some error := rfl

@[simp] theorem errorOf_map {ε α β : Type} (x : Except ε α) (f : α → β) :
    errorOf (do let a ← x; pure (f a)) = errorOf x := by
  cases x <;> rfl

/-- Of two computations in sequence, the first error counts. -/
@[simp] theorem errorOf_seq {ε α β γ : Type} (x : Except ε α) (y : Except ε β) (f : α → β → γ) :
    errorOf (do let a ← x; let b ← y; pure (f a b)) = (errorOf x).or (errorOf y) := by
  cases x with
  | error error => rfl
  | ok value => cases y <;> rfl

section

variable (toText : Json → String) (results : Results)

def attemptError (a : Attempt) : Option RefError := errorOf (resolveSingleRef results a.reference)

/-- Interpolation fails with the first error of its references, whatever the text. -/
theorem errorOf_interpolate (groups : List (List Char)) (text : List Char) :
    errorOf (interpolate toText results groups text) =
      groups.findSome? fun group ↦ errorOf (resolveSingleRef results (trim group)) := by
  induction groups generalizing text with
  | nil => rfl
  | cons group groups ih =>
    rw [interpolate, List.findSome?_cons]
    cases resolveSingleRef results (trim group) with
    | error error => rfl
    | ok value => exact ih _

/-- Resolving a string fails with the first error of its attempted references. -/
theorem errorOf_resolveString (text : String) :
    errorOf (resolveString toText results text) =
      (stringAttempts text).findSome? (attemptError results) := by
  unfold resolveString stringAttempts
  cases wholeReference? text.toList with
  | some inner =>
    simp only [List.findSome?_cons, List.findSome?_nil, attemptError, Attempt.reference]
    cases resolveSingleRef results (trim inner) <;> rfl
  | none =>
    simp only [errorOf_map, errorOf_interpolate, List.findSome?_map]
    rfl

/-- Resolving a value fails with the first error of its attempted references. -/
theorem errorOf_resolveValue (value : Json) :
    errorOf (resolveValue toText results value) =
      (attempts value).findSome? (attemptError results) := by
  unfold attempts
  induction value using Json.induction with
  | string text =>
    rw [resolveValue, strings, List.flatMap_singleton]
    exact errorOf_resolveString toText results text
  | array items ih =>
    rw [resolveValue, strings, errorOf_map]
    induction items with
    | nil => rfl
    | cons item items ihitems =>
      rw [resolveItems, stringsOfItems, errorOf_seq, List.flatMap_append, List.findSome?_append,
        ih item List.mem_cons_self,
        ihitems fun other hother ↦ ih other (List.mem_cons_of_mem _ hother)]
  | object entries ih =>
    rw [resolveValue, strings, errorOf_map]
    induction entries with
    | nil => rfl
    | cons entry entries ihentries =>
      obtain ⟨key, value⟩ := entry
      rw [resolveMembers, stringsOfMembers,
        errorOf_seq _ _ fun resolved rest ↦ (key, resolved) :: rest, List.flatMap_append,
        List.findSome?_append, ih (key, value) List.mem_cons_self,
        ihentries fun other hother ↦ ih other (List.mem_cons_of_mem _ hother)]
  | _ => rfl

theorem resolveString_of_no_attempts {text : String} (h : stringAttempts text = []) :
    resolveString toText results text = .ok (.string text) := by
  rw [stringAttempts] at h
  cases hwhole : wholeReference? text.toList with
  | some inner => simp [hwhole] at h
  | none =>
    have hcaptures : captures text.toList = [] := by simpa [hwhole] using h
    rw [resolveString, hwhole, hcaptures]
    exact congrArg (fun text ↦ Except.ok (Json.string text)) String.ofList_toList

/-- A value in which nothing is looked up is resolved to itself. -/
theorem resolveReferences_of_no_attempts {value : Json} (h : attempts value = []) :
    resolveReferences toText results value = .ok value := by
  unfold attempts at h
  rw [resolveReferences]
  induction value using Json.induction with
  | string text =>
    rw [resolveValue]
    rw [strings, List.flatMap_singleton] at h
    exact resolveString_of_no_attempts toText results h
  | array items ih =>
    have hitems : resolveItems toText results items = .ok items := by
      rw [strings] at h
      induction items with
      | nil => rfl
      | cons item items ihitems =>
        rw [stringsOfItems, List.flatMap_append, List.append_eq_nil_iff] at h
        have hitem := ih item List.mem_cons_self h.1
        have hrest := ihitems (fun other hother ↦ ih other (List.mem_cons_of_mem _ hother)) h.2
        rw [resolveItems, hitem, hrest]
        rfl
    rw [resolveValue, hitems]
    rfl
  | object entries ih =>
    have hentries : resolveMembers toText results entries = .ok entries := by
      rw [strings] at h
      induction entries with
      | nil => rfl
      | cons entry entries ihentries =>
        obtain ⟨key, value⟩ := entry
        rw [stringsOfMembers, List.flatMap_append, List.append_eq_nil_iff] at h
        have hentry := ih (key, value) List.mem_cons_self h.1
        have hrest := ihentries (fun other hother ↦ ih other (List.mem_cons_of_mem _ hother)) h.2
        rw [resolveMembers, hentry, hrest]
        rfl
    rw [resolveValue, hentries]
    rfl
  | _ => rfl

/-! ## Unparsable and unknown references -/

/-- An error that validation is meant to rule out. -/
def IsBadReference (error : RefError) : Prop :=
  error.isUnparsable = true ∨ error.isUnknownStep = true

/-- The attempt can be parsed and names a step that has a result. -/
def Attempt.Known (a : Attempt) : Prop :=
  ∃ name path value, parseReference a.reference = .ok (name, path) ∧ results name = some value

/-- Every error in a path is a parse error. -/
theorem isUnparsable_of_parseSegments (reference : String) (skip : ℕ) (text : List Char) :
    ∀ error ∈ errorOf (parseSegments reference skip text), error.isUnparsable = true := by
  fun_induction parseSegments reference skip text with
  | case1 => simp
  | case2 skip c rest ih => exact ih
  | case3 => simp [RefError.isUnparsable]
  | case4 rest field hfield ih =>
    rw [errorOf_map]
    exact ih
  | case5 rest hclosed inside hinside hdot ih =>
    rw [errorOf_map]
    exact ih
  | case6 => simp [RefError.isUnparsable]
  | case7 rest hclosed inside hinside position hposition hdot ih =>
    rw [errorOf_map]
    exact ih
  | case8 => simp [RefError.isUnparsable]
  | case9 => simp [RefError.isUnparsable]

/-- Every error of `parseReference` is a parse error. -/
theorem isUnparsable_of_parseReference (reference : List Char) :
    ∀ error ∈ errorOf (parseReference reference), error.isUnparsable = true := by
  unfold parseReference
  split_ifs
  · simp [RefError.isUnparsable]
  · dsimp only
    split_ifs
    · simp [RefError.isUnparsable]
    · rw [errorOf_map]
      exact isUnparsable_of_parseSegments _ _ _

theorem errorOf_mapM {α β : Type} (f : α → Except RefError β) (items : List α) :
    errorOf (items.mapM f) = items.findSome? fun item ↦ errorOf (f item) := by
  induction items with
  | nil => rfl
  | cons item items ih =>
    rw [List.mapM_cons, errorOf_seq, ih, List.findSome?_cons]
    cases f item <;> rfl

@[simp] theorem not_isBadReference_iff {error : RefError} :
    ¬ IsBadReference error ↔ error.isUnparsable = false ∧ error.isUnknownStep = false := by
  simp [IsBadReference]

/-- An error along a path into a result is neither a parse error nor an unknown step. -/
theorem not_isBadReference_of_traversePath (reference : String) (path : List PathSegment)
    (value : Json) :
    ∀ error ∈ errorOf (traversePath reference path value), ¬ IsBadReference error := by
  induction path generalizing value with
  | nil => simp [traversePath]
  | cons segment path ih =>
    cases segment with
    | field name =>
      cases value with
      | array items =>
        simp only [traversePath]
        split_ifs <;> simp [RefError.isUnparsable, RefError.isUnknownStep]
      | object members =>
        simp only [traversePath]
        cases members.lookup name with
        | some member => exact ih member
        | none => simp [RefError.isUnparsable, RefError.isUnknownStep]
      | _ => simp [traversePath, RefError.isUnparsable, RefError.isUnknownStep]
    | index position =>
      cases value with
      | array items =>
        simp only [traversePath]
        cases items[position]? with
        | some item => exact ih item
        | none => simp [RefError.isUnparsable, RefError.isUnknownStep]
      | _ => simp [traversePath, RefError.isUnparsable, RefError.isUnknownStep]
    | wildcard =>
      cases value with
      | array items =>
        intro error herror
        rw [traversePath, errorOf_map, errorOf_mapM] at herror
        obtain ⟨item, -, hitem⟩ := List.exists_of_findSome?_eq_some herror
        exact ih item error hitem
      | _ => simp [traversePath, RefError.isUnparsable, RefError.isUnknownStep]

/-- Looking up an attempt gives an error that validation should rule out exactly when it cannot be
parsed or names a step without a result. -/
theorem exists_isBadReference_iff (a : Attempt) :
    (∃ error ∈ attemptError results a, IsBadReference error) ↔ ¬ a.Known results := by
  unfold attemptError resolveSingleRef Attempt.Known
  cases hparse : parseReference a.reference with
  | error error =>
    have hbad := isUnparsable_of_parseReference a.reference error (by rw [hparse]; rfl)
    simp [bind, Except.bind, IsBadReference, hbad]
  | ok parsed =>
    obtain ⟨name, path⟩ := parsed
    cases hresult : results name with
    | none => simp [bind, Except.bind, hresult, IsBadReference, RefError.isUnknownStep]
    | some value =>
      have hgood := not_isBadReference_of_traversePath (String.ofList a.reference) path value
      simp only [bind, Except.bind, hresult]
      constructor
      · rintro ⟨error, herror, hbad⟩
        exact absurd hbad (hgood error herror)
      · intro hunknown
        exact absurd ⟨name, path, value, rfl, hresult⟩ hunknown

/-- Resolving a value fails for an unparsable or unknown reference exactly when it reaches an
attempt that is not known. -/
theorem exists_isBadReference_resolveReferences_iff (value : Json) :
    (∃ error, resolveReferences toText results value = .error error ∧ IsBadReference error) ↔
      ∃ before a after, attempts value = before ++ a :: after ∧
        (∀ b ∈ before, attemptError results b = none) ∧ ¬ a.Known results := by
  have herror : ∀ error, resolveReferences toText results value = .error error ↔
      (attempts value).findSome? (attemptError results) = some error := by
    intro error
    rw [← errorOf_resolveValue toText, resolveReferences]
    cases resolveValue toText results value <;> simp
  simp only [herror, List.findSome?_eq_some_iff]
  constructor
  · rintro ⟨error, ⟨before, a, after, hsplit, ha, hbefore⟩, hbad⟩
    exact ⟨before, a, after, hsplit, hbefore, (exists_isBadReference_iff results a).mp
      ⟨error, ha, hbad⟩⟩
  · rintro ⟨before, a, after, hsplit, hbefore, hknown⟩
    obtain ⟨error, ha, hbad⟩ := (exists_isBadReference_iff results a).mpr hknown
    exact ⟨error, ⟨before, a, after, hsplit, ha, hbefore⟩, hbad⟩

end

/-! ## What validation checks -/

theorem exists_target_of_validateRefs {steps : List PipelineStepDef} {step : PipelineStepDef}
    {seen : List String} {references : List (List Char)}
    (h : validateRefs steps step seen references = .ok ()) :
    ∀ reference ∈ references, ∃ target path,
      parseReference reference = .ok (target, path) ∧ target ∈ seen := by
  induction references with
  | nil => simp
  | cons reference references ih =>
    rw [validateRefs] at h
    cases hparse : parseReference reference with
    | error error => simp [hparse] at h
    | ok parsed =>
      obtain ⟨target, path⟩ := parsed
      simp only [hparse] at h
      split_ifs at h with hseen
      intro other hother
      rcases List.mem_cons.mp hother with rfl | hother
      · exact ⟨target, path, hparse, hseen⟩
      · exact ih h other hother

/-- An accepted step has a new name, and its references name steps seen so far or itself. -/
theorem of_validateStep {steps : List PipelineStepDef} {seen : List String}
    {step : PipelineStepDef} (h : validateStep steps seen step = .ok ()) :
    step.name ∉ seen ∧ ∀ reference ∈ extractReferences step.operationJson, ∃ target path,
      parseReference reference = .ok (target, path) ∧ target ∈ step.name :: seen := by
  unfold validateStep at h
  split_ifs at h with _ _ _ _ hnew
  exact ⟨hnew, exists_target_of_validateRefs h⟩

/-- Each step of an accepted list is checked with the names of the steps before it. -/
theorem exists_validateStep_of_validateSteps {steps earlier later : List PipelineStepDef}
    {step : PipelineStepDef} {seen : List String}
    (h : validateSteps steps seen (earlier ++ step :: later) = .ok ()) :
    ∃ names, validateStep steps names step = .ok () ∧
      ∀ name, name ∈ names ↔ name ∈ seen ∨ name ∈ earlier.map PipelineStepDef.name := by
  induction earlier generalizing seen with
  | nil =>
    rw [List.nil_append, validateSteps] at h
    cases hstep : validateStep steps seen step with
    | error error => simp [hstep, bind, Except.bind] at h
    | ok => exact ⟨seen, hstep, by simp⟩
  | cons first earlier ih =>
    rw [List.cons_append, validateSteps] at h
    cases hfirst : validateStep steps seen first with
    | error error => simp [hfirst, bind, Except.bind] at h
    | ok =>
      simp only [hfirst, bind, Except.bind] at h
      obtain ⟨names, hstep, hnames⟩ := ih h
      refine ⟨names, hstep, fun name ↦ ?_⟩
      rw [hnames, List.mem_cons, List.map_cons, List.mem_cons, or_assoc, or_left_comm]

/-- Every step of an accepted pipeline has a name that no earlier step has, and its references
name earlier steps or itself. -/
theorem of_validatePipeline {earlier later : List PipelineStepDef} {step : PipelineStepDef}
    (h : validatePipeline (earlier ++ step :: later) = .ok ()) :
    step.name ∉ earlier.map PipelineStepDef.name ∧
      ∀ reference ∈ extractReferences step.operationJson, ∃ target path,
        parseReference reference = .ok (target, path) ∧
          (target = step.name ∨ target ∈ earlier.map PipelineStepDef.name) := by
  unfold validatePipeline at h
  split_ifs at h
  obtain ⟨names, hstep, hnames⟩ := exists_validateStep_of_validateSteps h
  obtain ⟨hnew, hreferences⟩ := of_validateStep hstep
  simp only [hnames, List.not_mem_nil, false_or, List.mem_cons] at hnew hreferences
  exact ⟨hnew, hreferences⟩

/-! ## What validation does not check -/

/-- The attempt is a whole string whose inner text the regular expression does not accept. -/
def Attempt.Irregular (a : Attempt) : Prop := a.whole = true ∧ ¬ IsGroup a.inner

/-- The attempt can be parsed and names one of the given steps. -/
def Attempt.Names (a : Attempt) (steps : List PipelineStepDef) : Prop :=
  ∃ name path, parseReference a.reference = .ok (name, path) ∧
    name ∈ steps.map PipelineStepDef.name

/-- The attempt escapes validation: it names the step it occurs in, or it is irregular and names
no earlier step. -/
def Attempt.Unchecked (a : Attempt) (earlier : List PipelineStepDef) (step : PipelineStepDef) :
    Prop :=
  a.Names [step] ∨ (a.Irregular ∧ ¬ a.Names earlier)

/-- The regular expression finds every attempt that is not irregular. -/
theorem mem_extractReferences_of_attempts {value : Json} {a : Attempt}
    (ha : a ∈ attempts value) (hregular : ¬ a.Irregular) :
    a.reference ∈ extractReferences value := by
  obtain ⟨text, htext, ha⟩ := List.mem_flatMap.mp ha
  refine mem_extractRefsRecursive.mpr (.inr ⟨text, htext, a.inner, ?_, rfl⟩)
  unfold stringAttempts at ha
  cases hwhole : wholeReference? text.toList with
  | some inner =>
    simp only [hwhole, List.mem_singleton] at ha
    subst ha
    have hgroup : IsGroup inner := by
      by_contra hgroup
      exact hregular ⟨rfl, hgroup⟩
    exact mem_captures_of_wholeReference hwhole hgroup
  | none =>
    simp only [hwhole, List.mem_map] at ha
    obtain ⟨group, hgroup, rfl⟩ := ha
    exact hgroup

/-- In an accepted pipeline, with results of exactly the earlier steps, the attempts of a step
that are not known are those that escape validation. -/
theorem not_known_iff_unchecked {earlier later : List PipelineStepDef} {step : PipelineStepDef}
    {results : Results} (haccepted : validatePipeline (earlier ++ step :: later) = .ok ())
    (hresults : ∀ name, (results name).isSome ↔ name ∈ earlier.map PipelineStepDef.name)
    {a : Attempt} (ha : a ∈ attempts step.operationJson) :
    ¬ a.Known results ↔ a.Unchecked earlier step := by
  obtain ⟨hnew, hreferences⟩ := of_validatePipeline haccepted
  have hknown : a.Known results ↔ a.Names earlier := by
    unfold Attempt.Known Attempt.Names
    simp only [← hresults, Option.isSome_iff_exists, exists_and_left]
  rw [hknown]
  constructor
  · intro hnames
    by_cases hregular : a.Irregular
    · exact .inr ⟨hregular, hnames⟩
    · obtain ⟨target, path, hparse, htarget⟩ :=
        hreferences a.reference (mem_extractReferences_of_attempts ha hregular)
      rcases htarget with rfl | htarget
      · exact .inl ⟨step.name, path, hparse, by simp⟩
      · exact absurd ⟨target, path, hparse, htarget⟩ hnames
  · rintro (⟨name, path, hparse, hname⟩ | ⟨-, hnames⟩)
    · rintro ⟨other, otherPath, hother, hearlier⟩
      obtain rfl : name = step.name := by simpa using hname
      rw [hparse] at hother
      obtain ⟨rfl, -⟩ := Prod.mk.inj (Except.ok.inj hother)
      exact hnew hearlier
    · exact hnames

/-- A step of an accepted pipeline resolves without an unparsable reference and without an unknown
step, unless resolution reaches an attempt that escapes validation. -/
theorem resolves_iff_no_unchecked_attempt (toText : Json → String)
    {earlier later : List PipelineStepDef} {step : PipelineStepDef} {results : Results}
    (haccepted : validatePipeline (earlier ++ step :: later) = .ok ())
    (hresults : ∀ name, (results name).isSome ↔ name ∈ earlier.map PipelineStepDef.name) :
    (∀ error, resolveReferences toText results step.operationJson = .error error →
        ¬ IsBadReference error) ↔
      ∀ before a after, attempts step.operationJson = before ++ a :: after →
        (∀ b ∈ before, ∃ value, resolveSingleRef results b.reference = .ok value) →
          ¬ a.Unchecked earlier step := by
  have hresolved : ∀ b : Attempt, attemptError results b = none ↔
      ∃ value, resolveSingleRef results b.reference = .ok value := by
    intro b
    unfold attemptError
    cases resolveSingleRef results b.reference <;> simp
  have hfails := exists_isBadReference_resolveReferences_iff toText results step.operationJson
  constructor
  · intro hgood before a after hsplit hbefore hunchecked
    have ha : a ∈ attempts step.operationJson := by
      rw [hsplit]
      simp
    obtain ⟨error, herror, hbad⟩ := hfails.mpr ⟨before, a, after, hsplit,
      fun b hb ↦ (hresolved b).mpr (hbefore b hb),
      (not_known_iff_unchecked haccepted hresults ha).mpr hunchecked⟩
    exact hgood error herror hbad
  · intro hchecked error herror hbad
    obtain ⟨before, a, after, hsplit, hbefore, hknown⟩ := hfails.mp ⟨error, herror, hbad⟩
    have ha : a ∈ attempts step.operationJson := by
      rw [hsplit]
      simp
    exact hchecked before a after hsplit (fun b hb ↦ (hresolved b).mp (hbefore b hb))
      ((not_known_iff_unchecked haccepted hresults ha).mp hknown)

/-! ## A step that refers to itself -/

def findOrders (name text : String) : PipelineStepDef where
  name := name
  database := "shop"
  collection := "orders"
  operationType := "find"
  operationJson := .object [("filter", .object [("customer", .string text)])]
  findLimit := none

/-- The result of the step `a` only. -/
def resultOfA : Results := fun name ↦
  if name = "a" then some (.array [.object [("id", .string "c7")]]) else none

theorem resultOfA_isSome (text : String) (name : String) :
    (resultOfA name).isSome ↔ name ∈ [findOrders "a" text].map PipelineStepDef.name := by
  unfold resultOfA
  by_cases hname : name = "a" <;> simp [hname, findOrders]

/-- A reference to the step before resolves. -/
theorem resolves_earlier_reference :
    validatePipeline ([findOrders "a" ""] ++ findOrders "b" "\x7b\x7ba[0].id\x7d\x7d" :: []) =
        .ok () ∧
      ∀ error, resolveReferences (fun _ ↦ "") resultOfA
          (findOrders "b" "\x7b\x7ba[0].id\x7d\x7d").operationJson = .error error →
        ¬ IsBadReference error := by
  have haccepted : validatePipeline
      ([findOrders "a" ""] ++ findOrders "b" "\x7b\x7ba[0].id\x7d\x7d" :: []) = .ok () := rfl
  refine ⟨haccepted,
    (resolves_iff_no_unchecked_attempt (fun _ ↦ "") haccepted (resultOfA_isSome "")).mpr ?_⟩
  intro before a after hsplit hbefore hunchecked
  have hattempts : attempts (findOrders "b" "\x7b\x7ba[0].id\x7d\x7d").operationJson =
      [{ inner := "a[0].id".toList, whole := true }] := by decide
  have ha : a = { inner := "a[0].id".toList, whole := true } := by
    have hmem : a ∈ before ++ a :: after := by simp
    rw [← hsplit, hattempts] at hmem
    exact List.mem_singleton.mp hmem
  subst ha
  rcases hunchecked with ⟨name, path, hparse, hname⟩ | ⟨hirregular, -⟩
  · have hparsed : parseReference "a[0].id".toList = .ok ("a", [.index 0, .field "id"]) := rfl
    rw [Attempt.reference, show trim "a[0].id".toList = "a[0].id".toList by decide, hparsed]
      at hparse
    obtain ⟨rfl, -⟩ := Prod.mk.inj (Except.ok.inj hparse)
    exact absurd hname (by decide)
  · exact hirregular.2 (by decide)

/-- Validation accepts a step that refers to its own result, and resolving it fails because that
result does not exist. -/
theorem accepted_self_reference_fails :
    validatePipeline ([findOrders "a" ""] ++ findOrders "b" "\x7b\x7bb\x7d\x7d" :: []) = .ok () ∧
    (∀ name, (resultOfA name).isSome ↔
      name ∈ [findOrders "a" ""].map PipelineStepDef.name) ∧
    resolveReferences (fun _ ↦ "") resultOfA
      (findOrders "b" "\x7b\x7bb\x7d\x7d").operationJson = .error (.stepNotFound "b") ∧
    IsBadReference (.stepNotFound "b") :=
  ⟨rfl, resultOfA_isSome "", rfl, .inr rfl⟩

end MongoCore.Operations.ValidatedReferences
