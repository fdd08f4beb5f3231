import MongoCore.Library.Results
import MongoCore.Operations.PipelineRefs

/-!
# Paths in two parts

A path of a reference is followed one segment after the other.  Following a path in two parts, the
second from where the first has led, gives the same result, except behind the length of an array:
the length ends the path, and whatever follows it is passed over.
-/

namespace MongoCore.Operations.PipelineRefs

open MongoCore.Data MongoCore.Library

/-- Following one path after another is following the first, and the second from its result. -/
def Composes (reference : String) (value : Json) (path rest : List PathSegment) : Prop :=
  ∀ result, traversePath reference (path ++ rest) value = .ok result ↔
    ∃ middle, traversePath reference path value = .ok middle ∧
      traversePath reference rest middle = .ok result

/-- A path through an array, item by item: the results of the items in order, if all have one. -/
def Plucks (reference : String) (value : Json) (rest : List PathSegment) : Prop :=
  ∀ result, traversePath reference (.wildcard :: rest) value = .ok result ↔
    ∃ items results, value = .array items ∧ result = .array results ∧
      List.Forall₂ (fun item result ↦ traversePath reference rest item = .ok result) items results

def meetsLength : List PathSegment → Json → Bool
  | .field field :: _, .array _ => field == "length"
  | .field field :: remaining, .object members =>
      match members.lookup field with
      | some member => meetsLength remaining member
      | none => false
  | .index position :: remaining, .array items =>
      match items[position]? with
      | some item => meetsLength remaining item
      | none => false
  | _, _ => false

/-- There is no path into a number. -/
theorem traversePath_number {reference : String} {number : Number} {path : List PathSegment}
    {result : Json} (h : traversePath reference path (.number number) = .ok result) :
    path = [] := by
  cases path with
  | nil => rfl
  | cons segment path => cases segment <;> cases h

/-- A path that comes to the length of an array ends there, whatever follows. -/
theorem traversePath_append_of_meetsLength (reference : String) {path : List PathSegment}
    {value : Json} (h : meetsLength path value = true) :
    ∃ length : ℕ, ∀ rest,
      traversePath reference (path ++ rest) value = .ok (.number (.posInt length)) := by
  fun_induction meetsLength path value with
  | case1 field remaining items =>
    refine ⟨items.length, fun rest ↦ ?_⟩
    rw [List.cons_append, traversePath, if_pos (beq_iff_eq.mp h)]
  | case2 field remaining members member hmember ih =>
    obtain ⟨length, hlength⟩ := ih h
    refine ⟨length, fun rest ↦ ?_⟩
    simp only [List.cons_append, traversePath, hmember, hlength rest]
  | case4 position remaining items item hitem ih =>
    obtain ⟨length, hlength⟩ := ih h
    refine ⟨length, fun rest ↦ ?_⟩
    simp only [List.cons_append, traversePath, hitem, hlength rest]
  | case3 | case5 | case6 => exact absurd h Bool.false_ne_true

/-- A path that does not come to the length of an array can be followed in two parts. -/
theorem composes_of_not_meetsLength (reference : String) {path : List PathSegment}
    (hplain : .wildcard ∉ path) {value : Json} (h : meetsLength path value = false)
    (rest : List PathSegment) : Composes reference value path rest := by
  intro result
  induction path generalizing value with
  | nil => simp [traversePath]
  | cons segment path ih =>
    have hpath : .wildcard ∉ path := fun hmem ↦ hplain (List.mem_cons_of_mem segment hmem)
    cases segment with
    | wildcard => exact absurd List.mem_cons_self hplain
    | field field =>
      cases value with
      | array items =>
        have hfield : ¬ field = "length" := by simpa [meetsLength] using h
        simp [traversePath, hfield]
      | object members =>
        rw [meetsLength] at h
        cases hmember : members.lookup field with
        | none => simp [traversePath, hmember]
        | some member =>
          simp only [hmember] at h
          simpa only [List.cons_append, traversePath, hmember] using ih hpath h
      | _ => simp [traversePath]
    | index position =>
      cases value with
      | array items =>
        rw [meetsLength] at h
        cases hitem : items[position]? with
        | none => simp [traversePath, hitem]
        | some item =>
          simp only [hitem] at h
          simpa only [List.cons_append, traversePath, hitem] using ih hpath h
      | _ => simp [traversePath]

/-- A wildcard gives the results of all items, or fails if one of them does. -/
theorem plucks (reference : String) (value : Json) (rest : List PathSegment) :
    Plucks reference value rest := by
  intro result
  cases value with
  | array items =>
    simp only [traversePath]
    constructor
    · intro h
      obtain ⟨results, hresults, hresult⟩ := Results.bind_eq_ok.mp h
      exact ⟨items, results, rfl, (Except.ok.inj hresult).symm, Results.mapM_eq_ok.mp hresults⟩
    · rintro ⟨others, results, hitems, rfl, hresults⟩
      obtain rfl := Json.array.inj hitems
      exact Results.bind_eq_ok.mpr ⟨results, Results.mapM_eq_ok.mpr hresults, rfl⟩
  | _ => simp [traversePath]

/-- A path can be followed in two parts exactly if its first part does not come to the length of an
array, or nothing follows; and a wildcard gives the results of all items. -/
theorem composes_iff (reference : String) (value : Json) {path : List PathSegment}
    (hplain : .wildcard ∉ path) (rest : List PathSegment) :
    (Composes reference value path rest ∧ Plucks reference value rest) ↔
      rest = [] ∨ meetsLength path value = false := by
  rw [and_iff_left (plucks reference value rest)]
  constructor
  · intro h
    rw [or_iff_not_imp_right, Bool.not_eq_false]
    intro hmeets
    obtain ⟨length, hlength⟩ := traversePath_append_of_meetsLength reference hmeets
    obtain ⟨middle, hmiddle, hresult⟩ := (h _).mp (hlength rest)
    have hnumber : middle = .number (.posInt length) := by
      rw [← List.append_nil path, hlength []] at hmiddle
      exact (Except.ok.inj hmiddle).symm
    rw [hnumber] at hresult
    exact traversePath_number hresult
  · rintro (rfl | h)
    · intro result
      simp [traversePath]
    · exact composes_of_not_meetsLength reference hplain h rest

/-- The first item of an array and its name, in two parts. -/
theorem composes_firstName :
    Composes "users[0].name" (.array [.object [("name", .string "a")]]) [.index 0]
        [.field "name"] ∧
      Plucks "users[0].name" (.array [.object [("name", .string "a")]]) [.field "name"] :=
  (composes_iff "users[0].name" (.array [.object [("name", .string "a")]]) (by decide)
    [.field "name"]).mpr (.inr (by decide))

/-- A field of the length of an array is the length. -/
theorem not_composes_fieldOfLength :
    ¬ Composes "users.length.name" (.array [.null]) [.field "length"] [.field "name"] := by
  intro h
  obtain ⟨middle, hmiddle, hname⟩ := (h (.number (.posInt 1))).mp rfl
  obtain rfl := Except.ok.inj hmiddle
  cases hname

end MongoCore.Operations.PipelineRefs
