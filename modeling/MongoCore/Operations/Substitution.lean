import MongoCore.Operations.PipelineRefs

/-!
# Interpolation as a substitution

Interpolation is meant to put the text of each resolved value in the place of its own placeholder.
`substitute` states that intent: the text is cut once, and every match is replaced independently.
The code instead replaces one placeholder after the other, each time everywhere in the text left
by the replacements before it, so text that came from a step result is scanned again.

The main result says when the two agree: at its turn, the text of a placeholder must start
nowhere but at the places of that placeholder that are still open.  Nothing is claimed about the
texts outside that condition, since a later replacement can undo an earlier one by coincidence.
-/

namespace MongoCore.Operations.Substitution

open MongoCore.Data MongoCore.Library.Rewriting
open MongoCore.Operations.Placeholders MongoCore.Operations.PipelineRefs

/-! ## The simultaneous substitution -/

/-- The inner text of a string that, trimmed, is exactly one match of the regular expression
around a text without further opening braces. -/
def exactReference? (text : List Char) : Option (List Char) :=
  match cut (trim text) with
  | [.hole group] => if openBraces <:+: group then none else some group
  | _ => none

section

variable (toText : Json → String) (results : Results)

def resolvedText (group : List Char) : List Char :=
  match resolveSingleRef results (trim group) with
  | .ok value => interpolated toText value
  | .error _ => []

/-- The text with the listed placeholders replaced by their values. -/
def render (done : List (List Char)) (pieces : List Piece) : List Char :=
  pieces.flatMap fun
    | .lit c => [c]
    | .hole group => if group ∈ done then resolvedText toText results group
        else placeholder group

/-- The substitution that a string stands for: the referenced value itself, or the text with
every match replaced independently by the text of its own value. -/
def substitute (text : String) : Except RefError Json :=
  match exactReference? text.toList with
  | some group => resolveSingleRef results (trim group)
  | none => .ok (.string (String.ofList (render toText results (captures text.toList)
      (cut text.toList))))

/-! ## Undisturbed replacements -/

/-- The text at the turn of one placeholder, as letters and the open places of that
placeholder. -/
def tokens (done : List (List Char)) (group : List Char) (pieces : List Piece) :
    List (Option Char) :=
  pieces.flatMap fun
    | .lit c => [some c]
    | .hole other =>
        if other ∈ done then (resolvedText toText results other).map some
        else if other = group then [none]
        else (placeholder other).map some

/-- At the turn of each placeholder, its text starts only at its own open places. -/
def Undisturbed (pieces : List Piece) : List (List Char) → List (List Char) → Prop
  | _, [] => True
  | done, group :: groups =>
      StartsOnlyAtHoles (placeholder group) (tokens toText results done group pieces) ∧
        Undisturbed pieces (done ++ [group]) groups

instance decidableUndisturbed (pieces : List Piece) :
    (done groups : List (List Char)) → Decidable (Undisturbed toText results pieces done groups)
  | _, [] => isTrue trivial
  | done, group :: groups =>
      have := decidableUndisturbed pieces (done ++ [group]) groups
      inferInstanceAs (Decidable (_ ∧ _))

variable {toText results}

/-- Open places filled with the placeholder give the text before its turn. -/
theorem fill_placeholder_tokens (done : List (List Char)) (group : List Char)
    (pieces : List Piece) :
    fill (placeholder group) (tokens toText results done group pieces) =
      render toText results done pieces := by
  rw [tokens, render, fill_flatMap]
  congr 1
  funext piece
  cases piece with
  | lit c => rfl
  | hole other =>
    by_cases hdone : other ∈ done
    · simp [hdone]
    · by_cases hother : other = group
      · simp [hother, hother ▸ hdone]
      · simp [hdone, hother]

/-- Open places filled with the value give the text after its turn. -/
theorem fill_resolvedText_tokens (done : List (List Char)) (group : List Char)
    (pieces : List Piece) :
    fill (resolvedText toText results group) (tokens toText results done group pieces) =
      render toText results (done ++ [group]) pieces := by
  rw [tokens, render, fill_flatMap]
  congr 1
  funext piece
  cases piece with
  | lit c => rfl
  | hole other =>
    by_cases hdone : other ∈ done
    · simp [hdone]
    · by_cases hother : other = group
      · simp [hother, hother ▸ hdone]
      · simp [hdone, hother]

/-- One undisturbed turn replaces the open places of its placeholder. -/
theorem replaceAll_render {done : List (List Char)} {group : List Char} {pieces : List Piece}
    (h : StartsOnlyAtHoles (placeholder group) (tokens toText results done group pieces)) :
    replaceAll (placeholder group) (resolvedText toText results group)
        (render toText results done pieces) =
      render toText results (done ++ [group]) pieces := by
  rw [← fill_placeholder_tokens done group, ← fill_resolvedText_tokens]
  exact replaceAll_fill (placeholder_ne_nil group) _ h

/-- A run of undisturbed turns replaces the open places of all its placeholders. -/
theorem interpolate_render {pieces : List Piece} {groups : List (List Char)}
    (hresolves : ∀ group ∈ groups, ∃ value, resolveSingleRef results (trim group) = .ok value)
    (done : List (List Char)) (h : Undisturbed toText results pieces done groups) :
    interpolate toText results groups (render toText results done pieces) =
      .ok (render toText results (done ++ groups) pieces) := by
  induction groups generalizing done with
  | nil => rw [interpolate, List.append_nil]
  | cons group groups ih =>
    obtain ⟨value, hvalue⟩ := hresolves group List.mem_cons_self
    have htext : interpolated toText value = resolvedText toText results group := by
      rw [resolvedText, hvalue]
    have hturn : replaceAll (placeholder group) (interpolated toText value)
          (render toText results done pieces) =
        render toText results (done ++ [group]) pieces := by
      rw [htext]
      exact replaceAll_render h.1
    have hrest := ih (fun other hother ↦ hresolves other (List.mem_cons_of_mem _ hother))
      (done ++ [group]) h.2
    rw [interpolate, hvalue]
    simp only [bind, Except.bind]
    rw [hturn, hrest, List.append_assoc, List.singleton_append]

/-- Before the first turn the text is the given one. -/
theorem render_nil (text : List Char) : render toText results [] (cut text) = text := by
  calc
    render toText results [] (cut text) = (cut text).flatMap Piece.text := by
      refine List.flatMap_congr fun piece _ ↦ ?_
      cases piece with
      | lit c => rfl
      | hole group => simp
    _ = text := cut_flatMap_text text

/-! ## Whole references -/

theorem exactReference?_eq_some_iff {text group : List Char} :
    exactReference? text = some group ↔
      trim text = placeholder group ∧ IsGroup group ∧ ¬ openBraces <:+: group := by
  constructor
  · intro h
    unfold exactReference? at h
    split at h
    · rename_i other hcut
      split_ifs at h with hopen
      obtain rfl := Option.some.inj h
      obtain ⟨htrim, hgroup⟩ := cut_eq_hole_iff.mp hcut
      exact ⟨htrim, hgroup, hopen⟩
    · exact absurd h (by simp)
  · rintro ⟨htrim, hgroup, hopen⟩
    rw [exactReference?, cut_eq_hole_iff.mpr ⟨htrim, hgroup⟩]
    simp only [if_neg hopen]

/-- The two readings of a whole reference agree when the regular expression accepts its inner
text. -/
theorem exactReference?_eq_wholeReference? {text : List Char}
    (h : ∀ inner, wholeReference? text = some inner → IsGroup inner) :
    exactReference? text = wholeReference? text := by
  refine Option.ext fun group ↦ ?_
  constructor
  · intro hexact
    obtain ⟨htrim, hgroup, hopen⟩ := exactReference?_eq_some_iff.mp hexact
    refine wholeReference?_eq_some_iff.mpr ⟨htrim, hopen, fun hclose ↦ hgroup.2 ?_⟩
    exact hclose.subset (by decide)
  · intro hwhole
    obtain ⟨htrim, hopen, -⟩ := wholeReference?_eq_some_iff.mp hwhole
    exact exactReference?_eq_some_iff.mpr ⟨htrim, h group hwhole, hopen⟩

/-- Resolving a string is the substitution it stands for, if a whole reference is one that the
regular expression accepts and no replacement is disturbed. -/
theorem resolveString_eq_substitute (text : String)
    (hresolves : ∀ group ∈ captures text.toList,
      ∃ value, resolveSingleRef results (trim group) = .ok value)
    (hwhole : ∀ inner, wholeReference? text.toList = some inner → IsGroup inner)
    (hundisturbed : wholeReference? text.toList = none →
      Undisturbed toText results (cut text.toList) [] (captures text.toList)) :
    resolveString toText results text = substitute toText results text := by
  rw [substitute, resolveString, exactReference?_eq_wholeReference? hwhole]
  cases hreference : wholeReference? text.toList with
  | some inner => rfl
  | none =>
    have hrun := interpolate_render hresolves [] (hundisturbed hreference)
    rw [render_nil, List.nil_append] at hrun
    simp only [hrun, bind, Except.bind]
    rfl

end

/-! ## A value that looks like a placeholder -/

def twoPlaceholders : String := "\x7b\x7ba.x\x7d\x7d, \x7b\x7bb.y\x7d\x7d"

/-- Results of the two steps, where the first returns the given text. -/
def suppliedResults (text : String) : Results := fun name ↦
  if name = "a" then some (.object [("x", .string text)])
  else if name = "b" then some (.object [("y", .string "secret")])
  else none

theorem captures_twoPlaceholders :
    captures twoPlaceholders.toList = ["a.x".toList, "b.y".toList] := by
  decide

theorem wholeReference?_twoPlaceholders : wholeReference? twoPlaceholders.toList = none := by
  decide

theorem suppliedResults_resolves (text : String) :
    ∀ group ∈ captures twoPlaceholders.toList,
      ∃ value, resolveSingleRef (suppliedResults text) (trim group) = .ok value := by
  intro group hgroup
  rw [captures_twoPlaceholders] at hgroup
  rcases List.mem_pair.mp hgroup with rfl | rfl
  · exact ⟨.string text, rfl⟩
  · exact ⟨.string "secret", rfl⟩

/-- A value without braces is inserted undisturbed. -/
theorem resolveString_eq_substitute_plain :
    resolveString (fun _ ↦ "") (suppliedResults "plain") twoPlaceholders =
      substitute (fun _ ↦ "") (suppliedResults "plain") twoPlaceholders :=
  resolveString_eq_substitute twoPlaceholders (suppliedResults_resolves "plain")
    (fun inner hinner ↦ absurd (wholeReference?_twoPlaceholders.symm.trans hinner) (by simp))
    (fun _ ↦ by decide)

/-- A value that contains the placeholder of a later reference is scanned again, and the text of
another step's result ends up in its place. -/
theorem resolveString_rescans_value :
    (∀ group ∈ captures twoPlaceholders.toList, ∃ value,
      resolveSingleRef (suppliedResults "\x7b\x7bb.y\x7d\x7d") (trim group) = .ok value) ∧
    resolveString (fun _ ↦ "") (suppliedResults "\x7b\x7bb.y\x7d\x7d") twoPlaceholders ≠
      substitute (fun _ ↦ "") (suppliedResults "\x7b\x7bb.y\x7d\x7d") twoPlaceholders := by
  refine ⟨suppliedResults_resolves _, ?_⟩
  have hcode : resolveString (fun _ ↦ "") (suppliedResults "\x7b\x7bb.y\x7d\x7d")
      twoPlaceholders = .ok (.string "secret, secret") := rfl
  have hintent : substitute (fun _ ↦ "") (suppliedResults "\x7b\x7bb.y\x7d\x7d")
      twoPlaceholders = .ok (.string "\x7b\x7bb.y\x7d\x7d, secret") := rfl
  rw [hcode, hintent]
  intro heq
  simp only [Except.ok.injEq, Json.string.injEq] at heq
  exact absurd heq (by decide)

end MongoCore.Operations.Substitution
