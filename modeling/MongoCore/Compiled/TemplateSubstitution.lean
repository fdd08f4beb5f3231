import Mathlib.Logic.Function.Basic
import MongoCore.Compiled.TemplateMatches

/-!
# The substitution of parameters

The values that an intent captured are put into the strings of a query, in the place of the
placeholders of their parameters.  What is meant is one simultaneous substitution: the string is cut
once at its placeholders, and each of them is replaced by the text of its own value.

The code replaces one parameter after the other, in the order in which a hash map lists them, each
time everywhere in the text that the replacements before have left.  So text that came from a value
is scanned again.  The main result is the exact condition under which every order replaces the
placeholders of the query and nothing else.
-/

namespace MongoCore.Compiled

open MongoCore.Data MongoCore.Library MongoCore.Library.Rewriting
open MongoCore.Operations.Placeholders

/-! ## Names of parameters -/

/-- The name of a parameter ends at the first closing braces after it. -/
theorem splitClose_append_closeBraces {part name after : List Char}
    (h : splitClose part = some (name, after)) (rest : List Char) :
    splitClose (name ++ closeBraces ++ rest) = some (name, rest) := by
  fun_induction splitClose part generalizing name with
  | case1 => cases h
  | case2 =>
    obtain ⟨rfl, rfl⟩ := Prod.mk.inj (Option.some.inj h)
    rfl
  | case3 c part hbraces ih =>
    obtain ⟨⟨tail, back⟩, hsplit, hpair⟩ := Option.map_eq_some_iff.mp h
    obtain ⟨rfl, rfl⟩ := Prod.mk.inj hpair
    have htail := ih hsplit
    have hpart := eq_of_splitClose hsplit
    have hother : ∀ other, c = '}' → tail ++ closeBraces ++ rest = '}' :: other → False := by
      intro other hc hother
      cases tail with
      | nil => exact hbraces _ hc hpart
      | cons first tail =>
        obtain ⟨rfl, -⟩ := List.cons.inj hother
        exact hbraces _ hc hpart
    rw [List.cons_append, List.cons_append, splitClose, htail]
    · rfl
    · exact hother

/-- A hash map of the values of parameters: its names are those of some pattern. -/
structure ParameterValues extends EntryMap String Json where
  parameters : ∀ entry ∈ entries, ∃ pattern, entry.1 ∈ parameterNames pattern

def capturedParameters {Regex : Type} (crates : Crates Regex) (template : LlmTemplate)
    (groups : List (Option String)) : ParameterValues where
  entries := captureValues crates (register crates template "" "" "") groups
  parameters := by
    rw [captureValues_eq_foldl]
    refine List.foldlRecOn (motive := fun values : List (String × Json) ↦
      ∀ entry ∈ values, ∃ pattern, entry.1 ∈ parameterNames pattern) _ _
        (fun _ h ↦ absurd h List.not_mem_nil) fun values hvalues pair hpair entry hentry ↦ ?_
    rcases List.mem_cons.mp hentry with rfl | hentry
    · obtain ⟨⟨name, i⟩, hname, hsome⟩ := List.mem_filterMap.mp hpair
      obtain ⟨text, -, rfl⟩ := Option.map_eq_some_iff.mp hsome
      exact ⟨template.intentPattern,
        List.mem_of_getElem? (List.mem_zipIdx_iff_getElem?.mp hname)⟩
    · exact hvalues entry (List.mem_of_mem_filter hentry)
  nodup := by
    rw [captureValues_eq_foldl]
    exact List.foldlRecOn (motive := fun values : List (String × Json) ↦
      (values.map Prod.fst).Nodup) _ _ List.nodup_nil
        fun values hvalues pair _ ↦ (EntryMap.insert ⟨values, hvalues⟩ pair.1 pair.2).nodup

theorem ParameterValues.splitClose_name (values : ParameterValues) {name : String}
    (hname : name ∈ values.keys) (rest : List Char) :
    splitClose (name.toList ++ closeBraces ++ rest) = some (name.toList, rest) := by
  obtain ⟨entry, hentry, rfl⟩ := List.mem_map.mp hname
  obtain ⟨pattern, hpattern⟩ := values.parameters entry hentry
  obtain ⟨⟨group, after⟩, hpart, heq⟩ := List.mem_map.mp hpattern
  obtain ⟨part, -, hsplit⟩ := List.mem_filterMap.mp hpart
  rw [← heq, String.toList_ofList]
  exact splitClose_append_closeBraces hsplit rest

/-! ## The placeholders of a text -/

/-- The name of the placeholder that a text starts with, if it is one of the names. -/
def placeholderAt (names : List String) (text : List Char) : Option (List Char) :=
  if openBraces.isPrefixOf text then
    (splitClose (text.drop 2)).bind fun (name, _) ↦
      if String.ofList name ∈ names then some name else none
  else none

/-- Cut a text at the placeholders of some names, leftmost first, after passing over `skip`
characters of a placeholder already found. -/
def cutNamesFrom (names : List String) : ℕ → List Char → List Piece
  | _, [] => []
  | skip + 1, _ :: rest => cutNamesFrom names skip rest
  | 0, c :: rest =>
      match placeholderAt names (c :: rest) with
      | some name => .hole name :: cutNamesFrom names (name.length + 3) rest
      | none => .lit c :: cutNamesFrom names 0 rest

def cutNames (names : List String) (text : List Char) : List Piece := cutNamesFrom names 0 text

def Piece.fillWith (texts : List Char → List Char) : Piece → List Char
  | .lit c => [c]
  | .hole name => texts name

def renderPieces (texts : List Char → List Char) (pieces : List Piece) : List Char :=
  pieces.flatMap (Piece.fillWith texts)

/-- Pieces as letters and the places of one name, with texts for the other placeholders. -/
def tokensOf (texts : List Char → List Char) (name : List Char) (pieces : List Piece) :
    List (Option Char) :=
  pieces.flatMap fun
    | .lit c => [some c]
    | .hole other => if other = name then [none] else (texts other).map some

theorem exists_of_placeholderAt {names : List String} {text name : List Char}
    (h : placeholderAt names text = some name) :
    String.ofList name ∈ names ∧ ∃ rest, text = placeholder name ++ rest := by
  rw [placeholderAt, Option.ite_none_right_eq_some] at h
  obtain ⟨hopen, h⟩ := h
  obtain ⟨⟨other, after⟩, hsplit, hname⟩ := Option.bind_eq_some_iff.mp h
  rw [Option.ite_none_right_eq_some, Option.some.injEq] at hname
  obtain ⟨hmem, rfl⟩ := hname
  obtain ⟨rest, rfl⟩ := List.isPrefixOf_iff_prefix.mp hopen
  refine ⟨hmem, after, ?_⟩
  have hrest : (openBraces ++ rest).drop 2 = rest := rfl
  rw [hrest] at hsplit
  rw [eq_of_splitClose hsplit, placeholder]
  simp only [List.append_assoc]

theorem cutNamesFrom_append (names : List String) (passed text : List Char) :
    cutNamesFrom names passed.length (passed ++ text) = cutNames names text := by
  induction passed with
  | nil => rfl
  | cons c passed ih => exact ih

/-- What is cut off at a placeholder. -/
theorem cutNames_of_placeholderAt {names : List String} {name rest : List Char}
    (h : placeholderAt names (placeholder name ++ rest) = some name) :
    cutNames names (placeholder name ++ rest) = .hole name :: cutNames names rest := by
  have hlength : name.length + 3 = ('{' :: name ++ closeBraces).length := by
    simp [closeBraces]
  have hshape : placeholder name ++ rest = '{' :: (('{' :: name ++ closeBraces) ++ rest) := by
    simp [placeholder, openBraces]
  rw [hshape] at h ⊢
  rw [cutNames, cutNamesFrom, h]
  dsimp only
  rw [hlength, cutNamesFrom_append]

/-- The pieces of a text make up the text. -/
theorem renderPieces_cutNames (names : List String) (text : List Char) :
    renderPieces placeholder (cutNames names text) = text := by
  induction hlength : text.length using Nat.strong_induction_on generalizing text with
  | _ length ih =>
    cases text with
    | nil => rfl
    | cons c text =>
      cases hplace : placeholderAt names (c :: text) with
      | none =>
        rw [cutNames, cutNamesFrom, hplace]
        exact congrArg (c :: ·) (ih text.length (by simp [← hlength]) text rfl)
      | some name =>
        obtain ⟨-, rest, hrest⟩ := exists_of_placeholderAt hplace
        have hshorter : rest.length < length := by
          rw [← hlength, hrest, placeholder]
          simp only [List.length_append, openBraces, List.length_cons]
          omega
        rw [hrest] at hplace ⊢
        rw [cutNames_of_placeholderAt hplace]
        exact congrArg (placeholder name ++ ·) (ih rest.length hshorter rest rfl)

/-- A place is one of a name. -/
theorem mem_names_of_hole {names : List String} {name : List Char} {skip : ℕ} {text : List Char}
    (h : Piece.hole name ∈ cutNamesFrom names skip text) : String.ofList name ∈ names := by
  induction text generalizing skip with
  | nil => cases skip <;> cases h
  | cons c text ih =>
    cases skip with
    | succ skip => exact ih h
    | zero =>
      rw [cutNamesFrom] at h
      cases hplace : placeholderAt names (c :: text) with
      | none =>
        rw [hplace] at h
        rcases List.mem_cons.mp h with heq | h
        · cases heq
        · exact ih h
      | some other =>
        rw [hplace] at h
        rcases List.mem_cons.mp h with heq | h
        · obtain rfl := Piece.hole.inj heq
          exact (exists_of_placeholderAt hplace).1
        · exact ih h

/-- The places of a name filled with a text. -/
theorem fill_tokensOf (texts : List Char → List Char) (name filling : List Char)
    (pieces : List Piece) :
    fill filling (tokensOf texts name pieces) =
      renderPieces (Function.update texts name filling) pieces := by
  rw [tokensOf, renderPieces, fill_flatMap]
  congr 1
  funext piece
  cases piece with
  | lit c => rfl
  | hole other =>
    by_cases hother : other = name
    · simp [Piece.fillWith, hother]
    · simp [Piece.fillWith, hother]

/-! ## Texts for placeholders -/

section Substitution

variable {Regex : Type} (crates : Crates Regex)

def valueText (value : Json) : List Char :=
  match value with
  | .string text => text.toList
  | other => (crates.toText other).toList

/-- The text in the place of a placeholder when some parameters have been replaced: that of the
value, or the placeholder. -/
def textOf (done : List (String × Json)) (name : List Char) : List Char :=
  match done.lookup (String.ofList name) with
  | some value => valueText crates value
  | none => placeholder name

/-- Replace parameters one after the other, as the loop over the hash map does. -/
def replaceEntries (entries : List (String × Json)) (text : List Char) : List Char :=
  entries.foldl (fun result (name, value) ↦
    replaceAll (placeholder name.toList) (valueText crates value) result) text

/-- The loop over the hash map replaces the entries in the order in which they are listed. -/
theorem substituteText_eq (values : List (String × Json)) (text : String) :
    substituteText crates values text =
      match (wholePlaceholder text.toList).bind fun name ↦ values.lookup name with
      | some value => value
      | none => .string (String.ofList
          (replaceEntries crates (crates.listEntries values) text.toList)) := by
  have hstep : ∀ (entry : String × Json) (result : List Char),
      replaceAll (placeholder entry.1.toList) (match entry.2 with
        | .string text => text
        | other => crates.toText other).toList result =
          replaceAll (placeholder entry.1.toList) (valueText crates entry.2) result := by
    intro entry result
    obtain ⟨name, value⟩ := entry
    cases value <;> rfl
  have hloop : ∀ (entries : List (String × Json)) (result : List Char),
      entries.foldl (fun result entry ↦
        replaceAll (placeholder entry.1.toList) (match entry.2 with
          | .string text => text
          | other => crates.toText other).toList result) result =
        replaceEntries crates entries result := by
    intro entries
    induction entries with
    | nil => exact fun _ ↦ rfl
    | cons entry entries ih =>
      intro result
      rw [List.foldl_cons, hstep entry result, ih]
      rfl
  rw [← hloop]
  rfl

variable {crates}

theorem textOf_of_notMem {done : List (String × Json)} {name : String}
    (h : name ∉ done.map Prod.fst) : textOf crates done name.toList = placeholder name.toList := by
  rw [textOf, String.ofList_toList, lookup_eq_none_iff_notMem.mpr h]

/-- One more parameter has its text. -/
theorem textOf_concat {done : List (String × Json)} {name : String}
    (h : name ∉ done.map Prod.fst) (value : Json) :
    textOf crates (done ++ [(name, value)]) =
      Function.update (textOf crates done) name.toList (valueText crates value) := by
  funext other
  by_cases hother : other = name.toList
  · rw [hother, Function.update_self, textOf, String.ofList_toList, List.lookup_append,
      lookup_eq_none_iff_notMem.mpr h]
    simp
  · have hne : String.ofList other ≠ name := by
      intro heq
      rw [← heq, String.toList_ofList] at hother
      exact hother rfl
    rw [Function.update_of_ne hother, textOf, textOf, List.lookup_append, List.lookup_cons,
      beq_false_of_ne hne, List.lookup_nil, Option.or_none]

/-- The places of a name that has no text yet, filled with the placeholder. -/
theorem fill_placeholder_tokensOf {done : List (String × Json)} {name : String}
    (h : name ∉ done.map Prod.fst) (pieces : List Piece) :
    fill (placeholder name.toList) (tokensOf (textOf crates done) name.toList pieces) =
      renderPieces (textOf crates done) pieces := by
  rw [fill_tokensOf, ← textOf_of_notMem h, Function.update_eq_self]

/-- The text left by the entries before a turn, if each of them starts only at its places. -/
theorem replaceEntries_eq_render {entries : List (String × Json)} {names : List String}
    {text : List Char} (hnodup : (entries.map Prod.fst).Nodup)
    (hturns : ∀ front name value back, entries = front ++ (name, value) :: back →
      StartsOnlyAtHoles (placeholder name.toList)
        (tokensOf (textOf crates front) name.toList (cutNames names text))) :
    replaceEntries crates entries text =
      renderPieces (textOf crates entries) (cutNames names text) := by
  induction entries using List.reverseRecOn with
  | nil => exact (renderPieces_cutNames names text).symm
  | append_singleton front entry ih =>
    obtain ⟨name, value⟩ := entry
    rw [List.map_append, List.map_singleton, List.nodup_append] at hnodup
    have hname : name ∉ front.map Prod.fst :=
      fun hmem ↦ hnodup.2.2 name hmem name (List.mem_singleton_self name) rfl
    have hfront : replaceEntries crates front text =
        renderPieces (textOf crates front) (cutNames names text) := by
      apply ih hnodup.1
      intro before other otherValue back hsplit
      apply hturns before other otherValue (back ++ [(name, value)])
      rw [hsplit, List.append_assoc, List.cons_append]
    calc replaceEntries crates (front ++ [(name, value)]) text
        = replaceAll (placeholder name.toList) (valueText crates value)
            (replaceEntries crates front text) := by
          rw [replaceEntries, List.foldl_append]
          rfl
      _ = replaceAll (placeholder name.toList) (valueText crates value)
            (fill (placeholder name.toList)
              (tokensOf (textOf crates front) name.toList (cutNames names text))) := by
          rw [hfront, fill_placeholder_tokensOf hname]
      _ = fill (valueText crates value)
            (tokensOf (textOf crates front) name.toList (cutNames names text)) :=
          replaceAll_fill (placeholder_ne_nil _) _ (hturns front name value [] rfl)
      _ = renderPieces (textOf crates (front ++ [(name, value)])) (cutNames names text) := by
          rw [fill_tokensOf, textOf_concat hname]

/-! ## Strings that are one placeholder -/

/-- A string is one placeholder exactly if the code takes it for one. -/
theorem wholePlaceholder_eq_some_iff (values : ParameterValues) {text : List Char}
    {value : Json} :
    ((wholePlaceholder text).bind fun name ↦ values.entries.lookup name) = some value ↔
      ∃ name, cutNames values.keys text = [.hole name] ∧
        values.entries.lookup (String.ofList name) = some value := by
  constructor
  · intro h
    obtain ⟨name, hwhole, hvalue⟩ := Option.bind_eq_some_iff.mp h
    rw [wholePlaceholder, Option.ite_none_right_eq_some, Bool.and_eq_true] at hwhole
    obtain ⟨⟨hopen, hclose⟩, hname⟩ := hwhole
    have htext := eq_placeholder_of_prefix_suffix (List.isPrefixOf_iff_prefix.mp hopen)
      (List.isSuffixOf_iff_suffix.mp hclose)
    have hinner : text = placeholder name.toList := by
      rw [← Option.some.inj hname, String.toList_ofList]
      rw [htext]
      simp [placeholder, openBraces, closeBraces]
    have hmem : name ∈ values.keys := by
      obtain ⟨front, back, hsplit, -⟩ := List.lookup_eq_some_iff.mp hvalue
      rw [EntryMap.keys, hsplit]
      simp
    have hplace : placeholderAt values.keys (placeholder name.toList ++ []) =
        some name.toList := by
      have hsplit := values.splitClose_name hmem []
      rw [placeholderAt, if_pos (by simp [placeholder, openBraces])]
      have hdrop : (placeholder name.toList ++ []).drop 2 = name.toList ++ closeBraces ++ [] := rfl
      rw [hdrop, hsplit, Option.bind_some]
      simp [hmem]
    refine ⟨name.toList, ?_, by rw [String.ofList_toList, hvalue]⟩
    rw [hinner, ← List.append_nil (placeholder name.toList), cutNames_of_placeholderAt hplace]
    rfl
  · rintro ⟨name, hcut, hvalue⟩
    have htext : text = placeholder name := by
      rw [← renderPieces_cutNames values.keys text, hcut]
      exact List.append_nil _
    have hopen : openBraces.isPrefixOf (placeholder name) = true := rfl
    have hclose : closeBraces.isSuffixOf (placeholder name) = true :=
      List.isSuffixOf_iff_suffix.mpr (List.suffix_append _ _)
    have hwhole : wholePlaceholder text = some (String.ofList name) := by
      rw [htext, wholePlaceholder, hopen, hclose]
      simp [placeholder, openBraces, closeBraces]
    rw [hwhole, Option.bind_some, hvalue]

end Substitution

/-! ## The simultaneous substitution -/

section Json

variable {Regex : Type} (crates : Crates Regex) (values : ParameterValues)

/-- A text with the text of its own value in the place of each placeholder. -/
def fillText (text : String) : String :=
  String.ofList (renderPieces (textOf crates values.entries) (cutNames values.keys text.toList))

/-- A string as it is meant: the value of the placeholder that it is, or the filled text. -/
def fillString (text : String) : Json :=
  match cutNames values.keys text.toList with
  | [.hole name] => (values.entries.lookup (String.ofList name)).getD (.string text)
  | _ => .string (fillText crates values text)

mutual

/-- A query with every placeholder replaced by its own value. -/
def fillMql : Json → Json
  | .string text => fillString crates values text
  | .object members => .object (fillMembers members)
  | .array items => .array (fillItems items)
  | .null => .null
  | .bool value => .bool value
  | .number value => .number value

def fillMembers : List (String × Json) → List (String × Json)
  | [] => []
  | (key, value) :: members => (fillText crates values key, fillMql value) :: fillMembers members

def fillItems : List Json → List Json
  | [] => []
  | item :: items => fillMql item :: fillItems items

end

/-- A string that is a value somewhere in a query. -/
inductive HasText (text : String) : Json → Prop
  | string : HasText text (.string text)
  | item {items : List Json} {item : Json} (hitem : item ∈ items) (h : HasText text item) :
      HasText text (.array items)
  | member {members : List (String × Json)} {member : String × Json} (hmember : member ∈ members)
      (h : HasText text member.2) : HasText text (.object members)

/-- The name of a member of an object somewhere in a query. -/
inductive HasKey (key : String) : Json → Prop
  | here {members : List (String × Json)} {value : Json} (hmember : (key, value) ∈ members) :
      HasKey key (.object members)
  | item {items : List Json} {item : Json} (hitem : item ∈ items) (h : HasKey key item) :
      HasKey key (.array items)
  | member {members : List (String × Json)} {member : String × Json} (hmember : member ∈ members)
      (h : HasKey key member.2) : HasKey key (.object members)

/-! ## The promise and its condition -/

/-- A turn of the loop over the hash map: in some order of the entries, `front` has been replaced
and the entry of `name` is next. -/
def Turn (front : List (String × Json)) (name : String) (value : Json) : Prop :=
  ∃ back, (front ++ (name, value) :: back).Perm values.entries

/-- A string in which the loop replaces placeholders. -/
def Interpolated (text : String) : Prop := ∀ name, cutNames values.keys text.toList ≠ [.hole name]

/-- In every order of the parameters the substitution gives the query with the placeholders filled,
and what it replaces at a turn are the places of that placeholder in the original text. -/
structure CaptureSafe (pattern : Json) : Prop where
  result : ∀ order : List (String × Json), order.Perm values.entries →
    substituteMql { crates with listEntries := fun _ ↦ order } values.entries pattern =
      fillMql crates values pattern
  replaced : ∀ text, HasText text pattern → Interpolated values text →
    ∀ front name value, Turn values front name value →
      scan (placeholder name.toList) (replaceEntries crates front text.toList) =
        tokensOf (textOf crates front) name.toList (cutNames values.keys text.toList)

/-- The condition: the name of a member does not change when it is filled, and at every turn of a
string the placeholder starts only at its places, whatever values stand there by then. -/
structure NothingCaptured (pattern : Json) : Prop where
  keys : ∀ key, HasKey key pattern → fillText crates values key = key
  texts : ∀ text, HasText text pattern → Interpolated values text →
    ∀ front name value, Turn values front name value →
      StartsOnlyAtHoles (placeholder name.toList)
        (tokensOf (textOf crates front) name.toList (cutNames values.keys text.toList))

variable {crates values}

theorem Turn.notMem {front : List (String × Json)} {name : String} {value : Json}
    (h : Turn values front name value) : name ∉ front.map Prod.fst := by
  obtain ⟨back, hperm⟩ := h
  have hnodup := (hperm.map Prod.fst).nodup_iff.mpr values.nodup
  rw [List.map_append, List.map_cons, List.nodup_append] at hnodup
  exact fun hmem ↦ hnodup.2.2 name hmem name List.mem_cons_self rfl

theorem fillMembers_eq_map (members : List (String × Json)) :
    fillMembers crates values members = members.map fun member ↦
      (fillText crates values member.1, fillMql crates values member.2) := by
  induction members with
  | nil => rfl
  | cons member members ih => rw [fillMembers, ih, List.map_cons]

theorem fillItems_eq_map (items : List Json) :
    fillItems crates values items = items.map (fillMql crates values) := by
  induction items with
  | nil => rfl
  | cons item items ih => rw [fillItems, ih, List.map_cons]

/-- In a string at whose turns each placeholder starts only at its places, the loop fills the
placeholders. -/
theorem substituteText_eq_fillString {order : List (String × Json)}
    (horder : order.Perm values.entries) {text : String}
    (hturns : Interpolated values text → ∀ front name value, Turn values front name value →
      StartsOnlyAtHoles (placeholder name.toList)
        (tokensOf (textOf crates front) name.toList (cutNames values.keys text.toList))) :
    substituteText { crates with listEntries := fun _ ↦ order } values.entries text =
      fillString crates values text := by
  rw [substituteText_eq]
  by_cases hwhole : Interpolated values text
  · have hnone : ((wholePlaceholder text.toList).bind fun name ↦
        values.entries.lookup name) = none := by
      by_contra hsome
      obtain ⟨value, hvalue⟩ := Option.ne_none_iff_exists'.mp hsome
      obtain ⟨name, hcut, -⟩ := (wholePlaceholder_eq_some_iff values).mp hvalue
      exact hwhole name hcut
    have htexts : textOf crates order = textOf crates values.entries := by
      funext name
      rw [textOf, textOf, lookup_eq_of_perm horder values.nodup]
    have hreplaced : replaceEntries crates order text.toList =
        renderPieces (textOf crates order) (cutNames values.keys text.toList) := by
      apply replaceEntries_eq_render ((horder.map Prod.fst).nodup_iff.mpr values.nodup)
      intro front name value back hsplit
      exact hturns hwhole front name value ⟨back, hsplit ▸ horder⟩
    have hfill : fillString crates values text = .string (fillText crates values text) := by
      unfold fillString
      split
      · exact absurd ‹_› (hwhole _)
      · rfl
    rw [hnone, hfill, fillText, ← htexts, ← hreplaced]
    rfl
  · simp only [Interpolated, not_forall, not_not] at hwhole
    obtain ⟨name, hcut⟩ := hwhole
    have hmem : String.ofList name ∈ values.keys :=
      mem_names_of_hole (hcut ▸ List.mem_singleton_self (Piece.hole name))
    obtain ⟨value, hvalue⟩ := exists_lookup_of_mem hmem
    have hwhole := (wholePlaceholder_eq_some_iff values).mpr ⟨name, hcut, hvalue⟩
    rw [hwhole, fillString, hcut]
    exact (congrArg (Option.getD · (Json.string text)) hvalue).symm

/-- What the condition gives for every order. -/
theorem NothingCaptured.substituteMql_eq {pattern : Json}
    (h : NothingCaptured crates values pattern) {order : List (String × Json)}
    (horder : order.Perm values.entries) :
    substituteMql { crates with listEntries := fun _ ↦ order } values.entries pattern =
      fillMql crates values pattern := by
  induction pattern using Json.induction with
  | null | bool | number => rfl
  | string text =>
    rw [substituteMql, fillMql]
    exact substituteText_eq_fillString horder (h.texts text .string)
  | array items ih =>
    rw [substituteMql, fillMql, substituteItems_eq_map, fillItems_eq_map]
    congr 1
    apply List.map_congr_left
    intro item hitem
    apply ih item hitem
    exact ⟨fun key hkey ↦ h.keys key (.item hitem hkey),
      fun text htext ↦ h.texts text (.item hitem htext)⟩
  | object members ih =>
    rw [substituteMql, fillMql, substituteMembers_eq_map, fillMembers_eq_map]
    congr 1
    apply List.map_congr_left
    intro member hmember
    rw [h.keys member.1 (.here hmember), ih member hmember]
    exact ⟨fun key hkey ↦ h.keys key (.member hmember hkey),
      fun text htext ↦ h.texts text (.member hmember htext)⟩

/-- The names of members are left as they are. -/
theorem fillText_key {other : Crates Regex} {entries : List (String × Json)} {pattern : Json}
    {key : String} (hkey : HasKey key pattern)
    (h : substituteMql other entries pattern = fillMql crates values pattern) :
    fillText crates values key = key := by
  induction hkey with
  | here hmember =>
    rw [substituteMql, fillMql, substituteMembers_eq_map, fillMembers_eq_map] at h
    have hsame := List.map_inj_left.mp (Json.object.inj h) _ hmember
    exact (congrArg Prod.fst hsame).symm
  | item hitem _ ih =>
    rw [substituteMql, fillMql, substituteItems_eq_map, fillItems_eq_map] at h
    exact ih (List.map_inj_left.mp (Json.array.inj h) _ hitem)
  | member hmember _ ih =>
    rw [substituteMql, fillMql, substituteMembers_eq_map, fillMembers_eq_map] at h
    have hsame := List.map_inj_left.mp (Json.object.inj h) _ hmember
    exact ih (congrArg Prod.snd hsame)

/-- Every order of the parameters replaces the placeholders of the query and nothing else if and
only if the names of its members stay as they are and at every turn a placeholder starts only at
its places. -/
theorem captureSafe_iff {Regex : Type} (crates : Crates Regex) (values : ParameterValues)
    (pattern : Json) :
    CaptureSafe crates values pattern ↔ NothingCaptured crates values pattern := by
  constructor
  · intro h
    refine ⟨fun key hkey ↦ ?_, fun text htext hloop front name value hturn ↦ ?_⟩
    · exact fillText_key hkey (h.result values.entries (List.Perm.refl _))
    · have hreplaced := h.replaced text htext hloop front name value hturn
      apply (scan_fill_iff (placeholder_ne_nil name.toList)).mp
      rw [← hreplaced, fill_scan (placeholder_ne_nil name.toList)]
  · intro h
    refine ⟨fun order horder ↦ h.substituteMql_eq horder,
      fun text htext hloop front name value hturn ↦ ?_⟩
    obtain ⟨back, hperm⟩ := id hturn
    have hnodup : (front.map Prod.fst).Nodup := by
      have hall := (hperm.map Prod.fst).nodup_iff.mpr values.nodup
      rw [List.map_append, List.nodup_append] at hall
      exact hall.1
    have hfront : replaceEntries crates front text.toList =
        renderPieces (textOf crates front) (cutNames values.keys text.toList) := by
      apply replaceEntries_eq_render hnodup
      intro before other otherValue rest hsplit
      apply h.texts text htext hloop before other otherValue
      refine ⟨rest ++ (name, value) :: back, ?_⟩
      rw [hsplit, List.append_assoc] at hperm
      exact hperm
    rw [hfront, ← fill_placeholder_tokensOf hturn.notMem]
    exact (scan_fill_iff (placeholder_ne_nil name.toList)).mpr
      (h.texts text htext hloop front name value hturn)

end Json

/-- Two parameters, of which the first captured the placeholder of the second. -/
def capturedPlaceholder : ParameterValues :=
  capturedParameters findCrates ⟨"\x7b\x7ba\x7d\x7d and \x7b\x7bb\x7d\x7d", [], .null⟩
    [some "\x7b\x7bb\x7d\x7d", some "x"]

/-- A captured placeholder is replaced in one order and not in the other. -/
theorem not_captureSafe_capturedPlaceholder :
    ¬ CaptureSafe findCrates capturedPlaceholder
      (.string "\x7b\x7ba\x7d\x7d \x7b\x7bb\x7d\x7d") := by
  intro h
  have hfirst := h.result [("a", .string "\x7b\x7bb\x7d\x7d"), ("b", .string "x")]
    (List.Perm.swap ..)
  have hsecond := h.result [("b", .string "x"), ("a", .string "\x7b\x7bb\x7d\x7d")]
    (List.Perm.refl _)
  have hsame := hfirst.trans hsecond.symm
  have htexts : "x x" = "\x7b\x7bb\x7d\x7d x" := Json.string.inj hsame
  exact absurd htexts (by decide)

end MongoCore.Compiled
