import Mathlib.Data.List.Nodup
import MongoCore.Mcp.SessionNames

/-!
# Closed scripts

A script is closed if every function that its main function calls is defined once, no two calls are
of the same function, and the function that is called for an operation is the one generated for it.

The names of a script are those of the operations that have succeeded.  A repetition is numbered
where it is called, but not where it is defined, so a closed script has no repetitions.
-/

namespace MongoCore.Mcp.SessionScript

open MongoCore.Data MongoCore.Mcp.Codegen

section Names

variable (printing : Printing) (language : Language)

def definedNames (functions : List ScriptFunction) : List String :=
  functions.filterMap fun function ↦
    match function.success, function.code with
    | true, .function generated => some generated.name
    | _, _ => none

def calledNames (functions : List ScriptFunction) : List String :=
  (functions.filter fun function ↦ function.success).map fun function ↦
    calledName printing language function.name

/-- The code is generated from the operation, and the main function calls it by its name. -/
def OwnFunction (operation : OperationRecord) (function : ScriptFunction) : Prop :=
  ∃ generated, function.code = .function generated ∧
    generateSingleOperationCode printing language operation.toolName operation.params =
      .ok generated ∧
    generated.name = calledName printing language function.name

/-- Every called function is defined once, no function is called twice, and each operation that has
succeeded calls its own function. -/
structure Closed (operations : List OperationRecord) (functions : List ScriptFunction) : Prop where
  definedOnce : ∀ name ∈ calledNames printing language functions,
    (definedNames functions).count name = 1
  distinct : (calledNames printing language functions).Nodup
  own : List.Forall₂ (fun operation function ↦ operation.success = true →
    OwnFunction printing language operation function) operations functions

def OperationRecord.base (operation : OperationRecord) : String :=
  makeFunctionName operation.toolName operation.params

def OperationRecord.capital (operation : OperationRecord) : String :=
  capitalize printing (strParam operation.params "collection" "docs")

/-- The tools and the collections of two operations give the same name in camel case: they are
equal but for the first letter of the collection, or one tool continues the other. -/
def Clash (first second : OperationRecord) : Prop :=
  first.toolName = second.toolName ∧ first.capital printing = second.capital printing ∨
    Continued first.toolName (first.capital printing) second.toolName (second.capital printing) ∨
      Continued second.toolName (second.capital printing) first.toolName (first.capital printing)

/-- The operations whose scripts are closed.  No operation that has succeeded repeats the tool and
the collection of an earlier one, whether that has succeeded or not. -/
structure Clear (operations : List OperationRecord) : Prop where
  named : ∀ operation ∈ operations, operation.success = true →
    Named language operation.toolName operation.params
  first : operations.Pairwise fun earlier later ↦
    later.success = true → earlier.base ≠ later.base
  apart : language ≠ .python → operations.Pairwise fun earlier later ↦
    earlier.success = true → later.success = true → ¬ Clash printing earlier later

end Names

section Scripts

variable {printing : Printing} {language : Language}

theorem ownFunction_scriptFunction (laws : Printing.UppercaseLaws printing)
    (operation : OperationRecord) (count : ℕ) :
    OwnFunction printing language operation
        (scriptFunction printing language operation count) ↔
      Named language operation.toolName operation.params ∧ count ≤ 1 := by
  obtain ⟨generated, hgenerated, hname⟩ := exists_generateSingleOperationCode laws language
    operation.toolName operation.params
  have hcode : (scriptFunction printing language operation count).code = .function generated := by
    unfold scriptFunction codeOf
    rw [hgenerated]
  rw [← generatedName_eq_calledName laws, ← hname]
  constructor
  · rintro ⟨other, -, hother, hcalled⟩
    rw [hgenerated] at hother
    exact Except.ok.inj hother ▸ hcalled
  · exact fun hcalled ↦ ⟨generated, hcode, hgenerated, hcalled⟩

/-- A name has not occurred after an operation if it had not before, and the operation has
another. -/
theorem update_eq_zero {counts : String → ℕ} {base name : String} :
    Function.update counts base (counts base + 1) name = 0 ↔ base ≠ name ∧ counts name = 0 := by
  by_cases h : name = base
  · subst h
    simp
  · rw [Function.update_of_ne h]
    exact (and_iff_right (Ne.symm h)).symm

/-- The operations that have succeeded call their own functions exactly if they are named, and are
the first of their names. -/
theorem forall₂_ownFunction (laws : Printing.UppercaseLaws printing) (counts : String → ℕ)
    (operations : List OperationRecord) :
    List.Forall₂ (fun operation function ↦ operation.success = true →
        OwnFunction printing language operation function) operations
        (scriptFunctions printing language counts operations) ↔
      (∀ operation ∈ operations, operation.success = true →
        Named language operation.toolName operation.params ∧ counts operation.base = 0) ∧
        operations.Pairwise fun earlier later ↦
          later.success = true → earlier.base ≠ later.base := by
  induction operations generalizing counts with
  | nil =>
    exact iff_of_true .nil ⟨fun _ h ↦ absurd h List.not_mem_nil, .nil⟩
  | cons operation operations ih =>
    rw [scriptFunctions, List.forall₂_cons, ih, ownFunction_scriptFunction laws,
      List.forall_mem_cons, List.pairwise_cons]
    have hcount : counts operation.base + 1 ≤ 1 ↔ counts operation.base = 0 := by omega
    have hlater : (∀ later ∈ operations, later.success = true →
        Named language later.toolName later.params ∧
          Function.update counts operation.base (counts operation.base + 1) later.base = 0) ↔
        (∀ later ∈ operations, later.success = true → operation.base ≠ later.base) ∧
          ∀ later ∈ operations, later.success = true →
            Named language later.toolName later.params ∧ counts later.base = 0 := by
      simp only [update_eq_zero, ← forall_and, and_left_comm]
    exact (and_congr (imp_congr_right fun _ ↦ and_congr_right fun _ ↦ hcount)
      (and_congr_left' hlater)).trans (by tauto)

/-- What the script has for an operation is one of its functions. -/
theorem forall₂_scriptFunctions (counts : String → ℕ) (operations : List OperationRecord) :
    List.Forall₂ (fun operation function ↦ ∃ count,
        function = scriptFunction printing language operation count) operations
      (scriptFunctions printing language counts operations) := by
  induction operations generalizing counts with
  | nil => exact .nil
  | cons operation operations ih => exact .cons ⟨_, rfl⟩ (ih _)

/-- The main function calls an operation that calls its own function by the operation's name. -/
theorem calledNames_of_forall₂ {operations : List OperationRecord}
    {functions : List ScriptFunction}
    (h : List.Forall₂ (fun operation function ↦ function.success = operation.success ∧
      (operation.success = true → function.name = operation.base)) operations functions) :
    calledNames printing language functions =
      (operations.filter fun operation ↦ operation.success).map fun operation ↦
        calledName printing language operation.base := by
  induction h with
  | nil => rfl
  | @cons operation function operations functions hfirst _ ih =>
    unfold calledNames at ih ⊢
    cases hsuccess : operation.success with
    | false => rw [List.filter_cons_of_neg (by simp [hfirst.1, hsuccess]), ih,
        List.filter_cons_of_neg (by simp [hsuccess])]
    | true => rw [List.filter_cons_of_pos (by simp [hfirst.1, hsuccess]), List.map_cons, ih,
        List.filter_cons_of_pos hsuccess, List.map_cons, hfirst.2 hsuccess]

/-- The names that are called are those that are defined, if the operations call their own
functions. -/
theorem definedNames_of_forall₂ {operations : List OperationRecord}
    {functions : List ScriptFunction}
    (h : List.Forall₂ (fun operation function ↦ function.success = operation.success ∧
      (operation.success = true → OwnFunction printing language operation function))
      operations functions) :
    definedNames functions = calledNames printing language functions := by
  induction h with
  | nil => rfl
  | @cons operation function operations functions hfirst _ ih =>
    unfold definedNames calledNames at ih ⊢
    cases hsuccess : operation.success with
    | false =>
      have hfunction : function.success = false := hfirst.1.trans hsuccess
      rw [List.filter_cons_of_neg (by simp [hfunction]), List.filterMap_cons, hfunction]
      exact ih
    | true =>
      have hfunction : function.success = true := hfirst.1.trans hsuccess
      obtain ⟨generated, hcode, -, hname⟩ := hfirst.2 hsuccess
      rw [List.filter_cons_of_pos hfunction, List.filterMap_cons, hfunction, hcode,
        List.map_cons, ← hname, ← ih]

/-- The name by which a named operation is called in camel case. -/
theorem calledName_base (laws : Printing.UppercaseLaws printing) (hlanguage : language ≠ .python)
    {operation : OperationRecord}
    (h : Named language operation.toolName operation.params) :
    calledName printing language operation.base =
      joinCamel asciiPrinting operation.toolName ++ operation.capital printing := by
  have hcalled := (generatedName_eq_calledName laws language operation.toolName
    operation.params 1).mpr ⟨h, Nat.le_refl 1⟩
  have hentry := joinCamel_camelNames laws _ (h.mem_camelNames hlanguage)
  calc calledName printing language operation.base
    _ = generatedName printing language operation.toolName operation.params := hcalled.symm
    _ = joinCamel printing (stem operation.toolName) ++
          capitalize printing (namedCollection operation.toolName operation.params) := by
        rw [generatedName, if_neg hlanguage, if_pos (h.camelCase hlanguage).1]
    _ = joinCamel asciiPrinting operation.toolName ++ operation.capital printing := by
        rw [stem_of_not_mem_aliases h.tool, hentry, namedCollection_of_hasCollection h.collection]
        rfl

theorem calledName_base_eq_iff (laws : Printing.UppercaseLaws printing)
    (hlanguage : language ≠ .python) {first second : OperationRecord}
    (hfirst : Named language first.toolName first.params)
    (hsecond : Named language second.toolName second.params) :
    calledName printing language first.base = calledName printing language second.base ↔
      Clash printing first second := by
  rw [calledName_base laws hlanguage hfirst, calledName_base laws hlanguage hsecond]
  exact camelNames_append_eq (hfirst.mem_camelNames hlanguage) (hsecond.mem_camelNames hlanguage)
    (first.capital printing) (second.capital printing)

/-- The calls of operations that call their own functions are of different functions exactly if no
two names clash. -/
theorem nodup_calledNames_iff (laws : Printing.UppercaseLaws printing)
    {operations : List OperationRecord}
    (hnamed : ∀ operation ∈ operations, operation.success = true →
      Named language operation.toolName operation.params)
    (hfirst : operations.Pairwise fun earlier later ↦
      later.success = true → earlier.base ≠ later.base) :
    ((operations.filter fun operation ↦ operation.success).map fun operation ↦
        calledName printing language operation.base).Nodup ↔
      (language ≠ .python → operations.Pairwise fun earlier later ↦
        earlier.success = true → later.success = true → ¬ Clash printing earlier later) := by
  rw [List.Nodup, List.pairwise_map, List.pairwise_filter]
  by_cases hlanguage : language = .python
  case pos =>
    subst hlanguage
    exact iff_of_true (hfirst.imp fun hbase _ hlater ↦ hbase hlater) fun h ↦ absurd rfl h
  case neg =>
    rw [forall_prop_of_true hlanguage]
    apply List.Pairwise.iff_of_mem
    intro earlier later hearlier hlater
    refine imp_congr_right fun hone ↦ imp_congr_right fun htwo ↦ not_congr ?_
    exact calledName_base_eq_iff laws hlanguage (hnamed earlier hearlier hone)
      (hnamed later hlater htwo)

/-- The operations that have succeeded call their own functions. -/
def CallsOwn (printing : Printing) (language : Language) (operations : List OperationRecord) :
    Prop :=
  List.Forall₂ (fun operation function ↦ operation.success = true →
    OwnFunction printing language operation function) operations
    (sessionFunctions printing language operations)

theorem CallsOwn.forall₂ (laws : Printing.UppercaseLaws printing)
    {operations : List OperationRecord} (h : CallsOwn printing language operations) :
    List.Forall₂ (fun operation function ↦ function.success = operation.success ∧
      (operation.success = true → OwnFunction printing language operation function ∧
        function.name = operation.base)) operations
      (sessionFunctions printing language operations) := by
  refine List.Forall₂.mp ?_ (forall₂_scriptFunctions (fun _ ↦ 0) operations) h
  rintro operation _ ⟨count, rfl⟩ hown
  refine ⟨rfl, fun hsuccess ↦ ⟨hown hsuccess, numbered_eq_self.mpr ?_⟩⟩
  exact ((ownFunction_scriptFunction laws operation count).mp (hown hsuccess)).2

theorem CallsOwn.calledNames_eq (laws : Printing.UppercaseLaws printing)
    {operations : List OperationRecord} (h : CallsOwn printing language operations) :
    calledNames printing language (sessionFunctions printing language operations) =
      (operations.filter fun operation ↦ operation.success).map fun operation ↦
        calledName printing language operation.base :=
  calledNames_of_forall₂ ((h.forall₂ laws).imp fun _ _ hentry ↦
    ⟨hentry.1, fun hsuccess ↦ (hentry.2 hsuccess).2⟩)

theorem CallsOwn.definedNames_eq (laws : Printing.UppercaseLaws printing)
    {operations : List OperationRecord} (h : CallsOwn printing language operations) :
    definedNames (sessionFunctions printing language operations) =
      calledNames printing language (sessionFunctions printing language operations) :=
  definedNames_of_forall₂ ((h.forall₂ laws).imp fun _ _ hentry ↦
    ⟨hentry.1, fun hsuccess ↦ (hentry.2 hsuccess).1⟩)

/-- The script of a session is closed exactly if its names are clear. -/
theorem closed_iff_clear (laws : Printing.UppercaseLaws printing)
    (operations : List OperationRecord) :
    Closed printing language operations (sessionFunctions printing language operations) ↔
      Clear printing language operations := by
  have hcallsOwn : CallsOwn printing language operations ↔ _ :=
    forall₂_ownFunction laws (fun _ ↦ 0) operations
  constructor
  · intro hclosed
    have hown : CallsOwn printing language operations := hclosed.own
    obtain ⟨hnamed, hfirst⟩ := hcallsOwn.mp hown
    have hnames : ∀ operation ∈ operations, operation.success = true →
        Named language operation.toolName operation.params :=
      fun operation hmem hsuccess ↦ (hnamed operation hmem hsuccess).1
    have hdistinct := hclosed.distinct
    rw [hown.calledNames_eq laws] at hdistinct
    exact ⟨hnames, hfirst, (nodup_calledNames_iff laws hnames hfirst).mp hdistinct⟩
  · intro hclear
    have hown : CallsOwn printing language operations := hcallsOwn.mpr
      ⟨fun operation hmem hsuccess ↦ ⟨hclear.named operation hmem hsuccess, rfl⟩, hclear.first⟩
    have hdistinct := (nodup_calledNames_iff laws hclear.named hclear.first).mpr hclear.apart
    rw [← hown.calledNames_eq laws] at hdistinct
    refine ⟨fun name hname ↦ ?_, hdistinct, hown⟩
    rw [hown.definedNames_eq laws]
    exact List.count_eq_one_of_mem hdistinct hname

/-- An operation on the users that has succeeded or failed. -/
def onUsers (toolName : String) (success : Bool) : OperationRecord where
  toolName := toolName
  params := .object [("database", .string "mydb"), ("collection", .string "users")]
  success := success
  errorMessage := none

/-- An insertion, a find and a failed repetition of the find give a closed script. -/
theorem closed_insertMany_find :
    Closed asciiPrinting .typeScript
      [onUsers "insert_many" true, onUsers "find" true, onUsers "find" false]
      (sessionFunctions asciiPrinting .typeScript
        [onUsers "insert_many" true, onUsers "find" true, onUsers "find" false]) := by
  refine (closed_iff_clear uppercaseLaws_asciiPrinting _).mpr ⟨?_, ?_, fun _ ↦ ?_⟩
  · intro operation hoperation hsuccess
    have hcases : operation = onUsers "insert_many" true ∨ operation = onUsers "find" true ∨
        operation = onUsers "find" false := by simpa using hoperation
    rcases hcases with rfl | rfl | rfl
    · exact ⟨by decide, fun h ↦ absurd h (by decide), fun _ ↦ ⟨by decide, by decide⟩⟩
    · exact ⟨by decide, fun h ↦ absurd h (by decide), fun _ ↦ ⟨by decide, by decide⟩⟩
    · exact absurd hsuccess (by decide)
  · decide
  · have hclash : ¬ Clash asciiPrinting (onUsers "insert_many" true) (onUsers "find" true) := by
      rintro (⟨htool, -⟩ | ⟨continuation, htools, -⟩ | ⟨continuation, htools, -⟩)
      · exact absurd htool (by decide)
      · simp [continuedTools, onUsers] at htools
      · simp [continuedTools, onUsers] at htools
    simpa [onUsers] using hclash

/-- A find that is repeated is called by its number, but defined without it. -/
theorem not_closed_find_twice :
    ¬ ∀ (printing : Printing) (language : Language) (operations : List OperationRecord),
      Printing.UppercaseLaws printing →
        Closed printing language operations (sessionFunctions printing language operations) := by
  intro h
  have hclosed := h asciiPrinting .python [onUsers "find" true, onUsers "find" true]
    uppercaseLaws_asciiPrinting
  have hcount := hclosed.definedOnce "find_users" (by decide)
  exact absurd hcount (by decide)

end Scripts

end MongoCore.Mcp.SessionScript
