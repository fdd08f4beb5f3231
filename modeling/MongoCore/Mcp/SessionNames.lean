import Mathlib.Data.List.Forall2
import MongoCore.Mcp.SessionScript

/-!
# Names in the script of a session

The names that the generators give to functions, and those by which the main function calls them.
A generator joins a tool, without `_one` for insertions, updates and deletions of one document, and
a collection.  The main function splits the name at every underscore, so it also takes the
collection and the number of a repetition apart.
-/

namespace MongoCore.Mcp.SessionScript

open MongoCore.Data MongoCore.Mcp.Codegen

/-- The laws of uppercase that names depend on: it is the usual one for ASCII, and nothing else
becomes an underscore. -/
structure Printing.UppercaseLaws (printing : Printing) : Prop where
  ascii : ∀ c : Char, c.toNat < 128 → printing.toUppercase c = [c.toUpper]
  underscore : ∀ c, '_' ∈ printing.toUppercase c → c = '_'

/-! ## Names in camel case -/

section CamelCase

variable (printing : Printing)

/-- Capitalize the first character. -/
def capitalizeChars : List Char → List Char
  | [] => []
  | c :: rest => printing.toUppercase c ++ rest

def capitalizeParts (text : List Char) : List Char :=
  (text.splitOn '_').flatMap (capitalizeChars printing)

theorem toList_capitalize (text : String) :
    (capitalize printing text).toList = capitalizeChars printing text.toList := by
  unfold capitalize
  cases text.toList with
  | nil => rfl
  | cons c rest => exact String.toList_ofList

/-- A text is its first part and the others. -/
theorem toList_joinCamel (name : String) : (joinCamel printing name).toList =
    (name.toList.splitOn '_').headD [] ++
      ((name.toList.splitOn '_').drop 1).flatMap (capitalizeChars printing) := by
  have hcapital : ∀ part : List Char,
      (capitalize printing (String.ofList part)).toList = capitalizeChars printing part :=
    fun part ↦ by rw [toList_capitalize, String.toList_ofList]
  unfold joinCamel
  dsimp only
  split
  case isTrue hshort =>
    have hsplit : ['_'].intercalate (name.toList.splitOn '_') = name.toList :=
      List.intercalate_splitOn '_'
    generalize name.toList.splitOn '_' = parts at hshort hsplit ⊢
    match parts with
    | [] => exact hsplit.symm
    | [part] => simpa using hsplit.symm
    | _ :: _ :: _ => simp at hshort
  case isFalse => simp only [String.toList_ofList, hcapital]

/-- What follows an underscore is capitalized. -/
theorem toList_joinCamel_append (front back : String) :
    (joinCamel printing (front ++ "_" ++ back)).toList =
      (joinCamel printing front).toList ++ capitalizeParts printing back.toList := by
  have hsplit : ((front ++ "_" ++ back).toList.splitOn '_') =
      front.toList.splitOn '_' ++ back.toList.splitOn '_' := by
    rw [String.toList_append, String.toList_append, List.append_assoc]
    exact List.splitOn_append_cons_self front.toList back.toList
  rw [toList_joinCamel, toList_joinCamel, hsplit, capitalizeParts]
  have hfront := List.splitOn_ne_nil '_' front.toList
  generalize front.toList.splitOn '_' = parts at hfront ⊢
  cases parts with
  | nil => exact absurd rfl hfront
  | cons part parts => simp

theorem capitalizeParts_of_not_mem {text : List Char} (h : '_' ∉ text) :
    capitalizeParts printing text = capitalizeChars printing text := by
  rw [capitalizeParts, List.splitOn_eq_singleton h, List.flatMap_singleton]

/-- The parts of a text have its characters, but no underscore. -/
theorem mem_of_mem_splitOn {text part : List Char} (h : part ∈ text.splitOn '_') {c : Char}
    (hc : c ∈ part) : c ∈ text ∧ c ≠ '_' := by
  induction text generalizing part with
  | nil =>
    rw [List.splitOn_nil, List.mem_singleton] at h
    exact absurd (h ▸ hc) List.not_mem_nil
  | cons d text ih =>
    rw [List.splitOn_cons_eq_if_modifyHead] at h
    split at h
    case isTrue =>
      rcases List.mem_cons.mp h with rfl | h
      · exact absurd hc List.not_mem_nil
      · exact (ih h hc).imp_left (List.mem_cons_of_mem d)
    case isFalse hd =>
      cases hparts : text.splitOn '_' with
      | nil => exact absurd hparts (List.splitOn_ne_nil '_' text)
      | cons head parts =>
        rw [hparts, List.modifyHead_cons] at h
        rcases List.mem_cons.mp h with rfl | h
        · rcases List.mem_cons.mp hc with rfl | hc
          · exact ⟨List.mem_cons_self, by simpa using hd⟩
          · exact (ih (hparts ▸ List.mem_cons_self) hc).imp_left (List.mem_cons_of_mem d)
        · exact (ih (hparts ▸ List.mem_cons_of_mem head h) hc).imp_left (List.mem_cons_of_mem d)

variable {printing}

theorem underscore_mem_capitalizeChars (laws : Printing.UppercaseLaws printing)
    {text : List Char} : '_' ∈ capitalizeChars printing text ↔ '_' ∈ text := by
  cases text with
  | nil => rfl
  | cons c rest =>
    have hunderscore : printing.toUppercase '_' = ['_'] := laws.ascii '_' (by decide)
    rw [capitalizeChars, List.mem_append, List.mem_cons]
    refine or_congr_left ⟨fun h ↦ (laws.underscore c h).symm, fun h ↦ ?_⟩
    rw [← h, hunderscore]
    exact List.mem_singleton_self '_'

/-- No name in camel case has an underscore. -/
theorem underscore_not_mem_joinCamel (laws : Printing.UppercaseLaws printing) (name : String) :
    '_' ∉ (joinCamel printing name).toList := by
  rw [toList_joinCamel]
  have hparts : ∀ part ∈ name.toList.splitOn '_', '_' ∉ part :=
    fun part hpart hmem ↦ (mem_of_mem_splitOn hpart hmem).2 rfl
  generalize name.toList.splitOn '_' = parts at hparts ⊢
  cases parts with
  | nil => exact List.not_mem_nil
  | cons head parts =>
    intro h
    rcases List.mem_append.mp h with h | h
    · exact hparts head List.mem_cons_self h
    · obtain ⟨part, hpart, hmem⟩ := List.mem_flatMap.mp h
      exact hparts part (List.mem_cons_of_mem head hpart)
        ((underscore_mem_capitalizeChars laws).mp hmem)

def asciiPrinting : Printing where
  pretty _ := "\x7b\x7d"
  compact _ := "\x7b\x7d"
  toUppercase c := [c.toUpper]

theorem uppercaseLaws_asciiPrinting : Printing.UppercaseLaws asciiPrinting where
  ascii _ _ := rfl
  underscore c h := by
    have hupper : '_' = c.toUpper := List.mem_singleton.mp h
    unfold Char.toUpper at hupper
    split at hupper
    case isTrue hlower =>
      have hval := UInt32.eq_sub_iff_add_eq.mpr (congrArg Char.val hupper).symm
      have hle := hlower.2
      rw [hval] at hle
      exact absurd hle (by decide)
    case isFalse => exact hupper.symm

def isAscii (name : String) : Bool := name.toList.all fun c ↦ c.toNat < 128

/-- The camel case of an ASCII name is that of ASCII. -/
theorem joinCamel_of_ascii (laws : Printing.UppercaseLaws printing) {name : String}
    (h : isAscii name = true) :
    joinCamel printing name = joinCamel asciiPrinting name := by
  apply String.toList_inj.mp
  rw [toList_joinCamel, toList_joinCamel]
  congr 1
  apply List.flatMap_congr
  intro part hpart
  cases part with
  | nil => rfl
  | cons c rest =>
    have hc : c ∈ name.toList :=
      (mem_of_mem_splitOn (List.mem_of_mem_drop hpart) List.mem_cons_self).1
    have hascii : c.toNat < 128 := of_decide_eq_true (List.all_eq_true.mp h c hc)
    rw [capitalizeChars, capitalizeChars, laws.ascii c hascii]
    rfl

end CamelCase

/-! ## Names of the generated functions -/

section Generated

variable (printing : Printing)

/-- The name of a tool in the functions that are generated for it. -/
def stem (toolName : String) : String :=
  match toolName with
  | "insert_one" => "insert"
  | "update_one" => "update"
  | "delete_one" => "delete"
  | _ => toolName

def namedCollection (toolName : String) (params : Json) : String :=
  strParam params "collection" (if toolName ∈ searchTools then "unknown" else "docs")

/-- The generators of the language name the tool's functions in camel case. -/
def InCamelCase (language : Language) (toolName : String) : Prop :=
  toolName ∈ crudTools ∨ toolName ∈ ingestTools ∨ language = .java ∧ toolName ∈ searchTools

instance (language : Language) (toolName : String) : Decidable (InCamelCase language toolName) :=
  inferInstanceAs (Decidable (_ ∨ _ ∨ _ ∧ _))

/-- The tools of which functions are named in camel case, and their names there. -/
def camelNames : List (String × String) :=
  [("find", "find"), ("find_one", "findOne"), ("insert", "insert"),
    ("insert_many", "insertMany"), ("update", "update"), ("update_many", "updateMany"),
    ("delete", "delete"), ("delete_many", "deleteMany"), ("ingest", "ingest"),
    ("watch_directory", "watchDirectory"), ("embed_and_store", "embedAndStore"),
    ("semantic_search", "semanticSearch")]

/-- The name of a function that is generated from the parameters. -/
def generatedName (language : Language) (toolName : String) (params : Json) : String :=
  let coll := namedCollection toolName params
  if language = .python then stem toolName ++ "_" ++ coll
  else if InCamelCase language toolName then
    joinCamel printing (stem toolName) ++ capitalize printing coll
  else (if toolName ∈ searchTools then joinCamel printing toolName else toolName) ++ "_" ++ coll

variable {printing}

theorem joinCamel_camelNames (laws : Printing.UppercaseLaws printing) :
    ∀ entry ∈ camelNames, joinCamel printing entry.1 = entry.2 := by
  have hascii : ∀ entry ∈ camelNames, isAscii entry.1 = true ∧
      joinCamel asciiPrinting entry.1 = entry.2 := by decide
  intro entry hentry
  rw [joinCamel_of_ascii laws (hascii entry hentry).1, (hascii entry hentry).2]

theorem stem_of_not_mem {toolName : String} (h : toolName ∉ crudTools) :
    stem toolName = toolName := by
  unfold stem
  split
  case h_4 => rfl
  all_goals exact absurd (by decide) h

/-- The tools that are not passed through have a name in camel case. -/
theorem stem_mem_camelNames {toolName : String}
    (h : toolName ∈ crudTools ++ ingestTools ++ searchTools) :
    (stem toolName, joinCamel asciiPrinting (stem toolName)) ∈ camelNames :=
  (by decide : ∀ tool ∈ crudTools ++ ingestTools ++ searchTools,
    (stem tool, joinCamel asciiPrinting (stem tool)) ∈ camelNames) toolName h

theorem generatedName_of_mem (laws : Printing.UppercaseLaws printing)
    (language : Language) {toolName : String} (params : Json)
    (h : toolName ∈ crudTools ++ ingestTools) :
    generatedName printing language toolName params =
      if language = .python then stem toolName ++ "_" ++ namedCollection toolName params
      else joinCamel asciiPrinting (stem toolName) ++
        capitalize printing (namedCollection toolName params) := by
  have hcase : InCamelCase language toolName := (List.mem_append.mp h).imp_right .inl
  have hcamel := stem_mem_camelNames (List.mem_append_left searchTools h)
  unfold generatedName
  dsimp only
  rw [if_pos hcase, joinCamel_camelNames laws _ hcamel]

theorem exists_generateCrudCode (laws : Printing.UppercaseLaws printing) (language : Language)
    {toolName : String} (params : Json) (h : toolName ∈ crudTools) :
    ∃ generated, generateCrudCode printing language toolName params = .ok generated ∧
      generated.name = generatedName printing language toolName params := by
  rw [generatedName_of_mem laws language params (List.mem_append_left ingestTools h)]
  simp only [crudTools, List.mem_cons, List.not_mem_nil, or_false] at h
  rcases h with rfl | rfl | rfl | rfl | rfl | rfl | rfl | rfl | rfl | rfl | rfl <;>
    exact ⟨_, rfl, by cases language <;> rfl⟩

theorem exists_generateIngestCode (laws : Printing.UppercaseLaws printing) (language : Language)
    {toolName : String} (params : Json) (h : toolName ∈ ingestTools) :
    ∃ generated, generateIngestCode printing language toolName params = .ok generated ∧
      generated.name = generatedName printing language toolName params := by
  rw [generatedName_of_mem laws language params (List.mem_append_right crudTools h)]
  simp only [ingestTools, List.mem_cons, List.not_mem_nil, or_false] at h
  rcases h with rfl | rfl <;> exact ⟨_, rfl, by cases language <;> rfl⟩

/-- The searches are named as ingestions are in Java, and with an underscore in TypeScript and
Go. -/
theorem generatedName_of_mem_searchTools (laws : Printing.UppercaseLaws printing)
    (language : Language) {toolName : String} (params : Json) (h : toolName ∈ searchTools) :
    generatedName printing language toolName params =
      match language with
      | .python => toolName ++ "_" ++ namedCollection toolName params
      | .typeScript | .go =>
          joinCamel asciiPrinting toolName ++ "_" ++ namedCollection toolName params
      | .java => joinCamel asciiPrinting toolName ++
          capitalize printing (namedCollection toolName params) := by
  have hfacts : isAscii toolName = true ∧ stem toolName = toolName ∧
      ¬ InCamelCase .typeScript toolName ∧ ¬ InCamelCase .go toolName :=
    (by decide : ∀ tool ∈ searchTools, isAscii tool = true ∧ stem tool = tool ∧
      ¬ InCamelCase .typeScript tool ∧ ¬ InCamelCase .go tool) toolName h
  obtain ⟨hascii, hstem, htypeScript, hgo⟩ := hfacts
  have hjava : InCamelCase .java toolName := .inr (.inr ⟨rfl, h⟩)
  have hcamel := joinCamel_of_ascii laws hascii
  unfold generatedName
  cases language with
  | python => rw [if_pos rfl, hstem]
  | typeScript => rw [if_neg nofun, if_neg htypeScript, if_pos h, hcamel]
  | go => rw [if_neg nofun, if_neg hgo, if_pos h, hcamel]
  | java => rw [if_neg nofun, if_pos hjava, hstem, hcamel]

theorem exists_generateSearchCode (laws : Printing.UppercaseLaws printing) (language : Language)
    {toolName : String} (params : Json) (h : toolName ∈ searchTools) :
    ∃ generated, generateSearchCode printing language toolName params = .ok generated ∧
      generated.name = generatedName printing language toolName params := by
  rw [generatedName_of_mem_searchTools laws language params h]
  simp only [searchTools, List.mem_cons, List.not_mem_nil, or_false] at h
  rcases h with rfl | rfl <;> exact ⟨_, rfl, by cases language <;> rfl⟩

/-- A function is generated for every operation. -/
theorem exists_generateSingleOperationCode (laws : Printing.UppercaseLaws printing)
    (language : Language) (toolName : String) (params : Json) :
    ∃ generated, generateSingleOperationCode printing language toolName params = .ok generated ∧
      generated.name = generatedName printing language toolName params := by
  unfold generateSingleOperationCode
  split
  case isTrue h => exact exists_generateCrudCode laws language params h
  case isFalse hcrud =>
    split
    case isTrue h => exact exists_generateIngestCode laws language params h
    case isFalse hingest =>
      split
      case isTrue h => exact exists_generateSearchCode laws language params h
      case isFalse hsearch =>
        have hcase : ¬ InCamelCase language toolName := by
          rintro (h | h | ⟨-, h⟩)
          · exact hcrud h
          · exact hingest h
          · exact hsearch h
        refine ⟨_, rfl, ?_⟩
        unfold generatedName namedCollection
        dsimp only
        rw [stem_of_not_mem hcrud, if_neg hsearch, if_neg hcase, if_neg hsearch, ite_self]
        cases language <;> rfl

end Generated

/-! ## When a function is called by its name -/

def repetitionMark (count : ℕ) : String := if count > 1 then "_" ++ toString count else ""

theorem numbered_eq_append (base : String) (count : ℕ) :
    numbered base count = base ++ repetitionMark count := by
  unfold numbered repetitionMark
  split
  · exact String.append_assoc
  · exact String.append_empty.symm

theorem repetitionMark_eq_empty {count : ℕ} : repetitionMark count = "" ↔ count ≤ 1 := by
  unfold repetitionMark
  split
  case isTrue h =>
    refine ⟨fun heq ↦ ?_, fun hle ↦ absurd hle (by omega)⟩
    have hlength := congrArg (fun text : String ↦ text.toList.length) heq
    simp at hlength
  case isFalse h => exact ⟨fun _ ↦ by omega, fun _ ↦ rfl⟩

theorem numbered_eq_self {base : String} {count : ℕ} : numbered base count = base ↔ count ≤ 1 := by
  rw [numbered_eq_append, ← repetitionMark_eq_empty]
  exact String.append_eq_left_iff

theorem toList_toString (count : ℕ) : (toString count).toList = Nat.toDigits 10 count := by
  simp [Nat.repr]

/-- A number stays a part of a name. -/
theorem capitalizeParts_toDigits_ne_nil {printing : Printing}
    (laws : Printing.UppercaseLaws printing) (count : ℕ) :
    capitalizeParts printing (Nat.toDigits 10 count) ≠ [] := by
  rw [capitalizeParts_of_not_mem printing Nat.underscore_not_in_toDigits]
  cases hdigits : Nat.toDigits 10 count with
  | nil => exact absurd hdigits Nat.toDigits_ne_nil
  | cons digit digits =>
    have hdigit : digit.isDigit = true :=
      Nat.isDigit_of_mem_toDigits (by decide) (by decide) (hdigits ▸ List.mem_cons_self)
    have hascii : digit.toNat < 128 := by
      simp only [Char.isDigit, Bool.and_eq_true, decide_eq_true_eq] at hdigit
      exact Nat.lt_of_le_of_lt (UInt32.le_iff_toNat_le.mp hdigit.2) (by decide)
    rw [capitalizeChars, laws.ascii digit hascii]
    exact List.cons_ne_nil _ _

def aliases : List String := ["insert_one", "update_one", "delete_one"]

theorem stem_of_not_mem_aliases {toolName : String} (h : toolName ∉ aliases) :
    stem toolName = toolName := by
  unfold stem
  split
  case h_4 => rfl
  all_goals exact absurd (by decide) h

def HasCollection (params : Json) : Prop :=
  ((params.get? "collection").bind Json.asStr?).isSome = true

/-- The functions of the tool are named as they are called, if the tool is used for the first
time. -/
structure Named (language : Language) (toolName : String) (params : Json) : Prop where
  tool : toolName ∉ aliases
  collection : toolName ∈ searchTools → HasCollection params
  camelCase : language ≠ .python → InCamelCase language toolName ∧
    '_' ∉ (strParam params "collection" "docs").toList

theorem namedCollection_of_hasCollection {toolName : String} {params : Json}
    (h : toolName ∈ searchTools → HasCollection params) :
    namedCollection toolName params = strParam params "collection" "docs" := by
  unfold namedCollection
  split
  case isTrue hsearch =>
    obtain ⟨coll, hcoll⟩ := Option.isSome_iff_exists.mp (h hsearch)
    rw [strParam, strParam, hcoll]
    rfl
  case isFalse => rfl

theorem strParam_of_not_hasCollection {params : Json} (h : ¬ HasCollection params)
    (fallback : String) : strParam params "collection" fallback = fallback := by
  unfold strParam
  rw [Option.not_isSome_iff_eq_none.mp h]
  rfl

theorem generatedName_python (printing : Printing) (toolName : String) (params : Json) (count : ℕ) :
    generatedName printing .python toolName params =
        calledName printing .python (numbered (makeFunctionName toolName params) count) ↔
      Named .python toolName params ∧ count ≤ 1 := by
  have hcalled : calledName printing .python (numbered (makeFunctionName toolName params) count) =
      toolName ++ "_" ++ (strParam params "collection" "docs" ++ repetitionMark count) := by
    unfold calledName
    rw [numbered_eq_append]
    exact String.append_assoc
  have hname : generatedName printing .python toolName params =
      stem toolName ++ "_" ++ namedCollection toolName params := rfl
  rw [hcalled, hname]
  by_cases halias : toolName ∈ aliases
  case pos =>
    have hlonger : stem toolName ++ "_one" = toolName ∧ toolName ∉ searchTools :=
      (by decide : ∀ tool ∈ aliases, stem tool ++ "_one" = tool ∧ tool ∉ searchTools)
        toolName halias
    have hcollection : namedCollection toolName params = strParam params "collection" "docs" :=
      namedCollection_of_hasCollection fun h ↦ absurd h hlonger.2
    refine iff_of_false (fun heq ↦ ?_) fun h ↦ h.1.tool halias
    rw [hcollection] at heq
    have hlength := congrArg String.length heq
    have htool := congrArg String.length hlonger.1
    have hone : "_one".length = 4 := rfl
    simp only [String.length_append] at hlength htool
    omega
  case neg =>
    rw [stem_of_not_mem_aliases halias, String.append_right_inj]
    by_cases hgiven : toolName ∈ searchTools → HasCollection params
    case pos =>
      rw [namedCollection_of_hasCollection hgiven, eq_comm, String.append_eq_left_iff,
        repetitionMark_eq_empty]
      exact ⟨fun h ↦ ⟨⟨halias, hgiven, fun hother ↦ absurd rfl hother⟩, h⟩, And.right⟩
    case neg =>
      refine iff_of_false (fun heq ↦ ?_) fun h ↦ hgiven h.1.collection
      obtain ⟨hsearch, hmissing⟩ := Classical.not_imp.mp hgiven
      rw [namedCollection, if_pos hsearch, strParam_of_not_hasCollection hmissing,
        strParam_of_not_hasCollection hmissing] at heq
      have hhead := congrArg (fun text : String ↦ text.toList.head?) heq
      simp at hhead

/-- A repeated name in camel case. -/
theorem toList_joinCamel_numbered (printing : Printing) (toolName coll : String) (count : ℕ) :
    (joinCamel printing (numbered (toolName ++ "_" ++ coll) count)).toList =
      (joinCamel printing toolName).toList ++ (capitalizeParts printing coll.toList ++
        if count > 1 then capitalizeParts printing (Nat.toDigits 10 count) else []) := by
  rw [numbered_eq_append]
  unfold repetitionMark
  split
  case isTrue =>
    rw [← String.append_assoc, toList_joinCamel_append, toList_joinCamel_append, toList_toString,
      List.append_assoc]
  case isFalse => rw [String.append_empty, toList_joinCamel_append, List.append_nil]

theorem length_joinCamel_stem_lt {printing : Printing} (laws : Printing.UppercaseLaws printing)
    {toolName : String} (h : toolName ∈ aliases) :
    (joinCamel printing (stem toolName)).toList.length <
      (joinCamel printing toolName).toList.length := by
  have hfacts : isAscii toolName = true ∧ isAscii (stem toolName) = true ∧
      (joinCamel asciiPrinting (stem toolName)).toList.length <
        (joinCamel asciiPrinting toolName).toList.length :=
    (by decide : ∀ tool ∈ aliases, isAscii tool = true ∧ isAscii (stem tool) = true ∧
      (joinCamel asciiPrinting (stem tool)).toList.length <
        (joinCamel asciiPrinting tool).toList.length) toolName h
  obtain ⟨htool, hstem, hlength⟩ := hfacts
  rw [joinCamel_of_ascii laws htool, joinCamel_of_ascii laws hstem]
  exact hlength

theorem generatedName_camelCase {printing : Printing} (laws : Printing.UppercaseLaws printing)
    (language : Language) (hlanguage : language ≠ .python) (toolName : String) (params : Json)
    (count : ℕ) :
    generatedName printing language toolName params =
        joinCamel printing (numbered (makeFunctionName toolName params) count) ↔
      Named language toolName params ∧ count ≤ 1 := by
  have hunderscore : '_' ∈ (generatedName printing language toolName params).toList →
      generatedName printing language toolName params ≠
        joinCamel printing (numbered (makeFunctionName toolName params) count) :=
    fun hmem heq ↦ underscore_not_mem_joinCamel laws _ (heq ▸ hmem)
  by_cases hcase : InCamelCase language toolName
  case neg =>
    refine iff_of_false (hunderscore ?_) fun h ↦ hcase (h.1.camelCase hlanguage).1
    rw [generatedName, if_neg hlanguage, if_neg hcase, String.toList_append, String.toList_append]
    exact List.mem_append_left _ (List.mem_append_right _ (List.mem_singleton_self '_'))
  case pos =>
    have hname : (generatedName printing language toolName params).toList =
        (joinCamel printing (stem toolName)).toList ++
          capitalizeChars printing (namedCollection toolName params).toList := by
      rw [generatedName, if_neg hlanguage, if_pos hcase, String.toList_append, toList_capitalize]
    by_cases hmem : '_' ∈ (namedCollection toolName params).toList
    case pos =>
      refine iff_of_false (hunderscore ?_) fun h ↦ (h.1.camelCase hlanguage).2 ?_
      · rw [hname]
        exact List.mem_append_right _ ((underscore_mem_capitalizeChars laws).mpr hmem)
      · exact namedCollection_of_hasCollection h.1.collection ▸ hmem
    case neg =>
      have hcalled :
          (joinCamel printing (numbered (makeFunctionName toolName params) count)).toList =
            (joinCamel printing toolName).toList ++
              (capitalizeParts printing (strParam params "collection" "docs").toList ++
                if count > 1 then capitalizeParts printing (Nat.toDigits 10 count) else []) :=
        toList_joinCamel_numbered printing toolName (strParam params "collection" "docs") count
      rw [← String.toList_inj, hname, hcalled]
      by_cases hgiven : toolName ∈ searchTools → HasCollection params
      case pos =>
        rw [namedCollection_of_hasCollection hgiven] at hmem ⊢
        rw [capitalizeParts_of_not_mem printing hmem]
        by_cases halias : toolName ∈ aliases
        case pos =>
          refine iff_of_false (fun heq ↦ ?_) fun h ↦ h.1.tool halias
          have hlength := congrArg List.length heq
          have hlonger := length_joinCamel_stem_lt laws halias
          simp only [List.length_append] at hlength
          omega
        case neg =>
          have hnamed : Named language toolName params :=
            ⟨halias, hgiven, fun _ ↦ ⟨hcase, hmem⟩⟩
          rw [stem_of_not_mem_aliases halias, List.append_cancel_left_eq,
            List.self_eq_append_right, and_iff_right hnamed]
          split
          case isTrue h =>
            exact iff_of_false (capitalizeParts_toDigits_ne_nil laws count) (by omega)
          case isFalse h => exact iff_of_true rfl (by omega)
      case neg =>
        refine iff_of_false (fun heq ↦ ?_) fun h ↦ hgiven h.1.collection
        obtain ⟨hsearch, hmissing⟩ := Classical.not_imp.mp hgiven
        have halias : toolName ∉ aliases :=
          (by decide : ∀ tool ∈ searchTools, tool ∉ aliases) toolName hsearch
        rw [namedCollection, if_pos hsearch, strParam_of_not_hasCollection hmissing,
          strParam_of_not_hasCollection hmissing, stem_of_not_mem_aliases halias,
          List.append_cancel_left_eq] at heq
        have hu : printing.toUppercase 'u' = ['U'] := laws.ascii 'u' (by decide)
        have hd : printing.toUppercase 'd' = ['D'] := laws.ascii 'd' (by decide)
        have hhead := congrArg List.head? heq
        have hdocs : '_' ∉ "docs".toList := by decide
        rw [capitalizeParts_of_not_mem printing hdocs] at hhead
        simp [capitalizeChars, hu, hd] at hhead

/-- The function of an operation is called by its name exactly if the operation is named, and it is
the first of its name. -/
theorem generatedName_eq_calledName {printing : Printing}
    (laws : Printing.UppercaseLaws printing) (language : Language) (toolName : String)
    (params : Json) (count : ℕ) :
    generatedName printing language toolName params =
        calledName printing language (numbered (makeFunctionName toolName params) count) ↔
      Named language toolName params ∧ count ≤ 1 := by
  cases language with
  | python => exact generatedName_python printing toolName params count
  | typeScript => exact generatedName_camelCase laws .typeScript nofun toolName params count
  | go => exact generatedName_camelCase laws .go nofun toolName params count
  | java => exact generatedName_camelCase laws .java nofun toolName params count

/-! ## Names of two operations -/

/-- Tools of which the second has a name that continues that of the first, in camel case. -/
def continuedTools : List (String × String × String) :=
  [("find", "find_one", "One"), ("insert", "insert_many", "Many"),
    ("update", "update_many", "Many"), ("delete", "delete_many", "Many")]

/-- A tool and a collection give the same name as a longer tool and the rest of the collection. -/
def Continued (toolName coll longer rest : String) : Prop :=
  ∃ continuation, (toolName, longer, continuation) ∈ continuedTools ∧ coll = continuation ++ rest

theorem eq_or_continued {first second : String × String} (hfirst : first ∈ camelNames)
    (hsecond : second ∈ camelNames) {a b : String} (h : first.2 ++ a = second.2 ++ b)
    (hstart : first.2.toList <+: second.2.toList) :
    first.1 = second.1 ∧ a = b ∨ Continued first.1 a second.1 b := by
  have htools : ∀ entry ∈ camelNames, ∀ other ∈ camelNames,
      entry.2.toList <+: other.2.toList → entry = other ∨ ∃ tools ∈ continuedTools,
        tools.1 = entry.1 ∧ tools.2.1 = other.1 ∧ entry.2 ++ tools.2.2 = other.2 := by decide
  rcases htools first hfirst second hsecond hstart with rfl | ⟨tools, hmem, hone, htwo, hthree⟩
  · exact .inl ⟨rfl, (String.append_right_inj first.2).mp h⟩
  · refine .inr ⟨tools.2.2, hone ▸ htwo ▸ hmem, ?_⟩
    rw [← hthree, String.append_assoc] at h
    exact (String.append_right_inj first.2).mp h

theorem Continued.append_eq {first second : String × String} (hfirst : first ∈ camelNames)
    (hsecond : second ∈ camelNames) {a b : String} (h : Continued first.1 a second.1 b) :
    first.2 ++ a = second.2 ++ b := by
  have htools : ∀ tools ∈ continuedTools, ∀ entry ∈ camelNames, ∀ other ∈ camelNames,
      tools.1 = entry.1 → tools.2.1 = other.1 → entry.2 ++ tools.2.2 = other.2 := by decide
  obtain ⟨continuation, hmem, rfl⟩ := h
  rw [← String.append_assoc, htools _ hmem first hfirst second hsecond rfl rfl]

/-- Names in camel case differ unless one continues the other. -/
theorem camelNames_append_eq {first second : String × String} (hfirst : first ∈ camelNames)
    (hsecond : second ∈ camelNames) (a b : String) : first.2 ++ a = second.2 ++ b ↔
      first.1 = second.1 ∧ a = b ∨ Continued first.1 a second.1 b ∨
        Continued second.1 b first.1 a := by
  constructor
  · intro h
    have hlists : first.2.toList ++ a.toList = second.2.toList ++ b.toList := by
      rw [← String.toList_append, h, String.toList_append]
    rcases List.append_eq_append_iff.mp hlists with ⟨rest, hrest, -⟩ | ⟨rest, hrest, -⟩
    · rcases eq_or_continued hfirst hsecond h ⟨rest, hrest.symm⟩ with hequal | hlonger
      · exact .inl hequal
      · exact .inr (.inl hlonger)
    · rcases eq_or_continued hsecond hfirst h.symm ⟨rest, hrest.symm⟩ with ⟨ht, hc⟩ | hlonger
      · exact .inl ⟨ht.symm, hc.symm⟩
      · exact .inr (.inr hlonger)
  · rintro (⟨htool, rfl⟩ | hlonger | hlonger)
    · have hname : ∀ entry ∈ camelNames, ∀ other ∈ camelNames, entry.1 = other.1 →
          entry.2 = other.2 := by decide
      rw [hname first hfirst second hsecond htool]
    · exact hlonger.append_eq hfirst hsecond
    · exact (hlonger.append_eq hsecond hfirst).symm

theorem Named.mem_camelNames {language : Language} {toolName : String} {params : Json}
    (h : Named language toolName params) (hlanguage : language ≠ .python) :
    (toolName, joinCamel asciiPrinting toolName) ∈ camelNames := by
  have hmem : toolName ∈ crudTools ++ ingestTools ++ searchTools := by
    rcases (h.camelCase hlanguage).1 with hcrud | hingest | ⟨-, hsearch⟩
    · exact List.mem_append_left _ (List.mem_append_left _ hcrud)
    · exact List.mem_append_left _ (List.mem_append_right _ hingest)
    · exact List.mem_append_right _ hsearch
  have hentry := stem_mem_camelNames hmem
  rwa [stem_of_not_mem_aliases h.tool] at hentry

end MongoCore.Mcp.SessionScript
