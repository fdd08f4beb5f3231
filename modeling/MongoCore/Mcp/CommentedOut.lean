import MongoCore.Library.CommentLines
import MongoCore.Mcp.ClosedScripts

/-!
# Failed operations in a script

The function of an operation that failed and its call stand in the script as comments.  The lines of
the function are made comments one by one, as ends of lines in the text of the script part them.
The description of the operation, the reason of the failure and the name in the call are written
behind a mark as they are.
-/

namespace MongoCore.Mcp.SessionScript

open MongoCore.Data MongoCore.Mcp.Codegen MongoCore.Library.CommentLines
open MongoCore.Library.Escapes

/-! ## Lines of each language -/

/-- The lines and comments of a language.  Only Java replaces escapes in its source, and only
TypeScript has more ends of lines than the line feed and the carriage return. -/
def linesIn : Language → LineSyntax
  | .python =>
      .untranslated ['\n', '\r'] ['#'] (by decide) (by simp [isBlank]) (by simp [Plain, isBlank])
  | .typeScript =>
      .untranslated ['\n', '\r', '\u2028', '\u2029'] ['/', '/'] (by decide) (by simp [isBlank])
        (by simp [Plain, isBlank])
  | .go =>
      .untranslated ['\n'] ['/', '/'] (by decide) (by simp [isBlank]) (by simp [Plain, isBlank])
  | .java =>
      .withEscapes ['\n', '\r'] ['/', '/'] (by decide) (by simp [isBlank])
        (by simp [Plain, isBlank])

theorem toList_commentMark (language : Language) :
    (commentMark language).toList = (linesIn language).mark := by
  cases language <;> rfl

section Emitted

variable (printing : Printing) (language : Language)

/-! ## The lines of a function -/

def emittedLines (function : ScriptFunction) : List (List Char) :=
  (linesIn language).lines (definitionText language function).toList ++
    (linesIn language).lines (callText printing language function).toList

def CommentedOut (function : ScriptFunction) : Prop :=
  ∀ line ∈ emittedLines printing language function, (linesIn language).Commented line

/-- What the call of a function that failed has behind the mark. -/
def skippedCall (name : String) : String :=
  match language with
  | .python => s!"await {name}(client)  # skipped: failed"
  | .typeScript => s!"await {name}(client);  // skipped: failed"
  | .go => s!"_, _ = {name}(client, \"\", \"\", nil)  // skipped: failed"
  | .java => s!"new MongoSession().{name}(client, \"\", \"\", null);  // skipped: failed"

/-- What stands before a call in the main function. -/
def callIndent : String :=
  match language with
  | .python => "    "
  | .typeScript => "  "
  | .go => "\t"
  | .java => "        "

/-- The description of an operation that failed, with the reason. -/
def failureReason (docstring reason : String) : String := s!"{docstring} (error: {reason})"

def commentLine (indent text : String) : String :=
  indent ++ (commentMark language ++ (" " ++ text)) ++ "\n"

def Stays (text : String) : Prop := (linesIn language).Contained text.toList

instance decidableStays (text : String) : Decidable (Stays language text) :=
  inferInstanceAs (Decidable ((linesIn language).Contained _))

/-- The texts of an operation stay in the comments that they are written in. -/
structure StaysInside (operation : OperationRecord) (count : ℕ) : Prop where
  reason : Stays language (failureReason
    (operation.toolName ++ " on " ++ strParam operation.params "collection" "docs" ++ " in " ++
      strParam operation.params "database" "mydb")
    (operation.errorMessage.getD "Unknown error"))
  code : ∀ line ∈ linesOf (codeOf printing language operation).text, Stays language line
  call : Stays language (skippedCall language (calledName printing language
    (numbered (makeFunctionName operation.toolName operation.params) count)))

variable {printing language}

/-! ## Comments in the script -/

theorem callIndent_blank (language : Language) :
    ∀ c ∈ (callIndent language).toList, isBlank c = true := by
  cases language <;> simp [callIndent, isBlank]

/-- A line that is written at once is written in parts. -/
theorem call_eq_parts {front back indent mark before after : String} (name : String)
    (hfront : front = indent ++ (mark ++ (" " ++ before))) (hback : back = after ++ "\n") :
    front ++ name ++ back = indent ++ (mark ++ (" " ++ (before ++ name ++ after))) ++ "\n" := by
  rw [hfront, hback]
  simp only [String.append_assoc]

theorem callText_of_failed {function : ScriptFunction} (hfailed : function.success = false) :
    callText printing language function = commentLine language (callIndent language)
      (skippedCall language (calledName printing language function.name)) := by
  unfold callText
  rw [hfailed]
  cases language with
  | python => exact call_eq_parts _ (by decide) (by decide)
  | typeScript => exact call_eq_parts _ (by decide) (by decide)
  | go => exact call_eq_parts _ (by decide) (by decide)
  | java => exact call_eq_parts _ (by decide) (by decide)

theorem definitionText_of_failed {function : ScriptFunction} (hfailed : function.success = false) :
    definitionText language function =
      commentLine language ""
          ("FAILED: " ++ failureReason function.docstring (function.errorMessage.getD "unknown")) ++
        String.join ((linesOf function.code.text).map (commentLine language "")) ++ "\n" := by
  have hfailure : " FAILED: " = " " ++ "FAILED: " := by decide
  have hclose : ")\n" = ")" ++ "\n" := by decide
  have hline : (fun line ↦ s!"{commentMark language} {line}\n") = commentLine language "" := by
    funext line
    simp only [commentLine, String.empty_append, String.append_assoc]
    rfl
  unfold definitionText
  dsimp only
  rw [hfailed, if_neg Bool.false_ne_true, hline]
  congr 2
  simp only [commentLine, failureReason, String.empty_append, String.append_assoc, hfailure, hclose]
  rfl

theorem ended_commentLine (indent text : String) :
    LineSyntax.Ended (commentLine language indent text).toList :=
  ⟨_, String.toList_append⟩

/-- A text behind a mark. -/
theorem allCommented_commentLine {indent : String}
    (hindent : ∀ c ∈ indent.toList, isBlank c = true) (text : String) :
    (linesIn language).AllCommented (commentLine language indent text).toList ↔
      Stays language text := by
  have hspace : ∀ c ∈ " ".toList, Plain c ∧ c ∉ (linesIn language).ends := by
    cases language <;> simp [linesIn, Plain, LineSyntax.untranslated, LineSyntax.withEscapes]
  simp only [commentLine, String.toList_append, toList_commentMark]
  rw [Stays, ← (linesIn language).contained_append hspace]
  exact (linesIn language).allCommented_comment hindent _

/-- A line without anything in it. -/
theorem allCommented_newline : (linesIn language).AllCommented ['\n'] := by
  intro line hline
  have hlines := (linesIn language).lines_ended []
  rw [List.nil_append] at hlines
  rw [hlines, LineSyntax.pieces_nil, List.mem_singleton] at hline
  exact .inl (hline ▸ rfl)

theorem allCommented_codeLines (texts : List String) :
    (linesIn language).AllCommented
        ((String.join (texts.map (commentLine language ""))).toList ++ ['\n']) ↔
      ∀ text ∈ texts, Stays language text := by
  have hblank : ∀ c ∈ "".toList, isBlank c = true := by simp
  have hended : ∀ line ∈ texts.map (fun text ↦ (commentLine language "" text).toList) ++ [['\n']],
      LineSyntax.Ended line := by
    intro line hline
    rcases List.mem_append.mp hline with hline | hline
    · obtain ⟨text, -, rfl⟩ := List.mem_map.mp hline
      exact ended_commentLine "" text
    · exact ⟨[], List.mem_singleton.mp hline⟩
  have hflatten : (String.join (texts.map (commentLine language ""))).toList ++ ['\n'] =
      (texts.map (fun text ↦ (commentLine language "" text).toList) ++ [['\n']]).flatten := by
    rw [String.toList_join, List.flatten_append, List.flatMap_map, List.flatMap_def,
      List.flatten_singleton]
  rw [hflatten, (linesIn language).allCommented_flatten hended, List.forall_mem_append,
    List.forall_mem_map, List.forall_mem_singleton, and_iff_left allCommented_newline]
  exact forall₂_congr fun text _ ↦ allCommented_commentLine hblank text

/-- A function that failed is a comment in all its lines exactly if its texts stay in the comments
that they are written in. -/
theorem commentedOut_of_failed {function : ScriptFunction} (hfailed : function.success = false) :
    CommentedOut printing language function ↔
      Stays language
          (failureReason function.docstring (function.errorMessage.getD "unknown")) ∧
        (∀ line ∈ linesOf function.code.text, Stays language line) ∧
          Stays language (skippedCall language (calledName printing language function.name)) := by
  have hfailure : ∀ c ∈ "FAILED: ".toList, Plain c ∧ c ∉ (linesIn language).ends := by
    cases language <;> simp [linesIn, Plain, LineSyntax.untranslated, LineSyntax.withEscapes]
  have hsplit : CommentedOut printing language function ↔
      (linesIn language).AllCommented (definitionText language function).toList ∧
        (linesIn language).AllCommented (callText printing language function).toList :=
    List.forall_mem_append
  rw [hsplit, callText_of_failed hfailed, allCommented_commentLine (callIndent_blank language),
    definitionText_of_failed hfailed, String.toList_append, String.toList_append,
    List.append_assoc, (linesIn language).allCommented_append (ended_commentLine _ _),
    allCommented_commentLine (by simp), and_assoc]
  refine and_congr ?_ (and_congr (allCommented_codeLines _) Iff.rfl)
  rw [Stays, String.toList_append]
  exact (linesIn language).contained_append hfailure _

theorem not_mem_of_mem_splitOn {text part : List Char} (hpart : part ∈ text.splitOn '\n') :
    '\n' ∉ part := by
  rw [List.splitOn_eq_splitOnP] at hpart
  induction text generalizing part with
  | nil =>
    rw [List.splitOnP_nil, List.mem_singleton] at hpart
    exact hpart ▸ List.not_mem_nil
  | cons c text ih =>
    rw [List.splitOnP_cons_eq_if_modifyHead] at hpart
    split_ifs at hpart with hc
    · rcases List.mem_cons.mp hpart with rfl | hpart
      · exact List.not_mem_nil
      · exact ih hpart
    · cases hparts : text.splitOnP (· == '\n') with
      | nil => exact absurd hparts (List.splitOnP_ne_nil _ _)
      | cons first rest =>
        rw [hparts] at ih
        rw [hparts, List.modifyHead_cons] at hpart
        rcases List.mem_cons.mp hpart with rfl | hpart
        · rw [List.mem_cons, not_or]
          refine ⟨fun heq ↦ hc (by rw [← heq, beq_self_eq_true]), ih List.mem_cons_self⟩
        · exact ih (List.mem_cons_of_mem _ hpart)

/-- A line of the code has no line feed, so that in Go it stays in its comment. -/
theorem stays_go_of_mem_linesOf {code line : String} (hline : line ∈ linesOf code) :
    Stays .go line := by
  obtain ⟨text, htext, rfl⟩ := List.mem_map.mp hline
  rw [Stays, String.toList_ofList]
  have hnot : '\n' ∉ text := by
    rcases List.mem_append.mp htext with htext | htext
    · obtain ⟨part, hpart, rfl⟩ := List.mem_map.mp htext
      have hnewline := not_mem_of_mem_splitOn ((List.dropLast_subset _) hpart)
      split_ifs
      · exact fun hmem ↦ hnewline ((List.dropLast_subset _) hmem)
      · exact hnewline
    · have hpart := Option.mem_toList.mp (List.mem_filter.mp htext).1
      exact not_mem_of_mem_splitOn (List.mem_of_getLast? hpart)
  refine (linesIn .go).contained_of_no_end fun c hc hend ↦ hnot ?_
  rw [List.mem_singleton.mp hend] at hc
  exact hc

end Emitted

/-! ## The lines of a script -/

section Script

variable {printing : Printing} {language : Language}

/-- A text that ends with a piece that ends its line. -/
theorem ended_append_literal {back : String} (hback : back.toList.getLast? = some '\n')
    (front : String) : LineSyntax.Ended (front ++ back).toList := by
  rw [String.toList_append]
  exact LineSyntax.ended_append (List.getLast?_eq_some_iff.mp hback) _

theorem ended_definitionText (function : ScriptFunction) :
    LineSyntax.Ended (definitionText language function).toList := by
  cases hsuccess : function.success with
  | false =>
    rw [definitionText_of_failed hsuccess]
    exact ended_append_literal (by decide) _
  | true =>
    unfold definitionText
    dsimp only
    rw [hsuccess, if_pos rfl]
    cases language with
    | python => exact ended_append_literal (by decide) _
    | typeScript => exact ended_append_literal (by decide) _
    | go => exact ended_append_literal (by decide) _
    | java => exact ended_append_literal (by decide) _

theorem ended_callText (function : ScriptFunction) :
    LineSyntax.Ended (callText printing language function).toList := by
  cases hsuccess : function.success with
  | false =>
    rw [callText_of_failed hsuccess]
    exact ended_commentLine _ _
  | true =>
    unfold callText
    rw [hsuccess]
    cases language with
    | python => exact ended_append_literal (by decide) _
    | typeScript => exact ended_append_literal (by decide) _
    | go => exact ended_append_literal (by decide) _
    | java => exact ended_append_literal (by decide) _

theorem ended_header (language : Language) : LineSyntax.Ended (header language).toList := by
  cases language with
  | python => exact List.getLast?_eq_some_iff.mp (by decide +kernel)
  | typeScript => exact List.getLast?_eq_some_iff.mp (by decide +kernel)
  | go => exact ended_append_literal (by decide +kernel) _
  | java => exact ended_append_literal (by decide +kernel) _

theorem ended_mainFrame (language : Language) :
    LineSyntax.Ended (mainFrame language).1.toList := by
  cases language with
  | python => exact List.getLast?_eq_some_iff.mp (by decide +kernel)
  | typeScript => exact ended_append_literal (by decide +kernel) _
  | go => exact ended_append_literal (by decide +kernel) _
  | java => exact ended_append_literal (by decide +kernel) _

/-- Texts that end their lines, one for each function. -/
theorem lines_join (syntaxes : LineSyntax) {text : ScriptFunction → String}
    (htext : ∀ function, LineSyntax.Ended (text function).toList)
    (functions : List ScriptFunction) (rest : List Char) :
    syntaxes.lines ((String.join (functions.map text)).toList ++ rest) =
      functions.flatMap (fun function ↦ syntaxes.lines (text function).toList) ++
        syntaxes.lines rest := by
  induction functions with
  | nil => rfl
  | cons function functions ih =>
    rw [String.toList_join] at ih ⊢
    rw [List.map_cons, List.flatMap_cons, List.append_assoc, syntaxes.lines_append (htext _), ih,
      List.flatMap_cons, List.append_assoc]

/-- The lines of a script are those of its parts. -/
theorem lines_assembleScript (functions : List ScriptFunction) :
    (linesIn language).lines (assembleScript printing language functions).toList =
      (linesIn language).lines (header language).toList ++
        functions.flatMap (fun function ↦
          (linesIn language).lines (definitionText language function).toList) ++
        (linesIn language).lines (mainFrame language).1.toList ++
        functions.flatMap (fun function ↦
          (linesIn language).lines (callText printing language function).toList) ++
        (linesIn language).lines (mainFrame language).2.toList := by
  unfold assembleScript
  simp only [String.toList_append, List.append_assoc]
  rw [(linesIn language).lines_append (ended_header language), lines_join _ ended_definitionText,
    (linesIn language).lines_append (ended_mainFrame language), lines_join _ ended_callText]

/-- The lines of an operation that failed are comments exactly if no line of the language ends in
its description, in the reason of its failure, in a line of its code or in its call without a mark
in front of what follows. -/
theorem commentedOut_iff_staysInside (printing : Printing) (language : Language)
    (operation : OperationRecord) (hfailed : operation.success = false) (count : ℕ) :
    CommentedOut printing language (scriptFunction printing language operation count) ↔
      StaysInside printing language operation count := by
  have hmessage : (scriptFunction printing language operation count).errorMessage =
      some (operation.errorMessage.getD "Unknown error") := by
    simp [scriptFunction, hfailed]
  rw [commentedOut_of_failed hfailed, hmessage]
  constructor
  · rintro ⟨hreason, hcode, hcall⟩
    exact ⟨hreason, hcode, hcall⟩
  · rintro ⟨hreason, hcode, hcall⟩
    exact ⟨hreason, hcode, hcall⟩

def failedFind (reason : String) : OperationRecord where
  toolName := "find"
  params := .object []
  success := false
  errorMessage := some reason

theorem commentedOut_failedFind :
    CommentedOut asciiPrinting .go
      (scriptFunction asciiPrinting .go (failedFind "no reachable servers") 1) := by
  apply (commentedOut_iff_staysInside asciiPrinting .go _ rfl 1).mpr
  exact
    { reason := by decide +kernel
      code := fun _ hline ↦ stays_go_of_mem_linesOf hline
      call := by decide +kernel }

/-- A reason of two lines ends its comment. -/
theorem not_commentedOut_of_two_lines :
    "import os)".toList ∈ emittedLines asciiPrinting .python
        (scriptFunction asciiPrinting .python (failedFind "timeout\nimport os") 1) ∧
      ¬ CommentedOut asciiPrinting .python
        (scriptFunction asciiPrinting .python (failedFind "timeout\nimport os") 1) := by
  have hmem : "import os)".toList ∈ emittedLines asciiPrinting .python
      (scriptFunction asciiPrinting .python (failedFind "timeout\nimport os") 1) := by
    rw [emittedLines, definitionText_of_failed rfl, String.append_assoc, String.toList_append,
      (linesIn .python).lines_append (ended_commentLine _ _)]
    refine List.mem_append_left _ (List.mem_append_left _ ?_)
    decide +kernel
  exact ⟨hmem, fun hall ↦ absurd (hall _ hmem) (by decide)⟩

end Script

end MongoCore.Mcp.SessionScript
