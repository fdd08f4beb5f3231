import MongoCore.Mcp.EmbeddedLiterals

/-!
# Values in generated code

The generators write the values of a filter, of documents and of an update as defaults, and those of
the parameters of any other operation as an argument.  Go takes the first ones from its caller, and
so do most methods of Java.

The main result says which of the values that an operation has are those of their literals in its
code.
-/

namespace MongoCore.Mcp.EmbeddedLiterals

open MongoCore.Data MongoCore.Mcp.Codegen MongoCore.Library.Tokens

/-- A value in generated code, with the code around its literal. -/
structure Embedding where
  before : String
  value : Json
  after : String

def paramValue (params : Json) (key : String) (fallback : Json) : Json :=
  (params.get? key).getD fallback

/-- The parameters of an operation on documents that are JSON values. -/
def documentParams (toolName : String) (params : Json) : List (String × Json) :=
  let filter := ("filter", paramValue params "filter" (.object []))
  let update := ("update", paramValue params "update" (.object []))
  match toolName with
  | "find" | "find_one" | "delete" | "delete_one" | "delete_many" => [filter]
  | "insert" | "insert_one" => [("document", paramValue params "document" (.object []))]
  | "insert_many" => [("documents", paramValue params "documents" (.array []))]
  | "update" | "update_one" | "update_many" => [filter, update]
  | _ => []

/-- What stands before the default of a parameter, in Python. -/
def pythonDefault (key : String) : String := key ++ "=" ++ key ++ " or "

/-- What stands before the default of a parameter, in TypeScript. -/
def typeScriptDefault (key : String) : String := key ++ ": " ++ key ++ " ?? "

def documentEmbeddings (language : Language) (toolName : String) (params : Json) :
    List Embedding :=
  match language with
  | .python => (documentParams toolName params).map fun param ↦
      ⟨pythonDefault param.1, param.2, ","⟩
  | .typeScript => (documentParams toolName params).map fun param ↦
      ⟨typeScriptDefault param.1, param.2, ","⟩
  | .go => []
  | .java =>
      if toolName = "find" ∨ toolName = "find_one" then
        [⟨"filter = Document.parse(", paramValue params "filter" (.object []), ");"⟩]
      else []

/-- The value in the code that asks the server to run a tool. -/
def passthroughEmbedding (language : Language) (toolName : String) (params : Json) : Embedding :=
  match language with
  | .python => ⟨"\"" ++ toolName ++ "\",\n        ", params, ",\n    )"⟩
  | .typeScript => ⟨"\"" ++ toolName ++ "\",\n    ", params, ",\n  )"⟩
  | .go => ⟨"\"" ++ toolName ++ "\", []byte(", params, "))"⟩
  | .java => ⟨"\"" ++ toolName ++ "\", ", params, ");"⟩

def embeddings (language : Language) (toolName : String) (params : Json) : List Embedding :=
  if toolName ∈ crudTools then documentEmbeddings language toolName params
  else if toolName ∈ ingestTools ∨ toolName ∈ searchTools then []
  else [passthroughEmbedding language toolName params]

/-! ## The values of an operation -/

theorem valid_emptyObject : (Json.object []).Valid :=
  Json.every_object.mpr ⟨(fun _ h ↦ by cases h), by simp⟩

theorem valid_emptyArray : (Json.array []).Valid :=
  Json.every_array.mpr ⟨(fun _ h ↦ by cases h), by simp⟩

theorem valid_paramValue {params : Json} (hparams : params.Valid) (key : String) {fallback : Json}
    (hfallback : fallback.Valid) : (paramValue params key fallback).Valid := by
  unfold paramValue
  cases hvalue : params.get? key with
  | none => exact hfallback
  | some value =>
    cases params with
    | object members =>
      obtain ⟨front, back, rfl, -⟩ := List.lookup_eq_some_iff.mp hvalue
      exact ((Json.every_object.mp hparams).2 _ (List.mem_append_right _ List.mem_cons_self)).2
    | _ => cases hvalue

theorem valid_documentParams {toolName : String} {params : Json} (hparams : params.Valid) :
    ∀ param ∈ documentParams toolName params, param.2.Valid := by
  have hobject (key : String) := valid_paramValue hparams key valid_emptyObject
  have harray (key : String) := valid_paramValue hparams key valid_emptyArray
  unfold documentParams
  dsimp only
  split <;> simp [hobject, harray]

/-- The numbers of the values in the code are numbers that values can have. -/
theorem valid_embeddings {language : Language} {toolName : String} {params : Json}
    (hparams : params.Valid) :
    ∀ embedding ∈ embeddings language toolName params, embedding.value.Valid := by
  have hdocument : ∀ embedding ∈ documentEmbeddings language toolName params,
      embedding.value.Valid := by
    cases language with
    | python => exact List.forall_mem_map.mpr (valid_documentParams hparams)
    | typeScript => exact List.forall_mem_map.mpr (valid_documentParams hparams)
    | go => exact fun _ h ↦ absurd h List.not_mem_nil
    | java =>
      unfold documentEmbeddings
      dsimp only
      split_ifs
      · exact List.forall_mem_singleton.mpr (valid_paramValue hparams _ valid_emptyObject)
      · exact fun _ h ↦ absurd h List.not_mem_nil
  unfold embeddings
  split_ifs
  · exact hdocument
  · exact fun _ h ↦ absurd h List.not_mem_nil
  · cases language <;> exact List.forall_mem_singleton.mpr hparams

/-! ## Where the literals stand -/

def Within (part whole : String) : Prop := ∃ front back : String, whole = front ++ part ++ back

theorem Within.refl (text : String) : Within text text := ⟨"", "", by simp⟩

theorem Within.left {part front : String} (hpart : Within part front) (back : String) :
    Within part (front ++ back) := by
  obtain ⟨before, after, rfl⟩ := hpart
  exact ⟨before, after ++ back, by simp only [String.append_assoc]⟩

theorem Within.right {part back : String} (hpart : Within part back) (front : String) :
    Within part (front ++ back) := by
  obtain ⟨before, after, rfl⟩ := hpart
  exact ⟨front ++ before, after, by simp only [String.append_assoc]⟩

/-- A line is written with its ending. -/
theorem within_linesWith {indent ending line : String} {lines : List String}
    (hline : line ∈ lines) : Within (line ++ ending) (linesWith indent ending lines) := by
  induction lines with
  | nil => exact absurd hline List.not_mem_nil
  | cons first lines ih =>
    rw [linesWith, List.map_cons, String.join_cons]
    rcases List.mem_cons.mp hline with rfl | hline
    · rw [@String.append_assoc indent]
      exact (((Within.refl _).right _).left _).left _
    · exact (ih hline).right _

section Functions

variable {printing : Printing} {member : String} {members : List String}

theorem within_pythonFunction (verb db coll parameters description method : String)
    (hmember : member ∈ members) (result : String) :
    Within (member ++ ",")
      (pythonFunction verb db coll parameters description method members result).text :=
  (((within_linesWith (List.mem_append_right _ hmember)).right _).left _).right _

theorem within_typeScriptFunction (verb db coll parameters description method : String)
    (hmember : member ∈ members) (result : String) :
    Within (member ++ ",")
      (typeScriptFunction printing verb db coll parameters description method members
        result).text :=
  (((within_linesWith (List.mem_append_right _ hmember)).right _).left _).right _

variable (printing) in
def pythonMember (param : String × Json) : String :=
  pythonDefault param.1 ++ literal printing .python param.2

variable (printing) in
/-- The default of a parameter, in TypeScript. -/
def typeScriptMember (param : String × Json) : String :=
  typeScriptDefault param.1 ++ literal printing .typeScript param.2

/-- A Python function for an operation on documents has the defaults of its parameters. -/
theorem exists_pythonFunction {toolName : String} (htool : toolName ∈ crudTools) (params : Json) :
    ∃ verb db coll parameters description method members result,
      generateCrudCode printing .python toolName params =
          .ok (pythonFunction verb db coll parameters description method members result) ∧
        ∀ param ∈ documentParams toolName params, pythonMember printing param ∈ members := by
  have hfilter : pythonDefault "filter" = "filter=filter or " := by decide
  have hupdate : pythonDefault "update" = "update=update or " := by decide
  have hdocument : pythonDefault "document" = "document=document or " := by decide
  have hdocuments : pythonDefault "documents" = "documents=documents or " := by decide
  simp only [crudTools, List.mem_cons, List.not_mem_nil, or_false] at htool
  rcases htool with rfl | rfl | rfl | rfl | rfl | rfl | rfl | rfl | rfl | rfl | rfl <;>
    refine ⟨_, _, _, _, _, _, _, _, rfl, ?_⟩ <;>
    simp [toString, documentParams, pythonMember, literal, hfilter, hupdate, hdocument, hdocuments,
      jsonParam, paramValue]

/-- A TypeScript function for an operation on documents has the defaults of its parameters. -/
theorem exists_typeScriptFunction {toolName : String} (htool : toolName ∈ crudTools)
    (params : Json) :
    ∃ verb db coll parameters description method members result,
      generateCrudCode printing .typeScript toolName params =
          .ok (typeScriptFunction printing verb db coll parameters description method members
            result) ∧
        ∀ param ∈ documentParams toolName params, typeScriptMember printing param ∈ members := by
  have hfilter : typeScriptDefault "filter" = "filter: filter ?? " := by decide
  have hupdate : typeScriptDefault "update" = "update: update ?? " := by decide
  have hdocument : typeScriptDefault "document" = "document: document ?? " := by decide
  have hdocuments : typeScriptDefault "documents" = "documents: documents ?? " := by decide
  simp only [crudTools, List.mem_cons, List.not_mem_nil, or_false] at htool
  rcases htool with rfl | rfl | rfl | rfl | rfl | rfl | rfl | rfl | rfl | rfl | rfl <;>
    refine ⟨_, _, _, _, _, _, _, _, rfl, ?_⟩ <;>
    simp [toString, documentParams, typeScriptMember, literal, hfilter, hupdate, hdocument,
      hdocuments, jsonParam, paramValue]

theorem within_javaFilterCheck (filter : Json) :
    Within ("filter = Document.parse(" ++ literal printing .java filter ++ ");")
      (javaFilterCheck (printing.pretty filter)) := by
  have hfront : "        filter = Document.parse(\"" =
      "        " ++ "filter = Document.parse(" ++ "\"" := by decide
  have hback : "\");\n    \x7d\n" = "\"" ++ ");" ++ "\n    \x7d\n" := by decide
  refine Within.right ⟨"        ", "\n    \x7d\n", ?_⟩ _
  simp only [toString, hfront, hback, literal, String.append_assoc]

theorem within_javaFunction {part check : String} (hpart : Within part check)
    (result verb coll parameters description request : String) (setters : List String)
    (response : String) :
    Within part (javaFunction printing result verb coll parameters description check request
      setters response).text :=
  ((((hpart.right _).left _).left _).left _).right _

theorem within_javaBuilderFunction {part check : String} (hpart : Within part check)
    (result verb coll parameters description request setter : String)
    (optional closing : List String) :
    Within part (javaBuilderFunction printing result verb coll parameters description check request
      setter optional closing).text :=
  ((((((hpart.right _).left _).left _).left _).left _).left _).right _

/-- A find in Java has the default of its filter. -/
theorem within_javaFind {toolName : String} (htool : toolName = "find" ∨ toolName = "find_one")
    {params : Json} {code : GeneratedFunction}
    (hcode : generateCrudCode printing .java toolName params = .ok code) :
    Within ("filter = Document.parse(" ++
      literal printing .java (paramValue params "filter" (.object [])) ++ ");") code.text := by
  have hcheck := @within_javaFilterCheck printing (paramValue params "filter" (.object []))
  rcases htool with rfl | rfl
  · obtain rfl := Except.ok.inj hcode
    exact within_javaBuilderFunction hcheck _ _ _ _ _ _ _ _ _
  · obtain rfl := Except.ok.inj hcode
    exact within_javaFunction hcheck _ _ _ _ _ _ _ _

/-- The code that asks the server to run a tool has the parameters. -/
theorem within_passthrough (language : Language) (toolName : String) (params : Json) :
    Within
      ((passthroughEmbedding language toolName params).before ++ literal printing language params ++
        (passthroughEmbedding language toolName params).after)
      (generatePassthrough printing language toolName params).text := by
  cases language with
  | python =>
    have hfront : "        \"" = "        " ++ "\"" := by decide
    have hback : ",\n    )\n    return result\n" = ",\n    )" ++ "\n    return result\n" := by
      decide
    refine Within.right (Within.right ⟨"        ", "\n    return result\n", ?_⟩ _) _
    simp only [toString, hfront, hback, passthroughEmbedding, literal, String.append_assoc]
  | typeScript =>
    have hfront : "    \"" = "    " ++ "\"" := by decide
    have hback : ",\n  );\n  return result;\n\x7d\n" =
        ",\n  )" ++ ";\n  return result;\n\x7d\n" := by decide
    refine Within.right (Within.right ⟨"    ", ";\n  return result;\n\x7d\n", ?_⟩ _) _
    simp only [toString, hfront, hback, passthroughEmbedding, literal, String.append_assoc]
  | go =>
    have hfront : "\treturn client.RunTool(context.Background(), \"" =
        "\treturn client.RunTool(context.Background(), " ++ "\"" := by decide
    have hmiddle : "\", []byte(" = "\", " ++ "[]byte(" := by decide
    have hraw : "[]byte(\x60" = "[]byte(" ++ "\x60" := by decide
    have hback : "\x60))\n" = "\x60" ++ "))" ++ "\n" := by decide
    refine Within.right (Within.left ?_ _) _
    rw [@String.append_assoc (_ ++ _)]
    refine Within.right ⟨"\treturn client.RunTool(context.Background(), ", "\n", ?_⟩ _
    simp only [toString, hfront, hmiddle, hraw, hback, passthroughEmbedding, literal,
      String.append_assoc]
  | java =>
    have hfront : "    return client.runTool(\"" = "    return client.runTool(" ++ "\"" := by decide
    have hmiddle : "\", \"" = "\", " ++ "\"" := by decide
    have hback : "\");\n\x7d\n" = "\"" ++ ");" ++ "\n\x7d\n" := by decide
    refine Within.right (Within.right ⟨"    return client.runTool(", "\n\x7d\n", ?_⟩ _) _
    simp only [toString, hfront, hmiddle, hback, passthroughEmbedding, literal,
      String.append_assoc]

end Functions

section Operations

variable {printing : Printing} {language : Language} {toolName : String} {params : Json}
  {code : GeneratedFunction} {embedding : Embedding}

theorem within_document (hcrud : toolName ∈ crudTools)
    (hcode : generateCrudCode printing language toolName params = .ok code)
    (hmem : embedding ∈ documentEmbeddings language toolName params) :
    Within (embedding.before ++ literal printing language embedding.value ++ embedding.after)
      code.text := by
  cases language with
  | python =>
    obtain ⟨_, _, _, _, _, _, members, _, heq, hall⟩ :=
      @exists_pythonFunction printing _ hcrud params
    obtain rfl := Except.ok.inj (heq.symm.trans hcode)
    obtain ⟨param, hparam, rfl⟩ := List.mem_map.mp hmem
    exact within_pythonFunction _ _ _ _ _ _ (hall param hparam) _
  | typeScript =>
    obtain ⟨_, _, _, _, _, _, members, _, heq, hall⟩ :=
      @exists_typeScriptFunction printing _ hcrud params
    obtain rfl := Except.ok.inj (heq.symm.trans hcode)
    obtain ⟨param, hparam, rfl⟩ := List.mem_map.mp hmem
    exact within_typeScriptFunction _ _ _ _ _ _ (hall param hparam) _
  | go => exact absurd hmem List.not_mem_nil
  | java =>
    rw [documentEmbeddings] at hmem
    split_ifs at hmem with hfind
    · obtain rfl := List.mem_singleton.mp hmem
      exact within_javaFind hfind hcode
    · exact absurd hmem List.not_mem_nil

/-- The literals of an operation stand in its code. -/
theorem within_of_mem_embeddings
    (hcode : generateSingleOperationCode printing language toolName params = .ok code)
    (hmem : embedding ∈ embeddings language toolName params) :
    Within (embedding.before ++ literal printing language embedding.value ++ embedding.after)
      code.text := by
  by_cases hcrud : toolName ∈ crudTools
  · rw [generateSingleOperationCode, if_pos hcrud] at hcode
    rw [embeddings, if_pos hcrud] at hmem
    exact within_document hcrud hcode hmem
  · by_cases hother : toolName ∈ ingestTools ∨ toolName ∈ searchTools
    · rw [embeddings, if_neg hcrud, if_pos hother] at hmem
      exact absurd hmem List.not_mem_nil
    · rw [embeddings, if_neg hcrud, if_neg hother] at hmem
      rw [not_or] at hother
      rw [generateSingleOperationCode, if_neg hcrud, if_neg hother.1, if_neg hother.2] at hcode
      obtain rfl := List.mem_singleton.mp hmem
      obtain rfl := Except.ok.inj hcode
      have hvalue : (passthroughEmbedding language toolName params).value = params := by
        cases language <;> rfl
      rw [hvalue]
      exact within_passthrough language toolName params

variable {floats : FloatText}

/-- The values of an operation that stand in its code are the values of their literals exactly if
they can be embedded in the language. -/
theorem embedded_iff_embeddable (hprints : PrintsPretty printing floats) (hvalid : params.Valid)
    (hcode : generateSingleOperationCode printing language toolName params = .ok code) :
    ∀ embedding ∈ embeddings language toolName params,
      Within (embedding.before ++ literal printing language embedding.value ++ embedding.after)
          code.text ∧
        (denoted floats language (literal printing language embedding.value).toList =
          some embedding.value ↔ Embeddable language embedding.value) :=
  fun embedding hmem ↦ ⟨within_of_mem_embeddings hcode hmem,
    denoted_literal_iff hprints language (valid_embeddings hvalid embedding hmem)⟩

end Operations

/-! ## Two finds -/

/-- Doubles as the numbers of their bits, with a point. -/
def bitsText : FloatText where
  print bits := Nat.toDigits 10 bits.toNat ++ ['.', '0']
  read chars := (readNatural (chars.takeWhile Char.isDigit)).map UInt64.ofNat

theorem laws_bitsText : bitsText.Laws where
  read_print bits _ := by
    have htake := takeWhile_token (isNumeral_toDigits bits.toNat).digit
      (stops_cons.mpr (by decide) : Stops Char.isDigit ['.', '0'])
    change (readNatural ((Nat.toDigits 10 bits.toNat ++ ['.', '0']).takeWhile Char.isDigit)).map
      UInt64.ofNat = some bits
    rw [htake, readNatural_toDigits, Option.map_some, UInt64.ofNat_toNat]
  isWordChar_print bits _ := by
    refine List.forall_mem_append.mpr ⟨fun c hc ↦ ?_, by simp [isWordChar]⟩
    exact isWordChar_of_isDigit ((isNumeral_toDigits bits.toNat).digit c hc)
  marked_print bits _ := by
    rw [bitsText, List.any_append]
    exact Bool.or_true _
  head_print bits _ := by
    obtain ⟨c, rest, heq, hc, -⟩ := head_toDigits bits.toNat
    intro d hd
    change d ∈ (Nat.toDigits 10 bits.toNat ++ ['.', '0']).head? at hd
    rw [heq] at hd
    obtain rfl := Option.some.inj hd
    exact isAlpha_of_isDigit hc

def prettyPrinting : Printing where
  pretty value := String.ofList (prettyText bitsText value)
  compact value := String.ofList (prettyText bitsText value)
  toUppercase c := [c.toUpper]

theorem printsPretty_prettyPrinting : PrintsPretty prettyPrinting bitsText where
  laws := laws_bitsText
  pretty _ _ := String.toList_ofList

/-- The parameters of an operation with a filter for one field. -/
def filterParams (key : String) (value : Json) : Json :=
  .object [("filter", .object [(key, value)])]

theorem every_field {node : Json → Prop} {name : String → Prop} {key : String} {value : Json} :
    (Json.object [(key, value)]).Every node name ↔
      node (.object [(key, value)]) ∧ name key ∧ value.Every node name := by
  rw [Json.every_object, List.forall_mem_singleton]

theorem valid_string (text : String) : (Json.string text).Valid := fun _ h ↦ by cases h

theorem valid_bool (b : Bool) : (Json.bool b).Valid := fun _ h ↦ by cases h

theorem valid_field {key : String} {value : Json} (hvalue : value.Valid) :
    (Json.object [(key, value)]).Valid :=
  every_field.mpr ⟨(fun _ h ↦ by cases h), trivial, hvalue⟩

/-- The value of a filter with a quote and a backslash is the one of its literal in Python. -/
theorem embedded_pythonFind :
    denoted bitsText .python (literal prettyPrinting .python
        (.object [("path", .string "a\"b\\c")])).toList =
      some (.object [("path", .string "a\"b\\c")]) := by
  have hcode : generateSingleOperationCode prettyPrinting .python "find"
      (filterParams "path" (.string "a\"b\\c")) = .ok (generateFind prettyPrinting .python
        "mydb" "docs" (filterParams "path" (.string "a\"b\\c"))) := rfl
  have hmem : ⟨"filter=filter or ", .object [("path", .string "a\"b\\c")], ","⟩ ∈
      embeddings .python "find" (filterParams "path" (.string "a\"b\\c")) :=
    List.mem_singleton.mpr rfl
  have hembeddable : Embeddable .python (.object [("path", .string "a\"b\\c")]) := by
    rw [Embeddable, every_field]
    exact ⟨by simp, trivial, by simp [Json.Every]⟩
  exact (embedded_iff_embeddable printsPretty_prettyPrinting
    (valid_field (valid_field (valid_string _))) hcode _ hmem).2.mpr hembeddable

/-- Python has no word for a Boolean of JSON, and the JSON in a string of Java has lost a backslash
of its own. -/
theorem not_embedded_finds :
    (∃ embedding ∈ embeddings .python "find" (filterParams "active" (.bool true)),
      denoted bitsText .python (literal prettyPrinting .python embedding.value).toList ≠
        some embedding.value) ∧
      ∃ embedding ∈ embeddings .java "find" (filterParams "path" (.string "C:\\temp")),
        denoted bitsText .java (literal prettyPrinting .java embedding.value).toList ≠
          some embedding.value := by
  constructor
  · have hnot : ¬ Embeddable .python (.object [("active", .bool true)]) := by
      rw [Embeddable, every_field]
      exact fun h ↦ h.2.2.2 true rfl
    refine ⟨⟨"filter=filter or ", _, ","⟩, List.mem_singleton.mpr rfl, ?_⟩
    exact mt (denoted_literal_iff printsPretty_prettyPrinting .python
      (valid_field (valid_bool true))).mp hnot
  · have hnot : ¬ Embeddable .java (.object [("path", .string "C:\\temp")]) := by
      rw [Embeddable, Json.EveryText, every_field]
      exact fun h ↦ (h.2.2 _ rfl '\\' (by decide)).2.1 rfl
    refine ⟨⟨"filter = Document.parse(", _, ");"⟩, List.mem_singleton.mpr rfl, ?_⟩
    exact mt (denoted_literal_iff printsPretty_prettyPrinting .java
      (valid_field (valid_string "C:\\temp"))).mp hnot

end MongoCore.Mcp.EmbeddedLiterals
