import MongoCore.Data.Collection

/-!
# How many documents a pipeline returns

A database answers a find and each stage of an aggregation in a way of its own.  What is assumed is
how many documents there are: a limit of a find bounds the answer by its absolute value unless it is
zero, some stages bound their output, and others do not return more documents than they get.

The module computes the bound that the stages of a pipeline give, and shows that there is no other.
-/

namespace MongoCore.Data

/-! ## Stages -/

/-- What is known of the number of documents that a stage returns. -/
inductive StageKind where
  | limits (bound : ℕ)
  | keeps
  | other
  deriving DecidableEq, Repr

/-- The stages that return at most one document for each that they get. -/
def keepingStages : List String :=
  ["$match", "$sort", "$skip", "$project", "$addFields", "$set", "$unset", "$replaceRoot",
    "$replaceWith", "$redact", "$group", "$sortByCount", "$bucket", "$bucketAuto", "$lookup",
    "$graphLookup", "$setWindowFields", "$fill"]

def Bson.asInt? : Bson → Option ℤ
  | .int32 value | .int64 value => some value
  | _ => none

def Bson.member? (value : Bson) (name : String) : Option Bson :=
  match value with
  | .document members => members.lookup name
  | _ => none

/-- The kind of a stage.  A `$limit` or `$sample` that is not positive fails.  The limit of a vector
search counts like that of a find. -/
def stageKind : Document → StageKind
  | [(name, value)] =>
      if name = "$limit" then
        match value.asInt? with
        | some limit => .limits limit.toNat
        | none => .other
      else if name = "$sample" then
        match (value.member? "size").bind Bson.asInt? with
        | some size => .limits size.toNat
        | none => .other
      else if name = "$vectorSearch" then
        match (value.member? "limit").bind Bson.asInt? with
        | some limit => if limit = 0 then .other else .limits limit.natAbs
        | none => .other
      else if name = "$count" then .limits 1
      else if keepingStages.contains name then .keeps
      else .other
  | _ => .other

def boundAfter (bound : Option ℕ) (stage : Document) : Option ℕ :=
  match stageKind stage, bound with
  | .limits limit, none => some limit
  | .limits limit, some bound => some (min limit bound)
  | .keeps, bound => bound
  | .other, _ => none

def pipelineBound (pipeline : List Document) : Option ℕ := pipeline.foldl boundAfter none

/-! ## Databases -/

structure Database where
  contents : String → String → List Document
  find : Document → FindOptions → List Document → Except String (List Document)
  runStage : Document → List Document → Except String (List Document)
  find_limit : ∀ filter options documents found limit,
    find filter options documents = .ok found → options.limit = some limit → limit ≠ 0 →
      found.length ≤ limit.natAbs
  stage_limits : ∀ stage documents found limit, stageKind stage = .limits limit →
    runStage stage documents = .ok found → found.length ≤ min limit documents.length
  stage_keeps : ∀ stage documents found, stageKind stage = .keeps →
    runStage stage documents = .ok found → found.length ≤ documents.length

namespace Database

variable (database : Database)

def aggregate (pipeline documents : List Document) : Except String (List Document) :=
  match pipeline with
  | [] => .ok documents
  | stage :: rest => (database.runStage stage documents).bind fun found ↦ aggregate rest found

/-- The documents that a call returns, if it is a query. -/
def reply (call : DriverCall) : Except String (List Document) :=
  match call.op with
  | .find filter options =>
      database.find filter options (database.contents call.database call.collection)
  | .aggregate pipeline =>
      database.aggregate pipeline (database.contents call.database call.collection)
  | _ => .error "not a query"

variable {database}

theorem length_le_of_stage {stage : Document} {documents found : List Document}
    {bound : Option ℕ} (hstage : database.runStage stage documents = .ok found)
    (hdocuments : ∀ limit ∈ bound, documents.length ≤ limit) :
    ∀ limit ∈ boundAfter bound stage, found.length ≤ limit := by
  intro limit hlimit
  unfold boundAfter at hlimit
  cases hkind : stageKind stage with
  | limits own =>
    have hfound := database.stage_limits stage documents found own hkind hstage
    cases bound with
    | none =>
      simp only [hkind, Option.mem_def, Option.some.injEq] at hlimit
      omega
    | some before =>
      have hbefore := hdocuments before rfl
      simp only [hkind, Option.mem_def, Option.some.injEq] at hlimit
      omega
  | keeps =>
    simp only [hkind] at hlimit
    exact Nat.le_trans (database.stage_keeps stage documents found hkind hstage)
      (hdocuments limit hlimit)
  | other =>
    simp [hkind] at hlimit

/-- A pipeline keeps to its bound. -/
theorem length_le_of_aggregate {pipeline documents found : List Document}
    (h : database.aggregate pipeline documents = .ok found) :
    ∀ limit ∈ pipelineBound pipeline, found.length ≤ limit := by
  have hgeneral : ∀ bound : Option ℕ, (∀ limit ∈ bound, documents.length ≤ limit) →
      ∀ limit ∈ pipeline.foldl boundAfter bound, found.length ≤ limit := by
    induction pipeline generalizing documents with
    | nil =>
      intro bound hdocuments
      obtain rfl := Except.ok.inj h
      exact hdocuments
    | cons stage rest ih =>
      intro bound hdocuments
      rw [aggregate] at h
      cases hstage : database.runStage stage documents with
      | error error =>
        rw [hstage] at h
        cases h
      | ok middle =>
        rw [hstage] at h
        exact ih h (boundAfter bound stage) (length_le_of_stage hstage hdocuments)
  exact hgeneral none fun limit hlimit ↦ by cases hlimit

/-! ## A database with many documents -/

/-- As many documents as a number says, whatever is asked, as far as limits allow. -/
def plenty (many : ℕ) : Database where
  contents _ _ := List.replicate many []
  find _ options documents := .ok (QueryLanguage.limited (options.limit.getD 0) documents)
  runStage stage documents :=
    match stageKind stage with
    | .limits limit => .ok (documents.take limit)
    | .keeps => .ok documents
    | .other => .ok (List.replicate many [])
  find_limit filter options documents found limit hfound hlimit hne := by
    obtain rfl := Except.ok.inj hfound
    rw [hlimit, Option.getD_some]
    exact QueryLanguage.length_limited_le hne documents
  stage_limits stage documents found limit hkind hfound := by
    rw [hkind] at hfound
    obtain rfl := Except.ok.inj hfound
    exact Nat.le_of_eq (List.length_take ..)
  stage_keeps stage documents found hkind hfound := by
    rw [hkind] at hfound
    obtain rfl := Except.ok.inj hfound
    exact Nat.le_refl _

/-- A pipeline returns as many documents as its bound allows. -/
theorem exists_aggregate_plenty (many : ℕ) (pipeline : List Document) :
    ∃ found, (plenty many).aggregate pipeline (List.replicate many []) = .ok found ∧
      found.length = ((pipelineBound pipeline).elim many fun limit ↦ min limit many) := by
  have hgeneral : ∀ (bound : Option ℕ) (documents : List Document),
      documents.length = (bound.elim many fun limit ↦ min limit many) →
      ∃ found, (plenty many).aggregate pipeline documents = .ok found ∧
        found.length = ((pipeline.foldl boundAfter bound).elim many fun limit ↦ min limit many) := by
    induction pipeline with
    | nil => exact fun bound documents hlength ↦ ⟨documents, rfl, hlength⟩
    | cons stage rest ih =>
      intro bound documents hlength
      obtain ⟨middle, hstage, hmiddle⟩ : ∃ middle, (plenty many).runStage stage documents = .ok middle ∧
          middle.length = ((boundAfter bound stage).elim many fun limit ↦ min limit many) := by
        unfold boundAfter
        cases hkind : stageKind stage with
        | limits limit =>
          refine ⟨documents.take limit, by simp [plenty, hkind], ?_⟩
          rw [List.length_take, hlength]
          cases bound with
          | none => rfl
          | some before => exact (Nat.min_assoc limit before many).symm
        | keeps => exact ⟨documents, by simp [plenty, hkind], hlength⟩
        | other =>
          refine ⟨List.replicate many [], by simp [plenty, hkind], ?_⟩
          exact List.length_replicate
      obtain ⟨found, hrest, hfound⟩ := ih _ middle hmiddle
      refine ⟨found, ?_, hfound⟩
      rw [aggregate, hstage]
      exact hrest
  exact hgeneral none _ List.length_replicate

end Database

end MongoCore.Data
