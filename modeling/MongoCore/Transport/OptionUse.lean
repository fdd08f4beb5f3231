import MongoCore.Data.DriverCommand
import MongoCore.Transport.Options

/-!
# Options that reach the database

Two requests for the same operation with the same arguments may differ in their options.  The
options that dispatch hands on make the commands differ; the others are dropped, so that requests
that differ in them alone are served alike.
-/

namespace MongoCore.Transport

open MongoCore.Data

/-! ## Commands -/

/-- The command that an operation sends.  The check of raw commands comes before. -/
def OperationCall.request : OperationCall → DriverRequest
  | .findOne db collection filter => ⟨db, collection, .findOne filter {}⟩
  | .findRaw db collection filter options =>
      ⟨db, collection, .find filter (driverOptions options)⟩
  | .insert db collection document => ⟨db, collection, .insertOne document⟩
  | .insertMany db collection documents => ⟨db, collection, .insertMany documents true⟩
  | .update db collection filter change => ⟨db, collection, .updateOne filter change false⟩
  | .updateMany db collection filter change => ⟨db, collection, .updateMany filter change false⟩
  | .delete db collection filter => ⟨db, collection, .deleteOne filter⟩
  | .deleteMany db collection filter => ⟨db, collection, .deleteMany filter⟩
  | .aggregateRaw db collection pipeline => ⟨db, collection, .aggregate pipeline none⟩
  | .countDocuments db collection filter => ⟨db, collection, .countDocuments filter⟩
  | .runCommand db command => ⟨db, "", .runCommand command⟩
  | .createIndex db collection keys options =>
      ⟨db, collection, .createIndex keys (options.bind (·.name)) (options.bind (·.unique))
        (options.bind (·.sparse))⟩
  | .listCollectionNames db => ⟨db, "", .listCollections⟩
  | .createCollection db name => ⟨db, name, .createCollection⟩
  | .dropCollection db name => ⟨db, name, .dropCollection⟩
  | .distinct db collection field filter => ⟨db, collection, .distinct field filter⟩
  | .findAndModify db collection filter change =>
      ⟨db, collection, .findOneAndUpdate filter change {}⟩

/-- The command that dispatch performs for a request, if it performs one. -/
def performed (library : BsonLibrary) (rawDocs : Bytes) (request : OperationRequest) :
    Option DriverRequest :=
  match route library rawDocs request with
  | .error _ => none
  | .ok dispatched => some dispatched.call.request

/-! ## Options -/

/-- The options of a request, by name.  Without a filter, `distinct` looks at every document, as
with the empty one. -/
def OperationRequest.options : OperationRequest → List (String × Option Carried)
  | .findOne _ _ _ projection => [("projection", projection.map .document)]
  | .find _ _ _ options batchSize _ =>
      [("limit", (options.bind (·.limit)).map .integer),
        ("skip", (options.bind (·.skip)).map fun n : ℕ ↦ .integer n),
        ("sort", (options.bind (·.sort)).map .document),
        ("projection", (options.bind (·.projection)).map .document),
        ("batch_size", batchSize.map fun n ↦ .integer n.toNat)]
  | .insertMany _ _ ordered _ | .bulkWrite _ _ _ ordered => [("ordered", some (.flag ordered))]
  | .aggregate _ _ _ batchSize => [("batch_size", batchSize.map fun n ↦ .integer n.toNat)]
  | .createIndex _ _ _ name unique => [("name", name.map .text), ("unique", unique.map .flag)]
  | .distinct _ _ _ filter => [("filter", some (.document (filter.getD [])))]
  | _ => []

/-- Requests for the same operation with the same arguments; the options may differ. -/
inductive SameOperation : OperationRequest → OperationRequest → Prop
  | refl (r : OperationRequest) : SameOperation r r
  | findOne (db collection : String) (filter : Document) (p₁ p₂ : Option Document) :
      SameOperation (.findOne db collection filter p₁) (.findOne db collection filter p₂)
  | find (db collection : String) (filter : Document) (o₁ o₂ : Option FindOptions)
      (b₁ b₂ : Option UInt32) (l₁ l₂ : UInt32) :
      SameOperation (.find db collection filter o₁ b₁ l₁) (.find db collection filter o₂ b₂ l₂)
  | insertMany (db collection : String) (o₁ o₂ : Bool) (l₁ l₂ : UInt32) :
      SameOperation (.insertMany db collection o₁ l₁) (.insertMany db collection o₂ l₂)
  | bulkWrite (db collection : String) (l₁ l₂ : UInt32) (o₁ o₂ : Bool) :
      SameOperation (.bulkWrite db collection l₁ o₁) (.bulkWrite db collection l₂ o₂)
  | aggregate (db collection : String) (pipeline : List Document) (b₁ b₂ : Option UInt32) :
      SameOperation (.aggregate db collection pipeline b₁) (.aggregate db collection pipeline b₂)
  | createIndex (db collection : String) (keys : Document) (n₁ n₂ : Option String)
      (u₁ u₂ : Option Bool) :
      SameOperation (.createIndex db collection keys n₁ u₁)
        (.createIndex db collection keys n₂ u₂)
  | distinct (db collection field : String) (f₁ f₂ : Option Document) :
      SameOperation (.distinct db collection field f₁) (.distinct db collection field f₂)

def OperationRequest.dropped : OperationRequest → List String
  | .findOne .. => ["projection"]
  | .find .. | .aggregate .. => ["batch_size"]
  | .insertMany .. | .bulkWrite .. => ["ordered"]
  | _ => []

def OperationRequest.usedOptions (request : OperationRequest) : List (String × Option Carried) :=
  request.options.filter fun option ↦ option.1 ∉ request.dropped

/-- Whether the documents of a bulk request can be parsed; if not, it performs no command. -/
def bulkDocsParse (library : BsonLibrary) (rawDocs : Bytes) : OperationRequest → Bool
  | .insertMany .. | .bulkWrite .. => (parseBsonDocs library rawDocs).isOk
  | _ => true

/-- Requests for the same operation with the same arguments that differ in an option perform
different commands. -/
def Distinguishes (library : BsonLibrary) (rawDocs : Bytes) (r₁ r₂ : OperationRequest) : Prop :=
  SameOperation r₁ r₂ → r₁.options ≠ r₂.options →
    ∀ c₁ c₂, performed library rawDocs r₁ = some c₁ → performed library rawDocs r₂ = some c₂ →
      c₁ ≠ c₂

/-- Requests that differ in dropped options, and in nothing else. -/
def DifferInDropped (r₁ r₂ : OperationRequest) : Prop :=
  SameOperation r₁ r₂ ∧ r₁.options ≠ r₂.options ∧ r₁.usedOptions = r₂.usedOptions

theorem performed_bulk {library : BsonLibrary} {rawDocs : Bytes} {request : OperationRequest}
    (h : bulkDocsParse library rawDocs request = false) :
    performed library rawDocs request = none := by
  cases request with
  | insertMany | bulkWrite =>
    rw [bulkDocsParse] at h
    rw [performed, route]
    cases hdocs : parseBsonDocs library rawDocs with
    | error message => rfl
    | ok documents => simp [hdocs, Except.isOk, Except.toBool] at h
  | _ => cases h

theorem indexOptions_eq (name : Option String) (unique : Option Bool) :
    let options : Option IndexOptions :=
      if name.isSome || unique.isSome then some ⟨name, unique, none⟩ else none
    options.bind (·.name) = name ∧ options.bind (·.unique) = unique ∧
      options.bind (·.sparse) = none := by
  cases name <;> cases unique <;> exact ⟨rfl, rfl, rfl⟩

theorem exists_documents {library : BsonLibrary} {rawDocs : Bytes}
    (h : (parseBsonDocs library rawDocs).isOk = true) :
    ∃ documents, parseBsonDocs library rawDocs = .ok documents := by
  cases hdocs : parseBsonDocs library rawDocs with
  | error message => simp [hdocs, Except.isOk, Except.toBool] at h
  | ok documents => exact ⟨documents, rfl⟩

theorem exists_performed {library : BsonLibrary} {rawDocs : Bytes} {r₁ r₂ : OperationRequest}
    (h : SameOperation r₁ r₂) (hoptions : r₁.options ≠ r₂.options)
    (hdocs : bulkDocsParse library rawDocs r₁ = true) :
    ∃ c, performed library rawDocs r₁ = some c := by
  cases h with
  | refl => exact absurd rfl hoptions
  | insertMany | bulkWrite =>
    obtain ⟨documents, hdocuments⟩ := exists_documents hdocs
    rw [performed, route, hdocuments]
    exact ⟨_, rfl⟩
  | _ => exact ⟨_, rfl⟩

/-- Requests for the same operation perform the same command if and only if the options that are
used agree. -/
theorem performed_eq_iff {library : BsonLibrary} {rawDocs : Bytes} {r₁ r₂ : OperationRequest}
    (h : SameOperation r₁ r₂) (hdocs : bulkDocsParse library rawDocs r₁ = true) :
    performed library rawDocs r₁ = performed library rawDocs r₂ ↔
      r₁.usedOptions = r₂.usedOptions := by
  cases h with
  | refl => exact iff_of_true rfl rfl
  | findOne => exact iff_of_true rfl rfl
  | find db collection filter o₁ o₂ b₁ b₂ l₁ l₂ =>
    have hinteger : Function.Injective Carried.integer := fun _ _ ↦ Carried.integer.inj
    have hnatural : Function.Injective fun n : ℕ ↦ Carried.integer n :=
      fun _ _ h ↦ Int.natCast_inj.mp (hinteger h)
    have hdocument : Function.Injective Carried.document := fun _ _ ↦ Carried.document.inj
    simp only [performed, route, OperationCall.request, driverOptions_eq, Option.some.injEq,
      DriverRequest.mk.injEq, DriverCommand.find.injEq, FindOptions.mk.injEq, true_and, and_true]
    simp [OperationRequest.usedOptions, OperationRequest.options, OperationRequest.dropped,
      (Option.map_injective hinteger).eq_iff, (Option.map_injective hnatural).eq_iff,
      (Option.map_injective hdocument).eq_iff, -Option.map_bind]
  | insertMany db collection o₁ o₂ l₁ l₂ =>
    obtain ⟨documents, hdocuments⟩ := exists_documents hdocs
    apply iff_of_true
    · simp [performed, route, hdocuments, Except.map, OperationCall.request]
    · rfl
  | bulkWrite db collection l₁ l₂ o₁ o₂ =>
    obtain ⟨documents, hdocuments⟩ := exists_documents hdocs
    apply iff_of_true
    · simp [performed, route, hdocuments, Except.map, OperationCall.request]
    · rfl
  | aggregate => exact iff_of_true rfl rfl
  | createIndex db collection keys n₁ n₂ u₁ u₂ =>
    have htext : Function.Injective Carried.text := fun _ _ ↦ Carried.text.inj
    have hflag : Function.Injective Carried.flag := fun _ _ ↦ Carried.flag.inj
    simp only [performed, route, OperationCall.request, indexOptions_eq, Option.some.injEq,
      DriverRequest.mk.injEq, DriverCommand.createIndex.injEq, true_and, and_true]
    simp [OperationRequest.usedOptions, OperationRequest.options, OperationRequest.dropped,
      (Option.map_injective htext).eq_iff, (Option.map_injective hflag).eq_iff]
  | distinct db collection field f₁ f₂ =>
    simp [performed, route, OperationCall.request, OperationRequest.usedOptions,
      OperationRequest.options, OperationRequest.dropped]

/-- Requests are distinguished if and only if they do not differ in dropped options alone, or
perform no command. -/
theorem distinguishes_iff (library : BsonLibrary) (rawDocs : Bytes) (r₁ r₂ : OperationRequest) :
    Distinguishes library rawDocs r₁ r₂ ↔
      ¬ DifferInDropped r₁ r₂ ∨ bulkDocsParse library rawDocs r₁ = false := by
  cases hdocs : bulkDocsParse library rawDocs r₁ with
  | false =>
    have hnone := performed_bulk hdocs
    exact iff_of_true (fun _ _ c₁ _ h ↦ by rw [hnone] at h; cases h) (.inr rfl)
  | true =>
    rw [or_iff_left (by simp)]
    constructor
    · intro hdistinguishes ⟨hsame, hoptions, hused⟩
      have heq := (performed_eq_iff hsame hdocs).mpr hused
      obtain ⟨c, hc⟩ := exists_performed hsame hoptions hdocs
      exact hdistinguishes hsame hoptions c c hc (heq ▸ hc) rfl
    · intro hnot hsame hoptions c₁ c₂ h₁ h₂ heq
      have hperformed : performed library rawDocs r₁ = performed library rawDocs r₂ := by
        rw [h₁, h₂, heq]
      exact hnot ⟨hsame, hoptions, (performed_eq_iff hsame hdocs).mp hperformed⟩

/-- Finds of one document with and without a projection send the same command. -/
theorem projection_dropped :
    performed formatLibrary [] (.findOne "d" "c" [] (some [("_id", .int32 0)])) =
        performed formatLibrary [] (.findOne "d" "c" [] none) ∧
      ¬ Distinguishes formatLibrary [] (.findOne "d" "c" [] (some [("_id", .int32 0)]))
        (.findOne "d" "c" [] none) := by
  refine ⟨rfl, fun h ↦ ?_⟩
  have hsame := SameOperation.findOne "d" "c" [] (some [("_id", .int32 0)]) none
  exact h hsame (by simp [OperationRequest.options]) _ _ rfl rfl rfl

end MongoCore.Transport
