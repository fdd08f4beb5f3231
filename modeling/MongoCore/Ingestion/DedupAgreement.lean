import Mathlib.Data.Int.Notation
import MongoCore.Ingestion.Dedup

/-!
# Two notions of equality in the check of a batch

The check of a batch compares keys twice.  The database finds the stored documents by the filters
of the rows, with an equality of its own: numbers are compared across their types, and null is
also the value of a missing field.  Among the documents found, a row is then matched in memory
with the strict equality of values.

The database's comparison stays a parameter.  A row that finds a document is a conflict if and
only if some document found has strictly its key values.
-/

namespace MongoCore.Ingestion

variable {V : Type}

/-! ## What is found, and what is matched -/

/-- The stored documents that the query of a batch returns. -/
def existingDocuments (fieldMatches : String → V → Document V → Bool) (dedupKey : List String)
    (collection documents : List (Document V)) : List (Document V) :=
  findAny fieldMatches (documents.filterMap (buildDedupFilter dedupKey)) collection

/-- The comparison in memory: every field of the dedup key has strictly the same value. -/
def sameKeyValues [BEq V] (dedupKey : List String) (filter old : Document V) : Bool :=
  dedupKey.all fun key ↦ filter.get key == old.get key

/-- The result of one row, by the stored documents that the query returned. -/
def classify [BEq V] (dedupKey : List String) (strategy : ConflictStrategy)
    (existing : List (Document V)) (document : Document V) : DedupResult V :=
  match buildDedupFilter dedupKey document with
  | none => .insert document
  | some filter =>
      match existing.find? (sameKeyValues dedupKey filter) with
      | none => .insert document
      | some old => resolveConflict strategy document old

theorem resolveConflict_ne_insert (strategy : ConflictStrategy)
    (incoming existing document : Document V) :
    resolveConflict strategy incoming existing ≠ .insert document := by
  cases strategy <;> intro heq <;> cases heq

theorem findAny_nil (fieldMatches : String → V → Document V → Bool)
    (collection : List (Document V)) : findAny fieldMatches [] collection = [] := by
  simp [findAny]

/-- With a dedup key and a query that succeeds, every row is classified by what was found. -/
theorem checkBatch_eq_map_classify [BEq V] (fieldMatches : String → V → Document V → Bool)
    {dedupKey : List String} (hkey : dedupKey ≠ []) (strategy : ConflictStrategy)
    (collection documents : List (Document V)) :
    checkBatch fieldMatches none dedupKey strategy collection documents =
      .ok (documents.map (classify dedupKey strategy
        (existingDocuments fieldMatches dedupKey collection documents))) := by
  have hnonempty : dedupKey.isEmpty = false := List.isEmpty_eq_false_iff.mpr hkey
  unfold checkBatch existingDocuments
  rw [hnonempty]
  cases hfilters : documents.filterMap (buildDedupFilter dedupKey) with
  | nil => rw [findAny_nil]; rfl
  | cons filter filters => rfl

theorem classify_of_filter [BEq V] {dedupKey : List String} {document filter : Document V}
    (hfilter : buildDedupFilter dedupKey document = some filter) (strategy : ConflictStrategy)
    (existing : List (Document V)) :
    classify dedupKey strategy existing document =
      match existing.find? (sameKeyValues dedupKey filter) with
      | none => .insert document
      | some old => resolveConflict strategy document old := by
  unfold classify
  rw [hfilter]

/-! ## One row -/

/-- A document that was found has strictly the key values of a filter.  A document to merge with is
the first such one, and has to be one that the filter itself finds. -/
def StrictlyFound [BEq V] (fieldMatches : String → V → Document V → Bool) (dedupKey : List String)
    (strategy : ConflictStrategy) (existing : List (Document V)) (filter : Document V) : Prop :=
  ∃ front old back, existing = front ++ old :: back ∧
    sameKeyValues dedupKey filter old = true ∧
    (strategy = .merge → matchesFilter fieldMatches filter old = true ∧
      ∀ other ∈ front, sameKeyValues dedupKey filter other = false)

/-- A row is a conflict with a document that its filter finds. -/
def Conflicts (fieldMatches : String → V → Document V → Bool) (strategy : ConflictStrategy)
    (existing : List (Document V)) (filter document : Document V) (result : DedupResult V) :
    Prop :=
  ∃ old ∈ existing, matchesFilter fieldMatches filter old = true ∧
    result = resolveConflict strategy document old

theorem find?_eq_some_of_split {p : Document V → Bool} {front back : List (Document V)}
    {old : Document V} (hold : p old = true) (hfront : ∀ other ∈ front, p other = false) :
    (front ++ old :: back).find? p = some old := by
  rw [List.find?_eq_some_iff_append]
  refine ⟨hold, front, back, rfl, fun other hother ↦ ?_⟩
  rw [hfront other hother]
  rfl

/-- Only a merge says which document the conflict is with. -/
theorem resolveConflict_eq_of_ne_merge {strategy : ConflictStrategy} (h : strategy ≠ .merge)
    (document old other : Document V) :
    resolveConflict strategy document old = resolveConflict strategy document other := by
  cases strategy with
  | skip => rfl
  | overwrite => rfl
  | merge => exact absurd rfl h

/-- A row whose filter finds a document is a conflict with such a document if and only if one that
was found has strictly its key values. -/
theorem conflicts_classify_iff [BEq V] {fieldMatches : String → V → Document V → Bool}
    {dedupKey : List String} {strategy : ConflictStrategy} {existing : List (Document V)}
    {document filter : Document V} (hfilter : buildDedupFilter dedupKey document = some filter)
    (hfound : ∃ old ∈ existing, matchesFilter fieldMatches filter old = true) :
    Conflicts fieldMatches strategy existing filter document
        (classify dedupKey strategy existing document) ↔
      StrictlyFound fieldMatches dedupKey strategy existing filter := by
  rw [classify_of_filter hfilter]
  constructor
  · rintro ⟨old, hold, hmatches, hresult⟩
    cases hfind : existing.find? (sameKeyValues dedupKey filter) with
    | none =>
      rw [hfind] at hresult
      exact absurd hresult.symm (resolveConflict_ne_insert _ _ _ _)
    | some first =>
      rw [hfind] at hresult
      obtain ⟨hsame, front, back, hsplit, hfront⟩ := List.find?_eq_some_iff_append.mp hfind
      refine ⟨front, first, back, hsplit, hsame, fun hmerge ↦ ⟨?_, fun other hother ↦ ?_⟩⟩
      · subst hmerge
        obtain rfl : first = old := (DedupResult.merge.inj hresult).2
        exact hmatches
      · exact Bool.not_eq_true' _ ▸ hfront other hother
  · rintro ⟨front, old, back, rfl, hsame, hmerge⟩
    by_cases hstrategy : strategy = .merge
    · obtain ⟨hmatches, hfront⟩ := hmerge hstrategy
      rw [find?_eq_some_of_split hsame hfront]
      exact ⟨old, by simp, hmatches, rfl⟩
    · obtain ⟨other, hother, hmatches⟩ := hfound
      have hsome : ((front ++ old :: back).find? (sameKeyValues dedupKey filter)).isSome = true := by
        rw [List.find?_isSome]
        exact ⟨old, by simp, hsame⟩
      obtain ⟨first, hfirst⟩ := Option.isSome_iff_exists.mp hsome
      rw [hfirst]
      exact ⟨other, hother, hmatches, resolveConflict_eq_of_ne_merge hstrategy _ _ _⟩

/-! ## The batch -/

/-- Every row of a batch whose filter finds a stored document is classified as a conflict with such
a document. -/
def AgreesWithDatabase [BEq V] (fieldMatches : String → V → Document V → Bool)
    (dedupKey : List String) (strategy : ConflictStrategy)
    (collection documents : List (Document V)) : Prop :=
  ∃ results, checkBatch fieldMatches none dedupKey strategy collection documents = .ok results ∧
    ∀ (i : ℕ) (document filter : Document V), documents[i]? = some document →
      dedupKey ≠ [] → buildDedupFilter dedupKey document = some filter →
      (∃ old ∈ existingDocuments fieldMatches dedupKey collection documents,
        matchesFilter fieldMatches filter old = true) →
      ∃ result, results[i]? = some result ∧
        Conflicts fieldMatches strategy
          (existingDocuments fieldMatches dedupKey collection documents) filter document result

/-- The check agrees with the database if and only if every row that finds a stored document has
strictly the key values of one that the batch finds. -/
theorem agreesWithDatabase_iff [BEq V] (fieldMatches : String → V → Document V → Bool)
    (dedupKey : List String) (strategy : ConflictStrategy)
    (collection documents : List (Document V)) :
    AgreesWithDatabase fieldMatches dedupKey strategy collection documents ↔
      ∀ document ∈ documents, ∀ filter, dedupKey ≠ [] →
        buildDedupFilter dedupKey document = some filter →
        (∃ old ∈ existingDocuments fieldMatches dedupKey collection documents,
          matchesFilter fieldMatches filter old = true) →
        StrictlyFound fieldMatches dedupKey strategy
          (existingDocuments fieldMatches dedupKey collection documents) filter := by
  constructor
  · rintro ⟨results, hresults, hrows⟩ document hdocument filter hkey hfilter hfound
    obtain ⟨i, hi⟩ := List.getElem?_of_mem hdocument
    obtain ⟨result, hresult, hconflicts⟩ := hrows i document filter hi hkey hfilter hfound
    rw [checkBatch_eq_map_classify _ hkey] at hresults
    obtain rfl := Except.ok.inj hresults
    rw [List.getElem?_map, hi] at hresult
    obtain rfl := Option.some.inj hresult
    exact (conflicts_classify_iff hfilter hfound).mp hconflicts
  · intro hstrict
    by_cases hkey : dedupKey = []
    · subst hkey
      exact ⟨_, rfl, fun i document filter hi hne ↦ absurd rfl hne⟩
    · refine ⟨_, checkBatch_eq_map_classify _ hkey _ _ _, ?_⟩
      intro i document filter hi _ hfilter hfound
      refine ⟨_, by rw [List.getElem?_map, hi]; rfl, ?_⟩
      apply (conflicts_classify_iff hfilter hfound).mpr
      exact hstrict document (List.mem_of_getElem? hi) filter hkey hfilter hfound

/-- Null and integers of two widths, equal in the code when width and value are. -/
inductive Scalar where
  | null
  | int32 (value : Int32)
  | int64 (value : Int64)
  deriving DecidableEq

def Scalar.number : Scalar → Option ℤ
  | .null => none
  | .int32 value => some value.toInt
  | .int64 value => some value.toInt

/-- The comparison of the database: by the numbers, with null for a missing field. -/
def scalarMatches (key : String) (value : Scalar) (document : Document Scalar) : Bool :=
  ((document.get key).getD .null).number == value.number

/-- A stored long five is found for an integer five and a document without the field for a null,
and both rows are inserted. -/
theorem not_agreesWithDatabase_scalars :
    ¬ AgreesWithDatabase scalarMatches ["n"] .skip [Document.empty.insert "n" (.int64 5)]
        [Document.empty.insert "n" (.int32 5)] ∧
      ¬ AgreesWithDatabase scalarMatches ["n"] .skip [Document.empty]
        [Document.empty.insert "n" .null] := by
  constructor
  · rintro ⟨results, hresults, hrows⟩
    obtain rfl := Except.ok.inj hresults
    obtain ⟨result, hresult, old, -, -, hskip⟩ :=
      hrows 0 _ _ rfl (by decide) rfl
        ⟨Document.empty.insert "n" (.int64 5), List.mem_singleton_self _, by decide⟩
    obtain rfl := Option.some.inj hresult
    cases hskip
  · rintro ⟨results, hresults, hrows⟩
    obtain rfl := Except.ok.inj hresults
    obtain ⟨result, hresult, old, -, -, hskip⟩ :=
      hrows 0 _ _ rfl (by decide) rfl ⟨Document.empty, List.mem_singleton_self _, by decide⟩
    obtain rfl := Option.some.inj hresult
    cases hskip

end MongoCore.Ingestion
