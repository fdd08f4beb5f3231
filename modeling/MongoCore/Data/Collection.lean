import MongoCore.Data.DriverCommand
import Mathlib.Data.List.Perm.Basic

/-!
# What commands mean on a collection

A collection is the list of its documents in natural order.  What a filter selects, how a sort
orders, what a projection shows and what an update does are given by a query language, of which
only this is assumed: a sort reorders, and an empty sort or projection changes nothing.

A find sorts, then skips, then limits, then projects.  An update with an upsert inserts a document
if the filter selects none.
-/

namespace MongoCore.Data

/-- The meaning of filters, sorts, projections and updates. -/
structure QueryLanguage where
  /-- The filter selects the document. -/
  selects : Document → Document → Bool
  /-- The documents in the order of a sort. -/
  sorted : Document → List Document → List Document
  /-- What a projection shows of a document. -/
  projected : Document → Document → Document
  /-- What an update makes of a document, if it changes it. -/
  changed : Document → Document → Option Document
  /-- The document that an upsert inserts for a filter and an update, with its id. -/
  seeded : Document → Document → Bson × Document
  sorted_perm : ∀ sort documents, (sorted sort documents).Perm documents
  sorted_nil : ∀ documents, sorted [] documents = documents
  projected_nil : ∀ document, projected [] document = document

namespace QueryLanguage

/-- At most as many documents as a limit says; zero is no limit, and the sign does not matter. -/
def limited (limit : ℤ) (documents : List Document) : List Document :=
  if limit = 0 then documents else documents.take limit.natAbs

variable (language : QueryLanguage)

def selection (filter sort : Document) (documents : List Document) : List Document :=
  language.sorted sort (documents.filter (language.selects filter))

def find (filter : Document) (options : FindOptions) (documents : List Document) :
    List Document :=
  let selection := language.selection filter (options.sort.getD []) documents
  (limited (options.limit.getD 0) (selection.drop (options.skip.getD 0))).map
    (language.projected (options.projection.getD []))

/-- The document that a find of one document returns, if there is one. -/
def findOne (filter : Document) (options : FindOptions) (documents : List Document) :
    Option Document :=
  (language.find filter { options with limit := some 1 } documents).head?

noncomputable def replaced (old new : Document) (documents : List Document) : List Document :=
  open Classical in documents.map fun document ↦ if document = old then new else document

/-- Update the first selected document, or insert one. -/
noncomputable def updateOne (filter update : Document) (upsert : Bool)
    (documents : List Document) : DriverReply × List Document :=
  match (language.selection filter [] documents).head? with
  | some document =>
      match language.changed update document with
      | some new => (.updated 1 1 none, replaced document new documents)
      | none => (.updated 1 0 none, documents)
  | none =>
      if upsert then
        let (id, new) := language.seeded filter update
        (.updated 0 0 (some id), documents ++ [new])
      else (.updated 0 0 none, documents)

/-- Update every selected document, or insert one. -/
def updateMany (filter update : Document) (upsert : Bool) (documents : List Document) :
    DriverReply × List Document :=
  let selection := language.selection filter [] documents
  if selection.isEmpty && upsert then
    let (id, new) := language.seeded filter update
    (.updated 0 0 (some id), documents ++ [new])
  else
    (.updated selection.length (selection.filterMap (language.changed update)).length none,
      documents.map fun document ↦
        if language.selects filter document then
          (language.changed update document).getD document
        else document)

/-- Update the first selected document in the order of a sort, or insert one, and return it. -/
noncomputable def findOneAndUpdate (filter update : Document) (options : FindAndModifyOptions)
    (documents : List Document) : DriverReply × List Document :=
  match (language.selection filter (options.sort.getD []) documents).head? with
  | some document =>
      let new := (language.changed update document).getD document
      (.document (some (if options.returnDocument = .before then document else new)),
        replaced document new documents)
  | none =>
      if options.upsert then
        let (_, new) := language.seeded filter update
        (.document (if options.returnDocument = .before then none else some new),
          documents ++ [new])
      else (.document none, documents)

noncomputable def run : DriverCommand → List Document → Option (DriverReply × List Document)
  | .find filter options, documents =>
      some (.documents (language.find filter options documents), documents)
  | .findOne filter options, documents =>
      some (.document (language.findOne filter options documents), documents)
  | .updateOne filter update upsert, documents =>
      some (language.updateOne filter update upsert documents)
  | .updateMany filter update upsert, documents =>
      some (language.updateMany filter update upsert documents)
  | .findOneAndUpdate filter update options, documents =>
      some (language.findOneAndUpdate filter update options documents)
  | _, _ => none

end QueryLanguage

/-- Commands that are the same, or have the same reply and the same effect on every collection. -/
def DriverCommand.Equivalent (first second : DriverCommand) : Prop :=
  first = second ∨ ∀ (language : QueryLanguage) (documents : List Document),
    ∃ outcome, language.run first documents = some outcome ∧
      language.run second documents = some outcome

theorem DriverCommand.Equivalent.run_eq {first second : DriverCommand}
    (h : first.Equivalent second) (language : QueryLanguage) (documents : List Document) :
    language.run first documents = language.run second documents := by
  rcases h with rfl | h
  · rfl
  · obtain ⟨outcome, hfirst, hsecond⟩ := h language documents
    rw [hfirst, hsecond]

/-! ## Options that change nothing -/

/-- Options that skip nothing, and neither sort nor project. -/
def FindOptions.PlainOrder (options : FindOptions) : Prop :=
  options.skip.getD 0 = 0 ∧ options.sort.getD [] = [] ∧ options.projection.getD [] = []

def FindOptions.Plain (options : FindOptions) : Prop :=
  options.limit.getD 0 = 0 ∧ options.PlainOrder

namespace QueryLanguage

/-- A language that selects everything, reverses to sort, and projects to nothing. -/
def everything : QueryLanguage where
  selects _ _ := true
  sorted
    | [], documents => documents
    | _ :: _, documents => documents.reverse
  projected
    | [], document => document
    | _ :: _, _ => []
  changed _ _ := none
  seeded _ _ := (.null, [])
  sorted_perm sort documents := by
    cases sort with
    | nil => exact List.Perm.refl _
    | cons => exact List.reverse_perm documents
  sorted_nil _ := rfl
  projected_nil _ := rfl

@[simp] theorem selection_everything (filter sort : Document) (documents : List Document) :
    everything.selection filter sort documents = everything.sorted sort documents := by
  have hfilter : documents.filter (everything.selects filter) = documents :=
    List.filter_eq_self.mpr fun _ _ ↦ rfl
  rw [selection, hfilter]

@[simp] theorem sorted_everything_singleton (sort document : Document) :
    everything.sorted sort [document] = [document] := by
  cases sort <;> rfl

theorem length_limited_le {limit : ℤ} (h : limit ≠ 0) (documents : List Document) :
    (limited limit documents).length ≤ limit.natAbs := by
  rw [limited, if_neg h]
  exact List.length_take_le ..

/-- A limit does not take the first document away. -/
theorem head?_limited (limit : ℤ) (documents : List Document) :
    (limited limit documents).head? = documents.head? := by
  rw [limited]
  split_ifs with hzero
  · rfl
  · rw [List.head?_take, if_neg (Int.natAbs_ne_zero.mpr hzero)]

/-- The first document of a find is what a find of one document returns. -/
theorem head?_find (language : QueryLanguage) (filter : Document) (options : FindOptions)
    (documents : List Document) :
    (language.find filter options documents).head? =
      language.findOne filter options documents := by
  simp only [findOne, find, List.head?_map, head?_limited]

/-- Only the limit counts if the other options change nothing. -/
theorem find_plainOrder (language : QueryLanguage) (filter : Document) {options : FindOptions}
    (h : options.PlainOrder) (documents : List Document) :
    language.find filter options documents =
      language.find filter { limit := options.limit } documents := by
  obtain ⟨hskip, hsort, hprojection⟩ := h
  simp [find, hskip, hsort, hprojection]

theorem findOne_plainOrder (language : QueryLanguage) (filter : Document) {options : FindOptions}
    (h : options.PlainOrder) (documents : List Document) :
    language.findOne filter options documents = language.findOne filter {} documents := by
  have hplain : ({ options with limit := some 1 } : FindOptions).PlainOrder := h
  rw [findOne, findOne, find_plainOrder language filter hplain]

/-- Options with which a find of one document finds the first document do not change the order. -/
theorem plainOrder_of_findOne {filter : Document} {options : FindOptions}
    (h : ∀ documents, everything.findOne filter options documents = documents.head?) :
    options.PlainOrder := by
  have hfind (documents : List Document) :
      ((everything.sorted (options.sort.getD []) documents).drop (options.skip.getD 0)).head?.map
        (everything.projected (options.projection.getD [])) = documents.head? := by
    have hdocuments := h documents
    rw [findOne, find] at hdocuments
    simpa [limited, List.head?_take] using hdocuments
  have hskip : options.skip.getD 0 = 0 := by
    by_contra hne
    have hone := hfind [[]]
    rw [sorted_everything_singleton, List.drop_of_length_le (by simp; omega)] at hone
    cases hone
  refine ⟨hskip, ?_, ?_⟩
  · cases hsort : options.sort.getD [] with
    | nil => rfl
    | cons key keys =>
      have hpair := hfind [[], [("", .null)]]
      rw [hsort, hskip] at hpair
      cases hprojection : options.projection.getD [] with
      | nil => simp [hprojection, everything] at hpair
      | cons field fields =>
        have hother := hfind [[("", .null)]]
        simp [hskip, hprojection, everything] at hother
  · cases hprojection : options.projection.getD [] with
    | nil => rfl
    | cons field fields =>
      have hsingle := hfind [[("", .null)]]
      simp [hskip, hprojection, everything] at hsingle

end QueryLanguage

/-! ## Which options make a difference -/

/-- A find of one document with options means the same as without if and only if the options
neither skip nor sort nor project. -/
theorem findOne_equivalent_iff (filter : Document) (options : FindOptions) :
    (DriverCommand.findOne filter {}).Equivalent (.findOne filter options) ↔
      options.PlainOrder := by
  constructor
  · intro h
    have hplain (documents : List Document) :
        QueryLanguage.everything.findOne filter {} documents = documents.head? := by
      have hprojected : QueryLanguage.everything.projected [] = id := rfl
      have hsorted : QueryLanguage.everything.sorted [] documents = documents := rfl
      simp [QueryLanguage.findOne, QueryLanguage.find, QueryLanguage.limited, hprojected, hsorted,
        List.head?_take]
    have hfind (documents : List Document) :
        QueryLanguage.everything.findOne filter options documents = documents.head? := by
      have heq := (h.run_eq .everything documents).symm
      simp only [QueryLanguage.run, Option.some.injEq, Prod.mk.injEq, DriverReply.document.injEq,
        and_true] at heq
      rw [heq, hplain]
    exact QueryLanguage.plainOrder_of_findOne hfind
  · intro h
    refine .inr fun language documents ↦ ⟨_, rfl, ?_⟩
    rw [QueryLanguage.run, QueryLanguage.findOne_plainOrder language filter h]

/-- An update means the same without its upsert if and only if it has none. -/
theorem updateOne_equivalent_iff (filter update : Document) (upsert : Bool) :
    (DriverCommand.updateOne filter update false).Equivalent (.updateOne filter update upsert) ↔
      upsert = false := by
  cases upsert with
  | false => exact iff_of_true (.inl rfl) rfl
  | true =>
    refine iff_of_false ?_ (by simp)
    intro h
    have heq := h.run_eq .everything []
    have hsorted : QueryLanguage.everything.sorted [] [] = [] := rfl
    simp [QueryLanguage.run, QueryLanguage.updateOne, hsorted] at heq

theorem updateMany_equivalent_iff (filter update : Document) (upsert : Bool) :
    (DriverCommand.updateMany filter update false).Equivalent
      (.updateMany filter update upsert) ↔ upsert = false := by
  cases upsert with
  | false => exact iff_of_true (.inl rfl) rfl
  | true =>
    refine iff_of_false ?_ (by simp)
    intro h
    have heq := h.run_eq .everything []
    have hsorted : QueryLanguage.everything.sorted [] [] = [] := rfl
    simp [QueryLanguage.run, QueryLanguage.updateMany, hsorted] at heq

end MongoCore.Data
