import MongoCore.Ingestion.Engine
import Mathlib.Algebra.BigOperators.Group.List.Basic
import Mathlib.Algebra.GroupWithZero.Nat
import Mathlib.Data.List.Perm.Basic
import Mathlib.Data.List.Sort
import Mathlib.Data.List.Zip

/-!
# What a job says about its rows

The rows of a table come in chunks, and every chunk has an account: which rows the check let in,
which it skipped, which replaced a document, and how the calls to the database came out.  The
account says which rows were written, which were counted in which counter, and which dead letters
were left.

A ledger is the list of the accounts of a job.  The main results say when the counters and the dead
letters of a ledger are right, in terms of how the calls came out.
-/

namespace MongoCore.Ingestion

variable {V : Type}

/-! ## Accounts -/

/-- How the call for one replacement came out: it failed, it replaced a document, or it succeeded
and found no document to replace. -/
inductive Replacement where
  | failed | replaced | missed
  deriving DecidableEq, Repr

/-- How the rows of a chunk fared.  A failed call to insert is there with the number of documents
that it stored. -/
inductive Account (V : Type) where
  | unconverted (offset size : ℕ)
  | written (offset : ℕ) (results : List (DedupResult V)) (failure : Option ℕ)
      (replacements : List Replacement)

def DedupResult.isInsert : DedupResult V → Bool
  | .insert _ => true
  | .skip | .replace _ | .merge _ _ => false

def DedupResult.isReplacement : DedupResult V → Bool
  | .replace _ | .merge _ _ => true
  | .insert _ | .skip => false

/-- The rows whose results satisfy a test; the first result is that of a given row. -/
def rowsWhere (test : DedupResult V → Bool) : ℕ → List (DedupResult V) → List ℕ
  | _, [] => []
  | row, result :: results =>
      if test result then row :: rowsWhere test (row + 1) results
      else rowsWhere test (row + 1) results

/-- The rows whose replacement came out in one way. -/
def rowsReplaced (outcome : Replacement) : List ℕ → List Replacement → List ℕ
  | row :: rows, replacement :: replacements =>
      if replacement = outcome then row :: rowsReplaced outcome rows replacements
      else rowsReplaced outcome rows replacements
  | _, _ => []

namespace Account

/-- The first row of the chunk and the number of its rows. -/
def span : Account V → ℕ × ℕ
  | .unconverted offset size => (offset, size)
  | .written offset results _ _ => (offset, results.length)

def isConverted : Account V → Bool
  | .unconverted _ _ => false
  | .written _ _ _ _ => true

/-- The rows that are counted as failed. -/
def failedRows : Account V → List ℕ
  | .unconverted offset size => List.range' offset size
  | .written offset results failure replacements =>
      (if failure.isSome then rowsWhere DedupResult.isInsert offset results else []) ++
        rowsReplaced .failed (rowsWhere DedupResult.isReplacement offset results) replacements

/-- The rows whose document was written to the collection. -/
def writtenRows : Account V → List ℕ
  | .unconverted _ _ => []
  | .written offset results failure replacements =>
      (match failure with
        | none => rowsWhere DedupResult.isInsert offset results
        | some stored => (rowsWhere DedupResult.isInsert offset results).take stored) ++
        rowsReplaced .replaced (rowsWhere DedupResult.isReplacement offset results) replacements

def rowsInserted : Account V → ℕ
  | .unconverted _ _ => 0
  | .written _ results failure replacements =>
      (if failure.isSome then 0 else (toInsert results).length) +
        replacements.countP fun replacement ↦ replacement ≠ .failed

def rowsSkipped : Account V → ℕ
  | .unconverted _ _ => 0
  | .written _ results _ _ => skipped results

/-- The dead letters of the chunk: what they name as the row and the document. -/
def entries : Account V → List (ℕ × Document V)
  | .unconverted offset size => (List.range' offset size).map fun row ↦ (row, Document.empty)
  | .written offset results failure _ =>
      if failure.isSome then ((toInsert results).zipIdx offset).map fun (document, row) ↦
        (row, document)
      else []

/-- The number of documents that a failed call to insert stored. -/
def stored : Account V → ℕ
  | .unconverted _ _ => 0
  | .written _ results failure _ => (failure.map (min (toInsert results).length)).getD 0

/-- The number of replacements that found no document to replace. -/
def missed : Account V → ℕ
  | .unconverted _ _ => 0
  | .written _ _ _ replacements => replacements.count .missed

/-- What an account of a table looks like.  A row that cannot be converted has no document. -/
def Valid (documentOf : ℕ → Option (Document V)) : Account V → Prop
  | .unconverted offset size =>
      ∀ row ∈ List.range' offset size, documentOf row ≠ some Document.empty
  | .written offset results _ replacements =>
      replacements.length = (toReplace results).length ∧
        ∀ i document, results[i]? = some (.insert document) →
          documentOf (offset + i) = some document

/-- The dead letters of the chunk are right: no row of a chunk that is not converted can be
converted; if the call to insert failed, the rows that were to be inserted come first in the chunk;
and no replacement failed. -/
def Fits (documentOf : ℕ → Option (Document V)) : Account V → Prop
  | .unconverted offset size => ∀ row ∈ List.range' offset size, documentOf row = none
  | .written offset results failure replacements =>
      (failure.isSome → rowsWhere DedupResult.isInsert offset results =
          List.range' offset (toInsert results).length) ∧
        Replacement.failed ∉ replacements

end Account

/-! ## Rows of a chunk -/

theorem length_rowsWhere_isInsert (row : ℕ) (results : List (DedupResult V)) :
    (rowsWhere DedupResult.isInsert row results).length = (toInsert results).length := by
  induction results generalizing row with
  | nil => rfl
  | cons result results ih =>
    cases result <;> simp [rowsWhere, DedupResult.isInsert, toInsert] at ih ⊢ <;> apply ih

theorem length_rowsWhere_isReplacement (row : ℕ) (results : List (DedupResult V)) :
    (rowsWhere DedupResult.isReplacement row results).length = (toReplace results).length := by
  induction results generalizing row with
  | nil => rfl
  | cons result results ih =>
    cases result <;> simp [rowsWhere, DedupResult.isReplacement, toReplace] at ih ⊢ <;> apply ih

theorem mem_rowsWhere {test : DedupResult V → Bool} {row start : ℕ}
    {results : List (DedupResult V)} (h : row ∈ rowsWhere test start results) :
    start ≤ row ∧ row < start + results.length := by
  induction results generalizing start with
  | nil => cases h
  | cons result results ih =>
    unfold rowsWhere at h
    rw [List.length_cons]
    split_ifs at h
    · cases h with
      | head => omega
      | tail _ h =>
        have := ih h
        omega
    · have := ih h
      omega

/-- Rows are listed in their order. -/
theorem pairwise_rowsWhere (test : DedupResult V → Bool) (start : ℕ)
    (results : List (DedupResult V)) : (rowsWhere test start results).Pairwise (· < ·) := by
  induction results generalizing start with
  | nil => exact List.Pairwise.nil
  | cons result results ih =>
    unfold rowsWhere
    split_ifs
    · refine List.pairwise_cons.mpr ⟨fun row hrow ↦ ?_, ih (start + 1)⟩
      have := (mem_rowsWhere hrow).1
      omega
    · exact ih (start + 1)

theorem mem_of_mem_rowsReplaced {outcome : Replacement} {row : ℕ} {rows : List ℕ}
    {replacements : List Replacement} (h : row ∈ rowsReplaced outcome rows replacements) :
    row ∈ rows := by
  induction rows generalizing replacements with
  | nil => simp [rowsReplaced] at h
  | cons first rows ih =>
    cases replacements with
    | nil => simp [rowsReplaced] at h
    | cons replacement replacements =>
      unfold rowsReplaced at h
      split_ifs at h
      · cases h with
        | head => exact List.mem_cons_self
        | tail _ h => exact List.mem_cons_of_mem _ (ih h)
      · exact List.mem_cons_of_mem _ (ih h)

theorem length_rowsReplaced (outcome : Replacement) {rows : List ℕ}
    {replacements : List Replacement} (h : replacements.length = rows.length) :
    (rowsReplaced outcome rows replacements).length = replacements.count outcome := by
  induction rows generalizing replacements with
  | nil =>
    obtain rfl := List.length_eq_zero_iff.mp h
    rfl
  | cons row rows ih =>
    cases replacements with
    | nil => cases h
    | cons replacement replacements =>
      have hrest := ih (Nat.succ.inj h)
      unfold rowsReplaced
      rw [List.count_cons]
      split_ifs with hkind <;> simp_all

/-- Every row of a chunk is let in, skipped, or replaces a document. -/
theorem length_results (results : List (DedupResult V)) :
    (toInsert results).length + skipped results + (toReplace results).length = results.length := by
  induction results with
  | nil => rfl
  | cons result results ih =>
    cases result <;> simp [toInsert, skipped, toReplace] at ih ⊢ <;> omega

/-- Every replacement failed, replaced a document or missed. -/
theorem count_replacements (replacements : List Replacement) :
    replacements.count .failed + replacements.count .replaced + replacements.count .missed =
      replacements.length := by
  induction replacements with
  | nil => rfl
  | cons replacement replacements ih =>
    cases replacement <;> simp at ih ⊢ <;> omega

theorem countP_ne_failed (replacements : List Replacement) :
    (replacements.countP fun replacement ↦ replacement ≠ .failed) =
      replacements.count .replaced + replacements.count .missed := by
  induction replacements with
  | nil => rfl
  | cons replacement replacements ih =>
    cases replacement <;> simp at ih ⊢ <;> omega

/-! ## One account -/

namespace Account

variable {documentOf : ℕ → Option (Document V)} {account : Account V}

/-- Every row is counted once. -/
theorem counted (h : account.Valid documentOf) :
    account.rowsInserted + account.rowsSkipped + account.failedRows.length = account.span.2 := by
  cases account with
  | unconverted offset size => simp [rowsInserted, rowsSkipped, failedRows, span]
  | written offset results failure replacements =>
    have hlength : (rowsReplaced .failed (rowsWhere DedupResult.isReplacement offset results)
        replacements).length = replacements.count .failed :=
      length_rowsReplaced _ (h.1.trans (length_rowsWhere_isReplacement offset results).symm)
    have hresults := length_results results
    have hcount := count_replacements replacements
    have hreplace := h.1
    simp only [rowsInserted, rowsSkipped, failedRows, span]
    rw [countP_ne_failed, List.length_append, hlength]
    split_ifs
    · rw [length_rowsWhere_isInsert]
      omega
    · rw [List.length_nil]
      omega

/-- How the counter of the inserted rows and the rows that were written differ. -/
theorem rowsInserted_add_stored (h : account.Valid documentOf) :
    account.rowsInserted + account.stored = account.writtenRows.length + account.missed := by
  cases account with
  | unconverted offset size => rfl
  | written offset results failure replacements =>
    have hlength : (rowsReplaced .replaced (rowsWhere DedupResult.isReplacement offset results)
        replacements).length = replacements.count .replaced :=
      length_rowsReplaced _ (h.1.trans (length_rowsWhere_isReplacement offset results).symm)
    simp only [rowsInserted, stored, writtenRows, missed]
    rw [countP_ne_failed, List.length_append, hlength]
    cases failure with
    | none =>
      simp only [Option.isSome_none, Bool.false_eq_true, if_false, length_rowsWhere_isInsert,
        Option.map_none, Option.getD_none]
      omega
    | some stored =>
      simp only [Option.isSome_some, if_true, List.length_take, length_rowsWhere_isInsert,
        Option.map_some, Option.getD_some]
      omega

theorem mem_span_of_mem_failedRows {row : ℕ} (h : row ∈ account.failedRows) :
    account.span.1 ≤ row ∧ row < account.span.1 + account.span.2 := by
  cases account with
  | unconverted offset size => exact List.mem_range'_1.mp h
  | written offset results failure replacements =>
    rcases List.mem_append.mp h with h | h
    · split_ifs at h
      · exact mem_rowsWhere h
      · cases h
    · exact mem_rowsWhere (mem_of_mem_rowsReplaced h)

theorem mem_span_of_mem_entries {entry : ℕ × Document V} (h : entry ∈ account.entries) :
    account.span.1 ≤ entry.1 ∧ entry.1 < account.span.1 + account.span.2 := by
  cases account with
  | unconverted offset size =>
    obtain ⟨row, hrow, rfl⟩ := List.mem_map.mp h
    exact List.mem_range'_1.mp hrow
  | written offset results failure replacements =>
    simp only [entries] at h
    split_ifs at h
    · obtain ⟨⟨document, row⟩, hmem, rfl⟩ := List.mem_map.mp h
      have hrange := List.mem_zipIdx hmem
      have hresults := length_results results
      simp only [span]
      omega
    · cases h

/-- The documents that are to be inserted are those of the rows that are to be inserted. -/
theorem zip_toInsert {start : ℕ} {results : List (DedupResult V)}
    (h : ∀ i document, results[i]? = some (.insert document) →
      documentOf (start + i) = some document) :
    (rowsWhere DedupResult.isInsert start results).zip (toInsert results) =
      (rowsWhere DedupResult.isInsert start results).map fun row ↦
        (row, (documentOf row).getD Document.empty) := by
  induction results generalizing start with
  | nil => rfl
  | cons result results ih =>
    have hrest := @ih (start + 1) fun i document hi ↦ by
      rw [Nat.add_assoc, Nat.add_comm 1 i]
      exact h (i + 1) document hi
    cases result with
    | insert document =>
      have hfirst : documentOf start = some document := h 0 document rfl
      have hunfold : toInsert (.insert document :: results) = document :: toInsert results := rfl
      rw [hunfold]
      simp only [rowsWhere, DedupResult.isInsert, if_true, List.zip_cons_cons, List.map_cons, hrest,
        hfirst, Option.getD_some]
    | skip => exact hrest
    | replace document => exact hrest
    | merge incoming existing => exact hrest

theorem map_swap_zipIdx (documents : List (Document V)) (offset : ℕ) :
    ((documents.zipIdx offset).map fun (document, row) ↦ (row, document)) =
      (List.range' offset documents.length).zip documents := by
  rw [List.zipIdx_eq_zip_range']
  exact List.zip_swap documents (List.range' offset documents.length)

/-- The dead letters of an account are those of its failed rows exactly if it fits. -/
theorem entries_perm_iff (h : account.Valid documentOf) :
    account.entries.Perm (account.failedRows.map fun row ↦
        (row, (documentOf row).getD Document.empty)) ↔ account.Fits documentOf := by
  cases account with
  | unconverted offset size =>
    have hfits : (Account.unconverted offset size : Account V).Fits documentOf ↔
        ∀ row ∈ List.range' offset size, Document.empty = (documentOf row).getD Document.empty := by
      refine forall₂_congr fun row hrow ↦ ?_
      have hrow := h row hrow
      cases hdocument : documentOf row with
      | none => simp
      | some document =>
        simp only [reduceCtorEq, Option.getD_some, false_iff]
        exact fun heq ↦ hrow (hdocument.trans (congrArg some heq.symm))
    rw [hfits]
    constructor
    · intro hperm row hrow
      have hmem : (row, (documentOf row).getD Document.empty) ∈
          (Account.unconverted offset size : Account V).entries :=
        hperm.mem_iff.mpr (List.mem_map.mpr ⟨row, hrow, rfl⟩)
      obtain ⟨other, -, heq⟩ := List.mem_map.mp hmem
      exact (Prod.ext_iff.mp heq).2
    · intro hall
      apply List.Perm.of_eq
      exact List.map_congr_left fun row hrow ↦ by rw [← hall row hrow]
  | written offset results failure replacements =>
    have hreplaced : (rowsReplaced .failed (rowsWhere DedupResult.isReplacement offset results)
        replacements).length = replacements.count .failed :=
      length_rowsReplaced _ (h.1.trans (length_rowsWhere_isReplacement offset results).symm)
    have hzip := zip_toInsert h.2
    have hlength := length_rowsWhere_isInsert offset results
    simp only [entries, failedRows, Fits]
    constructor
    · intro hperm
      have hcount := hperm.length_eq
      have hnone : replacements.count .failed = 0 := by
        rw [List.length_map, List.length_append, hreplaced] at hcount
        split_ifs at hcount
        · simp only [List.length_map, List.length_zipIdx] at hcount
          omega
        · simpa using hcount.symm
      refine ⟨fun hfailure ↦ ?_, List.count_eq_zero.mp hnone⟩
      rw [List.length_eq_zero_iff.mp (hreplaced.trans hnone), List.append_nil, if_pos hfailure,
        if_pos hfailure, map_swap_zipIdx] at hperm
      have hrows := hperm.map Prod.fst
      rw [List.map_fst_zip (by simp), List.map_map] at hrows
      have hid : (Prod.fst ∘ fun row ↦ (row, (documentOf row).getD Document.empty)) = id := rfl
      rw [hid, List.map_id] at hrows
      -- both lists of rows are increasing
      exact (hrows.eq_of_pairwise' (List.pairwise_lt_range' ..) (pairwise_rowsWhere _ _ _)).symm
    · rintro ⟨hinPlace, hfailed⟩
      have hnil : rowsReplaced .failed (rowsWhere DedupResult.isReplacement offset results)
          replacements = [] := by
        rw [← List.length_eq_zero_iff, hreplaced]
        exact List.count_eq_zero.mpr hfailed
      rw [hnil, List.append_nil]
      split_ifs with hfailure
      · rw [map_swap_zipIdx, ← hinPlace hfailure, hzip]
      · exact List.Perm.nil

end Account

/-! ## The ledger of a job -/

/-- Chunks that do not overlap and cover the rows before a bound. -/
structure Tiles (spans : List (ℕ × ℕ)) (bound : ℕ) : Prop where
  disjoint : spans.Pairwise fun a b ↦ a.1 + a.2 ≤ b.1 ∨ b.1 + b.2 ≤ a.1
  below : ∀ a ∈ spans, a.1 + a.2 ≤ bound
  sum : (spans.map Prod.snd).sum = bound

theorem Tiles.nil : Tiles [] 0 := ⟨List.Pairwise.nil, by simp, rfl⟩

theorem Tiles.perm {spans others : List (ℕ × ℕ)} {bound : ℕ} (h : Tiles spans bound)
    (hperm : spans.Perm others) : Tiles others bound where
  disjoint := (hperm.pairwise_iff fun h ↦ h.symm).mp h.disjoint
  below := fun a ha ↦ h.below a (hperm.mem_iff.mpr ha)
  sum := ((hperm.map Prod.snd).sum_eq).symm.trans h.sum

/-- The next chunk starts where the last one ends. -/
theorem Tiles.cons {spans : List (ℕ × ℕ)} {bound : ℕ} (h : Tiles spans bound) (size : ℕ) :
    Tiles ((bound, size) :: spans) (bound + size) where
  disjoint := List.pairwise_cons.mpr ⟨fun a ha ↦ .inr (h.below a ha), h.disjoint⟩
  below := by
    rw [List.forall_mem_cons]
    exact ⟨le_rfl, fun a ha ↦ (h.below a ha).trans (Nat.le_add_right bound size)⟩
  sum := by
    rw [List.map_cons, List.sum_cons, h.sum]
    exact Nat.add_comm size bound

/-- Lists that come in separate blocks are permutations of each other block by block. -/
theorem flatMap_perm_flatMap_iff {α β : Type*} (belongs : α → β → Prop) {blocks : List α}
    {f g : α → List β} (hf : ∀ a ∈ blocks, ∀ x ∈ f a, belongs a x)
    (hg : ∀ a ∈ blocks, ∀ x ∈ g a, belongs a x)
    (hseparate : blocks.Pairwise fun a b ↦ ∀ x, belongs a x → ¬ belongs b x) :
    (blocks.flatMap f).Perm (blocks.flatMap g) ↔ ∀ a ∈ blocks, (f a).Perm (g a) := by
  classical
  refine ⟨?_, fun h ↦ List.Perm.flatMap_left blocks h⟩
  induction blocks with
  | nil => simp
  | cons a blocks ih =>
    obtain ⟨hfirst, hrest⟩ := List.pairwise_cons.mp hseparate
    have hfilter : ∀ {k : α → List β}, (∀ b ∈ a :: blocks, ∀ x ∈ k b, belongs b x) →
        ((a :: blocks).flatMap k).filter (belongs a ·) = k a := by
      intro k hk
      rw [List.flatMap_cons, List.filter_append]
      have hin : (k a).filter (belongs a ·) = k a :=
        List.filter_eq_self.mpr fun x hx ↦ decide_eq_true (hk a List.mem_cons_self x hx)
      have hout : (blocks.flatMap k).filter (belongs a ·) = [] := by
        rw [List.filter_eq_nil_iff]
        intro x hx hbelongs
        obtain ⟨b, hb, hx⟩ := List.mem_flatMap.mp hx
        exact hfirst b hb x (of_decide_eq_true hbelongs) (hk b (List.mem_cons_of_mem _ hb) x hx)
      rw [hin, hout, List.append_nil]
    intro hperm
    have hhead : (f a).Perm (g a) := by
      have := hperm.filter (belongs a ·)
      rwa [hfilter hf, hfilter hg] at this
    rw [List.flatMap_cons, List.flatMap_cons] at hperm
    have htail : (blocks.flatMap f).Perm (blocks.flatMap g) :=
      (List.perm_append_left_iff (g a)).mp ((hhead.symm.append_right _).trans hperm)
    exact List.forall_mem_cons.mpr ⟨hhead, ih (fun b hb ↦ hf b (List.mem_cons_of_mem _ hb))
      (fun b hb ↦ hg b (List.mem_cons_of_mem _ hb)) hrest htail⟩

section Ledger

variable {documentOf : ℕ → Option (Document V)} {accounts : List (Account V)} {total : ℕ}

/-- The dead letters of a job are those of its failed rows exactly if every account fits. -/
theorem entries_perm_failedRows_iff (hvalid : ∀ account ∈ accounts, account.Valid documentOf)
    (htiles : Tiles (accounts.map Account.span) total) :
    (accounts.flatMap Account.entries).Perm ((accounts.flatMap Account.failedRows).map fun row ↦
        (row, (documentOf row).getD Document.empty)) ↔
      ∀ account ∈ accounts, account.Fits documentOf := by
  have hseparate := List.pairwise_map.mp htiles.disjoint
  rw [List.map_flatMap, flatMap_perm_flatMap_iff
    (fun account entry ↦ account.span.1 ≤ entry.1 ∧ entry.1 < account.span.1 + account.span.2)
    (fun account _ entry hentry ↦ Account.mem_span_of_mem_entries hentry)]
  · exact forall₂_congr fun account haccount ↦ Account.entries_perm_iff (hvalid account haccount)
  · intro account _ entry hentry
    obtain ⟨row, hrow, rfl⟩ := List.mem_map.mp hentry
    exact Account.mem_span_of_mem_failedRows hrow
  · exact hseparate.imp fun hdisjoint entry hin ↦ by omega

/-- Every row of the table is in exactly one counter. -/
theorem sum_counters (hvalid : ∀ account ∈ accounts, account.Valid documentOf)
    (htiles : Tiles (accounts.map Account.span) total) :
    (accounts.map Account.rowsInserted).sum + (accounts.map Account.rowsSkipped).sum +
      (accounts.map fun account ↦ account.failedRows.length).sum = total := by
  have hsizes := htiles.sum
  rw [List.map_map] at hsizes
  calc (accounts.map Account.rowsInserted).sum + (accounts.map Account.rowsSkipped).sum +
        (accounts.map fun account ↦ account.failedRows.length).sum
      = (accounts.map fun account ↦ account.rowsInserted + account.rowsSkipped +
          account.failedRows.length).sum := by
        rw [List.sum_map_add, List.sum_map_add]
    _ = (accounts.map fun account ↦ account.span.2).sum :=
        congrArg List.sum (List.map_congr_left fun account haccount ↦
          Account.counted (hvalid account haccount))
    _ = total := hsizes

/-- The counter of the inserted rows is the number of the rows that were written exactly if failed
calls stored as many documents as replacements found none to replace. -/
theorem sum_rowsInserted_eq_iff (hvalid : ∀ account ∈ accounts, account.Valid documentOf) :
    (accounts.map Account.rowsInserted).sum = (accounts.flatMap Account.writtenRows).length ↔
      (accounts.map Account.stored).sum = (accounts.map Account.missed).sum := by
  have hsum : (accounts.map Account.rowsInserted).sum + (accounts.map Account.stored).sum =
      (accounts.flatMap Account.writtenRows).length + (accounts.map Account.missed).sum := by
    rw [List.length_flatMap, ← List.sum_map_add, ← List.sum_map_add]
    exact congrArg List.sum (List.map_congr_left fun account haccount ↦
      Account.rowsInserted_add_stored (hvalid account haccount))
  omega

end Ledger

end MongoCore.Ingestion
