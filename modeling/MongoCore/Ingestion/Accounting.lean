import MongoCore.Ingestion.ConcurrentWrites
import Mathlib.Data.Finset.Card
import Mathlib.Data.List.Nodup

/-!
# The accounting of an ingestion job

A job that finishes has reported how many rows it processed, inserted, skipped and failed, and has
left dead letters.  The main result says when all of that is right, whichever way the job wrote its
table.

Nothing is claimed about jobs that are cancelled or fail, nor about dead letters and reports that
are lost.
-/

namespace MongoCore.Ingestion.Accounting

open MongoCore.Library.TransitionSystem

variable {V Row : Type}

/-! ## Finished jobs -/

/-- What a finished job leaves: its record, its dead letters, and its ledger. -/
structure Outcome (V : Type) where
  progress : Progress
  deadLetters : List (DeadLetterEntry V)
  accounts : List (Account V)

/-- A job finishes: with a dedup key its loop ends without an error, without one its tasks return
without having been cancelled. -/
inductive Finishes [BEq V] (server : Server V) (job : Job V Row) (table : List Row)
    (batchSize concurrency : ℕ) (collection : List (Document V)) : Outcome V → Prop where
  | sequential {state : State V} {progress : Progress} (hkey : job.dedupKey ≠ [])
      (h : reportChunks server job table batchSize table.length (State.start collection)
        Progress.start = some (.ok (state, progress))) :
      Finishes server job table batchSize concurrency collection
        ⟨progress, state.deadLetters,
          accountsOf server job table batchSize table.length (State.start collection)⟩
  | concurrent {events : List ConcurrentWrites.Event} {tasks : ConcurrentWrites.Tasks V}
      {accounts : List (Account V)} (hkey : job.dedupKey = [])
      (h : run (ConcurrentWrites.accountedStep job table batchSize concurrency)
        (ConcurrentWrites.Tasks.start concurrency collection, []) events = some (tasks, accounts))
      (hreturned : tasks.producer = .returned false) :
      Finishes server job table batchSize concurrency collection
        ⟨tasks.progress, tasks.deadLetters, accounts⟩

namespace Outcome

/-- The rows whose document was written to the collection. -/
def written (outcome : Outcome V) : Finset ℕ :=
  (outcome.accounts.flatMap Account.writtenRows).toFinset

/-- The rows that were counted as failed. -/
def failed (outcome : Outcome V) : List ℕ := outcome.accounts.flatMap Account.failedRows

/-- The accounting of a job is exact: every row is processed and counted, the rows counted as
inserted are as many as were written, and the dead letters are one for every row counted as failed,
with the row and its document. -/
structure Exact (job : Job V Row) (table : List Row) (outcome : Outcome V) : Prop where
  processed : outcome.progress.rowsProcessed = table.length
  counted : outcome.progress.rowsInserted + outcome.progress.rowsSkipped +
    outcome.progress.rowsFailed = table.length
  inserted : outcome.progress.rowsInserted = outcome.written.card
  failed : outcome.progress.rowsFailed = outcome.failed.length
  deadLettered : (outcome.deadLetters.map DeadLetterEntry.source).Perm
    (outcome.failed.map fun row ↦ (row, (documentOf job table row).getD Document.empty))

/-- The calls of a job came out such that its accounting is exact.  No row of a chunk that could not
be converted can be converted; where a call to insert failed, the rows to be inserted come first in
their chunk; and no replacement failed.  Failed calls to insert stored as many documents as
replacements found no document to replace.  With a dedup key, the last chunk could be converted. -/
structure Accurate (job : Job V Row) (table : List Row) (outcome : Outcome V) : Prop where
  fits : ∀ account ∈ outcome.accounts, account.Fits (documentOf job table)
  stored : (outcome.accounts.map Account.stored).sum = (outcome.accounts.map Account.missed).sum
  reported : job.dedupKey ≠ [] → lastConverted true outcome.accounts = true

end Outcome

/-! ## Rows are written once -/

theorem disjoint_rowsWhere {test other : DedupResult V → Bool}
    (h : ∀ result, test result = true → other result = false) (start : ℕ)
    (results : List (DedupResult V)) :
    ∀ row ∈ rowsWhere test start results, row ∉ rowsWhere other start results := by
  induction results generalizing start with
  | nil => simp [rowsWhere]
  | cons result results ih =>
    intro row hrow hother
    unfold rowsWhere at hrow hother
    have hlater : ∀ {some : DedupResult V → Bool}, row ∈ rowsWhere some (start + 1) results →
        start < row := fun hmem ↦ (mem_rowsWhere hmem).1
    split_ifs at hrow hother with htest hother'
    · exact Bool.false_ne_true ((h result htest).symm.trans hother')
    · rcases List.mem_cons.mp hrow with rfl | hrow
      · exact absurd (hlater hother) (lt_irrefl row)
      · exact ih (start + 1) row hrow hother
    · rcases List.mem_cons.mp hother with rfl | hother
      · exact absurd (hlater hrow) (lt_irrefl row)
      · exact ih (start + 1) row hrow hother
    · exact ih (start + 1) row hrow hother

theorem nodup_rowsReplaced (outcome : Replacement) {rows : List ℕ}
    (replacements : List Replacement) (h : rows.Nodup) :
    (rowsReplaced outcome rows replacements).Nodup := by
  induction rows generalizing replacements with
  | nil => simp [rowsReplaced]
  | cons row rows ih =>
    obtain ⟨hrow, hrows⟩ := List.nodup_cons.mp h
    cases replacements with
    | nil => simp [rowsReplaced]
    | cons replacement replacements =>
      unfold rowsReplaced
      split_ifs
      · exact List.nodup_cons.mpr ⟨fun hmem ↦ hrow (mem_of_mem_rowsReplaced hmem),
          ih replacements hrows⟩
      · exact ih replacements hrows

theorem mem_span_of_mem_writtenRows {account : Account V} {row : ℕ}
    (h : row ∈ account.writtenRows) :
    account.span.1 ≤ row ∧ row < account.span.1 + account.span.2 := by
  cases account with
  | unconverted offset size => cases h
  | written offset results failure replacements =>
    rcases List.mem_append.mp h with h | h
    · cases failure with
      | none => exact mem_rowsWhere h
      | some stored => exact mem_rowsWhere (List.mem_of_mem_take h)
    · exact mem_rowsWhere (mem_of_mem_rowsReplaced h)

theorem nodup_writtenRows_of_account (account : Account V) : account.writtenRows.Nodup := by
  cases account with
  | unconverted offset size => exact List.nodup_nil
  | written offset results failure replacements =>
    have hnodup : ∀ test : DedupResult V → Bool, (rowsWhere test offset results).Nodup :=
      fun test ↦ (pairwise_rowsWhere test offset results).imp Nat.ne_of_lt
    have hkinds : ∀ result : DedupResult V, result.isInsert = true →
        result.isReplacement = false := by
      intro result hresult
      cases result with
      | insert document => rfl
      | skip => cases hresult
      | replace document => cases hresult
      | merge incoming existing => cases hresult
    have hapart := disjoint_rowsWhere hkinds offset results
    have hreplaced := nodup_rowsReplaced .replaced replacements
      (hnodup DedupResult.isReplacement)
    unfold Account.writtenRows
    refine List.nodup_append.mpr ⟨?_, hreplaced, ?_⟩
    · cases failure with
      | none => exact hnodup _
      | some stored => exact (hnodup _).sublist (List.take_sublist _ _)
    · rintro row hrow _ hother rfl
      refine hapart row ?_ (mem_of_mem_rowsReplaced hother)
      cases failure with
      | none => exact hrow
      | some stored => exact List.mem_of_mem_take hrow

/-- No row is written in two chunks. -/
theorem nodup_writtenRows {accounts : List (Account V)} {total : ℕ}
    (htiles : Tiles (accounts.map Account.span) total) :
    (accounts.flatMap Account.writtenRows).Nodup := by
  rw [List.nodup_flatMap]
  refine ⟨fun account _ ↦ nodup_writtenRows_of_account account, ?_⟩
  refine (List.pairwise_map.mp htiles.disjoint).imp fun hdisjoint row hrow hother ↦ ?_
  have := mem_span_of_mem_writtenRows hrow
  have := mem_span_of_mem_writtenRows hother
  omega

/-! ## When the accounting is exact -/

section Exact

variable {job : Job V Row} {table : List Row} {outcome : Outcome V}

/-- What a finished job leaves of its ledger, whichever way it wrote its table.  The record shows
the counters of the ledger, or, if it lags, fewer rows than the table has. -/
structure Closed (job : Job V Row) (table : List Row) (outcome : Outcome V) (reported : Prop) :
    Prop where
  valid : ∀ account ∈ outcome.accounts, account.Valid (documentOf job table)
  tiles : Tiles (outcome.accounts.map Account.span) table.length
  deadLetters : (outcome.deadLetters.map DeadLetterEntry.source).Perm
    (outcome.accounts.flatMap Account.entries)
  rowsInserted : outcome.progress.rowsInserted =
    (outcome.accounts.map Account.rowsInserted).sum
  rowsSkipped : outcome.progress.rowsSkipped = (outcome.accounts.map Account.rowsSkipped).sum
  shown : reported → outcome.progress.rowsProcessed = table.length ∧
    outcome.progress.rowsFailed = outcome.failed.length
  lags : ¬ reported → outcome.progress.rowsProcessed < table.length

/-- The dead letters are right exactly if every account fits, the counter of the inserted rows
exactly if the stray documents cancel out, and the other counters exactly if they are reported. -/
theorem Closed.exact_iff {reported : Prop} (h : Closed job table outcome reported) :
    outcome.Exact job table ↔
      (∀ account ∈ outcome.accounts, account.Fits (documentOf job table)) ∧
        (outcome.accounts.map Account.stored).sum =
          (outcome.accounts.map Account.missed).sum ∧ reported := by
  have hletters : (outcome.deadLetters.map DeadLetterEntry.source).Perm
      (outcome.failed.map fun row ↦ (row, (documentOf job table row).getD Document.empty)) ↔
      ∀ account ∈ outcome.accounts, account.Fits (documentOf job table) :=
    (List.Perm.congr_left h.deadLetters _).trans (entries_perm_failedRows_iff h.valid h.tiles)
  have hcard : outcome.written.card = (outcome.accounts.flatMap Account.writtenRows).length :=
    List.toFinset_card_of_nodup (nodup_writtenRows h.tiles)
  have hinserted : outcome.progress.rowsInserted = outcome.written.card ↔
      (outcome.accounts.map Account.stored).sum = (outcome.accounts.map Account.missed).sum := by
    rw [h.rowsInserted, hcard]
    exact sum_rowsInserted_eq_iff h.valid
  constructor
  · intro hexact
    refine ⟨hletters.mp hexact.deadLettered, hinserted.mp hexact.inserted, ?_⟩
    by_contra hnot
    exact (h.lags hnot).ne hexact.processed
  · rintro ⟨hfits, hstored, hreported⟩
    obtain ⟨hprocessed, hfailed⟩ := h.shown hreported
    refine ⟨hprocessed, ?_, hinserted.mpr hstored, hfailed, hletters.mpr hfits⟩
    have hsum := sum_counters h.valid h.tiles
    rw [h.rowsInserted, h.rowsSkipped, hfailed, Outcome.failed, List.length_flatMap]
    exact hsum

variable [BEq V] {server : Server V} {batchSize concurrency : ℕ} {collection : List (Document V)}

theorem sequential_closed (hbatch : 0 < batchSize) {state : State V} {progress : Progress}
    (h : reportChunks server job table batchSize table.length (State.start collection)
      Progress.start = some (.ok (state, progress))) :
    Closed job table ⟨progress, state.deadLetters,
        accountsOf server job table batchSize table.length (State.start collection)⟩
      (lastConverted true
        (accountsOf server job table batchSize table.length (State.start collection)) = true) := by
  have hstart : Reported true (State.start collection) Progress.start := ⟨rfl, rfl, rfl, rfl⟩
  have haccounted := reportChunks_accounted hbatch (Nat.zero_le _) hstart h
  obtain ⟨hinserted, hskipped, hprocessed⟩ := haccounted.reported
  have htotal : state.rowsProcessed = table.length := by
    have hrows := haccounted.adds.rowsProcessed
    rw [haccounted.offset] at hrows
    simpa [State.start] using hrows
  have hfailed : state.rowsFailed = ((accountsOf server job table batchSize table.length
      (State.start collection)).flatMap Account.failedRows).length := by
    rw [List.length_flatMap, haccounted.adds.rowsFailed]
    exact Nat.zero_add _
  refine ⟨haccounted.valid, ?_, ?_, ?_, ?_, fun hconverted ↦ ?_, fun hconverted ↦ ?_⟩
  · have htiles := haccounted.tiles [] Tiles.nil
    rwa [List.append_nil] at htiles
  · exact List.Perm.of_eq haccounted.adds.deadLetters
  · rw [hinserted, haccounted.adds.rowsInserted]
    exact Nat.zero_add _
  · rw [hskipped, haccounted.adds.rowsSkipped]
    exact Nat.zero_add _
  · rw [if_pos hconverted] at hprocessed
    exact ⟨hprocessed.1.trans htotal, hprocessed.2.trans hfailed⟩
  · rw [if_neg hconverted] at hprocessed
    exact hprocessed.trans_eq htotal

omit [BEq V] in
theorem concurrent_closed (hconcurrency : 0 < concurrency)
    {events : List ConcurrentWrites.Event} {tasks : ConcurrentWrites.Tasks V}
    {accounts : List (Account V)}
    (h : run (ConcurrentWrites.accountedStep job table batchSize concurrency)
      (ConcurrentWrites.Tasks.start concurrency collection, []) events = some (tasks, accounts))
    (hreturned : tasks.producer = .returned false) :
    Closed job table ⟨tasks.progress, tasks.deadLetters, accounts⟩ True := by
  have hsettled := ConcurrentWrites.settled_of_run hconcurrency h hreturned
  have hprogress := hsettled.progress
  refine ⟨hsettled.valid, hsettled.tiles, hsettled.deadLetters, ?_, ?_, fun _ ↦ ?_,
    fun hnot ↦ absurd trivial hnot⟩
  · rw [hprogress]
  · rw [hprogress, hsettled.skips]
  · rw [hprogress, Outcome.failed, List.length_flatMap]
    exact ⟨rfl, rfl⟩

/-- The accounting of a finished job is exact if and only if its calls came out such that it is. -/
theorem exact_iff_accurate (hbatch : 0 < batchSize) (hconcurrency : 0 < concurrency)
    (h : Finishes server job table batchSize concurrency collection outcome) :
    outcome.Exact job table ↔ outcome.Accurate job table := by
  cases h with
  | sequential hkey h =>
    rw [(sequential_closed hbatch h).exact_iff]
    exact ⟨fun ⟨hfits, hstored, hreported⟩ ↦ ⟨hfits, hstored, fun _ ↦ hreported⟩,
      fun haccurate ↦ ⟨haccurate.fits, haccurate.stored, haccurate.reported hkey⟩⟩
  | concurrent hkey h hreturned =>
    rw [(concurrent_closed hconcurrency h hreturned).exact_iff]
    exact ⟨fun ⟨hfits, hstored, _⟩ ↦ ⟨hfits, hstored, fun hnot ↦ absurd hkey hnot⟩,
      fun haccurate ↦ ⟨haccurate.fits, haccurate.stored, trivial⟩⟩

end Exact

/-! ## A call that stores a part of its batch -/

/-- A job that writes the numbers of a table, each in a document of its own. -/
def numbers : Job ℕ ℕ where
  fields := ["n"]
  seriesValueToBson := fun row _ ↦ .ok row
  dedupKey := []
  conflictStrategy := .skip

/-- A database in which a job with a dedup key meets no failure. -/
def willing : Server ℕ where
  fieldMatches := fun key value document ↦ document.get key == some value
  cancelled := fun _ ↦ false
  queryFailure := fun _ ↦ none
  insertFailure := fun _ ↦ none
  replaceFails := fun _ _ ↦ false

/-- The one batch of two rows is inserted by one writer. -/
def oneBatch (failure : Option (ℕ × String)) (pushes : List ConcurrentWrites.Event) :
    List ConcurrentWrites.Event :=
  [.convert, .close, .receive 0, .insertMany 0 failure] ++ pushes ++ [.exit 0, .join]

/-- The accounting is exact where the database takes both rows. -/
theorem exact_of_oneBatch : ∃ outcome,
    Finishes willing numbers [1, 2] 2 1 [] outcome ∧ outcome.Exact numbers [1, 2] := by
  have h : run (ConcurrentWrites.accountedStep numbers [1, 2] 2 1)
      (ConcurrentWrites.Tasks.start 1 [], []) (oneBatch none []) = some _ := rfl
  have hrun : Finishes willing numbers [1, 2] 2 1 [] _ := .concurrent rfl h rfl
  refine ⟨_, hrun, (exact_iff_accurate (by decide) (by decide) hrun).mpr ⟨?_, rfl, ?_⟩⟩
  · intro account haccount
    obtain rfl := List.mem_singleton.mp haccount
    exact ⟨fun hfailure ↦ absurd hfailure Bool.false_ne_true, List.not_mem_nil⟩
  · exact fun hkey ↦ absurd rfl hkey

/-- The second of two documents has a key that is there already: the call fails and has stored the
first one, which is not counted as inserted. -/
theorem not_exact_of_duplicateKey : ¬ ∀ outcome : Outcome ℕ,
    Finishes willing numbers [1, 2] 2 1 [] outcome → outcome.Exact numbers [1, 2] := by
  intro hexact
  have h : run (ConcurrentWrites.accountedStep numbers [1, 2] 2 1)
      (ConcurrentWrites.Tasks.start 1 [], [])
      (oneBatch (some (1, "E11000 duplicate key error")) [.push 0, .push 0, .push 0]) =
        some _ := rfl
  have hrun : Finishes willing numbers [1, 2] 2 1 [] _ := .concurrent rfl h rfl
  have hinserted := (hexact _ hrun).inserted
  exact absurd hinserted (by decide)

end MongoCore.Ingestion.Accounting
