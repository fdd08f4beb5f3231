import MongoCore.Ingestion.Accounting
import MongoCore.Ingestion.Checkpoint
import Mathlib.Data.List.Pairwise
import Mathlib.Tactic.Tauto

/-!
# Resuming an ingestion job

The record of a job names the last committed chunk, from which the job is to go on after a crash.
The rows before it should all have been inserted, skipped as duplicates, or dead-lettered.

A job with a dedup key reports after each chunk that it could convert.  A row whose document is to
replace another one is not handled if the replacement fails, or finds no document.  The main result
puts this beside the condition for jobs without a dedup key.
-/

namespace MongoCore.Ingestion.Resumption

open MongoCore.Library.TransitionSystem MongoCore.Ingestion.Checkpoint

variable {V Row : Type}

/-! ## Rows of an account -/

/-- The rows that are skipped as duplicates. -/
def isSkip : DedupResult V → Bool
  | .skip => true
  | .insert _ | .replace _ | .merge _ _ => false

/-- The rows of a chunk that are written, skipped or dead-lettered. -/
def handledRows : Account V → List ℕ
  | .unconverted offset size => List.range' offset size
  | .written offset results failure replacements =>
      rowsWhere isSkip offset results ++
        (Account.written offset results failure replacements).writtenRows ++
          (if failure.isSome then rowsWhere DedupResult.isInsert offset results else [])

/-- Every replacement of a chunk replaces a document. -/
def AllReplaced : Account V → Prop
  | .unconverted _ _ => True
  | .written _ _ _ replacements => ∀ replacement ∈ replacements, replacement = .replaced

/-- There is a replacement for every row that needs one. -/
def Matched : Account V → Prop
  | .unconverted _ _ => True
  | .written _ results _ replacements => replacements.length = (toReplace results).length

/-- A row of the chunk is skipped, inserted or replaced. -/
theorem mem_rowsWhere_cases {start row : ℕ} {results : List (DedupResult V)} (hstart : start ≤ row)
    (hrow : row < start + results.length) :
    row ∈ rowsWhere isSkip start results ∨ row ∈ rowsWhere DedupResult.isInsert start results ∨
      row ∈ rowsWhere DedupResult.isReplacement start results := by
  induction results generalizing start with
  | nil =>
    rw [List.length_nil] at hrow
    omega
  | cons result results ih =>
    rw [List.length_cons] at hrow
    by_cases hfirst : row = start
    · subst hfirst
      cases result <;> simp [rowsWhere, isSkip, DedupResult.isInsert, DedupResult.isReplacement]
    · have hrest : ∀ {test : DedupResult V → Bool}, row ∈ rowsWhere test (start + 1) results →
          row ∈ rowsWhere test start (result :: results) := by
        intro test hmem
        rw [rowsWhere]
        split_ifs
        · exact List.mem_cons_of_mem _ hmem
        · exact hmem
      exact (ih (by omega) (by omega)).imp hrest (Or.imp hrest hrest)

/-- Replacements that all came out in one way are those of all rows. -/
theorem rowsReplaced_of_forall {outcome : Replacement} {rows : List ℕ}
    {replacements : List Replacement} (hlength : replacements.length = rows.length)
    (h : ∀ replacement ∈ replacements, replacement = outcome) :
    rowsReplaced outcome rows replacements = rows := by
  induction rows generalizing replacements with
  | nil =>
    obtain rfl := List.length_eq_zero_iff.mp hlength
    rfl
  | cons row rows ih =>
    cases replacements with
    | nil => cases hlength
    | cons replacement replacements =>
      obtain ⟨hfirst, hrest⟩ := List.forall_mem_cons.mp h
      rw [rowsReplaced, if_pos hfirst, ih (Nat.succ.inj hlength) hrest]

/-- A replacement that came out in another way is that of a row. -/
theorem exists_row_of_mem {outcome replacement : Replacement} {rows : List ℕ}
    {replacements : List Replacement} (hlength : replacements.length = rows.length)
    (hnodup : rows.Nodup) (hmem : replacement ∈ replacements) (hne : replacement ≠ outcome) :
    ∃ row ∈ rows, row ∉ rowsReplaced outcome rows replacements := by
  induction rows generalizing replacements with
  | nil =>
    obtain rfl := List.length_eq_zero_iff.mp hlength
    cases hmem
  | cons row rows ih =>
    cases replacements with
    | nil => cases hlength
    | cons first replacements =>
      obtain ⟨hrow, hnodup⟩ := List.nodup_cons.mp hnodup
      have hlater : row ∉ rowsReplaced outcome rows replacements := fun hmem ↦
        hrow (mem_of_mem_rowsReplaced hmem)
      by_cases hfirst : first = outcome
      · have hrest : replacement ∈ replacements :=
          (List.mem_cons.mp hmem).resolve_left fun heq ↦ hne (heq.trans hfirst)
        obtain ⟨other, hother, hnot⟩ := ih (Nat.succ.inj hlength) hnodup hrest
        refine ⟨other, List.mem_cons_of_mem _ hother, ?_⟩
        rw [rowsReplaced, if_pos hfirst, List.mem_cons, not_or]
        exact ⟨fun heq ↦ hrow (heq ▸ hother), hnot⟩
      · refine ⟨row, List.mem_cons_self, ?_⟩
        rwa [rowsReplaced, if_neg hfirst]

/-- The rows to be inserted are all handled: they are written or dead-lettered. -/
theorem mem_handledRows {row offset : ℕ} {results : List (DedupResult V)} {failure : Option ℕ}
    {replacements : List Replacement} :
    row ∈ handledRows (.written offset results failure replacements) ↔
      row ∈ rowsWhere isSkip offset results ∨ row ∈ rowsWhere DedupResult.isInsert offset results ∨
        row ∈ rowsReplaced .replaced (rowsWhere DedupResult.isReplacement offset results)
          replacements := by
  cases failure with
  | none => simp [handledRows, Account.writtenRows]
  | some stored =>
    have htake : row ∈ (rowsWhere DedupResult.isInsert offset results).take stored →
        row ∈ rowsWhere DedupResult.isInsert offset results := List.mem_of_mem_take
    simp only [handledRows, Account.writtenRows, List.mem_append, Option.isSome_some, if_true]
    tauto

/-- Only rows of the chunk are handled by its account. -/
theorem mem_span_of_mem_handledRows {account : Account V} {row : ℕ}
    (h : row ∈ handledRows account) :
    account.span.1 ≤ row ∧ row < account.span.1 + account.span.2 := by
  cases account with
  | unconverted offset size => exact List.mem_range'_1.mp h
  | written offset results failure replacements =>
    rcases mem_handledRows.mp h with h | h | h
    · exact mem_rowsWhere h
    · exact mem_rowsWhere h
    · exact mem_rowsWhere (mem_of_mem_rowsReplaced h)

/-- All rows of a chunk are handled exactly when all its replacements replace a document. -/
theorem handledRows_iff {account : Account V} (hmatched : Matched account) :
    (∀ row, account.span.1 ≤ row → row < account.span.1 + account.span.2 →
        row ∈ handledRows account) ↔ AllReplaced account := by
  cases account with
  | unconverted offset size =>
    exact iff_of_true (fun row hle hlt ↦ List.mem_range'_1.mpr ⟨hle, hlt⟩) trivial
  | written offset results failure replacements =>
    have hlength : replacements.length =
        (rowsWhere DedupResult.isReplacement offset results).length :=
      hmatched.trans (length_rowsWhere_isReplacement offset results).symm
    constructor
    · intro hall replacement hmem
      by_contra hne
      obtain ⟨row, hrow, hnot⟩ := exists_row_of_mem hlength
        ((pairwise_rowsWhere _ offset results).imp Nat.ne_of_lt) hmem hne
      have hkinds : ∀ test : DedupResult V → Bool,
          (∀ result, DedupResult.isReplacement result = true → test result = false) →
            row ∉ rowsWhere test offset results := fun test h ↦
        Accounting.disjoint_rowsWhere h offset results row hrow
      have hskip : row ∉ rowsWhere isSkip offset results :=
        hkinds isSkip fun result hresult ↦ by cases result <;> first | rfl | cases hresult
      have hinsert : row ∉ rowsWhere DedupResult.isInsert offset results :=
        hkinds DedupResult.isInsert fun result hresult ↦ by
          cases result <;> first | rfl | cases hresult
      obtain ⟨hle, hlt⟩ := mem_rowsWhere hrow
      rcases mem_handledRows.mp (hall row hle hlt) with hmem | hmem | hmem
      · exact hskip hmem
      · exact hinsert hmem
      · exact hnot hmem
    · intro hreplaced row hle hlt
      rw [mem_handledRows, rowsReplaced_of_forall hlength hreplaced]
      exact mem_rowsWhere_cases hle hlt

/-! ## The record of sequential writes -/

/-- Sequential writes after some rounds, with the accounts of their chunks and the checkpoint in the
record of the job. -/
structure Rounds (V : Type) where
  state : State V
  accounts : List (Account V)
  lastCommittedChunk : ℕ

/-- A job before its first round. -/
def Rounds.start (collection : List (Document V)) : Rounds V where
  state := State.start collection
  accounts := []
  lastCommittedChunk := 0

/-- Every row of the chunks before the checkpoint is handled. -/
def SafeRounds (table : List Row) (batchSize : ℕ) (rounds : Rounds V) : Prop :=
  ∀ row < table.length, row < rounds.lastCommittedChunk * batchSize →
    ∃ account ∈ rounds.accounts, row ∈ handledRows account

section Sequential

variable [BEq V] (server : Server V) (job : Job V Row) (table : List Row) (batchSize : ℕ)

def Rounds.chunk (rounds : Rounds V) : List Row :=
  (table.drop rounds.state.offset).take batchSize

/-- The report of a chunk is stored.  There is none for a chunk that cannot be converted. -/
def commits (chunk : List Row) (stored : Bool) : Bool :=
  match dataframeToDocuments job chunk with
  | .ok _ => stored
  | .error _ => false

/-- One round, whose report is stored or lost.  Until the report the record stays as it is. -/
def roundsStep (rounds : Rounds V) (stored : Bool) : Option (Rounds V) :=
  if rounds.state.offset < table.length then
    match writeChunk server job (rounds.chunk table batchSize) rounds.state with
    | .error _ => none
    | .ok next => some {
        state := next
        accounts := rounds.accounts ++
          [accountOf server job rounds.state (rounds.chunk table batchSize)]
        lastCommittedChunk :=
          if commits job (rounds.chunk table batchSize) stored then next.chunkNum
          else rounds.lastCommittedChunk }
  else none

/-- When a report is stored, every replacement so far has replaced a document. -/
def Replaced (rounds : Rounds V) (stored : Bool) : Prop :=
  ∀ next, roundsStep server job table batchSize rounds stored = some next →
    commits job (rounds.chunk table batchSize) stored = true →
      ∀ account ∈ next.accounts, AllReplaced account

variable {server job table batchSize}

/-- A round counts its chunk. -/
theorem chunkNum_writeChunk {chunk : List Row} {state next : State V}
    (h : writeChunk server job chunk state = .ok next) : next.chunkNum = state.chunkNum + 1 := by
  cases round_of_writeChunk h with
  | unconverted => rfl
  | @written documents results written hdocuments hcheck hnext haccount =>
    have hreplaces := replaceEach_replaces server job.dedupKey
      (insertMany server { state with rowsSkipped := state.rowsSkipped + skipped results }
        (toInsert results)) (toReplace results)
    have hinserts := insertMany_frame server
      { state with rowsSkipped := state.rowsSkipped + skipped results } (toInsert results)
    rw [← hnext] at hreplaces
    have hchunk : written.chunkNum = state.chunkNum := hreplaces.chunkNum.trans hinserts.2.2.1
    exact congrArg (· + 1) hchunk

omit [BEq V] in
/-- There is a replacement for every row of a valid account that needs one. -/
theorem Matched.of_valid {documentOf : ℕ → Option (Document V)} {account : Account V}
    (h : account.Valid documentOf) : Matched account := by
  cases account with
  | unconverted => exact trivial
  | written => exact h.1

variable (job table batchSize) in
/-- What a round adds: the account of its chunk, and its number if it commits it. -/
structure RoundAdds (rounds next : Rounds V) (stored : Bool) (account : Account V) : Prop where
  more : rounds.state.offset < table.length
  accounts : next.accounts = rounds.accounts ++ [account]
  matched : Matched account
  span : account.span = (rounds.state.offset, (rounds.chunk table batchSize).length)
  offset : next.state.offset = rounds.state.offset + (rounds.chunk table batchSize).length
  chunkNum : next.state.chunkNum = rounds.state.chunkNum + 1
  committed : next.lastCommittedChunk =
    if commits job (rounds.chunk table batchSize) stored then next.state.chunkNum
    else rounds.lastCommittedChunk

/-- A round that takes place adds the account of its chunk. -/
theorem exists_roundAdds {rounds next : Rounds V} {stored : Bool}
    (hstep : roundsStep server job table batchSize rounds stored = some next) :
    ∃ account, RoundAdds job table batchSize rounds next stored account := by
  rw [roundsStep] at hstep
  by_cases hmore : rounds.state.offset < table.length
  · rw [if_pos hmore] at hstep
    cases hwrite : writeChunk server job (rounds.chunk table batchSize) rounds.state with
    | error error =>
      rw [hwrite] at hstep
      cases hstep
    | ok after =>
      simp only [hwrite] at hstep
      obtain rfl := Option.some.inj hstep
      obtain ⟨hvalid, hspan⟩ := accountOf_valid hwrite
      have hoffset := (writeChunk_adds hwrite).offset
      rw [Rounds.chunk, hspan] at hoffset
      exact ⟨_, hmore, rfl, .of_valid hvalid, hspan, hoffset, chunkNum_writeChunk hwrite, rfl⟩
  · rw [if_neg hmore] at hstep
    cases hstep

/-! ## The invariant of the rounds -/

/-- No row lies in two accounts. -/
def Apart (account other : Account V) : Prop :=
  account.span.1 + account.span.2 ≤ other.span.1 ∨ other.span.1 + other.span.2 ≤ account.span.1

/-- The accounts cover the rows so far without overlap, and the checkpoint is safe. -/
structure SoundRounds (table : List Row) (batchSize : ℕ) (rounds : Rounds V) : Prop where
  offset : rounds.state.offset = min (rounds.state.chunkNum * batchSize) table.length
  matched : ∀ account ∈ rounds.accounts, Matched account
  below : ∀ account ∈ rounds.accounts, account.span.1 + account.span.2 ≤ rounds.state.offset
  apart : rounds.accounts.Pairwise Apart
  covered : ∀ row < rounds.state.offset, ∃ account ∈ rounds.accounts,
    account.span.1 ≤ row ∧ row < account.span.1 + account.span.2
  safe : SafeRounds table batchSize rounds

omit [BEq V] in
theorem start_soundRounds (collection : List (Document V)) :
    SoundRounds table batchSize (Rounds.start collection) where
  offset := by simp [Rounds.start, State.start]
  matched account haccount := absurd haccount List.not_mem_nil
  below account haccount := absurd haccount List.not_mem_nil
  apart := List.Pairwise.nil
  covered row hrow := absurd hrow (Nat.not_lt_zero row)
  safe row _ hrow := by
    rw [Rounds.start, Nat.zero_mul] at hrow
    exact absurd hrow (Nat.not_lt_zero row)

omit [BEq V] in
/-- Of accounts that cover the rows up to a bound without overlap, each handles all its rows exactly
when all replacements replace a document. -/
theorem handled_iff {accounts : List (Account V)} {bound : ℕ}
    (hmatched : ∀ account ∈ accounts, Matched account)
    (hbelow : ∀ account ∈ accounts, account.span.1 + account.span.2 ≤ bound)
    (hapart : accounts.Pairwise Apart)
    (hcovered : ∀ row < bound, ∃ account ∈ accounts,
      account.span.1 ≤ row ∧ row < account.span.1 + account.span.2) :
    (∀ row < bound, ∃ account ∈ accounts, row ∈ handledRows account) ↔
      ∀ account ∈ accounts, AllReplaced account := by
  constructor
  · intro hhandled account haccount
    refine (handledRows_iff (hmatched account haccount)).mp fun row hle hlt ↦ ?_
    obtain ⟨other, hother, hrow⟩ := hhandled row (hlt.trans_le (hbelow account haccount))
    have hsymm : Std.Symm (@Apart V) := ⟨fun _ _ h ↦ h.symm⟩
    have hsame : other = account := by
      by_contra hne
      have hdisjoint := hapart.forall hother haccount hne
      have hspan := mem_span_of_mem_handledRows hrow
      unfold Apart at hdisjoint
      omega
    rwa [hsame] at hrow
  · intro hreplaced row hrow
    obtain ⟨account, haccount, hle, hlt⟩ := hcovered row hrow
    exact ⟨account, haccount,
      (handledRows_iff (hmatched account haccount)).mpr (hreplaced account haccount) row hle hlt⟩

/-- Everything but the safety of the checkpoint is kept by every round, and the rows before a
checkpoint that is stored are handled exactly when every replacement so far has replaced a
document. -/
theorem SoundRounds.step {rounds next : Rounds V} {stored : Bool}
    (h : SoundRounds table batchSize rounds)
    (hstep : roundsStep server job table batchSize rounds stored = some next) :
    (SafeRounds table batchSize next → SoundRounds table batchSize next) ∧
      (SafeRounds table batchSize next ↔
        (commits job (rounds.chunk table batchSize) stored = true →
          ∀ account ∈ next.accounts, AllReplaced account)) := by
  obtain ⟨account, hadds⟩ := exists_roundAdds hstep
  have hlength : (rounds.chunk table batchSize).length =
      min batchSize (table.length - rounds.state.offset) := by
    rw [Rounds.chunk, List.length_take, List.length_drop]
  have hspan := hadds.span
  have hoffset : next.state.offset = min (next.state.chunkNum * batchSize) table.length := by
    have hbefore := h.offset
    have hmore := hadds.more
    rw [hadds.offset, hadds.chunkNum, hlength, Nat.succ_mul]
    omega
  have hmatched : ∀ account ∈ next.accounts, Matched account := by
    rw [hadds.accounts]
    exact List.forall_mem_append.mpr ⟨h.matched, List.forall_mem_singleton.mpr hadds.matched⟩
  have hbelow : ∀ account ∈ next.accounts,
      account.span.1 + account.span.2 ≤ next.state.offset := by
    rw [hadds.accounts, hadds.offset]
    refine List.forall_mem_append.mpr ⟨fun other hother ↦ ?_, List.forall_mem_singleton.mpr ?_⟩
    · exact (h.below other hother).trans (Nat.le_add_right _ _)
    · rw [hspan]
  have hapart : next.accounts.Pairwise Apart := by
    rw [hadds.accounts]
    refine List.pairwise_append.mpr ⟨h.apart, List.pairwise_singleton _ _, ?_⟩
    intro other hother last hlast
    rw [List.mem_singleton.mp hlast, Apart, hspan]
    exact .inl (h.below other hother)
  have hcovered : ∀ row < next.state.offset, ∃ account ∈ next.accounts,
      account.span.1 ≤ row ∧ row < account.span.1 + account.span.2 := by
    rw [hadds.accounts, hadds.offset]
    intro row hrow
    by_cases hbefore : row < rounds.state.offset
    · obtain ⟨other, hother, hrange⟩ := h.covered row hbefore
      exact ⟨other, List.mem_append_left _ hother, hrange⟩
    · refine ⟨account, List.mem_append_right _ (List.mem_singleton.mpr rfl), ?_⟩
      rw [hspan]
      exact ⟨not_lt.mp hbefore, hrow⟩
  refine ⟨fun hsafe ↦ ⟨hoffset, hmatched, hbelow, hapart, hcovered, hsafe⟩, ?_⟩
  cases hcommits : commits job (rounds.chunk table batchSize) stored with
  | true =>
    have hcommitted : next.lastCommittedChunk = next.state.chunkNum := by
      rw [hadds.committed, if_pos hcommits]
    rw [← handled_iff hmatched hbelow hapart hcovered, SafeRounds, hcommitted, hoffset]
    simp only [lt_min_iff, true_implies]
    exact ⟨fun hsafe row hrow ↦ hsafe row hrow.2 hrow.1,
      fun hhandled row htable hrow ↦ hhandled row ⟨hrow, htable⟩⟩
  | false =>
    have hcommitted : next.lastCommittedChunk = rounds.lastCommittedChunk := by
      rw [hadds.committed, if_neg (by rw [hcommits]; exact Bool.false_ne_true)]
    refine iff_of_true (fun row htable hrow ↦ ?_) (by simp)
    rw [hcommitted] at hrow
    obtain ⟨other, hother, hhandled⟩ := h.safe row htable hrow
    rw [hadds.accounts]
    exact ⟨other, List.mem_append_left _ hother, hhandled⟩

/-- Every checkpoint of a run is safe exactly when every report is stored at a moment when all
replacements so far have replaced a document. -/
theorem safeRounds_iff_replaced (collection : List (Document V)) (events : List Bool) :
    Throughout (roundsStep server job table batchSize) (SafeRounds table batchSize)
        (Rounds.start collection) events ↔
      StepsMeet (roundsStep server job table batchSize) (Replaced server job table batchSize)
        (Rounds.start collection) events := by
  have hgood : ∀ rounds : Rounds V, SoundRounds table batchSize rounds →
      SafeRounds table batchSize rounds := fun _ h ↦ h.safe
  refine throughout_iff_stepsMeet hgood ?_ ?_ (start_soundRounds collection)
  · intro rounds stored next h hreplaced hstep
    obtain ⟨hsound, hsafe⟩ := h.step hstep
    exact hsound (hsafe.mpr (hreplaced next hstep))
  · intro rounds stored h hnot
    obtain ⟨next, hnext⟩ := not_forall.mp hnot
    obtain ⟨hstep, hlost⟩ := Classical.not_imp.mp hnext
    exact ⟨next, hstep, fun hsafe ↦ hlost ((h.step hstep).2.mp hsafe)⟩

end Sequential

/-! ## The checkpoint of a job -/

/-- The checkpoint of a job is safe to resume from in every state of a run exactly in these cases.
Without a dedup key, all rows under way are handled whenever a report is stored.  With one, every
replacement up to a report that is stored has replaced a document. -/
theorem checkpoint_safe_iff [BEq V] (server : Server V) (job : Job V Row) (table : List Row)
    (batchSize concurrency : ℕ) (collection : List (Document V)) :
    (∀ events, Throughout (recordingStep job table batchSize concurrency) (Safe table batchSize)
        (Recording.start concurrency collection) events ↔
      StepsMeet (recordingStep job table batchSize concurrency) Settled
        (Recording.start concurrency collection) events) ∧
    ∀ events, Throughout (roundsStep server job table batchSize) (SafeRounds table batchSize)
        (Rounds.start collection) events ↔
      StepsMeet (roundsStep server job table batchSize) (Replaced server job table batchSize)
        (Rounds.start collection) events :=
  ⟨safe_iff_settled collection, safeRounds_iff_replaced collection⟩

/-- Four rows of a batch each are sent to two writers.  The report of the fourth chunk is stored
before any writer has received one, so that a job that goes on after it loses all four rows. -/
theorem checkpoint_ahead_of_writers : ¬ ∀ events : List RecordingEvent,
    Throughout (recordingStep Accounting.numbers [7, 8, 9, 10] 1 2) (Safe [7, 8, 9, 10] 1)
      (Recording.start 2 []) events := by
  intro hsafe
  have hrun : run (recordingStep Accounting.numbers [7, 8, 9, 10] 1 2) (Recording.start 2 [])
      [.work .convert, .work .convert, .work .convert, .work .convert, .reported true] =
        some _ := rfl
  have hcheckpoint := hsafe _ _ [] (List.append_nil _).symm _ hrun
  rcases hcheckpoint 0 (by decide) (by decide) with hrow | hrow <;> cases hrow

end MongoCore.Ingestion.Resumption
