import MongoCore.Data.Bson
import MongoCore.Ingestion.Cancellation
import MongoCore.Library.EntryMap
import MongoCore.Library.WriteThrough

/-!
# The records of ingestion jobs

The tracker keeps the record of a job as a document in a collection and as a value in memory, from
which all requests are answered.  Every call writes to the collection first and takes the lock of
the memory when the database has confirmed the write.  The database may also refuse the write, or
carry it out without the reply getting through; then the call returns an error, which the task of
the job ignores.  A write that failed is not carried out later, after its call has returned.

The calls of different jobs interleave in any way.  The task of one job awaits its calls one after
the other, and makes no call after the one that ends the job.
-/

namespace MongoCore.Ingestion.JobRecords

open MongoCore.Data MongoCore.Library MongoCore.Library.TransitionSystem
open MongoCore.Library.WriteThrough (Outcome Copies)
open MongoCore.Ingestion.Cancellation (IngestStatus)

/-! ## Jobs -/

/-- The record of a job.  Times are in nanoseconds. -/
structure IngestJob where
  jobId : String
  filePath : String
  database : String
  collection : String
  status : IngestStatus
  totalRows : ℤ
  rowsProcessed : ℤ
  rowsInserted : ℤ
  rowsSkipped : ℤ
  rowsFailed : ℤ
  lastCommittedChunk : ℤ
  startedAt : ℤ
  completedAt : Option ℤ
  error : Option String
  deriving DecidableEq, Repr

/-- The milliseconds of a time, rounded down. -/
def timestampMillis (nanoseconds : ℤ) : ℤ := nanoseconds / 1000000

def statusStr : IngestStatus → String
  | .running => "running"
  | .completed => "completed"
  | .failed => "failed"
  | .cancelled => "cancelled"

def jobToDocument (job : IngestJob) : Data.Document :=
  [ ("job_id", .string job.jobId),
    ("file_path", .string job.filePath),
    ("database", .string job.database),
    ("collection", .string job.collection),
    ("status", .string (statusStr job.status)),
    ("total_rows", .int64 job.totalRows),
    ("rows_processed", .int64 job.rowsProcessed),
    ("rows_inserted", .int64 job.rowsInserted),
    ("rows_skipped", .int64 job.rowsSkipped),
    ("rows_failed", .int64 job.rowsFailed),
    ("last_committed_chunk", .int64 job.lastCommittedChunk),
    ("started_at", .dateTime (timestampMillis job.startedAt)) ] ++
  (job.completedAt.map fun completedAt ↦
    ("completed_at", Bson.dateTime (timestampMillis completedAt))).toList ++
  (job.error.map fun error ↦ ("error", Bson.string error)).toList

def newJob (jobId filePath database collection : String) (startedAt : ℤ) : IngestJob where
  jobId := jobId
  filePath := filePath
  database := database
  collection := collection
  status := .running
  totalRows := 0
  rowsProcessed := 0
  rowsInserted := 0
  rowsSkipped := 0
  rowsFailed := 0
  lastCommittedChunk := 0
  startedAt := startedAt
  completedAt := none
  error := none

inductive Update where
  | totalRows (rows : ℤ)
  | progress (rowsProcessed rowsInserted rowsSkipped rowsFailed lastChunk : ℤ)
  | complete (now : ℤ)
  | fail (error : String) (now : ℤ)
  | cancel (now : ℤ)
  deriving DecidableEq, Repr

/-- The fields that a call sets in the collection. -/
def Update.sets : Update → Data.Document
  | .totalRows rows => [("total_rows", .int64 rows)]
  | .progress rowsProcessed rowsInserted rowsSkipped rowsFailed lastChunk =>
      [ ("rows_processed", .int64 rowsProcessed),
        ("rows_inserted", .int64 rowsInserted),
        ("rows_skipped", .int64 rowsSkipped),
        ("rows_failed", .int64 rowsFailed),
        ("last_committed_chunk", .int64 lastChunk) ]
  | .complete now =>
      [("status", .string "completed"), ("completed_at", .dateTime (timestampMillis now))]
  | .fail error now =>
      [ ("status", .string "failed"),
        ("error", .string error),
        ("completed_at", .dateTime (timestampMillis now)) ]
  | .cancel now =>
      [("status", .string "cancelled"), ("completed_at", .dateTime (timestampMillis now))]

def Update.apply : Update → IngestJob → IngestJob
  | .totalRows rows, job => { job with totalRows := rows }
  | .progress rowsProcessed rowsInserted rowsSkipped rowsFailed lastChunk, job =>
      { job with
        rowsProcessed := rowsProcessed
        rowsInserted := rowsInserted
        rowsSkipped := rowsSkipped
        rowsFailed := rowsFailed
        lastCommittedChunk := lastChunk }
  | .complete now, job => { job with status := .completed, completedAt := some now }
  | .fail error now, job =>
      { job with status := .failed, error := some error, completedAt := some now }
  | .cancel now, job => { job with status := .cancelled, completedAt := some now }

theorem jobId_apply (update : Update) (job : IngestJob) : (update.apply job).jobId = job.jobId := by
  cases update <;> rfl

theorem lookup_cons_eq (key field : String) (value : Bson) (members : Data.Document) :
    List.lookup field ((key, value) :: members) =
      if field = key then some value else members.lookup field := by
  by_cases hfield : field = key
  · subst hfield
    rw [if_pos rfl, List.lookup_cons_self]
  · rw [if_neg hfield, List.lookup_cons, beq_false_of_ne hfield]

/-- A job that ends changes its status and the time of its end. -/
theorem lookup_jobToDocument_ended (job : IngestJob) (status : IngestStatus) (now : ℤ)
    (field : String) :
    (jobToDocument { job with status := status, completedAt := some now }).lookup field =
      (List.lookup field [("status", Bson.string (statusStr status)),
        ("completed_at", .dateTime (timestampMillis now))]).or
          ((jobToDocument job).lookup field) := by
  by_cases hfield : field ∈ ["status", "completed_at"]
  · simp only [List.mem_cons, List.not_mem_nil, or_false] at hfield
    obtain rfl | rfl := hfield <;> rfl
  · simp only [List.mem_cons, List.not_mem_nil, or_false, not_or] at hfield
    cases hcompleted : job.completedAt <;>
      simp only [jobToDocument, List.cons_append, List.nil_append, lookup_cons_eq, hfield,
        hcompleted, if_false, List.lookup_nil, Option.none_or, Option.map_some, Option.map_none,
        Option.toList_some, Option.toList_none]

/-- An error that is set is in the document. -/
theorem lookup_jobToDocument_error (job : IngestJob) (error field : String) :
    (jobToDocument { job with error := some error }).lookup field =
      if field = "error" then some (.string error) else (jobToDocument job).lookup field := by
  by_cases hfield : field = "error"
  · subst hfield
    cases hcompleted : job.completedAt <;>
      simp only [jobToDocument, hcompleted, Option.map_some, Option.map_none] <;> rfl
  · cases hcompleted : job.completedAt <;> cases herror : job.error <;>
      simp only [jobToDocument, List.cons_append, List.nil_append, lookup_cons_eq, hfield,
        hcompleted, herror, if_false, List.lookup_nil, Option.map_some, Option.map_none,
        Option.toList_some, Option.toList_none]

/-- The document of a job changes in the fields that the call sets. -/
theorem lookup_jobToDocument_apply (update : Update) (job : IngestJob) (field : String) :
    (jobToDocument (update.apply job)).lookup field =
      (update.sets.lookup field).or ((jobToDocument job).lookup field) := by
  cases update with
  | totalRows rows =>
    by_cases hfield : field = "total_rows"
    · subst hfield
      rfl
    · simp only [jobToDocument, Update.apply, Update.sets, List.cons_append, lookup_cons_eq, hfield,
        if_false, List.lookup_nil, Option.none_or]
  | progress rowsProcessed rowsInserted rowsSkipped rowsFailed lastChunk =>
    by_cases hfield : field ∈ ["rows_processed", "rows_inserted", "rows_skipped", "rows_failed",
      "last_committed_chunk"]
    · simp only [List.mem_cons, List.not_mem_nil, or_false] at hfield
      obtain rfl | rfl | rfl | rfl | rfl := hfield <;> rfl
    · simp only [List.mem_cons, List.not_mem_nil, or_false, not_or] at hfield
      simp only [jobToDocument, Update.apply, Update.sets, List.cons_append, lookup_cons_eq, hfield,
        if_false, List.lookup_nil, Option.none_or]
  | complete now => exact lookup_jobToDocument_ended job .completed now field
  | fail error now =>
    calc (jobToDocument (Update.apply (.fail error now) job)).lookup field
        _ = (List.lookup field [("status", Bson.string "failed"),
              ("completed_at", .dateTime (timestampMillis now))]).or
                ((jobToDocument { job with error := some error }).lookup field) :=
          lookup_jobToDocument_ended { job with error := some error } .failed now field
        _ = _ := by
          simp only [lookup_jobToDocument_error, Update.sets, lookup_cons_eq, List.lookup_nil]
          split_ifs with hstatus herror hcompleted <;> simp_all
  | cancel now => exact lookup_jobToDocument_ended job .cancelled now field

/-- The records of jobs, with the fields of their documents. -/
def layout : Layout IngestJob Update String Bson where
  view job field := (jobToDocument job).lookup field
  apply := Update.apply
  sets update field := update.sets.lookup field
  view_apply := lookup_jobToDocument_apply

/-! ## The tracker -/

def setField (key : String) (value : Bson) : Data.Document → Data.Document
  | [] => [(key, value)]
  | member :: members =>
      if member.1 = key then (key, value) :: members else member :: setField key value members

def setFields (sets document : Data.Document) : Data.Document :=
  sets.foldl (fun document member ↦ setField member.1 member.2 document) document

def hasJobId (jobId : String) (document : Data.Document) : Bool :=
  match document.lookup "job_id" with
  | some (.string other) => other == jobId
  | _ => false

/-- A call whose write is confirmed, and that has yet to change the memory. -/
inductive Pending where
  | create (job : IngestJob)
  | update (update : Update)

/-- The documents in the collection, the records in memory, and the calls in between. -/
structure ProgressTracker where
  stored : List Data.Document
  jobs : List IngestJob
  inFlight : String → Option Pending

/-- A tracker that has just been made, on the documents of earlier jobs. -/
def ProgressTracker.new (stored : List Data.Document) : ProgressTracker where
  stored := stored
  jobs := []
  inFlight := fun _ ↦ none

def ProgressTracker.getJob (s : ProgressTracker) (jobId : String) : Option IngestJob :=
  s.jobs.find? fun job ↦ job.jobId == jobId

def ProgressTracker.record (s : ProgressTracker) (jobId : String) : Option Data.Document :=
  s.stored.find? (hasJobId jobId)

/-- The first half of a call, the write to the collection, or the second, the change in memory.  A
job is created under an id that was never used; the driver adds an id of its own to the document. -/
inductive Event where
  | create (jobId filePath database collection : String) (startedAt : ℤ) (objectId : List UInt8)
      (outcome : Outcome)
  | created (jobId : String)
  | update (jobId : String) (update : Update) (outcome : Outcome)
  | updated (jobId : String)

def insertedDocument (objectId : List UInt8) (job : IngestJob) : Data.Document :=
  ("_id", .objectId objectId) :: jobToDocument job

def ProgressTracker.setInFlight (s : ProgressTracker) (jobId : String) (call : Option Pending) :
    ProgressTracker :=
  { s with inFlight := Function.update s.inFlight jobId call }

def ProgressTracker.insertOne (s : ProgressTracker) (document : Data.Document) : ProgressTracker :=
  { s with stored := s.stored ++ [document] }

/-- The first document of a job is updated. -/
def ProgressTracker.updateOne (s : ProgressTracker) (jobId : String) (sets : Data.Document) :
    ProgressTracker :=
  { s with stored := updateFirst (hasJobId jobId) (setFields sets) s.stored }

/-- The task of a job can create it: nothing has its id. -/
def ProgressTracker.Unused (s : ProgressTracker) (jobId : String) : Prop :=
  (s.inFlight jobId).isNone ∧ (s.getJob jobId).isNone ∧ (s.record jobId).isNone

instance (s : ProgressTracker) (jobId : String) : Decidable (s.Unused jobId) :=
  inferInstanceAs (Decidable (_ ∧ _ ∧ _))

/-- The task of a job can change its record: it has created it, awaits no call, and has not ended
the job. -/
def ProgressTracker.Open (s : ProgressTracker) (jobId : String) : Prop :=
  (s.inFlight jobId).isNone ∧ (s.getJob jobId).any fun job ↦ job.status = .running

instance (s : ProgressTracker) (jobId : String) : Decidable (s.Open jobId) :=
  inferInstanceAs (Decidable (_ ∧ _))

/-- One step of the tracker; `none` if the event cannot happen. -/
def step (s : ProgressTracker) : Event → Option ProgressTracker
  | .create jobId filePath database collection startedAt objectId outcome =>
      if s.Unused jobId then
        let job := newJob jobId filePath database collection startedAt
        match outcome with
        | .confirmed =>
            some ((s.insertOne (insertedDocument objectId job)).setInFlight jobId
              (some (.create job)))
        | .refused => some s
        | .unconfirmed => some (s.insertOne (insertedDocument objectId job))
      else none
  | .created jobId =>
      match s.inFlight jobId with
      | some (.create job) => some { s.setInFlight jobId none with jobs := s.jobs ++ [job] }
      | _ => none
  | .update jobId update outcome =>
      if s.Open jobId then
        match outcome with
        | .confirmed => some ((s.updateOne jobId update.sets).setInFlight jobId
            (some (.update update)))
        | .refused => some s
        | .unconfirmed => some (s.updateOne jobId update.sets)
      else none
  | .updated jobId =>
      match s.inFlight jobId with
      | some (.update update) => some { s.setInFlight jobId none with
          jobs := updateFirst (fun job ↦ job.jobId == jobId) update.apply s.jobs }
      | _ => none

/-! ## Documents -/

theorem lookup_setField (key field : String) (value : Bson) (document : Data.Document) :
    (setField key value document).lookup field =
      if field = key then some value else document.lookup field := by
  induction document with
  | nil => exact lookup_cons_eq key field value []
  | cons member document ih =>
    obtain ⟨other, present⟩ := member
    unfold setField
    by_cases hkey : other = key
    · subst hkey
      rw [if_pos rfl, lookup_cons_eq, lookup_cons_eq]
      split_ifs <;> rfl
    · rw [if_neg hkey, lookup_cons_eq, lookup_cons_eq, ih]
      by_cases hfield : field = other
      · rw [if_pos hfield, if_pos hfield, if_neg (hfield ▸ hkey)]
      · rw [if_neg hfield, if_neg hfield]

/-- The fields that are set have their new values, the others keep theirs. -/
theorem lookup_setFields {sets : Data.Document} (hnodup : (sets.map Prod.fst).Nodup)
    (document : Data.Document) (field : String) :
    (setFields sets document).lookup field = (sets.lookup field).or (document.lookup field) := by
  induction sets generalizing document with
  | nil => rfl
  | cons member sets ih =>
    obtain ⟨key, value⟩ := member
    obtain ⟨hnot, hnodup⟩ := List.nodup_cons.mp hnodup
    have hrest := ih hnodup (setField key value document)
    rw [setFields, List.foldl_cons, ← setFields, hrest, lookup_setField, lookup_cons_eq]
    by_cases hfield : field = key
    · subst hfield
      rw [if_pos rfl, if_pos rfl, lookup_eq_none_iff_notMem.mpr hnot]
      rfl
    · rw [if_neg hfield, if_neg hfield]

theorem nodup_sets (update : Update) : (update.sets.map Prod.fst).Nodup := by
  cases update <;> simp [Update.sets]

theorem lookup_sets_jobId (update : Update) : update.sets.lookup "job_id" = none := by
  cases update <;> rfl

theorem lookup_sets_id (update : Update) : update.sets.lookup "_id" = none := by
  cases update <;> rfl

/-- A document stays with its job. -/
theorem hasJobId_setFields (jobId : String) (update : Update) (document : Data.Document) :
    hasJobId jobId (setFields update.sets document) = hasJobId jobId document := by
  unfold hasJobId
  rw [lookup_setFields (nodup_sets update), lookup_sets_jobId, Option.none_or]

theorem hasJobId_insertedDocument (jobId : String) (objectId : List UInt8) (job : IngestJob) :
    hasJobId jobId (insertedDocument objectId job) = (job.jobId == jobId) := rfl

theorem hasJobId_eq_true {jobId : String} {document : Data.Document} :
    hasJobId jobId document = true ↔ document.lookup "job_id" = some (.string jobId) := by
  unfold hasJobId
  split
  · rename_i other hother
    rw [hother, beq_iff_eq, Option.some.injEq, Bson.string.injEq]
  · rename_i hother
    simp only [Bool.false_eq_true, false_iff]
    exact hother jobId

/-- The calls of a job leave the documents of the other jobs alone. -/
theorem hasJobId_of_ne {jobId other : String} (hne : other ≠ jobId) {document : Data.Document}
    (hdocument : hasJobId jobId document = true) : hasJobId other document = false := by
  rw [Bool.eq_false_iff, ne_eq, hasJobId_eq_true, hasJobId_eq_true.mp hdocument]
  simpa using hne.symm

/-! ## What a call leaves alone -/

def Event.jobId : Event → String
  | .create jobId _ _ _ _ _ _ | .created jobId | .update jobId _ _ | .updated jobId => jobId

structure Same (jobId : String) (s t : ProgressTracker) : Prop where
  getJob : t.getJob jobId = s.getJob jobId
  record : t.record jobId = s.record jobId
  inFlight : t.inFlight jobId = s.inFlight jobId

theorem record_insertOne (s : ProgressTracker) (jobId : String) (document : Data.Document) :
    (s.insertOne document).record jobId = (s.record jobId).or
      (if hasJobId jobId document then some document else none) := by
  unfold ProgressTracker.record ProgressTracker.insertOne
  dsimp only
  rw [List.find?_append, List.find?_cons, List.find?_nil]
  cases hasJobId jobId document <;> rfl

theorem record_updateOne (s : ProgressTracker) (jobId : String) (update : Update) :
    (s.updateOne jobId update.sets).record jobId =
      (s.record jobId).map (setFields update.sets) :=
  find?_updateFirst (fun document hdocument ↦
    (hasJobId_setFields jobId update document).trans hdocument) s.stored

theorem record_updateOne_of_ne {jobId other : String} (hne : other ≠ jobId) (s : ProgressTracker)
    (update : Update) : (s.updateOne jobId update.sets).record other = s.record other := by
  refine find?_updateFirst_of_ne (fun document hdocument ↦ ?_) s.stored
  rw [hasJobId_setFields]
  exact ⟨hasJobId_of_ne hne hdocument, hasJobId_of_ne hne hdocument⟩

theorem inFlight_setInFlight_of_ne {jobId other : String} (hne : other ≠ jobId)
    (s : ProgressTracker) (call : Option Pending) :
    (s.setInFlight jobId call).inFlight other = s.inFlight other := by
  unfold ProgressTracker.setInFlight
  dsimp only
  rw [Function.update_of_ne hne]

theorem inFlight_setInFlight (jobId : String) (s : ProgressTracker) (call : Option Pending) :
    (s.setInFlight jobId call).inFlight jobId = call := by
  unfold ProgressTracker.setInFlight
  dsimp only
  rw [Function.update_self]

/-- What a step does: a write is refused, or it reaches the collection and its call may go on, or
the call in flight changes the memory. -/
inductive StepCase (s : ProgressTracker) : Event → ProgressTracker → Prop
  | createRefused {jobId filePath database collection : String} {startedAt : ℤ}
      {objectId : List UInt8} :
      StepCase s (.create jobId filePath database collection startedAt objectId .refused) s
  | create {jobId filePath database collection : String} {startedAt : ℤ} {objectId : List UInt8}
      {outcome : Outcome} {call : Option Pending} (hunused : s.Unused jobId)
      (hcall : ∀ pending, call = some pending →
        pending = .create (newJob jobId filePath database collection startedAt)) :
      StepCase s (.create jobId filePath database collection startedAt objectId outcome)
        ((s.insertOne (insertedDocument objectId
          (newJob jobId filePath database collection startedAt))).setInFlight jobId call)
  | created {jobId : String} {job : IngestJob} (hcall : s.inFlight jobId = some (.create job)) :
      StepCase s (.created jobId) { s.setInFlight jobId none with jobs := s.jobs ++ [job] }
  | updateRefused {jobId : String} {update : Update} (hopen : s.Open jobId) :
      StepCase s (.update jobId update .refused) s
  | update {jobId : String} {update : Update} {outcome : Outcome} (hopen : s.Open jobId)
      (hstored : outcome ≠ .refused) :
      StepCase s (.update jobId update outcome) ((s.updateOne jobId update.sets).setInFlight jobId
        (if outcome = .confirmed then some (.update update) else none))
  | updated {jobId : String} {update : Update} (hcall : s.inFlight jobId = some (.update update)) :
      StepCase s (.updated jobId) { s.setInFlight jobId none with
        jobs := updateFirst (fun job ↦ job.jobId == jobId) update.apply s.jobs }

/-- A job without a call stays without one. -/
theorem setInFlight_of_isNone {s t : ProgressTracker} {jobId : String}
    (h : (s.inFlight jobId).isNone) (hsame : t.inFlight = s.inFlight) :
    t.setInFlight jobId none = t := by
  unfold ProgressTracker.setInFlight
  rw [← Option.isNone_iff_eq_none.mp h, hsame, Function.update_eq_self, ← hsame]

theorem stepCase_of_step {s t : ProgressTracker} {event : Event} (hstep : step s event = some t) :
    StepCase s event t := by
  cases event with
  | create jobId filePath database collection startedAt objectId outcome =>
    simp only [step] at hstep
    split_ifs at hstep with hunused
    cases outcome with
    | confirmed =>
      obtain rfl := Option.some.inj hstep
      exact .create hunused fun pending hpending ↦ (Option.some.inj hpending).symm
    | refused =>
      obtain rfl := Option.some.inj hstep
      exact .createRefused
    | unconfirmed =>
      obtain rfl := Option.some.inj hstep
      rw [← setInFlight_of_isNone (t := s.insertOne _) hunused.1 rfl]
      exact .create hunused fun pending hpending ↦ absurd hpending (by simp)
  | created jobId =>
    simp only [step] at hstep
    split at hstep
    · rename_i job hcall
      obtain rfl := Option.some.inj hstep
      exact .created hcall
    · exact absurd hstep (by simp)
  | update jobId update outcome =>
    simp only [step] at hstep
    split_ifs at hstep with hopen
    cases outcome with
    | confirmed =>
      obtain rfl := Option.some.inj hstep
      exact .update hopen (by decide : Outcome.confirmed ≠ .refused)
    | refused =>
      obtain rfl := Option.some.inj hstep
      exact .updateRefused hopen
    | unconfirmed =>
      obtain rfl := Option.some.inj hstep
      rw [← setInFlight_of_isNone (t := s.updateOne _ _) hopen.1 rfl]
      exact .update hopen (by decide : Outcome.unconfirmed ≠ .refused)
  | updated jobId =>
    simp only [step] at hstep
    split at hstep
    · rename_i update hcall
      obtain rfl := Option.some.inj hstep
      exact .updated hcall
    · exact absurd hstep (by simp)

/-- A job is created under its own id. -/
def Named (s : ProgressTracker) : Prop :=
  ∀ jobId job, s.inFlight jobId = some (.create job) → job.jobId = jobId

theorem Named.setInFlight {s t : ProgressTracker} (h : Named s) {jobId : String}
    {call : Option Pending} (hcall : ∀ job, call = some (.create job) → job.jobId = jobId)
    (ht : t.inFlight = (s.setInFlight jobId call).inFlight) : Named t := by
  intro other job hother
  rw [ht] at hother
  by_cases heq : other = jobId
  · subst heq
    rw [inFlight_setInFlight] at hother
    exact hcall job hother
  · rw [inFlight_setInFlight_of_ne heq] at hother
    exact h other job hother

theorem named_step {s t : ProgressTracker} {event : Event} (h : Named s)
    (hstep : step s event = some t) : Named t := by
  cases stepCase_of_step hstep with
  | createRefused | updateRefused => exact h
  | create hunused hcall =>
    refine h.setInFlight (fun job hjob ↦ ?_) rfl
    rw [Pending.create.inj (hcall _ hjob)]
    rfl
  | created | updated => exact h.setInFlight (fun job hjob ↦ absurd hjob (by simp)) rfl
  | update => exact h.setInFlight (fun job hjob ↦ by split_ifs at hjob; simp at hjob) rfl

/-- The calls of one job change nothing of another. -/
theorem same_of_step {s t : ProgressTracker} {event : Event} {jobId : String} (hnamed : Named s)
    (hne : jobId ≠ event.jobId) (hstep : step s event = some t) : Same jobId s t := by
  cases stepCase_of_step hstep with
  | createRefused | updateRefused => exact ⟨rfl, rfl, rfl⟩
  | @create other =>
    refine ⟨rfl, ?_, inFlight_setInFlight_of_ne hne _ _⟩
    have hother : (other == jobId) = false := beq_false_of_ne (Ne.symm hne)
    refine (record_insertOne s jobId _).trans ?_
    rw [hasJobId_insertedDocument, newJob, hother]
    simp
  | @created other job hcall =>
    refine ⟨?_, rfl, inFlight_setInFlight_of_ne hne s none⟩
    have hother : (job.jobId == jobId) = false :=
      beq_false_of_ne fun heq ↦ hne (heq.symm.trans (hnamed other job hcall))
    show (s.jobs ++ [job]).find? _ = s.jobs.find? _
    rw [List.find?_append, List.find?_cons, hother]
    exact Option.or_none
  | @update other update =>
    exact ⟨rfl, record_updateOne_of_ne hne s update, inFlight_setInFlight_of_ne hne _ _⟩
  | @updated other update hcall =>
    refine ⟨?_, rfl, inFlight_setInFlight_of_ne hne s none⟩
    refine find?_updateFirst_of_ne (fun job hjob ↦ ?_) s.jobs
    have hother : (job.jobId == jobId) = false :=
      beq_false_of_ne fun heq ↦ hne (heq.symm.trans (eq_of_beq hjob))
    exact ⟨hother, by rw [jobId_apply, hother]⟩

/-! ## The two copies of a record -/

/-- The event as the two copies of the record of a job see it. -/
def Event.onCopies (jobId : String) : Event → List (WriteThrough.Event Update)
  | .create _ _ _ _ _ _ _ | .created _ => []
  | .update other write outcome => if other = jobId then [.write write outcome] else []
  | .updated other => if other = jobId then [.remember] else []

/-- The calls of a job, as the two copies of its record see them. -/
def copyEvents (jobId : String) (events : List Event) : List (WriteThrough.Event Update) :=
  events.flatMap (Event.onCopies jobId)

/-- The update of a job that is confirmed and not in memory yet. -/
def ProgressTracker.pendingUpdate (s : ProgressTracker) (jobId : String) : Option Update :=
  match s.inFlight jobId with
  | some (.update update) => some update
  | _ => none

/-- The fields of a document, apart from the id that the driver gives it. -/
def storedFields (document : Data.Document) (field : String) : Option Bson :=
  if field = "_id" then none else document.lookup field

def ProgressTracker.copies (s : ProgressTracker) (jobId : String) (job : IngestJob)
    (document : Data.Document) : Copies IngestJob Update String Bson where
  stored := storedFields document
  memory := job
  pending := s.pendingUpdate jobId

def Update.ends : Update → Bool
  | .complete _ | .fail _ _ | .cancel _ => true
  | .totalRows _ | .progress _ _ _ _ _ => false

def EndFresh (events : List (WriteThrough.Event Update)) : Prop :=
  WriteThrough.stale layout "status" events = false ∧
    WriteThrough.stale layout "completed_at" events = false

/-- The record of a job that was created: its copies follow the calls of the job, and once the job
has ended in memory no call is in flight and its end is not stale. -/
structure Tracked (s : ProgressTracker) (jobId : String) (first job : IngestJob)
    (document : Data.Document) (events : List (WriteThrough.Event Update)) : Prop where
  getJob : s.getJob jobId = some job
  record : s.record jobId = some document
  notCreating : ∀ other, s.inFlight jobId ≠ some (.create other)
  running : first.status = .running
  run : run (WriteThrough.step layout) (Copies.new layout first) events =
    some (s.copies jobId job document)
  ending : ∀ update, s.pendingUpdate jobId = some update → update.ends = true → EndFresh events
  ended : job.status ≠ .running → s.pendingUpdate jobId = none ∧ EndFresh events

/-- A job that is not created yet: at most the insertion of its document is confirmed. -/
structure Untracked (s : ProgressTracker) (jobId : String)
    (events : List (WriteThrough.Event Update)) : Prop where
  getJob : s.getJob jobId = none
  events : events = []
  notUpdating : ∀ update, s.inFlight jobId ≠ some (.update update)
  creating : ∀ job, s.inFlight jobId = some (.create job) →
    job.status = .running ∧ ∃ objectId, s.record jobId = some (insertedDocument objectId job)

def Follows (s : ProgressTracker) (jobId : String) (events : List (WriteThrough.Event Update)) :
    Prop :=
  Untracked s jobId events ∨ ∃ first job document, Tracked s jobId first job document events

theorem follows_new (stored : List Data.Document) (jobId : String) :
    Follows (.new stored) jobId [] :=
  .inl ⟨rfl, rfl, fun update h ↦ absurd h (by simp [ProgressTracker.new]),
    fun job h ↦ absurd h (by simp [ProgressTracker.new])⟩

section

variable {s t : ProgressTracker} {jobId : String} {event : Event}
  {events : List (WriteThrough.Event Update)}

theorem pendingUpdate_of_inFlight (h : t.inFlight jobId = s.inFlight jobId) :
    t.pendingUpdate jobId = s.pendingUpdate jobId := by
  unfold ProgressTracker.pendingUpdate
  rw [h]

theorem pendingUpdate_eq_some {update : Update} :
    s.pendingUpdate jobId = some update ↔ s.inFlight jobId = some (.update update) := by
  unfold ProgressTracker.pendingUpdate
  constructor
  · intro h
    split at h
    · rename_i other hother
      rw [hother, Option.some.inj h]
    · exact absurd h (by simp)
  · intro h
    rw [h]

theorem pendingUpdate_eq_none (h : s.inFlight jobId = none) : s.pendingUpdate jobId = none := by
  unfold ProgressTracker.pendingUpdate
  rw [h]

theorem Follows.of_same (h : Follows s jobId events) (hsame : Same jobId s t) :
    Follows t jobId events := by
  obtain ⟨hjob, hrecord, hcall⟩ := hsame
  have hpending := pendingUpdate_of_inFlight hcall
  rcases h with huntracked | ⟨first, job, document, htracked⟩
  · refine .inl ⟨hjob.trans huntracked.getJob, huntracked.events, ?_, ?_⟩
    · rw [hcall]
      exact huntracked.notUpdating
    · rw [hcall, hrecord]
      exact huntracked.creating
  · refine .inr ⟨first, job, document, hjob.trans htracked.getJob,
      hrecord.trans htracked.record, ?_, htracked.running, ?_, ?_, ?_⟩
    · rw [hcall]
      exact htracked.notCreating
    · rw [htracked.run, ProgressTracker.copies, ProgressTracker.copies, hpending]
    · rw [hpending]
      exact htracked.ending
    · rw [hpending]
      exact htracked.ended

/-- The document that is inserted has the fields of the job. -/
theorem storedFields_insertedDocument (objectId : List UInt8) (job : IngestJob) :
    storedFields (insertedDocument objectId job) = layout.view job := by
  funext field
  unfold storedFields insertedDocument
  by_cases hfield : field = "_id"
  · subst hfield
    rw [if_pos rfl]
    cases hcompleted : job.completedAt <;> cases herror : job.error <;>
      simp only [layout, jobToDocument, hcompleted, herror, Option.map_some, Option.map_none] <;>
      rfl
  · rw [if_neg hfield, lookup_cons_eq, if_neg hfield]
    rfl

theorem getJob_append (s : ProgressTracker) {jobId : String} (hnone : s.getJob jobId = none)
    {job : IngestJob} (hjob : job.jobId = jobId) :
    (s.jobs ++ [job]).find? (fun other ↦ other.jobId == jobId) = some job := by
  rw [List.find?_append, show s.jobs.find? _ = none from hnone, Option.none_or, List.find?_cons]
  have hself : (job.jobId == jobId) = true := beq_iff_eq.mpr hjob
  rw [hself]

/-- An update sets the fields of the document as it sets those of the record. -/
theorem storedFields_setFields (update : Update) (document : Data.Document) :
    storedFields (setFields update.sets document) =
      WriteThrough.written layout update (storedFields document) := by
  funext field
  have hsets : layout.sets update field = update.sets.lookup field := rfl
  unfold storedFields WriteThrough.written
  rw [lookup_setFields (nodup_sets update), hsets]
  dsimp only
  split_ifs with hfield
  · rw [hfield, lookup_sets_id]
    rfl
  · rfl

/-! ## Steps of a job -/

/-- The insertion of the document of a new job. -/
theorem Follows.create (h : Follows s jobId events) (hunused : s.Unused jobId)
    {objectId : List UInt8} {job : IngestJob} (hrunning : job.status = .running)
    (hid : job.jobId = jobId) {call : Option Pending}
    (hcall : ∀ pending, call = some pending → pending = .create job) :
    Follows ((s.insertOne (insertedDocument objectId job)).setInFlight jobId call) jobId
      events := by
  obtain ⟨-, hjob, hrecord⟩ := hunused
  rw [Option.isNone_iff_eq_none] at hjob hrecord
  rcases h with huntracked | ⟨first, other, document, htracked⟩
  · refine .inl ⟨hjob, huntracked.events, fun update hupdate ↦ ?_, fun other hcreate ↦ ?_⟩
    · rw [inFlight_setInFlight] at hupdate
      exact absurd (hcall _ hupdate) (by simp)
    · rw [inFlight_setInFlight] at hcreate
      obtain rfl := Pending.create.inj (hcall _ hcreate)
      refine ⟨hrunning, objectId, (record_insertOne s jobId _).trans ?_⟩
      rw [hrecord, hasJobId_insertedDocument, hid, beq_self_eq_true, if_pos rfl, Option.none_or]
  · exact absurd (hjob.symm.trans htracked.getJob) (by simp)

/-- The record of a new job is kept in memory. -/
theorem Follows.created (h : Follows s jobId events) (hnamed : Named s) {job : IngestJob}
    (hcall : s.inFlight jobId = some (.create job)) :
    Follows { s.setInFlight jobId none with jobs := s.jobs ++ [job] } jobId events := by
  rcases h with huntracked | ⟨first, other, document, htracked⟩
  · obtain ⟨hrunning, objectId, hrecord⟩ := huntracked.creating job hcall
    have hnone : (s.setInFlight jobId none).inFlight jobId = none := inFlight_setInFlight ..
    have hpending : (s.setInFlight jobId none).pendingUpdate jobId = none :=
      pendingUpdate_eq_none hnone
    refine .inr ⟨job, job, insertedDocument objectId job,
      getJob_append s huntracked.getJob (hnamed jobId job hcall), hrecord, fun other hother ↦ ?_,
      hrunning, ?_, fun update hupdate ↦ ?_, fun hended ↦ absurd hrunning hended⟩
    · exact absurd (hnone.symm.trans hother) (by simp)
    · rw [huntracked.events, run_nil, Copies.new, ← storedFields_insertedDocument objectId job]
      show _ = some (Copies.mk (storedFields (insertedDocument objectId job)) job
        ((s.setInFlight jobId none).pendingUpdate jobId))
      rw [hpending]
    · exact absurd (hpending.symm.trans hupdate) (by simp)
  · exact absurd hcall (htracked.notCreating job)

theorem run_concat {copies next : Copies IngestJob Update String Bson} {first : IngestJob}
    {last : WriteThrough.Event Update}
    (hrun : run (WriteThrough.step layout) (Copies.new layout first) events = some copies)
    (hstep : WriteThrough.step layout copies last = some next) :
    run (WriteThrough.step layout) (Copies.new layout first) (events ++ [last]) = some next := by
  rw [run_append, hrun, Option.bind_some, run_cons, hstep, Option.bind_some, run_nil]

theorem stale_concat (field : String) (last : WriteThrough.Event Update) :
    WriteThrough.stale layout field (events ++ [last]) =
      WriteThrough.staleAfter layout field (WriteThrough.stale layout field events) last := by
  rw [WriteThrough.stale, List.foldl_append]
  rfl

/-- A confirmed end is not stale. -/
theorem endFresh_write {update : Update} (hends : update.ends = true) :
    EndFresh (events ++ [.write update .confirmed]) := by
  unfold EndFresh
  rw [stale_concat, stale_concat]
  cases update <;> simp [Update.ends] at hends <;>
    simp [WriteThrough.staleAfter, layout, Update.sets, lookup_cons_eq]

/-- A job that is open is tracked, and running in memory. -/
theorem Follows.exists_of_open (h : Follows s jobId events) (hopen : s.Open jobId) :
    ∃ first job document, Tracked s jobId first job document events ∧ job.status = .running ∧
      s.copies jobId job document = ⟨storedFields document, job, none⟩ := by
  obtain ⟨hcall, hany⟩ := hopen
  rw [Option.isNone_iff_eq_none] at hcall
  rcases h with huntracked | ⟨first, job, document, htracked⟩
  · rw [huntracked.getJob] at hany
    exact absurd hany (by simp)
  · rw [htracked.getJob] at hany
    refine ⟨first, job, document, htracked, by simpa using hany, ?_⟩
    rw [ProgressTracker.copies, pendingUpdate_eq_none hcall]

/-- An update is refused. -/
theorem Follows.update_refused (h : Follows s jobId events) (hopen : s.Open jobId)
    (update : Update) : Follows s jobId (events ++ [.write update .refused]) := by
  obtain ⟨first, job, document, htracked, hstatus, hcopies⟩ := h.exists_of_open hopen
  have hidle : s.pendingUpdate jobId = none := congrArg Copies.pending hcopies
  refine .inr ⟨first, job, document, htracked.getJob, htracked.record, htracked.notCreating,
    htracked.running, ?_, fun other hother ↦ absurd (hidle.symm.trans hother) (by simp),
    fun hended ↦ absurd hstatus hended⟩
  refine run_concat htracked.run ?_
  rw [hcopies]
  rfl

/-- An update reaches the collection, with its reply or without. -/
theorem Follows.update (h : Follows s jobId events) (hopen : s.Open jobId) (update : Update)
    {outcome : Outcome} (hstored : outcome ≠ .refused) :
    Follows ((s.updateOne jobId update.sets).setInFlight jobId
      (if outcome = .confirmed then some (.update update) else none)) jobId
        (events ++ [.write update outcome]) := by
  obtain ⟨first, job, document, htracked, hstatus, hcopies⟩ := h.exists_of_open hopen
  generalize ht : (s.updateOne jobId update.sets).setInFlight jobId
    (if outcome = .confirmed then some (.update update) else none) = t
  have hcall : t.inFlight jobId =
      if outcome = .confirmed then some (.update update) else none := by
    rw [← ht, inFlight_setInFlight]
  have hpending : t.pendingUpdate jobId =
      if outcome = .confirmed then some update else none := by
    rw [ProgressTracker.pendingUpdate, hcall]
    split_ifs <;> rfl
  refine .inr ⟨first, job, setFields update.sets document, ?_, ?_, fun other hother ↦ ?_,
    htracked.running, ?_, fun other hother hends ↦ ?_, fun hended ↦ absurd hstatus hended⟩
  · rw [← ht]
    exact htracked.getJob
  · rw [← ht]
    exact (JobRecords.record_updateOne s jobId update).trans (by rw [htracked.record]; rfl)
  · rw [hcall] at hother
    split_ifs at hother
    simp at hother
  · refine run_concat htracked.run ?_
    rw [hcopies, ProgressTracker.copies, hpending, storedFields_setFields]
    cases outcome with
    | refused => exact absurd rfl hstored
    | confirmed | unconfirmed => rfl
  · rw [hpending] at hother
    split_ifs at hother with hconfirmed
    obtain rfl := Option.some.inj hother
    rw [hconfirmed]
    exact endFresh_write hends

/-- A confirmed update is made in memory. -/
theorem Follows.updated (h : Follows s jobId events) {update : Update}
    (hcall : s.inFlight jobId = some (.update update)) :
    Follows { s.setInFlight jobId none with
      jobs := updateFirst (fun job ↦ job.jobId == jobId) update.apply s.jobs } jobId
        (events ++ [.remember]) := by
  rcases h with huntracked | ⟨first, job, document, htracked⟩
  · exact absurd hcall (huntracked.notUpdating update)
  · have hwas : s.pendingUpdate jobId = some update := pendingUpdate_eq_some.mpr hcall
    have hnone : (s.setInFlight jobId none).inFlight jobId = none := inFlight_setInFlight ..
    have hidle : (s.setInFlight jobId none).pendingUpdate jobId = none :=
      pendingUpdate_eq_none hnone
    have hjob : (updateFirst (fun job ↦ job.jobId == jobId) update.apply s.jobs).find?
        (fun job ↦ job.jobId == jobId) = some (update.apply job) := by
      rw [find?_updateFirst fun job hjob ↦ by rw [jobId_apply]; exact hjob,
        show s.jobs.find? _ = some job from htracked.getJob, Option.map_some]
    have hfresh (field : String) : WriteThrough.stale layout field (events ++ [.remember]) =
        WriteThrough.stale layout field events := stale_concat field .remember
    refine .inr ⟨first, update.apply job, document, hjob, htracked.record,
      fun other hother ↦ absurd (hnone.symm.trans hother) (by simp), htracked.running, ?_,
      fun other hother ↦ absurd (hidle.symm.trans hother) (by simp), fun hended ↦ ⟨hidle, ?_⟩⟩
    · refine run_concat htracked.run ?_
      show WriteThrough.step layout (s.copies jobId job document) .remember =
        some (Copies.mk (storedFields document) (update.apply job)
          ((s.setInFlight jobId none).pendingUpdate jobId))
      rw [hidle, ProgressTracker.copies, hwas]
      rfl
    · have hends : update.ends = true := by
        by_contra hgoes
        -- the job was running, since a call was in flight, and this call did not end it
        have hrunning : job.status = .running := by
          by_contra hnot
          exact absurd (hwas.symm.trans (htracked.ended hnot).1) (by simp)
        apply hended
        cases update <;> simp [Update.ends] at hgoes <;> exact hrunning
      unfold EndFresh
      rw [hfresh, hfresh]
      exact htracked.ending update hwas hends

end

/-- The record of a job follows its calls, whatever happens to the other jobs. -/
theorem follows_step {s t : ProgressTracker} {jobId : String} {event : Event}
    {events : List (WriteThrough.Event Update)} (hnamed : Named s) (h : Follows s jobId events)
    (hstep : step s event = some t) : Follows t jobId (events ++ event.onCopies jobId) := by
  by_cases hown : jobId = event.jobId
  · subst hown
    cases stepCase_of_step hstep with
    | createRefused =>
      rw [Event.onCopies, List.append_nil]
      exact h
    | create hunused hcall =>
      rw [Event.onCopies, List.append_nil]
      exact h.create hunused rfl rfl hcall
    | created hcall =>
      rw [Event.onCopies, List.append_nil]
      exact h.created hnamed hcall
    | updateRefused hopen =>
      rw [Event.onCopies, Event.jobId, if_pos rfl]
      exact h.update_refused hopen _
    | update hopen hstored =>
      rw [Event.onCopies, Event.jobId, if_pos rfl]
      exact h.update hopen _ hstored
    | updated hcall =>
      rw [Event.onCopies, Event.jobId, if_pos rfl]
      exact h.updated hcall
  · have hnothing : event.onCopies jobId = [] := by
      cases event with
      | create | created => rfl
      | update | updated => exact if_neg fun heq ↦ hown heq.symm
    rw [hnothing, List.append_nil]
    exact h.of_same (same_of_step hnamed hown hstep)

theorem named_new (stored : List Data.Document) : Named (.new stored) :=
  fun _ _ h ↦ absurd h (by simp [ProgressTracker.new])

theorem follows_of_run {s t : ProgressTracker} {jobId : String} {events : List Event}
    {before : List (WriteThrough.Event Update)} (hnamed : Named s) (h : Follows s jobId before)
    (hrun : run step s events = some t) :
    Named t ∧ Follows t jobId (before ++ copyEvents jobId events) := by
  induction events generalizing s before with
  | nil =>
    obtain rfl := Option.some.inj hrun
    rw [copyEvents, List.flatMap_nil, List.append_nil]
    exact ⟨hnamed, h⟩
  | cons event events ih =>
    obtain ⟨next, hstep, hrest⟩ := run_cons_eq_some.mp hrun
    rw [copyEvents, List.flatMap_cons, ← List.append_assoc]
    exact ih (named_step hnamed hstep) (follows_step hnamed h hstep) hrest

/-! ## Results -/

/-- The record of a job as it will be once the call in flight has changed the memory. -/
def ProgressTracker.upcoming (s : ProgressTracker) (jobId : String) (job : IngestJob) : IngestJob :=
  match s.pendingUpdate jobId with
  | none => job
  | some update => update.apply job

/-- The last call of the job that set a field in the collection returned an error all the same. -/
def staleField (jobId field : String) (events : List Event) : Bool :=
  WriteThrough.stale layout field (copyEvents jobId events)

/-- The document of a tracked job has the value of the job in memory in every field that is not
stale. -/
theorem Tracked.lookup_record {s : ProgressTracker} {jobId : String} {first job : IngestJob}
    {document : Data.Document} {events : List (WriteThrough.Event Update)}
    (h : Tracked s jobId first job document events) {field : String} (hfield : field ≠ "_id")
    (hfresh : WriteThrough.stale layout field events = false) :
    document.lookup field = (jobToDocument (s.upcoming jobId job)).lookup field :=
  calc document.lookup field
    _ = storedFields document field := (if_neg hfield).symm
    _ = layout.view ((s.copies jobId job document).upcoming layout) field :=
      WriteThrough.stored_of_run h.run hfresh
    _ = (jobToDocument (s.upcoming jobId job)).lookup field := by
      unfold Copies.upcoming ProgressTracker.upcoming ProgressTracker.copies
      cases s.pendingUpdate jobId <;> rfl

/-- A job that is found in memory is tracked. -/
theorem exists_tracked_of_run {stored : List Data.Document} {events : List Event}
    {s : ProgressTracker} {jobId : String} {job : IngestJob}
    (hrun : run step (.new stored) events = some s) (hjob : s.getJob jobId = some job) :
    ∃ first document, Tracked s jobId first job document (copyEvents jobId events) := by
  obtain ⟨-, huntracked | ⟨first, other, document, htracked⟩⟩ :=
    follows_of_run (named_new stored) (follows_new stored jobId) hrun
  · exact absurd (huntracked.getJob.symm.trans hjob) (by simp)
  · obtain rfl := Option.some.inj (htracked.getJob.symm.trans hjob)
    exact ⟨first, document, htracked⟩

/-- Whatever the calls of all jobs do and whichever of their writes fail, the job that is found in
memory has a document in the collection, and every field of it that is not stale has the value that
the job has in memory, or will have once the confirmed call in flight has reached the memory. -/
theorem lookup_record_of_run (stored : List Data.Document) (events : List Event)
    (s : ProgressTracker) (jobId : String) (job : IngestJob)
    (hrun : run step (.new stored) events = some s) (hjob : s.getJob jobId = some job) :
    ∃ document, s.record jobId = some document ∧ ∀ field, field ≠ "_id" →
      staleField jobId field events = false →
        document.lookup field = (jobToDocument (s.upcoming jobId job)).lookup field := by
  obtain ⟨first, document, htracked⟩ := exists_tracked_of_run hrun hjob
  exact ⟨document, htracked.record, fun field hfield hfresh ↦
    htracked.lookup_record hfield hfresh⟩

/-- Two jobs run at once; of the first one the reply to its number of rows is lost. -/
def twoJobs : List Event :=
  [ .create "a" "a.csv" "shop" "orders" 1500000 [1] .confirmed,
    .create "b" "b.csv" "shop" "users" 2500000 [2] .confirmed,
    .created "b",
    .created "a",
    .update "a" (.totalRows 10) .unconfirmed,
    .update "b" (.totalRows 4) .confirmed,
    .update "a" (.complete 9000000) .confirmed,
    .updated "b",
    .updated "a" ]

def earlierJobs : List Data.Document :=
  [insertedDocument [9] (newJob "z" "z.csv" "shop" "orders" 0)]

def twoJobsTracker : ProgressTracker := (run step (.new earlierJobs) twoJobs).get (by decide)

/-- The first job in memory after these calls. -/
def endedJob : IngestJob :=
  { newJob "a" "a.csv" "shop" "orders" 1500000 with
    status := .completed
    completedAt := some 9000000 }

theorem lookup_record_twoJobs :
    ∃ document, twoJobsTracker.record "a" = some document ∧ ∀ field, field ≠ "_id" →
      staleField "a" field twoJobs = false →
        document.lookup field =
          (jobToDocument (twoJobsTracker.upcoming "a" endedJob)).lookup field :=
  lookup_record_of_run earlierJobs twoJobs twoJobsTracker "a" endedJob (Option.some_get _).symm (by decide)

/-- No call changes a job that has ended in memory. -/
theorem same_of_ended {s t : ProgressTracker} {jobId : String} {event : Event} {job : IngestJob}
    {events : List (WriteThrough.Event Update)} (hnamed : Named s) (h : Follows s jobId events)
    (hjob : s.getJob jobId = some job) (hended : job.status ≠ .running)
    (hstep : step s event = some t) : Same jobId s t := by
  by_cases hown : jobId = event.jobId
  · subst hown
    obtain huntracked | ⟨first, other, document, htracked⟩ := h
    · exact absurd (huntracked.getJob.symm.trans hjob) (by simp)
    · obtain rfl := Option.some.inj (htracked.getJob.symm.trans hjob)
      cases stepCase_of_step hstep with
      | createRefused | updateRefused => exact ⟨rfl, rfl, rfl⟩
      | create hunused =>
        obtain ⟨-, hunused, -⟩ := hunused
        exact absurd ((Option.isNone_iff_eq_none.mp hunused).symm.trans hjob) (by simp)
      | created hcall => exact absurd hcall (htracked.notCreating _)
      | update hopen =>
        rw [Event.jobId] at hjob
        exact absurd hopen.2 (by simpa [hjob] using hended)
      | updated hcall =>
        have hidle := (htracked.ended hended).1
        exact absurd (hidle.symm.trans (pendingUpdate_eq_some.mpr hcall)) (by simp)
  · exact same_of_step hnamed hown hstep

theorem getJob_of_ended {s t : ProgressTracker} {jobId : String} {job : IngestJob}
    {events : List Event} {before : List (WriteThrough.Event Update)} (hnamed : Named s)
    (h : Follows s jobId before) (hjob : s.getJob jobId = some job)
    (hended : job.status ≠ .running) (hrun : run step s events = some t) :
    t.getJob jobId = some job := by
  induction events generalizing s before with
  | nil =>
    obtain rfl := Option.some.inj hrun
    exact hjob
  | cons event events ih =>
    obtain ⟨next, hstep, hrest⟩ := run_cons_eq_some.mp hrun
    have hsame := same_of_ended hnamed h hjob hended hstep
    exact ih (named_step hnamed hstep) (follows_step hnamed h hstep)
      (hsame.getJob.trans hjob) hrest

/-- A job that is found ended in memory stays as it is from then on, and its end is in the
collection: its document has the same status and the same time of its end, now and after whatever
is still to happen. -/
theorem ended_of_run (stored : List Data.Document) (events later : List Event)
    (s t : ProgressTracker) (jobId : String) (job : IngestJob)
    (hrun : run step (.new stored) events = some s)
    (hjob : s.getJob jobId = some job) (hended : job.status ≠ .running)
    (hlater : run step s later = some t) :
    t.getJob jobId = some job ∧ ∃ document, t.record jobId = some document ∧
      document.lookup "status" = some (.string (statusStr job.status)) ∧
        document.lookup "completed_at" = (jobToDocument job).lookup "completed_at" := by
  obtain ⟨hnamed, hfollows⟩ := follows_of_run (named_new stored) (follows_new stored jobId) hrun
  have hkept := getJob_of_ended hnamed hfollows hjob hended hlater
  have hwhole : run step (.new stored) (events ++ later) = some t := by
    rw [run_append, hrun, Option.bind_some, hlater]
  obtain ⟨first, document, htracked⟩ := exists_tracked_of_run hwhole hkept
  obtain ⟨hidle, hstatus, hcompleted⟩ := htracked.ended hended
  have hupcoming : t.upcoming jobId job = job := by
    rw [ProgressTracker.upcoming, hidle]
  have hrecorded {field : String} (hfield : field ≠ "_id")
      (hfresh : WriteThrough.stale layout field (copyEvents jobId (events ++ later)) = false) :
      document.lookup field = (jobToDocument job).lookup field :=
    (htracked.lookup_record hfield hfresh).trans (by rw [hupcoming])
  exact ⟨hkept, document, htracked.record, hrecorded (by decide) hstatus,
    hrecorded (by decide) hcompleted⟩

theorem ended_twoJobs :
    (run step twoJobsTracker [.create "c" "c.csv" "shop" "items" 0 [3] .refused]).isSome = true ∧
    twoJobsTracker.getJob "a" = some endedJob ∧ ∃ document,
      twoJobsTracker.record "a" = some document ∧
        document.lookup "status" = some (.string "completed") ∧
          document.lookup "completed_at" = (jobToDocument endedJob).lookup "completed_at" :=
  ⟨by decide, ended_of_run earlierJobs twoJobs [.create "c" "c.csv" "shop" "items" 0 [3] .refused]
    twoJobsTracker twoJobsTracker "a" endedJob (Option.some_get _).symm (by decide) (by decide) rfl⟩

end MongoCore.Ingestion.JobRecords
