import MongoCore.Data.Bson
import MongoCore.Library.TransitionSystem
import MongoCore.Library.WriteThrough

/-!
# The dead-letter queue

Rows that cannot be ingested are kept as documents in a collection that all jobs share, and are
read back by job.  The writers of a job and the jobs themselves push at the same time; the events
here come in the order in which the database carries the insertions out.  An insertion can be
refused, or carried out without the reply getting through, and an ordered insertion of many
documents can stop after any number of them.

Times are in nanoseconds in memory and in milliseconds in the collection.  A time that the time
library cannot represent is replaced by the current one when it is read.
-/

namespace MongoCore.Ingestion.DeadLetters

open MongoCore.Data MongoCore.Library.TransitionSystem
open MongoCore.Library.WriteThrough (Outcome)

/-- The times that the time library represents, from the first to the last millisecond. -/
structure Calendar where
  earliest : ℤ
  latest : ℤ

/-- The milliseconds of a time, rounded down. -/
def millis (nanoseconds : ℤ) : ℤ := nanoseconds / 1000000

def Calendar.Represents (calendar : Calendar) (nanoseconds : ℤ) : Prop :=
  calendar.earliest ≤ millis nanoseconds ∧ millis nanoseconds ≤ calendar.latest

def Calendar.fromTimestampMillis (calendar : Calendar) (milliseconds : ℤ) : Option ℤ :=
  if calendar.earliest ≤ milliseconds ∧ milliseconds ≤ calendar.latest then
    some (milliseconds * 1000000)
  else none

/-- A row that could not be ingested. -/
structure DeadLetterEntry where
  jobId : String
  sourceRow : ℤ
  document : Data.Document
  error : String
  stage : String
  timestamp : ℤ

def entryToDocument (entry : DeadLetterEntry) : Data.Document :=
  [ ("job_id", .string entry.jobId),
    ("source_row", .int64 entry.sourceRow),
    ("document", .document entry.document),
    ("error", .string entry.error),
    ("stage", .string entry.stage),
    ("timestamp", .dateTime (millis entry.timestamp)) ]

/-! ## Reading a document -/

/-- A member of type string, or the empty string. -/
def getStr (document : Data.Document) (key : String) : String :=
  match document.lookup key with
  | some (.string value) => value
  | _ => ""

/-- A member that is a 64-bit integer, or zero. -/
def getI64 (document : Data.Document) (key : String) : ℤ :=
  match document.lookup key with
  | some (.int64 value) => value
  | _ => 0

/-- A member that is a document, or the empty document. -/
def getDocument (document : Data.Document) (key : String) : Data.Document :=
  match document.lookup key with
  | some (.document members) => members
  | _ => []

/-- A member that is a time the library represents, or the current time. -/
def getDatetime (calendar : Calendar) (now : ℤ) (document : Data.Document) (key : String) : ℤ :=
  match document.lookup key with
  | some (.dateTime milliseconds) => (calendar.fromTimestampMillis milliseconds).getD now
  | _ => now

def documentToEntry (calendar : Calendar) (now : ℤ) (document : Data.Document) :
    DeadLetterEntry where
  jobId := getStr document "job_id"
  sourceRow := getI64 document "source_row"
  document := getDocument document "document"
  error := getStr document "error"
  stage := getStr document "stage"
  timestamp := getDatetime calendar now document "timestamp"

/-! ## The collection -/

/-- An entry is pushed, or several are.  Of several, the first so many are stored, and `replied`
says whether the reply to a complete insertion gets through. -/
inductive Event where
  | push (entry : DeadLetterEntry) (objectId : List UInt8) (outcome : Outcome)
  | pushBatch (entries : List (DeadLetterEntry × List UInt8)) (stored : ℕ) (replied : Bool)

/-- The document that is inserted, with the id that the driver gives it. -/
def insertedDocument (entry : DeadLetterEntry) (objectId : List UInt8) : Data.Document :=
  ("_id", .objectId objectId) :: entryToDocument entry

def Event.entries : Event → List DeadLetterEntry
  | .push _ _ .refused => []
  | .push entry _ .confirmed | .push entry _ .unconfirmed => [entry]
  | .pushBatch entries stored _ => (entries.take stored).map Prod.fst

/-- The call returns without an error. -/
def Event.succeeds : Event → Bool
  | .push _ _ outcome => outcome == .confirmed
  | .pushBatch entries stored replied => entries.isEmpty || (entries.length ≤ stored && replied)

/-- The documents that an event adds to the collection; nothing is sent for an empty batch. -/
def Event.documents : Event → List Data.Document
  | .push _ _ .refused => []
  | .push entry objectId .confirmed | .push entry objectId .unconfirmed =>
      [insertedDocument entry objectId]
  | .pushBatch entries stored _ =>
      if entries.isEmpty then []
      else (entries.take stored).map fun entry ↦ insertedDocument entry.1 entry.2

def collection (events : List Event) : List Data.Document := events.flatMap Event.documents

def matchesJob (jobId : String) (document : Data.Document) : Bool :=
  match document.lookup "job_id" with
  | some (.string other) => other == jobId
  | _ => false

/-- The entries of a job, in the order in which the database finds its documents. -/
def getByJob (calendar : Calendar) (now : ℤ) (found : List Data.Document) (jobId : String) :
    List DeadLetterEntry :=
  (found.filter (matchesJob jobId)).map (documentToEntry calendar now)

/-! ## One document

The driver's own member comes first and has a name that no member of an entry has, so that every
member is read from where it was written. -/

/-- An entry whose time is cut to whole milliseconds. -/
def DeadLetterEntry.wholeMillis (entry : DeadLetterEntry) : DeadLetterEntry :=
  { entry with timestamp := millis entry.timestamp * 1000000 }

theorem fromTimestampMillis_millis {calendar : Calendar} {nanoseconds : ℤ}
    (hrepresents : calendar.Represents nanoseconds) :
    calendar.fromTimestampMillis (millis nanoseconds) = some (millis nanoseconds * 1000000) :=
  if_pos hrepresents

/-- An entry is read from its document with its time cut to whole milliseconds. -/
theorem documentToEntry_insertedDocument {calendar : Calendar} (now : ℤ)
    {entry : DeadLetterEntry} (objectId : List UInt8)
    (hrepresents : calendar.Represents entry.timestamp) :
    documentToEntry calendar now (insertedDocument entry objectId) = entry.wholeMillis := by
  have htime : getDatetime calendar now (insertedDocument entry objectId) "timestamp" =
      millis entry.timestamp * 1000000 := by
    change (calendar.fromTimestampMillis (millis entry.timestamp)).getD now = _
    rw [fromTimestampMillis_millis hrepresents, Option.getD_some]
  unfold documentToEntry
  rw [htime]
  rfl

/-! ## All events -/

/-- The entries that an event stores, each with its id. -/
def Event.insertions : Event → List (DeadLetterEntry × List UInt8)
  | .push _ _ .refused => []
  | .push entry objectId .confirmed | .push entry objectId .unconfirmed => [(entry, objectId)]
  | .pushBatch entries stored _ => entries.take stored

/-- The entries that an event is asked to store. -/
def Event.pushed : Event → List DeadLetterEntry
  | .push entry _ _ => [entry]
  | .pushBatch entries _ _ => entries.map Prod.fst

theorem Event.entries_eq_map (event : Event) :
    event.entries = event.insertions.map Prod.fst := by
  cases event with
  | push entry objectId outcome => cases outcome <;> rfl
  | pushBatch entries stored replied => rfl

theorem Event.documents_eq_map (event : Event) :
    event.documents = event.insertions.map fun entry ↦ insertedDocument entry.1 entry.2 := by
  cases event with
  | push entry objectId outcome => cases outcome <;> rfl
  | pushBatch entries stored replied => cases entries <;> simp [documents, insertions]

/-- A call that returns without an error has stored all that it was asked to store. -/
theorem Event.entries_of_succeeds {event : Event} (hsucceeds : event.succeeds = true) :
    event.entries = event.pushed := by
  cases event with
  | push entry objectId outcome =>
    cases outcome with
    | refused => cases hsucceeds
    | confirmed => rfl
    | unconfirmed => rfl
  | pushBatch entries stored replied =>
    cases entries with
    | nil => simp [entries, pushed]
    | cons entry rest =>
      have hlength : (entry :: rest).length ≤ stored := by
        simp only [succeeds, List.isEmpty_cons, Bool.false_or, Bool.and_eq_true,
          decide_eq_true_eq] at hsucceeds
        exact hsucceeds.1
      change ((entry :: rest).take stored).map Prod.fst = (entry :: rest).map Prod.fst
      rw [List.take_of_length_le hlength]

def insertions (events : List Event) : List (DeadLetterEntry × List UInt8) :=
  events.flatMap Event.insertions

theorem collection_eq_map (events : List Event) :
    collection events =
      (insertions events).map fun entry ↦ insertedDocument entry.1 entry.2 := by
  rw [collection, insertions, List.map_flatMap]
  exact List.flatMap_congr fun event _ ↦ event.documents_eq_map

theorem flatMap_entries_eq_map (events : List Event) :
    events.flatMap Event.entries = (insertions events).map Prod.fst := by
  rw [insertions, List.map_flatMap]
  exact List.flatMap_congr fun event _ ↦ event.entries_eq_map

/-- The answer for a job, when the database finds the documents in the order in which they were
inserted. -/
theorem getByJob_collection {calendar : Calendar} (now : ℤ) (events : List Event)
    (jobId : String)
    (hrepresents : ∀ entry ∈ events.flatMap Event.entries,
      calendar.Represents entry.timestamp) :
    getByJob calendar now (collection events) jobId =
      ((events.flatMap Event.entries).filter (·.jobId == jobId)).map
        DeadLetterEntry.wholeMillis := by
  rw [flatMap_entries_eq_map] at hrepresents ⊢
  calc getByJob calendar now (collection events) jobId
    _ = ((insertions events).filter fun entry ↦ entry.1.jobId == jobId).map
          fun entry ↦ documentToEntry calendar now (insertedDocument entry.1 entry.2) := by
        rw [getByJob, collection_eq_map, List.filter_map, List.map_map]
        rfl
    _ = ((insertions events).filter fun entry ↦ entry.1.jobId == jobId).map
          fun entry ↦ entry.1.wholeMillis := by
        apply List.map_congr_left
        intro entry hentry
        have hmem : entry.1 ∈ (insertions events).map Prod.fst :=
          List.mem_map_of_mem (List.mem_of_mem_filter hentry)
        exact documentToEntry_insertedDocument now entry.2 (hrepresents entry.1 hmem)
    _ = (((insertions events).map Prod.fst).filter (·.jobId == jobId)).map
          DeadLetterEntry.wholeMillis := by
        rw [List.filter_map, List.map_map]
        rfl

/-- After any pushes, refused, partial and unconfirmed ones among them, and in whatever order the
database finds the documents, the answer for a job holds the entries of the job that were stored,
each once and with its time cut to whole milliseconds.  It holds those of every call that returned
without an error. -/
theorem getByJob_perm {calendar : Calendar} (now : ℤ) (events : List Event) (jobId : String)
    {found : List Data.Document}
    (hrepresents : ∀ entry ∈ events.flatMap Event.entries,
      calendar.Represents entry.timestamp)
    (hfound : found.Perm (collection events)) :
    (getByJob calendar now found jobId).Perm
        (((events.flatMap Event.entries).filter (·.jobId == jobId)).map
          DeadLetterEntry.wholeMillis) ∧
      ∀ event ∈ events, event.succeeds = true → ∀ entry ∈ event.pushed,
        entry.jobId = jobId →
          entry.wholeMillis ∈ getByJob calendar now found jobId := by
  have hperm : (getByJob calendar now found jobId).Perm
      (((events.flatMap Event.entries).filter (·.jobId == jobId)).map
        DeadLetterEntry.wholeMillis) := by
    rw [← getByJob_collection now events jobId hrepresents]
    exact (hfound.filter _).map _
  refine ⟨hperm, ?_⟩
  intro event hevent hsucceeds entry hentry hjob
  rw [← Event.entries_of_succeeds hsucceeds] at hentry
  apply hperm.mem_iff.2
  apply List.mem_map_of_mem
  exact List.mem_filter.2 ⟨List.mem_flatMap_of_mem hevent hentry, by simp [hjob]⟩

/-- A row of a job, with a time of a number of nanoseconds. -/
def failedRow (jobId : String) (sourceRow timestamp : ℤ) : DeadLetterEntry where
  jobId := jobId
  sourceRow := sourceRow
  document := [("name", .string "test")]
  error := "duplicate key"
  stage := "bulk_write"
  timestamp := timestamp

/-- One entry is stored without a reply, two of a batch of three before the insertion stops, and
one with a reply. -/
def threePushes : List Event :=
  [ .push (failedRow "a" 42 1999999) [1] .unconfirmed,
    .pushBatch [(failedRow "a" 43 2000000, [2]), (failedRow "b" 7 (-1), [3]),
      (failedRow "a" 44 3000000, [4])] 2 true,
    .push (failedRow "a" 45 2000000) [5] .confirmed ]

def twoDays : Calendar := ⟨-86400000, 86400000⟩

theorem getByJob_threePushes :
    ((getByJob twoDays 0 (collection threePushes).reverse "a").Perm
        (((threePushes.flatMap Event.entries).filter (·.jobId == "a")).map
          DeadLetterEntry.wholeMillis)) ∧
      ∀ event ∈ threePushes, event.succeeds = true → ∀ entry ∈ event.pushed,
        entry.jobId = "a" →
          entry.wholeMillis ∈ getByJob twoDays 0 (collection threePushes).reverse "a" := by
  apply getByJob_perm 0 threePushes "a"
  · intro entry hentry
    have htime : entry.timestamp = 1999999 ∨ entry.timestamp = 2000000 ∨
        entry.timestamp = -1 := by
      simp only [threePushes, List.flatMap_cons, List.flatMap_nil, Event.entries,
        List.take_succ_cons, List.take_zero, List.map_cons, List.map_nil, List.mem_append,
        List.mem_cons, List.not_mem_nil, or_false] at hentry
      obtain rfl | (rfl | rfl) | rfl := hentry
      · exact Or.inl rfl
      · exact Or.inr (Or.inl rfl)
      · exact Or.inr (Or.inr rfl)
      · exact Or.inr (Or.inl rfl)
    change -86400000 ≤ millis entry.timestamp ∧ millis entry.timestamp ≤ 86400000
    unfold millis
    omega
  · exact List.reverse_perm _

end MongoCore.Ingestion.DeadLetters
