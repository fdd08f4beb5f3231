import MongoCore.Grpc.StreamBatches

/-!
# Streams of inserts

A client streams batches of documents, each of which is inserted with one ordered command.  One handler
answers once, at the end, and another acknowledges every batch.

Both remember the namespace of the first batch that names a database.  Neither knows how much of a batch
was stored before its insert failed.
-/

namespace MongoCore.Grpc.Streams

open MongoCore.Data MongoCore.Grpc.Crud

/-! ## The handlers -/

structure InsertBatch where
  database : String
  collection : String
  documents : List (List UInt8)
  deriving DecidableEq, Repr

/-- What a stream of batches brings next. -/
inductive InsertEvent where
  | message (batch : InsertBatch)
  | failure (reason : String)
  deriving DecidableEq, Repr

/-- How an ordered insert ends: with the ids of the stored documents, or with an error after a number
of documents were stored. -/
inductive InsertOutcome where
  | inserted (insertedIds : List Bson)
  | failed (stored : ℕ) (message : String)

/-- What the handlers use: the decoder, and the inserts, which may end differently each time. -/
structure Inserter where
  decode : List UInt8 → Except String Document
  insertMany : ℕ → String → String → List Document → InsertOutcome

structure InsertError where
  index : ℕ
  message : String
  code : ℤ
  deriving DecidableEq, Repr

structure InsertManyStreamResponse where
  totalInserted : ℕ
  errors : List InsertError
  deriving DecidableEq, Repr

structure InsertBatchAck where
  batchIndex : ℕ
  insertedCount : ℕ
  errors : List InsertError
  deriving DecidableEq, Repr

/-- What the second handler yields. -/
inductive InsertItem where
  | ack (ack : InsertBatchAck)
  | status (failure : StreamStatus)

structure InsertCall where
  batch : InsertBatch
  database : String
  collection : String
  documents : List Document
  outcome : InsertOutcome

/-- The variables of the first handler, and the inserts it has performed. -/
structure InsertTally where
  totalInserted : ℕ := 0
  errors : List InsertError := []
  database : String := ""
  collection : String := ""
  globalIndex : ℕ := 0
  calls : List InsertCall := []

/-- The namespace is that of the first batch that names a database. -/
def InsertTally.remember (t : InsertTally) (batch : InsertBatch) : InsertTally :=
  if t.database = "" then { t with database := batch.database, collection := batch.collection }
  else t

/-- Count an insert.  The total is an unsigned number of 64 bits and the index one of 32. -/
def InsertTally.record (t : InsertTally) (batch : InsertBatch) (docs : List Document)
    (outcome : InsertOutcome) : InsertTally :=
  let counted : InsertTally :=
    match outcome with
    | .inserted insertedIds =>
        { t with totalInserted := (t.totalInserted + insertedIds.length) % 2 ^ 64 }
    | .failed _ message => { t with errors := t.errors ++ [⟨t.globalIndex, message, 0⟩] }
  { counted with
    globalIndex := (t.globalIndex + docs.length % 2 ^ 32) % 2 ^ 32
    calls := t.calls ++ [⟨batch, t.database, t.collection, docs, outcome⟩] }

section

variable (service : Inserter)

def decodeBatch (batch : InsertBatch) : Except Status (List Document) :=
  batch.documents.mapM (decodeBson service.decode)

/-- The loop of the first handler. -/
def insertManyStreamFrom : InsertTally → List InsertEvent → InsertTally × Option StreamStatus
  | t, [] => (t, none)
  | t, .failure reason :: _ => (t, some ⟨.internal, s!"Stream error: {reason}"⟩)
  | t, .message batch :: events =>
      let t := t.remember batch
      match decodeBatch service batch with
      | .error status => (t, some (.of status))
      | .ok docs =>
          let outcome := service.insertMany t.calls.length t.database t.collection docs
          insertManyStreamFrom (t.record batch docs outcome) events

/-- The inserts of the first handler, and its answer. -/
def insertManyStream (events : List InsertEvent) :
    List InsertCall × Except StreamStatus InsertManyStreamResponse :=
  match insertManyStreamFrom service {} events with
  | (t, none) =>
      (t.calls, .ok { totalInserted := t.totalInserted, errors := t.errors })
  | (t, some status) => (t.calls, .error status)

def batchAck (batchIndex : ℕ) : InsertOutcome → InsertBatchAck
  | .inserted insertedIds =>
      { batchIndex := batchIndex, insertedCount := insertedIds.length % 2 ^ 32, errors := [] }
  | .failed _ message =>
      { batchIndex := batchIndex, insertedCount := 0, errors := [⟨0, message, 0⟩] }

/-- The loop of the second handler, with the inserts performed and what is yielded. -/
def insertManyBidiFrom : String → String → ℕ → List InsertCall → List InsertEvent →
    List InsertCall × List InsertItem
  | _, _, _, calls, [] => (calls, [])
  | _, _, _, calls, .failure reason :: _ =>
      (calls, [.status ⟨.internal, s!"Stream error: {reason}"⟩])
  | database, collection, batchIndex, calls, .message batch :: events =>
      let (database, collection) :=
        if database = "" then (batch.database, batch.collection) else (database, collection)
      match decodeBatch service batch with
      | .error status => (calls, [.status (.of status)])
      | .ok docs =>
          let outcome := service.insertMany calls.length database collection docs
          let (calls, items) :=
            insertManyBidiFrom database collection ((batchIndex + 1) % 2 ^ 32)
              (calls ++ [⟨batch, database, collection, docs, outcome⟩]) events
          (calls, .ack (batchAck batchIndex outcome) :: items)

/-- The inserts of the second handler, and what it yields. -/
def insertManyBidi (events : List InsertEvent) : List InsertCall × List InsertItem :=
  insertManyBidiFrom service "" "" 0 [] events

/-! ## The inserts that are performed -/

def rememberNamespace (remembered : String × String) (batch : InsertBatch) : String × String :=
  if remembered.1 = "" then (batch.database, batch.collection) else remembered

/-- The inserts for a sequence of batches, after some that were performed before. -/
def performedFrom : ℕ → String × String → List InsertEvent → List InsertCall
  | number, remembered, .message batch :: events =>
      match decodeBatch service batch with
      | .error _ => []
      | .ok docs =>
          let target := rememberNamespace remembered batch
          ⟨batch, target.1, target.2, docs, service.insertMany number target.1 target.2 docs⟩ ::
            performedFrom (number + 1) target events
  | _, _, _ => []

def performed (events : List InsertEvent) : List InsertCall :=
  performedFrom service 0 ("", "") events

def InsertCall.stored (call : InsertCall) : ℕ :=
  match call.outcome with
  | .inserted insertedIds => insertedIds.length
  | .failed stored _ => stored

/-- The error of an insert that failed. -/
def InsertCall.failure? (call : InsertCall) : Option String :=
  match call.outcome with
  | .inserted _ => none
  | .failed _ message => some message

def InsertCall.acknowledged (call : InsertCall) : ℕ :=
  match call.outcome with
  | .inserted insertedIds => insertedIds.length
  | .failed _ _ => 0

/-- The failed inserts, with the number of documents in the batches before and their errors. -/
def failures : ℕ → List InsertCall → List (ℕ × InsertCall × String)
  | _, [] => []
  | start, call :: calls =>
      (call.failure?.toList.map fun message ↦ (start, call, message)) ++
        failures (start + call.documents.length) calls

/-! ## Both handlers perform these inserts -/

theorem InsertTally.remember_eq (t : InsertTally) (batch : InsertBatch) :
    t.remember batch =
      { t with
        database := (rememberNamespace (t.database, t.collection) batch).1
        collection := (rememberNamespace (t.database, t.collection) batch).2 } := by
  unfold InsertTally.remember rememberNamespace
  split_ifs <;> rfl

/-- The errors that are reported for failed inserts. -/
def reportedErrors (start : ℕ) (calls : List InsertCall) : List InsertError :=
  (failures start calls).map fun failure ↦ ⟨failure.1 % 2 ^ 32, failure.2.2, 0⟩

theorem reportedErrors_inserted (start : ℕ) (call : InsertCall) (calls : List InsertCall)
    (h : call.failure? = none) :
    reportedErrors start (call :: calls) = reportedErrors (start + call.documents.length) calls := by
  rw [reportedErrors, failures, h]
  rfl

theorem reportedErrors_failed (start : ℕ) (call : InsertCall) (calls : List InsertCall)
    {message : String} (h : call.failure? = some message) :
    reportedErrors start (call :: calls) =
      ⟨start % 2 ^ 32, message, 0⟩ :: reportedErrors (start + call.documents.length) calls := by
  rw [reportedErrors, failures, h]
  rfl

/-- The loop of the first handler from a tally of some documents on. -/
theorem insertManyStreamFrom_eq {t : InsertTally} {total start : ℕ}
    (htotal : t.totalInserted = total % 2 ^ 64) (hstart : t.globalIndex = start % 2 ^ 32)
    (events : List InsertEvent) :
    let calls := performedFrom service t.calls.length (t.database, t.collection) events
    let final := (insertManyStreamFrom service t events).1
    final.calls = t.calls ++ calls ∧
      final.totalInserted = (total + (calls.map InsertCall.acknowledged).sum) % 2 ^ 64 ∧
      final.errors = t.errors ++ reportedErrors start calls := by
  induction events generalizing t total start with
  | nil => simp [performedFrom, insertManyStreamFrom, htotal, reportedErrors, failures]
  | cons event events ih =>
    cases event with
    | failure reason =>
      simp [performedFrom, insertManyStreamFrom, htotal, reportedErrors, failures]
    | message batch =>
      rw [insertManyStreamFrom, InsertTally.remember_eq, performedFrom]
      cases decodeBatch service batch with
      | error status => simp [htotal, reportedErrors, failures]
      | ok docs =>
        dsimp only
        generalize rememberNamespace (t.database, t.collection) batch = target
        have hglobal : (t.globalIndex + docs.length % 2 ^ 32) % 2 ^ 32 =
            (start + docs.length) % 2 ^ 32 := by
          rw [hstart, ← Nat.add_mod]
        cases houtcome : service.insertMany t.calls.length target.1 target.2 docs with
        | inserted insertedIds =>
          have hsum : (t.totalInserted + insertedIds.length) % 2 ^ 64 =
              (total + insertedIds.length) % 2 ^ 64 := by
            rw [htotal, Nat.mod_add_mod]
          let t' : InsertTally :=
            { t with
              totalInserted := (t.totalInserted + insertedIds.length) % 2 ^ 64
              database := target.1
              collection := target.2
              globalIndex := (t.globalIndex + docs.length % 2 ^ 32) % 2 ^ 32
              calls := t.calls ++ [⟨batch, target.1, target.2, docs, .inserted insertedIds⟩] }
          have h := ih (t := t') hsum hglobal
          rw [show t'.calls.length = t.calls.length + 1 from List.length_append] at h
          rw [reportedErrors_inserted _ _ _ rfl, List.map_cons, List.sum_cons, ← Nat.add_assoc]
          refine ⟨h.1.trans ?_, h.2.1, h.2.2⟩
          rw [List.append_assoc]
          rfl
        | failed stored message =>
          let t' : InsertTally :=
            { t with
              errors := t.errors ++ [⟨t.globalIndex, message, 0⟩]
              database := target.1
              collection := target.2
              globalIndex := (t.globalIndex + docs.length % 2 ^ 32) % 2 ^ 32
              calls := t.calls ++ [⟨batch, target.1, target.2, docs, .failed stored message⟩] }
          have h := ih (t := t') htotal hglobal
          rw [show t'.calls.length = t.calls.length + 1 from List.length_append] at h
          rw [reportedErrors_failed _ _ _ rfl, List.map_cons, List.sum_cons, ← hstart]
          refine ⟨h.1.trans ?_, h.2.1.trans ?_, h.2.2.trans ?_⟩
          · rw [List.append_assoc]
            rfl
          · rw [← Nat.add_assoc]
            rfl
          · rw [List.append_assoc]
            rfl

/-- Every message arrives and decodes. -/
def Complete (events : List InsertEvent) : Prop :=
  ∀ event ∈ events, ∃ batch docs, event = .message batch ∧ decodeBatch service batch = .ok docs

/-- The first handler answers with a report exactly if every message arrives and decodes. -/
theorem insertManyStreamFrom_status_iff (t : InsertTally) (events : List InsertEvent) :
    (insertManyStreamFrom service t events).2 = none ↔ Complete service events := by
  induction events generalizing t with
  | nil => simp [insertManyStreamFrom, Complete]
  | cons event events ih =>
    cases event with
    | failure reason => simp [insertManyStreamFrom, Complete]
    | message batch =>
      rw [insertManyStreamFrom, Complete, List.forall_mem_cons]
      cases hdecode : decodeBatch service batch with
      | error status => simp [hdecode]
      | ok docs => exact (ih _).trans (and_iff_right ⟨batch, docs, rfl, hdecode⟩).symm

theorem insertManyStream_calls (events : List InsertEvent) :
    (insertManyStream service events).1 = performed service events := by
  have h := insertManyStreamFrom_eq service (t := {}) (Nat.zero_mod _).symm (Nat.zero_mod _).symm
    events
  unfold insertManyStream
  split <;> rename_i hloop <;> rw [hloop] at h <;> exact h.1

/-- The report of the first handler. -/
theorem insertManyStream_eq_ok_iff {events : List InsertEvent}
    {response : InsertManyStreamResponse} :
    (insertManyStream service events).2 = .ok response ↔ Complete service events ∧
      response =
        { totalInserted := ((performed service events).map InsertCall.acknowledged).sum % 2 ^ 64
          errors := reportedErrors 0 (performed service events) } := by
  have h := insertManyStreamFrom_eq service (t := {}) (Nat.zero_mod _).symm (Nat.zero_mod _).symm
    events
  have hstatus := insertManyStreamFrom_status_iff service {} events
  unfold insertManyStream
  split <;> rename_i t hloop
  · rw [hloop] at h hstatus
    obtain ⟨-, htotal, herrors⟩ := h
    rw [and_iff_right (hstatus.mp rfl), htotal, herrors, Nat.zero_add]
    constructor
    · intro hresponse
      exact (Except.ok.inj hresponse).symm
    · rintro rfl
      rfl
  · rw [hloop] at hstatus
    have hincomplete : ¬ Complete service events := fun hcomplete ↦
      absurd (hstatus.mpr hcomplete) (by simp)
    simp [hincomplete]

def acksFrom : ℕ → List InsertCall → List InsertItem
  | _, [] => []
  | batchIndex, call :: calls =>
      .ack (batchAck batchIndex call.outcome) :: acksFrom ((batchIndex + 1) % 2 ^ 32) calls

/-- After the acknowledgments comes nothing or an error. -/
def Closing (items : List InsertItem) : Prop :=
  items = [] ∨ ∃ failure, items = [.status failure]

/-- The loop of the second handler acknowledges each insert. -/
theorem insertManyBidiFrom_eq (database collection : String) (batchIndex : ℕ)
    (calls : List InsertCall) (events : List InsertEvent) :
    let new := performedFrom service calls.length (database, collection) events
    ∃ last, Closing last ∧
      insertManyBidiFrom service database collection batchIndex calls events =
        (calls ++ new, acksFrom batchIndex new ++ last) := by
  induction events generalizing database collection batchIndex calls with
  | nil => exact ⟨[], .inl rfl, by simp [performedFrom, insertManyBidiFrom, acksFrom]⟩
  | cons event events ih =>
    cases event with
    | failure reason =>
      exact ⟨[.status ⟨.internal, s!"Stream error: {reason}"⟩], .inr ⟨_, rfl⟩, by
        simp [performedFrom, insertManyBidiFrom, acksFrom]⟩
    | message batch =>
      have htarget : (if database = "" then (batch.database, batch.collection)
          else (database, collection)) = rememberNamespace (database, collection) batch := rfl
      rw [insertManyBidiFrom, performedFrom, htarget]
      generalize rememberNamespace (database, collection) batch = target
      cases decodeBatch service batch with
      | error status => exact ⟨[.status (.of status)], .inr ⟨_, rfl⟩, by simp [acksFrom]⟩
      | ok docs =>
        dsimp only
        generalize houtcome : service.insertMany calls.length target.1 target.2 docs = outcome
        obtain ⟨last, hlast, h⟩ := ih target.1 target.2 ((batchIndex + 1) % 2 ^ 32)
          (calls ++ [⟨batch, target.1, target.2, docs, outcome⟩])
        rw [List.length_append, List.length_singleton] at h
        refine ⟨last, hlast, ?_⟩
        rw [h, List.append_assoc]
        rfl

theorem insertManyBidi_calls (events : List InsertEvent) :
    (insertManyBidi service events).1 = performed service events := by
  obtain ⟨last, -, h⟩ := insertManyBidiFrom_eq service "" "" 0 [] events
  rw [insertManyBidi, h]
  rfl

def InsertItem.errors : InsertItem → List InsertError
  | .ack sent => sent.errors
  | .status _ => []

theorem flatMap_errors_acksFrom (batchIndex start : ℕ) (calls : List InsertCall) :
    (acksFrom batchIndex calls).flatMap InsertItem.errors =
      (failures start calls).map fun failure ↦ ⟨0, failure.2.2, 0⟩ := by
  induction calls generalizing batchIndex start with
  | nil => rfl
  | cons call calls ih =>
    rw [acksFrom, failures, List.flatMap_cons, List.map_append,
      ih ((batchIndex + 1) % 2 ^ 32) (start + call.documents.length)]
    unfold InsertCall.failure?
    cases call.outcome <;> rfl

theorem insertManyBidi_errors (events : List InsertEvent) :
    (insertManyBidi service events).2.flatMap InsertItem.errors =
      (failures 0 (performed service events)).map fun failure ↦ ⟨0, failure.2.2, 0⟩ := by
  obtain ⟨last, hlast, h⟩ := insertManyBidiFrom_eq service "" "" 0 [] events
  have hnone : last.flatMap InsertItem.errors = [] := by
    rcases hlast with rfl | ⟨failure, rfl⟩ <;> rfl
  rw [insertManyBidi, h, List.flatMap_append, hnone, List.append_nil]
  exact flatMap_errors_acksFrom 0 0 _

/-! ## Namespaces -/

/-- An insert goes to the database and the collection that its batch names. -/
def InsertCall.InOwnNamespace (call : InsertCall) : Prop :=
  (call.batch.database ≠ "" → call.database = call.batch.database) ∧
    (call.batch.collection ≠ "" → call.collection = call.batch.collection)

/-- The batches that are inserted: those before the first that does not arrive or decode. -/
def insertedBatches : List InsertEvent → List InsertBatch
  | .message batch :: events =>
      match decodeBatch service batch with
      | .error _ => []
      | .ok _ => batch :: insertedBatches events
  | _ => []

/-- A batch names the same database and collection as another one, or none. -/
def InsertBatch.NamesOnly (batch first : InsertBatch) : Prop :=
  (batch.database ≠ "" → batch.database = first.database) ∧
    (batch.collection ≠ "" → batch.collection = first.collection)

/-- After the first batch that names a database, no batch names another database or collection. -/
def OneNamespace (batches : List InsertBatch) : Prop :=
  ∀ front first back, batches = front ++ first :: back → (∀ batch ∈ front, batch.database = "") →
    first.database ≠ "" → ∀ batch ∈ back, batch.NamesOnly first

/-- With a namespace remembered, all inserts go to it. -/
theorem inOwnNamespace_of_remembered (number : ℕ) {remembered : String × String}
    (hdatabase : remembered.1 ≠ "") (events : List InsertEvent) :
    (∀ call ∈ performedFrom service number remembered events, call.InOwnNamespace) ↔
      ∀ batch ∈ insertedBatches service events,
        (batch.database ≠ "" → batch.database = remembered.1) ∧
          (batch.collection ≠ "" → batch.collection = remembered.2) := by
  induction events generalizing number with
  | nil => simp [performedFrom, insertedBatches]
  | cons event events ih =>
    cases event with
    | failure reason => simp [performedFrom, insertedBatches]
    | message batch =>
      rw [performedFrom, insertedBatches, rememberNamespace, if_neg hdatabase]
      cases decodeBatch service batch with
      | error status => simp
      | ok docs =>
        rw [List.forall_mem_cons, List.forall_mem_cons, ih]
        refine and_congr_left' (and_congr ?_ ?_) <;> exact imp_congr_right fun _ ↦ eq_comm

theorem oneNamespace_cons_of_empty {batch : InsertBatch} (hempty : batch.database = "")
    (batches : List InsertBatch) : OneNamespace (batch :: batches) ↔ OneNamespace batches := by
  constructor
  · intro h front first back hbatches hfront
    exact h (batch :: front) first back (by rw [hbatches]; rfl)
      (List.forall_mem_cons.mpr ⟨hempty, hfront⟩)
  · intro h front first back hbatches hfront hfirst
    cases front with
    | nil =>
      obtain ⟨rfl, -⟩ := List.cons.inj hbatches
      exact absurd hempty hfirst
    | cons other front =>
      obtain ⟨-, hrest⟩ := List.cons.inj hbatches
      exact h front first back hrest (List.forall_mem_cons.mp hfront).2 hfirst

theorem oneNamespace_cons_of_named {batch : InsertBatch} (hnamed : batch.database ≠ "")
    (batches : List InsertBatch) :
    OneNamespace (batch :: batches) ↔ ∀ other ∈ batches, other.NamesOnly batch := by
  constructor
  · intro h
    exact h [] batch batches rfl (List.forall_mem_nil _) hnamed
  · intro h front first back hbatches hfront
    cases front with
    | nil =>
      obtain ⟨rfl, rfl⟩ := List.cons.inj hbatches
      exact fun _ ↦ h
    | cons other front =>
      obtain ⟨rfl, -⟩ := List.cons.inj hbatches
      exact absurd (List.forall_mem_cons.mp hfront).1 hnamed

theorem inOwnNamespace_iff (number : ℕ) (collection : String) (events : List InsertEvent) :
    (∀ call ∈ performedFrom service number ("", collection) events, call.InOwnNamespace) ↔
      OneNamespace (insertedBatches service events) := by
  induction events generalizing number collection with
  | nil => simp [performedFrom, insertedBatches, OneNamespace]
  | cons event events ih =>
    cases event with
    | failure reason => simp [performedFrom, insertedBatches, OneNamespace]
    | message batch =>
      rw [performedFrom, insertedBatches, rememberNamespace, if_pos rfl]
      cases decodeBatch service batch with
      | error status => simp [OneNamespace]
      | ok docs =>
        dsimp only
        have hown : InsertCall.InOwnNamespace ⟨batch, batch.database, batch.collection, docs,
            service.insertMany number batch.database batch.collection docs⟩ :=
          ⟨fun _ ↦ rfl, fun _ ↦ rfl⟩
        rw [List.forall_mem_cons, and_iff_right hown]
        by_cases hdatabase : batch.database = ""
        · rw [oneNamespace_cons_of_empty hdatabase, hdatabase]
          exact ih (number + 1) batch.collection
        · rw [oneNamespace_cons_of_named hdatabase]
          exact inOwnNamespace_of_remembered service (number + 1) hdatabase events

/-! ## Reports -/

/-- The global indices of the first documents that failed inserts did not store. -/
def firstNotStored (calls : List InsertCall) : List ℕ :=
  (failures 0 calls).map fun failure ↦ failure.1 + failure.2.1.stored

/-- The first handler reports what happened: if it answers, the total is the number of documents stored
and every error has the index of the first document not stored; and every insert went to the namespace
of its own batch. -/
def StreamReports (events : List InsertEvent) : Prop :=
  let (calls, answer) := insertManyStream service events
  (∀ response, answer = .ok response →
      response.totalInserted = (calls.map InsertCall.stored).sum ∧
        response.errors.map InsertError.index = firstNotStored calls) ∧
    ∀ call ∈ calls, call.InOwnNamespace

/-- The second handler reports what happened, in its acknowledgments. -/
def BidiReports (events : List InsertEvent) : Prop :=
  let (calls, items) := insertManyBidi service events
  (items.flatMap InsertItem.errors).map InsertError.index = firstNotStored calls ∧
    ∀ call ∈ calls, call.InOwnNamespace

/-- Inserts that fail have stored nothing, and the indices of their batches satisfy a bound. -/
def FailuresAt (bound : ℕ → Prop) (calls : List InsertCall) : Prop :=
  ∀ failure ∈ failures 0 calls, failure.2.1.stored = 0 ∧ bound failure.1

theorem sum_acknowledged_le (calls : List InsertCall) :
    (calls.map InsertCall.acknowledged).sum ≤ (calls.map InsertCall.stored).sum := by
  induction calls with
  | nil => exact Nat.le_refl 0
  | cons call calls ih =>
    obtain ⟨batch, database, collection, docs, outcome⟩ := call
    rw [List.map_cons, List.map_cons, List.sum_cons, List.sum_cons]
    cases outcome with
    | inserted insertedIds => exact Nat.add_le_add_left ih _
    | failed stored message => exact Nat.add_le_add (Nat.zero_le stored) ih

/-- As many documents are acknowledged as are stored exactly if inserts that fail store nothing. -/
theorem sum_acknowledged_eq_iff (start : ℕ) (calls : List InsertCall) :
    (calls.map InsertCall.acknowledged).sum = (calls.map InsertCall.stored).sum ↔
      ∀ failure ∈ failures start calls, failure.2.1.stored = 0 := by
  induction calls generalizing start with
  | nil => simp [failures]
  | cons call calls ih =>
    have hle := sum_acknowledged_le calls
    obtain ⟨batch, database, collection, docs, outcome⟩ := call
    rw [List.map_cons, List.map_cons, List.sum_cons, List.sum_cons, failures,
      List.forall_mem_append, ← ih (start + docs.length)]
    cases outcome with
    | inserted insertedIds =>
      have hnone : InsertCall.failure? ⟨batch, database, collection, docs, .inserted insertedIds⟩ =
          none := rfl
      rw [hnone]
      simp [InsertCall.acknowledged, InsertCall.stored]
    | failed stored message =>
      have hsome : InsertCall.failure? ⟨batch, database, collection, docs, .failed stored message⟩ =
          some message := rfl
      rw [hsome]
      simp only [InsertCall.acknowledged, InsertCall.stored, Option.toList_some, List.map_cons,
        List.map_nil, List.forall_mem_singleton]
      omega

/-- The reported total is right exactly if inserts that fail store nothing and it fits into 64 bits. -/
theorem total_eq_iff (calls : List InsertCall) :
    (calls.map InsertCall.acknowledged).sum % 2 ^ 64 = (calls.map InsertCall.stored).sum ↔
      (∀ failure ∈ failures 0 calls, failure.2.1.stored = 0) ∧
        (calls.map InsertCall.stored).sum < 2 ^ 64 := by
  rw [← sum_acknowledged_eq_iff 0 calls]
  have hle := sum_acknowledged_le calls
  have hmod := Nat.mod_le (calls.map InsertCall.acknowledged).sum (2 ^ 64)
  have hlt := Nat.mod_lt (calls.map InsertCall.acknowledged).sum (Nat.two_pow_pos 64)
  constructor
  · intro h
    exact ⟨by omega, by omega⟩
  · rintro ⟨hsame, hsmall⟩
    rw [hsame, Nat.mod_eq_of_lt hsmall]

/-- The reported indices are right exactly if they are those of the first documents not stored. -/
theorem map_index_eq_iff (report : ℕ → ℕ) (calls : List InsertCall) :
    (failures 0 calls).map (fun failure ↦ report failure.1) = firstNotStored calls ↔
      ∀ failure ∈ failures 0 calls, report failure.1 = failure.1 + failure.2.1.stored :=
  List.map_inj_left

/-- The first handler reports what happened exactly if, where every message arrives and decodes, inserts
that fail have stored nothing and the numbers fit, and no batch names another namespace than the first
that names one.  The second handler does so exactly if inserts that fail have stored nothing and no
documents were in the batches before, and no batch names another namespace. -/
theorem insertStreams_report_iff (events : List InsertEvent) :
    (StreamReports service events ↔
      (Complete service events →
        FailuresAt (· < 2 ^ 32) (performed service events) ∧
          ((performed service events).map InsertCall.stored).sum < 2 ^ 64) ∧
        OneNamespace (insertedBatches service events)) ∧
    (BidiReports service events ↔
      FailuresAt (· = 0) (performed service events) ∧
        OneNamespace (insertedBatches service events)) := by
  have hnamespace : (∀ call ∈ performed service events, call.InOwnNamespace) ↔
      OneNamespace (insertedBatches service events) := inOwnNamespace_iff service 0 "" events
  constructor
  · unfold StreamReports
    dsimp only
    rw [insertManyStream_calls, hnamespace]
    refine and_congr_left' ?_
    simp only [insertManyStream_eq_ok_iff, and_imp]
    have hindices : (reportedErrors 0 (performed service events)).map InsertError.index =
        firstNotStored (performed service events) ↔
          ∀ failure ∈ failures 0 (performed service events),
            failure.1 % 2 ^ 32 = failure.1 + failure.2.1.stored := by
      rw [← map_index_eq_iff (· % 2 ^ 32), reportedErrors, List.map_map]
      rfl
    have hreport := (total_eq_iff (performed service events)).and hindices
    constructor
    · intro h hcomplete
      obtain ⟨⟨hstored, hsum⟩, hright⟩ := hreport.mp (h _ hcomplete rfl)
      refine ⟨fun failure hfailure ↦ ⟨hstored failure hfailure, ?_⟩, hsum⟩
      have hlt := Nat.mod_lt failure.1 (Nat.two_pow_pos 32)
      have hindex := hright failure hfailure
      omega
    · rintro h response hcomplete rfl
      obtain ⟨hfailures, hsum⟩ := h hcomplete
      refine hreport.mpr ⟨⟨fun failure hfailure ↦ (hfailures failure hfailure).1, hsum⟩, ?_⟩
      intro failure hfailure
      obtain ⟨hstored, hlt⟩ := hfailures failure hfailure
      rw [Nat.mod_eq_of_lt hlt, hstored, Nat.add_zero]
  · unfold BidiReports
    dsimp only
    rw [insertManyBidi_calls, hnamespace, insertManyBidi_errors, List.map_map]
    refine and_congr_left' ((map_index_eq_iff (fun _ ↦ 0) _).trans ?_)
    refine forall₂_congr fun failure _ ↦ ⟨fun h ↦ ⟨by omega, by omega⟩, ?_⟩
    rintro ⟨hstored, hstart⟩
    rw [hstored, hstart]

/-- An insert that fails after one document was stored. -/
def failingInserter : Inserter where
  decode _ := .ok []
  insertMany _ _ _ _ := .failed 1 "duplicate key"

def pairBatch : InsertBatch where
  database := "shop"
  collection := "orders"
  documents := [[], []]

/-- Of a batch of two documents one is stored, and the total is zero. -/
theorem not_streamReports_of_partial_insert :
    ¬ ∀ (service : Inserter) (events : List InsertEvent),
      StreamReports service events ∧ BidiReports service events := by
  intro hreports
  have hanswer : (insertManyStream failingInserter [.message pairBatch]).2 =
      .ok { totalInserted := 0, errors := [⟨0, "duplicate key", 0⟩] } := rfl
  have htotal := ((hreports failingInserter [.message pairBatch]).1.1 _ hanswer).1
  exact absurd htotal (by decide)

end

end MongoCore.Grpc.Streams
