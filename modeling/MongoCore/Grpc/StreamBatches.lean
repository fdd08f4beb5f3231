import MongoCore.Grpc.Crud
import MongoCore.Library.FlushBuffer

/-!
# Streams of documents

The documents of a cursor are streamed in batches.  A batch is sent as soon as it is full, and what is
left is sent when the cursor is exhausted.  The handlers of finds and of aggregations have the same
loop.

The batches make up the documents of the cursor in order.  A full batch announces more documents
whether or not there are any, and what is left is not sent when the cursor fails.
-/

namespace MongoCore.Grpc.Streams

open MongoCore.Data MongoCore.Grpc.Crud MongoCore.Library.FlushBuffer

/-! ## The handlers -/

inductive Code where
  | invalidArgument
  | notFound
  | internal
  | unavailable
  | deadlineExceeded
  | resourceExhausted
  deriving DecidableEq, Repr

structure StreamStatus where
  code : Code
  message : String
  deriving DecidableEq, Repr

/-- The refusals of the other calls. -/
def StreamStatus.of : Status → StreamStatus
  | .invalidArgument message => ⟨.invalidArgument, message⟩
  | .notFound message => ⟨.notFound, message⟩

/-- How the documents of a cursor end: there are no more, the current one does not deserialize, the
cursor fails, or nothing comes in time. -/
inductive Ending where
  | exhausted
  | malformed (reason : String)
  | failed (reason : String)
  | idle
  deriving DecidableEq, Repr

inductive Advance where
  | document (doc : Document)
  | ended (ending : Ending)

structure FindStreamRequest where
  database : String
  collection : String
  filter : Option (List UInt8) := none
  options : Option FindOptionsMessage := none
  batchSize : ℕ := 0

structure AggregateStreamRequest where
  database : String
  collection : String
  pipeline : Option (List (List UInt8)) := none
  batchSize : ℕ := 0

structure DocumentBatch where
  documents : List (List UInt8)
  batchIndex : ℕ
  hasMore : Bool
  deriving DecidableEq, Repr

inductive Item where
  | batch (sent : DocumentBatch)
  | status (failure : StreamStatus)
  deriving DecidableEq, Repr

/-- What the handlers use: the quota of the tenant, the BSON library, and the operations that open a
cursor. -/
structure Service where
  checkTenantQuota : Except StreamStatus Unit
  decode : List UInt8 → Except String Document
  toVec : Document → Option (List UInt8)
  findCursor : String → String → Document → Option FindOptions → Except StreamStatus (List Advance)
  aggregateCursor : String → String → List Document → Except StreamStatus (List Advance)

def defaultStreamBatchSize : ℕ := 1000

def minStreamBatchSize : ℕ := 1

def maxStreamBatchSize : ℕ := 10000

def streamBatchSize (requested : ℕ) : ℕ :=
  if requested = 0 then defaultStreamBatchSize
  else min maxStreamBatchSize (max minStreamBatchSize requested)

/-- The data sent for a document: nothing, if it does not serialize. -/
def documentData (service : Service) (doc : Document) : List UInt8 := (service.toVec doc).getD []

/-- The last item of a stream, with the batch that is not full. -/
def lastItem (batchIndex : ℕ) (batch : List (List UInt8)) : Ending → Item
  | .exhausted => .batch { documents := batch, batchIndex := batchIndex, hasMore := false }
  | .malformed reason => .status ⟨.internal, s!"Cursor error: {reason}"⟩
  | .failed reason => .status ⟨.internal, s!"Cursor error: {reason}"⟩
  | .idle => .status ⟨.deadlineExceeded, "Stream idle timeout"⟩

/-- The loop over a cursor.  The index of a batch is an unsigned number of 32 bits. -/
def streamBatches (service : Service) (batchSize : ℕ) :
    ℕ → List (List UInt8) → List Advance → List Item
  | _, _, [] => []
  | batchIndex, batch, .ended ending :: _ => [lastItem batchIndex batch ending]
  | batchIndex, batch, .document doc :: cursor =>
      let batch := batch ++ [documentData service doc]
      if batchSize ≤ batch.length then
        .batch { documents := batch, batchIndex := batchIndex, hasMore := true } ::
          streamBatches service batchSize ((batchIndex + 1) % 2 ^ 32) [] cursor
      else streamBatches service batchSize batchIndex batch cursor

def openFind (service : Service) (request : FindStreamRequest) :
    Except StreamStatus (List Advance) := do
  service.checkTenantQuota
  let filter ← (protoFilterToBson service.decode request.filter).mapError StreamStatus.of
  let options ← (convertFindOptions service.decode request.options).mapError StreamStatus.of
  service.findCursor request.database request.collection filter options

def openAggregate (service : Service) (request : AggregateStreamRequest) :
    Except StreamStatus (List Advance) := do
  service.checkTenantQuota
  let stages ← ((request.pipeline.getD []).mapM (decodeBson service.decode)).mapError
    StreamStatus.of
  service.aggregateCursor request.database request.collection stages

def findStream (service : Service) (request : FindStreamRequest) :
    Except StreamStatus (List Item) := do
  let cursor ← openFind service request
  pure (streamBatches service (streamBatchSize request.batchSize) 0 [] cursor)

def aggregateStream (service : Service) (request : AggregateStreamRequest) :
    Except StreamStatus (List Item) := do
  let cursor ← openAggregate service request
  pure (streamBatches service (streamBatchSize request.batchSize) 0 [] cursor)

/-! ## The batches of a cursor -/

def fullBatches (first : ℕ) (full : List (List (List UInt8))) : List DocumentBatch :=
  (full.zipIdx first).map fun (documents, index) ↦
    { documents := documents, batchIndex := index % 2 ^ 32, hasMore := true }

/-- The loop sends the flushes of a buffer, and then its last item. -/
theorem streamBatches_eq (service : Service) {batchSize : ℕ} (first : ℕ)
    (batch : List (List UInt8)) (docs : List Document) (ending : Ending) :
    streamBatches service batchSize (first % 2 ^ 32) batch
        (docs.map .document ++ [.ended ending]) =
      let sent := flushes batchSize batch (docs.map (documentData service))
      (fullBatches first sent.1).map .batch ++
        [lastItem ((first + sent.1.length) % 2 ^ 32) sent.2 ending] := by
  induction docs generalizing first batch with
  | nil => rfl
  | cons doc docs ih =>
    rw [List.map_cons, List.map_cons, List.cons_append, streamBatches, flushes]
    split_ifs with hfull
    · rw [Nat.mod_add_mod, ih]
      simp only [fullBatches, List.zipIdx_cons, List.map_cons, List.cons_append, List.length_cons]
      rw [Nat.add_assoc, Nat.add_comm 1]
    · exact ih first _

theorem flatMap_documents_fullBatches (first : ℕ) (full : List (List (List UInt8))) :
    (fullBatches first full).flatMap (·.documents) = full.flatten := by
  rw [fullBatches, List.flatMap_map, List.flatMap_def]
  congr 1
  exact List.zipIdx_map_fst first full

theorem map_batchIndex_fullBatches (full : List (List (List UInt8))) :
    (fullBatches 0 full).map (·.batchIndex) = (List.range full.length).map (· % 2 ^ 32) := by
  rw [fullBatches, List.map_map, List.range_eq_range', ← List.zipIdx_map_snd 0 full, List.map_map]
  rfl

/-- A full batch has as many documents as a batch holds, and announces more. -/
theorem of_mem_fullBatches {first : ℕ} {full : List (List (List UInt8))} {b : DocumentBatch}
    (h : b ∈ fullBatches first full) : b.documents ∈ full ∧ b.hasMore = true := by
  obtain ⟨⟨documents, index⟩, hmem, rfl⟩ := List.mem_map.mp h
  exact ⟨List.fst_mem_of_mem_zipIdx hmem, rfl⟩

/-! ## What is promised of a stream -/

inductive StreamRequest where
  | find (request : FindStreamRequest)
  | aggregate (request : AggregateStreamRequest)

def StreamRequest.batchSize : StreamRequest → ℕ
  | .find request => streamBatchSize request.batchSize
  | .aggregate request => streamBatchSize request.batchSize

def openCursor (service : Service) : StreamRequest → Except StreamStatus (List Advance)
  | .find request => openFind service request
  | .aggregate request => openAggregate service request

def serveStream (service : Service) : StreamRequest → Except StreamStatus (List Item)
  | .find request => findStream service request
  | .aggregate request => aggregateStream service request

/-- Batches make up the documents of a cursor. -/
structure Reassembles (service : Service) (size : ℕ) (docs : List Document)
    (batches : List DocumentBatch) : Prop where
  documents : (batches.flatMap (·.documents)).map some = docs.map service.toVec
  index : batches.map (·.batchIndex) = List.range batches.length
  size_le : ∀ b ∈ batches, b.documents.length ≤ size
  size_pos : ∀ front b back, batches = front ++ b :: back → back ≠ [] → 1 ≤ b.documents.length
  last : batches ≠ [] ∧
    ∀ front b back, batches = front ++ b :: back → (b.hasMore = false ↔ back = [])
  hasMore : ∀ front b back, batches = front ++ b :: back → b.hasMore = true →
    ∃ later ∈ back, later.documents ≠ []

/-- What is promised of the stream of a cursor with some documents: if it is exhausted they are
reassembled, and otherwise they have been delivered before the error. -/
def AsPromised (service : Service) (size : ℕ) (docs : List Document) :
    Ending → List Item → Prop
  | .exhausted, items =>
      ∃ batches : List DocumentBatch,
        items = batches.map .batch ∧ Reassembles service size docs batches
  | _, items =>
      ∃ (batches : List DocumentBatch) (failure : StreamStatus),
        items = batches.map .batch ++ [.status failure] ∧
          (batches.flatMap (·.documents)).map some = docs.map service.toVec

def AllSerialize (service : Service) (docs : List Document) : Prop :=
  ∀ doc ∈ docs, (service.toVec doc).isSome

/-- When a promise about a stream is kept. -/
def Fits (service : Service) (size : ℕ) (docs : List Document) : Ending → Prop
  | .exhausted =>
      (docs = [] ∨ ¬ size ∣ docs.length) ∧ docs.length / size < 2 ^ 32 ∧ AllSerialize service docs
  | _ => size ∣ docs.length ∧ AllSerialize service docs

theorem streamBatchSize_pos (requested : ℕ) : 0 < streamBatchSize requested := by
  unfold streamBatchSize defaultStreamBatchSize maxStreamBatchSize minStreamBatchSize
  split_ifs <;> omega

theorem StreamRequest.batchSize_pos (request : StreamRequest) : 0 < request.batchSize := by
  cases request <;> exact streamBatchSize_pos _

/-- Both handlers run the same loop over their cursor. -/
theorem serveStream_of_openCursor {service : Service} {request : StreamRequest}
    {cursor : List Advance} (hopen : openCursor service request = .ok cursor) :
    serveStream service request = .ok (streamBatches service request.batchSize 0 [] cursor) := by
  cases request with
  | find request =>
    have hopen : openFind service request = .ok cursor := hopen
    rw [serveStream, findStream, hopen]
    rfl
  | aggregate request =>
    have hopen : openAggregate service request = .ok cursor := hopen
    rw [serveStream, aggregateStream, hopen]
    rfl

/-- The data of the documents is what they serialize to exactly if all of them serialize. -/
theorem map_documentData_eq_iff (service : Service) (docs : List Document) :
    (docs.map (documentData service)).map some = docs.map service.toVec ↔
      AllSerialize service docs := by
  rw [List.map_map, List.map_inj_left]
  refine forall₂_congr fun doc _ ↦ ?_
  cases hdata : service.toVec doc <;> simp [documentData, hdata]

/-- A list that ends in an item is divided at that item or before it. -/
theorem concat_eq_append_cons {α : Type} {front middle back : List α} {last x : α} :
    middle ++ [last] = front ++ x :: back →
      (back = [] ∧ x = last) ∨ (x ∈ middle ∧ ∃ rest, back = rest ++ [last]) := by
  intro h
  rcases List.eq_nil_or_concat back with rfl | ⟨rest, y, rfl⟩
  · left
    obtain ⟨-, hlast⟩ := List.append_inj' h rfl
    exact ⟨rfl, (List.cons.inj hlast).1.symm⟩
  · right
    rw [List.concat_eq_append, ← List.cons_append, ← List.append_assoc] at h
    obtain ⟨hmiddle, hlast⟩ := List.append_inj' h rfl
    refine ⟨by rw [hmiddle]; simp, rest, ?_⟩
    rw [List.concat_eq_append, hlast]

/-- The batches of an exhausted cursor: all are full but the last one. -/
def cursorBatches (service : Service) (size : ℕ) (docs : List Document) : List DocumentBatch :=
  let sent := flushes size [] (docs.map (documentData service))
  fullBatches 0 sent.1 ++
    [{ documents := sent.2, batchIndex := sent.1.length % 2 ^ 32, hasMore := false }]

theorem flatMap_documents_cursorBatches (service : Service) (size : ℕ) (docs : List Document) :
    (cursorBatches service size docs).flatMap (·.documents) =
      docs.map (documentData service) := by
  calc
    _ = (flushes size [] (docs.map (documentData service))).1.flatten ++
        (flushes size [] (docs.map (documentData service))).2 := by
      rw [cursorBatches, List.flatMap_append, flatMap_documents_fullBatches]
      simp
    _ = docs.map (documentData service) := flatten_flushes size [] _

/-- Numbers below a bound are their own remainders. -/
theorem map_mod_range_eq_iff {n m : ℕ} :
    (List.range (n + 1)).map (· % m) = List.range (n + 1) ↔ n < m ∨ m = 0 := by
  have hsame : (List.range (n + 1)).map (· % m) = (List.range (n + 1)).map id ↔
      ∀ k ∈ List.range (n + 1), k % m = k := List.map_inj_left
  rw [List.map_id] at hsame
  rw [hsame]
  constructor
  · intro h
    have hn := h n (List.mem_range.mpr (Nat.lt_succ_self n))
    rcases Nat.eq_zero_or_pos m with hm | hm
    · exact .inr hm
    · left
      rw [← hn]
      exact Nat.mod_lt n hm
  · rintro (hlt | rfl) k hk
    · exact Nat.mod_eq_of_lt (Nat.lt_of_le_of_lt (Nat.le_of_lt_succ (List.mem_range.mp hk)) hlt)
    · exact Nat.mod_zero k

theorem map_batchIndex_cursorBatches_iff (service : Service) {size : ℕ} (hsize : 0 < size)
    (docs : List Document) :
    (cursorBatches service size docs).map (·.batchIndex) =
        List.range (cursorBatches service size docs).length ↔
      docs.length / size < 2 ^ 32 := by
  have hcount := length_flushes hsize (docs.map (documentData service))
  rw [List.length_map] at hcount
  have hindex : (cursorBatches service size docs).map (·.batchIndex) =
      (List.range (docs.length / size + 1)).map (· % 2 ^ 32) := by
    rw [cursorBatches, List.map_append, map_batchIndex_fullBatches, hcount, List.range_succ,
      List.map_append]
    rfl
  have hlength : (cursorBatches service size docs).length = docs.length / size + 1 := by
    rw [cursorBatches, List.length_append, fullBatches, List.length_map, List.length_zipIdx, hcount]
    rfl
  rw [hindex, hlength, map_mod_range_eq_iff]
  exact or_iff_left (by decide)

/-- After every full batch comes another document exactly if there is no full batch or something is
left for the last one. -/
theorem hasMore_iff {full : List (List (List UInt8))} {rest : List (List UInt8)} {number : ℕ} :
    (∀ front b back, fullBatches 0 full ++
        [{ documents := rest, batchIndex := number, hasMore := false }] = front ++ b :: back →
      b.hasMore = true → ∃ later ∈ back, later.documents ≠ []) ↔ full = [] ∨ rest ≠ [] := by
  constructor
  · intro h
    rcases List.eq_nil_or_concat full with hfull | ⟨init, flush, hfull⟩
    · exact .inl hfull
    · right
      have hlast : ∃ front b, fullBatches 0 full = front ++ [b] := by
        rw [hfull, fullBatches, List.concat_eq_append, List.zipIdx_append, List.map_append]
        exact ⟨_, _, rfl⟩
      obtain ⟨front, b, hbatches⟩ := hlast
      have hmore : b.hasMore = true :=
        (of_mem_fullBatches (hbatches ▸ List.mem_append_right front List.mem_cons_self)).2
      obtain ⟨later, hlater, hne⟩ := h front b _ (by rw [hbatches, List.append_assoc]; rfl) hmore
      rwa [List.mem_singleton.mp hlater] at hne
  · rintro h front b back hbatches hmore
    rcases concat_eq_append_cons hbatches with ⟨-, rfl⟩ | ⟨hmem, later, rfl⟩
    · exact absurd hmore (by simp)
    · refine ⟨_, List.mem_append_right later List.mem_cons_self, ?_⟩
      rcases h with rfl | hrest
      · exact absurd hmem List.not_mem_nil
      · exact hrest

/-- The batches of an exhausted cursor reassemble its documents exactly if there are none or the last
batch is not empty, the batches can be numbered, and the documents serialize. -/
theorem reassembles_cursorBatches_iff (service : Service) {size : ℕ} (hsize : 0 < size)
    (docs : List Document) :
    Reassembles service size docs (cursorBatches service size docs) ↔
      Fits service size docs .exhausted := by
  have hempty : ([] : List (List UInt8)).length < size := hsize
  have hdocuments : ((cursorBatches service size docs).flatMap (·.documents)).map some =
      docs.map service.toVec ↔ AllSerialize service docs := by
    rw [flatMap_documents_cursorBatches, map_documentData_eq_iff]
  have hmore : (∀ front b back, cursorBatches service size docs = front ++ b :: back →
      b.hasMore = true → ∃ later ∈ back, later.documents ≠ []) ↔
      docs = [] ∨ ¬ size ∣ docs.length := by
    have hnil := rest_eq_nil_iff hsize (docs.map (documentData service))
    rw [List.length_map] at hnil
    refine hasMore_iff.trans ?_
    rw [← hnil]
    constructor
    · rintro (hfull | hrest)
      · by_cases hrest : (flushes size [] (docs.map (documentData service))).2 = []
        · have hflatten := flatten_flushes size [] (docs.map (documentData service))
          rw [hfull, hrest] at hflatten
          exact .inl (List.map_eq_nil_iff.mp hflatten.symm)
        · exact .inr hrest
      · exact .inr hrest
    · rintro (rfl | hrest)
      · exact .inl rfl
      · exact .inr hrest
  constructor
  · intro h
    exact ⟨hmore.mp h.hasMore, (map_batchIndex_cursorBatches_iff service hsize docs).mp h.index,
      hdocuments.mp h.documents⟩
  · rintro ⟨hlast, hnumbered, hserialize⟩
    have hfull (b : DocumentBatch) (hb : b ∈ fullBatches 0
        (flushes size [] (docs.map (documentData service))).1) :
        b.documents.length = size ∧ b.hasMore = true :=
      ⟨length_of_mem_flushes hempty (of_mem_fullBatches hb).1, (of_mem_fullBatches hb).2⟩
    refine ⟨hdocuments.mpr hserialize, (map_batchIndex_cursorBatches_iff service hsize docs).mpr
      hnumbered, ?_, ?_, ⟨by simp [cursorBatches], ?_⟩, hmore.mpr hlast⟩
    · intro b hb
      rcases List.mem_append.mp hb with hb | hb
      · exact Nat.le_of_eq (hfull b hb).1
      · rw [List.mem_singleton.mp hb]
        exact Nat.le_of_lt (length_rest_lt hempty (docs.map (documentData service)))
    · intro front b back hbatches hback
      rcases concat_eq_append_cons hbatches with ⟨hnil, -⟩ | ⟨hmem, -⟩
      · exact absurd hnil hback
      · rw [(hfull b hmem).1]
        exact hsize
    · intro front b back hbatches
      rcases concat_eq_append_cons hbatches with ⟨hnil, rfl⟩ | ⟨hmem, rest, rfl⟩
      · simp [hnil]
      · simp [(hfull b hmem).2]

/-- Before an error the documents have been delivered exactly if none were left in the buffer and all
serialize. -/
theorem delivered_iff (service : Service) {size : ℕ} (hsize : 0 < size) (docs : List Document) :
    ((fullBatches 0 (flushes size [] (docs.map (documentData service))).1).flatMap
        (·.documents)).map some = docs.map service.toVec ↔
      size ∣ docs.length ∧ AllSerialize service docs := by
  have hflatten := flatten_flushes size [] (docs.map (documentData service))
  have hnil := rest_eq_nil_iff hsize (docs.map (documentData service))
  rw [List.length_map] at hnil
  rw [flatMap_documents_fullBatches, ← hnil]
  constructor
  · intro h
    have hlength := congrArg List.length h
    have htotal := congrArg List.length hflatten
    rw [List.length_map, List.length_map] at hlength
    rw [List.length_append, List.nil_append, List.length_map] at htotal
    have hrest : (flushes size [] (docs.map (documentData service))).2 = [] :=
      List.length_eq_zero_iff.mp (by omega)
    rw [hrest, List.append_nil, List.nil_append] at hflatten
    rw [hflatten] at h
    exact ⟨hrest, (map_documentData_eq_iff service docs).mp h⟩
  · rintro ⟨hrest, hserialize⟩
    rw [hrest, List.append_nil, List.nil_append] at hflatten
    rw [hflatten]
    exact (map_documentData_eq_iff service docs).mpr hserialize

/-- The batches are what stands before an error. -/
theorem batches_unique {batches batches' : List DocumentBatch} {failure failure' : StreamStatus}
    (h : batches.map Item.batch ++ [.status failure] =
      batches'.map Item.batch ++ [.status failure']) : batches = batches' := by
  obtain ⟨hbatches, -⟩ := List.append_inj' h rfl
  exact (List.map_injective_iff.mpr fun _ _ ↦ Item.batch.inj) hbatches

/-- The documents before an error are what a stream that ends in it has delivered. -/
theorem delivered_before_iff (service : Service) {size : ℕ} (hsize : 0 < size)
    (docs : List Document) (failure : StreamStatus) :
    (∃ (batches : List DocumentBatch) (failure' : StreamStatus),
      (fullBatches 0 (flushes size [] (docs.map (documentData service))).1).map Item.batch ++
          [.status failure] = batches.map .batch ++ [.status failure'] ∧
        (batches.flatMap (·.documents)).map some = docs.map service.toVec) ↔
      size ∣ docs.length ∧ AllSerialize service docs := by
  rw [← delivered_iff service hsize docs]
  constructor
  · rintro ⟨batches, failure', hitems, hdelivered⟩
    rw [batches_unique hitems]
    exact hdelivered
  · intro hdelivered
    exact ⟨_, failure, rfl, hdelivered⟩

theorem serveStream_eq {service : Service} {request : StreamRequest} {docs : List Document}
    {ending : Ending}
    (hopen : openCursor service request = .ok (docs.map .document ++ [.ended ending])) :
    serveStream service request = .ok (
      let sent := flushes request.batchSize [] (docs.map (documentData service))
      (fullBatches 0 sent.1).map .batch ++ [lastItem (sent.1.length % 2 ^ 32) sent.2 ending]) := by
  have hloop : streamBatches service request.batchSize (0 % 2 ^ 32) []
      (docs.map .document ++ [.ended ending]) = _ := streamBatches_eq service 0 [] docs ending
  rw [Nat.zero_mod] at hloop
  rw [serveStream_of_openCursor hopen, hloop]
  simp only [Nat.zero_add]

/-- The stream of a handler is as promised exactly if, where the cursor is exhausted, it has no
documents or a number of them that is no multiple of the size of the batches, and where it ends
otherwise, a multiple; the batches must have numbers of 32 bits, and the documents must serialize. -/
theorem serveStream_asPromised_iff {service : Service} {request : StreamRequest}
    {docs : List Document} {ending : Ending}
    (hopen : openCursor service request = .ok (docs.map .document ++ [.ended ending])) :
    (∃ items, serveStream service request = .ok items ∧
        AsPromised service request.batchSize docs ending items) ↔
      Fits service request.batchSize docs ending := by
  have hsize := request.batchSize_pos
  rw [serveStream_eq hopen]
  simp only [Except.ok.injEq, exists_eq_left']
  cases ending with
  | exhausted =>
    rw [← reassembles_cursorBatches_iff service hsize docs]
    constructor
    · rintro ⟨batches, hitems, hreassembles⟩
      have hsame : cursorBatches service request.batchSize docs = batches := by
        apply List.map_injective_iff.mpr fun _ _ ↦ Item.batch.inj
        rw [← hitems, cursorBatches, List.map_append]
        rfl
      rwa [hsame]
    · intro hreassembles
      refine ⟨_, ?_, hreassembles⟩
      rw [cursorBatches, List.map_append]
      rfl
  | malformed reason => exact delivered_before_iff service hsize docs _
  | failed reason => exact delivered_before_iff service hsize docs _
  | idle => exact delivered_before_iff service hsize docs _

/-- A service whose cursors have some documents, all of which serialize. -/
def cursorService (docs : List Document) (ending : Ending) : Service where
  checkTenantQuota := .ok ()
  decode _ := .ok []
  toVec doc := some (toVec doc)
  findCursor _ _ _ _ := .ok (docs.map .document ++ [.ended ending])
  aggregateCursor _ _ _ := .ok (docs.map .document ++ [.ended ending])

def pairsRequest : FindStreamRequest where
  database := "shop"
  collection := "orders"
  batchSize := 2

/-- Three documents come in a batch of two and one of one. -/
theorem three_documents_asPromised :
    ∃ items, serveStream (cursorService [[], [], []] .exhausted) (.find pairsRequest) = .ok items ∧
      AsPromised (cursorService [[], [], []] .exhausted) 2 [[], [], []] .exhausted items := by
  have hfits : Fits (cursorService [[], [], []] .exhausted) 2 [[], [], []] .exhausted :=
    ⟨.inr (by decide), by decide, fun _ _ ↦ rfl⟩
  have hopen : openCursor (cursorService [[], [], []] .exhausted) (.find pairsRequest) =
      .ok ([[], [], []].map .document ++ [.ended .exhausted]) := rfl
  exact (serveStream_asPromised_iff hopen).mpr hfits

/-- After two documents in a batch of two comes an empty batch. -/
theorem not_asPromised_of_full_batch :
    ¬ ∀ (service : Service) (request : StreamRequest) (docs : List Document),
      openCursor service request = .ok (docs.map .document ++ [.ended .exhausted]) →
        ∃ items, serveStream service request = .ok items ∧
          AsPromised service request.batchSize docs .exhausted items := by
  intro hpromised
  obtain ⟨items, hserve, batches, rfl, hreassembles⟩ :=
    hpromised (cursorService [[], []] .exhausted) (.find pairsRequest) [[], []] rfl
  have hsent : serveStream (cursorService [[], []] .exhausted) (.find pairsRequest) = .ok (
      [⟨[toVec [], toVec []], 0, true⟩, ⟨[], 1, false⟩].map .batch) := rfl
  rw [hsent] at hserve
  have hbatches : [⟨[toVec [], toVec []], 0, true⟩, ⟨[], 1, false⟩] = batches :=
    (List.map_injective_iff.mpr fun _ _ ↦ Item.batch.inj) (Except.ok.inj hserve)
  obtain ⟨later, hlater, hne⟩ := hreassembles.hasMore [] _ _ hbatches.symm rfl
  rw [List.mem_singleton.mp hlater] at hne
  exact hne rfl

end MongoCore.Grpc.Streams
