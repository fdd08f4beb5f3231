import MongoCore.Transport.Dispatch
import MongoCore.Transport.Readable

/-!
# The frame limit

The handshake announces a limit on the length of frames.  The server checks it for the frames that
it reads.  The documents of a cursor are put together without a limit, so a reply can be longer,
and its length is narrowed to 32 bits in the header and in the envelope.

The limit holds for replies to results that fit it.
-/

namespace MongoCore.Transport

open MongoCore.Data MongoCore.Library.TransitionSystem

/-- The events of a server with a database; what the database returns may depend on the whole
state. -/
def ServesDatabase (library : BsonLibrary) (execute : State → Execute)
    (maxFrameSize maxConcurrent : UInt32) (s : State) : Event → Prop
  | .greet greeting _ => ∀ frame, s.phase = .greeting frame →
      greeting = greetingOf library.fromSlice maxFrameSize maxConcurrent frame
  | .process outcome _ _ => ∀ frame, s.phase = .processing frame →
      outcome = outcomeOf library.fromSlice frame (responseTo library frame (execute s))
  | _ => True

instance (library : BsonLibrary) (execute : State → Execute) (maxFrameSize maxConcurrent : UInt32)
    (s : State) (event : Event) :
    Decidable (ServesDatabase library execute maxFrameSize maxConcurrent s event) := by
  induction event using Event.casesOn <;> unfold ServesDatabase <;> infer_instance

/-! ## Results that fit -/

/-- A response fits a frame within the limit, and its raw bytes can be counted with a signed 32-bit
integer. -/
def SizeFits (maxFrameSize : ℕ) (response : OperationResponse) : Prop :=
  6 + (response.envelopeSize + response.rawDocs.length) ≤ maxFrameSize ∧
    response.rawDocs.length < 2 ^ 31

instance (maxFrameSize : ℕ) : DecidablePred (SizeFits maxFrameSize) :=
  fun _ ↦ inferInstanceAs (Decidable (_ ∧ _))

def SizesFit (library : BsonLibrary) (execute : State → Execute)
    (maxFrameSize maxConcurrent : UInt32) (s : State) : Event → Prop
  | .shutdownChanged value writeOk => value = true → writeOk = true →
      6 + shutdownFrame.envelope.length ≤ maxFrameSize.toNat
  | .greet _ _ => ∀ frame, s.phase = .greeting frame → SizeFits maxFrameSize.toNat
      (greetingAnswer library.fromSlice maxFrameSize maxConcurrent frame)
  | .process _ _ _ => ∀ frame, s.phase = .processing frame → frame.header.flags.noReply = false →
      SizeFits maxFrameSize.toNat (responseTo library frame (execute s))
  | _ => True

instance (library : BsonLibrary) (execute : State → Execute) (maxFrameSize maxConcurrent : UInt32)
    (s : State) (event : Event) :
    Decidable (SizesFit library execute maxFrameSize maxConcurrent s event) := by
  induction event using Event.casesOn <;> unfold SizesFit <;> infer_instance

/-- The number of documents or ids that a call returns is a 32-bit integer. -/
def CountFits : (call : OperationCall) → call.Result → Prop
  | .findRaw .., documents | .aggregateRaw .., documents => (documents : List Bytes).length < 2 ^ 32
  | .insertMany .., ids => (ids : List Bson).length < 2 ^ 32
  | _, _ => True

/-- The number of documents or ids that a call returns is counted without wrapping around. -/
def CountExact : (call : OperationCall) → call.Result → Prop
  | .findRaw .., documents | .aggregateRaw .., documents =>
      (collectRaw documents).1.toNat = (documents : List Bytes).length
  | .insertMany .., ids => (UInt32.ofNat (ids : List Bson).length).toNat = (ids : List Bson).length
  | _, _ => True

/-- What the database returns for the frame in process can be counted. -/
def CountsFit (library : BsonLibrary) (execute : State → Execute) (s : State) : Event → Prop
  | .process _ _ _ => ∀ frame call result, s.phase = .processing frame →
      callOf library frame = some call → execute s call = .ok result → CountFits call result
  | _ => True

/-! ## The property -/

/-- A frame within the limit, none of whose lengths wraps around: the sum of the lengths of its
parts, the length in its header, the length of its raw bytes as a signed integer. -/
structure WithinLimit (maxFrameSize : ℕ) (frame : Frame) : Prop where
  msgLen_le : 6 + (frame.envelope.length + frame.rawDocs.length) ≤ maxFrameSize
  payload : frame.envelope.length + frame.rawDocs.length < 2 ^ 64
  msgLen : ofBigEndian ((writeFrame frame).take 4) =
    6 + (frame.envelope.length + frame.rawDocs.length)
  docBytesLen : asI32 frame.rawDocs.length = .int32 frame.rawDocs.length

/-- A reply of the server: the notice, the answer to the first frame, or the response to a request
that was made of the result of the database with exact counts. -/
inductive Reply (library : BsonLibrary) (execute : State → Execute)
    (maxFrameSize maxConcurrent : UInt32) : Frame → Prop
  | notice : Reply library execute maxFrameSize maxConcurrent shutdownFrame
  | greeting (first : Frame) (opcode : Opcode) (reqId : ℕ) :
      Reply library execute maxFrameSize maxConcurrent (serverFrame opcode reqId
        (encodeResponse (greetingAnswer library.fromSlice maxFrameSize maxConcurrent first)))
  | response (s : State) (request : Frame) (opcode : Opcode) (reqId : ℕ)
      (hcounts : ∀ call result, callOf library request = some call →
        execute s call = .ok result → CountExact call result) :
      Reply library execute maxFrameSize maxConcurrent (serverFrame opcode reqId
        (encodeResponse (responseTo library request (execute s))))

/-! ## Counting -/

/-- The documents of a cursor are concatenated, and counted modulo `2 ^ 32`. -/
theorem foldl_collectRaw (count : UInt32) (rawBytes : Bytes) (documents : List Bytes) :
    documents.foldl (fun (count, rawBytes) document ↦ (count + 1, rawBytes ++ document))
        (count, rawBytes) =
      (count + UInt32.ofNat documents.length, rawBytes ++ documents.flatten) := by
  induction documents generalizing count rawBytes with
  | nil => simp
  | cons document documents ih =>
    rw [List.foldl_cons, ih, List.length_cons, List.flatten_cons, List.append_assoc]
    apply Prod.ext
    · apply UInt32.toNat_inj.mp
      simp [UInt32.toNat_add]
      omega
    · rfl

theorem collectRaw_eq (documents : List Bytes) :
    collectRaw documents = (UInt32.ofNat documents.length, documents.flatten) := by
  have hall := foldl_collectRaw 0 [] documents
  simpa [collectRaw] using hall

/-- Counts that fit are exact. -/
theorem countExact_of_countFits {call : OperationCall} {result : call.Result}
    (h : CountFits call result) : CountExact call result := by
  have hexact : ∀ count : ℕ, count < 2 ^ 32 → (UInt32.ofNat count).toNat = count :=
    fun count hcount ↦ UInt32.toNat_ofNat_of_lt' hcount
  have hcollect : ∀ documents : List Bytes, documents.length < 2 ^ 32 →
      (collectRaw documents).1.toNat = documents.length := by
    intro documents hcount
    rw [collectRaw_eq]
    exact hexact _ hcount
  cases call with
  | findRaw | aggregateRaw => exact hcollect _ h
  | insertMany => exact hexact _ h
  | _ => exact trivial

/-! ## Frames within the limit -/

theorem withinLimit_of_length {maxFrameSize : UInt32} {frame : Frame}
    (hlength : 6 + (frame.envelope.length + frame.rawDocs.length) ≤ maxFrameSize.toNat)
    (hraw : frame.rawDocs.length < 2 ^ 31) : WithinLimit maxFrameSize.toNat frame := by
  have hlimit := maxFrameSize.toNat_lt
  have hmod : frame.rawDocs.length % 2 ^ 32 = frame.rawDocs.length :=
    Nat.mod_eq_of_lt (by omega)
  refine ⟨hlength, by omega, ?_, ?_⟩
  · have htake : (writeFrame frame).take 4 =
        toBigEndian 4 ((6 + (frame.envelope.length + frame.rawDocs.length)) % 2 ^ 32) := by
      simp [writeFrame, FrameHeader.encode]
    rw [htake, Nat.mod_eq_of_lt (hlength.trans_lt hlimit)]
    exact ofBigEndian_toBigEndian (hlength.trans_lt hlimit)
  · rw [asI32, hmod, toSigned, if_pos hraw]

/-- The response to a frame is its own answer, whatever refused envelopes are answered with. -/
theorem answerTo_responseTo (library : BsonLibrary) (frame : Frame) (execute : Execute) :
    answerTo library.fromSlice frame (responseTo library frame execute) =
      responseTo library frame execute := by
  unfold answerTo responseTo
  cases parseEnvelope library.fromSlice frame.envelope frame.header.flags.opcode with
  | error error => rfl
  | ok request => rfl

/-- If all results fit, every frame that the server writes is within the limit it announces, and no
length or count in its making wraps around. -/
theorem withinLimit_of_run {library : BsonLibrary} {execute : State → Execute}
    {maxFrameSize maxConcurrent : UInt32} {events : List Event} {t : State}
    (hmeet : StepsMeet (step maxFrameSize.toNat) (fun s event ↦
        ServesDatabase library execute maxFrameSize maxConcurrent s event ∧
          SizesFit library execute maxFrameSize maxConcurrent s event ∧
          CountsFit library execute s event) State.init events)
    (hrun : run (step maxFrameSize.toNat) State.init events = some t) :
    ∀ frame ∈ t.written, WithinLimit maxFrameSize.toNat frame ∧
      Reply library execute maxFrameSize maxConcurrent frame := by
  let good : OperationResponse → Prop := fun response ↦
    SizeFits maxFrameSize.toNat response ∧ ∀ opcode reqId,
      Reply library execute maxFrameSize maxConcurrent
        (serverFrame opcode reqId (encodeResponse response))
  have hanswers : StepsMeet (step maxFrameSize.toNat)
      (Answers good (6 + shutdownFrame.envelope.length ≤ maxFrameSize.toNat) library.fromSlice
        maxFrameSize maxConcurrent) State.init events := by
    refine hmeet.imp fun s event ⟨hserves, hsizes, hcounts⟩ ↦ ?_
    cases event with
    | shutdownChanged value writeOk => exact hsizes
    | greet greeting writeOk =>
      intro first hphase
      exact ⟨hserves first hphase, hsizes first hphase, fun opcode reqId ↦
        Reply.greeting first opcode reqId⟩
    | process outcome failAt flushOk =>
      intro frame hphase
      refine ⟨_, hserves frame hphase, fun hreply ↦ ?_⟩
      rw [answerTo_responseTo]
      refine ⟨hsizes frame hphase hreply, fun opcode reqId ↦ Reply.response s frame opcode reqId ?_⟩
      intro call result hcall hresult
      exact countExact_of_countFits (hcounts frame call result hphase hcall hresult)
    | _ => exact trivial
  intro frame hframe
  rcases serverFrame_of_run hanswers hrun frame hframe with
    ⟨rfl, hnotice⟩ | ⟨opcode, reqId, response, -, ⟨hsize, hreply⟩, rfl⟩
  · exact ⟨withinLimit_of_length hnotice (Nat.two_pow_pos 31), Reply.notice⟩
  · have hlength := length_envelope response
    refine ⟨withinLimit_of_length ?_ hsize.2, hreply opcode reqId⟩
    calc 6 + ((encodeResponse response).1.length + response.rawDocs.length)
        = 6 + (response.envelopeSize + response.rawDocs.length) := by rw [hlength]
      _ ≤ maxFrameSize.toNat := hsize.1

/-! ## A find that returns too much -/

/-- A library that reads and writes what the format prescribes. -/
def formatLibrary : BsonLibrary where
  fromSlice := decodeSlice
  toVec document := .ok (toVec document)
  display
    | .int32 value | .int64 value => toString value
    | _ => "?"

/-- A database without collections, where a find returns ten documents of 14 bytes. -/
def tenDocuments : Execute
  | .listCollectionNames _ => .ok []
  | .findRaw .. => .ok (List.replicate 10 (toVec [("_id", .int32 7)]))
  | _ => .error "unavailable"

theorem countsFit_tenDocuments (s : State) (event : Event) :
    CountsFit formatLibrary (fun _ ↦ tenDocuments) s event := by
  cases event with
  | process outcome failAt flushOk =>
    intro frame call result _ _ hresult
    cases call with
    | findRaw =>
      obtain rfl := Except.ok.inj hresult
      have hlength : (List.replicate 10 (toVec [("_id", .int32 7)])).length < 2 ^ 32 := by
        rw [List.length_replicate]
        omega
      exact hlength
    | listCollectionNames => exact trivial
    | _ => exact absurd hresult (by simp [tenDocuments])
  | _ => exact trivial

/-- A find without conditions. -/
def findFrame : Frame :=
  Segmentation.clientFrame .find 2
    (toVec [("db", .string "d"), ("coll", .string "c"), ("filter", .document [])])

/-- The find arrives after a handshake that announces a limit, and is answered with the ten
documents. -/
def answeredFind (maxFrameSize : UInt32) : List Event :=
  greetEvents maxFrameSize 16 ++
    requestEvents findFrame (responseTo formatLibrary findFrame tenDocuments)

theorem run_answeredFind :
    (run (step (1024 : UInt32).toNat) State.init (answeredFind 1024)).isSome = true ∧
      StepsMeet (step (1024 : UInt32).toNat) (fun s event ↦
        ServesDatabase formatLibrary (fun _ ↦ tenDocuments) 1024 16 s event ∧
          SizesFit formatLibrary (fun _ ↦ tenDocuments) 1024 16 s event) State.init
        (answeredFind 1024) := by
  decide +kernel

/-- The ten documents are within a limit of 1024 bytes. -/
theorem withinLimit_answeredFind :
    ∃ t, run (step (1024 : UInt32).toNat) State.init (answeredFind 1024) = some t ∧
      ∀ frame ∈ t.written, WithinLimit (1024 : UInt32).toNat frame ∧
        Reply formatLibrary (fun _ ↦ tenDocuments) 1024 16 frame := by
  obtain ⟨t, hrun⟩ := Option.isSome_iff_exists.mp run_answeredFind.1
  refine ⟨t, hrun, withinLimit_of_run ?_ hrun⟩
  have hcounts : StepsMeet (step (1024 : UInt32).toNat)
      (CountsFit formatLibrary fun _ ↦ tenDocuments) State.init (answeredFind 1024) :=
    StepsMeet.of_forall fun s event _ ↦ countsFit_tenDocuments s event
  exact (run_answeredFind.2.and hcounts).imp fun _ _ h ↦ ⟨h.1.1, h.1.2, h.2⟩

theorem run_longReply :
    (run (step (128 : UInt32).toNat) State.init (answeredFind 128)).map
        (fun t ↦ t.written.map fun frame ↦ 6 + (frame.envelope.length + frame.rawDocs.length)) =
          some [70, 181] ∧
      StepsMeet (step (128 : UInt32).toNat)
        (ServesDatabase formatLibrary (fun _ ↦ tenDocuments) 128 16) State.init (answeredFind 128) := by
  decide +kernel

/-- The reply is longer than the limit that the handshake announced. -/
theorem longReply_exceeds :
    ∃ t, run (step (128 : UInt32).toNat) State.init (answeredFind 128) = some t ∧
      StepsMeet (step (128 : UInt32).toNat)
        (ServesDatabase formatLibrary (fun _ ↦ tenDocuments) 128 16) State.init (answeredFind 128) ∧
      ¬ ∀ frame ∈ t.written, WithinLimit (128 : UInt32).toNat frame := by
  obtain ⟨t, hrun, hlengths⟩ := Option.map_eq_some_iff.mp run_longReply.1
  refine ⟨t, hrun, run_longReply.2, fun hwithin ↦ ?_⟩
  have hlong : 181 ∈ t.written.map fun frame ↦
      6 + (frame.envelope.length + frame.rawDocs.length) := by
    rw [hlengths]
    simp
  obtain ⟨frame, hframe, hlength⟩ := List.mem_map.mp hlong
  have hle := (hwithin frame hframe).msgLen_le
  rw [hlength] at hle
  exact absurd hle (by decide)

end MongoCore.Transport
