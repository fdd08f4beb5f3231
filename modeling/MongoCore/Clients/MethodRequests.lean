import MongoCore.Clients.Decoding
import MongoCore.Clients.OwnReply
import MongoCore.Clients.PythonValues
import MongoCore.Library.EntryMap
import MongoCore.Transport.BsonDocs
import MongoCore.Transport.RoundTrip

/-!
# The requests of the methods

Every method of a client library puts its arguments into an envelope, and documents to be inserted
behind it.  The libraries write different envelopes: Go writes the members in any order, Go and
Python announce how many documents follow, TypeScript announces for some methods that none do, and
leaves out what it was not given.

The server makes the same operation of all of them.  Options get lost on the way: a projection, the
order of an insertion, and a limit of 32 bits reach no operation.
-/

namespace MongoCore.Clients

open MongoCore.Data MongoCore.Transport MongoCore.Library

/-! ## Calls -/

/-- A call of a method, with its arguments as BSON. -/
inductive MethodCall where
  | find (filter : Option Document) (limit : Int64)
  | findOne (filter : Document) (projection : Option Document)
  | insertOne (document : Document)
  | insertMany (documents : List Document) (ordered : Option Bool)
  | updateOne (filter update : Document)
  | updateMany (filter update : Document)
  | deleteOne (filter : Document)
  | deleteMany (filter : Document)
  | countDocuments (filter : Option Document)
  | runCommand (command : Document)

namespace MethodCall

def method : MethodCall → Method
  | find _ _ => .find
  | findOne _ _ => .findOne
  | insertOne _ => .insertOne
  | insertMany _ _ => .insertMany
  | updateOne _ _ => .updateOne
  | updateMany _ _ => .updateMany
  | deleteOne _ => .deleteOne
  | deleteMany _ => .deleteMany
  | countDocuments _ => .countDocuments
  | runCommand _ => .runCommand

/-- The documents that are sent behind the envelope. -/
def inserted : MethodCall → List Document
  | insertOne document => [document]
  | insertMany documents _ => documents
  | _ => []

def rawDocs (call : MethodCall) : Bytes := call.inserted.flatMap toVec

end MethodCall

/-- A library has the method of a call, with these arguments. -/
def Language.Offers (language : Language) : MethodCall → Prop
  | .find _ _ => language = .python
  | .findOne _ projection =>
      projection = none ∨ language = .python ∨ language = .typescript
  | .insertMany _ ordered => ordered ≠ none ∨ language = .typescript
  | .countDocuments filter => filter ≠ none ∨ language ≠ .java
  | _ => True

/-! ## Envelopes -/

/-- The projection that a library sends; Python takes an empty one for none. -/
def Language.projection (language : Language) (projection : Option Document) : Document :=
  let sent := if language = .python then projection.filter (· ≠ []) else projection
  (sent.map fun projection ↦ ("projection", .document projection)).toList

/-- The member by which TypeScript says that no documents follow. -/
def Language.noDocs (language : Language) : Document :=
  if language = .typescript then [("doc_bytes_len", .int32 0)] else []

/-- The members of the envelope of a call, whatever their order. -/
def Language.envelope (language : Language) (db collection : String) (call : MethodCall) :
    Document :=
  let names : Document := [("db", .string db), ("coll", .string collection)]
  let filtered (filter : Document) : Document := names ++ [("filter", .document filter)]
  match call with
  | .find filter limit =>
      filtered (filter.getD []) ++ if limit = 0 then [] else [("limit", encodeInt limit)]
  | .findOne filter projection => filtered filter ++ language.projection projection
  | .insertOne _ => names
  | .insertMany documents ordered =>
      names ++ (ordered.map fun ordered ↦ ("ordered", .boolean ordered)).toList ++
        if language = .go ∨ language = .python then
          [("count", encodeInt (Int64.ofNat documents.length))]
        else []
  | .updateOne filter update | .updateMany filter update =>
      filtered filter ++ [("update", .document update)] ++ language.noDocs
  | .deleteOne filter => filtered filter
  | .deleteMany filter => filtered filter ++ language.noDocs
  | .countDocuments filter =>
      if language = .typescript then
        names ++ (filter.map fun filter ↦ ("filter", .document filter)).toList
      else filtered (filter.getD [])
  | .runCommand command =>
      [("db", .string db), ("command", .document command)] ++ language.noDocs

/-- A call of a library sends an envelope: it has the members of the call, in some order, and BSON
can hold it and the documents that follow. -/
structure Client.Sends (client : Client) (db collection : String) (call : MethodCall)
    (envelope : Document) : Prop where
  offered : client.language.Offers call
  members : envelope.Perm (client.language.envelope db collection call)
  fits : DocumentFits envelope
  inserted : ∀ document ∈ call.inserted, DocumentFits document

/-! ## Operations -/

/-- The options of a find.  A limit that fits 32 bits is written in as many, and not read. -/
def limitOptions (limit : Int64) : Option FindOptions :=
  if -2 ^ 31 ≤ limit.toInt ∧ limit.toInt < 2 ^ 31 then none else some { limit := some limit.toInt }

/-- The operation of a call, and the response made of its result. -/
def MethodCall.dispatched (library : BsonLibrary) (db collection : String) :
    MethodCall → Dispatched
  | .find filter limit =>
      ⟨.findRaw db collection (filter.getD []) (limitOptions limit), batchResponse⟩
  | .findOne filter _ => ⟨.findOne db collection filter, singleDocResponse library⟩
  | .insertOne document =>
      ⟨.insert db collection document, fun id : Bson ↦ .insertOneResult (library.display id)⟩
  | .insertMany documents _ =>
      ⟨.insertMany db collection documents, fun ids : List Bson ↦
        .insertManyResult (UInt32.ofNat ids.length)⟩
  | .updateOne filter update =>
      ⟨.update db collection filter update, fun counts : UInt64 × UInt64 ↦
        .updateResult counts.1 counts.2⟩
  | .updateMany filter update =>
      ⟨.updateMany db collection filter update, fun counts : UInt64 × UInt64 ↦
        .updateResult counts.1 counts.2⟩
  | .deleteOne filter => ⟨.delete db collection filter, .deleteResult⟩
  | .deleteMany filter => ⟨.deleteMany db collection filter, .deleteResult⟩
  | .countDocuments filter => ⟨.countDocuments db collection (filter.getD []), .countResult⟩
  | .runCommand command =>
      ⟨.runCommand db command, commandResponse library "command result"⟩

/-! ## The server reads the requests -/

section Reads

variable {client : Client} {library : BsonLibrary} {db collection : String} {call : MethodCall}
  {envelope : Document}

/-- Parsing looks at the members of an envelope by their keys only. -/
theorem parseDocument_congr {document other : Document}
    (h : ∀ key, document.lookup key = other.lookup key) (opcode : Opcode) :
    parseDocument document opcode = parseDocument other opcode := by
  have hstr : getStr? document = getStr? other := by
    funext key
    rw [getStr?, getStr?, h]
  have hdocument : getDocument? document = getDocument? other := by
    funext key
    rw [getDocument?, getDocument?, h]
  have harray : getArray? document = getArray? other := by
    funext key
    rw [getArray?, getArray?, h]
  have hi32 : getI32? document = getI32? other := by
    funext key
    rw [getI32?, getI32?, h]
  have hi64 : getI64? document = getI64? other := by
    funext key
    rw [getI64?, getI64?, h]
  have hbool : getBool? document = getBool? other := by
    funext key
    rw [getBool?, getBool?, h]
  have hoptions : findOptionsOf document = findOptionsOf other := by
    rw [findOptionsOf, findOptionsOf, hi64, hdocument]
  cases opcode <;>
    simp only [parseDocument, getRequiredStr, getRequiredDoc, hoptions, batchSizeOf, docBytesLenOf,
      hstr, hdocument, harray, hi32, hbool]

/-- The keys of an envelope are distinct. -/
theorem nodup_envelope (language : Language) (db collection : String) (call : MethodCall) :
    ((language.envelope db collection call).map Prod.fst).Nodup := by
  cases call with
  | find filter limit =>
    simp only [Language.envelope]
    split_ifs <;> simp
  | findOne filter projection =>
    simp only [Language.envelope, Language.projection]
    split_ifs
    · cases projection.filter (· ≠ []) <;> simp
    · cases projection <;> simp
  | insertOne document => simp [Language.envelope]
  | insertMany documents ordered =>
    simp only [Language.envelope]
    cases ordered <;> split_ifs <;> simp
  | deleteOne filter => simp [Language.envelope]
  | countDocuments filter =>
    simp only [Language.envelope]
    split_ifs
    · cases filter <;> simp
    · simp
  | _ =>
    simp only [Language.envelope, Language.noDocs]
    split_ifs <;> simp

/-- The documents behind an envelope are read as they were written. -/
theorem parseBsonDocs_rawDocs
    (hlibrary : ∀ document, DocumentFits document →
      library.fromSlice (toVec document) = .ok document)
    (h : ∀ document ∈ call.inserted, DocumentFits document) :
    parseBsonDocs library call.rawDocs = .ok call.inserted := by
  rw [parseBsonDocs, MethodCall.rawDocs, List.flatMap_def]
  apply parseBsonDocsFrom_of_forall₂
  rw [List.forall₂_map_left_iff, List.forall₂_same]
  intro document hmem
  refine ⟨five_le_length_toVec document, ?_, hlibrary document (h document hmem)⟩
  exact (ofLittleEndian_eq _).trans (length_prefix_toVec (h document hmem).2)

theorem parseSingleBsonDoc_toVec
    (hlibrary : ∀ document, DocumentFits document →
      library.fromSlice (toVec document) = .ok document)
    {document : Document} (h : DocumentFits document) :
    parseSingleBsonDoc library (toVec document) = .ok document := by
  have hfive := five_le_length_toVec document
  rw [parseSingleBsonDoc, if_neg (Nat.not_lt.mpr hfive), hlibrary document h]

/-- A limit is an option only if it needs more than 32 bits. -/
theorem findOptionsOf_limit (db collection : String) (filter : Document) (limit : Int64) :
    findOptionsOf ([("db", .string db), ("coll", .string collection)] ++
      [("filter", .document filter)] ++ if limit = 0 then [] else [("limit", encodeInt limit)]) =
        limitOptions limit := by
  rw [limitOptions]
  by_cases hzero : limit = 0
  · subst hzero
    simp [findOptionsOf, getI64?, getDocument?, List.lookup_cons]
  · rw [if_neg hzero, encodeInt]
    split_ifs <;> simp [findOptionsOf, getI64?, getDocument?, List.lookup_cons]

/-- The envelope of a call is parsed and routed to the operation of the call. -/
theorem exists_request_of_envelope (language : Language) (db collection : String)
    (hlibrary : ∀ document, DocumentFits document →
      library.fromSlice (toVec document) = .ok document)
    (h : ∀ document ∈ call.inserted, DocumentFits document) :
    ∃ request,
      parseDocument (language.envelope db collection call) call.method.opcode = .ok request ∧
        route library call.rawDocs request = .ok (call.dispatched library db collection) := by
  cases call with
  | find filter limit =>
    refine ⟨.find db collection (filter.getD []) (limitOptions limit) none (asU32 0), ?_, rfl⟩
    have hoptions := findOptionsOf_limit db collection (filter.getD []) limit
    simp only [Language.envelope, MethodCall.method, Method.opcode, parseDocument, hoptions]
    split_ifs <;>
      simp [getRequiredStr, getRequiredDoc, getStr?, getDocument?, batchSizeOf, docBytesLenOf,
        getI32?, List.lookup_cons, bind, Except.bind, pure, Except.pure]
  | findOne filter projection =>
    exact ⟨.findOne db collection filter _, rfl, rfl⟩
  | insertOne document =>
    refine ⟨.insertOne db collection 0, rfl, ?_⟩
    have hparse := parseSingleBsonDoc_toVec hlibrary (h document (List.mem_singleton_self _))
    have hbytes : (MethodCall.insertOne document).rawDocs = toVec document :=
      List.append_nil _
    rw [hbytes, route, hparse]
    rfl
  | insertMany documents ordered =>
    have hparse := parseBsonDocs_rawDocs hlibrary h
    refine ⟨.insertMany db collection _ _, rfl, ?_⟩
    rw [route, hparse]
    rfl
  | updateOne filter update => exact ⟨.updateOne db collection filter update, rfl, rfl⟩
  | updateMany filter update => exact ⟨.updateMany db collection filter update, rfl, rfl⟩
  | deleteOne filter => exact ⟨.deleteOne db collection filter, rfl, rfl⟩
  | deleteMany filter => exact ⟨.deleteMany db collection filter, rfl, rfl⟩
  | countDocuments filter =>
    refine ⟨.countDocuments db collection (filter.getD []), ?_, rfl⟩
    simp only [Language.envelope]
    split_ifs
    · cases filter <;> rfl
    · rfl
  | runCommand command => exact ⟨.runCommand db command, rfl, rfl⟩

/-- What the server reads of a request that can be sent is the request. -/
theorem eq_stamped_of_read {serverMax reqId : ℕ} {opcode : Opcode} {rawDocs : Bytes}
    {frame : Frame} (henvelope : DocumentFits envelope)
    (hfits : FitsHeader (requestFrame opcode reqId (toVec envelope) rawDocs))
    (hread : readResult serverMax
      (writeFrame (requestFrame opcode reqId (toVec envelope) rawDocs)) = .ok frame) : frame = stamped (requestFrame opcode reqId (toVec envelope) rawDocs) := by
  have hheader := header_of_readResult hread
  rw [readHeader, decode_writeFrame hfits] at hheader
  simp only [bind, Except.bind] at hheader
  split_ifs at hheader with hlarge
  have hfive := five_le_length_toVec envelope
  have hformed : WellFormed serverMax
      (stamped (requestFrame opcode reqId (toVec envelope) rawDocs)) :=
    { msgLen := (Nat.add_assoc _ _ _).symm
      msgLen_lt := hfits.msgLen
      msgLen_le := Nat.not_lt.mp hlarge
      reqId := hfits.reqId
      envelope_length := by
        change 4 ≤ (toVec envelope).length
        omega
      envelope_lt := henvelope.2
      envelope_prefix := (ofLittleEndian_eq _).trans (length_prefix_toVec henvelope.2) }
  have hresult := readResult_writeFrame hformed
  rw [writeFrame_stamped, hread] at hresult
  exact Except.ok.inj hresult

/-- The response to an operation that the database has performed or refused. -/
def resultResponse (dispatched : Dispatched) (result : Except String dispatched.call.Result) :
    OperationResponse :=
  match result with
  | .error message => toErrorResponse message
  | .ok result => dispatched.respond result

/-- The server performs the operation of a call that was sent, and answers with what the database
says. -/
theorem serves_of_sends
    (hlibrary : ∀ document, DocumentFits document →
      library.fromSlice (toVec document) = .ok document)
    (h : client.Sends db collection call envelope) {serverMax reqId : ℕ} {frame : Frame}
    (hfits : FitsHeader (requestFrame call.method.opcode reqId (toVec envelope) call.rawDocs))
    (hread : readResult serverMax (writeFrame
      (requestFrame call.method.opcode reqId (toVec envelope) call.rawDocs)) = .ok frame) :
    callOf library frame = some (call.dispatched library db collection).call ∧
      ∀ execute : Execute, responseTo library frame execute =
        resultResponse (call.dispatched library db collection)
          (execute (call.dispatched library db collection).call) := by
  obtain ⟨request, hparse, hroute⟩ :=
    exists_request_of_envelope client.language db collection hlibrary h.inserted
  have hlookup := lookup_eq_of_perm h.members (nodup_envelope client.language db collection call)
  rw [← parseDocument_congr hlookup] at hparse
  have henvelope : parseEnvelope library.fromSlice frame.envelope frame.header.flags.opcode =
      .ok request := by
    rw [eq_stamped_of_read h.fits hfits hread]
    simp only [parseEnvelope, stamped, requestFrame, hlibrary envelope h.fits, hparse]
  have hrawDocs : frame.rawDocs = call.rawDocs := by
    rw [eq_stamped_of_read h.fits hfits hread]
    rfl
  refine ⟨by simp only [callOf, henvelope, hrawDocs, hroute], fun execute ↦ ?_⟩
  simp only [responseTo, henvelope, dispatch, hrawDocs, hroute]
  rfl

end Reads

end MongoCore.Clients
