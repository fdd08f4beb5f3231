import MongoCore.Compiled.QuerySafety
import MongoCore.Library.Results
import MongoCore.Mcp.ReadOnly

/-!
# Documents with embeddings

A tool stores documents together with embeddings of one of their fields.  The texts of the field
are collected from the documents that have one, and the vectors of the answer are attached by their
positions among all documents.

The main result says for which documents and answers every document gets the vector of its own text.
-/

namespace MongoCore.Mcp.EmbedAndStore

open MongoCore.Data MongoCore.Compiled MongoCore.Library.Results MongoCore.Mcp.ReadOnly

/-! ## The service for embeddings -/

/-- A response of the service, with its body as a text and as JSON. -/
structure HttpResponse where
  status : ℕ
  text : String
  json : Except String Json

inductive VoyageError where
  | apiError (message : String)
  | httpError (message : String)
  | rateLimited (seconds : ℕ)

def VoyageError.display : VoyageError → String
  | .apiError message => s!"Voyage AI API error: {message}"
  | .httpError message => s!"HTTP error: {message}"
  | .rateLimited seconds => s!"Rate limited, retry after {seconds}s"

structure EmbeddingResult where
  embeddings : List (List UInt64)
  totalTokens : ℕ

/-- The client of the service.  Sending a request and reading a number as a double are parameters. -/
structure VoyageClient where
  embedModel : String
  post : Json → Except String HttpResponse
  asF64 : Json → Option UInt64

namespace VoyageClient

variable (client : VoyageClient)

def body (texts : List String) : Json :=
  .object [("input", .array (texts.map .string)), ("model", .string client.embedModel)]

def items (answer : Json) : List Json := (index answer "data").asArray?.getD []

/-- The embedding of an item, without what is no number. -/
def readEmbedding (item : Json) : List UInt64 :=
  ((index item "embedding").asArray?.getD []).filterMap client.asF64

def embed (texts : List String) : Except VoyageError EmbeddingResult :=
  match client.post (client.body texts) with
  | .error reason => .error (.httpError reason)
  | .ok response =>
      if response.status = 429 then .error (.rateLimited 60)
      else if ¬ (200 ≤ response.status ∧ response.status < 300) then
        .error (.apiError s!"HTTP {response.status}: {response.text}")
      else
        match response.json with
        | .error reason => .error (.apiError reason)
        | .ok answer =>
            .ok {
              embeddings := (items answer).map client.readEmbedding
              totalTokens := (index (index answer "usage") "total_tokens").asU64?.getD 0 }

end VoyageClient

/-! ## The tool -/

def embedTexts (embedField : String) (documents : List Json) : List String :=
  documents.filterMap fun document ↦ strField document embedField

section Tool

variable {Regex : Type} (crates : Crates Regex)

/-- The call that the tool makes, or its error. -/
def embedAndStore (voyage : Option VoyageClient) (arguments : Json) : Except String DriverCall :=
  match voyage with
  | none => .error "Embedding requires VOYAGE_API_KEY configuration"
  | some client =>
      match embedRequest arguments with
      | .error reason => .error reason
      | .ok request =>
          let embedField := (strField arguments "embed_field").getD ""
          match client.embed (embedTexts embedField request.documents) with
          | .error error => .error s!"Embedding failed: {error.display}"
          | .ok result =>
              match embeddedDocuments crates request.documents result.embeddings with
              | .error reason => .error reason
              | .ok documents =>
                  .ok ⟨request.database, request.collection, .insertMany documents⟩

def storedBy : Except String DriverCall → Option (List Document)
  | .ok ⟨_, _, .insertMany documents⟩ => some documents
  | _ => none

/-! ## Texts and vectors -/

/-- The vector of an item: an array of numbers. -/
def vectorOf (client : VoyageClient) (item : Json) : Option (List UInt64) :=
  ((item.get? "embedding").bind Json.asArray?).bind fun numbers ↦ numbers.mapM client.asF64

def vectorCount (client : VoyageClient) (answer : Json) : ℕ :=
  ((VoyageClient.items answer).filterMap (vectorOf client)).length

def textsBefore (embedField : String) (documents : List Json) (i : ℕ) : ℕ :=
  (embedTexts embedField (documents.take i)).length

/-- A stored document has the vector of its own text, and none without a text that counts. -/
def CarriesOwn (counts : String → Bool) (embedField : String) (documents : List Json)
    (vectors : List (List UInt64)) (i : ℕ) (stored : Document) : Prop :=
  match ((documents[i]?).bind fun document ↦ strField document embedField).filter counts with
  | some _ => ∃ vector, vectors[textsBefore embedField documents i]? = some vector ∧
      stored.lookup "_embedding" = some (.array (vector.map Bson.double))
  | none => stored.lookup "_embedding" = none

/-- The law of the tool, for documents and an answer of the service: one vector for each text is
stored with its text, and nothing is stored if the number of vectors is another one. -/
structure KeepsTogether (client : VoyageClient) (counts : String → Bool) (embedField : String)
    (documents : List Json) (answer : Json) (stored : Option (List Document)) : Prop where
  together : ∀ vectors, (VoyageClient.items answer).mapM (vectorOf client) = some vectors →
    vectors.length = (embedTexts embedField documents).length →
    ∀ kept, stored = some kept → ∀ i document, kept[i]? = some document →
      CarriesOwn counts embedField documents vectors i document
  mismatch : vectorCount client answer ≠ (embedTexts embedField documents).length → stored = none

/-- The documents with a text that counts come first, and the others have no text, and no embedding
of their own. -/
def TextsFirst (counts : String → Bool) (embedField : String) (documents : List Json) : Prop :=
  ∃ front back, documents = front ++ back ∧
    (∀ document ∈ front, ∃ text, strField document embedField = some text ∧ counts text = true) ∧
    ∀ document ∈ back, strField document embedField = none ∧
      ∀ converted, crates.toDocument document = .ok converted →
        converted.lookup "_embedding" = none

def Answers (client : VoyageClient) (texts : List String) (answer : Json) : Prop :=
  ∃ response, client.post (client.body texts) = .ok response ∧
    200 ≤ response.status ∧ response.status < 300 ∧ response.json = .ok answer

variable {crates}

theorem embed_of_answers {client : VoyageClient} {texts : List String} {answer : Json}
    (hanswer : Answers client texts answer) :
    client.embed texts = .ok ⟨(VoyageClient.items answer).map client.readEmbedding,
      (index (index answer "usage") "total_tokens").asU64?.getD 0⟩ := by
  obtain ⟨response, hpost, hlow, hhigh, hjson⟩ := hanswer
  have hlimit : response.status ≠ 429 := by omega
  rw [VoyageClient.embed, hpost]
  simp only [if_neg hlimit, hlow, hhigh, and_self, not_true_eq_false, if_false, hjson]

theorem readEmbedding_of_vectorOf {client : VoyageClient} (item : Json) (vector : List UInt64)
    (hvector : vectorOf client item = some vector) : client.readEmbedding item = vector := by
  obtain ⟨numbers, hnumbers, hvalues⟩ := Option.bind_eq_some_iff.mp hvector
  obtain ⟨member, hmember, harray⟩ := Option.bind_eq_some_iff.mp hnumbers
  rw [VoyageClient.readEmbedding, index, hmember, Option.getD_some, harray, Option.getD_some]
  exact filterMap_eq_of_mapM_eq_some hvalues

/-- Where all items are vectors, reading them drops nothing. -/
theorem map_readEmbedding {client : VoyageClient} {items : List Json} {vectors : List (List UInt64)}
    (hvectors : items.mapM (vectorOf client) = some vectors) :
    items.map client.readEmbedding = vectors :=
  map_eq_of_mapM_eq_some readEmbedding_of_vectorOf hvectors

theorem vectorCount_eq {client : VoyageClient} {answer : Json} {vectors : List (List UInt64)}
    (hvectors : (VoyageClient.items answer).mapM (vectorOf client) = some vectors) :
    vectorCount client answer = vectors.length := by
  rw [vectorCount, filterMap_eq_of_mapM_eq_some hvectors]

/-! ## Stored documents -/

def attached (embeddings : List (List UInt64)) (i : ℕ) (document : Document) : Document :=
  match embeddings[i]? with
  | some embedding => setMember document "_embedding" (.array (embedding.map Bson.double))
  | none => document

theorem lookup_setMember (document : Document) (key : String) (value : Bson) :
    (setMember document key value).lookup key = some value := by
  unfold setMember
  split_ifs with hany
  · induction document with
    | nil => simp at hany
    | cons member document ih =>
      by_cases hkey : member.1 = key
      · simp [hkey]
      · have hrest : (document.any fun member ↦ decide (member.1 = key)) = true := by
          simpa [hkey] using hany
        rw [List.map_cons, if_neg hkey, List.lookup_cons, beq_false_of_ne (Ne.symm hkey)]
        exact ih hrest
  · induction document with
    | nil => simp
    | cons member document ih =>
      simp only [List.any_cons, Bool.or_eq_true, decide_eq_true_eq, not_or] at hany
      rw [List.cons_append, List.lookup_cons, beq_false_of_ne (Ne.symm hany.1)]
      exact ih hany.2

theorem lookup_attached_of_some {embeddings : List (List UInt64)} {i : ℕ} {vector : List UInt64}
    (hvector : embeddings[i]? = some vector) (document : Document) :
    (attached embeddings i document).lookup "_embedding" =
      some (.array (vector.map Bson.double)) := by
  rw [attached, hvector]
  exact lookup_setMember _ _ _

theorem attached_of_none {embeddings : List (List UInt64)} {i : ℕ}
    (hnone : embeddings[i]? = none) (document : Document) :
    attached embeddings i document = document := by
  rw [attached, hnone]

/-- The documents are built from all documents, in order. -/
theorem embeddedDocuments_eq_ok {documents : List Json} {embeddings : List (List UInt64)}
    {stored : List Document}
    (hstored : embeddedDocuments crates documents embeddings = .ok stored) {i : ℕ}
    {document : Json} (hdocument : documents[i]? = some document) :
    ∃ converted, crates.toDocument document = .ok converted ∧
      stored[i]? = some (attached embeddings i converted) := by
  have hpairs := mapM_eq_ok.mp hstored
  obtain ⟨hi, hget⟩ := List.getElem?_eq_some_iff.mp hdocument
  have hlength : documents.length = stored.length := by
    simpa using hpairs.length_eq
  have hread := hpairs.get (by simpa using hi) (hlength ▸ hi)
  simp only [List.get_eq_getElem, List.getElem_zipIdx, hget, Nat.zero_add] at hread
  cases hconverted : crates.toDocument document with
  | error reason => simp [hconverted] at hread
  | ok converted =>
    refine ⟨converted, rfl, ?_⟩
    rw [List.getElem?_eq_getElem (hlength ▸ hi), attached]
    cases hvector : embeddings[i]? with
    | none => simpa [hconverted, hvector, eq_comm] using hread
    | some vector => simpa [hconverted, hvector, eq_comm] using hread

theorem length_embeddedDocuments {documents : List Json} {embeddings : List (List UInt64)}
    {stored : List Document}
    (hstored : embeddedDocuments crates documents embeddings = .ok stored) :
    stored.length = documents.length := by
  simpa using (mapM_eq_ok.mp hstored).length_eq.symm

/-- The documents are built exactly if each of them can be converted. -/
theorem exists_embeddedDocuments_iff {documents : List Json} (embeddings : List (List UInt64)) :
    (∃ stored, embeddedDocuments crates documents embeddings = .ok stored) ↔
      ∀ document ∈ documents, ∃ converted, crates.toDocument document = .ok converted := by
  constructor
  · rintro ⟨stored, hstored⟩ document hdocument
    obtain ⟨i, hi⟩ := List.getElem?_of_mem hdocument
    obtain ⟨converted, hconverted, -⟩ := embeddedDocuments_eq_ok hstored hi
    exact ⟨converted, hconverted⟩
  · intro hall
    cases hresult : embeddedDocuments crates documents embeddings with
    | ok stored => exact ⟨stored, rfl⟩
    | error reason =>
      obtain ⟨⟨document, i⟩, hpair, herror⟩ := exists_of_mapM_eq_error hresult
      obtain ⟨converted, hconverted⟩ := hall document (List.fst_mem_of_mem_zipIdx hpair)
      simp only [hconverted] at herror
      split at herror <;> cases herror

/-! ## Positions -/

theorem length_embedTexts_of_all {embedField : String} {documents : List Json}
    (hall : ∀ document ∈ documents, ∃ text, strField document embedField = some text) :
    (embedTexts embedField documents).length = documents.length := by
  induction documents with
  | nil => rfl
  | cons document documents ih =>
    obtain ⟨text, htext⟩ := hall document List.mem_cons_self
    have hrest := ih fun other hother ↦ hall other (List.mem_cons_of_mem _ hother)
    simp only [embedTexts, List.filterMap_cons, htext, List.length_cons] at hrest ⊢
    rw [hrest]

theorem embedTexts_append (embedField : String) (front back : List Json) :
    embedTexts embedField (front ++ back) =
      embedTexts embedField front ++ embedTexts embedField back :=
  List.filterMap_append

/-- If as many documents have a text as there are texts in front, the others have none. -/
theorem embedTexts_drop_eq_nil {embedField : String} {documents : List Json}
    (hall : ∀ document ∈ documents.take (embedTexts embedField documents).length,
      ∃ text, strField document embedField = some text) :
    ∀ document ∈ documents.drop (embedTexts embedField documents).length,
      strField document embedField = none := by
  have hsplit := congrArg List.length
    (embedTexts_append embedField (documents.take (embedTexts embedField documents).length)
      (documents.drop (embedTexts embedField documents).length))
  have hle : (embedTexts embedField documents).length ≤ documents.length :=
    List.length_filterMap_le _ _
  rw [List.take_append_drop, List.length_append, length_embedTexts_of_all hall, List.length_take,
    Nat.min_eq_left hle] at hsplit
  have hnil : embedTexts embedField
      (documents.drop (embedTexts embedField documents).length) = [] :=
    List.eq_nil_of_length_eq_zero (by omega)
  exact List.filterMap_eq_nil_iff.mp hnil

/-- In front of a document among those that come first there is a text for each document. -/
theorem textsBefore_of_front {embedField : String} {front back : List Json}
    (hfront : ∀ document ∈ front, ∃ text, strField document embedField = some text) {i : ℕ}
    (hi : i < front.length) : textsBefore embedField (front ++ back) i = i := by
  rw [textsBefore, List.take_append_of_le_length hi.le,
    length_embedTexts_of_all fun document hdocument ↦ hfront document (List.mem_of_mem_take hdocument),
    List.length_take, Nat.min_eq_left hi.le]

section Law

variable {client : VoyageClient} {counts : String → Bool} {embedField : String}
  {documents : List Json} {answer : Json} {vectors : List (List UInt64)} {stored : List Document}

/-- If the texts come first, every document carries its own vector. -/
theorem carriesOwn_of_textsFirst (hfirst : TextsFirst crates counts embedField documents)
    (hlength : vectors.length = (embedTexts embedField documents).length)
    (hstored : embeddedDocuments crates documents vectors = .ok stored) {i : ℕ}
    {document : Document} (hdocument : stored[i]? = some document) :
    CarriesOwn counts embedField documents vectors i document := by
  obtain ⟨front, back, rfl, hfront, hback⟩ := hfirst
  have htexts : ∀ document ∈ front, ∃ text, strField document embedField = some text :=
    fun document hmem ↦ (hfront document hmem).imp fun _ ↦ And.left
  have hvectors : vectors.length = front.length := by
    have hnone : embedTexts embedField back = [] :=
      List.filterMap_eq_nil_iff.mpr fun document hmem ↦ (hback document hmem).1
    rw [hlength, embedTexts_append, hnone, List.append_nil, length_embedTexts_of_all htexts]
  have hi : i < (front ++ back).length :=
    length_embeddedDocuments hstored ▸ (List.getElem?_eq_some_iff.mp hdocument).1
  obtain ⟨converted, hconverted, hattached⟩ :=
    embeddedDocuments_eq_ok hstored (List.getElem?_eq_getElem hi)
  obtain rfl := Option.some.inj (hdocument.symm.trans hattached)
  unfold CarriesOwn
  rw [List.getElem?_eq_getElem hi, Option.bind_some]
  by_cases hcase : i < front.length
  · obtain ⟨text, htext, hcounts⟩ := hfront front[i] (List.getElem_mem hcase)
    rw [List.getElem_append_left hcase, htext, Option.filter_some, if_pos hcounts]
    have hvector := List.getElem?_eq_getElem (hvectors ▸ hcase)
    rw [textsBefore_of_front htexts hcase]
    exact ⟨_, hvector, lookup_attached_of_some hvector converted⟩
  · have hmem : (front ++ back)[i] ∈ back := by
      rw [List.getElem_append_right (Nat.le_of_not_lt hcase)]
      exact List.getElem_mem _
    obtain ⟨hnone, hown⟩ := hback _ hmem
    rw [hnone, Option.filter_none]
    have hout : vectors[i]? = none := List.getElem?_eq_none (by omega)
    rw [attached_of_none hout]
    exact hown converted hconverted

/-- If every document carries its own vector, the texts come first. -/
theorem textsFirst_of_carriesOwn
    (hlength : vectors.length = (embedTexts embedField documents).length)
    (hstored : embeddedDocuments crates documents vectors = .ok stored)
    (hcarries : ∀ i document, stored[i]? = some document →
      CarriesOwn counts embedField documents vectors i document) :
    TextsFirst crates counts embedField documents := by
  have hat : ∀ i (hi : i < documents.length), ∃ converted,
      crates.toDocument documents[i] = .ok converted ∧
      CarriesOwn counts embedField documents vectors i (attached vectors i converted) := by
    intro i hi
    obtain ⟨converted, hconverted, hattached⟩ :=
      embeddedDocuments_eq_ok hstored (List.getElem?_eq_getElem hi)
    exact ⟨converted, hconverted, hcarries i _ hattached⟩
  have hle : (embedTexts embedField documents).length ≤ documents.length :=
    List.length_filterMap_le _ _
  have hfront : ∀ document ∈ documents.take (embedTexts embedField documents).length,
      ∃ text, strField document embedField = some text ∧ counts text = true := by
    intro document hdocument
    obtain ⟨i, hi, rfl⟩ := List.mem_take_iff_getElem.mp hdocument
    have hvector := List.getElem?_eq_getElem (show i < vectors.length by omega)
    obtain ⟨converted, -, hown⟩ := hat i (by omega)
    rw [CarriesOwn, List.getElem?_eq_getElem (by omega), Option.bind_some] at hown
    cases hcounted : (strField documents[i] embedField).filter counts with
    | none =>
      simp only [hcounted, lookup_attached_of_some hvector] at hown
      cases hown
    | some text =>
      obtain ⟨htext, hcounts⟩ := Option.filter_eq_some_iff.mp hcounted
      exact ⟨text, htext, hcounts⟩
  refine ⟨documents.take (embedTexts embedField documents).length,
    documents.drop (embedTexts embedField documents).length, (List.take_append_drop _ _).symm,
    hfront, fun document hdocument ↦ ⟨?_, fun converted hconverted ↦ ?_⟩⟩
  · exact embedTexts_drop_eq_nil (fun other hother ↦ (hfront other hother).imp fun _ ↦ And.left)
      document hdocument
  · have hnone := embedTexts_drop_eq_nil
      (fun other hother ↦ (hfront other hother).imp fun _ ↦ And.left) document hdocument
    obtain ⟨j, hj, rfl⟩ := List.mem_iff_getElem.mp hdocument
    rw [List.length_drop] at hj
    rw [List.getElem_drop] at hnone hconverted
    obtain ⟨other, hother, hown⟩ := hat ((embedTexts embedField documents).length + j) (by omega)
    obtain rfl := Except.ok.inj (hconverted.symm.trans hother)
    have hout : vectors[(embedTexts embedField documents).length + j]? = none :=
      List.getElem?_eq_none (by omega)
    rw [CarriesOwn, List.getElem?_eq_getElem (by omega), Option.bind_some, hnone,
      attached_of_none hout] at hown
    exact hown

/-- What is stored keeps texts and vectors together exactly if there are as many vectors as texts,
and the texts come first. -/
theorem keepsTogether_some_iff (hstored : embeddedDocuments crates documents
      ((VoyageClient.items answer).map client.readEmbedding) = .ok stored) :
    KeepsTogether client counts embedField documents answer (some stored) ↔
      vectorCount client answer = (embedTexts embedField documents).length ∧
        ((∃ vectors, (VoyageClient.items answer).mapM (vectorOf client) = some vectors) →
          TextsFirst crates counts embedField documents) := by
  constructor
  · intro hkeeps
    have hcount : vectorCount client answer = (embedTexts embedField documents).length := by
      by_contra hne
      cases hkeeps.mismatch hne
    refine ⟨hcount, fun ⟨vectors, hvectors⟩ ↦ ?_⟩
    have hlength : vectors.length = (embedTexts embedField documents).length :=
      vectorCount_eq hvectors ▸ hcount
    rw [map_readEmbedding hvectors] at hstored
    exact textsFirst_of_carriesOwn hlength hstored
      (hkeeps.together vectors hvectors hlength stored rfl)
  · rintro ⟨hcount, hfirst⟩
    refine ⟨fun vectors hvectors hlength kept hkept i document hdocument ↦ ?_,
      fun hne ↦ absurd hcount hne⟩
    obtain rfl := Option.some.inj hkept
    rw [map_readEmbedding hvectors] at hstored
    exact carriesOwn_of_textsFirst (hfirst ⟨vectors, hvectors⟩) hlength hstored hdocument

end Law

/-! ## The tool -/

theorem keepsTogether_none (client : VoyageClient) (counts : String → Bool) (embedField : String)
    (documents : List Json) (answer : Json) :
    KeepsTogether client counts embedField documents answer none where
  together := fun _ _ _ _ h ↦ by cases h
  mismatch := fun _ ↦ rfl

variable (crates) in
/-- The tool has something to store: the names are given, some document has a text, and every
document can be converted. -/
def Stores (arguments : Json) (embedField : String) (documents : List Json) : Prop :=
  (∃ database, strField arguments "database" = some database) ∧
    (∃ collection, strField arguments "collection" = some collection) ∧
    embedTexts embedField documents ≠ [] ∧
    ∀ document ∈ documents, ∃ converted, crates.toDocument document = .ok converted

section Requests

variable {arguments : Json} {documents : List Json} {embedField : String}
  (hdocuments : (arguments.get? "documents").bind Json.asArray? = some documents)
  (hfield : strField arguments "embed_field" = some embedField)

include hdocuments hfield

/-- A request is accepted if the names are given and some document has a text. -/
theorem embedRequest_eq_ok {database collection : String}
    (hdatabase : strField arguments "database" = some database)
    (hcollection : strField arguments "collection" = some collection)
    (htexts : embedTexts embedField documents ≠ []) :
    embedRequest arguments = .ok ⟨documents, database, collection⟩ := by
  have hempty : (documents.filterMap fun document ↦ strField document embedField).isEmpty = false :=
    List.isEmpty_eq_false_iff.mpr htexts
  simp only [embedRequest, hdocuments, getStr, hdatabase, hcollection, hfield, bind, Except.bind,
    hempty]
  rfl

theorem of_embedRequest_eq_ok {request : EmbedRequest}
    (hrequest : embedRequest arguments = .ok request) :
    (∃ database, strField arguments "database" = some database) ∧
      (∃ collection, strField arguments "collection" = some collection) ∧
      embedTexts embedField documents ≠ [] := by
  simp only [embedRequest, hdocuments, getStr, hfield] at hrequest
  obtain ⟨database, hdatabase, hrequest⟩ := bind_eq_ok.mp hrequest
  obtain ⟨collection, hcollection, hrequest⟩ := bind_eq_ok.mp hrequest
  obtain ⟨field, hgiven, hrequest⟩ := bind_eq_ok.mp hrequest
  obtain rfl := Except.ok.inj hgiven
  split at hdatabase
  case h_2 => cases hdatabase
  case h_1 text htext =>
    split at hcollection
    case h_2 => cases hcollection
    case h_1 name hname =>
      split_ifs at hrequest with hempty
      refine ⟨⟨text, htext⟩, ⟨name, hname⟩, fun hnil ↦ hempty ?_⟩
      exact List.isEmpty_iff.mpr hnil

end Requests

/-- The tool keeps texts and vectors together exactly if it has nothing to store, or there are as many
vectors as texts, and the texts come first. -/
theorem keepsTogether_embedAndStore_iff {client : VoyageClient} (counts : String → Bool)
    {arguments answer : Json} {documents : List Json} {embedField : String}
    (hdocuments : (arguments.get? "documents").bind Json.asArray? = some documents)
    (hfield : strField arguments "embed_field" = some embedField)
    (hanswer : Answers client (embedTexts embedField documents) answer) :
    KeepsTogether client counts embedField documents answer
        (storedBy (embedAndStore crates (some client) arguments)) ↔
      (Stores crates arguments embedField documents →
        vectorCount client answer = (embedTexts embedField documents).length ∧
          ((∃ vectors, (VoyageClient.items answer).mapM (vectorOf client) = some vectors) →
            TextsFirst crates counts embedField documents)) := by
  have hembed := embed_of_answers hanswer
  by_cases hstores : Stores crates arguments embedField documents
  · obtain ⟨⟨database, hdatabase⟩, ⟨collection, hcollection⟩, htexts, hconvert⟩ := hstores
    have hrequest := embedRequest_eq_ok hdocuments hfield hdatabase hcollection htexts
    obtain ⟨stored, hstored⟩ := (exists_embeddedDocuments_iff
      ((VoyageClient.items answer).map client.readEmbedding)).mpr hconvert
    have hcall : embedAndStore crates (some client) arguments =
        .ok ⟨database, collection, .insertMany stored⟩ := by
      simp only [embedAndStore, hrequest, hfield, Option.getD_some, hembed, hstored]
    rw [hcall, storedBy, keepsTogether_some_iff hstored]
    exact ⟨fun h _ ↦ h, fun h ↦ h ⟨⟨database, hdatabase⟩, ⟨collection, hcollection⟩, htexts,
      hconvert⟩⟩
  · have hnone : storedBy (embedAndStore crates (some client) arguments) = none := by
      unfold embedAndStore
      cases hrequest : embedRequest arguments with
      | error reason => rfl
      | ok request =>
        obtain ⟨⟨database, hdatabase⟩, ⟨collection, hcollection⟩, htexts⟩ :=
          of_embedRequest_eq_ok hdocuments hfield hrequest
        have hgiven := embedRequest_eq_ok hdocuments hfield hdatabase hcollection htexts
        obtain rfl := Except.ok.inj (hrequest.symm.trans hgiven)
        cases hdocuments : embeddedDocuments crates documents
            ((VoyageClient.items answer).map client.readEmbedding) with
        | error reason => simp only [hfield, Option.getD_some, hembed, hdocuments, storedBy]
        | ok stored =>
          exact absurd ⟨⟨database, hdatabase⟩, ⟨collection, hcollection⟩, htexts,
            (exists_embeddedDocuments_iff _).mp ⟨stored, hdocuments⟩⟩ hstores
    rw [hnone]
    exact ⟨fun _ h ↦ absurd h hstores, fun _ ↦ keepsTogether_none _ _ _ _ _⟩

end Tool

/-! ## Two documents, one text -/

def oneVector : Json :=
  .object [("data", .array [.object [("embedding", .array [.number (.float 0x3FE0000000000000)])]])]

/-- A service that gives this answer. -/
def halfClient : VoyageClient where
  embedModel := "voyage-3"
  post := fun _ ↦ .ok ⟨200, "", .ok oneVector⟩
  asF64
    | .number (.float bits) => some bits
    | _ => none

def withText : Json := .object [("body", .string "hello")]

def withoutText : Json := .object [("title", .string "draft")]

def storeArguments (documents : List Json) : Json :=
  .object [("documents", .array documents), ("database", .string "shop"),
    ("collection", .string "posts"), ("embed_field", .string "body")]

def nonempty (text : String) : Bool := !text.isEmpty

/-- With the text in front, it gets its vector. -/
theorem keepsTogether_withText :
    KeepsTogether halfClient nonempty "body" [withText, withoutText] oneVector
      (storedBy (embedAndStore (readingCrates .null) (some halfClient)
        (storeArguments [withText, withoutText]))) := by
  refine (keepsTogether_embedAndStore_iff nonempty rfl rfl ⟨_, rfl, by decide, by decide, rfl⟩).mpr
    fun _ ↦ ⟨rfl, fun _ ↦ ⟨[withText], [withoutText], rfl, ?_, ?_⟩⟩
  · intro document hdocument
    obtain rfl := List.mem_singleton.mp hdocument
    exact ⟨"hello", rfl, rfl⟩
  · intro document hdocument
    obtain rfl := List.mem_singleton.mp hdocument
    refine ⟨rfl, fun converted hconverted ↦ ?_⟩
    obtain rfl := Except.ok.inj hconverted
    rfl

/-- With the text behind, the other document gets the vector. -/
theorem not_keepsTogether_withoutText :
    ¬ KeepsTogether halfClient nonempty "body" [withoutText, withText] oneVector
      (storedBy (embedAndStore (readingCrates .null) (some halfClient)
        (storeArguments [withoutText, withText]))) := by
  intro hkeeps
  have hown := hkeeps.together [[0x3FE0000000000000]] rfl rfl _ rfl 0 _ rfl
  have hnone : (setMember [("title", .string "draft")] "_embedding"
      (.array [.double 0x3FE0000000000000])).lookup "_embedding" = none := hown
  rw [lookup_setMember] at hnone
  cases hnone

end MongoCore.Mcp.EmbedAndStore
