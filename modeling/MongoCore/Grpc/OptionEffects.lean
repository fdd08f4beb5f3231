import MongoCore.Data.Collection
import MongoCore.Grpc.Crud

/-!
# Options of CRUD calls

What a request asks for, with all its options, is compared with the command that its call performs.
Some options are dropped on the way: those of a find of one document, the upsert of an update, and a
sort that does not decode.

The module says exactly which requests get what they ask for.  A find never means the same in a
transaction as outside, because the driver refuses every read in a transaction.
-/

namespace MongoCore.Grpc.Crud

open MongoCore.Data

/-! ## Calls and what they ask for -/

inductive CrudRequest where
  | find (request : FindRequest)
  | findOne (request : FindRequest)
  | update (request : UpdateRequest)
  | updateMany (request : UpdateRequest)
  | findAndModify (request : FindAndModifyRequest)

/-- A request is a call of its own, or an operation of a pipeline request. -/
inductive Endpoint where
  | rpc
  | pipeline
  deriving DecidableEq

variable (decode : List UInt8 → Except String Document) (isOpen : String → Bool)

def asked : Endpoint → CrudRequest → Except Status Performed
  | .rpc, .find request => find decode isOpen request
  | .rpc, .findOne request => findOne decode request
  | .rpc, .update request => update decode isOpen request
  | .rpc, .updateMany request => updateMany decode request
  | .rpc, .findAndModify request => findAndModify decode request
  | .pipeline, .find request => pipelineFind decode isOpen request
  | .pipeline, .findOne request => pipelineFindOne decode request
  | .pipeline, .update request => pipelineUpdate decode isOpen request
  | .pipeline, .updateMany request => pipelineUpdateMany decode request
  | .pipeline, .findAndModify request => pipelineFindAndModify decode request

def serve (endpoint : Endpoint) (request : CrudRequest) : Except Refusal Performed :=
  toDriver (asked decode isOpen endpoint request)

/-- The options that a find-and-modify asks for; a sort that does not decode is an error. -/
def requestedModification : Option FindAndModifyOptionsMessage →
    Except Status FindAndModifyOptions
  | none => .ok {}
  | some message => do
      let sort ← optionalDocument decode message.sort
      pure
        { returnDocument := if message.returnDocument = 0 then .before else .after
          upsert := message.upsert
          sort := sort }

/-- The command that a request asks for, with every option. -/
def requested : CrudRequest → Except Status DriverCommand
  | .find request => do
      let filter ← protoFilterToBson decode request.filter
      let options ← convertFindOptions decode request.options
      pure (.find filter (driverOptions options))
  | .findOne request => do
      let filter ← protoFilterToBson decode request.filter
      let options ← convertFindOptions decode request.options
      pure (.findOne filter (driverOptions options))
  | .update request => do
      let filter ← protoFilterToBson decode request.filter
      let update ← updateDocument decode request.update
      pure (.updateOne filter update request.upsert)
  | .updateMany request => do
      let filter ← protoFilterToBson decode request.filter
      let update ← updateDocument decode request.update
      pure (.updateMany filter update request.upsert)
  | .findAndModify request => do
      let filter ← protoFilterToBson decode request.filter
      let update ← updateDocument decode request.update
      let options ← requestedModification decode request.options
      pure (.findOneAndUpdate filter update options)

/-- Every option takes effect: a request that is not refused performs a command that means the same,
on every collection, as the one it asks for. -/
def OptionsTakeEffect (endpoint : Endpoint) (request : CrudRequest) : Prop :=
  ∀ performed, serve decode isOpen endpoint request = .ok performed →
    ∃ command, requested decode request = .ok command ∧
      performed.request.command.Equivalent command

/-! ## Which options take effect -/

def NotOpen (transactionId : Option String) : Prop :=
  ∃ id, transactionId = some id ∧ isOpen id = false

/-- An update is missing, does not decode or has no modifier. -/
def UpdateRefused (update : Option (List UInt8)) : Prop :=
  ∀ document, updateDocument decode update = .ok document → hasModifier document = false

/-- The requests that are refused: a document that is looked at is missing or does not decode, an
update has no modifier, a find names a transaction, or an update one that is not open. -/
def Refused : CrudRequest → Prop
  | .find request =>
      (protoFilterToBson decode request.filter).isOk = false ∨
        (convertFindOptions decode request.options).isOk = false ∨
          request.transactionId.isSome = true
  | .findOne request => (protoFilterToBson decode request.filter).isOk = false
  | .update request =>
      (protoFilterToBson decode request.filter).isOk = false ∨
        UpdateRefused decode request.update ∨ NotOpen isOpen request.transactionId
  | .updateMany request =>
      (protoFilterToBson decode request.filter).isOk = false ∨ UpdateRefused decode request.update
  | .findAndModify request =>
      (protoFilterToBson decode request.filter).isOk = false ∨ UpdateRefused decode request.update

/-- The options that a call can honour: none that a find of one document drops, no upsert of an
update, and no sort that does not decode. -/
def HonoursOptions : CrudRequest → Prop
  | .find _ => True
  | .findOne request =>
      ∃ options, convertFindOptions decode request.options = .ok options ∧
        (driverOptions options).PlainOrder
  | .update request | .updateMany request => request.upsert = false
  | .findAndModify request => (requestedModification decode request.options).isOk = true

theorem asked_eq (endpoint : Endpoint) (request : CrudRequest) :
    asked decode isOpen endpoint request = asked decode isOpen .rpc request := by
  cases endpoint <;> cases request <;> rfl

theorem serve_eq (endpoint : Endpoint) (request : CrudRequest) :
    serve decode isOpen endpoint request = serve decode isOpen .rpc request := by
  rw [serve, asked_eq, serve]

variable {decode isOpen} {endpoint : Endpoint} {request : CrudRequest}

/-- A call that asks for nothing, or for what the driver refuses, keeps every promise. -/
theorem takeEffect_of_refused
    (hasked : ∀ performed, asked decode isOpen .rpc request = .ok performed →
      driverRefusal? performed ≠ none)
    (hrefused : Refused decode isOpen request) :
    OptionsTakeEffect decode isOpen endpoint request ↔
      Refused decode isOpen request ∨ HonoursOptions decode request := by
  refine iff_of_true (fun performed h ↦ ?_) (.inl hrefused)
  rw [serve_eq, serve, toDriver_eq_ok] at h
  exact absurd h.2 (hasked performed h.1)

theorem takeEffect_of_error {status : Status}
    (hasked : asked decode isOpen .rpc request = .error status)
    (hrefused : Refused decode isOpen request) :
    OptionsTakeEffect decode isOpen endpoint request ↔
      Refused decode isOpen request ∨ HonoursOptions decode request := by
  refine takeEffect_of_refused (fun performed h ↦ ?_) hrefused
  rw [hasked] at h
  cases h

theorem takeEffect_of_ok {performed : Performed}
    (hasked : asked decode isOpen .rpc request = .ok performed)
    (hdriver : driverRefusal? performed = none) (hrefused : ¬ Refused decode isOpen request)
    (hmeans : (∃ command, requested decode request = .ok command ∧
      performed.request.command.Equivalent command) ↔ HonoursOptions decode request) :
    OptionsTakeEffect decode isOpen endpoint request ↔
      Refused decode isOpen request ∨ HonoursOptions decode request := by
  rw [or_iff_right hrefused, ← hmeans]
  constructor
  · intro h
    apply h performed
    rw [serve_eq]
    exact toDriver_eq_ok.mpr ⟨hasked, hdriver⟩
  · intro h other hother
    rw [serve_eq, serve, toDriver_eq_ok, hasked] at hother
    exact Except.ok.inj hother.1 ▸ h

def CrudRequest.filter : CrudRequest → Option (List UInt8)
  | .find request | .findOne request => request.filter
  | .update request | .updateMany request => request.filter
  | .findAndModify request => request.filter

def CrudRequest.update? : CrudRequest → Option (Option (List UInt8))
  | .find _ | .findOne _ => none
  | .update request | .updateMany request => some request.update
  | .findAndModify request => some request.update

/-- A request whose filter does not decode is refused. -/
theorem takeEffect_of_filter {status : Status}
    (h : protoFilterToBson decode request.filter = .error status) :
    OptionsTakeEffect decode isOpen endpoint request ↔
      Refused decode isOpen request ∨ HonoursOptions decode request := by
  have hisOk : (protoFilterToBson decode request.filter).isOk = false := by rw [h]; rfl
  have hasked : asked decode isOpen .rpc request = .error status := by
    cases request <;> simp only [CrudRequest.filter] at h <;>
      simp only [asked, find, findOne, update, updateMany, findAndModify, h] <;> rfl
  have hrefused : Refused decode isOpen request := by
    cases request with
    | findOne => exact hisOk
    | _ => exact .inl hisOk
  exact takeEffect_of_error hasked hrefused

theorem Refused.of_update {change : Option (List UInt8)} (hchange : request.update? = some change)
    (h : UpdateRefused decode change) : Refused decode isOpen request := by
  cases request with
  | find | findOne => cases hchange
  | update request => exact .inr (.inl (Option.some.inj hchange ▸ h))
  | updateMany request | findAndModify request => exact .inr (Option.some.inj hchange ▸ h)

/-- What an update that decodes asks of the driver is an update with the same document. -/
theorem updateOf?_of_asked {filter change : Document} {performed : Performed}
    {data : Option (List UInt8)} (hfilter : protoFilterToBson decode request.filter = .ok filter)
    (hdata : request.update? = some data) (hchange : updateDocument decode data = .ok change)
    (hasked : asked decode isOpen .rpc request = .ok performed) :
    updateOf? performed.request.command = some change := by
  cases request with
  | find | findOne => cases hdata
  | update request =>
    obtain rfl := Option.some.inj hdata
    simp only [CrudRequest.filter] at hfilter
    simp only [asked, update, hfilter, hchange] at hasked
    cases hid : request.transactionId with
    | none =>
      rw [hid] at hasked
      obtain rfl := Except.ok.inj hasked
      rfl
    | some id =>
      rw [hid] at hasked
      cases hopen : isOpen id with
      | false =>
        simp only [inTransaction, hopen] at hasked
        cases hasked
      | true =>
        simp only [inTransaction, hopen] at hasked
        obtain rfl := Except.ok.inj hasked
        rfl
  | updateMany request =>
    obtain rfl := Option.some.inj hdata
    simp only [CrudRequest.filter] at hfilter
    simp only [asked, updateMany, hfilter, hchange] at hasked
    obtain rfl := Except.ok.inj hasked
    rfl
  | findAndModify request =>
    obtain rfl := Option.some.inj hdata
    simp only [CrudRequest.filter] at hfilter
    simp only [asked, findAndModify, hfilter, hchange] at hasked
    obtain rfl := Except.ok.inj hasked
    rfl

/-- A request whose update is missing or does not decode asks for nothing. -/
theorem asked_ne_ok_of_update {filter : Document} {data : Option (List UInt8)} {status : Status}
    (hfilter : protoFilterToBson decode request.filter = .ok filter)
    (hdata : request.update? = some data) (h : updateDocument decode data = .error status)
    (performed : Performed) : asked decode isOpen .rpc request ≠ .ok performed := by
  cases request with
  | find | findOne => cases hdata
  | update request | updateMany request | findAndModify request =>
    obtain rfl := Option.some.inj hdata
    simp only [CrudRequest.filter] at hfilter
    simp only [asked, update, updateMany, findAndModify, hfilter, h]
    exact fun hok ↦ by cases hok

/-- A request whose update is missing, does not decode or has no modifier is refused. -/
theorem takeEffect_of_update {filter : Document} {data : Option (List UInt8)}
    (hfilter : protoFilterToBson decode request.filter = .ok filter)
    (hdata : request.update? = some data) (h : UpdateRefused decode data) :
    OptionsTakeEffect decode isOpen endpoint request ↔
      Refused decode isOpen request ∨ HonoursOptions decode request := by
  apply takeEffect_of_refused _ (Refused.of_update hdata h)
  intro performed hasked
  cases hchange : updateDocument decode data with
  | error status => exact absurd hasked (asked_ne_ok_of_update hfilter hdata hchange performed)
  | ok change =>
    have hupdate := updateOf?_of_asked hfilter hdata hchange hasked
    exact driverRefusal?_ne_none hupdate (h change hchange)

theorem takeEffect_find (request : FindRequest) :
    OptionsTakeEffect decode isOpen endpoint (.find request) ↔
      Refused decode isOpen (.find request) ∨ HonoursOptions decode (.find request) := by
  cases hfilter : protoFilterToBson decode request.filter with
  | error status => exact takeEffect_of_filter hfilter
  | ok filter =>
    cases hoptions : convertFindOptions decode request.options with
    | error status =>
      apply takeEffect_of_error
      · rw [asked, find, hfilter, hoptions]
        rfl
      · simp [Refused, hoptions, Except.isOk, Except.toBool]
    | ok options =>
      cases hid : request.transactionId with
      | none =>
        have hrequested : requested decode (.find request) =
            .ok (.find filter (driverOptions options)) := by
          simp only [requested, hfilter, hoptions]
          rfl
        have hasked : asked decode isOpen .rpc (.find request) = .ok
            ⟨none, request.database, request.collection,
              .find filter (driverOptions options)⟩ := by
          simp only [asked, find, hfilter, hoptions, hid]
          rfl
        apply takeEffect_of_ok hasked rfl
        · simp [Refused, hfilter, hoptions, hid, Except.isOk, Except.toBool]
        · exact iff_of_true ⟨_, hrequested, .inl rfl⟩ trivial
      | some id =>
        apply takeEffect_of_refused
        · intro performed hasked
          simp only [asked, find, hfilter, hoptions, hid] at hasked
          cases hopen : isOpen id with
          | false =>
            simp only [inTransaction, hopen] at hasked
            cases hasked
          | true =>
            simp only [inTransaction, hopen] at hasked
            obtain rfl := Except.ok.inj hasked
            exact Option.some_ne_none _
        · exact .inr (.inr (by rw [hid]; rfl))

theorem takeEffect_findOne (request : FindRequest) :
    OptionsTakeEffect decode isOpen endpoint (.findOne request) ↔
      Refused decode isOpen (.findOne request) ∨ HonoursOptions decode (.findOne request) := by
  cases hfilter : protoFilterToBson decode request.filter with
  | error status => exact takeEffect_of_filter hfilter
  | ok filter =>
    apply takeEffect_of_ok
    · rw [asked, findOne, hfilter]
      rfl
    · rfl
    · simp [Refused, hfilter, Except.isOk, Except.toBool]
    · cases hoptions : convertFindOptions decode request.options with
      | error status =>
        have hrequested : requested decode (.findOne request) = .error status := by
          simp only [requested, hfilter, hoptions]
          rfl
        simp [HonoursOptions, hoptions, hrequested]
      | ok options =>
        have hrequested : requested decode (.findOne request) =
            .ok (.findOne filter (driverOptions options)) := by
          simp only [requested, hfilter, hoptions]
          rfl
        simp [HonoursOptions, hoptions, hrequested, findOne_equivalent_iff]

/-- Only a request whose filter and update decode, with a modifier, has to be looked at. -/
theorem takeEffect_of_decoded {data : Option (List UInt8)} (hdata : request.update? = some data)
    (hdecoded : ∀ filter change, protoFilterToBson decode request.filter = .ok filter →
      updateDocument decode data = .ok change → hasModifier change = true →
        (OptionsTakeEffect decode isOpen endpoint request ↔
          Refused decode isOpen request ∨ HonoursOptions decode request)) :
    OptionsTakeEffect decode isOpen endpoint request ↔
      Refused decode isOpen request ∨ HonoursOptions decode request := by
  cases hfilter : protoFilterToBson decode request.filter with
  | error status => exact takeEffect_of_filter hfilter
  | ok filter =>
    by_cases hrefused : UpdateRefused decode data
    · exact takeEffect_of_update hfilter hdata hrefused
    · simp only [UpdateRefused, not_forall, Bool.not_eq_false] at hrefused
      obtain ⟨change, hchange, hmodifier⟩ := hrefused
      exact hdecoded filter change hfilter hchange hmodifier

theorem not_updateRefused {data : Option (List UInt8)} {change : Document}
    (hchange : updateDocument decode data = .ok change) (hmodifier : hasModifier change = true) :
    ¬ UpdateRefused decode data := fun hrefused ↦ by
  rw [hrefused change hchange] at hmodifier
  cases hmodifier

theorem takeEffect_update (request : UpdateRequest) :
    OptionsTakeEffect decode isOpen endpoint (.update request) ↔
      Refused decode isOpen (.update request) ∨ HonoursOptions decode (.update request) := by
  refine takeEffect_of_decoded rfl fun filter change hfilter hupdate hmodifier ↦ ?_
  simp only [CrudRequest.filter] at hfilter
  have hrequested : requested decode (.update request) =
      .ok (.updateOne filter change request.upsert) := by
    simp only [requested, hfilter, hupdate]
    rfl
  have hperformed {id : Option String}
      (hasked : asked decode isOpen .rpc (.update request) = .ok
        ⟨id, request.database, request.collection, .updateOne filter change false⟩)
      (hopen : ¬ NotOpen isOpen request.transactionId) :
      OptionsTakeEffect decode isOpen endpoint (.update request) ↔
        Refused decode isOpen (.update request) ∨ HonoursOptions decode (.update request) := by
    apply takeEffect_of_ok hasked
    · simp [driverRefusal?, isRead, updateOf?, hmodifier]
    · simp [Refused, hfilter, not_updateRefused hupdate hmodifier, hopen, Except.isOk,
        Except.toBool]
    · simp [HonoursOptions, hrequested, updateOne_equivalent_iff]
  cases hid : request.transactionId with
  | none =>
    apply hperformed
    · simp only [asked, update, hfilter, hupdate, hid]
      rfl
    · simp [hid, NotOpen]
  | some id =>
    cases hopen : isOpen id with
    | false =>
      apply takeEffect_of_error
      · simp only [asked, update, hfilter, hupdate, hid, inTransaction, hopen]
        rfl
      · exact .inr (.inr ⟨id, hid, hopen⟩)
    | true =>
      apply hperformed
      · simp only [asked, update, hfilter, hupdate, hid, inTransaction, hopen]
        rfl
      · simp [hid, NotOpen, hopen]

theorem takeEffect_updateMany (request : UpdateRequest) :
    OptionsTakeEffect decode isOpen endpoint (.updateMany request) ↔
      Refused decode isOpen (.updateMany request) ∨
        HonoursOptions decode (.updateMany request) := by
  refine takeEffect_of_decoded rfl fun filter change hfilter hupdate hmodifier ↦ ?_
  simp only [CrudRequest.filter] at hfilter
  have hrequested : requested decode (.updateMany request) =
      .ok (.updateMany filter change request.upsert) := by
    simp only [requested, hfilter, hupdate]
    rfl
  apply takeEffect_of_ok
  · simp only [asked, updateMany, hfilter, hupdate]
    rfl
  · simp [driverRefusal?, isRead, updateOf?, hmodifier]
  · simp [Refused, hfilter, not_updateRefused hupdate hmodifier, Except.isOk, Except.toBool]
  · simp [HonoursOptions, hrequested, updateMany_equivalent_iff]

/-- The options of a find-and-modify are those that it asks for, if its sort decodes. -/
theorem modification_eq {message : Option FindAndModifyOptionsMessage}
    {options : FindAndModifyOptions} (h : requestedModification decode message = .ok options) :
    (message.map (convertFindAndModifyOptions decode)).getD {} = options := by
  cases message with
  | none => exact Except.ok.inj h
  | some message =>
    rw [requestedModification] at h
    cases hsort : optionalDocument decode message.sort with
    | error status => rw [hsort] at h; cases h
    | ok sort =>
      rw [hsort] at h
      rw [← Except.ok.inj h]
      have hconverted : (message.sort.bind fun data ↦
          if data.isEmpty then none else (decodeBson decode data).toOption) = sort := by
        cases hdata : message.sort with
        | none =>
          rw [hdata] at hsort
          exact Except.ok.inj hsort
        | some data =>
          rw [hdata, optionalDocument] at hsort
          rw [Option.bind_some]
          split at hsort
          · rename_i hempty
            rw [if_pos hempty]
            exact Except.ok.inj hsort
          · rename_i hempty
            rw [if_neg hempty]
            cases hdecode : decodeBson decode data with
            | error status => rw [hdecode] at hsort; cases hsort
            | ok document => rw [hdecode] at hsort; exact Except.ok.inj hsort
      rw [Option.map_some, Option.getD_some, convertFindAndModifyOptions, hconverted]

theorem takeEffect_findAndModify (request : FindAndModifyRequest) :
    OptionsTakeEffect decode isOpen endpoint (.findAndModify request) ↔
      Refused decode isOpen (.findAndModify request) ∨
        HonoursOptions decode (.findAndModify request) := by
  refine takeEffect_of_decoded rfl fun filter change hfilter hupdate hmodifier ↦ ?_
  simp only [CrudRequest.filter] at hfilter
  apply takeEffect_of_ok
  · simp only [asked, findAndModify, hfilter, hupdate]
    rfl
  · simp [driverRefusal?, isRead, updateOf?, hmodifier]
  · simp [Refused, hfilter, not_updateRefused hupdate hmodifier, Except.isOk, Except.toBool]
  · cases hoptions : requestedModification decode request.options with
    | error status =>
      have hrequested : requested decode (.findAndModify request) = .error status := by
        simp only [requested, hfilter, hupdate, hoptions]
        rfl
      simp [HonoursOptions, hoptions, hrequested, Except.isOk, Except.toBool]
    | ok options =>
      have hrequested : requested decode (.findAndModify request) =
          .ok (.findOneAndUpdate filter change options) := by
        simp only [requested, hfilter, hupdate, hoptions]
        rfl
      refine iff_of_true ⟨_, hrequested, .inl ?_⟩ ?_
      · rw [modification_eq hoptions]
      · rw [HonoursOptions, hoptions]
        rfl

/-- Every option of a request takes effect if and only if the request is refused, or its call can
honour its options. -/
theorem optionsTakeEffect_iff (decode : List UInt8 → Except String Document)
    (isOpen : String → Bool) (endpoint : Endpoint) (request : CrudRequest) :
    OptionsTakeEffect decode isOpen endpoint request ↔
      Refused decode isOpen request ∨ HonoursOptions decode request := by
  cases request with
  | find request => exact takeEffect_find request
  | findOne request => exact takeEffect_findOne request
  | update request => exact takeEffect_update request
  | updateMany request => exact takeEffect_updateMany request
  | findAndModify request => exact takeEffect_findAndModify request

/-! ## An update with an upsert -/

def upsertRequest : UpdateRequest where
  database := "d"
  collection := "c"
  update := some setUpdate
  upsert := true

/-- The update is performed without its upsert: where nothing is selected, nothing is inserted. -/
theorem upsert_ignored :
    serve decodeFormat (fun _ ↦ false) .rpc (.update upsertRequest) = .ok
        ⟨none, "d", "c", .updateOne [] [("$set", .document [("a", .boolean true)])] false⟩ ∧
      (∀ language : QueryLanguage, (language.updateOne []
        [("$set", .document [("a", .boolean true)])] false []).2 = []) ∧
      ¬ OptionsTakeEffect decodeFormat (fun _ ↦ false) .rpc (.update upsertRequest) := by
  refine ⟨rfl, fun language ↦ ?_, ?_⟩
  · have hselection : language.selection [] [] [] = [] := language.sorted_nil []
    simp [QueryLanguage.updateOne, hselection]
  · intro h
    obtain ⟨command, hcommand, hequivalent⟩ := h _ rfl
    cases hcommand
    have hfalse := (updateOne_equivalent_iff _ _ true).mp hequivalent
    cases hfalse

/-! ## Finds in a transaction -/

/-- The answer to a request on a collection in a given state. -/
noncomputable def answer (language : QueryLanguage) (documents : List Document) :
    Except Refusal Performed → Except Refusal (Option DriverReply)
  | .ok performed => .ok ((language.run performed.request.command documents).map Prod.fst)
  | .error refusal => .error refusal

/-- A find in an open transaction, whose snapshot is some state of the collection, returns what the
same find returns outside on that state. -/
def SameInTransaction (decode : List UInt8 → Except String Document) (endpoint : Endpoint)
    (request : FindRequest) : Prop :=
  ∀ (isOpen : String → Bool) (id : String), isOpen id = true →
    ∀ (language : QueryLanguage) (documents : List Document),
      answer language documents (serve decode isOpen endpoint
          (.find { request with transactionId := some id })) =
        answer language documents (serve decode isOpen endpoint
          (.find { request with transactionId := none }))

theorem asked_find (request : FindRequest) :
    asked decode isOpen endpoint (.find request) = find decode isOpen request := asked_eq ..

/-- In a transaction the driver refuses every find that is asked for. -/
theorem serve_find_in_transaction {request : FindRequest} {filter : Document}
    {options : Option FindOptions} (hfilter : protoFilterToBson decode request.filter = .ok filter)
    (hoptions : convertFindOptions decode request.options = .ok options) {id : String}
    (hopen : isOpen id = true) :
    serve decode isOpen endpoint (.find { request with transactionId := some id }) =
      .error (.driver .readPreferenceInTransaction) := by
  simp only [serve, asked_find, find, hfilter, hoptions, inTransaction, hopen]
  rfl

/-- A find means the same in a transaction as outside if and only if it is refused in both. -/
theorem sameInTransaction_iff (decode : List UInt8 → Except String Document) (endpoint : Endpoint)
    (request : FindRequest) :
    SameInTransaction decode endpoint request ↔
      (protoFilterToBson decode request.filter).isOk = false ∨
        (convertFindOptions decode request.options).isOk = false := by
  cases hfilter : protoFilterToBson decode request.filter with
  | error status =>
    refine iff_of_true (fun isOpen id _ language documents ↦ ?_) (.inl rfl)
    simp only [serve, asked_find, find, hfilter]
    rfl
  | ok filter =>
    cases hoptions : convertFindOptions decode request.options with
    | error status =>
      refine iff_of_true (fun isOpen id _ language documents ↦ ?_) (.inr rfl)
      simp only [serve, asked_find, find, hfilter, hoptions]
      rfl
    | ok options =>
      refine iff_of_false (fun h ↦ ?_) (by simp [Except.isOk, Except.toBool])
      have hsame := h (fun _ ↦ true) "" rfl .everything []
      rw [serve_find_in_transaction hfilter hoptions rfl] at hsame
      have houtside : serve decode (fun _ ↦ true) endpoint
          (.find { request with transactionId := none }) = .ok
            ⟨none, request.database, request.collection,
              .find filter (driverOptions options)⟩ := by
        simp only [serve, asked_find, find, hfilter, hoptions]
        rfl
      rw [houtside] at hsame
      cases hsame

/-- A find without a filter and without options. -/
def findAll : FindRequest where
  database := "d"
  collection := "c"

/-- On two documents, the find returns both outside of a transaction, and is refused in one. -/
theorem find_refused_in_transaction :
    serve decodeFormat (fun _ ↦ true) .rpc (.find { findAll with transactionId := some "t" }) =
        .error (.driver .readPreferenceInTransaction) ∧
      answer .everything [[], []] (serve decodeFormat (fun _ ↦ true) .rpc (.find findAll)) =
        .ok (some (.documents [[], []])) ∧
      ¬ SameInTransaction decodeFormat .rpc findAll := by
  refine ⟨rfl, rfl, fun h ↦ ?_⟩
  have hsame : (.error (.driver .readPreferenceInTransaction) :
      Except Refusal (Option DriverReply)) = .ok (some (.documents [[], []])) :=
    h (fun _ ↦ true) "t" rfl .everything [[], []]
  cases hsame

end MongoCore.Grpc.Crud
