import MongoCore.Grpc.Transactions

/-!
# Isolation of transactions

A request that carries a transaction id should run in the session of that transaction or be
rejected.  Eight of the twelve stand-alone calls and six of the ten pipeline operations ignore the
id and run in the open.

The main result is about whole runs.  If every request that carries an id goes to an endpoint that
looks at it, or cannot be decoded, then each such request is respected, and the run looks from
outside as if a transaction that is not committed had never been mentioned: the database, the
other transactions and the other answers are those of the run without the requests that name it.
-/

namespace MongoCore.Grpc.TransactionIsolation

open MongoCore.Library.TransitionSystem MongoCore.Grpc.Transactions

variable {Db Session Op Reply Choice : Type} (backend : Backend Db Session Op Reply Choice)

/-! ## What a request with an id is promised -/

def LooksAtId : Endpoint → Prop
  | .rpc rpc => rpc = .find ∨ rpc = .insert ∨ rpc = .update ∨ rpc = .delete
  | .pipeline op => op = .find ∨ op = .insert ∨ op = .update ∨ op = .delete

/-- A request that can be decoded carries an id only to an endpoint that looks at it. -/
def Honoured : Request Op Choice → Prop
  | .crud endpoint request _ =>
      ∀ op, request.decoded = .ok op → request.transactionId ≠ none → LooksAtId endpoint
  | _ => True

def named : Request Op Choice → Option String
  | .crud _ request _ => request.transactionId
  | .other _ _ => none
  | .begin_ id _ | .commit id _ | .abort id _ => some id

/-- The operation ran in the open session with this id, and nothing else changed. -/
def RanIn (id : String) (s : State Db Session Op Reply Choice) (request : CrudRequest Op)
    (choice : Choice) (outcome : State Db Session Op Reply Choice × Answer Reply) : Prop :=
  ∃ op session, request.decoded = .ok op ∧ s.transactions id = some session ∧
    let (next, result) := backend.runIn choice op s.db session
    outcome = ({ s with transactions := Function.update s.transactions id (some next) },
      .ofResult result)

/-- The request was rejected, and nothing changed. -/
def Rejected (s : State Db Session Op Reply Choice)
    (outcome : State Db Session Op Reply Choice × Answer Reply) : Prop :=
  ∃ status, outcome = (s, .failed status)

/-- A request with an id runs in the session of exactly that open transaction, or it is rejected
and changes nothing. -/
def Respected (s : State Db Session Op Reply Choice) : Request Op Choice → Prop
  | .crud endpoint request choice => ∀ id, request.transactionId = some id →
      RanIn backend id s request choice (handler backend endpoint s request choice) ∨
        Rejected s (handler backend endpoint s request choice)
  | _ => True

/-! ## The handlers -/

theorem handler_of_looksAtId {endpoint : Endpoint} (h : LooksAtId endpoint) :
    handler backend endpoint = withSession backend := by
  cases endpoint with
  | rpc rpc => rcases h with rfl | rfl | rfl | rfl <;> rfl
  | pipeline op => rcases h with rfl | rfl | rfl | rfl <;> rfl

theorem handler_of_not_looksAtId {endpoint : Endpoint} (h : ¬ LooksAtId endpoint) :
    handler backend endpoint = withoutSession backend := by
  cases endpoint with
  | rpc rpc => cases rpc <;> first | rfl | exact absurd h (by simp [LooksAtId])
  | pipeline op => cases op <;> first | rfl | exact absurd h (by simp [LooksAtId])

/-- An endpoint that does not look at the id answers as if the request carried none. -/
theorem handler_ignores_id {endpoint : Endpoint} (h : ¬ LooksAtId endpoint)
    (s : State Db Session Op Reply Choice) (request : CrudRequest Op) (choice : Choice) :
    handler backend endpoint s request choice =
      handler backend endpoint s { request with transactionId := none } choice := by
  rw [handler_of_not_looksAtId backend h]
  rfl

/-- A handler rejects what cannot be decoded. -/
theorem handler_of_decodeError (endpoint : Endpoint) (s : State Db Session Op Reply Choice)
    {request : CrudRequest Op} {status : Status} (h : request.decoded = .error status)
    (choice : Choice) : handler backend endpoint s request choice = (s, .failed status) := by
  by_cases hlooks : LooksAtId endpoint
  · rw [handler_of_looksAtId backend hlooks]
    simp only [withSession, h]
  · rw [handler_of_not_looksAtId backend hlooks]
    simp only [withoutSession, h]

/-- Without an id, every handler runs the operation outside of any transaction. -/
theorem handler_of_noId (endpoint : Endpoint) (s : State Db Session Op Reply Choice)
    {request : CrudRequest Op} {op : Op} (hdecoded : request.decoded = .ok op)
    (hid : request.transactionId = none) (choice : Choice) :
    handler backend endpoint s request choice = runOutside backend s op choice := by
  by_cases hlooks : LooksAtId endpoint
  · rw [handler_of_looksAtId backend hlooks]
    simp only [withSession, hdecoded, hid]
  · rw [handler_of_not_looksAtId backend hlooks]
    simp only [withoutSession, hdecoded]

/-- What a handler does that looks the id up. -/
theorem withSession_of_id (s : State Db Session Op Reply Choice) {request : CrudRequest Op}
    {id : String} (hid : request.transactionId = some id) (choice : Choice) :
    RanIn backend id s request choice (withSession backend s request choice) ∨
      Rejected s (withSession backend s request choice) := by
  unfold withSession
  cases hdecoded : request.decoded with
  | error status => exact .inr ⟨status, rfl⟩
  | ok op =>
    simp only [hid]
    cases hsession : s.transactions id with
    | none => exact .inr ⟨transactionNotFound id, rfl⟩
    | some session => exact .inl ⟨op, session, hdecoded, hsession, rfl⟩

/-- An honoured request is respected in every state. -/
theorem respected_of_honoured (s : State Db Session Op Reply Choice)
    {request : Request Op Choice} (h : Honoured request) : Respected backend s request := by
  cases request with
  | crud endpoint request choice =>
    intro id hid
    cases hdecoded : request.decoded with
    | error status =>
      rw [handler_of_decodeError backend endpoint s hdecoded]
      exact .inr ⟨status, rfl⟩
    | ok op =>
      have hlooks : LooksAtId endpoint := h op hdecoded (by simp [hid])
      rw [handler_of_looksAtId backend hlooks]
      exact withSession_of_id backend s hid choice
  | other => exact True.intro
  | begin_ => exact True.intro
  | commit => exact True.intro
  | abort => exact True.intro

/-! ## The same run without a transaction -/

/-- Two states that agree outside of a transaction: on the database, on the other transactions,
and on the answers to the requests that do not name it. -/
structure AgreeOutside (id : String) (s other : State Db Session Op Reply Choice) : Prop where
  db : s.db = other.db
  transactions : ∀ name, name ≠ id → s.transactions name = other.transactions name
  answers : s.answers.filter (fun entry ↦ named entry.1 ≠ some id) = other.answers

/-- A step that commits no open transaction with this id. -/
def CommitsNot (id : String) (s : State Db Session Op Reply Choice) :
    Request Op Choice → Prop
  | .commit name _ => name = id → s.transactions id = none
  | _ => True

/-- What a request that names a transaction changes, if it is honoured and does not commit. -/
theorem serve_of_named (s : State Db Session Op Reply Choice) {request : Request Op Choice}
    {id : String} (hnamed : named request = some id) (hhonoured : Honoured request)
    (hcommit : CommitsNot id s request) :
    (serve backend s request).1.db = s.db ∧
      ∀ name, name ≠ id →
        (serve backend s request).1.transactions name = s.transactions name := by
  cases request with
  | crud endpoint request choice =>
    have hrespected : RanIn backend id s request choice (handler backend endpoint s request choice)
        ∨ Rejected s (handler backend endpoint s request choice) :=
      respected_of_honoured backend s hhonoured id hnamed
    rcases hrespected with ⟨op, session, -, -, hran⟩ | ⟨status, hrejected⟩
    · simp only [serve, hran]
      exact ⟨trivial, fun name hname ↦ Function.update_of_ne hname _ _⟩
    · simp only [serve, hrejected]
      exact ⟨trivial, fun _ _ ↦ trivial⟩
  | other op choice => cases hnamed
  | begin_ fresh choice =>
    obtain rfl : fresh = id := Option.some.inj hnamed
    cases hbegin : backend.begin_ choice s.db with
    | error status =>
      simp only [serve, beginTransaction, hbegin]
      exact ⟨trivial, fun _ _ ↦ trivial⟩
    | ok session =>
      simp only [serve, beginTransaction, hbegin]
      exact ⟨trivial, fun name hname ↦ Function.update_of_ne hname _ _⟩
  | commit closed choice =>
    obtain rfl : closed = id := Option.some.inj hnamed
    have hclosed : s.transactions closed = none := hcommit rfl
    simp only [serve, commitTransaction, hclosed]
    exact ⟨trivial, fun _ _ ↦ trivial⟩
  | abort closed choice =>
    obtain rfl : closed = id := Option.some.inj hnamed
    cases hsession : s.transactions closed with
    | none =>
      simp only [serve, abortTransaction, hsession]
      exact ⟨trivial, fun _ _ ↦ trivial⟩
    | some session =>
      cases habort : backend.abort choice s.db session <;>
        simp only [serve, abortTransaction, hsession, habort] <;>
        exact ⟨trivial, fun name hname ↦ Function.update_of_ne hname _ _⟩

/-- Updating the same name on both sides keeps two tables equal outside of another. -/
theorem update_agree {id name : String} {table other : String → Option Session}
    (h : ∀ name, name ≠ id → table name = other name) (session : Option Session) :
    ∀ probe, probe ≠ id →
      Function.update table name session probe = Function.update other name session probe := by
  intro probe hprobe
  by_cases hname : probe = name
  · rw [hname, Function.update_self, Function.update_self]
  · rw [Function.update_of_ne hname, Function.update_of_ne hname]
    exact h probe hprobe

/-- A request that does not name the transaction cannot tell the two states apart. -/
theorem serve_of_not_named {s other : State Db Session Op Reply Choice}
    {request : Request Op Choice} {id : String} (hnamed : named request ≠ some id)
    (hdb : s.db = other.db)
    (htransactions : ∀ name, name ≠ id → s.transactions name = other.transactions name) :
    (serve backend s request).2 = (serve backend other request).2 ∧
      (serve backend s request).1.db = (serve backend other request).1.db ∧
      ∀ name, name ≠ id → (serve backend s request).1.transactions name =
        (serve backend other request).1.transactions name := by
  have hopen : ∀ {name}, named request = some name →
      s.transactions name = other.transactions name := fun {name} hname ↦
    htransactions name fun heq ↦ hnamed (hname.trans (congrArg some heq))
  cases request with
  | crud endpoint request choice =>
    cases hdecoded : request.decoded with
    | error status =>
      simp only [serve, handler_of_decodeError backend endpoint _ hdecoded]
      exact ⟨trivial, hdb, htransactions⟩
    | ok op =>
      by_cases hlooks : LooksAtId endpoint
      · simp only [serve, handler_of_looksAtId backend hlooks, withSession, hdecoded]
        cases hid : request.transactionId with
        | none =>
          simp only [runOutside, hdb]
          exact ⟨trivial, trivial, htransactions⟩
        | some name =>
          simp only [hopen hid]
          cases other.transactions name with
          | none => exact ⟨rfl, hdb, htransactions⟩
          | some session =>
            simp only [hdb]
            exact ⟨trivial, trivial, update_agree htransactions _⟩
      · simp only [serve, handler_of_not_looksAtId backend hlooks, withoutSession, hdecoded,
          runOutside, hdb]
        exact ⟨trivial, trivial, htransactions⟩
  | other op choice =>
    simp only [serve, runOutside, hdb]
    exact ⟨trivial, trivial, htransactions⟩
  | begin_ fresh choice =>
    cases hbegin : backend.begin_ choice other.db with
    | error status =>
      simp only [serve, beginTransaction, hdb, hbegin]
      exact ⟨trivial, trivial, htransactions⟩
    | ok session =>
      simp only [serve, beginTransaction, hdb, hbegin]
      exact ⟨trivial, trivial, update_agree htransactions _⟩
  | commit closed choice =>
    cases hsession : other.transactions closed with
    | none =>
      simp only [serve, commitTransaction, hopen rfl, hsession]
      exact ⟨trivial, hdb, htransactions⟩
    | some session =>
      cases hcommit : (backend.commit choice other.db session).2 <;>
        simp only [serve, commitTransaction, hopen rfl, hsession, hdb, hcommit] <;>
        exact ⟨trivial, trivial, update_agree htransactions _⟩
  | abort closed choice =>
    cases hsession : other.transactions closed with
    | none =>
      simp only [serve, abortTransaction, hopen rfl, hsession]
      exact ⟨trivial, hdb, htransactions⟩
    | some session =>
      cases habort : backend.abort choice other.db session <;>
        simp only [serve, abortTransaction, hopen rfl, hsession, hdb, habort] <;>
        exact ⟨trivial, trivial, update_agree htransactions _⟩

/-- Recording an answer keeps the agreement, whether or not the request names the transaction. -/
theorem agreeOutside_erased {id : String} {s other next : State Db Session Op Reply Choice}
    {request : Request Op Choice} (h : AgreeOutside id s other) (hhonoured : Honoured request)
    (hcommit : CommitsNot id s request) (hnamed : named request = some id)
    (hstep : step backend s request = some next) : AgreeOutside id next other := by
  obtain rfl := Option.some.inj hstep
  obtain ⟨hdb, htransactions⟩ := serve_of_named backend s hnamed hhonoured hcommit
  refine ⟨hdb.trans h.db, fun name hname ↦ ?_, ?_⟩
  · exact (htransactions name hname).trans (h.transactions name hname)
  · have hlast : ∀ answer, [(request, answer)].filter
        (fun entry : Request Op Choice × Answer Reply ↦ named entry.1 ≠ some id) = [] := by
      intro answer
      simp [hnamed]
    rw [List.filter_append, hlast, List.append_nil]
    exact h.answers

theorem agreeOutside_kept {id : String} {s other next : State Db Session Op Reply Choice}
    {request : Request Op Choice} (h : AgreeOutside id s other)
    (hnamed : named request ≠ some id) (hstep : step backend s request = some next) :
    ∃ otherNext, step backend other request = some otherNext ∧
      AgreeOutside id next otherNext := by
  obtain rfl := Option.some.inj hstep
  obtain ⟨hanswer, hdb, htransactions⟩ :=
    serve_of_not_named backend hnamed h.db h.transactions
  refine ⟨_, rfl, hdb, htransactions, ?_⟩
  have hlast : ∀ answer, [(request, answer)].filter
      (fun entry : Request Op Choice × Answer Reply ↦ named entry.1 ≠ some id) =
        [(request, answer)] := by
    intro answer
    simp [hnamed]
  rw [List.filter_append, hlast, h.answers]
  exact congrArg (fun answer ↦ other.answers ++ [(request, answer)]) hanswer

/-! ## Whole runs -/

/-- A service that has answered nothing yet. -/
def start (db : Db) (transactions : String → Option Session) :
    State Db Session Op Reply Choice :=
  ⟨db, transactions, []⟩

/-- A run without the requests that name a transaction. -/
def withoutTransaction (id : String) (requests : List (Request Op Choice)) :
    List (Request Op Choice) :=
  requests.filter fun request ↦ ¬ named request = some id

/-- If every request of a run is honoured, then every request with an id is respected when its
turn comes.  And for a transaction that the run does not commit, the run without the requests that
name it ends in the same database, with the same other transactions and the same other answers.
A prefix of a run is a run, so until it is committed nothing of a transaction can be seen. -/
theorem transactions_isolated_of_honoured (db : Db) (transactions : String → Option Session)
    {requests : List (Request Op Choice)} {final : State Db Session Op Reply Choice}
    (hhonoured : ∀ request ∈ requests, Honoured request)
    (hrun : run (step backend) (start db transactions) requests = some final) :
    StepsMeet (step backend) (Respected backend) (start db transactions) requests ∧
      ∀ id, StepsMeet (step backend) (CommitsNot id) (start db transactions) requests →
        ∃ other, run (step backend) (start db transactions) (withoutTransaction id requests) =
          some other ∧ AgreeOutside id final other := by
  constructor
  · exact StepsMeet.of_forall fun s request hrequest ↦
      respected_of_honoured backend s (hhonoured request hrequest)
  · intro id hcommits
    have hmeet : StepsMeet (step backend)
        (fun s request ↦ Honoured request ∧ CommitsNot id s request)
        (start db transactions) requests :=
      (StepsMeet.of_forall fun _ request hrequest ↦ hhonoured request hrequest).and hcommits
    refine erase_of_run (fun s other request next hrelated hcondition hnamed hstep ↦ ?_)
      (fun s other request next hrelated hcondition hnamed hstep ↦ ?_)
      ⟨rfl, fun _ _ ↦ rfl, rfl⟩ hmeet hrun
    · exact agreeOutside_erased backend hrelated hcondition.1 hcondition.2 hnamed hstep
    · exact agreeOutside_kept backend hrelated hnamed hstep

/-! ## A database of numbers -/

/-- A database that is a list of numbers.  Its one operation inserts a number, and a session is
the list of numbers inserted in it. -/
def numbers : Backend (List ℕ) (List ℕ) ℕ Unit Unit where
  run _ n db := (db ++ [n], .ok ())
  runIn _ n _ session := (session ++ [n], .ok ())
  begin_ _ _ := .ok []
  commit _ db session := (db ++ session, .ok ())
  abort _ _ _ := .ok ()

/-- Begin a transaction, insert a number through an endpoint under its id, and abort it. -/
def insertAndAbort (endpoint : Endpoint) : List (Request ℕ Unit) :=
  [.begin_ "t" (), .crud endpoint ⟨some "t", .ok 7⟩ (), .abort "t" ()]

/-- What is inserted with `insert` is gone after the abort. -/
theorem insert_is_isolated :
    ∃ final, run (step numbers) (start [] fun _ ↦ none) (insertAndAbort (.rpc .insert)) =
        some final ∧ final.db = [] ∧
      ∃ other, run (step numbers) (start [] fun _ ↦ none)
          (withoutTransaction "t" (insertAndAbort (.rpc .insert))) = some other ∧
        AgreeOutside "t" final other := by
  have hhonoured : ∀ request ∈ insertAndAbort (.rpc .insert), Honoured request := by
    simp [insertAndAbort, Honoured, LooksAtId]
  have hcommits : StepsMeet (step numbers) (CommitsNot "t") (start [] fun _ ↦ none)
      (insertAndAbort (.rpc .insert)) :=
    StepsMeet.of_forall fun s request hrequest ↦ by
      simp only [insertAndAbort, List.mem_cons, List.not_mem_nil, or_false] at hrequest
      rcases hrequest with rfl | rfl | rfl <;> trivial
  exact ⟨_, rfl, rfl,
    (transactions_isolated_of_honoured numbers [] (fun _ ↦ none) hhonoured rfl).2 "t" hcommits⟩

/-- What is inserted with `insert_many` is there before the transaction ends, and stays after the
abort. -/
theorem insertMany_survives_abort :
    ¬ Respected numbers (start [] fun name ↦ if name = "t" then some [] else none)
        (.crud (.rpc .insertMany) ⟨some "t", .ok 7⟩ ()) ∧
      (run (step numbers) (start [] fun _ ↦ none) (insertAndAbort (.rpc .insertMany))).map
        State.db = some [7] ∧
      (run (step numbers) (start [] fun _ ↦ none)
        (withoutTransaction "t" (insertAndAbort (.rpc .insertMany)))).map State.db = some [] := by
  refine ⟨fun h ↦ ?_, rfl, rfl⟩
  rcases h "t" rfl with ⟨op, session, -, -, hran⟩ | ⟨status, hrejected⟩
  · cases congrArg (fun outcome ↦ outcome.1.db) hran
  · cases congrArg (fun outcome ↦ outcome.1.db) hrejected

end MongoCore.Grpc.TransactionIsolation
