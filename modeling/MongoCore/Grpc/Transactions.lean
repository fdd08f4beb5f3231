import MongoCore.Library.TransitionSystem
import Mathlib.Logic.Function.Basic

/-!
# Transaction ids in the gRPC service

The service keeps its open transactions in a table by id.  A request may carry the id of one of
them.  Every handler decides on its own whether to look at it, in the stand-alone calls as well as
in the operations of a pipeline call: some look the session up and run the operation in it, others
run every operation outside of any transaction.

The database is a `Backend`: an operation run in a session changes the session only, and the
outcome of every operation also depends on a choice of the environment.  The service is a
transition system whose events are the requests, in the order in which they take effect.
-/

namespace MongoCore.Grpc.Transactions

open MongoCore.Library.TransitionSystem

/-! ## Statuses and requests -/

/-- The codes of the statuses that occur here. -/
inductive Code where
  | invalidArgument
  | notFound
  | internal
  deriving DecidableEq, Repr

/-- The status of a call that fails. -/
structure Status where
  code : Code
  message : String
  deriving DecidableEq, Repr

/-- The status of a request that names no open transaction. -/
def transactionNotFound (id : String) : Status where
  code := .notFound
  message := s!"Transaction not found: {id}"

/-- A request for one operation: the id of a transaction it may carry, and the decoded operation
or the status of the failed decoding. -/
structure CrudRequest (Op : Type) where
  transactionId : Option String
  decoded : Except Status Op
  deriving Repr

/-- The operations of a stand-alone call that can carry a transaction id. -/
inductive Rpc where
  | find | findOne | insert | insertMany | update | updateMany | delete | deleteMany
  | findAndModify | aggregate | findStream | aggregateStream
  deriving DecidableEq, Repr

/-- The operations of a pipeline call that can carry a transaction id. -/
inductive PipelineOp where
  | find | findOne | insert | insertMany | update | updateMany | delete | deleteMany
  | aggregate | findAndModify
  deriving DecidableEq, Repr

inductive Endpoint where
  | rpc (rpc : Rpc)
  | pipeline (op : PipelineOp)
  deriving DecidableEq, Repr

/-! ## The database and the service -/

/-- A database with sessions.  `Choice` is what the environment contributes to an outcome.  An
operation in a session sees the database and the session, and changes the session. -/
structure Backend (Db Session Op Reply Choice : Type) where
  run : Choice → Op → Db → Db × Except Status Reply
  runIn : Choice → Op → Db → Session → Session × Except Status Reply
  begin_ : Choice → Db → Except Status Session
  commit : Choice → Db → Session → Db × Except Status Unit
  abort : Choice → Db → Session → Except Status Unit

inductive Answer (Reply : Type) where
  | failed (status : Status)
  | reply (reply : Reply)
  | begun (id : String)
  | done
  deriving DecidableEq, Repr

/-- One request, with the choices of the environment.  The id of a new transaction is drawn when
it begins. -/
inductive Request (Op Choice : Type) where
  | crud (endpoint : Endpoint) (request : CrudRequest Op) (choice : Choice)
  | other (op : Op) (choice : Choice)
  | begin_ (id : String) (choice : Choice)
  | commit (id : String) (choice : Choice)
  | abort (id : String) (choice : Choice)

/-- The database, the table of open transactions, and the requests answered so far. -/
structure State (Db Session Op Reply Choice : Type) where
  db : Db
  transactions : String → Option Session
  answers : List (Request Op Choice × Answer Reply)

variable {Db Session Op Reply Choice : Type} (backend : Backend Db Session Op Reply Choice)

def Answer.ofResult : Except Status Reply → Answer Reply
  | .error status => .failed status
  | .ok value => .reply value

def runOutside (s : State Db Session Op Reply Choice) (op : Op) (choice : Choice) :
    State Db Session Op Reply Choice × Answer Reply :=
  let (db, result) := backend.run choice op s.db
  ({ s with db := db }, .ofResult result)

/-- The handlers that look the transaction id up. -/
def withSession (s : State Db Session Op Reply Choice) (request : CrudRequest Op)
    (choice : Choice) : State Db Session Op Reply Choice × Answer Reply :=
  match request.decoded with
  | .error status => (s, .failed status)
  | .ok op =>
      match request.transactionId with
      | none => runOutside backend s op choice
      | some id =>
          match s.transactions id with
          | none => (s, .failed (transactionNotFound id))
          | some session =>
              let (next, result) := backend.runIn choice op s.db session
              ({ s with transactions := Function.update s.transactions id (some next) },
                .ofResult result)

/-- The handlers that do not look at the transaction id. -/
def withoutSession (s : State Db Session Op Reply Choice) (request : CrudRequest Op)
    (choice : Choice) : State Db Session Op Reply Choice × Answer Reply :=
  match request.decoded with
  | .error status => (s, .failed status)
  | .ok op => runOutside backend s op choice

abbrev Handler (Db Session Op Reply Choice : Type) : Type :=
  State Db Session Op Reply Choice → CrudRequest Op → Choice →
    State Db Session Op Reply Choice × Answer Reply

/-! ### Stand-alone calls -/

def find : Handler Db Session Op Reply Choice := withSession backend
def findOne : Handler Db Session Op Reply Choice := withoutSession backend
def insert : Handler Db Session Op Reply Choice := withSession backend
def insertMany : Handler Db Session Op Reply Choice := withoutSession backend
def update : Handler Db Session Op Reply Choice := withSession backend
def updateMany : Handler Db Session Op Reply Choice := withoutSession backend
def delete : Handler Db Session Op Reply Choice := withSession backend
def deleteMany : Handler Db Session Op Reply Choice := withoutSession backend
def findAndModify : Handler Db Session Op Reply Choice := withoutSession backend
def aggregate : Handler Db Session Op Reply Choice := withoutSession backend
def findStream : Handler Db Session Op Reply Choice := withoutSession backend
def aggregateStream : Handler Db Session Op Reply Choice := withoutSession backend

/-! ### Operations of a pipeline call -/

def pipelineFind : Handler Db Session Op Reply Choice := withSession backend
def pipelineFindOne : Handler Db Session Op Reply Choice := withoutSession backend
def pipelineInsert : Handler Db Session Op Reply Choice := withSession backend
def pipelineInsertMany : Handler Db Session Op Reply Choice := withoutSession backend
def pipelineUpdate : Handler Db Session Op Reply Choice := withSession backend
def pipelineUpdateMany : Handler Db Session Op Reply Choice := withoutSession backend
def pipelineDelete : Handler Db Session Op Reply Choice := withSession backend
def pipelineDeleteMany : Handler Db Session Op Reply Choice := withoutSession backend
def pipelineAggregate : Handler Db Session Op Reply Choice := withoutSession backend
def pipelineFindAndModify : Handler Db Session Op Reply Choice := withoutSession backend

def handler : Endpoint → Handler Db Session Op Reply Choice
  | .rpc .find => find backend
  | .rpc .findOne => findOne backend
  | .rpc .insert => insert backend
  | .rpc .insertMany => insertMany backend
  | .rpc .update => update backend
  | .rpc .updateMany => updateMany backend
  | .rpc .delete => delete backend
  | .rpc .deleteMany => deleteMany backend
  | .rpc .findAndModify => findAndModify backend
  | .rpc .aggregate => aggregate backend
  | .rpc .findStream => findStream backend
  | .rpc .aggregateStream => aggregateStream backend
  | .pipeline .find => pipelineFind backend
  | .pipeline .findOne => pipelineFindOne backend
  | .pipeline .insert => pipelineInsert backend
  | .pipeline .insertMany => pipelineInsertMany backend
  | .pipeline .update => pipelineUpdate backend
  | .pipeline .updateMany => pipelineUpdateMany backend
  | .pipeline .delete => pipelineDelete backend
  | .pipeline .deleteMany => pipelineDeleteMany backend
  | .pipeline .aggregate => pipelineAggregate backend
  | .pipeline .findAndModify => pipelineFindAndModify backend

/-! ### Transactions -/

def beginTransaction (s : State Db Session Op Reply Choice) (id : String) (choice : Choice) :
    State Db Session Op Reply Choice × Answer Reply :=
  match backend.begin_ choice s.db with
  | .error status => (s, .failed status)
  | .ok session =>
      ({ s with transactions := Function.update s.transactions id (some session) }, .begun id)

/-- Commit a transaction; its id is gone even if that fails. -/
def commitTransaction (s : State Db Session Op Reply Choice) (id : String) (choice : Choice) :
    State Db Session Op Reply Choice × Answer Reply :=
  match s.transactions id with
  | none => (s, .failed (transactionNotFound id))
  | some session =>
      let removed := { s with transactions := Function.update s.transactions id none }
      let (db, result) := backend.commit choice s.db session
      match result with
      | .error status => ({ removed with db := db }, .failed status)
      | .ok () => ({ removed with db := db }, .done)

/-- Abort a transaction; its id is gone even if that fails. -/
def abortTransaction (s : State Db Session Op Reply Choice) (id : String) (choice : Choice) :
    State Db Session Op Reply Choice × Answer Reply :=
  match s.transactions id with
  | none => (s, .failed (transactionNotFound id))
  | some session =>
      let removed := { s with transactions := Function.update s.transactions id none }
      match backend.abort choice s.db session with
      | .error status => (removed, .failed status)
      | .ok () => (removed, .done)

def serve (s : State Db Session Op Reply Choice) :
    Request Op Choice → State Db Session Op Reply Choice × Answer Reply
  | .crud endpoint request choice => handler backend endpoint s request choice
  | .other op choice => runOutside backend s op choice
  | .begin_ id choice => beginTransaction backend s id choice
  | .commit id choice => commitTransaction backend s id choice
  | .abort id choice => abortTransaction backend s id choice

/-- One step of the service: a request is answered, and the answer recorded. -/
def step (s : State Db Session Op Reply Choice) (request : Request Op Choice) :
    Option (State Db Session Op Reply Choice) :=
  let (next, answer) := serve backend s request
  some { next with answers := s.answers ++ [(request, answer)] }

end MongoCore.Grpc.Transactions
