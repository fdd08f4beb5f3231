import MongoCore.Library.TransitionSystem
import MongoCore.Grpc.Transactions

/-!
# One pipeline call on its task

A pipeline call turns its operations into futures and joins them on the one task of the call.  A
future first acquires a permit of the pipeline semaphore and then executes its operation.  The
operations that write in a transaction lock its entry in the table of transactions, and keep it
locked until the database has answered.  A find only looks the entry up, since the driver refuses it
in a transaction without a wait.

The table is sharded: locking an entry locks its shard.  A call into the table does not suspend
the future, it blocks the thread, and with it the whole task, until the shard is free.

An event polls one future, lets the database answer one future, or lets the deadline of the call
pass.  Other tasks are left out, so whatever blocks a future here is held by the same task.
-/

namespace MongoCore.Grpc.PipelineExecution

open MongoCore.Grpc.Transactions

/-! ## Operations -/

/-- An operation of a pipeline call, as far as the table of transactions is concerned. -/
inductive Operation where
  | crud (op : PipelineOp) (transactionId : Option String) (decodes : Bool)
  | other (awaits : Bool)
  | beginTransaction
  | commitTransaction (id : String)
  | abortTransaction (id : String)
  deriving DecidableEq, Repr

/-- The operations that keep the entry of their transaction locked while they wait. -/
def locksEntry : PipelineOp → Bool
  | .insert | .update | .delete => true
  | .find | .findOne | .insertMany | .updateMany | .deleteMany | .aggregate | .findAndModify => false

/-- What an operation does when it is first executed, up to its first suspension. -/
inductive Entry where
  | returns
  | awaits
  | getMut (id : String)
  | lookUp (id : String)
  | remove (id : String)
  deriving DecidableEq, Repr

def Operation.entry : Operation → Entry
  | .crud _ _ false => .returns
  | .crud _ none true => .awaits
  | .crud op (some id) true =>
      if locksEntry op then .getMut id else if op = .find then .lookUp id else .awaits
  | .other false => .returns
  | .other true => .awaits
  | .beginTransaction => .awaits
  | .commitTransaction id => .remove id
  | .abortTransaction id => .remove id

def Operation.named : Operation → Option String
  | .crud _ transactionId _ => transactionId
  | .other _ => none
  | .beginTransaction => none
  | .commitTransaction id => some id
  | .abortTransaction id => some id

/-! ## The state of the task -/

/-- Where the future of an operation stands. -/
inductive Pc where
  | unpolled
  | queued
  | granted
  | awaiting
  | answered (ok : Bool)
  | blocked (id : String)
  | finished
  deriving DecidableEq, Repr

def Pc.HoldsPermit : Pc → Prop
  | .granted | .awaiting | .answered _ | .blocked _ => True
  | .unpolled | .queued | .finished => False

/-- The future is suspended at the call to the database. -/
def Pc.AtDatabase : Pc → Prop
  | .awaiting | .answered _ => True
  | .unpolled | .queued | .granted | .blocked _ | .finished => False

/-- The futures, the semaphore with its queue, the table of transactions, the locked entries with
the futures that locked them, and whether a future blocks the thread. -/
structure Task where
  pcs : ℕ → Pc
  permits : ℕ
  queue : List ℕ
  isOpen : String → Bool
  guards : List (ℕ × String)
  threadBlocked : Bool

/-- The service as a call finds it: the number of permits, the shards and the open transactions. -/
structure Service where
  maxConcurrency : ℕ
  shardOf : String → ℕ
  isOpen : String → Bool

variable (service : Service) (operations : List Operation)

/-- The largest number of operations in a call. -/
def defaultPipelineMaxOps : ℕ := 10000

/-- The task of a call that is not rejected at once. -/
def pipeline : Except Status Task :=
  if operations.isEmpty then
    .error ⟨.invalidArgument, "Pipeline must contain at least one operation"⟩
  else if operations.length > defaultPipelineMaxOps then
    .error ⟨.invalidArgument,
      s!"Pipeline exceeds maximum of {defaultPipelineMaxOps} operations"⟩
  else
    .ok {
      pcs := fun _ ↦ .unpolled
      permits := service.maxConcurrency
      queue := []
      isOpen := service.isOpen
      guards := []
      threadBlocked := false }

def Task.isLocked (task : Task) (id : String) : Bool :=
  task.guards.any fun guard ↦ service.shardOf guard.2 == service.shardOf id

/-- Move the future of one operation. -/
def Task.setPc (task : Task) (i : ℕ) (pc : Pc) : Task :=
  { task with pcs := Function.update task.pcs i pc }

/-- A future blocks the thread at a call into the table. -/
def Task.blockAt (task : Task) (i : ℕ) (id : String) : Task :=
  { task.setPc i (.blocked id) with threadBlocked := true }

/-- Set the entry of a transaction in the table. -/
def Task.setOpen (task : Task) (id : String) (isOpen : Bool) : Task :=
  { task with isOpen := Function.update task.isOpen id isOpen }

def Task.lock (task : Task) (i : ℕ) (id : String) : Task :=
  { task with guards := (i, id) :: task.guards }

/-- Hand a permit to the future that has waited longest, if there is one. -/
def Task.releasePermit (task : Task) : Task :=
  match task.queue with
  | [] => { task with permits := task.permits + 1 }
  | next :: rest => { task.setPc next .granted with queue := rest }

/-- A future returns: it unlocks its entry and gives its permit back. -/
def Task.finish (task : Task) (i : ℕ) : Task :=
  let unlocked := { task with guards := task.guards.filter fun guard ↦ guard.1 ≠ i }
  (unlocked.setPc i .finished).releasePermit

/-! ## Steps -/

/-- What can happen to the task.  `fresh` is the id that is drawn if the poll begins a
transaction. -/
inductive Event where
  | poll (i : ℕ) (fresh : String)
  | answer (i : ℕ) (ok : Bool)
  | timeout
  deriving DecidableEq, Repr

/-- An operation is executed up to its first suspension. -/
def startOperation (task : Task) (i : ℕ) (operation : Operation) : Task :=
  match operation.entry with
  | .returns => task.finish i
  | .awaits => task.setPc i .awaiting
  | .getMut id =>
      if task.isLocked service id then task.blockAt i id
      else if task.isOpen id then (task.lock i id).setPc i .awaiting
      else task.finish i
  | .lookUp id =>
      -- the transaction is not open, or the driver refuses the find
      if task.isLocked service id then task.blockAt i id else task.finish i
  | .remove id =>
      if task.isLocked service id then task.blockAt i id
      else if task.isOpen id then (task.setOpen id false).setPc i .awaiting
      else task.finish i

/-- An id that can be drawn for a new transaction: it is neither in the table nor in the call. -/
def IsFresh (isOpen : String → Bool) (fresh : String) : Prop :=
  isOpen fresh = false ∧ ∀ operation ∈ operations, operation.named ≠ some fresh

instance (isOpen : String → Bool) (fresh : String) :
    Decidable (IsFresh operations isOpen fresh) :=
  inferInstanceAs (Decidable (_ ∧ _))

/-- An operation is executed from the answer of the database to its end. -/
def resumeOperation (task : Task) (i : ℕ) (operation : Operation) (ok : Bool) (fresh : String) :
    Option Task :=
  match operation, ok with
  | .beginTransaction, true =>
      if ¬ IsFresh operations task.isOpen fresh then none
      else if task.isLocked service fresh then some (task.blockAt i fresh)
      else some ((task.setOpen fresh true).finish i)
  | _, _ => some (task.finish i)

def pollOperation (task : Task) (i : ℕ) (operation : Operation) (fresh : String) : Option Task :=
  match task.pcs i with
  | .unpolled =>
      match task.permits with
      | 0 => some { task.setPc i .queued with queue := task.queue ++ [i] }
      | permits + 1 =>
          some (startOperation service { task.setPc i .granted with permits := permits } i operation)
  | .granted => some (startOperation service task i operation)
  | .answered ok => resumeOperation service operations task i operation ok fresh
  | .queued => some task
  | .awaiting => some task
  | .blocked _ => none
  | .finished => none

/-- The deadline passes: all futures are dropped, with their guards and permits. -/
def Task.cancel (task : Task) : Task :=
  { task with
    pcs := fun _ ↦ .finished
    permits := service.maxConcurrency
    queue := []
    guards := [] }

/-- One step of the task.  While the thread is blocked only the database can act. -/
def step (task : Task) : Event → Option Task
  | .poll i fresh =>
      if task.threadBlocked then none
      else operations[i]?.bind fun operation ↦
        pollOperation service operations task i operation fresh
  | .answer i ok =>
      match task.pcs i with
      | .awaiting => some (task.setPc i (.answered ok))
      | _ => none
  | .timeout => if task.threadBlocked then none else some (task.cancel service)

end MongoCore.Grpc.PipelineExecution
