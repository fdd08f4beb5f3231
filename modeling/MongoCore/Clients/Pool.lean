import MongoCore.Clients.ReadFrame
import MongoCore.Library.TransitionSystem
import MongoCore.Transport.Connection
import Mathlib.Logic.Function.Basic

/-!
# The connection pools of the client libraries

A pool hands its connections out in turn, and any number of callers may be inside a call at the
same time.  A call writes a request and then reads one frame.  Neither the pools nor the
connections have a lock, so the calls on a connection interleave byte by byte.

A connection is a transition system.  Its events are the steps of the callers and those of the
server at its other end, which reads requests and answers each at most once, in any order, with a
frame that carries the request's id.  A call may fail at any time: by a timeout, by an error of
the socket, by an interruption.  Only what a failure leaves in the socket matters here.

Whether the server loses parts of requests that arrive in pieces is a separate question; here it
reads what was written.
-/

namespace MongoCore.Clients

open MongoCore.Data MongoCore.Transport MongoCore.Library.TransitionSystem

/-! ## Calls -/

/-- Where a call is.  An ended call has read `held` and has an outcome; a refused one has failed
before it wrote anything; a broken one has failed anywhere else. -/
inductive CallPhase where
  | sending (left : Bytes)
  | reading (held : Bytes)
  | refused
  | ended (held : Bytes) (outcome : Except ClientError (Document × Bytes))
  | broken (held : Bytes)

/-- A call, with the id of its request.  `since` records how many replies the server had written
to the connection when the call began. -/
structure Call where
  reqId : ℕ
  since : ℕ
  phase : CallPhase

/-- The bytes are a frame of the length that their header announces. -/
def IsWholeFrame (held : Bytes) : Prop :=
  6 ≤ msgLenOf held ∧ held.length = headerSize + (msgLenOf held - 6)

/-- The call is over, and it has written nothing or read a whole frame. -/
def Call.Settled (call : Call) : Prop :=
  match call.phase with
  | .refused => True
  | .ended held _ => IsWholeFrame held
  | _ => False

/-! ## Sending -/

def requestFrame (opcode : Opcode) (reqId : ℕ) (envelope rawDocs : Bytes) : Frame where
  header :=
    { msgLen := 0
      flags :=
        { opcode := opcode
          endOfStream := true
          noReply := false
          batchFollows := false
          priority := .normal }
      reqId := reqId }
  envelope := envelope
  rawDocs := rawDocs

/-- The next state of the request counter, and the frame that is written; none if the request is
refused.  The counter keeps its low 32 bits, signed ones in TypeScript, where a negative id cannot
be written; Python refuses what exceeds a field. -/
def Client.sendFrame (client : Client) (reqCounter : ℕ) (opcode : Opcode)
    (envelope rawDocs : Bytes) : ℕ × Option Frame :=
  let msgLen := 2 + 4 + envelope.length + rawDocs.length
  let reqId := (reqCounter + 1) % 2 ^ 32
  let frame := requestFrame opcode reqId envelope rawDocs
  match client.language with
  | .go => (reqCounter + 1, some frame)
  | .python =>
      (reqCounter + 1, if msgLen < 2 ^ 32 ∧ reqCounter + 1 < 2 ^ 32 then some frame else none)
  | .java =>
      if toInt32 (toInt32 msgLen + 4) > client.maxFrameSize then (reqCounter, none)
      else (reqCounter + 1, some frame)
  | .typescript =>
      (reqCounter + 1, if msgLen ≤ client.maxFrameSize ∧ reqId < 2 ^ 31 then some frame else none)

/-! ## Connections -/

/-- One connection: the request counter, the bytes the server has not read, the ids of requests it
has read and not answered, the bytes the client has not read, whether the server has left, the
replies it has written, and the calls. -/
structure BinaryTransport where
  reqCounter : ℕ
  requests : Bytes
  unanswered : List ℕ
  replies : Bytes
  closing : Bool
  answered : List Frame
  calls : ℕ → Option Call

def BinaryTransport.connected : BinaryTransport where
  reqCounter := 1
  requests := []
  unanswered := []
  replies := []
  closing := false
  answered := []
  calls := fun _ ↦ none

def BinaryTransport.Settled (t : BinaryTransport) : Prop :=
  ∀ caller call, t.calls caller = some call → call.Settled

/-- The first frame the server reads from a byte string, with what follows; none while bytes are
missing. -/
def firstFrame? (maxFrameSize : ℕ) (stream : Bytes) :
    Option (Except FrameError Frame × Bytes) :=
  if stream.length < headerSize then none
  else
    match readHeader maxFrameSize stream with
    | .error error => some (.error error, stream.drop headerSize)
    | .ok header =>
        let size := headerSize + header.payloadLen
        if stream.length < size then none
        else some (readResult maxFrameSize (stream.take size), stream.drop size)

/-- The steps of a connection.  A caller sends a request, writes a byte of it, takes a byte of a
reply, finishes its read, or fails; the server receives a request, replies to one, drops one
without a reply, or leaves, with or without a notice. -/
inductive PoolEvent where
  | send (caller : ℕ) (opcode : Opcode) (envelope rawDocs : Bytes)
  | write (caller : ℕ)
  | take (caller : ℕ)
  | finish (caller extra : ℕ)
  | fail (caller : ℕ)
  | receive
  | reply (frame : Frame)
  | drop (reqId : ℕ)
  | leave (notice : Bool)

def BinaryTransport.setPhase (t : BinaryTransport) (caller : ℕ) (call : Call)
    (phase : CallPhase) : BinaryTransport :=
  { t with calls := Function.update t.calls caller (some { call with phase := phase }) }

def CallPhase.ofSent : Option Frame → CallPhase
  | some frame => .sending (writeFrame frame)
  | none => .refused

def BinaryTransport.send (client : Client) (t : BinaryTransport) (caller : ℕ) (opcode : Opcode)
    (envelope rawDocs : Bytes) : BinaryTransport :=
  let sent := client.sendFrame t.reqCounter opcode envelope rawDocs
  let call : Call :=
    { reqId := (t.reqCounter + 1) % 2 ^ 32
      since := t.answered.length
      phase := .ofSent sent.2 }
  { t with reqCounter := sent.1, calls := Function.update t.calls caller (some call) }

/-- The payload length is negative: only TypeScript goes on then, and takes what it has buffered
but for the last bytes. -/
def Client.Jumps (client : Client) (held : Bytes) : Prop :=
  ∃ size, client.payloadLen (msgLenOf held) = .ok size ∧ size < 0

instance (client : Client) (held : Bytes) : Decidable (client.Jumps held) :=
  match h : client.payloadLen (msgLenOf held) with
  | .error _ => .isFalse (by simp [Client.Jumps, h])
  | .ok size => decidable_of_iff (size < 0) (by simp [Client.Jumps, h])

/-- One step of a connection; `none` if the event cannot happen. -/
def BinaryTransport.step (client : Client) (serverMax : ℕ) (t : BinaryTransport) :
    PoolEvent → Option BinaryTransport
  | .send caller opcode envelope rawDocs =>
      match t.calls caller with
      | some _ => none
      | none => some (t.send client caller opcode envelope rawDocs)
  | .write caller => (t.calls caller).bind fun call ↦
      match call.phase with
      | .sending (byte :: left) =>
          some ({ t with requests := t.requests ++ [byte] }.setPhase caller call
            (if left.isEmpty then .reading [] else .sending left))
      | _ => none
  | .take caller => (t.calls caller).bind fun call ↦
      match call.phase, t.replies with
      | .reading held, byte :: replies =>
          if client.Wants held then
            some ({ t with replies := replies }.setPhase caller call (.reading (held ++ [byte])))
          else none
      | _, _ => none
  | .finish caller extra => (t.calls caller).bind fun call ↦
      match call.phase with
      | .reading held =>
          if ¬ client.Wants held ∧ (extra = 0 ∨ client.Jumps held) then
            let read := held ++ t.replies.take extra
            some ({ t with replies := t.replies.drop extra }.setPhase caller call
              (.ended read (client.readReply read)))
          else none
      | _ => none
  | .fail caller => (t.calls caller).bind fun call ↦
      match call.phase with
      | .sending _ => some (t.setPhase caller call (.broken []))
      | .reading held => some (t.setPhase caller call (.broken held))
      | _ => none
  | .receive =>
      if t.closing then none
      else
        match firstFrame? serverMax t.requests with
        | none => none
        | some (.ok frame, requests) => some { t with
            requests := requests, unanswered := t.unanswered ++ [frame.header.reqId] }
        | some (.error _, requests) => some { t with requests := requests, closing := true }
  | .reply frame =>
      if t.closing = false ∧ frame.header.reqId ∈ t.unanswered then
        some { t with
          unanswered := t.unanswered.erase frame.header.reqId
          replies := t.replies ++ writeFrame frame
          answered := t.answered ++ [frame] }
      else none
  | .drop reqId => some { t with unanswered := t.unanswered.erase reqId }
  | .leave notice =>
      if t.closing then none
      else some { t with
        closing := true
        replies := t.replies ++ (if notice then writeFrame shutdownFrame else []) }

/-! ## Pools -/

/-- A pool: the counter of the calls handed out, and its connections. -/
structure BinaryTransportPool where
  index : ℕ
  connections : ℕ → BinaryTransport

/-- A pool whose connections are open. -/
def BinaryTransportPool.connected : BinaryTransportPool where
  index := 0
  connections := fun _ ↦ .connected

/-- Which connection of a pool may come next.  Go and Java count in 32 bits.  The threads of
Python read and write the counter without a lock, so any connection may come. -/
def Language.Next (language : Language) (index size connection : ℕ) : Prop :=
  match language with
  | .go => connection = index % 2 ^ 32 % size
  | .java => (connection : ℤ) = toInt32 index % size
  | .typescript => connection = index % size
  | .python => connection < size

instance (language : Language) (index size connection : ℕ) :
    Decidable (language.Next index size connection) :=
  match language with
  | .go => inferInstanceAs (Decidable (_ = _))
  | .java => inferInstanceAs (Decidable (_ = _))
  | .typescript => inferInstanceAs (Decidable (_ = _))
  | .python => inferInstanceAs (Decidable (_ < _))

/-- One step of a pool of `size` connections: a call begins on the next connection, and everything
else happens on any one. -/
def BinaryTransportPool.step (client : Client) (serverMax size : ℕ) (pool : BinaryTransportPool)
    (event : ℕ × PoolEvent) : Option BinaryTransportPool :=
  let (connection, step) := event
  if connection < size then
    ((pool.connections connection).step client serverMax step).bind fun t ↦
      let connections := Function.update pool.connections connection t
      match step with
      | .send _ _ _ _ =>
          if client.language.Next pool.index size connection then
            some { index := pool.index + 1, connections := connections }
          else none
      | _ => some { pool with connections := connections }
  else none

end MongoCore.Clients
