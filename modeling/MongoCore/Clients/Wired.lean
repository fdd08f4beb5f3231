import MongoCore.Clients.OwnReply
import MongoCore.Transport.Replies
import MongoCore.Transport.Segmentation

/-!
# A client and the server

The connections of the client libraries were analysed against a server that reads whole requests
and answers each at most once.  Here the other end is the task of the server that serves the
connection: it reads bytes that arrive in pieces, looks for more requests before it processes one,
may be told to shut down, and may leave.

The task is a refinement of that server as long as the calls on the connection are exclusive: every
step of a caller, of the network or of the task is matched by steps of the analysed connection.
What the analysis says about the bytes a call reads therefore holds here.  The invariant adds what
is read and answered: all that the task receives during a call is the call's request, and every
reply it writes then is an answer to this request.

A ledger relates the requests that the task has processed to the calls.  A call remembers how many
there were when it began, and the next one, if there is one, is its own.  This module ends with the
steps of the callers.
-/

namespace MongoCore.Clients

open MongoCore.Data MongoCore.Transport MongoCore.Library.Framing MongoCore.Library.TransitionSystem

/-! ## The wired system -/

/-- A connection of a client, the task that serves it, and the bytes on the way in both directions.
`asked` records the request of each caller, and `exchanges` the requests that the task has
processed with its replies. -/
structure Wired where
  reqCounter : ℕ
  calls : ℕ → Option Call
  toServer : Bytes
  toClient : Bytes
  server : State
  asked : ℕ → Option Frame
  exchanges : List (Frame × Frame)

def PoolEvent.isCaller : PoolEvent → Bool
  | .send _ _ _ _ | .write _ | .take _ | .finish _ _ | .fail _ => true
  | _ => false

/-- A step of a caller, bytes that arrive at the server, or a step of the server's task. -/
inductive WiredEvent where
  | client (event : PoolEvent)
  | deliver (count : ℕ)
  | server (event : Event)

namespace Wired

/-- A connection whose handshake was answered. -/
def connected (first reply : Frame) : Wired where
  reqCounter := 1
  calls := fun _ ↦ none
  toServer := []
  toClient := []
  server := { State.init with phase := .waiting, written := [reply], handed := [first] }
  asked := fun _ ↦ none
  exchanges := []

def callerView (w : Wired) : BinaryTransport where
  reqCounter := w.reqCounter
  requests := w.toServer
  unanswered := []
  replies := w.toClient
  closing := false
  answered := w.exchanges.map Prod.snd
  calls := w.calls

/-- The requests of the callers after a step of one. -/
def askedAfter (client : Client) (w : Wired) : PoolEvent → ℕ → Option Frame
  | .send caller opcode envelope rawDocs => Function.update w.asked caller
      (client.sendFrame w.reqCounter opcode envelope rawDocs).2
  | _ => w.asked

/-- The request that an event processes, with the reply to it. -/
def exchangesOf (s : State) : Event → List (Frame × Frame)
  | .process outcome _ _ =>
      match s.phase with
      | .processing frame => (outcome.reply? frame).toList.map fun reply ↦ (frame, reply)
      | _ => []
  | _ => []

def newlyWritten (s s' : State) : List Frame := s'.written.drop s.written.length

def step (client : Client) (serverMax : ℕ) (w : Wired) : WiredEvent → Option Wired
  | .client event =>
      if event.isCaller then
        (w.callerView.step client serverMax event).map fun t ↦
          { w with
            reqCounter := t.reqCounter
            calls := t.calls
            toServer := t.requests
            toClient := t.replies
            asked := w.askedAfter client event }
      else none
  | .deliver count =>
      (Transport.step serverMax w.server (.arrive (w.toServer.take count))).map fun server ↦
        { w with toServer := w.toServer.drop count, server := server }
  | .server (.arrive _) => none
  | .server event =>
      (Transport.step serverMax w.server event).map fun server ↦
        { w with
          toClient := w.toClient ++ (newlyWritten w.server server).flatMap writeFrame
          server := server
          exchanges := w.exchanges ++ exchangesOf w.server event }

/-- A call begins when every earlier one is settled, and its request fits the length field; the
task gives the server's answers, which fit it as well; no write fails; and the signal for a
shutdown is only raised. -/
def Orderly (decode : Bytes → Except String Document) (w : Wired) : WiredEvent → Prop
  | .client (.send _ _ envelope rawDocs) =>
      (∀ caller call, w.calls caller = some call → call.Settled) ∧
        6 + (envelope.length + rawDocs.length) < 2 ^ 32
  | .server (.process outcome failAt _) => failAt = none ∧
      ∀ frame, w.server.phase = .processing frame → ∃ response,
        outcome = outcomeOf decode frame response ∧
          6 + payloadSize (serverFrame (answerOpcode frame (answerTo decode frame response))
            frame.header.reqId (encodeResponse (answerTo decode frame response))) < 2 ^ 32
  | .server (.shutdownChanged value _) => value = true
  | _ => True

end Wired

/-- A pool of connections, with the counter of the calls handed out. -/
structure WiredPool where
  index : ℕ
  connections : ℕ → Wired

namespace WiredPool

/-- A pool whose handshakes were answered. -/
def connected (first reply : Frame) : WiredPool where
  index := 0
  connections := fun _ ↦ .connected first reply

/-- One step of a pool of `size` connections: a call begins on the next connection, and everything
else happens on any one. -/
def step (client : Client) (serverMax size : ℕ) (pool : WiredPool) (event : ℕ × WiredEvent) :
    Option WiredPool :=
  let (connection, step) := event
  if connection < size then
    ((pool.connections connection).step client serverMax step).bind fun w ↦
      let connections := Function.update pool.connections connection w
      match step with
      | .client (.send _ _ _ _) =>
          if client.language.Next pool.index size connection then
            some { index := pool.index + 1, connections := connections }
          else none
      | _ => some { pool with connections := connections }
  else none

def Orderly (decode : Bytes → Except String Document) (pool : WiredPool)
    (event : ℕ × WiredEvent) : Prop :=
  (pool.connections event.1).Orderly decode event.2

end WiredPool

/-! ## The property -/

/-- A call has read the reply to its own request: what the server processed first after the call
began is what it reads of the bytes of the request, and the call has read the bytes of the reply
to it. -/
def Wired.Serves (decode : Bytes → Except String Document) (serverMax : ℕ) (w : Wired)
    (caller since : ℕ) (held : Bytes) : Prop :=
  ∃ request frame response, w.asked caller = some request ∧
    readResult serverMax (writeFrame request) = .ok frame ∧
    w.exchanges[since]? = some (frame, serverFrame
      (answerOpcode frame (answerTo decode frame response)) frame.header.reqId
        (encodeResponse (answerTo decode frame response))) ∧
    held = writeFrame (serverFrame (answerOpcode frame (answerTo decode frame response))
      frame.header.reqId (encodeResponse (answerTo decode frame response)))

/-- Every call that has returned a reply was served. -/
def Wired.Served (decode : Bytes → Except String Document) (serverMax : ℕ) (w : Wired) : Prop :=
  ∀ caller call held reply, w.calls caller = some call → call.phase = .ended held (.ok reply) →
    w.Serves decode serverMax caller call.since held

/-- A call has a request: it was not refused. -/
def Wired.Asks (w : Wired) (caller : ℕ) (call : Call) : Prop :=
  w.calls caller = some call ∧ call.phase ≠ .refused

/-- The server processes requests of calls only, and each at most once: what it has processed after
`i` others is the request of the one call that began when it had processed `i` requests. -/
def Wired.ProcessesOnce (serverMax : ℕ) (w : Wired) : Prop :=
  ∀ i entry, w.exchanges[i]? = some entry → ∃ caller call request, w.Asks caller call ∧
    call.since = i ∧ w.asked caller = some request ∧
      readResult serverMax (writeFrame request) = .ok entry.1 ∧
        ∀ other otherCall, w.Asks other otherCall → otherCall.since = i → other = caller

/-! ## The ledger -/

/-- The task does not serve the connection any more. -/
def Leaving (phase : Phase) : Prop := phase = .draining ∨ ∃ reason, phase = .finished reason

/-- What was processed belongs to one call each, and so does what will be processed next.  A call
that is over has its entry, unless the task has left. -/
structure Ledger (serverMax : ℕ) (w : Wired) : Prop where
  owner : ∀ i entry, w.exchanges[i]? = some entry → ∃ caller call request, w.Asks caller call ∧
    call.since = i ∧ w.asked caller = some request ∧
      readResult serverMax (writeFrame request) = .ok entry.1
  unique : ∀ caller call other otherCall, w.Asks caller call → w.Asks other otherCall →
    call.since = otherCall.since →
      call.since < w.exchanges.length ∨ ¬ Leaving w.server.phase → other = caller
  counted : ∀ caller call, w.Asks caller call → call.Settled →
    call.since < w.exchanges.length ∨ Leaving w.server.phase

section Ledger

variable {serverMax : ℕ} {w w' : Wired}

theorem Ledger.processesOnce (h : Ledger serverMax w) : w.ProcessesOnce serverMax := by
  intro i entry hentry
  obtain ⟨caller, call, request, hasks, rfl, hasked, hread⟩ := h.owner i entry hentry
  refine ⟨caller, call, request, hasks, rfl, hasked, hread, fun other otherCall hother hsince ↦ ?_⟩
  apply h.unique caller call other otherCall hasks hother hsince.symm
  exact .inl (List.getElem?_eq_some_iff.mp hentry).1

/-- The task processes nothing. -/
theorem Ledger.of_server (h : Ledger serverMax w) (hcalls : w'.calls = w.calls)
    (hasked : w'.asked = w.asked) (hexchanges : w'.exchanges = w.exchanges)
    (hleaving : Leaving w.server.phase → Leaving w'.server.phase) : Ledger serverMax w' where
  owner i entry hentry := by
    simp only [Wired.Asks, hcalls, hasked, hexchanges] at hentry ⊢
    exact h.owner i entry hentry
  unique caller call other otherCall hasks hother hsince hopen := by
    simp only [Wired.Asks, hcalls, hexchanges] at hasks hother hopen
    exact h.unique caller call other otherCall hasks hother hsince (hopen.imp_right (mt hleaving))
  counted caller call hasks hsettled := by
    simp only [Wired.Asks, hcalls, hexchanges] at hasks ⊢
    exact (h.counted caller call hasks hsettled).imp_right hleaving

/-- The task processes the request of a call. -/
theorem Ledger.process (h : Ledger serverMax w) (hcalls : w'.calls = w.calls)
    (hasked : w'.asked = w.asked) {entry : Frame × Frame}
    (hexchanges : w'.exchanges = w.exchanges ++ [entry]) (hserving : ¬ Leaving w.server.phase)
    {caller : ℕ} {call : Call} {request : Frame} (hasks : w.Asks caller call)
    (hsince : call.since = w.exchanges.length) (hrequest : w.asked caller = some request)
    (hread : readResult serverMax (writeFrame request) = .ok entry.1) : Ledger serverMax w' where
  owner i other hentry := by
    simp only [Wired.Asks, hcalls, hasked, hexchanges] at hentry ⊢
    rcases Nat.lt_or_ge i w.exchanges.length with hold | hnew
    · rw [List.getElem?_append_left hold] at hentry
      exact h.owner i other hentry
    · rw [List.getElem?_append_right hnew, List.getElem?_singleton] at hentry
      split_ifs at hentry with hlast
      obtain rfl := Option.some.inj hentry
      exact ⟨caller, call, request, hasks, by omega, hrequest, hread⟩
  unique caller call other otherCall hasks hother hsince _ := by
    simp only [Wired.Asks, hcalls] at hasks hother
    exact h.unique caller call other otherCall hasks hother hsince (.inr hserving)
  counted caller call hasks hsettled := by
    simp only [Wired.Asks, hcalls] at hasks
    left
    rw [hexchanges, List.length_append, List.length_singleton]
    exact Nat.lt_succ_of_lt ((h.counted caller call hasks hsettled).resolve_right hserving)

/-- A call goes on. -/
theorem Ledger.of_call (h : Ledger serverMax w) {caller : ℕ} {call : Call} {phase : CallPhase}
    (hcall : w.calls caller = some call) (hactive : call.Active)
    (hcalls : w'.calls = Function.update w.calls caller (some { call with phase := phase }))
    (hasked : w'.asked = w.asked) (hexchanges : w'.exchanges = w.exchanges)
    (hserver : w'.server = w.server) (hphase : phase ≠ .refused)
    (hcounted : ({ call with phase := phase } : Call).Settled →
      call.since < w.exchanges.length ∨ Leaving w.server.phase) : Ledger serverMax w' := by
  have hasks : w.Asks caller call := by
    refine ⟨hcall, fun hrefused ↦ ?_⟩
    rw [Call.Active, hrefused] at hactive
    exact hactive
  -- the calls are those of before, but for the phase of one
  have hbefore : ∀ other otherCall, w'.Asks other otherCall → ∃ earlier, w.Asks other earlier ∧
      earlier.since = otherCall.since ∧ (earlier = otherCall ∨
        other = caller ∧ otherCall = { call with phase := phase }) := by
    intro other otherCall hother
    rw [Wired.Asks, hcalls] at hother
    by_cases hsame : other = caller
    · subst hsame
      rw [Function.update_self] at hother
      obtain rfl := Option.some.inj hother.1
      exact ⟨call, hasks, rfl, .inr ⟨rfl, rfl⟩⟩
    · rw [Function.update_of_ne hsame] at hother
      exact ⟨otherCall, hother, rfl, .inl rfl⟩
  constructor
  · intro i entry hentry
    rw [hexchanges] at hentry
    obtain ⟨other, otherCall, request, hother, hsince, hrequest, hread⟩ := h.owner i entry hentry
    by_cases hsame : other = caller
    · subst hsame
      obtain rfl := Option.some.inj (hother.1.symm.trans hcall)
      refine ⟨other, { otherCall with phase := phase }, request, ⟨?_, hphase⟩, hsince,
        hasked ▸ hrequest, hread⟩
      rw [hcalls, Function.update_self]
    · refine ⟨other, otherCall, request, ⟨?_, hother.2⟩, hsince, hasked ▸ hrequest, hread⟩
      rw [hcalls, Function.update_of_ne hsame]
      exact hother.1
  · intro first firstCall second secondCall hfirst hsecond hsince hopen
    obtain ⟨firstOld, hfirstAsks, hfirstSince, -⟩ := hbefore first firstCall hfirst
    obtain ⟨secondOld, hsecondAsks, hsecondSince, -⟩ := hbefore second secondCall hsecond
    rw [hexchanges, hserver, ← hfirstSince] at hopen
    apply h.unique first firstOld second secondOld hfirstAsks hsecondAsks _ hopen
    rw [hfirstSince, hsecondSince, hsince]
  · intro other otherCall hother hsettled
    obtain ⟨earlier, hearlier, hsince, heither⟩ := hbefore other otherCall hother
    rw [hexchanges, hserver, ← hsince]
    rcases heither with rfl | ⟨rfl, rfl⟩
    · exact h.counted other earlier hearlier hsettled
    · rw [hsince]
      exact hcounted hsettled

/-- A call begins when all others are settled. -/
theorem Ledger.send (h : Ledger serverMax w) {caller : ℕ} {call : Call}
    (hfresh : w.calls caller = none)
    (hsettled : ∀ other otherCall, w.calls other = some otherCall → otherCall.Settled)
    (hcalls : w'.calls = Function.update w.calls caller (some call))
    (hasked : ∀ other, other ≠ caller → w'.asked other = w.asked other)
    (hexchanges : w'.exchanges = w.exchanges) (hserver : w'.server = w.server)
    (hsince : call.since = w.exchanges.length)
    (hsending : call.Settled → call.phase = .refused) : Ledger serverMax w' := by
  have hbefore : ∀ other otherCall, other ≠ caller → w'.Asks other otherCall →
      w.Asks other otherCall := by
    intro other otherCall hne hother
    rwa [Wired.Asks, hcalls, Function.update_of_ne hne] at hother
  have hself : ∀ otherCall, w'.Asks caller otherCall → otherCall = call := by
    intro otherCall hother
    rw [Wired.Asks, hcalls, Function.update_self] at hother
    exact (Option.some.inj hother.1).symm
  -- the others have their entries, or there will be no more
  have hearlier : ∀ other otherCall, other ≠ caller → w'.Asks other otherCall →
      otherCall.since = w.exchanges.length → Leaving w.server.phase := by
    intro other otherCall hne hother hsame
    have hasks := hbefore other otherCall hne hother
    apply (h.counted other otherCall hasks (hsettled other otherCall hasks.1)).resolve_left
    omega
  constructor
  · intro i entry hentry
    rw [hexchanges] at hentry
    obtain ⟨other, otherCall, request, hother, hcount, hrequest, hread⟩ := h.owner i entry hentry
    have hne : other ≠ caller := by
      rintro rfl
      exact absurd (hfresh.symm.trans hother.1) (by simp)
    refine ⟨other, otherCall, request, ⟨?_, hother.2⟩, hcount, (hasked other hne).trans hrequest,
      hread⟩
    rw [hcalls, Function.update_of_ne hne]
    exact hother.1
  · intro first firstCall second secondCall hfirst hsecond hsame hopen
    rw [hexchanges, hserver] at hopen
    by_cases hone : first = caller <;> by_cases htwo : second = caller
    · rw [hone, htwo]
    · subst hone
      obtain rfl := hself firstCall hfirst
      have hleaving := hearlier second secondCall htwo hsecond (by omega)
      exact absurd hleaving (hopen.resolve_left (by omega))
    · subst htwo
      obtain rfl := hself secondCall hsecond
      have hleaving := hearlier first firstCall hone hfirst (by omega)
      exact absurd hleaving (hopen.resolve_left (by omega))
    · exact h.unique first firstCall second secondCall (hbefore first firstCall hone hfirst)
        (hbefore second secondCall htwo hsecond) hsame hopen
  · intro other otherCall hother hover
    rw [hexchanges, hserver]
    by_cases hsame : other = caller
    · subst hsame
      obtain rfl := hself otherCall hother
      exact absurd (hsending hover) hother.2
    · exact h.counted other otherCall (hbefore other otherCall hsame hother) hover

end Ledger

/-! ## The analysed connection behind it -/

/-- A call in progress: all that was processed since it began is its request, and until that is
processed, nothing is. -/
structure Underway (serverMax : ℕ) (w : Wired) (t : BinaryTransport) (request : Frame)
    (caller : ℕ) (call : Call) : Prop where
  asked : w.asked caller = some request
  own : ∀ entry ∈ w.exchanges.drop call.since,
    readResult serverMax (writeFrame request) = .ok entry.1
  sending : ∀ left, call.phase = .sending left → left ≠ [] ∧ (t.closing = false →
    w.server.phase.inProcess = [] ∧ t.requests ++ left = writeFrame request)
  once : w.exchanges.length ≤ call.since + 1
  first : t.closing = false → call.since = w.exchanges.length ∨
    (t.requests = [] ∧ w.server.phase.inProcess = [] ∧ ∀ left, call.phase ≠ .sending left)

/-- The analysed connection of a state, as long as calls are exclusive.  The task has read nothing
but a part of the given request, or processes it. -/
structure Linked (serverMax : ℕ) (w : Wired) (t : BinaryTransport) (request : Frame) : Prop where
  reqCounter : t.reqCounter = w.reqCounter
  calls : t.calls = w.calls
  replies : t.replies = w.toClient
  answered : t.answered = w.exchanges.map Prod.snd
  closing : t.closing = true ↔ Leaving w.server.phase
  greeted : w.server.phase.isGreeting = false
  held : Segmentation.Held serverMax w.server
  idle : w.server.queue.frames = [] ∧ w.server.pendingResponses = []
  requests : t.closing = false → t.requests = w.server.held ++ (w.server.inbox ++ w.toServer)
  unanswered : t.closing = false →
    t.unanswered = w.server.phase.inProcess.map fun frame ↦ frame.header.reqId
  stream : t.closing = false →
    (w.server.phase.inProcess = [] ∧ t.requests <+: writeFrame request) ∨
      (t.requests = [] ∧ ∃ frame, w.server.phase.inProcess = [frame] ∧
        readResult serverMax (writeFrame request) = .ok frame)
  pending : t.closing = false → (t.requests = [] ∧ w.server.phase.inProcess = []) ∨
    ∃ caller call, w.Asks caller call ∧ call.since = w.exchanges.length ∧
      w.asked caller = some request
  fits : FitsHeader request
  plain : request.header.flags.noReply = false ∧ request.header.flags.batchFollows = false
  active : ∀ caller call, w.calls caller = some call → call.Active →
    Underway serverMax w t request caller call

/-- The invariant: the analysed connection behind the wired one is in order, every call that has
returned a reply was served, all replies are the server's, and the ledger is in order. -/
structure Joined (client : Client) (decode : Bytes → Except String Document) (serverMax : ℕ)
    (w : Wired) : Prop where
  linked : ∃ t request, Invariant client t ∧ Linked serverMax w t request
  served : w.Served decode serverMax
  replied : ∀ entry ∈ w.exchanges, ∃ response,
    entry.2 = serverFrame (answerOpcode entry.1 (answerTo decode entry.1 response))
      entry.1.header.reqId (encodeResponse (answerTo decode entry.1 response))
  ledger : Ledger serverMax w
  sized : ∀ caller request, w.asked caller = some request → FitsHeader request

/-! ## Bytes and frames -/

/-- The first frame of a stream is the one that its first chunk holds. -/
theorem firstFrame?_of_chunk {maxFrameSize : ℕ} {chunk : Bytes}
    (hchunk : Chunk (Complete maxFrameSize) chunk) (rest : Bytes) :
    firstFrame? maxFrameSize (chunk ++ rest) = some (readResult maxFrameSize chunk, rest) := by
  have hlong : headerSize ≤ chunk.length := hchunk.1.headerSize_le
  have hshort : ¬ (chunk ++ rest).length < headerSize := by
    rw [List.length_append]
    omega
  rw [firstFrame?, if_neg hshort, readHeader_append maxFrameSize hlong]
  cases hheader : readHeader maxFrameSize chunk with
  | error error =>
    -- a rejected header ends the chunk
    have hfront : readHeader maxFrameSize (chunk.take headerSize) = .error error := by
      have hlength : headerSize ≤ (chunk.take headerSize).length := by
        rw [List.length_take]
        omega
      rw [← readHeader_append maxFrameSize hlength (chunk.drop headerSize), List.take_append_drop,
        hheader]
    have hwhole : chunk.take headerSize = chunk := by
      by_contra hne
      apply hchunk.2 _ (List.take_prefix _ _) hne
      rw [Complete, need, hfront]
      split_ifs with hless
      · rw [List.length_take] at hless
        omega
      · rfl
    have hlength : chunk.length = headerSize := by
      apply Nat.le_antisymm _ hlong
      rw [← hwhole, List.length_take]
      exact Nat.min_le_left _ _
    simp only [readResult, hheader, ← hlength, List.drop_left]
    rfl
  | ok header =>
    have hlength := length_of_chunk hchunk hheader
    have hfull : ¬ (chunk ++ rest).length < headerSize + header.payloadLen := by
      rw [List.length_append]
      omega
    dsimp only
    rw [if_neg hfull, ← hlength, List.take_left, List.drop_left]

/-- What is read of a request that was written to its end has the flags and the id of the
request. -/
theorem header_of_request {maxFrameSize : ℕ} {request frame : Frame} (hfits : FitsHeader request)
    (h : readResult maxFrameSize (writeFrame request) = .ok frame) :
    frame.header.flags = request.header.flags ∧ frame.header.reqId = request.header.reqId := by
  have hheader := readHeader_eq (header_of_readResult h)
  rw [decode_writeFrame hfits] at hheader
  rw [← Except.ok.inj hheader]
  exact ⟨rfl, rfl⟩

theorem PriorityQueue.pop_of_empty {queue : PriorityQueue} (h : queue.frames = []) :
    queue.pop = none := by
  cases hpop : queue.pop with
  | none => rfl
  | some popped =>
    have hframes := PriorityQueue.frames_of_pop hpop
    rw [h] at hframes
    cases hframes

/-! ## Steps of a caller -/

section Steps

variable {client : Client} {decode : Bytes → Except String Document} {serverMax : ℕ} {w : Wired}
  {t : BinaryTransport} {request : Frame}

/-- The task that has not left serves an open connection. -/
theorem Linked.open_of_serving (h : Linked serverMax w t request)
    (hserving : ¬ Leaving w.server.phase) : t.closing = false := by
  rw [← Bool.not_eq_true, h.closing]
  exact hserving

/-- A call began when there were no more exchanges than there are. -/
theorem Linked.since_le (h : Linked serverMax w t request) (hinv : Invariant client t)
    (caller : ℕ) (call : Call) (hcall : w.calls caller = some call) :
    call.since ≤ w.exchanges.length := by
  have hbound := (hinv.bounds caller call (h.calls ▸ hcall)).1
  rw [h.answered, List.length_map] at hbound
  exact hbound

/-- Of a quiet open connection the task has read nothing. -/
theorem Linked.idle_of_quiet (h : Linked serverMax w t request) (hquiet : t.Quiet)
    (hopen : t.closing = false) : w.server.phase.inProcess = [] ∧ t.requests = [] := by
  obtain ⟨hrequests, hunanswered, -⟩ := hquiet.1 hopen
  rw [h.unanswered hopen] at hunanswered
  exact ⟨List.map_eq_nil_iff.mp hunanswered, hrequests⟩

/-- A step of the only call in progress. -/
theorem Linked.of_caller (h : Linked serverMax w t request) (hinv : Invariant client t)
    {caller : ℕ} {call : Call} (hcall : t.calls caller = some call) (hactive : call.Active)
    {phase : CallPhase} (hphase : phase ≠ .refused) (added replies : Bytes)
    (hfirst : t.closing = false → call.since = w.exchanges.length ∨
      (added = [] ∧ ∀ left, phase ≠ .sending left))
    (hadded : t.closing = false → added = [] ∨
      (w.server.phase.inProcess = [] ∧ t.requests ++ added <+: writeFrame request))
    (hsending : ∀ left, phase = .sending left → left ≠ [] ∧ (t.closing = false →
      w.server.phase.inProcess = [] ∧ t.requests ++ added ++ left = writeFrame request)) :
    Linked serverMax
      { w with
        calls := Function.update w.calls caller (some { call with phase := phase })
        toServer := w.toServer ++ added
        toClient := replies }
      ({ t with requests := t.requests ++ added, replies := replies }.setPhase caller call phase)
      request where
  reqCounter := h.reqCounter
  calls := by
    rw [← h.calls]
    rfl
  replies := rfl
  answered := h.answered
  closing := h.closing
  greeted := h.greeted
  held := h.held
  idle := h.idle
  requests hopen := by
    change t.requests ++ added = _
    rw [h.requests hopen]
    simp only [List.append_assoc]
  unanswered := h.unanswered
  stream hopen := by
    change (_ ∧ t.requests ++ added <+: _) ∨ (t.requests ++ added = [] ∧ _)
    rcases hadded hopen with hnone | hmore
    · simpa only [hnone, List.append_nil] using h.stream hopen
    · exact .inl hmore
  pending hopen := by
    change (t.requests ++ added = [] ∧ _) ∨ _
    have hunderway := h.active caller call (h.calls ▸ hcall) hactive
    rcases hfirst hopen with hnew | ⟨hnone, -⟩
    · exact .inr ⟨caller, _, ⟨Function.update_self _ _ _, hphase⟩, hnew, hunderway.asked⟩
    · rw [hnone, List.append_nil]
      refine (h.pending hopen).imp_right ?_
      rintro ⟨other, otherCall, hother, hsince, hasked⟩
      by_cases hsame : other = caller
      · subst hsame
        obtain rfl := Option.some.inj (hother.1.symm.trans (h.calls ▸ hcall))
        exact ⟨other, _, ⟨Function.update_self _ _ _, hphase⟩, hsince, hasked⟩
      · exact ⟨other, otherCall, ⟨(Function.update_of_ne hsame _ _).trans hother.1, hother.2⟩,
          hsince, hasked⟩
  fits := h.fits
  plain := h.plain
  active other otherCall hother hotherActive := by
    by_cases hsame : other = caller
    · subst hsame
      have hcalled := Option.some.inj ((Function.update_self other _ w.calls).symm.trans hother)
      subst hcalled
      have hunderway := h.active other call (h.calls ▸ hcall) hactive
      refine ⟨hunderway.asked, hunderway.own, hsending, hunderway.once, fun hopen ↦ ?_⟩
      change _ ∨ (t.requests ++ added = [] ∧ _)
      rcases hfirst hopen with hnew | ⟨hnone, hsent⟩
      · exact .inl hnew
      · simp only [hnone, List.append_nil]
        exact (hunderway.first hopen).imp_right fun hdone ↦ ⟨hdone.1, hdone.2.1, hsent⟩
    · have hmem := (Function.update_of_ne hsame _ w.calls).symm.trans hother
      have hsettled := (hinv.alone caller call hcall hactive).2 other otherCall hsame
        (h.calls ▸ hmem)
      exact absurd hotherActive hsettled.not_active

theorem getElem?_of_mem_drop {α : Type*} {items : List α} {count : ℕ} {item : α}
    (h : item ∈ items.drop count) (hlength : items.length ≤ count + 1) :
    items[count]? = some item := by
  have hsingle : (items.drop count).length ≤ 1 := by
    rw [List.length_drop]
    omega
  obtain ⟨other, hother⟩ := List.length_eq_one_iff.mp
    (Nat.le_antisymm hsingle (List.length_pos_of_mem h))
  rw [← List.head?_drop, hother]
  rw [hother] at h
  rw [List.mem_singleton.mp h]
  rfl

/-- A reply to a call that is in progress is an answer to its request. -/
theorem Linked.serves (h : Linked serverMax w t request)
    (hreplied : ∀ entry ∈ w.exchanges, ∃ response,
      entry.2 = serverFrame (answerOpcode entry.1 (answerTo decode entry.1 response))
        entry.1.header.reqId (encodeResponse (answerTo decode entry.1 response)))
    {caller : ℕ} {call : Call} (hcall : t.calls caller = some call) (hactive : call.Active)
    {frame : Frame} (hreply : call.IsReply t frame) :
    w.Serves decode serverMax caller call.since (writeFrame frame) := by
  have hunderway := h.active caller call (h.calls ▸ hcall) hactive
  have hmem := hreply.1
  rw [h.answered, ← List.map_drop] at hmem
  obtain ⟨entry, hentry, rfl⟩ := List.mem_map.mp hmem
  obtain ⟨response, hresponse⟩ := hreplied entry (List.mem_of_mem_drop hentry)
  refine ⟨request, entry.1, response, hunderway.asked, hunderway.own entry hentry, ?_, ?_⟩
  · rw [← hresponse]
    exact getElem?_of_mem_drop hentry hunderway.once
  · rw [← hresponse]

/-- What was served stays served while calls go on. -/
theorem Wired.Served.of_calls {w' : Wired} (h : w.Served decode serverMax)
    (hasked : ∀ caller call, w.calls caller = some call → w'.asked caller = w.asked caller)
    (hexchanges : w.exchanges <+: w'.exchanges)
    (hcalls : ∀ caller call held reply, w'.calls caller = some call →
      call.phase = .ended held (.ok reply) → w.calls caller = some call ∨
        w'.Serves decode serverMax caller call.since held) : w'.Served decode serverMax := by
  intro caller call held reply hcall hphase
  rcases hcalls caller call held reply hcall hphase with hold | hserves
  · obtain ⟨request, frame, response, hrequest, hread, hmem, hheld⟩ :=
      h caller call held reply hold hphase
    refine ⟨request, frame, response, (hasked caller call hold).trans hrequest, hread, ?_, hheld⟩
    obtain ⟨more, hmore⟩ := hexchanges
    rw [← hmore, List.getElem?_append_left (List.getElem?_eq_some_iff.mp hmem).1]
    exact hmem
  · exact hserves

/-- A step of a call that does not return a reply. -/
theorem Joined.of_caller (h : Joined client decode serverMax w) (hinv : Invariant client t)
    (hlinked : Linked serverMax w t request) {caller : ℕ} {call : Call}
    (hcall : t.calls caller = some call) (hactive : call.Active) {phase : CallPhase}
    (hphase : phase ≠ .refused) {added replies : Bytes}
    (hnext : Invariant client
      ({ t with requests := t.requests ++ added, replies := replies }.setPhase caller call phase))
    (hfirst : t.closing = false → call.since = w.exchanges.length ∨
      (added = [] ∧ ∀ left, phase ≠ .sending left))
    (hadded : t.closing = false → added = [] ∨
      (w.server.phase.inProcess = [] ∧ t.requests ++ added <+: writeFrame request))
    (hsending : ∀ left, phase = .sending left → left ≠ [] ∧ (t.closing = false →
      w.server.phase.inProcess = [] ∧ t.requests ++ added ++ left = writeFrame request))
    (hreturned : ∀ held reply, phase = .ended held (.ok reply) →
      w.Serves decode serverMax caller call.since held)
    (hcounted : ({ call with phase := phase } : Call).Settled →
      call.since < w.exchanges.length ∨ Leaving w.server.phase) :
    Joined client decode serverMax
      { w with
        calls := Function.update w.calls caller (some { call with phase := phase })
        toServer := w.toServer ++ added
        toClient := replies } where
  linked := ⟨_, request, hnext,
    hlinked.of_caller hinv hcall hactive hphase added replies hfirst hadded hsending⟩
  served := by
    refine h.served.of_calls (fun _ _ _ ↦ rfl) List.prefix_rfl
      fun other otherCall held reply hother hphase ↦ ?_
    by_cases hsame : other = caller
    · subst hsame
      have hcalled := Option.some.inj ((Function.update_self other _ w.calls).symm.trans hother)
      subst hcalled
      exact .inr (hreturned held reply hphase)
    · exact .inl ((Function.update_of_ne hsame _ w.calls).symm.trans hother)
  replied := h.replied
  ledger := h.ledger.of_call (hlinked.calls ▸ hcall) hactive rfl rfl rfl rfl hphase hcounted
  sized := h.sized

/-- A step of a call that writes nothing. -/
theorem Joined.of_reader (h : Joined client decode serverMax w) (hinv : Invariant client t)
    (hlinked : Linked serverMax w t request) {caller : ℕ} {call : Call}
    (hcall : t.calls caller = some call) (hactive : call.Active) {phase : CallPhase}
    {replies : Bytes}
    (hnext : Invariant client ({ t with replies := replies }.setPhase caller call phase))
    (hphase : phase ≠ .refused ∧ ∀ left, phase ≠ .sending left)
    (hreturned : ∀ held reply, phase = .ended held (.ok reply) →
      w.Serves decode serverMax caller call.since held)
    (hcounted : ({ call with phase := phase } : Call).Settled →
      call.since < w.exchanges.length ∨ Leaving w.server.phase) :
    Joined client decode serverMax
      { w with
        calls := Function.update w.calls caller (some { call with phase := phase })
        toClient := replies } := by
  have hsame : t.requests ++ [] = t.requests := List.append_nil _
  have hjoined : Joined client decode serverMax
      { w with
        calls := Function.update w.calls caller (some { call with phase := phase })
        toServer := w.toServer ++ []
        toClient := replies } := by
    apply h.of_caller hinv hlinked hcall hactive hphase.1
    · rw [hsame]
      exact hnext
    · exact fun _ ↦ .inr ⟨rfl, hphase.2⟩
    · exact fun _ ↦ .inl rfl
    · exact fun left hleft ↦ absurd hleft (hphase.2 left)
    · exact hreturned
    · exact hcounted
  rw [List.append_nil] at hjoined
  exact hjoined

def Wired.begun (client : Client) (w : Wired) (caller : ℕ) (opcode : Opcode)
    (envelope rawDocs : Bytes) : Wired :=
  let sent := client.sendFrame w.reqCounter opcode envelope rawDocs
  { w with
    reqCounter := sent.1
    calls := Function.update w.calls caller (some
      { reqId := (w.reqCounter + 1) % 2 ^ 32
        since := w.exchanges.length
        phase := .ofSent sent.2 })
    asked := Function.update w.asked caller sent.2 }

/-- The request that is on its way after a call has begun: its own, or the last one if it was
refused. -/
theorem exists_request {reqCounter : ℕ} (opcode : Opcode) {envelope rawDocs : Bytes}
    (hfits : FitsHeader request)
    (hplain : request.header.flags.noReply = false ∧ request.header.flags.batchFollows = false)
    (hlength : 6 + (envelope.length + rawDocs.length) < 2 ^ 32) :
    ∃ next, (∀ frame ∈ (client.sendFrame reqCounter opcode envelope rawDocs).2, next = frame) ∧
      FitsHeader next ∧
        next.header.flags.noReply = false ∧ next.header.flags.batchFollows = false := by
  cases hsent : (client.sendFrame reqCounter opcode envelope rawDocs).2 with
  | none => exact ⟨request, by simp, hfits, hplain⟩
  | some frame =>
    have hframe := eq_requestFrame_of_sendFrame hsent
    refine ⟨frame, by simp, ?_, ?_⟩
    · rw [hframe]
      exact ⟨hlength, Nat.mod_lt _ (by decide)⟩
    · rw [hframe]
      exact ⟨rfl, rfl⟩

/-- When a call begins, the connection is quiet, and the request is what the task will read
next. -/
theorem Linked.send (h : Linked serverMax w t request) (hquiet : t.Quiet)
    {caller : ℕ} {opcode : Opcode} {envelope rawDocs : Bytes}
    (hsettled : ∀ caller call, w.calls caller = some call → call.Settled) {next : Frame}
    (hnext : ∀ frame ∈ (client.sendFrame w.reqCounter opcode envelope rawDocs).2, next = frame)
    (hfits : FitsHeader next)
    (hplain : next.header.flags.noReply = false ∧ next.header.flags.batchFollows = false) :
    Linked serverMax (w.begun client caller opcode envelope rawDocs)
      (t.send client caller opcode envelope rawDocs) next where
  reqCounter := by simp only [BinaryTransport.send, Wired.begun, h.reqCounter]
  calls := by
    simp only [BinaryTransport.send, Wired.begun, h.reqCounter, h.calls, h.answered,
      List.length_map]
  replies := h.replies
  answered := h.answered
  closing := h.closing
  greeted := h.greeted
  held := h.held
  idle := h.idle
  requests := h.requests
  unanswered := h.unanswered
  stream hopen := by
    have hnone : t.requests <+: writeFrame next := by
      rw [(h.idle_of_quiet hquiet hopen).2]
      exact List.nil_prefix
    exact .inl ⟨(h.idle_of_quiet hquiet hopen).1, hnone⟩
  pending hopen := .inl (h.idle_of_quiet hquiet hopen).symm
  fits := hfits
  plain := hplain
  active other call hother hactive := by
    by_cases hsame : other = caller
    · subst hsame
      have hcalled := Option.some.inj ((Function.update_self other _ w.calls).symm.trans hother)
      subst hcalled
      cases hsent : (client.sendFrame w.reqCounter opcode envelope rawDocs).2 with
      | none => simp [Call.Active, hsent, CallPhase.ofSent] at hactive
      | some frame =>
        obtain rfl := hnext frame (by rw [hsent]; rfl)
        refine ⟨?_, ?_, fun left hleft ↦ ?_, Nat.le_succ _, fun _ ↦ .inl rfl⟩
        · simp only [Wired.begun, hsent, Function.update_self]
        · simp [Wired.begun]
        · obtain rfl : writeFrame next = left := by simpa [CallPhase.ofSent] using hleft
          refine ⟨?_, fun hopen ↦ ⟨(h.idle_of_quiet hquiet hopen).1, ?_⟩⟩
          · intro hnil
            have hbytes := length_writeFrame next
            rw [hnil, List.length_nil, headerSize] at hbytes
            omega
          · change t.requests ++ writeFrame next = _
            rw [(h.idle_of_quiet hquiet hopen).2, List.nil_append]
    · have hmem := (Function.update_of_ne hsame _ w.calls).symm.trans hother
      exact absurd hactive (hsettled other call hmem).not_active

/-- A call begins. -/
theorem Joined.send (h : Joined client decode serverMax w) {caller : ℕ} (opcode : Opcode)
    {envelope rawDocs : Bytes} (hfresh : w.calls caller = none)
    (hsettled : ∀ caller call, w.calls caller = some call → call.Settled)
    (hlength : 6 + (envelope.length + rawDocs.length) < 2 ^ 32) :
    Joined client decode serverMax (w.begun client caller opcode envelope rawDocs) := by
  obtain ⟨t, request, hinv, hlinked⟩ := h.linked
  have hcalm : t.Settled := fun other call hother ↦ hsettled other call (hlinked.calls ▸ hother)
  obtain ⟨next, hnext, hfits, hplain⟩ :=
    exists_request opcode hlinked.fits hlinked.plain hlength
  refine ⟨⟨_, next, invariant_send hinv hcalm hlength,
    hlinked.send (hinv.quiet hcalm) hsettled hnext hfits hplain⟩, ?_, h.replied, ?_, ?_⟩
  rotate_left
  · have hcalls : (w.begun client caller opcode envelope rawDocs).calls =
        Function.update w.calls caller (some _) := rfl
    refine h.ledger.send hfresh hsettled hcalls (fun other hne ↦ ?_) rfl rfl rfl fun hover ↦ ?_
    · exact Function.update_of_ne hne _ _
    cases hsent : (client.sendFrame w.reqCounter opcode envelope rawDocs).2 with
    | none => rfl
    | some frame => simp [Call.Settled, hsent, CallPhase.ofSent] at hover
  · intro other sent hsent
    by_cases hsame : other = caller
    · subst hsame
      have hframe := (Function.update_self other _ w.asked).symm.trans hsent
      exact hnext sent hframe ▸ hfits
    · exact h.sized other sent ((Function.update_of_ne hsame _ w.asked).symm.trans hsent)
  refine h.served.of_calls (fun other call hother ↦ ?_) List.prefix_rfl
    fun other call held reply hother hphase ↦ ?_
  · apply Function.update_of_ne
    intro hsame
    rw [hsame, hfresh] at hother
    cases hother
  · by_cases hsame : other = caller
    · subst hsame
      have hcalled := Option.some.inj ((Function.update_self other _ w.calls).symm.trans hother)
      subst hcalled
      cases hsent : (client.sendFrame w.reqCounter opcode envelope rawDocs).2 <;>
        simp [hsent, CallPhase.ofSent] at hphase
    · exact .inl ((Function.update_of_ne hsame _ w.calls).symm.trans hother)

/-- What a call has read that returned a reply is a reply to it. -/
theorem Invariant.isReply_of_ended (h : Invariant client t) {caller : ℕ} {call : Call}
    {held : Bytes} {reply : Document × Bytes} (hcall : t.calls caller = some call)
    (hphase : call.phase = .ended held (.ok reply)) :
    ∃ frame, call.IsReply t frame ∧ held = writeFrame frame := by
  have hown := h.correct caller call hcall
  rw [Call.GetsOwnReply, hphase] at hown
  obtain ⟨frame, hreply, hheld, -⟩ := hown.2 reply rfl
  exact ⟨frame, hreply, hheld⟩

/-- The call in progress writes a byte of its request. -/
theorem Joined.write (h : Joined client decode serverMax w) {caller : ℕ} {call : Call}
    (hcall : w.calls caller = some call) {byte : UInt8} {left : Bytes}
    (hphase : call.phase = .sending (byte :: left)) :
    Joined client decode serverMax
      { w with
        calls := Function.update w.calls caller (some { call with
          phase := if left.isEmpty then .reading [] else .sending left })
        toServer := w.toServer ++ [byte] } := by
  obtain ⟨t, request, hinv, hlinked⟩ := h.linked
  have hmem : t.calls caller = some call := hlinked.calls ▸ hcall
  have hactive : call.Active := by simp [Call.Active, hphase]
  have hunderway := hlinked.active caller call hcall hactive
  have hwhole := (hunderway.sending _ hphase).2
  have hnext := h.of_caller hinv hlinked hmem hactive (by cases left <;> simp)
    (invariant_write hinv hmem hphase)
    (fun hopen ↦ .inl ((hunderway.first hopen).resolve_right fun hdone ↦ hdone.2.2 _ hphase))
    (fun hopen ↦ .inr ⟨(hwhole hopen).1, left, by simpa using (hwhole hopen).2⟩)
    (fun rest hrest ↦ by
      cases left with
      | nil => cases hrest
      | cons next left =>
        obtain rfl : next :: left = rest := by simpa using hrest
        exact ⟨List.cons_ne_nil _ _, fun hopen ↦ by simpa using hwhole hopen⟩)
    (fun held reply hended ↦ by cases left <;> cases hended)
    (fun hover ↦ by cases left <;> simp [Call.Settled] at hover)
  rw [hlinked.replies] at hnext
  exact hnext

/-- The call in progress takes a byte. -/
theorem Joined.take (h : Joined client decode serverMax w) {caller : ℕ} {call : Call}
    (hcall : w.calls caller = some call) {held : Bytes} (hphase : call.phase = .reading held)
    (hwants : client.Wants held) {byte : UInt8} {replies : Bytes}
    (hreplies : w.toClient = byte :: replies) :
    Joined client decode serverMax
      { w with
        calls := Function.update w.calls caller
          (some { call with phase := .reading (held ++ [byte]) })
        toClient := replies } := by
  obtain ⟨t, request, hinv, hlinked⟩ := h.linked
  have hmem : t.calls caller = some call := hlinked.calls ▸ hcall
  have hactive : call.Active := by simp [Call.Active, hphase]
  apply h.of_reader hinv hlinked hmem hactive
  · exact invariant_take hinv hmem hphase hwants (hlinked.replies.trans hreplies)
  · simp
  · exact fun _ _ hended ↦ by cases hended
  · simp [Call.Settled]

/-- The first frame after a call has begun is a reply to it, or the server has left. -/
theorem Progress.counted {call : Call} {left : Bytes} {frame : Frame} {frames : List Frame}
    (h : Progress t call left (frame :: frames)) :
    call.since < t.answered.length ∨ t.closing = true := by
  generalize hall : frame :: frames = all at h
  cases h with
  | writing => exact absurd hall (List.cons_ne_nil _ _)
  | waiting => exact absurd hall (List.cons_ne_nil _ _)
  | answered reply _ _ _ hreply _ =>
    have hlength := List.length_pos_of_mem hreply.1
    rw [List.length_drop] at hlength
    left
    omega
  | left _ _ hclosing _ _ => exact .inr hclosing

/-- A call that has read a whole frame has its entry, or the server has left. -/
theorem Invariant.counted_of_whole (h : Invariant client t) {caller : ℕ} {call : Call}
    (hcall : t.calls caller = some call) {held : Bytes} (hphase : call.phase = .reading held)
    {extra : ℕ} (hwhole : IsWholeFrame (held ++ t.replies.take extra)) :
    call.since < t.answered.length ∨ t.closing = true := by
  have hstep := (h.alone caller call hcall (by simp [Call.Active, hphase])).1
  rw [Call.InStep, hphase] at hstep
  obtain ⟨frames, hprogress, hstream, -⟩ := hstep
  cases frames with
  | nil =>
    obtain ⟨hnone, hreplies⟩ := List.append_eq_nil_iff.mp hstream
    have hlength := hwhole.2
    rw [hnone, hreplies, List.take_nil, List.append_nil, List.length_nil, headerSize] at hlength
    omega
  | cons frame frames => exact hprogress.counted

/-- The call in progress finishes its read. -/
theorem Joined.finish
    (hdecode : ∀ bytes document, client.decode bytes = some document →
      ofLittleEndian (bytes.take 4) ≤ bytes.length)
    (h : Joined client decode serverMax w) {caller : ℕ} {call : Call}
    (hcall : w.calls caller = some call) {held : Bytes} (hphase : call.phase = .reading held)
    (hwants : ¬ client.Wants held) {extra : ℕ} (hextra : extra = 0 ∨ client.Jumps held) :
    Joined client decode serverMax
      { w with
        calls := Function.update w.calls caller (some { call with
          phase := .ended (held ++ w.toClient.take extra)
            (client.readReply (held ++ w.toClient.take extra)) })
        toClient := w.toClient.drop extra } := by
  obtain ⟨t, request, hinv, hlinked⟩ := h.linked
  have hmem : t.calls caller = some call := hlinked.calls ▸ hcall
  have hactive : call.Active := by simp [Call.Active, hphase]
  have hnext := invariant_finish hdecode hinv hmem hphase hwants hextra
  have hcounted : IsWholeFrame (held ++ t.replies.take extra) → _ :=
    hinv.counted_of_whole hmem hphase
  rw [hlinked.replies] at hnext hcounted
  rw [hlinked.answered, List.length_map, hlinked.closing] at hcounted
  apply h.of_reader hinv hlinked hmem hactive hnext
  · simp
  · intro bytes reply hended
    obtain ⟨frame, hreply, hwhole⟩ := hnext.isReply_of_ended (Function.update_self _ _ _) hended
    rw [hwhole]
    exact hlinked.serves h.replied hmem hactive hreply
  · exact hcounted

/-- The call in progress fails. -/
theorem Joined.fail (h : Joined client decode serverMax w) {caller : ℕ} {call : Call}
    (hcall : w.calls caller = some call) {held : Bytes}
    (hphase : (∃ left, call.phase = .sending left ∧ held = []) ∨ call.phase = .reading held) :
    Joined client decode serverMax
      { w with
        calls := Function.update w.calls caller (some { call with phase := .broken held }) } := by
  obtain ⟨t, request, hinv, hlinked⟩ := h.linked
  have hmem : t.calls caller = some call := hlinked.calls ▸ hcall
  have hactive : call.Active := by
    rcases hphase with ⟨left, hphase, -⟩ | hphase <;> simp [Call.Active, hphase]
  have hnext := h.of_reader hinv hlinked hmem hactive (invariant_fail hinv hmem hphase)
    (by simp) (fun _ _ hended ↦ by cases hended) fun hover ↦ by simp [Call.Settled] at hover
  rw [hlinked.replies] at hnext
  exact hnext

inductive CallerCase (client : Client) (w : Wired) : PoolEvent → Wired → Prop
  | send {caller : ℕ} {opcode : Opcode} {envelope rawDocs : Bytes}
      (hfresh : w.calls caller = none) :
      CallerCase client w (.send caller opcode envelope rawDocs)
        (w.begun client caller opcode envelope rawDocs)
  | write {caller : ℕ} {call : Call} {byte : UInt8} {left : Bytes}
      (hcall : w.calls caller = some call) (hphase : call.phase = .sending (byte :: left)) :
      CallerCase client w (.write caller)
        { w with
          calls := Function.update w.calls caller (some { call with
            phase := if left.isEmpty then .reading [] else .sending left })
          toServer := w.toServer ++ [byte] }
  | take {caller : ℕ} {call : Call} {held replies : Bytes} {byte : UInt8}
      (hcall : w.calls caller = some call) (hphase : call.phase = .reading held)
      (hwants : client.Wants held) (hreplies : w.toClient = byte :: replies) :
      CallerCase client w (.take caller)
        { w with
          calls := Function.update w.calls caller
            (some { call with phase := .reading (held ++ [byte]) })
          toClient := replies }
  | finish {caller extra : ℕ} {call : Call} {held : Bytes}
      (hcall : w.calls caller = some call) (hphase : call.phase = .reading held)
      (hwants : ¬ client.Wants held) (hextra : extra = 0 ∨ client.Jumps held) :
      CallerCase client w (.finish caller extra)
        { w with
          calls := Function.update w.calls caller (some { call with
            phase := .ended (held ++ w.toClient.take extra)
              (client.readReply (held ++ w.toClient.take extra)) })
          toClient := w.toClient.drop extra }
  | fail {caller : ℕ} {call : Call} {held : Bytes} (hcall : w.calls caller = some call)
      (hphase : (∃ left, call.phase = .sending left ∧ held = []) ∨ call.phase = .reading held) :
      CallerCase client w (.fail caller)
        { w with
          calls := Function.update w.calls caller (some { call with phase := .broken held }) }

theorem callerCase_of_step {event : PoolEvent} {w' : Wired}
    (hstep : w.step client serverMax (.client event) = some w') :
    CallerCase client w event w' := by
  rw [Wired.step] at hstep
  split_ifs at hstep with hcaller
  obtain ⟨u, hu, rfl⟩ := Option.map_eq_some_iff.mp hstep
  cases event with
  | send caller opcode envelope rawDocs =>
    simp only [BinaryTransport.step] at hu
    split at hu
    · cases hu
    · rename_i hfresh
      obtain rfl := Option.some.inj hu
      have hsent : CallerCase client w (.send caller opcode envelope rawDocs) _ := .send hfresh
      simpa only [BinaryTransport.send, Wired.callerView, Wired.askedAfter, Wired.begun,
        List.length_map] using hsent
  | write caller =>
    obtain ⟨call, hcall, hwrite⟩ := Option.bind_eq_some_iff.mp hu
    split at hwrite
    · rename_i byte left hphase
      obtain rfl := Option.some.inj hwrite
      exact .write hcall hphase
    · cases hwrite
  | take caller =>
    obtain ⟨call, hcall, htake⟩ := Option.bind_eq_some_iff.mp hu
    split at htake
    · rename_i held byte replies hphase hreplies
      split_ifs at htake with hwants
      obtain rfl := Option.some.inj htake
      exact .take hcall hphase hwants hreplies
    · cases htake
  | finish caller extra =>
    obtain ⟨call, hcall, hfinish⟩ := Option.bind_eq_some_iff.mp hu
    split at hfinish
    · rename_i held hphase
      split_ifs at hfinish with hready
      obtain rfl := Option.some.inj hfinish
      exact .finish hcall hphase hready.1 hready.2
    · cases hfinish
  | fail caller =>
    obtain ⟨call, hcall, hfail⟩ := Option.bind_eq_some_iff.mp hu
    split at hfail
    · rename_i left hphase
      obtain rfl := Option.some.inj hfail
      exact .fail hcall (.inl ⟨left, hphase, rfl⟩)
    · rename_i held hphase
      obtain rfl := Option.some.inj hfail
      exact .fail hcall (.inr hphase)
    · cases hfail
  | receive | reply | drop | leave => cases hcaller

/-- A step of a caller keeps the invariant. -/
theorem joined_client
    (hdecode : ∀ bytes document, client.decode bytes = some document →
      ofLittleEndian (bytes.take 4) ≤ bytes.length)
    (h : Joined client decode serverMax w) {event : PoolEvent} {w' : Wired}
    (horderly : w.Orderly decode (.client event))
    (hstep : w.step client serverMax (.client event) = some w') :
    Joined client decode serverMax w' := by
  cases callerCase_of_step hstep with
  | send hfresh => exact h.send _ hfresh horderly.1 horderly.2
  | write hcall hphase => exact h.write hcall hphase
  | take hcall hphase hwants hreplies => exact h.take hcall hphase hwants hreplies
  | finish hcall hphase hwants hextra => exact h.finish hdecode hcall hphase hwants hextra
  | fail hcall hphase => exact h.fail hcall hphase

end Steps

end MongoCore.Clients
