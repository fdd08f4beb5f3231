import MongoCore.Clients.MethodRequests
import MongoCore.Clients.Service
import MongoCore.Transport.FrameLimit

/-!
# The clients of one database

The connections of a pool end in tasks of one server, and the tasks perform their operations on one
database.  A log records what was performed, in which order and on which state, and where in the log
each call began.

The calls are linearised.  The entries of the log belong to the calls, no two to the same one; each
was performed after its call began; and every call that returns a reply has an entry.  What such a
call returns is the result of its operation in the state in which the operation found the database.
-/

namespace MongoCore.Clients

open MongoCore.Data MongoCore.Transport MongoCore.Library.TransitionSystem

/-! ## Positions in a log -/

section Positions

variable {α : Type*} {p : α → Bool} {log : List α}

theorem countP_take_lt {k l : ℕ} {entry : α} (hentry : log[k]? = some entry) (hp : p entry)
    (hlt : k < l) : (log.take k).countP p < (log.take l).countP p := by
  calc (log.take k).countP p
      < (log.take (k + 1)).countP p := by
        simp [List.take_add_one, hentry, hp]
    _ ≤ (log.take l).countP p :=
        (List.take_sublist_take_left (Nat.succ_le_of_lt hlt)).countP_le

/-- An entry is found among those of its kind by the number of those before it. -/
theorem getElem?_filter_iff {i : ℕ} {entry : α} :
    (log.filter p)[i]? = some entry ↔
      ∃ k, log[k]? = some entry ∧ p entry ∧ (log.take k).countP p = i := by
  induction log generalizing i with
  | nil => simp
  | cons first log ih =>
    by_cases hfirst : p first
    · rw [List.filter_cons_of_pos hfirst]
      cases i with
      | zero =>
        constructor
        · intro h
          obtain rfl := Option.some.inj h
          exact ⟨0, rfl, hfirst, rfl⟩
        · rintro ⟨k, hentry, -, hcount⟩
          cases k with
          | zero => exact hentry
          | succ k => simp [hfirst] at hcount
      | succ i =>
        rw [List.getElem?_cons_succ, ih]
        constructor
        · rintro ⟨k, hentry, hp, hcount⟩
          exact ⟨k + 1, hentry, hp, by simp [hfirst, hcount]⟩
        · rintro ⟨k, hentry, hp, hcount⟩
          cases k with
          | zero => simp at hcount
          | succ k => exact ⟨k, hentry, hp, by simpa [hfirst] using hcount⟩
    · rw [List.filter_cons_of_neg hfirst, ih]
      constructor
      · rintro ⟨k, hentry, hp, hcount⟩
        exact ⟨k + 1, hentry, hp, by simp [hfirst, hcount]⟩
      · rintro ⟨k, hentry, hp, hcount⟩
        cases k with
        | zero =>
          obtain rfl := Option.some.inj hentry
          exact absurd hp hfirst
        | succ k => exact ⟨k, hentry, hp, by simpa [hfirst] using hcount⟩

end Positions

/-! ## The database -/

/-- A database whose operations are atomic: what one returns, and the state after it. -/
structure SharedDatabase (σ : Type*) where
  perform : (call : OperationCall) → σ → Except String call.Result × σ

/-- A request that the server has processed: its connection, the request, and the state of the
database before. -/
structure Performed (σ : Type*) where
  connection : ℕ
  frame : Frame
  before : σ

/-- What is recorded of a run: the state of the database, the requests that were processed, and how
many there were when a call began. -/
structure Kept (σ : Type*) where
  state : σ
  log : List (Performed σ)
  began : ℕ → ℕ → ℕ

section Database

variable {σ : Type*} (library : BsonLibrary) (database : SharedDatabase σ)

def SharedDatabase.response (state : σ) (frame : Frame) : OperationResponse :=
  responseTo library frame fun call ↦ (database.perform call state).1

def SharedDatabase.after (state : σ) (frame : Frame) : σ :=
  match callOf library frame with
  | none => state
  | some call => (database.perform call state).2

def SharedDatabase.replay (initial : σ) (log : List (Performed σ)) : σ :=
  log.foldl (fun state performed ↦ database.after library state performed.frame) initial

/-- A processed request with the reply to it. -/
def SharedDatabase.exchange (performed : Performed σ) : Frame × Frame :=
  let response := database.response library performed.before performed.frame
  (performed.frame, serverFrame (answerOpcode performed.frame response)
    performed.frame.header.reqId (encodeResponse response))

/-- The entry that a step adds to the log, if the server processes a request. -/
def processed (pool : WiredPool) (state : σ) : ℕ × WiredEvent → List (Performed σ)
  | (connection, .server (.process _ _ _)) =>
      match (pool.connections connection).server.phase with
      | .processing frame => [⟨connection, frame, state⟩]
      | _ => []
  | _ => []

def Kept.beganAfter (kept : Kept σ) : ℕ × WiredEvent → ℕ → ℕ → ℕ
  | (connection, .client (.send caller _ _ _)) => Function.update kept.began connection
      (Function.update (kept.began connection) caller kept.log.length)
  | _ => kept.began

def Kept.record (pool : WiredPool) (kept : Kept σ) (event : ℕ × WiredEvent) : Kept σ where
  state := database.replay library kept.state (processed pool kept.state event)
  log := kept.log ++ processed pool kept.state event
  began := kept.beganAfter event

/-- The lengths of a response fit their fields. -/
def IsSized (response : OperationResponse) : Prop :=
  response.envelopeSize < 2 ^ 31 ∧
    6 + (response.envelopeSize + response.rawDocs.length) < 2 ^ 32

/-- The steps are orderly, and the server answers with the result of the operation, in lengths that
fit their fields. -/
def Answers (current : WiredPool × Kept σ) (event : ℕ × WiredEvent) : Prop :=
  current.1.Orderly library.fromSlice event ∧
    ∀ outcome failAt flushOk, event.2 = .server (.process outcome failAt flushOk) →
      ∀ frame, (current.1.connections event.1).server.phase = .processing frame →
        outcome = outcomeOf library.fromSlice frame
            (database.response library current.2.state frame) ∧
          IsSized (database.response library current.2.state frame)

/-! ## Linearised calls -/

/-- Each request of the log found the state that the requests before it have left. -/
def Kept.Serial (initial : σ) (kept : Kept σ) : Prop :=
  kept.state = database.replay library initial kept.log ∧
    ∀ k performed, kept.log[k]? = some performed →
      performed.before = database.replay library initial (kept.log.take k)

/-- The entries of the log belong to calls, no two to the same: each is the request of its call and
was performed after the call began.  Every call that has returned a reply has an entry, and has read
the reply to it. -/
structure Linearizes (serverMax : ℕ) (pool : WiredPool) (kept : Kept σ) (owner : ℕ → ℕ × ℕ) :
    Prop where
  own : ∀ k performed, kept.log[k]? = some performed → (owner k).1 = performed.connection ∧
    kept.began (owner k).1 (owner k).2 ≤ k ∧
      ∃ call request, (pool.connections (owner k).1).Asks (owner k).2 call ∧
        (pool.connections (owner k).1).asked (owner k).2 = some request ∧
          readResult serverMax (writeFrame request) = .ok performed.frame
  injective : ∀ k l, k < kept.log.length → l < kept.log.length → owner k = owner l → k = l
  returned : ∀ connection caller call held reply,
    (pool.connections connection).calls caller = some call → call.phase = .ended held (.ok reply) →
      ∃ k performed, kept.log[k]? = some performed ∧ owner k = (connection, caller) ∧
        held = writeFrame (database.exchange library performed).2

def ofConnection (connection : ℕ) (performed : Performed σ) : Bool :=
  performed.connection = connection

/-- The invariant: every connection is in order, the log holds what the connections have exchanged,
and a call began when the log had as many entries of its connection as the connection had
exchanged. -/
structure Logged (client : Client) (serverMax : ℕ) (initial : σ)
    (current : WiredPool × Kept σ) : Prop where
  joined : ∀ connection,
    Joined client library.fromSlice serverMax (current.1.connections connection)
  serial : current.2.Serial library database initial
  exchanges : ∀ connection, (current.1.connections connection).exchanges =
    (current.2.log.filter (ofConnection connection)).map (database.exchange library)
  began : ∀ connection caller call, (current.1.connections connection).Asks caller call →
    current.2.began connection caller ≤ current.2.log.length ∧
      (current.2.log.take (current.2.began connection caller)).countP (ofConnection connection) =
        call.since
  sized : ∀ performed ∈ current.2.log,
    IsSized (database.response library performed.before performed.frame)

/-! ## Steps -/

/-- What an event processes on its connection, with the replies. -/
def WiredEvent.processed (s : State) : WiredEvent → List (Frame × Frame)
  | .server event => Wired.exchangesOf s event
  | _ => []

section Steps

variable {library database} {client : Client} {serverMax : ℕ} {w w' : Wired}

/-- What a step adds to the exchanges of a connection. -/
theorem Wired.exchanges_of_step {event : WiredEvent}
    (h : w.step client serverMax event = some w') :
    w'.exchanges = w.exchanges ++ event.processed w.server := by
  cases event with
  | client event =>
    rw [Wired.step] at h
    split_ifs at h
    obtain ⟨t, -, rfl⟩ := Option.map_eq_some_iff.mp h
    exact (List.append_nil _).symm
  | deliver count =>
    obtain ⟨s', -, rfl⟩ := Option.map_eq_some_iff.mp h
    exact (List.append_nil _).symm
  | server event =>
    obtain ⟨-, s', -, rfl⟩ := Wired.exists_of_server h
    rfl

/-- A call that has a request had one before, or has just begun. -/
theorem Wired.asks_of_step {event : WiredEvent} (h : w.step client serverMax event = some w')
    {caller : ℕ} {call : Call} (hasks : w'.Asks caller call) :
    ((∃ earlier, w.Asks caller earlier ∧ earlier.since = call.since) ∧
        ∀ opcode envelope rawDocs, event ≠ .client (.send caller opcode envelope rawDocs)) ∨
      ((∃ opcode envelope rawDocs, event = .client (.send caller opcode envelope rawDocs)) ∧
        call.since = w.exchanges.length) := by
  have hsame : w'.calls = w.calls → ∃ earlier, w.Asks caller earlier ∧
      earlier.since = call.since := by
    intro hcalls
    exact ⟨call, ⟨hcalls ▸ hasks.1, hasks.2⟩, rfl⟩
  -- a call that goes on was not refused
  have hgoes : ∀ other otherCall phase, w.calls other = some otherCall →
      otherCall.phase ≠ .refused →
        w'.calls = Function.update w.calls other (some { otherCall with phase := phase }) →
          ∃ earlier, w.Asks caller earlier ∧ earlier.since = call.since := by
    intro other otherCall phase hother hphase hcalls
    have hcall := hasks.1
    rw [hcalls] at hcall
    by_cases hcaller : caller = other
    · subst hcaller
      rw [Function.update_self] at hcall
      exact ⟨otherCall, ⟨hother, hphase⟩, by rw [← Option.some.inj hcall]⟩
    · rw [Function.update_of_ne hcaller] at hcall
      exact ⟨call, ⟨hcall, hasks.2⟩, rfl⟩
  cases event with
  | deliver count =>
    obtain ⟨s', -, rfl⟩ := Option.map_eq_some_iff.mp h
    exact .inl ⟨hsame rfl, by simp⟩
  | server event =>
    obtain ⟨-, s', -, rfl⟩ := Wired.exists_of_server h
    exact .inl ⟨hsame rfl, by simp⟩
  | client event =>
    cases callerCase_of_step h with
    | @send other opcode envelope rawDocs hfresh =>
      have hcall := hasks.1
      by_cases hother : caller = other
      · subst hother
        obtain rfl := Option.some.inj ((Function.update_self caller _ w.calls).symm.trans hcall)
        exact .inr ⟨⟨opcode, envelope, rawDocs, rfl⟩, rfl⟩
      · have hbefore := (Function.update_of_ne hother _ w.calls).symm.trans hcall
        refine .inl ⟨⟨call, ⟨hbefore, hasks.2⟩, rfl⟩, ?_⟩
        simp [Ne.symm hother]
    | write hother hphase => exact .inl ⟨hgoes _ _ _ hother (by simp [hphase]) rfl, by simp⟩
    | take hother hphase => exact .inl ⟨hgoes _ _ _ hother (by simp [hphase]) rfl, by simp⟩
    | finish hother hphase => exact .inl ⟨hgoes _ _ _ hother (by simp [hphase]) rfl, by simp⟩
    | fail hother hphase =>
      refine .inl ⟨hgoes _ _ _ hother ?_ rfl, by simp⟩
      rcases hphase with ⟨left, hphase, -⟩ | hphase <;> simp [hphase]

/-- The response to a request is the answer to it. -/
theorem answerTo_response (state : σ) (frame : Frame) :
    answerTo library.fromSlice frame (database.response library state frame) =
      database.response library state frame := by
  unfold answerTo SharedDatabase.response responseTo
  cases parseEnvelope library.fromSlice frame.envelope frame.header.flags.opcode <;> rfl

section Pool

variable {size : ℕ} {initial : σ} {pool : WiredPool} {kept : Kept σ} {event : ℕ × WiredEvent}

/-- What a connection exchanges in a step is what the step adds to the log. -/
theorem map_exchange_processed (h : Answers library database (pool, kept) event) :
    (processed pool kept.state event).map (database.exchange library) =
      event.2.processed (pool.connections event.1).server := by
  obtain ⟨connection, event⟩ := event
  cases event with
  | client event => cases event <;> rfl
  | deliver count => rfl
  | server event =>
    cases event with
    | process outcome failAt flushOk =>
      cases hphase : (pool.connections connection).server.phase with
      | processing frame =>
        obtain ⟨houtcome, -⟩ := h.2 outcome failAt flushOk rfl frame hphase
        have hreply := reply?_outcomeOf library.fromSlice frame
          (database.response library kept.state frame)
        rw [← houtcome, answerTo_response] at hreply
        simp [processed, WiredEvent.processed, Wired.exchangesOf, hphase, hreply,
          SharedDatabase.exchange]
      | _ => simp [processed, WiredEvent.processed, Wired.exchangesOf, hphase]
    | _ => rfl

/-- What a step adds to the log belongs to its connection and found the state of before. -/
theorem processed_cases (pool : WiredPool) (state : σ) (event : ℕ × WiredEvent) :
    processed pool state event = [] ∨ ∃ frame outcome failAt flushOk,
      event.2 = .server (.process outcome failAt flushOk) ∧
        (pool.connections event.1).server.phase = .processing frame ∧
          processed pool state event = [⟨event.1, frame, state⟩] := by
  obtain ⟨connection, event⟩ := event
  cases event with
  | client event => exact .inl (by cases event <;> rfl)
  | deliver count => exact .inl rfl
  | server event =>
    cases event with
    | process outcome failAt flushOk =>
      cases hphase : (pool.connections connection).server.phase with
      | processing frame =>
        exact .inr ⟨frame, outcome, failAt, flushOk, rfl, rfl, by simp [processed, hphase]⟩
      | _ => exact .inl (by simp [processed, hphase])
    | _ => exact .inl rfl

/-- Only the beginning of a call changes where it began. -/
theorem Kept.beganAfter_of_ne (kept : Kept σ) {connection caller : ℕ}
    (h : connection = event.1 → ∀ opcode envelope rawDocs,
      event.2 ≠ .client (.send caller opcode envelope rawDocs)) :
    kept.beganAfter event connection caller = kept.began connection caller := by
  obtain ⟨other, event⟩ := event
  cases event with
  | client event =>
    cases event with
    | send begun opcode envelope rawDocs =>
      by_cases hsame : connection = other
      · subst hsame
        have hne : caller ≠ begun := by
          rintro rfl
          exact h rfl opcode envelope rawDocs rfl
        simp [Kept.beganAfter, Function.update_of_ne hne]
      · simp [Kept.beganAfter, Function.update_of_ne hsame]
    | _ => rfl
  | _ => rfl

/-- A log stays serial. -/
theorem Kept.Serial.record (h : kept.Serial library database initial) :
    (kept.record library database pool event).Serial library database initial := by
  obtain ⟨hstate, hbefore⟩ := h
  refine ⟨?_, fun k performed hentry ↦ ?_⟩
  · calc database.replay library kept.state (processed pool kept.state event)
        = database.replay library (database.replay library initial kept.log)
            (processed pool kept.state event) :=
          congrArg (fun state ↦ database.replay library state (processed pool kept.state event))
            hstate
      _ = database.replay library initial (kept.log ++ processed pool kept.state event) :=
          List.foldl_append.symm
  · change (kept.log ++ processed pool kept.state event)[k]? = some performed at hentry
    change _ = database.replay library initial
      ((kept.log ++ processed pool kept.state event).take k)
    rcases Nat.lt_or_ge k kept.log.length with hold | hnew
    · rw [List.getElem?_append_left hold] at hentry
      rw [List.take_append_of_le_length (Nat.le_of_lt hold)]
      exact hbefore k performed hentry
    · rw [List.getElem?_append_right hnew] at hentry
      rcases processed_cases pool kept.state event with hnone | ⟨frame, -, -, -, -, -, hone⟩
      · rw [hnone] at hentry
        cases hentry
      · rw [hone, List.getElem?_singleton] at hentry
        split_ifs at hentry with hlast
        obtain rfl := Option.some.inj hentry
        obtain rfl : k = kept.log.length := by omega
        rw [List.take_left' rfl]
        exact hstate

/-- Where a call began, the log had as many entries of its connection as the connection had
exchanged. -/
theorem Logged.began_record
    (h : Logged library database client serverMax initial (pool, kept))
    (hw : (pool.connections event.1).step client serverMax event.2 = some w)
    {connection caller : ℕ} {call : Call}
    (hasks : (Function.update pool.connections event.1 w connection).Asks caller call) :
    kept.beganAfter event connection caller ≤
        (kept.log ++ processed pool kept.state event).length ∧
      ((kept.log ++ processed pool kept.state event).take
        (kept.beganAfter event connection caller)).countP (ofConnection connection) =
          call.since := by
  -- what was before a call began stays so
  have hkeeps : (connection = event.1 → ∀ opcode envelope rawDocs,
      event.2 ≠ .client (.send caller opcode envelope rawDocs)) →
        ∀ earlier, (pool.connections connection).Asks caller earlier →
          earlier.since = call.since →
            kept.beganAfter event connection caller ≤
                (kept.log ++ processed pool kept.state event).length ∧
              ((kept.log ++ processed pool kept.state event).take
                (kept.beganAfter event connection caller)).countP (ofConnection connection) =
                  call.since := by
    intro hne earlier hearlier hsince
    obtain ⟨hbound, hcount⟩ := h.began connection caller earlier hearlier
    rw [kept.beganAfter_of_ne hne, List.take_append_of_le_length hbound, List.length_append]
    exact ⟨Nat.le_add_right_of_le hbound, hcount.trans hsince⟩
  by_cases hsame : connection = event.1
  · subst hsame
    rw [Function.update_self] at hasks
    rcases Wired.asks_of_step hw hasks with
      ⟨⟨earlier, hearlier, hsince⟩, hne⟩ | ⟨⟨opcode, envelope, rawDocs, hsend⟩, hsince⟩
    · exact hkeeps (fun _ ↦ hne) earlier hearlier hsince
    · obtain ⟨connection, event⟩ := event
      obtain rfl : event = .client (.send caller opcode envelope rawDocs) := hsend
      have hbegan : kept.beganAfter (connection, .client (.send caller opcode envelope rawDocs))
          connection caller = kept.log.length := by
        simp [Kept.beganAfter]
      have hcount : kept.log.countP (ofConnection connection) = call.since := by
        rw [hsince, h.exchanges, List.length_map, List.countP_eq_length_filter]
      rw [hbegan]
      simp [processed, hcount]
  · rw [Function.update_of_ne hsame] at hasks
    exact hkeeps (fun heq ↦ absurd heq hsame) call hasks rfl

/-- A step keeps the invariant. -/
theorem logged_step
    (hdecode : ∀ bytes document, client.decode bytes = some document →
      ofLittleEndian (bytes.take 4) ≤ bytes.length)
    {current next : WiredPool × Kept σ}
    (h : Logged library database client serverMax initial current)
    (hanswers : Answers library database current event)
    (hstep : recorded (WiredPool.step client serverMax size) (Kept.record library database)
      current event = some next) :
    Logged library database client serverMax initial next := by
  obtain ⟨pool, kept⟩ := current
  obtain ⟨nextPool, nextKept⟩ := next
  obtain ⟨hpool, rfl⟩ := recorded_eq_some.mp hstep
  obtain ⟨w, hw, hconnections⟩ := WiredPool.connections_of_step hpool
  have hexchanges := map_exchange_processed hanswers
  refine ⟨joined_of_step hdecode h.joined hanswers.1 hpool, h.serial.record, fun connection ↦ ?_,
    fun connection caller call hasks ↦ ?_, fun performed hmem ↦ ?_⟩
  · change (nextPool.connections connection).exchanges =
      ((kept.log ++ processed pool kept.state event).filter (ofConnection connection)).map _
    rw [List.filter_append, List.map_append, ← h.exchanges, hconnections]
    by_cases hsame : connection = event.1
    · subst hsame
      have hall : (processed pool kept.state event).filter (ofConnection event.1) =
          processed pool kept.state event := by
        rcases processed_cases pool kept.state event with hnone | ⟨frame, -, -, -, -, -, hone⟩
        · rw [hnone, List.filter_nil]
        · simp [hone, ofConnection]
      rw [Function.update_self, Wired.exchanges_of_step hw, hall, hexchanges]
    · have hnone : (processed pool kept.state event).filter (ofConnection connection) = [] := by
        rcases processed_cases pool kept.state event with hnone | ⟨frame, -, -, -, -, -, hone⟩
        · rw [hnone, List.filter_nil]
        · simp [hone, ofConnection, Ne.symm hsame]
      rw [Function.update_of_ne hsame, hnone, List.map_nil, List.append_nil]
  · dsimp only at hasks
    rw [hconnections] at hasks
    exact h.began_record hw hasks
  · change performed ∈ kept.log ++ processed pool kept.state event at hmem
    rcases List.mem_append.mp hmem with hmem | hmem
    · exact h.sized performed hmem
    · rcases processed_cases pool kept.state event with
        hnone | ⟨frame, outcome, failAt, flushOk, hevent, hphase, hone⟩
      · rw [hnone] at hmem
        cases hmem
      · rw [hone] at hmem
        obtain rfl := List.mem_singleton.mp hmem
        exact (hanswers.2 outcome failAt flushOk hevent frame hphase).2

theorem logged_connected (client : Client) (serverMax : ℕ) (initial : σ) (first reply : Frame) :
    Logged library database client serverMax initial
      (.connected first reply, { state := initial, log := [], began := fun _ _ ↦ 0 }) where
  joined _ := joined_connected client library.fromSlice serverMax first reply
  serial := ⟨rfl, fun k performed hentry ↦ by simp at hentry⟩
  exchanges _ := rfl
  began connection caller call hasks := by
    simp [WiredPool.connected, Wired.connected, Wired.Asks] at hasks
  sized performed hmem := by simp at hmem

/-! ## The order of the log -/

/-- Every entry of the log has a call. -/
theorem Logged.exists_owner (h : Logged library database client serverMax initial (pool, kept))
    (k : ℕ) : ∃ owner : ℕ × ℕ, ∀ performed, kept.log[k]? = some performed →
      owner.1 = performed.connection ∧ ∃ call request,
        (pool.connections owner.1).Asks owner.2 call ∧
          call.since = (kept.log.take k).countP (ofConnection owner.1) ∧
            (pool.connections owner.1).asked owner.2 = some request ∧
              readResult serverMax (writeFrame request) = .ok performed.frame := by
  cases hentry : kept.log[k]? with
  | none => exact ⟨(0, 0), fun performed hsome ↦ by cases hsome⟩
  | some performed =>
    have hown : ofConnection performed.connection performed = true := by simp [ofConnection]
    have hfilter := getElem?_filter_iff.mpr ⟨k, hentry, hown, rfl⟩
    have hexchange : (pool.connections performed.connection).exchanges[
        (kept.log.take k).countP (ofConnection performed.connection)]? =
          some (database.exchange library performed) := by
      rw [h.exchanges, List.getElem?_map, hfilter]
      rfl
    obtain ⟨caller, call, request, hasks, hsince, hasked, hread⟩ :=
      (h.joined performed.connection).ledger.owner _ _ hexchange
    refine ⟨(performed.connection, caller), fun other hother ↦ ?_⟩
    obtain rfl := Option.some.inj hother
    exact ⟨rfl, call, request, hasks, hsince, hasked, hread⟩

/-- The calls are linearised by the log. -/
theorem Logged.exists_linearizes
    (h : Logged library database client serverMax initial (pool, kept)) :
    ∃ owner, Linearizes library database serverMax pool kept owner := by
  choose owner howner using h.exists_owner
  refine ⟨owner, fun k performed hentry ↦ ?_, fun k l hk hl hsame ↦ ?_,
    fun connection caller call held reply hcall hphase ↦ ?_⟩
  · obtain ⟨hconnection, call, request, hasks, hsince, hasked, hread⟩ := howner k performed hentry
    refine ⟨hconnection, ?_, call, request, hasks, hasked, hread⟩
    by_contra hlate
    have hown : ofConnection (owner k).1 performed = true := by simp [ofConnection, hconnection]
    have hless := countP_take_lt hentry hown (Nat.not_le.mp hlate)
    rw [(h.began _ _ call hasks).2, hsince] at hless
    exact lt_irrefl _ hless
  · have hk := List.getElem?_eq_getElem hk
    have hl := List.getElem?_eq_getElem hl
    obtain ⟨hfirst, call, -, hcall, hsince, -⟩ := howner k _ hk
    obtain ⟨hsecond, other, -, hother, hotherSince, -⟩ := howner l _ hl
    rw [← hsame] at hsecond hother hotherSince
    obtain rfl := Option.some.inj (hcall.1.symm.trans hother.1)
    rcases Nat.lt_trichotomy k l with hlt | heq | hlt
    · have hless := countP_take_lt hk (by simp [ofConnection, hfirst] :
        ofConnection (owner k).1 _ = true) hlt
      omega
    · exact heq
    · have hless := countP_take_lt hl (by simp [ofConnection, hsecond] :
        ofConnection (owner k).1 _ = true) hlt
      omega
  · have hjoined := h.joined connection
    obtain ⟨request, frame, response, hasked, hread, hentry, rfl⟩ :=
      hjoined.served caller call held reply hcall hphase
    have hasks : (pool.connections connection).Asks caller call := ⟨hcall, by simp [hphase]⟩
    have hcount := (List.getElem?_eq_some_iff.mp hentry).1
    dsimp only at hentry
    rw [h.exchanges, List.getElem?_map] at hentry
    obtain ⟨performed, hperformed, hexchange⟩ := Option.map_eq_some_iff.mp hentry
    obtain ⟨k, hk, hown, hposition⟩ := getElem?_filter_iff.mp hperformed
    obtain rfl : performed.connection = connection := by simpa [ofConnection] using hown
    refine ⟨k, performed, hk, ?_, by rw [hexchange]⟩
    obtain ⟨hconnection, other, -, hother, hsince, -⟩ := howner k performed hk
    rw [hconnection] at hother hsince
    have hcaller := hjoined.ledger.unique caller call (owner k).2 other hasks hother
      (by rw [hsince, hposition]) (.inl hcount)
    exact Prod.ext hconnection hcaller

end Pool

end Steps

end Database

/-! ## What the calls return -/

section Returns

variable {client : Client} {method : Method} {reqId : ℕ} {response : OperationResponse}

/-- What a call that has read a reply makes of the response in it.  Only the Java client takes an
error for a result.  Of any other response a call returns the values, if its library has such values
and keeps them. -/
def Client.Returns (client : Client) (runtime : Runtime) (method : Method) (held : Bytes)
    (response : OperationResponse) : Prop :=
  (response.isError = true → client.language = .java) ∧
    (response.isError = false → (∃ returned, client.Contains method response returned) →
      client.language.KeepsValues response → ∃ returned,
        client.reply runtime method held = .ok returned ∧
          client.Contains method response returned)

/-- A client that has read a reply accepts its length. -/
theorem accepts_of_readReply (hframed : Framed reqId response) {reply : Document × Bytes}
    (h : client.readReply (writeFrame (replyFrame method reqId response)) = .ok reply) :
    client.Accepts (response.envelopeSize + response.rawDocs.length) := by
  cases hlength : client.payloadLen (6 + (response.envelopeSize + response.rawDocs.length)) with
  | ok count => exact ⟨count, hlength⟩
  | error refusal =>
    rw [Client.readReply, readFrame_replyFrame client method hframed, hlength] at h
    cases h

/-- Only the Java client reads the reply with an error. -/
theorem java_of_readReply (hplain : client.ReadsPlain) (hframed : Framed reqId response)
    {reply : Document × Bytes}
    (h : client.readReply (writeFrame (replyFrame method reqId response)) = .ok reply)
    (herror : response.isError = true) : client.language = .java := by
  by_contra hlanguage
  cases response with
  | error code message =>
    obtain ⟨error, hpayload, -⟩ :=
      exists_error_of_readPayload hplain hframed.envelope hlanguage
    obtain ⟨count, hlength⟩ := accepts_of_readReply hframed h
    have hframe : client.readFrame
        (writeFrame (replyFrame method reqId (.error code message))) = .error error := by
      rw [readFrame_replyFrame client method hframed, hlength]
      exact hpayload
    rw [Client.readReply, hframe] at h
    cases h
  | _ => cases herror

theorem returns_of_readReply (runtime : Runtime) (hplain : client.ReadsPlain)
    (hframed : Framed reqId response) {reply : Document × Bytes}
    (h : client.readReply (writeFrame (replyFrame method reqId response)) = .ok reply) :
    client.Returns runtime method (writeFrame (replyFrame method reqId response)) response := by
  refine ⟨java_of_readReply hplain hframed h, fun hresponse hcontains hkeeps ↦ ?_⟩
  apply (exists_contains_iff runtime hplain hframed hresponse hcontains).mpr
  exact ⟨accepts_of_readReply hframed h, hkeeps⟩

end Returns

/-- The clients of a database are linearised, and see it.  However the steps of callers, network and
tasks interleave on all connections of a pool, the log is a serial execution, its entries belong to
the calls, and a method that returns has performed exactly its operation, once, and returns what the
database has answered to it. -/
theorem calls_linearized_of_run {σ : Type*} (client : Client) (runtime : Runtime)
    (library : BsonLibrary) (database : SharedDatabase σ) (serverMax size : ℕ) (initial : σ)
    (first reply : Frame)
    (hdecode : ∀ bytes document, client.decode bytes = some document →
      ofLittleEndian (bytes.take 4) ≤ bytes.length)
    (hplain : client.ReadsPlain)
    (hlibrary : ∀ document, DocumentFits document →
      library.fromSlice (toVec document) = .ok document)
    {events : List (ℕ × WiredEvent)} {pool : WiredPool} {kept : Kept σ}
    (hanswers : StepsMeet (recorded (WiredPool.step client serverMax size)
        (Kept.record library database)) (Answers library database)
      (.connected first reply, { state := initial, log := [], began := fun _ _ ↦ 0 }) events)
    (hrun : run (recorded (WiredPool.step client serverMax size) (Kept.record library database))
      (.connected first reply, { state := initial, log := [], began := fun _ _ ↦ 0 }) events =
        some (pool, kept)) :
    kept.Serial library database initial ∧
      ∃ owner, Linearizes library database serverMax pool kept owner ∧
        ∀ connection caller call held reply,
          (pool.connections connection).calls caller = some call →
          call.phase = .ended held (.ok reply) →
          ∀ db collection (methodCall : MethodCall) envelope reqId,
            client.Sends db collection methodCall envelope →
            (pool.connections connection).asked caller = some (requestFrame
              methodCall.method.opcode reqId (toVec envelope) methodCall.rawDocs) →
            ∃ k performed, kept.log[k]? = some performed ∧ owner k = (connection, caller) ∧
              callOf library performed.frame =
                some (methodCall.dispatched library db collection).call ∧
              client.Returns runtime methodCall.method held (resultResponse
                (methodCall.dispatched library db collection) (database.perform
                  (methodCall.dispatched library db collection).call performed.before).1) := by
  have hlogged : Logged library database client serverMax initial (pool, kept) :=
    invariant_of_run (fun _ _ _ h hmet hstep ↦ logged_step hdecode h hmet hstep)
      (logged_connected client serverMax initial first reply) hanswers hrun
  obtain ⟨owner, howner⟩ := hlogged.exists_linearizes
  refine ⟨hlogged.serial, owner, howner, ?_⟩
  intro connection caller call held reply hcall hphase db collection methodCall envelope reqId
    hsends hasked
  obtain ⟨k, performed, hentry, hown, hheld⟩ :=
    howner.returned connection caller call held reply hcall hphase
  obtain ⟨-, -, other, request, -, hrequest, hread⟩ := howner.own k performed hentry
  rw [hown] at hrequest
  obtain rfl := Option.some.inj (hasked.symm.trans hrequest)
  have hfits := (hlogged.joined connection).sized caller _ hasked
  obtain ⟨hcallOf, hresponse⟩ := serves_of_sends hlibrary hsends hfits hread
  refine ⟨k, performed, hentry, hown, hcallOf, ?_⟩
  rw [← hresponse fun operation ↦ (database.perform operation performed.before).1]
  have hframe := eq_stamped_of_read hsends.fits hfits hread
  have hreply : (database.exchange library performed).2 =
      replyFrame methodCall.method performed.frame.header.reqId
        (database.response library performed.before performed.frame) := by
    rw [SharedDatabase.exchange, replyFrame, answerOpcode, hframe]
    rfl
  have hsized := hlogged.sized performed (List.mem_of_getElem? hentry)
  have hframed : Framed performed.frame.header.reqId
      (database.response library performed.before performed.frame) :=
    { envelope := hsized.1, msgLen := hsized.2, reqId := by rw [hframe]; exact hfits.reqId }
  rw [hreply] at hheld
  subst hheld
  obtain ⟨t, last, hinv, hlinked⟩ := (hlogged.joined connection).linked
  have hown := hinv.correct caller call (hlinked.calls ▸ hcall)
  rw [Call.GetsOwnReply, hphase] at hown
  obtain ⟨frame, -, hsame, hreads⟩ := hown.2 reply rfl
  rw [← hsame] at hreads
  exact returns_of_readReply runtime hplain hframed hreads

/-! ## A count of seven documents -/

/-- Every count is seven, and there is nothing else. -/
def sevenAnswers : Execute
  | .countDocuments .. => .ok (7 : UInt64)
  | _ => .error "unavailable"

/-- A database that counts the operations it has performed. -/
def sevenDocuments : SharedDatabase ℕ where
  perform call state := (sevenAnswers call, state + 1)

def countEnvelope : Document :=
  [("db", .string "d"), ("coll", .string "c"), ("filter", .document [])]

theorem sends_countEnvelope :
    goClient.Sends "d" "c" (.countDocuments (some [])) countEnvelope where
  offered := .inl (by simp)
  members := .refl _
  fits := by
    refine ⟨?_, by decide⟩
    simp only [countEnvelope, MembersFit, Bson.Fits]
    decide
  inserted document hmem := by cases hmem

theorem response_countedAtServer (state : ℕ) :
    sevenDocuments.response formatLibrary state countedAtServer = .countResult 7 := by
  have hbytes : countedAtServer.envelope = toVec countEnvelope := by decide +kernel
  have hread : decodeSlice countedAtServer.envelope = .ok countEnvelope := by
    rw [hbytes, decodeSlice, fromSlice_toVec sends_countEnvelope.fits]
  simp only [SharedDatabase.response, responseTo, parseEnvelope, formatLibrary, hread]
  rfl

theorem answers_countBegun :
    StepsMeet (recorded (WiredPool.step goClient maxFrameSizeDefault 1)
        (Kept.record formatLibrary sevenDocuments)) (Answers formatLibrary sevenDocuments)
      (.connected wiredHandshake.1 wiredHandshake.2,
        { state := 0, log := [], began := fun _ _ ↦ 0 }) countBegun := by
  refine (orderly_countBegun.recorded _ _).imp fun current event h ↦ ⟨h.1, ?_⟩
  intro outcome failAt flushOk hevent frame hphase
  obtain ⟨rfl, houtcome⟩ := h.2 outcome failAt flushOk hevent frame hphase
  rw [response_countedAtServer]
  exact ⟨houtcome, by decide, by decide⟩

/-- The caller has counted seven documents, in the one operation of the log. -/
theorem calls_linearized_countBegun :
    ∃ (pool : WiredPool) (kept : Kept ℕ),
      run (recorded (WiredPool.step goClient maxFrameSizeDefault 1)
          (Kept.record formatLibrary sevenDocuments))
        (.connected wiredHandshake.1 wiredHandshake.2,
          { state := 0, log := [], began := fun _ _ ↦ 0 }) countBegun = some (pool, kept) ∧
      ∃ (k : ℕ) (performed : Performed ℕ) (held : Bytes) (returned : Returned),
        kept.log[k]? = some performed ∧
        callOf formatLibrary performed.frame = some (.countDocuments "d" "c" []) ∧
          goClient.reply silentRuntime .countDocuments held = .ok returned ∧
            goClient.Contains .countDocuments (.countResult 7) returned := by
  obtain ⟨pool, hrun, hresult⟩ := Option.map_eq_some_iff.mp run_countBegun
  obtain ⟨kept, hrecorded⟩ := exists_run_recorded (Kept.record formatLibrary sevenDocuments)
    { state := 0, log := [], began := fun _ _ ↦ 0 } hrun
  obtain ⟨hcounted, hasked⟩ := Prod.mk.inj hresult
  obtain ⟨counted, hcounted, -⟩ := Option.map_eq_some_iff.mp hcounted
  obtain ⟨call, reply, hcall, -, hphase, -⟩ := BinaryTransport.exists_call_of_counted hcounted
  obtain ⟨-, owner, -, hreturns⟩ := calls_linearized_of_run goClient silentRuntime formatLibrary
    sevenDocuments maxFrameSizeDefault 1 0 wiredHandshake.1 wiredHandshake.2 goClient_decode
    (readsPlain_defaultClient .go)
    (fun document hfits ↦ by simp only [formatLibrary, decodeSlice, fromSlice_toVec hfits])
    answers_countBegun hrecorded
  obtain ⟨k, performed, hentry, -, hoperation, -, hvalues⟩ := hreturns 0 0 call counted.held reply
    hcall hphase "d" "c" (.countDocuments (some [])) countEnvelope 2 sends_countEnvelope
    (hasked.trans (by decide +kernel))
  obtain ⟨returned, hreply, hcontains⟩ := hvalues rfl
    ⟨.count (some (.int64 7)), .countDocuments rfl⟩ (by change (7 : UInt64).toNat < 2 ^ 63; decide)
  exact ⟨pool, kept, hrecorded, k, performed, counted.held, returned, hentry, hoperation, hreply,
    hcontains⟩

end MongoCore.Clients
