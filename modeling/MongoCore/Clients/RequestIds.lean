import Mathlib.Algebra.Group.Int.Defs
import Mathlib.Algebra.GroupWithZero.Nat
import Mathlib.Data.List.Infix
import Mathlib.Data.List.Nodup
import MongoCore.Clients.ReadFrame

/-!
# The ids of requests

Every request on a connection has an id of 32 bits in its header, which the client libraries take
from a counter.  Go has a counter of 32 bits that wraps around.  Python counts without a bound, and
cannot pack what exceeds the field.  TypeScript keeps the low 32 bits of its counter as a signed
number, and cannot write a negative one.

The main result says for which sequences of requests on a connection every request is written with
its own number as the id.
-/

namespace MongoCore.Clients.RequestIds

open MongoCore.Data MongoCore.Transport

/-! ## Sending -/

/-- A request: the BSON library may refuse its envelope, and a connection has a limit for the
length of frames at the time. -/
structure Request where
  opcode : Opcode
  envelope : Option Bytes
  rawDocs : Bytes
  noReply : Bool
  maxFrameSize : ℤ

/-- The operator `&` of JavaScript. -/
def bitAnd (x y : ℤ) : ℤ := (BitVec.ofInt 32 x &&& BitVec.ofInt 32 y).toInt

/-- Write an unsigned integer of so many bytes, if it is one. -/
def packUnsigned (count : ℕ) (value : ℤ) : Except ClientError Bytes :=
  if 0 ≤ value ∧ value < 2 ^ (8 * count) then .ok (toBigEndian count value.toNat)
  else .error .library

/-- The flags of a request: the opcode, the end of the stream, and whether no reply is wanted. -/
def Request.flags (request : Request) : ℕ :=
  let flags := request.opcode.toU8 &&& 0x3F ||| 1 <<< 6
  if request.noReply then flags ||| 1 <<< 7 else flags

def packHeader (msgLen flags reqId : ℤ) : Except ClientError Bytes := do
  let lengthBytes ← packUnsigned 4 msgLen
  let flagsBytes ← packUnsigned 2 flags
  let reqIdBytes ← packUnsigned 4 reqId
  pure (lengthBytes ++ flagsBytes ++ reqIdBytes)

def typescriptNextReqId (reqId : ℤ) : ℤ := bitAnd (reqId + 1) 0xFFFFFFFF

/-- Send a request: the next state of the counter, and the bytes that are written. -/
def typescriptSendFrame (reqId : ℤ) (request : Request) : ℤ × Except ClientError Bytes :=
  match request.envelope with
  | none => (reqId, .error .library)
  | some envelope =>
      let reqId := typescriptNextReqId reqId
      let msgLen := 2 + 4 + envelope.length + request.rawDocs.length
      if (msgLen : ℤ) > request.maxFrameSize then
        (reqId, .error (.text
          s!"Frame size {msgLen} exceeds max frame size {request.maxFrameSize}"))
      else
        (reqId, (packHeader msgLen request.flags reqId).map fun header ↦
          header ++ envelope ++ request.rawDocs)

def pythonNextReqId (reqCounter : ℕ) : ℕ := reqCounter + 1

def pythonSendFrame (reqCounter : ℕ) (request : Request) : ℕ × Except ClientError Bytes :=
  let reqId := pythonNextReqId reqCounter
  match request.envelope with
  | none => (reqId, .error .library)
  | some envelope =>
      let msgLen := 2 + 4 + envelope.length + request.rawDocs.length
      (reqId, (packHeader msgLen request.flags reqId).map fun header ↦
        header ++ envelope ++ request.rawDocs)

def goSendFrame (reqID : UInt32) (request : Request) : UInt32 × Except ClientError Bytes :=
  match request.envelope with
  | none => (reqID, .error .library)
  | some envelope =>
      let reqID := reqID + 1
      let msgLen := UInt32.ofNat (2 + 4 + envelope.length + request.rawDocs.length)
      let header := toBigEndian 4 msgLen.toNat ++ toBigEndian 2 request.flags ++
        toBigEndian 4 reqID.toNat
      (reqID, .ok (header ++ envelope ++ request.rawDocs))

/-! ## Connections -/

inductive Library where
  | python | typescript | go
  deriving DecidableEq

section Run

variable {σ : Type} (send : σ → Request → σ × Except ClientError Bytes)

def sendAll : σ → List Request → List (Except ClientError Bytes)
  | _, [] => []
  | state, request :: requests =>
      (send state request).2 :: sendAll (send state request).1 requests

def after (state : σ) (requests : List Request) : σ :=
  requests.foldl (fun state request ↦ (send state request).1) state

theorem after_cons (state : σ) (request : Request) (requests : List Request) :
    after send state (request :: requests) = after send (send state request).1 requests := rfl

theorem length_sendAll (state : σ) (requests : List Request) :
    (sendAll send state requests).length = requests.length := by
  induction requests generalizing state with
  | nil => rfl
  | cons request requests ih => exact congrArg (· + 1) (ih _)

theorem sendAll_append (state : σ) (front back : List Request) :
    sendAll send state (front ++ back) =
      sendAll send state front ++ sendAll send (after send state front) back := by
  induction front generalizing state with
  | nil => rfl
  | cons request front ih => exact congrArg ((send state request).2 :: ·) (ih _)

theorem getElem?_sendAll (state : σ) (front : List Request) (request : Request)
    (back : List Request) : (sendAll send state (front ++ request :: back))[front.length]? =
      some (send (after send state front) request).2 := by
  rw [sendAll_append, List.getElem?_append_right (Nat.le_of_eq (length_sendAll send state front)),
    length_sendAll, Nat.sub_self]
  rfl

end Run

/-- What a new connection writes for requests, of which the first is the handshake. -/
def outcomes : Library → List Request → List (Except ClientError Bytes)
  | .python => sendAll pythonSendFrame 0
  | .typescript => sendAll typescriptSendFrame 0
  | .go => sendAll goSendFrame 0

def reqIdOf (frame : Bytes) : ℕ := ofBigEndian ((frame.drop 6).take 4)

def Request.msgLen? (request : Request) : Option ℕ :=
  request.envelope.map fun envelope ↦ 2 + 4 + envelope.length + request.rawDocs.length

/-- Nothing in the request itself keeps the library from sending it. -/
def sendable (library : Library) (request : Request) : Bool :=
  match request.msgLen?, library with
  | none, _ => false
  | some msgLen, .python => msgLen < 2 ^ 32
  | some msgLen, .typescript => (msgLen : ℤ) ≤ request.maxFrameSize ∧ msgLen < 2 ^ 32
  | some _, .go => true

def takesId (library : Library) (request : Request) : Bool :=
  match library with
  | .python => true
  | _ => request.envelope.isSome

def writtenIds (library : Library) (requests : List Request) : List ℕ :=
  (outcomes library requests).filterMap fun outcome ↦ outcome.toOption.map reqIdOf

/-! ## The law -/

/-- Every request that can be sent is written with its number among them as the id, and the ids of
so many requests in a row as there are ids are different. -/
structure Numbered (library : Library) (requests : List Request) : Prop where
  carries : ∀ front request back, requests = front ++ request :: back →
    sendable library request = true → ∃ frame,
      (outcomes library requests)[front.length]? = some (.ok frame) ∧
        reqIdOf frame = (front.countP (sendable library) + 1) % 2 ^ 32
  distinct : ∀ window, window <:+: writtenIds library requests → window.length ≤ 2 ^ 32 →
    window.Nodup

def InRange (number : ℕ) : Library → Prop
  | .python => number < 2 ^ 32
  | .typescript => number % 2 ^ 32 < 2 ^ 31
  | .go => True

/-- The ids that were taken by requests which were not sent make up whole rounds, and the number is
in the range of the library. -/
def Undisturbed (library : Library) (requests : List Request) : Prop :=
  ∀ front request back, requests = front ++ request :: back → sendable library request = true →
    front.countP (takesId library) % 2 ^ 32 = front.countP (sendable library) % 2 ^ 32 ∧
      InRange (front.countP (takesId library) + 1) library

/-! ## Counters -/

/-- The mask keeps the low 32 bits, as a signed number. -/
theorem bitAnd_allOnes (x : ℤ) : bitAnd x 0xFFFFFFFF = toInt32 x := by
  have hones : BitVec.ofInt 32 0xFFFFFFFF = BitVec.allOnes 32 := rfl
  rw [bitAnd, hones, BitVec.and_allOnes, BitVec.toInt_ofInt, toInt32, Int.bmod_def]
  split <;> omega

theorem typescriptNextReqId_toInt32 (count : ℕ) :
    typescriptNextReqId (toInt32 count) = toInt32 (count + 1 : ℕ) := by
  rw [typescriptNextReqId, bitAnd_allOnes]
  unfold toInt32
  omega

/-- The signed low 32 bits of a number are those bits, if the highest is not set. -/
theorem toInt32_natCast_cases (number : ℕ) :
    number % 2 ^ 32 < 2 ^ 31 ∧ toInt32 number = (number % 2 ^ 32 : ℕ) ∨
      ¬ number % 2 ^ 32 < 2 ^ 31 ∧ toInt32 number < 0 := by
  unfold toInt32
  omega

/-- A request moves the counter of TypeScript on, unless its envelope is refused. -/
theorem fst_typescriptSendFrame (reqId : ℤ) (request : Request) :
    (typescriptSendFrame reqId request).1 =
      if takesId .typescript request then typescriptNextReqId reqId else reqId := by
  unfold typescriptSendFrame takesId
  cases request.envelope with
  | none => rfl
  | some envelope =>
    dsimp only
    split <;> rfl

theorem fst_pythonSendFrame (reqCounter : ℕ) (request : Request) :
    (pythonSendFrame reqCounter request).1 = reqCounter + 1 := by
  unfold pythonSendFrame
  cases request.envelope <;> rfl

theorem fst_goSendFrame (reqID : UInt32) (request : Request) :
    (goSendFrame reqID request).1 = if takesId .go request then reqID + 1 else reqID := by
  unfold goSendFrame takesId
  cases request.envelope <;> rfl

theorem after_typescript (count : ℕ) (requests : List Request) :
    after typescriptSendFrame (toInt32 count) requests =
      toInt32 (count + requests.countP (takesId .typescript) : ℕ) := by
  induction requests generalizing count with
  | nil => rw [List.countP_nil, Nat.add_zero, after, List.foldl_nil]
  | cons request requests ih =>
    rw [after_cons, fst_typescriptSendFrame]
    cases htakes : takesId .typescript request with
    | true =>
      rw [if_pos rfl, typescriptNextReqId_toInt32, ih, List.countP_cons_of_pos htakes]
      congr 1
      omega
    | false => rw [if_neg Bool.false_ne_true, ih, List.countP_cons_of_neg (by rw [htakes]; decide)]

theorem after_python (count : ℕ) (requests : List Request) :
    after pythonSendFrame count requests = count + requests.countP (takesId .python) := by
  induction requests generalizing count with
  | nil => rfl
  | cons request requests ih =>
    rw [after_cons, fst_pythonSendFrame, ih, List.countP_cons_of_pos rfl]
    omega

theorem after_go (count : ℕ) (requests : List Request) :
    after goSendFrame (UInt32.ofNat count) requests =
      UInt32.ofNat (count + requests.countP (takesId .go)) := by
  induction requests generalizing count with
  | nil => rfl
  | cons request requests ih =>
    have hone : UInt32.ofNat count + 1 = UInt32.ofNat (count + 1) := (UInt32.ofNat_add count 1).symm
    rw [after_cons, fst_goSendFrame]
    cases htakes : takesId .go request with
    | true =>
      rw [if_pos rfl, hone, ih, List.countP_cons_of_pos htakes]
      congr 1
      omega
    | false => rw [if_neg Bool.false_ne_true, ih, List.countP_cons_of_neg (by rw [htakes]; decide)]

/-! ## Headers -/

theorem packUnsigned_natCast {count value : ℕ} (h : value < 2 ^ (8 * count)) :
    packUnsigned count value = .ok (toBigEndian count value) := by
  have hvalue : (0 : ℤ) ≤ value ∧ (value : ℤ) < 2 ^ (8 * count) := by
    exact ⟨Int.natCast_nonneg value, by exact_mod_cast h⟩
  rw [packUnsigned, if_pos hvalue, Int.toNat_natCast]

theorem flags_lt (request : Request) : request.flags < 2 ^ 16 := by
  unfold Request.flags
  cases request.opcode <;> cases request.noReply <;> decide

/-- A header is packed if its length and its id are in range. -/
theorem packHeader_eq {msgLen : ℕ} (request : Request) (hlen : msgLen < 2 ^ 32) (reqId : ℤ) :
    packHeader msgLen request.flags reqId =
      if 0 ≤ reqId ∧ reqId < 2 ^ 32 then
        .ok (toBigEndian 4 msgLen ++ toBigEndian 2 request.flags ++ toBigEndian 4 reqId.toNat)
      else .error .library := by
  have hlength : packUnsigned 4 msgLen = .ok (toBigEndian 4 msgLen) := packUnsigned_natCast hlen
  have hflags : packUnsigned 2 request.flags = .ok (toBigEndian 2 request.flags) :=
    packUnsigned_natCast (flags_lt request)
  rw [packHeader, hlength, hflags]
  unfold packUnsigned
  split <;> rfl

/-- The id of a frame is read off its header. -/
theorem reqIdOf_frame (msgLen flags : ℕ) {reqId : ℕ} (h : reqId < 2 ^ 32) (payload : Bytes) :
    reqIdOf (toBigEndian 4 msgLen ++ toBigEndian 2 flags ++ toBigEndian 4 reqId ++ payload) =
      reqId := by
  have hlength : (toBigEndian 4 msgLen ++ toBigEndian 2 flags).length = 6 := by simp
  have hbytes : (toBigEndian 4 reqId).length = 4 := length_toBigEndian 4 reqId
  rw [reqIdOf, List.append_assoc, List.drop_append_of_le_length (Nat.le_of_eq hlength.symm),
    List.drop_of_length_le (Nat.le_of_eq hlength), List.nil_append,
    List.take_append_of_le_length (Nat.le_of_eq hbytes.symm),
    List.take_of_length_le (Nat.le_of_eq hbytes)]
  exact ofBigEndian_toBigEndian h

/-! ## One request -/

/-- What is written for a request that can be sent, once it has an id. -/
def written (msgLen : ℕ) (request : Request) (reqId : ℤ) (payload : Bytes) :
    Except ClientError Bytes :=
  if 0 ≤ reqId ∧ reqId < 2 ^ 32 then
    .ok (toBigEndian 4 msgLen ++ toBigEndian 2 request.flags ++ toBigEndian 4 reqId.toNat ++
      payload)
  else .error .library

theorem map_packHeader {msgLen : ℕ} (request : Request) (hlen : msgLen < 2 ^ 32) (reqId : ℤ)
    (envelope rawDocs : Bytes) :
    ((packHeader msgLen request.flags reqId).map fun header ↦ header ++ envelope ++ rawDocs) =
      written msgLen request reqId (envelope ++ rawDocs) := by
  rw [packHeader_eq request hlen, written]
  split
  · exact congrArg Except.ok (List.append_assoc _ envelope rawDocs)
  · rfl

theorem snd_typescriptSendFrame {request : Request} (h : sendable .typescript request = true)
    (reqId : ℤ) : ∃ msgLen payload, (typescriptSendFrame reqId request).2 =
      written msgLen request (typescriptNextReqId reqId) payload := by
  unfold sendable Request.msgLen? at h
  cases henvelope : request.envelope with
  | none => simp [henvelope] at h
  | some envelope =>
    rw [henvelope] at h
    obtain ⟨hmax, hlen⟩ := of_decide_eq_true h
    have hfits : ¬ ((2 + 4 + envelope.length + request.rawDocs.length : ℕ) : ℤ) >
        request.maxFrameSize := Int.not_lt.mpr hmax
    refine ⟨2 + 4 + envelope.length + request.rawDocs.length, envelope ++ request.rawDocs, ?_⟩
    simp only [typescriptSendFrame, henvelope, if_neg hfits]
    exact map_packHeader request hlen (typescriptNextReqId reqId) envelope request.rawDocs

theorem snd_pythonSendFrame {request : Request} (h : sendable .python request = true)
    (reqCounter : ℕ) : ∃ msgLen payload, (pythonSendFrame reqCounter request).2 =
      written msgLen request (reqCounter + 1 : ℕ) payload := by
  unfold sendable Request.msgLen? at h
  cases henvelope : request.envelope with
  | none => simp [henvelope] at h
  | some envelope =>
    rw [henvelope] at h
    have hlen : 2 + 4 + envelope.length + request.rawDocs.length < 2 ^ 32 := of_decide_eq_true h
    refine ⟨2 + 4 + envelope.length + request.rawDocs.length, envelope ++ request.rawDocs, ?_⟩
    simp only [pythonSendFrame, pythonNextReqId, henvelope]
    exact map_packHeader request hlen (reqCounter + 1 : ℕ) envelope request.rawDocs

theorem snd_goSendFrame {request : Request} (h : sendable .go request = true) (reqID : UInt32) :
    ∃ msgLen payload, (goSendFrame reqID request).2 =
      written msgLen request (reqID + 1).toNat payload := by
  unfold sendable Request.msgLen? at h
  unfold goSendFrame
  cases henvelope : request.envelope with
  | none => simp [henvelope] at h
  | some envelope =>
    refine ⟨(UInt32.ofNat (2 + 4 + envelope.length + request.rawDocs.length)).toNat,
      envelope ++ request.rawDocs, ?_⟩
    have hrange : (0 : ℤ) ≤ (reqID + 1).toNat ∧ ((reqID + 1).toNat : ℤ) < 2 ^ 32 :=
      ⟨Int.natCast_nonneg _, by exact_mod_cast (reqID + 1).toNat_lt⟩
    rw [written, if_pos hrange, Int.toNat_natCast]
    exact congrArg Except.ok (List.append_assoc _ envelope request.rawDocs)

/-- A header is not packed if its length is out of range. -/
theorem map_packHeader_of_le {msgLen : ℕ} (hlen : 2 ^ 32 ≤ msgLen) (flags reqId : ℤ)
    (payload : Bytes → Bytes) :
    (packHeader msgLen flags reqId).map payload = .error .library := by
  have hnot : ¬ ((0 : ℤ) ≤ msgLen ∧ (msgLen : ℤ) < 2 ^ (8 * 4)) := by
    intro h
    have hlt : (msgLen : ℤ) < 2 ^ 32 := h.2
    omega
  rw [packHeader, packUnsigned, if_neg hnot]
  rfl

/-- What cannot be sent is not written, whatever its id. -/
theorem typescriptSendFrame_error {request : Request} (h : sendable .typescript request = false)
    (reqId : ℤ) : ∃ error, (typescriptSendFrame reqId request).2 = .error error := by
  unfold sendable Request.msgLen? at h
  cases henvelope : request.envelope with
  | none => exact ⟨.library, by simp only [typescriptSendFrame, henvelope]⟩
  | some envelope =>
    rw [henvelope] at h
    have hnot : ¬ (((2 + 4 + envelope.length + request.rawDocs.length : ℕ) : ℤ) ≤
        request.maxFrameSize ∧ 2 + 4 + envelope.length + request.rawDocs.length < 2 ^ 32) :=
      of_decide_eq_false h
    simp only [typescriptSendFrame, henvelope]
    split
    case isTrue => exact ⟨_, rfl⟩
    case isFalse hmax =>
      have hlen : 2 ^ 32 ≤ 2 + 4 + envelope.length + request.rawDocs.length :=
        Nat.le_of_not_lt fun hlt ↦ hnot ⟨Int.not_lt.mp hmax, hlt⟩
      exact ⟨.library, by rw [map_packHeader_of_le hlen]⟩

theorem pythonSendFrame_error {request : Request} (h : sendable .python request = false)
    (reqCounter : ℕ) : ∃ error, (pythonSendFrame reqCounter request).2 = .error error := by
  unfold sendable Request.msgLen? at h
  cases henvelope : request.envelope with
  | none => exact ⟨.library, by simp only [pythonSendFrame, henvelope]⟩
  | some envelope =>
    rw [henvelope] at h
    have hlen : 2 ^ 32 ≤ 2 + 4 + envelope.length + request.rawDocs.length :=
      Nat.le_of_not_lt (of_decide_eq_false h)
    simp only [pythonSendFrame, henvelope]
    exact ⟨_, map_packHeader_of_le hlen _ _ _⟩

theorem goSendFrame_error {request : Request} (h : sendable .go request = false)
    (reqID : UInt32) : ∃ error, (goSendFrame reqID request).2 = .error error := by
  unfold sendable Request.msgLen? at h
  unfold goSendFrame
  cases henvelope : request.envelope with
  | none => exact ⟨_, rfl⟩
  | some envelope => simp [henvelope] at h

/-- The number that a library writes as the id after the counter has been moved on so often. -/
def writtenNumber (number : ℕ) : Library → ℤ
  | .python => number
  | .typescript => toInt32 number
  | .go => (number % 2 ^ 32 : ℕ)

theorem writtenNumber_nonneg_iff (library : Library) (number : ℕ) :
    (0 ≤ writtenNumber number library ∧ writtenNumber number library < 2 ^ 32) ↔
      InRange number library := by
  cases library with
  | python =>
    change (0 ≤ (number : ℤ) ∧ (number : ℤ) < 2 ^ 32) ↔ number < 2 ^ 32
    omega
  | typescript =>
    change (0 ≤ toInt32 number ∧ toInt32 number < 2 ^ 32) ↔ number % 2 ^ 32 < 2 ^ 31
    rcases toInt32_natCast_cases number with ⟨hlow, heq⟩ | ⟨hhigh, hneg⟩
    · rw [heq]
      omega
    · omega
  | go =>
    refine iff_of_true ?_ trivial
    change 0 ≤ ((number % 2 ^ 32 : ℕ) : ℤ) ∧ ((number % 2 ^ 32 : ℕ) : ℤ) < 2 ^ 32
    omega

theorem toNat_writtenNumber {library : Library} {number : ℕ} (h : InRange number library) :
    (writtenNumber number library).toNat = number % 2 ^ 32 := by
  cases library with
  | python => exact (Nat.mod_eq_of_lt h).symm
  | typescript =>
    rcases toInt32_natCast_cases number with ⟨-, heq⟩ | ⟨hhigh, -⟩
    · change (toInt32 number).toNat = _
      rw [heq, Int.toNat_natCast]
    · exact absurd h hhigh
  | go => exact Int.toNat_natCast _

theorem outcomes_append_of_sendable {library : Library} {request : Request}
    (h : sendable library request = true) (front back : List Request) :
    ∃ msgLen payload, (outcomes library (front ++ request :: back))[front.length]? =
      some (written msgLen request
        (writtenNumber (front.countP (takesId library) + 1) library) payload) := by
  cases library with
  | python =>
    obtain ⟨msgLen, payload, hwritten⟩ := snd_pythonSendFrame h (front.countP (takesId .python))
    refine ⟨msgLen, payload, ?_⟩
    rw [outcomes, getElem?_sendAll, after_python, Nat.zero_add, hwritten]
    rfl
  | typescript =>
    have hstart : toInt32 (0 : ℕ) = 0 := by decide
    have hafter := after_typescript 0 front
    rw [hstart, Nat.zero_add] at hafter
    obtain ⟨msgLen, payload, hwritten⟩ :=
      snd_typescriptSendFrame h (toInt32 (front.countP (takesId .typescript)))
    refine ⟨msgLen, payload, ?_⟩
    rw [outcomes, getElem?_sendAll, hafter, hwritten, typescriptNextReqId_toInt32]
    rfl
  | go =>
    have hafter := after_go 0 front
    rw [Nat.zero_add] at hafter
    obtain ⟨msgLen, payload, hwritten⟩ :=
      snd_goSendFrame h (UInt32.ofNat (front.countP (takesId .go)))
    refine ⟨msgLen, payload, ?_⟩
    have hnext : (UInt32.ofNat (front.countP (takesId .go)) + 1).toNat =
        (front.countP (takesId .go) + 1) % 2 ^ 32 := by
      rw [← UInt32.ofNat_one, ← UInt32.ofNat_add, UInt32.toNat_ofNat']
    have hzero : (0 : UInt32) = UInt32.ofNat 0 := rfl
    rw [outcomes, getElem?_sendAll, hzero, hafter, hwritten, hnext]
    rfl

theorem outcomes_append_of_not_sendable {library : Library} {request : Request}
    (h : sendable library request = false) (front back : List Request) :
    ∃ error, (outcomes library (front ++ request :: back))[front.length]? =
      some (.error error) := by
  cases library with
  | python =>
    obtain ⟨error, herror⟩ := pythonSendFrame_error h (after pythonSendFrame 0 front)
    exact ⟨error, by rw [outcomes, getElem?_sendAll, herror]⟩
  | typescript =>
    obtain ⟨error, herror⟩ := typescriptSendFrame_error h (after typescriptSendFrame 0 front)
    exact ⟨error, by rw [outcomes, getElem?_sendAll, herror]⟩
  | go =>
    obtain ⟨error, herror⟩ := goSendFrame_error h (after goSendFrame 0 front)
    exact ⟨error, by rw [outcomes, getElem?_sendAll, herror]⟩

/-- A request that can be sent is written exactly if its id is in range, and then with that id. -/
theorem carries_iff {library : Library} {request : Request}
    (h : sendable library request = true) (front back : List Request) (id : ℕ) :
    (∃ frame, (outcomes library (front ++ request :: back))[front.length]? = some (.ok frame) ∧
        reqIdOf frame = id) ↔
      (front.countP (takesId library) + 1) % 2 ^ 32 = id ∧
        InRange (front.countP (takesId library) + 1) library := by
  obtain ⟨msgLen, payload, houtcome⟩ := outcomes_append_of_sendable h front back
  generalize front.countP (takesId library) + 1 = number at houtcome ⊢
  rw [houtcome, written]
  have hrange := writtenNumber_nonneg_iff library number
  by_cases hnumber : InRange number library
  case pos =>
    rw [if_pos (hrange.mpr hnumber), toNat_writtenNumber hnumber, and_iff_left hnumber]
    have hid := reqIdOf_frame msgLen request.flags
      (Nat.mod_lt number (Nat.two_pow_pos 32)) payload
    constructor
    · rintro ⟨frame, hframe, rfl⟩
      obtain rfl := Except.ok.inj (Option.some.inj hframe)
      exact hid.symm
    · rintro rfl
      exact ⟨_, rfl, hid⟩
  case neg =>
    rw [if_neg (mt hrange.mp hnumber)]
    refine iff_of_false ?_ fun hboth ↦ hnumber hboth.2
    rintro ⟨frame, hframe, -⟩
    cases Option.some.inj hframe

/-! ## Connections of any length -/

/-- Later requests do not change what was written before. -/
theorem outcomes_concat (library : Library) (front : List Request) (request : Request) :
    ∃ outcome, outcomes library (front ++ [request]) = outcomes library front ++ [outcome] ∧
      (outcomes library (front ++ [request]))[front.length]? = some outcome := by
  cases library with
  | python => exact ⟨_, sendAll_append _ _ front [request], getElem?_sendAll _ _ front request []⟩
  | typescript =>
    exact ⟨_, sendAll_append _ _ front [request], getElem?_sendAll _ _ front request []⟩
  | go => exact ⟨_, sendAll_append _ _ front [request], getElem?_sendAll _ _ front request []⟩

theorem Undisturbed.front {library : Library} {front back : List Request}
    (h : Undisturbed library (front ++ back)) : Undisturbed library front := by
  intro before request rest hfront hsendable
  refine h before request (rest ++ back) ?_ hsendable
  rw [hfront, List.append_assoc, List.cons_append]

/-- The ids that are written are the numbers of the requests that can be sent. -/
theorem writtenIds_eq {library : Library} {requests : List Request}
    (h : Undisturbed library requests) : writtenIds library requests =
      (List.range (requests.countP (sendable library))).map fun i ↦ (i + 1) % 2 ^ 32 := by
  induction requests using List.reverseRecOn with
  | nil => cases library <;> rfl
  | append_singleton front request ih =>
    obtain ⟨outcome, happend, hlast⟩ := outcomes_concat library front request
    have hids : writtenIds library (front ++ [request]) =
        writtenIds library front ++ (outcome.toOption.map reqIdOf).toList := by
      rw [writtenIds, happend, List.filterMap_append, writtenIds]
      cases outcome <;> rfl
    rw [hids, ih h.front, List.countP_append]
    cases hsendable : sendable library request with
    | true =>
      obtain ⟨hcount, hrange⟩ := h front request [] rfl hsendable
      obtain ⟨frame, hframe, hid⟩ := (carries_iff hsendable front []
        ((front.countP (sendable library) + 1) % 2 ^ 32)).mpr ⟨by omega, hrange⟩
      obtain rfl := Option.some.inj (hlast.symm.trans hframe)
      rw [List.countP_cons_of_pos hsendable, List.countP_nil, Nat.zero_add, List.range_succ,
        List.map_append, List.map_singleton, ← hid]
      rfl
    | false =>
      obtain ⟨error, herror⟩ := outcomes_append_of_not_sendable hsendable front []
      obtain rfl := Option.some.inj (hlast.symm.trans herror)
      rw [List.countP_cons_of_neg (by rw [hsendable]; decide), List.countP_nil, Nat.add_zero]
      exact List.append_nil _

/-- So many numbers in a row as there are ids are different as ids. -/
theorem nodup_window {window : List ℕ} {count : ℕ}
    (hwindow : window <:+: (List.range count).map fun i ↦ (i + 1) % 2 ^ 32)
    (hlength : window.length ≤ 2 ^ 32) : window.Nodup := by
  obtain ⟨front, back, heq⟩ := hwindow
  have hget : ∀ i, i < window.length → window[i]? = some ((front.length + i + 1) % 2 ^ 32) := by
    intro i hi
    have hall := congrArg (·[front.length + i]?) heq
    have hcount : front.length + i < count := by
      have hlengths := congrArg List.length heq
      simp only [List.length_append, List.length_map, List.length_range] at hlengths
      omega
    simp only [List.append_assoc] at hall
    rw [List.getElem?_append_right (Nat.le_add_right _ _), Nat.add_sub_cancel_left,
      List.getElem?_append_left hi, List.getElem?_map, List.getElem?_range hcount] at hall
    exact hall
  rw [List.nodup_iff_getElem?_ne_getElem?]
  intro i j hij hj heq
  rw [hget i (by omega), hget j hj, Option.some.injEq] at heq
  omega

/-- The requests of a connection are written with their numbers exactly if the ids that were lost to
other requests make up whole rounds, and the numbers are in the range of the library. -/
theorem numbered_iff (library : Library) (requests : List Request) :
    Numbered library requests ↔ Undisturbed library requests := by
  constructor
  · intro h front request back hrequests hsendable
    obtain ⟨hnumber, hrange⟩ := (carries_iff hsendable front back _).mp
      (hrequests ▸ h.carries front request back hrequests hsendable)
    exact ⟨by omega, hrange⟩
  · intro h
    refine ⟨fun front request back hrequests hsendable ↦ ?_, fun window hwindow hlength ↦ ?_⟩
    · obtain ⟨hcount, hrange⟩ := h front request back hrequests hsendable
      subst hrequests
      exact (carries_iff hsendable front back _).mpr ⟨by omega, hrange⟩
    · rw [writtenIds_eq h] at hwindow
      exact nodup_window hwindow hlength

/-! ## Connections that go wrong -/

/-- A request with an empty document as its envelope. -/
def smallRequest : Request where
  opcode := .find
  envelope := some [5, 0, 0, 0, 0]
  rawDocs := []
  noReply := false
  maxFrameSize := 1000

/-- The last of requests without end is not written if its number is out of range. -/
theorem not_numbered_replicate {library : Library}
    (hsendable : sendable library smallRequest = true)
    (htakes : takesId library smallRequest = true) {count : ℕ}
    (hrange : ¬ InRange (count + 1) library) :
    ¬ Numbered library (List.replicate (count + 1) smallRequest) := by
  intro h
  have hcarries := h.carries (List.replicate count smallRequest) smallRequest []
    List.replicate_succ' hsendable
  rw [List.replicate_succ', carries_iff hsendable, List.countP_replicate, if_pos htakes] at hcarries
  exact hrange hcarries.2

/-- A request that Python refuses, but not before it has taken an id. -/
def refusedRequest : Request := { smallRequest with envelope := none }

/-- Requests that are written with another id, or not at all: after half of all ids in TypeScript,
after all of them in Python, and after a refused request in Python. -/
theorem not_numbered :
    ¬ Numbered .typescript (List.replicate (2 ^ 31) smallRequest) ∧
      ¬ Numbered .python (List.replicate (2 ^ 32) smallRequest) ∧
      ¬ Numbered .python [refusedRequest, smallRequest] := by
  have hhalf : (2 : ℕ) ^ 31 = 2 ^ 31 - 1 + 1 := by omega
  have hall : (2 : ℕ) ^ 32 = 2 ^ 32 - 1 + 1 := by omega
  refine ⟨?_, ?_, fun h ↦ ?_⟩
  · rw [hhalf]
    refine not_numbered_replicate (by decide) (by decide) fun hrange ↦ ?_
    have hlt : (2 ^ 31 - 1 + 1) % 2 ^ 32 < 2 ^ 31 := hrange
    omega
  · rw [hall]
    refine not_numbered_replicate (by decide) (by decide) fun hrange ↦ ?_
    have hlt : 2 ^ 32 - 1 + 1 < 2 ^ 32 := hrange
    omega
  · have hcarries := h.carries [refusedRequest] smallRequest [] rfl (by decide)
    have hid := ((carries_iff (by decide) [refusedRequest] [] _).mp hcarries).1
    revert hid
    decide

end MongoCore.Clients.RequestIds
