import MongoCore.Library.TransitionSystem
import MongoCore.Transport.RoundTrip
import Mathlib.Data.List.Perm.Basic
import Mathlib.Data.List.Range

/-!
# Reading frames with a buffer pool

A pool keeps buffers in three bounded queues, by size.  A buffer is handed out for a number of bytes
that are needed, and goes back to the queue of its capacity, so it need not be as large as those of
the queue were at first.  Its memory keeps the bytes of its earlier use.

A buffer has an identity here, and its memory is modelled beyond its length.  The allocator chooses
the contents of new memory.  Reading a frame into a pooled buffer is compared with reading it into a
new one.
-/

namespace MongoCore.Transport

open MongoCore.Library.TransitionSystem

/-! ## Buffers -/

/-- A buffer with all its memory.  Only the bytes before its length are its contents. -/
structure Buffer where
  id : ℕ
  memory : Bytes
  len : ℕ
  len_le : len ≤ memory.length

/-- What an allocation returns is as large as was asked for, and holds anything. -/
structure Allocator where
  block : ℕ → Bytes
  length_le : ∀ size, size ≤ (block size).length

namespace Buffer

def capacity (buffer : Buffer) : ℕ := buffer.memory.length

def contents (buffer : Buffer) : Bytes := buffer.memory.take buffer.len

@[simp] theorem length_contents (buffer : Buffer) : buffer.contents.length = buffer.len := by
  rw [contents, List.length_take, Nat.min_eq_left buffer.len_le]

/-- A new buffer without contents. -/
def withCapacity (allocator : Allocator) (id size : ℕ) : Buffer where
  id := id
  memory := allocator.block size
  len := 0
  len_le := Nat.zero_le _

/-- Forget the contents.  The memory keeps them. -/
def clear (buffer : Buffer) : Buffer where
  id := buffer.id
  memory := buffer.memory
  len := 0
  len_le := Nat.zero_le _

/-- Cut the contents, or fill them up with a byte.  A buffer that is too small gets new memory. -/
def resize (allocator : Allocator) (buffer : Buffer) (newLen : ℕ) (value : UInt8) : Buffer :=
  if hshort : newLen ≤ buffer.len then
    { buffer with len := newLen, len_le := hshort.trans buffer.len_le }
  else
    let filled := buffer.contents ++ List.replicate (newLen - buffer.len) value
    let spare :=
      if newLen ≤ buffer.capacity then buffer.memory.drop newLen
      else (allocator.block newLen).drop newLen
    { buffer with
      memory := filled ++ spare
      len := newLen
      len_le := by
        have hfilled : filled.length = newLen := by
          rw [List.length_append, length_contents, List.length_replicate]
          omega
        rw [List.length_append, hfilled]
        exact Nat.le_add_right _ _ }

@[simp] theorem resize_len (allocator : Allocator) (buffer : Buffer) (newLen : ℕ) (value : UInt8) :
    (buffer.resize allocator newLen value).len = newLen := by
  unfold resize
  split <;> rfl

@[simp] theorem resize_id (allocator : Allocator) (buffer : Buffer) (newLen : ℕ) (value : UInt8) :
    (buffer.resize allocator newLen value).id = buffer.id := by
  unfold resize
  split <;> rfl

/-- Write bytes over the start of the memory. -/
def fill (buffer : Buffer) (bytes : Bytes) : Buffer where
  id := buffer.id
  memory := bytes ++ buffer.memory.drop bytes.length
  len := buffer.len
  len_le := by
    have hle := buffer.len_le
    rw [List.length_append, List.length_drop]
    omega

/-- Bytes for the whole length are the contents, and nothing of what the memory kept. -/
theorem contents_fill {buffer : Buffer} {bytes : Bytes} (hlength : bytes.length = buffer.len) :
    (buffer.fill bytes).contents = bytes := by
  have hcontents : (buffer.fill bytes).contents =
      (bytes ++ buffer.memory.drop bytes.length).take buffer.len := rfl
  rw [hcontents, ← hlength, List.take_left]

end Buffer

/-! ## Bounded queues -/

/-- A queue that refuses what it has no room for. -/
structure ArrayQueue (α : Type) where
  items : List α
  bound : ℕ
  length_le : items.length ≤ bound

namespace ArrayQueue

variable {α : Type}

def new (bound : ℕ) : ArrayQueue α := ⟨[], bound, Nat.zero_le _⟩

/-- An item that finds no room is dropped by the caller. -/
def push (queue : ArrayQueue α) (item : α) : ArrayQueue α :=
  if hroom : queue.items.length < queue.bound then
    { queue with
      items := queue.items ++ [item]
      length_le := by rw [List.length_append]; exact hroom }
  else queue

def pop (queue : ArrayQueue α) : Option (α × ArrayQueue α) :=
  match hitems : queue.items with
  | [] => none
  | item :: rest =>
      some (item, { queue with
        items := rest
        length_le := by
          have hle := queue.length_le
          rw [hitems, List.length_cons] at hle
          exact (Nat.le_succ _).trans hle })

theorem push_items (queue : ArrayQueue α) (item : α) :
    (queue.push item).items = queue.items ++ [item] ∨ (queue.push item).items = queue.items := by
  unfold push
  split
  · exact Or.inl rfl
  · exact Or.inr rfl

theorem pop_eq_some {queue rest : ArrayQueue α} {item : α} (hpop : queue.pop = some (item, rest)) :
    queue.items = item :: rest.items := by
  unfold pop at hpop
  split at hpop
  · cases hpop
  · rename_i first others hitems
    obtain ⟨rfl, rfl⟩ := Prod.mk.inj (Option.some.inj hpop)
    exact hitems

end ArrayQueue

/-! ## The pool -/

def smallSize : ℕ := 4 * 1024

def mediumSize : ℕ := 64 * 1024

def largeSize : ℕ := 1024 * 1024

structure BufferPoolConfig where
  smallCount : ℕ := 256
  mediumCount : ℕ := 64
  largeCount : ℕ := 16

structure BufferPool where
  small : ArrayQueue Buffer
  medium : ArrayQueue Buffer
  large : ArrayQueue Buffer

namespace BufferPool

/-- Push new buffers with consecutive identities. -/
def stock (allocator : Allocator) (size firstId count : ℕ) (queue : ArrayQueue Buffer) :
    ArrayQueue Buffer :=
  (List.range' firstId count).foldl
    (fun queue id ↦ queue.push (.withCapacity allocator id size)) queue

def new (allocator : Allocator) (config : BufferPoolConfig) : BufferPool where
  small := stock allocator smallSize 0 config.smallCount (.new (max config.smallCount 1))
  medium := stock allocator mediumSize config.smallCount config.mediumCount
    (.new (max config.mediumCount 1))
  large := stock allocator largeSize (config.smallCount + config.mediumCount) config.largeCount
    (.new (max config.largeCount 1))

/-- A buffer of a queue, cleared, or a new one when the queue is empty. -/
def takeFrom (allocator : Allocator) (freshId size : ℕ) (queue : ArrayQueue Buffer) :
    Buffer × ArrayQueue Buffer :=
  match queue.pop with
  | some (buffer, rest) => (buffer.clear, rest)
  | none => (.withCapacity allocator freshId size, queue)

def checkout (allocator : Allocator) (freshId : ℕ) (pool : BufferPool) (needed : ℕ) :
    Buffer × BufferPool :=
  if needed ≤ smallSize then
    let taken := takeFrom allocator freshId smallSize pool.small
    (taken.1, { pool with small := taken.2 })
  else if needed ≤ mediumSize then
    let taken := takeFrom allocator freshId mediumSize pool.medium
    (taken.1, { pool with medium := taken.2 })
  else if needed ≤ largeSize then
    let taken := takeFrom allocator freshId largeSize pool.large
    (taken.1, { pool with large := taken.2 })
  else (.withCapacity allocator freshId needed, pool)

/-- Take a buffer back, by its capacity.  One that is too large is dropped. -/
def checkin (pool : BufferPool) (buffer : Buffer) : BufferPool :=
  let buffer := buffer.clear
  if buffer.capacity ≤ smallSize then { pool with small := pool.small.push buffer }
  else if buffer.capacity ≤ mediumSize then { pool with medium := pool.medium.push buffer }
  else if buffer.capacity ≤ largeSize then { pool with large := pool.large.push buffer }
  else pool

def buffers (pool : BufferPool) : List Buffer :=
  pool.small.items ++ pool.medium.items ++ pool.large.items

end BufferPool

/-! ## Reading a frame -/

/-- Read a frame, with its payload in a buffer that is provided for its length. -/
def readFrameInto (provide : ℕ → Buffer) (maxFrameSize : ℕ) (stream : Bytes) :
    Except FrameError (Frame × Bytes) := do
  let (headerBuf, stream) ← readExact headerSize stream
  let header ← FrameHeader.decode headerBuf
  if header.msgLen > maxFrameSize then .error .frameTooLarge
  else if header.payloadLen = 0 then
    pure ({ header := header, envelope := [], rawDocs := [] }, stream)
  else
    let payload := provide header.payloadLen
    let (bytes, stream) ← readExact payload.len stream
    let frame ← splitPayload header (payload.fill bytes).contents
    pure (frame, stream)

def readFramePooled (allocator : Allocator) (freshId : ℕ) (pool : BufferPool) (maxFrameSize : ℕ)
    (stream : Bytes) : Except FrameError (Frame × Bytes) :=
  readFrameInto
    (fun payloadLen ↦
      (pool.checkout allocator freshId payloadLen).1.resize allocator payloadLen 0)
    maxFrameSize stream

theorem length_of_readExact {stream bytes rest : Bytes} {count : ℕ}
    (hread : readExact count stream = .ok (bytes, rest)) : bytes.length = count := by
  unfold readExact at hread
  split at hread
  · cases hread
  · rename_i hcount
    obtain ⟨rfl, rfl⟩ := Prod.mk.inj (Except.ok.inj hread)
    exact List.length_take_of_le (Nat.not_lt.mp hcount)

/-- A buffer of the right length gives the frame that a new one would; its old bytes and its
capacity do not matter. -/
theorem readFrameInto_eq {provide : ℕ → Buffer}
    (hlen : ∀ payloadLen, (provide payloadLen).len = payloadLen) (maxFrameSize : ℕ)
    (stream : Bytes) :
    readFrameInto provide maxFrameSize stream = readFrame maxFrameSize stream := by
  unfold readFrameInto readFrame
  cases readExact headerSize stream with
  | error error => rfl
  | ok first =>
    obtain ⟨headerBuf, stream⟩ := first
    simp only [bind, Except.bind]
    cases FrameHeader.decode headerBuf with
    | error error => rfl
    | ok header =>
      simp only [hlen]
      split
      · rfl
      · split
        · rfl
        · cases hread : readExact header.payloadLen stream with
          | error error => rfl
          | ok second =>
            obtain ⟨bytes, rest⟩ := second
            have hlength : bytes.length = (provide header.payloadLen).len :=
              (length_of_readExact hread).trans (hlen header.payloadLen).symm
            simp only [Buffer.contents_fill hlength]

theorem readFramePooled_eq (allocator : Allocator) (freshId : ℕ) (pool : BufferPool)
    (maxFrameSize : ℕ) (stream : Bytes) :
    readFramePooled allocator freshId pool maxFrameSize stream =
      readFrame maxFrameSize stream :=
  readFrameInto_eq (fun payloadLen ↦ Buffer.resize_len allocator _ payloadLen 0) _ _

/-! ## Runs of the pool -/

/-- The pool with the buffers that are handed out, and the next identity. -/
structure PoolState where
  pool : BufferPool
  owned : List Buffer
  nextId : ℕ

/-- A buffer is handed out, or its owner made it; the owner changes it, gives it back, or drops
it. -/
inductive PoolEvent where
  | checkout (allocator : Allocator) (needed : ℕ)
  | make (memory : Bytes) (len : ℕ)
  | change (place : ℕ) (memory : Bytes) (len : ℕ)
  | checkin (place : ℕ)
  | drop (place : ℕ)

def poolStep (state : PoolState) : PoolEvent → Option PoolState
  | .checkout allocator needed =>
      let handedOut := state.pool.checkout allocator state.nextId needed
      some ⟨handedOut.2, handedOut.1 :: state.owned, state.nextId + 1⟩
  | .make memory len =>
      if hlen : len ≤ memory.length then
        some ⟨state.pool, ⟨state.nextId, memory, len, hlen⟩ :: state.owned, state.nextId + 1⟩
      else none
  | .change place memory len =>
      if hlen : len ≤ memory.length then
        state.owned[place]?.map fun buffer ↦
          { state with owned := ⟨buffer.id, memory, len, hlen⟩ :: state.owned.eraseIdx place }
      else none
  | .checkin place =>
      state.owned[place]?.map fun buffer ↦
        { state with pool := state.pool.checkin buffer, owned := state.owned.eraseIdx place }
  | .drop place =>
      state.owned[place]?.map fun _ ↦ { state with owned := state.owned.eraseIdx place }

def PoolState.start (allocator : Allocator) (config : BufferPoolConfig) : PoolState where
  pool := .new allocator config
  owned := []
  nextId := config.smallCount + config.mediumCount + config.largeCount

/-- The identities of all buffers, in the pool and out of it. -/
def PoolState.ids (state : PoolState) : List ℕ :=
  (state.pool.buffers ++ state.owned).map Buffer.id

/-- No buffer is in the pool twice, handed out twice, or handed out while it is in the pool. -/
structure Exclusive (state : PoolState) : Prop where
  distinct : state.ids.Nodup
  old : ∀ id ∈ state.ids, id < state.nextId

theorem Exclusive.of_subperm {state next : PoolState} (h : Exclusive state)
    (hids : next.ids.Subperm state.ids) (hnext : state.nextId ≤ next.nextId) :
    Exclusive next := by
  refine ⟨?_, fun id hid ↦ (h.old id (hids.subset hid)).trans_le hnext⟩
  obtain ⟨ids, hperm, hsublist⟩ := hids
  exact hperm.nodup_iff.mp (h.distinct.sublist hsublist)

theorem Exclusive.of_fresh {state next : PoolState} (h : Exclusive state)
    (hids : next.ids.Perm (state.nextId :: state.ids)) (hnext : next.nextId = state.nextId + 1) :
    Exclusive next := by
  refine ⟨hids.nodup_iff.mpr (List.nodup_cons.mpr ⟨fun hmem ↦ ?_, h.distinct⟩), fun id hid ↦ ?_⟩
  · exact Nat.lt_irrefl _ (h.old _ hmem)
  · rw [hnext]
    rcases List.mem_cons.mp (hids.mem_iff.mp hid) with rfl | hold
    · exact Nat.lt_succ_self _
    · exact (h.old id hold).trans (Nat.lt_succ_self _)

/-! ### Handing out and taking back -/

/-- A buffer that is taken was in the queue, or is new. -/
theorem takeFrom_ids (allocator : Allocator) (freshId size : ℕ) (queue : ArrayQueue Buffer) :
    queue.items.map Buffer.id =
        (BufferPool.takeFrom allocator freshId size queue).1.id ::
          (BufferPool.takeFrom allocator freshId size queue).2.items.map Buffer.id ∨
      (BufferPool.takeFrom allocator freshId size queue).1.id = freshId ∧
        (BufferPool.takeFrom allocator freshId size queue).2 = queue := by
  unfold BufferPool.takeFrom
  cases hpop : queue.pop with
  | none => exact Or.inr ⟨rfl, rfl⟩
  | some popped =>
    left
    rw [ArrayQueue.pop_eq_some hpop]
    rfl

theorem checkout_ids (allocator : Allocator) (freshId : ℕ) (pool : BufferPool) (needed : ℕ) :
    (((pool.checkout allocator freshId needed).1 ::
        (pool.checkout allocator freshId needed).2.buffers).map Buffer.id).Perm
      (pool.buffers.map Buffer.id) ∨
    (pool.checkout allocator freshId needed).1.id = freshId ∧
      (pool.checkout allocator freshId needed).2.buffers = pool.buffers := by
  unfold BufferPool.checkout
  split_ifs
  · rcases takeFrom_ids allocator freshId smallSize pool.small with htaken | ⟨hfresh, hsame⟩
    · left
      simp [BufferPool.buffers, htaken]
    · exact Or.inr ⟨hfresh, by simp [BufferPool.buffers, hsame]⟩
  · rcases takeFrom_ids allocator freshId mediumSize pool.medium with htaken | ⟨hfresh, hsame⟩
    · left
      simp only [BufferPool.buffers, List.map_cons, List.map_append, htaken, List.append_assoc,
        List.cons_append]
      exact List.perm_middle.symm
    · exact Or.inr ⟨hfresh, by simp [BufferPool.buffers, hsame]⟩
  · rcases takeFrom_ids allocator freshId largeSize pool.large with htaken | ⟨hfresh, hsame⟩
    · left
      simp only [BufferPool.buffers, List.map_cons, List.map_append, htaken]
      exact List.perm_middle.symm
    · exact Or.inr ⟨hfresh, by simp [BufferPool.buffers, hsame]⟩
  · exact Or.inr ⟨rfl, rfl⟩

/-- What is in the pool after a buffer comes back was there, or is that buffer. -/
theorem checkin_ids (pool : BufferPool) (buffer : Buffer) :
    ((pool.checkin buffer).buffers.map Buffer.id).Subperm
      (buffer.id :: pool.buffers.map Buffer.id) := by
  have hkept : (pool.buffers.map Buffer.id).Subperm (buffer.id :: pool.buffers.map Buffer.id) :=
    (List.sublist_cons_self _ _).subperm
  unfold BufferPool.checkin
  simp only
  split_ifs
  · rcases pool.small.push_items buffer.clear with hpushed | hsame
    · simp only [BufferPool.buffers, hpushed, List.append_assoc, List.map_append,
        List.singleton_append]
      exact List.perm_middle.subperm
    · simpa only [BufferPool.buffers, hsame] using hkept
  · rcases pool.medium.push_items buffer.clear with hpushed | hsame
    · simp only [BufferPool.buffers, hpushed, List.append_assoc, List.map_append,
        List.singleton_append]
      rw [← List.append_assoc]
      refine (List.perm_middle.trans ?_).subperm
      rw [List.append_assoc]
      exact .refl _
    · simpa only [BufferPool.buffers, hsame] using hkept
  · rcases pool.large.push_items buffer.clear with hpushed | hsame
    · simp only [BufferPool.buffers, hpushed, List.map_append, List.map_singleton]
      rw [← List.append_assoc]
      exact (List.perm_append_singleton _ _).subperm
    · simpa only [BufferPool.buffers, hsame] using hkept
  · exact hkept

theorem ids_eq (state : PoolState) :
    state.ids = state.pool.buffers.map Buffer.id ++ state.owned.map Buffer.id :=
  List.map_append

theorem owned_perm {owned : List Buffer} {place : ℕ} {buffer : Buffer}
    (hplace : owned[place]? = some buffer) :
    (owned.map Buffer.id).Perm (buffer.id :: (owned.eraseIdx place).map Buffer.id) := by
  obtain ⟨hlt, rfl⟩ := List.getElem?_eq_some_iff.mp hplace
  exact (List.getElem_cons_eraseIdx_perm hlt).symm.map Buffer.id

theorem exclusive_of_step (state : PoolState) (event : PoolEvent) (next : PoolState)
    (h : Exclusive state) (hstep : poolStep state event = some next) : Exclusive next := by
  cases event with
  | checkout allocator needed =>
    obtain rfl := Option.some.inj hstep
    rcases checkout_ids allocator state.nextId state.pool needed with htaken | ⟨hfresh, hsame⟩
    · refine h.of_subperm ?_ (Nat.le_succ _)
      rw [ids_eq, ids_eq, List.map_cons]
      exact (List.perm_middle.trans (htaken.append_right _)).subperm
    · refine h.of_fresh ?_ rfl
      rw [ids_eq, ids_eq, List.map_cons, hfresh, hsame]
      exact List.perm_middle
  | make memory len =>
    simp only [poolStep] at hstep
    split_ifs at hstep
    obtain rfl := Option.some.inj hstep
    refine h.of_fresh ?_ rfl
    rw [ids_eq, ids_eq]
    exact List.perm_middle
  | change place memory len =>
    simp only [poolStep] at hstep
    split_ifs at hstep
    obtain ⟨buffer, hplace, rfl⟩ := Option.map_eq_some_iff.mp hstep
    refine h.of_subperm ?_ (Nat.le_refl _)
    rw [ids_eq, ids_eq]
    exact ((owned_perm hplace).symm.append_left _).subperm
  | checkin place =>
    obtain ⟨buffer, hplace, rfl⟩ := Option.map_eq_some_iff.mp hstep
    refine h.of_subperm ?_ (Nat.le_refl _)
    rw [ids_eq, ids_eq]
    refine ((List.subperm_append_right _).mpr (checkin_ids state.pool buffer)).trans ?_
    refine List.Perm.subperm ?_
    exact List.perm_middle.symm.trans ((owned_perm hplace).symm.append_left _)
  | drop place =>
    obtain ⟨buffer, -, rfl⟩ := Option.map_eq_some_iff.mp hstep
    refine h.of_subperm ?_ (Nat.le_refl _)
    rw [ids_eq, ids_eq]
    exact (((List.eraseIdx_sublist _ _).map Buffer.id).append_left _).subperm

/-! ### The pool of a new server -/

theorem stock_ids (allocator : Allocator) (size firstId count : ℕ) (queue : ArrayQueue Buffer) :
    ((BufferPool.stock allocator size firstId count queue).items.map Buffer.id).Sublist
      (queue.items.map Buffer.id ++ List.range' firstId count) := by
  unfold BufferPool.stock
  induction count generalizing firstId queue with
  | zero => simp
  | succ count ih =>
    rw [List.range'_succ, List.foldl_cons]
    refine (ih (firstId + 1) _).trans ?_
    rcases queue.push_items (.withCapacity allocator firstId size) with hpushed | hsame
    · rw [hpushed, List.map_append, List.append_assoc]
      exact List.Sublist.refl _
    · rw [hsame]
      exact (List.sublist_cons_self _ _).append_left _

theorem exclusive_start (allocator : Allocator) (config : BufferPoolConfig) :
    Exclusive (.start allocator config) := by
  have hids : (PoolState.start allocator config).ids.Sublist
      (List.range (config.smallCount + config.mediumCount + config.largeCount)) := by
    rw [ids_eq, List.range_eq_range', ← List.range'_append_1, ← List.range'_append_1]
    simp only [PoolState.start, BufferPool.buffers, BufferPool.new, List.map_append, List.map_nil,
      List.append_nil, Nat.zero_add]
    exact ((stock_ids allocator _ _ _ (.new _)).append (stock_ids allocator _ _ _ (.new _))).append
      (stock_ids allocator _ _ _ (.new _))
  exact ⟨List.nodup_range.sublist hids, fun id hid ↦ List.mem_range.mp (hids.subset hid)⟩

/-- In every state that the pool can come to, a frame is read into its buffers as it is into a new
one, and every buffer has one owner. -/
theorem readFramePooled_of_run (allocator : Allocator) (config : BufferPoolConfig)
    (events : List PoolEvent) (state : PoolState)
    (hrun : run poolStep (.start allocator config) events = some state) :
    (∀ allocator maxFrameSize stream,
      readFramePooled allocator state.nextId state.pool maxFrameSize stream =
        readFrame maxFrameSize stream) ∧ Exclusive state := by
  refine ⟨fun allocator maxFrameSize stream ↦ readFramePooled_eq _ _ _ _ _, ?_⟩
  exact invariant_of_run (fun state event next h _ ↦ exclusive_of_step state event next h)
    (exclusive_start allocator config) (StepsMeet.of_forall fun _ _ _ ↦ trivial) hrun

def zeroAllocator : Allocator where
  block size := List.replicate size 0
  length_le size := by rw [List.length_replicate]

/-- A buffer of three bytes goes to the queue of the small ones, with its contents in its memory. -/
def recycled : List PoolEvent := [.make [1, 2, 3] 3, .checkin 0]

theorem readFramePooled_recycled :
    ∃ state, run poolStep (.start zeroAllocator ⟨0, 0, 0⟩) recycled = some state ∧
      state.pool.small.items.map Buffer.memory = [[1, 2, 3]] ∧
      (∀ allocator maxFrameSize stream,
        readFramePooled allocator state.nextId state.pool maxFrameSize stream =
          readFrame maxFrameSize stream) ∧ Exclusive state :=
  ⟨_, rfl, rfl, readFramePooled_of_run zeroAllocator ⟨0, 0, 0⟩ recycled _ rfl⟩

end MongoCore.Transport
