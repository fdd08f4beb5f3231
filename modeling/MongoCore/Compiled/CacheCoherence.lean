import Mathlib.Data.List.Basic
import Mathlib.Logic.Function.Basic
import MongoCore.Compiled.CacheHierarchy
import MongoCore.Library.TransitionSystem

/-!
# Coherence of the cache levels

Calls of the cache for one hash run at the same time.  A `put` or `remove` goes through the levels
from the first to the last, and so does a `get` until it finds a query, which it then writes into
the levels above.  One step of a call reads or writes one level.

A `put` or `remove` takes effect when it writes memory, the first level, and this is the order in
which these calls are numbered.  Once a call has completed, no later `get` should return the query
of a call before it.  There are three ways in which one does.  The call may have failed to replace
the query in a lower level.  A call before it may write a lower level after it.  Or another `get`
may have read the query and write it back.  The main result says that there are no others.
-/

namespace MongoCore.Compiled.CacheCoherence

open MongoCore.Library TransitionSystem

variable {Query : Type}

/-! ## Calls -/

/-- How far a `get` is.  A query carries the number of the `put` that it comes from.  With an answer
it is noted how many writing calls had taken effect by then.  No step depends on these numbers. -/
inductive Stage (Query : Type) where
  | reading (level : ℕ)
  | promoting (query : Query) (put source level : ℕ)
  | answered (answer : Option Query) (known : ℕ)
  deriving DecidableEq

/-- A call of `get`, with a note of the writing calls that had completed when it started. -/
structure ReadCall (Query : Type) where
  stage : Stage Query
  before : List ℕ
  deriving DecidableEq

/-- What each level holds for the hash; the calls of `put`, with their queries, and of `remove`,
without one, in the order in which they have taken effect; which level each of them writes next;
and the reading calls. -/
structure State (Query : Type) where
  levels : ℕ → Option (Query × ℕ)
  calls : List (Option Query)
  next : ℕ → ℕ
  reads : List (ReadCall Query)

/-- A step of some call, or memory dropping the query for one of another hash. -/
inductive Event (Query : Type) where
  | begin (query : Option Query)
  | write (call : ℕ) (outcome : WriteOutcome)
  | startRead
  | read (call : ℕ) (readable : Bool)
  | promote (call : ℕ) (outcome : WriteOutcome)
  | answer (call : ℕ)
  | evict

/-- What a level holds after it was written. -/
def outcomeOf (outcome : WriteOutcome) (old new : Option (Query × ℕ)) : Option (Query × ℕ) :=
  match outcome with
  | .done => new
  | .unchanged => old
  | .lost => none

namespace State

/-- The cache when it is empty and no call has started. -/
def initial : State Query where
  levels := fun _ ↦ none
  calls := []
  next := fun _ ↦ 0
  reads := []

/-- A writing call is past the last level. -/
def Completed (depth : ℕ) (state : State Query) (i : ℕ) : Prop :=
  i < state.calls.length ∧ state.next i = depth

def completed (depth : ℕ) (state : State Query) : List ℕ :=
  (List.range state.calls.length).filter fun i ↦ state.next i = depth

def writeLevel (state : State Query) (level : ℕ) (outcome : WriteOutcome)
    (new : Option (Query × ℕ)) : State Query :=
  { state with
    levels := Function.update state.levels level (outcomeOf outcome (state.levels level) new) }

/-- A writing call goes on to a level. -/
def setNext (state : State Query) (i level : ℕ) : State Query :=
  { state with next := Function.update state.next i level }

def setRead (state : State Query) (j : ℕ) (stage : Stage Query) (before : List ℕ) : State Query :=
  { state with reads := state.reads.set j ⟨stage, before⟩ }

end State

/-- One step over `depth` levels.  The first one is memory, which does not fail. -/
def step (depth : ℕ) (state : State Query) : Event Query → Option (State Query)
  | .begin query =>
      let i := state.calls.length
      some ((({ state with calls := state.calls ++ [query] }.setNext i 1).writeLevel 0 .done
        (query.map fun query ↦ (query, i))))
  | .write i outcome =>
      match state.calls[i]? with
      | none => none
      | some query =>
          if state.next i < depth then
            some ((state.writeLevel (state.next i) outcome
              (query.map fun query ↦ (query, i))).setNext i (state.next i + 1))
          else none
  | .startRead => some { state with reads := state.reads ++ [⟨.reading 0, state.completed depth⟩] }
  | .read j readable =>
      match state.reads[j]? with
      | some ⟨.reading level, before⟩ =>
          if level < depth ∧ (level = 0 → readable = true) then
            match if readable then state.levels level else none with
            | some (query, put) => some (state.setRead j (.promoting query put level 0) before)
            | none => some (state.setRead j (.reading (level + 1)) before)
          else none
      | _ => none
  | .promote j outcome =>
      match state.reads[j]? with
      | some ⟨.promoting query put source level, before⟩ =>
          if level < source ∧ (level = 0 → outcome = .done) then
            some ((state.writeLevel level outcome (some (query, put))).setRead j
              (.promoting query put source (level + 1)) before)
          else none
      | _ => none
  | .answer j =>
      match state.reads[j]? with
      | some ⟨.promoting query _ source level, before⟩ =>
          if level = source then
            some (state.setRead j (.answered (some query) state.calls.length) before)
          else none
      | some ⟨.reading level, before⟩ =>
          if level = depth then
            some (state.setRead j (.answered none state.calls.length) before)
          else none
      | _ => none
  | .evict => some (state.writeLevel 0 .done none)

/-! ## Coherence -/

/-- Every `get` that has answered was right about each writing call that had completed before it
started.  If no call has taken effect after a `put` of a query, it returned that query or nothing.
If no `put` has taken effect after a `remove`, it returned nothing. -/
def Coherent (state : State Query) : Prop :=
  ∀ read ∈ state.reads, ∀ answer known, read.stage = .answered answer known →
    ∀ i ∈ read.before,
      (∀ query, state.calls[i]? = some (some query) → known = i + 1 →
        answer = none ∨ answer = some query) ∧
      (state.calls[i]? = some none →
        (∀ later < known, i < later → state.calls[later]? = some none) → answer = none)

/-- Every call after a `put` has still to write a level. -/
def State.Pending (state : State Query) (put level : ℕ) : Prop :=
  ∀ i < state.calls.length, put < i → state.next i ≤ level

/-- No step brings back what a later call has replaced: a lower level is not written after a later
call has written it, a write that fails leaves nothing of a call before it, and a promotion does not
write a level that a call after the `put` of its query has written. -/
def NoRevival (state : State Query) : Event Query → Prop
  | .write i .done => state.Pending i (state.next i)
  | .write i .unchanged => ∀ query put, state.levels (state.next i) = some (query, put) → i ≤ put
  | .promote j .done => ∀ query put source level before,
      state.reads[j]? = some ⟨.promoting query put source level, before⟩ → state.Pending put level
  | _ => True

/-! ## What a query in the cache can be -/

/-- A query comes from a `put`. -/
def State.IsPut (state : State Query) (put : ℕ) (query : Query) : Prop :=
  state.calls[put]? = some (some query)

/-- What a `get` has found is no older than the calls that had completed before it started. -/
def ReadCall.Right (state : State Query) (read : ReadCall Query) : Prop :=
  match read.stage with
  | .reading _ => True
  | .promoting query put _ _ => state.IsPut put query ∧ ∀ i ∈ read.before, i ≤ put
  | .answered answer known => ∀ query, answer = some query →
      ∃ put < known, state.IsPut put query ∧ ∀ i ∈ read.before, i ≤ put

/-- What a level holds comes from a `put`, and every call after it has still to write the level. -/
structure Consistent (depth : ℕ) (state : State Query) : Prop where
  stored : ∀ level query put, state.levels level = some (query, put) →
    state.IsPut put query ∧ state.Pending put level
  before : ∀ read ∈ state.reads, ∀ i ∈ read.before, state.Completed depth i
  right : ∀ read ∈ state.reads, read.Right state

variable {depth : ℕ} {state next : State Query}

theorem mem_completed {i : ℕ} : i ∈ state.completed depth ↔ state.Completed depth i := by
  simp [State.completed, State.Completed]

theorem State.IsPut.lt {put : ℕ} {query : Query} (h : state.IsPut put query) :
    put < state.calls.length :=
  (List.getElem?_eq_some_iff.mp h).1

theorem State.IsPut.append {put : ℕ} {query : Query} (h : state.IsPut put query)
    (hcalls : ∃ more, next.calls = state.calls ++ more) : next.IsPut put query := by
  obtain ⟨more, hmore⟩ := hcalls
  rw [State.IsPut, hmore, List.getElem?_append_left h.lt]
  exact h

/-- What has been found stays right when calls are added. -/
theorem ReadCall.Right.append {read : ReadCall Query} (h : read.Right state)
    (hcalls : ∃ more, next.calls = state.calls ++ more) : read.Right next := by
  unfold ReadCall.Right at h ⊢
  split at h
  · trivial
  · exact ⟨h.1.append hcalls, h.2⟩
  · intro query hquery
    obtain ⟨put, hput, hisPut, hbefore⟩ := h query hquery
    exact ⟨put, hput, hisPut.append hcalls, hbefore⟩

/-! ## One step -/

theorem Consistent.initial : Consistent depth (State.initial : State Query) where
  stored := fun _ _ _ h ↦ nomatch h
  before := fun _ h ↦ nomatch h
  right := fun _ h ↦ nomatch h

theorem State.levels_writeLevel (level : ℕ) (outcome : WriteOutcome)
    (new : Option (Query × ℕ)) (l : ℕ) :
    (state.writeLevel level outcome new).levels l =
      if l = level then outcomeOf outcome (state.levels level) new else state.levels l :=
  Function.update_apply _ _ _ _

theorem State.next_setNext (i level k : ℕ) :
    (state.setNext i level).next k = if k = i then level else state.next k :=
  Function.update_apply _ _ _ _

/-- A level may be written with a query that no call after it has replaced there. -/
theorem Consistent.writeLevel (h : Consistent depth state) (level : ℕ) (outcome : WriteOutcome)
    (new : Option (Query × ℕ))
    (hnew : outcome = .done → ∀ query put, new = some (query, put) →
      state.IsPut put query ∧ state.Pending put level) :
    Consistent depth (state.writeLevel level outcome new) where
  before := h.before
  right := h.right
  stored := by
    intro l query put hl
    rw [State.levels_writeLevel] at hl
    split_ifs at hl with heq
    · subst heq
      cases outcome with
      | done => exact hnew rfl query put hl
      | unchanged => exact h.stored l query put hl
      | lost => cases hl
    · exact h.stored l query put hl

/-- A reading call may go on to where what it has found is right. -/
theorem Consistent.setRead (h : Consistent depth state) {j : ℕ} {stage : Stage Query}
    {before : List ℕ} (hbefore : ∀ i ∈ before, state.Completed depth i)
    (hright : ReadCall.Right state ⟨stage, before⟩) :
    Consistent depth (state.setRead j stage before) where
  stored := h.stored
  before := fun read hread ↦ (List.mem_or_eq_of_mem_set hread).elim (h.before read)
    fun heq ↦ heq ▸ hbefore
  right := fun read hread ↦ (List.mem_or_eq_of_mem_set hread).elim (h.right read)
    fun heq ↦ heq ▸ hright

/-- A writing call may leave a level that holds nothing of a call before it. -/
theorem Consistent.setNext (h : Consistent depth state) {i : ℕ} (hlt : state.next i < depth)
    (hlevel : ∀ query put, state.levels (state.next i) = some (query, put) → i ≤ put) :
    Consistent depth (state.setNext i (state.next i + 1)) where
  right := h.right
  before := by
    intro read hread k hk
    have hcompleted := h.before read hread k hk
    have hne : k ≠ i := by
      rintro rfl
      exact Nat.ne_of_lt hlt hcompleted.2
    refine ⟨hcompleted.1, ?_⟩
    rw [State.next_setNext, if_neg hne]
    exact hcompleted.2
  stored := by
    intro level query put hl
    obtain ⟨hput, hpending⟩ := h.stored level query put hl
    refine ⟨hput, fun k hk hafter ↦ ?_⟩
    have hle := hpending k hk hafter
    rw [State.next_setNext]
    split_ifs with heq
    · subst heq
      -- the level holds something of a call before, so it is not the level that the call leaves
      have hne : state.next k ≠ level := by
        rintro rfl
        exact Nat.not_le_of_lt hafter (hlevel query put hl)
      omega
    · exact hle

/-- A call takes effect: it is the last one, and memory holds its query. -/
theorem Consistent.begin (h : Consistent depth state) (query : Option Query) :
    Consistent depth
      (({ state with calls := state.calls ++ [query] }.setNext state.calls.length 1).writeLevel 0
        .done (query.map fun query ↦ (query, state.calls.length))) where
  before := by
    intro read hread i hi
    have hcompleted := h.before read hread i hi
    refine ⟨Nat.lt_of_lt_of_le hcompleted.1 (by simp [State.writeLevel, State.setNext]), ?_⟩
    change (state.setNext state.calls.length 1).next i = depth
    rw [State.next_setNext, if_neg (Nat.ne_of_lt hcompleted.1)]
    exact hcompleted.2
  right := fun read hread ↦ (h.right read hread).append ⟨[query], rfl⟩
  stored := by
    intro level found put hl
    rw [State.levels_writeLevel] at hl
    split_ifs at hl with hzero
    · obtain ⟨_, rfl, hpair⟩ := Option.map_eq_some_iff.mp hl
      cases hpair
      refine ⟨by simp [State.IsPut, State.writeLevel, State.setNext], fun i hi hafter ↦ ?_⟩
      have hle : i < state.calls.length + 1 := by
        simpa [State.writeLevel, State.setNext] using hi
      omega
    · obtain ⟨hput, hpending⟩ := h.stored level found put hl
      refine ⟨hput.append ⟨[query], rfl⟩, fun i hi hafter ↦ ?_⟩
      have hle : i < state.calls.length + 1 := by
        simpa [State.writeLevel, State.setNext] using hi
      change (state.setNext state.calls.length 1).next i ≤ level
      rw [State.next_setNext]
      split_ifs with hlast
      · omega
      · exact hpending i (by omega) hafter

/-- A reading call starts. -/
theorem Consistent.startRead (h : Consistent depth state) :
    Consistent depth { state with
      reads := state.reads ++ [⟨.reading 0, state.completed depth⟩] } where
  stored := h.stored
  before := by
    intro read hread i hi
    rcases List.mem_append.mp hread with hold | hnew
    · exact h.before read hold i hi
    · rw [List.mem_singleton.mp hnew] at hi
      exact mem_completed.mp hi
  right := by
    intro read hread
    rcases List.mem_append.mp hread with hold | hnew
    · exact h.right read hold
    · rw [List.mem_singleton.mp hnew]
      trivial

theorem step_write {i : ℕ} {outcome : WriteOutcome}
    (hstep : step depth state (.write i outcome) = some next) :
    ∃ query, state.calls[i]? = some query ∧ state.next i < depth ∧
      next = (state.writeLevel (state.next i) outcome
        (query.map fun query ↦ (query, i))).setNext i (state.next i + 1) := by
  unfold step at hstep
  dsimp only at hstep
  split at hstep
  case h_1 => cases hstep
  case h_2 _ query hcall =>
    split_ifs at hstep with hlt
    exact ⟨query, hcall, hlt, (Option.some.inj hstep).symm⟩

theorem step_read {j : ℕ} {readable : Bool}
    (hstep : step depth state (.read j readable) = some next) :
    ∃ level before, state.reads[j]? = some ⟨.reading level, before⟩ ∧ level < depth ∧
      ((∃ query put, state.levels level = some (query, put) ∧
          next = state.setRead j (.promoting query put level 0) before) ∨
        next = state.setRead j (.reading (level + 1)) before) := by
  unfold step at hstep
  dsimp only at hstep
  split at hstep
  case h_1 _ level before hread =>
    split_ifs at hstep with hguard hreadable
    · refine ⟨level, before, hread, hguard.1, ?_⟩
      cases hlevel : state.levels level with
      | none =>
        rw [hlevel] at hstep
        exact .inr (Option.some.inj hstep).symm
      | some found =>
        rw [hlevel] at hstep
        exact .inl ⟨found.1, found.2, rfl, (Option.some.inj hstep).symm⟩
    · exact ⟨level, before, hread, hguard.1, .inr (Option.some.inj hstep).symm⟩
  case h_2 => cases hstep

theorem step_promote {j : ℕ} {outcome : WriteOutcome}
    (hstep : step depth state (.promote j outcome) = some next) :
    ∃ query put source level before,
      state.reads[j]? = some ⟨.promoting query put source level, before⟩ ∧
      next = (state.writeLevel level outcome (some (query, put))).setRead j
        (.promoting query put source (level + 1)) before := by
  unfold step at hstep
  dsimp only at hstep
  split at hstep
  case h_1 _ query put source level before hread =>
    split_ifs at hstep
    exact ⟨query, put, source, level, before, hread, (Option.some.inj hstep).symm⟩
  case h_2 => cases hstep

theorem step_answer {j : ℕ} (hstep : step depth state (.answer j) = some next) :
    ∃ before,
      (∃ query put source level,
        state.reads[j]? = some ⟨.promoting query put source level, before⟩ ∧
        next = state.setRead j (.answered (some query) state.calls.length) before) ∨
      (∃ level, state.reads[j]? = some ⟨.reading level, before⟩ ∧
        next = state.setRead j (.answered none state.calls.length) before) := by
  unfold step at hstep
  dsimp only at hstep
  split at hstep
  case h_1 _ query put source level before hread =>
    split_ifs at hstep
    exact ⟨before, .inl ⟨query, put, source, level, hread, (Option.some.inj hstep).symm⟩⟩
  case h_2 _ level before hread =>
    split_ifs at hstep
    exact ⟨before, .inr ⟨level, hread, (Option.some.inj hstep).symm⟩⟩
  case h_3 => cases hstep

/-- Every step that revives no query keeps the state consistent. -/
theorem Consistent.step (h : Consistent depth state) {event : Event Query}
    (hrevival : NoRevival state event)
    (hstep : CacheCoherence.step depth state event = some next) : Consistent depth next := by
  cases event with
  | begin query =>
    obtain rfl := Option.some.inj hstep
    exact h.begin query
  | write i outcome =>
    obtain ⟨query, hcall, hlt, rfl⟩ := step_write hstep
    have hwritten := h.writeLevel (state.next i) outcome (query.map fun query ↦ (query, i)) (by
      rintro rfl found put hnew
      obtain ⟨_, rfl, hpair⟩ := Option.map_eq_some_iff.mp hnew
      cases hpair
      exact ⟨hcall, hrevival⟩)
    refine hwritten.setNext hlt fun found put hlevel ↦ ?_
    rw [State.levels_writeLevel] at hlevel
    change (if state.next i = state.next i then _ else _) = _ at hlevel
    rw [if_pos rfl] at hlevel
    cases outcome with
    | done =>
      obtain ⟨_, -, hpair⟩ := Option.map_eq_some_iff.mp hlevel
      cases hpair
      exact Nat.le_refl i
    | unchanged => exact hrevival found put hlevel
    | lost => cases hlevel
  | startRead =>
    obtain rfl := Option.some.inj hstep
    exact h.startRead
  | read j readable =>
    obtain ⟨level, before, hread, hlt, hfound⟩ := step_read hstep
    have hbefore := h.before _ (List.mem_of_getElem? hread)
    rcases hfound with ⟨query, put, hlevel, rfl⟩ | rfl
    · obtain ⟨hput, hpending⟩ := h.stored level query put hlevel
      refine h.setRead hbefore ⟨hput, fun i hi ↦ ?_⟩
      -- a call that has completed has written the level, so it is not after what the level holds
      by_contra hafter
      have hle := hpending i (hbefore i hi).1 (Nat.lt_of_not_le hafter)
      rw [(hbefore i hi).2] at hle
      exact Nat.not_le_of_lt hlt hle
    · exact h.setRead hbefore trivial
  | promote j outcome =>
    obtain ⟨query, put, source, level, before, hread, rfl⟩ := step_promote hstep
    have hmem := List.mem_of_getElem? hread
    have hright : state.IsPut put query ∧ ∀ i ∈ before, i ≤ put := h.right _ hmem
    have hwritten := h.writeLevel level outcome (some (query, put)) (by
      rintro rfl other k hpair
      cases hpair
      exact ⟨hright.1, hrevival query put source level before hread⟩)
    exact hwritten.setRead (h.before _ hmem) hright
  | answer j =>
    obtain ⟨before, ⟨query, put, source, level, hread, rfl⟩ | ⟨level, hread, rfl⟩⟩ :=
      step_answer hstep
    · have hmem := List.mem_of_getElem? hread
      have hright : state.IsPut put query ∧ ∀ i ∈ before, i ≤ put := h.right _ hmem
      refine h.setRead (h.before _ hmem) fun other hother ↦ ?_
      cases hother
      exact ⟨put, hright.1.lt, hright⟩
    · exact h.setRead (h.before _ (List.mem_of_getElem? hread)) fun query hquery ↦ nomatch hquery
  | evict =>
    obtain rfl := Option.some.inj hstep
    exact h.writeLevel 0 .done none fun _ _ _ hnew ↦ nomatch hnew

/-- In a consistent state all answers were right. -/
theorem Consistent.coherent (h : Consistent depth state) : Coherent state := by
  intro read hread answer known hanswered i hi
  have hright := h.right read hread
  rw [ReadCall.Right, hanswered] at hright
  constructor
  · intro query hquery hknown
    cases answer with
    | none => exact .inl rfl
    | some found =>
      obtain ⟨put, hput, hfound, hbefore⟩ := hright found rfl
      have hle := hbefore i hi
      have heq : put = i := by omega
      rw [State.IsPut, heq, hquery] at hfound
      exact .inr (Option.some.inj hfound).symm
  · intro hremove hlater
    cases answer with
    | none => rfl
    | some found =>
      obtain ⟨put, hput, hfound, hbefore⟩ := hright found rfl
      have hnone : state.calls[put]? = some none := by
        rcases Nat.lt_or_eq_of_le (hbefore i hi) with hlt | rfl
        · exact hlater put hput hlt
        · exact hremove
      cases hfound.symm.trans hnone

/-- The cache is coherent all along a run in which no step brings back a replaced query. -/
theorem coherent_of_noRevival (depth : ℕ) (events : List (Event Query))
    (h : StepsMeet (step depth) NoRevival State.initial events) :
    Throughout (step depth) Coherent State.initial events :=
  throughout_of_stepsMeet (fun _ (hconsistent : Consistent depth _) ↦ hconsistent.coherent)
    (fun _ _ _ hconsistent hrevival hstep ↦ hconsistent.step hrevival hstep)
    Consistent.initial h

/-- No call comes after the last one. -/
theorem State.pending_last {state : State Query} {put : ℕ} (h : state.calls.length = put + 1)
    (level : ℕ) : state.Pending put level := by
  intro i hi hafter
  rw [h] at hi
  exact absurd hafter (Nat.not_lt_of_le (Nat.le_of_lt_succ hi))

/-- A query is replaced in memory and on disk, and the new one is dropped from memory and promoted
again. -/
def promotion : List (Event String) :=
  [.begin (some "old"), .write 0 .done, .begin (some "new"), .write 1 .done, .evict,
    .startRead, .read 0 true, .read 0 true, .promote 0 .done, .answer 0]

theorem coherent_of_promotion : Throughout (step 2) Coherent State.initial promotion := by
  refine coherent_of_noRevival 2 promotion ?_
  simp only [promotion, StepsMeet, NoRevival, true_and]
  intro s₁ h₁
  obtain rfl := Option.some.inj h₁
  refine ⟨State.pending_last rfl _, ?_⟩
  intro s₂ h₂ s₃ h₃
  obtain rfl := Option.some.inj h₂
  obtain rfl := Option.some.inj h₃
  refine ⟨State.pending_last rfl _, ?_⟩
  intro s₄ h₄ s₅ h₅ s₆ h₆ s₇ h₇ s₈ h₈
  obtain rfl := Option.some.inj h₄
  obtain rfl := Option.some.inj h₅
  obtain rfl := Option.some.inj h₆
  obtain rfl := Option.some.inj h₇
  obtain rfl := Option.some.inj h₈
  refine ⟨?_, fun _ _ _ _ ↦ trivial⟩
  intro query put source level before hread
  -- the query on disk is that of the second call, the last one
  have hstage : Stage.promoting "new" 1 1 0 = .promoting query put source level :=
    congrArg ReadCall.stage (Option.some.inj hread)
  obtain ⟨-, rfl, -, -⟩ := Stage.promoting.inj hstage
  exact State.pending_last rfl _

/-! ## Runs that revive a query -/

/-- A query is read from disk, removed, and then written back to memory. -/
def staleRemove : List (Event String) :=
  [.begin (some "old"), .write 0 .done, .evict,
    .startRead, .read 0 true, .read 0 true,
    .begin none, .write 1 .done,
    .promote 0 .done, .startRead, .read 1 true, .answer 1]

/-- A query is replaced in memory but not on disk, and then dropped from memory. -/
def stalePut : List (Event String) :=
  [.begin (some "old"), .write 0 .done, .begin (some "new"), .write 1 .unchanged, .evict,
    .startRead, .read 0 true, .read 0 true, .promote 0 .done, .answer 0]

/-- Two queries are put at the same time.  The second is the last one in memory, but the first is
the last one on disk. -/
def overtakenPut : List (Event String) :=
  [.begin (some "old"), .begin (some "new"), .write 1 .done, .write 0 .done, .evict,
    .startRead, .read 0 true, .read 0 true, .promote 0 .done, .answer 0]

/-- A `get` can return a query that was removed or replaced before it started. -/
theorem stale_query_returned :
    ¬ Throughout (step 2) Coherent State.initial staleRemove ∧
      ¬ Throughout (step 2) Coherent State.initial stalePut ∧
      ¬ Throughout (step 2) Coherent State.initial overtakenPut := by
  refine ⟨?_, ?_, ?_⟩
  · intro h
    have hcoherent := h staleRemove [] rfl _ rfl ⟨.answered (some "old") 2, [0, 1]⟩ (by decide)
      (some "old") 2 rfl 1 (by decide)
    have hnone := hcoherent.2 rfl (by decide)
    cases hnone
  · intro h
    have hcoherent := h stalePut [] rfl _ rfl ⟨.answered (some "old") 2, [0, 1]⟩ (by decide)
      (some "old") 2 rfl 1 (by decide)
    have hnew := hcoherent.1 "new" rfl rfl
    revert hnew
    decide
  · intro h
    have hcoherent := h overtakenPut [] rfl _ rfl ⟨.answered (some "old") 2, [0, 1]⟩ (by decide)
      (some "old") 2 rfl 1 (by decide)
    have hnew := hcoherent.1 "new" rfl rfl
    revert hnew
    decide

end MongoCore.Compiled.CacheCoherence
