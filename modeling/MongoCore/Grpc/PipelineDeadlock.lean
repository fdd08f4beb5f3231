import MongoCore.Grpc.PipelineExecution
import Mathlib.Data.List.Nodup

/-!
# Self-deadlock of a pipeline call

A task is stuck when one of its futures blocks the thread at a shard that another of its futures
keeps locked while it waits for the database.  Nothing gets the task out of this state: neither an
answer of the database nor the deadline of the call.

The main result says exactly which calls can get stuck.  At least two futures must be able to hold
a permit, one operation must keep the entry of an open transaction locked, and another must touch
an entry in the same shard.  The fairness of the semaphore and the contention with other tasks are
not claimed.
-/

namespace MongoCore.Grpc.PipelineDeadlock

open MongoCore.Library.TransitionSystem MongoCore.Grpc.PipelineExecution

variable (service : Service) (operations : List Operation)

/-! ## Stuck tasks -/

/-- The operation keeps the entry of an open transaction locked across its wait. -/
def KeepsLocked (i : ℕ) (id : String) : Prop :=
  ∃ operation, operations[i]? = some operation ∧ operation.entry = .getMut id ∧
    service.isOpen id = true

/-- The operation makes a call into the table for this id. -/
def TouchesEntry (i : ℕ) (id : String) : Prop :=
  ∃ operation, operations[i]? = some operation ∧
    ((operation.entry = .getMut id ∨ operation.entry = .lookUp id ∨ operation.entry = .remove id) ∨
      (operation = .beginTransaction ∧ IsFresh operations service.isOpen id))

/-- The states that a call can reach. -/
def Reachable (task : Task) : Prop :=
  ∃ start events, pipeline service operations = .ok start ∧
    run (step service operations) start events = some task

/-- With one permit there is one future that holds it. -/
structure Exclusive (task : Task) : Prop where
  permits : task.permits ≤ 1
  free : 0 < task.permits → ∀ i, ¬ (task.pcs i).HoldsPermit
  unique : ∀ i j, (task.pcs i).HoldsPermit → (task.pcs j).HoldsPermit → i = j

structure Consistent (task : Task) : Prop where
  guards : ∀ i id, (i, id) ∈ task.guards →
    KeepsLocked service operations i id ∧ (task.pcs i).AtDatabase
  blocked : ∀ i id, task.pcs i = .blocked id → task.threadBlocked = true ∧
    TouchesEntry service operations i id ∧
      ∃ j held, i ≠ j ∧ (j, held) ∈ task.guards ∧ service.shardOf held = service.shardOf id
  nodup : task.queue.Nodup
  queue : ∀ i ∈ task.queue, task.pcs i = .queued
  openNamed : ∀ operation ∈ operations, ∀ id, operation.named = some id →
    task.isOpen id = true → service.isOpen id = true
  openOther : ∀ id, (∀ operation ∈ operations, operation.named ≠ some id) →
    service.isOpen id = true → task.isOpen id = true
  exclusive : service.maxConcurrency ≤ 1 → Exclusive task

variable {service operations} {task : Task}

/-- The entry of a future that is not at the database is not locked by it. -/
theorem Consistent.not_guard (h : Consistent service operations task) {i : ℕ}
    (hi : ¬ (task.pcs i).AtDatabase) (id : String) : (i, id) ∉ task.guards :=
  fun hguard ↦ hi (h.guards i id hguard).2

/-- An id that can be drawn now could be drawn at the start. -/
theorem Consistent.isFresh (h : Consistent service operations task) {fresh : String}
    (hfresh : IsFresh operations task.isOpen fresh) :
    IsFresh operations service.isOpen fresh := by
  refine ⟨?_, hfresh.2⟩
  cases hopen : service.isOpen fresh with
  | false => rfl
  | true => exact absurd (h.openOther fresh hfresh.2 hopen) (by simp [hfresh.1])

/-! ### Moving one future -/

theorem Exclusive.eq_of_setPc (h : Exclusive task) {i k : ℕ} {pc : Pc}
    (hi : (task.pcs i).HoldsPermit) (hk : ((task.setPc i pc).pcs k).HoldsPermit) : k = i := by
  by_contra hne
  have hother : (task.pcs k).HoldsPermit := by
    simpa [Task.setPc, Function.update_of_ne hne] using hk
  exact hne (h.unique k i hother hi)

theorem Exclusive.setPc (h : Exclusive task) {i : ℕ} (hi : (task.pcs i).HoldsPermit) (pc : Pc) :
    Exclusive (task.setPc i pc) where
  permits := h.permits
  free := fun hfree ↦ absurd hi (h.free hfree i)
  unique := fun _ _ hj hk ↦ (h.eq_of_setPc hi hj).trans (h.eq_of_setPc hi hk).symm

theorem Exclusive.releasePermit (hpermits : task.permits = 0)
    (hnone : ∀ k, ¬ (task.pcs k).HoldsPermit) : Exclusive task.releasePermit := by
  unfold Task.releasePermit
  cases hqueue : task.queue with
  | nil =>
    exact {
      permits := by simp [hpermits]
      free := fun _ ↦ hnone
      unique := fun j _ hj ↦ absurd hj (hnone j) }
  | cons next rest =>
    have heq : ∀ k, ((task.setPc next .granted).pcs k).HoldsPermit → k = next := by
      intro k hk
      by_contra hne
      apply hnone k
      simpa [Task.setPc, Function.update_of_ne hne] using hk
    exact {
      permits := by simp [Task.setPc, hpermits]
      free := fun hfree ↦ by simp [Task.setPc, hpermits] at hfree
      unique := fun j k hj hk ↦ (heq j hj).trans (heq k hk).symm }

theorem Exclusive.finish (h : Exclusive task) {i : ℕ} (hi : (task.pcs i).HoldsPermit) :
    Exclusive (task.finish i) := by
  apply Exclusive.releasePermit
  · have hfree : ¬ 0 < task.permits := fun hfree ↦ h.free hfree i hi
    exact Nat.eq_zero_of_not_pos hfree
  · intro k hk
    obtain rfl : k = i := h.eq_of_setPc hi hk
    simp [Task.setPc, Pc.HoldsPermit] at hk

theorem Consistent.not_queued (h : Consistent service operations task) {i : ℕ}
    (hi : (task.pcs i).HoldsPermit) {k : ℕ} (hk : k ∈ task.queue) : k ≠ i := by
  rintro rfl
  rw [h.queue k hk] at hi
  exact hi

/-- What a future locks is kept, when another future moves or this one stays at the database. -/
theorem Consistent.guards_setPc (h : Consistent service operations task) {i : ℕ} {pc : Pc}
    (hguard : pc.AtDatabase ∨ ∀ id, (i, id) ∉ task.guards) (k : ℕ) (id : String)
    (hk : (k, id) ∈ task.guards) :
    KeepsLocked service operations k id ∧ ((task.setPc i pc).pcs k).AtDatabase := by
  refine ⟨(h.guards k id hk).1, ?_⟩
  by_cases hki : k = i
  · subst hki
    simpa [Task.setPc] using hguard.resolve_right fun hnone ↦ hnone id hk
  · simpa [Task.setPc, Function.update_of_ne hki] using (h.guards k id hk).2

/-- A future that moves without blocking the thread blocks nothing. -/
theorem Consistent.blocked_setPc (h : Consistent service operations task) {i : ℕ} {pc : Pc}
    (hpc : ∀ id, pc ≠ .blocked id) (k : ℕ) (id : String)
    (hk : (task.setPc i pc).pcs k = .blocked id) :
    task.threadBlocked = true ∧ TouchesEntry service operations k id ∧
      ∃ j held, k ≠ j ∧ (j, held) ∈ task.guards ∧ service.shardOf held = service.shardOf id := by
  by_cases hki : k = i
  · subst hki
    exact absurd (by simpa [Task.setPc] using hk) (hpc id)
  · exact h.blocked k id (by simpa [Task.setPc, Function.update_of_ne hki] using hk)

/-- A future with a permit moves on without blocking the thread. -/
theorem Consistent.setPc (h : Consistent service operations task) {i : ℕ} {pc : Pc}
    (hi : (task.pcs i).HoldsPermit) (hpc : ∀ id, pc ≠ .blocked id)
    (hguard : pc.AtDatabase ∨ ∀ id, (i, id) ∉ task.guards) :
    Consistent service operations (task.setPc i pc) where
  guards := h.guards_setPc hguard
  blocked := h.blocked_setPc hpc
  nodup := h.nodup
  queue := by
    intro k hk
    simpa [Task.setPc, Function.update_of_ne (h.not_queued hi hk)] using h.queue k hk
  openNamed := h.openNamed
  openOther := h.openOther
  exclusive := fun hone ↦ (h.exclusive hone).setPc hi pc

theorem Consistent.lock (h : Consistent service operations task) {i : ℕ} {id : String}
    (hkeeps : KeepsLocked service operations i id) (hi : (task.pcs i).AtDatabase) :
    Consistent service operations (task.lock i id) where
  guards := by
    intro k name hk
    rcases List.mem_cons.mp hk with heq | hk
    · obtain ⟨rfl, rfl⟩ := Prod.mk.inj heq
      exact ⟨hkeeps, hi⟩
    · exact h.guards k name hk
  blocked := by
    intro k name hk
    obtain ⟨hblocked, htouches, j, held, hne, hheld, hshard⟩ := h.blocked k name hk
    exact ⟨hblocked, htouches, j, held, hne, List.mem_cons_of_mem _ hheld, hshard⟩
  nodup := h.nodup
  queue := h.queue
  openNamed := h.openNamed
  openOther := h.openOther
  exclusive := fun hone ↦ ⟨(h.exclusive hone).permits, (h.exclusive hone).free,
    (h.exclusive hone).unique⟩

/-- A future blocks the thread at a shard that another keeps locked. -/
theorem Consistent.blockAt (h : Consistent service operations task) {i : ℕ} {id : String}
    (hi : (task.pcs i).HoldsPermit) (hguard : ∀ name, (i, name) ∉ task.guards)
    (htouches : TouchesEntry service operations i id)
    (hlocked : task.isLocked service id = true) :
    Consistent service operations (task.blockAt i id) := by
  obtain ⟨⟨j, held⟩, hheld, hshard⟩ := List.any_eq_true.mp hlocked
  have hij : i ≠ j := fun heq ↦ hguard held (heq ▸ hheld)
  exact {
    guards := by
      intro k name hk
      refine ⟨(h.guards k name hk).1, ?_⟩
      have hki : k ≠ i := fun heq ↦ hguard name (heq ▸ hk)
      simpa [Task.blockAt, Task.setPc, Function.update_of_ne hki] using (h.guards k name hk).2
    blocked := by
      intro k name hk
      refine ⟨rfl, ?_⟩
      by_cases hki : k = i
      · subst hki
        obtain rfl : id = name := by simpa [Task.blockAt, Task.setPc] using hk
        exact ⟨htouches, j, held, hij, hheld, by simpa using hshard⟩
      · have hbefore : task.pcs k = .blocked name := by
          simpa [Task.blockAt, Task.setPc, Function.update_of_ne hki] using hk
        exact (h.blocked k name hbefore).2
    nodup := h.nodup
    queue := by
      intro k hk
      simpa [Task.blockAt, Task.setPc, Function.update_of_ne (h.not_queued hi hk)] using
        h.queue k hk
    openNamed := h.openNamed
    openOther := h.openOther
    exclusive := fun hone ↦ by
      obtain ⟨hpermits, hfree, hunique⟩ := (h.exclusive hone).setPc hi (.blocked id)
      exact ⟨hpermits, hfree, hunique⟩ }

/-- An entry that an operation names is removed. -/
theorem Consistent.close (h : Consistent service operations task) {id : String}
    {operation : Operation} (hmem : operation ∈ operations) (hnamed : operation.named = some id) :
    Consistent service operations (task.setOpen id false) := by
  refine ⟨h.guards, h.blocked, h.nodup, h.queue, fun other hother name hname hopen ↦ ?_,
    fun name hname hopen ↦ ?_, fun hone ↦ ?_⟩
  · by_cases heq : name = id
    · simp [Task.setOpen, heq] at hopen
    · apply h.openNamed other hother name hname
      simpa [Task.setOpen, Function.update_of_ne heq] using hopen
  · have hne : name ≠ id := fun heq ↦ hname operation hmem (heq ▸ hnamed)
    simpa [Task.setOpen, Function.update_of_ne hne] using h.openOther name hname hopen
  · obtain ⟨hpermits, hfree, hunique⟩ := h.exclusive hone
    exact ⟨hpermits, hfree, hunique⟩

/-- An entry is added under a fresh id. -/
theorem Consistent.open_ (h : Consistent service operations task) {id : String}
    (hfresh : IsFresh operations task.isOpen id) :
    Consistent service operations (task.setOpen id true) := by
  refine ⟨h.guards, h.blocked, h.nodup, h.queue, fun other hother name hname hopen ↦ ?_,
    fun name hname hopen ↦ ?_, fun hone ↦ ?_⟩
  · have hne : name ≠ id := fun heq ↦ hfresh.2 other hother (heq ▸ hname)
    apply h.openNamed other hother name hname
    simpa [Task.setOpen, Function.update_of_ne hne] using hopen
  · by_cases heq : name = id
    · simp [Task.setOpen, heq]
    · simpa [Task.setOpen, Function.update_of_ne heq] using h.openOther name hname hopen
  · obtain ⟨hpermits, hfree, hunique⟩ := h.exclusive hone
    exact ⟨hpermits, hfree, hunique⟩

theorem Consistent.releasePermit (h : Consistent service operations task)
    (hexclusive : service.maxConcurrency ≤ 1 → Exclusive task.releasePermit) :
    Consistent service operations task.releasePermit := by
  unfold Task.releasePermit at hexclusive ⊢
  cases hqueue : task.queue with
  | nil =>
    simp only [hqueue] at hexclusive ⊢
    exact ⟨h.guards, h.blocked, List.nodup_nil, fun _ hk ↦ (List.not_mem_nil hk).elim,
      h.openNamed, h.openOther, hexclusive⟩
  | cons next rest =>
    simp only [hqueue] at hexclusive ⊢
    have hnext : task.pcs next = .queued := h.queue next (by simp [hqueue])
    have hnodup : next ∉ rest ∧ rest.Nodup := List.nodup_cons.mp (hqueue ▸ h.nodup)
    exact {
      guards := h.guards_setPc (.inr (h.not_guard (by simp [hnext, Pc.AtDatabase])))
      blocked := h.blocked_setPc fun _ ↦ Pc.noConfusion
      nodup := hnodup.2
      queue := by
        intro k hk
        have hkn : k ≠ next := fun heq ↦ hnodup.1 (heq ▸ hk)
        have hmem : k ∈ task.queue := by simp [hqueue, show k ∈ rest from hk]
        simpa [Task.setPc, Function.update_of_ne hkn] using h.queue k hmem
      openNamed := h.openNamed
      openOther := h.openOther
      exclusive := hexclusive }

/-- A future returns while the thread is not blocked. -/
theorem Consistent.finish (h : Consistent service operations task) {i : ℕ}
    (hi : (task.pcs i).HoldsPermit) (hthread : task.threadBlocked = false) :
    Consistent service operations (task.finish i) := by
  have hnone : ∀ k id, task.pcs k ≠ .blocked id := by
    intro k id hk
    simpa [hthread] using (h.blocked k id hk).1
  have hunlocked : Consistent service operations
      { task with guards := task.guards.filter fun guard ↦ guard.1 ≠ i } :=
    ⟨fun k id hk ↦ h.guards k id (List.mem_of_mem_filter hk),
      fun k id hk ↦ absurd hk (hnone k id), h.nodup, h.queue, h.openNamed, h.openOther,
      fun hone ↦ ⟨(h.exclusive hone).permits, (h.exclusive hone).free, (h.exclusive hone).unique⟩⟩
  apply Consistent.releasePermit
  · apply hunlocked.setPc hi (fun _ ↦ Pc.noConfusion)
    right
    intro id hmem
    simpa using (List.mem_filter.mp hmem).2
  · intro hone
    exact (h.exclusive hone).finish hi

/-- A future takes a free permit. -/
theorem Consistent.acquire (h : Consistent service operations task) {i permits : ℕ}
    (hi : task.pcs i = .unpolled) (hpermits : task.permits = permits + 1) :
    Consistent service operations { task.setPc i .granted with permits := permits } where
  guards := h.guards_setPc (.inr (h.not_guard (by simp [hi, Pc.AtDatabase])))
  blocked := h.blocked_setPc fun _ ↦ Pc.noConfusion
  nodup := h.nodup
  queue := by
    intro k hk
    have hki : k ≠ i := by
      rintro rfl
      simpa [hi] using h.queue k hk
    simpa [Task.setPc, Function.update_of_ne hki] using h.queue k hk
  openNamed := h.openNamed
  openOther := h.openOther
  exclusive := by
    intro hone
    obtain ⟨hle, hfree, -⟩ := h.exclusive hone
    have hzero : permits = 0 := by omega
    have heq : ∀ k, ((task.setPc i .granted).pcs k).HoldsPermit → k = i := by
      intro k hk
      by_contra hki
      apply hfree (by omega) k
      simpa [Task.setPc, Function.update_of_ne hki] using hk
    exact {
      permits := by simp [hzero]
      free := fun hpos ↦ by simp [hzero] at hpos
      unique := fun j k hj hk ↦ (heq j hj).trans (heq k hk).symm }

/-- A future queues for a permit. -/
theorem Consistent.enqueue (h : Consistent service operations task) {i : ℕ}
    (hi : task.pcs i = .unpolled) :
    Consistent service operations
      { task.setPc i .queued with queue := task.queue ++ [i] } where
  guards := h.guards_setPc (.inr (h.not_guard (by simp [hi, Pc.AtDatabase])))
  blocked := h.blocked_setPc fun _ ↦ Pc.noConfusion
  nodup := by
    apply List.Nodup.append h.nodup (List.nodup_singleton i)
    intro k hk hki
    obtain rfl := List.mem_singleton.mp hki
    simpa [hi] using h.queue k hk
  queue := by
    intro k hk
    by_cases hki : k = i
    · simp [Task.setPc, hki]
    · have hmem : k ∈ task.queue := by simpa [hki] using hk
      simpa [Task.setPc, Function.update_of_ne hki] using h.queue k hmem
  openNamed := h.openNamed
  openOther := h.openOther
  exclusive := by
    intro hone
    obtain ⟨hle, hfree, hunique⟩ := h.exclusive hone
    have hbefore : ∀ k, ((task.setPc i .queued).pcs k).HoldsPermit →
        (task.pcs k).HoldsPermit := by
      intro k hk
      by_cases hki : k = i
      · simp [Task.setPc, hki, Pc.HoldsPermit] at hk
      · simpa [Task.setPc, Function.update_of_ne hki] using hk
    exact {
      permits := hle
      free := fun hpos k hk ↦ hfree hpos k (hbefore k hk)
      unique := fun j k hj hk ↦ hunique j k (hbefore j hj) (hbefore k hk) }

/-- The id of the first call into the table is the id that the operation names. -/
theorem named_of_entry {operation : Operation} {id : String}
    (h : operation.entry = .getMut id ∨ operation.entry = .remove id) :
    operation.named = some id := by
  unfold Operation.entry at h
  split at h <;> simp_all [Operation.named]
  split_ifs at h <;> simp_all

/-! ### One step -/

theorem Consistent.startOperation (h : Consistent service operations task) {i : ℕ}
    {operation : Operation} (hoperation : operations[i]? = some operation)
    (hi : task.pcs i = .granted) (hthread : task.threadBlocked = false) :
    Consistent service operations (startOperation service task i operation) := by
  have hheld : (task.pcs i).HoldsPermit := by simp [hi, Pc.HoldsPermit]
  have hguard : ∀ id, (i, id) ∉ task.guards := h.not_guard (by simp [hi, Pc.AtDatabase])
  have hawaits : Consistent service operations (task.setPc i .awaiting) :=
    h.setPc hheld (fun _ ↦ Pc.noConfusion) (.inl True.intro)
  have hmem : operation ∈ operations := List.mem_of_getElem? hoperation
  unfold PipelineExecution.startOperation
  cases hentry : operation.entry with
  | returns => exact h.finish hheld hthread
  | awaits => exact hawaits
  | getMut id =>
    have htouches : TouchesEntry service operations i id := ⟨operation, hoperation, .inl (.inl hentry)⟩
    simp only
    split_ifs with hlocked hopen
    · exact h.blockAt hheld hguard htouches hlocked
    · have hnamed : operation.named = some id := named_of_entry (.inl hentry)
      have hkeeps : KeepsLocked service operations i id :=
        ⟨operation, hoperation, hentry, h.openNamed operation hmem id hnamed hopen⟩
      exact hawaits.lock hkeeps (by simp [Task.setPc, Pc.AtDatabase])
    · exact h.finish hheld hthread
  | lookUp id =>
    have htouches : TouchesEntry service operations i id :=
      ⟨operation, hoperation, .inl (.inr (.inl hentry))⟩
    simp only
    split_ifs with hlocked
    · exact h.blockAt hheld hguard htouches hlocked
    · exact h.finish hheld hthread
  | remove id =>
    have hnamed : operation.named = some id := named_of_entry (.inr hentry)
    have htouches : TouchesEntry service operations i id :=
      ⟨operation, hoperation, .inl (.inr (.inr hentry))⟩
    simp only
    split_ifs with hlocked hopen
    · exact h.blockAt hheld hguard htouches hlocked
    · exact hawaits.close hmem hnamed
    · exact h.finish hheld hthread

theorem Consistent.resumeOperation (h : Consistent service operations task) {i : ℕ}
    {operation : Operation} (hoperation : operations[i]? = some operation) {ok : Bool}
    (hi : task.pcs i = .answered ok) (hthread : task.threadBlocked = false) {fresh : String}
    {next : Task} (hnext : resumeOperation service operations task i operation ok fresh = some next) :
    Consistent service operations next := by
  have hheld : (task.pcs i).HoldsPermit := by simp [hi, Pc.HoldsPermit]
  unfold PipelineExecution.resumeOperation at hnext
  split at hnext
  case h_1 =>
    split_ifs at hnext with hfresh hlocked
    · obtain rfl := Option.some.inj hnext
      -- an operation that begins a transaction locks no entry of its own
      have hguard : ∀ id, (i, id) ∉ task.guards := by
        intro id hmem
        obtain ⟨other, hother, hentry, -⟩ := (h.guards i id hmem).1
        obtain rfl := Option.some.inj (hoperation.symm.trans hother)
        simp [Operation.entry] at hentry
      apply h.blockAt hheld hguard _ hlocked
      exact ⟨_, hoperation, .inr ⟨rfl, h.isFresh (hfresh)⟩⟩
    · obtain rfl := Option.some.inj hnext
      exact (h.open_ (hfresh)).finish hheld hthread
  case h_2 =>
    obtain rfl := Option.some.inj hnext
    exact h.finish hheld hthread

theorem Consistent.pollOperation (h : Consistent service operations task) {i : ℕ}
    {operation : Operation} (hoperation : operations[i]? = some operation)
    (hthread : task.threadBlocked = false) {fresh : String} {next : Task}
    (hnext : pollOperation service operations task i operation fresh = some next) :
    Consistent service operations next := by
  unfold PipelineExecution.pollOperation at hnext
  cases hi : task.pcs i with
  | unpolled =>
    simp only [hi] at hnext
    cases hpermits : task.permits with
    | zero =>
      simp only [hpermits] at hnext
      obtain rfl := Option.some.inj hnext
      exact h.enqueue hi
    | succ permits =>
      simp only [hpermits] at hnext
      obtain rfl := Option.some.inj hnext
      apply (h.acquire hi hpermits).startOperation hoperation _ hthread
      simp [Task.setPc]
  | granted =>
    simp only [hi] at hnext
    obtain rfl := Option.some.inj hnext
    exact h.startOperation hoperation hi hthread
  | answered ok =>
    simp only [hi] at hnext
    exact h.resumeOperation hoperation hi hthread hnext
  | queued =>
    simp only [hi] at hnext
    exact Option.some.inj hnext ▸ h
  | awaiting =>
    simp only [hi] at hnext
    exact Option.some.inj hnext ▸ h
  | blocked id => simp [hi] at hnext
  | finished => simp [hi] at hnext

theorem Consistent.step (h : Consistent service operations task) {event : Event} {next : Task}
    (hnext : step service operations task event = some next) :
    Consistent service operations next := by
  cases event with
  | poll i fresh =>
    unfold PipelineExecution.step at hnext
    split_ifs at hnext with hthread
    obtain ⟨operation, hoperation, hnext⟩ := Option.bind_eq_some_iff.mp hnext
    exact h.pollOperation hoperation (by simpa using hthread) hnext
  | answer i ok =>
    unfold PipelineExecution.step at hnext
    cases hi : task.pcs i <;> simp only [hi] at hnext <;> try cases hnext
    exact h.setPc (by simp [hi, Pc.HoldsPermit]) (fun _ ↦ Pc.noConfusion) (.inl True.intro)
  | timeout =>
    unfold PipelineExecution.step at hnext
    split_ifs at hnext
    obtain rfl := Option.some.inj hnext
    exact {
      guards := fun _ _ h ↦ by cases h
      blocked := fun _ _ h ↦ by cases h
      nodup := List.nodup_nil
      queue := fun _ h ↦ by cases h
      openNamed := h.openNamed
      openOther := h.openOther
      exclusive := fun hone ↦ ⟨hone, fun _ _ hpc ↦ hpc, fun _ _ hpc ↦ hpc.elim⟩ }

end MongoCore.Grpc.PipelineDeadlock
