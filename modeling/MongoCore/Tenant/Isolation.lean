import MongoCore.Library.EntryMap
import MongoCore.Library.TransitionSystem
import Mathlib.Algebra.Order.Group.Nat

/-!
# The cache that is partitioned by tenant

Entries of all tenants are in one map, and a second map counts the entries of each tenant.  An
insertion looks at both maps before it changes them, and a removal clears one after the other.
Every access of a map is atomic, but calls can overlap between their accesses.

The module has the calls as they run alone, and the system in which their accesses interleave.  A
call in progress is known by the access that it makes next.
-/

namespace MongoCore.Tenant

open MongoCore.Library MongoCore.Library.TransitionSystem

/-! ## The cache -/

structure TenantCacheKey where
  partition : String
  key : String
  deriving DecidableEq, Repr

def TenantCacheKey.new (tenantId : Option String) (key : String) : TenantCacheKey :=
  ⟨tenantId.getD "__default__", key⟩

@[simp] theorem TenantCacheKey.partition_new (tenantId key : String) :
    (TenantCacheKey.new (some tenantId) key).partition = tenantId := rfl

structure PartitionedCache where
  maxPerTenant : ℕ
  entries : EntryMap TenantCacheKey String
  counts : EntryMap String ℕ

namespace PartitionedCache

def new (maxPerTenant : ℕ) : PartitionedCache := ⟨maxPerTenant, .empty, .empty⟩

/-- The count of a tenant, zero where there is none. -/
def count (cache : PartitionedCache) (tenantId : String) : ℕ := (cache.counts.get? tenantId).getD 0

def stored (cache : PartitionedCache) (tenantId : String) : ℕ :=
  cache.entries.keys.countP fun cacheKey ↦ cacheKey.partition = tenantId

def putEntry (cache : PartitionedCache) (cacheKey : TenantCacheKey) (value : String) :
    PartitionedCache :=
  { cache with entries := cache.entries.insert cacheKey value }

/-- Add one to the count of a tenant, or begin it with one. -/
def increment (cache : PartitionedCache) (tenantId : String) : PartitionedCache :=
  { cache with counts := cache.counts.insert tenantId (cache.count tenantId + 1) }

def retainOthers (cache : PartitionedCache) (tenantId : String) : PartitionedCache :=
  { cache with entries := cache.entries.retain fun cacheKey ↦ cacheKey.partition ≠ tenantId }

def removeCount (cache : PartitionedCache) (tenantId : String) : PartitionedCache :=
  { cache with counts := cache.counts.erase tenantId }

/-- Insert a value, without other calls in between. -/
def insert (cache : PartitionedCache) (tenantId key value : String) : PartitionedCache × Bool :=
  let cacheKey := TenantCacheKey.new (some tenantId) key
  if cacheKey ∈ cache.entries.keys then (cache.putEntry cacheKey value, true)
  else if cache.maxPerTenant ≤ cache.count tenantId then (cache, false)
  else ((cache.putEntry cacheKey value).increment tenantId, true)

def get (cache : PartitionedCache) (tenantId key : String) : Option String :=
  cache.entries.get? (.new (some tenantId) key)

/-- Remove the entries of a tenant, without other calls in between. -/
def removeTenant (cache : PartitionedCache) (tenantId : String) : PartitionedCache :=
  (cache.retainOthers tenantId).removeCount tenantId

/-! ## What an access changes -/

variable (cache : PartitionedCache)

theorem stored_putEntry (cacheKey : TenantCacheKey) (value tenantId : String) :
    (cache.putEntry cacheKey value).stored tenantId = cache.stored tenantId +
      if cacheKey ∈ cache.entries.keys then 0 else if cacheKey.partition = tenantId then 1 else 0 := by
  simpa [stored, putEntry] using EntryMap.countP_keys_insert (fun cacheKey ↦ cacheKey.partition = tenantId)
    cache.entries cacheKey value

@[simp] theorem maxPerTenant_putEntry (cacheKey : TenantCacheKey) (value : String) :
    (cache.putEntry cacheKey value).maxPerTenant = cache.maxPerTenant := rfl

@[simp] theorem count_putEntry (cacheKey : TenantCacheKey) (value tenantId : String) :
    (cache.putEntry cacheKey value).count tenantId = cache.count tenantId := rfl

@[simp] theorem stored_increment (tenantId other : String) :
    (cache.increment tenantId).stored other = cache.stored other := rfl

theorem count_increment (tenantId other : String) :
    (cache.increment tenantId).count other =
      cache.count other + if tenantId = other then 1 else 0 := by
  unfold increment count
  by_cases hother : tenantId = other
  · subst hother
    simp [EntryMap.get?_insert_self]
  · simp [EntryMap.get?_insert_of_ne _ _ (Ne.symm hother), hother]

theorem stored_retainOthers (tenantId other : String) :
    (cache.retainOthers tenantId).stored other =
      if tenantId = other then 0 else cache.stored other := by
  simp only [stored, retainOthers, EntryMap.keys_retain, List.countP_filter]
  split
  · rename_i hother
    subst hother
    simp
  · rename_i hother
    refine List.countP_congr fun cacheKey _ ↦ ?_
    simp only [ne_eq, decide_not, Bool.and_eq_true, decide_eq_true_eq, Bool.not_eq_true',
      decide_eq_false_iff_not, and_iff_left_iff_imp]
    rintro rfl
    exact Ne.symm hother

@[simp] theorem count_retainOthers (tenantId other : String) :
    (cache.retainOthers tenantId).count other = cache.count other := rfl

@[simp] theorem stored_removeCount (tenantId other : String) :
    (cache.removeCount tenantId).stored other = cache.stored other := rfl

theorem count_removeCount (tenantId other : String) :
    (cache.removeCount tenantId).count other =
      if tenantId = other then 0 else cache.count other := by
  unfold removeCount count
  by_cases hother : tenantId = other
  · subst hother
    simp [EntryMap.get?_erase_self]
  · simp [EntryMap.get?_erase_of_ne _ (Ne.symm hother), hother]

end PartitionedCache

/-! ## Calls that overlap -/

/-- A call in progress, by its next access. -/
inductive Call where
  /-- The key was there. -/
  | update (cacheKey : TenantCacheKey) (value : String)
  /-- The key was not there, and the count is not read yet. -/
  | readCount (cacheKey : TenantCacheKey) (value : String)
  /-- The count was below the maximum. -/
  | putNew (cacheKey : TenantCacheKey) (value : String)
  /-- The value is put, and not counted yet. -/
  | increment (tenantId : String)
  /-- The entries are dropped, and the count is not. -/
  | removeCount (tenantId : String)
  deriving DecidableEq, Repr

def Call.tenant : Call → String
  | .update cacheKey _ | .readCount cacheKey _ | .putNew cacheKey _ => cacheKey.partition
  | .increment tenantId | .removeCount tenantId => tenantId

/-- The next access of a call, and what is left of the call afterwards. -/
def PartitionedCache.advance (cache : PartitionedCache) : Call → PartitionedCache × Option Call
  | .update cacheKey value => (cache.putEntry cacheKey value, none)
  | .readCount cacheKey value =>
      (cache, if cache.maxPerTenant ≤ cache.count cacheKey.partition then none
        else some (.putNew cacheKey value))
  | .putNew cacheKey value =>
      (cache.putEntry cacheKey value, some (.increment cacheKey.partition))
  | .increment tenantId => (cache.increment tenantId, none)
  | .removeCount tenantId => (cache.removeCount tenantId, none)

/-- The cache with the calls in progress. -/
structure State where
  cache : PartitionedCache
  pending : List Call

/-- What happens: a call begins with its first access, or one in progress makes its next.  Reading
an entry is one access. -/
inductive Event where
  | insert (tenantId key value : String)
  | removeTenant (tenantId : String)
  | next (call : ℕ)
  | get (tenantId key : String)
  deriving DecidableEq, Repr

def PartitionedCache.lookFor (cache : PartitionedCache) (cacheKey : TenantCacheKey)
    (value : String) : Call :=
  if cacheKey ∈ cache.entries.keys then .update cacheKey value else .readCount cacheKey value

def step (state : State) : Event → Option State
  | .insert tenantId key value =>
      some { state with
        pending := state.cache.lookFor (.new (some tenantId) key) value :: state.pending }
  | .removeTenant tenantId =>
      some ⟨state.cache.retainOthers tenantId, .removeCount tenantId :: state.pending⟩
  | .next call =>
      state.pending[call]?.map fun current ↦
        ⟨(state.cache.advance current).1,
          (state.cache.advance current).2.toList ++ state.pending.eraseIdx call⟩
  | .get _ _ => some state

/-- The values of the insertions that are not refused.  An insertion is refused when it reads the
count. -/
def accepted (state : State) (values : List (TenantCacheKey × String)) :
    Event → List (TenantCacheKey × String)
  | .insert tenantId key value =>
      let cacheKey := TenantCacheKey.new (some tenantId) key
      if cacheKey ∈ state.cache.entries.keys then (cacheKey, value) :: values else values
  | .next call =>
      match state.pending[call]? with
      | some (.readCount cacheKey value) =>
          if state.cache.maxPerTenant ≤ state.cache.count cacheKey.partition then values
          else (cacheKey, value) :: values
      | _ => values
  | _ => values

/-- The system with the record of the accepted insertions. -/
abbrev tracked : State × List (TenantCacheKey × String) → Event →
    Option (State × List (TenantCacheKey × String)) :=
  recorded step accepted

/-- When no call is in progress, the counts are those of the entries and within the bound.  What
can be read under a key was inserted under it. -/
def Exact (state : State × List (TenantCacheKey × String)) : Prop :=
  (state.1.pending = [] → ∀ tenantId,
    state.1.cache.count tenantId = state.1.cache.stored tenantId ∧
      state.1.cache.stored tenantId ≤ state.1.cache.maxPerTenant) ∧
  ∀ tenantId key value, state.1.cache.get tenantId key = some value →
    (.new (some tenantId) key, value) ∈ state.2

/-! ## Calls that do not overlap -/

theorem run_next (cache : PartitionedCache) (current : Call) (events : List Event) :
    run step ⟨cache, [current]⟩ (.next 0 :: events) =
      run step ⟨(cache.advance current).1, (cache.advance current).2.toList⟩ events := by
  simp [run_cons, step]

/-- The accesses of an insertion, one after the other, are the insertion. -/
theorem run_insert (cache : PartitionedCache) (tenantId key value : String) :
    ∃ events, run step ⟨cache, []⟩ (.insert tenantId key value :: events) =
      some ⟨(cache.insert tenantId key value).1, []⟩ := by
  have hbegin (events : List Event) : run step ⟨cache, []⟩ (.insert tenantId key value :: events) =
      run step ⟨cache, [cache.lookFor (.new (some tenantId) key) value]⟩ events := rfl
  simp only [hbegin, PartitionedCache.lookFor, PartitionedCache.insert]
  split
  · exact ⟨[.next 0], run_next _ _ _⟩
  · by_cases hcount : cache.maxPerTenant ≤ cache.count tenantId
    · refine ⟨[.next 0], ?_⟩
      simp only [run_next, PartitionedCache.advance, TenantCacheKey.partition_new, hcount, if_true]
      rfl
    · refine ⟨[.next 0, .next 0, .next 0], ?_⟩
      simp only [run_next, PartitionedCache.advance, TenantCacheKey.partition_new, hcount, if_false]
      rfl

/-- The accesses of a removal, one after the other, are the removal. -/
theorem run_removeTenant (cache : PartitionedCache) (tenantId : String) :
    run step ⟨cache, []⟩ [.removeTenant tenantId, .next 0] =
      some ⟨cache.removeTenant tenantId, []⟩ := by
  simp [run, step, PartitionedCache.advance, PartitionedCache.removeTenant]

end MongoCore.Tenant
