import MongoCore.Grpc.TenantQuota
import MongoCore.Library.Projection
import MongoCore.Tenant.Isolation

/-!
# Tenants do not interfere

All tenants share the maps of the partitioned cache and the map of the rate limiters.  Their calls
overlap, and those of one tenant race with each other.

The main result says that no tenant can tell whether there are others: along every run, a tenant
gets the answers that it would get if the calls of the others were never made, and what is kept for
it is the same.
-/

namespace MongoCore.Tenant.Noninterference

open MongoCore.Library TransitionSystem MongoCore.Grpc.TenantQuota

/-! ## What tenants share -/

/-- The cache with the calls in progress, and the limiters. -/
structure Shared where
  calls : Tenant.State
  quota : QuotaManager

/-- Nothing is cached, and no limit is set. -/
def Shared.start (maxPerTenant : ℕ) : Shared where
  calls := ⟨.new maxPerTenant, []⟩
  quota := fun _ ↦ none

/-- An access of a call to the cache, or a call of the quota manager. -/
inductive Event where
  | access (event : Tenant.Event)
  | setLimit (tenantId : String) (maxPerSecond now : ℕ)
  | remove (tenantId : String)
  | tryAcquire (tenantId : String) (now : ℕ)
  deriving DecidableEq

inductive Answer where
  | inserted (done : Bool)
  | removed
  | found (value : Option String)
  | acquired (admitted : Bool)
  deriving DecidableEq

/-- What the next access of a call answers, if it is the last one. -/
def reply (cache : PartitionedCache) : Call → List Answer
  | .update _ _ | .increment _ => [.inserted true]
  | .readCount cacheKey _ =>
      if cache.maxPerTenant ≤ cache.count cacheKey.partition then [.inserted false] else []
  | .putNew _ _ => []
  | .removeCount _ => [.removed]

def step (s : Shared) : Event → Option Shared
  | .access event => (Tenant.step s.calls event).map fun calls ↦ { s with calls := calls }
  | .setLimit tenantId maxPerSecond now =>
      some { s with quota := Function.update s.quota tenantId (some (.new maxPerSecond now)) }
  | .remove tenantId => some { s with quota := Function.update s.quota tenantId none }
  | .tryAcquire tenantId now =>
      some { s with quota := (checkTenantQuota s.quota (some tenantId) now).2 }

def answers (s : Shared) : Event → List Answer
  | .access (.get tenantId key) => [.found (s.calls.cache.get tenantId key)]
  | .access (.next call) => (s.calls.pending[call]?).elim [] (reply s.calls.cache)
  | .tryAcquire tenantId now => [.acquired (checkTenantQuota s.quota (some tenantId) now).1]
  | .access (.insert _ _ _) | .access (.removeTenant _) | .setLimit _ _ _ | .remove _ => []

/-! ## One tenant -/

/-- The calls in progress of a tenant are counted without the others. -/
def place (id : String) (pending : List Call) (call : ℕ) : ℕ :=
  (pending.take call).countP fun current ↦ current.tenant = id

/-- An access of a tenant, as it is without the calls of others. -/
def ownAccess (id : String) (calls : Tenant.State) : Tenant.Event → Option Tenant.Event
  | .insert tenantId key value => if tenantId = id then some (.insert tenantId key value) else none
  | .removeTenant tenantId => if tenantId = id then some (.removeTenant tenantId) else none
  | .get tenantId key => if tenantId = id then some (.get tenantId key) else none
  | .next call => (calls.pending[call]?).bind fun current ↦
      if current.tenant = id then some (.next (place id calls.pending call)) else none

/-- An event of a tenant, as it is without the calls of others. -/
def own (id : String) (s : Shared) : Event → Option Event
  | .access event => (ownAccess id s.calls event).map .access
  | .setLimit tenantId maxPerSecond now =>
      if tenantId = id then some (.setLimit tenantId maxPerSecond now) else none
  | .remove tenantId => if tenantId = id then some (.remove tenantId) else none
  | .tryAcquire tenantId now => if tenantId = id then some (.tryAcquire tenantId now) else none

def ownAnswers (id : String) (s : Shared) (event : Event) : List Answer :=
  (own id s event).elim [] fun _ ↦ answers s event

/-- The entries and the count of a tenant. -/
def onlyCache (id : String) (cache : PartitionedCache) : PartitionedCache where
  maxPerTenant := cache.maxPerTenant
  entries := cache.entries.retain fun cacheKey ↦ cacheKey.partition = id
  counts := cache.counts.retain fun tenantId ↦ tenantId = id

def onlyPending (id : String) (pending : List Call) : List Call :=
  pending.filter fun current ↦ current.tenant = id

def onlyQuota (id : String) (quota : QuotaManager) : QuotaManager :=
  fun tenantId ↦ if tenantId = id then quota tenantId else none

def only (id : String) (s : Shared) : Shared where
  calls := ⟨onlyCache id s.calls.cache, onlyPending id s.calls.pending⟩
  quota := onlyQuota id s.quota

/-! ## The cache of one tenant -/

variable {id : String} {cache : PartitionedCache}

theorem count_onlyCache : (onlyCache id cache).count id = cache.count id := by
  rw [PartitionedCache.count, onlyCache, EntryMap.get?_retain _ (by simp), PartitionedCache.count]

theorem mem_keys_onlyCache {cacheKey : TenantCacheKey} (h : cacheKey.partition = id) :
    cacheKey ∈ (onlyCache id cache).entries.keys ↔ cacheKey ∈ cache.entries.keys := by
  rw [onlyCache, EntryMap.keys_retain, List.mem_filter]
  simp [h]

theorem onlyCache_putEntry {cacheKey : TenantCacheKey} (value : String)
    (h : cacheKey.partition = id) :
    onlyCache id (cache.putEntry cacheKey value) =
      (onlyCache id cache).putEntry cacheKey value := by
  simp only [onlyCache, PartitionedCache.putEntry]
  rw [EntryMap.retain_insert_of_pos _ _ (by simpa using h)]

theorem onlyCache_putEntry_of_ne {cacheKey : TenantCacheKey} (value : String)
    (h : cacheKey.partition ≠ id) :
    onlyCache id (cache.putEntry cacheKey value) = onlyCache id cache := by
  simp only [onlyCache, PartitionedCache.putEntry]
  rw [EntryMap.retain_insert_of_neg _ _ (by simpa using h)]

theorem onlyCache_increment :
    onlyCache id (cache.increment id) = (onlyCache id cache).increment id := by
  rw [PartitionedCache.increment, PartitionedCache.increment, count_onlyCache]
  simp only [onlyCache]
  rw [EntryMap.retain_insert_of_pos _ _ (by simp)]

theorem onlyCache_increment_of_ne {tenantId : String} (h : tenantId ≠ id) :
    onlyCache id (cache.increment tenantId) = onlyCache id cache := by
  simp only [onlyCache, PartitionedCache.increment]
  rw [EntryMap.retain_insert_of_neg _ _ (by simpa using h)]

theorem onlyCache_retainOthers (tenantId : String) :
    onlyCache id (cache.retainOthers tenantId) = (onlyCache id cache).retainOthers tenantId := by
  simp only [onlyCache, PartitionedCache.retainOthers]
  rw [EntryMap.retain_retain]

theorem onlyCache_retainOthers_of_ne {tenantId : String} (h : tenantId ≠ id) :
    onlyCache id (cache.retainOthers tenantId) = onlyCache id cache := by
  simp only [onlyCache, PartitionedCache.retainOthers]
  rw [EntryMap.retain_retain_of_imp]
  intro cacheKey hkey
  rw [decide_eq_true_eq] at hkey ⊢
  rw [hkey]
  exact h.symm

theorem onlyCache_removeCount (tenantId : String) :
    onlyCache id (cache.removeCount tenantId) = (onlyCache id cache).removeCount tenantId := by
  simp only [onlyCache, PartitionedCache.removeCount]
  rw [EntryMap.retain_erase]

theorem onlyCache_removeCount_of_ne {tenantId : String} (h : tenantId ≠ id) :
    onlyCache id (cache.removeCount tenantId) = onlyCache id cache := by
  simp only [onlyCache, PartitionedCache.removeCount]
  rw [EntryMap.retain_erase_of_neg _ (by simpa using h)]

/-! ## Accesses of one tenant -/

/-- An access of a tenant is one to what is kept for it. -/
theorem advance_onlyCache {current : Call} (h : current.tenant = id) :
    (onlyCache id cache).advance current =
        (onlyCache id (cache.advance current).1, (cache.advance current).2) ∧
      reply (onlyCache id cache) current = reply cache current := by
  cases current with
  | update cacheKey value =>
    exact ⟨by rw [PartitionedCache.advance, PartitionedCache.advance, onlyCache_putEntry value h],
      rfl⟩
  | readCount cacheKey value =>
    obtain rfl : cacheKey.partition = id := h
    constructor
    · simp only [PartitionedCache.advance, count_onlyCache]
      rfl
    · simp only [reply, count_onlyCache]
      rfl
  | putNew cacheKey value =>
    exact ⟨by rw [PartitionedCache.advance, PartitionedCache.advance, onlyCache_putEntry value h],
      rfl⟩
  | increment tenantId =>
    obtain rfl : tenantId = id := h
    exact ⟨by rw [PartitionedCache.advance, PartitionedCache.advance, onlyCache_increment], rfl⟩
  | removeCount tenantId =>
    exact ⟨by rw [PartitionedCache.advance, PartitionedCache.advance, onlyCache_removeCount], rfl⟩

/-- An access of another tenant leaves it as it is. -/
theorem advance_onlyCache_of_ne {current : Call} (h : current.tenant ≠ id) :
    onlyCache id (cache.advance current).1 = onlyCache id cache := by
  cases current with
  | update cacheKey value => exact onlyCache_putEntry_of_ne value h
  | readCount cacheKey value => rfl
  | putNew cacheKey value => exact onlyCache_putEntry_of_ne value h
  | increment tenantId => exact onlyCache_increment_of_ne h
  | removeCount tenantId => exact onlyCache_removeCount_of_ne h

/-- What is left of a call is of the same tenant. -/
theorem tenant_of_advance {current next : Call} (h : (cache.advance current).2 = some next) :
    next.tenant = current.tenant := by
  cases current with
  | readCount cacheKey value =>
    simp only [PartitionedCache.advance] at h
    split at h
    · cases h
    · cases h
      rfl
  | putNew cacheKey value =>
    cases h
    rfl
  | update | increment | removeCount => cases h

/-! ## Calls in progress -/

section Places

variable {α : Type*} {test : α → Bool} {list : List α} {index : ℕ} {element : α}

/-- An element that passes a test stands behind those before it that pass it. -/
theorem getElem?_filter (hget : list[index]? = some element) (h : test element = true) :
    (list.filter test)[(list.take index).countP test]? = some element := by
  induction list generalizing index with
  | nil => cases hget
  | cons first list ih =>
    cases index with
    | zero =>
      obtain rfl : first = element := Option.some.inj hget
      rw [List.filter_cons_of_pos h]
      rfl
    | succ index =>
      rw [List.getElem?_cons_succ] at hget
      rw [List.take_succ_cons, List.countP_cons]
      by_cases hfirst : test first = true
      · rw [List.filter_cons_of_pos hfirst, if_pos hfirst, List.getElem?_cons_succ]
        exact ih hget
      · rw [List.filter_cons_of_neg hfirst, if_neg hfirst]
        exact ih hget

theorem filter_eraseIdx (hget : list[index]? = some element) (h : test element = true) :
    (list.eraseIdx index).filter test =
      (list.filter test).eraseIdx ((list.take index).countP test) := by
  induction list generalizing index with
  | nil => cases hget
  | cons first list ih =>
    cases index with
    | zero =>
      obtain rfl : first = element := Option.some.inj hget
      rw [List.filter_cons_of_pos h]
      rfl
    | succ index =>
      rw [List.getElem?_cons_succ] at hget
      rw [List.take_succ_cons, List.countP_cons, List.eraseIdx_cons_succ]
      by_cases hfirst : test first = true
      · rw [List.filter_cons_of_pos hfirst, List.filter_cons_of_pos hfirst, if_pos hfirst,
          List.eraseIdx_cons_succ, ih hget]
      · rw [List.filter_cons_of_neg hfirst, List.filter_cons_of_neg hfirst, if_neg hfirst]
        exact ih hget

theorem filter_eraseIdx_of_neg (hget : list[index]? = some element) (h : test element ≠ true) :
    (list.eraseIdx index).filter test = list.filter test := by
  induction list generalizing index with
  | nil => cases hget
  | cons first list ih =>
    cases index with
    | zero =>
      obtain rfl : first = element := Option.some.inj hget
      rw [List.filter_cons_of_neg h]
      rfl
    | succ index =>
      rw [List.eraseIdx_cons_succ, List.filter_cons, List.filter_cons, ih hget]

end Places

theorem onlyPending_cons {current : Call} (pending : List Call) (h : current.tenant = id) :
    onlyPending id (current :: pending) = current :: onlyPending id pending :=
  List.filter_cons_of_pos (by simpa using h)

theorem onlyPending_cons_of_ne {current : Call} (pending : List Call) (h : current.tenant ≠ id) :
    onlyPending id (current :: pending) = onlyPending id pending :=
  List.filter_cons_of_neg (by simpa using h)

/-- What is left of a call of another tenant is of that one. -/
theorem onlyPending_advance_of_ne {current : Call} (h : current.tenant ≠ id) :
    onlyPending id (cache.advance current).2.toList = [] := by
  cases hnext : (cache.advance current).2 with
  | none => rfl
  | some next =>
    have hne : next.tenant ≠ id := tenant_of_advance hnext ▸ h
    exact onlyPending_cons_of_ne [] hne

theorem onlyPending_advance {current : Call} (h : current.tenant = id) :
    onlyPending id (cache.advance current).2.toList = (cache.advance current).2.toList := by
  cases hnext : (cache.advance current).2 with
  | none => rfl
  | some next =>
    have hsame : next.tenant = id := (tenant_of_advance hnext).trans h
    exact onlyPending_cons [] hsame

theorem lookFor_onlyCache (cache : PartitionedCache) {cacheKey : TenantCacheKey} (value : String)
    (h : cacheKey.partition = id) :
    (onlyCache id cache).lookFor cacheKey value = cache.lookFor cacheKey value := by
  simp only [PartitionedCache.lookFor, mem_keys_onlyCache h]

theorem tenant_lookFor (cache : PartitionedCache) (cacheKey : TenantCacheKey) (value : String) :
    (cache.lookFor cacheKey value).tenant = cacheKey.partition := by
  unfold PartitionedCache.lookFor
  split
  all_goals rfl

/-! ## Every event is one of the tenant or hidden from it -/

section Steps

variable {calls next : Tenant.State} {event : Tenant.Event}

abbrev onlyCalls (id : String) (calls : Tenant.State) : Tenant.State :=
  ⟨onlyCache id calls.cache, onlyPending id calls.pending⟩

theorem onlyCalls_of_hidden (hstep : Tenant.step calls event = some next)
    (hhidden : ownAccess id calls event = none) : onlyCalls id next = onlyCalls id calls := by
  cases event with
  | insert tenantId key value =>
    have hne : tenantId ≠ id := fun heq ↦ by simp [ownAccess, heq] at hhidden
    cases hstep
    have htenant := tenant_lookFor calls.cache (.new (some tenantId) key) value
    rw [TenantCacheKey.partition_new] at htenant
    rw [onlyCalls, onlyPending_cons_of_ne _ (htenant.trans_ne hne)]
  | removeTenant tenantId =>
    have hne : tenantId ≠ id := fun heq ↦ by simp [ownAccess, heq] at hhidden
    cases hstep
    have hcall : (Call.removeCount tenantId).tenant ≠ id := hne
    rw [onlyCalls, onlyPending_cons_of_ne _ hcall, onlyCache_retainOthers_of_ne hne]
  | get tenantId key =>
    cases hstep
    rfl
  | next call =>
    obtain ⟨current, hcurrent, rfl⟩ := Option.map_eq_some_iff.mp hstep
    have hne : current.tenant ≠ id := fun heq ↦ by
      simp [ownAccess, hcurrent, heq] at hhidden
    have hpending : onlyPending id ((calls.cache.advance current).2.toList ++
        calls.pending.eraseIdx call) = onlyPending id calls.pending := by
      rw [onlyPending, List.filter_append, ← onlyPending, onlyPending_advance_of_ne hne,
        List.nil_append, filter_eraseIdx_of_neg hcurrent (by simpa using hne)]
      rfl
    simp only [onlyCalls, advance_onlyCache_of_ne hne, hpending]

theorem step_onlyCalls {seen : Tenant.Event} (hstep : Tenant.step calls event = some next)
    (hseen : ownAccess id calls event = some seen) :
    Tenant.step (onlyCalls id calls) seen = some (onlyCalls id next) := by
  cases event with
  | insert tenantId key value =>
    simp only [ownAccess, Option.ite_none_right_eq_some, Option.some.injEq] at hseen
    obtain ⟨rfl, rfl⟩ := hseen
    cases hstep
    have htenant := tenant_lookFor calls.cache (.new (some tenantId) key) value
    rw [TenantCacheKey.partition_new] at htenant
    have hlook := lookFor_onlyCache calls.cache value
      (TenantCacheKey.partition_new tenantId key)
    simp only [onlyCalls, onlyPending_cons _ htenant, Tenant.step, hlook]
  | removeTenant tenantId =>
    simp only [ownAccess, Option.ite_none_right_eq_some, Option.some.injEq] at hseen
    obtain ⟨rfl, rfl⟩ := hseen
    cases hstep
    have hcall : (Call.removeCount tenantId).tenant = tenantId := rfl
    simp only [onlyCalls, onlyPending_cons _ hcall, onlyCache_retainOthers, Tenant.step]
  | get tenantId key =>
    simp only [ownAccess, Option.ite_none_right_eq_some, Option.some.injEq] at hseen
    obtain ⟨rfl, rfl⟩ := hseen
    cases hstep
    rfl
  | next call =>
    obtain ⟨current, hcurrent, rfl⟩ := Option.map_eq_some_iff.mp hstep
    simp only [ownAccess, hcurrent, Option.bind_some, Option.ite_none_right_eq_some,
      Option.some.injEq] at hseen
    obtain ⟨hsame, rfl⟩ := hseen
    have hown : (decide (current.tenant = id)) = true := by simpa using hsame
    have hget : (onlyPending id calls.pending)[place id calls.pending call]? = some current :=
      getElem?_filter hcurrent hown
    have hpending : onlyPending id ((calls.cache.advance current).2.toList ++
        calls.pending.eraseIdx call) = (calls.cache.advance current).2.toList ++
          (onlyPending id calls.pending).eraseIdx (place id calls.pending call) := by
      rw [onlyPending, List.filter_append, ← onlyPending, onlyPending_advance hsame,
        filter_eraseIdx hcurrent hown]
      rfl
    simp only [Tenant.step, onlyCalls, hget, Option.map_some, hpending,
      (advance_onlyCache hsame).1]

end Steps

section Quotas

variable {quota : QuotaManager} {tenantId : String}

theorem onlyQuota_update (limiter : Option RateLimiter) :
    onlyQuota id (Function.update quota id limiter) =
      Function.update (onlyQuota id quota) id limiter := by
  funext other
  by_cases hother : other = id
  · rw [hother, onlyQuota, if_pos rfl, Function.update_self, Function.update_self]
  · rw [onlyQuota, if_neg hother, Function.update_of_ne hother, onlyQuota, if_neg hother]

theorem onlyQuota_update_of_ne (limiter : Option RateLimiter) (h : tenantId ≠ id) :
    onlyQuota id (Function.update quota tenantId limiter) = onlyQuota id quota := by
  funext other
  by_cases hother : other = id
  · rw [hother, onlyQuota, onlyQuota, Function.update_of_ne h.symm]
  · rw [onlyQuota, onlyQuota, if_neg hother, if_neg hother]

theorem checkTenantQuota_onlyQuota (now : ℕ) :
    checkTenantQuota (onlyQuota id quota) (some id) now =
      ((checkTenantQuota quota (some id) now).1,
        onlyQuota id (checkTenantQuota quota (some id) now).2) := by
  have hlimiter : onlyQuota id quota id = quota id := if_pos rfl
  simp only [checkTenantQuota, hlimiter]
  cases quota id with
  | none => rfl
  | some limiter => rw [onlyQuota_update]

theorem checkTenantQuota_of_ne (now : ℕ) (h : tenantId ≠ id) :
    onlyQuota id (checkTenantQuota quota (some tenantId) now).2 = onlyQuota id quota := by
  simp only [checkTenantQuota]
  cases quota tenantId with
  | none => rfl
  | some limiter => exact onlyQuota_update_of_ne _ h

end Quotas

section Projection

variable {s next : Shared} {event seen : Event}

/-- What others do is hidden from a tenant. -/
theorem only_of_hidden (hstep : step s event = some next) (hhidden : own id s event = none) :
    only id next = only id s := by
  cases event with
  | access event =>
    obtain ⟨calls, hcalls, rfl⟩ := Option.map_eq_some_iff.mp hstep
    have honly : onlyCalls id calls = onlyCalls id s.calls :=
      onlyCalls_of_hidden hcalls (Option.map_eq_none_iff.mp hhidden)
    exact congrArg (fun calls ↦ Shared.mk calls (onlyQuota id s.quota)) honly
  | setLimit tenantId maxPerSecond now =>
    have hne : tenantId ≠ id := fun heq ↦ by simp [own, heq] at hhidden
    cases hstep
    rw [only, onlyQuota_update_of_ne _ hne]
    rfl
  | remove tenantId =>
    have hne : tenantId ≠ id := fun heq ↦ by simp [own, heq] at hhidden
    cases hstep
    rw [only, onlyQuota_update_of_ne _ hne]
    rfl
  | tryAcquire tenantId now =>
    have hne : tenantId ≠ id := fun heq ↦ by simp [own, heq] at hhidden
    cases hstep
    rw [only, checkTenantQuota_of_ne now hne]
    rfl

/-- What a tenant does happens to what is kept for it. -/
theorem step_only (hstep : step s event = some next) (hseen : own id s event = some seen) :
    step (only id s) seen = some (only id next) := by
  cases event with
  | access event =>
    obtain ⟨calls, hcalls, rfl⟩ := Option.map_eq_some_iff.mp hstep
    obtain ⟨access, haccess, rfl⟩ := Option.map_eq_some_iff.mp hseen
    have honly := step_onlyCalls hcalls haccess
    exact congrArg (Option.map fun calls ↦ Shared.mk calls (onlyQuota id s.quota)) honly
  | setLimit tenantId maxPerSecond now =>
    simp only [own, Option.ite_none_right_eq_some, Option.some.injEq] at hseen
    obtain ⟨rfl, rfl⟩ := hseen
    cases hstep
    simp only [step, only, onlyQuota_update]
  | remove tenantId =>
    simp only [own, Option.ite_none_right_eq_some, Option.some.injEq] at hseen
    obtain ⟨rfl, rfl⟩ := hseen
    cases hstep
    simp only [step, only, onlyQuota_update]
  | tryAcquire tenantId now =>
    simp only [own, Option.ite_none_right_eq_some, Option.some.injEq] at hseen
    obtain ⟨rfl, rfl⟩ := hseen
    cases hstep
    simp only [step, only, checkTenantQuota_onlyQuota]

theorem answers_access {event seen : Tenant.Event}
    (hseen : ownAccess id s.calls event = some seen) :
    answers (only id s) (.access seen) = answers s (.access event) := by
  cases event with
  | insert tenantId key value =>
    simp only [ownAccess, Option.ite_none_right_eq_some, Option.some.injEq] at hseen
    rw [← hseen.2]
    rfl
  | removeTenant tenantId =>
    simp only [ownAccess, Option.ite_none_right_eq_some, Option.some.injEq] at hseen
    rw [← hseen.2]
    rfl
  | get tenantId key =>
    simp only [ownAccess, Option.ite_none_right_eq_some, Option.some.injEq] at hseen
    obtain ⟨rfl, rfl⟩ := hseen
    simp only [answers, only, PartitionedCache.get, onlyCache]
    rw [EntryMap.get?_retain _ (by simp)]
  | next call =>
    obtain ⟨current, hcurrent, hown⟩ := Option.bind_eq_some_iff.mp hseen
    rw [Option.ite_none_right_eq_some, Option.some.injEq] at hown
    obtain ⟨hsame, rfl⟩ := hown
    have hget : (onlyPending id s.calls.pending)[place id s.calls.pending call]? = some current :=
      getElem?_filter hcurrent (by simpa using hsame)
    simp only [answers, only, hget, hcurrent, Option.elim_some]
    exact (advance_onlyCache hsame).2

/-- A tenant is answered from what is kept for it. -/
theorem answers_only (hseen : own id s event = some seen) :
    answers (only id s) seen = answers s event := by
  cases event with
  | access event =>
    obtain ⟨access, haccess, rfl⟩ := Option.map_eq_some_iff.mp hseen
    exact answers_access haccess
  | setLimit tenantId maxPerSecond now =>
    simp only [own, Option.ite_none_right_eq_some, Option.some.injEq] at hseen
    rw [← hseen.2]
    rfl
  | remove tenantId =>
    simp only [own, Option.ite_none_right_eq_some, Option.some.injEq] at hseen
    rw [← hseen.2]
    rfl
  | tryAcquire tenantId now =>
    simp only [own, Option.ite_none_right_eq_some, Option.some.injEq] at hseen
    obtain ⟨rfl, rfl⟩ := hseen
    simp only [answers, only, checkTenantQuota_onlyQuota]

end Projection

/-- What is kept for a tenant is a system of its own. -/
theorem projects_only (id : String) :
    Projects step (ownAnswers id) step answers (only id) (own id) where
  hidden := by
    intro s event next hstep hhidden
    refine ⟨only_of_hidden hstep hhidden, ?_⟩
    rw [ownAnswers, hhidden]
    rfl
  seen := by
    intro s event next seen hstep hseen
    refine ⟨step_only hstep hseen, ?_⟩
    rw [ownAnswers, hseen]
    exact answers_only hseen

theorem only_start (id : String) (maxPerTenant : ℕ) :
    only id (.start maxPerTenant) = .start maxPerTenant := by
  have hquota : onlyQuota id (fun _ ↦ none) = fun _ ↦ none := funext fun _ ↦ ite_self _
  simp only [only, Shared.start, hquota]
  rfl

/-- The events of a tenant along a run, as they are without the calls of others. -/
def ownEvents (id : String) : Shared → List Event → List Event := seenBy step (own id)

/-- In every run, however the calls overlap, a tenant is answered what it is answered in the run of
its own events only.  That run comes to what is kept for the tenant at the end. -/
theorem answers_of_run (maxPerTenant : ℕ) (id : String) {events : List Event} {s : Shared}
    (hrun : run step (.start maxPerTenant) events = some s) :
    run step (.start maxPerTenant) (ownEvents id (.start maxPerTenant) events) =
        some (only id s) ∧
      collect step answers (.start maxPerTenant) (ownEvents id (.start maxPerTenant) events) =
        collect step (ownAnswers id) (.start maxPerTenant) events := by
  have h := (projects_only id).of_run hrun
  rw [only_start] at h
  exact h

/-- Two tenants insert the same key at the same time, into a cache with room for one entry each. -/
def twoTenants : List Event :=
  [.setLimit "left" 1 0, .tryAcquire "left" 5, .tryAcquire "right" 5,
    .access (.insert "left" "k" "1"), .access (.insert "right" "k" "2"),
    .access (.next 1), .access (.next 1), .access (.next 0), .access (.next 0),
    .access (.next 0), .access (.next 0), .access (.get "left" "k"), .tryAcquire "left" 7]

/-- The first one is admitted, caches its value and reads it back, and then is over its limit. -/
theorem answers_twoTenants : ∃ s, run step (.start 1) twoTenants = some s ∧
    run step (.start 1) (ownEvents "left" (.start 1) twoTenants) = some (only "left" s) ∧
    collect step answers (.start 1) (ownEvents "left" (.start 1) twoTenants) =
      [.acquired true, .inserted true, .found (some "1"), .acquired false] := by
  refine ⟨_, rfl, (answers_of_run 1 "left" rfl).1, ?_⟩
  exact (answers_of_run 1 "left" rfl).2.trans (by decide +kernel)

end MongoCore.Tenant.Noninterference
