import MongoCore.Tenant.Isolation
import Mathlib.Data.List.Perm.Basic

/-!
# The counts of the partitioned cache

While no removal of a tenant is in progress, its count and the values that are put but not counted
yet make up its entries.  The module says exactly which accesses break this: a value that is put
for a key which another call has put or dropped in between, a value that is put when the tenant is
full already, and the end of a removal that other insertions have run into.

A run without such accesses keeps the counts right.  What can be read under a key was inserted
under it in every run.
-/

namespace MongoCore.Tenant

open MongoCore.Library MongoCore.Library.TransitionSystem

/-! ## Calls that change the counts -/

def removing (pending : List Call) (tenantId : String) : ℕ := pending.count (.removeCount tenantId)

/-- The values of a tenant that are put and not counted. -/
def uncounted (pending : List Call) (tenantId : String) : ℕ := pending.count (.increment tenantId)

theorem removing_cons (current : Call) (rest : List Call) (tenantId : String) :
    removing (current :: rest) tenantId =
      removing rest tenantId + if current = .removeCount tenantId then 1 else 0 := by
  simp [removing, List.count_cons]

theorem uncounted_cons (current : Call) (rest : List Call) (tenantId : String) :
    uncounted (current :: rest) tenantId =
      uncounted rest tenantId + if current = .increment tenantId then 1 else 0 := by
  simp [uncounted, List.count_cons]

/-- The entries are within the bound, and every entry is counted or about to be. -/
structure Accounted (cache : PartitionedCache) (pending : List Call) : Prop where
  bounded : ∀ tenantId, cache.stored tenantId ≤ cache.maxPerTenant
  balanced : ∀ tenantId, removing pending tenantId = 0 →
    cache.count tenantId + uncounted pending tenantId = cache.stored tenantId

theorem Accounted.perm {cache : PartitionedCache} {pending other : List Call}
    (haccounted : Accounted cache pending) (hperm : pending.Perm other) :
    Accounted cache other := by
  refine ⟨haccounted.bounded, fun tenantId hremoving ↦ ?_⟩
  rw [removing, ← hperm.count_eq] at hremoving
  rw [uncounted, ← hperm.count_eq]
  exact haccounted.balanced tenantId hremoving

/-! ## Accesses that keep the account -/

def Keeps (cache : PartitionedCache) (rest : List Call) : Call → Prop
  -- the key is still there, or a removal will clear the count anyway
  | .update cacheKey _ => cacheKey ∈ cache.entries.keys ∨
      (removing rest cacheKey.partition ≠ 0 ∧
        cache.stored cacheKey.partition < cache.maxPerTenant)
  -- no other call has put the key, and there is still room
  | .putNew cacheKey _ =>
      if cacheKey ∈ cache.entries.keys then removing rest cacheKey.partition ≠ 0
      else cache.stored cacheKey.partition < cache.maxPerTenant
  -- what is there now has been put since the entries were dropped, and is not counted yet
  | .removeCount tenantId => removing rest tenantId ≠ 0 ∨
      cache.stored tenantId = uncounted rest tenantId
  | .readCount _ _ | .increment _ => True

variable {cache : PartitionedCache} {rest : List Call}

theorem accounted_update_iff {cacheKey : TenantCacheKey} {value : String}
    (haccounted : Accounted cache (.update cacheKey value :: rest)) :
    Accounted (cache.putEntry cacheKey value) rest ↔
      Keeps cache rest (.update cacheKey value) := by
  have hbounded := haccounted.bounded
  have hbalanced := haccounted.balanced
  simp only [removing_cons, uncounted_cons, reduceCtorEq, if_false, Nat.add_zero] at hbalanced
  by_cases hkey : cacheKey ∈ cache.entries.keys
  · refine iff_of_true ⟨fun tenantId ↦ ?_, fun tenantId hremoving ↦ ?_⟩ (Or.inl hkey)
    · simpa [cache.stored_putEntry, hkey] using hbounded tenantId
    · simpa [cache.stored_putEntry, hkey] using hbalanced tenantId hremoving
  · constructor
    · rintro ⟨hbounded', hbalanced'⟩
      have hroom := hbounded' cacheKey.partition
      have hcount := hbalanced' cacheKey.partition
      simp only [cache.stored_putEntry, hkey, if_false, if_true,
        cache.count_putEntry] at hroom hcount
      refine Or.inr ⟨fun hzero ↦ ?_, hroom⟩
      have hbefore := hbalanced _ hzero
      have hafter := hcount hzero
      omega
    · rintro (hmem | ⟨hremoving, hroom⟩)
      · exact absurd hmem hkey
      · refine ⟨fun tenantId ↦ ?_, fun tenantId hzero ↦ ?_⟩
        · rw [cache.stored_putEntry, if_neg hkey]
          split
          · rename_i htenant
            exact htenant ▸ hroom
          · exact hbounded tenantId
        · have htenant : cacheKey.partition ≠ tenantId := fun htenant ↦
            hremoving (htenant ▸ hzero)
          rw [cache.stored_putEntry, if_neg hkey, if_neg htenant]
          exact hbalanced tenantId hzero

theorem accounted_putNew_iff {cacheKey : TenantCacheKey} {value : String}
    (haccounted : Accounted cache (.putNew cacheKey value :: rest)) :
    Accounted (cache.putEntry cacheKey value) (.increment cacheKey.partition :: rest) ↔
      Keeps cache rest (.putNew cacheKey value) := by
  have hbounded := haccounted.bounded
  have hbalanced := haccounted.balanced
  simp only [removing_cons, uncounted_cons, reduceCtorEq, if_false, Nat.add_zero] at hbalanced
  simp only [Keeps]
  constructor
  · rintro ⟨hbounded', hbalanced'⟩
    have hroom := hbounded' cacheKey.partition
    have hcount := hbalanced' cacheKey.partition
    simp only [cache.stored_putEntry, removing_cons, uncounted_cons, reduceCtorEq, if_false,
      if_true, cache.count_putEntry, Nat.add_zero] at hroom hcount
    split
    · rename_i hkey
      simp only [hkey, if_true, Nat.add_zero] at hcount
      intro hzero
      have hbefore := hbalanced _ hzero
      have hafter := hcount hzero
      omega
    · rename_i hkey
      simp only [hkey, if_false] at hroom
      exact hroom
  · intro hkeeps
    refine ⟨fun tenantId ↦ ?_, fun tenantId hzero ↦ ?_⟩
    · rw [cache.stored_putEntry]
      by_cases hnew : cacheKey ∉ cache.entries.keys ∧ cacheKey.partition = tenantId
      · obtain ⟨hkey, rfl⟩ := hnew
        simp only [hkey, if_false] at hkeeps
        simp only [hkey, if_false, if_true]
        exact hkeeps
      · have hadded : (if cacheKey ∈ cache.entries.keys then 0
            else if cacheKey.partition = tenantId then 1 else 0) = 0 := by
          split
          · rfl
          · rename_i hkey
            exact if_neg fun htenant ↦ hnew ⟨hkey, htenant⟩
        rw [hadded]
        exact hbounded tenantId
    · simp only [removing_cons, reduceCtorEq, if_false, Nat.add_zero] at hzero
      have hbefore := hbalanced tenantId hzero
      rw [cache.stored_putEntry, cache.count_putEntry, uncounted_cons]
      by_cases htenant : cacheKey.partition = tenantId
      · subst htenant
        have hkey : cacheKey ∉ cache.entries.keys := fun hkey ↦ by
          simp only [hkey, if_true] at hkeeps
          exact hkeeps hzero
        simp only [if_true, hkey, if_false]
        omega
      · simp only [Call.increment.injEq, htenant, if_false, ite_self, Nat.add_zero]
        exact hbefore

theorem accounted_increment {tenantId : String}
    (haccounted : Accounted cache (.increment tenantId :: rest)) :
    Accounted (cache.increment tenantId) rest := by
  refine ⟨haccounted.bounded, fun other hzero ↦ ?_⟩
  have hbefore := haccounted.balanced other (by simpa [removing_cons] using hzero)
  rw [uncounted_cons] at hbefore
  rw [cache.count_increment, cache.stored_increment, ← hbefore]
  simp only [Call.increment.injEq]
  omega

theorem accounted_removeCount_iff {tenantId : String}
    (haccounted : Accounted cache (.removeCount tenantId :: rest)) :
    Accounted (cache.removeCount tenantId) rest ↔ Keeps cache rest (.removeCount tenantId) := by
  simp only [Keeps]
  constructor
  · rintro ⟨-, hbalanced⟩
    by_cases hzero : removing rest tenantId = 0
    · have hafter := hbalanced tenantId hzero
      rw [cache.count_removeCount, if_pos rfl, cache.stored_removeCount] at hafter
      omega
    · exact Or.inl hzero
  · intro hkeeps
    refine ⟨haccounted.bounded, fun other hzero ↦ ?_⟩
    rw [cache.count_removeCount, cache.stored_removeCount]
    by_cases hother : tenantId = other
    · subst hother
      have hcleared := hkeeps.resolve_left (not_not_intro hzero)
      rw [if_pos rfl, hcleared]
      omega
    · have hbefore := haccounted.balanced other (by simpa [removing_cons, hother] using hzero)
      rw [if_neg hother, ← hbefore, uncounted_cons]
      simp

/-- An access keeps the account exactly if it meets its condition. -/
theorem accounted_advance_iff {current : Call} (haccounted : Accounted cache (current :: rest)) :
    Accounted (cache.advance current).1 ((cache.advance current).2.toList ++ rest) ↔
      Keeps cache rest current := by
  cases current with
  | update cacheKey value => exact accounted_update_iff haccounted
  | putNew cacheKey value => exact accounted_putNew_iff haccounted
  | increment tenantId => exact iff_of_true (accounted_increment haccounted) trivial
  | removeCount tenantId => exact accounted_removeCount_iff haccounted
  | readCount cacheKey value =>
    refine iff_of_true ⟨haccounted.bounded, fun tenantId hzero ↦ ?_⟩ trivial
    have hbefore := haccounted.balanced tenantId
    simp only [removing_cons, uncounted_cons, reduceCtorEq, if_false, Nat.add_zero] at hbefore
    by_cases hfull : cache.maxPerTenant ≤ cache.count cacheKey.partition
    · simp only [PartitionedCache.advance, hfull, if_true, Option.toList_none,
        List.nil_append] at hzero ⊢
      exact hbefore hzero
    · simp only [PartitionedCache.advance, hfull, if_false, Option.toList_some,
        List.singleton_append, removing_cons, uncounted_cons, reduceCtorEq,
        Nat.add_zero] at hzero ⊢
      exact hbefore hzero

/-! ## Runs -/

/-- The access that an event makes keeps the account.  A call begins without touching the counts,
or by dropping entries, and reading changes nothing. -/
def Undisturbed (state : State × List (TenantCacheKey × String)) : Event → Prop
  | .next call => ∀ current, state.1.pending[call]? = some current →
      Keeps state.1.cache (state.1.pending.eraseIdx call) current
  | _ => True

theorem perm_cons_eraseIdx {pending : List Call} {call : ℕ} {current : Call}
    (hcall : pending[call]? = some current) : pending.Perm (current :: pending.eraseIdx call) := by
  obtain ⟨hlt, rfl⟩ := List.getElem?_eq_some_iff.mp hcall
  exact (List.getElem_cons_eraseIdx_perm hlt).symm

theorem accounted_lookFor {pending : List Call} (haccounted : Accounted cache pending)
    (cacheKey : TenantCacheKey) (value : String) :
    Accounted cache (cache.lookFor cacheKey value :: pending) := by
  refine ⟨haccounted.bounded, fun tenantId hzero ↦ ?_⟩
  have hbefore := haccounted.balanced tenantId
  by_cases hkey : cacheKey ∈ cache.entries.keys
  all_goals
    simp only [PartitionedCache.lookFor, hkey, if_true, if_false, removing_cons, uncounted_cons,
      reduceCtorEq, Nat.add_zero] at hzero ⊢
    exact hbefore hzero

theorem accounted_retainOthers {pending : List Call} (haccounted : Accounted cache pending)
    (tenantId : String) :
    Accounted (cache.retainOthers tenantId) (.removeCount tenantId :: pending) := by
  refine ⟨fun other ↦ ?_, fun other hzero ↦ ?_⟩
  · rw [cache.stored_retainOthers]
    split
    · exact Nat.zero_le _
    · exact haccounted.bounded other
  · rw [removing_cons] at hzero
    have hother : tenantId ≠ other := by
      rintro rfl
      simp at hzero
    have hbefore := haccounted.balanced other (by omega)
    rw [cache.stored_retainOthers, if_neg hother, cache.count_retainOthers, ← hbefore,
      uncounted_cons]
    simp

/-- A step keeps the account exactly if its access does. -/
theorem accounted_step_iff (state : State × List (TenantCacheKey × String)) (event : Event)
    (next : State × List (TenantCacheKey × String))
    (haccounted : Accounted state.1.cache state.1.pending)
    (hstep : tracked state event = some next) :
    Accounted next.1.cache next.1.pending ↔ Undisturbed state event := by
  obtain ⟨state, values⟩ := state
  obtain ⟨after, values'⟩ := next
  obtain ⟨hafter, -⟩ := recorded_eq_some.mp hstep
  cases event with
  | insert tenantId key value =>
    obtain rfl := Option.some.inj hafter
    exact iff_of_true (accounted_lookFor haccounted _ _) trivial
  | removeTenant tenantId =>
    obtain rfl := Option.some.inj hafter
    exact iff_of_true (accounted_retainOthers haccounted tenantId) trivial
  | get tenantId key =>
    obtain rfl := Option.some.inj hafter
    exact iff_of_true haccounted trivial
  | next call =>
    obtain ⟨current, hcall, rfl⟩ := Option.map_eq_some_iff.mp hafter
    have hcurrent : Accounted state.cache (current :: state.pending.eraseIdx call) :=
      haccounted.perm (perm_cons_eraseIdx hcall)
    rw [accounted_advance_iff hcurrent]
    constructor
    · intro hkeeps other hother
      obtain rfl := Option.some.inj (hcall.symm.trans hother)
      exact hkeeps
    · intro hkeeps
      exact hkeeps current hcall

/-! ## Values -/

/-- The value that a call is going to put. -/
def Call.putting? : Call → Option (TenantCacheKey × String)
  | .update cacheKey value | .putNew cacheKey value => some (cacheKey, value)
  | .readCount _ _ | .increment _ | .removeCount _ => none

/-- What is stored, and what is going to be, belongs to accepted insertions. -/
structure Sound (state : State × List (TenantCacheKey × String)) : Prop where
  entries : ∀ entry ∈ state.1.cache.entries.entries, entry ∈ state.2
  putting : ∀ current ∈ state.1.pending, ∀ entry, current.putting? = some entry → entry ∈ state.2

theorem mem_entries_putEntry {cacheKey : TenantCacheKey} {value : String}
    {entry : TenantCacheKey × String}
    (hentry : entry ∈ (cache.putEntry cacheKey value).entries.entries) :
    entry = (cacheKey, value) ∨ entry ∈ cache.entries.entries := by
  rcases List.mem_cons.mp hentry with hnew | hold
  · exact Or.inl hnew
  · exact Or.inr (List.mem_of_mem_filter hold)

/-- An access stores only what its call is going to put. -/
theorem mem_entries_advance {current : Call} {entry : TenantCacheKey × String}
    (hentry : entry ∈ (cache.advance current).1.entries.entries) :
    current.putting? = some entry ∨ entry ∈ cache.entries.entries := by
  cases current with
  | update cacheKey value =>
    exact (mem_entries_putEntry hentry).imp_left fun hnew ↦ by rw [hnew]; rfl
  | putNew cacheKey value =>
    exact (mem_entries_putEntry hentry).imp_left fun hnew ↦ by rw [hnew]; rfl
  | readCount cacheKey value => exact Or.inr hentry
  | increment tenantId => exact Or.inr hentry
  | removeCount tenantId => exact Or.inr hentry

theorem subset_accepted (state : State) (values : List (TenantCacheKey × String)) (event : Event) :
    values ⊆ accepted state values event := by
  intro entry hentry
  unfold accepted
  split
  · dsimp only
    split
    · exact List.mem_cons_of_mem _ hentry
    · exact hentry
  · split
    · split
      · exact hentry
      · exact List.mem_cons_of_mem _ hentry
    · exact hentry
  · exact hentry

/-- A call is left only after the count has been read, if there is room, and after a new value has
been put. -/
theorem cases_of_advance {cache : PartitionedCache} {current following : Call}
    (hfollowing : (cache.advance current).2 = some following) :
    (∃ cacheKey value, current = .readCount cacheKey value ∧ following = .putNew cacheKey value ∧
        ¬ cache.maxPerTenant ≤ cache.count cacheKey.partition) ∨
      ∃ cacheKey value, current = .putNew cacheKey value ∧
        following = .increment cacheKey.partition := by
  cases current with
  | readCount cacheKey value =>
    simp only [PartitionedCache.advance, ite_eq_iff, reduceCtorEq, and_false, false_or,
      Option.some.injEq] at hfollowing
    obtain ⟨hroom, rfl⟩ := hfollowing
    exact .inl ⟨cacheKey, value, rfl, rfl, hroom⟩
  | putNew cacheKey value => exact .inr ⟨cacheKey, value, rfl, (Option.some.inj hfollowing).symm⟩
  | update cacheKey value => contradiction
  | increment tenantId => contradiction
  | removeCount tenantId => contradiction

/-- A call that is left after an access puts a value only if its insertion has been accepted. -/
theorem mem_accepted_of_advance {state : State} {values : List (TenantCacheKey × String)}
    {call : ℕ} {current following : Call} {entry : TenantCacheKey × String}
    (hcall : state.pending[call]? = some current)
    (hfollowing : (state.cache.advance current).2 = some following)
    (hentry : following.putting? = some entry) :
    entry ∈ accepted state values (.next call) := by
  obtain ⟨cacheKey, value, rfl, rfl, hroom⟩ | ⟨cacheKey, value, rfl, rfl⟩ :=
    cases_of_advance hfollowing
  · obtain rfl : (cacheKey, value) = entry := Option.some.inj hentry
    simp [accepted, hcall, hroom]
  · contradiction

theorem mem_accepted_of_lookFor {state : State} {values : List (TenantCacheKey × String)}
    {tenantId key value : String} {entry : TenantCacheKey × String}
    (hentry : (state.cache.lookFor (.new (some tenantId) key) value).putting? = some entry) :
    entry ∈ accepted state values (.insert tenantId key value) := by
  unfold PartitionedCache.lookFor at hentry
  split at hentry
  · rename_i hkey
    obtain rfl := Option.some.inj hentry
    simp [accepted, hkey]
  · contradiction

theorem sound_of_step (state : State × List (TenantCacheKey × String)) (event : Event)
    (next : State × List (TenantCacheKey × String)) (hsound : Sound state)
    (hstep : tracked state event = some next) : Sound next := by
  obtain ⟨state, values⟩ := state
  obtain ⟨after, values'⟩ := next
  obtain ⟨hafter, rfl⟩ := recorded_eq_some.mp hstep
  have hgrows := subset_accepted state values event
  cases event with
  | insert tenantId key value =>
    obtain rfl := Option.some.inj hafter
    refine ⟨fun entry hentry ↦ hgrows (hsound.entries entry hentry),
      List.forall_mem_cons.mpr ⟨fun entry hentry ↦ mem_accepted_of_lookFor hentry, ?_⟩⟩
    exact fun current hcurrent entry hentry ↦
      hgrows (hsound.putting current hcurrent entry hentry)
  | removeTenant tenantId =>
    obtain rfl := Option.some.inj hafter
    refine ⟨fun entry hentry ↦ hsound.entries entry (List.mem_of_mem_filter hentry),
      List.forall_mem_cons.mpr ⟨fun entry hentry ↦ ?_, hsound.putting⟩⟩
    contradiction
  | get tenantId key =>
    obtain rfl := Option.some.inj hafter
    exact hsound
  | next call =>
    obtain ⟨current, hcall, rfl⟩ := Option.map_eq_some_iff.mp hafter
    have hcurrent := hsound.putting current (List.mem_of_getElem? hcall)
    constructor
    · intro entry hentry
      rcases mem_entries_advance hentry with hput | hold
      · exact hgrows (hcurrent entry hput)
      · exact hgrows (hsound.entries entry hold)
    · intro other hother entry hentry
      rcases List.mem_append.mp hother with hfollowing | hrest
      · exact mem_accepted_of_advance hcall (Option.mem_toList.mp hfollowing) hentry
      · exact hgrows (hsound.putting other (List.mem_of_mem_eraseIdx hrest) entry hentry)

/-! ## Runs that keep the counts right -/

/-- The cache of a new server, without calls and insertions. -/
def start (maxPerTenant : ℕ) : State × List (TenantCacheKey × String) :=
  (⟨.new maxPerTenant, []⟩, [])

theorem accounted_start (maxPerTenant : ℕ) : Accounted (.new maxPerTenant) [] :=
  ⟨fun _ ↦ Nat.zero_le _, fun _ _ ↦ rfl⟩

theorem sound_start (maxPerTenant : ℕ) : Sound (start maxPerTenant) :=
  ⟨fun _ hentry ↦ absurd hentry List.not_mem_nil, fun _ hcurrent ↦ absurd hcurrent List.not_mem_nil⟩

theorem exact_of_accounted {state : State × List (TenantCacheKey × String)}
    (haccounted : Accounted state.1.cache state.1.pending) (hsound : Sound state) :
    Exact state := by
  refine ⟨fun hidle tenantId ↦ ⟨?_, haccounted.bounded tenantId⟩, fun tenantId key value hget ↦ ?_⟩
  · rw [hidle] at haccounted
    exact haccounted.balanced tenantId rfl
  · exact hsound.entries _ (EntryMap.get?_eq_some.mp hget)

/-- Along a run in which no access disturbs the account, the counts are those of the entries and
within the bound whenever no call is in progress, and every value is found where it was inserted. -/
theorem throughout_exact (maxPerTenant : ℕ) (events : List Event)
    (hundisturbed : StepsMeet tracked Undisturbed (start maxPerTenant) events) :
    Throughout tracked Exact (start maxPerTenant) events := by
  have hgood (state : State × List (TenantCacheKey × String))
      (h : Accounted state.1.cache state.1.pending ∧ Sound state) : Exact state :=
    exact_of_accounted h.1 h.2
  refine throughout_of_stepsMeet hgood (fun state event next h hevent hstep ↦ ?_)
    ⟨accounted_start maxPerTenant, sound_start maxPerTenant⟩ hundisturbed
  exact ⟨(accounted_step_iff state event next h.1 hstep).mpr hevent,
    sound_of_step state event next h.2 hstep⟩

/-! ## Two runs -/

/-- Whether an access keeps the account can be decided. -/
instance Keeps.decidable (cache : PartitionedCache) (rest : List Call) (current : Call) :
    Decidable (Keeps cache rest current) := by
  induction current using Call.casesOn <;> unfold Keeps <;> infer_instance

instance Undisturbed.decidable (state : State × List (TenantCacheKey × String)) (event : Event) :
    Decidable (Undisturbed state event) := by
  induction event using Event.casesOn <;> unfold Undisturbed <;> infer_instance

/-- Insertions of two keys, and a removal of another tenant, with their accesses in turn. -/
def interleaved : List Event :=
  [.insert "acme" "a" "1", .insert "acme" "b" "2", .next 0, .next 1, .removeTenant "zeta", .next 1,
    .next 2, .next 0, .next 0, .next 0]

theorem throughout_exact_interleaved :
    StepsMeet tracked Undisturbed (start 10) interleaved ∧
      Throughout tracked Exact (start 10) interleaved :=
  ⟨by decide +kernel, throughout_exact 10 interleaved (by decide +kernel)⟩

/-- Two insertions of one key, which both look for the key before either puts it. -/
def sameKey : List Event :=
  [.insert "acme" "a" "1", .insert "acme" "a" "2", .next 0, .next 1, .next 0, .next 1, .next 0,
    .next 0]

/-- The key is there once, and is counted twice. -/
theorem not_throughout_exact_sameKey : ¬ Throughout tracked Exact (start 10) sameKey := by
  intro hexact
  have hfinal := hexact sameKey [] (List.append_nil _).symm _ rfl
  have hcount := (hfinal.1 rfl "acme").1
  exact absurd hcount (by decide)

end MongoCore.Tenant
