import MongoCore.Compiled.CacheHierarchy
import MongoCore.Data.Json
import MongoCore.Library.TransitionSystem

/-!
# The statistics of the cache

Every lookup counts a hit or a miss in each level that it comes to.  The counter of evictions is
never written, because the first level drops queries by itself.

The statistics account for the lookups and the dropped queries exactly as long as no query is
dropped and no counter wraps around.
-/

namespace MongoCore.Compiled

open MongoCore.Library TransitionSystem

/-! ## What is counted -/

/-- How many lookups there were, and how many queries the first level has dropped to make room. -/
structure Tally where
  gets : ℕ
  dropped : ℕ

/-- A query can be put into memory without dropping another. -/
def MemoryCache.Fits (cache : MemoryCache) (query : CompiledQuery) : Prop :=
  query.hash ∈ cache.entries.keys ∨ cache.entries.size < cache.maxSize

instance (cache : MemoryCache) (query : CompiledQuery) : Decidable (cache.Fits query) :=
  inferInstanceAs (Decidable (_ ∨ _))

/-- How many queries are dropped to make room for one. -/
def MemoryCache.drops (cache : MemoryCache) (query : CompiledQuery)
    (iteration : Iteration (String × Accessed)) : ℕ :=
  if query.hash ∈ cache.entries.keys then 0
  else cache.entries.size - (cache.makeRoom iteration).size

/-- What the third level yields. -/
def CacheHierarchy.fromL3 (cache : CacheHierarchy) (hash : String) (around : Surroundings) :
    Option CompiledQuery :=
  cache.l3.bind fun l3 ↦ LowerLevel.get l3 hash around.l3Readable

/-- What the second level yields. -/
def CacheHierarchy.fromL2 (cache : CacheHierarchy) (hash : String) (around : Surroundings) :
    Option CompiledQuery :=
  cache.l2.bind fun l2 ↦ LowerLevel.get l2 hash around.l2Readable

/-- The query that a lookup promotes to the first level. -/
def CacheHierarchy.promoted (cache : CacheHierarchy) (hash : String) (around : Surroundings) :
    Option CompiledQuery :=
  if hash ∈ cache.l1.entries.keys then none
  else (cache.fromL2 hash around).or (cache.fromL3 hash around)

/-- The queries that a call puts into the first level. -/
def CacheHierarchy.incoming (cache : CacheHierarchy) :
    HierarchyCall → List (CompiledQuery × Iteration (String × Accessed))
  | .get hash around => (cache.promoted hash around).toList.map fun query ↦ (query, around.iteration)
  | .put query around => [(query, around.iteration)]
  | .remove _ _ | .elsewhere _ _ => []
  | .warmFromAtlas loaded =>
      if cache.l3.isSome then loaded.map fun (query, around) ↦ (query, around.iteration) else []

/-- How many queries are dropped when several come in one after the other. -/
def dropsOfAll (l1 : MemoryCache) : List (CompiledQuery × Iteration (String × Accessed)) → ℕ
  | [] => 0
  | (query, iteration) :: rest =>
      l1.drops query iteration + dropsOfAll (l1.put query iteration) rest

/-- Several queries can come in one after the other without dropping any. -/
def AllFit (l1 : MemoryCache) : List (CompiledQuery × Iteration (String × Accessed)) → Prop
  | [] => True
  | (query, iteration) :: rest => l1.Fits query ∧ AllFit (l1.put query iteration) rest

def Tally.record (cache : CacheHierarchy) (tally : Tally) (call : HierarchyCall) : Tally where
  gets := match call with
    | .get _ _ => tally.gets + 1
    | _ => tally.gets
  dropped := tally.dropped + dropsOfAll cache.l1 (cache.incoming call)

def talliedStep : CacheHierarchy × Tally → HierarchyCall → Option (CacheHierarchy × Tally) :=
  recorded (fun cache call ↦ some (cache.serve call)) Tally.record

/-- Where a lookup finds its query. -/
inductive Found where
  | l1 | l2 | l3 | nowhere

def CacheHierarchy.found (cache : CacheHierarchy) (hash : String) (around : Surroundings) : Found :=
  if hash ∈ cache.l1.entries.keys then .l1
  else if (cache.fromL2 hash around).isSome then .l2
  else if (cache.fromL3 hash around).isSome then .l3
  else .nowhere

/-- The counters of hits and misses account for a number of lookups in each level there is.  The
third level is compared with the misses of the second. -/
def CacheCounters.Balanced (counters : CacheCounters) (hasL2 hasL3 : Bool) (gets : ℕ) : Prop :=
  counters.l1Hits + counters.l1Misses = gets ∧
    (hasL2 → counters.l2Hits + counters.l2Misses = counters.l1Misses) ∧
    (hasL2 → hasL3 → counters.l3Hits + counters.l3Misses = counters.l2Misses)

/-- The statistics account for every lookup in each level and for every dropped query. -/
def Accounted (state : CacheHierarchy × Tally) : Prop :=
  state.1.cacheStats.Balanced state.1.l2.isSome state.1.l3.isSome state.2.gets ∧
    state.1.cacheStats.evictions = state.2.dropped

/-- A counter can be increased without wrapping around. -/
def Free (counter : ℕ) : Prop := counter + 1 < 2 ^ 64

instance (counter : ℕ) : Decidable (Free counter) := Nat.decLt _ _

/-- The counters that a lookup increases do not wrap around.  The third level is left out when
there is no second. -/
def CacheCounters.FreeFor (counters : CacheCounters) (hasL2 hasL3 : Bool) : Found → Prop
  | .l1 => Free counters.l1Hits
  | .l2 => Free counters.l1Misses ∧ (hasL2 → Free counters.l2Hits)
  | .l3 => Free counters.l1Misses ∧
      (hasL2 → Free counters.l2Misses ∧ (hasL3 → Free counters.l3Hits))
  | .nowhere => Free counters.l1Misses ∧
      (hasL2 → Free counters.l2Misses ∧ (hasL3 → Free counters.l3Misses))

/-- The counters that a call increases do not wrap around. -/
def CacheHierarchy.LookupFree (cache : CacheHierarchy) : HierarchyCall → Prop
  | .get hash around =>
      cache.counters.FreeFor cache.l2.isSome cache.l3.isSome (cache.found hash around)
  | .put _ _ | .remove _ _ | .warmFromAtlas _ | .elsewhere _ _ => True

/-- A call drops no query, and the counters that it increases do not wrap around. -/
def CountsRight (state : CacheHierarchy × Tally) (call : HierarchyCall) : Prop :=
  AllFit state.1.l1 (state.1.incoming call) ∧ state.1.LookupFree call

/-! ## What a query drops -/

/-- Making room for a query that fits drops nothing. -/
theorem MemoryCache.drops_of_fits {cache : MemoryCache} {query : CompiledQuery}
    (iteration : Iteration (String × Accessed)) (h : cache.Fits query) :
    cache.drops query iteration = 0 := by
  unfold MemoryCache.drops
  rcases h with hkey | hroom
  · rw [if_pos hkey]
  · split_ifs with hkey
    · rfl
    · rw [MemoryCache.makeRoom, if_neg (Nat.not_le_of_lt hroom), Nat.sub_self]

/-- A query that does not fit makes another one go. -/
theorem MemoryCache.drops_pos {cache : MemoryCache} {query : CompiledQuery}
    (iteration : Iteration (String × Accessed)) (hpos : 0 < cache.maxSize)
    (h : ¬ cache.Fits query) : 0 < cache.drops query iteration := by
  obtain ⟨hkey, hfull⟩ := not_or.mp h
  have hle : cache.maxSize ≤ cache.entries.size := Nat.le_of_not_lt hfull
  rw [MemoryCache.drops, if_neg hkey, MemoryCache.makeRoom, if_pos hle, leastRecent]
  cases hmin : (iteration.list cache.entries.entries).argmin lastAccess with
  | none =>
    have hperm := iteration.perm cache.entries.entries
    rw [List.argmin_eq_none.mp hmin] at hperm
    have hsize : cache.entries.size = 0 := hperm.length_eq.symm
    omega
  | some least =>
    have hmem : least ∈ cache.entries.entries :=
      (iteration.perm cache.entries.entries).mem_iff.mp (List.argmin_mem hmin)
    have hlt : (cache.entries.erase least.1).size < cache.entries.size :=
      EntryMap.length_others_lt (List.mem_map_of_mem hmem)
    exact Nat.sub_pos_of_lt hlt

/-- A new query that there is room for joins the others. -/
theorem MemoryCache.keys_put_of_room (cache : MemoryCache) {query : CompiledQuery}
    (iteration : Iteration (String × Accessed)) (hnew : query.hash ∉ cache.entries.keys)
    (hroom : cache.entries.size < cache.maxSize) :
    (cache.put query iteration).entries.keys = query.hash :: cache.entries.keys := by
  unfold MemoryCache.put MemoryCache.makeRoom
  rw [EntryMap.get?_eq_none.mpr hnew, if_neg (Nat.not_le_of_lt hroom)]
  calc (cache.entries.insert query.hash (query, cache.counter)).keys
      = query.hash :: (EntryMap.others query.hash cache.entries.entries).map Prod.fst := rfl
    _ = query.hash :: cache.entries.keys := by
        rw [EntryMap.others_eq_self hnew]
        rfl

/-- Queries that come in drop none exactly if they all fit. -/
theorem dropsOfAll_eq_zero {l1 : MemoryCache} (hpos : 0 < l1.maxSize)
    (incoming : List (CompiledQuery × Iteration (String × Accessed))) :
    dropsOfAll l1 incoming = 0 ↔ AllFit l1 incoming := by
  induction incoming generalizing l1 with
  | nil => exact iff_of_true rfl trivial
  | cons first rest ih =>
    have hrest : dropsOfAll (l1.put first.1 first.2) rest = 0 ↔ AllFit (l1.put first.1 first.2) rest :=
      ih hpos
    rw [dropsOfAll, AllFit, Nat.add_eq_zero_iff, hrest]
    refine and_congr_left fun _ ↦ ⟨fun hzero ↦ ?_, MemoryCache.drops_of_fits first.2⟩
    by_contra hfits
    exact absurd hzero (Nat.ne_of_gt (MemoryCache.drops_pos first.2 hpos hfits))

/-! ## One lookup -/

def CacheCounters.count (counters : CacheCounters) (hasL2 hasL3 : Bool) : Found → CacheCounters
  | .l1 => { counters with l1Hits := fetchAdd counters.l1Hits }
  | .l2 => { counters with
      l1Misses := fetchAdd counters.l1Misses
      l2Hits := fetchAdd counters.l2Hits }
  | .l3 => { counters with
      l1Misses := fetchAdd counters.l1Misses
      l2Misses := if hasL2 then fetchAdd counters.l2Misses else counters.l2Misses
      l3Hits := fetchAdd counters.l3Hits }
  | .nowhere => { counters with
      l1Misses := fetchAdd counters.l1Misses
      l2Misses := if hasL2 then fetchAdd counters.l2Misses else counters.l2Misses
      l3Misses := if hasL3 then fetchAdd counters.l3Misses else counters.l3Misses }

theorem isSome_get?_iff {cache : MemoryCache} {hash : String} :
    (cache.entries.get? hash).isSome = true ↔ hash ∈ cache.entries.keys := by
  rw [Option.isSome_iff_ne_none, ne_eq, EntryMap.get?_eq_none, not_not]

/-- A lookup counts according to where it finds the query, and no level comes or goes. -/
theorem counters_get (cache : CacheHierarchy) (hash : String) (around : Surroundings) :
    (cache.get hash around).2.counters =
        cache.counters.count cache.l2.isSome cache.l3.isSome (cache.found hash around) ∧
      (cache.get hash around).2.l2.isSome = cache.l2.isSome ∧
      (cache.get hash around).2.l3.isSome = cache.l3.isSome := by
  unfold CacheHierarchy.get CacheHierarchy.found MemoryCache.get
  simp only [← isSome_get?_iff]
  cases cache.l1.entries.get? hash with
  | some accessed => simp [CacheCounters.count]
  | none =>
    unfold CacheHierarchy.getL2 CacheHierarchy.getL3 CacheHierarchy.fromL2 CacheHierarchy.fromL3
    cases hl2 : cache.l2 with
    | none =>
      cases hl3 : cache.l3 with
      | none => simp [CacheCounters.count]
      | some l3 =>
        cases hget : LowerLevel.get l3 hash around.l3Readable <;>
          simp [CacheCounters.count, hget]
    | some l2 =>
      cases hget : LowerLevel.get l2 hash around.l2Readable with
      | some query => simp [CacheCounters.count, hget]
      | none =>
        cases hl3 : cache.l3 with
        | none => simp [CacheCounters.count, hget]
        | some l3 =>
          cases hthird : LowerLevel.get l3 hash around.l3Readable <;>
            simp [CacheCounters.count, hget, hthird]

/-- A lookup stays accounted for exactly if the counters that it increases do not wrap around. -/
theorem balanced_count_iff {counters : CacheCounters} {hasL2 hasL3 : Bool} {gets : ℕ}
    (h : counters.Balanced hasL2 hasL3 gets) (found : Found) :
    (counters.count hasL2 hasL3 found).Balanced hasL2 hasL3 (gets + 1) ↔
      counters.FreeFor hasL2 hasL3 found := by
  unfold CacheCounters.Balanced at h ⊢
  unfold CacheCounters.FreeFor
  cases found <;> cases hasL2 <;> cases hasL3 <;>
    simp only [CacheCounters.count, Free, fetchAdd, Bool.false_eq_true, false_implies,
      true_implies, and_true, if_true, if_false] at h ⊢ <;>
    omega

/-! ## One call -/

def MemoryCache.putAll (l1 : MemoryCache)
    (incoming : List (CompiledQuery × Iteration (String × Accessed))) : MemoryCache :=
  incoming.foldl (fun l1 (query, iteration) ↦ l1.put query iteration) l1

/-- What a call does to memory apart from the queries that it puts there. -/
def HierarchyCall.touch (l1 : MemoryCache) : HierarchyCall → MemoryCache
  | .get hash _ => (l1.get hash).2
  | .remove hash _ => l1.remove hash
  | .put _ _ | .warmFromAtlas _ | .elsewhere _ _ => l1

theorem MemoryCache.maxSize_putAll (l1 : MemoryCache)
    (incoming : List (CompiledQuery × Iteration (String × Accessed))) :
    (l1.putAll incoming).maxSize = l1.maxSize := by
  induction incoming generalizing l1 with
  | nil => rfl
  | cons first rest ih => exact ih (l1.put first.1 first.2)

theorem MemoryCache.maxSize_get (l1 : MemoryCache) (hash : String) :
    (l1.get hash).2.maxSize = l1.maxSize := by
  unfold MemoryCache.get
  cases l1.entries.get? hash <;> rfl

theorem MemoryCache.maxSize_touch (l1 : MemoryCache) (call : HierarchyCall) :
    (call.touch l1).maxSize = l1.maxSize := by
  cases call with
  | get hash around => exact l1.maxSize_get hash
  | put | remove | warmFromAtlas | elsewhere => rfl

/-- What is loaded goes into memory one by one, and no level comes or goes. -/
theorem foldl_warm (cache : CacheHierarchy) (loaded : List (CompiledQuery × Surroundings)) :
    let next := loaded.foldl (fun cache (query, around) ↦ cache.warm query around) cache
    next.l1 = cache.l1.putAll (loaded.map fun (query, around) ↦ (query, around.iteration)) ∧
      next.counters = cache.counters ∧ next.l2.isSome = cache.l2.isSome ∧
      next.l3.isSome = cache.l3.isSome := by
  induction loaded generalizing cache with
  | nil => exact ⟨rfl, rfl, rfl, rfl⟩
  | cons first rest ih =>
    obtain ⟨hl1, hcounters, hl2, hl3⟩ := ih (cache.warm first.1 first.2)
    exact ⟨hl1, hcounters, by simpa [CacheHierarchy.warm] using hl2, hl3⟩

/-- After a lookup memory has the query that was promoted. -/
theorem l1_get (cache : CacheHierarchy) (hash : String) (around : Surroundings) :
    (cache.get hash around).2.l1 =
      ((cache.l1.get hash).2).putAll (cache.incoming (.get hash around)) := by
  unfold CacheHierarchy.get CacheHierarchy.incoming CacheHierarchy.promoted MemoryCache.get
  simp only [← isSome_get?_iff]
  cases cache.l1.entries.get? hash with
  | some accessed => simp [MemoryCache.putAll]
  | none =>
    unfold CacheHierarchy.getL2 CacheHierarchy.getL3 CacheHierarchy.fromL2 CacheHierarchy.fromL3
    cases hl2 : cache.l2 with
    | none =>
      cases hl3 : cache.l3 with
      | none => simp [MemoryCache.putAll]
      | some l3 =>
        cases hget : LowerLevel.get l3 hash around.l3Readable <;>
          simp [MemoryCache.putAll, hget]
    | some l2 =>
      cases hget : LowerLevel.get l2 hash around.l2Readable with
      | some query => simp [MemoryCache.putAll, hget]
      | none =>
        cases hl3 : cache.l3 with
        | none => simp [MemoryCache.putAll, hget]
        | some l3 =>
          cases hthird : LowerLevel.get l3 hash around.l3Readable <;>
            simp [MemoryCache.putAll, hget, hthird]

/-- Every call puts its incoming queries into memory. -/
theorem l1_serve (cache : CacheHierarchy) (call : HierarchyCall) :
    (cache.serve call).l1 = (call.touch cache.l1).putAll (cache.incoming call) := by
  cases call with
  | get hash around => exact l1_get cache hash around
  | put | remove | elsewhere => rfl
  | warmFromAtlas loaded =>
    unfold CacheHierarchy.serve CacheHierarchy.warmFromAtlas CacheHierarchy.incoming
    cases cache.l3 with
    | none => rfl
    | some l3 => exact (foldl_warm cache loaded).1

def CacheHierarchy.counted (cache : CacheHierarchy) : HierarchyCall → CacheCounters
  | .get hash around =>
      cache.counters.count cache.l2.isSome cache.l3.isSome (cache.found hash around)
  | .put _ _ | .remove _ _ | .warmFromAtlas _ | .elsewhere _ _ => cache.counters

/-- Only lookups count, and no level comes or goes. -/
theorem counters_serve (cache : CacheHierarchy) (call : HierarchyCall) :
    (cache.serve call).counters = cache.counted call ∧
      (cache.serve call).l2.isSome = cache.l2.isSome ∧
      (cache.serve call).l3.isSome = cache.l3.isSome := by
  cases call with
  | get hash around => exact counters_get cache hash around
  | put | remove | elsewhere =>
    simp [CacheHierarchy.serve, CacheHierarchy.put, CacheHierarchy.remove, CacheHierarchy.counted]
  | warmFromAtlas loaded =>
    unfold CacheHierarchy.serve CacheHierarchy.warmFromAtlas
    cases hl3 : cache.l3 with
    | none => exact ⟨rfl, rfl, by rw [hl3]⟩
    | some l3 =>
      have hwarm := (foldl_warm cache loaded).2
      rw [hl3] at hwarm
      exact hwarm

theorem evictions_count (counters : CacheCounters) (hasL2 hasL3 : Bool) (found : Found) :
    (counters.count hasL2 hasL3 found).evictions = counters.evictions := by
  cases found <;> rfl

/-- The counter of evictions is never increased. -/
theorem evictions_serve (cache : CacheHierarchy) (call : HierarchyCall) :
    (cache.serve call).counters.evictions = cache.counters.evictions := by
  rw [(counters_serve cache call).1]
  cases call with
  | get hash around => exact evictions_count _ _ _ _
  | put | remove | warmFromAtlas | elsewhere => rfl

/-! ## Runs -/

/-- The statistics are right, the counter of evictions is at zero, and there is room in memory for
some query. -/
def Sound (state : CacheHierarchy × Tally) : Prop :=
  Accounted state ∧ state.1.counters.evictions = 0 ∧ 0 < state.1.l1.maxSize

/-- A call keeps the statistics right exactly if it drops no query and no counter wraps around. -/
theorem accounted_serve_iff {cache : CacheHierarchy} {tally : Tally} (h : Sound (cache, tally))
    (call : HierarchyCall) :
    Accounted (cache.serve call, tally.record cache call) ↔ CountsRight (cache, tally) call := by
  obtain ⟨⟨hbalanced, hdropped⟩, hzero, hpos⟩ := h
  obtain ⟨hcounters, hl2, hl3⟩ := counters_serve cache call
  have hnone : tally.dropped = 0 := hdropped.symm.trans hzero
  have hevictions : (cache.serve call).cacheStats.evictions =
      (tally.record cache call).dropped ↔ AllFit cache.l1 (cache.incoming call) := by
    rw [← dropsOfAll_eq_zero hpos]
    calc (cache.serve call).counters.evictions = tally.dropped + dropsOfAll cache.l1
          (cache.incoming call) ↔ 0 = dropsOfAll cache.l1 (cache.incoming call) := by
            rw [evictions_serve, hzero, hnone, Nat.zero_add]
      _ ↔ dropsOfAll cache.l1 (cache.incoming call) = 0 := eq_comm
  have hlookup : (cache.serve call).cacheStats.Balanced (cache.serve call).l2.isSome
      (cache.serve call).l3.isSome (tally.record cache call).gets ↔ cache.LookupFree call := by
    rw [hl2, hl3, CacheHierarchy.cacheStats, hcounters]
    cases call with
    | get hash around => exact balanced_count_iff hbalanced _
    | put | remove | warmFromAtlas | elsewhere => exact iff_of_true hbalanced trivial
  exact (and_congr hlookup hevictions).trans and_comm

theorem sound_of_accounted {cache : CacheHierarchy} {tally : Tally} (h : Sound (cache, tally))
    {call : HierarchyCall} (hnext : Accounted (cache.serve call, tally.record cache call)) :
    Sound (cache.serve call, tally.record cache call) := by
  refine ⟨hnext, (evictions_serve cache call).trans h.2.1, ?_⟩
  rw [l1_serve, MemoryCache.maxSize_putAll, MemoryCache.maxSize_touch]
  exact h.2.2

/-- The statistics are right all along a sequence of calls exactly if no call drops a query and no
counter wraps around. -/
theorem cache_statistics_iff (l2 l3 : Option LowerLevel) (calls : List HierarchyCall) :
    Throughout talliedStep Accounted (CacheHierarchy.new l2 l3, ⟨0, 0⟩) calls ↔
      StepsMeet talliedStep CountsRight (CacheHierarchy.new l2 l3, ⟨0, 0⟩) calls := by
  have hinit : Sound (CacheHierarchy.new l2 l3, ⟨0, 0⟩) :=
    ⟨⟨⟨rfl, fun _ ↦ rfl, fun _ _ ↦ rfl⟩, rfl⟩, rfl, Nat.succ_pos 999⟩
  refine throughout_iff_stepsMeet (fun state h ↦ h.1) ?_ ?_ hinit
  · intro state call next hsound hright hstep
    obtain rfl := Option.some.inj hstep
    exact sound_of_accounted hsound ((accounted_serve_iff hsound call).mpr hright)
  · intro state call hsound hwrong
    refine ⟨_, rfl, fun haccounted ↦ hwrong ?_⟩
    exact (accounted_serve_iff hsound call).mp haccounted

/-! ## One query too many -/

/-- Nothing fails during a call. -/
def undisturbed : Surroundings where
  l2Readable := true
  l2Outcome := .done
  l3Readable := true
  l3Outcome := .done
  iteration := .listed

def queryName (i : ℕ) : String := "q" ++ toString i

theorem queryName_not_mem (n : ℕ) : queryName n ∉ (List.range n).reverse.map queryName := by
  intro h
  obtain ⟨i, hi, hname⟩ := List.mem_map.mp h
  have heq : i = n := Data.numbered_injective "q" hname
  rw [heq, List.mem_reverse] at hi
  exact List.not_mem_range_self hi

def putNumber (i : ℕ) : HierarchyCall := .put (queryNamed (queryName i)) undisturbed

def distinctPuts (n : ℕ) : List HierarchyCall := (List.range n).map putNumber

theorem run_distinctPuts_succ {n : ℕ} {cache : CacheHierarchy} {tally : Tally}
    (hrun : run talliedStep (CacheHierarchy.new none none, ⟨0, 0⟩) (distinctPuts n) =
      some (cache, tally)) :
    run talliedStep (CacheHierarchy.new none none, ⟨0, 0⟩) (distinctPuts (n + 1)) =
      some (cache.serve (putNumber n), tally.record cache (putNumber n)) := by
  rw [distinctPuts, List.range_succ, List.map_append, run_append, ← distinctPuts, hrun]
  rfl

/-- As long as there is room, memory holds all queries that were put. -/
theorem run_distinctPuts (n : ℕ) (hn : n ≤ defaultMaxSize) :
    ∃ cache tally, run talliedStep (CacheHierarchy.new none none, ⟨0, 0⟩) (distinctPuts n) =
        some (cache, tally) ∧
      cache.l1.entries.keys = (List.range n).reverse.map queryName ∧
      cache.l1.maxSize = defaultMaxSize ∧ cache.counters.evictions = 0 := by
  induction n with
  | zero => exact ⟨_, _, rfl, rfl, rfl, rfl⟩
  | succ n ih =>
    obtain ⟨cache, tally, hrun, hkeys, hsize, hevictions⟩ := ih (Nat.le_of_succ_le hn)
    have hnew : (queryNamed (queryName n)).hash ∉ cache.l1.entries.keys :=
      hkeys ▸ queryName_not_mem n
    have hlength : cache.l1.entries.size = n := by
      calc cache.l1.entries.size = cache.l1.entries.keys.length := (List.length_map _).symm
        _ = n := by rw [hkeys, List.length_map, List.length_reverse, List.length_range]
    refine ⟨_, _, run_distinctPuts_succ hrun, ?_, hsize, hevictions⟩
    · have hput := cache.l1.keys_put_of_room .listed hnew (by omega)
      rw [List.range_succ, List.reverse_append, List.map_append]
      exact hput.trans (congrArg _ hkeys)

/-- The query after the last that there is room for drops another, which nothing counts. -/
theorem eviction_not_counted :
    ¬ Throughout talliedStep Accounted (CacheHierarchy.new none none, ⟨0, 0⟩)
      (distinctPuts (defaultMaxSize + 1)) := by
  intro h
  obtain ⟨cache, tally, hrun, hkeys, hsize, hevictions⟩ := run_distinctPuts defaultMaxSize le_rfl
  have hfits : ¬ cache.l1.Fits (queryNamed (queryName defaultMaxSize)) := by
    rintro (hkey | hroom)
    · rw [hkeys] at hkey
      exact queryName_not_mem defaultMaxSize hkey
    · have hlength : cache.l1.entries.size = cache.l1.entries.keys.length :=
        (List.length_map _).symm
      rw [hlength, hkeys, hsize, List.length_map, List.length_reverse, List.length_range] at hroom
      exact Nat.lt_irrefl _ hroom
  have hdrops : 0 < cache.l1.drops (queryNamed (queryName defaultMaxSize)) .listed :=
    MemoryCache.drops_pos .listed (hsize ▸ Nat.succ_pos 999) hfits
  have haccounted := h (distinctPuts (defaultMaxSize + 1)) [] (List.append_nil _).symm _
    (run_distinctPuts_succ hrun)
  have hcount : cache.counters.evictions = tally.dropped +
      (cache.l1.drops (queryNamed (queryName defaultMaxSize)) .listed + 0) := haccounted.2
  omega

end MongoCore.Compiled
