import Mathlib.Data.List.MinMax
import MongoCore.Compiled.Translator
import MongoCore.Library.Machines
import MongoCore.Library.RecencyMap

/-!
# The cache in memory

The first level of the query cache holds a limited number of queries.  Each is stored with the
number of its last access, and the query with the least number goes when a new one needs the room.

The numbers come from an atomic counter of 64 bits, which wraps around.  As long as it has not, the
cache is a recency map: the order of the numbers is the order of the accesses.
-/

namespace MongoCore.Compiled

open MongoCore.Library

/-- A query with the number of its last access. -/
abbrev Accessed := CompiledQuery × ℕ

/-- The queries by their hashes, how many there may be, and the number of the next access. -/
structure MemoryCache where
  entries : EntryMap String Accessed
  maxSize : ℕ
  counter : ℕ

/-- `fetch_add(1)` on an `AtomicU64` wraps around. -/
def fetchAdd (counter : ℕ) : ℕ := (counter + 1) % 2 ^ 64

/-- The number of the last access to an entry. -/
def lastAccess (entry : String × Accessed) : ℕ := entry.2.2

/-- The key with the least number of an access.  Of several the first that is yielded. -/
def leastRecent (iteration : Iteration (String × Accessed)) (entries : EntryMap String Accessed) :
    Option String :=
  ((iteration.list entries.entries).argmin lastAccess).map Prod.fst

namespace MemoryCache

def new (maxSize : ℕ) : MemoryCache where
  entries := .empty
  maxSize := maxSize
  counter := 0

def get (cache : MemoryCache) (hash : String) : Option CompiledQuery × MemoryCache :=
  match cache.entries.get? hash with
  | none => (none, cache)
  | some (query, _) =>
      (some query,
        { cache with
          entries := cache.entries.insert hash (query, cache.counter)
          counter := fetchAdd cache.counter })

/-- The entries without the one that a new query takes the place of. -/
def makeRoom (cache : MemoryCache) (iteration : Iteration (String × Accessed)) :
    EntryMap String Accessed :=
  if cache.maxSize ≤ cache.entries.size then
    match leastRecent iteration cache.entries with
    | some key => cache.entries.erase key
    | none => cache.entries
  else cache.entries

def put (cache : MemoryCache) (query : CompiledQuery) (iteration : Iteration (String × Accessed)) :
    MemoryCache :=
  let accessOrder := cache.counter
  let entries :=
    if (cache.entries.get? query.hash).isSome then cache.entries else cache.makeRoom iteration
  { cache with
    entries := entries.insert query.hash (query, accessOrder)
    counter := fetchAdd cache.counter }

def remove (cache : MemoryCache) (hash : String) : MemoryCache :=
  { cache with entries := cache.entries.erase hash }

def clear (cache : MemoryCache) : MemoryCache :=
  { cache with entries := .empty }

def len (cache : MemoryCache) : ℕ := cache.entries.size

end MemoryCache

/-! ## Sequences of calls -/

/-- A call of the cache.  A `put` comes with the order in which it may iterate over the entries. -/
inductive CacheCall where
  | get (hash : String)
  | put (query : CompiledQuery) (iteration : Iteration (String × Accessed))
  | remove (hash : String)
  | clear

/-- The answer to a call, which only a `get` has, and the cache after it. -/
def MemoryCache.serve (cache : MemoryCache) : CacheCall → Option CompiledQuery × MemoryCache
  | .get hash => cache.get hash
  | .put query iteration => (none, cache.put query iteration)
  | .remove hash => (none, cache.remove hash)
  | .clear => (none, cache.clear)

/-- The reference: the same calls on a recency map. -/
def serveRecent {capacity : ℕ} (recent : RecencyMap String CompiledQuery capacity) :
    CacheCall → Option CompiledQuery × RecencyMap String CompiledQuery capacity
  | .get hash => recent.use hash
  | .put query _ => (none, recent.insert query.hash query)
  | .remove hash => (none, recent.erase hash)
  | .clear => (none, .empty)

/-- How many accesses a call counts: a `put` and a successful `get` are one. -/
def accesses (cache : MemoryCache) : CacheCall → ℕ
  | .get hash => if (cache.entries.get? hash).isSome then 1 else 0
  | .put _ _ => 1
  | .remove _ | .clear => 0

/-! ## The order of the accesses -/

/-- An entry without the number of its last access. -/
def forget (entry : String × Accessed) : String × CompiledQuery := (entry.1, entry.2.1)

/-- A list of the entries from the last access to the first, all of them before access `spent`. -/
structure Ranked (spent : ℕ) (entries ranked : List (String × Accessed)) : Prop where
  perm : ranked.Perm entries
  sorted : ranked.Pairwise fun x y ↦ lastAccess y < lastAccess x
  below : ∀ entry ∈ ranked, lastAccess entry < spent

/-- The cache after `spent` accesses holds what the recency map holds, and its numbers rank the
entries as the recency map does. -/
structure Refines {capacity : ℕ} (spent : ℕ) (cache : MemoryCache)
    (recent : RecencyMap String CompiledQuery capacity) : Prop where
  maxSize : cache.maxSize = capacity
  counter : cache.counter = spent % 2 ^ 64
  ranked : ∃ ranked, Ranked spent cache.entries.entries ranked ∧
    ranked.map forget = recent.entries

variable {capacity spent : ℕ}

theorem map_fst_forget (entries : List (String × Accessed)) :
    (entries.map forget).map Prod.fst = entries.map Prod.fst := by
  rw [List.map_map]
  rfl

theorem others_map_forget (key : String) (entries : List (String × Accessed)) :
    EntryMap.others key (entries.map forget) = (EntryMap.others key entries).map forget := by
  unfold EntryMap.others
  rw [List.filter_map]
  rfl

/-- The entries of the other keys are ranked as before. -/
theorem Ranked.others {entries ranked : List (String × Accessed)} (h : Ranked spent entries ranked)
    (key : String) : Ranked spent (EntryMap.others key entries) (EntryMap.others key ranked) where
  perm := h.perm.filter _
  sorted := h.sorted.sublist List.filter_sublist
  below := fun entry hentry ↦ h.below entry (List.mem_of_mem_filter hentry)

/-- The next access comes first in the ranking. -/
theorem Ranked.access {entries ranked : List (String × Accessed)} (h : Ranked spent entries ranked)
    (key : String) (query : CompiledQuery) :
    Ranked (spent + 1) ((key, query, spent) :: entries) ((key, query, spent) :: ranked) where
  perm := h.perm.cons _
  sorted := List.pairwise_cons.mpr ⟨h.below, h.sorted⟩
  below := by
    intro entry hentry
    rcases List.mem_cons.mp hentry with rfl | hentry
    · exact Nat.lt_succ_self spent
    · exact Nat.lt_succ_of_lt (h.below entry hentry)

/-- The key with the least number is the last one of the ranking. -/
theorem Ranked.leastRecent_eq {entries : EntryMap String Accessed}
    {front : List (String × Accessed)} {last : String × Accessed}
    (h : Ranked spent entries.entries (front ++ [last]))
    (iteration : Iteration (String × Accessed)) :
    leastRecent iteration entries = some last.1 := by
  have hperm : (front ++ [last]).Perm (iteration.list entries.entries) :=
    h.perm.trans (iteration.perm entries.entries).symm
  unfold leastRecent
  cases hmin : (iteration.list entries.entries).argmin lastAccess with
  | none =>
    rw [List.argmin_eq_none.mp hmin] at hperm
    simpa using hperm.length_eq
  | some least =>
    have hmem : least ∈ front ++ [last] := hperm.mem_iff.mpr (List.argmin_mem hmin)
    have hlast : last ∈ iteration.list entries.entries := hperm.mem_iff.mp (by simp)
    have hle : lastAccess least ≤ lastAccess last := List.le_of_mem_argmin hlast hmin
    rcases List.mem_append.mp hmem with hfront | hleast
    · have hlt : lastAccess last < lastAccess least :=
        (List.pairwise_append.mp h.sorted).2.2 least hfront last (List.mem_singleton_self last)
      omega
    · rw [List.mem_singleton.mp hleast]
      rfl

section Step

variable {cache : MemoryCache} {recent : RecencyMap String CompiledQuery capacity}

theorem Refines.get?_eq (h : Refines spent cache recent) (hash : String) :
    recent.get? hash = (cache.entries.get? hash).map Prod.fst := by
  obtain ⟨ranked, hranked, hrecent⟩ := h.ranked
  ext query
  rw [EntryMap.get?_eq_some, ← hrecent, Option.map_eq_some_iff, List.mem_map]
  constructor
  · rintro ⟨entry, hentry, hforget⟩
    obtain ⟨rfl, rfl⟩ : entry.1 = hash ∧ entry.2.1 = query := Prod.ext_iff.mp hforget
    exact ⟨entry.2, EntryMap.get?_eq_some.mpr (hranked.perm.mem_iff.mp hentry), rfl⟩
  · rintro ⟨accessed, hget, rfl⟩
    exact ⟨(hash, accessed), hranked.perm.mem_iff.mpr (EntryMap.get?_eq_some.mp hget), rfl⟩

theorem Refines.size_eq (h : Refines spent cache recent) :
    cache.entries.size = recent.entries.length := by
  obtain ⟨ranked, hranked, hrecent⟩ := h.ranked
  rw [← hrecent, List.length_map]
  exact hranked.perm.length_eq.symm

/-- While the counter has not wrapped around, it is the number of accesses. -/
theorem Refines.counter_eq (h : Refines spent cache recent) (hspent : spent + 1 ≤ 2 ^ 64) :
    cache.counter = spent := by
  rw [h.counter, Nat.mod_eq_of_lt hspent]

theorem Refines.fetchAdd_eq (h : Refines spent cache recent) (hspent : spent + 1 ≤ 2 ^ 64) :
    fetchAdd cache.counter = (spent + 1) % 2 ^ 64 := by
  rw [fetchAdd, h.counter_eq hspent]

/-- The next access, when there is room for its key, refines the insertion of the key. -/
theorem Refines.insert (h : Refines spent cache recent) (hspent : spent + 1 ≤ 2 ^ 64)
    (hash : String) (query : CompiledQuery)
    (hroom : (EntryMap.others hash recent.entries).length < capacity) :
    Refines (spent + 1)
      { cache with
        entries := cache.entries.insert hash (query, cache.counter)
        counter := fetchAdd cache.counter }
      (recent.insert hash query) where
  maxSize := h.maxSize
  counter := h.fetchAdd_eq hspent
  ranked := by
    obtain ⟨ranked, hranked, hrecent⟩ := h.ranked
    refine ⟨(hash, query, spent) :: EntryMap.others hash ranked, ?_, ?_⟩
    · rw [h.counter_eq hspent]
      exact (hranked.others hash).access hash query
    · rw [recent.entries_insert_of_room query hroom, ← hrecent, others_map_forget]
      rfl

theorem Refines.remove (h : Refines spent cache recent) (hash : String) :
    Refines spent (cache.remove hash) (recent.erase hash) where
  maxSize := h.maxSize
  counter := h.counter
  ranked := by
    obtain ⟨ranked, hranked, hrecent⟩ := h.ranked
    refine ⟨EntryMap.others hash ranked, hranked.others hash, ?_⟩
    rw [← others_map_forget, hrecent]
    rfl

theorem Refines.clear (h : Refines spent cache recent) :
    Refines spent cache.clear (.empty : RecencyMap String CompiledQuery capacity) where
  maxSize := h.maxSize
  counter := h.counter
  ranked := ⟨[], ⟨List.Perm.refl [], List.Pairwise.nil, by simp⟩, rfl⟩

/-- A successful `get` is the use of the key. -/
theorem Refines.get (h : Refines spent cache recent) (hash : String)
    (hspent : spent + accesses cache (.get hash) ≤ 2 ^ 64) :
    (cache.get hash).1 = (recent.use hash).1 ∧
      Refines (spent + accesses cache (.get hash)) (cache.get hash).2 (recent.use hash).2 := by
  have hlookup := h.get?_eq hash
  unfold MemoryCache.get RecencyMap.use
  cases hget : cache.entries.get? hash with
  | none =>
    rw [hget, Option.map_none] at hlookup
    rw [hlookup, accesses, hget]
    exact ⟨rfl, h⟩
  | some accessed =>
    rw [hget, Option.map_some] at hlookup
    rw [accesses, hget] at hspent ⊢
    rw [hlookup]
    refine ⟨rfl, h.insert hspent hash accessed.1 ?_⟩
    have hkey : hash ∈ recent.entries.map Prod.fst :=
      List.mem_map_of_mem (EntryMap.get?_eq_some.mp hlookup)
    exact lt_of_lt_of_le (EntryMap.length_others_lt hkey) recent.length_le

/-- When the cache is full, the entry that makes room is the last one of the recency map. -/
theorem Refines.makeRoom_of_full (h : Refines spent cache recent) (hpos : 0 < capacity)
    (hfull : recent.entries.length = capacity) (iteration : Iteration (String × Accessed)) :
    ∃ front last, recent.entries = front ++ [last] ∧
      cache.makeRoom iteration = cache.entries.erase last.1 := by
  obtain ⟨ranked, hranked, hrecent⟩ := h.ranked
  have hne : ranked ≠ [] := by
    rintro rfl
    rw [← hrecent] at hfull
    exact absurd hfull (by simpa using Nat.ne_of_lt hpos)
  obtain ⟨front, last, rfl⟩ : ∃ front last, ranked = front ++ [last] :=
    ⟨ranked.dropLast, ranked.getLast hne, (List.dropLast_append_getLast hne).symm⟩
  refine ⟨front.map forget, forget last, by rw [← hrecent, List.map_append]; rfl, ?_⟩
  have hsize : cache.maxSize ≤ cache.entries.size := by rw [h.maxSize, h.size_eq, hfull]
  rw [MemoryCache.makeRoom, if_pos hsize, hranked.leastRecent_eq iteration]
  rfl

theorem Refines.mem_keys (h : Refines spent cache recent) (hash : String) :
    hash ∈ recent.keys ↔ hash ∈ cache.entries.keys := by
  obtain ⟨ranked, hranked, hrecent⟩ := h.ranked
  rw [EntryMap.keys, ← hrecent, map_fst_forget]
  exact (hranked.perm.map Prod.fst).mem_iff

/-- A `put` is the insertion of its query. -/
theorem Refines.put (h : Refines spent cache recent) (hpos : 0 < capacity)
    (hspent : spent + 1 ≤ 2 ^ 64) (query : CompiledQuery)
    (iteration : Iteration (String × Accessed)) :
    Refines (spent + 1) (cache.put query iteration) (recent.insert query.hash query) := by
  unfold MemoryCache.put
  by_cases hkey : query.hash ∈ recent.keys
  · -- the query is there already: no other entry changes
    have hsome : (cache.entries.get? query.hash).isSome = true := by
      rw [Option.isSome_iff_ne_none, ne_eq, EntryMap.get?_eq_none, ← h.mem_keys]
      exact not_not_intro hkey
    rw [if_pos hsome]
    exact h.insert hspent query.hash query
      (lt_of_lt_of_le (EntryMap.length_others_lt hkey) recent.length_le)
  · have hnone : ¬ (cache.entries.get? query.hash).isSome = true := by
      rw [Option.not_isSome_iff_eq_none, EntryMap.get?_eq_none, ← h.mem_keys]
      exact hkey
    rw [if_neg hnone]
    rcases Nat.lt_or_eq_of_le recent.length_le with hroom | hfull
    · -- there is room
      have hsize : ¬ cache.maxSize ≤ cache.entries.size := by
        rw [h.maxSize, h.size_eq]
        exact Nat.not_le_of_lt hroom
      rw [MemoryCache.makeRoom, if_neg hsize]
      exact h.insert hspent query.hash query (by rwa [EntryMap.others_eq_self hkey])
    · -- the last entry makes room
      obtain ⟨front, last, hentries, hmake⟩ := h.makeRoom_of_full hpos hfull iteration
      have hnew : query.hash ∉ (recent.erase last.1).entries.map Prod.fst := fun hmem ↦
        hkey ((List.filter_sublist.map Prod.fst).mem hmem)
      have hlast : last.1 ∈ recent.entries.map Prod.fst := by simp [hentries]
      have hlength : (recent.erase last.1).entries.length < capacity :=
        lt_of_lt_of_le (EntryMap.length_others_lt hlast) recent.length_le
      rw [hmake, ← recent.insert_erase_last query hentries hkey hfull]
      exact (h.remove last.1).insert hspent query.hash query
        (by rwa [EntryMap.others_eq_self hnew])

/-- Every call within the first 2 ^ 64 accesses is answered as by the recency map. -/
theorem Refines.serve (h : Refines spent cache recent) (hpos : 0 < capacity) (call : CacheCall)
    (hspent : spent + accesses cache call ≤ 2 ^ 64) :
    (cache.serve call).1 = (serveRecent recent call).1 ∧
      Refines (spent + accesses cache call) (cache.serve call).2 (serveRecent recent call).2 := by
  cases call with
  | get hash => exact h.get hash hspent
  | put query iteration => exact ⟨rfl, h.put hpos hspent query iteration⟩
  | remove hash => exact ⟨rfl, h.remove hash⟩
  | clear => exact ⟨rfl, h.clear⟩

theorem refines_new (capacity : ℕ) :
    Refines 0 (MemoryCache.new capacity) (.empty : RecencyMap String CompiledQuery capacity) where
  maxSize := rfl
  counter := rfl
  ranked := ⟨[], ⟨List.Perm.refl [], List.Pairwise.nil, by simp⟩, rfl⟩

/-- The numbers of the last accesses are distinct. -/
theorem Refines.nodup (h : Refines spent cache recent) :
    (cache.entries.entries.map lastAccess).Nodup := by
  obtain ⟨ranked, hranked, -⟩ := h.ranked
  have hsorted : (ranked.map lastAccess).Nodup :=
    List.pairwise_map.mpr (hranked.sorted.imp fun hlt ↦ Nat.ne_of_gt hlt)
  exact (hranked.perm.map lastAccess).nodup_iff.mp hsorted

/-- A `put` of a new query in a full cache drops the last key of the recency map and no other. -/
theorem Refines.keys_put_of_full (h : Refines spent cache recent) (hpos : 0 < capacity)
    {query : CompiledQuery} (iteration : Iteration (String × Accessed))
    (hnew : query.hash ∉ cache.entries.keys) (hfull : cache.len = capacity) :
    ∃ last, recent.entries.getLast? = some last ∧ last.1 ∈ cache.entries.keys ∧
      ∀ hash, hash ∈ (cache.put query iteration).entries.keys ↔
        hash = query.hash ∨ hash ∈ cache.entries.keys ∧ hash ≠ last.1 := by
  have hlength : recent.entries.length = capacity := h.size_eq.symm.trans hfull
  obtain ⟨front, last, hentries, hmake⟩ := h.makeRoom_of_full hpos hlength iteration
  refine ⟨last, by rw [hentries, List.getLast?_concat], ?_, fun hash ↦ ?_⟩
  · rw [← h.mem_keys, EntryMap.keys, hentries]
    simp
  · have hnone : cache.entries.get? query.hash = none := EntryMap.get?_eq_none.mpr hnew
    have herase : (cache.entries.erase last.1).keys =
        cache.entries.keys.filter fun hash ↦ hash ≠ last.1 := by
      rw [EntryMap.keys, EntryMap.keys, List.filter_map]
      rfl
    have hother : query.hash ∉ (cache.entries.erase last.1).entries.map Prod.fst := fun hmem ↦
      hnew ((List.filter_sublist.map Prod.fst).mem hmem)
    have hput : (cache.put query iteration).entries.keys =
        query.hash :: (cache.entries.erase last.1).keys := by
      unfold MemoryCache.put
      rw [hnone, hmake]
      calc ((cache.entries.erase last.1).insert query.hash (query, cache.counter)).keys
          = query.hash :: (EntryMap.others query.hash
              (cache.entries.erase last.1).entries).map Prod.fst := rfl
        _ = query.hash :: (cache.entries.erase last.1).keys := by
            rw [EntryMap.others_eq_self hother]
            rfl
    rw [hput, herase, List.mem_cons, List.mem_filter, decide_eq_true_eq]

end Step

/-! ## The cache is a recency map -/

open MemoryCache Machines in
/-- In every sequence of calls with at most 2 ^ 64 accesses the cache gives the answers of a recency
map of its size.  It is never larger, its numbers are distinct, and a new query in a full cache
takes the place of the least recently used one. -/
theorem memoryCache_refines_recencyMap (capacity : ℕ) (hpos : 0 < capacity)
    (calls : List CacheCall) (hcount : total serve accesses (new capacity) calls ≤ 2 ^ 64) :
    let cache := after serve (new capacity) calls
    let recent := after serveRecent (.empty : RecencyMap String CompiledQuery capacity) calls
    outputs serve (new capacity) calls =
        outputs serveRecent (.empty : RecencyMap String CompiledQuery capacity) calls ∧
      cache.len ≤ capacity ∧
      (cache.entries.entries.map lastAccess).Nodup ∧
      ∀ query iteration, query.hash ∉ cache.entries.keys → cache.len = capacity →
        ∃ last, recent.entries.getLast? = some last ∧ last.1 ∈ cache.entries.keys ∧
          ∀ hash, hash ∈ (cache.put query iteration).entries.keys ↔
            hash = query.hash ∨ hash ∈ cache.entries.keys ∧ hash ≠ last.1 := by
  intro cache recent
  have hbudget : 0 + total serve accesses (new capacity) calls ≤ 2 ^ 64 := by rwa [Nat.zero_add]
  have hstep : ∀ spent cache (recent : RecencyMap String CompiledQuery capacity) call,
      Refines spent cache recent → spent + accesses cache call ≤ 2 ^ 64 →
      (cache.serve call).1 = (serveRecent recent call).1 ∧
        Refines (spent + accesses cache call) (cache.serve call).2 (serveRecent recent call).2 :=
    fun _ _ _ call h hspent ↦ h.serve hpos call hspent
  obtain ⟨houtputs, hrefines⟩ := related_of_budget hstep (refines_new capacity) calls hbudget
  refine ⟨houtputs, ?_, hrefines.nodup, fun query iteration hnew hfull ↦ ?_⟩
  · exact hrefines.size_eq.trans_le recent.length_le
  · exact hrefines.keys_put_of_full hpos iteration hnew hfull

def queryNamed (hash : String) : CompiledQuery where
  hash := hash
  intent := "test"
  collection := "col"
  database := "db"
  mql := .find [] none
  llmTemplate := none

open MemoryCache Machines in
/-- Two queries are stored, the first is used again, and a third takes the place of the second. -/
theorem memoryCache_refines_recencyMap_of_two :
    let calls := [.put (queryNamed "a") .listed, .put (queryNamed "b") .listed, .get "a"]
    let cache := after serve (new 2) calls
    total serve accesses (new 2) calls ≤ 2 ^ 64 ∧
      ∃ last, (after serveRecent (.empty : RecencyMap String CompiledQuery 2) calls).entries.getLast?
          = some last ∧ last.1 ∈ cache.entries.keys ∧
        ∀ hash, hash ∈ (cache.put (queryNamed "c") .listed).entries.keys ↔
          hash = "c" ∨ hash ∈ cache.entries.keys ∧ hash ≠ last.1 := by
  intro calls cache
  have hcount : total serve accesses (new 2) calls ≤ 2 ^ 64 := by decide
  have hrefines := memoryCache_refines_recencyMap 2 (by decide) calls hcount
  exact ⟨hcount, hrefines.2.2.2 (queryNamed "c") .listed (by decide) (by decide)⟩

/-! ## When the counter wraps around -/

def holding (query : CompiledQuery) (order counter : ℕ) : MemoryCache where
  entries := EntryMap.empty.insert query.hash (query, order)
  maxSize := 2
  counter := counter

theorem serve_get_holding (query : CompiledQuery) (order counter : ℕ) :
    (holding query order counter).serve (.get query.hash) =
      (some query, holding query counter (fetchAdd counter)) := by
  simp [MemoryCache.serve, MemoryCache.get, holding, EntryMap.get?, EntryMap.insert,
    EntryMap.others, EntryMap.empty]

/-- Using the only query over and over counts up. -/
theorem after_gets_holding (query : CompiledQuery) (order counter n : ℕ)
    (hcounter : counter < 2 ^ 64) :
    Machines.after MemoryCache.serve (holding query order counter)
        (List.replicate (n + 1) (.get query.hash)) =
      holding query ((counter + n) % 2 ^ 64) ((counter + n + 1) % 2 ^ 64) := by
  induction n generalizing order counter with
  | zero =>
    rw [List.replicate_succ, Machines.after_cons, serve_get_holding, Nat.add_zero,
      Nat.mod_eq_of_lt hcounter]
    rfl
  | succ n ih =>
    have horder : ((counter + 1) % 2 ^ 64 + n) % 2 ^ 64 = (counter + (n + 1)) % 2 ^ 64 := by omega
    have hnext : ((counter + 1) % 2 ^ 64 + n + 1) % 2 ^ 64 = (counter + (n + 1) + 1) % 2 ^ 64 := by
      omega
    rw [List.replicate_succ, Machines.after_cons, serve_get_holding,
      ih counter (fetchAdd counter) (Nat.mod_lt _ (by decide)), fetchAdd, horder, hnext]

/-- The recency map does not change when its only key is used. -/
theorem after_gets_recent (query : CompiledQuery) (n : ℕ) :
    Machines.after serveRecent
        ((.empty : RecencyMap String CompiledQuery 2).insert query.hash query)
        (List.replicate n (.get query.hash)) =
      (.empty : RecencyMap String CompiledQuery 2).insert query.hash query := by
  induction n with
  | zero => rfl
  | succ n ih =>
    have huse : (((.empty : RecencyMap String CompiledQuery 2).insert query.hash query).use
        query.hash).2 = (.empty : RecencyMap String CompiledQuery 2).insert query.hash query := by
      simp [RecencyMap.use, RecencyMap.insert, RecencyMap.empty, EntryMap.get?, EntryMap.insert,
        EntryMap.others, EntryMap.empty]
    rw [List.replicate_succ, Machines.after_cons, serveRecent, huse, ih]

/-- A query is stored and then used some times. -/
def storeAndUse (uses : ℕ) : List CacheCall :=
  .put (queryNamed "a") .listed :: List.replicate uses (.get "a")

/-- Two more queries are stored and the first is looked up. -/
def storeTwoMore : List CacheCall :=
  [.put (queryNamed "b") .listed, .put (queryNamed "c") .listed, .get "a"]

theorem after_storeAndUse (n : ℕ) :
    Machines.after MemoryCache.serve (MemoryCache.new 2) (storeAndUse (n + 1)) =
      holding (queryNamed "a") ((1 + n) % 2 ^ 64) ((1 + n + 1) % 2 ^ 64) :=
  after_gets_holding (queryNamed "a") 0 1 n (by decide)

theorem after_storeAndUse_recent (n : ℕ) :
    Machines.after serveRecent (.empty : RecencyMap String CompiledQuery 2) (storeAndUse n) =
      (RecencyMap.empty : RecencyMap String CompiledQuery 2).insert "a" (queryNamed "a") :=
  after_gets_recent (queryNamed "a") n

open MemoryCache Machines in
/-- The counter is at zero again when the two queries are stored, and the query that is stored
first after that is dropped instead of the one that has not been used for longest. -/
theorem wrapped_cache_keeps_least_recent :
    outputs serve (new 2) (storeAndUse (2 ^ 64 - 1) ++ storeTwoMore) ≠
      outputs serveRecent (.empty : RecencyMap String CompiledQuery 2)
        (storeAndUse (2 ^ 64 - 1) ++ storeTwoMore) := by
  intro heq
  have hcache : after serve (new 2) (storeAndUse (2 ^ 64 - 1)) =
      holding (queryNamed "a") (2 ^ 64 - 1) 0 := by
    have huses : 2 ^ 64 - 1 = 2 ^ 64 - 2 + 1 := by omega
    have horder : (1 + (2 ^ 64 - 2)) % 2 ^ 64 = 2 ^ 64 - 1 := by omega
    have hcounter : (1 + (2 ^ 64 - 2) + 1) % 2 ^ 64 = 0 := by omega
    calc after serve (new 2) (storeAndUse (2 ^ 64 - 1))
      _ = after serve (new 2) (storeAndUse (2 ^ 64 - 2 + 1)) := by rw [huses]
      _ = holding (queryNamed "a") ((1 + (2 ^ 64 - 2)) % 2 ^ 64)
            ((1 + (2 ^ 64 - 2) + 1) % 2 ^ 64) := after_storeAndUse (2 ^ 64 - 2)
      _ = holding (queryNamed "a") (2 ^ 64 - 1) 0 := by rw [horder, hcounter]
  have hrecent : after serveRecent (.empty : RecencyMap String CompiledQuery 2)
      (storeAndUse (2 ^ 64 - 1)) =
      (RecencyMap.empty : RecencyMap String CompiledQuery 2).insert "a" (queryNamed "a") :=
    after_storeAndUse_recent (2 ^ 64 - 1)
  rw [outputs_append, outputs_append, hcache, hrecent] at heq
  have hlast := (List.append_inj' heq rfl).2
  have hsome := congrArg (fun answers ↦ answers.map Option.isSome) hlast
  revert hsome
  decide

end MongoCore.Compiled
