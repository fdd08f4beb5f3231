import MongoCore.Compiled.MemoryCache

/-!
# The cache hierarchy

The query cache has up to three levels: memory, a directory of files, and a collection in Atlas.
A query that is found in a lower level is promoted to the ones above it.

The lower levels may fail.  A failed read is a miss, and the result of a write is ignored.  The
directory and the collection are not the cache's own: other processes may change them between two
calls.
-/

namespace MongoCore.Compiled

open MongoCore.Library

/-! ## Lower levels -/

/-- What becomes of a write to a lower level.  A write that fails may leave what was there, or, as a
file that was truncated, nothing that can be read. -/
inductive WriteOutcome where
  | done | unchanged | lost
  deriving DecidableEq

/-- A file or a document for each hash. -/
abbrev LowerLevel := EntryMap String CompiledQuery

namespace LowerLevel

/-- What is stored, if it can be read. -/
def get (level : LowerLevel) (hash : String) (readable : Bool) : Option CompiledQuery :=
  if readable then level.get? hash else none

def put (level : LowerLevel) (query : CompiledQuery) : WriteOutcome → LowerLevel
  | .done => level.insert query.hash query
  | .unchanged => level
  | .lost => level.erase query.hash

def remove (level : LowerLevel) (hash : String) : WriteOutcome → LowerLevel
  | .done | .lost => level.erase hash
  | .unchanged => level

end LowerLevel

/-- What happens around a call: whether the lower levels can be read, what becomes of a write to
them, and in which order the entries in memory are iterated over. -/
structure Surroundings where
  l2Readable : Bool
  l2Outcome : WriteOutcome
  l3Readable : Bool
  l3Outcome : WriteOutcome
  iteration : Iteration (String × Accessed)

/-! ## The hierarchy -/

/-- The counters of the cache, each of 64 bits. -/
structure CacheCounters where
  l1Hits : ℕ := 0
  l1Misses : ℕ := 0
  l2Hits : ℕ := 0
  l2Misses : ℕ := 0
  l3Hits : ℕ := 0
  l3Misses : ℕ := 0
  evictions : ℕ := 0

/-- The counters as they are reported, with the number of queries in memory. -/
structure CacheStats extends CacheCounters where
  l1Size : ℕ

structure CacheHierarchy where
  l1 : MemoryCache
  l2 : Option LowerLevel
  l3 : Option LowerLevel
  counters : CacheCounters

def defaultMaxSize : ℕ := 1000

namespace CacheHierarchy

/-- The cache at the start, over a directory and a collection if there are any. -/
def new (l2 l3 : Option LowerLevel) : CacheHierarchy where
  l1 := .new defaultMaxSize
  l2 := l2
  l3 := l3
  counters := {}

/-- Look in the third level.  A hit is promoted to both others. -/
def getL3 (cache : CacheHierarchy) (hash : String) (around : Surroundings) :
    Option CompiledQuery × CacheHierarchy :=
  match cache.l3 with
  | none => (none, cache)
  | some l3 =>
      match LowerLevel.get l3 hash around.l3Readable with
      | some query =>
          (some query,
            { cache with
              l1 := cache.l1.put query around.iteration
              l2 := cache.l2.map fun l2 ↦ LowerLevel.put l2 query around.l2Outcome
              counters := { cache.counters with l3Hits := fetchAdd cache.counters.l3Hits } })
      | none =>
          (none,
            { cache with
              counters := { cache.counters with l3Misses := fetchAdd cache.counters.l3Misses } })

/-- Look in the second level.  A hit is promoted to the first. -/
def getL2 (cache : CacheHierarchy) (hash : String) (around : Surroundings) :
    Option CompiledQuery × CacheHierarchy :=
  match cache.l2 with
  | none => cache.getL3 hash around
  | some l2 =>
      match LowerLevel.get l2 hash around.l2Readable with
      | some query =>
          (some query,
            { cache with
              l1 := cache.l1.put query around.iteration
              counters := { cache.counters with l2Hits := fetchAdd cache.counters.l2Hits } })
      | none =>
          getL3 { cache with
            counters := { cache.counters with l2Misses := fetchAdd cache.counters.l2Misses } }
            hash around

def get (cache : CacheHierarchy) (hash : String) (around : Surroundings) :
    Option CompiledQuery × CacheHierarchy :=
  match cache.l1.get hash with
  | (some query, l1) =>
      (some query,
        { cache with
          l1 := l1
          counters := { cache.counters with l1Hits := fetchAdd cache.counters.l1Hits } })
  | (none, _) =>
      getL2 { cache with
        counters := { cache.counters with l1Misses := fetchAdd cache.counters.l1Misses } }
        hash around

def put (cache : CacheHierarchy) (query : CompiledQuery) (around : Surroundings) :
    CacheHierarchy :=
  { cache with
    l1 := cache.l1.put query around.iteration
    l2 := cache.l2.map fun l2 ↦ LowerLevel.put l2 query around.l2Outcome
    l3 := cache.l3.map fun l3 ↦ LowerLevel.put l3 query around.l3Outcome }

def remove (cache : CacheHierarchy) (hash : String) (around : Surroundings) : CacheHierarchy :=
  { cache with
    l1 := cache.l1.remove hash
    l2 := cache.l2.map fun l2 ↦ LowerLevel.remove l2 hash around.l2Outcome
    l3 := cache.l3.map fun l3 ↦ LowerLevel.remove l3 hash around.l3Outcome }

/-- Put a query that was loaded into the upper levels. -/
def warm (cache : CacheHierarchy) (query : CompiledQuery) (around : Surroundings) :
    CacheHierarchy :=
  { cache with
    l1 := cache.l1.put query around.iteration
    l2 := cache.l2.map fun l2 ↦ LowerLevel.put l2 query around.l2Outcome }

/-- Put the queries that the collection yields into the upper levels. -/
def warmFromAtlas (cache : CacheHierarchy) (loaded : List (CompiledQuery × Surroundings)) :
    CacheHierarchy :=
  match cache.l3 with
  | none => cache
  | some _ => loaded.foldl (fun cache (query, around) ↦ cache.warm query around) cache

def cacheStats (cache : CacheHierarchy) : CacheStats where
  toCacheCounters := cache.counters
  l1Size := cache.l1.len

end CacheHierarchy

/-! ## Sequences of calls -/

/-- A call of the cache, or a change of what is stored below by someone else. -/
inductive HierarchyCall where
  | get (hash : String) (around : Surroundings)
  | put (query : CompiledQuery) (around : Surroundings)
  | remove (hash : String) (around : Surroundings)
  | warmFromAtlas (loaded : List (CompiledQuery × Surroundings))
  | elsewhere (l2 l3 : LowerLevel)

def CacheHierarchy.serve (cache : CacheHierarchy) : HierarchyCall → CacheHierarchy
  | .get hash around => (cache.get hash around).2
  | .put query around => cache.put query around
  | .remove hash around => cache.remove hash around
  | .warmFromAtlas loaded => cache.warmFromAtlas loaded
  | .elsewhere l2 l3 =>
      { cache with l2 := cache.l2.map fun _ ↦ l2, l3 := cache.l3.map fun _ ↦ l3 }

end MongoCore.Compiled
