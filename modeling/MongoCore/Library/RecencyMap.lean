import MongoCore.Library.EntryMap

/-!
# Maps that forget the least recently used key

A recency map holds at most a given number of keys, the most recently used one first.  Looking a
key up and inserting it both make it the most recent one.  If a key is inserted and there is no
room for it, the last key of the list goes.
-/

namespace MongoCore.Library

/-- At most `capacity` keys with their values, the most recently used key first. -/
@[ext]
structure RecencyMap (κ ν : Type*) (capacity : ℕ) extends EntryMap κ ν where
  length_le : entries.length ≤ capacity

namespace RecencyMap

open EntryMap

variable {κ ν : Type*} {capacity : ℕ}

def empty : RecencyMap κ ν capacity where
  toEntryMap := EntryMap.empty
  length_le := Nat.zero_le capacity

variable [DecidableEq κ]

/-- Give a key a value.  It becomes the most recent key, and the last one goes if there is no room
for it. -/
def insert (map : RecencyMap κ ν capacity) (key : κ) (value : ν) : RecencyMap κ ν capacity where
  entries := (map.toEntryMap.insert key value).entries.take capacity
  nodup := (map.toEntryMap.insert key value).nodup.sublist ((List.take_sublist _ _).map Prod.fst)
  length_le := List.length_take_le _ _

def erase (map : RecencyMap κ ν capacity) (key : κ) : RecencyMap κ ν capacity where
  toEntryMap := map.toEntryMap.erase key
  length_le := Nat.le_trans (List.length_filter_le _ _) map.length_le

/-- The value of a key, which becomes the most recent one. -/
def use (map : RecencyMap κ ν capacity) (key : κ) : Option ν × RecencyMap κ ν capacity :=
  match map.get? key with
  | none => (none, map)
  | some value => (some value, map.insert key value)

theorem entries_insert_of_room (map : RecencyMap κ ν capacity) {key : κ} (value : ν)
    (h : (others key map.entries).length < capacity) :
    (map.insert key value).entries = (key, value) :: others key map.entries :=
  List.take_of_length_le h

/-- A key that a full map has not got takes the place of the last one. -/
theorem entries_insert_of_full (map : RecencyMap κ ν capacity) {key : κ} (value : ν)
    (hkey : key ∉ map.keys) (hfull : map.entries.length = capacity) (hpos : 0 < capacity) :
    (map.insert key value).entries = (key, value) :: map.entries.dropLast := by
  obtain ⟨rest, rfl⟩ := Nat.exists_eq_succ_of_ne_zero (Nat.ne_of_gt hpos)
  calc (map.insert key value).entries
      = ((key, value) :: map.entries).take (rest + 1) := by
        rw [← others_eq_self hkey]
        rfl
    _ = (key, value) :: map.entries.take rest := List.take_succ_cons
    _ = (key, value) :: map.entries.dropLast := by
        rw [List.dropLast_eq_take, hfull, Nat.succ_sub_one]

/-- Inserting a key into a full map without it is the same as making room for it first. -/
theorem insert_erase_last (map : RecencyMap κ ν capacity) {key : κ} (value : ν)
    {front : List (κ × ν)} {last : κ × ν} (hentries : map.entries = front ++ [last])
    (hkey : key ∉ map.keys) (hfull : map.entries.length = capacity) :
    (map.erase last.1).insert key value = map.insert key value := by
  have hnodup : ((front ++ [last]).map Prod.fst).Nodup := hentries ▸ map.nodup
  rw [List.map_append, List.nodup_append] at hnodup
  have hlast : last.1 ∉ front.map Prod.fst := fun hmem ↦
    hnodup.2.2 last.1 hmem last.1 (List.mem_singleton_self last.1) rfl
  have herase : (map.erase last.1).entries = front := by
    calc others last.1 map.entries = others last.1 front ++ others last.1 [last] := by
          rw [hentries, others, List.filter_append]
          rfl
      _ = front := by rw [others_eq_self hlast]; simp [others]
  have hfront : key ∉ front.map Prod.fst := fun hmem ↦ hkey (by
    rw [EntryMap.keys, hentries, List.map_append]
    exact List.mem_append_left _ hmem)
  have hlength : front.length < capacity := by
    rw [← hfull, hentries, List.length_append, List.length_singleton]
    exact Nat.lt_succ_self front.length
  refine RecencyMap.ext ?_
  rw [entries_insert_of_room _ value (by rwa [herase, others_eq_self hfront]), herase,
    others_eq_self hfront, map.entries_insert_of_full value hkey hfull (by omega), hentries,
    List.dropLast_concat]

end RecencyMap

end MongoCore.Library
