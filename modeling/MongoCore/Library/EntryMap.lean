import Mathlib.Data.List.Nodup
import Mathlib.Data.List.Basic

/-!
# Hash maps

A hash map is a list of entries with distinct keys.  The list only says what the entries are.  An
iteration over the map may yield them in any other order, which an `Iteration` stands for.
-/

namespace MongoCore.Library

/-- Entries with distinct keys. -/
@[ext]
structure EntryMap (κ ν : Type*) where
  entries : List (κ × ν)
  nodup : (entries.map Prod.fst).Nodup

/-- An order in which the entries of a map may be yielded. -/
structure Iteration (α : Type*) where
  list : List α → List α
  perm : ∀ entries, (list entries).Perm entries

def Iteration.listed {α : Type*} : Iteration α where
  list := id
  perm := fun entries ↦ List.Perm.refl entries

/-- An iteration that takes one list of entries in a given order. -/
def Iteration.taking {α : Type*} [DecidableEq α] (entries other : List α)
    (hperm : other.Perm entries) : Iteration α where
  list := fun list ↦ if list = entries then other else list
  perm := fun list ↦ by
    split
    · rename_i hlist
      rw [hlist]
      exact hperm
    · exact List.Perm.refl list

theorem Iteration.list_taking {α : Type*} [DecidableEq α] {entries other : List α}
    (hperm : other.Perm entries) : (Iteration.taking entries other hperm).list entries = other :=
  if_pos rfl

/-! ## Lists of entries -/

section Lookup

variable {κ ν : Type*} [BEq κ] [LawfulBEq κ]

theorem lookup_eq_none_iff_notMem {key : κ} {entries : List (κ × ν)} :
    entries.lookup key = none ↔ key ∉ entries.map Prod.fst := by
  rw [List.lookup_eq_none_iff, List.mem_map]
  constructor
  · rintro h ⟨entry, hentry, rfl⟩
    exact absurd (h entry hentry) (by simp)
  · intro h entry hentry
    simpa using fun heq : key = entry.1 ↦ h ⟨entry, hentry, heq.symm⟩

theorem exists_lookup_of_mem {key : κ} {entries : List (κ × ν)} (h : key ∈ entries.map Prod.fst) :
    ∃ value, entries.lookup key = some value :=
  Option.ne_none_iff_exists'.mp fun hnone ↦ lookup_eq_none_iff_notMem.mp hnone h

/-- Where the keys are distinct, a lookup yields the value of the entry. -/
theorem lookup_eq_some_of_mem {entry : κ × ν} {entries : List (κ × ν)}
    (hnodup : (entries.map Prod.fst).Nodup) (hentry : entry ∈ entries) :
    entries.lookup entry.1 = some entry.2 := by
  induction entries with
  | nil => exact absurd hentry List.not_mem_nil
  | cons first entries ih =>
    rw [List.map_cons, List.nodup_cons] at hnodup
    rcases List.mem_cons.mp hentry with rfl | hentry
    · exact List.lookup_cons_self
    · have hne : entry.1 ≠ first.1 := fun heq ↦
        hnodup.1 (heq ▸ List.mem_map_of_mem hentry)
      rw [List.lookup_cons, beq_false_of_ne hne]
      exact ih hnodup.2 hentry

/-- Where the keys are distinct, the order of the entries does not matter to a lookup. -/
theorem lookup_eq_of_perm {entries order : List (κ × ν)} (hperm : order.Perm entries)
    (hnodup : (entries.map Prod.fst).Nodup) (key : κ) : order.lookup key = entries.lookup key := by
  induction hperm with
  | nil => rfl
  | cons entry hperm ih =>
    rw [List.lookup_cons, List.lookup_cons, ih (List.nodup_cons.mp hnodup).2]
  | swap entry other rest =>
    have hne : entry.1 ≠ other.1 := by
      simp only [List.map_cons, List.nodup_cons, List.mem_cons, not_or] at hnodup
      exact hnodup.1.1
    rw [List.lookup_cons, List.lookup_cons, List.lookup_cons, List.lookup_cons]
    by_cases hentry : key = entry.1
    · have hother : (key == other.1) = false := beq_false_of_ne (hentry ▸ hne)
      rw [hother]
    · rw [beq_false_of_ne hentry]
  | trans hfirst hsecond ih ih' =>
    rw [ih ((hsecond.map Prod.fst).nodup_iff.mpr hnodup), ih' hnodup]

end Lookup

namespace EntryMap

variable {κ ν : Type*}

def keys (map : EntryMap κ ν) : List κ := map.entries.map Prod.fst

def empty : EntryMap κ ν where
  entries := []
  nodup := List.nodup_nil

def size (map : EntryMap κ ν) : ℕ := map.entries.length

variable [DecidableEq κ]

def others (key : κ) (entries : List (κ × ν)) : List (κ × ν) :=
  entries.filter fun entry ↦ entry.1 ≠ key

theorem nodup_others {entries : List (κ × ν)} (h : (entries.map Prod.fst).Nodup) (key : κ) :
    ((others key entries).map Prod.fst).Nodup :=
  h.sublist (List.filter_sublist.map Prod.fst)

theorem not_mem_others (key : κ) (entries : List (κ × ν)) :
    key ∉ (others key entries).map Prod.fst := by
  simp [others]

theorem others_eq_self {key : κ} {entries : List (κ × ν)} (h : key ∉ entries.map Prod.fst) :
    others key entries = entries := by
  rw [others, List.filter_eq_self]
  intro entry hentry
  have hne : entry.1 ≠ key := fun heq ↦ h (heq ▸ List.mem_map_of_mem hentry)
  simpa using hne

theorem length_others_lt {key : κ} {entries : List (κ × ν)} (h : key ∈ entries.map Prod.fst) :
    (others key entries).length < entries.length := by
  obtain ⟨entry, hentry, hkey⟩ := List.mem_map.mp h
  exact List.length_filter_lt_length_iff_exists.mpr ⟨entry, hentry, by simp [hkey]⟩

def get? (map : EntryMap κ ν) (key : κ) : Option ν :=
  (map.entries.find? fun entry ↦ entry.1 = key).map Prod.snd

def insert (map : EntryMap κ ν) (key : κ) (value : ν) : EntryMap κ ν where
  entries := (key, value) :: others key map.entries
  nodup := List.nodup_cons.mpr ⟨not_mem_others key map.entries, nodup_others map.nodup key⟩

def erase (map : EntryMap κ ν) (key : κ) : EntryMap κ ν where
  entries := others key map.entries
  nodup := nodup_others map.nodup key

theorem get?_eq_some {map : EntryMap κ ν} {key : κ} {value : ν} :
    map.get? key = some value ↔ (key, value) ∈ map.entries := by
  constructor
  · intro h
    obtain ⟨entry, hfind, hvalue⟩ := Option.map_eq_some_iff.mp h
    have hkey : entry.1 = key := by simpa using List.find?_some hfind
    rw [← hkey, ← hvalue]
    exact List.mem_of_find?_eq_some hfind
  · intro hmem
    cases hfind : map.entries.find? (fun entry ↦ entry.1 = key) with
    | none => simpa using List.find?_eq_none.mp hfind (key, value) hmem
    | some entry =>
      have hkey : entry.1 = key := by simpa using List.find?_some hfind
      have heq : entry = (key, value) :=
        List.inj_on_of_nodup_map map.nodup (List.mem_of_find?_eq_some hfind) hmem hkey
      rw [get?, hfind, heq]
      rfl

theorem get?_eq_none {map : EntryMap κ ν} {key : κ} : map.get? key = none ↔ key ∉ map.keys := by
  constructor
  · intro h hkey
    obtain ⟨entry, hentry, rfl⟩ := List.mem_map.mp hkey
    have hsome : map.get? entry.1 = some entry.2 := get?_eq_some.mpr hentry
    rw [h] at hsome
    cases hsome
  · intro h
    cases hget : map.get? key with
    | none => rfl
    | some value => exact absurd (List.mem_map_of_mem (get?_eq_some.mp hget)) h

theorem get?_isSome {map : EntryMap κ ν} {key : κ} :
    (map.get? key).isSome = true ↔ key ∈ map.keys := by
  rw [Option.isSome_iff_ne_none, ne_eq, get?_eq_none, not_not]

theorem get?_eq_of_mem_iff {map other : EntryMap κ ν} {key : κ}
    (h : ∀ value, (key, value) ∈ map.entries ↔ (key, value) ∈ other.entries) :
    map.get? key = other.get? key := by
  ext value
  rw [get?_eq_some, get?_eq_some, h]

/-- A map that has a value for the given keys consists of them and their values, in some order. -/
theorem entries_perm_map {map : EntryMap κ ν} {keys : List κ} {value : κ → ν} (hkeys : keys.Nodup)
    (h : ∀ key, map.get? key = if key ∈ keys then some (value key) else none) :
    map.entries.Perm (keys.map fun key ↦ (key, value key)) := by
  have hnodup : (keys.map fun key ↦ (key, value key)).Nodup :=
    hkeys.map fun a b hab ↦ congrArg Prod.fst hab
  refine (List.perm_ext_iff_of_nodup map.nodup.of_map hnodup).mpr fun entry ↦ ?_
  rw [← get?_eq_some, h]
  constructor
  · intro hget
    split at hget
    · rename_i hmem
      rw [List.mem_map]
      exact ⟨entry.1, hmem, by rw [Option.some.inj hget]⟩
    · contradiction
  · intro hmem
    obtain ⟨key, hkey, rfl⟩ := List.mem_map.mp hmem
    rw [if_pos hkey]

theorem get?_insert_self (map : EntryMap κ ν) (key : κ) (value : ν) :
    (map.insert key value).get? key = some value :=
  get?_eq_some.mpr List.mem_cons_self

theorem get?_insert_of_ne (map : EntryMap κ ν) {key other : κ} (value : ν) (hne : other ≠ key) :
    (map.insert key value).get? other = map.get? other :=
  get?_eq_of_mem_iff fun found ↦ by simp [insert, others, hne]

theorem get?_erase_self (map : EntryMap κ ν) (key : κ) : (map.erase key).get? key = none :=
  get?_eq_none.mpr (not_mem_others key map.entries)

theorem get?_erase_of_ne (map : EntryMap κ ν) {key other : κ} (hne : other ≠ key) :
    (map.erase key).get? other = map.get? other :=
  get?_eq_of_mem_iff fun found ↦ by simp [erase, others, hne]

/-- Forgetting keys one after the other leaves the other keys as they are. -/
theorem get?_foldl_erase (keys : List κ) (map : EntryMap κ ν) (key : κ) :
    (keys.foldl erase map).get? key = if key ∈ keys then none else map.get? key := by
  induction keys generalizing map with
  | nil => rw [List.foldl_nil, if_neg List.not_mem_nil]
  | cons first keys ih =>
    rw [List.foldl_cons, ih]
    by_cases heq : key = first
    · rw [heq, get?_erase_self, if_pos List.mem_cons_self, ite_self]
    · simp only [get?_erase_of_ne map heq, List.mem_cons, heq, false_or]

/-- Giving a new key a value adds the key, and an old key stays the only one of its kind. -/
theorem countP_keys_insert (p : κ → Bool) (map : EntryMap κ ν) (key : κ) (value : ν) :
    (map.insert key value).keys.countP p =
      map.keys.countP p + if key ∈ map.keys then 0 else if p key then 1 else 0 := by
  have hnodup : map.keys.Nodup := map.nodup
  have hkeys : (map.insert key value).keys = key :: map.keys.erase key := by
    rw [hnodup.erase_eq_filter]
    simp [keys, insert, others, List.filter_map, Function.comp_def, bne, BEq.beq]
  rw [hkeys]
  by_cases hmem : key ∈ map.keys
  · rw [if_pos hmem, Nat.add_zero]
    exact (List.perm_cons_erase hmem).symm.countP_eq p
  · rw [if_neg hmem, List.erase_of_not_mem hmem, List.countP_cons]

omit [DecidableEq κ]

/-- Keep the entries whose keys pass a test. -/
def retain (map : EntryMap κ ν) (test : κ → Bool) : EntryMap κ ν where
  entries := map.entries.filter fun entry ↦ test entry.1
  nodup := map.nodup.sublist (List.filter_sublist.map Prod.fst)

theorem keys_retain (map : EntryMap κ ν) (test : κ → Bool) :
    (map.retain test).keys = map.keys.filter test := by
  simp [keys, retain, List.filter_map, Function.comp_def]

theorem retain_retain (map : EntryMap κ ν) (test other : κ → Bool) :
    (map.retain test).retain other = (map.retain other).retain test := by
  apply EntryMap.ext
  simp only [retain, List.filter_filter, Bool.and_comm]

/-- Nothing is dropped that was dropped before. -/
theorem retain_retain_of_imp (map : EntryMap κ ν) {test other : κ → Bool}
    (h : ∀ key, test key = true → other key = true) :
    (map.retain other).retain test = map.retain test := by
  apply EntryMap.ext
  simp only [retain, List.filter_filter]
  refine List.filter_congr fun entry _ ↦ ?_
  cases htest : test entry.1 with
  | false => rfl
  | true => rw [h entry.1 htest, Bool.true_and]

section Retained

variable [DecidableEq κ] (map : EntryMap κ ν) {test : κ → Bool} {key : κ}

theorem retain_insert_of_pos (value : ν) (h : test key = true) :
    (map.insert key value).retain test = (map.retain test).insert key value := by
  apply EntryMap.ext
  simp only [retain, insert, others, List.filter_cons, h, if_true, List.filter_filter,
    Bool.and_comm]

theorem retain_insert_of_neg (value : ν) (h : test key = false) :
    (map.insert key value).retain test = map.retain test := by
  apply EntryMap.ext
  simp only [retain, insert, others, List.filter_cons, h, List.filter_filter]
  refine List.filter_congr fun entry _ ↦ ?_
  by_cases hentry : entry.1 = key
  · simp [hentry, h]
  · simp [hentry]

theorem retain_erase : (map.erase key).retain test = (map.retain test).erase key := by
  apply EntryMap.ext
  simp only [retain, erase, others, List.filter_filter, Bool.and_comm]

/-- Forgetting a key makes no difference to those that do not retain it. -/
theorem retain_erase_of_neg (h : test key = false) :
    (map.erase key).retain test = map.retain test := by
  apply EntryMap.ext
  simp only [retain, erase, others, List.filter_filter]
  refine List.filter_congr fun entry _ ↦ ?_
  by_cases hentry : entry.1 = key
  · simp [hentry, h]
  · simp [hentry]

theorem get?_retain (h : test key = true) : (map.retain test).get? key = map.get? key :=
  get?_eq_of_mem_iff fun found ↦ by simp [retain, h]

end Retained

end EntryMap

end MongoCore.Library
