import Mathlib.Data.List.Basic
import MongoCore.Library.EntryMap

/-!
# Folding entries into a map

Each entry changes the value that its key has in the map, which may fail.  What a key has in the end
depends on the values of this key alone, and nothing fails exactly if it does for no key.
-/

namespace MongoCore.Library.Grouping

variable {κ ν ι : Type*} [DecidableEq κ]

def valuesOf (key : κ) (entries : List (κ × ν)) : List ν :=
  (entries.filter fun entry ↦ entry.1 = key).map Prod.snd

/-- Change the value of a key by one value after another. -/
def updateAll (update : Option ι → ν → Option ι) : Option ι → List ν → Option (Option ι)
  | current, [] => some current
  | current, value :: values =>
      (update current value).bind fun next ↦ updateAll update (some next) values

/-- Change the value that the key of an entry has. -/
def record (update : Option ι → ν → Option ι) (map : EntryMap κ ι) (entry : κ × ν) :
    Option (EntryMap κ ι) :=
  (update (map.get? entry.1) entry.2).map (map.insert entry.1)

@[simp] theorem valuesOf_nil (key : κ) : valuesOf key ([] : List (κ × ν)) = [] := rfl

theorem valuesOf_cons_self (key : κ) (value : ν) (entries : List (κ × ν)) :
    valuesOf key ((key, value) :: entries) = value :: valuesOf key entries := by
  rw [valuesOf, List.filter_cons_of_pos (by simp)]
  rfl

theorem valuesOf_cons_of_ne {key other : κ} (hne : other ≠ key) (value : ν)
    (entries : List (κ × ν)) : valuesOf key ((other, value) :: entries) = valuesOf key entries := by
  rw [valuesOf, List.filter_cons_of_neg (by simpa using hne)]
  rfl

theorem valuesOf_append (key : κ) (entries others : List (κ × ν)) :
    valuesOf key (entries ++ others) = valuesOf key entries ++ valuesOf key others := by
  rw [valuesOf, List.filter_append, List.map_append]
  rfl

theorem valuesOf_flatMap {β : Type*} (key : κ) (entries : β → List (κ × ν)) (items : List β) :
    valuesOf key (items.flatMap entries) = items.flatMap fun item ↦ valuesOf key (entries item) := by
  induction items with
  | nil => rfl
  | cons item items ih => rw [List.flatMap_cons, List.flatMap_cons, valuesOf_append, ih]

theorem valuesOf_eq_nil {key : κ} {entries : List (κ × ν)} :
    valuesOf key entries = [] ↔ key ∉ entries.map Prod.fst := by
  rw [valuesOf, List.map_eq_nil_iff, List.filter_eq_nil_iff, List.mem_map]
  simp only [decide_eq_true_eq, not_exists, not_and]

/-- The keys may be renamed if the key keeps its name to itself. -/
theorem valuesOf_map {μ : Type*} [DecidableEq μ] (rename : κ → μ) {key : κ} {entries : List (κ × ν)}
    (hsame : ∀ entry ∈ entries, rename entry.1 = rename key → entry.1 = key) :
    valuesOf (rename key) (entries.map fun entry ↦ (rename entry.1, entry.2)) =
      valuesOf key entries := by
  induction entries with
  | nil => rfl
  | cons entry entries ih =>
    have hrest := ih fun other hother ↦ hsame other (List.mem_cons_of_mem entry hother)
    rw [List.map_cons]
    by_cases hkey : entry.1 = key
    · rw [hkey, valuesOf_cons_self, hrest, ← hkey, valuesOf_cons_self]
    · have hne : rename entry.1 ≠ rename key := mt (hsame entry List.mem_cons_self) hkey
      rw [valuesOf_cons_of_ne hne, hrest, valuesOf_cons_of_ne hkey]

variable {update : Option ι → ν → Option ι}

/-- What a key has in the end is what its own values make of it. -/
theorem updateAll_of_foldlM_record {map result : EntryMap κ ι} {entries : List (κ × ν)}
    (h : entries.foldlM (record update) map = some result) (key : κ) :
    updateAll update (map.get? key) (valuesOf key entries) = some (result.get? key) := by
  induction entries generalizing map with
  | nil =>
    obtain rfl : map = result := Option.some.inj h
    rfl
  | cons entry entries ih =>
    obtain ⟨name, value⟩ := entry
    rw [List.foldlM_cons] at h
    obtain ⟨middle, hmiddle, hrest⟩ := Option.bind_eq_some_iff.mp h
    obtain ⟨next, hnext, rfl⟩ := Option.map_eq_some_iff.mp hmiddle
    have hkey := ih hrest
    by_cases hname : name = key
    · subst hname
      rw [EntryMap.get?_insert_self] at hkey
      rw [valuesOf_cons_self, updateAll, hnext, Option.bind_some, hkey]
    · rw [EntryMap.get?_insert_of_ne map next (Ne.symm hname)] at hkey
      rw [valuesOf_cons_of_ne hname, hkey]

/-- The entries can be folded exactly if the values of each key can. -/
theorem exists_foldlM_record {map : EntryMap κ ι} {entries : List (κ × ν)} :
    (∃ result, entries.foldlM (record update) map = some result) ↔
      ∀ key, ∃ value, updateAll update (map.get? key) (valuesOf key entries) = some value := by
  constructor
  · rintro ⟨result, hresult⟩ key
    exact ⟨result.get? key, updateAll_of_foldlM_record hresult key⟩
  · intro h
    induction entries generalizing map with
    | nil => exact ⟨map, rfl⟩
    | cons entry entries ih =>
      obtain ⟨name, value⟩ := entry
      obtain ⟨last, hlast⟩ := h name
      rw [valuesOf_cons_self, updateAll] at hlast
      obtain ⟨next, hnext, hlast⟩ := Option.bind_eq_some_iff.mp hlast
      have hrecord : record update map (name, value) = some (map.insert name next) := by
        rw [record, hnext, Option.map_some]
      rw [List.foldlM_cons, hrecord]
      refine ih fun key ↦ ?_
      by_cases hname : name = key
      · subst hname
        rw [EntryMap.get?_insert_self]
        exact ⟨last, hlast⟩
      · obtain ⟨other, hother⟩ := h key
        rw [valuesOf_cons_of_ne hname] at hother
        rw [EntryMap.get?_insert_of_ne map next (Ne.symm hname)]
        exact ⟨other, hother⟩

end MongoCore.Library.Grouping
