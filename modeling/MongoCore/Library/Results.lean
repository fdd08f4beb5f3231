import Mathlib.Data.List.Forall2

/-!
# Computations that may fail

A computation over a list that fails at the first item it cannot convert succeeds exactly if each
item converts, and a sequence of two computations succeeds exactly if both do.
-/

namespace MongoCore.Library.Results

variable {ε α β : Type*}

/-- A sequence succeeds if the first computation does, and the rest with its value. -/
theorem bind_eq_ok {first : Except ε α} {rest : α → Except ε β} {result : β} :
    first.bind rest = .ok result ↔ ∃ value, first = .ok value ∧ rest value = .ok result := by
  cases first with
  | error error => simp [Except.bind]
  | ok value => simp [Except.bind]

/-- The conversion of a list succeeds if it succeeds for each item, in order. -/
theorem mapM_eq_ok {ε α β : Type} {convert : α → Except ε β} {items : List α} {values : List β} :
    items.mapM convert = .ok values ↔
      List.Forall₂ (fun item value ↦ convert item = .ok value) items values := by
  induction items generalizing values with
  | nil =>
    rw [List.mapM_nil, List.forall₂_nil_left_iff]
    exact Except.ok.injEq [] values ▸ eq_comm
  | cons item items ih =>
    rw [List.mapM_cons, List.forall₂_cons_left_iff]
    constructor
    · intro h
      obtain ⟨value, hitem, h⟩ := bind_eq_ok.mp h
      obtain ⟨rest, hrest, h⟩ := bind_eq_ok.mp h
      exact ⟨value, rest, hitem, ih.mp hrest, (Except.ok.inj h).symm⟩
    · rintro ⟨value, rest, hitem, hrest, rfl⟩
      exact bind_eq_ok.mpr ⟨value, hitem, bind_eq_ok.mpr ⟨rest, ih.mpr hrest, rfl⟩⟩

/-- The conversion of a list succeeds only if it does for each item. -/
theorem exists_of_mapM_eq_ok {ε α β : Type} {convert : α → Except ε β} {items : List α}
    {values : List β} (h : items.mapM convert = .ok values) {item : α} (hitem : item ∈ items) :
    ∃ value, convert item = .ok value := by
  induction mapM_eq_ok.mp h with
  | nil => exact absurd hitem List.not_mem_nil
  | @cons first value items values hfirst hrest ih =>
    rcases List.mem_cons.mp hitem with rfl | hitem
    · exact ⟨value, hfirst⟩
    · exact ih (mapM_eq_ok.mpr hrest) hitem

/-- The conversion of a list fails with the error of one of its items. -/
theorem exists_of_mapM_eq_error {ε α β : Type} {convert : α → Except ε β} {items : List α}
    {error : ε} (h : items.mapM convert = .error error) :
    ∃ item ∈ items, convert item = .error error := by
  induction items with
  | nil => cases h
  | cons item items ih =>
    rw [List.mapM_cons] at h
    cases hitem : convert item with
    | error other =>
      rw [hitem] at h
      cases h
      exact ⟨item, List.mem_cons_self, hitem⟩
    | ok value =>
      cases hrest : items.mapM convert with
      | error other =>
        rw [hitem, hrest] at h
        cases h
        obtain ⟨found, hfound, herror⟩ := ih hrest
        exact ⟨found, List.mem_cons_of_mem item hfound, herror⟩
      | ok values =>
        rw [hitem, hrest] at h
        cases h

/-! ## Optional values -/

/-- All items have a value if each of them does, in order. -/
theorem mapM_eq_some {α β : Type} {convert : α → Option β} {items : List α} {values : List β} :
    items.mapM convert = some values ↔
      List.Forall₂ (fun item value ↦ convert item = some value) items values := by
  induction items generalizing values with
  | nil =>
    rw [List.mapM_nil, List.forall₂_nil_left_iff]
    exact Option.some.injEq [] values ▸ eq_comm
  | cons item items ih =>
    rw [List.mapM_cons, List.forall₂_cons_left_iff]
    constructor
    · intro h
      obtain ⟨value, hitem, h⟩ := Option.bind_eq_some_iff.mp h
      obtain ⟨rest, hrest, h⟩ := Option.bind_eq_some_iff.mp h
      exact ⟨value, rest, hitem, ih.mp hrest, (Option.some.inj h).symm⟩
    · rintro ⟨value, rest, hitem, hrest, rfl⟩
      exact Option.bind_eq_some_iff.mpr ⟨value, hitem,
        Option.bind_eq_some_iff.mpr ⟨rest, ih.mpr hrest, rfl⟩⟩

/-- All items have a value if each of them is read as it is converted. -/
theorem mapM_eq_some_map {α β : Type} {convert : α → Option β} {read : α → β} {items : List α}
    (h : ∀ item ∈ items, convert item = some (read item)) :
    items.mapM convert = some (items.map read) :=
  mapM_eq_some.mpr (List.forall₂_map_right_iff.mpr (List.forall₂_same.mpr h))

/-- All items have a value only if each of them does. -/
theorem exists_of_mapM_eq_some {α β : Type} {convert : α → Option β} {items : List α}
    {values : List β} (h : items.mapM convert = some values) {item : α} (hitem : item ∈ items) :
    ∃ value, convert item = some value := by
  induction mapM_eq_some.mp h with
  | nil => exact absurd hitem List.not_mem_nil
  | @cons first value items values hfirst hrest ih =>
    rcases List.mem_cons.mp hitem with rfl | hitem
    · exact ⟨value, hfirst⟩
    · exact ih (mapM_eq_some.mpr hrest) hitem

/-- A total reading agrees with an optional one where all items have a value. -/
theorem map_eq_of_mapM_eq_some {α β : Type} {convert : α → Option β} {read : α → β}
    (hread : ∀ item value, convert item = some value → read item = value) {items : List α}
    {values : List β} (h : items.mapM convert = some values) : items.map read = values := by
  induction mapM_eq_some.mp h with
  | nil => rfl
  | cons hitem _ ih =>
    rename_i item value items values hrest
    rw [List.map_cons, hread item value hitem, ih (mapM_eq_some.mpr hrest)]

/-- Nothing is dropped where all items have a value. -/
theorem filterMap_eq_of_mapM_eq_some {α β : Type} {convert : α → Option β} {items : List α}
    {values : List β} (h : items.mapM convert = some values) : items.filterMap convert = values := by
  induction mapM_eq_some.mp h with
  | nil => rfl
  | cons hitem _ ih =>
    rename_i hrest
    rw [List.filterMap_cons, hitem, ih (mapM_eq_some.mpr hrest)]

end MongoCore.Library.Results
