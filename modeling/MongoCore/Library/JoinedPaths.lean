import Mathlib.Data.List.Basic

/-!
# Paths of names that are joined to one text

Each name is put behind a separator, unless nothing stands before it.  Names may contain the
separator, so paths can have one text: those that separators part in the same way, apart from empty
names in front.
-/

namespace MongoCore.Library.JoinedPaths

variable {α : Type*} {separator : α}

def extend (separator : α) (path name : List α) : List α :=
  if path = [] then name else path ++ separator :: name

def joined (separator : α) (names : List (List α)) : List α := names.foldl (extend separator) []

/-- What separators part the names of a path into, without empty names in front. -/
def parts [DecidableEq α] (separator : α) (names : List (List α)) : List (List α) :=
  (names.dropWhile List.isEmpty).flatMap (List.splitOn separator)

/-- Behind a text that is not empty, each name follows a separator. -/
theorem foldl_extend {path : List α} (hpath : path ≠ []) (names : List (List α)) :
    names.foldl (extend separator) path = path ++ names.flatMap (separator :: ·) := by
  induction names generalizing path with
  | nil => rw [List.foldl_nil, List.flatMap_nil, List.append_nil]
  | cons name names ih =>
    rw [List.foldl_cons, extend, if_neg hpath, ih (by simp), List.flatMap_cons, List.append_assoc]

variable [DecidableEq α]

/-- The separators in the names and those between them part the text in one way. -/
theorem splitOn_append_flatMap (name : List α) (names : List (List α)) :
    (name ++ names.flatMap (separator :: ·)).splitOn separator =
      (name :: names).flatMap (List.splitOn separator) := by
  induction names generalizing name with
  | nil => rw [List.flatMap_nil, List.append_nil, List.flatMap_singleton]
  | cons other names ih =>
    calc
      _ = (name ++ separator :: (other ++ names.flatMap (separator :: ·))).splitOn separator := rfl
      _ = name.splitOn separator ++ (other :: names).flatMap (List.splitOn separator) := by
        rw [List.splitOn_append_cons_self, ih]
      _ = _ := List.flatMap_cons.symm

/-- The parts of a path are those of its text, unless this is empty. -/
theorem parts_eq (names : List (List α)) :
    parts separator names =
      if joined separator names = [] then [] else (joined separator names).splitOn separator := by
  induction names with
  | nil => rfl
  | cons name names ih =>
    cases name with
    | nil => exact ih
    | cons c name =>
      have htext : joined separator ((c :: name) :: names) =
          (c :: name) ++ names.flatMap (separator :: ·) :=
        foldl_extend (List.cons_ne_nil c name) names
      rw [htext, if_neg (by simp), splitOn_append_flatMap]
      rfl

/-- Paths have one text exactly if they have the same parts. -/
theorem joined_eq_joined_iff {names others : List (List α)} :
    joined separator names = joined separator others ↔
      parts separator names = parts separator others := by
  rw [parts_eq, parts_eq]
  constructor
  · intro h
    rw [h]
  · intro h
    by_cases hempty : joined separator names = []
    · rw [if_pos hempty] at h
      by_contra hne
      have hother : joined separator others ≠ [] := fun hother ↦ hne (hempty.trans hother.symm)
      rw [if_neg hother] at h
      exact List.splitOn_ne_nil separator _ h.symm
    · rw [if_neg hempty] at h
      have hother : joined separator others ≠ [] := fun hother ↦ by
        rw [if_pos hother] at h
        exact List.splitOn_ne_nil separator _ h
      rw [if_neg hother] at h
      calc
        joined separator names = [separator].intercalate ((joined separator names).splitOn separator) :=
          (List.intercalate_splitOn separator).symm
        _ = joined separator others := by rw [h, List.intercalate_splitOn]

end MongoCore.Library.JoinedPaths
