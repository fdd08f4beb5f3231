import Mathlib.Data.List.Basic

/-!
# Scanning a text for matches

A scan goes over a text from the left and finds the matches that do not overlap.  How long the match
is that begins at a place depends on the text that follows, and on what stands right before.  The
result is a list of cells, each of which is a match or a single item between matches.

`Scan` is the relation between a text and its cells.  It is by induction over it that facts about
scans are proved.
-/

namespace MongoCore.Library.Scanning

variable {τ : Type*}

/-- A match, or an item that does not belong to one. -/
inductive Cell (τ : Type*) where
  | kept (item : τ)
  | found (items : List τ)

def Cell.items : Cell τ → List τ
  | .kept item => [item]
  | .found items => items

def Cell.found? : Cell τ → Option (List τ)
  | .kept _ => none
  | .found items => some items

def matchesOf (cells : List (Cell τ)) : List (List τ) := cells.filterMap Cell.found?

@[simp] theorem matchesOf_nil : matchesOf ([] : List (Cell τ)) = [] := rfl

@[simp] theorem matchesOf_kept (item : τ) (cells : List (Cell τ)) :
    matchesOf (.kept item :: cells) = matchesOf cells := rfl

@[simp] theorem matchesOf_found (items : List τ) (cells : List (Cell τ)) :
    matchesOf (.found items :: cells) = items :: matchesOf cells := rfl

@[simp] theorem matchesOf_append (front back : List (Cell τ)) :
    matchesOf (front ++ back) = matchesOf front ++ matchesOf back := List.filterMap_append ..

@[simp] theorem matchesOf_map_kept (items : List τ) : matchesOf (items.map Cell.kept) = [] := by
  induction items with
  | nil => rfl
  | cons item items ih => exact ih

variable (length : Option τ → List τ → ℕ)

/-- The cells of a text after an item, where so many items belong to a match that began before. -/
def cellsFrom : Option τ → ℕ → List τ → List (Cell τ)
  | _, _, [] => []
  | _, skip + 1, item :: rest => cellsFrom (some item) skip rest
  | previous, 0, item :: rest =>
      match length previous (item :: rest) with
      | 0 => .kept item :: cellsFrom (some item) 0 rest
      | count + 1 => .found (item :: rest.take count) :: cellsFrom (some item) count rest

def cells (text : List τ) : List (Cell τ) := cellsFrom length none 0 text

inductive Scan : Option τ → List τ → List (Cell τ) → Prop
  | nil {previous} : Scan previous [] []
  | kept {previous item rest cells} : length previous (item :: rest) = 0 →
      Scan (some item) rest cells → Scan previous (item :: rest) (.kept item :: cells)
  | found {previous items rest cells} : items ≠ [] →
      length previous (items ++ rest) = items.length → Scan items.getLast? rest cells →
      Scan previous (items ++ rest) (.found items :: cells)

variable {length}

theorem Scan.items {previous : Option τ} {text : List τ} {cells : List (Cell τ)}
    (h : Scan length previous text cells) : cells.flatMap Cell.items = text := by
  induction h with
  | nil => rfl
  | kept _ _ ih => exact congrArg _ ih
  | found _ _ _ ih => exact congrArg _ ih

theorem cellsFrom_append {items : List τ} (hne : items ≠ []) (previous : Option τ)
    (rest : List τ) : cellsFrom length previous items.length (items ++ rest) =
      cellsFrom length items.getLast? 0 rest := by
  induction items generalizing previous with
  | nil => exact absurd rfl hne
  | cons item items ih =>
    rw [List.cons_append, List.length_cons, cellsFrom]
    cases items with
    | nil => rfl
    | cons next items =>
      rw [ih (List.cons_ne_nil next items), List.getLast?_cons_cons]

/-- A text has no other cells. -/
theorem Scan.eq_cellsFrom {previous : Option τ} {text : List τ} {cells : List (Cell τ)}
    (h : Scan length previous text cells) : cellsFrom length previous 0 text = cells := by
  induction h with
  | nil => rfl
  | kept hlength _ ih => rw [cellsFrom, hlength, ← ih]
  | @found previous items rest cells hne hlength _ ih =>
    cases items with
    | nil => exact absurd rfl hne
    | cons item items =>
      rw [List.cons_append] at hlength ⊢
      rw [cellsFrom, hlength, List.length_cons]
      dsimp only
      rw [List.take_left]
      cases items with
      | nil => rw [List.nil_append, ← ih]; rfl
      | cons next items =>
        rw [cellsFrom_append (List.cons_ne_nil next items), ← ih, List.getLast?_cons_cons]

/-- Where no match is longer than the text, every text has its cells. -/
theorem scan_cellsFrom (hlength : ∀ previous text, length previous text ≤ text.length)
    (previous : Option τ) (text : List τ) :
    Scan length previous text (cellsFrom length previous 0 text) := by
  induction hsize : text.length using Nat.strongRecOn generalizing previous text with
  | ind size ih =>
    cases text with
    | nil => exact .nil
    | cons item rest =>
      subst hsize
      cases hcount : length previous (item :: rest) with
      | zero =>
        have hrest := ih rest.length (Nat.lt_succ_self _) (some item) rest rfl
        have hscan := Scan.kept hcount hrest
        rw [hscan.eq_cellsFrom]
        exact hscan
      | succ count =>
        have hle := hlength previous (item :: rest)
        rw [hcount, List.length_cons, Nat.succ_le_succ_iff] at hle
        have hsplit : item :: rest = (item :: rest.take count) ++ rest.drop count := by
          rw [List.cons_append, List.take_append_drop]
        have htake : (item :: rest.take count).length = count + 1 := by
          rw [List.length_cons, List.length_take_of_le hle]
        rw [hsplit] at hcount ⊢
        have hshort : (rest.drop count).length < (item :: rest).length := by
          rw [List.length_drop, List.length_cons]
          omega
        have hscan := Scan.found (List.cons_ne_nil _ _) (hcount.trans htake.symm)
          (ih _ hshort (item :: rest.take count).getLast? (rest.drop count) rfl)
        rw [hscan.eq_cellsFrom]
        exact hscan

/-- What the scan keeps item by item is kept in front of any other cells. -/
theorem Scan.kept_append {items rest : List τ} {cells : List (Cell τ)} {previous : Option τ}
    (hkept : ∀ front item back, items = front ++ item :: back →
      length (front.getLast?.or previous) (item :: back ++ rest) = 0)
    (h : Scan length (items.getLast?.or previous) rest cells) :
    Scan length previous (items ++ rest) (items.map Cell.kept ++ cells) := by
  induction items generalizing previous with
  | nil => exact h
  | cons item items ih =>
    refine .kept (hkept [] item items rfl) (ih (fun front other back hitems ↦ ?_) ?_)
    · have hother := hkept (item :: front) other back (by rw [hitems, List.cons_append])
      rw [List.getLast?_cons] at hother
      cases hlast : front.getLast? <;> simpa [hlast] using hother
    · rw [List.getLast?_cons] at h
      cases hlast : items.getLast? <;> simpa [hlast] using h

/-- What holds of the items at every place where a match has their length holds of all matches. -/
theorem Scan.forall_matches {good : List τ → Prop} {previous : Option τ} {text : List τ}
    {cells : List (Cell τ)} (h : Scan length previous text cells)
    (hgood : ∀ before items rest, items ≠ [] → length before (items ++ rest) = items.length →
      good items) : ∀ items ∈ matchesOf cells, good items := by
  induction h with
  | nil => exact fun _ hitems ↦ absurd hitems List.not_mem_nil
  | kept _ _ ih => exact ih
  | found hne hlength _ ih => exact List.forall_mem_cons.mpr ⟨hgood _ _ _ hne hlength, ih⟩

end MongoCore.Library.Scanning
