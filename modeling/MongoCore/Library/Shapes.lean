import Mathlib.Data.List.Basic
import Mathlib.Data.Set.Basic
import Mathlib.Logic.Embedding.Basic

/-!
# Spelling nested records

A shape is a name, a list with at most one item, or a record of keys and shapes.  It is spelled
with brackets, braces, colons and commas, and nothing in a key is escaped.

The main result says that a text spells one shape only, if keys consist of letters that cannot be
taken for a boundary.  `Collides` lists the combinations of letters for which that fails.
-/

namespace MongoCore.Library.Shapes

/-- What is left of a value when only its structure counts. -/
inductive Shape (α : Type*) where
  | leaf (name : List α)
  | emptyList
  | list (item : Shape α)
  | record (fields : List (List α × Shape α))

/-- The letters that a spelling puts around names and keys. -/
inductive Mark where
  | openRecord
  | closeRecord
  | openList
  | closeList
  | colon
  | comma
  deriving DecidableEq

variable {α : Type*} (marks : Mark ↪ α)

mutual

def spell : Shape α → List α
  | .leaf name => name
  | .emptyList => [marks .openList, marks .closeList]
  | .list item => marks .openList :: (spell item ++ [marks .closeList])
  | .record fields =>
      marks .openRecord :: ([marks .comma].intercalate (spellFields fields) ++ [marks .closeRecord])

def spellFields : List (List α × Shape α) → List (List α)
  | [] => []
  | (key, value) :: fields => (key ++ marks .colon :: spell value) :: spellFields fields

end

mutual

/-- The leaves of a shape have given names, and its keys consist of given letters. -/
def Shape.Over (names : Set (List α)) (allowed : Set α) : Shape α → Prop
  | .leaf name => name ∈ names
  | .emptyList => True
  | .list item => item.Over names allowed
  | .record fields => FieldsOver names allowed fields

def FieldsOver (names : Set (List α)) (allowed : Set α) : List (List α × Shape α) → Prop
  | [] => True
  | (key, value) :: fields =>
      (∀ c ∈ key, c ∈ allowed) ∧ value.Over names allowed ∧ FieldsOver names allowed fields

end

theorem fieldsOver_iff {names : Set (List α)} {allowed : Set α} {fields : List (List α × Shape α)} :
    FieldsOver names allowed fields ↔
      ∀ field ∈ fields, (∀ c ∈ field.1, c ∈ allowed) ∧ field.2.Over names allowed := by
  induction fields with
  | nil => simp [FieldsOver]
  | cons field fields ih => simp [FieldsOver, ih, and_assoc]

/-- The letters of the keys can be taken for a boundary.  A key that has a colon can be cut there if
what follows may be read as a value up to the next key, and an empty record can be taken for the
start of a key. -/
def Collides (names : Set (List α)) (allowed : Set α) : Prop :=
  (marks .colon ∈ allowed ∧ marks .openRecord ∈ allowed) ∨
    (marks .comma ∈ allowed ∧ marks .closeRecord ∈ allowed) ∨
    (marks .colon ∈ allowed ∧ marks .comma ∈ allowed ∧
      ((marks .openList ∈ allowed ∧ marks .closeList ∈ allowed) ∨
        ∃ name ∈ names, ∀ c ∈ name, c ∈ allowed))

/-! ## What follows a shape -/

/-- What may follow a shape: the next field or the end of what encloses it. -/
structure Boundary (rest : List α) : Prop where
  head : ∀ c ∈ rest.head?, c = marks .comma ∨ c = marks .closeRecord ∨ c = marks .closeList
  comma_of_colon : ∀ front back, rest = front ++ marks .colon :: back → marks .comma ∈ front

variable {marks}

theorem boundary_nil : Boundary marks [] where
  head := by simp
  comma_of_colon := by simp

/-- Up to the next key there is a comma. -/
theorem boundary_comma (rest : List α) : Boundary marks (marks .comma :: rest) where
  head := by simp
  comma_of_colon front back h := by
    cases front with
    | nil => exact absurd (List.cons.inj h).1 (by simp)
    | cons first front =>
      rw [(List.cons.inj h).1]
      exact List.mem_cons_self

theorem Boundary.close {rest : List α} (hrest : Boundary marks rest) {mark : Mark}
    (hmark : mark = .closeRecord ∨ mark = .closeList) : Boundary marks (marks mark :: rest) where
  head := by simpa using .inr hmark
  comma_of_colon front back h := by
    cases front with
    | nil =>
      have hcolon : mark = .colon := marks.injective (List.cons.inj h).1
      rcases hmark with rfl | rfl <;> exact absurd hcolon (by decide)
    | cons first front =>
      exact List.mem_cons_of_mem _ (hrest.comma_of_colon front back (List.cons.inj h).2)

/-- The fields behind the first one, each with the comma in front of it. -/
def moreFields (marks : Mark ↪ α) (fields : List (List α × Shape α)) : List α :=
  (spellFields marks fields).flatMap (marks .comma :: ·)

@[simp] theorem moreFields_nil : moreFields marks [] = [] := rfl

theorem moreFields_cons (key : List α) (value : Shape α) (fields : List (List α × Shape α)) :
    moreFields marks ((key, value) :: fields) =
      marks .comma :: (key ++ marks .colon :: (spell marks value ++ moreFields marks fields)) := by
  simp [moreFields, spellFields]

theorem intercalate_cons (first : List α) (texts : List (List α)) (c : α) :
    [c].intercalate (first :: texts) = first ++ texts.flatMap (c :: ·) := by
  induction texts generalizing first with
  | nil => simp
  | cons second texts ih =>
    rw [List.intercalate_cons_cons, ih, List.flatMap_cons]
    simp only [List.append_assoc, List.cons_append, List.nil_append]

theorem spell_record_nil : spell marks (.record []) = [marks .openRecord, marks .closeRecord] := by
  simp [spell, spellFields]

theorem spell_record_cons (key : List α) (value : Shape α) (fields : List (List α × Shape α)) :
    spell marks (.record ((key, value) :: fields)) =
      marks .openRecord :: (key ++ marks .colon :: (spell marks value ++
        (moreFields marks fields ++ [marks .closeRecord]))) := by
  simp [spell, spellFields, intercalate_cons, moreFields]

/-- Behind the value of a field there is a boundary. -/
theorem boundary_moreFields (fields : List (List α × Shape α)) {rest : List α}
    (hrest : Boundary marks rest) :
    Boundary marks (moreFields marks fields ++ marks .closeRecord :: rest) := by
  cases fields with
  | nil => exact hrest.close (.inl rfl)
  | cons field fields =>
    rw [moreFields_cons]
    exact boundary_comma _

/-! ## Reading a shape -/

section Reading

variable {names : Set (List α)} {allowed : Set α}

def Apart (marks : Mark ↪ α) (names : Set (List α)) : Prop :=
  ∀ name ∈ names, name ≠ [] ∧ ∀ mark, marks mark ∉ name

/-- In a shape an opening brace comes before the first colon. -/
theorem openRecord_before_colon (hnames : Apart marks names) :
    ∀ shape : Shape α, shape.Over names allowed → marks .colon ∉ spell marks shape ∨
      ∃ front back, spell marks shape = front ++ marks .openRecord :: back ∧ marks .colon ∉ front
  | .leaf name, hover => .inl ((hnames name hover).2 _)
  | .emptyList, _ => .inl (by simp [spell])
  | .list item, hover => by
    rcases openRecord_before_colon hnames item hover with hnone | ⟨front, back, hspell, hfront⟩
    · exact .inl (by simp [spell, hnone])
    · exact .inr ⟨marks .openList :: front, back ++ [marks .closeList], by simp [spell, hspell],
        by simp [hfront]⟩
  | .record fields, _ => .inr ⟨[], _, rfl, List.not_mem_nil⟩

/-- What a key needs to have letters of if a whole value can be read in it. -/
theorem letters_of_value : ∀ shape : Shape α, shape.Over names allowed →
    (∀ c ∈ spell marks shape, c ∈ allowed) → marks .openRecord ∈ allowed ∨
      (marks .openList ∈ allowed ∧ marks .closeList ∈ allowed) ∨
        ∃ name ∈ names, ∀ c ∈ name, c ∈ allowed
  | .leaf name, hover, hall => .inr (.inr ⟨name, hover, hall⟩)
  | .emptyList, _, hall => .inr (.inl ⟨hall _ (by simp [spell]), hall _ (by simp [spell])⟩)
  | .list item, _, hall => .inr (.inl ⟨hall _ (by simp [spell]), hall _ (by simp [spell])⟩)
  | .record fields, _, hall => .inl (hall _ (by simp [spell]))

/-- A key cannot go on behind the colon of another one. -/
theorem not_longer_key (hnames : Apart marks names) (hsafe : ¬ Collides marks names allowed)
    {value : Shape α} (hvalue : value.Over names allowed) {rest : List α}
    (hrest : Boundary marks rest) {more back : List α}
    (hallowed : ∀ c ∈ marks .colon :: more, c ∈ allowed) :
    spell marks value ++ rest ≠ more ++ marks .colon :: back := by
  intro heq
  have hcolon : marks .colon ∈ allowed := hallowed _ List.mem_cons_self
  have hmore : ∀ c ∈ more, c ∈ allowed := fun c hc ↦ hallowed c (List.mem_cons_of_mem _ hc)
  have hopen : marks .openRecord ∉ allowed := fun hopen ↦ hsafe (.inl ⟨hcolon, hopen⟩)
  rcases openRecord_before_colon hnames value hvalue with hnone | ⟨front, behind, hspell, hfront⟩
  · -- the value has no colon, so it lies within the longer key
    rcases List.append_eq_append_iff.mp heq with ⟨inner, hinner, htail⟩ | ⟨inner, hinner, htail⟩
    · have hcomma : marks .comma ∈ more := hinner ▸
        List.mem_append_right _ (hrest.comma_of_colon inner back htail)
      have hletters := letters_of_value value hvalue fun c hc ↦
        hmore c (hinner ▸ List.mem_append_left _ hc)
      exact hsafe (.inr (.inr ⟨hcolon, hmore _ hcomma, hletters.resolve_left hopen⟩))
    · cases inner with
      | nil =>
        rw [List.nil_append] at htail
        exact List.not_mem_nil (hrest.comma_of_colon [] back htail.symm)
      | cons first inner =>
        refine hnone (hinner ▸ List.mem_append_right _ ?_)
        rw [(List.cons.inj htail).1]
        exact List.mem_cons_self
  · -- the value has a brace in front of its first colon, but the longer key has none
    rw [hspell, List.append_assoc, List.cons_append] at heq
    rcases List.append_eq_append_iff.mp heq with ⟨inner, hinner, htail⟩ | ⟨inner, hinner, htail⟩
    · cases inner with
      | nil => exact absurd (List.cons.inj htail).1 (by simp)
      | cons first inner =>
        refine hopen (hmore _ (hinner ▸ List.mem_append_right _ ?_))
        rw [(List.cons.inj htail).1]
        exact List.mem_cons_self
    · cases inner with
      | nil => exact absurd (List.cons.inj htail).1 (by simp)
      | cons first inner =>
        refine hfront (hinner ▸ List.mem_append_right _ ?_)
        rw [(List.cons.inj htail).1]
        exact List.mem_cons_self

/-- Keys in front of a colon and a value are the same. -/
theorem key_unique (hnames : Apart marks names) (hsafe : ¬ Collides marks names allowed)
    {key other : List α} (hkey : ∀ c ∈ key, c ∈ allowed) (hother : ∀ c ∈ other, c ∈ allowed)
    {value otherValue : Shape α} (hvalue : value.Over names allowed)
    (hotherValue : otherValue.Over names allowed) {rest otherRest : List α}
    (hrest : Boundary marks rest) (hotherRest : Boundary marks otherRest)
    (heq : key ++ marks .colon :: (spell marks value ++ rest) =
      other ++ marks .colon :: (spell marks otherValue ++ otherRest)) :
    key = other ∧ spell marks value ++ rest = spell marks otherValue ++ otherRest := by
  rcases List.append_eq_append_iff.mp heq with ⟨inner, hinner, htail⟩ | ⟨inner, hinner, htail⟩
  · cases inner with
    | nil => exact ⟨by simpa using hinner.symm, (List.cons.inj htail).2⟩
    | cons first inner =>
      obtain ⟨hfirst, hlonger⟩ := List.cons.inj htail
      refine absurd hlonger (not_longer_key hnames hsafe hvalue hrest fun c hc ↦ ?_)
      exact hother c (hinner ▸ List.mem_append_right _ (hfirst ▸ hc))
  · cases inner with
    | nil => exact ⟨by simpa using hinner, (List.cons.inj htail).2.symm⟩
    | cons first inner =>
      obtain ⟨hfirst, hlonger⟩ := List.cons.inj htail
      refine absurd hlonger (not_longer_key hnames hsafe hotherValue hotherRest fun c hc ↦ ?_)
      exact hkey c (hinner ▸ List.mem_append_right _ (hfirst ▸ hc))

theorem leaf_ne_mark (hnames : Apart marks names) {name : List α} (hname : name ∈ names)
    (mark : Mark) (rest back : List α) : name ++ rest ≠ marks mark :: back := by
  obtain ⟨hne, hmarks⟩ := hnames name hname
  cases name with
  | nil => exact absurd rfl hne
  | cons first name =>
    intro heq
    exact hmarks mark ((List.cons.inj heq).1 ▸ List.mem_cons_self)

theorem leaf_unique (hnames : Apart marks names) {name other : List α} (hname : name ∈ names)
    (hother : other ∈ names) {rest otherRest : List α} (hrest : Boundary marks rest)
    (hotherRest : Boundary marks otherRest) (heq : name ++ rest = other ++ otherRest) :
    name = other ∧ rest = otherRest := by
  -- a longer name would go on with the mark behind the shorter one
  have hmark : ∀ {longer : List α}, longer ∈ names → ∀ {first : α} {inner back : List α},
      Boundary marks (first :: back) → first :: inner <:+ longer → False := by
    intro longer hlonger first inner back hboundary hsuffix
    have hnot := (hnames longer hlonger).2
    rcases hboundary.head first rfl with rfl | rfl | rfl <;>
      exact hnot _ (hsuffix.mem List.mem_cons_self)
  rcases List.append_eq_append_iff.mp heq with ⟨inner, hinner, htail⟩ | ⟨inner, hinner, htail⟩
  · cases inner with
    | nil => exact ⟨by simpa using hinner.symm, htail⟩
    | cons first inner =>
      rw [htail] at hrest
      exact (hmark hother hrest (hinner ▸ List.suffix_append _ _)).elim
  · cases inner with
    | nil => exact ⟨by simpa using hinner, htail.symm⟩
    | cons first inner =>
      rw [htail] at hotherRest
      exact (hmark hname hotherRest (hinner ▸ List.suffix_append _ _)).elim

/-- No shape is spelled with a mark at the front that does not open anything. -/
theorem spell_ne_mark (hnames : Apart marks names) {shape : Shape α} (hover : shape.Over names allowed)
    {mark : Mark} (hlist : mark ≠ .openList) (hrecord : mark ≠ .openRecord) (rest back : List α) :
    spell marks shape ++ rest ≠ marks mark :: back := by
  cases shape with
  | leaf name => exact leaf_ne_mark hnames hover mark rest back
  | emptyList => simp [spell, hlist.symm]
  | list item => simp [spell, hlist.symm]
  | record fields => simp [spell, hrecord.symm]

/-- An empty record is not taken for one with a key. -/
theorem close_ne_key (hsafe : ¬ Collides marks names allowed) {key : List α}
    (hkey : ∀ c ∈ key, c ∈ allowed) {rest : List α} (hrest : Boundary marks rest) (back : List α) :
    marks .closeRecord :: rest ≠ key ++ marks .colon :: back := by
  intro heq
  cases key with
  | nil => exact absurd (List.cons.inj heq).1 (by simp)
  | cons first key =>
    obtain ⟨hfirst, htail⟩ := List.cons.inj heq
    refine hsafe (.inr (.inl ⟨hkey _ ?_, hkey _ (hfirst ▸ List.mem_cons_self)⟩))
    exact List.mem_cons_of_mem _ (hrest.comma_of_colon key back htail)

mutual

/-- Two shapes with the same spelling are the same, whatever follows them. -/
theorem spell_unique (hnames : Apart marks names) (hsafe : ¬ Collides marks names allowed) :
    ∀ (shape other : Shape α) (rest otherRest : List α), shape.Over names allowed →
      other.Over names allowed → Boundary marks rest → Boundary marks otherRest →
      spell marks shape ++ rest = spell marks other ++ otherRest →
      shape = other ∧ rest = otherRest
  | .leaf name, .leaf other, rest, otherRest, hover, hother, hrest, hotherRest, heq => by
    obtain ⟨rfl, hrests⟩ := leaf_unique hnames hover hother hrest hotherRest heq
    exact ⟨rfl, hrests⟩
  | .leaf name, .emptyList, rest, otherRest, hover, _, _, _, heq =>
    absurd heq (leaf_ne_mark hnames hover _ _ _)
  | .leaf name, .list item, rest, otherRest, hover, _, _, _, heq =>
    absurd heq (leaf_ne_mark hnames hover _ _ _)
  | .leaf name, .record fields, rest, otherRest, hover, _, _, _, heq =>
    absurd heq (leaf_ne_mark hnames hover _ _ _)
  | .emptyList, .leaf name, rest, otherRest, _, hother, _, _, heq =>
    absurd heq.symm (leaf_ne_mark hnames hother _ _ _)
  | .emptyList, .emptyList, rest, otherRest, _, _, _, _, heq => by
    exact ⟨rfl, by simpa [spell] using heq⟩
  | .emptyList, .list item, rest, otherRest, _, hother, _, _, heq => by
    simp only [spell, List.cons_append, List.append_assoc, List.cons.injEq, true_and] at heq
    have hitem : item.Over names allowed := hother
    exact absurd heq.symm (spell_ne_mark hnames hitem (by decide) (by decide) _ _)
  | .emptyList, .record fields, rest, otherRest, _, _, _, _, heq => by simp [spell] at heq
  | .list item, .leaf name, rest, otherRest, _, hother, _, _, heq =>
    absurd heq.symm (leaf_ne_mark hnames hother _ _ _)
  | .list item, .emptyList, rest, otherRest, hover, _, _, _, heq => by
    simp only [spell, List.cons_append, List.append_assoc, List.cons.injEq, true_and] at heq
    have hitem : item.Over names allowed := hover
    exact absurd heq (spell_ne_mark hnames hitem (by decide) (by decide) _ _)
  | .list item, .list other, rest, otherRest, hover, hother, hrest, hotherRest, heq => by
    simp only [spell, List.cons_append, List.append_assoc, List.cons.injEq, true_and] at heq
    obtain ⟨rfl, hrests⟩ := spell_unique hnames hsafe item other _ _ hover hother
      (hrest.close (.inr rfl)) (hotherRest.close (.inr rfl)) heq
    exact ⟨rfl, (List.cons.inj hrests).2⟩
  | .list item, .record fields, rest, otherRest, _, _, _, _, heq => by simp [spell] at heq
  | .record fields, .leaf name, rest, otherRest, _, hother, _, _, heq =>
    absurd heq.symm (leaf_ne_mark hnames hother _ _ _)
  | .record fields, .emptyList, rest, otherRest, _, _, _, _, heq => by simp [spell] at heq
  | .record fields, .list item, rest, otherRest, _, _, _, _, heq => by simp [spell] at heq
  | .record [], .record [], rest, otherRest, _, _, _, _, heq => by
    exact ⟨rfl, by simpa [spell_record_nil] using heq⟩
  | .record [], .record ((key, value) :: fields), rest, otherRest, _, hother, hrest, _, heq => by
    rw [spell_record_nil, spell_record_cons] at heq
    simp only [List.cons_append, List.append_assoc, List.cons.injEq, true_and] at heq
    exact absurd heq (close_ne_key hsafe hother.1 hrest _)
  | .record ((key, value) :: fields), .record [], rest, otherRest, hover, _, _, hotherRest, heq => by
    rw [spell_record_nil, spell_record_cons] at heq
    simp only [List.cons_append, List.append_assoc, List.cons.injEq, true_and] at heq
    exact absurd heq.symm (close_ne_key hsafe hover.1 hotherRest _)
  | .record ((key, value) :: fields), .record ((otherKey, otherValue) :: others), rest, otherRest,
      hover, hother, hrest, hotherRest, heq => by
    have hmore : moreFields marks ((key, value) :: fields) ++ marks .closeRecord :: rest =
        moreFields marks ((otherKey, otherValue) :: others) ++ marks .closeRecord :: otherRest := by
      rw [moreFields_cons, moreFields_cons]
      simpa [spell_record_cons] using heq
    obtain ⟨hfields, hrests⟩ := moreFields_unique hnames hsafe _ _ rest otherRest hover hother hrest
      hotherRest hmore
    exact ⟨congrArg Shape.record hfields, hrests⟩

/-- The same for the fields of a record up to its end. -/
theorem moreFields_unique (hnames : Apart marks names) (hsafe : ¬ Collides marks names allowed) :
    ∀ (fields others : List (List α × Shape α)) (rest otherRest : List α),
      FieldsOver names allowed fields → FieldsOver names allowed others →
      Boundary marks rest → Boundary marks otherRest →
      moreFields marks fields ++ marks .closeRecord :: rest =
        moreFields marks others ++ marks .closeRecord :: otherRest →
      fields = others ∧ rest = otherRest
  | [], [], rest, otherRest, _, _, _, _, heq => ⟨rfl, (List.cons.inj heq).2⟩
  | [], (key, value) :: others, rest, otherRest, _, _, _, _, heq => by
    simp [moreFields_cons] at heq
  | (key, value) :: fields, [], rest, otherRest, _, _, _, _, heq => by
    simp [moreFields_cons] at heq
  | (key, value) :: fields, (otherKey, otherValue) :: others, rest, otherRest,
      ⟨hkey, hvalue, hfields⟩, ⟨hotherKey, hotherValue, hothers⟩, hrest, hotherRest, heq => by
    rw [moreFields_cons, moreFields_cons] at heq
    simp only [List.cons_append, List.append_assoc, List.cons.injEq, true_and] at heq
    have hbehind := boundary_moreFields fields hrest
    have hotherBehind := boundary_moreFields others hotherRest
    obtain ⟨rfl, hvalues⟩ := key_unique hnames hsafe hkey hotherKey hvalue hotherValue hbehind
      hotherBehind heq
    obtain ⟨rfl, htail⟩ := spell_unique hnames hsafe value otherValue _ _ hvalue hotherValue
      hbehind hotherBehind hvalues
    obtain ⟨rfl, hrests⟩ := moreFields_unique hnames hsafe fields others rest otherRest hfields
      hothers hrest hotherRest htail
    exact ⟨rfl, hrests⟩

end

/-- Where the letters of the keys do not collide, a text spells one shape only. -/
theorem spell_injective (hnames : Apart marks names) (hsafe : ¬ Collides marks names allowed)
    {shape other : Shape α} (hover : shape.Over names allowed) (hother : other.Over names allowed)
    (heq : spell marks shape = spell marks other) : shape = other :=
  (spell_unique hnames hsafe shape other [] [] hover hother boundary_nil boundary_nil
    (by rw [heq])).1

end Reading

end MongoCore.Library.Shapes
