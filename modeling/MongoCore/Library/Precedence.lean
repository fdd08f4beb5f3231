import Mathlib.Data.List.Basic
import Mathlib.Data.List.Induction
import Mathlib.Logic.Basic

/-!
# Operators of two precedences

An expression without parentheses is a sequence of terms joined by loosely binding operators, and a
term a sequence of operands joined by tightly binding ones.  Its value joins from the left within
each term, and then the terms from the left.

A reader that ignores the precedences joins all operands from the left.  That gives the same value
if only the first term has several operands.  With operators whose results can be taken apart again
it gives the same value in no other case.
-/

namespace MongoCore.Library.Precedence

variable {A M α V : Type*}

/-! ## Expressions -/

/-- Operands joined by tightly binding operators. -/
structure Term (M α : Type*) where
  head : α
  factors : List (M × α)

/-- Terms joined by loosely binding operators. -/
structure Expression (A M α : Type*) where
  head : Term M α
  terms : List (A × Term M α)

section

variable (loose : A → V → V → V) (tight : M → V → V → V) (operand : α → V)

def Term.value (t : Term M α) : V :=
  t.factors.foldl (fun value factor ↦ tight factor.1 value (operand factor.2)) (operand t.head)

def Expression.value (e : Expression A M α) : V :=
  e.terms.foldl (fun value term ↦ loose term.1 value (term.2.value tight operand))
    (e.head.value tight operand)

/-- The operators of a term with the operands behind them. -/
def Term.flat (t : Term M α) : List ((A ⊕ M) × α) :=
  t.factors.map fun factor ↦ (.inr factor.1, factor.2)

/-- The operators of an expression with the operands behind them. -/
def Expression.flat (e : Expression A M α) : List ((A ⊕ M) × α) :=
  e.head.flat ++ e.terms.flatMap fun term ↦ (.inl term.1, term.2.head) :: term.2.flat

def leftFold (start : V) (steps : List ((A ⊕ M) × α)) : V :=
  steps.foldl (fun value step ↦ Sum.elim loose tight step.1 value (operand step.2)) start

/-- The value of an expression for a reader that ignores the precedences. -/
def Expression.leftValue (e : Expression A M α) : V :=
  leftFold loose tight operand (operand e.head.head) e.flat

end

def Expression.operands (e : Expression A M α) : List α := e.head.head :: e.flat.map Prod.snd

/-- No term but the first has several operands. -/
def Expression.Shallow (e : Expression A M α) : Prop := ∀ term ∈ e.terms, term.2.factors = []

theorem flat_snoc (head : Term M α) (terms : List (A × Term M α)) (a : A) (term : Term M α) :
    (Expression.mk head (terms ++ [(a, term)])).flat =
      (Expression.mk head terms).flat ++ (.inl a, term.head) :: term.flat := by
  simp [Expression.flat]

theorem leftFold_append (loose : A → V → V → V) (tight : M → V → V → V) (operand : α → V) (start : V)
    (front back : List ((A ⊕ M) × α)) :
    leftFold loose tight operand start (front ++ back) =
      leftFold loose tight operand (leftFold loose tight operand start front) back :=
  List.foldl_append

@[simp] theorem map_snd_flat (term : Term M α) :
    (term.flat : List ((A ⊕ M) × α)).map Prod.snd = term.factors.map Prod.snd := by
  rw [Term.flat, List.map_map]
  rfl

theorem flat_single (head : Term M α) :
    (Expression.mk head ([] : List (A × Term M α))).flat = head.flat := List.append_nil _

theorem value_snoc (loose : A → V → V → V) (tight : M → V → V → V) (operand : α → V)
    (head : Term M α) (terms : List (A × Term M α)) (a : A) (term : Term M α) :
    (Expression.mk head (terms ++ [(a, term)])).value loose tight operand =
      loose a ((Expression.mk head terms).value loose tight operand) (term.value tight operand) :=
  List.foldl_append

theorem leftValue_snoc (loose : A → V → V → V) (tight : M → V → V → V) (operand : α → V)
    (head : Term M α) (terms : List (A × Term M α)) (a : A) (term : Term M α) :
    (Expression.mk head (terms ++ [(a, term)])).leftValue loose tight operand =
      leftFold loose tight operand
        (loose a ((Expression.mk head terms).leftValue loose tight operand) (operand term.head))
        (term.flat : List ((A ⊕ M) × α)) := by
  rw [Expression.leftValue, flat_snoc, leftFold_append]
  rfl

theorem shallow_snoc {head : Term M α} {terms : List (A × Term M α)} {a : A} {term : Term M α} :
    (Expression.mk head (terms ++ [(a, term)])).Shallow ↔
      (Expression.mk head terms).Shallow ∧ term.factors = [] := by
  simp only [Expression.Shallow, List.forall_mem_append, List.forall_mem_singleton]

theorem operands_snoc (head : Term M α) (terms : List (A × Term M α)) (a : A) (term : Term M α) :
    (Expression.mk head (terms ++ [(a, term)])).operands =
      (Expression.mk head terms).operands ++ term.head :: term.factors.map Prod.snd := by
  rw [Expression.operands, flat_snoc, List.map_append, List.map_cons, map_snd_flat]
  rfl

theorem forall_operands_snoc {p : α → Prop} {head : Term M α} {terms : List (A × Term M α)} {a : A}
    {term : Term M α} :
    (∀ x ∈ (Expression.mk head (terms ++ [(a, term)])).operands, p x) ↔
      (∀ x ∈ (Expression.mk head terms).operands, p x) ∧ p term.head ∧
        ∀ factor ∈ term.factors, p factor.2 := by
  rw [operands_snoc, List.forall_mem_append, List.forall_mem_cons, List.forall_mem_map]

/-! ## Joining from the left -/

/-- The results of operators can be taken apart again. -/
structure Free (loose : A → V → V → V) (tight : M → V → V → V) : Prop where
  loose_inj : ∀ {a a' l l' r r'}, loose a l r = loose a' l' r' → a = a' ∧ l = l' ∧ r = r'
  tight_inj : ∀ {m m' l l' r r'}, tight m l r = tight m' l' r' → m = m' ∧ l = l' ∧ r = r'
  distinct : ∀ {a m l l' r r'}, loose a l r ≠ tight m l' r'

variable {loose : A → V → V → V} {tight : M → V → V → V}

/-- Two readings of the same factors agree exactly if they agree on where they start and on the
operands. -/
theorem foldl_factors_eq_iff (hfree : Free loose tight) {read mean : α → V} {start start' : V}
    {factors : List (M × α)} :
    factors.foldl (fun value factor ↦ tight factor.1 value (read factor.2)) start =
        factors.foldl (fun value factor ↦ tight factor.1 value (mean factor.2)) start' ↔
      start = start' ∧ ∀ factor ∈ factors, read factor.2 = mean factor.2 := by
  induction factors using List.reverseRecOn with
  | nil => simp
  | append_singleton factors factor ih =>
    rw [List.foldl_append, List.foldl_append, List.forall_mem_append, List.forall_mem_singleton,
      ← and_assoc, ← ih]
    constructor
    · intro h
      exact (hfree.tight_inj h).2
    · rintro ⟨hfront, hlast⟩
      simp only [List.foldl_cons, List.foldl_nil, hfront, hlast]

/-- The first term is joined from the left in any case. -/
theorem leftFold_flat (operand : α → V) (start : V) (term : Term M α) :
    leftFold loose tight operand start (term.flat : List ((A ⊕ M) × α)) =
      term.factors.foldl (fun value factor ↦ tight factor.1 value (operand factor.2)) start := by
  rw [leftFold, Term.flat, List.foldl_map]
  rfl

/-- A term of several operands does not end in a loosely binding operator. -/
theorem leftFold_flat_ne_loose (hfree : Free loose tight) (operand : α → V) {start l r : V} {a : A}
    {term : Term M α} (h : term.factors ≠ []) :
    leftFold loose tight operand start (term.flat : List ((A ⊕ M) × α)) ≠ loose a l r := by
  obtain ⟨factors, factor, hfactors⟩ := (List.eq_nil_or_concat term.factors).resolve_left h
  rw [leftFold_flat, hfactors, List.concat_eq_append, List.foldl_append]
  exact fun heq ↦ hfree.distinct heq.symm

/-- Joining all operands from the left, as one reads them, gives what an expression means exactly if
only its first term has several operands and the operands are read as they are meant. -/
theorem leftValue_eq_value_iff (hfree : Free loose tight) {read mean : α → V}
    {e : Expression A M α} :
    e.leftValue loose tight read = e.value loose tight mean ↔
      e.Shallow ∧ ∀ x ∈ e.operands, read x = mean x := by
  obtain ⟨head, terms⟩ := e
  induction terms using List.reverseRecOn with
  | nil =>
    have hshallow : (Expression.mk head ([] : List (A × Term M α))).Shallow := by
      simp [Expression.Shallow]
    rw [Expression.leftValue, flat_single, leftFold_flat, Expression.operands, flat_single,
      map_snd_flat, List.forall_mem_cons, List.forall_mem_map]
    exact (foldl_factors_eq_iff hfree).trans (and_iff_right hshallow).symm
  | append_singleton terms last ih =>
    obtain ⟨a, term⟩ := last
    rw [leftValue_snoc, value_snoc, shallow_snoc, forall_operands_snoc]
    by_cases hfactors : term.factors = []
    · have hterm : term.value tight mean = mean term.head := by
        rw [Term.value, hfactors, List.foldl_nil]
      rw [leftFold_flat, hfactors, List.foldl_nil, hterm]
      constructor
      · intro h
        obtain ⟨-, hfront, hlast⟩ := hfree.loose_inj h
        obtain ⟨hshallow, hoperands⟩ := ih.mp hfront
        exact ⟨⟨hshallow, rfl⟩, hoperands, hlast, by simp⟩
      · rintro ⟨⟨hshallow, -⟩, hoperands, hlast, -⟩
        rw [ih.mpr ⟨hshallow, hoperands⟩, hlast]
    · constructor
      · intro h
        exact absurd h (leftFold_flat_ne_loose hfree read hfactors)
      · rintro ⟨⟨-, hnone⟩, -⟩
        exact absurd hnone hfactors

/-- Where only the first term has several operands, the precedences make no difference. -/
theorem leftValue_eq_value (operand : α → V) {e : Expression A M α} (h : e.Shallow) :
    e.leftValue loose tight operand = e.value loose tight operand := by
  obtain ⟨head, terms⟩ := e
  induction terms using List.reverseRecOn with
  | nil =>
    rw [Expression.leftValue, flat_single, leftFold_flat]
    rfl
  | append_singleton terms last ih =>
    obtain ⟨a, term⟩ := last
    obtain ⟨hshallow, hfactors⟩ := shallow_snoc.mp h
    rw [leftValue_snoc, value_snoc, leftFold_flat, Term.value, hfactors, List.foldl_nil,
      List.foldl_nil, ih hshallow]

/-- Readings that agree on the operands agree on the expression. -/
theorem leftValue_congr {read mean : α → V} {e : Expression A M α}
    (h : ∀ x ∈ e.operands, read x = mean x) :
    e.leftValue loose tight read = e.leftValue loose tight mean := by
  obtain ⟨hhead, hflat⟩ := List.forall_mem_cons.mp h
  rw [Expression.leftValue, Expression.leftValue, leftFold, leftFold, hhead]
  refine List.foldl_ext _ _ _ fun value step hstep ↦ ?_
  rw [hflat step.2 (List.mem_map_of_mem hstep)]

/-! ## A property of some operand -/

theorem foldl_or_eq_any (p : α → Bool) (start : Bool) (factors : List (M × α)) :
    factors.foldl (fun found factor ↦ found || p factor.2) start =
      (start || (factors.map Prod.snd).any p) := by
  induction factors generalizing start with
  | nil => simp
  | cons factor factors ih => rw [List.foldl_cons, ih, List.map_cons, List.any_cons, Bool.or_assoc]

/-- With all operators read as "or", an expression says whether an operand has a property. -/
theorem value_or_eq_any (p : α → Bool) (e : Expression A M α) :
    e.value (fun _ ↦ or) (fun _ ↦ or) p = e.operands.any p := by
  obtain ⟨head, terms⟩ := e
  have hterm (term : Term M α) : term.value (fun _ ↦ or) p =
      (p term.head || (term.factors.map Prod.snd).any p) := foldl_or_eq_any p _ _
  induction terms using List.reverseRecOn with
  | nil =>
    rw [Expression.operands, flat_single, map_snd_flat, List.any_cons]
    exact hterm head
  | append_singleton terms last ih =>
    rw [value_snoc, operands_snoc, List.any_append, List.any_cons, ih, hterm]

end MongoCore.Library.Precedence
