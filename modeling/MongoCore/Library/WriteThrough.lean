import MongoCore.Library.TransitionSystem

/-!
# Records that are kept twice

A record is kept in a store and in memory.  A write goes to the store first and, once the store has
confirmed it, to memory.  The store may refuse a write, and it may carry a write out without
confirming it; in both cases memory is left alone.

A field is stale if the last write to it that the store has carried out was not confirmed.  All
other fields have the value in the store that they have in memory, or will have as soon as the
confirmed write is carried out there as well.
-/

namespace MongoCore.Library

/-- How records look field by field, and which fields a write sets.  A write changes the record as
it changes its fields. -/
structure Layout (ρ υ φ ν : Type*) where
  view : ρ → φ → Option ν
  apply : υ → ρ → ρ
  sets : υ → φ → Option ν
  view_apply : ∀ write record field,
    view (apply write record) field = (sets write field).or (view record field)

namespace WriteThrough

inductive Outcome where
  | confirmed
  | refused
  | unconfirmed
  deriving DecidableEq, Repr

/-- The two copies of a record, and the confirmed write that memory has not seen. -/
structure Copies (ρ υ φ ν : Type*) where
  stored : φ → Option ν
  memory : ρ
  pending : Option υ

/-- A write goes to the store, or the confirmed write goes to memory. -/
inductive Event (υ : Type*) where
  | write (write : υ) (outcome : Outcome)
  | remember

variable {ρ υ φ ν : Type*} (layout : Layout ρ υ φ ν)

def Copies.new (record : ρ) : Copies ρ υ φ ν where
  stored := layout.view record
  memory := record
  pending := none

def written (write : υ) (stored : φ → Option ν) (field : φ) : Option ν :=
  (layout.sets write field).or (stored field)

/-- One step; there is no write while another one is pending. -/
def step (copies : Copies ρ υ φ ν) : Event υ → Option (Copies ρ υ φ ν)
  | .write write outcome =>
      match copies.pending, outcome with
      | some _, _ => none
      | none, .confirmed => some { copies with
          stored := written layout write copies.stored, pending := some write }
      | none, .refused => some copies
      | none, .unconfirmed => some { copies with stored := written layout write copies.stored }
  | .remember =>
      match copies.pending with
      | none => none
      | some write => some { copies with
          memory := layout.apply write copies.memory, pending := none }

/-- The record as it will be once the pending write has gone to memory. -/
def Copies.upcoming (copies : Copies ρ υ φ ν) : ρ :=
  match copies.pending with
  | none => copies.memory
  | some write => layout.apply write copies.memory

def staleAfter (field : φ) (stale : Bool) : Event υ → Bool
  | .write write .confirmed => stale && (layout.sets write field).isNone
  | .write write .unconfirmed => stale || (layout.sets write field).isSome
  | .write _ .refused | .remember => stale

/-- The last write to a field that the store has carried out was not confirmed. -/
def stale (field : φ) (events : List (Event υ)) : Bool :=
  events.foldl (staleAfter layout field) false

variable {layout}

/-- A step keeps every field that is not stale as it will be in memory. -/
theorem stored_step {copies next : Copies ρ υ φ ν} {event : Event υ} {field : φ} {was : Bool}
    (h : was = false → copies.stored field = layout.view (copies.upcoming layout) field)
    (hstep : step layout copies event = some next)
    (hfresh : staleAfter layout field was event = false) :
    next.stored field = layout.view (next.upcoming layout) field := by
  cases event with
  | write write outcome =>
    cases hpending : copies.pending with
    | some other =>
      simp only [step, hpending] at hstep
      exact absurd hstep (by simp)
    | none =>
      have hupcoming : copies.upcoming layout = copies.memory := by
        rw [Copies.upcoming, hpending]
      rw [hupcoming] at h
      cases outcome with
      | confirmed =>
        simp only [step, hpending] at hstep
        obtain rfl := Option.some.inj hstep
        show written layout write copies.stored field =
          layout.view (layout.apply write copies.memory) field
        rw [layout.view_apply, written]
        cases hsets : layout.sets write field with
        | some value => rw [Option.some_or, Option.some_or]
        | none =>
          rw [Option.none_or, Option.none_or]
          exact h (by simpa [staleAfter, hsets] using hfresh)
      | refused =>
        simp only [step, hpending] at hstep
        obtain rfl := Option.some.inj hstep
        rw [hupcoming]
        exact h hfresh
      | unconfirmed =>
        simp only [step, hpending] at hstep
        obtain rfl := Option.some.inj hstep
        obtain ⟨hwas, hsets⟩ := Bool.or_eq_false_iff.mp hfresh
        have hnone : layout.sets write field = none := by simpa using hsets
        show written layout write copies.stored field = layout.view copies.memory field
        rw [written, hnone, Option.none_or, h hwas]
  | remember =>
    cases hpending : copies.pending with
    | none =>
      simp only [step, hpending] at hstep
      exact absurd hstep (by simp)
    | some write =>
      simp only [step, hpending] at hstep
      obtain rfl := Option.some.inj hstep
      rw [h hfresh, Copies.upcoming, hpending]
      rfl

/-- Whatever the outcomes of the writes, a field that is not stale has the value in the store that
it has in memory, once the pending write has gone there. -/
theorem stored_of_run {record : ρ} {events : List (Event υ)} {copies : Copies ρ υ φ ν}
    (hrun : TransitionSystem.run (step layout) (Copies.new layout record) events = some copies)
    {field : φ} (hfresh : stale layout field events = false) :
    copies.stored field = layout.view (copies.upcoming layout) field := by
  have hgeneral : ∀ (events : List (Event υ)) (start final : Copies ρ υ φ ν) (was : Bool),
      (was = false → start.stored field = layout.view (start.upcoming layout) field) →
      TransitionSystem.run (step layout) start events = some final →
      events.foldl (staleAfter layout field) was = false →
      final.stored field = layout.view (final.upcoming layout) field := by
    intro events
    induction events with
    | nil =>
      intro start final was h hrun hwas
      obtain rfl := Option.some.inj hrun
      exact h hwas
    | cons event events ih =>
      intro start final was h hrun hfinal
      obtain ⟨next, hstep, hrest⟩ := TransitionSystem.run_cons_eq_some.mp hrun
      exact ih next final _ (fun hfresh ↦ stored_step h hstep hfresh) hrest hfinal
  exact hgeneral events _ copies false (fun _ ↦ rfl) hrun hfresh

end WriteThrough

/-! ## The first record that passes a test -/

/-- Change the first item that passes a test. -/
def updateFirst {α : Type*} (test : α → Bool) (change : α → α) : List α → List α
  | [] => []
  | item :: items => if test item then change item :: items
      else item :: updateFirst test change items

/-- The first item is found changed. -/
theorem find?_updateFirst {α : Type*} {test : α → Bool} {change : α → α}
    (hchange : ∀ item, test item = true → test (change item) = true) (items : List α) :
    (updateFirst test change items).find? test = (items.find? test).map change := by
  induction items with
  | nil => rfl
  | cons item items ih =>
    unfold updateFirst
    by_cases hitem : test item = true
    · rw [if_pos hitem, List.find?_cons_of_pos (hchange item hitem), List.find?_cons_of_pos hitem]
      rfl
    · rw [if_neg hitem, List.find?_cons_of_neg hitem, List.find?_cons_of_neg hitem, ih]

/-- An item that fails the test is found as before. -/
theorem find?_updateFirst_of_ne {α : Type*} {test other : α → Bool} {change : α → α}
    (hother : ∀ item, test item = true → other item = false ∧ other (change item) = false)
    (items : List α) : (updateFirst test change items).find? other = items.find? other := by
  induction items with
  | nil => rfl
  | cons item items ih =>
    unfold updateFirst
    by_cases hitem : test item = true
    · obtain ⟨hbefore, hafter⟩ := hother item hitem
      rw [if_pos hitem, List.find?_cons_of_neg (by simp [hafter]),
        List.find?_cons_of_neg (by simp [hbefore])]
    · rw [if_neg hitem, List.find?_cons, List.find?_cons, ih]

end MongoCore.Library
