import Mathlib.Data.List.Basic
import Mathlib.Data.List.Induction
import Mathlib.Data.List.Nodup

/-!
# Stores with a partial key

A store is a list of entries.  Entries may agree on their key, and an entry without a complete key
agrees with nothing, not even with itself, so agreement is a partial equivalence.

New entries come in one by one with `put`, where each meets the store that the ones before it have
left, or all at once with `putBatch`, where each meets the store as it was before the batch.  The
module compares the two: they end in the same store if and only if no two entries of the batch
that are new to the store agree.
-/

namespace MongoCore.Library.KeyedStore

/-- When entries agree on their key, and what becomes of a stored entry when one that agrees with
it comes in.  The result has the key of both. -/
structure Keyed (α : Type*) where
  same : α → α → Bool
  combine : α → α → α
  symm : ∀ x y, same x y = true → same y x = true
  trans : ∀ x y z, same x y = true → same y z = true → same x z = true
  same_combine : ∀ d e x, same d e = true → same (combine d e) x = same e x

variable {α : Type*} (keyed : Keyed α)

/-- No two entries agree on their key. -/
def Keyed.Distinct (store : List α) : Prop :=
  store.Pairwise fun x y ↦ keyed.same x y = false

/-- What becomes of one stored entry when another entry comes in. -/
def Keyed.meet (e d : α) : α := if keyed.same d e then keyed.combine d e else e

/-- What becomes of one stored entry when several come in. -/
def Keyed.absorb (ds : List α) (e : α) : α := ds.foldl keyed.meet e

/-- An entry is new to the store: it agrees with none there. -/
def Keyed.isNew (store : List α) (d : α) : Bool := !store.any fun e ↦ keyed.same d e

def Keyed.put (store : List α) (d : α) : List α :=
  if keyed.isNew store d then store ++ [d] else store.map fun e ↦ keyed.meet e d

def Keyed.putAll (ds store : List α) : List α := ds.foldl keyed.put store

/-- Entries come in all at once: each meets the store as it was before. -/
def Keyed.putBatch (ds store : List α) : List α :=
  store.map (keyed.absorb ds) ++ ds.filter (keyed.isNew store)

/-- The entries that agree on a key, combined from left to right. -/
def Keyed.gather : List α → Option α
  | [] => none
  | d :: ds => some (ds.foldl (fun e d ↦ keyed.combine d e) d)

/-! ## Keys -/

variable {keyed}

theorem Keyed.same_comm (x y : α) : keyed.same x y = keyed.same y x :=
  Bool.eq_iff_iff.mpr ⟨keyed.symm x y, keyed.symm y x⟩

/-- Entries that agree, agree with the same entries. -/
theorem Keyed.same_congr {x y : α} (h : keyed.same x y = true) (z : α) :
    keyed.same x z = keyed.same y z :=
  Bool.eq_iff_iff.mpr ⟨keyed.trans y x z (keyed.symm x y h), keyed.trans x y z h⟩

theorem Keyed.same_meet (e d x : α) : keyed.same (keyed.meet e d) x = keyed.same e x := by
  unfold Keyed.meet
  split_ifs with h
  · exact keyed.same_combine d e x h
  · rfl

theorem Keyed.same_absorb (ds : List α) (e x : α) :
    keyed.same (keyed.absorb ds e) x = keyed.same e x := by
  induction ds generalizing e with
  | nil => rfl
  | cons d ds ih =>
    calc keyed.same (keyed.absorb ds (keyed.meet e d)) x = keyed.same (keyed.meet e d) x := ih _
      _ = keyed.same e x := keyed.same_meet e d x

theorem Keyed.absorb_concat (ds : List α) (d e : α) :
    keyed.absorb (ds ++ [d]) e = keyed.meet (keyed.absorb ds e) d :=
  List.foldl_append

theorem Keyed.isNew_eq_true {store : List α} {d : α} :
    keyed.isNew store d = true ↔ ∀ e ∈ store, keyed.same d e = false := by
  simp [Keyed.isNew]

theorem Keyed.isNew_eq_false {store : List α} {d : α} :
    keyed.isNew store d = false ↔ ∃ e ∈ store, keyed.same d e = true := by
  simp [Keyed.isNew]

theorem Keyed.meet_of_same {e d : α} (h : keyed.same d e = true) :
    keyed.meet e d = keyed.combine d e := if_pos h

theorem Keyed.meet_of_not_same {e d : α} (h : keyed.same d e = false) : keyed.meet e d = e :=
  if_neg (by simp [h])

/-- An entry that a store does not agree with passes it by. -/
theorem Keyed.map_meet_of_isNew {store : List α} {d : α} (h : keyed.isNew store d = true) :
    (store.map fun e ↦ keyed.meet e d) = store := by
  calc (store.map fun e ↦ keyed.meet e d) = store.map id :=
        List.map_congr_left fun e he ↦ Keyed.meet_of_not_same (Keyed.isNew_eq_true.mp h e he)
    _ = store := List.map_id store

theorem Keyed.isNew_map_absorb (ds store : List α) (d : α) :
    keyed.isNew (store.map (keyed.absorb ds)) d = keyed.isNew store d := by
  unfold Keyed.isNew
  rw [List.any_map]
  congr 2
  funext e
  calc keyed.same d (keyed.absorb ds e) = keyed.same (keyed.absorb ds e) d := keyed.same_comm _ _
    _ = keyed.same e d := keyed.same_absorb ds e d
    _ = keyed.same d e := keyed.same_comm _ _

theorem Keyed.isNew_append (store more : List α) (d : α) :
    keyed.isNew (store ++ more) d = (keyed.isNew store d && keyed.isNew more d) := by
  simp [Keyed.isNew]

/-! ## One by one -/

theorem Keyed.putAll_concat (ds : List α) (d : α) (store : List α) :
    keyed.putAll (ds ++ [d]) store = keyed.put (keyed.putAll ds store) d :=
  List.foldl_append

theorem Keyed.putAll_append (ds more store : List α) :
    keyed.putAll (ds ++ more) store = keyed.putAll more (keyed.putAll ds store) :=
  List.foldl_append

/-- A store agrees with what it was or with what came in. -/
theorem Keyed.isNew_put (store : List α) (d x : α) :
    keyed.isNew (keyed.put store d) x = keyed.isNew (store ++ [d]) x := by
  have hmeet : ∀ e, keyed.same x (keyed.meet e d) = keyed.same x e := by
    intro e
    rw [keyed.same_comm x, keyed.same_meet, keyed.same_comm]
  unfold Keyed.put
  split_ifs with h
  · rfl
  · -- the entry is dropped, but another of its key stays
    obtain ⟨e, he, hsame⟩ := Keyed.isNew_eq_false.mp (by simpa using h)
    have hlast : keyed.same x d = true → ∃ e ∈ store, keyed.same x e = true :=
      fun hx ↦ ⟨e, he, keyed.trans x d e hx hsame⟩
    rw [Bool.eq_iff_iff, Keyed.isNew_eq_true, Keyed.isNew_eq_true]
    constructor
    · intro hnone y hy
      rcases List.mem_append.mp hy with hy | hy
      · rw [← hmeet y]
        exact hnone _ (List.mem_map_of_mem hy)
      · obtain rfl := List.mem_singleton.mp hy
        by_contra hx
        obtain ⟨z, hz, hxz⟩ := hlast (by simpa using hx)
        have := hnone _ (List.mem_map_of_mem hz)
        rw [hmeet z, hxz] at this
        cases this
    · intro hnone y hy
      obtain ⟨z, hz, rfl⟩ := List.mem_map.mp hy
      rw [hmeet z]
      exact hnone z (List.mem_append_left _ hz)

theorem Keyed.isNew_putAll (ds store : List α) (x : α) :
    keyed.isNew (keyed.putAll ds store) x = keyed.isNew (store ++ ds) x := by
  induction ds using List.reverseRecOn with
  | nil => rw [List.append_nil]; rfl
  | append_singleton ds d ih =>
    rw [Keyed.putAll_concat, Keyed.isNew_put, Keyed.isNew_append, ih, ← Keyed.isNew_append,
      List.append_assoc]

theorem Keyed.Distinct.map_meet {store : List α} (h : keyed.Distinct store) (d : α) :
    keyed.Distinct (store.map fun e ↦ keyed.meet e d) := by
  refine List.Pairwise.map _ (fun x y hxy ↦ ?_) h
  rw [keyed.same_meet, keyed.same_comm, keyed.same_meet, keyed.same_comm]
  exact hxy

theorem Keyed.distinct_concat {store : List α} {d : α} :
    keyed.Distinct (store ++ [d]) ↔ keyed.Distinct store ∧ keyed.isNew store d = true := by
  unfold Keyed.Distinct
  rw [List.pairwise_append, Keyed.isNew_eq_true]
  constructor
  · rintro ⟨hstore, -, hd⟩
    exact ⟨hstore, fun e he ↦ by rw [keyed.same_comm]; exact hd e he d (by simp)⟩
  · rintro ⟨hstore, hd⟩
    refine ⟨hstore, List.pairwise_singleton _ _, fun e he y hy ↦ ?_⟩
    obtain rfl := List.mem_singleton.mp hy
    rw [keyed.same_comm]
    exact hd e he

theorem Keyed.Distinct.put {store : List α} (h : keyed.Distinct store) (d : α) :
    keyed.Distinct (keyed.put store d) := by
  unfold Keyed.put
  split_ifs with hnew
  · exact Keyed.distinct_concat.mpr ⟨h, hnew⟩
  · exact h.map_meet d

/-- Entries that come in one by one keep the keys of a store distinct. -/
theorem Keyed.Distinct.putAll {store : List α} (h : keyed.Distinct store) (ds : List α) :
    keyed.Distinct (keyed.putAll ds store) := by
  induction ds generalizing store with
  | nil => exact h
  | cons d ds ih => exact ih (h.put d)

/-- Entries with distinct keys are appended to an empty store. -/
theorem Keyed.putAll_nil_of_distinct {ds : List α} (h : keyed.Distinct ds) :
    keyed.putAll ds [] = ds := by
  induction ds using List.reverseRecOn with
  | nil => rfl
  | append_singleton ds d ih =>
    obtain ⟨hds, hnew⟩ := Keyed.distinct_concat.mp h
    rw [Keyed.putAll_concat, ih hds]
    exact if_pos hnew

/-! ## All at once -/

/-- Entries that come in one by one meet the old entries of the store, and what is new to it comes
together as in a store of its own. -/
theorem Keyed.putAll_eq (ds store : List α) :
    keyed.putAll ds store =
      store.map (keyed.absorb ds) ++ keyed.putAll (ds.filter (keyed.isNew store)) [] := by
  induction ds using List.reverseRecOn with
  | nil =>
    have hid : keyed.absorb [] = id := rfl
    rw [hid, List.map_id]
    simp [Keyed.putAll]
  | append_singleton ds d ih =>
    have habsorb : store.map (keyed.absorb (ds ++ [d])) =
        (store.map (keyed.absorb ds)).map fun e ↦ keyed.meet e d := by
      rw [List.map_map]
      apply List.map_congr_left
      intro e _
      exact Keyed.absorb_concat ds d e
    rw [Keyed.putAll_concat, ih, habsorb, List.filter_append]
    set news := keyed.putAll (ds.filter (keyed.isNew store)) [] with hnews
    have hisNew := keyed.isNew_map_absorb ds store d
    cases hd : keyed.isNew store d with
    | true =>
      rw [hd] at hisNew
      rw [List.filter_cons_of_pos hd, List.filter_nil, Keyed.putAll_concat,
        Keyed.map_meet_of_isNew hisNew]
      unfold Keyed.put
      rw [Keyed.isNew_append, hisNew, Bool.true_and]
      split_ifs
      · exact List.append_assoc _ _ _
      · rw [List.map_append, Keyed.map_meet_of_isNew hisNew]
    | false =>
      rw [hd] at hisNew
      -- what is new to the store does not agree with what is not
      have hother : keyed.isNew news d = true := by
        rw [hnews, Keyed.isNew_putAll, List.nil_append, Keyed.isNew_eq_true]
        intro x hx
        obtain ⟨e, he, hsame⟩ := Keyed.isNew_eq_false.mp hd
        have hxe := Keyed.isNew_eq_true.mp (List.mem_filter.mp hx).2 e he
        by_contra hdx
        rw [keyed.same_congr (keyed.symm d x (by simpa using hdx)) e, hsame] at hxe
        cases hxe
      rw [List.filter_cons_of_neg (by simp [hd]), List.filter_nil, List.append_nil]
      unfold Keyed.put
      rw [Keyed.isNew_append, hisNew, Bool.false_and, if_neg (by simp), List.map_append,
        Keyed.map_meet_of_isNew hother]

/-- A batch has the effect of its entries one by one exactly if what is new in it has distinct
keys. -/
theorem Keyed.putBatch_eq_putAll_iff (ds store : List α) :
    keyed.putBatch ds store = keyed.putAll ds store ↔
      keyed.Distinct (ds.filter (keyed.isNew store)) := by
  rw [Keyed.putAll_eq, Keyed.putBatch, List.append_cancel_left_eq]
  constructor
  · intro h
    have hdistinct : keyed.Distinct (keyed.putAll (ds.filter (keyed.isNew store)) []) :=
      Keyed.Distinct.putAll List.Pairwise.nil _
    rwa [← h] at hdistinct
  · intro h
    exact (Keyed.putAll_nil_of_distinct h).symm

/-- A batch keeps the keys distinct only if what is new in it has distinct keys. -/
theorem Keyed.distinct_of_distinct_putBatch {ds store : List α}
    (h : keyed.Distinct (keyed.putBatch ds store)) :
    keyed.Distinct (ds.filter (keyed.isNew store)) :=
  (List.pairwise_append.mp h).2.1

/-! ## Combining from left to right -/

theorem Keyed.gather_concat {ds : List α} {e : α} (h : keyed.gather ds = some e) (d : α) :
    keyed.gather (ds ++ [d]) = some (keyed.combine d e) := by
  cases ds with
  | nil => cases h
  | cons first ds =>
    obtain rfl := Option.some.inj h
    exact congrArg some List.foldl_append

theorem Keyed.filter_same_of_mem {store : List α} (h : keyed.Distinct store) {e : α}
    (he : e ∈ store) (hkey : keyed.same e e = true) : store.filter (keyed.same e) = [e] := by
  induction store with
  | nil => cases he
  | cons first store ih =>
    obtain ⟨hfirst, hstore⟩ := List.pairwise_cons.mp h
    rcases List.mem_cons.mp he with rfl | he
    · have hnone : store.filter (keyed.same e) = [] :=
        List.filter_eq_nil_iff.mpr fun x hx ↦ by simp [hfirst x hx]
      rw [List.filter_cons_of_pos hkey, hnone]
    · have hnot : keyed.same e first = false := by
        rw [keyed.same_comm]
        exact hfirst e he
      rw [List.filter_cons_of_neg (by simp [hnot])]
      exact ih hstore he

/-- An entry of the store with a complete key is the combination, from left to right, of all
entries of its key: the one that was there and those that came in. -/
theorem Keyed.gather_of_mem_putAll {store : List α} (hstore : keyed.Distinct store) (ds : List α)
    {e : α} (he : e ∈ keyed.putAll ds store) (hkey : keyed.same e e = true) :
    keyed.gather ((store ++ ds).filter (keyed.same e)) = some e := by
  induction ds using List.reverseRecOn generalizing e with
  | nil =>
    rw [List.append_nil, Keyed.filter_same_of_mem hstore he hkey]
    rfl
  | append_singleton ds d ih =>
    rw [Keyed.putAll_concat] at he
    rw [← List.append_assoc, List.filter_append]
    unfold Keyed.put at he
    split_ifs at he with hnew
    · rcases List.mem_append.mp he with he | he
      · have hnot : keyed.same e d = false := by
          rw [keyed.same_comm]
          exact Keyed.isNew_eq_true.mp hnew e he
        rw [List.filter_cons_of_neg (by simp [hnot]), List.filter_nil, List.append_nil]
        exact ih he hkey
      · obtain rfl := List.mem_singleton.mp he
        rw [Keyed.isNew_putAll] at hnew
        have hnone : (store ++ ds).filter (keyed.same e) = [] :=
          List.filter_eq_nil_iff.mpr fun x hx ↦ by simp [Keyed.isNew_eq_true.mp hnew x hx]
        rw [hnone, List.filter_cons_of_pos hkey]
        rfl
    · obtain ⟨old, hold, rfl⟩ := List.mem_map.mp he
      have hcongr : keyed.same (keyed.meet old d) = keyed.same old :=
        funext fun x ↦ keyed.same_meet old d x
      rw [hcongr]
      have holdkey : keyed.same old old = true := by
        rwa [keyed.same_meet, keyed.same_comm, keyed.same_meet] at hkey
      cases hsame : keyed.same d old with
      | true =>
        rw [Keyed.meet_of_same hsame, List.filter_cons_of_pos (keyed.symm d old hsame),
          List.filter_nil]
        exact Keyed.gather_concat (ih hold holdkey) d
      | false =>
        have hnot : keyed.same old d = false := by rwa [keyed.same_comm]
        rw [Keyed.meet_of_not_same hsame, List.filter_cons_of_neg (by simp [hnot]),
          List.filter_nil, List.append_nil]
        exact ih hold holdkey

/-! ## Replacing what a snapshot held -/

/-- Replace the first entry that passes a test. -/
def replaceFirst (test : α → Bool) (replacement : α) : List α → List α
  | [] => []
  | x :: xs => if test x then replacement :: xs else x :: replaceFirst test replacement xs

theorem replaceFirst_eq_map {test : α → Bool} {xs : List α}
    (honce : xs.Pairwise fun x y ↦ test x = true → test y = false) (replacement : α) :
    replaceFirst test replacement xs = xs.map fun x ↦ if test x then replacement else x := by
  induction xs with
  | nil => rfl
  | cons x xs ih =>
    obtain ⟨hx, hxs⟩ := List.pairwise_cons.mp honce
    rw [replaceFirst, List.map_cons]
    split_ifs with htest
    · have hrest : (xs.map fun y ↦ if test y then replacement else y) = xs.map id :=
        List.map_congr_left fun y hy ↦ by simp [hx y hy htest]
      rw [hrest, List.map_id]
    · rw [ih hxs]

theorem replaceFirst_congr {test other : α → Bool} {xs : List α}
    (h : ∀ x ∈ xs, test x = other x) (replacement : α) :
    replaceFirst test replacement xs = replaceFirst other replacement xs := by
  induction xs with
  | nil => rfl
  | cons x xs ih =>
    unfold replaceFirst
    rw [h x List.mem_cons_self, ih fun y hy ↦ h y (List.mem_cons_of_mem x hy)]

theorem mem_of_mem_replaceFirst {test : α → Bool} {replacement x : α} {xs : List α}
    (h : x ∈ replaceFirst test replacement xs) : x = replacement ∨ x ∈ xs := by
  induction xs with
  | nil => cases h
  | cons y ys ih =>
    unfold replaceFirst at h
    split_ifs at h
    · exact (List.mem_cons.mp h).imp_right (List.mem_cons_of_mem y)
    · rcases List.mem_cons.mp h with rfl | h
      · exact .inr List.mem_cons_self
      · exact (ih h).imp_right (List.mem_cons_of_mem y)

/-- An entry that is replaced by one of its key is still agreed with. -/
theorem Keyed.isNew_replaceFirst {test : α → Bool} {replacement d : α} {store : List α}
    (htest : ∀ x ∈ store, test x = true → keyed.same replacement x = true)
    (h : keyed.isNew (replaceFirst test replacement store) d = true) :
    keyed.isNew store d = true := by
  induction store with
  | nil => rfl
  | cons x store ih =>
    rw [Keyed.isNew_eq_true] at h ⊢
    unfold replaceFirst at h
    intro y hy
    split_ifs at h with hx
    · rcases List.mem_cons.mp hy with rfl | hy
      · have hreplacement := h replacement List.mem_cons_self
        rw [keyed.same_comm] at hreplacement ⊢
        rwa [← keyed.same_congr (htest y List.mem_cons_self hx)]
      · exact h y (List.mem_cons_of_mem _ hy)
    · rcases List.mem_cons.mp hy with rfl | hy
      · exact h y List.mem_cons_self
      · have hrest : keyed.isNew (replaceFirst test replacement store) d = true :=
          Keyed.isNew_eq_true.mpr fun z hz ↦ h z (List.mem_cons_of_mem _ hz)
        exact Keyed.isNew_eq_true.mp
          (ih (fun z hz ↦ htest z (List.mem_cons_of_mem _ hz)) hrest) y hy

/-- Replacing an entry by one of its key does not make keys distinct that were not. -/
theorem Keyed.distinct_of_distinct_replaceFirst {test : α → Bool} {replacement : α}
    {store : List α} (htest : ∀ x ∈ store, test x = true → keyed.same replacement x = true)
    (h : keyed.Distinct (replaceFirst test replacement store)) : keyed.Distinct store := by
  induction store with
  | nil => exact List.Pairwise.nil
  | cons x store ih =>
    have hrest : ∀ y ∈ store, test y = true → keyed.same replacement y = true :=
      fun y hy ↦ htest y (List.mem_cons_of_mem x hy)
    unfold replaceFirst at h
    split_ifs at h with hx
    · obtain ⟨hnew, hdistinct⟩ := List.pairwise_cons.mp h
      refine List.pairwise_cons.mpr ⟨fun y hy ↦ ?_, hdistinct⟩
      rw [← keyed.same_congr (htest x List.mem_cons_self hx)]
      exact hnew y hy
    · obtain ⟨hnew, hdistinct⟩ := List.pairwise_cons.mp h
      have hisNew : keyed.isNew store x = true :=
        Keyed.isNew_replaceFirst hrest (Keyed.isNew_eq_true.mpr hnew)
      exact List.pairwise_cons.mpr ⟨Keyed.isNew_eq_true.mp hisNew, ih hrest hdistinct⟩

variable (keyed) in
/-- Replace the entry of this key by what the entry makes of the one in a snapshot. -/
def Keyed.replaceFrom (snapshot current : List α) (d : α) : List α :=
  match snapshot.find? (keyed.same d) with
  | none => current
  | some e => replaceFirst (keyed.same d) (keyed.combine d e) current

theorem Keyed.Distinct.eq_of_same {store : List α} (h : keyed.Distinct store) {x y : α}
    (hx : x ∈ store) (hy : y ∈ store) (hsame : keyed.same x y = true) : x = y := by
  have heq : store.Pairwise fun x y ↦ keyed.same x y = true → x = y :=
    h.imp fun hnot hsame ↦ absurd hsame (by simp [hnot])
  have hflip : store.Pairwise (flip fun x y ↦ keyed.same x y = true → x = y) :=
    h.imp fun hnot hsame ↦ absurd (keyed.symm _ _ hsame) (by simp [hnot])
  exact heq.forall_of_forall_of_flip (fun _ _ _ ↦ rfl) hflip hx hy hsame

/-- Only the last entry counts: what several entries made of another does not matter to the one
that comes after them. -/
theorem Keyed.combine_absorb {ds : List α} {d : α}
    (hlast : ∀ d' ∈ ds, ∀ e, keyed.combine d (keyed.combine d' e) = keyed.combine d e) (e : α) :
    keyed.combine d (keyed.absorb ds e) = keyed.combine d e := by
  induction ds using List.reverseRecOn with
  | nil => rfl
  | append_singleton ds d' ih =>
    have hprefix := ih fun other hother ↦ hlast other (List.mem_append_left _ hother)
    rw [Keyed.absorb_concat, Keyed.meet]
    split_ifs
    · rw [hlast d' (by simp), hprefix]
    · exact hprefix

/-- Where only the last entry of a key counts, replacing what the snapshot held one after the
other has the effect of a batch. -/
theorem Keyed.foldl_replaceFrom {ds store news : List α} (hstore : keyed.Distinct store)
    (hlast : ∀ d ∈ ds, ∀ d' ∈ ds, ∀ e,
      keyed.combine d (keyed.combine d' e) = keyed.combine d e)
    (hnews : ∀ x ∈ news, keyed.isNew store x = true) :
    ds.foldl (keyed.replaceFrom store) (store ++ news) =
      store.map (keyed.absorb ds) ++ news := by
  induction ds using List.reverseRecOn with
  | nil =>
    have hid : keyed.absorb [] = id := rfl
    rw [hid, List.map_id]
    rfl
  | append_singleton ds d ih =>
    rw [List.foldl_append, ih fun x hx y hy ↦ hlast x (List.mem_append_left _ hx) y
      (List.mem_append_left _ hy)]
    have habsorb : store.map (keyed.absorb (ds ++ [d])) =
        (store.map (keyed.absorb ds)).map fun e ↦ keyed.meet e d := by
      rw [List.map_map]
      exact List.map_congr_left fun e _ ↦ Keyed.absorb_concat ds d e
    have hsame : ∀ e, keyed.same d (keyed.absorb ds e) = keyed.same d e := by
      intro e
      rw [keyed.same_comm, keyed.same_absorb, keyed.same_comm]
    rw [habsorb, List.foldl_cons, List.foldl_nil, Keyed.replaceFrom]
    cases hfind : store.find? (keyed.same d) with
    | none =>
      have hnew : keyed.isNew (store.map (keyed.absorb ds)) d = true := by
        rw [Keyed.isNew_map_absorb, Keyed.isNew_eq_true]
        intro e he
        simpa using List.find?_eq_none.mp hfind e he
      rw [Keyed.map_meet_of_isNew hnew]
    | some e =>
      have he : e ∈ store := List.mem_of_find?_eq_some hfind
      have hde : keyed.same d e = true := List.find?_some hfind
      have hother : ∀ x ∈ news, keyed.same d x = false := by
        intro x hx
        have hxe := Keyed.isNew_eq_true.mp (hnews x hx) e he
        by_contra hdx
        rw [keyed.same_congr (keyed.symm d x (by simpa using hdx)) e, hde] at hxe
        cases hxe
      have honce : (store.map (keyed.absorb ds) ++ news).Pairwise
          fun x y ↦ keyed.same d x = true → keyed.same d y = false := by
        refine List.pairwise_append.mpr ⟨?_, ?_, fun x _ y hy _ ↦ hother y hy⟩
        · refine List.Pairwise.map _ (fun x y hxy hx ↦ ?_) hstore
          rw [hsame] at hx ⊢
          rwa [keyed.same_congr hx]
        · exact List.pairwise_of_forall_mem_list fun x _ y hy _ ↦ hother y hy
      have hnewsId : (news.map fun x ↦ if keyed.same d x then keyed.combine d e else x) = news := by
        calc (news.map fun x ↦ if keyed.same d x then keyed.combine d e else x) = news.map id :=
              List.map_congr_left fun x hx ↦ by simp [hother x hx]
          _ = news := List.map_id news
      simp only
      rw [replaceFirst_eq_map honce, List.map_append, hnewsId, List.map_map, List.map_map]
      congr 1
      apply List.map_congr_left
      intro x hx
      simp only [Function.comp_apply, Keyed.meet]
      split_ifs with hdx
      · -- the entry that matches is the one of the snapshot
        rw [hsame] at hdx
        obtain rfl := hstore.eq_of_same hx he (keyed.trans x d e (keyed.symm d x hdx) hde)
        refine (Keyed.combine_absorb (fun d' hd' y ↦ ?_) x).symm
        exact hlast d (by simp) d' (List.mem_append_left _ hd') y
      · rfl

end MongoCore.Library.KeyedStore
