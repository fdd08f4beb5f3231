import MongoCore.Library.EntryMap
import Mathlib.Algebra.BigOperators.Group.List.Lemmas
import Mathlib.Algebra.Order.Floor.Semiring
import Mathlib.Data.List.Dedup
import Mathlib.Data.List.Perm.Basic
import Mathlib.Data.List.Sort
import Mathlib.Data.Rat.Floor

/-!
# Counting, ranking and percentiles

How often each key occurs in a list, the entries with the highest counts, and the nearest rank of
a percentage among values of a linear order.

The first entries of a ranking depend on the order in which the entries come only through ties.
The module says exactly when they do not depend on it.
-/

namespace MongoCore.Library.Ranking

/-! ## Counting -/

section Tally

variable {κ : Type*} [DecidableEq κ]

def countOne (counts : EntryMap κ ℕ) (key : κ) : EntryMap κ ℕ :=
  counts.insert key ((counts.get? key).getD 0 + 1)

def tally (keys : List κ) : EntryMap κ ℕ := keys.foldl countOne .empty

theorem get?_tally (keys : List κ) (key : κ) :
    (tally keys).get? key = if key ∈ keys then some (keys.count key) else none := by
  induction keys using List.reverseRecOn with
  | nil => exact EntryMap.get?_eq_none.mpr List.not_mem_nil
  | append_singleton keys last ih =>
    have hlast : tally (keys ++ [last]) = countOne (tally keys) last := by
      rw [tally, List.foldl_append]
      rfl
    rw [hlast, countOne]
    by_cases hkey : key = last
    · subst hkey
      rw [EntryMap.get?_insert_self, ih]
      by_cases hold : key ∈ keys
      · simp [hold]
      · simp [hold, List.count_eq_zero_of_not_mem hold]
    · rw [EntryMap.get?_insert_of_ne _ _ hkey, ih]
      simp [hkey, Ne.symm hkey]

/-- The counts of a list are those of its distinct keys, in some order. -/
theorem tally_entries_perm (keys : List κ) :
    (tally keys).entries.Perm (keys.dedup.map fun key ↦ (key, keys.count key)) :=
  EntryMap.entries_perm_map (List.nodup_dedup keys) fun key ↦ by
    rw [get?_tally]
    simp only [List.mem_dedup]

/-- The counts of all keys add up to the number of occurrences. -/
theorem sum_tally (keys : List κ) : ((tally keys).entries.map Prod.snd).sum = keys.length := by
  rw [((tally_entries_perm keys).map Prod.snd).sum_eq, List.map_map]
  exact List.sum_map_count_dedup_eq_length keys

theorem tally_entries_perm_of_perm {keys other : List κ} (hperm : keys.Perm other) :
    (tally keys).entries.Perm (tally other).entries := by
  refine (tally_entries_perm keys).trans (List.Perm.trans ?_ (tally_entries_perm other).symm)
  simp only [hperm.count_eq]
  exact hperm.dedup.map _

end Tally

/-! ## The entries with the highest counts -/

section Top

variable {κ : Type*}

/-- Entries from the highest count to the lowest.  Entries of one count keep their order. -/
def byCount (entries : List (κ × ℕ)) : List (κ × ℕ) :=
  entries.insertionSort fun first second ↦ second.2 ≤ first.2

/-- The first entries of the ranking. -/
def top (n : ℕ) (entries : List (κ × ℕ)) : List (κ × ℕ) := (byCount entries).take n

theorem byCount_perm (entries : List (κ × ℕ)) : (byCount entries).Perm entries :=
  List.perm_insertionSort _ entries

theorem pairwise_byCount (entries : List (κ × ℕ)) :
    (byCount entries).Pairwise fun first second ↦ second.2 ≤ first.2 := by
  have htotal : Std.Total fun first second : κ × ℕ ↦ second.2 ≤ first.2 :=
    ⟨fun first second ↦ le_total second.2 first.2⟩
  have htrans : IsTrans (κ × ℕ) fun first second ↦ second.2 ≤ first.2 :=
    ⟨fun first second third h h' ↦ h'.trans h⟩
  exact List.pairwise_insertionSort _ entries

theorem mem_of_mem_top {n : ℕ} {entries : List (κ × ℕ)} {entry : κ × ℕ}
    (hentry : entry ∈ top n entries) : entry ∈ entries :=
  (byCount_perm entries).mem_iff.mp (List.mem_of_mem_take hentry)

theorem length_top (n : ℕ) (entries : List (κ × ℕ)) :
    (top n entries).length = min n entries.length := by
  rw [top, List.length_take, (byCount_perm entries).length_eq]

theorem pairwise_top (n : ℕ) (entries : List (κ × ℕ)) :
    (top n entries).Pairwise fun first second ↦ second.2 ≤ first.2 :=
  (pairwise_byCount entries).sublist (List.take_sublist n _)

/-- When there are not too many entries, the top is all of them. -/
theorem top_perm {n : ℕ} {entries : List (κ × ℕ)} (hlength : entries.length ≤ n) :
    (top n entries).Perm entries := by
  rw [top, List.take_of_length_le ((byCount_perm entries).length_eq.trans_le hlength)]
  exact byCount_perm entries

/-- No entry that is left out has a higher count than one that is not. -/
theorem le_of_not_mem_top {n : ℕ} {entries : List (κ × ℕ)} {entry listed : κ × ℕ}
    (hentry : entry ∈ entries) (homitted : entry ∉ top n entries)
    (hlisted : listed ∈ top n entries) : entry.2 ≤ listed.2 := by
  have hsplit := pairwise_byCount entries
  rw [← List.take_append_drop n (byCount entries), List.pairwise_append] at hsplit
  have hmem := (byCount_perm entries).mem_iff.mpr hentry
  rw [← List.take_append_drop n (byCount entries), List.mem_append] at hmem
  exact hsplit.2.2 listed hlisted entry (hmem.resolve_left homitted)

/-- Entries of one count keep their order. -/
theorem filter_byCount (count : ℕ) (entries : List (κ × ℕ)) :
    (byCount entries).filter (fun entry ↦ entry.2 = count) =
      entries.filter fun entry ↦ entry.2 = count := by
  have hinsert (entry : κ × ℕ) (list : List (κ × ℕ))
      (hlist : list.Pairwise fun first second ↦ second.2 ≤ first.2) :
      (list.orderedInsert (fun first second ↦ second.2 ≤ first.2) entry).filter
          (fun entry ↦ entry.2 = count) =
        (entry :: list).filter fun entry ↦ entry.2 = count := by
    induction list with
    | nil => rfl
    | cons first list ih =>
      rw [List.orderedInsert_cons]
      split
      · rfl
      · rename_i hlower
        rw [List.filter_cons, ih hlist.of_cons]
        by_cases hentry : entry.2 = count
        · -- an entry behind a higher one
          have hfirst : first.2 ≠ count := by omega
          simp [hentry, hfirst]
        · simp [List.filter_cons, hentry]
  induction entries with
  | nil => rfl
  | cons entry entries ih =>
    have hsorted : byCount (entry :: entries) =
        (byCount entries).orderedInsert (fun first second ↦ second.2 ≤ first.2) entry := rfl
    rw [hsorted, hinsert entry _ (pairwise_byCount entries), List.filter_cons, List.filter_cons, ih]

/-- A list from high to low is what is higher than a count, what has it and what is lower. -/
theorem eq_append_of_pairwise {list : List (κ × ℕ)}
    (hlist : list.Pairwise fun first second ↦ second.2 ≤ first.2) (count : ℕ) :
    list = (list.filter fun entry ↦ count < entry.2) ++
      ((list.filter fun entry ↦ entry.2 = count) ++ list.filter fun entry ↦ entry.2 < count) := by
  induction list with
  | nil => rfl
  | cons first list ih =>
    rw [List.pairwise_cons] at hlist
    have hrest := ih hlist.2
    rcases lt_trichotomy count first.2 with hhigher | hsame | hlower
    · simp only [List.filter_cons, hhigher, decide_true, if_true, hhigher.ne', decide_false,
        Bool.false_eq_true, if_false, hhigher.not_gt, List.cons_append]
      rw [← hrest]
    · have hnone : (list.filter fun entry ↦ count < entry.2) = [] :=
        List.filter_eq_nil_iff.mpr fun entry hentry ↦ by
          have hle := hlist.1 entry hentry
          simp only [decide_eq_true_eq]
          omega
      rw [hnone, List.nil_append] at hrest
      subst hsame
      simp only [List.filter_cons, lt_irrefl, decide_false, Bool.false_eq_true, if_false,
        decide_true, if_true, hnone, List.nil_append, List.cons_append]
      rw [← hrest]
    · have hnone (p : κ × ℕ → Bool) (hp : ∀ entry, p entry = true → count ≤ entry.2) :
          list.filter p = [] :=
        List.filter_eq_nil_iff.mpr fun entry hentry htrue ↦ by
          have hle := hlist.1 entry hentry
          have hcount := hp entry htrue
          omega
      rw [hnone _ fun entry h ↦ (of_decide_eq_true h).le,
        hnone _ fun entry h ↦ (of_decide_eq_true h).ge, List.nil_append, List.nil_append] at hrest
      simp only [List.filter_cons, hlower.not_gt, hlower.ne, hlower, decide_false, decide_true,
        Bool.false_eq_true, if_false, if_true]
      rw [hnone _ fun entry h ↦ (of_decide_eq_true h).le,
        hnone _ fun entry h ↦ (of_decide_eq_true h).ge, List.nil_append, List.nil_append, ← hrest]

/-- An entry is in the top exactly if it is among the first entries of its count, as many as the
higher ones leave room for. -/
theorem mem_top_iff {n : ℕ} {entries : List (κ × ℕ)} {entry : κ × ℕ} :
    entry ∈ top n entries ↔ entry ∈ (entries.filter fun other ↦ other.2 = entry.2).take
      (n - entries.countP fun other ↦ entry.2 < other.2) := by
  have hhigher : ((byCount entries).filter fun other ↦ entry.2 < other.2).length =
      entries.countP fun other ↦ entry.2 < other.2 := by
    rw [← List.countP_eq_length_filter, (byCount_perm entries).countP_eq]
  have hnot (test : κ × ℕ → Bool) (htest : test entry = false) (k : ℕ) :
      entry ∉ ((byCount entries).filter test).take k := fun hmem ↦ by
    have htrue := (List.mem_filter.mp (List.mem_of_mem_take hmem)).2
    rw [htest] at htrue
    cases htrue
  rw [top, eq_append_of_pairwise (pairwise_byCount entries) entry.2, List.take_append,
    List.take_append, List.mem_append, List.mem_append, hhigher, filter_byCount]
  simp only [hnot (fun other ↦ entry.2 < other.2) (by simp),
    hnot (fun other ↦ other.2 < entry.2) (by simp), false_or, or_false]

/-- Few entries are higher than one in the top. -/
theorem countP_lt_of_mem_top {n : ℕ} {entries : List (κ × ℕ)} {entry : κ × ℕ}
    (hmem : entry ∈ top n entries) : (entries.countP fun other ↦ entry.2 < other.2) < n := by
  rw [mem_top_iff] at hmem
  by_contra hmany
  rw [Nat.sub_eq_zero_of_le (Nat.le_of_not_lt hmany), List.take_zero] at hmem
  exact List.not_mem_nil hmem

/-- A first entry is in the top if few entries are higher. -/
theorem mem_top_cons {n : ℕ} {entries : List (κ × ℕ)} {entry : κ × ℕ}
    (hfew : ((entry :: entries).countP fun other ↦ entry.2 < other.2) < n) :
    entry ∈ top n (entry :: entries) := by
  rw [mem_top_iff, List.filter_cons_of_pos (by simp)]
  obtain ⟨room, hroom⟩ := Nat.exists_eq_succ_of_ne_zero (Nat.sub_ne_zero_of_lt hfew)
  rw [hroom, List.take_succ_cons]
  exact List.mem_cons_self

/-- Some order of the entries has an entry in the top exactly if few entries are higher. -/
theorem exists_mem_top_iff [DecidableEq κ] {n : ℕ} {entries : List (κ × ℕ)} {entry : κ × ℕ} :
    (∃ order : List (κ × ℕ), order.Perm entries ∧ entry ∈ top n order) ↔
      entry ∈ entries ∧ (entries.countP fun other ↦ entry.2 < other.2) < n := by
  constructor
  · rintro ⟨order, hperm, hmem⟩
    rw [← hperm.countP_eq, ← hperm.mem_iff]
    exact ⟨mem_of_mem_top hmem, countP_lt_of_mem_top hmem⟩
  · rintro ⟨hmem, hfew⟩
    have hperm : (entry :: entries.erase entry).Perm entries := (List.perm_cons_erase hmem).symm
    rw [← hperm.countP_eq] at hfew
    exact ⟨_, hperm, mem_top_cons hfew⟩

/-- The same for items that are ranked by a size. -/
theorem exists_mem_top_map_iff [DecidableEq κ] (size : κ → ℕ) {n : ℕ} {items : List κ} {item : κ} :
    (∃ order : List κ, order.Perm items ∧
        (item, size item) ∈ top n (order.map fun other ↦ (other, size other))) ↔
      item ∈ items ∧ (items.countP fun other ↦ size item < size other) < n := by
  have hcount (order : List κ) :
      ((order.map fun other ↦ (other, size other)).countP fun other ↦ size item < other.2) =
        order.countP fun other ↦ size item < size other := by
    rw [List.countP_map]
    rfl
  constructor
  · rintro ⟨order, hperm, hmem⟩
    obtain ⟨other, hother, heq⟩ := List.mem_map.mp (mem_of_mem_top hmem)
    obtain rfl : other = item := congrArg Prod.fst heq
    have hfew := countP_lt_of_mem_top hmem
    rw [hcount, hperm.countP_eq] at hfew
    exact ⟨hperm.mem_iff.mp hother, hfew⟩
  · rintro ⟨hmem, hfew⟩
    have hperm : (item :: items.erase item).Perm items := (List.perm_cons_erase hmem).symm
    rw [← hperm.countP_eq, ← hcount] at hfew
    exact ⟨_, hperm, mem_top_cons hfew⟩

/-- The counts of the top do not depend on the order of the entries. -/
theorem map_snd_byCount_eq {entries other : List (κ × ℕ)} (hperm : entries.Perm other) :
    (byCount entries).map Prod.snd = (byCount other).map Prod.snd := by
  have hcounts : ((byCount entries).map Prod.snd).Perm ((byCount other).map Prod.snd) :=
    (((byCount_perm entries).trans hperm).trans (byCount_perm other).symm).map Prod.snd
  have hdescending (list : List (κ × ℕ)) :
      ((byCount list).map Prod.snd).Pairwise fun first second ↦ second ≤ first :=
    List.pairwise_map.mpr (pairwise_byCount list)
  exact hcounts.eq_of_pairwise (fun a b _ _ h h' ↦ le_antisymm h' h) (hdescending entries)
    (hdescending other)

theorem map_snd_top_eq (n : ℕ) {entries other : List (κ × ℕ)} (hperm : entries.Perm other) :
    (top n entries).map Prod.snd = (top n other).map Prod.snd := by
  rw [top, top, List.map_take, List.map_take, map_snd_byCount_eq hperm]

/-- Whenever two entries have the same count, enough others have a higher one. -/
def Decided (n : ℕ) (entries : List (κ × ℕ)) : Prop :=
  ∀ first ∈ entries, ∀ second ∈ entries, first.2 = second.2 → first ≠ second →
    n ≤ entries.countP fun entry ↦ first.2 < entry.2

/-- In a list from high to low, only what comes before an item is higher. -/
theorem countP_higher_le {list : List (κ × ℕ)}
    (hlist : list.Pairwise fun first second ↦ second.2 ≤ first.2) {i : ℕ} (hi : i < list.length) :
    (list.countP fun entry ↦ list[i].2 < entry.2) ≤ i := by
  have hdrop : (list.drop i).countP (fun entry ↦ list[i].2 < entry.2) = 0 := by
    rw [List.countP_eq_zero]
    intro entry hentry
    rw [List.drop_eq_getElem_cons hi] at hentry
    rcases List.mem_cons.mp hentry with rfl | hafter
    · simp
    · have hpair := hlist.sublist (List.drop_sublist i list)
      rw [List.drop_eq_getElem_cons hi, List.pairwise_cons] at hpair
      simpa using hpair.1 entry hafter
  calc list.countP (fun entry ↦ list[i].2 < entry.2)
      = (list.take i).countP (fun entry ↦ list[i].2 < entry.2) +
          (list.drop i).countP (fun entry ↦ list[i].2 < entry.2) := by
        rw [← List.countP_append, List.take_append_drop]
    _ ≤ (list.take i).length := by
        rw [hdrop]
        exact List.countP_le_length
    _ ≤ i := List.length_take_le i list

/-- When ties are decided, the top does not depend on the order of the entries. -/
theorem top_eq_of_decided {n : ℕ} {entries other : List (κ × ℕ)} (hdecided : Decided n entries)
    (hperm : entries.Perm other) : top n entries = top n other := by
  have hlength : (top n entries).length = (top n other).length := by
    rw [length_top, length_top, hperm.length_eq]
  refine List.ext_getElem hlength fun i hi hi' ↦ ?_
  have hcounts : (top n entries)[i].2 = (top n other)[i].2 := by
    have hmap := map_snd_top_eq n hperm
    have hget := List.getElem_of_eq hmap (i := i) (by simpa using hi)
    simpa using hget
  by_contra hne
  have hmem := mem_of_mem_top (List.getElem_mem hi)
  have hmem' := hperm.mem_iff.mpr (mem_of_mem_top (List.getElem_mem hi'))
  have hhigher := hdecided _ hmem _ hmem' hcounts hne
  obtain ⟨hlisted, hinside⟩ : i < n ∧ i < (byCount entries).length := by
    simpa [top] using hi
  have hget : (top n entries)[i] = (byCount entries)[i] := List.getElem_take
  rw [hget, ← (byCount_perm entries).countP_eq] at hhigher
  have hlower := countP_higher_le (pairwise_byCount entries) hinside
  omega

theorem byCount_map_swap [DecidableEq κ] {entries : List (κ × ℕ)} {first second : κ × ℕ}
    (hsame : first.2 = second.2) :
    byCount (entries.map (Equiv.swap first second)) =
      (byCount entries).map (Equiv.swap first second) := by
  have hcount (entry : κ × ℕ) : (Equiv.swap first second entry).2 = entry.2 := by
    rw [Equiv.swap_apply_def]
    split
    · rename_i hfirst
      rw [hfirst, hsame]
    · split
      · rename_i hsecond
        rw [hsecond, hsame]
      · rfl
  refine (List.map_insertionSort _ _ _ _ fun a _ b _ ↦ ?_).symm
  rw [hcount, hcount]

/-- An entry that has the count of two tied ones is in the top, when the tie is not decided. -/
theorem exists_mem_top_of_tie {n : ℕ} {entries : List (κ × ℕ)} {first : κ × ℕ}
    (hfirst : first ∈ entries)
    (hfew : (entries.countP fun entry ↦ first.2 < entry.2) < n) :
    ∃ listed ∈ top n entries, listed.2 = first.2 := by
  by_cases hlisted : first ∈ top n entries
  · exact ⟨first, hlisted, rfl⟩
  · by_contra hnone
    push Not at hnone
    have hhigher : ∀ listed ∈ top n entries, decide (first.2 < listed.2) = true := by
      intro listed hmem
      have hle := le_of_not_mem_top hfirst hlisted hmem
      have hne := hnone listed hmem
      simp only [decide_eq_true_eq]
      omega
    have hshort : n < entries.length := by
      by_contra hlong
      exact hlisted ((top_perm (Nat.le_of_not_lt hlong)).mem_iff.mpr hfirst)
    have hall : (top n entries).countP (fun entry ↦ first.2 < entry.2) = n := by
      rw [List.countP_eq_length.mpr hhigher, length_top]
      omega
    have hsub : (top n entries).countP (fun entry ↦ first.2 < entry.2) ≤
        entries.countP fun entry ↦ first.2 < entry.2 := by
      rw [← (byCount_perm entries).countP_eq]
      exact (List.take_sublist n _).countP_le
    omega

/-- When a tie is not decided, another order of the entries has another top. -/
theorem exists_top_ne_of_not_decided [DecidableEq κ] {n : ℕ} {entries : List (κ × ℕ)}
    (hnodup : entries.Nodup) (htie : ¬ Decided n entries) :
    ∃ other : List (κ × ℕ), other.Perm entries ∧ top n other ≠ top n entries := by
  unfold Decided at htie
  push Not at htie
  obtain ⟨first, hfirst, second, hsecond, hsame, hne, hfew⟩ := htie
  obtain ⟨listed, hlisted, hcount⟩ := exists_mem_top_of_tie hfirst hfew
  -- one of the two tied entries is not the listed one
  obtain ⟨rival, hrival, hrivalCount, hrivalNe⟩ : ∃ rival ∈ entries,
      rival.2 = listed.2 ∧ rival ≠ listed := by
    by_cases hlistedFirst : listed = first
    · exact ⟨second, hsecond, by rw [hcount, hsame], fun heq ↦ hne (by rw [heq, hlistedFirst])⟩
    · exact ⟨first, hfirst, hcount.symm, Ne.symm hlistedFirst⟩
  refine ⟨entries.map (Equiv.swap listed rival), ?_, fun htop ↦ hrivalNe ?_⟩
  · refine (List.perm_ext_iff_of_nodup
      (hnodup.map (Equiv.injective _)) hnodup).mpr fun entry ↦ ?_
    have hmem (entry : κ × ℕ) (hentry : entry ∈ entries) :
        Equiv.swap listed rival entry ∈ entries := by
      rw [Equiv.swap_apply_def]
      split
      · exact hrival
      · split
        · exact mem_of_mem_top hlisted
        · exact hentry
    constructor
    · intro hentry
      obtain ⟨origin, horigin, rfl⟩ := List.mem_map.mp hentry
      exact hmem origin horigin
    · intro hentry
      exact List.mem_map.mpr ⟨_, hmem entry hentry, Equiv.swap_apply_self _ _ _⟩
  · rw [top, byCount_map_swap hrivalCount.symm, ← List.map_take] at htop
    have hfixed := (List.map_inj_left (f := Equiv.swap listed rival) (g := id)).mp
      (htop.trans (List.map_id _).symm) listed hlisted
    rw [Equiv.swap_apply_left] at hfixed
    exact hfixed

end Top

/-! ## Percentiles -/

section Percentile

variable {α : Type*} [LinearOrder α]

def atMost (values : List α) (bound : α) : ℕ := values.countP fun value ↦ value ≤ bound

/-- The least of the values that at least the given part of them do not exceed. -/
structure NearestRank (values : List α) (part : ℚ) (value : α) : Prop where
  mem : value ∈ values
  reached : part * values.length ≤ atMost values value
  least : ∀ other ∈ values, other < value → (atMost values other : ℚ) < part * values.length

theorem atMost_perm {values other : List α} (hperm : values.Perm other) (bound : α) :
    atMost values bound = atMost other bound :=
  hperm.countP_eq _

theorem NearestRank.perm {values other : List α} {part : ℚ} {value : α}
    (hrank : NearestRank values part value) (hperm : values.Perm other) :
    NearestRank other part value := by
  refine ⟨hperm.mem_iff.mp hrank.mem, ?_, fun q hq hlt ↦ ?_⟩
  · rw [← hperm.length_eq, ← atMost_perm hperm]
    exact hrank.reached
  · rw [← hperm.length_eq, ← atMost_perm hperm]
    exact hrank.least q (hperm.mem_iff.mpr hq) hlt

/-- In a sorted list, at least the values up to a place do not exceed the one there. -/
theorem lt_atMost {sorted : List α} (hsorted : sorted.Pairwise (· ≤ ·)) {i : ℕ}
    (hi : i < sorted.length) : i < atMost sorted sorted[i] := by
  have hall : (sorted.take (i + 1)).countP (fun value ↦ value ≤ sorted[i]) = i + 1 := by
    rw [List.countP_eq_length.mpr, List.length_take]
    · omega
    · intro value hvalue
      obtain ⟨j, hj, rfl⟩ := List.mem_iff_getElem.mp hvalue
      rw [List.length_take] at hj
      rw [List.getElem_take, decide_eq_true_eq]
      exact hsorted.rel_get_of_le (a := ⟨j, by omega⟩) (b := ⟨i, hi⟩) (by simp; omega)
  have hsub := (List.take_sublist (i + 1) sorted).countP_le (p := fun value ↦ value ≤ sorted[i])
  rw [hall] at hsub
  exact hsub

/-- What does not exceed a smaller value comes before. -/
theorem atMost_le_of_lt {sorted : List α} (hsorted : sorted.Pairwise (· ≤ ·)) {i : ℕ}
    (hi : i < sorted.length) {other : α} (hother : other < sorted[i]) :
    atMost sorted other ≤ i := by
  have hdrop : (sorted.drop i).countP (fun value ↦ value ≤ other) = 0 := by
    rw [List.countP_eq_zero]
    intro value hvalue
    obtain ⟨j, hj, rfl⟩ := List.mem_iff_getElem.mp hvalue
    rw [List.length_drop] at hj
    rw [List.getElem_drop, decide_eq_true_eq, not_le]
    exact hother.trans_le
      (hsorted.rel_get_of_le (a := ⟨i, hi⟩) (b := ⟨i + j, by omega⟩) (by simp))
  calc atMost sorted other
      = (sorted.take i).countP (fun value ↦ value ≤ other) +
          (sorted.drop i).countP (fun value ↦ value ≤ other) := by
        rw [← List.countP_append, List.take_append_drop, atMost]
    _ ≤ (sorted.take i).length := by
        rw [hdrop]
        exact List.countP_le_length
    _ ≤ i := List.length_take_le i sorted

/-- The value at the rank is the nearest one. -/
theorem nearestRank_getElem {sorted : List α} (hsorted : sorted.Pairwise (· ≤ ·)) {part : ℚ}
    {i : ℕ} (hi : i < sorted.length) (hreached : part * sorted.length ≤ i + 1)
    (hleast : (i : ℚ) < part * sorted.length) : NearestRank sorted part sorted[i] := by
  refine ⟨List.getElem_mem hi, ?_, fun other _ hother ↦ ?_⟩
  · have hcount : i + 1 ≤ atMost sorted sorted[i] := lt_atMost hsorted hi
    exact hreached.trans (by exact_mod_cast hcount)
  · have hcount := atMost_le_of_lt hsorted hi hother
    exact lt_of_le_of_lt (by exact_mod_cast hcount) hleast

end Percentile

end MongoCore.Library.Ranking
