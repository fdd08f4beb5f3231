import MongoCore.Analytics.Collector
import MongoCore.Library.Ranking
import Mathlib.Data.List.GetD

/-!
# Summaries of events

The recorded events are summed up: how many there are and how many failed, percentiles of the
latencies, and the ten operations and collections that occur most often.  The counts are collected
in hash maps, whose iteration order is a parameter.

Latencies and ranks are rational numbers.  The order of the events and of the iterations has no
influence, except that it decides which of several keys of one count come first, or come at all.
-/

namespace MongoCore.Analytics

open MongoCore.Library MongoCore.Library.Ranking

/-! ## The summary -/

structure AnalyticsSummary where
  totalOperations : ℕ
  totalErrors : ℕ
  errorRate : ℚ
  p50LatencyMs : ℚ
  p95LatencyMs : ℚ
  p99LatencyMs : ℚ
  topOperations : List (OperationKind × ℕ)
  topCollections : List (String × ℕ)
  deriving DecidableEq

/-- The iteration orders of the two hash maps. -/
structure HashOrders where
  operations : Iteration (OperationKind × ℕ)
  collections : Iteration (String × ℕ)

def percentile (sorted : List ℚ) (pct : ℚ) : ℚ :=
  if sorted.isEmpty then 0
  else if sorted.length = 1 then sorted.getD 0 0
  else
    let rank := ⌈pct * sorted.length⌉₊
    sorted.getD (min (rank - 1) (sorted.length - 1)) 0

def AnalyticsEvent.latencyMs (event : AnalyticsEvent) : ℚ := event.latency / 1000000

/-- The name of the collection with that of its database. -/
def AnalyticsEvent.collectionKey (event : AnalyticsEvent) : String :=
  event.database ++ "." ++ event.collection

def sortedLatencies (events : List AnalyticsEvent) : List ℚ :=
  (events.map AnalyticsEvent.latencyMs).insertionSort (· ≤ ·)

/-- Count the events by a key, in the order in which the hash map is iterated take the counts, and
keep the ten highest. -/
def topTen {κ : Type} [DecidableEq κ] (order : Iteration (κ × ℕ)) (key : AnalyticsEvent → κ)
    (events : List AnalyticsEvent) : List (κ × ℕ) :=
  top 10 (order.list (tally (events.map key)).entries)

def aggregate (orders : HashOrders) (events : List AnalyticsEvent) : AnalyticsSummary :=
  if events.isEmpty then ⟨0, 0, 0, 0, 0, 0, [], []⟩
  else
    let totalOperations := events.length
    let totalErrors := (events.filter fun event ↦ !event.success).length
    let latencies := sortedLatencies events
    {
      totalOperations := totalOperations
      totalErrors := totalErrors
      errorRate := totalErrors / totalOperations
      p50LatencyMs := percentile latencies (50 / 100)
      p95LatencyMs := percentile latencies (95 / 100)
      p99LatencyMs := percentile latencies (99 / 100)
      topOperations := topTen orders.operations AnalyticsEvent.operation events
      topCollections := topTen orders.collections AnalyticsEvent.collectionKey events }

/-! ## Percentiles -/

theorem sortedLatencies_perm (events : List AnalyticsEvent) :
    (sortedLatencies events).Perm (events.map AnalyticsEvent.latencyMs) :=
  List.perm_insertionSort _ _

theorem pairwise_sortedLatencies (events : List AnalyticsEvent) :
    (sortedLatencies events).Pairwise (· ≤ ·) :=
  List.pairwise_insertionSort _ _

/-- Sorting forgets the order of the events. -/
theorem sortedLatencies_eq {events other : List AnalyticsEvent} (hperm : events.Perm other) :
    sortedLatencies events = sortedLatencies other := by
  have hsorted : (sortedLatencies events).Perm (sortedLatencies other) :=
    ((sortedLatencies_perm events).trans (hperm.map _)).trans (sortedLatencies_perm other).symm
  exact hsorted.eq_of_pairwise (fun a b _ _ h h' ↦ le_antisymm h h')
    (pairwise_sortedLatencies events) (pairwise_sortedLatencies other)

/-- The place of a percentile in a list that is not empty. -/
def rankIndex (length : ℕ) (pct : ℚ) : ℕ := min (⌈pct * length⌉₊ - 1) (length - 1)

theorem rankIndex_lt {length : ℕ} (hlength : length ≠ 0) (pct : ℚ) :
    rankIndex length pct < length := by
  unfold rankIndex
  omega

theorem rankIndex_mono (length : ℕ) {pct other : ℚ} (hle : pct ≤ other) :
    rankIndex length pct ≤ rankIndex length other := by
  have hceil : ⌈pct * length⌉₊ ≤ ⌈other * length⌉₊ :=
    Nat.ceil_mono (mul_le_mul_of_nonneg_right hle (Nat.cast_nonneg length))
  unfold rankIndex
  omega

/-- A single value has its own branch, which gives what the rank would give. -/
theorem percentile_eq_get {sorted : List ℚ} (hsorted : sorted.length ≠ 0) (pct : ℚ) :
    percentile sorted pct = sorted.get ⟨_, rankIndex_lt hsorted pct⟩ := by
  have hempty : sorted.isEmpty = false := by
    simpa [List.isEmpty_eq_false_iff, List.length_eq_zero_iff] using hsorted
  have hget : sorted.get ⟨_, rankIndex_lt hsorted pct⟩ =
      sorted.getD (rankIndex sorted.length pct) 0 :=
    (List.getD_eq_getElem sorted 0 _).symm
  rw [hget, percentile, hempty, if_neg Bool.false_ne_true]
  by_cases hone : sorted.length = 1
  · have hindex : rankIndex sorted.length pct = 0 := by
      have hlt := rankIndex_lt hsorted pct
      omega
    rw [if_pos hone, hindex]
  · rw [if_neg hone]
    rfl

theorem percentile_mono {sorted : List ℚ} (hpairwise : sorted.Pairwise (· ≤ ·)) {pct other : ℚ}
    (hle : pct ≤ other) : percentile sorted pct ≤ percentile sorted other := by
  by_cases hsorted : sorted.length = 0
  · rw [List.length_eq_zero_iff] at hsorted
    subst hsorted
    exact le_rfl
  · rw [percentile_eq_get hsorted, percentile_eq_get hsorted]
    exact hpairwise.rel_get_of_le (a := ⟨_, rankIndex_lt hsorted pct⟩)
      (b := ⟨_, rankIndex_lt hsorted other⟩) (rankIndex_mono _ hle)

/-- A percentage between zero and a hundred has its nearest rank. -/
theorem nearestRank_percentile {sorted : List ℚ} (hpairwise : sorted.Pairwise (· ≤ ·))
    (hsorted : sorted.length ≠ 0) {pct : ℚ} (hpos : 0 < pct) (hle : pct ≤ 1) :
    NearestRank sorted pct (percentile sorted pct) := by
  have hlength : (0 : ℚ) < sorted.length := by exact_mod_cast Nat.pos_of_ne_zero hsorted
  have hrank : 0 < ⌈pct * sorted.length⌉₊ := Nat.ceil_pos.mpr (mul_pos hpos hlength)
  have hrank' : ⌈pct * sorted.length⌉₊ ≤ sorted.length :=
    Nat.ceil_le.mpr (mul_le_of_le_one_left hlength.le hle)
  have hindex : rankIndex sorted.length pct + 1 = ⌈pct * sorted.length⌉₊ := by
    unfold rankIndex
    omega
  rw [percentile_eq_get hsorted]
  refine nearestRank_getElem hpairwise _ ?_ ?_
  · have hceil : pct * sorted.length ≤ (⌈pct * sorted.length⌉₊ : ℚ) := Nat.le_ceil _
    rw [← hindex] at hceil
    exact_mod_cast hceil
  · exact Nat.lt_ceil.mp (by omega)

/-! ## The top of a count -/

section TopTen

variable {κ : Type} [DecidableEq κ] (key : AnalyticsEvent → κ)

def eventsWith (events : List AnalyticsEvent) (value : κ) : ℕ := (events.map key).count value

def keysOf (events : List AnalyticsEvent) : List κ := (events.map key).dedup

/-- A list of at most ten keys with their counts, from the highest to the lowest, that leaves out
no key with a higher count than one it has. -/
structure TopOf (events : List AnalyticsEvent) (listed : List (κ × ℕ)) : Prop where
  counted : ∀ entry ∈ listed, entry.1 ∈ keysOf key events ∧ entry.2 = eventsWith key events entry.1
  distinct : (listed.map Prod.fst).Nodup
  descending : listed.Pairwise fun first second ↦ second.2 ≤ first.2
  length_eq : listed.length = min 10 (keysOf key events).length
  omitted : ∀ value ∈ keysOf key events, value ∉ listed.map Prod.fst →
    ∀ entry ∈ listed, eventsWith key events value ≤ entry.2

/-- Keys of one count come behind ten keys of higher counts. -/
def TiesDecided (events : List AnalyticsEvent) : Prop :=
  ∀ first ∈ keysOf key events, ∀ second ∈ keysOf key events,
    eventsWith key events first = eventsWith key events second → first ≠ second →
      10 ≤ (keysOf key events).countP fun value ↦
        eventsWith key events first < eventsWith key events value

variable {key}

/-- Whatever the order of the iteration, the counts are those of the keys. -/
theorem counts_perm (order : Iteration (κ × ℕ)) (events : List AnalyticsEvent) :
    (order.list (tally (events.map key)).entries).Perm
      ((keysOf key events).map fun value ↦ (value, eventsWith key events value)) :=
  (order.perm _).trans (tally_entries_perm _)

theorem mem_counts (order : Iteration (κ × ℕ)) (events : List AnalyticsEvent) {value : κ}
    (hvalue : value ∈ keysOf key events) :
    (value, eventsWith key events value) ∈ order.list (tally (events.map key)).entries :=
  (counts_perm order events).mem_iff.mpr (List.mem_map_of_mem hvalue)

theorem counted_topTen (order : Iteration (κ × ℕ)) (events : List AnalyticsEvent) {entry : κ × ℕ}
    (hentry : entry ∈ topTen order key events) :
    entry.1 ∈ keysOf key events ∧ entry.2 = eventsWith key events entry.1 := by
  obtain ⟨value, hvalue, rfl⟩ :=
    List.mem_map.mp ((counts_perm order events).mem_iff.mp (mem_of_mem_top hentry))
  exact ⟨hvalue, rfl⟩

theorem topOf_topTen (order : Iteration (κ × ℕ)) (events : List AnalyticsEvent) :
    TopOf key events (topTen order key events) where
  counted _ := counted_topTen order events
  distinct := by
    have hkeys : ((order.list (tally (events.map key)).entries).map Prod.fst).Nodup :=
      ((order.perm _).map Prod.fst).nodup_iff.mpr (tally _).nodup
    have hranked := ((byCount_perm _).map Prod.fst).nodup_iff.mpr hkeys
    exact hranked.sublist ((List.take_sublist 10 _).map Prod.fst)
  descending := pairwise_top 10 _
  length_eq := by
    rw [topTen, length_top, (counts_perm order events).length_eq, List.length_map]
  omitted value hvalue homitted entry hentry := by
    refine le_of_not_mem_top (mem_counts order events hvalue) (fun hmem ↦ homitted ?_) hentry
    exact List.mem_map.mpr ⟨_, hmem, rfl⟩

/-- The counts that are listed depend only on the set of events. -/
theorem map_snd_topTen_eq (order order' : Iteration (κ × ℕ)) {events other : List AnalyticsEvent}
    (hperm : events.Perm other) :
    (topTen order key events).map Prod.snd = (topTen order' key other).map Prod.snd := by
  have htally := tally_entries_perm_of_perm (hperm.map key)
  exact map_snd_top_eq 10 (((order.perm _).trans htally).trans (order'.perm _).symm)

/-- When there are no more than ten keys, the listed counts add up to the number of events. -/
theorem sum_topTen (order : Iteration (κ × ℕ)) {events : List AnalyticsEvent}
    (hfew : (keysOf key events).length ≤ 10) :
    ((topTen order key events).map Prod.snd).sum = events.length := by
  have hlength : (order.list (tally (events.map key)).entries).length ≤ 10 := by
    rw [(counts_perm order events).length_eq, List.length_map]
    exact hfew
  rw [topTen, ((top_perm hlength).map Prod.snd).sum_eq, ((order.perm _).map Prod.snd).sum_eq,
    sum_tally, List.length_map]

/-- The ties among the counts are the ties among the keys. -/
theorem decided_iff (order : Iteration (κ × ℕ)) (events : List AnalyticsEvent) :
    Decided 10 (order.list (tally (events.map key)).entries) ↔ TiesDecided key events := by
  have hperm := @counts_perm κ _ key order events
  have hcount (n : ℕ) : ((order.list (tally (events.map key)).entries).countP
      fun entry ↦ n < entry.2) =
        (keysOf key events).countP fun value ↦ n < eventsWith key events value := by
    rw [hperm.countP_eq, List.countP_map]
    rfl
  unfold Decided TiesDecided
  simp only [hcount, hperm.mem_iff, List.forall_mem_map]
  simp only [ne_eq, Prod.mk.injEq, not_and]
  constructor
  · intro hdecided first hfirst second hsecond hsame hne
    exact hdecided first hfirst second hsecond hsame fun heq ↦ absurd heq hne
  · intro hdecided first hfirst second hsecond hsame hne
    exact hdecided first hfirst second hsecond hsame fun heq ↦
      hne heq (by rw [heq])

end TopTen

/-! ## The summary as a whole -/

/-- What a summary says of the events, whatever their order and that of the iterations. -/
structure Summarises (events : List AnalyticsEvent) (summary : AnalyticsSummary) : Prop where
  totalOperations : summary.totalOperations = events.length
  totalErrors : summary.totalErrors = events.countP fun event ↦ !event.success
  errorRate : summary.errorRate = summary.totalErrors / summary.totalOperations
  ordered : summary.p50LatencyMs ≤ summary.p95LatencyMs ∧
    summary.p95LatencyMs ≤ summary.p99LatencyMs
  nearest : events ≠ [] →
    NearestRank (events.map AnalyticsEvent.latencyMs) (50 / 100) summary.p50LatencyMs ∧
      NearestRank (events.map AnalyticsEvent.latencyMs) (95 / 100) summary.p95LatencyMs ∧
      NearestRank (events.map AnalyticsEvent.latencyMs) (99 / 100) summary.p99LatencyMs
  empty : events = [] →
    summary.p50LatencyMs = 0 ∧ summary.p95LatencyMs = 0 ∧ summary.p99LatencyMs = 0
  topOperations : TopOf AnalyticsEvent.operation events summary.topOperations
  topCollections : TopOf AnalyticsEvent.collectionKey events summary.topCollections
  sumCollections : (keysOf AnalyticsEvent.collectionKey events).length ≤ 10 →
    (summary.topCollections.map Prod.snd).sum = summary.totalOperations

/-- Two summaries have the same figures, and list the same counts. -/
structure SameFigures (summary other : AnalyticsSummary) : Prop where
  totalOperations : summary.totalOperations = other.totalOperations
  totalErrors : summary.totalErrors = other.totalErrors
  errorRate : summary.errorRate = other.errorRate
  p50LatencyMs : summary.p50LatencyMs = other.p50LatencyMs
  p95LatencyMs : summary.p95LatencyMs = other.p95LatencyMs
  p99LatencyMs : summary.p99LatencyMs = other.p99LatencyMs
  operationCounts : summary.topOperations.map Prod.snd = other.topOperations.map Prod.snd
  collectionCounts : summary.topCollections.map Prod.snd = other.topCollections.map Prod.snd

theorem topTen_nil {κ : Type} [DecidableEq κ] (order : Iteration (κ × ℕ))
    (key : AnalyticsEvent → κ) : topTen order key [] = [] := by
  have hperm := @counts_perm κ _ key order []
  have hnil : order.list (tally (([] : List AnalyticsEvent).map key)).entries = [] :=
    List.Perm.eq_nil hperm
  rw [topTen, hnil]
  rfl

/-- The branch for no events gives what the other would give. -/
theorem aggregate_eq (orders : HashOrders) (events : List AnalyticsEvent) :
    aggregate orders events = {
      totalOperations := events.length
      totalErrors := events.countP fun event ↦ !event.success
      errorRate := (events.countP fun event ↦ !event.success : ℕ) / (events.length : ℕ)
      p50LatencyMs := percentile (sortedLatencies events) (50 / 100)
      p95LatencyMs := percentile (sortedLatencies events) (95 / 100)
      p99LatencyMs := percentile (sortedLatencies events) (99 / 100)
      topOperations := topTen orders.operations AnalyticsEvent.operation events
      topCollections := topTen orders.collections AnalyticsEvent.collectionKey events } := by
  cases events with
  | nil =>
    simp only [topTen_nil]
    simp [aggregate, percentile, sortedLatencies]
  | cons event events => simp [aggregate, List.countP_eq_length_filter]

theorem summarises_aggregate (orders : HashOrders) (events : List AnalyticsEvent) :
    Summarises events (aggregate orders events) := by
  rw [aggregate_eq]
  have hpairwise := pairwise_sortedLatencies events
  have hnearest (hevents : events ≠ []) {pct : ℚ} (hpos : 0 < pct) (hle : pct ≤ 1) :
      NearestRank (events.map AnalyticsEvent.latencyMs) pct
        (percentile (sortedLatencies events) pct) := by
    have hlength : (sortedLatencies events).length ≠ 0 := by
      rw [(sortedLatencies_perm events).length_eq, List.length_map]
      exact fun hzero ↦ hevents (List.length_eq_zero_iff.mp hzero)
    exact (nearestRank_percentile hpairwise hlength hpos hle).perm (sortedLatencies_perm events)
  exact {
    totalOperations := rfl
    totalErrors := rfl
    errorRate := rfl
    ordered := ⟨percentile_mono hpairwise (by norm_num), percentile_mono hpairwise (by norm_num)⟩
    nearest := fun hevents ↦ ⟨hnearest hevents (by norm_num) (by norm_num),
      hnearest hevents (by norm_num) (by norm_num), hnearest hevents (by norm_num) (by norm_num)⟩
    empty := by
      rintro rfl
      exact ⟨rfl, rfl, rfl⟩
    topOperations := topOf_topTen _ events
    topCollections := topOf_topTen _ events
    sumCollections := sum_topTen _ }

theorem sameFigures_aggregate (orders orders' : HashOrders) {events other : List AnalyticsEvent}
    (hperm : events.Perm other) :
    SameFigures (aggregate orders events) (aggregate orders' other) := by
  rw [aggregate_eq, aggregate_eq, sortedLatencies_eq hperm, hperm.length_eq, hperm.countP_eq]
  exact ⟨rfl, rfl, rfl, rfl, rfl, rfl, map_snd_topTen_eq _ _ hperm, map_snd_topTen_eq _ _ hperm⟩

/-! ## When the order has no influence -/

section Order

variable {κ : Type} [DecidableEq κ] {key : AnalyticsEvent → κ}

theorem topTen_eq_of_tiesDecided {events other : List AnalyticsEvent}
    (hties : TiesDecided key events) (hperm : events.Perm other)
    (order order' : Iteration (κ × ℕ)) :
    topTen order key events = topTen order' key other := by
  have htally := tally_entries_perm_of_perm (hperm.map key)
  exact top_eq_of_decided ((decided_iff order events).mpr hties)
    (((order.perm _).trans htally).trans (order'.perm _).symm)

theorem exists_topTen_ne {events : List AnalyticsEvent} (hties : ¬ TiesDecided key events) :
    ∃ order order' : Iteration (κ × ℕ), topTen order' key events ≠ topTen order key events := by
  rw [← decided_iff .listed events] at hties
  obtain ⟨other, hperm, hne⟩ :=
    exists_top_ne_of_not_decided (tally (events.map key)).nodup.of_map hties
  refine ⟨.listed, Iteration.taking _ other hperm, fun heq ↦ hne ?_⟩
  simp only [topTen, Iteration.taking, if_true] at heq
  exact heq

end Order

/-- The order has no influence on the summary exactly if the ties among the operations, and those
among the collections, are decided. -/
theorem aggregate_eq_iff (events : List AnalyticsEvent) :
    (∀ orders orders' : HashOrders, ∀ other, events.Perm other →
        aggregate orders' other = aggregate orders events) ↔
      TiesDecided AnalyticsEvent.operation events ∧
        TiesDecided AnalyticsEvent.collectionKey events := by
  constructor
  · intro hsame
    constructor
    · by_contra hties
      obtain ⟨order, order', hne⟩ := exists_topTen_ne hties
      have heq := hsame ⟨order, .listed⟩ ⟨order', .listed⟩ events (.refl events)
      rw [aggregate_eq, aggregate_eq] at heq
      exact hne (congrArg AnalyticsSummary.topOperations heq)
    · by_contra hties
      obtain ⟨order, order', hne⟩ := exists_topTen_ne hties
      have heq := hsame ⟨.listed, order⟩ ⟨.listed, order'⟩ events (.refl events)
      rw [aggregate_eq, aggregate_eq] at heq
      exact hne (congrArg AnalyticsSummary.topCollections heq)
  · rintro ⟨hoperations, hcollections⟩ orders orders' other hperm
    rw [aggregate_eq, aggregate_eq, ← sortedLatencies_eq hperm, ← hperm.length_eq,
      ← hperm.countP_eq,
      ← topTen_eq_of_tiesDecided hoperations hperm orders.operations orders'.operations,
      ← topTen_eq_of_tiesDecided hcollections hperm orders.collections orders'.collections]

/-- The summary of the events is theirs whatever the order, another order gives the same figures
and counts, and the same summary exactly where ties are decided. -/
theorem aggregate_spec (events : List AnalyticsEvent) :
    (∀ orders, Summarises events (aggregate orders events)) ∧
      (∀ orders orders' : HashOrders, ∀ other, events.Perm other →
        SameFigures (aggregate orders events) (aggregate orders' other)) ∧
      ((∀ orders orders' : HashOrders, ∀ other, events.Perm other →
          aggregate orders' other = aggregate orders events) ↔
        TiesDecided AnalyticsEvent.operation events ∧
          TiesDecided AnalyticsEvent.collectionKey events) :=
  ⟨fun orders ↦ summarises_aggregate orders events,
    fun orders orders' _ hperm ↦ sameFigures_aggregate orders orders' hperm,
    aggregate_eq_iff events⟩

/-- Two operations that occur once each are listed as the events come. -/
theorem aggregate_ne_of_swapped :
    aggregate ⟨.listed, .listed⟩
        [⟨.find, "shop", "orders", 2000000, true⟩, ⟨.insert, "shop", "orders", 3000000, true⟩] ≠
      aggregate ⟨.listed, .listed⟩
        [⟨.insert, "shop", "orders", 3000000, true⟩, ⟨.find, "shop", "orders", 2000000, true⟩] := by
  intro heq
  exact absurd (congrArg AnalyticsSummary.topOperations heq) (by decide)

end MongoCore.Analytics
