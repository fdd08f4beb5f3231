import MongoCore.Ingestion.Engine
import MongoCore.Library.KeyedStore
import Mathlib.Data.List.Find
import MongoCore.Library.Results

/-!
# Batches and the dedup key

The collection of an ingestion job with a dedup key is a store whose entries agree if they have
the same complete dedup key.  A chunk is checked against the collection as it was before the chunk,
so it comes in all at once, where a table written row by row comes in one by one.

The main result says when the size of the chunks cannot be seen in the final collection.  Let no
chunk mix rows that can be converted with rows that cannot.  Then it cannot be seen if and only if
no chunk holds two rows of one key that neither the collection nor an earlier chunk had.  Nothing is
claimed about jobs whose calls fail, nor about keys that the database compares in another way than
the code.
-/

namespace MongoCore.Ingestion.Batching

open MongoCore.Library.KeyedStore

variable {V Row : Type} [BEq V]

/-! ## Documents as entries of a keyed store -/

def sameKey (dedupKey : List String) (d e : Document V) : Bool :=
  dedupKey.all fun key ↦ (d.get key).isSome && d.get key == e.get key

theorem sameKey_iff {dedupKey : List String} {d e : Document V} :
    sameKey dedupKey d e = true ↔ ∀ key ∈ dedupKey, ∃ v w,
      d.get key = some v ∧ e.get key = some w ∧ (v == w) = true := by
  simp only [sameKey, List.all_eq_true, Bool.and_eq_true]
  refine forall₂_congr fun key _ ↦ ?_
  cases d.get key <;> cases e.get key <;> simp

/-- What becomes of an existing document when one of its key comes in. -/
def combine : ConflictStrategy → Document V → Document V → Document V
  | .skip, _, existing => existing
  | .overwrite, incoming, _ => incoming
  | .merge, incoming, existing => mergeDocuments incoming existing

/-- A document with the key fields of another has its key. -/
theorem sameKey_congr {dedupKey : List String} {d e : Document V}
    (h : ∀ key ∈ dedupKey, d.get key = e.get key) (x : Document V) :
    sameKey dedupKey d x = sameKey dedupKey e x := by
  rw [Bool.eq_iff_iff, sameKey_iff, sameKey_iff]
  exact forall₂_congr fun key hkey ↦ by rw [h key hkey]

/-- A document of a key overlays it with equal values. -/
theorem get_mergeDocuments_of_sameKey {dedupKey : List String} {d e : Document V}
    (h : sameKey dedupKey d e = true) (existing : Document V) :
    ∀ key ∈ dedupKey, (mergeDocuments d existing).get key = d.get key := by
  intro key hkey
  obtain ⟨v, -, hd, -⟩ := sameKey_iff.mp h key hkey
  rw [get_mergeDocuments, hd]
  rfl

variable [PartialEquivBEq V]

theorem sameKey_symm {dedupKey : List String} (d e : Document V)
    (h : sameKey dedupKey d e = true) : sameKey dedupKey e d = true := by
  rw [sameKey_iff] at h ⊢
  intro key hkey
  obtain ⟨v, w, hd, he, hvw⟩ := h key hkey
  exact ⟨w, v, he, hd, BEq.symm hvw⟩

theorem sameKey_trans {dedupKey : List String} (d e x : Document V)
    (hde : sameKey dedupKey d e = true) (hex : sameKey dedupKey e x = true) :
    sameKey dedupKey d x = true := by
  rw [sameKey_iff] at hde hex ⊢
  intro key hkey
  obtain ⟨v, w, hd, he, hvw⟩ := hde key hkey
  obtain ⟨w', u, he', hx, hwu⟩ := hex key hkey
  obtain rfl : w = w' := Option.some.inj (he.symm.trans he')
  exact ⟨v, u, hd, hx, BEq.trans hvw hwu⟩

/-- The documents of a collection, with the dedup key and the strategy of a job. -/
def keyed (dedupKey : List String) (strategy : ConflictStrategy) : Keyed (Document V) where
  same := sameKey dedupKey
  combine := combine strategy
  symm := sameKey_symm
  trans := sameKey_trans
  same_combine := by
    intro d e x h
    have hincoming : sameKey dedupKey d x = sameKey dedupKey e x :=
      Bool.eq_iff_iff.mpr ⟨sameKey_trans e d x (sameKey_symm d e h), sameKey_trans d e x h⟩
    cases strategy with
    | skip => rfl
    | overwrite => exact hincoming
    | merge =>
      calc sameKey dedupKey (mergeDocuments d e) x = sameKey dedupKey d x :=
            sameKey_congr (get_mergeDocuments_of_sameKey h e) x
        _ = sameKey dedupKey e x := hincoming

/-! ## Rows -/

omit [BEq V] [PartialEquivBEq V] in
/-- All rows of a table that can be converted have the same fields. -/
theorem keys_eq_of_rowToDocument {job : Job V Row} {row other : Row} {d e : Document V}
    (hd : rowToDocument job row = .ok d) (he : rowToDocument job other = .ok e) :
    d.keys = e.keys := by
  have hfold : ∀ (names : List String) (first second : Document V), first.keys = second.keys →
      names.foldlM (fun document name ↦ do
        let value ← job.seriesValueToBson row name
        return document.insert name value) first = Except.ok d →
      names.foldlM (fun document name ↦ do
        let value ← job.seriesValueToBson other name
        return document.insert name value) second = Except.ok e → d.keys = e.keys := by
    intro names
    induction names with
    | nil =>
      intro first second hkeys hd he
      obtain rfl := Except.ok.inj hd
      obtain rfl := Except.ok.inj he
      exact hkeys
    | cons name names ih =>
      intro first second hkeys hd he
      rw [List.foldlM_cons] at hd he
      obtain ⟨firstNext, hfirst, hd⟩ := Library.Results.bind_eq_ok.mp hd
      obtain ⟨secondNext, hsecond, he⟩ := Library.Results.bind_eq_ok.mp he
      obtain ⟨v, -, hfirst⟩ := Library.Results.bind_eq_ok.mp hfirst
      obtain ⟨w, -, hsecond⟩ := Library.Results.bind_eq_ok.mp hsecond
      obtain rfl := Except.ok.inj hfirst
      obtain rfl := Except.ok.inj hsecond
      refine ih _ _ ?_ hd he
      unfold Document.keys at hkeys ⊢
      simp only [Document.insert, keys_insertField, hkeys]
  exact hfold job.fields Document.empty Document.empty rfl hd he

/-! ## The database -/

/-- No call of the job fails, and nobody cancels it. -/
structure Undisturbed (server : Server V) : Prop where
  cancelled : ∀ n, server.cancelled n = false
  query : ∀ n, server.queryFailure n = none
  insert : ∀ n, server.insertFailure n = none
  replace : ∀ n i, server.replaceFails n i = false

/-- The database compares the key fields that some documents hold with the values of incoming
documents as the code does. -/
def ServerAgrees (server : Server V) (dedupKey : List String)
    (incoming documents : List (Document V)) : Prop :=
  ∀ key ∈ dedupKey, ∀ d ∈ incoming, ∀ v, d.get key = some v → ∀ o ∈ documents, ∀ e : Document V,
    e.get key = o.get key → server.fieldMatches key v e = (some v == e.get key)

def HasKeysOf (dedupKey : List String) (documents : List (Document V)) (e : Document V) : Prop :=
  ∀ key ∈ dedupKey, ∃ o ∈ documents, e.get key = o.get key

section Check

variable {server : Server V} {dedupKey : List String} {incoming documents : List (Document V)}

omit [PartialEquivBEq V] in
/-- The filter of a replacement finds the documents of the key it replaces. -/
theorem matchesFilter_eq_sameKey (hagrees : ServerAgrees server dedupKey incoming documents)
    {d r filter e : Document V} (hd : d ∈ incoming)
    (hr : ∀ key ∈ dedupKey, r.get key = d.get key)
    (hfilter : buildDedupFilter dedupKey r = some filter) (he : HasKeysOf dedupKey documents e) :
    matchesFilter server.fieldMatches filter e = sameKey dedupKey d e := by
  have hfield : ∀ key ∈ dedupKey, ∀ v, d.get key = some v →
      (server.fieldMatches key v e = true ↔ ∃ w, e.get key = some w ∧ (v == w) = true) := by
    intro key hkey v hv
    obtain ⟨o, ho, heo⟩ := he key hkey
    rw [hagrees key hkey d hd v hv o ho e heo]
    cases e.get key <;> simp
  have hget := get_of_buildDedupFilter hfilter
  have hsome := isSome_buildDedupFilter.mp (Option.isSome_of_eq_some hfilter)
  rw [Bool.eq_iff_iff, matchesFilter, List.all_eq_true, sameKey_iff]
  constructor
  · intro hall key hkey
    obtain ⟨v, hv⟩ := Option.isSome_iff_exists.mp (hsome key hkey)
    have hmem : (key, v) ∈ filter.fields := by
      rw [filter.mem_fields_iff, hget, if_pos hkey, hv]
    have hdv : d.get key = some v := by rw [← hr key hkey, hv]
    obtain ⟨w, hw, hvw⟩ := (hfield key hkey v hdv).mp (hall (key, v) hmem)
    exact ⟨v, w, hdv, hw, hvw⟩
  · rintro hsame ⟨key, v⟩ hmem
    rw [filter.mem_fields_iff, hget] at hmem
    split_ifs at hmem with hkey
    rw [hr key hkey] at hmem
    obtain ⟨v', w, hv', hw, hvw⟩ := hsame key hkey
    obtain rfl : v = v' := Option.some.inj (hmem.symm.trans hv')
    exact (hfield key hkey v hmem).mpr ⟨w, hw, hvw⟩

/-- What the check says about a document, in terms of keys. -/
def resultOf (dedupKey : List String) (strategy : ConflictStrategy)
    (collection : List (Document V)) (d : Document V) : DedupResult V :=
  match collection.find? (sameKey dedupKey d) with
  | none => .insert d
  | some old => resolveConflict strategy d old

omit [PartialEquivBEq V] in
/-- The query of the whole batch loses no document that the comparison of one would find. -/
theorem checkBatch_eq (hkey : dedupKey ≠ [])
    (hagrees : ServerAgrees server dedupKey incoming documents) (strategy : ConflictStrategy)
    {collection batch : List (Document V)} (hbatch : ∀ d ∈ batch, d ∈ incoming)
    (hcollection : ∀ e ∈ collection, HasKeysOf dedupKey documents e) :
    checkBatch server.fieldMatches none dedupKey strategy collection batch =
      .ok (batch.map (resultOf dedupKey strategy collection)) := by
  have hnonempty : dedupKey.isEmpty = false := by simpa using hkey
  set orFilters := batch.filterMap (buildDedupFilter dedupKey) with hfilters
  set existing := if orFilters.isEmpty then []
    else findAny server.fieldMatches orFilters collection with hexisting
  have hquery : checkBatch server.fieldMatches none dedupKey strategy collection batch =
      .ok (batch.map fun document ↦
        match buildDedupFilter dedupKey document with
        | none => .insert document
        | some filter =>
            match existing.find? fun old ↦ dedupKey.all fun key ↦
              filter.get key == old.get key with
            | none => .insert document
            | some old => resolveConflict strategy document old) := by
    unfold checkBatch
    rw [if_neg (by simp [hnonempty]), hexisting]
    by_cases hempty : orFilters.isEmpty = true
    · simp only [← hfilters, hempty, if_true]
      rfl
    · simp only [← hfilters, hempty]
      rfl
  rw [hquery]
  refine congrArg Except.ok (List.map_congr_left fun d hd ↦ ?_)
  unfold resultOf
  cases hfilter : buildDedupFilter dedupKey d with
  | none =>
    -- a document without its key agrees with none
    have hnone : collection.find? (sameKey dedupKey d) = none := by
      rw [List.find?_eq_none]
      intro e _ hsame
      have hsome : (buildDedupFilter dedupKey d).isSome = true := by
        rw [isSome_buildDedupFilter]
        intro key hkey
        obtain ⟨v, -, hv, -⟩ := sameKey_iff.mp hsame key hkey
        rw [hv]
        rfl
      rw [hfilter] at hsome
      cases hsome
    rw [hnone]
  | some filter =>
    have hmem : filter ∈ orFilters := List.mem_filterMap.mpr ⟨d, hd, hfilter⟩
    have hexists : existing = findAny server.fieldMatches orFilters collection := by
      rw [hexisting, if_neg]
      intro hempty
      rw [List.isEmpty_iff] at hempty
      rw [hempty] at hmem
      cases hmem
    have hsome := isSome_buildDedupFilter.mp (Option.isSome_of_eq_some hfilter)
    have htest : (fun old : Document V ↦ dedupKey.all fun key ↦ filter.get key == old.get key) =
        sameKey dedupKey d := by
      funext old
      unfold sameKey
      rw [Bool.eq_iff_iff, List.all_eq_true, List.all_eq_true]
      refine forall₂_congr fun key hkey ↦ ?_
      rw [get_of_buildDedupFilter hfilter, if_pos hkey, hsome key hkey, Bool.true_and]
    have hfind : existing.find? (sameKey dedupKey d) = collection.find? (sameKey dedupKey d) := by
      rw [hexists, findAny, List.find?_filter]
      apply List.find?_congr
      intro e he
      have hfound : sameKey dedupKey d e = true →
          (orFilters.any fun filter ↦ matchesFilter server.fieldMatches filter e) = true := by
        intro hsame
        rw [List.any_eq_true]
        refine ⟨filter, hmem, ?_⟩
        rwa [matchesFilter_eq_sameKey hagrees (hbatch d hd) (fun _ _ ↦ rfl) hfilter
          (hcollection e he)]
      simpa using hfound
    simp only [htest, hfind]

/-! ## One chunk -/

omit [BEq V] [PartialEquivBEq V] in
theorem replaceOne_eq_replaceFirst (filter replacement : Document V)
    (collection : List (Document V)) :
    replaceOne server filter replacement collection =
      replaceFirst (matchesFilter server.fieldMatches filter) replacement collection := by
  induction collection with
  | nil => rfl
  | cons document rest ih =>
    unfold replaceOne replaceFirst
    rw [ih]

omit [BEq V] [PartialEquivBEq V] in
theorem foldl_replaceByKey_of_undisturbed (hserver : Undisturbed server)
    (replacements : List (Document V)) (start : ℕ) (state : State V) :
    let final := (replacements.zipIdx start).foldl (fun state (replacement, i) ↦
      replaceByKey server dedupKey state replacement i) state
    final.collection = replacements.foldl (fun collection replacement ↦
        replaceOne server ((buildDedupFilter dedupKey replacement).getD Document.empty)
          replacement collection) state.collection ∧
      final.offset = state.offset ∧ final.chunkNum = state.chunkNum := by
  induction replacements generalizing start state with
  | nil => exact ⟨rfl, rfl, rfl⟩
  | cons replacement replacements ih =>
    have hstep := ih (start + 1) (replaceByKey server dedupKey state replacement start)
    simp only [replaceByKey, hserver.replace] at hstep ⊢
    simpa [replaceByKey, hserver.replace] using hstep

omit [BEq V] [PartialEquivBEq V] in
/-- What replacing one document after the other does to the collection, and to nothing else that
the loop reads. -/
theorem replaceEach_of_undisturbed (hserver : Undisturbed server) (state : State V)
    (replacements : List (Document V)) :
    (replaceEach server dedupKey state replacements).collection =
        replacements.foldl (fun collection replacement ↦
          replaceOne server ((buildDedupFilter dedupKey replacement).getD Document.empty)
            replacement collection) state.collection ∧
      (replaceEach server dedupKey state replacements).offset = state.offset ∧
      (replaceEach server dedupKey state replacements).chunkNum = state.chunkNum :=
  foldl_replaceByKey_of_undisturbed hserver replacements 0 state

theorem isNew_eq_isNone_find? (strategy : ConflictStrategy) (collection : List (Document V))
    (d : Document V) :
    (keyed dedupKey strategy).isNew collection d =
      (collection.find? (sameKey dedupKey d)).isNone := by
  rw [Bool.eq_iff_iff, Keyed.isNew_eq_true, Option.isNone_iff_eq_none, List.find?_eq_none]
  exact forall₂_congr fun e _ ↦ Bool.not_eq_true _ |>.symm.to_iff

/-- The check lets in what is new to the collection. -/
theorem toInsert_results (strategy : ConflictStrategy) (collection batch : List (Document V)) :
    toInsert (batch.map (resultOf dedupKey strategy collection)) =
      batch.filter ((keyed dedupKey strategy).isNew collection) := by
  induction batch with
  | nil => rfl
  | cons d batch ih =>
    have hisNew : (keyed dedupKey strategy).isNew collection d =
        (collection.find? (sameKey dedupKey d)).isNone :=
      isNew_eq_isNone_find? strategy collection d
    unfold toInsert at ih ⊢
    rw [List.map_cons, List.filter_cons, hisNew, ← ih]
    unfold resultOf
    cases hfind : collection.find? (sameKey dedupKey d) with
    | none => rfl
    | some old => cases strategy <;> rfl

omit [PartialEquivBEq V] in
/-- Unless conflicts are skipped, a document that is not new replaces what it becomes together
with the one that is there. -/
theorem toReplace_results {strategy : ConflictStrategy} (hstrategy : strategy ≠ .skip)
    (collection batch : List (Document V)) :
    toReplace (batch.map (resultOf dedupKey strategy collection)) =
      batch.filterMap fun d ↦ (collection.find? (sameKey dedupKey d)).map (combine strategy d) := by
  unfold toReplace
  rw [List.filterMap_map]
  apply List.filterMap_congr
  intro d _
  unfold resultOf
  simp only [Function.comp_apply]
  cases collection.find? (sameKey dedupKey d) with
  | none => rfl
  | some old =>
    cases strategy with
    | skip => exact absurd rfl hstrategy
    | overwrite => rfl
    | merge => rfl

omit [PartialEquivBEq V] in
theorem toReplace_results_of_skip (collection batch : List (Document V)) :
    toReplace (batch.map (resultOf dedupKey .skip collection)) = [] := by
  unfold toReplace
  rw [List.filterMap_map, List.filterMap_eq_nil_iff]
  intro d _
  unfold resultOf
  simp only [Function.comp_apply]
  cases collection.find? (sameKey dedupKey d) <;> rfl

omit [PartialEquivBEq V] in
theorem get_combine {strategy : ConflictStrategy} (hstrategy : strategy ≠ .skip)
    {d e : Document V} (h : sameKey dedupKey d e = true) :
    ∀ key ∈ dedupKey, (combine strategy d e).get key = d.get key := by
  cases strategy with
  | skip => exact absurd rfl hstrategy
  | overwrite => exact fun _ _ ↦ rfl
  | merge => exact get_mergeDocuments_of_sameKey h e

theorem hasKeysOf_replaceFrom {strategy : ConflictStrategy} (hstrategy : strategy ≠ .skip)
    {collection current : List (Document V)} {d : Document V} (hd : d ∈ documents)
    (hcurrent : ∀ e ∈ current, HasKeysOf dedupKey documents e) :
    ∀ e ∈ (keyed dedupKey strategy).replaceFrom collection current d,
      HasKeysOf dedupKey documents e := by
  intro e he
  unfold Keyed.replaceFrom at he
  cases hfind : collection.find? ((keyed dedupKey strategy).same d) with
  | none =>
    rw [hfind] at he
    exact hcurrent e he
  | some old =>
    rw [hfind] at he
    rcases mem_of_mem_replaceFirst he with rfl | he
    · exact fun key hkey ↦ ⟨d, hd, get_combine hstrategy (List.find?_some hfind) key hkey⟩
    · exact hcurrent e he

/-- The writes of a chunk replace what the check found in the collection before them. -/
theorem foldl_replaceOne_eq (hagrees : ServerAgrees server dedupKey incoming documents)
    (hincoming : ∀ d ∈ incoming, d ∈ documents) {strategy : ConflictStrategy}
    (hstrategy : strategy ≠ .skip) (collection : List (Document V))
    {batch current : List (Document V)} (hbatch : ∀ d ∈ batch, d ∈ incoming)
    (hcurrent : ∀ e ∈ current, HasKeysOf dedupKey documents e) :
    (batch.filterMap fun d ↦
        (collection.find? (sameKey dedupKey d)).map (combine strategy d)).foldl
        (fun collection replacement ↦
          replaceOne server ((buildDedupFilter dedupKey replacement).getD Document.empty)
            replacement collection) current =
      batch.foldl ((keyed dedupKey strategy).replaceFrom collection) current := by
  induction batch generalizing current with
  | nil => rfl
  | cons d batch ih =>
    have hd : d ∈ incoming := hbatch d List.mem_cons_self
    have hkeys : ∀ e ∈ (keyed dedupKey strategy).replaceFrom collection current d,
        HasKeysOf dedupKey documents e :=
      hasKeysOf_replaceFrom hstrategy (hincoming d hd) hcurrent
    rw [List.foldl_cons, ← ih (fun x hx ↦ hbatch x (List.mem_cons_of_mem d hx)) hkeys,
      List.filterMap_cons]
    unfold Keyed.replaceFrom
    cases hfind : collection.find? (sameKey dedupKey d) with
    | none =>
      have hfind' : collection.find? ((keyed dedupKey strategy).same d) = none := hfind
      rw [hfind']
      rfl
    | some old =>
      have hfind' : collection.find? ((keyed dedupKey strategy).same d) = some old := hfind
      have hsame : sameKey dedupKey d old = true := List.find?_some hfind
      have hget := get_combine hstrategy hsame
      obtain ⟨filter, hfilter⟩ : ∃ filter,
          buildDedupFilter dedupKey (combine strategy d old) = some filter := by
        rw [← Option.isSome_iff_exists, isSome_buildDedupFilter]
        intro key hkey
        obtain ⟨v, -, hv, -⟩ := sameKey_iff.mp hsame key hkey
        rw [hget key hkey, hv]
        rfl
      rw [hfind', Option.map_some, List.foldl_cons, hfilter, Option.getD_some,
        replaceOne_eq_replaceFirst]
      congr 1
      apply replaceFirst_congr
      intro e he
      exact matchesFilter_eq_sameKey hagrees hd hget hfilter (hcurrent e he)

theorem hasKeysOf_foldl_replaceFrom {strategy : ConflictStrategy} (hstrategy : strategy ≠ .skip)
    {collection batch current : List (Document V)} (hbatch : ∀ d ∈ batch, d ∈ documents)
    (hcurrent : ∀ e ∈ current, HasKeysOf dedupKey documents e) :
    ∀ e ∈ batch.foldl ((keyed dedupKey strategy).replaceFrom collection) current,
      HasKeysOf dedupKey documents e := by
  induction batch generalizing current with
  | nil => exact hcurrent
  | cons d batch ih =>
    apply ih fun x hx ↦ hbatch x (List.mem_cons_of_mem d hx)
    exact hasKeysOf_replaceFrom hstrategy (hbatch d List.mem_cons_self) hcurrent

/-- Replacing documents does not make keys distinct that were not. -/
theorem distinct_of_distinct_foldl_replaceFrom {strategy : ConflictStrategy}
    {collection batch current : List (Document V)}
    (h : (keyed dedupKey strategy).Distinct
      (batch.foldl ((keyed dedupKey strategy).replaceFrom collection) current)) :
    (keyed dedupKey strategy).Distinct current := by
  induction batch generalizing current with
  | nil => exact h
  | cons d batch ih =>
    have hnext := ih h
    unfold Keyed.replaceFrom at hnext
    cases hfind : collection.find? ((keyed dedupKey strategy).same d) with
    | none => rwa [hfind] at hnext
    | some old =>
      rw [hfind] at hnext
      refine Keyed.distinct_of_distinct_replaceFirst (fun x _ hx ↦ ?_) hnext
      have hold : (keyed dedupKey strategy).same d old = true := List.find?_some hfind
      rw [(keyed dedupKey strategy).same_combine d old x hold, ← Keyed.same_congr hold]
      exact hx

end Check

section Chunk

variable {server : Server V} {job : Job V Row} {incoming documents : List (Document V)}

omit [BEq V] [PartialEquivBEq V] in
theorem insertMany_of_undisturbed (hserver : Undisturbed server) (state : State V)
    (inserted : List (Document V)) :
    (insertMany server state inserted).collection = state.collection ++ inserted ∧
      (insertMany server state inserted).offset = state.offset ∧
      (insertMany server state inserted).chunkNum = state.chunkNum := by
  unfold insertMany
  split_ifs with hempty
  · rw [List.isEmpty_iff.mp hempty, List.append_nil]
    exact ⟨rfl, rfl, rfl⟩
  · simp only [hserver.insert]
    exact ⟨trivial, trivial, trivial⟩

variable (job) in
/-- What a chunk of converted documents leaves in the collection. -/
def chunkWritten (collection batch : List (Document V)) : List (Document V) :=
  let inserted := collection ++
    batch.filter ((keyed job.dedupKey job.conflictStrategy).isNew collection)
  if job.conflictStrategy = .skip then inserted
  else batch.foldl ((keyed job.dedupKey job.conflictStrategy).replaceFrom collection) inserted

theorem writeChunk_of_converted (hserver : Undisturbed server) (hkey : job.dedupKey ≠ [])
    (hagrees : ServerAgrees server job.dedupKey incoming documents)
    (hincoming : ∀ d ∈ incoming, d ∈ documents) {chunk : List Row} {batch : List (Document V)}
    (hchunk : dataframeToDocuments job chunk = .ok batch) (hbatch : ∀ d ∈ batch, d ∈ incoming)
    {state : State V} (hcollection : ∀ e ∈ state.collection, HasKeysOf job.dedupKey documents e) :
    ∃ next, writeChunk server job chunk state = .ok next ∧
      next.collection = chunkWritten job state.collection batch ∧
      next.offset = state.offset + chunk.length := by
  have hcheck := checkBatch_eq hkey hagrees job.conflictStrategy hbatch hcollection
  have hinserted : ∀ e ∈ state.collection ++
      batch.filter ((keyed job.dedupKey job.conflictStrategy).isNew state.collection),
      HasKeysOf job.dedupKey documents e := by
    intro e he
    rcases List.mem_append.mp he with he | he
    · exact hcollection e he
    · exact fun key _ ↦ ⟨e, hincoming e (hbatch e (List.mem_of_mem_filter he)), rfl⟩
  set results := batch.map (resultOf job.dedupKey job.conflictStrategy state.collection)
    with hresults
  set inserted := insertMany server
    { state with rowsSkipped := state.rowsSkipped + skipped results } (toInsert results)
  obtain ⟨hcollected, hoffset, -⟩ : inserted.collection = state.collection ++ toInsert results ∧
      inserted.offset = state.offset ∧ inserted.chunkNum = state.chunkNum :=
    insertMany_of_undisturbed hserver _ _
  set written := replaceEach server job.dedupKey inserted (toReplace results) with hwritten
  have hinsert : toInsert results =
      batch.filter ((keyed job.dedupKey job.conflictStrategy).isNew state.collection) :=
    toInsert_results job.conflictStrategy state.collection batch
  refine ⟨{ written with
    rowsProcessed := written.rowsProcessed + chunk.length
    chunkNum := written.chunkNum + 1
    offset := written.offset + chunk.length }, ?_, ?_, ?_⟩
  · unfold writeChunk
    rw [if_neg (by simp [hserver.cancelled]), hchunk]
    simp only [hserver.query, hcheck]
    rfl
  · refine (replaceEach_of_undisturbed hserver inserted (toReplace results)).1.trans ?_
    rw [hcollected, hinsert]
    unfold chunkWritten
    by_cases hskip : job.conflictStrategy = .skip
    · have hnone : toReplace results = [] := by
        rw [hresults, hskip]
        exact toReplace_results_of_skip state.collection batch
      rw [hnone, if_pos hskip]
      rfl
    · rw [hresults, toReplace_results hskip, if_neg hskip]
      exact foldl_replaceOne_eq hagrees hincoming hskip state.collection hbatch hinserted
  · have hoffset' : written.offset = inserted.offset :=
      (replaceEach_of_undisturbed hserver inserted (toReplace results)).2.1
    simp only [hoffset', hoffset]

theorem hasKeysOf_chunkWritten {collection batch : List (Document V)}
    (hbatch : ∀ d ∈ batch, d ∈ documents)
    (hcollection : ∀ e ∈ collection, HasKeysOf job.dedupKey documents e) :
    ∀ e ∈ chunkWritten job collection batch, HasKeysOf job.dedupKey documents e := by
  have hinserted : ∀ e ∈ collection ++
      batch.filter ((keyed job.dedupKey job.conflictStrategy).isNew collection),
      HasKeysOf job.dedupKey documents e := by
    intro e he
    rcases List.mem_append.mp he with he | he
    · exact hcollection e he
    · exact fun key _ ↦ ⟨e, hbatch e (List.mem_of_mem_filter he), rfl⟩
  unfold chunkWritten
  split_ifs with hskip
  · exact hinserted
  · exact hasKeysOf_foldl_replaceFrom hskip hbatch hinserted

theorem distinct_of_distinct_chunkWritten {collection batch : List (Document V)}
    (h : (keyed job.dedupKey job.conflictStrategy).Distinct
      (chunkWritten job collection batch)) :
    (keyed job.dedupKey job.conflictStrategy).Distinct collection := by
  unfold chunkWritten at h
  split_ifs at h with hskip
  · exact (List.pairwise_append.mp h).1
  · exact (List.pairwise_append.mp (distinct_of_distinct_foldl_replaceFrom h)).1

theorem absorb_skip (batch : List (Document V)) :
    (keyed job.dedupKey .skip).absorb batch = id := by
  funext e
  induction batch with
  | nil => rfl
  | cons d batch ih =>
    have hmeet : (keyed job.dedupKey .skip).meet e d = e := ite_self e
    calc (keyed job.dedupKey .skip).absorb batch ((keyed job.dedupKey .skip).meet e d)
        = (keyed job.dedupKey .skip).absorb batch e := by rw [hmeet]
      _ = e := ih

/-- A chunk comes in all at once, if its documents have the same fields. -/
theorem chunkWritten_eq_putBatch {collection batch : List (Document V)}
    (hcollection : (keyed job.dedupKey job.conflictStrategy).Distinct collection)
    (hkeys : ∀ d ∈ batch, ∀ e ∈ batch, d.keys = e.keys) :
    chunkWritten job collection batch =
      (keyed job.dedupKey job.conflictStrategy).putBatch batch collection := by
  unfold chunkWritten Keyed.putBatch
  split_ifs with hskip
  · rw [hskip, absorb_skip, List.map_id]
  · apply Keyed.foldl_replaceFrom hcollection
    · intro d hd e he x
      cases hstrategy : job.conflictStrategy with
      | skip => exact absurd hstrategy hskip
      | overwrite => rfl
      | merge => exact mergeDocuments_mergeDocuments (hkeys d hd e he) x
    · exact fun x hx ↦ (List.mem_filter.mp hx).2

end Chunk

/-! ## The table -/

section Table

variable (job : Job V Row) (table : List Row) (batchSize : ℕ)

/-- The document of a row, if the row can be converted. -/
def toDocument? (row : Row) : Option (Document V) :=
  (rowToDocument job row).toOption

def documentsOf (rows : List Row) : List (Document V) :=
  rows.filterMap (toDocument? job)

def documentAt (i : ℕ) : Option (Document V) :=
  table[i]?.bind (toDocument? job)

/-- No chunk mixes rows that can be converted with rows that cannot. -/
def ConvertsTogether : Prop :=
  ∀ i j, i < table.length → j < table.length → i / batchSize = j / batchSize →
    (documentAt job table i).isSome = (documentAt job table j).isSome

/-- No two rows of this chunk have a key that neither the collection nor an earlier chunk has. -/
def ApartIn (collection : List (Document V)) (chunk : ℕ) : Prop :=
  ∀ i j d e, i < j → i / batchSize = chunk → j / batchSize = chunk →
    documentAt job table i = some d → documentAt job table j = some e →
    sameKey job.dedupKey d e = true →
    ∃ o ∈ collection ++ documentsOf job (table.take (chunk * batchSize)),
      sameKey job.dedupKey d o = true

/-- No chunk holds two rows of one key that neither the collection nor an earlier chunk has. -/
def FirstsApart (collection : List (Document V)) : Prop :=
  ∀ chunk, ApartIn job table batchSize collection chunk

def chunkOf (chunk : ℕ) : List Row := (table.drop (chunk * batchSize)).take batchSize

variable {job table batchSize}

omit [BEq V] [PartialEquivBEq V] in
theorem documentsOf_take_succ (chunk : ℕ) :
    documentsOf job (table.take ((chunk + 1) * batchSize)) =
      documentsOf job (table.take (chunk * batchSize)) ++
        documentsOf job (chunkOf table batchSize chunk) := by
  rw [Nat.succ_mul, List.take_add]
  exact List.filterMap_append

omit [BEq V] [PartialEquivBEq V] in
theorem getElem?_chunkOf (chunk : ℕ) {t : ℕ} (ht : t < batchSize) :
    (chunkOf table batchSize chunk)[t]? = table[chunk * batchSize + t]? := by
  rw [chunkOf, List.getElem?_take_of_lt ht, List.getElem?_drop]

theorem div_of_chunk (chunk : ℕ) {t : ℕ} (ht : t < batchSize) :
    (chunk * batchSize + t) / batchSize = chunk := by
  rw [Nat.mul_comm, Nat.mul_add_div (by omega), Nat.div_eq_of_lt ht, Nat.add_zero]

omit [BEq V] [PartialEquivBEq V] in
/-- The rows of a chunk are those with its number. -/
theorem exists_of_mem_chunkOf {chunk : ℕ} {row : Row} (h : row ∈ chunkOf table batchSize chunk) :
    ∃ i, i < table.length ∧ i / batchSize = chunk ∧ table[i]? = some row := by
  obtain ⟨t, ht, hrow⟩ := List.mem_iff_getElem.mp h
  have hlt : t < batchSize := by
    rw [chunkOf, List.length_take] at ht
    omega
  have hget : table[chunk * batchSize + t]? = some row := by
    rw [← getElem?_chunkOf chunk hlt, List.getElem?_eq_some_iff]
    exact ⟨ht, hrow⟩
  exact ⟨chunk * batchSize + t, (List.getElem?_eq_some_iff.mp hget).1, div_of_chunk chunk hlt, hget⟩

omit [BEq V] [PartialEquivBEq V] in
theorem dataframeToDocuments_of_forall {rows : List Row}
    (h : ∀ row ∈ rows, (toDocument? job row).isSome = true) :
    dataframeToDocuments job rows = .ok (documentsOf job rows) := by
  induction rows with
  | nil => rfl
  | cons row rows ih =>
    have hrow := h row List.mem_cons_self
    have hrest := ih fun other hother ↦ h other (List.mem_cons_of_mem row hother)
    unfold dataframeToDocuments at hrest ⊢
    unfold documentsOf at hrest ⊢
    rw [List.mapM_cons, hrest, List.filterMap_cons]
    unfold toDocument? at hrow ⊢
    cases hconvert : rowToDocument job row with
    | error error => simp [hconvert, Except.toOption] at hrow
    | ok document => rfl

omit [BEq V] [PartialEquivBEq V] in
/-- A chunk is converted as a whole, or it is not converted and holds no row that could be. -/
theorem chunk_cases (htogether : ConvertsTogether job table batchSize) (chunk : ℕ) :
    dataframeToDocuments job (chunkOf table batchSize chunk) =
        .ok (documentsOf job (chunkOf table batchSize chunk)) ∨
      ∃ error, dataframeToDocuments job (chunkOf table batchSize chunk) = .error error ∧
        documentsOf job (chunkOf table batchSize chunk) = [] := by
  have hsame : ∀ row ∈ chunkOf table batchSize chunk, ∀ other ∈ chunkOf table batchSize chunk,
      (toDocument? job row).isSome = (toDocument? job other).isSome := by
    intro row hrow other hother
    obtain ⟨i, hi, hic, hrow⟩ := exists_of_mem_chunkOf hrow
    obtain ⟨j, hj, hjc, hother⟩ := exists_of_mem_chunkOf hother
    have := htogether i j hi hj (hic.trans hjc.symm)
    simpa [documentAt, hrow, hother] using this
  cases hchunk : chunkOf table batchSize chunk with
  | nil => exact .inl rfl
  | cons first rest =>
    rw [hchunk] at hsame
    by_cases hfirst : (toDocument? job first).isSome = true
    · left
      apply dataframeToDocuments_of_forall
      intro row hrow
      rw [hsame row hrow first List.mem_cons_self, hfirst]
    · right
      have hnone : documentsOf job (first :: rest) = [] := by
        unfold documentsOf
        rw [List.filterMap_eq_nil_iff]
        intro row hrow
        rw [← Option.not_isSome_iff_eq_none, hsame row hrow first List.mem_cons_self]
        exact hfirst
      unfold dataframeToDocuments
      rw [List.mapM_cons]
      unfold toDocument? at hfirst
      cases hconvert : rowToDocument job first with
      | error error => exact ⟨error, rfl, hnone⟩
      | ok document => simp [hconvert, Except.toOption] at hfirst

omit [BEq V] [PartialEquivBEq V] in
/-- The rows of a chunk by their place in it and by their number. -/
theorem documentAt_chunk {chunk t : ℕ} (ht : t < (chunkOf table batchSize chunk).length) :
    t < batchSize ∧ documentAt job table (chunk * batchSize + t) =
      toDocument? job (chunkOf table batchSize chunk)[t] := by
  have hlt : t < batchSize := by
    rw [chunkOf, List.length_take] at ht
    omega
  refine ⟨hlt, ?_⟩
  rw [documentAt, ← getElem?_chunkOf chunk hlt, List.getElem?_eq_getElem ht, Option.bind_some]

omit [BEq V] [PartialEquivBEq V] in
theorem exists_place_of_documentAt (hbatch : 0 < batchSize) {i chunk : ℕ} {d : Document V}
    (hi : i / batchSize = chunk) (hd : documentAt job table i = some d) :
    ∃ h : i % batchSize < (chunkOf table batchSize chunk).length,
      toDocument? job (chunkOf table batchSize chunk)[i % batchSize] = some d := by
  have hplace : chunk * batchSize + i % batchSize = i := by
    rw [← hi, Nat.mul_comm]
    exact Nat.div_add_mod i batchSize
  obtain ⟨row, hrow, -⟩ := Option.bind_eq_some_iff.mp hd
  have hget : (chunkOf table batchSize chunk)[i % batchSize]? = some row := by
    rw [getElem?_chunkOf chunk (Nat.mod_lt i hbatch), hplace, hrow]
  obtain ⟨hlt, -⟩ := List.getElem?_eq_some_iff.mp hget
  refine ⟨hlt, ?_⟩
  rw [← (documentAt_chunk hlt).2, hplace, hd]

/-- What is new in a chunk has distinct keys exactly if the chunk is apart. -/
theorem distinct_news_iff (hbatch : 0 < batchSize) {collection : List (Document V)} (chunk : ℕ) :
    (keyed job.dedupKey job.conflictStrategy).Distinct
        ((documentsOf job (chunkOf table batchSize chunk)).filter
          ((keyed job.dedupKey job.conflictStrategy).isNew
            (collection ++ documentsOf job (table.take (chunk * batchSize))))) ↔
      ApartIn job table batchSize collection chunk := by
  set before := collection ++ documentsOf job (table.take (chunk * batchSize))
  unfold Keyed.Distinct documentsOf
  rw [List.pairwise_filter, List.pairwise_filterMap, List.pairwise_iff_getElem]
  constructor
  · intro hdistinct i j d e hij hi hj hd he hsame
    by_contra hnone
    -- if no document before the chunk has the key, both rows are new
    have hnew : ∀ x, sameKey job.dedupKey d x = true →
        (keyed job.dedupKey job.conflictStrategy).isNew before x = true := by
      intro x hx
      rw [Keyed.isNew_eq_true]
      intro o ho
      cases hxo : (keyed job.dedupKey job.conflictStrategy).same x o with
      | false => rfl
      | true => exact absurd ⟨o, ho, sameKey_trans d x o hx hxo⟩ hnone
    have hdd : sameKey job.dedupKey d d = true :=
      sameKey_trans d e d hsame (sameKey_symm d e hsame)
    obtain ⟨hs, hds⟩ := exists_place_of_documentAt hbatch hi hd
    obtain ⟨ht, het⟩ := exists_place_of_documentAt hbatch hj he
    have hst : i % batchSize < j % batchSize := by
      have hdiv := Nat.div_add_mod i batchSize
      have hdiv' := Nat.div_add_mod j batchSize
      rw [hi] at hdiv
      rw [hj] at hdiv'
      omega
    have hnot := hdistinct _ _ hs ht hst d hds e het (hnew d hdd) (hnew e hsame)
    have htrue : (keyed job.dedupKey job.conflictStrategy).same d e = true := hsame
    rw [hnot] at htrue
    cases htrue
  · intro hapart s t hs ht hst d hd e he hnewd hnewe
    obtain ⟨hsb, hds⟩ : s < batchSize ∧
        documentAt job table (chunk * batchSize + s) = some d := hd ▸ documentAt_chunk hs
    obtain ⟨htb, het⟩ : t < batchSize ∧
        documentAt job table (chunk * batchSize + t) = some e := he ▸ documentAt_chunk ht
    cases hsame : (keyed job.dedupKey job.conflictStrategy).same d e with
    | false => rfl
    | true =>
      obtain ⟨o, ho, hdo⟩ := hapart _ _ d e (by omega) (div_of_chunk chunk hsb)
        (div_of_chunk chunk htb) hds het hsame
      have hnot := Keyed.isNew_eq_true.mp hnewd o ho
      have htrue : (keyed job.dedupKey job.conflictStrategy).same d o = true := hdo
      rw [hnot] at htrue
      cases htrue

/-! ## The whole job -/

variable {server : Server V}

omit [PartialEquivBEq V] in
/-- A fact that every round carries from the collection before a chunk to the one after it holds
when the job ends, and the job does end. -/
theorem writeChunks_of_step (hbatch : 0 < batchSize) {motive : ℕ → List (Document V) → Prop}
    (hstep : ∀ chunk state, chunk * batchSize < table.length → motive chunk state.collection →
      ∃ next, writeChunk server job (chunkOf table batchSize chunk) state = .ok next ∧
        next.offset = state.offset + (chunkOf table batchSize chunk).length ∧
        motive (chunk + 1) next.collection)
    (rounds chunk : ℕ) {state : State V} (hrounds : table.length ≤ rounds + state.offset)
    (hoffset : state.offset = min (chunk * batchSize) table.length)
    (hmotive : motive chunk state.collection) :
    ∃ final last, writeChunks server job table batchSize rounds state = some (.ok final) ∧
      table.length ≤ last * batchSize ∧ motive last final.collection := by
  induction rounds generalizing chunk state with
  | zero =>
    refine ⟨state, chunk, ?_, by omega, hmotive⟩
    unfold writeChunks
    rw [if_neg (by omega)]
  | succ rounds ih =>
    by_cases hmore : state.offset < table.length
    · have hchunk : state.offset = chunk * batchSize := by omega
      obtain ⟨next, hnext, hsize, hmotive⟩ := hstep chunk state (by omega) hmotive
      have hlength : (chunkOf table batchSize chunk).length =
          min batchSize (table.length - chunk * batchSize) := by
        rw [chunkOf, List.length_take, List.length_drop]
      have hpos : 0 < (chunkOf table batchSize chunk).length := by omega
      have hsucc : (chunk + 1) * batchSize = chunk * batchSize + batchSize := Nat.succ_mul _ _
      obtain ⟨final, last, hfinal, hlast⟩ := ih (chunk + 1) (by omega) (by omega) hmotive
      refine ⟨final, last, ?_, hlast⟩
      unfold writeChunks
      rw [if_pos hmore, hchunk]
      unfold chunkOf at hnext
      simp only [hnext]
      exact hfinal
    · refine ⟨state, chunk, ?_, by omega, hmotive⟩
      unfold writeChunks
      rw [if_neg hmore]

variable (job table batchSize) in
/-- The collection before a chunk.  Its keys are distinct exactly if the chunks so far are apart,
and then their rows have come in one by one. -/
structure Tracks (collection : List (Document V)) (chunk : ℕ) (current : List (Document V)) :
    Prop where
  keys : ∀ e ∈ current, HasKeysOf job.dedupKey (collection ++ documentsOf job table) e
  distinct : (keyed job.dedupKey job.conflictStrategy).Distinct current ↔
    ∀ before < chunk, ApartIn job table batchSize collection before
  putAll : (∀ before < chunk, ApartIn job table batchSize collection before) →
    current = (keyed job.dedupKey job.conflictStrategy).putAll
      (documentsOf job (table.take (chunk * batchSize))) collection

theorem tracks_start {collection : List (Document V)}
    (hdistinct : (keyed job.dedupKey job.conflictStrategy).Distinct collection) :
    Tracks job table batchSize collection 0 collection where
  keys := fun e he _ _ ↦ ⟨e, List.mem_append_left _ he, rfl⟩
  distinct := ⟨fun _ _ h ↦ absurd h (Nat.not_lt_zero _), fun _ ↦ hdistinct⟩
  putAll := fun _ ↦ by
    rw [Nat.zero_mul]
    rfl

omit [BEq V] [PartialEquivBEq V] in
theorem rowToDocument_of_toDocument? {row : Row} {d : Document V}
    (h : toDocument? job row = some d) : rowToDocument job row = .ok d := by
  unfold toDocument? at h
  cases hrow : rowToDocument job row with
  | error error =>
    rw [hrow] at h
    cases h
  | ok document =>
    rw [hrow] at h
    exact congrArg Except.ok (Option.some.inj h)

omit [BEq V] [PartialEquivBEq V] in
theorem keys_eq_of_mem_documentsOf {rows : List Row} :
    ∀ d ∈ documentsOf job rows, ∀ e ∈ documentsOf job rows, d.keys = e.keys := by
  intro d hd e he
  obtain ⟨row, -, hrow⟩ := List.mem_filterMap.mp hd
  obtain ⟨other, -, hother⟩ := List.mem_filterMap.mp he
  exact keys_eq_of_rowToDocument (rowToDocument_of_toDocument? hrow)
    (rowToDocument_of_toDocument? hother)

omit [BEq V] [PartialEquivBEq V] in
theorem mem_documentsOf_of_chunk {chunk : ℕ} {d : Document V}
    (h : d ∈ documentsOf job (chunkOf table batchSize chunk)) : d ∈ documentsOf job table := by
  obtain ⟨row, hrow, hd⟩ := List.mem_filterMap.mp h
  exact List.mem_filterMap.mpr ⟨row, List.mem_of_mem_drop (List.mem_of_mem_take hrow), hd⟩

/-- What one more chunk does to the collection. -/
theorem tracks_chunkWritten (hbatch : 0 < batchSize) {collection : List (Document V)}
    (hdistinct : (keyed job.dedupKey job.conflictStrategy).Distinct collection) {chunk : ℕ}
    {current : List (Document V)} (h : Tracks job table batchSize collection chunk current) :
    Tracks job table batchSize collection (chunk + 1)
      (chunkWritten job current (documentsOf job (chunkOf table batchSize chunk))) := by
  set news := documentsOf job (chunkOf table batchSize chunk) with hnews
  have hwritten : (∀ before < chunk, ApartIn job table batchSize collection before) →
      chunkWritten job current news =
        (keyed job.dedupKey job.conflictStrategy).putBatch news current := by
    intro hapart
    exact chunkWritten_eq_putBatch (h.distinct.mpr hapart) keys_eq_of_mem_documentsOf
  -- the rows of the chunk meet the keys of the collection and of the rows before
  have hisNew : (∀ before < chunk, ApartIn job table batchSize collection before) →
      (keyed job.dedupKey job.conflictStrategy).isNew current =
        (keyed job.dedupKey job.conflictStrategy).isNew
          (collection ++ documentsOf job (table.take (chunk * batchSize))) := by
    intro hapart
    funext x
    rw [h.putAll hapart, Keyed.isNew_putAll]
  have hsucc : (∀ before < chunk + 1, ApartIn job table batchSize collection before) ↔
      (∀ before < chunk, ApartIn job table batchSize collection before) ∧
        ApartIn job table batchSize collection chunk := by
    constructor
    · exact fun hall ↦ ⟨fun before hbefore ↦ hall before (by omega), hall chunk (by omega)⟩
    · rintro ⟨hall, hchunk⟩ before hbefore
      rcases Nat.lt_succ_iff_lt_or_eq.mp hbefore with hlt | rfl
      · exact hall before hlt
      · exact hchunk
  have hputAll : (∀ before < chunk + 1, ApartIn job table batchSize collection before) →
      chunkWritten job current news = (keyed job.dedupKey job.conflictStrategy).putAll
        (documentsOf job (table.take ((chunk + 1) * batchSize))) collection := by
    intro hall
    obtain ⟨hapart, hchunk⟩ := hsucc.mp hall
    have hfirsts := (distinct_news_iff hbatch chunk).mpr hchunk
    rw [← hisNew hapart] at hfirsts
    calc chunkWritten job current news
        = (keyed job.dedupKey job.conflictStrategy).putBatch news current := hwritten hapart
      _ = (keyed job.dedupKey job.conflictStrategy).putAll news current :=
          (Keyed.putBatch_eq_putAll_iff news current).mpr hfirsts
      _ = _ := by rw [documentsOf_take_succ, Keyed.putAll_append, ← h.putAll hapart, hnews]
  exact {
    keys := by
      apply hasKeysOf_chunkWritten _ h.keys
      exact fun d hd ↦ List.mem_append_right _ (mem_documentsOf_of_chunk hd)
    distinct := by
      constructor
      · intro hnext
        have hapart := h.distinct.mp (distinct_of_distinct_chunkWritten hnext)
        rw [hwritten hapart] at hnext
        have hfirsts := Keyed.distinct_of_distinct_putBatch hnext
        rw [hisNew hapart] at hfirsts
        exact hsucc.mpr ⟨hapart, (distinct_news_iff hbatch chunk).mp hfirsts⟩
      · intro hall
        rw [hputAll hall]
        exact hdistinct.putAll _
    putAll := hputAll }

/-- What a job leaves in the collection.  The keys are distinct exactly if the first rows of the
keys are apart, and then the rows have come in one by one. -/
theorem runSequentialWrites_spec (hbatch : 0 < batchSize) (hserver : Undisturbed server)
    (hkey : job.dedupKey ≠ []) {collection : List (Document V)}
    (hagrees : ServerAgrees server job.dedupKey (documentsOf job table)
      (collection ++ documentsOf job table))
    (hdistinct : (keyed job.dedupKey job.conflictStrategy).Distinct collection)
    (htogether : ConvertsTogether job table batchSize) :
    ∃ final, runSequentialWrites server job table batchSize collection = some (.ok final) ∧
      ((keyed job.dedupKey job.conflictStrategy).Distinct final.collection ↔
        FirstsApart job table batchSize collection) ∧
      (FirstsApart job table batchSize collection →
        final.collection = (keyed job.dedupKey job.conflictStrategy).putAll
          (documentsOf job table) collection) := by
  have hstep : ∀ chunk (state : State V), chunk * batchSize < table.length →
      Tracks job table batchSize collection chunk state.collection →
      ∃ next, writeChunk server job (chunkOf table batchSize chunk) state = .ok next ∧
        next.offset = state.offset + (chunkOf table batchSize chunk).length ∧
        Tracks job table batchSize collection (chunk + 1) next.collection := by
    intro chunk state _ htracks
    have hnext := tracks_chunkWritten hbatch hdistinct htracks
    rcases chunk_cases htogether chunk with hconverted | ⟨error, herror, hnone⟩
    · obtain ⟨next, hwrite, hcollection, hoffset⟩ := writeChunk_of_converted hserver hkey hagrees
        (fun d hd ↦ List.mem_append_right _ hd) hconverted (fun d hd ↦ mem_documentsOf_of_chunk hd)
        htracks.keys
      exact ⟨next, hwrite, hoffset, hcollection ▸ hnext⟩
    · refine ⟨deadLetterChunk state (chunkOf table batchSize chunk).length error, ?_, rfl, ?_⟩
      · unfold writeChunk
        rw [if_neg (by simp [hserver.cancelled]), herror]
      · have hsame : chunkWritten job state.collection [] = state.collection := by
          unfold chunkWritten
          split_ifs <;> simp
        rw [hnone, hsame] at hnext
        exact hnext
  obtain ⟨final, last, hfinal, hlast, htracks⟩ := writeChunks_of_step hbatch hstep table.length 0
    (Nat.le_add_right _ _) (show (State.start collection).offset = _ by simp [State.start])
    (tracks_start hdistinct)
  have hall : (∀ before < last, ApartIn job table batchSize collection before) ↔
      FirstsApart job table batchSize collection := by
    refine ⟨fun h chunk ↦ ?_, fun h before _ ↦ h before⟩
    by_cases hchunk : chunk < last
    · exact h chunk hchunk
    · -- there is no such chunk
      intro i j d e hij hi hj hd
      obtain ⟨row, hrow, -⟩ := Option.bind_eq_some_iff.mp hd
      have hlt : i < table.length := (List.getElem?_eq_some_iff.mp hrow).1
      have hdiv : i / batchSize < last := Nat.div_lt_of_lt_mul (by rw [Nat.mul_comm]; omega)
      omega
  refine ⟨final, hfinal, htracks.distinct.trans hall, fun hapart ↦ ?_⟩
  rw [htracks.putAll (hall.mpr hapart), List.take_of_length_le hlast]

/-! ## Chunks of any size -/

/-- No two documents have the same complete dedup key. -/
def DistinctKeys (dedupKey : List String) (collection : List (Document V)) : Prop :=
  collection.Pairwise fun d e ↦ sameKey dedupKey d e = false

/-- The merge of documents onto the first of them, from left to right. -/
def leftToRight : List (Document V) → Option (Document V)
  | [] => none
  | first :: rest => some (rest.foldl (fun existing incoming ↦ mergeDocuments incoming existing) first)

theorem gather_eq_leftToRight (dedupKey : List String) (ds : List (Document V)) :
    (keyed dedupKey .merge).gather ds = leftToRight ds := by
  cases ds <;> rfl

variable (job table batchSize server) in
/-- The size of the chunks cannot be seen: the collection is the one that chunks of a single row
leave, it has distinct keys, and under Merge the document of a key is the merge, from left to
right, of the existing one and all rows with the key. -/
def BatchingInvisible (collection : List (Document V)) : Prop :=
  ∃ final single, runSequentialWrites server job table batchSize collection = some (.ok final) ∧
    runSequentialWrites server job table 1 collection = some (.ok single) ∧
    final.collection = single.collection ∧ DistinctKeys job.dedupKey final.collection ∧
    (job.conflictStrategy = .merge → ∀ e ∈ final.collection, sameKey job.dedupKey e e = true →
      leftToRight ((collection ++ documentsOf job table).filter (sameKey job.dedupKey e)) = some e)

omit [BEq V] [PartialEquivBEq V] in
theorem convertsTogether_one : ConvertsTogether job table 1 := by
  intro i j _ _ hij
  rw [Nat.div_one, Nat.div_one] at hij
  rw [hij]

omit [PartialEquivBEq V] in
theorem firstsApart_one (collection : List (Document V)) : FirstsApart job table 1 collection := by
  intro chunk i j d e hij hi hj
  rw [Nat.div_one] at hi hj
  omega

variable (job table batchSize server) in
/-- The database compares the key fields at hand as the code does, no chunk mixes rows that can be
converted with rows that cannot, and no chunk holds two rows of one key that is new with it. -/
structure KeysApart (collection : List (Document V)) : Prop where
  agrees : ServerAgrees server job.dedupKey (documentsOf job table)
    (collection ++ documentsOf job table)
  convertsTogether : ConvertsTogether job table batchSize
  firstsApart : FirstsApart job table batchSize collection

variable (job table batchSize server) in
/-- Let the calls of a job succeed and the keys of the collection be distinct.  If the keys are
apart, then the size of the chunks cannot be seen.  Where the database compares keys as the code
does and no chunk mixes its rows, the size of the chunks can be seen otherwise. -/
theorem batchingInvisible_iff_keysApart (hbatch : 1 ≤ batchSize)
    (hserver : Undisturbed server) (hkey : job.dedupKey ≠ []) {collection : List (Document V)}
    (hdistinct : DistinctKeys job.dedupKey collection) :
    (KeysApart job table batchSize server collection →
        BatchingInvisible job table batchSize server collection) ∧
      (ServerAgrees server job.dedupKey (documentsOf job table)
          (collection ++ documentsOf job table) →
        ConvertsTogether job table batchSize →
        BatchingInvisible job table batchSize server collection →
        KeysApart job table batchSize server collection) := by
  have hdistinct' : (keyed job.dedupKey job.conflictStrategy).Distinct collection := hdistinct
  constructor
  · rintro ⟨hagrees, htogether, hapart⟩
    obtain ⟨single, hsingle, -, honeByOne⟩ := runSequentialWrites_spec Nat.one_pos hserver hkey
      hagrees hdistinct' convertsTogether_one
    have hsingle' := honeByOne (firstsApart_one collection)
    obtain ⟨final, hfinal, hiff, hputAll⟩ := runSequentialWrites_spec hbatch hserver hkey hagrees
      hdistinct' htogether
    refine ⟨final, single, hfinal, hsingle, (hputAll hapart).trans hsingle'.symm, hiff.mpr hapart,
      fun hmerge e he hee ↦ ?_⟩
    rw [hputAll hapart] at he
    have hgather := Keyed.gather_of_mem_putAll hdistinct' (documentsOf job table) he hee
    rw [hmerge, gather_eq_leftToRight] at hgather
    exact hgather
  · rintro hagrees htogether ⟨final, -, hfinal, -, -, hkeys, -⟩
    obtain ⟨final', hfinal', hiff, -⟩ := runSequentialWrites_spec hbatch hserver hkey hagrees
      hdistinct' htogether
    obtain rfl : final' = final :=
      Except.ok.inj (Option.some.inj (hfinal'.symm.trans hfinal))
    exact ⟨hagrees, htogether, hiff.mp hkeys⟩

end Table

/-! ## A table of numbers -/

/-- A database of numbers and null, where a condition on null holds of a missing field. -/
def numberServer : Server (Option ℕ) where
  fieldMatches key value document := (document.get key).getD none == value
  cancelled _ := false
  queryFailure _ := none
  insertFailure _ := none
  replaceFails _ _ := false

/-- A job that merges rows of a number and a value by the number. -/
def numberJob : Job (Option ℕ) (ℕ × ℕ) where
  fields := ["n", "value"]
  seriesValueToBson row name := .ok (some (if name = "n" then row.1 else row.2))
  dedupKey := ["n"]
  conflictStrategy := .merge

theorem rowToDocument_numberJob (row : ℕ × ℕ) : rowToDocument numberJob row =
    .ok ((Document.empty.insert "n" (some row.1)).insert "value" (some row.2)) := rfl

theorem serverAgrees_numberServer (rows : List (ℕ × ℕ)) :
    ServerAgrees numberServer numberJob.dedupKey (documentsOf numberJob rows)
      ([] ++ documentsOf numberJob rows) := by
  intro key hkey d hd v hv o ho e heo
  obtain rfl : key = "n" := List.mem_singleton.mp hkey
  obtain ⟨row, -, hrow⟩ := List.mem_filterMap.mp ho
  obtain rfl := Except.ok.inj
    ((rowToDocument_numberJob row).symm.trans (rowToDocument_of_toDocument? hrow))
  have he : e.get "n" = some (some row.1) := heo
  have hserver : numberServer.fieldMatches "n" v e = ((e.get "n").getD none == v) := rfl
  rw [hserver, he, Option.getD_some, Option.some_beq_some]
  exact Bool.beq_comm ..

/-- In chunks of two, the second row of the first key comes after the chunk of the first. -/
theorem batchingInvisible_of_laterChunk :
    BatchingInvisible numberJob [(1, 10), (2, 20), (1, 11)] 2 numberServer [] := by
  have hserver : Undisturbed numberServer :=
    ⟨fun _ ↦ rfl, fun _ ↦ rfl, fun _ ↦ rfl, fun _ _ ↦ rfl⟩
  have htogether : ConvertsTogether numberJob [(1, 10), (2, 20), (1, 11)] 2 := by
    have hall : ∀ i < 3, (documentAt numberJob [(1, 10), (2, 20), (1, 11)] i).isSome = true := by
      decide
    exact fun i j hi hj _ ↦ (hall i hi).trans (hall j hj).symm
  have hapart : FirstsApart numberJob [(1, 10), (2, 20), (1, 11)] 2 [] := by
    intro chunk i j d e hij hi hj hd he hsame
    have hlt : j < 3 := by
      obtain ⟨row, hrow, -⟩ := Option.bind_eq_some_iff.mp he
      exact (List.getElem?_eq_some_iff.mp hrow).1
    obtain ⟨rfl, rfl⟩ : i = 0 ∧ j = 1 := by omega
    obtain rfl := Option.some.inj hd
    obtain rfl := Option.some.inj he
    exact absurd hsame (by decide)
  exact (batchingInvisible_iff_keysApart numberJob _ 2 numberServer (by decide) hserver
    (by decide) List.Pairwise.nil).1 ⟨serverAgrees_numberServer _, htogether, hapart⟩

/-- Two rows of one key in one chunk are both inserted. -/
theorem sameChunk_inserted_twice :
    (runSequentialWrites numberServer numberJob [(1, 10), (1, 11)] 2 []).map
        (fun result ↦ result.map fun state ↦ state.collection.map Document.fields) =
      some (.ok [[("n", some 1), ("value", some 10)], [("n", some 1), ("value", some 11)]]) ∧
    (runSequentialWrites numberServer numberJob [(1, 10), (1, 11)] 1 []).map
        (fun result ↦ result.map fun state ↦ state.collection.map Document.fields) =
      some (.ok [[("n", some 1), ("value", some 11)]]) ∧
    ¬ BatchingInvisible numberJob [(1, 10), (1, 11)] 2 numberServer [] := by
  refine ⟨rfl, rfl, ?_⟩
  rintro ⟨final, single, hfinal, hsingle, heq, -⟩
  have hlengths : ∀ {batchSize state}, runSequentialWrites numberServer numberJob
      [(1, 10), (1, 11)] batchSize [] = some (.ok state) →
      (runSequentialWrites numberServer numberJob [(1, 10), (1, 11)] batchSize []).map
        (fun result ↦ result.map fun state ↦ state.collection.length) =
          some (.ok state.collection.length) := by
    intro batchSize state h
    rw [h]
    rfl
  have htwo := hlengths hfinal
  have hone := hlengths hsingle
  rw [heq, ← hone] at htwo
  cases htwo

end MongoCore.Ingestion.Batching
