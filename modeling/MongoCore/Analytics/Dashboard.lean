import MongoCore.Analytics.Aggregator
import MongoCore.Analytics.Fingerprint
import MongoCore.Library.ByteText
import MongoCore.Library.Markup
import MongoCore.Library.Results

/-!
# Names on the pages of the dashboard

Three pages list operations, queries and errors as tables.  Names of databases and collections and
fingerprints of queries are written between tags as they are, and a long fingerprint is cut.

The main result says for which events the names leave the tags of the pages as they are.
-/

namespace MongoCore.Analytics.Dashboard

open MongoCore.Library MongoCore.Library.ByteText MongoCore.Library.Markup
open MongoCore.Library.Ranking MongoCore.Library.Results

/-! ## The pages -/

/-- An event with what the pages read of it besides.  The timestamp counts nanoseconds. -/
structure DashboardEvent extends AnalyticsEvent where
  timestamp : ℕ
  fingerprint : Option QueryFingerprint
  deriving DecidableEq

/-- How a number of nanoseconds is printed in milliseconds. -/
structure LatencyText where
  print : ℕ → String
  plain : ∀ nanos, '<' ∉ (print nanos).toList

/-- The name of an operation that is printed for debugging. -/
def debugName : OperationKind → String
  | .find => "Find"
  | .findOne => "FindOne"
  | .insert => "Insert"
  | .insertMany => "InsertMany"
  | .update => "Update"
  | .updateMany => "UpdateMany"
  | .delete => "Delete"
  | .deleteMany => "DeleteMany"
  | .findAndModify => "FindAndModify"
  | .aggregate => "Aggregate"
  | .search => "Search"
  | .watch => "Watch"
  | .runCommand => "RunCommand"
  | .beginTransaction => "BeginTransaction"
  | .commitTransaction => "CommitTransaction"
  | .abortTransaction => "AbortTransaction"
  | .createCollection => "CreateCollection"
  | .createIndex => "CreateIndex"
  | .listDatabases => "ListDatabases"
  | .listCollections => "ListCollections"
  | .pipeline => "Pipeline"

def pushRows (html : String) (rows : List String) : String := rows.foldl (· ++ ·) html

def operationRow (entry : OperationKind × ℕ) : String :=
  "<tr><td>" ++ debugName entry.1 ++ "</td><td>" ++ toString entry.2 ++ "</td></tr>"

def namespaceRow (shown : String → String) (entry : String × ℕ) : String :=
  "<tr><td>" ++ shown entry.1 ++ "</td><td>" ++ toString entry.2 ++ "</td></tr>"

/-- The page of operations of a snapshot, if there is one.  What it shows for a name is a parameter;
the page of the server shows the name itself. -/
def operations (orders : HashOrders) (shown : String → String) :
    Option (List DashboardEvent) → String
  | none => "<p class=\"empty-state\">No analytics data</p>"
  | some events =>
      if events.isEmpty then "<p class=\"empty-state\">No operations recorded</p>"
      else
        let summary := aggregate orders (events.map DashboardEvent.toAnalyticsEvent)
        let html := "<table><thead><tr><th>Operation</th><th>Count</th></tr></thead><tbody>"
        let html := pushRows html (summary.topOperations.map operationRow) ++ "</tbody></table>"
        if summary.topCollections.isEmpty then html
        else
          let html :=
            html ++ "<table><thead><tr><th>Namespace</th><th>Count</th></tr></thead><tbody>"
          pushRows html (summary.topCollections.map (namespaceRow shown)) ++ "</tbody></table>"

/-- The longest latency of a fingerprint, with the names of the first event that has it. -/
structure Slowest where
  latency : ℕ
  database : String
  collection : String
  deriving DecidableEq

def observe (slowest : EntryMap String Slowest) (event : DashboardEvent) :
    EntryMap String Slowest :=
  match event.fingerprint with
  | none => slowest
  | some fingerprint =>
      let entry := (slowest.get? fingerprint.text).getD ⟨0, event.database, event.collection⟩
      slowest.insert fingerprint.text
        (if entry.latency < event.latency then { entry with latency := event.latency } else entry)

def byFingerprint (events : List DashboardEvent) : EntryMap String Slowest :=
  events.foldl observe .empty

/-- The first bytes of a text; none where the cut panics. -/
def truncateStr (s : String) (maxLen : ℕ) : Option String :=
  if s.utf8ByteSize ≤ maxLen then some s else (sliceTo s.toList maxLen).map String.ofList

/-- A row for the first bytes of a fingerprint. -/
def queryCells (latencies : LatencyText) (shown : String → String)
    (entry : (String × Slowest) × ℕ) (front : String) : String :=
  "<tr><td><code>" ++ shown front ++ "</code></td><td>" ++ shown entry.1.2.database ++ "." ++
    shown entry.1.2.collection ++ "</td><td>" ++ latencies.print entry.2 ++ "ms</td></tr>"

def queryRow (latencies : LatencyText) (shown : String → String)
    (entry : (String × Slowest) × ℕ) : Option String :=
  (truncateStr entry.1.1 60).map (queryCells latencies shown entry)

/-- The twenty fingerprints with the longest latencies. -/
def slowestTwenty (order : Iteration (String × Slowest)) (events : List DashboardEvent) :
    List ((String × Slowest) × ℕ) :=
  top 20 ((order.list (byFingerprint events).entries).map fun entry ↦ (entry, entry.2.latency))

/-- The page of queries; none where it panics. -/
def queries (latencies : LatencyText) (order : Iteration (String × Slowest))
    (shown : String → String) : Option (List DashboardEvent) → Option String
  | none => some "<p class=\"empty-state\">No analytics data</p>"
  | some events =>
      if (byFingerprint events).entries.isEmpty then
        some "<p class=\"empty-state\">No query fingerprints recorded</p>"
      else
        let html := "<table><thead><tr><th>Fingerprint</th><th>Namespace</th>" ++
          "<th>Max Latency</th></tr></thead><tbody>"
        ((slowestTwenty order events).mapM (queryRow latencies shown)).map fun rows ↦
          pushRows html rows ++ "</tbody></table>"

def errorRow (latencies : LatencyText) (shown : String → String) (event : DashboardEvent) :
    String :=
  "<tr><td>" ++ debugName event.operation ++ "</td><td>" ++ shown event.database ++ "." ++
    shown event.collection ++ "</td><td>" ++ latencies.print event.latency ++ "ms</td></tr>"

def failed (events : List DashboardEvent) : List DashboardEvent :=
  events.filter fun event ↦ !event.success

/-- The last fifty errors. -/
def lastFifty (events : List DashboardEvent) : List DashboardEvent :=
  (top 50 ((failed events).map fun event ↦ (event, event.timestamp))).map Prod.fst

def errors (latencies : LatencyText) (shown : String → String) :
    Option (List DashboardEvent) → String
  | none => "<p class=\"empty-state\">No analytics data</p>"
  | some events =>
      if (failed events).isEmpty then "<p class=\"empty-state\">No errors recorded</p>"
      else
        let html := "<table><thead><tr><th>Operation</th><th>Namespace</th><th>Latency</th></tr>" ++
          "</thead><tbody>"
        pushRows html ((lastFifty events).map (errorRow latencies shown)) ++ "</tbody></table>"

/-! ## Tags of pages -/

def Lettered (letters : String → String) : Prop :=
  ∀ name, (letters name).toList.all Char.isAlpha = true

/-- The tags of a page are the same as if other letters were shown for its names. -/
def Unscripted (reader : Reader) (page : (String → String) → Option String) : Prop :=
  ∃ html, page id = some html ∧ ∀ letters, Lettered letters →
    ∃ plain, page letters = some plain ∧ tags reader html.toList = tags reader plain.toList

/-! ## Pages as tags and texts -/

abbrev Part := List Char × PlainTag

def startTag (name : String)
    (letters : name.toList ≠ [] ∧ name.toList.all Char.isAlpha = true := by decide) : PlainTag where
  closing := false
  name := name.toList
  letters := letters

def endTag (name : String)
    (letters : name.toList ≠ [] ∧ name.toList.all Char.isAlpha = true := by decide) : PlainTag where
  closing := true
  name := name.toList
  letters := letters

def headParts (columns : List String) : List Part :=
  [([], startTag "table"), ([], startTag "thead"), ([], startTag "tr")] ++
    columns.flatMap (fun column ↦ [([], startTag "th"), (column.toList, endTag "th")]) ++
    [([], endTag "tr"), ([], endTag "thead"), ([], startTag "tbody")]

def footParts : List Part := [([], endTag "tbody"), ([], endTag "table")]

def cellParts (text : List Char) : List Part := [([], startTag "td"), (text, endTag "td")]

def codeParts (text : List Char) : List Part :=
  [([], startTag "td"), ([], startTag "code"), (text, endTag "code"), ([], endTag "td")]

def rowParts (cells : List Part) : List Part := ([], startTag "tr") :: (cells ++ [([], endTag "tr")])

def operationParts (entry : OperationKind × ℕ) : List Part :=
  rowParts (cellParts (debugName entry.1).toList ++ cellParts (toString entry.2).toList)

def namespaceParts (shown : String → String) (entry : String × ℕ) : List Part :=
  rowParts (cellParts (shown entry.1).toList ++ cellParts (toString entry.2).toList)

/-- The names of a database and a collection with a point between them. -/
def pairText (shown : String → String) (database collection : String) : List Char :=
  (shown database ++ "." ++ shown collection).toList

def latencyText (latencies : LatencyText) (nanos : ℕ) : List Char :=
  (latencies.print nanos ++ "ms").toList

def queryParts (latencies : LatencyText) (shown : String → String) (front : String)
    (entry : (String × Slowest) × ℕ) : List Part :=
  rowParts (codeParts (shown front).toList ++
    (cellParts (pairText shown entry.1.2.database entry.1.2.collection) ++
      cellParts (latencyText latencies entry.2)))

def errorParts (latencies : LatencyText) (shown : String → String) (event : DashboardEvent) :
    List Part :=
  rowParts (cellParts (debugName event.operation).toList ++
    (cellParts (pairText shown event.database event.collection) ++
      cellParts (latencyText latencies event.latency)))

theorem toList_eq_of_ofList {text : String} {chars : List Char} (h : text = String.ofList chars) :
    text.toList = chars := by rw [h, String.toList_ofList]

theorem toList_rowStart : "<tr><td>".toList = (startTag "tr").source ++ (startTag "td").source :=
  toList_eq_of_ofList rfl

theorem toList_cellBreak : "</td><td>".toList = (endTag "td").source ++ (startTag "td").source :=
  toList_eq_of_ofList rfl

theorem toList_rowEnd : "</td></tr>".toList = (endTag "td").source ++ (endTag "tr").source :=
  toList_eq_of_ofList rfl

theorem toList_latencyEnd : "ms</td></tr>".toList =
    "ms".toList ++ ((endTag "td").source ++ (endTag "tr").source) :=
  toList_eq_of_ofList rfl

theorem toList_codeStart : "<tr><td><code>".toList =
    (startTag "tr").source ++ ((startTag "td").source ++ (startTag "code").source) :=
  toList_eq_of_ofList rfl

theorem toList_codeEnd : "</code></td><td>".toList =
    (endTag "code").source ++ ((endTag "td").source ++ (startTag "td").source) :=
  toList_eq_of_ofList rfl

theorem toList_operationRow (entry : OperationKind × ℕ) :
    (operationRow entry).toList = spelled (operationParts entry) := by
  delta operationRow
  simp only [operationParts, rowParts, cellParts, String.toList_append,
    toList_rowStart, toList_cellBreak, toList_rowEnd, spelled_cons, spelled_nil, List.cons_append,
    List.nil_append, List.append_nil, List.append_assoc]

theorem toList_namespaceRow (shown : String → String) (entry : String × ℕ) :
    (namespaceRow shown entry).toList = spelled (namespaceParts shown entry) := by
  delta namespaceRow
  simp only [namespaceParts, rowParts, cellParts, String.toList_append,
    toList_rowStart, toList_cellBreak, toList_rowEnd, spelled_cons, spelled_nil, List.cons_append,
    List.nil_append, List.append_nil, List.append_assoc]

theorem toList_queryCells (latencies : LatencyText) (shown : String → String)
    (entry : (String × Slowest) × ℕ) (front : String) :
    (queryCells latencies shown entry front).toList =
      spelled (queryParts latencies shown front entry) := by
  delta queryCells
  simp only [queryParts, rowParts, cellParts, codeParts, pairText, latencyText,
    String.toList_append, toList_codeStart, toList_codeEnd, toList_cellBreak, toList_latencyEnd,
    spelled_cons, spelled_nil, List.cons_append, List.nil_append, List.append_nil,
    List.append_assoc]

theorem toList_errorRow (latencies : LatencyText) (shown : String → String)
    (event : DashboardEvent) :
    (errorRow latencies shown event).toList = spelled (errorParts latencies shown event) := by
  delta errorRow
  simp only [errorParts, rowParts, cellParts, pairText, latencyText,
    String.toList_append, toList_rowStart, toList_cellBreak, toList_latencyEnd, spelled_cons,
    spelled_nil, List.cons_append, List.nil_append, List.append_nil, List.append_assoc]

theorem toList_pushRows (html : String) (rows : List String) :
    (pushRows html rows).toList = html.toList ++ rows.flatMap String.toList := by
  rw [pushRows]
  induction rows generalizing html with
  | nil => rw [List.foldl_nil, List.flatMap_nil, List.append_nil]
  | cons row rows ih =>
    rw [List.foldl_cons, ih, String.toList_append, List.flatMap_cons, List.append_assoc]

/-- Rows are spelled one after another. -/
theorem flatMap_toList {α : Type} {row : α → String} {parts : α → List Part}
    (hrow : ∀ entry, (row entry).toList = spelled (parts entry)) (entries : List α) :
    (entries.map row).flatMap String.toList = spelled (entries.flatMap parts) := by
  rw [List.flatMap_map, spelled, List.flatMap_assoc]
  exact List.flatMap_congr fun entry _ ↦ hrow entry

theorem spelled_append (parts others : List Part) :
    spelled (parts ++ others) = spelled parts ++ spelled others := List.flatMap_append

/-! ## Pages without scripts -/

/-- No tag starts in the texts of a page. -/
def Quiet (parts : List Part) : Prop := ∀ part ∈ parts, TagFree part.1

@[simp] theorem quiet_append (parts others : List Part) :
    Quiet (parts ++ others) ↔ Quiet parts ∧ Quiet others := List.forall_mem_append

@[simp] theorem quiet_flatMap {α : Type} (parts : α → List Part) (entries : List α) :
    Quiet (entries.flatMap parts) ↔ ∀ entry ∈ entries, Quiet (parts entry) := by
  simp only [Quiet, List.mem_flatMap, forall_exists_index, and_imp]
  exact ⟨fun h entry hentry part ↦ h part entry hentry, fun h part entry hentry ↦ h entry hentry part⟩

theorem tagFree_nil : TagFree [] := tagFree_of_notMem List.not_mem_nil

@[simp] theorem quiet_cellParts (text : List Char) : Quiet (cellParts text) ↔ TagFree text := by
  simp [Quiet, cellParts, tagFree_nil]

@[simp] theorem quiet_codeParts (text : List Char) : Quiet (codeParts text) ↔ TagFree text := by
  simp [Quiet, codeParts, tagFree_nil]

@[simp] theorem quiet_rowParts (cells : List Part) : Quiet (rowParts cells) ↔ Quiet cells := by
  simp [Quiet, rowParts, tagFree_nil, or_imp, forall_and]

theorem quiet_headParts {columns : List String} (h : ∀ column ∈ columns, '<' ∉ column.toList) :
    Quiet (headParts columns) := by
  rw [headParts, quiet_append, quiet_append, quiet_flatMap]
  refine ⟨⟨by simp [Quiet, tagFree_nil], fun column hcolumn ↦ ?_⟩, by simp [Quiet, tagFree_nil]⟩
  have hfree := tagFree_of_notMem (h column hcolumn)
  simp [Quiet, tagFree_nil, hfree]

theorem quiet_footParts : Quiet footParts := by
  simp [Quiet, footParts, tagFree_nil]

theorem tagFree_debugName (operation : OperationKind) : TagFree (debugName operation).toList :=
  tagFree_of_notMem (by cases operation <;> decide)

theorem lt_notMem_toString (count : ℕ) : '<' ∉ (toString count).toList := fun hmem ↦ by
  rw [Nat.toString_eq_repr, Nat.toList_repr] at hmem
  exact absurd (Nat.isDigit_of_mem_toDigits (by decide) (by decide) hmem) (by decide)

theorem tagFree_toString (count : ℕ) : TagFree (toString count).toList :=
  tagFree_of_notMem (lt_notMem_toString count)

theorem tagFree_latencyText (latencies : LatencyText) (nanos : ℕ) :
    TagFree (latencyText latencies nanos) := by
  refine tagFree_of_notMem ?_
  simp [latencyText, latencies.plain nanos]

theorem Lettered.notMem {letters : String → String} (h : Lettered letters) (name : String) :
    '<' ∉ (letters name).toList := fun hmem ↦
  absurd (List.all_eq_true.mp (h name) _ hmem) (by decide)

theorem Lettered.tagFree {letters : String → String} (h : Lettered letters) (name : String) :
    TagFree (letters name).toList := tagFree_of_notMem (h.notMem name)

theorem Lettered.tagFree_pairText {letters : String → String} (h : Lettered letters)
    (database collection : String) : TagFree (pairText letters database collection) := by
  refine tagFree_of_notMem ?_
  simp [pairText, h.notMem]

variable {reader : Reader} {page : (String → String) → Option String}

/-- A page that shows no names. -/
theorem unscripted_of_const {html : String} (hpage : ∀ shown, page shown = some html) :
    Unscripted reader page :=
  ⟨html, hpage id, fun letters _ ↦ ⟨html, hpage letters, rfl⟩⟩

/-- A page that is spelled by tags, whatever it shows for names, has their tags exactly if no tag
starts in the names. -/
theorem unscripted_iff_quiet {parts : (String → String) → List Part}
    (hpage : ∀ shown, ∃ html, page shown = some html ∧ html.toList = spelled (parts shown))
    (hsame : ∀ shown, (parts shown).map Prod.snd = (parts id).map Prod.snd)
    (hletters : ∀ letters, Lettered letters → Quiet (parts letters)) :
    Unscripted reader page ↔ Quiet (parts id) := by
  obtain ⟨html, hhtml, hspelled⟩ := hpage id
  have htags {letters : String → String} (h : Lettered letters) :
      tags reader (spelled (parts id)) = tags reader (spelled (parts letters)) ↔
        Quiet (parts id) :=
    tags_spelled_eq_iff (hsame letters).symm (hletters letters h)
  constructor
  · rintro ⟨other, hother, hall⟩
    have hletter : "a".toList.all Char.isAlpha = true := by decide
    have hone : Lettered fun _ ↦ "a" := fun _ ↦ hletter
    obtain ⟨plain, hplain, heq⟩ := hall _ hone
    obtain ⟨plain', hplain', hspelled'⟩ := hpage fun _ ↦ "a"
    obtain rfl : html = other := Option.some.inj (hhtml.symm.trans hother)
    obtain rfl : plain' = plain := Option.some.inj (hplain'.symm.trans hplain)
    rw [hspelled, hspelled'] at heq
    exact (htags hone).mp heq
  · intro hquiet
    refine ⟨html, hhtml, fun letters h ↦ ?_⟩
    obtain ⟨plain, hplain, hspelled'⟩ := hpage letters
    refine ⟨plain, hplain, ?_⟩
    rw [hspelled, hspelled']
    exact (htags h).mpr hquiet

/-! ## The pages for given orders of the hash maps -/

theorem toList_foot : "</tbody></table>".toList = spelled footParts := toList_eq_of_ofList rfl

/-- The tags and texts of the page of operations. -/
def operationsParts (orders : HashOrders) (shown : String → String)
    (events : List DashboardEvent) : List Part :=
  let summary := aggregate orders (events.map DashboardEvent.toAnalyticsEvent)
  headParts ["Operation", "Count"] ++ (summary.topOperations.flatMap operationParts ++
    (footParts ++ (if summary.topCollections.isEmpty then [] else
      headParts ["Namespace", "Count"] ++
        (summary.topCollections.flatMap (namespaceParts shown) ++ footParts))))

theorem toList_operations (orders : HashOrders) (shown : String → String)
    {events : List DashboardEvent} (hevents : events.isEmpty = false) :
    (operations orders shown (some events)).toList =
      spelled (operationsParts orders shown events) := by
  have hhead : "<table><thead><tr><th>Operation</th><th>Count</th></tr></thead><tbody>".toList =
      spelled (headParts ["Operation", "Count"]) := toList_eq_of_ofList rfl
  have hhead' : "<table><thead><tr><th>Namespace</th><th>Count</th></tr></thead><tbody>".toList =
      spelled (headParts ["Namespace", "Count"]) := toList_eq_of_ofList rfl
  simp only [operations, operationsParts, hevents, Bool.false_eq_true, if_false]
  split
  · simp only [String.toList_append, toList_pushRows, hhead, toList_foot,
      flatMap_toList toList_operationRow, spelled_append, List.append_nil, List.append_assoc]
  · simp only [String.toList_append, toList_pushRows, hhead, hhead', toList_foot,
      flatMap_toList toList_operationRow, flatMap_toList (toList_namespaceRow shown),
      spelled_append, List.append_assoc]

theorem map_snd_operationsParts (orders : HashOrders) (shown : String → String)
    (events : List DashboardEvent) :
    (operationsParts orders shown events).map Prod.snd =
      (operationsParts orders id events).map Prod.snd := by
  simp only [operationsParts, List.map_append, List.map_flatMap]
  split
  · rfl
  · simp only [List.map_append, List.map_flatMap]
    rfl

theorem quiet_operationsParts (orders : HashOrders) (shown : String → String)
    (events : List DashboardEvent) :
    Quiet (operationsParts orders shown events) ↔
      ∀ entry ∈ topTen orders.collections AnalyticsEvent.collectionKey
          (events.map DashboardEvent.toAnalyticsEvent), TagFree (shown entry.1).toList := by
  have hhead : Quiet (headParts ["Operation", "Count"]) := quiet_headParts (by decide)
  have hhead' : Quiet (headParts ["Namespace", "Count"]) := quiet_headParts (by decide)
  have hrow (entry : OperationKind × ℕ) : Quiet (operationParts entry) := by
    simp only [operationParts, quiet_rowParts, quiet_append, quiet_cellParts, tagFree_debugName,
      tagFree_toString, and_self]
  have hname (entry : String × ℕ) :
      Quiet (namespaceParts shown entry) ↔ TagFree (shown entry.1).toList := by
    simp only [namespaceParts, quiet_rowParts, quiet_append, quiet_cellParts, tagFree_toString,
      and_true]
  rw [operationsParts, aggregate_eq]
  simp only [quiet_append, quiet_flatMap, hhead, quiet_footParts, hrow, true_and,
    implies_true]
  split
  case isTrue hnone =>
    rw [List.isEmpty_iff.mp hnone]
    simp [Quiet]
  case isFalse => simp only [quiet_append, quiet_flatMap, hhead', quiet_footParts, hname, true_and,
    and_true]

/-- The tags of the page of operations are not changed by names exactly if no tag starts in a listed
name of a collection. -/
theorem operations_unscripted_iff (orders : HashOrders) (events : List DashboardEvent) :
    Unscripted reader (fun shown ↦ some (operations orders shown (some events))) ↔
      ∀ entry ∈ topTen orders.collections AnalyticsEvent.collectionKey
          (events.map DashboardEvent.toAnalyticsEvent), TagFree entry.1.toList := by
  cases hevents : events.isEmpty with
  | true =>
    rw [List.isEmpty_iff.mp hevents, List.map_nil, topTen_nil]
    exact iff_of_true (unscripted_of_const fun _ ↦ rfl) (by simp)
  | false =>
    rw [unscripted_iff_quiet (fun shown ↦ ⟨_, rfl, toList_operations orders shown hevents⟩)
      (fun shown ↦ map_snd_operationsParts orders shown events)
      (fun letters h ↦ (quiet_operationsParts orders letters events).mpr
        fun entry _ ↦ h.tagFree entry.1),
      quiet_operationsParts]
    rfl

def errorsParts (latencies : LatencyText) (shown : String → String)
    (events : List DashboardEvent) : List Part :=
  headParts ["Operation", "Namespace", "Latency"] ++
    ((lastFifty events).flatMap (errorParts latencies shown) ++ footParts)

theorem toList_errors (latencies : LatencyText) (shown : String → String)
    {events : List DashboardEvent} (hevents : (failed events).isEmpty = false) :
    (errors latencies shown (some events)).toList =
      spelled (errorsParts latencies shown events) := by
  have hhead : ("<table><thead><tr><th>Operation</th><th>Namespace</th><th>Latency</th></tr>" ++
      "</thead><tbody>").toList = spelled (headParts ["Operation", "Namespace", "Latency"]) :=
    toList_eq_of_ofList rfl
  simp only [errors, errorsParts, hevents, Bool.false_eq_true, if_false]
  rw [String.toList_append, toList_pushRows, hhead, toList_foot,
    flatMap_toList (toList_errorRow latencies shown), spelled_append, spelled_append,
    List.append_assoc]

theorem quiet_errorsParts (latencies : LatencyText) (shown : String → String)
    (events : List DashboardEvent) :
    Quiet (errorsParts latencies shown events) ↔ ∀ event ∈ lastFifty events,
      TagFree (pairText shown event.database event.collection) := by
  have hhead : Quiet (headParts ["Operation", "Namespace", "Latency"]) :=
    quiet_headParts (by decide)
  have hrow (event : DashboardEvent) : Quiet (errorParts latencies shown event) ↔
      TagFree (pairText shown event.database event.collection) := by
    simp [errorParts, tagFree_debugName, tagFree_latencyText]
  simp only [errorsParts, quiet_append, quiet_flatMap, hhead, quiet_footParts, hrow, true_and,
    and_true]

/-- The tags of the page of errors are not changed by names exactly if no tag starts in the names of
a listed error. -/
theorem errors_unscripted_iff (latencies : LatencyText) (events : List DashboardEvent) :
    Unscripted reader (fun shown ↦ some (errors latencies shown (some events))) ↔
      ∀ event ∈ lastFifty events, TagFree event.collectionKey.toList := by
  cases hevents : (failed events).isEmpty with
  | true =>
    have hpage (shown : String → String) : errors latencies shown (some events) =
        "<p class=\"empty-state\">No errors recorded</p>" := by
      rw [errors, if_pos hevents]
    have hnone : lastFifty events = [] := by
      rw [lastFifty, List.isEmpty_iff.mp hevents]
      rfl
    rw [hnone]
    exact iff_of_true (unscripted_of_const fun shown ↦ congrArg some (hpage shown)) (by simp)
  | false =>
    rw [unscripted_iff_quiet (fun shown ↦ ⟨_, rfl, toList_errors latencies shown hevents⟩)
      (fun shown ↦ by
        simp only [errorsParts, List.map_append, List.map_flatMap]
        rfl)
      (fun letters h ↦ (quiet_errorsParts latencies letters events).mpr
        fun event _ ↦ h.tagFree_pairText event.database event.collection),
      quiet_errorsParts]
    rfl

/-- The first bytes that are shown of a text; nothing where the cut panics. -/
def frontOf (entry : (String × Slowest) × ℕ) : String := (truncateStr entry.1.1 60).getD ""

def queriesParts (latencies : LatencyText) (order : Iteration (String × Slowest))
    (shown : String → String) (events : List DashboardEvent) : List Part :=
  headParts ["Fingerprint", "Namespace", "Max Latency"] ++
    ((slowestTwenty order events).flatMap
      (fun entry ↦ queryParts latencies shown (frontOf entry) entry) ++ footParts)

theorem quiet_queriesParts (latencies : LatencyText) (order : Iteration (String × Slowest))
    (shown : String → String) (events : List DashboardEvent) :
    Quiet (queriesParts latencies order shown events) ↔
      ∀ entry ∈ slowestTwenty order events, TagFree (shown (frontOf entry)).toList ∧
        TagFree (pairText shown entry.1.2.database entry.1.2.collection) := by
  have hhead : Quiet (headParts ["Fingerprint", "Namespace", "Max Latency"]) :=
    quiet_headParts (by decide)
  have hrow (entry : (String × Slowest) × ℕ) :
      Quiet (queryParts latencies shown (frontOf entry) entry) ↔
        TagFree (shown (frontOf entry)).toList ∧
          TagFree (pairText shown entry.1.2.database entry.1.2.collection) := by
    simp only [queryParts, quiet_rowParts, quiet_append, quiet_codeParts, quiet_cellParts,
      tagFree_latencyText, and_true]
  simp only [queriesParts, quiet_append, quiet_flatMap, hhead, quiet_footParts, hrow, true_and,
    and_true]

theorem slowestTwenty_eq_nil {order : Iteration (String × Slowest)} {events : List DashboardEvent}
    (h : (byFingerprint events).entries = []) : slowestTwenty order events = [] := by
  have hperm := order.perm (byFingerprint events).entries
  rw [h] at hperm
  rw [slowestTwenty, h, hperm.eq_nil]
  rfl

theorem exists_queries {latencies : LatencyText} {order : Iteration (String × Slowest)}
    {events : List DashboardEvent} (hevents : (byFingerprint events).entries.isEmpty = false)
    (hwhole : ∀ entry ∈ slowestTwenty order events, (truncateStr entry.1.1 60).isSome = true)
    (shown : String → String) :
    ∃ html, queries latencies order shown (some events) = some html ∧
      html.toList = spelled (queriesParts latencies order shown events) := by
  have hhead : ("<table><thead><tr><th>Fingerprint</th><th>Namespace</th>" ++
      "<th>Max Latency</th></tr></thead><tbody>").toList =
        spelled (headParts ["Fingerprint", "Namespace", "Max Latency"]) := toList_eq_of_ofList rfl
  have hrow (entry : (String × Slowest) × ℕ) (hentry : entry ∈ slowestTwenty order events) :
      queryRow latencies shown entry =
        some (queryCells latencies shown entry (frontOf entry)) := by
    obtain ⟨front, hfront⟩ := Option.isSome_iff_exists.mp (hwhole entry hentry)
    rw [queryRow, frontOf, hfront]
    rfl
  simp only [queries, hevents, Bool.false_eq_true, if_false, mapM_eq_some_map hrow,
    Option.map_some]
  refine ⟨_, rfl, ?_⟩
  rw [queriesParts, String.toList_append, toList_pushRows, hhead, toList_foot,
    flatMap_toList fun entry ↦ toList_queryCells latencies shown entry (frontOf entry),
    spelled_append, spelled_append, List.append_assoc]

/-- The first bytes are whole characters, as many as there are up to the limit. -/
theorem truncateStr_eq_some {s front : String} {maxLen : ℕ} :
    truncateStr s maxLen = some front ↔
      front.toList <+: s.toList ∧ String.utf8Len front.toList = min maxLen s.utf8ByteSize := by
  rw [truncateStr]
  split
  case isTrue hshort =>
    rw [Nat.min_eq_right hshort, Option.some.injEq, ← String.utf8Len_toList]
    constructor
    · rintro rfl
      exact ⟨List.prefix_refl _, rfl⟩
    · rintro ⟨⟨back, hback⟩, hlength⟩
      rw [← hback, String.utf8Len_append, left_eq_add, String.utf8Len_eq_zero] at hlength
      rw [hlength, List.append_nil] at hback
      exact (String.toList_inj.mp hback).symm
  case isFalse hlong =>
    rw [Nat.min_eq_left (Nat.le_of_not_le hlong), Option.map_eq_some_iff]
    constructor
    · rintro ⟨chars, hchars, rfl⟩
      rw [String.toList_ofList]
      exact (sliceTo_eq_some.mp hchars).symm
    · rintro ⟨hfront, hlength⟩
      exact ⟨front.toList, sliceTo_eq_some.mpr ⟨hlength, hfront⟩, String.ofList_toList⟩

/-- The tags of the page of queries are not changed by names, and it does not panic, exactly if each
listed fingerprint has a front without tags and no tag starts in its names. -/
theorem queries_unscripted_iff (latencies : LatencyText) (order : Iteration (String × Slowest))
    (events : List DashboardEvent) :
    Unscripted reader (fun shown ↦ queries latencies order shown (some events)) ↔
      ∀ entry ∈ slowestTwenty order events,
        (∃ front, truncateStr entry.1.1 60 = some front ∧ TagFree front.toList) ∧
          TagFree (pairText id entry.1.2.database entry.1.2.collection) := by
  cases hevents : (byFingerprint events).entries.isEmpty with
  | true =>
    have hpage (shown : String → String) : queries latencies order shown (some events) =
        some "<p class=\"empty-state\">No query fingerprints recorded</p>" := by
      rw [queries, if_pos hevents]
    rw [slowestTwenty_eq_nil (List.isEmpty_iff.mp hevents)]
    exact iff_of_true (unscripted_of_const hpage) (by simp)
  | false =>
    by_cases hwhole : ∀ entry ∈ slowestTwenty order events,
        (truncateStr entry.1.1 60).isSome = true
    · rw [unscripted_iff_quiet (exists_queries hevents hwhole)
        (fun shown ↦ by
          simp only [queriesParts, List.map_append, List.map_flatMap]
          rfl)
        (fun letters h ↦ (quiet_queriesParts latencies order letters events).mpr fun entry _ ↦
          ⟨h.tagFree _, h.tagFree_pairText _ _⟩),
        quiet_queriesParts]
      refine forall₂_congr fun entry hentry ↦ and_congr_left fun _ ↦ ?_
      obtain ⟨front, hfront⟩ := Option.isSome_iff_exists.mp (hwhole entry hentry)
      rw [frontOf, hfront]
      simp
    · refine iff_of_false ?_ fun h ↦ hwhole fun entry hentry ↦ ?_
      · rintro ⟨html, hhtml, -⟩
        simp only [queries, hevents, Bool.false_eq_true, if_false] at hhtml
        obtain ⟨rows, hrows, -⟩ := Option.map_eq_some_iff.mp hhtml
        refine hwhole fun entry hentry ↦ ?_
        obtain ⟨row, hrow⟩ := exists_of_mapM_eq_some hrows hentry
        rw [queryRow] at hrow
        exact Option.isSome_map ▸ Option.isSome_of_eq_some hrow
      · obtain ⟨⟨front, hfront, -⟩, -⟩ := h entry hentry
        rw [hfront]
        rfl

/-! ## What can be listed -/

/-- The names of collections that are among the ten most frequent, in some order of those with one
count, start no tag. -/
def QuietNamespaces (events : List AnalyticsEvent) : Prop :=
  ∀ key ∈ keysOf AnalyticsEvent.collectionKey events,
    ((keysOf AnalyticsEvent.collectionKey events).countP fun other ↦
      eventsWith AnalyticsEvent.collectionKey events key <
        eventsWith AnalyticsEvent.collectionKey events other) < 10 → TagFree key.toList

theorem forall_topTen_iff {events : List AnalyticsEvent} :
    (∀ orders : HashOrders, ∀ entry ∈ topTen orders.collections AnalyticsEvent.collectionKey events,
        TagFree entry.1.toList) ↔ QuietNamespaces events := by
  have hcount (order : Iteration (String × ℕ)) (n : ℕ) :
      ((order.list (tally (events.map AnalyticsEvent.collectionKey)).entries).countP
          fun other ↦ n < other.2) =
        (keysOf AnalyticsEvent.collectionKey events).countP fun other ↦
          n < eventsWith AnalyticsEvent.collectionKey events other := by
    rw [(counts_perm order events).countP_eq, List.countP_map]
    rfl
  constructor
  · intro h key hkey hfew
    rw [← hcount .listed] at hfew
    obtain ⟨order, hperm, hmem⟩ :=
      exists_mem_top_iff.mpr ⟨mem_counts .listed events hkey, hfew⟩
    have hlisted : (key, eventsWith AnalyticsEvent.collectionKey events key) ∈
        topTen (.taking _ order hperm) AnalyticsEvent.collectionKey events := by
      have horder : (Iteration.taking _ order hperm).list
          (tally (events.map AnalyticsEvent.collectionKey)).entries = order :=
        Iteration.list_taking hperm
      rw [topTen, horder]
      exact hmem
    exact h ⟨.listed, .taking _ order hperm⟩ _ hlisted
  · intro h orders entry hentry
    obtain ⟨hkey, heq⟩ := counted_topTen orders.collections events hentry
    have hfew := countP_lt_of_mem_top hentry
    rw [hcount, heq] at hfew
    exact h entry.1 hkey hfew

def hasText (text : String) (event : DashboardEvent) : Bool :=
  event.fingerprint = some ⟨text⟩

def fingerprintTexts (events : List DashboardEvent) : List String :=
  ((events.filterMap DashboardEvent.fingerprint).map QueryFingerprint.text).dedup

/-- The longest latency of the events with a fingerprint. -/
def longest (events : List DashboardEvent) (text : String) : ℕ :=
  ((events.filter (hasText text)).map fun event ↦ event.latency).foldl max 0

theorem longest_append (events : List DashboardEvent) (last : DashboardEvent) (text : String) :
    longest (events ++ [last]) text =
      if hasText text last then max (longest events text) last.latency else longest events text := by
  rw [longest, List.filter_append, List.map_append, List.foldl_append]
  cases hlast : hasText text last <;> simp [hlast, longest]

theorem longest_eq_zero {events : List DashboardEvent} {text : String}
    (h : events.find? (hasText text) = none) : longest events text = 0 := by
  rw [longest, List.filter_eq_nil_iff.mpr (List.find?_eq_none.mp h)]
  rfl

/-- The fingerprints that are among the twenty slowest, in some order of those with one latency,
have a front of sixty bytes, if they are not shorter, in which no tag starts, and none starts in the
names of their first event. -/
def QuietFingerprints (events : List DashboardEvent) : Prop :=
  ∀ text first, events.find? (hasText text) = some first →
    ((fingerprintTexts events).countP fun other ↦ longest events text < longest events other) < 20 →
      (∃ front, front <+: text.toList ∧
          String.utf8Len front = min 60 text.utf8ByteSize ∧ TagFree front) ∧
        TagFree first.collectionKey.toList

def slowestOf (events : List DashboardEvent) (text : String) : Option Slowest :=
  (events.find? (hasText text)).map fun first ↦
    ⟨longest events text, first.database, first.collection⟩

theorem get?_byFingerprint (events : List DashboardEvent) (text : String) :
    (byFingerprint events).get? text = slowestOf events text := by
  induction events using List.reverseRecOn with
  | nil => rfl
  | append_singleton events last ih =>
    have hlast : byFingerprint (events ++ [last]) = observe (byFingerprint events) last := by
      rw [byFingerprint, List.foldl_append]
      rfl
    have hfind : (events ++ [last]).find? (hasText text) =
        (events.find? (hasText text)).or (if hasText text last then some last else none) := by
      rw [List.find?_append, List.find?_singleton]
    rw [hlast, observe, slowestOf, hfind]
    rw [slowestOf] at ih
    cases hprint : last.fingerprint with
    | none =>
      have hother : hasText text last = false := by simp [hasText, hprint]
      rw [ih, longest_append, hother]
      simp
    | some fingerprint =>
      by_cases htext : fingerprint.text = text
      · have hsame : hasText text last = true := by
          simp [hasText, hprint, ← htext]
        simp only [htext, EntryMap.get?_insert_self, ih, longest_append, hsame, if_true]
        cases hfirst : events.find? (hasText text) with
        | none =>
          have hzero : longest events text = 0 := longest_eq_zero hfirst
          simpa [hzero] using Eq.symm
        | some first =>
          simp only [Option.map_some, Option.getD_some, Option.some_or]
          split
          case isTrue hlt => rw [max_eq_right hlt.le]
          case isFalse hle => rw [max_eq_left (Nat.le_of_not_lt hle)]
      · have hother : hasText text last = false := by
          rw [hasText, hprint, decide_eq_false_iff_not]
          intro heq
          exact htext (congrArg QueryFingerprint.text (Option.some.inj heq))
        simp only [EntryMap.get?_insert_of_ne _ _ (Ne.symm htext), ih, longest_append, hother]
        simp

theorem mem_fingerprintTexts {events : List DashboardEvent} {text : String} :
    text ∈ fingerprintTexts events ↔ ∃ first, events.find? (hasText text) = some first := by
  rw [← Option.isSome_iff_exists, List.find?_isSome, fingerprintTexts, List.mem_dedup]
  simp only [List.mem_map, List.mem_filterMap, hasText, decide_eq_true_eq]
  constructor
  · rintro ⟨fingerprint, ⟨event, hevent, hprint⟩, rfl⟩
    exact ⟨event, hevent, hprint⟩
  · rintro ⟨event, hevent, hprint⟩
    exact ⟨⟨text⟩, ⟨event, hevent, hprint⟩, rfl⟩

/-- The map has the fingerprints that occur, with what is kept of them. -/
theorem byFingerprint_perm (events : List DashboardEvent) :
    (byFingerprint events).entries.Perm ((fingerprintTexts events).map fun text ↦
      (text, (slowestOf events text).getD ⟨0, "", ""⟩)) := by
  refine EntryMap.entries_perm_map (List.nodup_dedup _) fun text ↦ ?_
  rw [get?_byFingerprint]
  by_cases htext : text ∈ fingerprintTexts events
  · obtain ⟨first, hfirst⟩ := mem_fingerprintTexts.mp htext
    rw [if_pos htext, slowestOf, hfirst]
    rfl
  · have hnone : events.find? (hasText text) = none :=
      Option.eq_none_iff_forall_ne_some.mpr fun first hfirst ↦
        htext (mem_fingerprintTexts.mpr ⟨first, hfirst⟩)
    rw [if_neg htext, slowestOf, hnone]
    rfl

theorem countP_byFingerprint (events : List DashboardEvent) (latency : ℕ) :
    ((byFingerprint events).entries.countP fun other ↦ latency < other.2.latency) =
      (fingerprintTexts events).countP fun other ↦ latency < longest events other := by
  rw [(byFingerprint_perm events).countP_eq, List.countP_map]
  refine List.countP_congr fun text htext ↦ ?_
  obtain ⟨first, hfirst⟩ := mem_fingerprintTexts.mp htext
  simp [slowestOf, hfirst]

theorem forall_slowestTwenty_iff {events : List DashboardEvent} :
    (∀ order, ∀ entry ∈ slowestTwenty order events,
        (∃ front, truncateStr entry.1.1 60 = some front ∧ TagFree front.toList) ∧
          TagFree (pairText id entry.1.2.database entry.1.2.collection)) ↔
      QuietFingerprints events := by
  have hfront (text : String) :
      (∃ front, truncateStr text 60 = some front ∧ TagFree front.toList) ↔
        ∃ front, front <+: text.toList ∧
          String.utf8Len front = min 60 text.utf8ByteSize ∧ TagFree front := by
    simp only [truncateStr_eq_some, and_assoc]
    constructor
    · rintro ⟨front, h⟩
      exact ⟨front.toList, h⟩
    · rintro ⟨front, h⟩
      exact ⟨String.ofList front, by rwa [String.toList_ofList]⟩
  constructor
  · intro h text first hfirst hfew
    have hmem : (text, (⟨longest events text, first.database, first.collection⟩ : Slowest)) ∈
        (byFingerprint events).entries := by
      rw [← EntryMap.get?_eq_some, get?_byFingerprint, slowestOf, hfirst]
      rfl
    rw [← countP_byFingerprint] at hfew
    obtain ⟨order, hperm, hlisted⟩ :=
      (exists_mem_top_map_iff fun entry : String × Slowest ↦ entry.2.latency).mpr ⟨hmem, hfew⟩
    have hentry := h (.taking _ order hperm) _ (by
      rw [slowestTwenty, Iteration.list_taking hperm]
      exact hlisted)
    rw [hfront] at hentry
    exact hentry
  · intro h order entry hentry
    obtain ⟨⟨text, slowest⟩, hkept, rfl⟩ := List.mem_map.mp (mem_of_mem_top hentry)
    have hmem := (order.perm _).mem_iff.mp hkept
    rw [← EntryMap.get?_eq_some, get?_byFingerprint, slowestOf] at hmem
    obtain ⟨first, hfirst, rfl⟩ := Option.map_eq_some_iff.mp hmem
    have hfew := countP_lt_of_mem_top hentry
    rw [List.countP_map, (order.perm _).countP_eq] at hfew
    have hlisted := (countP_byFingerprint events (longest events text)).symm.trans_lt hfew
    rw [hfront]
    exact h text first hfirst hlisted

/-- No tag starts in the names of a failed event that is among the last fifty: those with its
timestamp come in their order behind those with later ones. -/
def QuietErrors (events : List DashboardEvent) : Prop :=
  ∀ event ∈ failed events,
    event ∈ ((failed events).filter fun other ↦ other.timestamp = event.timestamp).take
        (50 - (failed events).countP fun other ↦ event.timestamp < other.timestamp) →
      TagFree event.collectionKey.toList

theorem forall_lastFifty_iff {events : List DashboardEvent} :
    (∀ event ∈ lastFifty events, TagFree event.collectionKey.toList) ↔ QuietErrors events := by
  have hlisted (event : DashboardEvent) : event ∈ lastFifty events ↔
      event ∈ ((failed events).filter fun other ↦ other.timestamp = event.timestamp).take
        (50 - (failed events).countP fun other ↦ event.timestamp < other.timestamp) := by
    have hfst : event ∈ lastFifty events ↔ (event, event.timestamp) ∈
        top 50 ((failed events).map fun event ↦ (event, event.timestamp)) := by
      rw [lastFifty, List.mem_map]
      constructor
      · rintro ⟨entry, hentry, rfl⟩
        obtain ⟨other, -, rfl⟩ := List.mem_map.mp (mem_of_mem_top hentry)
        exact hentry
      · exact fun h ↦ ⟨_, h, rfl⟩
    rw [hfst, mem_top_iff, List.filter_map, List.countP_map, ← List.map_take, List.mem_map]
    simp only [Prod.mk.injEq, Function.comp_def]
    constructor
    · rintro ⟨other, hother, rfl, -⟩
      exact hother
    · exact fun h ↦ ⟨event, h, rfl, rfl⟩
  unfold QuietErrors
  constructor
  · intro h event _ hevent
    exact h event ((hlisted event).mpr hevent)
  · intro h event hevent
    have hmem := (hlisted event).mp hevent
    exact h event (List.mem_of_mem_filter (List.mem_of_mem_take hmem)) hmem

/-! ## The pages as a whole -/

/-- Names leave the tags of the pages as they are, and no page panics, exactly if no tag starts in a
name that can be listed, and fingerprints that can be listed are not cut inside a character. -/
theorem unscripted_iff (reader : Reader) (latencies : LatencyText) (events : List DashboardEvent) :
    ((∀ orders, Unscripted reader fun shown ↦ some (operations orders shown (some events))) ∧
      (∀ order, Unscripted reader fun shown ↦ queries latencies order shown (some events)) ∧
      Unscripted reader fun shown ↦ some (errors latencies shown (some events))) ↔
        QuietNamespaces (events.map DashboardEvent.toAnalyticsEvent) ∧ QuietFingerprints events ∧
          QuietErrors events := by
  simp only [operations_unscripted_iff, queries_unscripted_iff, errors_unscripted_iff]
  rw [forall_topTen_iff, forall_slowestTwenty_iff, forall_lastFifty_iff]

/-- A filter on a key that ends in a letter of two bytes. -/
def longFilter : Data.Document := [(String.ofList (List.replicate 58 'a' ++ ['é']), .int32 1)]

/-- A failed query on a database whose name is a tag, with a fingerprint whose sixtieth byte is
inside a character. -/
def scriptedEvent : DashboardEvent where
  operation := .find
  database := "<img src=x onerror=alert(1)>"
  collection := "orders"
  latency := 1000000
  success := false
  timestamp := 0
  fingerprint := some (QueryFingerprint.fromDocument longFilter)

def LatencyText.whole : LatencyText where
  print nanos := toString (nanos / 1000000)
  plain nanos := lt_notMem_toString (nanos / 1000000)

/-- The name of the database is read as a tag on two pages, and the third one panics. -/
theorem not_unscripted_scriptedEvent :
    (¬ Unscripted .toBracket fun shown ↦
        some (operations ⟨.listed, .listed⟩ shown (some [scriptedEvent]))) ∧
      queries .whole .listed id (some [scriptedEvent]) = none ∧
      ¬ Unscripted .toBracket fun shown ↦ some (errors .whole shown (some [scriptedEvent])) := by
  have hname : ¬ TagFree "<img src=x onerror=alert(1)>.orders".toList := fun h ↦
    h 'i' (by decide) ⟨[], "mg src=x onerror=alert(1)>.orders".toList, by decide⟩
  have hcut : (queries .whole .listed id (some [scriptedEvent])).isNone = true := by
    decide +kernel
  refine ⟨fun h ↦ hname ?_, Option.isNone_iff_eq_none.mp hcut, fun h ↦ hname ?_⟩
  · have hlisted : ("<img src=x onerror=alert(1)>.orders", 1) ∈
        topTen .listed AnalyticsEvent.collectionKey [scriptedEvent.toAnalyticsEvent] := by decide
    exact (operations_unscripted_iff _ _).mp h _ hlisted
  · have hlisted : scriptedEvent ∈ lastFifty [scriptedEvent] := by decide
    exact (errors_unscripted_iff _ _).mp h _ hlisted

end MongoCore.Analytics.Dashboard
