import Mathlib.Data.List.Basic
import Mathlib.Logic.Equiv.Basic
import MongoCore.Compiled.QuerySafety
import MongoCore.Library.Results

/-!
# Keys of cached queries

The key of a request in the cache is the hash of its parts, joined by a bar.  The parts may have
bars themselves, so different requests can have one key.

The main result says which requests share their key with no other: those where the joined parts can
be taken apart in one way only.
-/

namespace MongoCore.Compiled

open MongoCore.Data MongoCore.Library.Results

/-- What the key of a query is made of. -/
structure Request where
  intent : String
  database : String
  collection : String
  fingerprint : Option String

section Hash

variable {Regex : Type} (crates : Crates Regex)

def QueryHasher.preimage (intent database collection : String)
    (schemaFingerprint : Option String) : String :=
  let base := crates.trimLowercase intent ++ "|" ++ database ++ "|" ++ collection
  match schemaFingerprint with
  | some fingerprint => base ++ "|" ++ fingerprint
  | none => base

def QueryHasher.hash (intent database collection : String) (schemaFingerprint : Option String) :
    String :=
  crates.sha256 (preimage crates intent database collection schemaFingerprint)

def Request.key (request : Request) : String :=
  QueryHasher.hash crates request.intent request.database request.collection request.fingerprint

/-- The key under which the translator caches a query is that of a request without fingerprint. -/
theorem hash_eq_key (intent database collection : String) :
    CompiledQueryTranslator.hash crates intent database collection =
      Request.key crates ⟨intent, database, collection, none⟩ := by
  simp only [CompiledQueryTranslator.hash, Request.key, QueryHasher.hash, QueryHasher.preimage,
    toString]

/-- Two requests ask for the same: they differ at most in the case of the intent and the space around
it. -/
def Request.Same (request other : Request) : Prop :=
  crates.trimLowercase request.intent = crates.trimLowercase other.intent ∧
    request.database = other.database ∧ request.collection = other.collection ∧
    request.fingerprint = other.fingerprint

/-- The joined parts of a request can be taken apart in one way only.  There is no fingerprint and
no bar in the names, and what stands before a bar in the normalized intent is not a normalized
intent. -/
def Request.Unambiguous (request : Request) : Prop :=
  request.fingerprint = none ∧ '|' ∉ request.database.toList ∧ '|' ∉ request.collection.toList ∧
    ∀ front back, (crates.trimLowercase request.intent).toList = front ++ '|' :: back →
      ∀ intent, (crates.trimLowercase intent).toList ≠ front

/-- The last part of the text that is hashed. -/
def Request.lastPart (request : Request) : List Char :=
  match request.fingerprint with
  | some fingerprint => request.collection.toList ++ '|' :: fingerprint.toList
  | none => request.collection.toList

def Request.text (request : Request) : String :=
  QueryHasher.preimage crates request.intent request.database request.collection
    request.fingerprint

variable {crates}

theorem Request.toList_text (request : Request) :
    (request.text crates).toList = (crates.trimLowercase request.intent).toList ++
      '|' :: (request.database.toList ++ '|' :: request.lastPart) := by
  unfold Request.text QueryHasher.preimage Request.lastPart
  cases request.fingerprint <;> simp

/-- An unambiguous request shares its text with no other. -/
theorem Request.Unambiguous.same {request other : Request} (h : request.Unambiguous crates)
    (htext : request.text crates = other.text crates) : request.Same crates other := by
  obtain ⟨hfingerprint, hdatabase, hcollection, hintent⟩ := h
  have hlast : request.lastPart = request.collection.toList := by
    rw [Request.lastPart, hfingerprint]
  have hlists := congrArg String.toList htext
  rw [Request.toList_text, Request.toList_text, hlast, List.append_eq_append_iff] at hlists
  -- both take the intent to the same bar
  obtain ⟨hsame, hrest⟩ : (crates.trimLowercase request.intent).toList =
      (crates.trimLowercase other.intent).toList ∧
      request.database.toList ++ '|' :: request.collection.toList =
        other.database.toList ++ '|' :: other.lastPart := by
    rcases hlists with ⟨more, hmore, htail⟩ | ⟨more, hmore, htail⟩
    · cases more with
      | nil =>
        rw [List.append_nil] at hmore
        exact ⟨hmore.symm, (List.cons.inj htail).2⟩
      | cons bar more =>
        rw [List.cons_append, List.cons.injEq] at htail
        obtain ⟨-, -, hbar⟩ :=
          (List.append_cons_inj_of_notMem hdatabase hcollection).mp htail.2
        exact absurd (hbar ▸ List.mem_append_right _ List.mem_cons_self) hcollection
    · cases more with
      | nil =>
        rw [List.append_nil] at hmore
        exact ⟨hmore, (List.cons.inj htail).2.symm⟩
      | cons bar more =>
        rw [List.cons_append, List.cons.injEq] at htail
        rw [← htail.1] at hmore
        exact absurd rfl (hintent _ more hmore other.intent)
  obtain ⟨hname, -, hcoll⟩ := (List.append_cons_inj_of_notMem hdatabase hcollection).mp hrest
  refine ⟨String.toList_injective hsame, String.toList_injective hname, ?_⟩
  unfold Request.lastPart at hcoll
  cases hother : other.fingerprint with
  | none =>
    rw [hother] at hcoll
    exact ⟨String.toList_injective hcoll, hfingerprint⟩
  | some fingerprint =>
    rw [hother] at hcoll
    exact absurd (hcoll ▸ List.mem_append_right _ List.mem_cons_self) hcollection

theorem Request.text_eq_of_toList {request other : Request}
    (h : (request.text crates).toList = (other.text crates).toList) :
    request.text crates = other.text crates :=
  String.toList_injective h

/-- A request with a fingerprint shares its text with one whose collection ends in it. -/
theorem exists_other_of_fingerprint {request : Request} {fingerprint : String}
    (h : request.fingerprint = some fingerprint) :
    ∃ other : Request, other.text crates = request.text crates ∧ ¬ other.Same crates request := by
  refine ⟨⟨request.intent, request.database, request.collection ++ "|" ++ fingerprint, none⟩,
    Request.text_eq_of_toList ?_, fun hsame ↦ ?_⟩
  · simp [Request.toList_text, Request.lastPart, h]
  · cases hsame.2.2.2.trans h

/-- A bar in the name of the database may as well end it. -/
theorem exists_other_of_database {request : Request} (hnone : request.fingerprint = none)
    (h : '|' ∈ request.database.toList) :
    ∃ other : Request, other.text crates = request.text crates ∧ ¬ other.Same crates request := by
  obtain ⟨front, back, hsplit⟩ := List.append_of_mem h
  refine ⟨⟨request.intent, String.ofList front,
    String.ofList back ++ "|" ++ request.collection, none⟩,
    Request.text_eq_of_toList ?_, fun hsame ↦ ?_⟩
  · simp [Request.toList_text, Request.lastPart, hnone, hsplit]
  · have hlists := congrArg String.toList hsame.2.1
    rw [String.toList_ofList, hsplit] at hlists
    simpa using congrArg List.length hlists

/-- A bar in the name of the collection may as well begin a fingerprint. -/
theorem exists_other_of_collection {request : Request} (hnone : request.fingerprint = none)
    (h : '|' ∈ request.collection.toList) :
    ∃ other : Request, other.text crates = request.text crates ∧ ¬ other.Same crates request := by
  obtain ⟨front, back, hsplit⟩ := List.append_of_mem h
  refine ⟨⟨request.intent, request.database, String.ofList front, some (String.ofList back)⟩,
    Request.text_eq_of_toList ?_, fun hsame ↦ ?_⟩
  · simp [Request.toList_text, Request.lastPart, hnone, hsplit]
  · cases hsame.2.2.2.trans hnone

/-- A bar in the intent may as well end it, if what stands before it is a normalized intent. -/
theorem exists_other_of_intent {request : Request} (hnone : request.fingerprint = none)
    {front back : List Char}
    (hsplit : (crates.trimLowercase request.intent).toList = front ++ '|' :: back)
    {intent : String} (hintent : (crates.trimLowercase intent).toList = front) :
    ∃ other : Request, other.text crates = request.text crates ∧ ¬ other.Same crates request := by
  refine ⟨⟨intent, String.ofList back, request.database ++ "|" ++ request.collection, none⟩,
    Request.text_eq_of_toList ?_, fun hsame ↦ ?_⟩
  · simp [Request.toList_text, Request.lastPart, hnone, hsplit, hintent]
  · have hlists := congrArg String.toList hsame.1
    rw [hsplit, hintent] at hlists
    simpa using congrArg List.length hlists

/-- A request shares its text with no other exactly if it is unambiguous. -/
theorem unambiguous_iff {request : Request} :
    request.Unambiguous crates ↔ ∀ other : Request,
      other.text crates = request.text crates → other.Same crates request := by
  constructor
  · intro h other htext
    obtain ⟨hintent, hdatabase, hcollection, hfingerprint⟩ := h.same htext.symm
    exact ⟨hintent.symm, hdatabase.symm, hcollection.symm, hfingerprint.symm⟩
  · intro h
    have hno : ¬ ∃ other : Request,
        other.text crates = request.text crates ∧ ¬ other.Same crates request :=
      fun ⟨other, htext, hother⟩ ↦ hother (h other htext)
    have hnone : request.fingerprint = none := by
      by_contra hsome
      obtain ⟨fingerprint, hfingerprint⟩ := Option.ne_none_iff_exists'.mp hsome
      exact hno (exists_other_of_fingerprint hfingerprint)
    refine ⟨hnone, fun hbar ↦ hno (exists_other_of_database hnone hbar),
      fun hbar ↦ hno (exists_other_of_collection hnone hbar), ?_⟩
    intro front back hsplit intent hintent
    exact hno (exists_other_of_intent hnone hsplit hintent)

end Hash

/-! ## Answers from the cache -/

section Translations

variable {Regex : Type} (crates : Crates Regex)

/-- What a translator can come to, from an empty cache.  The language model may answer differently
each time, and the cache may forget queries. -/
inductive Reachable : CompiledQueryTranslator Regex → Prop
  | start (provider : Option LlmProvider) : Reachable ⟨fun _ ↦ none, provider, []⟩
  | translate {translator next : CompiledQueryTranslator Regex}
      {intent database collection : String} {context : TranslationContext} {query : CompiledQuery} :
      Reachable translator →
      translator.translate crates intent database collection context = .ok (query, next) →
      Reachable next
  | provide {translator : CompiledQueryTranslator Regex} (provider : Option LlmProvider) :
      Reachable translator → Reachable { translator with provider := provider }
  | forget {translator : CompiledQueryTranslator Regex} (cache : String → Option CompiledQuery) :
      Reachable translator →
      (∀ key query, cache key = some query → translator.cache key = some query) →
      Reachable { translator with cache := cache }

variable {crates}

/-- A query that was translated for a request is put into the cache under the request's key. -/
def Cached (crates : Crates Regex) (translator : CompiledQueryTranslator Regex)
    (intent database collection : String) (query : CompiledQuery)
    (next : CompiledQueryTranslator Regex) : Prop :=
  query.hash = CompiledQueryTranslator.hash crates intent database collection ∧
    query.intent = intent ∧ query.database = database ∧ query.collection = collection ∧
    next.cache = fun key ↦ if key = query.hash then some query else translator.cache key

theorem cached_of_translateMatch {translator next : CompiledQueryTranslator Regex}
    {found : TemplateMatch} {intent database collection : String} {query : CompiledQuery}
    (h : translator.translateMatch crates found intent database collection = .ok (query, next)) :
    Cached crates translator intent database collection query next := by
  obtain ⟨mql, -, h⟩ := bind_eq_ok.mp h
  obtain ⟨_, -, h⟩ := bind_eq_ok.mp h
  cases h
  exact ⟨rfl, rfl, rfl, rfl, rfl⟩

theorem cached_of_translateResponse {translator next : CompiledQueryTranslator Regex}
    {response : String} {intent database collection : String} {query : CompiledQuery}
    (h : translator.translateResponse crates response intent database collection =
      .ok (query, next)) :
    Cached crates translator intent database collection query next := by
  obtain ⟨⟨mql, llmTemplate⟩, -, h⟩ := bind_eq_ok.mp h
  obtain ⟨_, -, h⟩ := bind_eq_ok.mp h
  cases h
  exact ⟨rfl, rfl, rfl, rfl, rfl⟩

/-- A translated query comes from the cache, or it is put there. -/
theorem translate_cases {translator next : CompiledQueryTranslator Regex}
    {intent database collection : String} {context : TranslationContext} {query : CompiledQuery}
    (h : translator.translate crates intent database collection context = .ok (query, next)) :
    translator.cache (CompiledQueryTranslator.hash crates intent database collection) = some query ∧
        next = translator ∨
      Cached crates translator intent database collection query next := by
  unfold CompiledQueryTranslator.translate at h
  split at h
  case h_1 _ cached hcached =>
    cases h
    exact .inl ⟨hcached, rfl⟩
  case h_2 =>
    right
    split at h
    case h_1 => exact cached_of_translateMatch h
    case h_2 =>
      split at h
      case h_1 => cases h
      case h_2 =>
        split at h
        case h_1 => cases h
        case h_2 => exact cached_of_translateResponse h

/-- The key of a query in the cache is that of the request that it was translated for. -/
theorem Reachable.key_eq {translator : CompiledQueryTranslator Regex}
    (h : Reachable crates translator) {key : String} {query : CompiledQuery}
    (hquery : translator.cache key = some query) :
    key = Request.key crates ⟨query.intent, query.database, query.collection, none⟩ := by
  induction h generalizing key query with
  | start provider => cases hquery
  | translate _ htranslate ih =>
    rcases translate_cases htranslate with ⟨-, rfl⟩ | ⟨hhash, hi, hd, hc, hcache⟩
    · exact ih hquery
    · rw [hcache] at hquery
      dsimp only at hquery
      split_ifs at hquery with hkey
      · cases hquery
        rw [hkey, hhash, hi, hd, hc, hash_eq_key]
      · exact ih hquery
  | provide provider _ ih => exact ih hquery
  | forget cache _ hsub ih => exact ih (hsub key query hquery)

/-- A request that shares its key with no other is answered with a query for its own collection. -/
theorem Reachable.own_collection {translator next : CompiledQueryTranslator Regex}
    (h : Reachable crates translator) {intent database collection : String}
    {context : TranslationContext} {query : CompiledQuery}
    (hown : ∀ other : Request,
      other.key crates = Request.key crates ⟨intent, database, collection, none⟩ →
      other.Same crates ⟨intent, database, collection, none⟩)
    (htranslate : translator.translate crates intent database collection context =
      .ok (query, next)) :
    query.database = database ∧ query.collection = collection := by
  rcases translate_cases htranslate with ⟨hcached, -⟩ | ⟨-, -, hd, hc, -⟩
  · have hkey := h.key_eq hcached
    rw [hash_eq_key] at hkey
    have hsame := hown ⟨query.intent, query.database, query.collection, none⟩ hkey.symm
    exact ⟨hsame.2.1, hsame.2.2.1⟩
  · exact ⟨hd, hc⟩

end Translations

/-! ## Requests that share no key -/

/-- A request has its key for itself and is answered with queries for its own collection, if and
only if its joined parts can be taken apart in one way only. -/
theorem own_key_iff_unambiguous {Regex : Type} (crates : Crates Regex)
    (hinjective : Function.Injective crates.sha256) (request : Request) :
    ((∀ other : Request, other.key crates = request.key crates → other.Same crates request) ∧
      (request.fingerprint = none → ∀ translator, Reachable crates translator →
        ∀ context query next, translator.translate crates request.intent request.database
            request.collection context = .ok (query, next) →
          query.database = request.database ∧ query.collection = request.collection)) ↔
      request.Unambiguous crates := by
  have hkeys : (∀ other : Request, other.key crates = request.key crates →
      other.Same crates request) ↔ request.Unambiguous crates :=
    (forall_congr' fun other ↦ imp_congr_left hinjective.eq_iff).trans unambiguous_iff.symm
  refine ⟨fun h ↦ hkeys.mp h.1, fun h ↦ ⟨hkeys.mpr h, ?_⟩⟩
  intro hnone translator hreachable context query next htranslate
  refine hreachable.own_collection (fun other hkey ↦ ?_) htranslate
  obtain ⟨intent, database, collection, fingerprint⟩ := request
  obtain rfl : fingerprint = none := hnone
  exact hkeys.mpr h other hkey

def hashingCrates (text digest : String) : Crates Unit :=
  { readingCrates (.object [("method", .string "filter"), ("filter", .object [])]) with
    sha256 := Equiv.swap text digest }

/-- A request without bars has its key for itself. -/
theorem own_key_of_findAll :
    let crates := hashingCrates "find all|shop|users"
      "92b1f0aaf274154240c156197a4ecb864655629d225989e7103b3176ff7ce39e"
    ∀ other : Request, other.key crates = Request.key crates ⟨"find all", "shop", "users", none⟩ →
      other.Same crates ⟨"find all", "shop", "users", none⟩ := by
  intro crates
  have hunambiguous : Request.Unambiguous crates ⟨"find all", "shop", "users", none⟩ := by
    refine ⟨rfl, by decide, by decide, fun front back hsplit ↦ ?_⟩
    have hbar : '|' ∈ "find all".toList := hsplit ▸ List.mem_append_right _ List.mem_cons_self
    exact absurd hbar (by decide)
  exact ((own_key_iff_unambiguous crates (Equiv.injective _) _).mpr hunambiguous).1

/-- A request is answered with a query that was translated for another collection of another
database. -/
theorem answered_from_other_collection :
    let crates := hashingCrates "list|shop|eu|users"
      "90da2dfbd9aa5347f0cc7aafb172806c74dd6a9b049e215e0a51803015aa0bd2"
    ∃ query next,
      (freshTranslator "\x7b\"method\":\"filter\",\"filter\":\x7b\x7d\x7d").translate crates
          "list|shop" "eu" "users" noContext = .ok (query, next) ∧
        next.translate crates "list" "shop" "eu|users" noContext = .ok (query, next) ∧
        query.database = "eu" ∧ query.collection = "users" := by
  intro crates
  exact ⟨_, _, rfl, rfl, rfl, rfl⟩

end MongoCore.Compiled
