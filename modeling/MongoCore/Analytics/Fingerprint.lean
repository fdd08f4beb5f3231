import Mathlib.Data.List.Sort
import Mathlib.Data.String.Basic
import MongoCore.Data.BsonTypes
import MongoCore.Library.EntryMap
import MongoCore.Library.Shapes

/-!
# Fingerprints of filters

The collector of queries groups filters by a text that keeps their keys and drops their values.
Keys are written into it as they are, so different filters can have one text.

The main result says for which letters of keys the text tells filters apart.
-/

namespace MongoCore.Analytics

open MongoCore.Data MongoCore.Library MongoCore.Library.Shapes

/-! ## The fingerprint -/

structure QueryFingerprint where
  text : String
  deriving DecidableEq

def sortedKeys (members : Document) : List String :=
  (members.map Prod.fst).insertionSort (· ≤ ·)

mutual

def fingerprintValue : Bson → String
  | .document members =>
      -- every key that is looked up is a key of the document
      let entries := (sortedKeys members).map fun key ↦
        key ++ ":" ++ ((fingerprintMembers members).lookup key).getD ""
      "\x7b" ++ ",".intercalate entries ++ "\x7d"
  | .array items => fingerprintItems items
  | .double _ => "Double"
  | .string _ => "String"
  | .binary _ _ => "Binary"
  | .objectId _ => "ObjectId"
  | .boolean _ => "Boolean"
  | .null => "Null"
  | .regularExpression _ _ => "Regex"
  | .javaScriptCode _ => "JavaScript"
  | .javaScriptCodeWithScope _ _ => "JavaScriptWithScope"
  | .int32 _ => "Int32"
  | .int64 _ => "Int64"
  | .timestamp _ _ => "Timestamp"
  | .dateTime _ => "DateTime"
  | .symbol _ => "Symbol"
  | .decimal128 _ => "Decimal128"
  | .undefined => "Undefined"
  | .maxKey => "MaxKey"
  | .minKey => "MinKey"
  | .dbPointer _ _ => "DbPointer"

def fingerprintMembers : Document → List (String × String)
  | [] => []
  | (key, value) :: members => (key, fingerprintValue value) :: fingerprintMembers members

/-- The fingerprint of an array: that of its first item stands for all. -/
def fingerprintItems : List Bson → String
  | [] => "[]"
  | first :: _ => "[" ++ fingerprintValue first ++ "]"

end

def QueryFingerprint.fromDocument (doc : Document) : QueryFingerprint :=
  ⟨fingerprintValue (.document doc)⟩

/-! ## Shapes of filters -/

/-- Two values have the same shape: the same keys with values of the same shape, first items of the
same shape, or scalars of one type. -/
inductive SameShape : Bson → Bson → Prop where
  | scalar {value other : Bson} : value.IsScalar → value.elementType = other.elementType →
      SameShape value other
  | emptyArray : SameShape (.array []) (.array [])
  | array {first other : Bson} {items others : List Bson} : SameShape first other →
      SameShape (.array (first :: items)) (.array (other :: others))
  | document {members others : Document} :
      (∀ key, key ∈ members.map Prod.fst ↔ key ∈ others.map Prod.fst) →
      (∀ key value other, (key, value) ∈ members → (key, other) ∈ others → SameShape value other) →
      SameShape (.document members) (.document others)

mutual

/-- The keys that the shape of a value has consist of given letters. -/
def KeysOver (allowed : Set Char) : Bson → Prop
  | .document members => MembersOver allowed members
  | .array items => ItemsOver allowed items
  | _ => True

def MembersOver (allowed : Set Char) : Document → Prop
  | [] => True
  | (key, value) :: members =>
      (∀ c ∈ key.toList, c ∈ allowed) ∧ KeysOver allowed value ∧ MembersOver allowed members

/-- The same for the first item of an array. -/
def ItemsOver (allowed : Set Char) : List Bson → Prop
  | [] => True
  | first :: _ => KeysOver allowed first

end

/-- The letters that keys consist of include some that can be taken for the structure around keys:
a colon and an opening brace, a comma and a closing brace, or a colon and a comma together with
brackets or the letters of the name of a type. -/
def Collides (allowed : Set Char) : Prop :=
  (':' ∈ allowed ∧ '\x7b' ∈ allowed) ∨ (',' ∈ allowed ∧ '\x7d' ∈ allowed) ∨
    (':' ∈ allowed ∧ ',' ∈ allowed ∧ (('[' ∈ allowed ∧ ']' ∈ allowed) ∨
      ∃ value : Bson, value.IsScalar ∧ ∀ c ∈ (fingerprintValue value).toList, c ∈ allowed))

/-! ## The fingerprint as the spelling of a shape -/

/-- The characters that a fingerprint puts around names and keys. -/
def marks : Mark ↪ Char where
  toFun
    | .openRecord => '\x7b'
    | .closeRecord => '\x7d'
    | .openList => '['
    | .closeList => ']'
    | .colon => ':'
    | .comma => ','
  inj' := fun mark other ↦ by cases mark <;> cases other <;> decide

def scalarNames : Set (List Char) :=
  {name | ∃ value : Bson, value.IsScalar ∧ (fingerprintValue value).toList = name}

theorem collides_iff {allowed : Set Char} :
    Shapes.Collides marks scalarNames allowed ↔ Collides allowed := by
  have hname : (∃ name ∈ scalarNames, ∀ c ∈ name, c ∈ allowed) ↔
      ∃ value : Bson, value.IsScalar ∧ ∀ c ∈ (fingerprintValue value).toList, c ∈ allowed := by
    constructor
    · rintro ⟨-, ⟨value, hscalar, rfl⟩, hall⟩
      exact ⟨value, hscalar, hall⟩
    · rintro ⟨value, hscalar, hall⟩
      exact ⟨_, ⟨value, hscalar, rfl⟩, hall⟩
  rw [Shapes.Collides, hname]
  rfl

def byKey {β : Type*} (entries : List (String × β)) : List (String × β) :=
  entries.insertionSort fun first second ↦ first.1 ≤ second.1

mutual

def shapeOf : Bson → Shape Char
  | .document members =>
      .record ((byKey (shapeMembers members)).map fun member ↦ (member.1.toList, member.2))
  | .array items => shapeItems items
  | value => .leaf (fingerprintValue value).toList

def shapeMembers : Document → List (String × Shape Char)
  | [] => []
  | (key, value) :: members => (key, shapeOf value) :: shapeMembers members

def shapeItems : List Bson → Shape Char
  | [] => .emptyList
  | first :: _ => .list (shapeOf first)

end

/-! ### Members in order -/

section ByKey

variable {β γ : Type*}

theorem byKey_perm (entries : List (String × β)) : (byKey entries).Perm entries :=
  List.perm_insertionSort _ _

@[simp] theorem mem_byKey {entries : List (String × β)} {entry : String × β} :
    entry ∈ byKey entries ↔ entry ∈ entries :=
  (byKey_perm entries).mem_iff

theorem map_byKey (f : β → γ) (entries : List (String × β)) :
    byKey (entries.map fun entry ↦ (entry.1, f entry.2)) =
      (byKey entries).map fun entry ↦ (entry.1, f entry.2) :=
  (List.map_insertionSort (fun first second : String × β ↦ first.1 ≤ second.1)
    (fun first second : String × γ ↦ first.1 ≤ second.1)
    (fun entry : String × β ↦ (entry.1, f entry.2)) entries fun _ _ _ _ ↦ Iff.rfl).symm

theorem sortedKeys_eq (members : Document) : sortedKeys members = (byKey members).map Prod.fst :=
  (List.map_insertionSort (fun first second : String × Bson ↦ first.1 ≤ second.1) (· ≤ ·)
    Prod.fst members fun _ _ _ _ ↦ Iff.rfl).symm

theorem pairwise_byKey (entries : List (String × β)) :
    (byKey entries).Pairwise fun first second ↦ first.1 ≤ second.1 := by
  have : Std.Total fun first second : String × β ↦ first.1 ≤ second.1 :=
    ⟨fun first second ↦ le_total first.1 second.1⟩
  have : IsTrans (String × β) fun first second ↦ first.1 ≤ second.1 :=
    ⟨fun _ _ _ ↦ le_trans⟩
  exact List.pairwise_insertionSort _ entries

/-- The order of the members does not matter if their keys are distinct. -/
theorem byKey_eq_of_perm {entries others : List (String × β)}
    (hnodup : (entries.map Prod.fst).Nodup) (hperm : entries.Perm others) :
    byKey entries = byKey others := by
  have hsorted := (byKey_perm entries).trans (hperm.trans (byKey_perm others).symm)
  refine hsorted.eq_of_pairwise (fun first second hfirst hsecond hle hge ↦ ?_)
    (pairwise_byKey entries) (pairwise_byKey others)
  have hmem : second ∈ entries := hperm.mem_iff.mpr (mem_byKey.mp hsecond)
  exact List.inj_on_of_nodup_map hnodup (mem_byKey.mp hfirst) hmem (le_antisymm hle hge)

end ByKey

theorem fingerprintMembers_eq (members : Document) :
    fingerprintMembers members =
      members.map fun member ↦ (member.1, fingerprintValue member.2) := by
  induction members with
  | nil => rfl
  | cons member members ih => rw [fingerprintMembers, ih, List.map_cons]

theorem shapeMembers_eq (members : Document) :
    shapeMembers members = members.map fun member ↦ (member.1, shapeOf member.2) := by
  induction members with
  | nil => rfl
  | cons member members ih => rw [shapeMembers, ih, List.map_cons]

theorem shapeOf_document (members : Document) :
    shapeOf (.document members) =
      .record ((byKey members).map fun member ↦ (member.1.toList, shapeOf member.2)) := by
  rw [shapeOf, shapeMembers_eq, map_byKey, List.map_map]
  rfl

theorem shapeOf_scalar {value : Bson} (hscalar : value.IsScalar) :
    shapeOf value = .leaf (fingerprintValue value).toList := by
  cases value <;> first
    | rfl
    | exact absurd rfl hscalar.1
    | exact absurd rfl hscalar.2

theorem fingerprintValue_document {members : Document} (hnodup : (members.map Prod.fst).Nodup) :
    fingerprintValue (.document members) = "\x7b" ++ ",".intercalate ((byKey members).map
      fun member ↦ member.1 ++ ":" ++ fingerprintValue member.2) ++ "\x7d" := by
  have hentries : (sortedKeys members).map (fun key ↦
      key ++ ":" ++ ((fingerprintMembers members).lookup key).getD "") =
      (byKey members).map fun member ↦ member.1 ++ ":" ++ fingerprintValue member.2 := by
    rw [sortedKeys_eq, List.map_map]
    refine List.map_congr_left fun member hmember ↦ ?_
    have hlookup : (fingerprintMembers members).lookup member.1 =
        some (fingerprintValue member.2) := by
      have hmem : (member.1, fingerprintValue member.2) ∈ fingerprintMembers members := by
        rw [fingerprintMembers_eq]
        exact List.mem_map.mpr ⟨member, mem_byKey.mp hmember, rfl⟩
      refine lookup_eq_some_of_mem ?_ hmem
      rwa [fingerprintMembers_eq, List.map_map]
    simp only [Function.comp_apply, hlookup, Option.getD_some]
  rw [fingerprintValue, hentries]

theorem spellFields_eq (fields : List (List Char × Shape Char)) :
    spellFields marks fields = fields.map fun field ↦ field.1 ++ ':' :: spell marks field.2 := by
  induction fields with
  | nil => rfl
  | cons field fields ih =>
    rw [spellFields, ih, List.map_cons]
    rfl

/-- A fingerprint is the spelling of the shape. -/
theorem toList_fingerprintValue (value : Bson) (hdistinct : value.DistinctKeys) :
    (fingerprintValue value).toList = spell marks (shapeOf value) := by
  induction value using Bson.inductionOn with
  | document members ih =>
    obtain ⟨hnodup, hmembers⟩ := Bson.distinctKeys_document.mp hdistinct
    have hfields : (byKey members).map
        (String.toList ∘ fun member ↦ member.1 ++ ":" ++ fingerprintValue member.2) =
        spellFields marks ((byKey members).map fun member ↦
          (member.1.toList, shapeOf member.2)) := by
      rw [spellFields_eq, List.map_map]
      refine List.map_congr_left fun member hmember ↦ ?_
      have hmem := mem_byKey.mp hmember
      simp [ih member hmem (hmembers member hmem)]
    rw [fingerprintValue_document hnodup, shapeOf_document, spell, ← hfields]
    simp only [String.toList_append, String.toList_intercalate, List.map_map]
    rfl
  | array items ih =>
    cases items with
    | nil => rfl
    | cons first items =>
      have hfirst := ih first List.mem_cons_self
        (Bson.distinctKeys_array.mp hdistinct first List.mem_cons_self)
      rw [fingerprintValue, fingerprintItems, shapeOf, shapeItems, spell, String.toList_append,
        String.toList_append, hfirst]
      rfl
  | scalar value hscalar => rw [shapeOf_scalar hscalar, spell]

/-- What a fingerprint says of a type: its name, or the text of an empty document or array. -/
def typeText : ElementType → String
  | .document => "\x7b\x7d"
  | .array => "[]"
  | .double => "Double"
  | .string => "String"
  | .binary => "Binary"
  | .objectId => "ObjectId"
  | .boolean => "Boolean"
  | .null => "Null"
  | .regularExpression => "Regex"
  | .javaScriptCode => "JavaScript"
  | .javaScriptCodeWithScope => "JavaScriptWithScope"
  | .int32 => "Int32"
  | .int64 => "Int64"
  | .timestamp => "Timestamp"
  | .dateTime => "DateTime"
  | .symbol => "Symbol"
  | .decimal128 => "Decimal128"
  | .undefined => "Undefined"
  | .maxKey => "MaxKey"
  | .minKey => "MinKey"
  | .dbPointer => "DbPointer"

theorem fingerprintValue_scalar {value : Bson} (hscalar : value.IsScalar) :
    fingerprintValue value = typeText value.elementType := by
  cases value <;> first
    | rfl
    | exact absurd rfl hscalar.1
    | exact absurd rfl hscalar.2

theorem typeText_injective : Function.Injective typeText := by
  have hnodup : (ElementType.all.map typeText).Nodup := by decide
  exact fun type other heq ↦ List.inj_on_of_nodup_map hnodup (ElementType.mem_all type)
    (ElementType.mem_all other) heq

/-- Names of types consist of letters and digits. -/
theorem isAlphanum_typeText {type : ElementType} (hdocument : type ≠ .document)
    (harray : type ≠ .array) :
    typeText type ≠ "" ∧ (typeText type).toList.all Char.isAlphanum = true := by
  cases type <;> first
    | exact ⟨by decide, by decide⟩
    | exact absurd rfl hdocument
    | exact absurd rfl harray

theorem isAlphanum_marks (mark : Mark) : (marks mark).isAlphanum = false := by
  cases mark <;> decide

theorem apart_scalarNames : Apart marks scalarNames := by
  rintro - ⟨value, hscalar, rfl⟩
  obtain ⟨hne, hletters⟩ := isAlphanum_typeText hscalar.1 hscalar.2
  rw [fingerprintValue_scalar hscalar]
  refine ⟨by simpa using hne, fun mark hmark ↦ ?_⟩
  have hletter := List.all_eq_true.mp hletters _ hmark
  rw [isAlphanum_marks] at hletter
  exact absurd hletter (by decide)

/-! ## Same shape, same spelling -/

theorem mem_shapeMembers {members : Document} {entry : String × Shape Char} :
    entry ∈ shapeMembers members ↔ ∃ member ∈ members, (member.1, shapeOf member.2) = entry := by
  rw [shapeMembers_eq, List.mem_map]

theorem keys_shapeMembers (members : Document) :
    (shapeMembers members).map Prod.fst = members.map Prod.fst := by
  rw [shapeMembers_eq, List.map_map]
  rfl

theorem nodup_shapeMembers {members : Document} (hnodup : (members.map Prod.fst).Nodup) :
    (shapeMembers members).Nodup :=
  List.Nodup.of_map Prod.fst (by rwa [keys_shapeMembers])

/-- Where members with one key have the same shape, so have all members of the first document. -/
theorem shapeMembers_subset {members others : Document}
    (hkeys : ∀ key ∈ members.map Prod.fst, key ∈ others.map Prod.fst)
    (hshape : ∀ member ∈ members, ∀ other ∈ others, member.1 = other.1 →
      shapeOf member.2 = shapeOf other.2) : shapeMembers members ⊆ shapeMembers others := by
  intro entry hentry
  obtain ⟨member, hmember, rfl⟩ := mem_shapeMembers.mp hentry
  obtain ⟨other, hother, heq⟩ := List.mem_map.mp (hkeys member.1 (List.mem_map_of_mem hmember))
  refine mem_shapeMembers.mpr ⟨other, hother, ?_⟩
  rw [heq, hshape member hmember other hother heq.symm]

theorem shapeOf_eq_of_sameShape {value other : Bson} (hsame : SameShape value other)
    (hvalue : value.DistinctKeys) (hother : other.DistinctKeys) :
    shapeOf value = shapeOf other := by
  induction hsame with
  | @scalar value other hscalar htype =>
    have hotherScalar : other.IsScalar := by rwa [Bson.IsScalar, ← htype]
    rw [shapeOf_scalar hscalar, shapeOf_scalar hotherScalar, fingerprintValue_scalar hscalar,
      fingerprintValue_scalar hotherScalar, htype]
  | emptyArray => rfl
  | @array first other items others _ ih =>
    have hfirst := Bson.distinctKeys_array.mp hvalue first List.mem_cons_self
    have hotherFirst := Bson.distinctKeys_array.mp hother other List.mem_cons_self
    rw [shapeOf, shapeOf, shapeItems, shapeItems, ih hfirst hotherFirst]
  | @document members others hkeys _ ih =>
    obtain ⟨hnodup, hmembers⟩ := Bson.distinctKeys_document.mp hvalue
    obtain ⟨hotherNodup, hotherMembers⟩ := Bson.distinctKeys_document.mp hother
    -- members with one key have the same shape
    have hshape : ∀ member ∈ members, ∀ other ∈ others, member.1 = other.1 →
        shapeOf member.2 = shapeOf other.2 := by
      intro member hmember other hother heq
      refine ih member.1 member.2 other.2 hmember ?_ (hmembers member hmember)
        (hotherMembers other hother)
      rw [heq]
      exact hother
    have hperm : (shapeMembers members).Perm (shapeMembers others) := by
      refine (List.perm_ext_iff_of_nodup (nodup_shapeMembers hnodup)
        (nodup_shapeMembers hotherNodup)).mpr fun entry ↦ ⟨fun hentry ↦ ?_, fun hentry ↦ ?_⟩
      · exact shapeMembers_subset (fun key ↦ (hkeys key).mp) hshape hentry
      · exact shapeMembers_subset (fun key ↦ (hkeys key).mpr)
          (fun other hother member hmember heq ↦ (hshape member hmember other hother heq.symm).symm)
          hentry
    rw [shapeOf, shapeOf, byKey_eq_of_perm (by rwa [keys_shapeMembers]) hperm]

theorem exists_array_of_shapeItems {items : List Bson} {other : Bson}
    (heq : shapeItems items = shapeOf other) : ∃ others, other = .array others := by
  rcases other.cases_scalar with ⟨members, rfl⟩ | harray | hscalar
  · rw [shapeOf_document] at heq
    cases items <;> cases heq
  · exact harray
  · rw [shapeOf_scalar hscalar] at heq
    cases items <;> cases heq

theorem exists_document_of_shapeOf_eq {fields : List (List Char × Shape Char)} {other : Bson}
    (heq : .record fields = shapeOf other) : ∃ others, other = .document others := by
  rcases other.cases_scalar with hdocument | ⟨items, rfl⟩ | hscalar
  · exact hdocument
  · cases items <;> cases heq
  · rw [shapeOf_scalar hscalar] at heq
    cases heq

theorem isScalar_of_shapeOf_eq {name : List Char} {other : Bson} (heq : .leaf name = shapeOf other) :
    other.IsScalar := by
  rcases other.cases_scalar with ⟨members, rfl⟩ | ⟨items, rfl⟩ | hscalar
  · rw [shapeOf_document] at heq
    cases heq
  · cases items <;> cases heq
  · exact hscalar

/-- The fields of a shape are those of the members. -/
theorem shapeMembers_eq_of_fields_eq {members others : Document}
    (heq : shapeOf (.document members) = shapeOf (.document others)) :
    byKey (shapeMembers members) = byKey (shapeMembers others) := by
  rw [shapeOf, shapeOf, Shape.record.injEq] at heq
  refine List.map_injective_iff.mpr (fun first second hfields ↦ ?_) heq
  exact Prod.ext (String.toList_injective (congrArg Prod.fst hfields)) (Prod.mk.inj hfields).2

theorem sameShape_of_shapeOf_eq (value : Bson) : ∀ other : Bson, other.DistinctKeys →
    shapeOf value = shapeOf other → SameShape value other := by
  induction value using Bson.inductionOn with
  | document members ih =>
    intro other hdistinct heq
    obtain ⟨others, rfl⟩ := exists_document_of_shapeOf_eq heq
    obtain ⟨hnodup, hothers⟩ := Bson.distinctKeys_document.mp hdistinct
    have hfields := shapeMembers_eq_of_fields_eq heq
    have hmem : ∀ entry, entry ∈ shapeMembers members ↔ entry ∈ shapeMembers others := fun entry ↦ by
      rw [← mem_byKey, hfields, mem_byKey]
    refine .document (fun key ↦ ?_) fun key value other hvalue hother ↦ ?_
    · rw [← keys_shapeMembers, ← keys_shapeMembers]
      simp only [List.mem_map, hmem]
    · refine ih _ hvalue other (hothers _ hother) ?_
      have hentry : (key, shapeOf value) ∈ shapeMembers others :=
        (hmem _).mp (mem_shapeMembers.mpr ⟨_, hvalue, rfl⟩)
      have hsame := List.inj_on_of_nodup_map (by rwa [keys_shapeMembers]) hentry
        (mem_shapeMembers.mpr ⟨_, hother, rfl⟩) rfl
      exact (Prod.mk.inj hsame).2
  | array items ih =>
    intro other hdistinct heq
    obtain ⟨others, rfl⟩ := exists_array_of_shapeItems heq
    cases items with
    | nil =>
      cases others with
      | nil => exact .emptyArray
      | cons other others => cases heq
    | cons first items =>
      cases others with
      | nil => cases heq
      | cons other others =>
        refine .array (ih first List.mem_cons_self other
          (Bson.distinctKeys_array.mp hdistinct other List.mem_cons_self) ?_)
        rw [shapeOf, shapeOf, shapeItems, shapeItems] at heq
        exact Shape.list.inj heq
  | scalar value hscalar =>
    intro other _ heq
    rw [shapeOf_scalar hscalar] at heq
    have hother := isScalar_of_shapeOf_eq heq
    rw [shapeOf_scalar hother, Shape.leaf.injEq] at heq
    have htexts := String.toList_injective heq
    rw [fingerprintValue_scalar hscalar, fingerprintValue_scalar hother] at htexts
    exact .scalar hscalar (typeText_injective htexts)

theorem sameShape_iff {value other : Bson} (hvalue : value.DistinctKeys)
    (hother : other.DistinctKeys) : SameShape value other ↔ shapeOf value = shapeOf other :=
  ⟨fun hsame ↦ shapeOf_eq_of_sameShape hsame hvalue hother,
    sameShape_of_shapeOf_eq value other hother⟩

/-! ## Which keys are told apart -/

section Keys

variable {allowed : Set Char}

@[simp] theorem keysOver_document {members : Document} :
    KeysOver allowed (.document members) ↔
      ∀ member ∈ members, (∀ c ∈ member.1.toList, c ∈ allowed) ∧ KeysOver allowed member.2 := by
  rw [KeysOver]
  induction members with
  | nil => simp [MembersOver]
  | cons member members ih => simp [MembersOver, ih, and_assoc]

theorem over_shapeOf (value : Bson) (hover : KeysOver allowed value) :
    (shapeOf value).Over scalarNames allowed := by
  induction value using Bson.inductionOn with
  | document members ih =>
    rw [shapeOf_document, Shape.Over, fieldsOver_iff]
    intro field hfield
    obtain ⟨member, hmember, rfl⟩ := List.mem_map.mp hfield
    have hmem := mem_byKey.mp hmember
    obtain ⟨hkey, hvalue⟩ := keysOver_document.mp hover member hmem
    exact ⟨hkey, ih member hmem hvalue⟩
  | array items ih =>
    cases items with
    | nil => trivial
    | cons first items => exact ih first List.mem_cons_self hover
  | scalar value hscalar =>
    rw [shapeOf_scalar hscalar]
    exact ⟨value, hscalar, rfl⟩

def TellsShape (filter other : KeyedDocument) : Prop :=
  QueryFingerprint.fromDocument filter.members = QueryFingerprint.fromDocument other.members ↔
    SameShape (.document filter.members) (.document other.members)

theorem tellsShape_of_not_collides (hsafe : ¬ Collides allowed) {filter other : KeyedDocument}
    (hfilter : KeysOver allowed (.document filter.members))
    (hother : KeysOver allowed (.document other.members)) : TellsShape filter other := by
  have htext : QueryFingerprint.fromDocument filter.members =
      QueryFingerprint.fromDocument other.members ↔
      spell marks (shapeOf (.document filter.members)) =
        spell marks (shapeOf (.document other.members)) := by
    rw [← toList_fingerprintValue _ filter.distinct, ← toList_fingerprintValue _ other.distinct,
      String.toList_inj, QueryFingerprint.fromDocument, QueryFingerprint.fromDocument,
      QueryFingerprint.mk.injEq]
  rw [TellsShape, htext, sameShape_iff filter.distinct other.distinct]
  exact ⟨spell_injective apart_scalarNames (fun h ↦ hsafe (collides_iff.mp h))
    (over_shapeOf _ hfilter) (over_shapeOf _ hother), congrArg _⟩

/-- Two documents with different keys have different shapes. -/
theorem not_sameShape_of_keys {members others : Document} {key : String}
    (hkey : key ∈ members.map Prod.fst) (hother : key ∉ others.map Prod.fst) :
    ¬ SameShape (.document members) (.document others) := by
  intro hsame
  cases hsame with
  | scalar hscalar => exact hscalar.1 rfl
  | document hkeys => exact hother ((hkeys key).mp hkey)

/-! ### Filters that are not told apart -/

def braceInside : KeyedDocument where
  members := [("", .document [(":\x7b", .null)])]
  distinct := by simp [Bson.DistinctKeys, Bson.DistinctInMembers]

def braceOutside : KeyedDocument where
  members := [(":\x7b", .document [("", .null)])]
  distinct := by simp [Bson.DistinctKeys, Bson.DistinctInMembers]

/-- Braces in keys stand for an empty document and for the end of one. -/
def emptyFirst : KeyedDocument where
  members := [("", .document []), (",", .document [("\x7d,\x7d\x7d", .null)])]
  distinct := by simp [Bson.DistinctKeys, Bson.DistinctInMembers]

def emptyLast : KeyedDocument where
  members := [("", .document [("\x7d,,", .document []), ("\x7d\x7d", .null)])]
  distinct := by simp [Bson.DistinctKeys, Bson.DistinctInMembers]

def twoMembers (value : Bson) (hvalue : value.DistinctKeys) : KeyedDocument where
  members := [("", value), (",", value)]
  distinct := by simp [hvalue]

/-- The first of these members as a part of a key. -/
def longKey (value : Bson) (hvalue : value.DistinctKeys) : KeyedDocument where
  members := [(":" ++ fingerprintValue value ++ ",,", value)]
  distinct := by simp [hvalue]

theorem not_tellsShape_brace : ¬ TellsShape braceInside braceOutside := by
  intro h
  have hkey : "" ∈ braceInside.members.map Prod.fst := by decide
  exact not_sameShape_of_keys hkey (by decide) (h.mp rfl)

theorem not_tellsShape_empty : ¬ TellsShape emptyFirst emptyLast := by
  intro h
  have hkey : "," ∈ emptyFirst.members.map Prod.fst := by decide
  exact not_sameShape_of_keys hkey (by decide) (h.mp (by decide))

theorem not_tellsShape_longKey (value : Bson) (hvalue : value.DistinctKeys) :
    ¬ TellsShape (twoMembers value hvalue) (longKey value hvalue) := by
  intro h
  have hkey : "," ∈ (twoMembers value hvalue).members.map Prod.fst := by simp [twoMembers]
  have hother : "," ∉ (longKey value hvalue).members.map Prod.fst := by
    intro hmem
    have hlength := congrArg String.length (List.mem_singleton.mp hmem)
    simp only [String.length_append] at hlength
    have hlong : (":" : String).length + (",,": String).length ≤ (",": String).length := by omega
    exact absurd hlong (by decide)
  have hle : ("" : String) ≤ "," := by decide
  have htwo : byKey [("", value), (",", value)] = [("", value), (",", value)] := by
    simp [byKey, hle]
  refine not_sameShape_of_keys hkey hother (h.mp (congrArg QueryFingerprint.mk ?_))
  rw [fingerprintValue_document (Bson.distinctKeys_document.mp (twoMembers value hvalue).distinct).1,
    fingerprintValue_document (Bson.distinctKeys_document.mp (longKey value hvalue).distinct).1,
    twoMembers, longKey, htwo]
  have hone : ∀ key : String, byKey [(key, value)] = [(key, value)] := fun key ↦ by simp [byKey]
  rw [hone]
  refine String.toList_injective ?_
  simp

/-- A scalar with the same name and without documents in it. -/
theorem exists_distinctKeys_scalar {value : Bson} (hscalar : value.IsScalar) :
    ∃ other : Bson, other.IsScalar ∧ other.DistinctKeys ∧
      fingerprintValue other = fingerprintValue value := by
  cases value with
  | javaScriptCodeWithScope code scope =>
    exact ⟨.javaScriptCodeWithScope code [], hscalar, by simp [Bson.DistinctKeys,
      Bson.DistinctInMembers], rfl⟩
  | document members => exact absurd rfl hscalar.1
  | array items => exact absurd rfl hscalar.2
  | _ => exact ⟨_, hscalar, trivial, rfl⟩

theorem keysOver_scalar {value : Bson} (hscalar : value.IsScalar) : KeysOver allowed value := by
  cases value with
  | document members => exact absurd rfl hscalar.1
  | array items => exact absurd rfl hscalar.2
  | _ => trivial

/-- A value whose fingerprint can be a part of a key lets two filters collide. -/
theorem exists_not_tellsShape {value : Bson} (hvalue : value.DistinctKeys)
    (hover : KeysOver allowed value) (hcolon : ':' ∈ allowed) (hcomma : ',' ∈ allowed)
    (hletters : ∀ c ∈ (fingerprintValue value).toList, c ∈ allowed) :
    ∃ filter other : KeyedDocument, KeysOver allowed (.document filter.members) ∧
      KeysOver allowed (.document other.members) ∧ ¬ TellsShape filter other := by
  refine ⟨twoMembers value hvalue, longKey value hvalue, ?_, ?_,
    not_tellsShape_longKey value hvalue⟩
  · simp [twoMembers, hover, hcomma]
  · refine keysOver_document.mpr fun member hmember ↦ ?_
    obtain rfl := List.mem_singleton.mp hmember
    refine ⟨fun c hc ↦ ?_, hover⟩
    simp only [String.toList_append, List.mem_append] at hc
    rcases hc with (hc | hc) | hc
    · exact (List.mem_singleton.mp hc) ▸ hcolon
    · exact hletters c hc
    · have hc' : c = ',' := by simpa using hc
      exact hc' ▸ hcomma

theorem exists_not_tellsShape_of_collides (hcollides : Collides allowed) :
    ∃ filter other : KeyedDocument, KeysOver allowed (.document filter.members) ∧
      KeysOver allowed (.document other.members) ∧ ¬ TellsShape filter other := by
  rcases hcollides with ⟨hcolon, hbrace⟩ | ⟨hcomma, hbrace⟩ | ⟨hcolon, hcomma, hvalue⟩
  · exact ⟨braceInside, braceOutside,
      by simp [braceInside, hcolon, hbrace, KeysOver, MembersOver],
      by simp [braceOutside, hcolon, hbrace, KeysOver, MembersOver], not_tellsShape_brace⟩
  · exact ⟨emptyFirst, emptyLast,
      by simp [emptyFirst, hcomma, hbrace, KeysOver, MembersOver],
      by simp [emptyLast, hcomma, hbrace, KeysOver, MembersOver], not_tellsShape_empty⟩
  · rcases hvalue with ⟨hopen, hclose⟩ | ⟨value, hscalar, hletters⟩
    · have hbrackets : ∀ c ∈ (fingerprintValue (.array [])).toList, c ∈ allowed := by
        simp [fingerprintValue, fingerprintItems, hopen, hclose]
      exact exists_not_tellsShape (by simp) (by simp [KeysOver, ItemsOver]) hcolon hcomma hbrackets
    · obtain ⟨other, hother, hdistinct, htext⟩ := exists_distinctKeys_scalar hscalar
      exact exists_not_tellsShape hdistinct (keysOver_scalar hother) hcolon hcomma
        (htext ▸ hletters)

/-- The fingerprint tells apart the shapes of all filters whose keys consist of given letters if and
only if these letters do not collide. -/
theorem forall_tellsShape_iff (allowed : Set Char) :
    (∀ filter other : KeyedDocument, KeysOver allowed (.document filter.members) →
      KeysOver allowed (.document other.members) → TellsShape filter other) ↔
      ¬ Collides allowed := by
  constructor
  · intro hall hcollides
    obtain ⟨filter, other, hfilter, hother, hnot⟩ := exists_not_tellsShape_of_collides hcollides
    exact hnot (hall filter other hfilter hother)
  · exact fun hsafe filter other ↦ tellsShape_of_not_collides hsafe

end Keys

/-- A filter with two fields, and one whose only field has the first of them in its name. -/
def twoFields : KeyedDocument where
  members := [("a", .int32 1), ("b", .int32 1)]
  distinct := by simp [Bson.DistinctKeys, Bson.DistinctInMembers]

def oneField : KeyedDocument where
  members := [("a:Int32,b", .int32 1)]
  distinct := by simp [Bson.DistinctKeys, Bson.DistinctInMembers]

/-- The two filters have one fingerprint. -/
theorem not_tellsShape_twoFields : ¬ TellsShape twoFields oneField := by
  intro h
  have hkey : "a" ∈ twoFields.members.map Prod.fst := by decide
  exact not_sameShape_of_keys hkey (by decide) (h.mp (by decide))

end MongoCore.Analytics
