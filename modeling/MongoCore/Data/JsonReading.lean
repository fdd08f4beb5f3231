import MongoCore.Data.JsonLexing

/-!
# What a printed JSON value is read as

Every language reads the text of a value as a value that can be computed from it, if it reads the
quoted texts in it as they were.  What it reads is the same value under a condition on the parts of
the value only.
-/

namespace MongoCore.Data

open MongoCore.Library.Escapes MongoCore.Library.Tokens

section Image

variable {floats : FloatText} {dialect : Dialect}

variable (dialect) in
def imageNumber : Number → Number
  | .posInt value => .posInt (dialect.natural value)
  | .negInt value => negative (dialect.natural value.natAbs)
  | .float bits => .float bits

variable (dialect) in
mutual

def image : Json → Option Json
  | .null => dialect.word ['n', 'u', 'l', 'l']
  | .bool true => dialect.word ['t', 'r', 'u', 'e']
  | .bool false => dialect.word ['f', 'a', 'l', 's', 'e']
  | .number value => some (.number (imageNumber dialect value))
  | .string value => some (.string value)
  | .array items => (imageItems items).map .array
  | .object members => (imageMembers members).map fun read ↦
      .object (read.filter fun entry ↦ dialect.own entry.1)

def imageItems : List Json → Option (List Json)
  | [] => some []
  | item :: items =>
      (image item).bind fun read ↦ (imageItems items).map fun others ↦ read :: others

def imageMembers : List (String × Json) → Option (List (String × Json))
  | [] => some []
  | (key, value) :: members =>
      (image value).bind fun read ↦ (imageMembers members).map fun others ↦ (key, read) :: others

end

/-! ## Numbers -/

theorem readNatural_toDigits (value : ℕ) : readNatural (Nat.toDigits 10 value) = some value := by
  rw [readNatural, Nat.ofDigitChars_ten_toDigits]
  exact if_pos rfl

theorem readWord_numberText (laws : floats.Laws) {number : Number} (hnumber : number.Valid) :
    readWord floats dialect (numberText floats number) =
      some (.number (imageNumber dialect number)) := by
  cases number with
  | posInt value =>
    obtain ⟨c, rest, heq, hc, hsign⟩ := head_toDigits value
    have halpha : ¬ (Nat.toDigits 10 value).head?.any Char.isAlpha = true := by
      simp [heq, isAlpha_of_isDigit hc]
    have hhead : ¬ (Nat.toDigits 10 value).head? = some '-' := by simp [heq, hsign]
    rw [readWord, numberText, if_neg halpha, readNumber, any_isFloatMark_toDigits,
      if_neg Bool.false_ne_true, if_neg hhead, readNatural_toDigits]
    rfl
  | negInt value =>
    have hmark : ('-' :: Nat.toDigits 10 value.natAbs).any isFloatMark = false := by
      rw [List.any_cons, any_isFloatMark_toDigits]
      rfl
    have halpha : ¬ ('-' :: Nat.toDigits 10 value.natAbs).head?.any Char.isAlpha = true :=
      Bool.false_ne_true
    have hhead : ('-' :: Nat.toDigits 10 value.natAbs).head? = some '-' := rfl
    rw [readWord, numberText, if_neg halpha, readNumber, hmark, if_neg Bool.false_ne_true,
      if_pos hhead, List.tail_cons, readNatural_toDigits]
    rfl
  | float bits =>
    have halpha : ¬ (floats.print bits).head?.any Char.isAlpha = true := by
      rw [Option.any_eq_true_iff_get]
      rintro ⟨hsome, hget⟩
      rw [laws.head_print bits hnumber _ (Option.get_mem hsome)] at hget
      cases hget
    rw [readWord, numberText, if_neg halpha, readNumber, if_pos (laws.marked_print bits hnumber),
      laws.read_print bits hnumber]
    rfl

/-! ## Values -/

variable (floats) in
/-- The pieces of the text of a value without the layout. -/
def tokens (level : ℕ) (value : Json) : List TextPiece :=
  (pieces floats level value).filter TextPiece.solid

variable (floats) in
/-- What follows an item, without the layout. -/
def itemTokens (level : ℕ) (items : List Json) : List TextPiece :=
  (itemPieces floats level items).filter TextPiece.solid

variable (floats) in
/-- What follows a member, without the layout. -/
def memberTokens (level : ℕ) (members : List (String × Json)) : List TextPiece :=
  (memberPieces floats level members).filter TextPiece.solid

theorem tokens_array_cons (level : ℕ) (item : Json) (items : List Json) :
    tokens floats level (.array (item :: items)) =
      .mark '[' :: (tokens floats (level + 1) item ++ itemTokens floats level items) := by
  simp [tokens, itemTokens, pieces, line, TextPiece.solid, List.filter_cons]

theorem tokens_object_cons (level : ℕ) (key : String) (value : Json)
    (members : List (String × Json)) :
    tokens floats level (.object ((key, value) :: members)) =
      .mark '\x7b' :: .text key.toList :: .mark ':' ::
        (tokens floats (level + 1) value ++ memberTokens floats level members) := by
  simp [tokens, memberTokens, pieces, line, TextPiece.solid, List.filter_cons]

@[simp] theorem itemTokens_nil (level : ℕ) : itemTokens floats level [] = [.mark ']'] := by
  simp [itemTokens, itemPieces, line, TextPiece.solid, List.filter_cons]

@[simp] theorem itemTokens_cons (level : ℕ) (item : Json) (items : List Json) :
    itemTokens floats level (item :: items) =
      .mark ',' :: (tokens floats (level + 1) item ++ itemTokens floats level items) := by
  simp [tokens, itemTokens, itemPieces, line, TextPiece.solid, List.filter_cons]

@[simp] theorem memberTokens_nil (level : ℕ) : memberTokens floats level [] = [.mark '\x7d'] := by
  simp [memberTokens, memberPieces, line, TextPiece.solid, List.filter_cons]

@[simp] theorem memberTokens_cons (level : ℕ) (key : String) (value : Json)
    (members : List (String × Json)) :
    memberTokens floats level ((key, value) :: members) =
      .mark ',' :: .text key.toList :: .mark ':' ::
        (tokens floats (level + 1) value ++ memberTokens floats level members) := by
  simp [tokens, memberTokens, memberPieces, line, TextPiece.solid, List.filter_cons]

variable (floats dialect) in
/-- Reading the text of a value gives what it is read as. -/
def ReadsBack (value : Json) : Prop :=
  ∀ (level fuel : ℕ) (rest : List TextPiece), (tokens floats level value).length ≤ fuel →
    readValue floats dialect fuel (tokens floats level value ++ rest) =
      (image dialect value).map fun read ↦ (read, rest)

theorem readItems_tokens {item : Json} {items : List Json} (hitem : ReadsBack floats dialect item)
    (hitems : ∀ other ∈ items, ReadsBack floats dialect other) (level fuel : ℕ)
    (rest : List TextPiece)
    (hfuel : (tokens floats (level + 1) item ++ itemTokens floats level items).length ≤ fuel) :
    readItems floats dialect fuel
        (tokens floats (level + 1) item ++ itemTokens floats level items ++ rest) =
      (imageItems dialect (item :: items)).map fun read ↦ (read, rest) := by
  rw [List.length_append] at hfuel
  induction items generalizing item fuel with
  | nil =>
    rw [itemTokens_nil, List.length_singleton] at hfuel
    obtain ⟨fuel, rfl⟩ : ∃ more, fuel = more + 1 := Nat.exists_eq_succ_of_ne_zero (by omega)
    rw [readItems, List.append_assoc, hitem _ _ _ (by omega), itemTokens_nil, imageItems]
    cases image dialect item with
    | none => rfl
    | some read => rfl
  | cons other items ih =>
    rw [List.forall_mem_cons] at hitems
    rw [itemTokens_cons, List.length_cons, List.length_append] at hfuel
    obtain ⟨fuel, rfl⟩ : ∃ more, fuel = more + 1 := Nat.exists_eq_succ_of_ne_zero (by omega)
    have hmore := ih hitems.1 hitems.2 fuel (by omega)
    rw [readItems, List.append_assoc, hitem _ _ _ (by omega), imageItems]
    cases image dialect item with
    | none => rfl
    | some read =>
      simp only [Option.map_some, Option.bind_some, itemTokens_cons, List.cons_append, hmore]
      cases imageItems dialect (other :: items) with
      | none => rfl
      | some others => rfl

theorem readMembers_tokens {key : String} {value : Json} {members : List (String × Json)}
    (hvalue : ReadsBack floats dialect value)
    (hmembers : ∀ other ∈ members, ReadsBack floats dialect other.2) (level fuel : ℕ)
    (rest : List TextPiece)
    (hfuel : (tokens floats (level + 1) value ++ memberTokens floats level members).length < fuel) :
    readMembers floats dialect fuel (.text key.toList :: .mark ':' ::
        (tokens floats (level + 1) value ++ memberTokens floats level members ++ rest)) =
      (imageMembers dialect ((key, value) :: members)).map fun read ↦ (read, rest) := by
  rw [List.length_append] at hfuel
  induction members generalizing key value fuel with
  | nil =>
    obtain ⟨fuel, rfl⟩ : ∃ more, fuel = more + 1 := Nat.exists_eq_succ_of_ne_zero (by omega)
    simp only [readMembers]
    rw [List.append_assoc, hvalue _ _ _ (by omega), memberTokens_nil, imageMembers]
    cases image dialect value with
    | none => rfl
    | some read => rw [Option.map_some, String.ofList_toList]; rfl
  | cons other members ih =>
    obtain ⟨otherKey, otherValue⟩ := other
    rw [List.forall_mem_cons] at hmembers
    rw [memberTokens_cons, List.length_cons, List.length_cons, List.length_cons,
      List.length_append] at hfuel
    obtain ⟨fuel, rfl⟩ : ∃ more, fuel = more + 1 := Nat.exists_eq_succ_of_ne_zero (by omega)
    have hmore := @ih otherKey otherValue hmembers.1 hmembers.2 fuel (by omega)
    simp only [readMembers]
    rw [List.append_assoc, hvalue _ _ _ (by omega), imageMembers]
    cases image dialect value with
    | none => rfl
    | some read =>
      simp only [Option.map_some, Option.bind_some, memberTokens_cons, List.cons_append, hmore,
        String.ofList_toList]
      cases imageMembers dialect ((otherKey, otherValue) :: members) with
      | none => rfl
      | some others => rfl

/-- A printed value does not start with the end of an array. -/
theorem exists_tokens_eq (level : ℕ) (value : Json) :
    ∃ part parts, tokens floats level value = part :: parts ∧ part ≠ .mark ']' := by
  cases value with
  | null => exact ⟨_, _, rfl, by simp⟩
  | bool value => cases value <;> exact ⟨_, _, rfl, by simp⟩
  | number value => exact ⟨_, _, rfl, by simp⟩
  | string value => exact ⟨_, _, rfl, by simp⟩
  | array items =>
    cases items with
    | nil => exact ⟨_, _, rfl, by simp⟩
    | cons item items => exact ⟨_, _, tokens_array_cons level item items, by simp⟩
  | object members =>
    cases members with
    | nil => exact ⟨_, _, rfl, by simp⟩
    | cons entry members => exact ⟨_, _, tokens_object_cons level entry.1 entry.2 members, by simp⟩

theorem readValue_array (fuel : ℕ) {part : TextPiece} (hpart : part ≠ .mark ']')
    (parts : List TextPiece) :
    readValue floats dialect (fuel + 1) (.mark '[' :: part :: parts) =
      (readItems floats dialect fuel (part :: parts)).map fun read ↦ (.array read.1, read.2) := by
  rw [readValue]
  exact fun rest heq ↦ hpart (List.cons.inj heq).1

theorem readsBack (laws : floats.Laws) (value : Json) (hvalid : value.Valid) :
    ReadsBack floats dialect value := by
  intro level fuel rest hfuel
  induction value using Json.induction generalizing level fuel rest with
  | null =>
    cases fuel with
    | zero => exact absurd hfuel (Nat.not_succ_le_zero _)
    | succ fuel => rfl
  | bool value =>
    cases fuel with
    | zero => cases value <;> exact absurd hfuel (Nat.not_succ_le_zero _)
    | succ fuel => cases value <;> rfl
  | number number =>
    cases fuel with
    | zero => exact absurd hfuel (Nat.not_succ_le_zero _)
    | succ fuel =>
      change (readWord floats dialect (numberText floats number)).map _ = _
      rw [readWord_numberText laws (hvalid number rfl)]
      rfl
  | string text =>
    cases fuel with
    | zero => exact absurd hfuel (Nat.not_succ_le_zero _)
    | succ fuel =>
      change some (Json.string (String.ofList text.toList), rest) = _
      rw [String.ofList_toList]
      rfl
  | array items ih =>
    have hall := (Json.every_array.mp hvalid).2
    cases fuel with
    | zero => cases items <;> exact absurd hfuel (Nat.not_succ_le_zero _)
    | succ fuel =>
      cases items with
      | nil => rfl
      | cons item items =>
        rw [List.forall_mem_cons] at ih hall
        obtain ⟨part, parts, htokens, hpart⟩ := exists_tokens_eq (level + 1) item
        have hitems : ∀ other ∈ items, ReadsBack floats dialect other := fun other hother ↦
          ih.2 other hother (hall.2 other hother)
        rw [tokens_array_cons, List.length_cons] at hfuel
        have hread := readItems_tokens (ih.1 hall.1) hitems level fuel rest
          (Nat.le_of_succ_le_succ hfuel)
        rw [htokens, List.cons_append, List.cons_append] at hread
        rw [tokens_array_cons, htokens, List.cons_append, List.cons_append, List.cons_append,
          readValue_array fuel hpart, hread, image, Option.map_map, Option.map_map]
        rfl
  | object members ih =>
    have hall := (Json.every_object.mp hvalid).2
    cases fuel with
    | zero => cases members <;> exact absurd hfuel (Nat.not_succ_le_zero _)
    | succ fuel =>
      cases members with
      | nil => rfl
      | cons entry members =>
        obtain ⟨key, value⟩ := entry
        rw [List.forall_mem_cons] at ih hall
        have hmembers : ∀ other ∈ members, ReadsBack floats dialect other.2 := fun other hother ↦
          ih.2 other hother (hall.2 other hother).2
        rw [tokens_object_cons, List.length_cons, List.length_cons, List.length_cons] at hfuel
        have hvalue : ReadsBack floats dialect value := ih.1 hall.1.2
        have hread := @readMembers_tokens floats dialect key value members hvalue hmembers level
          fuel rest (by omega)
        rw [tokens_object_cons, List.cons_append, List.cons_append, List.cons_append, readValue,
          hread, image, Option.map_map, Option.map_map]
        · rfl
        · intro rest heq
          cases heq

/-! ## Values that are read as themselves -/

variable (dialect) in
/-- A value without items or members that is read as itself. -/
def KeptScalar (value : Json) : Prop :=
  match value with
  | .array _ | .object _ => True
  | value => image dialect value = some value

theorem imageItems_eq_self_iff {items : List Json} :
    imageItems dialect items = some items ↔ ∀ item ∈ items, image dialect item = some item := by
  induction items with
  | nil => simp [imageItems]
  | cons item items ih =>
    rw [List.forall_mem_cons, ← ih, imageItems]
    cases image dialect item with
    | none => simp
    | some read =>
      cases imageItems dialect items with
      | none => simp
      | some others => simp

theorem map_fst_of_imageMembers {members read : List (String × Json)}
    (hread : imageMembers dialect members = some read) :
    read.map Prod.fst = members.map Prod.fst := by
  induction members generalizing read with
  | nil =>
    obtain rfl := Option.some.inj hread
    rfl
  | cons entry members ih =>
    obtain ⟨key, value⟩ := entry
    obtain ⟨image, -, hmore⟩ := Option.bind_eq_some_iff.mp hread
    obtain ⟨others, hothers, rfl⟩ := Option.map_eq_some_iff.mp hmore
    rw [List.map_cons, List.map_cons, ih hothers]

theorem imageMembers_eq_self_iff {members : List (String × Json)} :
    imageMembers dialect members = some members ↔
      ∀ entry ∈ members, image dialect entry.2 = some entry.2 := by
  induction members with
  | nil => simp [imageMembers]
  | cons entry members ih =>
    obtain ⟨key, value⟩ := entry
    rw [List.forall_mem_cons, ← ih, imageMembers]
    cases image dialect value with
    | none => simp
    | some read =>
      cases imageMembers dialect members with
      | none => simp
      | some others => simp

/-- An object is read as itself if its members are, and all their names may be names of members. -/
theorem image_object_eq_self_iff {members : List (String × Json)} :
    image dialect (.object members) = some (.object members) ↔
      ∀ entry ∈ members, dialect.own entry.1 = true ∧ image dialect entry.2 = some entry.2 := by
  have hsplit : (∀ entry ∈ members, dialect.own entry.1 = true ∧
      image dialect entry.2 = some entry.2) ↔
        (∀ entry ∈ members, dialect.own entry.1 = true) ∧
          imageMembers dialect members = some members := by
    rw [imageMembers_eq_self_iff]
    exact forall₂_and
  rw [hsplit, image]
  constructor
  · intro himage
    obtain ⟨read, hread, heq⟩ := Option.map_eq_some_iff.mp himage
    have hfilter := Json.object.inj heq
    have hlength : read.length = members.length := by
      have hnames := congrArg List.length (map_fst_of_imageMembers hread)
      rwa [List.length_map, List.length_map] at hnames
    have hown : ∀ entry ∈ read, dialect.own entry.1 = true := by
      rw [← List.length_filter_eq_length_iff, hfilter, hlength]
    rw [List.filter_eq_self.mpr hown] at hfilter
    exact ⟨hfilter ▸ hown, hfilter ▸ hread⟩
  · rintro ⟨hown, hmembers⟩
    rw [hmembers, Option.map_some, List.filter_eq_self.mpr hown]

theorem image_eq_self_iff (value : Json) :
    image dialect value = some value ↔
      value.Every (KeptScalar dialect) fun name ↦ dialect.own name = true := by
  induction value using Json.induction with
  | null => exact Iff.rfl
  | bool value => exact Iff.rfl
  | number number => exact Iff.rfl
  | string text => exact Iff.rfl
  | array items ih =>
    rw [Json.every_array, image, Option.map_eq_some_iff]
    simp only [Json.array.injEq, exists_eq_right, imageItems_eq_self_iff]
    rw [KeptScalar, true_and]
    exact forall₂_congr ih
  | object members ih =>
    rw [Json.every_object, image_object_eq_self_iff, KeptScalar, true_and]
    exact forall₂_congr fun entry hentry ↦ and_congr_right fun _ ↦ ih entry hentry

/-! ## What a value was read from -/

/-- A language whose words are values without a text of their own, and in whose objects every name
is the name of a member. -/
structure Dialect.Transparent (dialect : Dialect) : Prop where
  word : ∀ chars value, dialect.word chars = some value → value = .null ∨ ∃ b, value = .bool b
  own : ∀ name, dialect.own name = true

theorem shape_of_readWord (htransparent : dialect.Transparent) {chars : List Char} {value : Json}
    (hread : readWord floats dialect chars = some value) (level : ℕ) :
    (tokens floats level value).map TextPiece.shape = [.word []] := by
  unfold readWord at hread
  split_ifs at hread with halpha
  · rcases htransparent.word chars value hread with rfl | ⟨b, rfl⟩
    · rfl
    · cases b <;> rfl
  · obtain ⟨number, -, rfl⟩ := Option.map_eq_some_iff.mp hread
    rfl

variable (floats dialect) in
/-- The pieces that a value, items or members were read from are those of their texts, up to the
characters of words. -/
structure ShapesKept (fuel : ℕ) : Prop where
  value : ∀ {parts value rest}, readValue floats dialect fuel parts = some (value, rest) →
    ∀ level, parts.map TextPiece.shape = (tokens floats level value ++ rest).map TextPiece.shape
  items : ∀ {parts items rest}, readItems floats dialect fuel parts = some (items, rest) →
    ∃ item others, items = item :: others ∧ ∀ level, parts.map TextPiece.shape =
      (tokens floats (level + 1) item ++ itemTokens floats level others ++ rest).map TextPiece.shape
  members : ∀ {parts members rest}, readMembers floats dialect fuel parts = some (members, rest) →
    ∃ key value others, members = (key, value) :: others ∧ ∀ level, parts.map TextPiece.shape =
      (.text key.toList :: .mark ':' ::
        (tokens floats (level + 1) value ++ memberTokens floats level others ++ rest)).map
          TextPiece.shape

section ShapesKept

variable {fuel : ℕ} {parts rest : List TextPiece}

theorem ShapesKept.readValue_succ (htransparent : dialect.Transparent)
    (ih : ShapesKept floats dialect fuel) {value : Json}
    (hread : readValue floats dialect (fuel + 1) parts = some (value, rest)) (level : ℕ) :
    parts.map TextPiece.shape = (tokens floats level value ++ rest).map TextPiece.shape := by
  unfold readValue at hread
  split at hread
  case h_1 chars more =>
    obtain ⟨read, hword, heq⟩ := Option.map_eq_some_iff.mp hread
    obtain ⟨rfl, rfl⟩ := Prod.mk.inj heq
    rw [List.map_append, shape_of_readWord htransparent hword]
    rfl
  case h_2 text more =>
    obtain ⟨rfl, rfl⟩ := Prod.mk.inj (Option.some.inj hread)
    have htokens : tokens floats level (.string (String.ofList text)) =
        [.text (String.ofList text).toList] := rfl
    rw [htokens, String.toList_ofList]
    rfl
  case h_3 more =>
    obtain ⟨rfl, rfl⟩ := Prod.mk.inj (Option.some.inj hread)
    rfl
  case h_4 more _ =>
    obtain ⟨read, hitems, heq⟩ := Option.map_eq_some_iff.mp hread
    obtain ⟨rfl, rfl⟩ := Prod.mk.inj heq
    obtain ⟨item, others, hcons, hshape⟩ := ih.items hitems
    rw [hcons, tokens_array_cons, List.map_cons, hshape level]
    rfl
  case h_5 more =>
    obtain ⟨rfl, rfl⟩ := Prod.mk.inj (Option.some.inj hread)
    rfl
  case h_6 more _ =>
    obtain ⟨read, hmembers, heq⟩ := Option.map_eq_some_iff.mp hread
    obtain ⟨rfl, rfl⟩ := Prod.mk.inj heq
    obtain ⟨key, value, others, hcons, hshape⟩ := ih.members hmembers
    rw [List.filter_eq_self.mpr fun entry _ ↦ htransparent.own entry.1, hcons,
      tokens_object_cons, List.map_cons, hshape level]
    rfl
  case h_7 => cases hread

theorem ShapesKept.readItems_succ (ih : ShapesKept floats dialect fuel) {items : List Json}
    (hread : readItems floats dialect (fuel + 1) parts = some (items, rest)) :
    ∃ item others, items = item :: others ∧ ∀ level, parts.map TextPiece.shape =
      (tokens floats (level + 1) item ++ itemTokens floats level others ++ rest).map
        TextPiece.shape := by
  unfold readItems at hread
  split at hread
  case h_1 item more hitem =>
    obtain ⟨rfl, rfl⟩ := Prod.mk.inj (Option.some.inj hread)
    refine ⟨item, [], rfl, fun level ↦ ?_⟩
    rw [ih.value hitem (level + 1), itemTokens_nil, List.append_assoc]
    rfl
  case h_2 item more hitem =>
    obtain ⟨read, hitems, heq⟩ := Option.map_eq_some_iff.mp hread
    obtain ⟨rfl, rfl⟩ := Prod.mk.inj heq
    obtain ⟨other, others, hcons, hshape⟩ := ih.items hitems
    refine ⟨item, read.1, rfl, fun level ↦ ?_⟩
    rw [ih.value hitem (level + 1), List.map_append, List.map_cons, hshape level, hcons]
    simp only [itemTokens_cons, List.map_append, List.map_cons, List.append_assoc,
      List.cons_append]
  case h_3 => cases hread

theorem ShapesKept.readMembers_succ (ih : ShapesKept floats dialect fuel)
    {members : List (String × Json)}
    (hread : readMembers floats dialect (fuel + 1) parts = some (members, rest)) :
    ∃ key value others, members = (key, value) :: others ∧ ∀ level, parts.map TextPiece.shape =
      (.text key.toList :: .mark ':' ::
        (tokens floats (level + 1) value ++ memberTokens floats level others ++ rest)).map
          TextPiece.shape := by
  unfold readMembers at hread
  split at hread
  case h_1 key behind =>
    split at hread
    case h_1 value more hvalue =>
      obtain ⟨rfl, rfl⟩ := Prod.mk.inj (Option.some.inj hread)
      refine ⟨String.ofList key, value, [], rfl, fun level ↦ ?_⟩
      rw [String.toList_ofList, List.map_cons, List.map_cons, ih.value hvalue (level + 1),
        memberTokens_nil, List.append_assoc]
      rfl
    case h_2 value more hvalue =>
      obtain ⟨read, hmembers, heq⟩ := Option.map_eq_some_iff.mp hread
      obtain ⟨rfl, rfl⟩ := Prod.mk.inj heq
      obtain ⟨otherKey, otherValue, others, hcons, hshape⟩ := ih.members hmembers
      refine ⟨String.ofList key, value, read.1, rfl, fun level ↦ ?_⟩
      rw [String.toList_ofList, List.map_cons, List.map_cons, ih.value hvalue (level + 1),
        List.map_append, List.map_cons, hshape level, hcons]
      simp only [memberTokens_cons, List.map_append, List.map_cons, List.append_assoc,
        List.cons_append]
    case h_3 => cases hread
  case h_2 => cases hread

theorem shapesKept (htransparent : dialect.Transparent) (fuel : ℕ) :
    ShapesKept floats dialect fuel := by
  induction fuel with
  | zero =>
    exact
      { value := fun h ↦ by cases h
        items := fun h ↦ by cases h
        members := fun h ↦ by cases h }
  | succ fuel ih =>
    exact
      { value := ih.readValue_succ htransparent
        items := ih.readItems_succ
        members := ih.readMembers_succ }

end ShapesKept

/-! ## Texts of values -/

section Text

variable {layout : Char → Char} {content : Char → List Char}

theorem lex_pieces (laws : floats.Laws) {value : Json} (hvalid : value.Valid)
    (hlayout : ∀ c, isLayout c = true → isLayout (layout c) = true)
    (htexts : value.EveryText fun text ↦ ∀ c ∈ text, dialect.quoted.ReadsAs (content c) c) :
    lex dialect.quoted 0 (render layout content (pieces floats 0 value)) =
      some (tokens floats 0 value) := by
  have harranged := arrangeable_pieces laws hvalid 0 [] trivial fun _ h ↦ by cases h
  rw [List.append_nil] at harranged
  exact lex_render hlayout harranged ((allTexts_pieces 0 value).mpr htexts)

/-- A printed value whose quoted texts are read as they were. -/
theorem readText_render (laws : floats.Laws) {value : Json} (hvalid : value.Valid)
    (hlayout : ∀ c, isLayout c = true → isLayout (layout c) = true)
    (htexts : value.EveryText fun text ↦ ∀ c ∈ text, dialect.quoted.ReadsAs (content c) c) :
    readText floats dialect (render layout content (pieces floats 0 value)) =
      image dialect value := by
  have hread := @readsBack floats dialect laws value hvalid 0 _ [] (Nat.le_refl _)
  rw [List.append_nil] at hread
  rw [readText, lex_pieces laws hvalid hlayout htexts]
  simp only [hread]
  cases image dialect value with
  | none => rfl
  | some read => rfl

/-- A language that knows the escapes reads the text of a value. -/
theorem readText_prettyText (laws : floats.Laws) (hknows : KnowsEscapes dialect.quoted)
    {value : Json} (hvalid : value.Valid) :
    readText floats dialect (prettyText floats value) = image dialect value := by
  refine readText_render laws hvalid (fun c hc ↦ hc) ?_
  rw [← @allTexts_pieces floats _ 0]
  exact fun _ _ c _ ↦ readsAs_escapeChar hknows c

/-- A printed value whose quoted texts stand there as they are, without quotes in them: it is read
as itself exactly if no character of them has to be escaped. -/
theorem readText_raw_iff (laws : floats.Laws) (htransparent : dialect.Transparent) {value : Json}
    (hvalid : value.Valid) (hkept : image dialect value = some value)
    (hlayout : ∀ c, isLayout c = true → isLayout (layout c) = true)
    (hquote : value.EveryText fun text ↦ '"' ∉ text) :
    readText floats dialect (render layout (fun c ↦ [c]) (pieces floats 0 value)) = some value ↔
      value.EveryText fun text ↦ ∀ c ∈ text, c ≠ '\\' ∧ dialect.quoted.inside c = true := by
  constructor
  · intro hread
    have harranged := arrangeable_pieces laws hvalid 0 [] trivial fun _ h ↦ by cases h
    rw [List.append_nil] at harranged
    unfold readText at hread
    cases hlex : lex dialect.quoted 0 (render layout (fun c ↦ [c]) (pieces floats 0 value)) with
    | none => simp [hlex] at hread
    | some found =>
      rw [hlex] at hread
      dsimp only at hread
      split at hread
      case h_1 read hvalue =>
        obtain rfl := Option.some.inj hread
        have hshape := (shapesKept htransparent found.length).value hvalue 0
        rw [List.append_nil] at hshape
        rw [← allTexts_pieces 0]
        exact plain_of_lex_render hlayout harranged ((allTexts_pieces 0 _).mpr hquote) hlex hshape
      case h_2 => cases hread
  · intro hplain
    rw [readText_render laws hvalid hlayout, hkept]
    rw [← @allTexts_pieces floats _ 0] at hquote hplain ⊢
    intro text htext c hc
    obtain ⟨hescape, hinside⟩ := hplain text htext c hc
    refine dialect.quoted.readsAs_self ?_ hescape hinside
    rintro rfl
    exact hquote text htext hc

end Text

end Image

end MongoCore.Data
