import MongoCore.Data.Bson
import Mathlib.Tactic.SplitIfs

/-!
# The BSON format

The bytes of a document, and the documents that byte strings stand for.  A document starts with
its own length, a string with the length of its text, and a value with the byte of its kind, so
that a parser knows where each ends.

The main result is the round trip: a document whose parts fit the fields of the format is read
back from its bytes, whatever follows them.
-/

namespace MongoCore.Data

/-! ## Integers and text -/

def toLittleEndian : ℕ → ℕ → List UInt8
  | 0, _ => []
  | count + 1, value => UInt8.ofNat (value % 256) :: toLittleEndian count (value / 256)

/-- The number with the given little-endian bytes. -/
def fromLittleEndian : List UInt8 → ℕ
  | [] => 0
  | byte :: bytes => byte.toNat + 256 * fromLittleEndian bytes

@[simp]
theorem length_toLittleEndian (count value : ℕ) : (toLittleEndian count value).length = count := by
  induction count generalizing value with
  | zero => rfl
  | succ count ih => rw [toLittleEndian, List.length_cons, ih]

theorem fromLittleEndian_toLittleEndian {count value : ℕ} (h : value < 256 ^ count) :
    fromLittleEndian (toLittleEndian count value) = value := by
  induction count generalizing value with
  | zero =>
    have hvalue : value = 0 := by simpa using h
    rw [hvalue]
    rfl
  | succ count ih =>
    have hquotient : value / 256 < 256 ^ count := by
      apply Nat.div_lt_of_lt_mul
      rwa [Nat.pow_succ, Nat.mul_comm] at h
    have hbyte : (UInt8.ofNat (value % 256)).toNat = value % 256 := by simp
    rw [toLittleEndian, fromLittleEndian, hbyte, ih hquotient]
    omega

/-- The unsigned integer of a signed one with the same bits. -/
def toUnsigned (bits : ℕ) (value : ℤ) : ℕ := (value % 2 ^ bits).toNat

/-- The signed integer of an unsigned one with the same bits. -/
def toSigned (bits value : ℕ) : ℤ :=
  if value < 2 ^ (bits - 1) then value else value - 2 ^ bits

theorem toSigned_toUnsigned_32 {value : ℤ} (hlow : -2 ^ 31 ≤ value) (hhigh : value < 2 ^ 31) :
    toSigned 32 (toUnsigned 32 value) = value := by
  unfold toSigned toUnsigned
  split_ifs <;> omega

theorem toSigned_toUnsigned_64 {value : ℤ} (hlow : -2 ^ 63 ≤ value) (hhigh : value < 2 ^ 63) :
    toSigned 64 (toUnsigned 64 value) = value := by
  unfold toSigned toUnsigned
  split_ifs <;> omega

theorem toUnsigned_32_lt (value : ℤ) : toUnsigned 32 value < 256 ^ 4 := by
  unfold toUnsigned
  omega

theorem toUnsigned_64_lt (value : ℤ) : toUnsigned 64 value < 256 ^ 8 := by
  unfold toUnsigned
  omega

/-- The UTF-8 bytes of a text. -/
def utf8 (text : String) : List UInt8 := text.toList.flatMap String.utf8EncodeChar

/-- The text of UTF-8 bytes. -/
def ofUtf8? (bytes : List UInt8) : Option String := String.fromUTF8? bytes.toByteArray

@[simp]
theorem ofUtf8?_utf8 (text : String) : ofUtf8? (utf8 text) = some text := by
  have hbytes : (utf8 text).toByteArray = text.toByteArray := String.utf8Encode_toList
  rw [ofUtf8?, hbytes, String.fromUTF8?, dif_pos text.isValidUTF8]
  rfl

/-- Only the character zero has the byte zero. -/
theorem zero_notMem_utf8 {text : String} (h : Char.ofNat 0 ∉ text.toList) : 0 ∉ utf8 text := by
  intro hzero
  obtain ⟨c, hc, hbyte⟩ := List.mem_flatMap.mp hzero
  have hne : ∀ number, 0 < number % 256 → (0 : UInt8) ≠ UInt8.ofNat number := by
    intro number hnumber heq
    have hvalue := congrArg UInt8.toNat heq
    simp at hvalue
    omega
  have hval : c.val.toNat ≠ 0 := by
    intro hval
    apply h
    have hchar : c = Char.ofNat 0 := Char.ext (UInt32.toNat_inj.mp (by simpa using hval))
    rwa [← hchar]
  unfold String.utf8EncodeChar at hbyte
  dsimp only at hbyte
  split_ifs at hbyte <;> simp only [List.mem_cons, List.not_mem_nil, or_false] at hbyte
  · exact hne _ (by omega) hbyte
  · rcases hbyte with hbyte | hbyte <;> exact hne _ (by omega) hbyte
  · rcases hbyte with hbyte | hbyte | hbyte <;> exact hne _ (by omega) hbyte
  · rcases hbyte with hbyte | hbyte | hbyte | hbyte <;> exact hne _ (by omega) hbyte

/-! ## Writing -/

def cstringBytes (text : String) : List UInt8 := utf8 text ++ [0]

def stringBytes (text : String) : List UInt8 :=
  toLittleEndian 4 ((utf8 text).length + 1) ++ cstringBytes text

/-- The elements of a document, with its length. -/
def wrapDocument (elements : List UInt8) : List UInt8 :=
  toLittleEndian 4 (elements.length + 5) ++ (elements ++ [0])

/-- The byte that tells the kind of a value. -/
def Bson.kind : Bson → UInt8
  | .double _ => 0x01
  | .string _ => 0x02
  | .document _ => 0x03
  | .array _ => 0x04
  | .binary _ _ => 0x05
  | .undefined => 0x06
  | .objectId _ => 0x07
  | .boolean _ => 0x08
  | .dateTime _ => 0x09
  | .null => 0x0A
  | .regularExpression _ _ => 0x0B
  | .dbPointer _ _ => 0x0C
  | .javaScriptCode _ => 0x0D
  | .symbol _ => 0x0E
  | .javaScriptCodeWithScope _ _ => 0x0F
  | .int32 _ => 0x10
  | .timestamp _ _ => 0x11
  | .int64 _ => 0x12
  | .decimal128 _ => 0x13
  | .maxKey => 0x7F
  | .minKey => 0xFF

mutual

/-- The bytes of a value, after its kind and key. -/
def Bson.payload : Bson → List UInt8
  | .double bits => toLittleEndian 8 bits.toNat
  | .string value | .javaScriptCode value | .symbol value => stringBytes value
  | .document members => wrapDocument (elementBytes members)
  | .array items => wrapDocument (itemBytes 0 items)
  | .binary subtype bytes =>
      -- the old generic subtype repeats the length
      if subtype = 2 then
        toLittleEndian 4 (bytes.length + 4) ++ subtype :: (toLittleEndian 4 bytes.length ++ bytes)
      else toLittleEndian 4 bytes.length ++ subtype :: bytes
  | .undefined | .null | .maxKey | .minKey => []
  | .objectId bytes | .decimal128 bytes => bytes
  | .boolean value => [if value then 1 else 0]
  | .dateTime value | .int64 value => toLittleEndian 8 (toUnsigned 64 value)
  | .regularExpression pattern options => cstringBytes pattern ++ cstringBytes options
  | .dbPointer namespace_ id => stringBytes namespace_ ++ id
  | .javaScriptCodeWithScope code scope =>
      let body := stringBytes code ++ wrapDocument (elementBytes scope)
      toLittleEndian 4 (body.length + 4) ++ body
  | .int32 value => toLittleEndian 4 (toUnsigned 32 value)
  | .timestamp time increment => toLittleEndian 4 increment ++ toLittleEndian 4 time

/-- The elements of an array, from the given index on. -/
def itemBytes : ℕ → List Bson → List UInt8
  | _, [] => []
  | index, item :: items =>
      item.kind :: (cstringBytes (toString index) ++ (item.payload ++ itemBytes (index + 1) items))

def elementBytes : List (String × Bson) → List UInt8
  | [] => []
  | (key, value) :: members =>
      value.kind :: (cstringBytes key ++ (value.payload ++ elementBytes members))

end

def toVec (document : Document) : List UInt8 := wrapDocument (elementBytes document)

/-! ## Parsing -/

def takeBytes (count : ℕ) (bytes : List UInt8) : Option (List UInt8 × List UInt8) :=
  if count ≤ bytes.length then some (bytes.take count, bytes.drop count) else none

def takeNumber (count : ℕ) (bytes : List UInt8) : Option (ℕ × List UInt8) := do
  let (number, rest) ← takeBytes count bytes
  pure (fromLittleEndian number, rest)

/-- Take a text that ends with a zero byte. -/
def takeCstring (bytes : List UInt8) : Option (String × List UInt8) :=
  match bytes.dropWhile (· ≠ 0) with
  | [] => none
  | _ :: rest => (ofUtf8? (bytes.takeWhile (· ≠ 0))).map fun text ↦ (text, rest)

def takeString (bytes : List UInt8) : Option (String × List UInt8) := do
  let (length, rest) ← takeNumber 4 bytes
  let (text, rest) ← takeBytes length rest
  if text.getLast? = some 0 then
    let text ← ofUtf8? text.dropLast
    pure (text, rest)
  else none

def takeElements (bytes : List UInt8) : Option (List UInt8 × List UInt8) := do
  let (length, rest) ← takeNumber 4 bytes
  if length < 5 then none
  else
    let (elements, rest) ← takeBytes (length - 4) rest
    if elements.getLast? = some 0 then pure (elements.dropLast, rest) else none

mutual

/-- Take a value of a kind.  Nesting and length are bounded by `fuel`. -/
def takeValue : ℕ → UInt8 → List UInt8 → Option (Bson × List UInt8)
  | 0, _, _ => none
  | fuel + 1, kind, bytes =>
      match kind with
      | 0x01 => (takeNumber 8 bytes).map fun (bits, rest) ↦ (.double (UInt64.ofNat bits), rest)
      | 0x02 => (takeString bytes).map fun (text, rest) ↦ (.string text, rest)
      | 0x03 => do
          let (elements, rest) ← takeElements bytes
          let members ← takeMembers fuel elements
          pure (.document members, rest)
      | 0x04 => do
          let (elements, rest) ← takeElements bytes
          let members ← takeMembers fuel elements
          pure (.array (members.map Prod.snd), rest)
      | 0x05 => do
          let (length, rest) ← takeNumber 4 bytes
          let (subtype, rest) ← takeBytes 1 rest
          if subtype = [2] then
            let (inner, rest) ← takeNumber 4 rest
            if inner + 4 = length then
              let (content, rest) ← takeBytes inner rest
              pure (.binary 2 content, rest)
            else none
          else
            let (content, rest) ← takeBytes length rest
            pure (.binary (subtype.headD 0) content, rest)
      | 0x06 => some (.undefined, bytes)
      | 0x07 => (takeBytes 12 bytes).map fun (id, rest) ↦ (.objectId id, rest)
      | 0x08 => do
          let (value, rest) ← takeBytes 1 bytes
          if value = [1] then pure (.boolean true, rest)
          else if value = [0] then pure (.boolean false, rest)
          else none
      | 0x09 => (takeNumber 8 bytes).map fun (bits, rest) ↦ (.dateTime (toSigned 64 bits), rest)
      | 0x0A => some (.null, bytes)
      | 0x0B => do
          let (pattern, rest) ← takeCstring bytes
          let (options, rest) ← takeCstring rest
          pure (.regularExpression pattern options, rest)
      | 0x0C => do
          let (namespace_, rest) ← takeString bytes
          let (id, rest) ← takeBytes 12 rest
          pure (.dbPointer namespace_ id, rest)
      | 0x0D => (takeString bytes).map fun (text, rest) ↦ (.javaScriptCode text, rest)
      | 0x0E => (takeString bytes).map fun (text, rest) ↦ (.symbol text, rest)
      | 0x0F => do
          let (_, rest) ← takeNumber 4 bytes
          let (code, rest) ← takeString rest
          let (elements, rest) ← takeElements rest
          let scope ← takeMembers fuel elements
          pure (.javaScriptCodeWithScope code scope, rest)
      | 0x10 => (takeNumber 4 bytes).map fun (bits, rest) ↦ (.int32 (toSigned 32 bits), rest)
      | 0x11 => do
          let (increment, rest) ← takeNumber 4 bytes
          let (time, rest) ← takeNumber 4 rest
          pure (.timestamp time increment, rest)
      | 0x12 => (takeNumber 8 bytes).map fun (bits, rest) ↦ (.int64 (toSigned 64 bits), rest)
      | 0x13 => (takeBytes 16 bytes).map fun (bits, rest) ↦ (.decimal128 bits, rest)
      | 0x7F => some (.maxKey, bytes)
      | 0xFF => some (.minKey, bytes)
      | _ => none

def takeMembers : ℕ → List UInt8 → Option Document
  | _, [] => some []
  | 0, _ :: _ => none
  | fuel + 1, kind :: bytes => do
      let (key, rest) ← takeCstring bytes
      let (value, rest) ← takeValue fuel kind rest
      let members ← takeMembers fuel rest
      pure ((key, value) :: members)

end

/-- The document of a byte string, with the bytes that follow it. -/
def takeDocument (bytes : List UInt8) : Option (Document × List UInt8) := do
  let (elements, rest) ← takeElements bytes
  let members ← takeMembers elements.length elements
  pure (members, rest)

/-- The document of a byte string that is nothing else. -/
def fromSlice (bytes : List UInt8) : Option Document :=
  match takeDocument bytes with
  | some (document, []) => some document
  | _ => none

/-! ## What fits the format -/

mutual

/-- The parts of a value fit their fields. -/
def Bson.Fits : Bson → Prop
  | .double _ | .undefined | .null | .boolean _ | .maxKey | .minKey => True
  | .string value | .javaScriptCode value | .symbol value => (utf8 value).length + 1 < 2 ^ 31
  | .document members => MembersFit members ∧ (elementBytes members).length + 5 < 2 ^ 31
  | .array items => ItemsFit items ∧ (itemBytes 0 items).length + 5 < 2 ^ 31
  | .binary _ bytes => bytes.length + 4 < 2 ^ 31
  | .objectId bytes => bytes.length = 12
  | .decimal128 bytes => bytes.length = 16
  | .dateTime value | .int64 value => -2 ^ 63 ≤ value ∧ value < 2 ^ 63
  | .regularExpression pattern options => 0 ∉ utf8 pattern ∧ 0 ∉ utf8 options
  | .dbPointer namespace_ id => (utf8 namespace_).length + 1 < 2 ^ 31 ∧ id.length = 12
  | .javaScriptCodeWithScope code scope => MembersFit scope ∧
      (utf8 code).length + (elementBytes scope).length + 14 < 2 ^ 31
  | .int32 value => -2 ^ 31 ≤ value ∧ value < 2 ^ 31
  | .timestamp time increment => time < 2 ^ 32 ∧ increment < 2 ^ 32

def ItemsFit : List Bson → Prop
  | [] => True
  | item :: items => item.Fits ∧ ItemsFit items

/-- All members of a document fit, and no key contains a zero byte. -/
def MembersFit : List (String × Bson) → Prop
  | [] => True
  | (key, value) :: members => 0 ∉ utf8 key ∧ value.Fits ∧ MembersFit members

end

/-- A document whose members fit and whose length fits its field. -/
def DocumentFits (document : Document) : Prop :=
  MembersFit document ∧ (toVec document).length < 2 ^ 31

/-! ## Round trips -/

@[simp]
theorem takeBytes_append {count : ℕ} {bytes : List UInt8} (h : bytes.length = count)
    (rest : List UInt8) : takeBytes count (bytes ++ rest) = some (bytes, rest) := by
  subst h
  simp [takeBytes]

theorem takeNumber_append {count value : ℕ} (h : value < 256 ^ count) (rest : List UInt8) :
    takeNumber count (toLittleEndian count value ++ rest) = some (value, rest) := by
  simp [takeNumber, takeBytes_append (length_toLittleEndian count value),
    fromLittleEndian_toLittleEndian h]

theorem takeCstring_append {text : String} (h : 0 ∉ utf8 text) (rest : List UInt8) :
    takeCstring (cstringBytes text ++ rest) = some (text, rest) := by
  have hne : ∀ byte ∈ utf8 text, decide (byte ≠ 0) = true := by
    intro byte hbyte
    have hzero : byte ≠ 0 := fun heq ↦ h (heq ▸ hbyte)
    simpa using hzero
  have htake : (utf8 text ++ 0 :: rest).takeWhile (· ≠ 0) = utf8 text := by
    rw [List.takeWhile_append_of_pos hne]
    simp
  have hdrop : (utf8 text ++ 0 :: rest).dropWhile (· ≠ 0) = 0 :: rest := by
    rw [List.dropWhile_append_of_pos hne]
    simp
  have hsplit : cstringBytes text ++ rest = utf8 text ++ 0 :: rest := by simp [cstringBytes]
  rw [hsplit, takeCstring, hdrop, htake]
  simp

@[simp]
theorem length_cstringBytes (text : String) :
    (cstringBytes text).length = (utf8 text).length + 1 := by
  simp [cstringBytes]

theorem takeString_append {text : String} (h : (utf8 text).length + 1 < 2 ^ 31)
    (rest : List UInt8) : takeString (stringBytes text ++ rest) = some (text, rest) := by
  have hlength : (utf8 text).length + 1 < 256 ^ 4 := by omega
  rw [stringBytes, List.append_assoc, takeString]
  simp only [takeNumber_append hlength, takeBytes_append (length_cstringBytes text),
    Option.bind_eq_bind, Option.bind_some]
  simp [cstringBytes]

theorem takeElements_append {elements : List UInt8} (h : elements.length + 5 < 2 ^ 31)
    (rest : List UInt8) :
    takeElements (wrapDocument elements ++ rest) = some (elements, rest) := by
  have hlength : elements.length + 5 < 256 ^ 4 := by omega
  have hbody : (elements ++ [0]).length = elements.length + 5 - 4 := by simp
  have hlong : ¬ elements.length + 5 < 5 := by omega
  rw [wrapDocument, List.append_assoc, takeElements]
  simp only [takeNumber_append hlength, takeBytes_append hbody, Option.bind_eq_bind,
    Option.bind_some, if_neg hlong]
  simp

/-- The key of an array item has no zero byte. -/
theorem zero_notMem_utf8_toString (index : ℕ) : 0 ∉ utf8 (toString index) := by
  apply zero_notMem_utf8
  intro hmem
  have hdigits : Char.ofNat 0 ∈ Nat.toDigits 10 index := by
    simpa [Nat.repr] using hmem
  exact absurd (Nat.isDigit_of_mem_toDigits (by decide) (by decide) hdigits) (by decide)

@[simp]
theorem length_wrapDocument (elements : List UInt8) :
    (wrapDocument elements).length = elements.length + 5 := by
  simp only [wrapDocument, List.length_append, length_toLittleEndian, List.length_singleton]
  omega

mutual

/-- A value is read back from its payload. -/
theorem takeValue_payload (value : Bson) (hfits : value.Fits) (fuel : ℕ)
    (hfuel : value.payload.length < fuel) (rest : List UInt8) :
    takeValue fuel value.kind (value.payload ++ rest) = some (value, rest) := by
  obtain ⟨fuel, rfl⟩ : ∃ less, fuel = less + 1 := ⟨fuel - 1, by omega⟩
  match value with
  | .double bits =>
    have hbits : bits.toNat < 256 ^ 8 := bits.toNat_lt
    simp [Bson.payload, Bson.kind, takeValue, takeNumber_append hbits]
  | .string text | .javaScriptCode text | .symbol text =>
    simp [Bson.payload, Bson.kind, takeValue, takeString_append hfits]
  | .document members =>
    rw [Bson.payload, length_wrapDocument] at hfuel
    have hmembers := takeMembers_elementBytes members hfits.1 fuel (by omega)
    simp [Bson.payload, Bson.kind, takeValue, takeElements_append hfits.2, hmembers]
  | .array items =>
    rw [Bson.payload, length_wrapDocument] at hfuel
    obtain ⟨members, hmembers, hitems⟩ := takeMembers_itemBytes items hfits.1 0 fuel (by omega)
    simp [Bson.payload, Bson.kind, takeValue, takeElements_append hfits.2, hmembers, hitems]
  | .binary subtype bytes =>
    have hlength : bytes.length + 4 < 256 ^ 4 := by
      have hbytes : bytes.length + 4 < 2 ^ 31 := hfits
      omega
    have hshort : bytes.length < 256 ^ 4 := by omega
    have hone : ∀ rest, takeBytes 1 (subtype :: rest) = some ([subtype], rest) := by
      intro rest
      simp [takeBytes]
    have hcontent := takeBytes_append (rfl : bytes.length = bytes.length) rest
    by_cases hold : subtype = 2
    · subst hold
      simp [Bson.payload, Bson.kind, takeValue, takeNumber_append hlength,
        takeNumber_append hshort, hone, hcontent]
    · simp [Bson.payload, Bson.kind, takeValue, hold, takeNumber_append hshort, hone, hcontent]
  | .undefined | .null | .maxKey | .minKey =>
    simp [Bson.payload, Bson.kind, takeValue]
  | .objectId bytes =>
    simp [Bson.payload, Bson.kind, takeValue, takeBytes_append hfits]
  | .decimal128 bytes =>
    simp [Bson.payload, Bson.kind, takeValue, takeBytes_append hfits]
  | .boolean value =>
    cases value <;> simp [Bson.payload, Bson.kind, takeValue, takeBytes]
  | .dateTime number =>
    simp [Bson.payload, Bson.kind, takeValue, takeNumber_append (toUnsigned_64_lt number),
      toSigned_toUnsigned_64 hfits.1 hfits.2]
  | .int64 number =>
    simp [Bson.payload, Bson.kind, takeValue, takeNumber_append (toUnsigned_64_lt number),
      toSigned_toUnsigned_64 hfits.1 hfits.2]
  | .int32 number =>
    simp [Bson.payload, Bson.kind, takeValue, takeNumber_append (toUnsigned_32_lt number),
      toSigned_toUnsigned_32 hfits.1 hfits.2]
  | .regularExpression pattern options =>
    simp [Bson.payload, Bson.kind, takeValue, takeCstring_append hfits.1,
      takeCstring_append hfits.2]
  | .dbPointer namespace_ id =>
    simp [Bson.payload, Bson.kind, takeValue, takeString_append hfits.1,
      takeBytes_append hfits.2]
  | .javaScriptCodeWithScope code scope =>
    obtain ⟨hscope, hlength⟩ := hfits
    have hbody : (stringBytes code ++ wrapDocument (elementBytes scope)).length + 4 <
        256 ^ 4 := by
      simp only [stringBytes, List.length_append, length_toLittleEndian, length_cstringBytes,
        length_wrapDocument]
      omega
    simp only [Bson.payload, List.length_append, length_toLittleEndian,
      length_wrapDocument] at hfuel
    have hmembers := takeMembers_elementBytes scope hscope fuel (by omega)
    have hcode := fun rest ↦
      takeString_append (by omega : (utf8 code).length + 1 < 2 ^ 31) rest
    have helements := fun rest ↦
      takeElements_append (by omega : (elementBytes scope).length + 5 < 2 ^ 31) rest
    simp only [Bson.payload, Bson.kind, List.append_assoc, takeValue,
      takeNumber_append hbody, hcode, helements, hmembers, Option.bind_eq_bind, Option.bind_some]
    rfl
  | .timestamp time increment =>
    have htime : time < 256 ^ 4 := hfits.1
    have hincrement : increment < 256 ^ 4 := hfits.2
    simp [Bson.payload, Bson.kind, takeValue, takeNumber_append htime,
      takeNumber_append hincrement]

/-- The items of an array are read back from their elements. -/
theorem takeMembers_itemBytes (items : List Bson) (hfits : ItemsFit items) (index fuel : ℕ)
    (hfuel : (itemBytes index items).length ≤ fuel) :
    ∃ members, takeMembers fuel (itemBytes index items) = some members ∧
      members.map Prod.snd = items := by
  match items with
  | [] => exact ⟨[], by cases fuel <;> rfl, rfl⟩
  | item :: items =>
    simp only [itemBytes, List.length_cons, List.length_append, length_cstringBytes] at hfuel
    obtain ⟨fuel, rfl⟩ : ∃ less, fuel = less + 1 := ⟨fuel - 1, by omega⟩
    have hvalue := takeValue_payload item hfits.1 fuel (by omega)
    obtain ⟨members, hmembers, hitems⟩ :=
      takeMembers_itemBytes items hfits.2 (index + 1) fuel (by omega)
    refine ⟨(toString index, item) :: members, ?_, by rw [List.map_cons, hitems]⟩
    rw [itemBytes, takeMembers, takeCstring_append (zero_notMem_utf8_toString index)]
    simp [hvalue, hmembers]

/-- The members of a document are read back from their elements. -/
theorem takeMembers_elementBytes (members : List (String × Bson)) (hfits : MembersFit members)
    (fuel : ℕ) (hfuel : (elementBytes members).length ≤ fuel) :
    takeMembers fuel (elementBytes members) = some members := by
  match members with
  | [] => cases fuel <;> rfl
  | (key, value) :: members =>
    simp only [elementBytes, List.length_cons, List.length_append, length_cstringBytes] at hfuel
    obtain ⟨fuel, rfl⟩ : ∃ less, fuel = less + 1 := ⟨fuel - 1, by omega⟩
    have hvalue := takeValue_payload value hfits.2.1 fuel (by omega)
    have hmembers := takeMembers_elementBytes members hfits.2.2 fuel (by omega)
    rw [elementBytes, takeMembers, takeCstring_append hfits.1]
    simp [hvalue, hmembers]

end

/-- A document that fits is read back from its bytes, whatever follows them. -/
theorem takeDocument_toVec {document : Document} (h : DocumentFits document)
    (rest : List UInt8) : takeDocument (toVec document ++ rest) = some (document, rest) := by
  obtain ⟨hmembers, hlength⟩ := h
  rw [toVec, length_wrapDocument] at hlength
  have helements := takeElements_append hlength rest
  have hread := takeMembers_elementBytes document hmembers _ (Nat.le_refl _)
  rw [takeDocument, toVec]
  simp only [helements, hread, Option.bind_eq_bind, Option.bind_some]
  rfl

theorem fromSlice_toVec {document : Document} (h : DocumentFits document) :
    fromSlice (toVec document) = some document := by
  have hread := takeDocument_toVec h []
  rw [List.append_nil] at hread
  rw [fromSlice, hread]

theorem five_le_length_toVec (document : Document) : 5 ≤ (toVec document).length := by
  rw [toVec, length_wrapDocument]
  omega

/-- A document starts with its own length. -/
theorem length_prefix_toVec {document : Document} (h : (toVec document).length < 2 ^ 31) :
    fromLittleEndian ((toVec document).take 4) = (toVec document).length := by
  have htake : (toVec document).take 4 =
      toLittleEndian 4 ((elementBytes document).length + 5) := by
    rw [toVec, wrapDocument]
    exact List.take_left' (length_toLittleEndian 4 _)
  rw [toVec, length_wrapDocument] at h
  rw [htake, fromLittleEndian_toLittleEndian (by omega), toVec, length_wrapDocument]

end MongoCore.Data
