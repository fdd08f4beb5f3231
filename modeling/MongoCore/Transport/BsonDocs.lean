import Mathlib.Data.List.Forall2
import MongoCore.Transport.Dispatch

/-!
# Concatenated documents

The documents of a bulk insert come one after the other, each with its own length first.  The loop
that parses them works with offsets into the buffer.  Here its indices, slices and sums are checked:
an index or slice out of range and a sum that does not fit a machine word are faults.

The main result says that the loop ends without a fault on every buffer, that it accepts exactly the
buffers which are put together from documents, and that it returns these documents.
-/

namespace MongoCore.Transport

open MongoCore.Data

/-! ## The checked loop -/

/-- What can go wrong in a machine. -/
inductive Fault where
  | outOfRange | overflow

def byteAt (raw : Bytes) (index : ℕ) : Except Fault UInt8 :=
  match raw[index]? with
  | some byte => .ok byte
  | none => .error .outOfRange

def sliceOf (raw : Bytes) (start stop : ℕ) : Except Fault Bytes :=
  if start ≤ stop ∧ stop ≤ raw.length then .ok ((raw.drop start).take (stop - start))
  else .error .outOfRange

/-- Add two words of 64 bits. -/
def usizeAdd (a b : ℕ) : Except Fault ℕ := if a + b < 2 ^ 64 then .ok (a + b) else .error .overflow

/-- Subtract one word from another. -/
def usizeSub (a b : ℕ) : Except Fault ℕ := if b ≤ a then .ok (a - b) else .error .overflow

def lengthAt (raw : Bytes) (offset : ℕ) : Except Fault ℕ := do
  let first ← byteAt raw offset
  let second ← byteAt raw (offset + 1)
  let third ← byteAt raw (offset + 2)
  let fourth ← byteAt raw (offset + 3)
  return ofLittleEndian [first, second, third, fourth]

/-- One pass of the loop: the document at an offset, and the offset after it. -/
def parseBsonDocAt (library : BsonLibrary) (raw : Bytes) (offset : ℕ) :
    Except Fault (Except String (Document × ℕ)) := do
  let left ← usizeSub raw.length offset
  if left < 4 then return .error "incomplete BSON length prefix"
  let len ← lengthAt raw offset
  if len < 5 then return .error "invalid BSON document length"
  let stop ← usizeAdd offset len
  if raw.length < stop then return .error "BSON document extends beyond buffer"
  let body ← sliceOf raw offset stop
  match library.fromSlice body with
  | .error e => return .error s!"failed to parse BSON document at offset {offset}: {e}"
  | .ok document =>
      let next ← usizeAdd offset len
      return .ok (document, next)

/-- The loop with the documents so far, for a number of passes.  There is no result if these are not
enough. -/
def parseBsonDocsLoop (library : BsonLibrary) (raw : Bytes) :
    ℕ → ℕ → List Document → Option (Except Fault (Except String (List Document)))
  | 0, _, _ => none
  | passes + 1, offset, docs =>
      if offset < raw.length then
        match parseBsonDocAt library raw offset with
        | .error fault => some (.error fault)
        | .ok (.error message) => some (.ok (.error message))
        | .ok (.ok (document, next)) =>
            parseBsonDocsLoop library raw passes next (docs ++ [document])
      else some (.ok (.ok docs))

/-! ## One pass -/

/-- The first four bytes from an offset on are in range. -/
theorem lengthAt_eq {raw : Bytes} {offset : ℕ} (h : offset + 4 ≤ raw.length) :
    lengthAt raw offset = .ok (ofLittleEndian ((raw.drop offset).take 4)) := by
  have hlength : 4 ≤ (raw.drop offset).length := by
    rw [List.length_drop]
    omega
  have hbyte : ∀ k, raw[offset + k]? = (raw.drop offset)[k]? := fun k ↦ List.getElem?_drop.symm
  match hdrop : raw.drop offset, hlength with
  | first :: second :: third :: fourth :: rest, _ =>
    have hfirst : raw[offset]? = some first := by
      have h := hbyte 0
      rwa [hdrop] at h
    simp [lengthAt, byteAt, hfirst, hbyte, hdrop]
    rfl

/-- What one pass makes of the bytes from an offset on: the document and its length. -/
def parseFirst (library : BsonLibrary) (offset : ℕ) (rest : Bytes) :
    Except String (Document × ℕ) :=
  let len := ofLittleEndian (rest.take 4)
  if rest.length < 4 then .error "incomplete BSON length prefix"
  else if len < 5 then .error "invalid BSON document length"
  else if rest.length < len then .error "BSON document extends beyond buffer"
  else
    match library.fromSlice (rest.take len) with
    | .error e => .error s!"failed to parse BSON document at offset {offset}: {e}"
    | .ok document => .ok (document, len)

section Pass

variable {library : BsonLibrary}

/-- The length that a document begins with fits four bytes. -/
theorem ofLittleEndian_take_lt (rest : Bytes) : ofLittleEndian (rest.take 4) < 2 ^ 32 := by
  have hlt := ofBigEndian_lt (rest.take 4).reverse
  have hlength : (rest.take 4).reverse.length ≤ 4 := by
    rw [List.length_reverse]
    exact List.length_take_le 4 rest
  exact lt_of_lt_of_le hlt (Nat.pow_le_pow_right (by decide) (by omega))

/-- Within a buffer that fits in memory, a pass has no fault. -/
theorem parseBsonDocAt_eq {raw : Bytes} {offset : ℕ} (hraw : raw.length < 2 ^ 63)
    (hoffset : offset < raw.length) :
    parseBsonDocAt library raw offset =
      .ok ((parseFirst library offset (raw.drop offset)).map
        fun (document, len) ↦ (document, offset + len)) := by
  have hlength : (raw.drop offset).length = raw.length - offset := List.length_drop
  have hsub : usizeSub raw.length offset = .ok (raw.length - offset) :=
    if_pos (Nat.le_of_lt hoffset)
  rw [parseBsonDocAt, parseFirst, hsub, hlength]
  simp only [bind, Except.bind, pure, Except.pure]
  by_cases hfour : raw.length - offset < 4
  · rw [if_pos hfour, if_pos hfour]
    rfl
  rw [if_neg hfour, if_neg hfour, lengthAt_eq (by omega)]
  dsimp only
  have hlen := ofLittleEndian_take_lt (raw.drop offset)
  generalize ofLittleEndian ((raw.drop offset).take 4) = len at hlen
  by_cases hfive : len < 5
  · rw [if_pos hfive, if_pos hfive]
    rfl
  -- the offset is below 2 ^ 63 and the length below 2 ^ 32, so the sum fits
  have hadd : usizeAdd offset len = .ok (offset + len) := if_pos (by omega)
  rw [if_neg hfive, if_neg hfive, hadd]
  dsimp only
  by_cases hlong : raw.length < offset + len
  · rw [if_pos hlong, if_pos (by omega)]
    rfl
  have hslice : sliceOf raw offset (offset + len) = .ok ((raw.drop offset).take len) := by
    rw [sliceOf, if_pos (by omega), Nat.add_sub_cancel_left]
  rw [if_neg hlong, if_neg (by omega), hslice]
  dsimp only
  cases library.fromSlice ((raw.drop offset).take len) <;> rfl

/-- The document of a pass is read from a slice that begins with its own length. -/
theorem parseFirst_eq_ok {offset : ℕ} {rest : Bytes} {document : Document} {len : ℕ}
    (h : parseFirst library offset rest = .ok (document, len)) :
    len = ofLittleEndian (rest.take 4) ∧ 5 ≤ len ∧ len ≤ rest.length ∧
      library.fromSlice (rest.take len) = .ok document := by
  unfold parseFirst at h
  dsimp only at h
  split_ifs at h with hfour hfive hlong
  cases hread : library.fromSlice (rest.take (ofLittleEndian (rest.take 4))) with
  | error e =>
    rw [hread] at h
    cases h
  | ok other =>
    rw [hread] at h
    cases h
    exact ⟨rfl, Nat.le_of_not_lt hfive, Nat.le_of_not_lt hlong, hread⟩

/-- The documents of a buffer are the first one and those after it. -/
theorem parseBsonDocsFrom_of_ne_nil {offset : ℕ} {rest : Bytes} (h : rest ≠ []) :
    parseBsonDocsFrom library offset rest =
      match parseFirst library offset rest with
      | .error message => .error message
      | .ok (document, len) =>
          (parseBsonDocsFrom library (offset + len) (rest.drop len)).map (document :: ·) := by
  rw [parseBsonDocsFrom, if_neg h, parseFirst]
  by_cases hfour : rest.length < 4
  · rw [if_pos hfour, if_pos hfour]
  rw [if_neg hfour, if_neg hfour]
  dsimp only
  by_cases hfive : ofLittleEndian (rest.take 4) < 5
  · rw [if_pos hfive, if_pos hfive]
  rw [if_neg hfive, if_neg hfive]
  by_cases hlong : rest.length < ofLittleEndian (rest.take 4)
  · rw [if_pos hlong, if_pos hlong]
  rw [if_neg hlong, if_neg hlong]
  cases library.fromSlice (rest.take (ofLittleEndian (rest.take 4))) with
  | error e => rfl
  | ok document =>
    dsimp only
    cases parseBsonDocsFrom library (offset + ofLittleEndian (rest.take 4))
      (rest.drop (ofLittleEndian (rest.take 4))) <;> rfl

end Pass

/-! ## All passes -/

section Loop

variable {library : BsonLibrary}

/-- The loop ends without a fault, with the documents so far and those from the offset on. -/
theorem parseBsonDocsLoop_eq {raw : Bytes} (hraw : raw.length < 2 ^ 63) (passes offset : ℕ)
    (docs : List Document) (hoffset : offset ≤ raw.length) (hpasses : raw.length - offset < passes) :
    parseBsonDocsLoop library raw passes offset docs =
      some (.ok ((parseBsonDocsFrom library offset (raw.drop offset)).map (docs ++ ·))) := by
  induction passes generalizing offset docs with
  | zero => exact absurd hpasses (Nat.not_lt_zero _)
  | succ passes ih =>
    rw [parseBsonDocsLoop]
    rcases Nat.lt_or_eq_of_le hoffset with hlt | rfl
    · have hne : raw.drop offset ≠ [] := by
        rw [ne_eq, List.drop_eq_nil_iff]
        omega
      rw [if_pos hlt, parseBsonDocAt_eq hraw hlt, parseBsonDocsFrom_of_ne_nil hne]
      cases hfirst : parseFirst library offset (raw.drop offset) with
      | error message => rfl
      | ok found =>
        obtain ⟨document, len⟩ := found
        obtain ⟨-, hfive, hlong, -⟩ := parseFirst_eq_ok hfirst
        rw [List.length_drop] at hlong
        dsimp only [Except.map]
        rw [ih (offset + len) (docs ++ [document]) (by omega) (by omega), List.drop_drop]
        cases parseBsonDocsFrom library (offset + len) (raw.drop (offset + len)) with
        | error message => rfl
        | ok documents => simp [Except.map]
    · rw [if_neg (Nat.lt_irrefl _), List.drop_length, parseBsonDocsFrom, if_pos rfl, Except.map,
        List.append_nil]

/-! ## What is accepted -/

/-- A slice that begins with its own length and is read as a document. -/
def IsEncoding (library : BsonLibrary) (slice : Bytes) (document : Document) : Prop :=
  5 ≤ slice.length ∧ ofLittleEndian (slice.take 4) = slice.length ∧
    library.fromSlice slice = .ok document

/-- Slices of documents that follow each other are parsed one by one. -/
theorem parseBsonDocsFrom_of_forall₂ {slices : List Bytes} {documents : List Document}
    (h : List.Forall₂ (IsEncoding library) slices documents) (offset : ℕ) :
    parseBsonDocsFrom library offset slices.flatten = .ok documents := by
  induction h generalizing offset with
  | nil =>
    rw [parseBsonDocsFrom]
    rfl
  | @cons slice document slices documents hslice _ ih =>
    obtain ⟨hfive, hlength, hread⟩ := hslice
    have hne : slice ++ slices.flatten ≠ [] := by
      apply List.ne_nil_of_length_pos
      rw [List.length_append]
      omega
    have hfirst : parseFirst library offset (slice ++ slices.flatten) =
        .ok (document, slice.length) := by
      have htake : ofLittleEndian ((slice ++ slices.flatten).take 4) = slice.length := by
        rw [List.take_append_of_le_length (by omega), hlength]
      have hlong : slice.length ≤ (slice ++ slices.flatten).length := by
        rw [List.length_append]
        exact Nat.le_add_right _ _
      rw [parseFirst, htake, if_neg (by omega), if_neg (by omega), if_neg (by omega),
        List.take_left' rfl, hread]
    rw [List.flatten_cons, parseBsonDocsFrom_of_ne_nil hne, hfirst]
    dsimp only
    rw [List.drop_left' rfl, ih]
    rfl

/-- A buffer that is accepted is put together from slices of the documents that are returned. -/
theorem exists_slices_of_parseBsonDocsFrom {offset : ℕ} {rest : Bytes} {documents : List Document}
    (h : parseBsonDocsFrom library offset rest = .ok documents) :
    ∃ slices, rest = slices.flatten ∧ List.Forall₂ (IsEncoding library) slices documents := by
  induction documents generalizing offset rest with
  | nil =>
    by_cases hne : rest = []
    · exact ⟨[], hne, .nil⟩
    · rw [parseBsonDocsFrom_of_ne_nil hne] at h
      cases hfirst : parseFirst library offset rest with
      | error message =>
        rw [hfirst] at h
        cases h
      | ok found =>
        rw [hfirst] at h
        cases hrest : parseBsonDocsFrom library (offset + found.2) (rest.drop found.2) <;>
          simp [hrest, Except.map] at h
  | cons document documents ih =>
    have hne : rest ≠ [] := by
      rintro rfl
      rw [parseBsonDocsFrom, if_pos rfl] at h
      cases h
    rw [parseBsonDocsFrom_of_ne_nil hne] at h
    cases hfirst : parseFirst library offset rest with
    | error message =>
      rw [hfirst] at h
      cases h
    | ok found =>
      obtain ⟨other, len⟩ := found
      rw [hfirst] at h
      dsimp only at h
      cases hrest : parseBsonDocsFrom library (offset + len) (rest.drop len) with
      | error message =>
        rw [hrest] at h
        cases h
      | ok others =>
        rw [hrest] at h
        cases h
        obtain ⟨hlen, hfive, hlong, hread⟩ := parseFirst_eq_ok hfirst
        obtain ⟨slices, hslices, hall⟩ := ih hrest
        refine ⟨rest.take len :: slices, ?_, .cons ⟨?_, ?_, hread⟩ hall⟩
        · rw [List.flatten_cons, ← hslices, List.take_append_drop]
        · rw [List.length_take]
          omega
        · rw [List.take_take, List.length_take, Nat.min_eq_left (by omega : 4 ≤ len), ← hlen,
            Nat.min_eq_left hlong]

end Loop

/-- Concatenated encodings are parsed back to their documents.  A buffer that is accepted is put
together from encodings of the documents that are returned.  On every buffer the loop ends without a
fault, with this result. -/
theorem parseBsonDocs_exact (library : BsonLibrary)
    (hread : ∀ document raw, library.toVec document = .ok raw →
      library.fromSlice raw = .ok document)
    (hlength : ∀ document raw, library.toVec document = .ok raw →
      5 ≤ raw.length ∧ ofLittleEndian (raw.take 4) = raw.length) :
    (∀ documents encodings,
      List.Forall₂ (fun raw document ↦ library.toVec document = .ok raw) encodings documents →
        parseBsonDocs library encodings.flatten = .ok documents) ∧
      (∀ raw documents, parseBsonDocs library raw = .ok documents →
        ∃ slices, raw = slices.flatten ∧ slices.length = documents.length ∧
          List.Forall₂ (IsEncoding library) slices documents) ∧
      ∀ raw : Bytes, raw.length < 2 ^ 63 → ∀ passes, raw.length < passes →
        parseBsonDocsLoop library raw passes 0 [] = some (.ok (parseBsonDocs library raw)) := by
  refine ⟨fun documents encodings h ↦ ?_, fun raw documents h ↦ ?_, fun raw hraw passes hpasses ↦ ?_⟩
  · refine parseBsonDocsFrom_of_forall₂ (h.imp fun raw document hencoded ↦ ?_) 0
    obtain ⟨hfive, hown⟩ := hlength document raw hencoded
    exact ⟨hfive, hown, hread document raw hencoded⟩
  · obtain ⟨slices, hslices, hall⟩ := exists_slices_of_parseBsonDocsFrom h
    exact ⟨slices, hslices, hall.length_eq, hall⟩
  · rw [parseBsonDocsLoop_eq hraw passes 0 [] (Nat.zero_le _) (by omega), List.drop_zero,
      ← parseBsonDocs]
    cases parseBsonDocs library raw <;> rfl

/-- The empty document and one with the number one, as they are written. -/
def emptyBytes : Bytes := [5, 0, 0, 0, 0]

def oneBytes : Bytes := [12, 0, 0, 0, 16, 97, 0, 1, 0, 0, 0, 0]

def twoDocuments : BsonLibrary where
  fromSlice := fun raw ↦
    if raw = emptyBytes then .ok []
    else if raw = oneBytes then .ok [("a", .int32 1)]
    else .error "unexpected end of file"
  toVec := fun document ↦
    match document with
    | [] => .ok emptyBytes
    | [("a", .int32 1)] => .ok oneBytes
    | _ => .error "unsupported"
  display := fun _ ↦ ""

theorem toVec_twoDocuments {document : Document} {raw : Bytes}
    (h : twoDocuments.toVec document = .ok raw) :
    document = [] ∧ raw = emptyBytes ∨ document = [("a", .int32 1)] ∧ raw = oneBytes := by
  unfold twoDocuments at h
  dsimp only at h
  split at h
  case h_1 => exact .inl ⟨rfl, (Except.ok.inj h).symm⟩
  case h_2 => exact .inr ⟨rfl, (Except.ok.inj h).symm⟩
  case h_3 => cases h

/-- Both documents are parsed back, in one pass each and one to end the loop. -/
theorem parseBsonDocs_exact_twoDocuments :
    parseBsonDocs twoDocuments (oneBytes ++ emptyBytes) = .ok [[("a", .int32 1)], []] ∧
      parseBsonDocsLoop twoDocuments (oneBytes ++ emptyBytes) 18 0 [] =
        some (.ok (parseBsonDocs twoDocuments (oneBytes ++ emptyBytes))) := by
  have hexact := parseBsonDocs_exact twoDocuments
    (fun document raw h ↦ by rcases toVec_twoDocuments h with ⟨rfl, rfl⟩ | ⟨rfl, rfl⟩ <;> rfl)
    (fun document raw h ↦ by
      rcases toVec_twoDocuments h with ⟨rfl, rfl⟩ | ⟨rfl, rfl⟩ <;> decide)
  refine ⟨?_, hexact.2.2 (oneBytes ++ emptyBytes) (by decide) 18 (by decide)⟩
  exact hexact.1 [[("a", .int32 1)], []] [oneBytes, emptyBytes] (.cons rfl (.cons rfl .nil))

end MongoCore.Transport
