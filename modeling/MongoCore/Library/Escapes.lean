import Mathlib.Data.List.Basic
import Mathlib.Data.Nat.Notation

/-!
# Escapes and quoted texts

Source texts write some characters as escapes that start with a backslash.  In some languages an
escape with the code of a character stands for it everywhere in the source; others read escapes only
in quoted texts.
-/

namespace MongoCore.Library.Escapes

/-! ## Codes of characters -/

def isHexDigit (c : Char) : Bool :=
  c.isDigit || 'a' ≤ c && c ≤ 'f' || 'A' ≤ c && c ≤ 'F'

/-- The value of a digit of a character code. -/
def hexValue (c : Char) : ℕ :=
  if c.isDigit then c.toNat - '0'.toNat
  else if 'a' ≤ c then c.toNat - 'a'.toNat + 10
  else c.toNat - 'A'.toNat + 10

def hexCode (digits : List Char) : Option ℕ :=
  if digits.length = 4 ∧ digits.all isHexDigit = true then
    some (digits.foldl (fun value c ↦ 16 * value + hexValue c) 0)
  else none

theorem hexCode_eq_some {digits : List Char} {code : ℕ} (hcode : hexCode digits = some code) :
    digits.length = 4 ∧ ∀ c ∈ digits, isHexDigit c = true := by
  unfold hexCode at hcode
  split_ifs at hcode with hdigits
  exact ⟨hdigits.1, List.all_eq_true.mp hdigits.2⟩

/-- A code is read up to a character that is no digit. -/
theorem hexCode_take_append {c : Char} (hc : isHexDigit c = false) (text rest : List Char) :
    hexCode ((text ++ c :: rest).take 4) = hexCode (text.take 4) := by
  by_cases hlong : 4 ≤ text.length
  · rw [List.take_append_of_le_length hlong]
  · have hshort : (text.take 4).length ≠ 4 := by
      rw [List.length_take]
      omega
    have hmem : c ∈ (text ++ c :: rest).take 4 := by
      obtain ⟨more, hmore⟩ : ∃ more, 4 - text.length = more + 1 :=
        Nat.exists_eq_succ_of_ne_zero (by omega)
      rw [List.take_append, hmore, List.take_succ_cons]
      exact List.mem_append_right _ List.mem_cons_self
    have hnone : hexCode ((text ++ c :: rest).take 4) = none :=
      Option.eq_none_iff_forall_ne_some.mpr fun code hcode ↦
        Bool.false_ne_true (hc.symm.trans ((hexCode_eq_some hcode).2 c hmem))
    rw [hnone, hexCode, if_neg fun h ↦ hshort h.1]

/-! ## Escapes everywhere in a source -/

/-- A character that no replacement can start with. -/
abbrev Plain (c : Char) : Prop := c ≠ '\\'

/-- The character that an escape stands for, with the length of the escape, given what follows its
backslash.  Codes that are no characters are left as they are; no line ends with one. -/
def unicodeEscape (text : List Char) : Option (Char × ℕ) :=
  let marks := (text.takeWhile (· = 'u')).length
  match hexCode ((text.dropWhile (· = 'u')).take 4) with
  | some code =>
      if 0 < marks ∧ code.isValidChar then some (Char.ofNat code, marks + 4) else none
  | none => none

/-- Put the characters in the place of their escapes, behind a number of characters that have been
read already.  A backslash does not start an escape behind another one. -/
def translateEscapes : ℕ → List Char → List Char
  | _, [] => []
  | passed + 1, _ :: rest => translateEscapes passed rest
  | 0, c :: rest =>
      if c ≠ '\\' then c :: translateEscapes 0 rest
      else if rest.head? = some '\\' then '\\' :: '\\' :: translateEscapes 1 rest
      else
        match unicodeEscape rest with
        | some (character, length) => character :: translateEscapes length rest
        | none => '\\' :: translateEscapes 0 rest

theorem translateEscapes_cons {c : Char} (rest : List Char) (hc : Plain c) :
    translateEscapes 0 (c :: rest) = c :: translateEscapes 0 rest := by
  rw [translateEscapes]
  exact if_pos hc

theorem takeWhile_newline {kind : Char → Bool} (hkind : kind '\n' = false)
    (front back : List Char) : (front ++ '\n' :: back).takeWhile kind = front.takeWhile kind := by
  induction front with
  | nil => exact List.takeWhile_cons_of_neg (Bool.not_eq_true _ ▸ hkind)
  | cons c front ih => rw [List.cons_append, List.takeWhile_cons, List.takeWhile_cons, ih]

theorem dropWhile_newline {kind : Char → Bool} (hkind : kind '\n' = false)
    (front back : List Char) :
    (front ++ '\n' :: back).dropWhile kind = front.dropWhile kind ++ '\n' :: back := by
  induction front with
  | nil => exact List.dropWhile_cons_of_neg (Bool.not_eq_true _ ▸ hkind)
  | cons c front ih =>
    rw [List.cons_append, List.dropWhile_cons, List.dropWhile_cons, ih]
    split_ifs <;> rfl

/-- The end of a line is not part of an escape. -/
theorem unicodeEscape_newline (front back : List Char) :
    unicodeEscape (front ++ '\n' :: back) = unicodeEscape front := by
  unfold unicodeEscape
  rw [takeWhile_newline rfl, dropWhile_newline rfl, hexCode_take_append rfl]

theorem length_of_unicodeEscape {text : List Char} {character : Char} {length : ℕ}
    (hescape : unicodeEscape text = some (character, length)) : length ≤ text.length := by
  unfold unicodeEscape at hescape
  dsimp only at hescape
  cases hcode : hexCode ((text.dropWhile (· = 'u')).take 4) with
  | none => simp [hcode] at hescape
  | some code =>
    simp only [hcode] at hescape
    split_ifs at hescape with hvalid
    obtain ⟨-, rfl⟩ := Prod.mk.inj (Option.some.inj hescape)
    have hdigits := (hexCode_eq_some hcode).1
    have hsplit : (text.takeWhile (· = 'u')).length + (text.dropWhile (· = 'u')).length =
        text.length := by
      rw [← List.length_append, List.takeWhile_append_dropWhile]
    rw [List.length_take] at hdigits
    omega

theorem translateEscapes_newline {passed : ℕ} {front : List Char} (hpassed : passed ≤ front.length)
    (back : List Char) :
    translateEscapes passed (front ++ '\n' :: back) =
      translateEscapes passed front ++ '\n' :: translateEscapes 0 back := by
  induction front generalizing passed with
  | nil =>
    obtain rfl : passed = 0 := Nat.le_zero.mp hpassed
    rfl
  | cons c front ih =>
    cases passed with
    | succ passed => exact ih (Nat.le_of_succ_le_succ hpassed)
    | zero =>
      by_cases hc : c ≠ '\\'
      · rw [List.cons_append, translateEscapes_cons _ hc, translateEscapes_cons _ hc,
          ih (Nat.zero_le _), List.cons_append]
      · have hhead : (front ++ '\n' :: back).head? = some '\\' ↔ front.head? = some '\\' := by
          cases front <;> simp
        rw [List.cons_append, translateEscapes, translateEscapes, if_neg hc, if_neg hc,
          unicodeEscape_newline]
        by_cases hpair : front.head? = some '\\'
        · have hlength : 1 ≤ front.length := by
            cases front with
            | nil => cases hpair
            | cons d front => exact Nat.le_add_left _ _
          rw [if_pos (hhead.mpr hpair), if_pos hpair, ih hlength]
          rfl
        · rw [if_neg (mt hhead.mp hpair), if_neg hpair]
          cases hescape : unicodeEscape front with
          | none => exact congrArg ('\\' :: ·) (ih (Nat.zero_le _))
          | some escape => exact congrArg (escape.1 :: ·) (ih (length_of_unicodeEscape hescape))

theorem translateEscapes_append (front rest : List Char) :
    translateEscapes front.length (front ++ rest) = translateEscapes 0 rest := by
  induction front with
  | nil => rfl
  | cons c front ih => exact ih

/-- A backslash behind a backslash starts no escape. -/
theorem translateEscapes_pair (rest : List Char) :
    translateEscapes 0 ('\\' :: '\\' :: rest) = '\\' :: '\\' :: translateEscapes 0 rest := rfl

theorem translateEscapes_other {c : Char} (hplain : Plain c) (hmark : c ≠ 'u') (rest : List Char) :
    translateEscapes 0 ('\\' :: c :: rest) = '\\' :: c :: translateEscapes 0 rest := by
  have hpair : ¬ (c :: rest).head? = some '\\' := fun h ↦ hplain (Option.some.inj h)
  have hmarks : ((c :: rest).takeWhile (· = 'u')).length = 0 := by
    rw [List.takeWhile_cons_of_neg (by simpa using hmark)]
    rfl
  have hnone : unicodeEscape (c :: rest) = none := by
    rw [unicodeEscape, hmarks]
    split
    · rw [if_neg (by omega)]
    · rfl
  rw [translateEscapes, if_neg (by decide), if_neg hpair, hnone, translateEscapes_cons rest hplain]

theorem translateEscapes_code {digits : List Char} {c : Char}
    (hcode : hexCode digits = some c.toNat) (rest : List Char) :
    translateEscapes 0 ('\\' :: 'u' :: (digits ++ rest)) = c :: translateEscapes 0 rest := by
  obtain ⟨hlength, hdigits⟩ := hexCode_eq_some hcode
  obtain ⟨d, digits, rfl⟩ := List.exists_cons_of_length_eq_add_one hlength
  have hd : d ≠ 'u' := by
    rintro rfl
    exact absurd (hdigits 'u' List.mem_cons_self) (by decide)
  have htake : ('u' :: (d :: digits ++ rest)).takeWhile (· = 'u') = ['u'] := by
    simp [hd]
  have hdrop : ('u' :: (d :: digits ++ rest)).dropWhile (· = 'u') = d :: digits ++ rest := by
    simp [hd]
  have hescape : unicodeEscape ('u' :: (d :: digits ++ rest)) = some (c, 5) := by
    rw [unicodeEscape, htake, hdrop, List.take_left' hlength, hcode]
    have hvalid : c.toNat.isValidChar := c.valid
    dsimp only
    rw [if_pos ⟨Nat.one_pos, hvalid⟩, Char.ofNat_toNat]
    rfl
  have hpair : ¬ ('u' :: (d :: digits ++ rest)).head? = some '\\' := by
    intro h
    exact absurd (Option.some.inj h) (by decide)
  have hpassed : translateEscapes 5 ('u' :: (d :: digits ++ rest)) = translateEscapes 0 rest := by
    have hfront := translateEscapes_append ('u' :: d :: digits) rest
    rw [List.length_cons, hlength] at hfront
    exact hfront
  rw [translateEscapes, if_neg (by decide), if_neg hpair, hescape]
  exact congrArg (c :: ·) hpassed

theorem translateEscapes_ne_nil {text : List Char} (hne : text ≠ []) :
    translateEscapes 0 text ≠ [] := by
  obtain ⟨c, rest, rfl⟩ := List.exists_cons_of_ne_nil hne
  rw [translateEscapes]
  split_ifs
  · exact List.cons_ne_nil _ _
  · exact List.cons_ne_nil _ _
  · split <;> exact List.cons_ne_nil _ _

/-! ## Quoted texts -/

/-- How a language reads a text between double quotes: the characters that stand for themselves, the
escapes of one character, whether there are escapes with codes, and whether two codes may stand for
one character.  An escape of the quote is a quote. -/
structure QuotedSyntax where
  inside : Char → Bool
  simple : Char → Option Char
  codes : Bool
  pairs : Bool
  simple_quote : ∀ c, simple '"' = some c → c = '"'

/-- The first half of a pair of codes. -/
def isHighHalf (code : ℕ) : Bool := 0xD800 ≤ code && code < 0xDC00

def isLowHalf (code : ℕ) : Bool := 0xDC00 ≤ code && code < 0xE000

def pairChar (high low : ℕ) : Char :=
  Char.ofNat (0x10000 + (high - 0xD800) * 0x400 + (low - 0xDC00))

namespace QuotedSyntax

variable (syn : QuotedSyntax)

/-- The second code of a pair, behind the digits of the first. -/
def lowHalf (text : List Char) : Option ℕ :=
  match text with
  | '\\' :: 'u' :: rest => (hexCode (rest.take 4)).filter isLowHalf
  | _ => none

/-- The character of an escape with codes, and the number of characters that it takes, given what
follows the letter of the escape. -/
def readCode (text : List Char) : Option (Char × ℕ) :=
  match hexCode (text.take 4) with
  | none => none
  | some code =>
      if code.isValidChar then some (Char.ofNat code, 5)
      else if syn.pairs && isHighHalf code then
        (lowHalf (text.drop 4)).map fun low ↦ (pairChar code low, 11)
      else none

/-- The character of an escape, and the number of characters that it takes, given what follows its
backslash. -/
def readEscape (text : List Char) : Option (Char × ℕ) :=
  match text with
  | [] => none
  | c :: rest =>
      if syn.codes && c = 'u' then syn.readCode rest
      else (syn.simple c).map fun character ↦ (character, 1)

/-- Read a text up to its closing quote, behind a number of characters that have been read
already. -/
def readQuoted : ℕ → List Char → Option (List Char × List Char)
  | _, [] => none
  | passed + 1, _ :: rest => readQuoted passed rest
  | 0, c :: rest =>
      if c = '"' then some ([], rest)
      else if c = '\\' then
        match syn.readEscape rest with
        | some (character, length) =>
            (readQuoted length rest).map fun read ↦ (character :: read.1, read.2)
        | none => none
      else if syn.inside c then (readQuoted 0 rest).map fun read ↦ (c :: read.1, read.2)
      else none

/-- What a character is written as is read as the character. -/
def ReadsAs (written : List Char) (c : Char) : Prop :=
  ∀ rest, syn.readQuoted 0 (written ++ rest) =
    (syn.readQuoted 0 rest).map fun read ↦ (c :: read.1, read.2)

theorem readQuoted_append (front rest : List Char) :
    syn.readQuoted front.length (front ++ rest) = syn.readQuoted 0 rest := by
  induction front with
  | nil => rfl
  | cons c front ih => exact ih

theorem readsAs_self {c : Char} (hquote : c ≠ '"') (hplain : c ≠ '\\') (hc : syn.inside c = true) :
    syn.ReadsAs [c] c := by
  intro rest
  rw [List.singleton_append, readQuoted, if_neg hquote, if_neg hplain, if_pos hc]

theorem readsAs_escape {written : List Char} {c : Char}
    (hescape : ∀ rest, syn.readEscape (written ++ rest) = some (c, written.length)) :
    syn.ReadsAs ('\\' :: written) c := by
  intro rest
  have hquote : '\\' ≠ '"' := by decide
  rw [List.cons_append, readQuoted, if_neg hquote, if_pos rfl, hescape]
  dsimp only
  rw [readQuoted_append]

theorem readsAs_simple {letter c : Char} (hletter : letter ≠ 'u')
    (hsimple : syn.simple letter = some c) : syn.ReadsAs ['\\', letter] c := by
  apply readsAs_escape
  intro rest
  have hcode : ¬ (syn.codes && decide (letter = 'u')) = true := by simp [hletter]
  rw [List.singleton_append, readEscape, if_neg hcode, hsimple]
  rfl

theorem readsAs_code {digits : List Char} {c : Char} (hcodes : syn.codes = true)
    (hdigits : hexCode digits = some c.toNat) : syn.ReadsAs ('\\' :: 'u' :: digits) c := by
  apply readsAs_escape
  intro rest
  have hlength := (hexCode_eq_some hdigits).1
  rw [List.cons_append, readEscape, if_pos (by simp [hcodes]), readCode,
    List.take_left' hlength, hdigits]
  have hvalid : c.toNat.isValidChar := c.valid
  dsimp only
  rw [if_pos hvalid, Char.ofNat_toNat, List.length_cons, hlength]

/-- A text whose characters are read as they are written is read back. -/
theorem readQuoted_flatMap {written : Char → List Char} {text : List Char}
    (htext : ∀ c ∈ text, syn.ReadsAs (written c) c) (rest : List Char) :
    syn.readQuoted 0 (text.flatMap written ++ '"' :: rest) = some (text, rest) := by
  induction text with
  | nil => rfl
  | cons c text ih =>
    rw [List.forall_mem_cons] at htext
    rw [List.flatMap_cons, List.append_assoc, htext.1, ih htext.2]
    rfl

/-! ### Texts that are quoted as they are -/

theorem quote_not_mem_of_hexCode {digits : List Char} {code : ℕ}
    (hcode : hexCode digits = some code) : '"' ∉ digits :=
  fun hmem ↦ absurd ((hexCode_eq_some hcode).2 '"' hmem) (by decide)

theorem quote_not_mem_of_readCode {text : List Char} {c : Char} {length : ℕ}
    (hcode : syn.readCode text = some (c, length)) :
    1 < length ∧ '"' ∉ text.take (length - 1) := by
  unfold readCode at hcode
  cases hfirst : hexCode (text.take 4) with
  | none => simp [hfirst] at hcode
  | some code =>
    have hquote := quote_not_mem_of_hexCode hfirst
    simp only [hfirst] at hcode
    split_ifs at hcode with hvalid hpair
    · obtain ⟨-, rfl⟩ := Prod.mk.inj (Option.some.inj hcode)
      exact ⟨by decide, hquote⟩
    · obtain ⟨low, hlow, heq⟩ := Option.map_eq_some_iff.mp hcode
      obtain ⟨-, rfl⟩ := Prod.mk.inj heq
      refine ⟨by decide, ?_⟩
      have hsplit : text.take (11 - 1) = text.take 4 ++ (text.drop 4).take 6 := by
        rw [← List.take_add]
      rw [hsplit, List.mem_append, not_or]
      refine ⟨hquote, ?_⟩
      unfold lowHalf at hlow
      split at hlow
      case h_1 rest hdrop =>
        have hsecond := quote_not_mem_of_hexCode (Option.filter_eq_some_iff.mp hlow).1
        rw [hdrop]
        simpa using hsecond
      case h_2 => cases hlow

/-- Only an escape of the quote takes a quote. -/
theorem readEscape_spec {text : List Char} {c : Char} {length : ℕ}
    (hescape : syn.readEscape text = some (c, length)) :
    0 < length ∧ ('"' ∈ text.take length → c = '"') := by
  cases text with
  | nil => cases hescape
  | cons letter rest =>
    unfold readEscape at hescape
    dsimp only at hescape
    split_ifs at hescape with hcode
    · obtain ⟨hlength, hquote⟩ := syn.quote_not_mem_of_readCode hescape
      have hletter : letter = 'u' := by
        rw [Bool.and_eq_true, decide_eq_true_eq] at hcode
        exact hcode.2
      refine ⟨Nat.lt_of_succ_lt hlength, fun hmem ↦ absurd hmem ?_⟩
      rw [← Nat.sub_add_cancel (Nat.le_of_lt hlength), List.take_succ_cons, List.mem_cons, not_or,
        hletter]
      exact ⟨by decide, hquote⟩
    · obtain ⟨character, hsimple, heq⟩ := Option.map_eq_some_iff.mp hescape
      obtain ⟨rfl, rfl⟩ := Prod.mk.inj heq
      refine ⟨Nat.one_pos, fun hmem ↦ syn.simple_quote _ ?_⟩
      rw [List.take_succ_cons, List.take_zero, List.mem_singleton] at hmem
      rw [hmem, hsimple]

/-- A text without quotes that is quoted as it is.  The read either passes its closing quote, and
has a quote then, or reads at most as many characters as there are, fewer if there is an escape. -/
theorem readQuoted_raw {passed : ℕ} {text : List Char} (hpassed : passed ≤ text.length)
    (hquote : '"' ∉ text) {rest out rest' : List Char}
    (hread : syn.readQuoted passed (text ++ '"' :: rest) = some (out, rest')) :
    '"' ∈ out ∨ rest' = rest ∧ out.length + passed ≤ text.length ∧
      (out.length + passed = text.length →
        ∀ c ∈ text.drop passed, c ≠ '\\' ∧ syn.inside c = true) := by
  induction text generalizing passed out with
  | nil =>
    obtain rfl : passed = 0 := Nat.le_zero.mp hpassed
    obtain ⟨rfl, rfl⟩ := Prod.mk.inj (Option.some.inj hread)
    exact .inr ⟨rfl, Nat.le_refl _, fun _ _ hc ↦ absurd hc List.not_mem_nil⟩
  | cons c text ih =>
    rw [List.mem_cons, not_or] at hquote
    cases passed with
    | succ passed =>
      refine (ih (Nat.le_of_succ_le_succ hpassed) hquote.2 hread).imp_right ?_
      rintro ⟨hrest, hle, hall⟩
      rw [List.length_cons]
      exact ⟨hrest, by omega, fun heq ↦ hall (by omega)⟩
    | zero =>
      rw [List.cons_append, readQuoted, if_neg (Ne.symm hquote.1)] at hread
      split_ifs at hread with hescape hinside
      · -- an escape takes at least two characters of the text, or the closing quote
        cases hchar : syn.readEscape (text ++ '"' :: rest) with
        | none => simp [hchar] at hread
        | some escape =>
          obtain ⟨character, length⟩ := escape
          rw [hchar] at hread
          obtain ⟨read, hmore, heq⟩ := Option.map_eq_some_iff.mp hread
          obtain ⟨rfl, rfl⟩ := Prod.mk.inj heq
          obtain ⟨hlength, hpast⟩ := syn.readEscape_spec hchar
          by_cases hle : length ≤ text.length
          · rcases ih hle hquote.2 hmore with hmem | ⟨hrest, hshort, -⟩
            · exact .inl (List.mem_cons_of_mem _ hmem)
            · rw [List.length_cons, List.length_cons]
              exact .inr ⟨hrest, by omega, fun heq ↦ absurd heq (by omega)⟩
          · have hmem : '"' ∈ (text ++ '"' :: rest).take length := by
              obtain ⟨more, hmore⟩ : ∃ more, length - text.length = more + 1 :=
                Nat.exists_eq_succ_of_ne_zero (by omega)
              rw [List.take_append, hmore, List.take_succ_cons]
              exact List.mem_append_right _ List.mem_cons_self
            rw [hpast hmem]
            exact .inl List.mem_cons_self
      · obtain ⟨read, hmore, heq⟩ := Option.map_eq_some_iff.mp hread
        obtain ⟨rfl, rfl⟩ := Prod.mk.inj heq
        rcases ih (Nat.zero_le _) hquote.2 hmore with hmem | ⟨hrest, hle, hall⟩
        · exact .inl (List.mem_cons_of_mem _ hmem)
        · rw [List.length_cons, List.length_cons, List.drop_zero, List.forall_mem_cons]
          exact .inr ⟨hrest, by omega, fun heq ↦ ⟨⟨hescape, hinside⟩, hall (by omega)⟩⟩

/-- A text without quotes is read from a quotation of it as it is only if it has no escapes. -/
theorem eq_of_readQuoted_raw {text : List Char} (hquote : '"' ∉ text) {rest rest' : List Char}
    (hread : syn.readQuoted 0 (text ++ '"' :: rest) = some (text, rest')) :
    rest' = rest ∧ ∀ c ∈ text, c ≠ '\\' ∧ syn.inside c = true := by
  rcases syn.readQuoted_raw (Nat.zero_le _) hquote hread with hmem | ⟨hrest, -, hall⟩
  · exact absurd hmem hquote
  · exact ⟨hrest, hall rfl⟩

/-! ### Quoted texts in a source that is translated before -/

/-- Read a quoted text after the escapes in its source have been replaced. -/
def readSource (source : List Char) : Option (List Char × List Char) :=
  syn.readQuoted 0 (translateEscapes 0 source)

/-- A part of a source is read as a part of the quoted text. -/
def ReadsSource (source content : List Char) : Prop :=
  ∀ rest, syn.readSource (source ++ rest) =
    (syn.readSource rest).map fun read ↦ (content ++ read.1, read.2)

/-- A part of a source has the end of the quoted text in it. -/
def Closes (source : List Char) : Prop :=
  ∀ rest, rest ≠ [] → ∃ content left, syn.readSource (source ++ rest) = some (content, left) ∧
    left ≠ []

variable {syn}

theorem readsSource_nil : syn.ReadsSource [] [] := by
  intro rest
  simp

theorem ReadsSource.append {front back content content' : List Char}
    (hfront : syn.ReadsSource front content) (hback : syn.ReadsSource back content') :
    syn.ReadsSource (front ++ back) (content ++ content') := by
  intro rest
  rw [List.append_assoc, hfront, hback, Option.map_map]
  refine congrArg (Option.map · _) (funext fun read ↦ ?_)
  rw [Function.comp_apply, List.append_assoc]

theorem Closes.append {front : List Char} (hfront : syn.Closes front) (back : List Char) :
    syn.Closes (front ++ back) := by
  intro rest hrest
  rw [List.append_assoc]
  exact hfront _ (List.append_ne_nil_of_right_ne_nil _ hrest)

theorem ReadsSource.closes_append {front back content : List Char}
    (hfront : syn.ReadsSource front content) (hback : syn.Closes back) :
    syn.Closes (front ++ back) := by
  intro rest hrest
  obtain ⟨content', left, hread, hleft⟩ := hback rest hrest
  exact ⟨content ++ content', left, by rw [List.append_assoc, hfront, hread]; rfl, hleft⟩

section FlatMap

variable {α : Type} {written content : α → List Char} {parts : List α}

theorem readsSource_flatMap
    (hparts : ∀ part ∈ parts, syn.ReadsSource (written part) (content part)) :
    syn.ReadsSource (parts.flatMap written) (parts.flatMap content) := by
  induction parts with
  | nil => exact readsSource_nil
  | cons part parts ih =>
    rw [List.forall_mem_cons] at hparts
    rw [List.flatMap_cons, List.flatMap_cons]
    exact hparts.1.append (ih hparts.2)

/-- The first part that has the end of the quoted text in it ends it. -/
theorem closes_flatMap
    (hparts : ∀ part ∈ parts,
      syn.ReadsSource (written part) (content part) ∨ syn.Closes (written part))
    (hcloses : ∃ part ∈ parts, syn.Closes (written part)) : syn.Closes (parts.flatMap written) := by
  induction parts with
  | nil =>
    obtain ⟨part, hpart, -⟩ := hcloses
    exact absurd hpart List.not_mem_nil
  | cons part parts ih =>
    rw [List.forall_mem_cons] at hparts
    rw [List.flatMap_cons]
    rcases hparts.1 with hreads | hpart
    · rcases (List.exists_mem_cons_iff _ _ _).mp hcloses with hpart | hmore
      · exact hpart.append _
      · exact hreads.closes_append (ih hparts.2 hmore)
    · exact hpart.append _

end FlatMap

/-- A part that is translated before it is read. -/
theorem readsSource_of_translated {source written : List Char} {c : Char}
    (hreads : syn.ReadsAs written c)
    (hsource : ∀ rest, translateEscapes 0 (source ++ rest) = written ++ translateEscapes 0 rest) :
    syn.ReadsSource source [c] := by
  intro rest
  rw [readSource, hsource, hreads]
  rfl

theorem readsSource_self {c : Char} (hquote : c ≠ '"') (hplain : Plain c)
    (hc : syn.inside c = true) : syn.ReadsSource [c] [c] :=
  readsSource_of_translated (syn.readsAs_self hquote hplain hc) fun rest ↦
    translateEscapes_cons rest hplain

theorem readsSource_simple {letter c : Char} (hletter : letter ≠ 'u')
    (hsimple : syn.simple letter = some c) : syn.ReadsSource ['\\', letter] [c] := by
  refine readsSource_of_translated (syn.readsAs_simple hletter hsimple) fun rest ↦ ?_
  by_cases hplain : Plain letter
  · exact translateEscapes_other hplain hletter rest
  · rw [Plain, not_not] at hplain
    rw [hplain]
    exact translateEscapes_pair rest

theorem readsSource_code {digits : List Char} {c : Char} (hdigits : hexCode digits = some c.toNat)
    (hquote : c ≠ '"') (hplain : c ≠ '\\') (hc : syn.inside c = true) :
    syn.ReadsSource ('\\' :: 'u' :: digits) [c] :=
  readsSource_of_translated (syn.readsAs_self hquote hplain hc) fun rest ↦
    translateEscapes_code hdigits rest

/-- An escaped backslash in front of a quote. -/
theorem closes_escaped {c : Char} (hbackslash : syn.simple '\\' = some c) :
    syn.Closes ['\\', '\\', '"'] := by
  intro rest hrest
  have hreads := syn.readsAs_simple (by decide) hbackslash ('"' :: translateEscapes 0 rest)
  exact ⟨[c], translateEscapes 0 rest, hreads, translateEscapes_ne_nil hrest⟩

end QuotedSyntax

end MongoCore.Library.Escapes
