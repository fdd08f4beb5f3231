import Mathlib.Data.List.Infix

/-!
# Replacing the first occurrence of a word

A word that stands somewhere in a text is replaced in its own place exactly if it does not begin
anywhere before.  If it does, the text differs from what was meant at that earlier place, and it
goes on to differ there, or at a still earlier place, whatever other words are replaced later, as
long as the replacements begin with a letter that no word and no such place begins with.
-/

namespace MongoCore.Library.FirstOccurrence

variable {α : Type*}

/-! ## Places -/

/-- A word after a text does not begin anywhere in the text. -/
def FirstAfter (word front : List α) : Prop := ¬ word <:+: front ++ word.dropLast

theorem FirstAfter.tail {word front : List α} {letter : α} (h : FirstAfter word (letter :: front)) :
    FirstAfter word front :=
  fun hwithin ↦ h (hwithin.trans (List.infix_cons (List.infix_refl _)))

/-- A word that begins where a text ends does not begin before. -/
theorem FirstAfter.not_prefix {word front back : List α} {letter : α}
    (h : FirstAfter word (letter :: front)) : ¬ word <+: letter :: front ++ (word ++ back) := by
  intro hstarts
  apply h
  have hpart : letter :: front ++ word.dropLast <+: letter :: front ++ (word ++ back) := by
    rw [List.prefix_append_right_inj]
    exact (List.dropLast_prefix word).trans (List.prefix_append word back)
  have hlength : word.length ≤ (letter :: front ++ word.dropLast).length := by
    rw [List.length_append, List.length_cons, List.length_dropLast]
    omega
  exact (List.prefix_of_prefix_length_le hstarts hpart hlength).isInfix

/-- A first place is not after any other. -/
theorem FirstAfter.length_le {word front back other rest : List α} (h : FirstAfter word front)
    (hword : word ≠ []) (heq : front ++ (word ++ back) = other ++ (word ++ rest)) :
    front.length ≤ other.length := by
  by_contra hlt
  apply h
  have hstarts : front ++ word.dropLast <+: front ++ (word ++ back) := by
    rw [List.prefix_append_right_inj]
    exact (List.dropLast_prefix word).trans (List.prefix_append word back)
  have hother : other ++ word <+: front ++ (word ++ back) := by
    rw [heq, ← List.append_assoc]
    exact List.prefix_append _ rest
  have hlength : (other ++ word).length ≤ (front ++ word.dropLast).length := by
    have hpos := List.length_pos_of_ne_nil hword
    rw [List.length_append, List.length_append, List.length_dropLast]
    omega
  have hwhole := List.prefix_of_prefix_length_le hother hstarts hlength
  exact (List.infix_append' other word []).trans (by simpa using hwhole.isInfix)

variable [DecidableEq α]

/-! ## Replacing -/

/-- Replace the first occurrence of a word that is not empty. -/
def replaceFirst (word replacement : List α) : List α → List α
  | [] => []
  | letter :: rest =>
      if word <+: letter :: rest then replacement ++ (letter :: rest).drop word.length
      else letter :: replaceFirst word replacement rest

theorem replaceFirst_word {word : List α} (hword : word ≠ []) (replacement back : List α) :
    replaceFirst word replacement (word ++ back) = replacement ++ back := by
  cases word with
  | nil => exact absurd rfl hword
  | cons letter word =>
    rw [List.cons_append, replaceFirst, ← List.cons_append, if_pos (List.prefix_append _ back),
      List.drop_left]

/-- A word is replaced in its own place if that is its first. -/
theorem replaceFirst_of_firstAfter {word front : List α} (hword : word ≠ [])
    (h : FirstAfter word front) (replacement back : List α) :
    replaceFirst word replacement (front ++ (word ++ back)) = front ++ (replacement ++ back) := by
  induction front with
  | nil => exact replaceFirst_word hword replacement back
  | cons letter front ih =>
    rw [List.cons_append, replaceFirst, ← List.cons_append, if_neg h.not_prefix, ih h.tail]
    rfl

/-- A word that occurs has a first place. -/
theorem exists_firstAfter {word text : List α} (hword : word ≠ []) (h : word <:+: text) :
    ∃ front back, text = front ++ (word ++ back) ∧ FirstAfter word front := by
  induction text with
  | nil => exact absurd (List.infix_nil.mp h) hword
  | cons letter text ih =>
    by_cases hstarts : word <+: letter :: text
    · obtain ⟨back, hback⟩ := hstarts
      refine ⟨[], back, hback.symm, fun hwithin ↦ ?_⟩
      have hle := hwithin.length_le
      have hpos := List.length_pos_of_ne_nil hword
      rw [List.nil_append, List.length_dropLast] at hle
      omega
    · obtain ⟨front, back, rfl, hfirst⟩ := ih ((List.infix_cons_iff.mp h).resolve_left hstarts)
      refine ⟨letter :: front, back, rfl, fun hwithin ↦ ?_⟩
      rw [List.cons_append, List.infix_cons_iff] at hwithin
      refine hwithin.elim (fun hstart ↦ hstarts ?_) hfirst
      refine hstart.trans ?_
      rw [List.prefix_cons_inj, List.prefix_append_right_inj]
      exact (List.dropLast_prefix word).trans (List.prefix_append word back)

theorem replaceFirst_of_absent {word text : List α} (h : ¬ word <:+: text)
    (replacement : List α) : replaceFirst word replacement text = text := by
  induction text with
  | nil => rfl
  | cons letter text ih =>
    rw [List.infix_cons_iff, not_or] at h
    rw [replaceFirst, if_neg h.1, ih h.2]

/-! ## Spoiled texts -/

/-- Where a text first differs from another, it has the mark, and the other has a letter of those
that words begin with. -/
def Spoiled (mark : α) (begins : α → Prop) (text target : List α) : Prop :=
  ∃ common rest letter back, text = common ++ mark :: rest ∧ target = common ++ letter :: back ∧
    begins letter

variable {mark : α} {begins : α → Prop}

omit [DecidableEq α] in
theorem Spoiled.ne {text target : List α} (h : Spoiled mark begins text target)
    (hmark : ¬ begins mark) : text ≠ target := by
  obtain ⟨common, rest, letter, back, rfl, rfl, hletter⟩ := h
  intro heq
  have hletters := List.head_eq_of_cons_eq (List.append_cancel_left heq)
  exact hmark (hletters ▸ hletter)

omit [DecidableEq α] in
theorem Spoiled.append_left {text target : List α} (h : Spoiled mark begins text target)
    (part : List α) : Spoiled mark begins (part ++ text) (part ++ target) := by
  obtain ⟨common, rest, letter, back, rfl, rfl, hletter⟩ := h
  exact ⟨part ++ common, rest, letter, back, (List.append_assoc ..).symm,
    (List.append_assoc ..).symm, hletter⟩

/-- A word that is not replaced in its own place spoils the text. -/
theorem spoiled_of_not_firstAfter {letter : α} {word front : List α} (hletter : begins letter)
    (h : ¬ FirstAfter (letter :: word) front) (replacement back rest : List α) :
    Spoiled mark begins
      (replaceFirst (letter :: word) (mark :: replacement) (front ++ (letter :: word ++ back)))
      (front ++ rest) := by
  have hwithin : letter :: word <:+: front ++ (letter :: word ++ back) :=
    List.infix_append' front (letter :: word) back
  obtain ⟨before, after, heq, hfirst⟩ := exists_firstAfter (List.cons_ne_nil letter word) hwithin
  rw [heq, replaceFirst_of_firstAfter (List.cons_ne_nil letter word) hfirst]
  have hlt : before.length < front.length := by
    have hle := hfirst.length_le (List.cons_ne_nil letter word) heq.symm
    refine Nat.lt_of_le_of_ne hle fun hlength ↦ h ?_
    obtain ⟨hfront, -⟩ := List.append_inj heq hlength.symm
    rwa [hfront]
  obtain ⟨between, hbetween⟩ : before <+: front :=
    List.prefix_of_prefix_length_le (heq ▸ List.prefix_append before _)
      (List.prefix_append front _) (Nat.le_of_lt hlt)
  cases between with
  | nil =>
    rw [List.append_nil] at hbetween
    exact absurd (congrArg List.length hbetween) (Nat.ne_of_lt hlt)
  | cons first between =>
    have hfirst : first = letter := by
      rw [← hbetween, List.append_assoc, List.append_cancel_left_eq] at heq
      exact (List.cons.inj heq).1
    exact ⟨before, replacement ++ after, first, between ++ rest, rfl,
      by rw [← hbetween, List.append_assoc, List.cons_append], hfirst ▸ hletter⟩

/-- A spoiled text stays spoiled. -/
theorem Spoiled.replaceFirst {text target : List α} (h : Spoiled mark begins text target)
    (hmark : ¬ begins mark) {letter : α} (hletter : begins letter) (word replacement : List α) :
    Spoiled mark begins (replaceFirst (letter :: word) (mark :: replacement) text) target := by
  by_cases hwithin : letter :: word <:+: text
  case neg => rwa [replaceFirst_of_absent hwithin]
  case pos =>
    obtain ⟨front, back, heq, hfirst⟩ := exists_firstAfter (List.cons_ne_nil letter word) hwithin
    rw [heq, replaceFirst_of_firstAfter (List.cons_ne_nil letter word) hfirst]
    obtain ⟨common, rest, other, target', htext, rfl, hother⟩ := h
    rw [htext] at heq
    rcases List.append_eq_append_iff.mp heq with ⟨between, rfl, hrest⟩ | ⟨between, rfl, hrest⟩
    · cases between with
      | nil =>
        rw [List.nil_append] at hrest
        exact absurd hletter ((List.cons.inj hrest).1 ▸ hmark)
      | cons first between =>
        obtain ⟨rfl, -⟩ := List.cons.inj hrest
        exact ⟨common, between ++ (mark :: replacement ++ back), other, target',
          by rw [List.append_assoc, List.cons_append], rfl, hother⟩
    · cases between with
      | nil =>
        rw [List.nil_append] at hrest
        exact absurd hletter ((List.cons.inj hrest).1 ▸ hmark)
      | cons first between =>
        obtain ⟨rfl, -⟩ := List.cons.inj hrest
        exact ⟨front, replacement ++ back, letter, between ++ other :: target', rfl,
          by rw [List.append_assoc, List.cons_append], hletter⟩

omit [DecidableEq α] in
/-- A text that spoils a spoiled text is not the one that was meant. -/
theorem Spoiled.ne_trans {begins' : α → Prop} {text between target : List α}
    (h : Spoiled mark begins text between) (h' : Spoiled mark begins' between target)
    (hmark : ¬ begins mark) (hmark' : ¬ begins' mark) : text ≠ target := by
  obtain ⟨common, rest, letter, back, rfl, hbetween, hletter⟩ := h
  obtain ⟨common', rest', letter', back', rfl, rfl, hletter'⟩ := h'
  intro heq
  rcases List.append_eq_append_iff.mp hbetween with ⟨part, rfl, hrest⟩ | ⟨part, rfl, hrest⟩
  · -- The second text differs from the third one first.
    rw [List.append_assoc, List.append_cancel_left_eq] at heq
    cases part with
    | nil =>
      rw [List.nil_append] at hrest
      exact hmark ((List.cons.inj hrest).1 ▸ hletter)
    | cons first part =>
      rw [List.cons_append] at hrest heq
      exact hmark' ((List.cons.inj hrest).1.trans (List.cons.inj heq).1 ▸ hletter')
  · rw [List.append_assoc, List.append_cancel_left_eq] at heq
    cases part with
    | nil =>
      rw [List.nil_append] at hrest
      exact hmark ((List.cons.inj hrest).1 ▸ hletter)
    | cons first part =>
      rw [List.cons_append] at hrest heq
      exact hmark ((List.cons.inj heq).1.trans (List.cons.inj hrest).1.symm ▸ hletter)

end MongoCore.Library.FirstOccurrence
