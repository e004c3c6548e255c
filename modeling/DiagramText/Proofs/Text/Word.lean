import DiagramText.Proofs.Text.Measure

/-!
# ASCII words

The letters, digits and the underscore of ASCII by their codes, and what this says of other classes
of characters.

* `Text.isAsciiWord_iff`: the codes of the ASCII word characters.
* `Text.isWord_of_isAsciiWord`, `Text.isBlank_of_isAsciiWord`: they are word characters and no
  blanks.
* `Text.IsIdentifier`: an ASCII identifier.
* `Measure.covers_hyphenated_iff`: a hyphenated identifier is words joined by single hyphens.
-/

namespace DiagramText.Text

/-! ### Codes -/

theorem isAlpha_iff {c : Char} :
    c.isAlpha = true ↔ (65 ≤ c.toNat ∧ c.toNat ≤ 90) ∨ (97 ≤ c.toNat ∧ c.toNat ≤ 122) := by
  unfold Char.isAlpha Char.isUpper Char.isLower
  simp only [Bool.or_eq_true, Bool.and_eq_true, decide_eq_true_eq, ge_iff_le,
    UInt32.le_iff_toNat_le]
  exact Iff.rfl

theorem isDigit_iff {c : Char} : c.isDigit = true ↔ 48 ≤ c.toNat ∧ c.toNat ≤ 57 := by
  simp only [Char.isDigit, Bool.and_eq_true, decide_eq_true_eq, ge_iff_le,
    UInt32.le_iff_toNat_le]
  exact Iff.rfl

/-- The ASCII word characters by their codes, so that `decide` and `omega` can tell them from
others. -/
theorem isAsciiWord_iff {c : Char} : isAsciiWord c = true ↔
    (65 ≤ c.toNat ∧ c.toNat ≤ 90) ∨ (97 ≤ c.toNat ∧ c.toNat ≤ 122) ∨
      (48 ≤ c.toNat ∧ c.toNat ≤ 57) ∨ c.toNat = 95 := by
  have hunderscore : c = '_' ↔ c.toNat = 95 := Char.toNat_inj.symm
  simp only [isAsciiWord, Char.isAlphanum, Bool.or_eq_true, beq_iff_eq, isAlpha_iff, isDigit_iff,
    hunderscore, or_assoc]

theorem isWord_of_isAsciiWord {c : Char} (h : isAsciiWord c = true) : isWord c = true := by
  have hlt : c.toNat < 128 := by
    rw [isAsciiWord_iff] at h
    omega
  rw [isWord, if_pos hlt, h]

theorem isBlank_of_isAsciiWord {c : Char} (h : isAsciiWord c = true) : isBlank c = false := by
  rw [isAsciiWord_iff] at h
  simp only [isBlank, Bool.or_eq_false_iff, Bool.and_eq_false_iff, decide_eq_false_iff_not,
    beq_eq_false_iff_ne]
  omega

/-- An ASCII character is a decimal digit only from zero to nine, as `Char.isDigit` has it. -/
theorem isDecimal_eq {c : Char} (h : c.toNat < 128) : isDecimal c = c.isDigit := by
  cases hdigit : c.isDigit with
  | true => rw [isDecimal, digitValue?, if_pos hdigit, Option.isSome_some]
  | false =>
    have hzeros : ∀ z ∈ digitZeros, 128 ≤ z := by decide
    have hnone : digitZeros.find? (fun z => z ≤ c.toNat && c.toNat < z + 10) = none := by
      rw [List.find?_eq_none]
      intro z hz
      have hle := hzeros z hz
      simp only [Bool.and_eq_true, decide_eq_true_eq]
      omega
    rw [isDecimal, digitValue?, hdigit, if_neg Bool.false_ne_true, hnone]
    rfl

/-! ### Identifiers -/

/-- An ASCII identifier `id`: letters, digits and underscores, of which the first is no digit. It is
not empty. -/
def IsIdentifier (id : String) : Prop :=
  id ≠ "" ∧ (∀ c ∈ id.toList.head?, c.isDigit = false) ∧ ∀ c ∈ id.toList, isAsciiWord c = true

instance (id : String) : Decidable (IsIdentifier id) :=
  inferInstanceAs (Decidable (_ ∧ _ ∧ _))

namespace IsIdentifier

variable {id : String}

theorem toList_ne_nil (h : IsIdentifier id) : id.toList ≠ [] := by
  simpa using h.1

theorem not_isBlank (h : IsIdentifier id) : ∀ c ∈ id.toList, isBlank c = false := fun c hc =>
  isBlank_of_isAsciiWord (h.2.2 c hc)

theorem plain (h : IsIdentifier id) : Plain id.toList := .of_not_isBlank h.not_isBlank

theorem head_not_isBlank (h : IsIdentifier id) : ∀ c ∈ id.toList.head?, isBlank c = false :=
  fun c hc => h.not_isBlank c (List.mem_of_head? hc)

/-- An identifier `id` starts with a letter or an underscore, and goes on with word characters. -/
theorem exists_cons (h : IsIdentifier id) : ∃ c cs, id.toList = c :: cs ∧
    (c.isAlpha = true ∨ c = '_') ∧ ∀ e ∈ cs, isAsciiWord e = true := by
  obtain ⟨c, cs, hcs⟩ := List.exists_cons_of_ne_nil h.toList_ne_nil
  obtain ⟨-, hhead, hword⟩ := h
  rw [hcs] at hhead hword
  obtain ⟨hc, hword⟩ := List.forall_mem_cons.1 hword
  refine ⟨c, cs, hcs, ?_, hword⟩
  have hdigit : c.isDigit = false := hhead c rfl
  simpa [isAsciiWord, Char.isAlphanum, hdigit] using hc

end IsIdentifier

/-! ### Words joined by hyphens -/

/-- A word `w` of ASCII word characters, at least one. -/
def IsAsciiWord (w : List Char) : Prop := w ≠ [] ∧ ∀ c ∈ w, isAsciiWord c = true

instance (w : List Char) : Decidable (IsAsciiWord w) := inferInstanceAs (Decidable (_ ∧ _))

/-- Behind a character of no word stand a hyphen and the first character of the next word of `ws`,
so a word ends at a single hyphen. -/
theorem exists_of_cons_eq {c : Char} {w r : List Char} {ws : List (List Char)}
    (hc : isAsciiWord c = false) (hw : ∀ c ∈ w, isAsciiWord c = true)
    (hws : ∀ v ∈ ws, IsAsciiWord v) (heq : c :: r = w ++ ws.flatMap ('-' :: ·)) :
    c = '-' ∧ ∃ (d : Char) (v : List Char) (ws' : List (List Char)), isAsciiWord d = true ∧
      (∀ c ∈ v, isAsciiWord c = true) ∧ (∀ v ∈ ws', IsAsciiWord v) ∧
      r = d :: (v ++ ws'.flatMap ('-' :: ·)) := by
  cases w with
  | cons e w =>
    cases heq
    rw [hw c List.mem_cons_self] at hc
    cases hc
  | nil =>
    cases ws with
    | nil => cases heq
    | cons v ws =>
      obtain ⟨⟨hne, hword⟩, hrest⟩ := List.forall_mem_cons.1 hws
      obtain ⟨d, v, rfl⟩ := List.exists_cons_of_ne_nil hne
      obtain ⟨hd, hv⟩ := List.forall_mem_cons.1 hword
      cases heq
      exact ⟨rfl, d, v, ws, hd, hv, hrest, rfl⟩

end DiagramText.Text

namespace DiagramText.Measure

open Text

theorem hyphenatedTail_eq_length_iff {cs : List Char} : hyphenatedTail cs = cs.length ↔
    ∃ (w : List Char) (ws : List (List Char)), (∀ c ∈ w, isAsciiWord c = true) ∧
      (∀ v ∈ ws, IsAsciiWord v) ∧ cs = w ++ ws.flatMap ('-' :: ·) := by
  -- The cases are those of `hyphenatedTail`: in each, what is left is again a word and words behind
  -- hyphens.
  induction cs using hyphenatedTail.induct with
  | case1 => exact iff_of_true rfl ⟨[], [], List.forall_mem_nil _, List.forall_mem_nil _, rfl⟩
  | case2 c hc =>
    exact iff_of_true (by simp [hyphenatedTail, hc])
      ⟨[c], [], by simpa using hc, List.forall_mem_nil _, rfl⟩
  | case3 c hc =>
    refine iff_of_false (by simp [hyphenatedTail, hc]) ?_
    rintro ⟨w, ws, hw, hws, heq⟩
    obtain ⟨-, d, v, ws', -, -, -, hnil⟩ := exists_of_cons_eq (by simpa using hc) hw hws heq
    cases hnil
  | case4 c d cs hc ih =>
    have hlength : hyphenatedTail (c :: d :: cs) = (c :: d :: cs).length ↔
        hyphenatedTail (d :: cs) = (d :: cs).length := by
      rw [hyphenatedTail, if_pos hc, List.length_cons (a := c)]
      omega
    rw [hlength, ih]
    constructor
    · rintro ⟨w, ws, hw, hws, heq⟩
      exact ⟨c :: w, ws, List.forall_mem_cons.2 ⟨hc, hw⟩, hws, by rw [heq, List.cons_append]⟩
    · rintro ⟨w, ws, hw, hws, heq⟩
      cases w with
      | nil =>
        cases ws with
        | nil => cases heq
        | cons v ws =>
          obtain rfl : c = '-' := (List.cons.inj heq).1
          exact absurd hc (by decide)
      | cons e w =>
        exact ⟨w, ws, (List.forall_mem_cons.1 hw).2, hws, (List.cons.inj heq).2⟩
  | case5 c d cs hc hd ih =>
    obtain ⟨hd₁, hd₂⟩ : c = '-' ∧ isAsciiWord d = true := by simpa using hd
    have hlength : hyphenatedTail (c :: d :: cs) = (c :: d :: cs).length ↔
        hyphenatedTail cs = cs.length := by
      rw [hyphenatedTail, if_neg hc, if_pos hd, List.length_cons, List.length_cons]
      omega
    rw [hlength, ih]
    constructor
    · rintro ⟨w, ws, hw, hws, heq⟩
      have hdw : IsAsciiWord (d :: w) := ⟨List.cons_ne_nil _ _, List.forall_mem_cons.2 ⟨hd₂, hw⟩⟩
      refine ⟨[], (d :: w) :: ws, List.forall_mem_nil _, List.forall_mem_cons.2 ⟨hdw, hws⟩, ?_⟩
      rw [heq, hd₁]
      rfl
    · rintro ⟨w, ws, hw, hws, heq⟩
      obtain ⟨-, e, v, ws', -, hv, hws', hcs⟩ := exists_of_cons_eq (by simpa using hc) hw hws heq
      cases hcs
      exact ⟨v, ws', hv, hws', rfl⟩
  | case6 c d cs hc hd =>
    refine iff_of_false (by simp [hyphenatedTail, hc, hd]) ?_
    rintro ⟨w, ws, hw, hws, heq⟩
    obtain ⟨rfl, e, v, ws', he, -, -, hcs⟩ := exists_of_cons_eq (by simpa using hc) hw hws heq
    cases hcs
    exact hd (by simpa using he)

theorem covers_iff {m : Measure} {cs : List Char} :
    covers m cs = true ↔ m cs ≠ 0 ∧ m cs = cs.length := by
  rw [covers, Bool.and_eq_true, bne_iff_ne, beq_iff_eq]

/-- The identifiers `cs` are the words joined by single hyphens, so neither starts nor ends one with
a hyphen. -/
theorem covers_hyphenated_iff {cs : List Char} : covers hyphenated cs = true ↔
    ∃ (w : List Char) (ws : List (List Char)), IsAsciiWord w ∧ (∀ v ∈ ws, IsAsciiWord v) ∧
      cs = w ++ ws.flatMap ('-' :: ·) := by
  rw [covers_iff]
  cases cs with
  | nil =>
    refine iff_of_false (fun h => h.1 rfl) ?_
    rintro ⟨w, ws, hw, -, heq⟩
    exact hw.1 (List.append_eq_nil_iff.1 heq.symm).1
  | cons c cs =>
    rw [hyphenated]
    by_cases hc : isAsciiWord c = true
    -- the first character is of a word, so the tail has to take all of the rest
    · have hlength : (1 + hyphenatedTail cs ≠ 0 ∧ 1 + hyphenatedTail cs = (c :: cs).length) ↔
          hyphenatedTail cs = cs.length := by
        rw [List.length_cons]
        omega
      rw [if_pos hc, hlength, hyphenatedTail_eq_length_iff]
      constructor
      · rintro ⟨w, ws, hw, hws, rfl⟩
        have hcw : IsAsciiWord (c :: w) := ⟨List.cons_ne_nil _ _, List.forall_mem_cons.2 ⟨hc, hw⟩⟩
        exact ⟨c :: w, ws, hcw, hws, rfl⟩
      · rintro ⟨w, ws, ⟨hne, hw⟩, hws, heq⟩
        obtain ⟨e, w, rfl⟩ := List.exists_cons_of_ne_nil hne
        cases heq
        exact ⟨w, ws, (List.forall_mem_cons.1 hw).2, hws, rfl⟩
    · rw [if_neg hc]
      refine iff_of_false (fun h => h.1 rfl) ?_
      rintro ⟨w, ws, ⟨hne, hw⟩, -, heq⟩
      obtain ⟨e, w, rfl⟩ := List.exists_cons_of_ne_nil hne
      cases heq
      exact hc (hw c List.mem_cons_self)

end DiagramText.Measure
