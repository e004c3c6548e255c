import DiagramText.Proofs.Reading.Rows
import DiagramText.Proofs.Text.Word

/-!
# Names

A name is one token wherever no rule of the dialect that is tried earlier takes a word character.

* `Text.IsHyphenated`: names of words joined by single hyphens, and `Rule.first_hyphenated`: where
  they end.
* `Rule.first_identifier`: where identifiers end.
-/

namespace DiagramText

open Text

/-- A name of words joined by single hyphens, as the rule `Measure.hyphenated` takes it. -/
def Text.IsHyphenated (id : String) : Prop := Measure.hyphenated.covers id.toList = true

instance (id : String) : Decidable (IsHyphenated id) := inferInstanceAs (Decidable (_ = _))

namespace Text.IsHyphenated

variable {id : String}

/-- A name `id` is not empty, and all its characters belong to words or are hyphens, the first to a
word. -/
theorem exists_cons (h : IsHyphenated id) : ∃ c cs, id.toList = c :: cs ∧
    isAsciiWord c = true ∧ ∀ e ∈ cs, isAsciiWord e = true ∨ e = '-' := by
  obtain ⟨w, ws, ⟨hne, hw⟩, hws, heq⟩ := Measure.covers_hyphenated_iff.1 h
  obtain ⟨c, w, rfl⟩ := List.exists_cons_of_ne_nil hne
  obtain ⟨hc, hw⟩ := List.forall_mem_cons.1 hw
  refine ⟨c, w ++ ws.flatMap ('-' :: ·), heq, hc,
    List.forall_mem_append.2 ⟨fun e he => .inl (hw e he), ?_⟩⟩
  intro e he
  obtain ⟨v, hv, he⟩ := List.mem_flatMap.1 he
  rcases List.mem_cons.1 he with rfl | he
  · exact .inr rfl
  · exact .inl ((hws v hv).2 e he)

theorem toList_ne_nil (h : IsHyphenated id) : id.toList ≠ [] := by
  obtain ⟨c, cs, hcs, -⟩ := h.exists_cons
  rw [hcs]
  exact List.cons_ne_nil c cs

theorem not_isBlank (h : IsHyphenated id) : ∀ c ∈ id.toList, isBlank c = false := by
  obtain ⟨c, cs, hcs, hc, hall⟩ := h.exists_cons
  rw [hcs]
  refine List.forall_mem_cons.2 ⟨isBlank_of_isAsciiWord hc, fun e he => ?_⟩
  rcases hall e he with he | rfl
  · exact isBlank_of_isAsciiWord he
  · decide

theorem plain (h : IsHyphenated id) : Plain id.toList := .of_not_isBlank h.not_isBlank

/-- A line that starts with a name `id` can be written: no blank starts it, and it is no comment. -/
theorem isWritable_append (h : IsHyphenated id) {b : List Char} (hb : Plain b) :
    IsWritable (id.toList ++ b) := by
  obtain ⟨c, cs, hcs, hc, -⟩ := h.exists_cons
  have hpercent : c ≠ '%' := by
    rintro rfl
    exact absurd hc (by decide)
  refine ⟨Plain.append.2 ⟨h.plain, hb⟩, by simp [hcs], ?_, ?_⟩
  · rw [hcs]
    rintro e ⟨⟩
    exact isBlank_of_isAsciiWord hc
  · rw [hcs, List.cons_append, Measure.comment_eq_zero_iff]
    exact Measure.literal_cons_of_ne hpercent _ _

end Text.IsHyphenated

/-- A line that starts with an identifier `id` can be written, for the same reasons. -/
theorem Text.IsIdentifier.isWritable_append {id : String} (h : IsIdentifier id) {b : List Char}
    (hb : Plain b) : IsWritable (id.toList ++ b) := by
  obtain ⟨c, cs, hcs, -, -⟩ := h.exists_cons
  have hascii : isAsciiWord c = true := h.2.2 c (by rw [hcs]; exact List.mem_cons_self)
  have hblank : isBlank c = false := isBlank_of_isAsciiWord hascii
  refine ⟨Plain.append.2 ⟨h.plain, hb⟩, List.append_ne_nil_of_left_ne_nil h.toList_ne_nil _, ?_, ?_⟩
  · rw [hcs]
    rintro e ⟨⟩
    exact hblank
  · have hpercent : c ≠ '%' := by
      rintro rfl
      exact absurd hascii (by decide)
    rw [hcs, List.cons_append, Measure.comment_eq_zero_iff]
    exact Measure.literal_cons_of_ne hpercent _ _

namespace Rule

/-- Rules for forms that are not there are passed over, so the first one that matches is among the
`others`. -/
theorem first_append_of_eq_zero {rules : List Rule} {cs : List Char} (h : ∀ r ∈ rules, r.2 cs = 0)
    (others : List Rule) : first (rules ++ others) cs = first others cs := by
  induction rules with
  | nil => rfl
  | cons r rules ih =>
    obtain ⟨hr, hrules⟩ := List.forall_mem_cons.1 h
    rw [List.cons_append, first, if_pos hr, ih hrules]

/-- No lexeme of every dialect starts with a word character `c`, so names are left to the rules of
the dialect. -/
theorem common_eq_zero {c : Char} (hc : isAsciiWord c = true) (cs : List Char) :
    ∀ r ∈ common, r.2 (c :: cs) = 0 := by
  have hne : ∀ e : Char, isAsciiWord e = false → c ≠ e := by
    rintro e he rfl
    rw [he] at hc
    cases hc
  simp only [common, List.forall_mem_cons]
  refine ⟨?_, ?_, ?_, List.forall_mem_nil _⟩
  · exact Measure.comment_eq_zero_iff.2 (Measure.literal_cons_of_ne (hne '%' (by decide)) _ _)
  · refine Measure.quotedString.eq_2 _ ?_
    rintro cs' ⟨⟩
    exact hne '"' (by decide) rfl
  · exact Measure.literal_cons_of_ne (hne ':' (by decide)) _ _

/-- A name ends before a character that goes on with no word, and `first` takes all of it. -/
theorem first_hyphenated {id : String} (h : IsHyphenated id) {b : List Char}
    (hb : ∀ c ∈ b.head?, isAsciiWord c = false ∧ c ≠ '-') {rules : List Rule}
    (hrules : ∀ c cs, isAsciiWord c = true → ∀ r ∈ rules, r.2 (c :: cs) = 0) (others : List Rule) :
    first (common ++ (rules ++ (.identifier, Measure.hyphenated) :: others)) (id.toList ++ b) =
      (.identifier, id.toList.length) := by
  obtain ⟨c, cs, hcs, hc, -⟩ := h.exists_cons
  have hname : Measure.hyphenated (id.toList ++ b) = id.toList.length := by
    rw [IsHyphenated, Measure.covers_iff] at h
    rw [Measure.hyphenated_append _ hb, h.2]
  rw [hcs, List.cons_append] at hname ⊢
  rw [first_append_of_eq_zero (common_eq_zero hc _), first_append_of_eq_zero (hrules c _ hc), first,
    hname]
  exact if_neg (by simp)

/-- An identifier `id` ends before a character of no word, if no earlier rule takes it. -/
theorem first_identifier {id : String} (h : IsIdentifier id) {b : List Char}
    (hb : ∀ c ∈ b.head?, isWord c = false) {rules : List Rule}
    (hrules : ∀ r ∈ rules, r.2 (id.toList ++ b) = 0) :
    first (common ++ (rules ++ lineOriented)) (id.toList ++ b) =
      (.identifier, id.toList.length) := by
  obtain ⟨c, cs, hcs, hc, hword⟩ := h.exists_cons
  have hascii : isAsciiWord c = true := h.2.2 c (by rw [hcs]; exact List.mem_cons_self)
  -- no fixed text of the dialects starts with a word character
  have hliteral : ∀ (e : Char) (s : List Char), isAsciiWord e = false →
      Measure.literal (e :: s) (c :: (cs ++ b)) = 0 := by
    intro e s he
    refine Measure.literal_cons_of_ne ?_ _ _
    rintro rfl
    rw [he] at hascii
    cases hascii
  have hnumber : Measure.number (c :: (cs ++ b)) = 0 := by
    have hdigit : isDecimal c = false := by
      rw [isAsciiWord_iff] at hascii
      rw [isDecimal_eq (by omega)]
      exact h.2.1 c (by rw [hcs]; rfl)
    rw [Measure.number_eq, if_pos]
    simp [Measure.run, hdigit]
  have hidentifier : Measure.wordIdentifier (c :: (cs ++ b)) = cs.length + 1 := by
    have hstart : (c.isAlpha || c == '_') = true := by simpa using hc
    have hcs : ∀ e ∈ cs, isWord e = true := fun e he => isWord_of_isAsciiWord (hword e he)
    rw [Measure.wordIdentifier, if_pos hstart, Measure.run_append_of_all hcs hb, Nat.add_comm]
  rw [first_append_of_eq_zero (by rw [hcs]; exact common_eq_zero hascii _),
    first_append_of_eq_zero hrules, hcs, List.cons_append]
  simp (disch := decide) only [lineOriented, first, hliteral, hnumber, hidentifier, ↓reduceIte]
  rfl

end Rule
end DiagramText
