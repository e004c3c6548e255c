import DiagramText.Identifier
import DiagramText.Proofs.Classes.Row
import DiagramText.Proofs.Flowchart.Row
import DiagramText.Proofs.Sequence.Row
import DiagramText.Proofs.States.Lines

/-!
# Identifiers as tokens

The check of an id is the same for all dialects, but the dialects cut their texts into different
tokens: some have no hyphens in identifiers, and in the others a hyphen stands between two words. An
id that is checked can be written if it is one token of its dialect, too.

* `Identifier.IsToken`: an id is one token of a dialect.
* `Identifier.isHyphenated_of_isToken` and `Identifier.isIdentifier_of_isToken`: what such ids are.
* `Identifier.isToken_of_checkFor`: checked ids without hyphens are tokens of every dialect.
-/

namespace DiagramText.Identifier

open Text

variable {d : Dialect} {kind : IdKind} {id value : String}

/-- The text `id` is one token of the dialect `d`, an identifier. -/
def IsToken (d : Dialect) (id : String) : Prop :=
  Rule.first (Rule.ofDialect d none) id.toList = (.identifier, id.toList.length)

instance (d : Dialect) (id : String) : Decidable (IsToken d id) :=
  inferInstanceAs (Decidable (_ = _))

/-- A checked id is a letter with letters, digits, underscores and hyphens behind it, and no keyword
in any letter case. -/
theorem of_checkFor (h : checkFor kind id = .ok value) :
    value = id ∧ isWellFormed id.toList = true ∧ lower id ∉ reservedWords := by
  unfold checkFor check at h
  split at h
  · cases h
  · rename_i hformed
    split at h
    · cases h
    · rename_i hreserved
      cases h
      exact ⟨rfl, by simpa using hformed, fun hmem => hreserved (List.contains_iff_mem.2 hmem)⟩

/-! ### Dialects with hyphens in identifiers -/

/-- The dialects with hyphens in identifiers. -/
def hyphenated : List Dialect := [.flowchart, .states, .entities]

/-- An identifier of a dialect `d` with hyphens is words joined by single hyphens. -/
theorem isHyphenated_of_isToken (hd : d ∈ hyphenated) (h : IsToken d id) : IsHyphenated id := by
  have hrule : ∀ r ∈ Rule.ofDialect d none, r.1 = .identifier → r.2 = Measure.hyphenated := by
    simp only [hyphenated, List.mem_cons, List.not_mem_nil, or_false] at hd
    rcases hd with rfl | rfl | rfl <;> simp [Rule.ofDialect, Rule.common, Rule.punctuation]
  obtain ⟨r, hr, hkind, hlength, h0⟩ := Rule.exists_of_first h (by decide)
  rw [hrule r hr hkind] at hlength
  exact Measure.covers_iff.2 ⟨hlength ▸ h0, hlength⟩

/-! ### Dialects without them -/

/-- A checked id that holds no hyphen is an ASCII identifier, as `Identifier.isWellFormed` asks for
nothing else then. -/
theorem isIdentifier_of_isWellFormed (h : isWellFormed id.toList = true)
    (hhyphen : '-' ∉ id.toList) : IsIdentifier id := by
  cases hid : id.toList with
  | nil =>
    rw [hid] at h
    cases h
  | cons c cs =>
    rw [hid] at h hhyphen
    rw [isWellFormed, Bool.and_eq_true] at h
    obtain ⟨hc, hcs⟩ := h
    refine ⟨fun hempty => by simp [hempty] at hid, ?_, ?_⟩
    · rw [hid]
      rintro e ⟨⟩
      rw [isAlpha_iff] at hc
      rw [← Bool.not_eq_true, isDigit_iff]
      omega
    · rw [hid]
      refine List.forall_mem_cons.2 ⟨by simp [isAsciiWord, Char.isAlphanum, hc], fun e he => ?_⟩
      have hne : e ≠ '-' := fun heq => hhyphen (heq ▸ List.mem_cons_of_mem c he)
      simpa [isAsciiWord, hne] using List.all_eq_true.1 hcs e he

/-- An identifier of any other dialect holds no hyphen, as its token would end there. -/
theorem not_mem_of_isToken (hd : d ∉ hyphenated) (h : IsToken d id) : '-' ∉ id.toList := by
  have hrule : ∀ r ∈ Rule.ofDialect d none, r.1 = .identifier → r.2 = Measure.wordIdentifier := by
    cases d <;> simp_all [hyphenated, Rule.ofDialect, Rule.common, Rule.lineOriented]
  obtain ⟨r, hr, hkind, hlength, h0⟩ := Rule.exists_of_first h (by decide)
  rw [hrule r hr hkind] at hlength
  cases hid : id.toList with
  | nil => exact List.not_mem_nil
  | cons c cs =>
    rw [hid, Measure.wordIdentifier] at hlength
    split at hlength
    · rename_i hc
      rw [List.length_cons, Nat.add_comm, Nat.add_right_cancel_iff] at hlength
      have htake : cs.takeWhile isWord = cs :=
        (List.takeWhile_prefix isWord).eq_of_length hlength
      intro hmem
      rcases List.mem_cons.1 hmem with rfl | hmem
      · exact absurd hc (by decide)
      · rw [← htake] at hmem
        exact absurd (List.mem_takeWhile_imp hmem) (by decide)
    · exact absurd hlength.symm (Nat.succ_ne_zero _)

/-- A checked `id` that is a token of a dialect `d` without hyphens is an ASCII identifier. -/
theorem isIdentifier_of_isToken (hd : d ∉ hyphenated) (h : isWellFormed id.toList = true)
    (htoken : IsToken d id) : IsIdentifier id :=
  isIdentifier_of_isWellFormed h (not_mem_of_isToken hd htoken)

/-! ### Ids without hyphens -/

/-- No relation of entities starts with an identifier that holds no hyphen, since every relation has
two hyphens or two dots in it. -/
theorem entityRelation_eq_zero (h : ∀ c ∈ id.toList, isAsciiWord c = true) :
    Measure.entityRelation id.toList = 0 := by
  have hliteral : ∀ e, isAsciiWord e = false → ∀ n,
      Measure.literal [e, e] (id.toList.drop n) = 0 := by
    intro e he n
    cases hdrop : id.toList.drop n with
    | nil => rfl
    | cons c cs =>
      refine Measure.literal_cons_of_ne ?_ _ _
      rintro rfl
      have hmem : c ∈ id.toList := List.mem_of_mem_drop (hdrop ▸ List.mem_cons_self)
      rw [h c hmem] at he
      cases he
  have hline : Measure.relationLine (id.toList.drop (Measure.cardinality id.toList)) = 0 := by
    simp only [Measure.relationLine, Measure.firstOf, hliteral '-' (by decide),
      hliteral '.' (by decide), if_true]
  simp [Measure.entityRelation, hline]

/-- An identifier that holds no hyphen is one token of every dialect `d`. -/
theorem isToken_of_isIdentifier (h : IsIdentifier id) (d : Dialect) : IsToken d id := by
  have hhyphenated : IsHyphenated id :=
    Measure.covers_hyphenated_iff.2 ⟨id.toList, [], ⟨h.toList_ne_nil, h.2.2⟩,
      List.forall_mem_nil _, by simp⟩
  obtain ⟨c, cs, hcs, -, -⟩ := h.exists_cons
  have hc : isAsciiWord c = true := h.2.2 c (hcs ▸ List.mem_cons_self)
  have hnil : ∀ rules, Rule.first rules (id.toList ++ []) = (.identifier, id.toList.length) →
      Rule.first rules id.toList = (.identifier, id.toList.length) := fun rules hfirst => by
    rwa [List.append_nil] at hfirst
  -- Five dialects have a lemma for names; the rules of entity diagrams are tried one after the
  -- other.
  cases d with
  | flowchart => exact hnil _ (Flowchart.first_name hhyphenated nofun)
  | sequence => exact hnil _ (Sequence.first_identifier h nofun)
  | classes => exact hnil _ (Classes.first_identifier h (b := []) (by simp) none)
  | states => exact (States.isBare_name hhyphenated).first
  | gantt => exact hnil _ (Rule.first_identifier h (b := []) nofun (List.forall_mem_nil _))
  | entities =>
    have hname : Measure.hyphenated id.toList = id.toList.length :=
      (Measure.covers_iff.1 hhyphenated).2
    have hcommon := Rule.common_eq_zero hc cs
    rw [← hcs] at hcommon
    show Rule.first (Rule.common ++ _) _ = _
    rw [Rule.first_append_of_eq_zero hcommon, Rule.first, entityRelation_eq_zero h.2.2, if_pos rfl,
      Rule.first, hname]
    exact if_neg (by simp [hcs])

/-- A checked id that holds no hyphen is one token of every dialect `d`. -/
theorem isToken_of_checkFor (h : checkFor kind id = .ok value) (hhyphen : '-' ∉ id.toList)
    (d : Dialect) : IsToken d id :=
  isToken_of_isIdentifier (isIdentifier_of_isWellFormed (of_checkFor h).2.1 hhyphen) d

end DiagramText.Identifier
