import DiagramText.Proofs.Text.Blank
import DiagramText.Text.Line
import DiagramText.Token.Lexeme

/-!
# Measures and what follows a form

Most forms are measured in the same way whether the text goes on behind them or not, and no space,
tab or line break is part of them.

* `Measure.Stable`: where a form lies within the first part of a text, the rest does not matter.
* `Measure.Within`: a form does not reach beyond a character of a class.
* `Measure.Parts`: the classes that hold only spaces, tabs and line breaks.

The lemmas show this for the forms of lexeme of all dialects, but a comment and a text in double
quotes may hold spaces and tabs, and edges and class relations are not shown to be stable.
-/

namespace DiagramText.Measure

open Text

/-- Where the form `m` lies within the first part of a text, the rest does not matter. What a form
reads ahead of itself may still make it longer. -/
def Stable (m : Measure) : Prop := ∀ a b, m (a ++ b) ≤ a.length → m a = m (a ++ b)

/-- The form `m` does not reach beyond a character of a class `p`, so it is the same without the
rest. -/
def Within (p : Char → Bool) (m : Measure) : Prop :=
  ∀ a b, (∀ c ∈ b.head?, p c = true) → m (a ++ b) = m a

/-- The form `m` does not reach beyond a space or a tab: it is part of a word. -/
def InWord (m : Measure) : Prop := ∀ a b, StartsBlank b → m (a ++ b) = m a

/-- The form `m` is not longer than the text, so it can be cut off. -/
def Bounded (m : Measure) : Prop := ∀ cs, m cs ≤ cs.length

/-! ### Runs -/

theorem run_append (p : Char → Bool) (a b : List Char) :
    run p (a ++ b) = if run p a = a.length then a.length + run p b else run p a := by
  by_cases h : (a.takeWhile p).length = a.length
  · simp [run, List.takeWhile_append, h]
  · simp [run, List.takeWhile_append, h]

/-- A run `a` ends before the first character that does not belong to it, or at the end. -/
theorem run_append_of_all {p : Char → Bool} {a b : List Char} (ha : ∀ c ∈ a, p c = true)
    (hb : ∀ c ∈ b.head?, p c = false) : run p (a ++ b) = a.length := by
  have hrest : b.takeWhile p = [] := by
    cases b with
    | nil => rfl
    | cons c b => rw [List.takeWhile_cons_of_neg (by simp [hb c rfl])]
  rw [run, List.takeWhile_append_of_pos ha, hrest, List.append_nil]

/-- A text `cs` is the characters of a run and what stands behind it, which does not start with such
a character. -/
theorem exists_run (p : Char → Bool) (cs : List Char) : ∃ a b, cs = a ++ b ∧
    (∀ c ∈ a, p c = true) ∧ (∀ c ∈ b.head?, p c = false) ∧ run p cs = a.length := by
  refine ⟨cs.takeWhile p, cs.dropWhile p, List.takeWhile_append_dropWhile.symm,
    fun c hc => List.all_eq_true.1 List.all_takeWhile c hc, fun c hc => ?_, rfl⟩
  have := List.head?_dropWhile_not p cs
  rw [Option.mem_def.1 hc] at this
  simpa using this

theorem run_le (p : Char → Bool) : Bounded (run p) := fun _ => (List.takeWhile_prefix p).length_le

theorem stable_run (p : Char → Bool) : Stable (run p) := by
  intro a b h
  rw [run_append] at h ⊢
  split at h
  · rw [if_pos ‹_›]; omega
  · rw [if_neg ‹_›]

theorem within_run {p q : Char → Bool} (hpq : ∀ c, p c = true → q c = false) :
    Within p (run q) := by
  intro a b hb
  have hrest : run q b = 0 := by
    cases b with
    | nil => rfl
    | cons c cs => simp [run, hpq c (hb c rfl)]
  rw [run_append, hrest]
  split
  · rw [‹run q a = _›, Nat.add_zero]
  · rfl

/-! ### Fixed texts -/

theorem literal_le (s : List Char) : Bounded (literal s) := by
  intro cs
  unfold literal
  split
  · next h => exact (List.isPrefixOf_iff_prefix.1 h).length_le
  · exact Nat.zero_le _

theorem literal_eq_zero_of_lt {s cs : List Char} (h : cs.length < s.length) :
    literal s cs = 0 := by
  rw [literal, if_neg]
  intro hs
  have := (List.isPrefixOf_iff_prefix.1 hs).length_le
  omega

/-- A fixed text is not at another character than it starts with, so its measure is `0` there. -/
theorem literal_cons_of_ne {c e : Char} (h : c ≠ e) (s cs : List Char) :
    literal (e :: s) (c :: cs) = 0 := by
  simp [literal, h.symm]

theorem stable_literal (s : List Char) : Stable (literal s) := by
  intro a b h
  unfold literal at h ⊢
  have hab : a <+: a ++ b := List.prefix_append a b
  by_cases hs : s.isPrefixOf (a ++ b) = true
  · rw [if_pos hs] at h ⊢
    have hsa := List.prefix_of_prefix_length_le (List.isPrefixOf_iff_prefix.1 hs) hab h
    rw [if_pos (List.isPrefixOf_iff_prefix.2 hsa)]
  · have hsa : ¬ s.isPrefixOf a = true := fun hsa => hs
      (List.isPrefixOf_iff_prefix.2 ((List.isPrefixOf_iff_prefix.1 hsa).trans hab))
    rw [if_neg hs, if_neg hsa]

/-- Whether a fixed text `s` is there does not depend on what follows a character it does not have,
since it cannot reach beyond it. -/
theorem isPrefixOf_append {p : Char → Bool} {s : List Char} (hs : ∀ c ∈ s, p c = false)
    (a : List Char) {b : List Char} (hb : ∀ c ∈ b.head?, p c = true) :
    s.isPrefixOf (a ++ b) = s.isPrefixOf a := by
  rw [Bool.eq_iff_iff, List.isPrefixOf_iff_prefix, List.isPrefixOf_iff_prefix]
  refine ⟨fun h => ?_, fun h => h.trans (List.prefix_append a b)⟩
  by_cases hlen : s.length ≤ a.length
  · exact List.prefix_of_prefix_length_le h (List.prefix_append a b) hlen
  · -- the character behind `a` would be one of the fixed text
    obtain ⟨t, rfl⟩ := List.prefix_of_prefix_length_le (List.prefix_append a b) h (by omega)
    rw [List.prefix_append_right_inj] at h
    cases t with
    | nil => simp at hlen
    | cons c t =>
      obtain ⟨r, rfl⟩ := h
      have hc := hb c rfl
      rw [hs c (by simp)] at hc
      cases hc

theorem within_literal {p : Char → Bool} {s : List Char} (hs : ∀ c ∈ s, p c = false) :
    Within p (literal s) := fun a b hb => by
  rw [literal, literal, isPrefixOf_append hs a hb]

/-! ### The first of several forms -/

theorem firstOf_le {ms : List Measure} (h : ∀ m ∈ ms, Bounded m) : Bounded (firstOf ms) := by
  intro cs
  induction ms with
  | nil => exact Nat.zero_le _
  | cons m ms ih =>
    obtain ⟨hm, hms⟩ := List.forall_mem_cons.1 h
    rw [firstOf]
    split
    · exact ih hms
    · exact hm cs

/-- Where none of the forms `ms` looks behind the first part of a text, what follows it does not
matter to the first form that is there. -/
theorem firstOf_append {ms : List Measure} {a b : List Char}
    (h : ∀ m ∈ ms, m (a ++ b) ≤ a.length → m a = m (a ++ b))
    (hab : firstOf ms (a ++ b) ≤ a.length) : firstOf ms a = firstOf ms (a ++ b) := by
  induction ms with
  | nil => rfl
  | cons m ms ih =>
    obtain ⟨hm, hms⟩ := List.forall_mem_cons.1 h
    rw [firstOf, firstOf] at *
    by_cases h0 : m (a ++ b) = 0
    · rw [if_pos h0] at hab ⊢
      rw [hm (by omega), if_pos h0]
      exact ih hms hab
    · rw [if_neg h0] at hab ⊢
      rw [hm hab, if_neg h0]

theorem stable_firstOf {ms : List Measure} (h : ∀ m ∈ ms, Stable m) : Stable (firstOf ms) :=
  fun a b => firstOf_append fun m hm => h m hm a b

theorem within_firstOf {p : Char → Bool} {ms : List Measure} (h : ∀ m ∈ ms, Within p m) :
    Within p (firstOf ms) := by
  intro a b hb
  induction ms with
  | nil => rfl
  | cons m ms ih =>
    obtain ⟨hm, hms⟩ := List.forall_mem_cons.1 h
    rw [firstOf, firstOf, hm a b hb, ih hms]

/-! ### One form after the other -/

/-- A form `m` and the form `n` right behind it, or nothing, if one of them is missing. -/
def chain (m n : Measure) : Measure := fun cs =>
  if m cs = 0 ∨ n (cs.drop (m cs)) = 0 then 0 else m cs + n (cs.drop (m cs))

/-- The form `m` is all that is left of it, or none of it is left, where it does not end within the
first part of a text. A cardinality and the line of a relation are such forms. -/
def Whole (m : Measure) : Prop := ∀ a b, a.length < m (a ++ b) → m a = 0 ∨ m a = a.length

theorem stable_chain {m n : Measure} (hm : Stable m) (hw : Whole m) (hn : Stable n)
    (hn0 : n [] = 0) : Stable (chain m n) := by
  intro a b h
  unfold chain at h ⊢
  by_cases hle : m (a ++ b) ≤ a.length
  · rw [hm a b hle]
    rw [List.drop_append_of_le_length hle] at h ⊢
    by_cases h0 : m (a ++ b) = 0 ∨ n (a.drop (m (a ++ b)) ++ b) = 0
    · rw [if_pos h0]
      rcases h0 with h0 | h0
      · rw [if_pos (.inl h0)]
      · rw [if_pos (.inr (by rw [hn _ b (by omega), h0]))]
    · rw [if_neg h0] at h ⊢
      rw [hn _ b (by rw [List.length_drop]; omega), if_neg h0]
  · have hlt : a.length < m (a ++ b) := by omega
    have hzero : m (a ++ b) = 0 ∨ n ((a ++ b).drop (m (a ++ b))) = 0 :=
      Decidable.byContradiction fun hne => by rw [if_neg hne] at h; omega
    rw [if_pos hzero]
    rcases hw a b hlt with h0 | h0
    · rw [if_pos (.inl h0)]
    · rw [h0, List.drop_length, hn0, if_pos (.inr rfl)]

theorem within_chain {p : Char → Bool} {m n : Measure} (hm : Within p m) (hle : Bounded m)
    (hn : Within p n) : Within p (chain m n) := by
  intro a b hb
  unfold chain
  rw [hm a b hb, List.drop_append_of_le_length (hle a), hn _ b hb]

theorem chain_le {m n : Measure} (hm : Bounded m) (hn : Bounded n) : Bounded (chain m n) := by
  intro cs
  unfold chain
  split
  · exact Nat.zero_le _
  · have h := hn (cs.drop (m cs))
    have h' := hm cs
    rw [List.length_drop] at h
    omega

/-! ### Characters that part lexemes -/

/-- The characters of the class `p` are among those that part lexemes: spaces, tabs and line
breaks. -/
def Parts (p : Char → Bool) : Prop := ∀ c, p c = true → c ∈ [' ', '\t', '\n', '\r']

theorem eq_of_isSpaceOrTab {c : Char} (h : isSpaceOrTab c = true) : c = ' ' ∨ c = '\t' := by
  simpa [isSpaceOrTab] using h

theorem parts_isSpaceOrTab : Parts isSpaceOrTab := by
  intro c hc
  obtain rfl | rfl := eq_of_isSpaceOrTab hc <;> decide

theorem parts_isLineBreak : Parts isLineBreak := by
  intro c hc
  rw [isLineBreak, Bool.or_eq_true, beq_iff_eq, beq_iff_eq] at hc
  rcases hc with rfl | rfl <;> decide

/-- A class `p` that has none of the characters that part lexemes has none of a class of them. -/
theorem Parts.eq_false {p q : Char → Bool} (hp : Parts p)
    (hq : ∀ c ∈ [' ', '\t', '\n', '\r'], q c = false) {c : Char} (hc : p c = true) : q c = false :=
  hq c (hp c hc)

theorem Parts.ne {p : Char → Bool} (hp : Parts p) {e : Char} (he : e ∉ [' ', '\t', '\n', '\r'])
    {c : Char} (hc : p c = true) : c ≠ e := by
  rintro rfl
  exact he (hp _ hc)

theorem Parts.literal {p : Char → Bool} (hp : Parts p) {s : List Char}
    (hs : ∀ e ∈ s, e ∉ [' ', '\t', '\n', '\r']) : Within p (literal s) :=
  within_literal fun e he => Bool.eq_false_iff.2 fun hpe => hs e he (hp e hpe)

theorem isWord_of_isSpaceOrTab {c : Char} (h : isSpaceOrTab c = true) : isWord c = false :=
  parts_isSpaceOrTab.eq_false (by decide) h

set_option maxRecDepth 20000 in
/-- No blank of any script is a word character `c`, so words end at blanks. -/
theorem isWord_of_isBlank {c : Char} (h : isBlank c = true) : isWord c = false := by
  have hcodes : ∀ n ∈ List.range' 9 5 ++ List.range' 28 5 ++ List.range' 0x2000 11 ++
      [0x85, 0xa0, 0x1680, 0x2028, 0x2029, 0x202f, 0x205f, 0x3000],
      isWord (Char.ofNat n) = false := by decide
  rw [← Char.ofNat_toNat c]
  apply hcodes
  simp only [isBlank, Bool.or_eq_true, Bool.and_eq_true, decide_eq_true_eq, beq_iff_eq] at h
  simp only [List.mem_append, List.mem_range'_1, List.mem_cons, List.not_mem_nil, or_false]
  omega

/-! ### Comments and texts in double quotes -/

theorem stable_comment : Stable comment := by
  intro a b h
  have hliteral := stable_literal ['%', '%'] a b
  unfold comment at h ⊢
  unfold literal at hliteral
  by_cases hab : ['%', '%'].isPrefixOf (a ++ b) = true
  · rw [if_pos hab, List.length_append] at h
    obtain rfl : b = [] := List.eq_nil_of_length_eq_zero (by omega)
    rw [List.append_nil]
  · rw [if_neg hab] at hliteral ⊢
    have ha : ¬ ['%', '%'].isPrefixOf a = true := fun ha => by
      rw [if_pos ha] at hliteral
      exact absurd (hliteral (Nat.zero_le _)) (by decide)
    rw [if_neg ha]

theorem comment_eq_zero_iff {cs : List Char} : comment cs = 0 ↔ literal ['%', '%'] cs = 0 := by
  unfold comment literal
  split
  · next h =>
    obtain ⟨cs, rfl⟩ := List.isPrefixOf_iff_prefix.1 h
    simp
  · exact Iff.rfl

theorem comment_eq_length {cs : List Char} (h : comment cs ≠ 0) : comment cs = cs.length := by
  unfold comment at h ⊢
  split at h
  · rw [if_pos ‹_›]
  · exact absurd rfl h

theorem comment_le : Bounded comment := by
  intro cs
  unfold comment
  split
  · exact Nat.le_refl _
  · exact Nat.zero_le _

theorem quotedString_le : Bounded quotedString := by
  intro cs
  unfold quotedString
  split
  · dsimp only
    rw [List.length_cons]
    split <;> omega
  · exact Nat.zero_le _

theorem stable_quotedString : Stable quotedString := by
  intro a b h
  match a with
  | [] =>
    rw [List.length_nil] at h
    rw [List.nil_append] at h ⊢
    rw [Nat.le_zero.1 h]
    rfl
  | c :: cs =>
    by_cases hc : c = '"'
    · subst hc
      simp only [List.cons_append, quotedString, List.length_append, List.length_cons] at h ⊢
      have hle := run_le (· != '"') cs
      have hle' := run_le (· != '"') b
      rw [run_append] at h ⊢
      -- The string closes within `cs`, or it would have to close in `b`, which `h` rules out.
      by_cases hcs : run (· != '"') cs = cs.length
      · rw [if_pos hcs] at h ⊢
        rw [if_neg (by omega)]
        split at h
        · omega
        · rw [if_neg ‹_›]
      · rw [if_neg hcs] at h ⊢
        rw [if_pos (by omega), if_pos (by omega)]
    · rw [List.cons_append, quotedString.eq_2 _ (by simpa using hc),
        quotedString.eq_2 _ (by simpa using hc)]

theorem quotedString_append {cs : List Char} (h : '"' ∉ cs) (ds : List Char) :
    quotedString ('"' :: (cs ++ '"' :: ds)) = cs.length + 2 := by
  have hrun : run (· != '"') (cs ++ '"' :: ds) = cs.length := by
    rw [run, List.takeWhile_append_of_pos fun c hc => by simpa using ne_of_mem_of_not_mem hc h]
    simp
  rw [quotedString]
  simp only [hrun, List.length_append, List.length_cons]
  rw [if_pos (by omega)]

theorem quotedString_eq_zero {cs : List Char} (h : '"' ∉ cs) : quotedString ('"' :: cs) = 0 := by
  have hrun : run (· != '"') cs = cs.length := by
    rw [run, ← List.append_nil cs, List.takeWhile_append_of_pos fun c hc => by
      simpa using ne_of_mem_of_not_mem hc h]
    simp
  rw [quotedString]
  simp only [hrun]
  rw [if_neg (by omega)]

/-! ### Identifiers and entity relations -/

theorem stable_hyphenatedTail : Stable hyphenatedTail := by
  intro a b h
  -- The cases are those of `hyphenatedTail`. A last hyphen is no part of an identifier, so the two
  -- cases of a single character look at what follows.
  induction a using hyphenatedTail.induct with
  | case1 =>
    rw [List.length_nil] at h
    rw [List.nil_append] at h ⊢
    rw [Nat.le_zero.1 h, hyphenatedTail]
  | case2 c hc =>
    cases b with
    | nil => rfl
    | cons d b =>
      simp only [List.singleton_append, hyphenatedTail, hc, if_true, List.length_singleton] at h ⊢
      omega
  | case3 c hc =>
    cases b with
    | nil => rfl
    | cons d b =>
      simp only [List.singleton_append, hyphenatedTail, hc, if_false, List.length_singleton,
        Bool.false_eq_true] at h ⊢
      split at h
      · omega
      · rw [if_neg ‹_›]
  | case4 c d cs hc ih =>
    simp only [List.cons_append, hyphenatedTail, hc, if_true, List.length_cons] at h ih ⊢
    rw [ih (by omega)]
  | case5 c d cs hc hd ih =>
    simp only [List.cons_append, hyphenatedTail, hc, hd, if_true, if_false, Bool.false_eq_true,
      List.length_cons] at h ih ⊢
    rw [ih (by omega)]
  | case6 c d cs hc hd =>
    simp only [List.cons_append, hyphenatedTail, hc, hd, if_false, Bool.false_eq_true]

/-- An identifier in `a` ends before a character that goes on with no word, a hyphen included. -/
theorem hyphenatedTail_append (a : List Char) {b : List Char}
    (hb : ∀ c ∈ b.head?, isAsciiWord c = false ∧ c ≠ '-') :
    hyphenatedTail (a ++ b) = hyphenatedTail a := by
  -- As above, but now what follows is known to go on with no word.
  induction a using hyphenatedTail.induct with
  | case1 =>
    cases b with
    | nil => rfl
    | cons c b =>
      obtain ⟨hc, hne⟩ := hb c rfl
      cases b <;> simp [hyphenatedTail, hc, hne]
  | case2 c hc =>
    cases b with
    | nil => rfl
    | cons d b =>
      obtain ⟨hd, hne⟩ := hb d rfl
      cases b <;> simp [hyphenatedTail, hc, hd, hne]
  | case3 c hc =>
    cases b with
    | nil => rfl
    | cons d b => simp [hyphenatedTail, hc, (hb d rfl).1]
  | case4 c d cs hc ih =>
    simp only [List.cons_append, hyphenatedTail, hc, if_true] at ih ⊢
    rw [ih]
  | case5 c d cs hc hd ih =>
    simp only [List.cons_append, hyphenatedTail, hc, hd, if_true, if_false, Bool.false_eq_true]
      at ih ⊢
    rw [ih]
  | case6 c d cs hc hd =>
    simp only [List.cons_append, hyphenatedTail, hc, hd, if_false, Bool.false_eq_true]

theorem hyphenatedTail_le : Bounded hyphenatedTail := by
  intro cs
  induction cs using hyphenatedTail.induct with
  | case1 => exact Nat.zero_le _
  | case2 c hc => simp [hyphenatedTail, hc]
  | case3 c hc => simp [hyphenatedTail, hc]
  | case4 c d cs hc ih => simp only [hyphenatedTail, hc, if_true, List.length_cons] at ih ⊢; omega
  | case5 c d cs hc hd ih =>
    simp only [hyphenatedTail, hc, hd, if_true, if_false, Bool.false_eq_true, List.length_cons]
      at ih ⊢
    omega
  | case6 c d cs hc hd => simp [hyphenatedTail, hc, hd]

theorem stable_hyphenated : Stable hyphenated := by
  intro a b h
  cases a with
  | nil =>
    rw [List.length_nil] at h
    rw [List.nil_append] at h ⊢
    rw [Nat.le_zero.1 h, hyphenated]
  | cons c cs =>
    rw [List.cons_append, hyphenated, hyphenated] at *
    split at h
    · rw [if_pos ‹_›, if_pos ‹_›, stable_hyphenatedTail cs b (by simp at h; omega)]
    · rw [if_neg ‹_›, if_neg ‹_›]

theorem hyphenated_append (a : List Char) {b : List Char}
    (hb : ∀ c ∈ b.head?, isAsciiWord c = false ∧ c ≠ '-') :
    hyphenated (a ++ b) = hyphenated a := by
  cases a with
  | nil =>
    cases b with
    | nil => rfl
    | cons c b => simp [hyphenated, (hb c rfl).1]
  | cons c cs => rw [List.cons_append, hyphenated, hyphenated, hyphenatedTail_append cs hb]

theorem within_hyphenated {p : Char → Bool} (hp : Parts p) : Within p hyphenated := fun a _ hb =>
  hyphenated_append a fun c hc =>
    ⟨hp.eq_false (by decide) (hb c hc), hp.ne (by decide) (hb c hc)⟩

theorem hyphenated_le : Bounded hyphenated := by
  intro cs
  cases cs with
  | nil => exact Nat.zero_le _
  | cons c cs =>
    have h := hyphenatedTail_le cs
    rw [hyphenated, List.length_cons]
    split <;> omega

theorem stable_cardinality : Stable cardinality := by
  intro a b h
  unfold cardinality at h ⊢
  rw [run_append] at h ⊢
  split at h
  · rw [if_pos ‹_›, ‹run isCardinalityMark a = _›]; omega
  · rw [if_neg ‹_›]

theorem whole_cardinality : Whole cardinality := by
  intro a b h
  unfold cardinality at h ⊢
  rw [run_append] at h
  have hle := run_le isCardinalityMark a
  split at h <;> omega

theorem cardinality_le : Bounded cardinality := by
  intro cs
  have h := run_le isCardinalityMark cs
  unfold cardinality
  omega

theorem entityRelation_eq_chain :
    entityRelation = chain cardinality (chain relationLine cardinality) := by
  funext cs
  simp only [entityRelation, chain]
  by_cases hl : cardinality cs = 0
  · simp [hl]
  by_cases hm : relationLine (cs.drop (cardinality cs)) = 0
  · simp [hm]
  by_cases hr : cardinality ((cs.drop (cardinality cs)).drop
      (relationLine (cs.drop (cardinality cs)))) = 0
  · simp only [hr]
    simp
  · rw [List.drop_drop] at hr
    simp [hl, hm, hr, Nat.add_assoc]

theorem stable_relationLine : Stable relationLine :=
  stable_firstOf (by simp [stable_literal])

theorem whole_relationLine : Whole relationLine := by
  intro a b h
  have htwo : relationLine (a ++ b) ≤ 2 := by
    simp only [relationLine, firstOf, literal]
    repeat' split
    all_goals simp
  have hzero : ∀ s : List Char, s.length = 2 → literal s a = 0 := fun s hs =>
    literal_eq_zero_of_lt (by omega)
  left
  simp [relationLine, firstOf, hzero]

theorem stable_entityRelation : Stable entityRelation := by
  rw [entityRelation_eq_chain]
  exact stable_chain stable_cardinality whole_cardinality
    (stable_chain stable_relationLine whole_relationLine stable_cardinality rfl) rfl

theorem within_entityRelation {p : Char → Bool} (hp : Parts p) : Within p entityRelation := by
  have hcard : Within p cardinality := fun a b hb => by
    rw [cardinality, cardinality, within_run (fun _ => hp.eq_false (by decide)) a b hb]
  have hline : Within p relationLine := within_firstOf (List.forall_mem_cons.2
    ⟨hp.literal (by decide), List.forall_mem_singleton.2 (hp.literal (by decide))⟩)
  rw [entityRelation_eq_chain]
  exact within_chain hcard cardinality_le
    (within_chain hline (firstOf_le (by simp [literal_le])) hcard)

theorem entityRelation_le : Bounded entityRelation := by
  rw [entityRelation_eq_chain]
  exact chain_le cardinality_le
    (chain_le (firstOf_le (by simp [literal_le])) cardinality_le)

/-! ### Region separators -/

/-- Whether `c` lengthens a row of hyphens or makes an arrow of it. -/
def isArrowPart (c : Char) : Bool := c == '-' || c == '>'

theorem isArrowPart_of_isSpaceOrTab {c : Char} (h : isSpaceOrTab c = true) :
    isArrowPart c = false :=
  parts_isSpaceOrTab.eq_false (by decide) h

/-- A closed text `s` stays closed where it stays the same text and no part of an arrow comes next,
which would open it. -/
theorem closedLiteral_append {s a b : List Char} (hs : literal s (a ++ b) = literal s a)
    (hb : ∀ c ∈ b.head?, isArrowPart c = false) :
    closedLiteral s (a ++ b) = closedLiteral s a := by
  have hnext : ((a ++ b).drop (literal s a)).head?.any (fun c => c == '-' || c == '>') =
      (a.drop (literal s a)).head?.any fun c => c == '-' || c == '>' := by
    rw [List.drop_append_of_le_length (literal_le s a)]
    cases a.drop (literal s a) with
    | cons c cs => rfl
    | nil =>
      cases b with
      | nil => rfl
      | cons c b => exact hb c rfl
  unfold closedLiteral
  dsimp only
  rw [hs, hnext]

theorem closedLiteral_eq_zero {s cs : List Char} (h : literal s cs = 0) :
    closedLiteral s cs = 0 := by
  simp [closedLiteral, h]

/-- A closed text `s` is there as a whole or not at all, so its measure has two values. -/
theorem closedLiteral_eq_or (s cs : List Char) :
    closedLiteral s cs = 0 ∨ closedLiteral s cs = s.length ∧ literal s cs = s.length := by
  unfold closedLiteral literal
  dsimp only
  split <;> split <;> simp

/-- A region separator is one wherever no part of an arrow comes next, as `closedLiteral` asks. -/
theorem regionSeparator_append {a b : List Char} (hb : ∀ c ∈ b.head?, isArrowPart c = false)
    (h : regionSeparator (a ++ b) ≤ a.length) : regionSeparator a = regionSeparator (a ++ b) := by
  have hclosed : ∀ s, closedLiteral s (a ++ b) ≤ a.length →
      closedLiteral s a = closedLiteral s (a ++ b) := by
    intro s hle
    by_cases hlen : s.length ≤ a.length
    · have hliteral : literal s (a ++ b) ≤ a.length := by
        rw [literal]
        split <;> omega
      exact (closedLiteral_append (stable_literal s a b hliteral).symm hb).symm
    · -- a text that ends behind the first part is too long to be closed within it
      rw [closedLiteral_eq_zero (literal_eq_zero_of_lt (by omega))]
      rcases closedLiteral_eq_or s (a ++ b) with h0 | ⟨h0, -⟩ <;> omega
  exact firstOf_append (List.forall_mem_cons.2 ⟨hclosed _,
    List.forall_mem_singleton.2 (hclosed _)⟩) h

/-- No region separator is a single hyphen, so a hyphen in a name is none. -/
theorem regionSeparator_eq_zero_or (cs : List Char) :
    regionSeparator cs = 0 ∨ 2 ≤ regionSeparator cs := by
  rw [regionSeparator, firstOf, firstOf, firstOf]
  rcases closedLiteral_eq_or ['-', '-', '-'] cs with h | ⟨h, -⟩
  · rcases closedLiteral_eq_or ['-', '-'] cs with h' | ⟨h', -⟩ <;> simp [h, h']
  · simp [h]

theorem regionSeparator_cons_of_ne {c : Char} (h : c ≠ '-') (cs : List Char) :
    regionSeparator (c :: cs) = 0 := by
  simp [regionSeparator, firstOf, closedLiteral, literal, h.symm]

theorem regionSeparator_hyphen_of_ne {c : Char} (h : c ≠ '-') (cs : List Char) :
    regionSeparator ('-' :: c :: cs) = 0 := by
  simp [regionSeparator, firstOf, closedLiteral, literal, h.symm]

theorem regionSeparator_two {c : Char} (h : c ≠ '-') (cs : List Char) :
    regionSeparator ('-' :: '-' :: c :: cs) = if c = '>' then 0 else 2 := by
  simp [regionSeparator, firstOf, closedLiteral, literal, h.symm, h]

theorem regionSeparator_three (c : Char) (cs : List Char) :
    regionSeparator ('-' :: '-' :: '-' :: c :: cs) = if isArrowPart c then 0 else 3 := by
  simp [regionSeparator, firstOf, closedLiteral, literal, isArrowPart]

theorem within_regionSeparator {p : Char → Bool} (hp : Parts p) : Within p regionSeparator := by
  have hclosed : ∀ s : List Char, (∀ c ∈ s, c ∉ [' ', '\t', '\n', '\r']) →
      Within p (closedLiteral s) := fun s hs a b hb =>
    closedLiteral_append (hp.literal hs a b hb) fun c hc => hp.eq_false (by decide) (hb c hc)
  exact within_firstOf (List.forall_mem_cons.2 ⟨hclosed _ (by decide),
    List.forall_mem_singleton.2 (hclosed _ (by decide))⟩)

theorem regionSeparator_le : Bounded regionSeparator := by
  have hclosed : ∀ s, Bounded (closedLiteral s) := by
    intro s cs
    have hle := literal_le s cs
    rcases closedLiteral_eq_or s cs with h | ⟨h, hliteral⟩ <;> omega
  exact firstOf_le (List.forall_mem_cons.2 ⟨hclosed _, List.forall_mem_singleton.2 (hclosed _)⟩)

/-! ### Words and numbers -/

theorem stable_wordIdentifier : Stable wordIdentifier := by
  intro a b h
  cases a with
  | nil =>
    rw [List.length_nil] at h
    rw [List.nil_append] at h ⊢
    rw [Nat.le_zero.1 h, wordIdentifier]
  | cons c cs =>
    rw [List.cons_append, wordIdentifier, wordIdentifier] at *
    split at h
    · rw [if_pos ‹_›, if_pos ‹_›, stable_run _ cs b (by simp at h; omega)]
    · rw [if_neg ‹_›, if_neg ‹_›]

/-- An identifier in `a` ends before a character of no word, whatever script the word is of. -/
theorem wordIdentifier_append {a b : List Char} (hne : a ≠ [])
    (hb : ∀ c ∈ b.head?, isWord c = false) : wordIdentifier (a ++ b) = wordIdentifier a := by
  obtain ⟨c, cs, rfl⟩ := List.exists_cons_of_ne_nil hne
  have hrun : run isWord (cs ++ b) = run isWord cs :=
    within_run (p := fun e => !isWord e) (by simp) cs b (by simpa using hb)
  rw [List.cons_append, wordIdentifier, wordIdentifier, hrun]

theorem within_wordIdentifier {p : Char → Bool} (hp : Parts p) : Within p wordIdentifier := by
  intro a b hb
  cases a with
  | nil =>
    cases b with
    | nil => rfl
    | cons c b =>
      have hc : (c.isAlpha || c == '_') = false :=
        hp.eq_false (q := fun e => e.isAlpha || e == '_') (by decide) (hb c rfl)
      simp [wordIdentifier, hc]
  | cons c cs =>
    exact wordIdentifier_append (List.cons_ne_nil c cs) fun e he =>
      hp.eq_false (by decide) (hb e he)

theorem wordIdentifier_le : Bounded wordIdentifier := by
  intro cs
  cases cs with
  | nil => exact Nat.zero_le _
  | cons c cs =>
    have h := run_le isWord cs
    rw [wordIdentifier, List.length_cons]
    split <;> omega

/-- The dot and the digits of a fraction, or nothing, if no digit follows the dot. -/
def fraction : Measure
  | '.' :: cs => if run isDecimal cs = 0 then 0 else 1 + run isDecimal cs
  | _ => 0

theorem number_eq (cs : List Char) :
    number cs = if run isDecimal cs = 0 then 0
      else run isDecimal cs + fraction (cs.drop (run isDecimal cs)) := by
  unfold number
  dsimp only
  by_cases h : run isDecimal cs = 0
  · rw [if_pos h, if_pos h]
  rw [if_neg h, if_neg h]
  split
  · next rest hrest =>
    rw [hrest, fraction]
    split <;> omega
  · next hrest => rw [fraction.eq_2 _ hrest, Nat.add_zero]

theorem fraction_append (a b : List Char) : fraction (a ++ b) = fraction a ∨
    a.length < fraction (a ++ b) ∨ a = [] := by
  match a with
  | [] => exact .inr (.inr rfl)
  | c :: a =>
    by_cases hc : c = '.'
    · subst hc
      simp only [List.cons_append, fraction, run_append, List.length_cons]
      by_cases ha : run isDecimal a = a.length
      · rw [if_pos ha]
        by_cases hb : run isDecimal b = 0
        · exact .inl (by rw [hb, ha, Nat.add_zero])
        · exact .inr (.inl (by rw [if_neg (by omega)]; omega))
      · rw [if_neg ha]
        exact .inl rfl
    · exact .inl (by rw [List.cons_append, fraction.eq_2 _ (by simpa using hc),
        fraction.eq_2 _ (by simpa using hc)])

theorem fraction_le : Bounded fraction := by
  intro cs
  unfold fraction
  split
  · next cs =>
    have h := run_le isDecimal cs
    rw [List.length_cons]
    split <;> omega
  · exact Nat.zero_le _

theorem number_le : Bounded number := by
  intro cs
  have h := run_le isDecimal cs
  have h' := fraction_le (cs.drop (run isDecimal cs))
  rw [List.length_drop] at h'
  rw [number_eq]
  split <;> omega

theorem stable_number : Stable number := by
  intro a b h
  rw [number_eq, number_eq, run_append] at *
  -- the digits fill the first text, or end before it does
  by_cases ha : run isDecimal a = a.length
  · rw [if_pos ha] at h ⊢
    by_cases hb : run isDecimal b = 0
    · rw [hb, Nat.add_zero, List.drop_left] at h ⊢
      rw [ha, List.drop_length]
      split at h
      · rw [if_pos ‹_›, if_pos ‹_›]
      · rw [if_neg ‹_›, if_neg ‹_›, show fraction b = 0 by omega]
        rfl
    · rw [if_neg (by omega)] at h
      omega
  · rw [if_neg ha] at h ⊢
    have hle : run isDecimal a < a.length := Nat.lt_of_le_of_ne (run_le isDecimal a) ha
    rw [List.drop_append_of_le_length (Nat.le_of_lt hle)] at h ⊢
    split at h
    · rw [if_pos ‹_›, if_pos ‹_›]
    · rw [if_neg ‹_›, if_neg ‹_›]
      rcases fraction_append (a.drop (run isDecimal a)) b with h' | h' | h'
      · rw [h']
      · rw [List.length_drop] at h'
        omega
      · rw [List.drop_eq_nil_iff] at h'
        omega

/-- A number in `a` ends before a character that is neither a digit nor a dot, since only a dot can
go on with it. -/
theorem number_append (a : List Char) {b : List Char}
    (hb : ∀ c ∈ b.head?, isDecimal c = false ∧ c ≠ '.') : number (a ++ b) = number a := by
  have hrun : ∀ a, run isDecimal (a ++ b) = run isDecimal a := fun a =>
    within_run (p := fun e => !isDecimal e) (by simp) a b (by simpa using fun c hc => (hb c hc).1)
  have hfraction : ∀ a, fraction (a ++ b) = fraction a := by
    intro a
    match a with
    | [] =>
      cases b with
      | nil => rfl
      | cons c b =>
        rw [List.nil_append, fraction.eq_2 _ (by simpa using (hb c rfl).2)]
        rfl
    | c :: a =>
      by_cases hc : c = '.'
      · subst hc
        simp only [List.cons_append, fraction, hrun]
      · rw [List.cons_append, fraction.eq_2 _ (by simpa using hc),
          fraction.eq_2 _ (by simpa using hc)]
  rw [number_eq, number_eq, hrun, List.drop_append_of_le_length (run_le _ _), hfraction]

theorem within_number {p : Char → Bool} (hp : Parts p) : Within p number := fun a _ hb =>
  number_append a fun c hc => ⟨hp.eq_false (by decide) (hb c hc), hp.ne (by decide) (hb c hc)⟩

/-! ### Edges -/

theorem within_atLeast {p : Char → Bool} (n : Nat) {c : Char} (hp : ∀ e, p e = true → e ≠ c) :
    Within p (atLeast n c) := by
  intro a b hb
  have hrun : run (· == c) (a ++ b) = run (· == c) a :=
    within_run (fun e he => beq_eq_false_iff_ne.2 (hp e he)) a b hb
  simp only [atLeast, hrun]

theorem startsWord_append {p : Char → Bool} (hp : Parts p) (a : List Char) {b : List Char}
    (hb : ∀ c ∈ b.head?, p c = true) : startsWord (a ++ b) = startsWord a := by
  cases a with
  | cons c a => rfl
  | nil =>
    cases b with
    | nil => rfl
    | cons c b => exact hp.eq_false (q := isWord) (by decide) (hb c rfl)

/-- A form `n` that is nothing on its own but may come behind `m`, such as the tail behind the body
of an edge. -/
theorem within_then {p : Char → Bool} {m n : Measure} (hm : Within p m) (hle : Bounded m)
    (hn : Within p n) :
    Within p fun cs => if m cs = 0 then 0 else m cs + n (cs.drop (m cs)) := by
  intro a b hb
  dsimp only
  rw [hm a b hb, List.drop_append_of_le_length (hle a), hn _ b hb]

theorem then_le {m n : Measure} (hm : Bounded m) (hn : Bounded n) :
    Bounded fun cs => if m cs = 0 then 0 else m cs + n (cs.drop (m cs)) := by
  intro cs
  have h := hn (cs.drop (m cs))
  have h' := hm cs
  rw [List.length_drop] at h
  dsimp only
  split <;> omega

theorem within_edgeTail {p : Char → Bool} (hp : Parts p) : Within p edgeTail := by
  intro a b hb
  cases a with
  | cons c a => rw [List.cons_append, edgeTail, edgeTail, startsWord_append hp a hb]
  | nil =>
    cases b with
    | nil => rfl
    | cons c b =>
      have hc : (c == '>' || (c == 'o' || c == 'x')) = false :=
        hp.eq_false (q := fun e => e == '>' || (e == 'o' || e == 'x')) (by decide) (hb c rfl)
      rw [Bool.or_eq_false_iff] at hc
      simp only [List.nil_append, edgeTail, hc.1, hc.2]
      rfl

theorem edgeBody_le : Bounded edgeBody := by
  intro cs
  have hatLeast : ∀ n c, Bounded (atLeast n c) := by
    intro n c cs
    have h := run_le (· == c) cs
    unfold atLeast
    dsimp only
    split <;> omega
  unfold edgeBody
  split
  · next cs =>
    have h := run_le (· == '.') cs
    dsimp only
    split
    · next hlast =>
      -- The dots are followed by a last character, which is counted too.
      have hne : cs.drop (run (· == '.') cs) ≠ [] := by
        intro hnil
        rw [hnil] at hlast
        cases hlast
      have hlt := List.length_pos_iff.2 hne
      rw [List.length_drop] at hlt
      simp only [List.length_cons]
      omega
    · exact Nat.zero_le _
  · exact firstOf_le (by simp [hatLeast]) cs

theorem within_edgeBody {p : Char → Bool} (hp : Parts p) : Within p edgeBody := by
  intro a b hb
  have hruns : Within p (firstOf [atLeast 2 '-', atLeast 2 '=', atLeast 3 '~']) := by
    refine within_firstOf ?_
    simp only [List.forall_mem_cons]
    refine ⟨?_, ?_, ?_, nofun⟩ <;> exact within_atLeast _ fun e => hp.ne (by decide)
  -- Dots need a hyphen behind them, so the run of dots alone does not tell what the body is.
  by_cases hdots : ∃ cs, a = '-' :: '.' :: cs
  · obtain ⟨cs, rfl⟩ := hdots
    have hrun : run (· == '.') (cs ++ b) = run (· == '.') cs :=
      within_run (fun e he => beq_eq_false_iff_ne.2 (hp.ne (by decide) he)) cs b hb
    have hlast : ((cs ++ b).drop (run (· == '.') cs)).head? = some '-' ↔
        (cs.drop (run (· == '.') cs)).head? = some '-' := by
      rw [List.drop_append_of_le_length (run_le _ cs), List.head?_append]
      cases (cs.drop (run (· == '.') cs)).head? with
      | some c => rfl
      | none =>
        refine ⟨fun h => ?_, nofun⟩
        exact absurd rfl (hp.ne (e := '-') (by decide) (hb '-' h))
    simp only [List.cons_append, edgeBody, hrun, hlast]
  · have hdots' : ∀ cs, a ++ b ≠ '-' :: '.' :: cs := by
      rintro cs h
      match a with
      | [] =>
        have hmem : '-' ∈ b.head? := by
          rw [← b.nil_append, h]
          exact rfl
        exact absurd rfl (hp.ne (e := '-') (by decide) (hb '-' hmem))
      | [c] =>
        obtain rfl : b = '.' :: cs := (List.cons.inj h).2
        exact absurd rfl (hp.ne (e := '.') (by decide) (hb '.' rfl))
      | c :: d :: a => exact hdots ⟨a, by cases h; rfl⟩
    rw [edgeBody.eq_2 _ hdots', edgeBody.eq_2 _ fun cs h => hdots ⟨cs, h⟩, hruns a b hb]

theorem edge_le : Bounded edge := by
  have htail : Bounded edgeTail := by
    intro cs
    cases cs with
    | nil => exact Nat.le_refl 0
    | cons c cs =>
      rw [edgeTail, List.length_cons]
      split <;> omega
  have hbody : Bounded edgeFromBody := then_le edgeBody_le htail
  intro cs
  unfold edge
  split
  · next cs =>
    have h := hbody cs
    rw [List.length_cons]
    dsimp only
    split <;> omega
  · exact hbody cs

theorem within_edge {p : Char → Bool} (hp : Parts p) : Within p edge := by
  have hbody : Within p edgeFromBody :=
    within_then (within_edgeBody hp) edgeBody_le (within_edgeTail hp)
  intro a b hb
  by_cases hhead : ∃ cs, a = '<' :: cs
  · obtain ⟨cs, rfl⟩ := hhead
    rw [List.cons_append, edge, edge, hbody cs b hb]
  · have hhead' : ∀ cs, a ++ b ≠ '<' :: cs := by
      rintro cs h
      cases a with
      | nil =>
        have hmem : '<' ∈ b.head? := by
          rw [← b.nil_append, h]
          exact rfl
        exact absurd rfl (hp.ne (e := '<') (by decide) (hb '<' hmem))
      | cons c a => exact hhead ⟨a, by cases h; rfl⟩
    rw [edge.eq_2 _ hhead', edge.eq_2 _ fun cs h => hhead ⟨cs, h⟩, hbody a b hb]

/-! ### Class relations -/

theorem within_classRelation {p : Char → Bool} (hp : Parts p) (before : Option Char) :
    Within p (classRelation before) := by
  refine within_firstOf ?_
  simp only [List.forall_mem_cons]
  refine ⟨?_, ?_, ?_, ?_, ?_, ?_, ?circleBefore, ?circleBehind, ?_, ?_, ?_, ?_, ?_, ?_, nofun⟩
  case circleBefore =>
    intro a b hb
    have hliteral := hp.literal (s := ['o', '-', '-']) (by decide) a b hb
    simp only [hliteral]
  case circleBehind =>
    intro a b hb
    have hliteral := hp.literal (s := ['-', '-', 'o']) (by decide) a b hb
    simp only [hliteral]
    by_cases hlen : 3 ≤ a.length
    · rw [List.drop_append_of_le_length hlen, startsWord_append hp _ hb]
    · have hnone := literal_eq_zero_of_lt (s := ['-', '-', 'o']) (Nat.lt_of_not_le hlen)
      rw [hnone, ite_self, ite_self]
  all_goals exact hp.literal (by decide)

theorem classRelation_le (before : Option Char) : Bounded (classRelation before) := by
  refine firstOf_le ?_
  simp only [List.forall_mem_cons]
  refine ⟨?_, ?_, ?_, ?_, ?_, ?_, ?circleBefore, ?circleBehind, ?_, ?_, ?_, ?_, ?_, ?_, nofun⟩
  case circleBefore =>
    intro cs
    dsimp only
    split
    · exact Nat.zero_le _
    · exact literal_le _ cs
  case circleBehind =>
    intro cs
    dsimp only
    split
    · exact Nat.zero_le _
    · exact literal_le _ cs
  all_goals exact literal_le _

end DiagramText.Measure
