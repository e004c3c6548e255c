import DiagramText.Text.Blank

/-!
# Blanks around and inside texts

* `Text.Trimmed.trim_eq` and `Text.Trimmed.of_trim_eq`: trimming leaves a text as it is if and only
  if it neither starts nor ends with a blank.
* `Text.exists_trim`: a text is blanks, the trimmed text, and blanks.
* `Text.Respaced`: two texts that differ only in how long their runs of spaces and tabs are.
-/

namespace DiagramText.Text

/-! ### Deciding along a text -/

section Decidable

variable (p : Char → Prop) [DecidablePred p]

-- with a priority over the instances that run over all characters there are

instance (priority := high) decidableForallMem (cs : List Char) : Decidable (∀ c ∈ cs, p c) :=
  List.decidableBAll p cs

instance (priority := high) decidableForallMemOption (o : Option Char) :
    Decidable (∀ c ∈ o, p c) :=
  Option.decidableForallMem o

end Decidable

/-! ### Trimming -/

/-- A text `cs` that neither starts nor ends with a blank. The empty text is trimmed. -/
structure Trimmed (cs : List Char) : Prop where
  head : ∀ c ∈ cs.head?, isBlank c = false
  last : ∀ c ∈ cs.getLast?, isBlank c = false

theorem dropWhile_eq_self {α : Type} {p : α → Bool} {cs : List α}
    (h : ∀ c ∈ cs.head?, p c = false) : cs.dropWhile p = cs := by
  cases cs with
  | nil => rfl
  | cons c cs => rw [List.dropWhile_cons_of_neg (by simp [h c rfl])]

/-- A text `a` that does not start with a blank, and a trimmed one behind it, are a trimmed text. -/
theorem Trimmed.append {a b cs : List Char} (ha : ∀ c ∈ a.head?, isBlank c = false)
    (hne : a ≠ []) (hcs : Trimmed cs) (hcs' : cs ≠ []) : Trimmed (a ++ b ++ cs) where
  head := by
    obtain ⟨c, a, rfl⟩ := List.exists_cons_of_ne_nil hne
    exact ha
  last := by
    intro c hc
    rw [List.getLast?_append, List.getLast?_eq_some_getLast hcs', Option.some_or] at hc
    exact hcs.last c (by rwa [List.getLast?_eq_some_getLast hcs'])

/-- The text `a ++ b` ends with no blank if its parts do not. One of them may be empty. -/
theorem last_append {a b : List Char} (ha : ∀ c ∈ a.getLast?, isBlank c = false)
    (hb : ∀ c ∈ b.getLast?, isBlank c = false) : ∀ c ∈ (a ++ b).getLast?, isBlank c = false := by
  intro c hc
  rw [List.getLast?_append] at hc
  rcases Option.or_eq_some_iff.1 hc with hc | ⟨-, hc⟩
  · exact hb c hc
  · exact ha c hc

theorem trimRight_eq_self {cs : List Char} (h : ∀ c ∈ cs.getLast?, isBlank c = false) :
    trimRight cs = cs := by
  rw [trimRight, dropWhile_eq_self (by simpa using h), List.reverse_reverse]

/-- A text that ends with no blank is kept by `trimRight`, whatever is trimmed behind it. -/
theorem trimRight_append {a : List Char} (ha : ∀ c ∈ a.getLast?, isBlank c = false)
    (b : List Char) : trimRight (a ++ b) = a ++ trimRight b := by
  have hstop : a.reverse.dropWhile isBlank = a.reverse := dropWhile_eq_self (by simpa using ha)
  rw [trimRight, List.reverse_append, List.dropWhile_append]
  split
  · next hall =>
    rw [List.isEmpty_iff] at hall
    rw [hstop, List.reverse_reverse, trimRight, hall, List.reverse_nil, List.append_nil]
  · rw [List.reverse_append, List.reverse_reverse]
    rfl

theorem Trimmed.trim_eq {cs : List Char} (h : Trimmed cs) : trim cs = cs := by
  rw [trim, trimLeft, dropWhile_eq_self h.head, trimRight_eq_self h.last]

/-- A text `cs` is the text without the blanks it ends with, and those blanks. -/
theorem exists_trimRight (cs : List Char) :
    ∃ b, cs = trimRight cs ++ b ∧ (∀ c ∈ b, isBlank c = true) ∧
      ∀ c ∈ (trimRight cs).getLast?, isBlank c = false := by
  refine ⟨(cs.reverse.takeWhile isBlank).reverse, ?_, ?_, ?_⟩
  · rw [trimRight, ← List.reverse_append, List.takeWhile_append_dropWhile, List.reverse_reverse]
  · intro c hc
    rw [List.mem_reverse] at hc
    exact List.all_eq_true.1 List.all_takeWhile c hc
  · intro c hc
    rw [trimRight, List.getLast?_reverse] at hc
    have := List.head?_dropWhile_not isBlank cs.reverse
    rw [Option.mem_def.1 hc] at this
    simpa using this

/-- A text is blanks, the trimmed text, and blanks, so `trim` only takes away what is around it. -/
theorem exists_trim (cs : List Char) :
    ∃ a b, cs = a ++ trim cs ++ b ∧ (∀ c ∈ a, isBlank c = true) ∧ (∀ c ∈ b, isBlank c = true) := by
  obtain ⟨b, hb, hblank, -⟩ := exists_trimRight (trimLeft cs)
  refine ⟨cs.takeWhile isBlank, b, ?_, fun c hc => List.all_eq_true.1 List.all_takeWhile c hc,
    hblank⟩
  rw [trim, List.append_assoc, ← hb, trimLeft, List.takeWhile_append_dropWhile]

/-- Blanks around a text `cs` do not matter to the trimmed text, however many there are. -/
theorem trim_append_blanks {b b' : List Char} (hb : ∀ c ∈ b, isBlank c = true)
    (hb' : ∀ c ∈ b', isBlank c = true) (cs : List Char) : trim (b ++ cs ++ b') = trim cs := by
  have hright : ∀ cs, trimRight (cs ++ b') = trimRight cs := by
    intro cs
    rw [trimRight, trimRight, List.reverse_append,
      List.dropWhile_append_of_pos fun c hc => hb' c (List.mem_reverse.1 hc)]
  have hleft : trimLeft (b ++ cs ++ b') = trimLeft (cs ++ b') := by
    rw [trimLeft, trimLeft, List.append_assoc, List.dropWhile_append_of_pos hb]
  rw [trim, trim, hleft]
  induction cs with
  | nil =>
    have hnil : trimLeft ([] ++ b') = [] := by
      rw [List.nil_append, trimLeft, ← List.append_nil b', List.dropWhile_append_of_pos hb',
        List.dropWhile_nil]
    rw [hnil]
    rfl
  | cons c cs ih =>
    by_cases hc : isBlank c = true
    · have hskip : ∀ r, trimLeft (c :: r) = trimLeft r := fun r => List.dropWhile_cons_of_pos hc
      rw [List.cons_append, hskip, hskip]
      exact ih (by rw [trimLeft, trimLeft, List.append_assoc, List.dropWhile_append_of_pos hb])
    · have hstay : ∀ r, trimLeft (c :: r) = c :: r := fun r => List.dropWhile_cons_of_neg hc
      rw [List.cons_append, hstay, hstay, ← List.cons_append, hright]

theorem trimmed_trim (cs : List Char) : Trimmed (trim cs) := by
  obtain ⟨b, hb, -, hlast⟩ := exists_trimRight (trimLeft cs)
  refine ⟨fun c hc => ?_, hlast⟩
  have hhead := List.head?_dropWhile_not isBlank cs
  rw [trim] at hc
  rw [← trimLeft, hb, List.head?_append, Option.mem_def.1 hc] at hhead
  simpa using hhead

theorem Trimmed.of_trim_eq {cs : List Char} (h : trim cs = cs) : Trimmed cs := h ▸ trimmed_trim cs

/-! ### Plain texts -/

/-- A text `cs` of which the only blanks are spaces and tabs, so that no line break is in it. -/
def Plain (cs : List Char) : Prop := ∀ c ∈ cs, isBlank c = true → isSpaceOrTab c = true

instance (cs : List Char) : Decidable (Plain cs) :=
  inferInstanceAs (Decidable (∀ c ∈ cs, isBlank c = true → isSpaceOrTab c = true))

theorem isBlank_of_isSpaceOrTab {c : Char} (h : isSpaceOrTab c = true) : isBlank c = true := by
  obtain rfl | rfl : c = ' ' ∨ c = '\t' := by simpa [isSpaceOrTab] using h
  · decide
  · decide

theorem isSpaceOrTab_of_not_isBlank {c : Char} (h : isBlank c = false) :
    isSpaceOrTab c = false := by
  cases hs : isSpaceOrTab c with
  | true => rw [isBlank_of_isSpaceOrTab hs] at h; exact h
  | false => rfl

namespace Plain

variable {cs ds : List Char}

theorem nil : Plain [] := nofun

theorem append : Plain (cs ++ ds) ↔ Plain cs ∧ Plain ds := List.forall_mem_append

theorem of_subset (h : Plain ds) (hsub : ∀ c ∈ cs, c ∈ ds) : Plain cs := fun c hc =>
  h c (hsub c hc)

theorem not_mem_lineFeed (h : Plain cs) : '\n' ∉ cs := fun hmem =>
  absurd (h '\n' hmem (by decide)) (by decide)

theorem isBlank_eq (h : Plain cs) {c : Char} (hc : c ∈ cs) : isBlank c = isSpaceOrTab c := by
  cases hb : isBlank c with
  | true => exact (h c hc hb).symm
  | false =>
    cases hs : isSpaceOrTab c with
    | true => rw [isBlank_of_isSpaceOrTab hs] at hb; cases hb
    | false => rfl

theorem of_isSpaceOrTab (h : ∀ c ∈ cs, isSpaceOrTab c = true) : Plain cs := fun c hc _ => h c hc

theorem of_not_isBlank (h : ∀ c ∈ cs, isBlank c = false) : Plain cs := by
  intro c hc hblank
  rw [h c hc] at hblank
  cases hblank

theorem space (h : Plain cs) : Plain (' ' :: cs) := List.forall_mem_cons.2 ⟨fun _ => rfl, h⟩

theorem intercalate {separator : String} (hseparator : Plain separator.toList) {ps : List String}
    (h : ∀ p ∈ ps, Plain p.toList) : Plain (separator.intercalate ps).toList := by
  induction ps with
  | nil => exact .nil
  | cons p ps ih =>
    obtain ⟨hp, h⟩ := List.forall_mem_cons.1 h
    cases ps with
    | nil =>
      rw [String.intercalate_singleton]
      exact hp
    | cons q ps =>
      rw [String.intercalate_cons_cons, String.toList_append, String.toList_append]
      exact append.2 ⟨append.2 ⟨hp, hseparator⟩, ih h⟩

end Plain

/-! ### Texts that are equal up to the length of gaps -/

/-- A text `w` without blanks is taken whole before a blank or the end, and what is left starts
there. -/
theorem takeWhile_word {w cs : List Char} (hw : ∀ c ∈ w, isBlank c = false)
    (hcs : ∀ c ∈ cs.head?, isBlank c = true) :
    (w ++ cs).takeWhile (!isBlank ·) = w ∧ (w ++ cs).dropWhile (!isBlank ·) = cs := by
  have hw' : ∀ c ∈ w, (!isBlank c) = true := fun c hc => by rw [hw c hc]; rfl
  rw [List.takeWhile_append_of_pos hw', List.dropWhile_append_of_pos hw']
  cases cs with
  | nil => simp
  | cons c cs => simp [hcs c rfl]

/-- A text `cs` that is empty or starts with a space or a tab. -/
def StartsBlank (cs : List Char) : Prop := ∀ c ∈ cs.head?, isSpaceOrTab c = true

theorem startsBlank_nil : StartsBlank [] := by simp [StartsBlank]

/-- A text `cs` is characters up to the first space or tab, and the rest, which is empty or starts
with it. -/
theorem exists_word (cs : List Char) :
    ∃ a b, cs = a ++ b ∧ (∀ c ∈ a, isSpaceOrTab c = false) ∧ StartsBlank b := by
  refine ⟨cs.takeWhile (!isSpaceOrTab ·), cs.dropWhile (!isSpaceOrTab ·),
    List.takeWhile_append_dropWhile.symm, fun c hc => ?_, fun c hc => ?_⟩
  · simpa using List.all_eq_true.1 List.all_takeWhile c hc
  · have := List.head?_dropWhile_not (!isSpaceOrTab ·) cs
    rw [Option.mem_def.1 hc] at this
    simpa using this

/-- The text `cs` is some spaces and tabs, of which there is at least one. -/
def Gap (cs : List Char) : Prop := cs ≠ [] ∧ ∀ c ∈ cs, isSpaceOrTab c = true

theorem gap_space : Gap [' '] := ⟨nofun, by decide⟩

/-- Texts that differ only in how long their runs of spaces and tabs are. A run never vanishes. -/
inductive Respaced : List Char → List Char → Prop
  | nil : Respaced [] []
  | cons {c : Char} {cs ds : List Char} (hc : isSpaceOrTab c = false) (h : Respaced cs ds) :
      Respaced (c :: cs) (c :: ds)
  | gap {b b' cs ds : List Char} (hb : Gap b) (hb' : Gap b') (h : Respaced cs ds) :
      Respaced (b ++ cs) (b' ++ ds)

namespace Respaced

variable {cs ds : List Char}

theorem append_left {w : List Char} (hw : ∀ c ∈ w, isSpaceOrTab c = false) (h : Respaced cs ds) :
    Respaced (w ++ cs) (w ++ ds) := by
  induction w with
  | nil => exact h
  | cons c w ih =>
    obtain ⟨hc, hw⟩ := List.forall_mem_cons.1 hw
    exact .cons hc (ih hw)

/-- Every text `cs` is as it is itself spaced. -/
theorem refl (cs : List Char) : Respaced cs cs := by
  induction cs with
  | nil => exact .nil
  | cons c cs ih =>
    by_cases hc : isSpaceOrTab c = true
    · have hgap : Gap [c] := ⟨by simp, by simpa using hc⟩
      exact .gap hgap hgap ih
    · exact .cons (by simpa using hc) ih

end Respaced

end DiagramText.Text
