import DiagramText.Position
import DiagramText.Proofs.Text.Lines

/-!
# Places in a text

The line of a place in a text is the number of line breaks before it, and its column is the distance
from the last of them, where a carriage return with a line feed behind it is one break.

* `Text.IsPlace`: a position is that of an index of a text which starts at a given line and offset.
* `Text.IsPlace.right` and `Text.IsPlace.down`: the positions behind more characters of the line and
  behind a line break.
* `Text.lines_cases`: the first line of a text and the lines behind it.
-/

namespace DiagramText.Text

/-! ### Line breaks before a place -/

/-- The number of line breaks in a text. A carriage return and the line feed behind it are one. -/
def lineBreaks : List Char → Nat
  | [] => 0
  | '\r' :: '\n' :: cs => lineBreaks cs + 1
  | c :: cs => (if isLineBreak c then 1 else 0) + lineBreaks cs

/-- The number of characters behind the last line break of a text `cs`, or of all characters without
one. -/
def column (cs : List Char) : Nat := (cs.reverse.takeWhile (!isLineBreak ·)).length

/-- The texts `a` and `b` share no line break: no carriage return is parted from its line feed. -/
def Apart (a b : List Char) : Prop := a.getLast? = some '\r' → b.head? ≠ some '\n'

theorem lineBreaks_cons {c : Char} {cs : List Char} (h : c = '\r' → cs.head? ≠ some '\n') :
    lineBreaks (c :: cs) = (if isLineBreak c then 1 else 0) + lineBreaks cs :=
  lineBreaks.eq_3 c cs fun ds hc hds => h hc (by rw [hds, List.head?_cons])

/-- The line breaks of `a ++ b` are those of the one and of the other if they share none, so they
add up. -/
theorem lineBreaks_append {a b : List Char} (h : Apart a b) :
    lineBreaks (a ++ b) = lineBreaks a + lineBreaks b := by
  -- The cases are those of `lineBreaks`. Only the seam matters, and it is at the end of the first
  -- text.
  induction a using lineBreaks.induct with
  | case1 => simp [lineBreaks]
  | case2 cs ih =>
    have htail : Apart cs b := by
      intro hlast
      refine h ?_
      rw [List.getLast?_cons_cons, List.getLast?_cons, hlast]
      rfl
    have hih := ih htail
    rw [List.cons_append, List.cons_append, lineBreaks, lineBreaks, hih]
    omega
  | case3 c cs hcs ih =>
    have htail : Apart cs b := by
      intro hlast
      refine h ?_
      rw [List.getLast?_cons, hlast]
      rfl
    have hseam : c = '\r' → (cs ++ b).head? ≠ some '\n' := by
      rintro rfl
      cases cs with
      | nil => exact h rfl
      | cons d ds =>
        intro hd
        obtain rfl : d = '\n' := by simpa using hd
        exact hcs ds rfl rfl
    have hseam' : c = '\r' → cs.head? ≠ some '\n' := by
      rintro rfl hd
      obtain ⟨ds, rfl⟩ := List.head?_eq_some_iff.1 hd
      exact hcs ds rfl rfl
    rw [List.cons_append, lineBreaks_cons hseam, lineBreaks_cons hseam', ih htail, Nat.add_assoc]

theorem lineBreaks_eq_zero {cs : List Char} (h : ∀ c ∈ cs, isLineBreak c = false) :
    lineBreaks cs = 0 := by
  induction cs with
  | nil => rfl
  | cons c cs ih =>
    obtain ⟨hc, hcs⟩ := List.forall_mem_cons.1 h
    have hcr : c ≠ '\r' := by
      rintro rfl
      cases hc
    rw [lineBreaks_cons fun hr => absurd hr hcr, hc, ih hcs]
    rfl

theorem column_append {cs : List Char} (h : ∀ c ∈ cs, isLineBreak c = false) (a : List Char) :
    column (a ++ cs) = column a + cs.length := by
  have hall : ∀ c ∈ cs.reverse, (!isLineBreak c) = true := fun c hc => by
    rw [h c (List.mem_reverse.1 hc)]
    rfl
  rw [column, List.reverse_append, List.takeWhile_append_of_pos hall, List.length_append,
    List.length_reverse, Nat.add_comm]
  rfl

/-- A character `c` that breaks no line of a document breaks no line of tokens, which fewer
characters break. -/
theorem isLineBreak_eq_false {c : Char} (h : isDocumentBreak c = false) :
    isLineBreak c = false := by
  cases hc : isLineBreak c with
  | false => rfl
  | true =>
    have hcases : c = '\n' ∨ c = '\r' := by simpa [isLineBreak] using hc
    rcases hcases with rfl | rfl <;> cases h

/-- The breaks that can end a line of tokens. -/
def terminators : List (List Char) := [['\n'], ['\r', '\n'], ['\r']]

/-- The break behind a line, if its only character is one of a line of tokens, is one of
`terminators`. -/
theorem mem_terminators {t rest : List Char} (h : t = ['\r', '\n'] ∨
    ∃ c, t = [c] ∧ isLineBreak c = true ∧ (c = '\r' → rest.head? ≠ some '\n')) :
    t ∈ terminators ∧ (t = ['\r'] → rest.head? ≠ some '\n') := by
  rcases h with rfl | ⟨c, rfl, hc, hseam⟩
  · exact ⟨by decide, fun h => absurd h (by decide)⟩
  · have hcases : c = '\n' ∨ c = '\r' := by simpa [isLineBreak] using hc
    refine ⟨?_, fun h => hseam (by simpa using h)⟩
    rcases hcases with rfl | rfl <;> decide

theorem lineBreaks_terminator {t : List Char} (h : t ∈ terminators) : lineBreaks t = 1 := by
  revert t
  decide

theorem column_append_terminator {t : List Char} (h : t ∈ terminators) (a : List Char) :
    column (a ++ t) = 0 := by
  have hlast : ∃ s c, t = s ++ [c] ∧ isLineBreak c = true := by
    simp only [terminators, List.mem_cons, List.not_mem_nil, or_false] at h
    rcases h with rfl | rfl | rfl
    · exact ⟨[], '\n', rfl, rfl⟩
    · exact ⟨['\r'], '\n', rfl, rfl⟩
    · exact ⟨[], '\r', rfl, rfl⟩
  obtain ⟨s, c, rfl, hc⟩ := hlast
  rw [column, ← List.append_assoc, List.reverse_append, List.reverse_singleton,
    List.singleton_append, List.takeWhile_cons_of_neg (by simp [hc])]
  rfl

/-! ### Places -/

/-- The position `p` is that of the index `i` of a text that starts at the given line and offset.
The index is at no place inside a line break. -/
structure IsPlace (text : List Char) (line offset : Int) (i : Nat) (p : Position) : Prop where
  le : i ≤ text.length
  apart : Apart (text.take i) (text.drop i)
  line_eq : p.line = line + lineBreaks (text.take i)
  column_eq : p.column = column (text.take i)
  offset_eq : p.offset = offset + i

namespace IsPlace

variable {text x rest : List Char} {line offset : Int} {i : Nat} {p : Position}

theorem start (text : List Char) (line offset : Int) :
    IsPlace text line offset 0 ⟨line, 0, offset⟩ where
  le := Nat.zero_le _
  apart := nofun
  line_eq := by simp [lineBreaks]
  column_eq := by simp [column]
  offset_eq := by simp

theorem take_add (hx : text.drop i = x ++ rest) : text.take (i + x.length) = text.take i ++ x := by
  rw [List.take_add, hx, List.take_left]

theorem drop_add (hx : text.drop i = x ++ rest) : text.drop (i + x.length) = rest := by
  rw [← List.drop_drop, hx, List.drop_left]

theorem add_le (h : i ≤ text.length) (hx : text.drop i = x ++ rest) :
    i + x.length ≤ text.length := by
  have hlen := congrArg List.length hx
  rw [List.length_drop, List.length_append] at hlen
  omega

/-- Behind characters that break no line, the place `p` is on the same line, as many columns to the
right. -/
theorem right (h : IsPlace text line offset i p) (hx : text.drop i = x ++ rest)
    (hbreak : ∀ c ∈ x, isLineBreak c = false) :
    IsPlace text line offset (i + x.length) (p.right x.length) := by
  have htake := take_add hx
  have hdrop := drop_add hx
  -- a line break at the seam would have been one before the characters
  have hapart : Apart (text.take i) x := by
    intro hlast hhead
    have := hbreak '\n' (List.mem_of_head? hhead)
    cases this
  refine ⟨add_le h.le hx, ?_, ?_, ?_, ?_⟩
  · rw [htake, hdrop]
    intro hlast
    by_cases hne : x = []
    · subst hne
      rw [List.append_nil] at hlast
      have := h.apart hlast
      rwa [hx, List.nil_append] at this
    · rw [List.getLast?_append, List.getLast?_eq_some_getLast hne, Option.some_or] at hlast
      have := hbreak '\r' (by rw [← Option.some.inj hlast]; exact List.getLast_mem hne)
      cases this
  · rw [htake, lineBreaks_append hapart, lineBreaks_eq_zero hbreak]
    exact h.line_eq
  · rw [htake, column_append hbreak, ← h.column_eq]
    rfl
  · rw [Position.right, h.offset_eq, Int.natCast_add]
    exact Int.add_assoc _ _ _

/-- Behind a line break, the place is at the start of the next line, whichever of the `terminators`
it is. -/
theorem down (h : IsPlace text line offset i p) (hx : text.drop i = x ++ rest)
    (hbreak : x ∈ terminators) (hrest : x = ['\r'] → rest.head? ≠ some '\n') :
    IsPlace text line offset (i + x.length) (p.down x.length) := by
  have htake := take_add hx
  have hdrop := drop_add hx
  have hne : x ≠ [] := by
    rintro rfl
    exact absurd hbreak (by decide)
  have hapart : Apart (text.take i) x := by
    intro hlast hhead
    refine h.apart hlast ?_
    rw [hx, List.head?_append, hhead, Option.some_or]
  -- a lone carriage return is the only break that a line feed could join
  refine ⟨add_le h.le hx, ?_, ?_, ?_, ?_⟩
  · rw [htake, hdrop]
    intro hlast
    rw [List.getLast?_append, List.getLast?_eq_some_getLast hne, Option.some_or,
      ← List.getLast?_eq_some_getLast] at hlast
    refine hrest ?_
    simp only [terminators, List.mem_cons, List.not_mem_nil, or_false] at hbreak
    rcases hbreak with rfl | rfl | rfl
    · cases hlast
    · cases hlast
    · rfl
  · rw [htake, lineBreaks_append hapart, lineBreaks_terminator hbreak, Position.down, h.line_eq]
    push_cast
    omega
  · rw [htake, column_append_terminator hbreak]
    rfl
  · rw [Position.down, h.offset_eq, Int.natCast_add]
    exact Int.add_assoc _ _ _

end IsPlace

/-! ### The first line -/

/-- A text `cs` is a single line, or its first line and the lines of the rest, so it can be taken
apart line by line. -/
theorem lines_cases {breaks : Char → Bool} (cs : List Char) :
    (lines breaks cs = [⟨cs, []⟩] ∧ ∀ c ∈ cs, breaks c = false) ∨
      ∃ content t rest, cs = content ++ (t ++ rest) ∧
        lines breaks cs = ⟨content, t⟩ :: lines breaks rest ∧
        (∀ c ∈ content, breaks c = false) ∧ (t = ['\r', '\n'] ∨
          ∃ c, t = [c] ∧ breaks c = true ∧ (c = '\r' → rest.head? ≠ some '\n')) := by
  -- The cases are those of `lines`.
  induction cs using lines.induct breaks with
  | case1 => exact .inl ⟨rfl, List.forall_mem_nil _⟩
  | case2 cs ih =>
    exact .inr ⟨[], ['\r', '\n'], cs, rfl, lines_crlf cs, List.forall_mem_nil _, .inl rfl⟩
  | case3 c cs hcs hc ih =>
    have hseam : c = '\r' → cs.head? ≠ some '\n' := by
      rintro rfl hd
      obtain ⟨ds, rfl⟩ := List.head?_eq_some_iff.1 hd
      exact hcs ds rfl rfl
    refine .inr ⟨[], [c], cs, rfl, ?_, List.forall_mem_nil _, .inr ⟨c, rfl, hc, hseam⟩⟩
    rw [lines_cons hseam, if_pos hc]
  | case4 c cs hcs hc hnil ih =>
    rcases ih with ⟨h, -⟩ | ⟨_, _, _, -, h, -⟩
    · rw [hnil] at h
      cases h
    · rw [hnil] at h
      cases h
  | case5 c cs hcs hc l ls hls ih =>
    have hseam : c = '\r' → cs.head? ≠ some '\n' := by
      rintro rfl hd
      obtain ⟨ds, rfl⟩ := List.head?_eq_some_iff.1 hd
      exact hcs ds rfl rfl
    have hc' : breaks c = false := by simpa using hc
    rw [lines_cons hseam, if_neg hc, hls]
    rcases ih with ⟨h, hall⟩ | ⟨content, t, rest, rfl, h, hall, ht⟩
    · rw [hls] at h
      cases h
      exact .inl ⟨rfl, List.forall_mem_cons.2 ⟨hc', hall⟩⟩
    · rw [hls] at h
      cases h
      exact .inr ⟨c :: content, t, rest, rfl, rfl, List.forall_mem_cons.2 ⟨hc', hall⟩, ht⟩

end DiagramText.Text
