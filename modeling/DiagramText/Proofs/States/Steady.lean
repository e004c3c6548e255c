import Mathlib.Algebra.GroupWithZero.Nat
import DiagramText.Proofs.Reading.Steady
import DiagramText.States.Reader

/-!
# Why state diagrams are not read

Every statement takes a token. The text of a note may have many lines, each of which is part of the
row, so that all of them together have no more digits than the row.

* `States.steady_noteLines`: the lines of a note, with the digits that they have.
* `States.steady_read`: a state diagram is read, or its text is to blame.
-/

namespace DiagramText.States

open Reading

variable {x : Dialect} {ts : List Token}

/-! ### Statements -/

theorem takes_stateRef (d : Draft) : Takes x ts (stateRef d) fun _ => True :=
  .bind (takes_expect (by decide) _) fun _ _ => .pure trivial

theorem steady_description (d : Draft) (id : String) :
    Steady x ts (description d id) fun _ => True := by
  refine .bind (steady_accept (by decide)) fun t _ => ?_
  cases t with
  | none => exact .pure trivial
  | some t =>
    exact .bind (takes_expect (by decide) _).steady fun _ ht =>
      .bind (steady_content (Token.digitCount_text_le ht)) fun _ _ => .pure trivial

theorem steady_stateKind (d : Draft) (id : String) :
    Steady x ts (stateKind d id) fun _ => True := by
  refine .bind (steady_accept (by decide)) fun t _ => ?_
  cases t with
  | none => exact .pure trivial
  | some t =>
    refine .bind (takes_expect (by decide) _).steady fun token _ => ?_
    split
    · exact .unexpected _ _
    · exact .bind (takes_expect (by decide) _).steady fun _ _ => .pure trivial

/-- A label in quotes is part of its token, so it has no more digits than the tokens `ts`. -/
theorem steady_quotedLabel : Steady x ts quotedLabel fun text =>
    ∀ s ∈ text, Text.digitCount s.toList ≤ Token.digitCount ts := by
  refine .bind (steady_accept (by decide)) fun t ht => ?_
  cases t with
  | none => exact .pure nofun
  | some t =>
    refine .bind (takes_expectWord _).steady fun _ _ => .pure ?_
    rintro _ ⟨⟩
    exact Nat.le_trans (Text.digitCount_le_of_sublist (Text.unquote_sublist t.text))
      (Token.digitCount_text_le (ht t rfl))

theorem moves_declaration (d : Draft) : Moves x ts (declaration d) fun _ => True := by
  refine .bind moves_advance fun _ _ => .bind steady_quotedLabel fun quoted hquoted =>
    .bind (takes_stateRef d).steady fun (d, id) _ => ?_
  -- what follows the label
  have hrest : ∀ d : Draft, Steady x ts (do
      let d ← stateKind d id
      let d ← description d id
      let brace ← accept .leftBrace
      let d := if brace.isSome then d.openScope id else d
      endStatement
      return d) fun _ => True := fun d =>
    .bind (steady_stateKind d id) fun _ _ => .bind (steady_description _ id) fun _ _ =>
      .bind (steady_accept (by decide)) fun _ _ =>
        .bind steady_endStatement fun _ _ => .pure trivial
  cases quoted with
  | none => exact hrest d
  | some text => exact .bind (steady_content (hquoted text rfl)) fun _ _ => hrest _

theorem steady_transitionEnd (d : Draft) (pseudostate : String) :
    Steady x ts (transitionEnd d pseudostate) fun _ => True := by
  refine .bind (steady_accept (by decide)) fun t _ => ?_
  cases t with
  | none => exact (takes_stateRef d).steady
  | some t => exact .pure trivial

theorem moves_transitionEnd (d : Draft) (pseudostate : String) :
    Moves x ts (transitionEnd d pseudostate) fun _ => True :=
  .accept_bind (by decide) (fun _ _ => .pure trivial) (takes_stateRef d).moves

theorem steady_transitionLabel : Steady x ts transitionLabel fun _ => True :=
  steady_behindColon fun _ => steady_contentOf

theorem moves_transition (d : Draft) : Moves x ts (transition d) fun _ => True :=
  .look_bind fun _ => .bind (moves_transitionEnd d startId) fun (d, _) _ =>
    .bind (takes_expect (by decide) _).steady fun _ _ =>
      .bind (steady_transitionEnd d endId) fun (_, _) _ =>
        .bind steady_transitionLabel fun _ _ => .bind steady_endStatement fun _ _ => .pure trivial

theorem moves_plainState (d : Draft) : Moves x ts (plainState d) fun _ => True :=
  .bind (takes_stateRef d).moves fun (d, id) _ => .bind (steady_description d id) fun _ _ =>
    .bind steady_endStatement fun _ _ => .pure trivial

/-! ### Notes -/

/-- The number of digits in `lines`, which bounds the numbers in character references. -/
def lineDigits (lines : List String) : Nat := (lines.map fun l => Text.digitCount l.toList).sum

theorem digitCount_intercalate (lines : List String) :
    Text.digitCount ("\n".intercalate lines).toList = lineDigits lines := by
  have hbreak : Text.digitCount "\n".toList = 0 := by decide
  induction lines with
  | nil => rfl
  | cons line lines ih =>
    cases lines with
    | nil => simp [lineDigits]
    | cons next lines =>
      rw [String.intercalate_cons_cons, String.toList_append, String.toList_append,
        Text.digitCount_append, Text.digitCount_append, hbreak, ih]
      simp [lineDigits]

/-- The `lines` before a cursor `c` that, with what is ahead, have no more digits than the tokens
`ts`. This is what the loop over them keeps. -/
structure Gathered (ts : List Token) (n : Nat) (lines : List String) (c : Cursor) : Prop where
  below : c.Below ts n
  digits_le : lineDigits lines + Token.digitCount c.rest ≤ Token.digitCount ts

/-- One line of a note, up to its break, which is taken too. -/
def noteLine : Reading String := do
  let line ← restOfStatement
  endStatement
  return line

/-- A round of the loop over the `lines` of a note goes on behind a line, and to end the note is
another round. -/
theorem noteLine_bind (lines : List String) : (do
    let line ← restOfStatement
    endStatement
    return (.inl (lines ++ [line]) : List String ⊕ List String)) =
      noteLine >>= fun line => pure (.inl (lines ++ [line])) := by
  simp [noteLine]

theorem moves_noteLine : Moves x ts noteLine fun _ => True :=
  .bind_right steady_restOfStatement
    (fun _ _ => .bind moves_endStatement fun _ _ => .pure trivial)
    fun _ _ => .bind steady_endStatement fun _ _ => .pure trivial

/-- The digits of a line are no longer ahead behind it, so none is counted twice, and `m` bounds
them all. -/
theorem sound_noteLine (m : Nat) : Sound x ts (fun c => Token.digitCount c.rest ≤ m) noteLine
    fun line c => Text.digitCount line.toList + Token.digitCount c.rest ≤ m := by
  have hend : ∀ line : String, Sound x ts
      (fun c => Text.digitCount line.toList + Token.digitCount c.rest ≤ m)
      (do endStatement; return line)
      fun line c => Text.digitCount line.toList + Token.digitCount c.rest ≤ m := by
    intro line
    refine (sound_endStatement ?_).bind fun _ => .pure fun _ => id
    rintro ⟨past, rest, final⟩ hc
    cases rest with
    | nil => exact hc
    | cons t us =>
      have htail := Token.digitCount_le_of_sublist (List.sublist_cons_self t us)
      exact Nat.le_trans (Nat.add_le_add_left htail _) hc
  refine .bind ⟨fun c hc => ?_⟩ hend
  exact Nat.le_trans (digitCount_rawUntil_add_le c []) hc

/-- A line more is gathered, and fewer tokens `ts` are ahead, so the loop ends. -/
theorem Gathered.sound_noteLine {n : Nat} {lines : List String} {c : Cursor}
    (h : Gathered ts n lines c) (hne : c.rest ≠ []) :
    Sound x ts (· = c) noteLine fun line c' =>
      Gathered ts n (lines ++ [line]) c' ∧ c'.rest.length < c.rest.length := by
  have hmoves : Sound x ts (Cursor.Facing ts c.rest.length) noteLine _ := moves_noteLine _
  have hdigits : Sound x ts _ noteLine _ := States.sound_noteLine (Token.digitCount c.rest)
  refine ((hmoves.imp ?_ fun _ _ => id).and (hdigits.imp ?_ fun _ _ => id)).imp (fun _ => id) ?_
  · rintro _ rfl
    exact ⟨⟨h.below.suffix, Nat.lt_succ_self _, h.below.inner, h.below.final_kind⟩, hne⟩
  · rintro _ rfl
    exact Nat.le_refl _
  · rintro line c' ⟨⟨-, hbelow⟩, hle⟩
    refine ⟨⟨hbelow.mono (Nat.le_of_lt h.below.length_lt), ?_⟩, hbelow.length_lt⟩
    have hsum : lineDigits (lines ++ [line]) = lineDigits lines + Text.digitCount line.toList := by
      simp [lineDigits]
    have := h.digits_le
    omega

theorem steady_noteLines (keyword : Token) : Steady x ts (noteLines keyword) fun lines =>
    lineDigits lines ≤ Token.digitCount ts := by
  intro n
  have hloop : Sound x ts (Gathered ts n []) (noteLines keyword) (Gathered ts n) := by
    refine .loop (I := Gathered ts n) (fun lines c hc => ?_) []
    refine .look_bind fun _ => .look_bind fun _ => .ite (fun _ => ?_) fun _ => .look_bind fun b =>
      .ite (fun _ => .look_bind fun _ => .failAt _ _) fun hb => ?_
    · refine .pure ?_
      rintro c' ⟨⟨rfl, -⟩, -⟩
      exact hc
    · rw [noteLine_bind]
      by_cases hnil : c.rest = []
      · refine ⟨fun c' hc' => absurd ?_ hb⟩
        rw [← hc'.2, hc'.1.1.1]
        exact List.isEmpty_iff.2 hnil
      · refine .bind ((hc.sound_noteLine hnil).imp (fun c' hc' => hc'.1.1.1) fun _ _ => id)
          fun line => .pure fun c' hc' => hc'
  refine hloop.imp (fun c hc => ⟨hc, ?_⟩) fun lines c hc => ⟨?_, hc.below⟩
  · rw [lineDigits, List.map_nil, List.sum_nil, Nat.zero_add]
    exact Token.digitCount_le_of_sublist hc.suffix.sublist
  · exact Nat.le_trans (Nat.le_add_right _ _) hc.digits_le

theorem steady_noteText (keyword : Token) : Steady x ts (noteText keyword) fun text =>
    Text.digitCount text.toList ≤ Token.digitCount ts := by
  refine .bind (steady_accept (by decide)) fun t _ => ?_
  cases t with
  | some t =>
    exact .bind (takes_expect (by decide) _).steady fun _ ht =>
      .bind steady_endStatement fun _ _ => .pure (Token.digitCount_text_le ht)
  | none =>
    refine .bind steady_endStatement fun _ _ => .bind (steady_noteLines keyword) fun lines hlines =>
      .bind steady_advance fun _ _ => .bind steady_advance fun _ _ =>
        .bind steady_endStatement fun _ _ => .pure ?_
    rw [digitCount_intercalate]
    exact hlines

theorem moves_note (d : Draft) : Moves x ts (note d) fun _ => True :=
  .bind moves_advance fun keyword _ => .bind steady_advance fun _ _ =>
    .bind (takes_expectWord _).steady fun _ _ => .bind (takes_stateRef d).steady fun (_, _) _ =>
      .bind (steady_noteText keyword) fun _ htext => .bind (steady_content htext) fun _ _ =>
        .pure trivial

/-! ### The diagram -/

theorem moves_statement (d : Draft) : Moves x ts (statement d) fun _ => True := by
  refine .look_bind fun _ => .look_bind fun _ => .look_bind fun _ => .ite ?newline fun _ =>
    .ite ?close fun _ => .ite ?declaration fun _ => .ite ?note fun _ => .ite ?direction fun _ =>
      .ite ?region fun _ => .ite (fun _ => moves_transition d) fun _ =>
        .ite (fun _ => moves_plainState d) fun _ => .fail _
  case newline => exact fun _ => .bind moves_advance fun _ _ => .pure trivial
  case close =>
    exact fun _ => .ite (fun _ => .fail _) fun _ => .bind moves_advance fun _ _ =>
      .bind steady_endStatement fun _ _ => .pure trivial
  case declaration => exact fun _ => moves_declaration d
  case note => exact fun _ => moves_note d
  case direction =>
    exact fun _ => .bind moves_advance fun _ _ => .bind (steady_takeDirection _) fun _ _ =>
      .bind steady_endStatement fun _ _ => .pure trivial
  case region =>
    exact fun _ => .ite (fun _ => .fail _) fun _ => .bind moves_advance fun _ _ =>
      .bind steady_endStatement fun _ _ => .pure trivial

theorem steady_header : Steady x ts header fun _ => True := by
  refine .bind steady_skipNewlines fun _ _ =>
    .bind (takes_expect (by decide) _).steady fun t _ => ?_
  have hend : ∀ version : Version, Steady x ts (do
      endStatement
      return ({ version } : Draft)) fun _ => True := fun version =>
    .bind steady_endStatement fun _ _ => .pure trivial
  split
  · exact hend .v1
  · exact hend .v2
  · exact .bind (.unexpected (Q := fun _ => True) _ t) fun _ _ => hend _

/-- A state diagram is read, or its text is to blame: no loop of the reader stands still. -/
theorem steady_read : Steady x ts read fun _ => True := by
  refine .bind steady_header fun _ _ =>
    .bind (.untilEnd (I := fun _ => True) (fun d _ => moves_statement d) trivial) fun d _ => ?_
  split
  · exact .pure trivial
  · exact .bind (.look _) fun _ _ => .failAt _ _

end DiagramText.States
