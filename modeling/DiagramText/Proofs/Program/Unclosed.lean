import DiagramText.Proofs.Program.Bodies
import DiagramText.Proofs.Document.Cut
import DiagramText.Proofs.Flowchart.Unclosed
import DiagramText.Proofs.Gantt.Reader
import DiagramText.Proofs.Program.Failures
import DiagramText.Proofs.Sequence.Unclosed
import DiagramText.Proofs.States.Integrity
import DiagramText.Proofs.States.Unclosed

/-!
# Documents that end inside a block

Where a segment ends inside a block, the error is at the end of the segment. It also says where the
innermost open block was opened: for all dialects but one this is where the statement starts that
opens it. A composite state is said to be opened where it was mentioned first instead, which may be
on an earlier line.

* `Segment.stop`: the position behind a segment.
* `Segment.opener?`: the statement that opened the innermost block that is open behind a segment.
* `Program.opening_of_unterminated`: where such an error is, and where it says the block was opened.
* `Program.opening_before_opener`: a state that is mentioned before its scope is opened.
-/

namespace DiagramText

open Text Reading

/-- A reading `x` of which only the result is changed, by `f`, fails as the reading itself does. -/
theorem Reading.error_of_map {α β : Type} {f : α → β} {x : Reading α} {c : Cursor} {e : Failure}
    (h : (f <$> x) c = .error e) : x c = .error e := by
  rw [map_apply, Except.bind_eq_error_iff] at h
  rcases h with h | ⟨_, _, h⟩
  · exact h
  · cases h

namespace Segment

variable {s : Segment}

/-- The position behind the last character of a segment `s`, as a position of the document. -/
def stop (s : Segment) : Position :=
  ⟨s.line + lineBreaks s.text.toList, column s.text.toList, s.offset + s.text.toList.length⟩

/-- The tokens where the statement starts that opened the innermost block still open behind a
segment `s`. A body is one statement with its opening line, so there it is the one that is not
read. -/
def opener? (s : Segment) : Option (List Token) :=
  let c := Cursor.ofTokens s.tokens
  match s.dialect with
  | .flowchart =>
    (Flowchart.brackets.unclosed (startsBehind Flowchart.header Flowchart.statement c)).head?
  | .sequence =>
    (Sequence.brackets.unclosed (startsBehind Sequence.start Sequence.statement c)).head?
  | .classes => unreadBehind? Classes.start Classes.statement c
  | .entities => unreadBehind? Entities.start Entities.statement c
  | .states => (States.brackets.unclosed (startsBehind States.header States.statement c)).head?
  | .gantt => none

/-- The first token of a state diagram that mentions the state with the id `id`. -/
def firstMention? (s : Segment) (id : String) : Option Token :=
  States.firstMention?
    (startsBehind States.header States.statement (Cursor.ofTokens s.tokens)) id

/-- The end of input is behind the last character of a segment `s`, which is where an unclosed block
is reported. -/
theorem start_final (s : Segment) : (Cursor.ofTokens s.tokens).final.start = s.stop := by
  have htiles := Token.tiles_pieces s.dialect s.text s.line s.offset
  obtain ⟨us, e, htokens, -, hend, -⟩ := htiles.last
  obtain ⟨i, _, _, _, hplace, _⟩ := htiles.slice e (by rw [htokens]; simp)
  -- it is placed behind all tokens, and those cover the whole text
  have hfinal : (Cursor.ofTokens s.tokens).final = e := by
    rw [tokens, htokens, Token.ofTokens_append]
  have hi : i = s.text.toList.length := by
    have hoffset := hplace.offset_eq
    omega
  rw [hfinal, stop, ← hi, ← hplace.offset_eq]
  have hline := hplace.line_eq
  have hcolumn := hplace.column_eq
  rw [hi, List.take_length] at hline hcolumn
  rw [← hline, ← hcolumn]

/-- Where a block is said to be opened that is open behind a segment: `us` are the tokens of its
statement, and `t` is the token it is said to be opened at. -/
structure OpenedAt (s : Segment) (us : List Token) (t : Token) : Prop where
  opener_eq : s.opener? = some us
  /-- Every block but the scope of a state is opened where its statement starts. -/
  start (h : s.dialect ≠ .states) : us.head? = some t
  /-- The body of a class or entity is opened on the first line, and not closed. -/
  body (h : s.dialect = .classes ∨ s.dialect = .entities) : OpensBody us
  /-- The scope of a state is opened where the state is mentioned first. -/
  mention (h : s.dialect = .states) : ∃ u, States.declared? us = some u ∧
    s.firstMention? u.text = some t

theorem OpenedAt.of_ne_states {t : Token} {us : List Token} (h : s.dialect ≠ .states)
    (hopener : s.opener? = some (t :: us))
    (hbody : s.dialect = .classes ∨ s.dialect = .entities → OpensBody (t :: us)) :
    s.OpenedAt (t :: us) t :=
  ⟨hopener, fun _ => rfl, hbody, fun hstates => absurd hstates h⟩

/-- A segment `s` that is not read because of a block other than a note ends inside it, and the
error says so. -/
theorem openedAt_of_unterminated {block : String} {openedAt position : Option Position}
    (h : s.read = .error (.malformed ⟨.unterminated block openedAt, position⟩))
    (hnote : block ≠ "note") :
    position = some s.stop ∧ ∃ us t, s.OpenedAt us t ∧ openedAt = some t.start := by
  have hwithin : (Cursor.ofTokens s.tokens).Within s.row := s.below_tokens
  have hread := Except.map_eq_error_iff.1 h
  rw [← s.start_final]
  obtain ⟨dialect, text, line, offset⟩ := s
  cases dialect with
  | flowchart =>
    obtain ⟨hposition, t, us, hhead, hopened⟩ :=
      Flowchart.openedAt_of_unterminated hwithin (error_of_map hread)
    exact ⟨hposition, t :: us, t, .of_ne_states nofun hhead nofun, hopened⟩
  | sequence =>
    obtain ⟨hposition, t, us, hhead, hopened⟩ :=
      Sequence.openedAt_of_unterminated hwithin (error_of_map hread)
    exact ⟨hposition, t :: us, t, .of_ne_states nofun hhead nofun, hopened⟩
  | classes =>
    obtain ⟨hposition, t, us, hunread, hopened, hbody⟩ :=
      Classes.openedAt_of_unterminated hwithin (error_of_map hread)
    exact ⟨hposition, t :: us, t, .of_ne_states nofun hunread fun _ => hbody, hopened⟩
  | entities =>
    obtain ⟨hposition, t, us, hunread, hopened, hbody⟩ :=
      Entities.openedAt_of_unterminated hwithin (error_of_map hread)
    exact ⟨hposition, t :: us, t, .of_ne_states nofun hunread fun _ => hbody, hopened⟩
  | states =>
    obtain ⟨hposition, us, u, t, hhead, hu, hfirst, hopened⟩ :=
      States.openedAt_of_unterminated hwithin (States.isPseudostate_of_mem_row rfl) hnote
        (error_of_map hread)
    exact ⟨hposition, us, t, ⟨hhead, fun h => absurd rfl h, nofun, fun _ => ⟨u, hu, hfirst⟩⟩,
      hopened⟩
  | gantt =>
    -- a Gantt chart has no blocks
    have hclosed : Closed Gantt.read _ := Gantt.located_read
    exact (hclosed.of_unterminated (error_of_map hread)).elim

end Segment

namespace Program

/-- Where a text `src` ends inside a block that is no note, the error is at the end of a segment. It
says that the innermost open block was opened where its statement starts, and of the scope of a
state that it was opened where the state was mentioned first. -/
theorem opening_of_unterminated {src block : String} {openedAt position : Option Position}
    (h : read src = .error (.malformed ⟨.unterminated block openedAt, position⟩))
    (hnote : block ≠ "note") : ∃ segments, Document.segments src = .ok segments ∧
      ∃ s ∈ segments, s.read = .error (.malformed ⟨.unterminated block openedAt, position⟩) ∧
        position = some s.stop ∧ ∃ us t, s.OpenedAt us t ∧ openedAt = some t.start := by
  rw [read] at h
  cases hsegs : Document.segments src with
  | error e =>
    rw [hsegs] at h
    cases h
    rcases Document.cause_of_segmentsFrom hsegs with hcause | ⟨_, hcause⟩ <;> cases hcause
  | ok segments =>
    rw [hsegs] at h
    obtain ⟨s, hs, hread⟩ := Except.exists_of_mapM_eq_error (Except.map_eq_error_iff.1 h)
    exact ⟨segments, rfl, s, hs, hread, s.openedAt_of_unterminated hread hnote⟩

/-- A loop is left open in the second diagram. The block inside it is closed. -/
theorem opening_of_unterminated_loop :
    let src := "flowchart LR\nA\n\nsequenceDiagram\nloop x\nalt y\nA->>B: m\nend\n"
    let e : ReadError := ⟨.unterminated "loop" (some ⟨5, 0, 32⟩), some ⟨9, 0, 58⟩⟩
    read src = .error (.malformed e) ∧ ∃ segments, Document.segments src = .ok segments ∧
      ∃ s ∈ segments, s.read = .error (.malformed e) ∧ e.position = some s.stop ∧
        ∃ us t, s.OpenedAt us t ∧ some ⟨5, 0, 32⟩ = some t.start := by
  intro src e
  have hread : read src = .error (.malformed e) := by decide +kernel
  exact ⟨hread, opening_of_unterminated hread (by decide)⟩

/-- The scope of a state is opened on the third line, and is said to be opened on the second, which
is where the state is mentioned first. -/
theorem opening_before_opener :
    let src := "stateDiagram-v2\nA --> B\nstate A \x7b\n  c\n"
    read src = .error (.malformed ⟨.unterminated "state" (some ⟨2, 0, 16⟩), some ⟨5, 0, 38⟩⟩) ∧
      ¬∀ (p q : Position), read src = .error (.malformed ⟨.unterminated "state" (some p), some q⟩) →
        ∃ segments, Document.segments src = .ok segments ∧
          ∃ s ∈ segments, ∃ t us, s.opener? = some (t :: us) ∧ p.line = t.start.line := by
  intro src
  have hread : read src =
      .error (.malformed ⟨.unterminated "state" (some ⟨2, 0, 16⟩), some ⟨5, 0, 38⟩⟩) := by
    decide +kernel
  let s : Segment := ⟨.states, src, 1, 0⟩
  have hsegments : Document.segments src = .ok [s] := by decide +kernel
  have hopener : s.opener?.bind (·.head?.map Token.start) = some ⟨3, 0, 24⟩ := by decide +kernel
  refine ⟨hread, fun h => ?_⟩
  obtain ⟨segments, hsegments', s', hs', t, us, hopener', hline⟩ := h _ _ hread
  rw [hsegments] at hsegments'
  cases hsegments'
  obtain rfl := List.mem_singleton.1 hs'
  rw [hopener'] at hopener
  have hstart : t.start = ⟨3, 0, 24⟩ := Option.some.inj hopener
  rw [hstart] at hline
  exact absurd hline (by decide)

end Program
end DiagramText
