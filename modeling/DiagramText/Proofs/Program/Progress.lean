import DiagramText.Proofs.Program.Failures
import DiagramText.Proofs.Reading.Progress
import DiagramText.Proofs.States.Alike
import DiagramText.Proofs.Token.Tile

/-!
# Programs are read without a stall

A text is scanned step by step, each of which starts where the one before it has left off: at a line
break, which it takes, or inside a line, of which it takes the next pieces. Nothing in this keeps a
scan from standing still; that every step takes at least one character is proved.

* `Piece.step_moves`: what a step takes is a part of the text that is not empty.
* `Piece.Scans`: the steps of a scan up to the end of the text.
* `Piece.Scans.length_le`: a scan has no more steps than its text has characters.
* `Piece.exists_scans_ofText`: the pieces of a text are those of the steps that scan it.

A document is read by loops, too. Each round of a loop of a reader takes a token or is the last one,
whatever the tokens are: a stray brace or an early end of input makes a round fail, and only line
breaks make it skip what it takes.

* `Dialect.HasLoop`: the loops of the reader of each dialect, with their rounds.
* `Dialect.HasLoop.advances`: all their rounds move on.
* `Program.nothing_stalls`: scans and readers come to their ends, and nothing stalls.
-/

namespace DiagramText.Piece

open Text

variable {d : Dialect} {context : Context} {cs text : List Char}

/-! ### One step -/

/-- The line break at the start of a text, if there is one, which may be two characters. -/
def breakAt : List Char → List Char
  | '\r' :: '\n' :: _ => ['\r', '\n']
  | cs => cs.take 1

/-- A step at the rest `cs` of a text: the line break that it starts with, or the next pieces of its
first line, and what the step after it knows. -/
def step (d : Dialect) (context : Context) (cs : List Char) : List Piece × Context :=
  let line := cs.takeWhile (!isLineBreak ·)
  if line.isEmpty then ([lexeme .newline (breakAt cs)], {})
  else (next d context line, (next d context line).foldl Context.push context)

/-- The characters `cs` that a step takes, of all its pieces together. -/
def taken (d : Dialect) (context : Context) (cs : List Char) : List Char :=
  (step d context cs).1.flatMap chars

theorem breakAt_append {t rest : List Char} (h : EndsBefore t rest) : breakAt (t ++ rest) = t := by
  rcases @EndsBefore.cases isLineBreak rfl rfl _ _ h with rfl | ⟨c, rfl, -, hseam⟩
  · rfl
  · unfold breakAt
    split
    · next ds heq =>
      obtain ⟨rfl, rfl⟩ : c = '\r' ∧ rest = '\n' :: ds := by simpa using heq
      exact absurd rfl (hseam rfl)
    · rfl

theorem breakAt_prefix (cs : List Char) : breakAt cs <+: cs := by
  unfold breakAt
  split
  · next ds => exact List.prefix_append ['\r', '\n'] ds
  · exact List.take_prefix 1 cs

theorem breakAt_ne_nil (hne : cs ≠ []) : breakAt cs ≠ [] := by
  unfold breakAt
  split
  · exact List.cons_ne_nil _ _
  · rw [Ne, List.take_eq_nil_iff, not_or]
    exact ⟨Nat.one_ne_zero, hne⟩

/-- Inside a line a step takes the next pieces of the line, whatever `tail` comes behind the
line. -/
theorem step_line {tail : List Char} (hne : cs ≠ []) (hcs : ∀ c ∈ cs, isLineBreak c = false)
    (htail : tail.takeWhile (!isLineBreak ·) = []) : step d context (cs ++ tail) =
      (next d context cs, (next d context cs).foldl Context.push context) := by
  have hline : (cs ++ tail).takeWhile (!isLineBreak ·) = cs := by
    rw [List.takeWhile_append_of_pos fun c hc => by rw [hcs c hc]; rfl, htail, List.append_nil]
  rw [step, hline]
  exact if_neg (by simpa using hne)

/-- A step moves forward, and not past the end of the text `cs`, whatever is known of what came
before. -/
theorem step_moves (d : Dialect) (context : Context) (hne : cs ≠ []) :
    taken d context cs ≠ [] ∧ taken d context cs <+: cs := by
  simp only [taken, step]
  split
  · simp only [List.flatMap_singleton, chars]
    exact ⟨breakAt_ne_nil hne, breakAt_prefix cs⟩
  · next hline =>
    rw [List.isEmpty_iff] at hline
    obtain ⟨⟨rest, hrest⟩, hstep, -⟩ := heads_next d context hline
    have hfirst : (next d context (cs.takeWhile (!isLineBreak ·))).flatMap chars <+:
        cs.takeWhile (!isLineBreak ·) := ⟨rest, hrest.symm⟩
    exact ⟨hstep, hfirst.trans (List.takeWhile_prefix _)⟩

/-! ### All steps of a scan -/

/-- Steps that follow each other up to the end of the text, each with what is known behind the step
before. -/
inductive Scans (d : Dialect) : Context → List Char → List (List Piece) → Prop
  | done {context : Context} : Scans d context [] []
  | step {context : Context} {cs : List Char} {steps : List (List Piece)} (hne : cs ≠ [])
      (h : Scans d (step d context cs).2 (cs.drop (taken d context cs).length) steps) :
      Scans d context cs ((step d context cs).1 :: steps)

namespace Scans

variable {steps : List (List Piece)}

/-- Each step takes a character, so there are no more of them than there are characters in the text
`cs`. -/
theorem length_le (h : Scans d context cs steps) : steps.length ≤ cs.length := by
  induction h with
  | done => exact Nat.le_refl 0
  | @step context cs steps hne h ih =>
    have hpos := List.length_pos_iff.2 (step_moves d context hne).1
    have hlen := List.length_pos_iff.2 hne
    rw [List.length_drop] at ih
    rw [List.length_cons]
    omega

/-- The rest `cs` of a line is scanned by the steps that cut it, and then what is behind the line.
The steps make the pieces that the line has on its own. -/
theorem ofRest {tail : List Char} (htail : tail.takeWhile (!isLineBreak ·) = [])
    (h : ∀ context, Scans d context tail steps) (context : Context) (cs : List Char)
    (hcs : ∀ c ∈ cs, isLineBreak c = false) : ∃ lineSteps,
      lineSteps.flatten = Piece.ofRest d context cs ∧
        Scans d context (cs ++ tail) (lineSteps ++ steps) := by
  induction hlen : cs.length using Nat.strongRecOn generalizing cs context with
  | _ len ih =>
    by_cases hne : cs = []
    · obtain rfl := hne
      exact ⟨[], by rw [Piece.ofRest]; rfl, h context⟩
    obtain ⟨⟨rest, hrest⟩, hstep, -⟩ := heads_next d context hne
    have hfirst : Piece.step d context (cs ++ tail) =
        (next d context cs, (next d context cs).foldl Context.push context) :=
      step_line hne hcs htail
    have hlt : rest.length < len := by
      have hcount := congrArg List.length hrest
      have hpos := List.length_pos_iff.2 hstep
      rw [List.length_append] at hcount
      omega
    have hbreak : ∀ c ∈ rest, isLineBreak c = false := fun c hc =>
      hcs c (by rw [hrest]; exact List.mem_append_right _ hc)
    -- what is left of the line is shorter, whatever the step knows then
    obtain ⟨lineSteps, hpieces, hscans⟩ := ih rest.length hlt
      ((next d context cs).foldl Context.push context) rest hbreak rfl
    refine ⟨next d context cs :: lineSteps, ?_, ?_⟩
    · rw [ofRest_eq_append hne hrest, List.flatten_cons, hpieces]
    · have hdrop : (cs ++ tail).drop (taken d context (cs ++ tail)).length = rest ++ tail := by
        rw [taken, hfirst]
        conv => lhs; arg 2; rw [hrest, List.append_assoc]
        exact List.drop_left
      have hall : Scans d context (cs ++ tail)
          ((Piece.step d context (cs ++ tail)).1 :: (lineSteps ++ steps)) :=
        .step (by simp [hne]) (by rw [hdrop, hfirst]; exact hscans)
      rw [hfirst] at hall
      exact hall

/-- A line break `t` is scanned by one step, behind which nothing is known of the line before. -/
theorem newline {t rest : List Char} (ht : EndsBefore t rest) (h : Scans d {} rest steps)
    (context : Context) :
    (t ++ rest).takeWhile (!isLineBreak ·) = [] ∧
      Scans d context (t ++ rest) ([lexeme .newline t] :: steps) := by
  have hline : (t ++ rest).takeWhile (!isLineBreak ·) = [] := by
    rcases @EndsBefore.cases isLineBreak rfl rfl _ _ ht with rfl | ⟨c, rfl, hc, -⟩
    · rfl
    · exact List.takeWhile_cons_of_neg (by simp [hc])
  have hstep : Piece.step d context (t ++ rest) = ([lexeme .newline t], {}) := by
    rw [Piece.step, hline, breakAt_append ht]
    rfl
  have hne : t ++ rest ≠ [] := List.append_ne_nil_of_left_ne_nil ht.ne_nil rest
  have hdrop : (t ++ rest).drop (taken d context (t ++ rest)).length = rest := by
    rw [taken, hstep, List.flatMap_singleton, chars, List.drop_left]
  have hall : Scans d context (t ++ rest) ((Piece.step d context (t ++ rest)).1 :: steps) :=
    .step hne (by rw [hdrop, hstep]; exact h)
  rw [hstep] at hall
  exact ⟨hline, hall⟩

end Scans

/-- The pieces of a `text` are those of the steps that scan it, in their order. -/
theorem exists_scans_ofText (d : Dialect) (text : List Char) :
    ∃ steps, Scans d {} text steps ∧ steps.flatten = ofText d text := by
  induction text using inductionOnLines with
  | last x hx =>
    obtain ⟨steps, hpieces, hscans⟩ := Scans.ofRest rfl (fun _ => .done) {} x hx
    rw [List.append_nil, List.append_nil] at hscans
    refine ⟨steps, hscans, ?_⟩
    rw [hpieces, ofText_of_onOneLine d hx]
    rfl
  | cons x t rest hx ht ih =>
    obtain ⟨restSteps, hrest, hrestPieces⟩ := ih
    have hnewline := Scans.newline ht hrest
    obtain ⟨steps, hpieces, hscans⟩ := Scans.ofRest (hnewline {}).1
      (fun context => (hnewline context).2) {} x hx
    refine ⟨steps ++ [lexeme .newline t] :: restSteps, hscans, ?_⟩
    rw [List.flatten_append, List.flatten_cons, hpieces, hrestPieces, ofText_break d hx ht]
    rfl

end DiagramText.Piece

namespace DiagramText

open Reading

/-- What the reader of a dialect reads with a loop, the rounds of the loop, and where it starts. All
loops of the readers are listed. -/
inductive Dialect.HasLoop :
    Dialect → {σ α : Type} → Reading α → (σ → Reading (σ ⊕ α)) → σ → Prop
  | flowchart (d : Flowchart.Draft) : HasLoop .flowchart (untilEnd Flowchart.statement d)
      (statementRound Flowchart.statement) d
  | references (refs : List Flowchart.Reference) : HasLoop .flowchart
      (Flowchart.moreReferences refs) Flowchart.referenceRound refs
  | links : HasLoop .flowchart Flowchart.links Flowchart.linkRound []
  | nodeIds (ids : List String) : HasLoop .flowchart (Flowchart.moreNodeIds ids)
      Flowchart.nodeIdRound ids
  | sequence (d : Sequence.Draft) : HasLoop .sequence (untilEnd Sequence.statement d)
      (statementRound Sequence.statement) d
  | participants (kind : Sequence.ParticipantKind) : HasLoop .sequence (Sequence.participants kind)
      (Sequence.participantRound kind) []
  | names (names : List String) : HasLoop .sequence (Sequence.moreNames names)
      Sequence.nameRound names
  | classes (d : ClassDiagram) : HasLoop .classes (untilEnd Classes.statement d)
      (statementRound Classes.statement) d
  | classBody (keyword : Token) (name : String) (d : ClassDiagram) : HasLoop .classes
      (Classes.body keyword name d) (bodyRound (Classes.bodyLine · name)
        (.unterminated "class" (some keyword.start))) d
  | entities (d : EntityDiagram) : HasLoop .entities (untilEnd Entities.statement d)
      (statementRound Entities.statement) d
  | entityBody (entity : Token) (d : EntityDiagram) : HasLoop .entities (Entities.body entity d)
      (bodyRound (Entities.bodyLine · entity.text) (.unterminated "entity" (some entity.start))) d
  | states (d : States.Draft) : HasLoop .states (untilEnd States.statement d)
      (statementRound States.statement) d
  | noteLines (keyword : Token) : HasLoop .states (States.noteLines keyword)
      (States.noteRound keyword) []
  | gantt (g : Gantt) : HasLoop .gantt (untilEnd Gantt.statement g)
      (statementRound Gantt.statement) g

variable {ts row : List Token}

/-! ### Notes -/

/-- A line of a note takes a token, and the other rounds are the last ones: the end of the note, or
a refusal. -/
theorem States.rounds_note {x : Dialect} (keyword : Token) (lines : List String) :
    Rounds x ts (noteRound keyword lines) (fun _ => True) fun _ => True := by
  intro n
  unfold noteRound
  refine .look_bind fun _ => .look_bind fun _ => .ite ?_ fun _ => .look_bind fun atEnd => .ite ?_ ?_
  · intro _
    exact .pure fun c hc => ⟨trivial, hc.1.1⟩
  · intro _
    exact .look_bind fun _ => .failAt _ _
  · intro hend
    rw [noteLine_bind]
    apply Sound.bind ((moves_noteLine n).imp ?_ fun _ _ => id)
    · intro line
      exact .pure fun c hc => hc
    · intro c hc
      refine ⟨hc.1.1.1, fun hnil => hend ?_⟩
      rw [← hc.2, Cursor.atEnd, hnil]
      rfl

/-! ### Statements of gantt charts -/

namespace Gantt

variable {n : Nat} (g : Gantt)

/-- A task takes a token, also where its dates are not read, since its name comes first. -/
theorem ensures_taskLine :
    Ensures (Cursor.Below ts (n + 1)) (taskLine g) fun _ c => c.Below ts n := by
  have hname : Steady .gantt ts (rawUntil [.colon]) _ := steady_rawUntil _
  have hcolon : Takes .gantt ts (expect .colon "':' after task name") (· ∈ ts) :=
    takes_expect (by decide) _
  unfold taskLine
  apply Ensures.look_bind
  intro first
  refine .bind (hname.passes (n + 1)) fun name => .ite (fun _ => .fail _) fun _ => ?_
  refine .bind (hcolon.passes n) fun _ => .bind (passes_expect (by decide) _) fun text => ?_
  apply Ensures.ite
  · intro _
    exact .failAt _ _
  · intro _
    exact .bind (ensures_lift _) fun t => .pure fun _ hc => hc

/-- A directive and the line of a section take the word that they start with, whatever `f` does with
the text behind it. -/
theorem ensures_keywordLine {f : Token → String → Reading Gantt}
    (h : ∀ t text, Ensures (Cursor.Below ts n) (f t text) fun _ c => c.Below ts n) :
    Ensures (Cursor.Facing ts n) (do let t ← advance; let text ← restOfStatement; f t text)
      fun _ c => c.Below ts n :=
  .bind ((moves_advance (d := .gantt)).passes n) fun t =>
    .bind ((steady_restOfStatement (d := .gantt)).passes n) fun text => h t text

theorem ensures_directiveLine :
    Ensures (Cursor.Facing ts n) (directiveLine g) fun _ c => c.Below ts n :=
  ensures_keywordLine fun _ _ => .ite (fun _ => .fail _) fun _ => .pure fun _ hc => hc

theorem ensures_sectionLine :
    Ensures (Cursor.Facing ts n) (sectionLine g) fun _ c => c.Below ts n :=
  ensures_keywordLine fun _ _ => .ite (fun _ => .fail _) fun _ => .pure fun _ hc => hc

/-- Whatever the chart `g` is that was read so far, the next statement takes a token or is
refused. -/
theorem ensures_statement :
    Ensures (Cursor.Facing ts n) (statement g) fun _ c => c.Below ts n := by
  have haccept : Ensures (Cursor.Facing ts n) (accept .newline) fun t c =>
      t.elim (c.Facing ts n) fun _ => c.Below ts n := by
    have hsound : Sound .gantt ts (Cursor.Facing ts n) (accept .newline >>= pure) fun t c =>
        t.elim (c.Facing ts n) fun _ => c.Below ts n :=
      .accept_bind (by decide) (fun _ hc => hc.1) (fun _ _ => .pure fun _ hc => hc)
        (.pure fun _ hc => hc.1)
    rw [bind_pure] at hsound
    exact hsound.ensures
  have hend : ∀ g : Gantt, Ensures (Cursor.Below ts n) (do endStatement; return g)
      fun _ c => c.Below ts n := fun g =>
    .bind passes_endStatement fun _ => .pure fun _ hc => hc
  unfold statement
  -- the tokens that are looked at before the statement stay ahead
  apply Ensures.look_bind
  intro token
  apply Ensures.look_bind
  intro second
  refine haccept.bind fun newline => ?_
  cases newline with
  | some _ => exact .pure fun _ hc => hc
  | none =>
    apply Ensures.ite
    · intro h
      exact absurd h (by decide)
    intro _
    apply Ensures.ite
    · intro _
      exact (ensures_directiveLine g).bind hend
    intro _
    apply Ensures.ite
    · intro _
      exact (ensures_sectionLine g).bind hend
    · intro _
      exact .bind ((ensures_taskLine g).imp (fun _ hc => hc.1) fun _ _ => id) hend

end Gantt

/-! ### All loops -/

namespace Dialect.HasLoop

variable {d : Dialect} {σ α : Type} {x : Reading α} {round : σ → Reading (σ ⊕ α)} {s : σ}

theorem eq_loop (h : d.HasLoop x round s) : x = loop round s := by
  cases h <;> rfl

/-- Every round of every loop moves on, whatever the tokens `row` are and wherever it starts. -/
theorem advances (h : d.HasLoop x round s) (row : List Token) : Advances row round := by
  -- a loop over statements advances by what one statement takes, the others round by round
  cases h with
  | flowchart =>
    exact advances_statement fun ts n d => (Flowchart.moves_statement (x := .flowchart) d).passes n
  | references =>
    exact advances_of_rounds fun ts refs => Flowchart.rounds_reference (x := .flowchart) refs
  | links => exact advances_of_rounds fun ts links => Flowchart.rounds_link (x := .flowchart) links
  | nodeIds => exact advances_of_rounds fun ts ids => Flowchart.rounds_nodeId (x := .flowchart) ids
  | sequence =>
    exact advances_statement fun ts n d => (Sequence.moves_statement (x := .sequence) d).passes n
  | participants kind =>
    exact advances_of_rounds fun ts ps => Sequence.rounds_participant (x := .sequence) kind ps
  | names => exact advances_of_rounds fun ts names => Sequence.rounds_name (x := .sequence) names
  | classes =>
    exact advances_statement fun ts n d => (Classes.moves_statement (x := .classes) d).passes n
  | classBody keyword name =>
    exact advances_of_rounds fun ts d => rounds_body (d := .classes)
      (Classes.sound_bodyLine name d) _
  | entities =>
    exact advances_statement fun ts n d => (Entities.moves_statement (x := .entities) d).passes n
  | entityBody entity =>
    exact advances_of_rounds fun ts d => rounds_body (d := .entities)
      (Entities.sound_bodyLine entity.text d) _
  | states =>
    exact advances_statement fun ts n d => (States.moves_statement (x := .states) d).passes n
  | noteLines keyword =>
    exact advances_of_rounds fun ts lines => States.rounds_note (x := .states) keyword lines
  | gantt => exact advances_statement fun ts n g => Gantt.ensures_statement g

/-- Every loop comes to an end by its rounds alone, without the check that they take tokens
`row`. -/
theorem comesToEnd (h : d.HasLoop x round s) {c : Cursor} (hc : c.Within row) :
    ComesToEnd round s x c := by
  rw [h.eq_loop]
  exact (h.advances row).comesToEnd s hc

end Dialect.HasLoop

/-! ### Programs -/

namespace Program

/-- Nothing stalls. Each step of a scan moves forward in the text `src` and the steps come to its
end; each round of a loop that reads a segment takes a token or is the last one, and there are at
most as many rounds as tokens; and no document is read with the failure that stands for a stall. -/
theorem nothing_stalls (src : String) :
    (∀ (d : Dialect) (text : List Char),
      (∀ context cs, cs <:+ text → cs ≠ [] →
        Piece.taken d context cs ≠ [] ∧ Piece.taken d context cs <+: cs) ∧
      ∃ steps, Piece.Scans d {} text steps ∧ steps.flatten = Piece.ofText d text ∧
        steps.length ≤ text.length) ∧
    (∀ segs, Document.segments src = .ok segs → ∀ s ∈ segs,
      (Cursor.ofTokens s.tokens).Within s.row ∧
      ∀ {σ α : Type} (x : Reading α) (round : σ → Reading (σ ⊕ α)) (start : σ),
        s.dialect.HasLoop x round start →
          Advances s.row round ∧ ∀ c, c.Within s.row → ComesToEnd round start x c) ∧
    read src ≠ .error .stalled := by
  refine ⟨fun d text => ⟨fun context cs _ hne => Piece.step_moves d context hne, ?_⟩, ?_, ?_⟩
  · obtain ⟨steps, hscans, hpieces⟩ := Piece.exists_scans_ofText d text
    exact ⟨steps, hscans, hpieces, hscans.length_le⟩
  · intro segs hsegs s hs
    refine ⟨s.below_tokens, fun x round start hloop => ?_⟩
    exact ⟨hloop.advances s.row, fun c hc => hloop.comesToEnd hc⟩
  · exact fun hread => isDueTo_of_read hread

/-- A note that is never closed has a stray brace, an empty line and the sign of a region in it. The
rounds of both loops that read it move on, and the reading fails. -/
theorem nothing_stalls_note : ∃ s : Segment,
    Document.segments "stateDiagram\nA --> B\nnote left of A\n \x7d\n\n-- x\n" = .ok [s] ∧
      Piece.taken .states {} s.text.toList ≠ [] ∧
      (∀ keyword, Advances s.row (States.noteRound keyword)) ∧
      ComesToEnd (statementRound States.statement) { version := .v1 }
        (untilEnd States.statement { version := .v1 }) (Cursor.ofTokens s.tokens) ∧
      read "stateDiagram\nA --> B\nnote left of A\n \x7d\n\n-- x\n" =
        .error (.malformed ⟨.unterminated "note" (some ⟨3, 0, 21⟩), some ⟨7, 0, 45⟩⟩) := by
  let src := "stateDiagram\nA --> B\nnote left of A\n \x7d\n\n-- x\n"
  let s : Segment := ⟨.states, src, 1, 0⟩
  have hsegs : Document.segments src = .ok [s] := by decide +kernel
  have hread : read src =
      .error (.malformed ⟨.unterminated "note" (some ⟨3, 0, 21⟩), some ⟨7, 0, 45⟩⟩) := by
    decide +kernel
  have hne : s.text.toList ≠ [] := by decide
  obtain ⟨hscan, hloops, -⟩ := nothing_stalls src
  obtain ⟨hwithin, hloop⟩ := hloops [s] hsegs s (List.mem_singleton_self s)
  exact ⟨s, hsegs, ((hscan .states s.text.toList).1 {} _ (List.suffix_refl _) hne).1,
    fun keyword => (hloop _ _ _ (.noteLines keyword)).1,
    (hloop _ _ _ (.states { version := .v1 })).2 _ hwithin, hread⟩

end Program
end DiagramText
