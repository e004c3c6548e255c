import DiagramText.Proofs.Reading.Unclosed
import DiagramText.Proofs.Sequence.Located
import DiagramText.Proofs.Sequence.Nesting
import DiagramText.Proofs.Sequence.Steady

/-!
# Blocks that are left open in sequence diagrams

A block spans lines, and so does each of its branches. An open block keeps the position of its
keyword, whatever branch of it is read.

* `Sequence.brackets`: the lines that open and close blocks.
* `Sequence.ensures_statement_openings`: what one line opens and closes.
* `Sequence.openedAt_of_unterminated`: where the innermost block is said to be opened.
-/

namespace DiagramText.Sequence

open Reading

/-- Whether a line starts with one of the `words`, as a keyword: no arrow follows it. -/
def isKeyword (words : List String) : List Token → Bool
  | t :: us => t.isWord words && us.head?.all (·.kind != .arrow)
  | [] => false

/-- A block is opened by the keyword of its kind, and closed by `end`. -/
def brackets : Brackets where
  opens := isKeyword (BlockKind.all.map BlockKind.text)
  closes := isKeyword ["end"]

variable {d : Draft} {t : Token} {us : List Token}

/-- No line starts with two keywords: the word is one, and the two lists share none. -/
theorem isKeyword_eq_false {words words' : List String} {ts : List Token}
    (h : isKeyword words ts = true) (hwords : ∀ w ∈ words, w ∉ words') :
    isKeyword words' ts = false := by
  cases ts with
  | nil => rfl
  | cons t us =>
    have hmem : Text.lower t.text ∈ words := by
      have hword := (Bool.and_eq_true_iff.1 h).1
      rw [Token.isWord, Bool.and_eq_true, List.contains_iff_mem] at hword
      exact hword.2
    have hnot : words'.contains (Text.lower t.text) = false := by
      rw [← Bool.not_eq_true, List.contains_iff_mem]
      exact hwords _ hmem
    rw [isKeyword, Token.isWord, hnot, Bool.and_false, Bool.false_and]

/-! ### Drafts -/

namespace Draft

/-- Where the open blocks were opened, the innermost first. This is what `brackets` counts. -/
def openings (d : Draft) : List (Option Position) := d.opened.map (·.head.position)

theorem openings_extend (d : Draft) (ss : List Statement) :
    (d.extend ss).openings = d.openings := by
  obtain ⟨statements, autonumber, participants, opened⟩ := d
  cases opened with
  | nil => rfl
  | cons b outer =>
    have hhead : (b.extend ss).head = b.head := by
      unfold OpenBlock.extend
      split <;> rfl
    show (b.extend ss).head.position :: _ = _
    rw [hhead]
    rfl

theorem openings_add (d : Draft) (cs : List Clause) : (d.add cs).openings = d.openings := by
  unfold add
  rw [openings_extend]
  rfl

theorem openings_branch (d : Draft) (label : Option String) :
    (d.branch label).openings = d.openings := by
  obtain ⟨statements, autonumber, participants, opened⟩ := d
  cases opened <;> rfl

theorem openings_closeBlock (d : Draft) : d.closeBlock.openings = d.openings.tail := by
  obtain ⟨statements, autonumber, participants, opened⟩ := d
  cases opened with
  | nil => rfl
  | cons b outer =>
    unfold closeBlock
    dsimp only
    rw [openings_extend]
    rfl

end Draft

/-! ### Lines -/

theorem ensures_checkKeyword_behind (words : List String) :
    Ensures (Cursor.Behind (t :: us) []) (checkKeyword words)
      fun b c => b = isKeyword words (t :: us) ∧ c.Behind (t :: us) [] := by
  rintro ⟨past, rest, final⟩ b c' ⟨hrest, hfinal⟩ hx
  obtain rfl : rest = t :: us := hrest.symm
  cases hx
  refine ⟨?_, rfl, hfinal⟩
  cases us with
  | nil =>
    show (t.isWord words && final.kind != .arrow) = _
    rw [show final.kind = _ from hfinal]
    rfl
  | cons u ws => rfl

/-- A line opens a block of some kind if it starts with the keyword of one, and `blockKind?` sees
which it is. -/
theorem ensures_blockKind_behind : Ensures (Cursor.Behind (t :: us) []) blockKind? fun kind c =>
    kind.isSome = brackets.opens (t :: us) ∧ c.Behind (t :: us) [] := by
  refine .bind_and (ensures_checkKeyword_behind _) fun b hb => .ite (fun h => ?_) fun h => ?_
  · refine .bind_and ensures_peek_behind fun token htoken => .pure fun c hc => ⟨?_, hc⟩
    obtain rfl := htoken
    rw [hb] at h
    have hmem : Text.lower token.text ∈ BlockKind.all.map BlockKind.text := by
      have hword := (Bool.and_eq_true_iff.1 h).1
      rw [Token.isWord, Bool.and_eq_true, List.contains_iff_mem] at hword
      exact hword.2
    obtain ⟨kind, -, hkind⟩ := List.mem_map.1 hmem
    show _ = isKeyword (BlockKind.all.map BlockKind.text) (token :: us)
    rw [h, ← hkind]
    cases kind <;> rfl
  · refine .pure fun c hc => ⟨?_, hc⟩
    rw [hb, Bool.not_eq_true] at h
    exact h.symm

theorem ensures_blockHead_position (kind : BlockKind) :
    Ensures (Cursor.Behind (t :: us) []) (blockHead kind) fun b _ => b.position = some t.start := by
  refine .bind_and (ensures_advance_behind []) fun keyword hkeyword => ?_
  refine .bind .unknown fun label => .bind .unknown fun _ => .pure fun _ _ => ?_
  rw [hkeyword]

/-- What is neither a block nor part of one is read inside the innermost block of `d`, and opens or
closes none. -/
theorem ensures_line_openings {P : Cursor → Prop} (d : Draft) :
    Ensures P (line d) fun e _ => e.openings = d.openings := by
  have hadd : ∀ {x : Reading Clause}, Ensures (fun _ => True) (do return d.add [← x])
      fun e _ => e.openings = d.openings := fun {_} =>
    .bind .unknown fun _ => .pure fun _ _ => Draft.openings_add d _
  refine .bind .unknown fun _ => .bind .unknown fun second => .bind .unknown fun _ =>
    .ite (fun _ => ?_) fun _ => .bind .unknown fun _ => .ite (fun _ => ?_) fun _ =>
      .bind .unknown fun _ => .ite (fun _ => hadd) fun _ => .bind .unknown fun _ =>
        .ite (fun _ => hadd) fun _ => hadd
  · exact .bind .unknown fun cs => .pure fun _ _ => Draft.openings_add d cs
  · exact .bind .unknown fun _ => .bind .unknown fun _ => .bind .unknown fun _ =>
      .pure fun _ _ => rfl

/-- A line opens the block that starts with it, or closes the innermost one, as `brackets` says of
its tokens. -/
theorem ensures_statement_openings (d : Draft) (t : Token) (us : List Token) :
    Ensures (Cursor.Behind (t :: us) []) (statement d)
      fun e _ => e.openings = brackets.push (t :: us) (some t.start) d.openings := by
  -- A line break alone, the word `end`, the keyword of a branch and that of a block are tried in
  -- this order.
  refine ensures_accept_bind_behind [] (fun hkind => ?newline) fun _ => ?_
  case newline =>
    have hnone : ∀ words, isKeyword words (t :: us) = false := by
      intro words
      rw [isKeyword, Token.isWord, hkind]
      rfl
    exact .pure fun _ _ => (Brackets.push_of_neither (hnone _) (hnone _)).symm
  refine .ite (fun h => absurd h (by decide)) fun _ => ?_
  refine .bind_and (ensures_checkKeyword_behind _) fun b hb => .ite ?close fun hclose => ?_
  case close =>
    intro h
    rw [hb] at h
    have hopens : brackets.opens (t :: us) = false := isKeyword_eq_false h (by decide)
    rw [Brackets.push_of_closes hopens h]
    exact .ite (fun _ => .fail _) fun _ => .bind .unknown fun _ => .bind .unknown fun _ =>
      .pure fun _ _ => Draft.openings_closeBlock d
  rw [hb, Bool.not_eq_true] at hclose
  refine .bind_and (ensures_checkKeyword_behind _) fun b' hb' => .ite ?branch fun _ => ?_
  case branch =>
    intro h
    rw [hb'] at h
    have hopens : brackets.opens (t :: us) = false := isKeyword_eq_false h (by decide)
    rw [Brackets.push_of_neither hopens hclose]
    exact .bind .unknown fun label => .pure fun _ _ => Draft.openings_branch d label
  refine .bind_and ensures_blockKind_behind fun kind hkind => ?_
  cases kind with
  | none =>
    rw [Brackets.push_of_neither hkind.symm hclose]
    exact ensures_line_openings d
  | some kind =>
    rw [Brackets.push_of_opens hkind.symm]
    refine (ensures_blockHead_position kind).bind fun head => .pure fun _ hhead => ?_
    exact congrArg (· :: d.openings) hhead

/-! ### The diagram -/

/-- Reads the line that starts a sequence diagram, which nothing is known of yet but that it opens
no block. -/
def start : Reading Draft := do
  header
  return {}

theorem read_eq_start : read = start >>= fun d => untilEnd statement d >>= closed := by
  rw [read_eq, start, bind_assoc]
  rfl

theorem steady_header {x : Dialect} {ts : List Token} : Steady x ts header fun _ => True :=
  .bind steady_skipNewlines fun _ _ => .bind (takes_expectWord _).steady fun _ _ =>
    steady_endStatement

theorem ensures_start (row : List Token) :
    Ensures (Cursor.Within row) start fun d c => d.openings = [] ∧ c.Within row :=
  .bind ((steady_header (x := .sequence)).passes _) fun _ => .pure fun _ hc => ⟨rfl, hc⟩

/-- Where a sequence diagram ends inside a block, it is said that the innermost one is opened where
its line starts, and the error is at the end of input. -/
theorem openedAt_of_unterminated {row : List Token} {c : Cursor} (hc : c.Within row)
    {block : String} {openedAt position : Option Position}
    (h : read c = .error (.malformed ⟨.unterminated block openedAt, position⟩)) :
    position = some c.final.start ∧ ∃ t us,
      (brackets.unclosed (startsBehind start statement c)).head? = some (t :: us) ∧
        openedAt = some t.start := by
  have hempty : Draft.LocatedAt (fun _ => True) {} :=
    ⟨fun _ _ => trivial, List.forall_mem_nil _, List.forall_mem_nil _⟩
  have hread : Located (fun _ => True) (fun _ => False) (start >>= untilEnd statement)
      (Draft.LocatedAt fun _ => True) := by
    refine .bind (Q := Draft.LocatedAt fun _ => True) ?_ fun _ hstart =>
      .untilEnd (fun _ hd => located_statement hd) hstart
    refine .bind (Q := fun _ => True) ?_ fun _ _ => .pure hempty
    exact .bind located_skipNewlines fun _ _ => .bind (located_expectWord _) fun _ _ =>
      located_endStatement
  rw [read_eq_start] at h
  -- no statement says so itself, so it is said at the end, of the first open block
  refine exists_opener_of_unterminated rfl hread (ensures_start row)
    (fun ts n d => (moves_statement (x := .sequence) d).passes n) ensures_statement_openings
    (fun d c hfinish => ?_) hc h
  unfold closed at hfinish
  cases hopened : d.opened with
  | nil =>
    rw [hopened] at hfinish
    cases hfinish
  | cons b outer =>
    rw [hopened] at hfinish
    cases hfinish
    exact ⟨rfl, _, congrArg (List.map _) hopened⟩

end DiagramText.Sequence
