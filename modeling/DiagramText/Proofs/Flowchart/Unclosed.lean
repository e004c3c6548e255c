import DiagramText.Proofs.Flowchart.Reader
import DiagramText.Proofs.Reading.Unclosed

/-!
# Subgraphs that are left open

A subgraph spans statements. Each open one keeps the position of the word that its line starts with.

* `Flowchart.brackets`: the statements that open and close subgraphs.
* `Flowchart.ensures_statement_openings`: what one statement opens and closes.
* `Flowchart.openedAt_of_unterminated`: where the innermost subgraph is said to be opened.
-/

namespace DiagramText.Flowchart

open Reading

/-- A subgraph is opened by a line that starts with its word, and closed by one that has nothing but
`end` on it. -/
def brackets : Brackets where
  opens
    | t :: _ => t.isWord ["subgraph"]
    | [] => false
  closes
    | t :: us => t.isWord ["end"] && us.head?.all (·.kind.endsStatement)
    | [] => false

variable {d : Draft} {t : Token} {us : List Token}

/-! ### Drafts -/

namespace Draft

/-- Where the open subgraphs of the draft `d` were opened, the innermost first. A subgraph keeps the
position of its line. -/
def openings (d : Draft) : List (Option Position) := d.opened.map (·.head.position)

theorem openings_extend (d : Draft) (ss : List Statement) :
    (d.extend ss).openings = d.openings := by
  obtain ⟨direction, nodes, statements, opened⟩ := d
  cases opened <;> rfl

theorem openings_add (d : Draft) (cs : List Clause) : (d.add cs).openings = d.openings := by
  unfold add
  rw [openings_extend]
  rfl

theorem openings_closeSubgraph (d : Draft) : d.closeSubgraph.openings = d.openings.tail := by
  obtain ⟨direction, nodes, statements, opened⟩ := d
  cases opened with
  | nil => rfl
  | cons s outer =>
    unfold closeSubgraph
    dsimp only
    rw [openings_extend]
    rfl

theorem openings_setDirection (d : Draft) (x : Direction) :
    (d.setDirection x).openings = d.openings := by
  obtain ⟨direction, nodes, statements, opened⟩ := d
  cases opened <;> rfl

end Draft

/-! ### Statements -/

theorem ensures_subgraphHead_position : Ensures (Cursor.Behind (t :: us) []) subgraphHead
    fun s _ => s.position = some t.start := by
  refine .bind_and (ensures_advance_behind []) fun keyword hkeyword => ?_
  refine .bind .unknown fun name => .bind .unknown fun _ => .pure fun _ _ => ?_
  rw [hkeyword]

/-- No token is two words: what is `end` is not `subgraph`. -/
theorem isWord_subgraph_of_end (h : t.isWord ["end"] = true) : t.isWord ["subgraph"] = false := by
  rw [Token.isWord, Bool.and_eq_true, List.contains_iff_mem, List.mem_singleton] at h
  rw [Token.isWord, h.2]
  exact Bool.and_eq_false_imp.2 fun _ => by decide

/-- A statement `t` opens the subgraph that starts with it, or closes the innermost one, or leaves
all open that are. -/
theorem ensures_statement_openings (d : Draft) (t : Token) (us : List Token) :
    Ensures (Cursor.Behind (t :: us) []) (statement d)
      fun e _ => e.openings = brackets.push (t :: us) (some t.start) d.openings := by
  refine .bind_and ensures_peek_behind fun token htoken => ?_
  refine .bind_and ensures_second_behind fun second hsecond => ?_
  obtain rfl := htoken
  have hcloses : brackets.closes (token :: us) =
      (token.isWord ["end"] && second.kind.endsStatement) :=
    congrArg (token.isWord ["end"] && ·) (all_head?_eq hsecond rfl)
  refine .bind_and (ensures_check_behind [] (by decide)) fun newline hnewline =>
    .ite ?newline fun _ => .ite ?close fun hclose => .ite ?subgraph fun hsubgraph => ?other
  case newline =>
    intro h
    have hword : ∀ words, token.isWord words = false := by
      intro words
      have hkind : token.kind = .newline ∨ token.kind = .semicolon := by simpa [hnewline] using h
      rcases hkind with hkind | hkind <;> rw [Token.isWord, hkind] <;> rfl
    rw [hword] at hcloses
    rw [Brackets.push_of_neither (hword _) hcloses]
    exact .bind .unknown fun _ => .pure fun _ _ => rfl
  case close =>
    intro h
    have hopens : brackets.opens (token :: us) = false :=
      isWord_subgraph_of_end (Bool.and_eq_true_iff.1 h).1
    rw [Brackets.push_of_closes hopens (hcloses.trans h)]
    exact .ite (fun _ => .fail _) fun _ => .bind .unknown fun _ => .bind .unknown fun _ =>
      .pure fun _ _ => Draft.openings_closeSubgraph d
  case subgraph =>
    intro h
    rw [Brackets.push_of_opens h]
    refine ensures_subgraphHead_position.bind fun head => .pure fun _ hhead => ?_
    exact congrArg (· :: d.openings) hhead
  case other =>
    rw [Bool.not_eq_true] at hsubgraph hclose
    rw [Brackets.push_of_neither hsubgraph (hcloses.trans hclose)]
    -- what is left adds clauses to the innermost subgraph, or sets its direction
    have hadd : ∀ {x : Reading Clause}, Ensures (Cursor.Behind (token :: us) [])
        (do return d.add [← x]) fun e _ => e.openings = d.openings := fun {_} =>
      .bind .unknown fun _ => .pure fun _ _ => Draft.openings_add d _
    refine .ite (fun _ => ?_) fun _ => .ite (fun _ => hadd) fun _ => .ite (fun _ => hadd) fun _ =>
      .ite (fun _ => hadd) fun _ => ?_
    · exact .bind .unknown fun x => .pure fun _ _ => Draft.openings_setDirection d x
    · exact .bind .unknown fun cs => .pure fun _ _ => Draft.openings_add d cs

/-! ### The diagram -/

theorem ensures_header_openings {P : Cursor → Prop} :
    Ensures P header fun d _ => d.openings = [] := by
  refine .bind .unknown fun _ => .bind .unknown fun word => ?_
  cases word with
  | none => exact .fail _
  | some _ =>
    have hend : ∀ x : Direction, Ensures (fun _ => True) (do
        let d ← pure ({ direction := x } : Draft)
        endStatement
        return d) fun d _ => d.openings = [] := fun x =>
      .bind (Q := fun d _ => d.openings = []) (.pure fun _ _ => rfl) fun d => .of_fact fun hd =>
        .bind .unknown fun _ => .pure fun _ _ => hd
    exact .bind .unknown fun _ => .ite (fun _ => .bind .unknown fun x => hend x) fun _ => hend .td

/-- Where a flowchart ends inside a subgraph, it is said that the innermost one is opened where its
line starts, and the error is at the end of input. The innermost is found by going through the
statements alone. -/
theorem openedAt_of_unterminated {row : List Token} {c : Cursor} (hc : c.Within row)
    {block : String} {openedAt position : Option Position}
    (h : read c = .error (.malformed ⟨.unterminated block openedAt, position⟩)) :
    position = some c.final.start ∧ ∃ t us,
      (brackets.unclosed (startsBehind header statement c)).head? = some (t :: us) ∧
        openedAt = some t.start := by
  have hread : Located (fun _ => True) (fun _ => False) (header >>= untilEnd statement)
      (Draft.LocatedAt fun _ => True) :=
    .bind located_header fun start hstart =>
      .untilEnd (fun _ hd => located_statement hd) hstart
  refine exists_opener_of_unterminated rfl hread
    (ensures_header_openings.and ((steady_header (x := .flowchart)).passes _))
    (fun ts n d => (moves_statement (x := .flowchart) d).passes n) ensures_statement_openings
    (fun d c hfinish => ?_) hc h
  cases hopened : d.opened with
  | nil =>
    rw [hopened] at hfinish
    cases hfinish
  | cons s outer =>
    rw [hopened] at hfinish
    cases hfinish
    exact ⟨rfl, _, congrArg (List.map _) hopened⟩

end DiagramText.Flowchart
