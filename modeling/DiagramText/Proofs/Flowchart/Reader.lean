import DiagramText.Flowchart.Reader
import DiagramText.Proofs.Reading.Alike
import DiagramText.Proofs.Reading.Located
import DiagramText.Proofs.Reading.Steady

/-!
# Reading flowcharts

A statement is added to the innermost open subgraph, which becomes a statement itself when it is
closed. So what holds of the clauses and of the heads of subgraphs that are read holds of all that
the flowchart has in the end, at any depth.

* `Flowchart.Statement.walk_append`: statements are walked one after the other.
* `Flowchart.Draft.Every`: what holds of all clauses and subgraphs that have been read, which is
  kept by all that a statement does to a draft.

Nodes, edges and subgraphs are at the positions of tokens that they were read from, and apart from
these reading does not depend on places. Every statement takes a token, and every round of a list
its separator or its arrow. A label is part of the token that holds it, so it has no more digits.

* `Flowchart.positions`: all positions in a flowchart.
* `Flowchart.located_read`: the positions in a flowchart that was read are those of its tokens.
* `Flowchart.alike_read`: alike rows of tokens are read as flowcharts that are equal without
  positions.
* `Flowchart.steady_read`: a flowchart is read, or its text is to blame.
-/

/-! ## What has been read -/

namespace DiagramText.Flowchart

/-! ### Walking -/

namespace Statement

/-- Statements are walked one after the other, so the walk over `ss ++ ts` is that over `ss` and
then that over `ts`. -/
theorem walk_append (ss ts : List Statement) : walk (ss ++ ts) = walk ss ++ walk ts := by
  induction ss using walk.induct with
  | case1 => rw [walk, List.nil_append, List.nil_append]
  | case2 s ss ih => rw [List.cons_append, walk, walk, ← List.append_assoc, ih, List.cons_append]

/-- A statement `s` is visited before its contents. -/
theorem walk_singleton (s : Statement) : walk [s] = s :: walk s.body := by
  rw [walk, List.append_nil]

theorem walk_cons (s : Statement) (ss : List Statement) :
    walk (s :: ss) = walk [s] ++ walk ss := walk_append [s] ss

/-- A statement of which the clause has the property `C`, or the head of the subgraph the property
`S`. -/
def Has (C : Clause → Prop) (S : Subgraph → Prop) : Statement → Prop
  | .clause c => C c
  | .subgraph head _ => S head

end Statement

/-! ### Drafts -/

namespace Draft

variable {C : Clause → Prop} {S : Subgraph → Prop} {d : Draft}

/-- A draft in which all clauses have the property `C` and the heads of all subgraphs the property
`S`, those that are still open included. -/
structure Every (C : Clause → Prop) (S : Subgraph → Prop) (d : Draft) : Prop where
  statements : ∀ s ∈ Statement.walk d.statements, s.Has C S
  opened : ∀ o ∈ d.opened, S o.head ∧ ∀ s ∈ Statement.walk o.body, s.Has C S

namespace Every

theorem start (x : Direction) : Every C S { direction := x } := by
  refine ⟨?_, List.forall_mem_nil _⟩
  rw [Statement.walk]
  exact List.forall_mem_nil _

theorem extend (h : d.Every C S) {ss : List Statement}
    (hss : ∀ s ∈ Statement.walk ss, s.Has C S) : (d.extend ss).Every C S := by
  obtain ⟨direction, nodes, statements, opened⟩ := d
  cases opened with
  | nil =>
    refine ⟨?_, h.opened⟩
    rw [Draft.extend, Statement.walk_append]
    exact List.forall_mem_append.2 ⟨h.statements, hss⟩
  | cons o outer =>
    obtain ⟨ho, houter⟩ := List.forall_mem_cons.1 h.opened
    refine ⟨h.statements, List.forall_mem_cons.2 ⟨⟨ho.1, ?_⟩, houter⟩⟩
    rw [Statement.walk_append]
    exact List.forall_mem_append.2 ⟨ho.2, hss⟩

theorem add (h : d.Every C S) {cs : List Clause} (hcs : ∀ c ∈ cs, C c) : (d.add cs).Every C S := by
  have hentered : Every C S { d with nodes := cs.foldl Registry.enter d.nodes } :=
    ⟨h.statements, h.opened⟩
  refine hentered.extend ?_
  clear hentered
  induction cs with
  | nil =>
    rw [List.map_nil, Statement.walk]
    exact List.forall_mem_nil _
  | cons c cs ih =>
    obtain ⟨hc, hcs⟩ := List.forall_mem_cons.1 hcs
    rw [List.map_cons, Statement.walk, Statement.body, List.nil_append]
    exact List.forall_mem_cons.2 ⟨hc, ih hcs⟩

theorem openSubgraph (h : d.Every C S) {head : Subgraph} (hhead : S head) :
    (d.openSubgraph head).Every C S := by
  refine ⟨h.statements, List.forall_mem_cons.2 ⟨⟨hhead, ?_⟩, h.opened⟩⟩
  rw [Statement.walk]
  exact List.forall_mem_nil _

theorem closeSubgraph (h : d.Every C S) : d.closeSubgraph.Every C S := by
  obtain ⟨direction, nodes, statements, opened⟩ := d
  cases opened with
  | nil => exact h
  | cons o outer =>
    obtain ⟨ho, houter⟩ := List.forall_mem_cons.1 h.opened
    have hclosed : Every C S ⟨direction, nodes, statements, outer⟩ := ⟨h.statements, houter⟩
    refine hclosed.extend ?_
    rw [Statement.walk_singleton]
    exact List.forall_mem_cons.2 ho

theorem setDirection (h : d.Every C S) (x : Direction)
    (hS : ∀ head : Subgraph, S head → S { head with direction := some x }) :
    (d.setDirection x).Every C S := by
  obtain ⟨direction, nodes, statements, opened⟩ := d
  cases opened with
  | nil => exact ⟨h.statements, h.opened⟩
  | cons o outer =>
    obtain ⟨ho, houter⟩ := List.forall_mem_cons.1 h.opened
    exact ⟨h.statements, List.forall_mem_cons.2 ⟨⟨hS _ ho.1, ho.2⟩, houter⟩⟩

end Every
end Draft
end DiagramText.Flowchart

/-! ## Positions -/

namespace DiagramText.Flowchart

open Reading

/-! ### Positions -/

/-- The position of a clause, if it has one. Only nodes and edges can have one. -/
def Clause.position? : Clause → Option Position
  | .node _ p => p
  | .edge e => e.position
  | _ => none

/-- The position of a statement, without those of the statements it holds. -/
def Statement.position? : Statement → Option Position
  | .clause c => c.position?
  | .subgraph head _ => head.position

/-- The positions in statements `ss`, at any depth, in the order of the walk. -/
def Statement.positions (ss : List Statement) : List Position :=
  (walk ss).filterMap position?

/-- All positions in a flowchart `d`. The registered nodes have none. -/
def positions (d : Flowchart) : List Position := Statement.positions d.statements

variable {P : Position → Prop} {B : String → Prop} {d : Draft}

/-- A clause at a position with the property `P`, if it has one. -/
def Clause.LocatedAt (P : Position → Prop) (c : Clause) : Prop := ∀ p ∈ c.position?, P p

/-- A subgraph at a position with the property `P`, if it has one. -/
def Subgraph.LocatedAt (P : Position → Prop) (s : Subgraph) : Prop := ∀ p ∈ s.position, P p

/-- A draft in which all positions have the property `P`. -/
abbrev Draft.LocatedAt (P : Position → Prop) (d : Draft) : Prop :=
  d.Every (Clause.LocatedAt P) (Subgraph.LocatedAt P)

theorem Statement.Has.position {s : Statement}
    (h : s.Has (Clause.LocatedAt P) (Subgraph.LocatedAt P)) : ∀ p ∈ s.position?, P p := by
  cases s with
  | clause c => exact h
  | subgraph head body => exact h

/-! ### Nodes and edges -/

/-- References with declarations at positions with the property `P`. -/
def AreLocated (P : Position → Prop) (rs : List Reference) : Prop :=
  ∀ r ∈ rs, ∀ c ∈ r.declaration, c.LocatedAt P

theorem located_labelOf (token : Option Token) : Located P B (labelOf token) fun _ => True := by
  unfold labelOf
  split
  · exact .pure trivial
  · exact .ite (fun _ => .pure trivial) fun _ => .map (located_content _)

theorem located_reference : Located P B reference fun r => AreLocated P [r] := by
  refine .bind (located_expect _ _) fun token ht => .bind (located_accept _) fun opener _ => ?_
  cases opener with
  | none =>
    refine .pure (List.forall_mem_singleton.2 fun c hc => ?_)
    cases hc
  | some opener =>
    refine .bind (located_accept _) fun text _ => .bind (located_expect _ _)
      fun closer hcloser => ?_
    split
    · exact .unexpected _ hcloser
    · refine .bind (located_labelOf _) fun _ _ => .pure (List.forall_mem_singleton.2 ?_)
      rintro c ⟨⟩ p ⟨⟩
      exact ht

theorem located_moreReferences {rs : List Reference} (hrs : AreLocated P rs) :
    Located P B (moreReferences rs) (AreLocated P) := by
  refine .loop (fun rs hrs => .bind (located_accept _) fun t _ => ?_) hrs
  cases t with
  | none => exact .pure hrs
  | some t => exact .bind located_reference fun r hr => .pure (List.forall_mem_append.2 ⟨hrs, hr⟩)

theorem located_group : Located P B group (AreLocated P) :=
  .bind located_reference fun _ hr => located_moreReferences hr

theorem located_edgeKind {t : Token} (ht : P t.start) : Located P B (edgeKind t) fun _ => True := by
  unfold edgeKind
  split
  · exact .pure trivial
  · exact .unexpected _ ht

theorem located_links :
    Located P B links fun ls => ∀ l ∈ ls, P l.position ∧ AreLocated P l.targets := by
  refine .loop (I := fun ls => ∀ l ∈ ls, P l.position ∧ AreLocated P l.targets)
    (fun ls hls => .bind (located_accept _) fun t ht => ?_) (List.forall_mem_nil _)
  cases t with
  | none => exact .pure hls
  | some t =>
    have ht := ht t rfl
    refine .bind (located_edgeKind ht) fun _ _ => .bind (located_accept _) fun _ _ =>
      .bind located_group fun targets htargets => .bind (located_labelOf _) fun _ _ => .pure ?_
    exact List.forall_mem_append.2 ⟨hls, List.forall_mem_singleton.2 ⟨ht, htargets⟩⟩

/-- The clauses of a chain are at the positions of its declarations and links. A node that is
declared by its id alone has no position. -/
theorem locatedAt_of_mem_chainClauses {first : List Reference} {ls : List Link}
    (hfirst : AreLocated P first) (hls : ∀ l ∈ ls, P l.position ∧ AreLocated P l.targets) :
    ∀ c ∈ chainClauses first ls, c.LocatedAt P := by
  -- The nodes that are declared by shapes are at the ids of their references.
  have hshaped : ∀ c ∈ (first ++ ls.flatMap Link.targets).filterMap Reference.declaration,
      c.LocatedAt P := by
    intro c hc
    obtain ⟨r, hr, hc⟩ := List.mem_filterMap.1 hc
    rcases List.mem_append.1 hr with hr | hr
    · exact hfirst r hr c hc
    · obtain ⟨l, hl, hr⟩ := List.mem_flatMap.1 hr
      exact (hls l hl).2 r hr c hc
  -- The edges of a link are at its operator.
  have hedges : ∀ (ls : List Link) (sources : List Reference), (∀ l ∈ ls, P l.position) →
      ∀ c ∈ chainEdges sources ls, c.LocatedAt P := by
    intro ls
    induction ls with
    | nil => exact fun _ _ => List.forall_mem_nil _
    | cons l ls ih =>
      intro sources hls
      obtain ⟨hl, hls⟩ := List.forall_mem_cons.1 hls
      refine List.forall_mem_append.2 ⟨fun c hc => ?_, ih l.targets hls⟩
      obtain ⟨source, -, hc⟩ := List.mem_flatMap.1 hc
      obtain ⟨target, -, rfl⟩ := List.mem_map.1 hc
      rintro p ⟨⟩
      exact hl
  refine List.forall_mem_append.2 ⟨hshaped, ?_⟩
  split
  · intro c hc
    obtain ⟨r, -, hc⟩ := List.mem_filterMap.1 hc
    split at hc
    · cases hc
      exact nofun
    · cases hc
  · exact hedges ls first fun l hl => (hls l hl).1

theorem located_chain : Located P B chain fun cs => ∀ c ∈ cs, c.LocatedAt P :=
  .bind located_group fun _ hfirst => .bind located_links fun _ hls =>
    .bind located_endStatement fun _ _ => .pure (locatedAt_of_mem_chainClauses hfirst hls)

/-! ### Statements with a keyword -/

theorem located_subgraphLabel : Located P B subgraphLabel fun _ => True := by
  refine .bind (located_accept _) fun t _ => ?_
  cases t with
  | none => exact .pure trivial
  | some t =>
    exact .bind (located_accept _) fun _ _ => .bind (located_expect _ _) fun _ _ => .pure trivial

theorem located_subgraphName : Located P B subgraphName fun _ => True := by
  refine .bind (located_ahead 1) fun second _ => .bind (located_check _) fun _ _ => .ite
    (fun _ => .bind located_advance fun _ _ => .pure trivial)
    fun _ => .bind (located_check _) fun _ _ => .ite ?_ ?_
  · exact fun _ => .bind located_advance fun _ _ => .bind located_subgraphLabel fun _ _ =>
      .pure trivial
  · exact fun _ => .bind located_peek fun first hfirst => .bind located_restOfStatement fun _ _ =>
      .ite (fun _ => located_fail _) fun _ =>
        .ite (fun _ => .failAt (by trivial) hfirst) fun _ => .pure trivial

theorem located_subgraphHead : Located P B subgraphHead (Subgraph.LocatedAt P) := by
  refine .bind located_advance fun keyword hkeyword => .bind located_subgraphName fun _ _ =>
    .bind located_endStatement fun _ _ => .pure ?_
  rintro p ⟨⟩
  exact hkeyword

theorem located_moreNodeIds (ids : List String) : Located P B (moreNodeIds ids) fun _ => True := by
  refine .loop (I := fun _ => True) (fun ids _ => .bind (located_accept _) fun t _ => ?_) trivial
  cases t with
  | none => exact .pure trivial
  | some t => exact .bind (located_expect _ _) fun _ _ => .pure trivial

theorem located_classAssignment : Located P B classAssignment fun c => c.LocatedAt P :=
  .bind located_advance fun _ _ => .bind (located_expect _ _) fun _ _ =>
    .bind (located_moreNodeIds _) fun _ _ => .bind (located_expect _ _) fun _ _ =>
      .bind located_endStatement fun _ _ => .pure nofun

theorem located_named {make : String → String → Clause}
    (hmake : ∀ name styles, (make name styles).position? = none) :
    Located P B (named make) fun c => c.LocatedAt P := by
  refine .bind located_advance fun _ _ => .bind located_advance fun name _ =>
    .bind located_restOfStatement fun styles _ => .bind located_endStatement fun _ _ => .pure ?_
  rw [Clause.LocatedAt, hmake]
  exact nofun

theorem located_directionLine : Located P B directionLine fun _ => True :=
  .bind located_advance fun _ _ => .bind (located_takeDirection _) fun _ _ =>
    .bind located_endStatement fun _ _ => .pure trivial

/-! ### The diagram -/

theorem located_statement (hd : d.LocatedAt P) : Located P B (statement d) (Draft.LocatedAt P) := by
  have hclause : ∀ {x : Reading Clause}, (Located P B x fun c => c.LocatedAt P) →
      Located P B (do return d.add [← x]) (Draft.LocatedAt P) := fun hx =>
    .bind hx fun _ hc => .pure (hd.add (List.forall_mem_singleton.2 hc))
  refine .bind located_peek fun token _ => .bind (located_ahead 1) fun second _ =>
    .bind (located_check _) fun _ _ => .ite ?newline fun _ => .ite ?close fun _ =>
      .ite ?subgraph fun _ => .ite ?direction fun _ => .ite ?classDef fun _ =>
        .ite ?classes fun _ =>
        .ite ?style fun _ => ?chain
  case newline => exact fun _ => .bind located_advance fun _ _ => .pure hd
  case close =>
    exact fun _ => .ite (fun _ => located_fail _) fun _ => .bind located_advance fun _ _ =>
      .bind located_endStatement fun _ _ => .pure hd.closeSubgraph
  case subgraph =>
    exact fun _ => .bind located_subgraphHead fun _ hhead => .pure (hd.openSubgraph hhead)
  case direction =>
    exact fun _ => .bind located_directionLine fun x _ =>
      .pure (hd.setDirection x fun _ => id)
  case classDef => exact fun _ => hclause (located_named fun _ _ => rfl)
  case classes => exact fun _ => hclause located_classAssignment
  case style => exact fun _ => hclause (located_named fun _ _ => rfl)
  case chain => exact .bind located_chain fun _ hcs => .pure (hd.add hcs)

theorem located_header : Located P B header (Draft.LocatedAt P) := by
  have hempty : ∀ x : Direction, Draft.LocatedAt P { direction := x } := fun _ => .start _
  refine .bind located_skipNewlines fun _ _ => .bind (located_acceptWord _) fun t _ => ?_
  cases t with
  | none => exact located_fail _
  | some t =>
    refine .bind (located_check _) fun _ _ => .ite (fun _ => ?_) fun _ => ?_
    · exact .bind (located_takeDirection _) fun x _ => .bind (.pure (hempty x)) fun _ hd =>
        .bind located_endStatement fun _ _ => .pure hd
    · exact .bind (.pure (hempty _)) fun _ hd => .bind located_endStatement fun _ _ => .pure hd

/-- The positions in a flowchart that was read are those of its tokens, as is that of an error. By
`hsubgraph`, `B` admits what is named where a subgraph is not closed. -/
theorem located_read (hsubgraph : B "subgraph") :
    Located P B read fun d => ∀ p ∈ d.positions, P p := by
  refine .bind located_header fun start hstart =>
    .bind (.untilEnd (fun _ hd => located_statement hd) hstart) fun d hd => ?_
  split
  · refine .pure fun p hp => ?_
    obtain ⟨s, hs, hsp⟩ := List.mem_filterMap.1 hp
    exact (hd.statements s hs).position p hsp
  · exact .bind located_peek fun t ht => .unterminated hsubgraph ht

end DiagramText.Flowchart

/-! ## Readings at different places -/

namespace DiagramText.Flowchart

open Reading

/-- The flowcharts `d` and `e` are equal without positions, which is how diagrams are compared. -/
def Same (d e : Flowchart) : Prop := d.unplaced = e.unplaced

/-! ### Equality without positions -/

theorem Statement.unplacedList_eq_map (ss : List Statement) :
    unplacedList ss = ss.map unplaced := by
  induction ss with
  | nil => rfl
  | cons s ss ih => rw [unplacedList, ih, List.map_cons]

/-- The head of a subgraph `s` without its position. -/
def Subgraph.unplaced (s : Subgraph) : Subgraph := { s with position := none }

/-- A subgraph `s` whose end has not been read, without positions. -/
def OpenSubgraph.unplaced (s : OpenSubgraph) : OpenSubgraph where
  head := s.head.unplaced
  body := s.body.map Statement.unplaced

theorem Registry.enter_unplaced (nodes : List Node) (c : Clause) :
    enter nodes c.unplaced = enter nodes c := by
  cases c <;> rfl

namespace Draft

/-- The draft `d` of a flowchart without positions. -/
def unplaced (d : Draft) : Draft where
  direction := d.direction
  nodes := d.nodes
  statements := d.statements.map Statement.unplaced
  opened := d.opened.map OpenSubgraph.unplaced

/-- The drafts `d` and `e` are equal without positions, in open subgraphs too. -/
def Same (d e : Draft) : Prop := d.unplaced = e.unplaced

theorem unplaced_extend (d : Draft) (ss : List Statement) :
    (d.extend ss).unplaced = d.unplaced.extend (ss.map Statement.unplaced) := by
  obtain ⟨direction, nodes, statements, opened⟩ := d
  cases opened with
  | nil => simp [extend, unplaced]
  | cons s outer => simp [extend, unplaced, OpenSubgraph.unplaced]

theorem unplaced_add (d : Draft) (cs : List Clause) :
    (d.add cs).unplaced = d.unplaced.add (cs.map Clause.unplaced) := by
  have hentered : (cs.map Clause.unplaced).foldl Registry.enter d.nodes =
      cs.foldl Registry.enter d.nodes := by
    rw [List.foldl_map]
    simp only [Registry.enter_unplaced]
  have hclauses : (cs.map Statement.clause).map Statement.unplaced =
      (cs.map Clause.unplaced).map Statement.clause := by
    simp only [List.map_map, List.map_inj_left, Function.comp_apply, Statement.unplaced,
      implies_true]
  rw [add, unplaced_extend, hclauses, add]
  simp only [unplaced, hentered]

theorem unplaced_openSubgraph (d : Draft) (head : Subgraph) :
    (d.openSubgraph head).unplaced = d.unplaced.openSubgraph head.unplaced := rfl

theorem unplaced_closeSubgraph (d : Draft) :
    d.closeSubgraph.unplaced = d.unplaced.closeSubgraph := by
  obtain ⟨direction, nodes, statements, opened⟩ := d
  cases opened with
  | nil => rfl
  | cons s outer =>
    rw [closeSubgraph, unplaced_extend]
    simp [unplaced, closeSubgraph, Statement.unplaced, Statement.unplacedList_eq_map,
      OpenSubgraph.unplaced, Subgraph.unplaced]

theorem unplaced_setDirection (d : Draft) (x : Direction) :
    (d.setDirection x).unplaced = d.unplaced.setDirection x := by
  obtain ⟨direction, nodes, statements, opened⟩ := d
  cases opened with
  | nil => rfl
  | cons s outer => rfl

variable {d e : Draft}

theorem Same.opened_eq (h : d.Same e) :
    d.opened.map OpenSubgraph.unplaced = e.opened.map OpenSubgraph.unplaced := by
  have ho : d.unplaced.opened = e.unplaced.opened := congrArg opened h
  exact ho

theorem Same.isEmpty_eq (h : d.Same e) : d.opened.isEmpty = e.opened.isEmpty := by
  simpa only [List.isEmpty_map] using congrArg List.isEmpty h.opened_eq

theorem Same.add (h : d.Same e) {cs ds : List Clause}
    (hcs : cs.map Clause.unplaced = ds.map Clause.unplaced) : (d.add cs).Same (e.add ds) := by
  rw [Same, unplaced_add, unplaced_add, h, hcs]

theorem Same.openSubgraph (h : d.Same e) {head head' : Subgraph}
    (hhead : head.unplaced = head'.unplaced) :
    (d.openSubgraph head).Same (e.openSubgraph head') := by
  rw [Same, unplaced_openSubgraph, unplaced_openSubgraph, h, hhead]

theorem Same.closeSubgraph (h : d.Same e) : d.closeSubgraph.Same e.closeSubgraph := by
  rw [Same, unplaced_closeSubgraph, unplaced_closeSubgraph, h]

theorem Same.setDirection (h : d.Same e) (x : Direction) :
    (d.setDirection x).Same (e.setDirection x) := by
  rw [Same, unplaced_setDirection, unplaced_setDirection, h]

end Draft

variable {P : Position → Position → Prop} {pre : Nat → Cursor → Prop} {d e : Draft}
  {t u : Token}

/-! ### Nodes and edges -/

/-- A reference `r` without the position of its declaration. -/
def Reference.unplaced (r : Reference) : Reference :=
  { r with declaration := r.declaration.map Clause.unplaced }

theorem alike_labelOf {t u : Option Token} (h : Option.Rel (Token.Same P) t u) :
    AlikeWhen P pre Eq (labelOf t) (labelOf u) := by
  unfold labelOf
  cases h with
  | none => exact .pure rfl
  | some h =>
    rw [Option.map_some, Option.map_some, h.text]
    refine AlikeWhen.ite (fun _ => .pure rfl) fun _ => ?_
    exact (alike_content _).map fun _ _ h => congrArg some h

theorem alike_reference :
    AlikeWhen P pre (fun r s => r.unplaced = s.unplaced) reference reference := by
  refine (alike_expect (by decide)).bind fun t u htu => ?_
  refine (alike_accept (by decide)).bind fun _ _ h => ?_
  rw [← htu.text]
  cases h with
  | none => exact .pure rfl
  | @some opener _ hopener =>
    refine (alike_accept (by decide)).bind fun text _ htext => ?_
    refine (alike_expect (by decide)).bind fun closer _ hcloser => ?_
    rw [← hopener.text, ← hcloser.text]
    split
    · exact alike_unexpected hcloser.start
    · exact (alike_labelOf htext).bind fun label _ hlabel => hlabel ▸ .pure rfl

theorem alike_moreReferences {rs ss : List Reference}
    (hrs : rs.map Reference.unplaced = ss.map Reference.unplaced) :
    AlikeWhen P pre (fun rs ss => rs.map Reference.unplaced = ss.map Reference.unplaced)
      (moreReferences rs) (moreReferences ss) := by
  refine alike_loop_of_stop
    (T := fun rs ss => rs.map Reference.unplaced = ss.map Reference.unplaced) ?_ ?_ hrs
  · intro rs ss hrs
    refine (alike_accept (by decide)).bind fun _ _ h => ?_
    cases h with
    | none => exact .pure (.inr hrs)
    | some _ =>
      refine alike_reference.bind fun r s h => .pure (.inl ?_)
      rw [List.map_append, List.map_append, hrs, List.map_singleton, List.map_singleton, h]
  · rintro rs ⟨past, rest, final⟩ rs' c' hc hend
    obtain rfl : rest = [] := hc
    have hend : final.kind = .endOfInput := hend
    simp [bind_apply, accept_nil, Except.bind, hend, pure_apply]

theorem alike_group :
    AlikeWhen P pre (fun rs ss => rs.map Reference.unplaced = ss.map Reference.unplaced)
      group group :=
  alike_reference.bind fun r s h => alike_moreReferences (by rw [List.map_singleton, h]; rfl)

/-- A link `l` without positions. -/
def Link.unplaced (l : Link) : Link :=
  { l with position := .origin, targets := l.targets.map Reference.unplaced }

theorem alike_edgeKind (htu : t.Same P u) :
    AlikeWhen P pre Eq (edgeKind t) (edgeKind u) := by
  unfold edgeKind
  rw [htu.text]
  split
  · exact .pure rfl
  · exact alike_unexpected htu.start

theorem alike_links :
    AlikeWhen P pre (fun ls ms => ls.map Link.unplaced = ms.map Link.unplaced) links links := by
  refine alike_loop_of_stop (T := fun ls ms => ls.map Link.unplaced = ms.map Link.unplaced) ?_ ?_
    rfl
  · intro ls ms hls
    refine (alike_accept (by decide)).bind fun _ _ h => ?_
    cases h with
    | none => exact .pure (.inr hls)
    | @some t u htu =>
      refine (alike_edgeKind htu).bind fun kind _ hkind => hkind ▸ ?_
      refine (alike_accept (by decide)).bind fun text _ htext => ?_
      refine alike_group.bind fun rs ss hrs => ?_
      refine (alike_labelOf htext).bind fun label _ hlabel => hlabel ▸ .pure (.inl ?_)
      simp only [List.map_append, hls, List.map_cons, List.map_nil, Link.unplaced, hrs]
  · rintro ls ⟨past, rest, final⟩ ls' c' hc hend
    obtain rfl : rest = [] := hc
    have hend : final.kind = .endOfInput := hend
    simp [bind_apply, accept_nil, Except.bind, hend, pure_apply]

theorem Clause.unplaced_unplaced (c : Clause) : c.unplaced.unplaced = c.unplaced := by
  cases c <;> rfl

theorem unplaced_edges (l : Link) (rs : List Reference) :
    (l.edges rs).map Clause.unplaced =
      (l.unplaced.edges (rs.map Reference.unplaced)).map Clause.unplaced := by
  simp only [Link.edges, List.map_flatMap, List.flatMap_map, Link.unplaced, List.map_map]
  rfl

theorem unplaced_chainEdges (rs : List Reference) (ls : List Link) :
    (chainEdges rs ls).map Clause.unplaced =
      (chainEdges (rs.map Reference.unplaced) (ls.map Link.unplaced)).map Clause.unplaced := by
  induction ls generalizing rs with
  | nil => rfl
  | cons l ls ih =>
    rw [chainEdges, List.map_append, unplaced_edges, ih, List.map_cons, chainEdges,
      List.map_append]
    rfl

theorem unplaced_declarations (rs : List Reference) :
    (rs.filterMap Reference.declaration).map Clause.unplaced =
      (rs.map Reference.unplaced).filterMap Reference.declaration := by
  rw [List.map_filterMap, List.filterMap_map]
  rfl

/-- The clauses of a chain depend on its places only by their positions: references and links
without positions make the same clauses, up to positions. -/
theorem unplaced_chainClauses (rs : List Reference) (ls : List Link) :
    (chainClauses rs ls).map Clause.unplaced =
      (chainClauses (rs.map Reference.unplaced) (ls.map Link.unplaced)).map Clause.unplaced := by
  have htargets : (ls.map Link.unplaced).flatMap Link.targets =
      (ls.flatMap Link.targets).map Reference.unplaced := by
    rw [List.flatMap_map, List.map_flatMap]
    rfl
  have hbare : (rs.map Reference.unplaced).filterMap (fun r =>
      if r.declaration.isNone then some (Clause.node (Node.bare r.id) none) else none) =
      rs.filterMap fun r =>
        if r.declaration.isNone then some (Clause.node (Node.bare r.id) none) else none := by
    rw [List.filterMap_map]
    congr 1
    funext r
    simp only [Function.comp_apply, Reference.unplaced, Option.isNone_map]
  -- positions are dropped once on the one side and twice on the other
  have htwice : ∀ cs : List Clause,
      (cs.map Clause.unplaced).map Clause.unplaced = cs.map Clause.unplaced := by
    intro cs
    simp only [List.map_map, List.map_inj_left, Function.comp_apply, Clause.unplaced_unplaced,
      implies_true]
  have hshaped : ((rs.map Reference.unplaced ++ (ls.map Link.unplaced).flatMap
      Link.targets).filterMap Reference.declaration).map Clause.unplaced =
      ((rs ++ ls.flatMap Link.targets).filterMap Reference.declaration).map Clause.unplaced := by
    rw [htargets, ← List.map_append, ← unplaced_declarations, htwice]
  simp only [chainClauses]
  rw [List.map_append, List.map_append, hshaped, hbare, List.isEmpty_map]
  split
  · rfl
  · rw [unplaced_chainEdges]

theorem alike_chain :
    AlikeWhen P pre (fun cs ds => cs.map Clause.unplaced = ds.map Clause.unplaced) chain chain := by
  refine alike_group.bind fun rs ss hrs => ?_
  refine alike_links.bind fun ls ms hls => ?_
  refine alike_endStatement.bind fun _ _ _ => .pure ?_
  rw [unplaced_chainClauses, hrs, hls, ← unplaced_chainClauses]

/-! ### Statements with a keyword -/

theorem alike_subgraphLabel : AlikeWhen P pre Eq subgraphLabel subgraphLabel := by
  refine (alike_accept (by decide)).bind fun _ _ h => ?_
  cases h with
  | none => exact .pure rfl
  | some _ =>
    refine (alike_accept (by decide)).bind fun _ _ h => ?_
    refine (alike_expect (by decide)).bind fun _ _ _ => .pure ?_
    cases h with
    | none => rfl
    | some h => rw [Option.map_some, Option.map_some, h.text]

theorem alike_subgraphName : AlikeWhen P pre Eq subgraphName subgraphName := by
  refine AlikeWhen.ahead_bind fun second second' hsecond => ?_
  refine AlikeWhen.check_bind rfl fun b => AlikeWhen.ite (fun hb => ?_) fun _ => ?_
  · refine AlikeWhen.bind (alike_advance_same fun n c hc => ?_) fun t u htu => .pure ?_
    · exact inner_of_check (by decide) (hc.2.trans hb)
    · rw [htu.text]
  · simp only [← hsecond.kind_eq (fun k => decide (k = .shapeOpen)) rfl,
      ← hsecond.kind_eq TokenKind.endsStatement rfl]
    refine AlikeWhen.check_bind rfl fun b => AlikeWhen.ite (fun hb => ?_) fun _ => ?_
    · refine AlikeWhen.bind (alike_advance_same fun n c hc => ?_) fun t u htu => ?_
      · exact inner_of_check (by decide) (hc.2.trans (Bool.and_eq_true_iff.1 hb).1)
      · exact alike_subgraphLabel.bind fun label _ hlabel => .pure (by rw [htu.text, hlabel])
    · refine AlikeWhen.peek_bind fun first first' hfirst => ?_
      refine alike_restOfStatement.bind fun id _ hid => hid ▸ ?_
      refine AlikeWhen.ite (fun _ => alike_fail) fun _ => ?_
      exact AlikeWhen.ite (fun _ => alike_failAt rfl (.some hfirst.start)) fun _ => .pure rfl

theorem alike_subgraphHead :
    AlikeWhen P pre (fun h k => h.unplaced = k.unplaced) subgraphHead subgraphHead := by
  refine alike_advance.bind fun keyword _ _ => ?_
  refine alike_subgraphName.bind ?_
  rintro ⟨id, label⟩ _ rfl
  exact alike_endStatement.bind fun _ _ _ => .pure rfl

theorem alike_moreNodeIds (ids : List String) :
    AlikeWhen P pre Eq (moreNodeIds ids) (moreNodeIds ids) := by
  refine alike_loop_of_stop (T := Eq) ?_ ?_ rfl
  · rintro ids _ rfl
    refine (alike_accept (by decide)).bind fun _ _ h => ?_
    cases h with
    | none => exact .pure (.inr rfl)
    | some _ => exact (alike_expect (by decide)).bind fun t u htu => htu.text ▸ .pure (.inl rfl)
  · rintro ids ⟨past, rest, final⟩ ids' c' hc hend
    obtain rfl : rest = [] := hc
    have hend : final.kind = .endOfInput := hend
    simp [bind_apply, accept_nil, Except.bind, hend, pure_apply]

theorem alike_classAssignment : AlikeWhen P pre Eq classAssignment classAssignment := by
  refine alike_advance.bind fun _ _ _ => ?_
  refine (alike_expect (by decide)).bind fun t u htu => ?_
  rw [← htu.text]
  refine (alike_moreNodeIds _).bind fun ids _ hids => hids ▸ ?_
  refine (alike_expect (by decide)).bind fun name name' hname => ?_
  exact alike_endStatement.bind fun _ _ _ => .pure (by rw [hname.text])

theorem alike_named (make : String → String → Clause)
    (hpre : ∀ n c, pre n c → (c.ahead 1).kind = .identifier) :
    AlikeWhen P pre Eq (named make) (named make) := by
  refine AlikeWhen.advance_bind_of_ahead (by decide) hpre fun _ _ _ => ?_
  refine (alike_advance_same fun _ _ hc => by rw [hc]; decide).bind fun name name' hname => ?_
  refine alike_restOfStatement.bind fun styles _ hstyles => hstyles ▸ ?_
  exact alike_endStatement.bind fun _ _ _ => .pure (by rw [hname.text])

theorem alike_directionLine (hpre : ∀ n c, pre n c → (c.ahead 1).kind = .identifier) :
    AlikeWhen P pre Eq directionLine directionLine := by
  refine AlikeWhen.advance_bind_of_ahead (by decide) hpre fun _ _ _ => ?_
  refine (alike_takeDirection fun _ _ hc => by rw [hc]; decide).bind fun x _ hx => hx ▸ ?_
  exact alike_endStatement.bind fun _ _ _ => .pure rfl

/-! ### The diagram -/

theorem statement_newline (d : Draft) (past : List Token) (u : Token) (us : List Token)
    (final : Token) (hu : u.kind = .newline) :
    statement d ⟨past, u :: us, final⟩ = .ok (d, ⟨u :: past, us, final⟩) := by
  simp [statement, bind_apply, peek_apply, ahead_apply, check_apply, Except.bind, hu, map_apply,
    advance_cons]

theorem alike_statement (hde : d.Same e) :
    AlikeWhen P (fun _ c => c.rest ≠ []) Draft.Same (statement d) (statement e) := by
  refine AlikeWhen.peek_bind_of_cons (fun _ _ hc => hc) fun t u htu => ?_
  refine AlikeWhen.ahead_bind fun second second' hsecond => ?_
  refine AlikeWhen.check_bind_of_cons (fun _ _ hc => hc.1.1) fun b =>
    AlikeWhen.ite (fun _ => ?_) fun _ => ?_
  · exact alike_advance.bind fun _ _ _ => .pure hde
  simp only [← htu.isWord_eq, ← hsecond.kind_eq TokenKind.endsStatement rfl,
    ← hsecond.kind_eq (fun k => decide (k = .identifier)) rfl, ← hde.isEmpty_eq]
  -- the second token of a keyword line is an identifier
  have hnamed : ∀ {words : List String} {c : Cursor},
      (t.isWord words && decide (second.kind = .identifier)) = true →
      ((c.rest ≠ [] ∧ c.peek = t) ∧ c.ahead 1 = second) ∧ c.check [.newline, .semicolon] = b →
      (c.ahead 1).kind = .identifier := fun h hc =>
    hc.1.2 ▸ of_decide_eq_true (Bool.and_eq_true_iff.1 h).2
  refine AlikeWhen.ite (fun _ => ?_) fun _ => AlikeWhen.ite (fun _ => ?_) fun _ =>
    AlikeWhen.ite (fun h => ?_) fun _ => AlikeWhen.ite (fun h => ?_) fun _ =>
      AlikeWhen.ite (fun _ => ?_) fun _ => AlikeWhen.ite (fun h => ?_) fun _ => ?_
  · refine AlikeWhen.ite (fun _ => alike_fail) fun _ => alike_advance.bind fun _ _ _ => ?_
    exact alike_endStatement.bind fun _ _ _ => .pure hde.closeSubgraph
  · exact alike_subgraphHead.bind fun _ _ hhead => .pure (hde.openSubgraph hhead)
  · exact (alike_directionLine fun _ _ => hnamed h).bind fun x _ hx =>
      hx ▸ .pure (hde.setDirection x)
  · exact (alike_named _ fun _ _ => hnamed h).bind fun _ _ hc => hc ▸ .pure (hde.add rfl)
  · exact alike_classAssignment.bind fun _ _ hc => hc ▸ .pure (hde.add rfl)
  · exact (alike_named _ fun _ _ => hnamed h).bind fun _ _ hc => hc ▸ .pure (hde.add rfl)
  · exact alike_chain.bind fun _ _ hcs => .pure (hde.add hcs)

theorem alike_header : AlikeWhen P pre Eq header header := by
  refine alike_skipNewlines_bind ?_
  refine alike_acceptWord.bind fun _ _ h => ?_
  cases h with
  | none => exact alike_fail
  | some _ =>
    refine AlikeWhen.check_bind rfl fun b => AlikeWhen.ite (fun hb => ?_) fun _ => ?_
    · refine AlikeWhen.bind (alike_takeDirection fun n c hc => ?_) fun x _ hx => hx ▸ ?_
      · exact inner_of_check (by decide) (hc.2.trans hb)
      · exact alike_endStatement.bind fun _ _ _ => .pure rfl
    · exact alike_endStatement.bind fun _ _ _ => .pure rfl

/-- Reading a flowchart does not depend on places: rows that are alike give flowcharts that are the
`Same`. -/
theorem alike_read : Alike P Same read read := by
  refine alike_header.bind fun d _ hd => hd ▸ ?_
  refine (alike_untilEnd (fun _ _ => alike_statement) statement_newline rfl).bind fun d e hde => ?_
  have hopened := hde.opened_eq
  cases hd : d.opened with
  | nil =>
    rw [hd] at hopened
    rw [List.map_eq_nil_iff.1 hopened.symm]
    refine .pure ?_
    simp only [Draft.Same, Draft.unplaced, Draft.mk.injEq] at hde
    simp only [Same, unplaced, Statement.unplacedList_eq_map, mk.injEq]
    exact ⟨hde.1, hde.2.2.1, hde.2.1⟩
  | cons s ss =>
    rw [hd] at hopened
    obtain ⟨c, cs, he, hcs, -⟩ := List.map_eq_cons_iff.1 hopened.symm
    rw [he]
    exact AlikeWhen.peek_bind fun t u htu => alike_failAt rfl (.some htu.start)

end DiagramText.Flowchart

/-! ## Failures -/

namespace DiagramText.Flowchart

open Reading

variable {x : Dialect} {ts : List Token}

/-! ### Nodes and edges -/

theorem innerText_sublist (text : String) : (innerText text).toList.Sublist text.toList := by
  have htrim := Text.trim_sublist text.toList
  have hinner := Text.unquote_sublist (String.ofList (Text.trim text.toList))
  rw [String.toList_ofList] at hinner
  exact hinner.trans htrim

theorem steady_labelOf {token : Option Token} (h : ∀ t ∈ token, t ∈ ts) :
    Steady x ts (labelOf token) fun _ => True := by
  cases token with
  | none => exact .pure trivial
  | some t =>
    have hdigits := Nat.le_trans (Text.digitCount_le_of_sublist (innerText_sublist t.text))
      (Token.digitCount_text_le (h t rfl))
    have hcontent : Steady x ts (some <$> content (innerText t.text)) fun _ => True :=
      .map (steady_content hdigits)
    show Steady x ts (if (innerText t.text).isEmpty then return none else
      some <$> content (innerText t.text)) _
    exact .ite (fun _ => .pure trivial) fun _ => hcontent

theorem takes_reference : Takes x ts reference fun _ => True := by
  refine .bind (takes_expect (by decide) _) fun t _ =>
    .bind (steady_accept (by decide)) fun o _ => ?_
  cases o with
  | none => exact .pure trivial
  | some opener =>
    refine .bind (steady_accept (by decide)) fun text htext =>
      .bind (takes_expect (by decide) _).steady fun closer _ => ?_
    split
    · exact .unexpected _ _
    · exact .bind (steady_labelOf htext) fun _ _ => .pure trivial

/-- One round of reading further references `refs`: with another ampersand there is one more, and
otherwise the group ends. -/
def referenceRound (refs : List Reference) : Reading (List Reference ⊕ List Reference) := do
  match ← accept .ampersand with
  | none => return .inr refs
  | some _ => return .inl (refs ++ [← reference])

theorem rounds_reference (refs : List Reference) :
    Rounds x ts (referenceRound refs) (fun _ => True) fun _ => True :=
  .of_accept (by decide) (fun _ _ => .bind takes_reference.steady fun _ _ => .pure trivial) rfl

theorem steady_moreReferences (refs : List Reference) :
    Steady x ts (moreReferences refs) fun _ => True :=
  .loop (fun refs _ => rounds_reference refs) trivial

theorem takes_group : Takes x ts group fun _ => True :=
  .bind takes_reference fun _ _ => steady_moreReferences _

theorem steady_edgeKind (t : Token) : Steady x ts (edgeKind t) fun _ => True := by
  unfold edgeKind
  split
  · exact .pure trivial
  · exact .unexpected _ _

/-- One round of reading the `links` of a chain: with another operator there is one more, and
otherwise the chain ends. -/
def linkRound (links : List Link) : Reading (List Link ⊕ List Link) := do
  match ← accept .edge with
  | none => return .inr links
  | some token =>
    let kind ← edgeKind token
    let text ← accept .edgeLabel
    let targets ← group
    let label ← labelOf text
    return .inl (links ++ [⟨kind, label, token.start, targets⟩])

theorem rounds_link (links : List Link) :
    Rounds x ts (linkRound links) (fun _ => True) fun _ => True := by
  refine .of_accept (by decide) (fun t _ => ?_) rfl
  exact .bind (steady_edgeKind t) fun _ _ => .bind (steady_accept (by decide)) fun text htext =>
    .bind takes_group.steady fun _ _ => .bind (steady_labelOf htext) fun _ _ => .pure trivial

theorem steady_links : Steady x ts links fun _ => True :=
  .loop (fun links _ => rounds_link links) trivial

theorem takes_chain : Takes x ts chain fun _ => True :=
  .bind takes_group fun _ _ => .bind steady_links fun _ _ =>
    .bind steady_endStatement fun _ _ => .pure trivial

/-! ### Statements with a keyword -/

theorem steady_subgraphLabel : Steady x ts subgraphLabel fun _ => True := by
  refine .bind (steady_accept (by decide)) fun t _ => ?_
  cases t with
  | none => exact .pure trivial
  | some t =>
    exact .bind (steady_accept (by decide)) fun _ _ =>
      .bind (takes_expect (by decide) _).steady fun _ _ => .pure trivial

theorem steady_subgraphName : Steady x ts subgraphName fun _ => True := by
  refine .bind (.look _) fun _ _ => .bind (.look _) fun _ _ => .ite (fun _ => ?_) fun _ =>
    .bind (.look _) fun _ _ => .ite (fun _ => ?_) fun _ => ?_
  · exact .bind steady_advance fun _ _ => .pure trivial
  · exact .bind steady_advance fun _ _ => .bind steady_subgraphLabel fun _ _ => .pure trivial
  · exact .bind (.look _) fun _ _ => .bind steady_restOfStatement fun _ _ =>
      .ite (fun _ => .fail _) fun _ => .ite (fun _ => .failAt _ _) fun _ => .pure trivial

theorem moves_subgraphHead : Moves x ts subgraphHead fun _ => True :=
  .bind moves_advance fun _ _ => .bind steady_subgraphName fun _ _ =>
    .bind steady_endStatement fun _ _ => .pure trivial

/-- One round of reading further node `ids`: with another comma there is one more. -/
def nodeIdRound (ids : List String) : Reading (List String ⊕ List String) := do
  match ← accept .comma with
  | none => return .inr ids
  | some _ => return .inl (ids ++ [(← expect .identifier "node id").text])

theorem rounds_nodeId (ids : List String) :
    Rounds x ts (nodeIdRound ids) (fun _ => True) fun _ => True :=
  .of_accept (by decide)
    (fun _ _ => .bind (takes_expect (by decide) _).steady fun _ _ => .pure trivial) rfl

theorem steady_moreNodeIds (ids : List String) : Steady x ts (moreNodeIds ids) fun _ => True :=
  .loop (fun ids _ => rounds_nodeId ids) trivial

theorem moves_classAssignment : Moves x ts classAssignment fun _ => True :=
  .bind moves_advance fun _ _ => .bind (takes_expect (by decide) _).steady fun _ _ =>
    .bind (steady_moreNodeIds _) fun _ _ => .bind (takes_expect (by decide) _).steady fun _ _ =>
      .bind steady_endStatement fun _ _ => .pure trivial

theorem moves_named (make : String → String → Clause) : Moves x ts (named make) fun _ => True :=
  .bind moves_advance fun _ _ => .bind steady_advance fun _ _ =>
    .bind steady_restOfStatement fun _ _ => .bind steady_endStatement fun _ _ => .pure trivial

theorem moves_directionLine : Moves x ts directionLine fun _ => True :=
  .bind moves_advance fun _ _ => .bind (steady_takeDirection _) fun _ _ =>
    .bind steady_endStatement fun _ _ => .pure trivial

/-! ### The diagram -/

theorem moves_statement (d : Draft) : Moves x ts (statement d) fun _ => True := by
  refine .look_bind fun _ => .look_bind fun _ => .look_bind fun _ => .ite ?newline fun _ =>
    .ite ?close fun _ => .ite ?subgraph fun _ => .ite ?direction fun _ => .ite ?classDef fun _ =>
      .ite ?classes fun _ => .ite ?style fun _ => ?chain
  case newline => exact fun _ => .bind moves_advance fun _ _ => .pure trivial
  case close =>
    exact fun _ => .ite (fun _ => .fail _) fun _ => .bind moves_advance fun _ _ =>
      .bind steady_endStatement fun _ _ => .pure trivial
  case subgraph => exact fun _ => .bind moves_subgraphHead fun _ _ => .pure trivial
  case direction => exact fun _ => .bind moves_directionLine fun _ _ => .pure trivial
  case classDef => exact fun _ => .bind (moves_named _) fun _ _ => .pure trivial
  case classes => exact fun _ => .bind moves_classAssignment fun _ _ => .pure trivial
  case style => exact fun _ => .bind (moves_named _) fun _ _ => .pure trivial
  case chain => exact .bind takes_chain.moves fun _ _ => .pure trivial

theorem steady_header : Steady x ts header fun _ => True := by
  refine .bind steady_skipNewlines fun _ _ => .bind (steady_acceptWord _) fun t _ => ?_
  cases t with
  | none => exact .fail _
  | some t =>
    have hend : ∀ d : Draft, Steady x ts (do endStatement; return d) fun _ => True := fun d =>
      .bind steady_endStatement fun _ _ => .pure trivial
    refine .bind (.look _) fun _ _ => ?_
    apply Steady.ite
    · intro _
      exact .bind (steady_takeDirection _) fun _ _ => hend _
    · intro _
      exact hend {}

/-- A flowchart is read, or its text is to blame; reading never stalls. -/
theorem steady_read : Steady x ts read fun _ => True := by
  refine .bind steady_header fun d _ =>
    .bind (.untilEnd (I := fun _ => True) (fun d _ => moves_statement d) trivial) fun d _ => ?_
  split
  · exact .pure trivial
  · exact .bind (.look _) fun _ _ => .failAt _ _

end DiagramText.Flowchart
