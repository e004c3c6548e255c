import DiagramText.Flowchart.Edit
import DiagramText.Proofs.Flowchart.RoundTrip
import DiagramText.Proofs.Program.Single
import DiagramText.Proofs.Roster
import Mathlib.Logic.Relation

/-!
# The registry of a flowchart

The reader, the edits that add and the edit that removes each keep the registry in their own way.
All of them agree with what the clauses of the flowchart make, entered in document order.

* `Flowchart.Registry.foldl_enter`: what clauses make is the roster of the ids that they mention.
* `Flowchart.Draft.Registered`: the registry of a draft is what its clauses make, those in open
  subgraphs included; `Flowchart.Draft.Step.registered` says that each statement keeps it.
* `Flowchart.registered_of_edits`: the registry of a flowchart after any edits.
-/

namespace DiagramText

open Reading

namespace Flowchart

/-! ### Clauses in document order -/

/-- The clause that a statement is, if it is no subgraph. -/
def Statement.clause? : Statement → Option Clause
  | .clause c => some c
  | .subgraph .. => none

/-- The clauses of statements `ss` in document order, at any depth. Subgraphs have no clause of
their own. -/
def clausesOf (ss : List Statement) : List Clause := (Statement.walk ss).filterMap Statement.clause?

@[simp]
theorem clausesOf_nil : clausesOf [] = [] := by simp [clausesOf, Statement.walk]

theorem clausesOf_append (ss ts : List Statement) :
    clausesOf (ss ++ ts) = clausesOf ss ++ clausesOf ts := by
  rw [clausesOf, Statement.walk_append, List.filterMap_append]
  rfl

/-- The clauses of a subgraph `head` are those of its body. -/
theorem clausesOf_subgraph (head : Subgraph) (body : List Statement) :
    clausesOf [.subgraph head body] = clausesOf body := by
  rw [clausesOf, Statement.walk_singleton, List.filterMap_cons]
  rfl

theorem clausesOf_map_clause (cs : List Clause) : clausesOf (cs.map .clause) = cs := by
  induction cs with
  | nil => exact clausesOf_nil
  | cons c cs ih =>
    have hhead : clausesOf [.clause c] = [c] := by
      rw [clausesOf, Statement.walk_singleton]
      show c :: clausesOf [] = [c]
      rw [clausesOf_nil]
    rw [List.map_cons, ← List.singleton_append, clausesOf_append, hhead, ih]
    rfl

theorem Statement.foldl_enterStatement (ss : List Statement) (nodes : List Node) :
    ss.foldl Registry.enterStatement nodes =
      (ss.filterMap Statement.clause?).foldl Registry.enter nodes := by
  induction ss generalizing nodes with
  | nil => rfl
  | cons s ss ih =>
    cases s with
    | clause c => exact ih (Registry.enter nodes c)
    | subgraph head body => exact ih nodes

theorem Registry.ofStatements_eq (ss : List Statement) :
    ofStatements ss = (clausesOf ss).foldl enter [] :=
  Statement.foldl_enterStatement _ _

theorem mentionedIds_eq (ss : List Statement) :
    mentionedIds ss = (clausesOf ss).flatMap Clause.mentioned := by
  unfold mentionedIds clausesOf
  induction Statement.walk ss with
  | nil => rfl
  | cons s ss ih =>
    cases s with
    | clause c => exact congrArg (c.mentioned ++ ·) ih
    | subgraph head body => exact ih

/-! ### The roster of nodes -/

/-- The node that a clause declares with a label or a shape of its own. A bare id declares nothing
that was not known. -/
def Clause.declared? : Clause → Option Node
  | .node n _ => if n = Node.bare n.id then none else some n
  | _ => none

/-- The declarations in statements `ss` that give a label or a shape, in document order. -/
def declarations (ss : List Statement) : List Node := (clausesOf ss).filterMap Clause.declared?

/-- A node as the last declaration of `id` with a label or a shape gives it, or else the bare
node. -/
def nodeOf (ss : List Statement) (id : String) : Node :=
  lastDeclared Node.id Node.bare (declarations ss) id

namespace Registry

/-- The roster of the nodes that clauses `cs` mention and declare, which does not go through them
one by one. -/
def rosterOf (cs : List Clause) : List Node :=
  clauseRoster Node.id Node.bare Clause.mentioned Clause.declared? cs

theorem mem_mentioned_of_declared {cs : List Clause} {n : Node}
    (hn : n ∈ cs.filterMap Clause.declared?) : n.id ∈ cs.flatMap Clause.mentioned := by
  obtain ⟨c, hc, hdeclared⟩ := List.mem_filterMap.1 hn
  apply List.mem_flatMap.2
  cases c with
  | node m position =>
    simp only [Clause.declared?, Option.ite_none_left_eq_some] at hdeclared
    obtain rfl := Option.some.inj hdeclared.2
    exact ⟨_, hc, List.mem_singleton_self _⟩
  | edge _ => cases hdeclared
  | classDef _ _ => cases hdeclared
  | classes _ _ => cases hdeclared
  | style _ _ => cases hdeclared

/-- A mention of `id` in the registry is a mention in the roster, behind the others. -/
theorem mention_roster {mentions : List String} {declared : List Node}
    (h : ∀ n ∈ declared, n.id ∈ mentions) (id : String) :
    mention (roster Node.id Node.bare mentions declared) id =
      roster Node.id Node.bare (mentions ++ [id]) declared :=
  (roster_mention (fun _ => rfl) h id).symm

/-- Entering one clause `c` more in the roster makes the roster of one clause more. -/
theorem enter_rosterOf (cs : List Clause) (c : Clause) :
    enter (rosterOf cs) c = rosterOf (cs ++ [c]) := by
  have hdeclared : ∀ n ∈ cs.filterMap Clause.declared?, n.id ∈ cs.flatMap Clause.mentioned :=
    fun n => mem_mentioned_of_declared
  unfold rosterOf clauseRoster
  rw [List.flatMap_append, List.filterMap_append, List.flatMap_singleton]
  cases c with
  | node n position =>
    show declare _ n = _
    unfold declare
    rw [mention_roster hdeclared]
    -- A bare node is mentioned only, and any other replaces the node of its id.
    by_cases hbare : n = Node.bare n.id
    · have hnone : [Clause.node n position].filterMap Clause.declared? = [] := by
        simp [Clause.declared?, ← hbare]
      rw [if_pos hbare, hnone, List.append_nil]
      rfl
    · have hsome : [Clause.node n position].filterMap Clause.declared? = [n] := by
        simp [Clause.declared?, hbare]
      rw [if_neg hbare, hsome, roster_declare fun _ => rfl]
      rfl
  -- An edge mentions both of its ends and declares nothing.
  | edge e =>
    show mention (mention _ e.source) e.target = _
    rw [mention_roster hdeclared, mention_roster, List.append_assoc]
    · exact congrArg _ (List.append_nil _).symm
    · intro n hn
      exact List.mem_append_left _ (hdeclared n hn)
  | classDef _ _ | classes _ _ | style _ _ =>
    show roster _ _ _ _ = roster _ _ (_ ++ []) (_ ++ [])
    rw [List.append_nil, List.append_nil]

/-- What clauses `cs` make in an empty registry is their roster, by induction from the last clause
on. -/
theorem foldl_enter (cs : List Clause) : cs.foldl enter [] = rosterOf cs :=
  foldl_eq_roster enter_rosterOf cs

/-- What statements `ss` make in an empty registry: one node for each id at its first mention, as
its last declaration gives it. -/
theorem ofStatements_eq_map (ss : List Statement) :
    ofStatements ss = (mentionedIds ss).eraseDups.map (nodeOf ss) := by
  rw [ofStatements_eq, foldl_enter, mentionedIds_eq]
  rfl

end Registry

/-! ### Drafts -/

namespace Draft

/-- The clauses of the draft `d` read so far in document order, those of outer open subgraphs first.
No statement stands behind an open subgraph yet. -/
def clauses (d : Draft) : List Clause :=
  clausesOf d.statements ++ d.opened.reverse.flatMap fun s => clausesOf s.body

/-- The registry of a draft `d` is what the clauses read so far make. -/
def Registered (d : Draft) : Prop := EnteredBy Registry.enter d.nodes d.clauses

/-- What one statement does to a draft `d`. -/
inductive Step (d : Draft) : Draft → Prop
  | skip : Step d d
  | add (cs : List Clause) : Step d (d.add cs)
  | openSubgraph (head : Subgraph) : Step d (d.openSubgraph head)
  | closeSubgraph : Step d d.closeSubgraph
  | setDirection (direction : Direction) : Step d (d.setDirection direction)

variable {d d' : Draft}

theorem nodes_extend (d : Draft) (ss : List Statement) : (d.extend ss).nodes = d.nodes := by
  unfold extend
  split <;> rfl

/-- New statements `ss` come last, since all that is open is open around them. -/
theorem clauses_extend (d : Draft) (ss : List Statement) :
    (d.extend ss).clauses = d.clauses ++ clausesOf ss := by
  obtain ⟨direction, nodes, statements, opened⟩ := d
  cases opened with
  | nil => simp [clauses, extend, clausesOf_append]
  | cons s outer => simp [clauses, extend, clausesOf_append]

theorem clauses_closeSubgraph (d : Draft) : d.closeSubgraph.clauses = d.clauses := by
  unfold closeSubgraph
  split
  · rfl
  · next s outer h =>
    rw [clauses_extend, clausesOf_subgraph]
    simp [clauses, h]

theorem nodes_closeSubgraph (d : Draft) : d.closeSubgraph.nodes = d.nodes := by
  unfold closeSubgraph
  split
  · rfl
  · exact nodes_extend _ _

/-- Each statement keeps the registry what the clauses make, whatever step `h` it takes. -/
theorem Step.registered (h : d.Step d') (hd : d.Registered) : d'.Registered := by
  unfold Registered at *
  cases h with
  | skip => exact hd
  | add cs =>
    unfold Draft.add
    rw [clauses_extend, nodes_extend, clausesOf_map_clause]
    exact hd.append cs
  | openSubgraph head => simpa [Draft.openSubgraph, clauses] using hd
  | closeSubgraph => rwa [clauses_closeSubgraph, nodes_closeSubgraph]
  | setDirection direction =>
    unfold Draft.setDirection
    split
    · exact hd
    · next s outer hopened => simpa [clauses, hopened] using hd

end Draft

/-! ### Reading -/

/-- What a statement does to the draft `d`, whatever its line holds: it takes one of the steps. -/
theorem ensures_step (d : Draft) : Ensures (fun _ => True) (statement d) fun d' _ => d.Step d' := by
  apply Ensures.look_bind
  intro token
  apply Ensures.look_bind
  intro second
  apply Ensures.look_bind
  intro newline
  -- a line break
  apply Ensures.ite
  · intro _
    exact .bind .unknown fun _ => .pure fun _ _ => .skip
  intro _
  -- the end of a subgraph, which has to be open
  apply Ensures.ite
  · intro _
    apply Ensures.ite
    · intro _
      exact .fail _
    · intro _
      exact .bind .unknown fun _ => .bind .unknown fun _ => .pure fun _ _ => .closeSubgraph
  intro _
  -- the start of a subgraph
  apply Ensures.ite
  · intro _
    exact .bind .unknown fun head => .pure fun _ _ => .openSubgraph head
  intro _
  -- a direction
  apply Ensures.ite
  · intro _
    exact .bind .unknown fun direction => .pure fun _ _ => .setDirection direction
  intro _
  -- the definition of a class, the assignment of one, or a style
  apply Ensures.ite
  · intro _
    exact .bind .unknown fun c => .pure fun _ _ => .add [c]
  intro _
  apply Ensures.ite
  · intro _
    exact .bind .unknown fun c => .pure fun _ _ => .add [c]
  intro _
  apply Ensures.ite
  · intro _
    exact .bind .unknown fun c => .pure fun _ _ => .add [c]
  · -- all others are chains of nodes
    intro _
    exact .bind .unknown fun cs => .pure fun _ _ => .add cs

theorem ensures_header_registered :
    Ensures (fun _ => True) header fun d _ => d.Registered := by
  have hempty : ∀ x : Direction, Draft.Registered { direction := x } := by
    intro x
    simp [Draft.Registered, Draft.clauses, EnteredBy.nil]
  have hend : ∀ d : Draft, d.Registered →
      Ensures (fun _ => True) (do endStatement; return d) fun d _ => d.Registered :=
    fun d hd => .bind .unknown fun _ => .pure fun _ _ => hd
  unfold header
  refine .bind .unknown fun _ => .bind .unknown fun word => ?_
  cases word with
  | none => exact .fail _
  | some _ =>
    refine .look_bind fun _ => .ite (fun _ => ?_) fun _ => ?_
    · exact .bind .unknown fun x => hend _ (hempty x)
    · exact hend _ (hempty _)

/-- The registry of a flowchart that is read is what its statements make in document order, also
where they stand in subgraphs. -/
theorem ensures_read_registered :
    Ensures (fun _ => True) read fun d _ => d.nodes = Registry.ofStatements d.statements := by
  have hstatement : ∀ d : Draft, Ensures (fun _ => d.Registered) (statement d)
      fun d' _ => d'.Registered :=
    fun d c d' c' hd hx => (ensures_step d c d' c' trivial hx).registered hd
  unfold read
  refine .bind ensures_header_registered fun d => .bind (Ensures.untilEnd hstatement d) fun d => ?_
  split
  · next hopened =>
    apply Ensures.pure
    intro c hd
    rw [Draft.Registered, Draft.clauses, hopened] at hd
    rw [Registry.ofStatements_eq, hd]
    simp
  · exact .look_bind fun _ => .failAt _ _

/-! ### Edits -/

/-- The flowchart `e` is `d` after an accepted edit. -/
inductive Edit (d : Flowchart) : Flowchart → Prop
  | addNode {e : Flowchart} {id : String} {label : Option String} {shape : Shape}
      (h : d.addNode id label shape = .ok e) : Edit d e
  | addEdge {e : Flowchart} {source target : String} {kind : EdgeKind} {label : Option String}
      (h : d.addEdge source target kind label = .ok e) : Edit d e
  | removeNode (id : String) : Edit d (d.removeNode id)

/-- A flowchart `d` to start from: an empty one, or one that comes from a document. -/
def IsStart (d : Flowchart) : Prop :=
  (∃ direction, d = { direction := direction }) ∨ (Diagram.flowchart d).IsRead

/-- The registry of a flowchart `d` is that of its statements, entered one after the other in
document order. -/
structure Registered (d : Flowchart) : Prop where
  nodes_eq : d.nodes = Registry.ofStatements d.statements
  /-- No id is registered twice. -/
  nodup : (d.nodes.map Node.id).Nodup
  /-- The ids of declarations and edges are registered, in the order of their first mention. -/
  ids_eq : d.nodes.map Node.id = (mentionedIds d.statements).eraseDups
  /-- Each is registered as its last declaration with a label or a shape gives it. -/
  node?_eq : ∀ id ∈ mentionedIds d.statements, d.node? id = some (nodeOf d.statements id)

variable {d e : Flowchart}

/-- The registry of statements is known from the mentions and the declarations in them: from the one
equation come all fields of `Registered`. -/
theorem Registered.of_nodes_eq (h : d.nodes = Registry.ofStatements d.statements) :
    d.Registered := by
  have hroster : d.nodes = roster Node.id Node.bare (mentionedIds d.statements)
      (declarations d.statements) := h.trans (Registry.ofStatements_eq_map d.statements)
  constructor
  · exact h
  · rw [hroster]
    exact nodup_map_key_roster (fun _ => rfl) _ _
  · rw [hroster]
    exact map_key_roster (fun _ => rfl) _ _
  · intro id hid
    rw [node?, hroster]
    exact find?_roster (fun _ => rfl) hid

theorem nodes_append (h : d.nodes = Registry.ofStatements d.statements) (c : Clause) :
    (d.append c).nodes = Registry.ofStatements (d.append c).statements := by
  have hclauses : clausesOf [.clause c] = [c] := clausesOf_map_clause [c]
  show Registry.enter d.nodes c = Registry.ofStatements (d.statements ++ [.clause c])
  rw [Registry.ofStatements_eq, clausesOf_append, hclauses, List.foldl_append,
    ← Registry.ofStatements_eq, ← h]
  rfl

/-- An edit leaves the registry to be what the statements make: additions enter their clause, and a
removal makes it anew. -/
theorem Edit.nodes_eq (h : Edit d e) (hd : d.nodes = Registry.ofStatements d.statements) :
    e.nodes = Registry.ofStatements e.statements := by
  cases h with
  | addNode h =>
    obtain ⟨id', -, h⟩ := Except.bind_eq_ok_iff.1 h
    split at h
    · cases h
    · obtain ⟨label', -, h⟩ := Except.bind_eq_ok_iff.1 h
      cases h
      exact nodes_append hd _
  | addEdge h =>
    obtain ⟨_, -, h⟩ := Except.bind_eq_ok_iff.1 h
    obtain ⟨_, -, h⟩ := Except.bind_eq_ok_iff.1 h
    obtain ⟨label', -, h⟩ := Except.bind_eq_ok_iff.1 h
    cases h
    exact nodes_append hd _
  | removeNode id => rfl

theorem IsStart.nodes_eq (h : d.IsStart) : d.nodes = Registry.ofStatements d.statements := by
  rcases h with ⟨direction, rfl⟩ | h
  · simp [Registry.ofStatements, Statement.walk]
  · apply h.of_ensures (x := read) (P := fun _ => True) (Q := fun d : Flowchart =>
      d.nodes = Registry.ofStatements d.statements)
    · intro d e hde
      exact Diagram.flowchart.inj hde
    · rfl
    · exact fun _ _ => trivial
    · exact ensures_read_registered

/-- After any number of edits of an empty flowchart, or of one that comes from a document, the
registry is that of the statements. -/
theorem registered_of_edits {d₀ d : Flowchart} (hstart : d₀.IsStart)
    (h : Relation.ReflTransGen Edit d₀ d) : d.Registered := by
  apply Registered.of_nodes_eq
  induction h with
  | refl => exact hstart.nodes_eq
  | tail _ hedit ih => exact hedit.nodes_eq ih

/-- A node is added to what is read and linked to one in the subgraph, which then goes. What was
mentioned only beside it is declared at the end, so the registry gets another order. -/
theorem registered_of_edits_subgraph : ∃ d₀ d₁ d₂ : Flowchart,
    Program.read "graph\nsubgraph s\nA[x] --> B[y]\nend\nB --> C\n" = .ok ⟨[.flowchart d₀]⟩ ∧
      d₀.addNode "D" (some "z") .circle = .ok d₁ ∧ d₁.addEdge "D" "B" = .ok d₂ ∧
        d₂.nodes.map Node.id = ["A", "B", "C", "D"] ∧
          (d₂.removeNode "B").nodes.map Node.id = ["A", "D", "C"] ∧
            (d₂.removeNode "B").Registered := by
  let body : List Statement :=
    [.clause (.node ⟨"A", some (Content.ofText "x"), .rectangle⟩ (some ⟨3, 0, 17⟩)),
      .clause (.node ⟨"B", some (Content.ofText "y"), .rectangle⟩ (some ⟨3, 9, 26⟩)),
      .clause (.edge ⟨"A", "B", .arrow, none, some ⟨3, 5, 22⟩⟩)]
  let statements : List Statement :=
    [.subgraph ⟨"s", none, none, some ⟨2, 0, 6⟩⟩ body,
      .clause (.edge ⟨"B", "C", .arrow, none, some ⟨5, 2, 37⟩⟩)]
  let d₀ : Flowchart := ⟨.td, statements, Registry.ofStatements statements⟩
  let d₁ : Flowchart := d₀.append (.node ⟨"D", some (Content.ofText "z"), .circle⟩ none)
  let d₂ : Flowchart := d₁.append (.edge ⟨"D", "B", .arrow, none, none⟩)
  have hread : Program.read "graph\nsubgraph s\nA[x] --> B[y]\nend\nB --> C\n" =
      .ok ⟨[.flowchart d₀]⟩ := by decide +kernel
  have hnode : d₀.addNode "D" (some "z") .circle = .ok d₁ := by decide +kernel
  have hedge : d₁.addEdge "D" "B" = .ok d₂ := by decide +kernel
  have hstart : d₀.IsStart := .inr ⟨_, _, hread, List.mem_singleton_self _⟩
  have hedits : Relation.ReflTransGen Edit d₀ (d₂.removeNode "B") :=
    .tail (.tail (.single (.addNode hnode)) (.addEdge hedge)) (.removeNode "B")
  exact ⟨d₀, d₁, d₂, hread, hnode, hedge, by decide +kernel, by decide +kernel,
    registered_of_edits hstart hedits⟩

end Flowchart
end DiagramText
