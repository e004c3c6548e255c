import DiagramText.Flowchart.Writer
import DiagramText.Proofs.States.RoundTrip
import DiagramText.Proofs.Walk
import DiagramText.Sequence.Writer
import DiagramText.States.Writer

/-!
# Lines laid out by recursion

The writers of nested diagrams take their lines from an agenda, in which finished lines stand
between bodies that are still to be written. Here the lines come from the tree itself: the header of
a block, its body one level deeper, a separator before each further part, and the closing line.

* `Laid`: a line before it is indented, with the statement that it writes.
* `Sequence.Statement.laid`, `Flowchart.Statement.laid` and `States.State.laid`: the lines of a
  tree.
* `Agenda.lines_eq`: an agenda gives the lines of its items, one after the other.
* `Sequence.Statement.written_laid`, `Flowchart.Statement.written_laid` and
  `States.State.written_laid`: what the lines of a tree write is its listing.
* `lines_eq_laid`: all of this, for the lines of whole diagrams.
-/

namespace DiagramText

/-- A line before it is indented. The first line of a statement tells the statement, in `writes`. -/
structure Laid (σ : Type) where
  depth : Nat
  text : String
  writes : Option σ := none

namespace Laid

variable {σ : Type}

/-- A line with its indent in the `layout`. -/
def line (layout : Layout) (l : Laid σ) : String := layout.line l.depth l.text

/-- The statements that the lines `ls` write, each with the depth of its first line. -/
def written (ls : List (Laid σ)) : List (Nat × σ) :=
  ls.filterMap fun l => l.writes.map fun s => (l.depth, s)

theorem written_append (ls ms : List (Laid σ)) : written (ls ++ ms) = written ls ++ written ms :=
  List.filterMap_append

@[simp]
theorem written_nil : written ([] : List (Laid σ)) = [] := rfl

@[simp]
theorem written_some (depth : Nat) (text : String) (s : σ) (ls : List (Laid σ)) :
    written (⟨depth, text, some s⟩ :: ls) = (depth, s) :: written ls := rfl

@[simp]
theorem written_none (depth : Nat) (text : String) (ls : List (Laid σ)) :
    written (⟨depth, text, none⟩ :: ls) = written ls := rfl

end Laid

/-! ### Agendas -/

/-- The lines that an item stands for, if `laid` gives those of a body at some depth. -/
def Item.laid {β : Type} (laid : Nat → β → List String) : Item β → List String
  | .lines texts => texts
  | .body b depth => laid depth b

/-- The items of the elements of a list stand for `lines`, if these are those of each element in
order. -/
theorem Item.flatMap_laid {α β : Type} {laid : Nat → β → List String} {items : α → List (Item β)}
    (lines : List α → List String) (hnil : lines [] = [])
    (hcons : ∀ a as, lines (a :: as) = (items a).flatMap (Item.laid laid) ++ lines as)
    (as : List α) : (as.flatMap items).flatMap (Item.laid laid) = lines as := by
  induction as with
  | nil => exact hnil.symm
  | cons a as ih => rw [List.flatMap_cons, List.flatMap_append, ih, hcons]

/-- The lines of an agenda are those that its items stand for, if the items of each body stand for
the lines that `laid` gives for it. -/
theorem Agenda.lines_eq {β : Type} (a : Agenda β) {laid : Nat → β → List String}
    (h : ∀ depth b, (a.items depth b).flatMap (Item.laid laid) = laid depth b)
    (items : List (Item β)) : a.lines items = items.flatMap (Item.laid laid) := by
  induction items using Agenda.lines.induct a with
  | case1 => rw [lines_nil, List.flatMap_nil]
  | case2 texts items ih => rw [lines_lines, ih, List.flatMap_cons, Item.laid]
  | case3 b depth items ih => rw [lines, ih, List.flatMap_append, h, List.flatMap_cons, Item.laid]

/-! ### Flowcharts -/

namespace Flowchart

namespace Statement

mutual

/-- The lines of a statement at the given `depth`: one for a clause, and for a subgraph those of its
body between two of its own. -/
def laid (depth : Nat) : Statement → List (Laid Statement)
  | .clause c => [⟨depth, c.text, some (.clause c)⟩]
  | .subgraph head body =>
    ⟨depth, head.text, some (.subgraph head body)⟩ ::
      ((head.direction.map fun d => ⟨depth + 1, s!"direction {d.name}", none⟩).toList ++
        laidList (depth + 1) body ++ [⟨depth, "end", none⟩])

/-- The lines of statements, one after the other. -/
def laidList (depth : Nat) : List Statement → List (Laid Statement)
  | [] => []
  | s :: ss => s.laid depth ++ laidList depth ss

end

mutual

/-- The lines of a statement `s` write it and all that it holds, each once and in order. -/
theorem written_laid (depth : Nat) : ∀ s : Statement, Laid.written (s.laid depth) = s.listing depth
  | .clause _ => rfl
  | .subgraph head body => by
    rw [laid, Laid.written_some, Laid.written_append, Laid.written_append, written_laidList,
      listing]
    cases head.direction <;> simp

theorem written_laidList (depth : Nat) : ∀ ss : List Statement,
    Laid.written (laidList depth ss) = listingList depth ss
  | [] => rfl
  | s :: ss => by
    rw [laidList, Laid.written_append, written_laid, written_laidList, listingList]

end

end Statement

/-- The lines of the statements `ss` of a body, laid out, which is what an agenda has to give. -/
def bodyLines (layout : Layout) (depth : Nat) (ss : List Statement) : List String :=
  (Statement.laidList depth ss).map (Laid.line layout)

theorem laid_items (layout : Layout) (depth : Nat) (s : Statement) :
    (s.items layout depth).flatMap (Item.laid (bodyLines layout)) =
      (s.laid depth).map (Laid.line layout) := by
  cases s with
  | clause c => rfl
  | subgraph head body =>
    rw [Statement.items, Statement.laid]
    cases head.direction <;> simp [Item.laid, bodyLines, Laid.line]

theorem laid_bodyItems (layout : Layout) (depth : Nat) (ss : List Statement) :
    (bodyItems layout depth ss).flatMap (Item.laid (bodyLines layout)) =
      bodyLines layout depth ss := by
  apply Item.flatMap_laid (bodyLines layout depth) rfl
  intro s ss
  rw [laid_items, bodyLines, Statement.laidList, List.map_append, bodyLines]

/-- The lines of a flowchart `d` below its header. -/
def laid (d : Flowchart) : List (Laid Statement) := Statement.laidList 1 d.statements

theorem lines_eq (layout : Layout) (d : Flowchart) :
    d.lines layout = s!"flowchart {d.direction.name}" :: d.laid.map (Laid.line layout) := by
  rw [lines, (agenda layout).lines_eq (laid_bodyItems layout), List.flatMap_singleton]
  rfl

end Flowchart

/-! ### Sequence diagrams -/

namespace Sequence

namespace Statement

mutual

/-- The lines of a statement at the given `depth`: one for a clause, and for a block those of its
branches with the words between them. -/
def laid (depth : Nat) : Statement → List (Laid Statement)
  | .clause c => [⟨depth, c.text, some (.clause c)⟩]
  | .block head body branches =>
    ⟨depth, keywordLine head.kind.text head.label, some (.block head body branches)⟩ ::
      (laidList (depth + 1) body ++ laidBranches depth head.kind branches ++
        [⟨depth, "end", none⟩])

/-- The lines of statements, one after the other. -/
def laidList (depth : Nat) : List Statement → List (Laid Statement)
  | [] => []
  | s :: ss => s.laid depth ++ laidList depth ss

/-- The lines of further branches: the word that opens one, then its statements. -/
def laidBranches (depth : Nat) (kind : BlockKind) : List (Branch Statement) → List (Laid Statement)
  | [] => []
  | ⟨label, body⟩ :: bs =>
    ⟨depth, keywordLine kind.branchWord label, none⟩ ::
      (laidList (depth + 1) body ++ laidBranches depth kind bs)

end

mutual

/-- The lines of a statement `s` write it and all that it holds, each once and in order. -/
theorem written_laid (depth : Nat) : ∀ s : Statement, Laid.written (s.laid depth) = s.listing depth
  | .clause _ => rfl
  | .block head body branches => by
    rw [laid, Laid.written_some, Laid.written_append, Laid.written_append, written_laidList,
      written_laidBranches, Laid.written_none, Laid.written_nil, List.append_nil, listing]

theorem written_laidList (depth : Nat) : ∀ ss : List Statement,
    Laid.written (laidList depth ss) = listingList depth ss
  | [] => rfl
  | s :: ss => by
    rw [laidList, Laid.written_append, written_laid, written_laidList, listingList]

theorem written_laidBranches (depth : Nat) (kind : BlockKind) : ∀ bs : List (Branch Statement),
    Laid.written (laidBranches depth kind bs) = listingBranches (depth + 1) bs
  | [] => rfl
  | ⟨_, body⟩ :: bs => by
    rw [laidBranches, Laid.written_none, Laid.written_append, written_laidList,
      written_laidBranches, listingBranches]

end

end Statement

/-- The lines of the statements `ss` of a body, laid out, which is what an agenda has to give. -/
def bodyLines (layout : Layout) (depth : Nat) (ss : List Statement) : List String :=
  (Statement.laidList depth ss).map (Laid.line layout)

theorem laid_branches (layout : Layout) (depth : Nat) (kind : BlockKind)
    (bs : List (Branch Statement)) :
    (bs.flatMap (Branch.items layout depth kind)).flatMap (Item.laid (bodyLines layout)) =
      (Statement.laidBranches depth kind bs).map (Laid.line layout) := by
  apply Item.flatMap_laid
    (fun bs => (Statement.laidBranches depth kind bs).map (Laid.line layout)) rfl
  intro b bs
  simp [Statement.laidBranches, Branch.items, Item.laid, bodyLines, Laid.line]

theorem laid_items (layout : Layout) (depth : Nat) (s : Statement) :
    (s.items layout depth).flatMap (Item.laid (bodyLines layout)) =
      (s.laid depth).map (Laid.line layout) := by
  cases s with
  | clause c => rfl
  | block head body branches =>
    rw [Statement.items, Statement.laid, List.flatMap_append, List.flatMap_cons, List.flatMap_cons,
      laid_branches]
    simp [Item.laid, bodyLines, Laid.line]

theorem laid_bodyItems (layout : Layout) (depth : Nat) (ss : List Statement) :
    (bodyItems layout depth ss).flatMap (Item.laid (bodyLines layout)) =
      bodyLines layout depth ss := by
  apply Item.flatMap_laid (bodyLines layout depth) rfl
  intro s ss
  rw [laid_items, bodyLines, Statement.laidList, List.map_append, bodyLines]

end Sequence

namespace SequenceDiagram

open Sequence

/-- The lines of a sequence diagram `d` below its header. -/
def laid (d : SequenceDiagram) : List (Laid Statement) :=
  (if d.autonumber then [⟨1, "autonumber", none⟩] else []) ++ Statement.laidList 1 d.statements

theorem lines_eq (layout : Layout) (d : SequenceDiagram) :
    d.lines layout = "sequenceDiagram" :: d.laid.map (Laid.line layout) := by
  rw [lines, (agenda layout).lines_eq (laid_bodyItems layout), List.flatMap_singleton, laid,
    List.map_append]
  cases d.autonumber <;> rfl

end SequenceDiagram

/-! ### State diagrams -/

namespace States

/-- What a scope declares: a state, a transition or a note. -/
inductive Entry where
  | state (state : State)
  | transition (transition : Transition)
  | note (note : Note)

/-- The lines of a note `n`, of which those of a text with several lines are one level deeper. -/
def Note.laid (depth : Nat) (n : Note) : List (Laid Entry) :=
  let head := s!"note {n.placement.text} {n.state}"
  let raw := n.text.raw
  if raw.isEmpty then [⟨depth, head, some (.note n)⟩, ⟨depth, "end note", none⟩]
  else if raw.toList.contains '\n' then
    ⟨depth, head, some (.note n)⟩ ::
      (raw.toList.splitOn '\n').map (fun l => ⟨depth + 1, String.ofList l, none⟩) ++
        [⟨depth, "end note", none⟩]
  else [⟨depth, s!"{head} : {raw}", some (.note n)⟩]

/-- The lines of the transitions and notes of a scope, behind those of its states. -/
def laidTail (depth : Nat) (transitions : List Transition) (notes : List Note) :
    List (Laid Entry) :=
  transitions.map (fun t => ⟨depth, t.text, some (.transition t)⟩) ++
    notes.flatMap (Note.laid depth)

/-- The transitions and notes of a scope as entries at the given `depth`. -/
def tailEntries (depth : Nat) (transitions : List Transition) (notes : List Note) :
    List (Nat × Entry) :=
  (transitions.map Entry.transition ++ notes.map Entry.note).map fun e => (depth, e)

namespace State

/-- The line that gives a state `s` its label, if it has one. -/
def laidLabel (depth : Nat) (s : State) : List (Laid Entry) :=
  (s.label.map fun l => ⟨depth, s!"{s.id} : {l.raw}", none⟩).toList

mutual

/-- The lines of a state at the given `depth`. A state that is composite has those of its scopes
between two of its own, and its label behind them. -/
def laid (depth : Nat) : State → List (Laid Entry)
  | s@⟨_, _, _, none, _, _, _, _, _⟩ =>
    ⟨depth, s.declaration, some (.state s)⟩ :: s.laidLabel depth
  | s@⟨id, _, _, some ss, transitions, notes, direction, regions, _⟩ =>
    ⟨depth, s!"state {id} \x7b", some (.state s)⟩ ::
      ((direction.map fun d => ⟨depth + 1, s!"direction {d.name}", none⟩).toList ++
        (laidList (depth + 1) ss ++ laidTail (depth + 1) transitions notes) ++
        laidRegions (depth + 1) regions ++ ⟨depth, "\x7d", none⟩ :: s.laidLabel depth)

/-- The lines of states, one after the other. -/
def laidList (depth : Nat) : List State → List (Laid Entry)
  | [] => []
  | s :: ss => s.laid depth ++ laidList depth ss

/-- The lines of further regions: a separator, then the scope of the region. -/
def laidRegions (depth : Nat) : List (Scope State) → List (Laid Entry)
  | [] => []
  | ⟨states, transitions, notes⟩ :: rs =>
    ⟨depth, "--", none⟩ ::
      (laidList depth states ++ laidTail depth transitions notes ++ laidRegions depth rs)

end

mutual

/-- A state and all that is declared in its scopes, each with the number of scopes around it. A
state without a first region has no scopes. -/
def entries (depth : Nat) : State → List (Nat × Entry)
  | s@⟨_, _, _, none, _, _, _, _, _⟩ => [(depth, .state s)]
  | s@⟨_, _, _, some ss, transitions, notes, _, regions, _⟩ =>
    (depth, .state s) :: (entriesList (depth + 1) ss ++ tailEntries (depth + 1) transitions notes ++
      entriesScopes (depth + 1) regions)

/-- The entries of states, one after the other. -/
def entriesList (depth : Nat) : List State → List (Nat × Entry)
  | [] => []
  | s :: ss => s.entries depth ++ entriesList depth ss

/-- The entries of scopes: the states of each, then its transitions and its notes. -/
def entriesScopes (depth : Nat) : List (Scope State) → List (Nat × Entry)
  | [] => []
  | ⟨states, transitions, notes⟩ :: rs =>
    entriesList depth states ++ tailEntries depth transitions notes ++ entriesScopes depth rs

end

end State

theorem Note.written_laid (depth : Nat) (n : Note) :
    Laid.written (n.laid depth) = [(depth, .note n)] := by
  unfold Note.laid
  dsimp only
  split
  · rfl
  · split
    · rw [List.cons_append, Laid.written_some, Laid.written_append, Laid.written_none,
        Laid.written_nil, Laid.written, List.filterMap_map]
      simp
    · rfl

theorem written_laidTail (depth : Nat) (ts : List Transition) (ns : List Note) :
    Laid.written (laidTail depth ts ns) = tailEntries depth ts ns := by
  have hnotes : Laid.written (ns.flatMap (Note.laid depth)) =
      ns.map fun n => (depth, Entry.note n) := by
    induction ns with
    | nil => rfl
    | cons n ns ih =>
      rw [List.flatMap_cons, Laid.written_append, Note.written_laid, ih, List.map_cons,
        List.singleton_append]
  rw [laidTail, Laid.written_append, hnotes, Laid.written, List.filterMap_map, tailEntries,
    List.map_append, List.map_map, List.map_map]
  simp [Function.comp_def]

namespace State

theorem written_laidLabel (depth : Nat) (s : State) : Laid.written (s.laidLabel depth) = [] := by
  rw [laidLabel]
  cases s.label <;> rfl

mutual

/-- The lines of a state write it and all that is declared in its scopes, each once and in order. -/
theorem written_laid (depth : Nat) : ∀ s : State, Laid.written (s.laid depth) = s.entries depth
  | ⟨_, _, _, none, _, _, _, _, _⟩ => by
    rw [laid, Laid.written_some, written_laidLabel, entries]
  | ⟨_, _, _, some ss, transitions, notes, direction, regions, _⟩ => by
    rw [laid, Laid.written_some, entries]
    simp only [Laid.written_append, Laid.written_none, written_laidList, written_laidTail,
      written_laidRegions, written_laidLabel]
    cases direction <;> simp

theorem written_laidList (depth : Nat) : ∀ ss : List State,
    Laid.written (laidList depth ss) = entriesList depth ss
  | [] => rfl
  | s :: ss => by
    rw [laidList, Laid.written_append, written_laid, written_laidList, entriesList]

theorem written_laidRegions (depth : Nat) : ∀ rs : List (Scope State),
    Laid.written (laidRegions depth rs) = entriesScopes depth rs
  | [] => rfl
  | ⟨states, transitions, notes⟩ :: rs => by
    rw [laidRegions, Laid.written_none, Laid.written_append, Laid.written_append, written_laidList,
      written_laidTail, written_laidRegions, entriesScopes]

end

end State

theorem map_laid_note (layout : Layout) (depth : Nat) (n : Note) :
    (n.laid depth).map (Laid.line layout) = n.lines layout depth := by
  unfold Note.laid Note.lines
  dsimp only
  split
  · rfl
  · split
    · rw [List.map_append, List.map_cons, List.map_map]
      rfl
    · rfl

theorem map_laidTail (layout : Layout) (depth : Nat) (ts : List Transition) (ns : List Note) :
    (laidTail depth ts ns).map (Laid.line layout) =
      ts.map (fun t => layout.line depth t.text) ++ ns.flatMap (Note.lines layout depth) := by
  rw [laidTail, List.map_append, List.map_map, List.map_flatMap]
  simp only [map_laid_note]
  rfl

theorem map_laidLabel (layout : Layout) (depth : Nat) (s : State) :
    (s.laidLabel depth).map (Laid.line layout) = s.labelLines layout depth := by
  rw [State.laidLabel, State.labelLines]
  cases s.label <;> rfl

/-- The lines of a scope `y`, laid out, which is what an agenda has to give. -/
def scopeLines (layout : Layout) (depth : Nat) (y : Scope State) : List String :=
  (State.laidList depth y.states ++ laidTail depth y.transitions y.notes).map (Laid.line layout)

theorem laid_regions (layout : Layout) (depth : Nat) (rs : List (Scope State)) :
    (rs.flatMap (regionItems layout depth)).flatMap (Item.laid (scopeLines layout)) =
      (State.laidRegions depth rs).map (Laid.line layout) := by
  apply Item.flatMap_laid (fun rs => (State.laidRegions depth rs).map (Laid.line layout)) rfl
  intro r rs
  simp [State.laidRegions, regionItems, Item.laid, scopeLines, Laid.line]

theorem laid_items (layout : Layout) (depth : Nat) (s : State) :
    (s.items layout depth).flatMap (Item.laid (scopeLines layout)) =
      (s.laid depth).map (Laid.line layout) := by
  obtain ⟨id, label, kind, children, transitions, notes, direction, regions, position⟩ := s
  cases children with
  | none =>
    rw [State.laid, List.map_cons, map_laidLabel]
    exact List.append_nil _
  | some ss =>
    rw [State.laid, List.map_cons, List.map_append, List.map_append, List.map_append,
      List.map_cons, map_laidLabel, ← laid_regions]
    simp only [State.items, State.isComposite, Option.isSome_some, if_true, List.flatMap_append,
      List.flatMap_cons, List.cons_append, Item.laid, scopeLines, State.ownScope, Option.getD_some]
    cases direction <;> simp [Laid.line]

theorem laid_states (layout : Layout) (depth : Nat) (ss : List State) :
    (ss.flatMap (State.items layout depth)).flatMap (Item.laid (scopeLines layout)) =
      (State.laidList depth ss).map (Laid.line layout) := by
  apply Item.flatMap_laid (fun ss => (State.laidList depth ss).map (Laid.line layout)) rfl
  intro s ss
  rw [State.laidList, List.map_append, laid_items]

theorem laid_scopeItems (layout : Layout) (depth : Nat) (y : Scope State) :
    (scopeItems layout depth y).flatMap (Item.laid (scopeLines layout)) =
      scopeLines layout depth y := by
  rw [scopeItems, List.flatMap_append, laid_states, List.flatMap_singleton, Item.laid, scopeLines,
    List.map_append, map_laidTail]

/-! ### Scoped states -/

namespace Entry

/-- The state that an entry is, if it is one. -/
def state? : Entry → Option State
  | .state s => some s
  | _ => none

/-- The transition that an entry is, if it is one. -/
def transition? : Entry → Option Transition
  | .transition t => some t
  | _ => none

/-- The note that an entry is, if it is one. -/
def note? : Entry → Option Note
  | .note n => some n
  | _ => none

end Entry

/-- The states among the entries `es`, each with its depth. -/
def statesOf (es : List (Nat × Entry)) : List (Nat × State) :=
  es.filterMap fun e => e.2.state?.map fun s => (e.1, s)

theorem statesOf_append (es fs : List (Nat × Entry)) :
    statesOf (es ++ fs) = statesOf es ++ statesOf fs := List.filterMap_append

theorem statesOf_tailEntries (depth : Nat) (ts : List Transition) (ns : List Note) :
    statesOf (tailEntries depth ts ns) = [] := by
  simp [statesOf, tailEntries, Entry.state?]

namespace State

mutual

/-- The states that the lines of a scoped state write are those of its listing, at the same
depths. -/
theorem statesOf_entries (depth : Nat) : ∀ s : State, (∀ t ∈ s.nodes, t.Scoped) →
    statesOf (s.entries depth) = s.listing (fun n _ => n + 1) depth
  | ⟨_, _, _, none, _, _, _, regions, _⟩, h => by
    obtain ⟨-, -, rfl⟩ : _ ∧ _ ∧ regions = [] := h _ List.mem_cons_self rfl
    rfl
  | ⟨_, _, _, some ss, transitions, notes, _, regions, _⟩, h => by
    obtain ⟨-, hbelow⟩ := List.forall_mem_cons.1 h
    obtain ⟨hss, hregions⟩ := List.forall_mem_append.1 hbelow
    rw [entries, listing, listingChildren, ← statesOf_entriesList (depth + 1) ss hss,
      ← statesOf_entriesScopes (depth + 1) regions hregions, ← List.singleton_append,
      statesOf_append, statesOf_append, statesOf_append, statesOf_tailEntries, List.append_nil]
    rfl

theorem statesOf_entriesList (depth : Nat) : ∀ ss : List State, (∀ t ∈ nodesList ss, t.Scoped) →
    statesOf (entriesList depth ss) = listingList (fun n _ => n + 1) depth ss
  | [], _ => rfl
  | s :: ss, h => by
    obtain ⟨hs, hss⟩ := List.forall_mem_append.1 h
    rw [entriesList, statesOf_append, statesOf_entries depth s hs,
      statesOf_entriesList depth ss hss, listingList]

theorem statesOf_entriesScopes (depth : Nat) :
    ∀ rs : List (Scope State), (∀ t ∈ nodesScopes rs, t.Scoped) →
      statesOf (entriesScopes depth rs) = listingScopes (fun n _ => n + 1) depth rs
  | [], _ => rfl
  | ⟨states, _, _⟩ :: rs, h => by
    obtain ⟨hstates, hrs⟩ := List.forall_mem_append.1 h
    rw [entriesScopes, statesOf_append, statesOf_append, statesOf_tailEntries, List.append_nil,
      statesOf_entriesList depth states hstates, statesOf_entriesScopes depth rs hrs, listingScopes]

end

end State

/-! ### Transitions and notes -/

/-- A kind of entry that is not a state, with the entries of this kind in one scope. Transitions and
notes are the two kinds. -/
structure EntryKind (β : Type) where
  pick : Entry → Option β
  ofScope : Scope State → List β
  pick_state : ∀ s, pick (.state s) = none
  pick_tail : ∀ y : Scope State,
    (y.transitions.map Entry.transition ++ y.notes.map Entry.note).filterMap pick = ofScope y

namespace EntryKind

variable {β : Type} (kind : EntryKind β)

/-- The transitions of scopes as a kind of entry. -/
def transitions : EntryKind Transition where
  pick := Entry.transition?
  ofScope := Scope.transitions
  pick_state _ := rfl
  pick_tail y := by simp [List.filterMap_map, Function.comp_def, Entry.transition?]

/-- The notes of scopes as a kind of entry. -/
def notes : EntryKind Note where
  pick := Entry.note?
  ofScope := Scope.notes
  pick_state _ := rfl
  pick_tail y := by simp [List.filterMap_map, Function.comp_def, Entry.note?]

/-- The entries of one kind among `es`, without their depths. -/
def among (es : List (Nat × Entry)) : List β := es.filterMap fun e => kind.pick e.2

/-- The entries of one kind in all scopes of the states `ss`, without those in the states there. -/
def below (ss : List State) : List β := ss.flatMap fun s => s.scopes.flatMap kind.ofScope

theorem among_append (es fs : List (Nat × Entry)) :
    kind.among (es ++ fs) = kind.among es ++ kind.among fs := List.filterMap_append

theorem below_append (ss ts : List State) :
    kind.below (ss ++ ts) = kind.below ss ++ kind.below ts := List.flatMap_append

theorem among_state (depth : Nat) (s : State) (es : List (Nat × Entry)) :
    kind.among ((depth, .state s) :: es) = kind.among es :=
  List.filterMap_cons_none (kind.pick_state s)

theorem below_nodes (s : State) :
    kind.below s.nodes = kind.ofScope s.ownScope ++ s.regions.flatMap kind.ofScope ++
      (kind.below (State.nodesChildren s.children) ++ kind.below
        (State.nodesScopes s.regions)) := by
  rw [State.nodes_eq, ← below_append]
  rfl

theorem among_tailEntries (depth : Nat) (y : Scope State) :
    kind.among (tailEntries depth y.transitions y.notes) = kind.ofScope y := by
  rw [among, tailEntries, List.filterMap_map]
  exact kind.pick_tail y

/-- A scope comes before what is in its states, and after it in the lines. -/
theorem perm_of_scope {as bs cs ds : List β} :
    (as ++ bs ++ (cs ++ ds)).Perm (bs ++ cs ++ (as ++ ds)) := by
  have hmove : (as ++ (bs ++ cs) ++ ds).Perm (bs ++ cs ++ as ++ ds) :=
    List.perm_append_comm.append_right ds
  rwa [← List.append_assoc as, List.append_assoc _ cs, List.append_assoc _ as] at hmove

mutual

/-- The lines of a scoped state write all transitions, or all notes, of its scopes and of those of
the states inside it. -/
theorem perm_entries (depth : Nat) : ∀ s : State, (∀ t ∈ s.nodes, t.Scoped) →
    (kind.among (s.entries depth)).Perm (kind.below s.nodes)
  | ⟨_, _, _, none, transitions, notes, _, regions, _⟩, h => by
    obtain ⟨rfl, rfl, rfl⟩ : transitions = [] ∧ notes = [] ∧ regions = [] :=
      h _ List.mem_cons_self rfl
    have hnothing : kind.ofScope {} = [] := (kind.pick_tail {}).symm
    rw [State.entries, among_state, below_nodes]
    show List.Perm [] (kind.ofScope {} ++ [] ++ [])
    rw [hnothing]
    rfl
  | ⟨_, _, _, some ss, transitions, notes, _, regions, _⟩, h => by
    obtain ⟨-, hbelow⟩ := List.forall_mem_cons.1 h
    obtain ⟨hss, hregions⟩ := List.forall_mem_append.1 hbelow
    have htail := kind.among_tailEntries (depth + 1) ⟨ss, transitions, notes⟩
    rw [State.entries, among_state, among_append, among_append, htail, below_nodes]
    apply List.Perm.trans _ perm_of_scope
    exact ((perm_entriesList (depth + 1) ss hss).append_right _).append
      (perm_entriesScopes (depth + 1) regions hregions)

theorem perm_entriesList (depth : Nat) : ∀ ss : List State,
    (∀ t ∈ State.nodesList ss, t.Scoped) →
      (kind.among (State.entriesList depth ss)).Perm (kind.below (State.nodesList ss))
  | [], _ => List.Perm.refl _
  | s :: ss, h => by
    obtain ⟨hs, hss⟩ := List.forall_mem_append.1 h
    rw [State.entriesList, State.nodesList, among_append, below_append]
    exact (perm_entries depth s hs).append (perm_entriesList depth ss hss)

theorem perm_entriesScopes (depth : Nat) :
    ∀ rs : List (Scope State), (∀ t ∈ State.nodesScopes rs, t.Scoped) →
      (kind.among (State.entriesScopes depth rs)).Perm
        (rs.flatMap kind.ofScope ++ kind.below (State.nodesScopes rs))
  | [], _ => List.Perm.refl _
  | ⟨states, transitions, notes⟩ :: rs, h => by
    obtain ⟨hstates, hrs⟩ := List.forall_mem_append.1 h
    have htail := kind.among_tailEntries depth ⟨states, transitions, notes⟩
    rw [State.entriesScopes, among_append, among_append, htail, List.flatMap_cons,
      State.nodesScopes,
      below_append]
    apply List.Perm.trans _ perm_of_scope
    exact ((perm_entriesList depth states hstates).append_right _).append
      (perm_entriesScopes depth rs hrs)

end

end EntryKind

end States

namespace StateDiagram

open States

/-- The lines of a state diagram `d` below its header: its direction, and then its outermost
scope. -/
def laid (d : StateDiagram) : List (Laid Entry) :=
  (d.direction.map fun x => ⟨1, s!"direction {x.name}", none⟩).toList ++
    (State.laidList 1 d.scope.states ++ laidTail 1 d.scope.transitions d.scope.notes)

/-- All that is declared in a state diagram `d`, each with the number of scopes around it. -/
def entries (d : StateDiagram) : List (Nat × Entry) :=
  State.entriesList 1 d.scope.states ++ tailEntries 1 d.scope.transitions d.scope.notes

theorem lines_eq (layout : Layout) (d : StateDiagram) :
    d.lines layout = d.version.header :: d.laid.map (Laid.line layout) := by
  rw [lines, (agenda layout).lines_eq (laid_scopeItems layout), List.flatMap_singleton, laid,
    List.map_append]
  cases d.direction <;> rfl

theorem written_laid (d : StateDiagram) : Laid.written d.laid = d.entries := by
  rw [laid, Laid.written_append, Laid.written_append, State.written_laidList, written_laidTail,
    entries]
  cases d.direction <;> rfl

/-- The lines write the states of a diagram `d` of scoped states, in the order of its listing. -/
theorem statesOf_entries {d : StateDiagram} (h : ∀ s ∈ State.nodesList d.scope.states, s.Scoped) :
    statesOf d.entries = State.listingList (fun n _ => n + 1) 1 d.scope.states := by
  rw [entries, statesOf_append, statesOf_tailEntries, List.append_nil,
    State.statesOf_entriesList 1 _ h]

/-- The lines write the transitions, and the notes, of all scopes of a diagram `d` of scoped
states. -/
theorem perm_entries {β : Type} (kind : EntryKind β) {d : StateDiagram}
    (h : ∀ s ∈ State.nodesList d.scope.states, s.Scoped) :
    (kind.among d.entries).Perm (d.scopes.flatMap kind.ofScope) := by
  rw [entries, kind.among_append, kind.among_tailEntries, scopes, List.flatMap_cons,
    List.flatMap_assoc]
  exact ((kind.perm_entriesList 1 _ h).append_right _).trans List.perm_append_comm

end StateDiagram

/-! ### Whole diagrams -/

/-- The lines of a diagram come from its tree by recursion, each with its depth, and below the
header they write every statement once and in the order of the tree, with one level more than there
are subgraphs, blocks or composite states around it. The states, transitions and notes that the
lines of scoped states write are those of all scopes. -/
theorem lines_eq_laid (layout : Layout) (f : Flowchart) (q : SequenceDiagram) (d : StateDiagram) :
    (f.lines layout = s!"flowchart {f.direction.name}" :: f.laid.map (Laid.line layout) ∧
      Laid.written f.laid = Flowchart.Statement.listingList 1 f.statements) ∧
    (q.lines layout = "sequenceDiagram" :: q.laid.map (Laid.line layout) ∧
      Laid.written q.laid = Sequence.Statement.listingList 1 q.statements) ∧
    d.lines layout = d.version.header :: d.laid.map (Laid.line layout) ∧
      Laid.written d.laid = d.entries ∧
      ((∀ s ∈ States.State.nodesList d.scope.states, s.Scoped) →
        States.statesOf d.entries =
            States.State.listingList (fun n _ => n + 1) 1 d.scope.states ∧
          (d.entries.filterMap fun e => e.2.transition?).Perm
            (d.scopes.flatMap States.Scope.transitions) ∧
          (d.entries.filterMap fun e => e.2.note?).Perm
            (d.scopes.flatMap States.Scope.notes)) := by
  refine ⟨⟨f.lines_eq layout, Flowchart.Statement.written_laidList 1 _⟩,
    ⟨q.lines_eq layout, ?_⟩, d.lines_eq layout, d.written_laid, fun h =>
      ⟨StateDiagram.statesOf_entries h, StateDiagram.perm_entries .transitions h,
        StateDiagram.perm_entries .notes h⟩⟩
  rw [SequenceDiagram.laid, Laid.written_append, Sequence.Statement.written_laidList]
  cases q.autonumber <;> rfl

/-- A composite state that is a fork, with two regions, a label behind its closing brace and a note
of two lines. -/
theorem lines_eq_laid_regions : ∃ d : StateDiagram,
    (∀ s ∈ States.State.nodesList d.scope.states, s.Scoped) ∧
      d.lines { indent := " " } = ["stateDiagram-v2", " state A \x7b", "  state B", "  [*] --> B",
        "  --", "  state C", " \x7d", " A : x", " note left of A", "  y", "  z", " end note"] ∧
      (States.statesOf d.entries).map (fun e => (e.1, e.2.id)) =
        [(1, "A"), (2, "B"), (2, "C")] := by
  let b : States.State := { id := "B" }
  let c : States.State := { id := "C" }
  let a : States.State := {
    id := "A"
    label := some { raw := "x" }
    kind := .fork
    children := some [b]
    transitions := [{ source := States.startId, target := "B" }]
    regions := [{ states := [c] }] }
  let d : StateDiagram := { scope := {
    states := [a]
    notes := [{ state := "A", placement := .leftOf, text := { raw := "y\nz" } }] } }
  have hscoped : ∀ s ∈ States.State.nodesList d.scope.states, s.Scoped := by
    have hnodes : States.State.nodesList d.scope.states = [a, b, c] := rfl
    rw [hnodes]
    simp only [List.forall_mem_cons, List.not_mem_nil, false_implies, implies_true, and_true]
    exact ⟨nofun, fun _ => ⟨rfl, rfl, rfl⟩, fun _ => ⟨rfl, rfl, rfl⟩⟩
  obtain ⟨-, -, hlines, -, hwritten⟩ := lines_eq_laid { indent := " " } {} {} d
  refine ⟨d, hscoped, ?_, ?_⟩
  · rw [hlines]
    decide +kernel
  · rw [(hwritten hscoped).1]
    rfl

end DiagramText
