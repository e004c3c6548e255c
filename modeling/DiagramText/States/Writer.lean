import DiagramText.Layout
import DiagramText.States.Basic

/-!
# Writing state diagrams

A scope is written as its states, then its transitions, then its notes. A composite state is written
as a header, its direction, its regions one level deeper with a separator between them, and a
closing brace. The lines come from an agenda whose bodies are scopes.

* `Transition.text`, `Note.lines`, `State.labelLines` and `State.declaration`: the lines of what a
  scope holds.
* `States.agenda`: the agenda of a state diagram; `StateDiagram.lines` and `StateDiagram.write` give
  all of it.
-/

namespace DiagramText

namespace States

/-! ### Lines -/

/-- A state or pseudostate as it is written at either end of a transition. Which pseudostate `[*]`
means is told by the end. -/
def reference (id : String) : String := if isPseudostate id then "[*]" else id

/-- A transition `t` as it is written, its label behind a colon. -/
def Transition.text (t : Transition) : String :=
  let label := (t.label.map fun l => s!" : {l.raw}").getD ""
  s!"{reference t.source} --> {reference t.target}{label}"

/-- The lines of a note `n`: one, unless its text is empty or has several lines. -/
def Note.lines (layout : Layout) (depth : Nat) (n : Note) : List String :=
  let head := s!"note {n.placement.text} {n.state}"
  let raw := n.text.raw
  if raw.isEmpty then [layout.line depth head, layout.line depth "end note"]
  else if raw.toList.contains '\n' then
    layout.line depth head ::
      (raw.toList.splitOn '\n').map (fun l => layout.line (depth + 1) (String.ofList l)) ++
        [layout.line depth "end note"]
  else [layout.line depth s!"{head} : {raw}"]

/-- The line that gives a state `s` its label, if it has one. -/
def State.labelLines (layout : Layout) (depth : Nat) (s : State) : List String :=
  (s.label.map fun l => layout.line depth s!"{s.id} : {l.raw}").toList

/-- The line that declares a state without a scope, with its kind unless it is `simple`. -/
def State.declaration (s : State) : String :=
  if s.kind = .simple then s!"state {s.id}" else s!"state {s.id} <<{s.kind.text}>>"

/-! ### The agenda -/

/-- The items that a further region `r` is written as: a separator, and the region. -/
def regionItems (layout : Layout) (depth : Nat) (r : Scope State) : List (Item (Scope State)) :=
  [.lines [layout.line depth "--"], .body r depth]

/-- The items that a state `s` is written as. A composite state has its regions between braces. -/
def State.items (layout : Layout) (depth : Nat) (s : State) : List (Item (Scope State)) :=
  if s.isComposite then
    let direction := s.direction.map fun d => layout.line (depth + 1) s!"direction {d.name}"
    .lines (layout.line depth s!"state {s.id} \x7b" :: direction.toList) ::
      .body s.ownScope (depth + 1) ::
      s.regions.flatMap (regionItems layout (depth + 1)) ++
      [.lines (layout.line depth "\x7d" :: s.labelLines layout depth)]
  else [.lines (layout.line depth s.declaration :: s.labelLines layout depth)]

/-- The items that a `scope` is written as: its states, then its transitions, then its notes. -/
def scopeItems (layout : Layout) (depth : Nat) (scope : Scope State) : List (Item (Scope State)) :=
  scope.states.flatMap (State.items layout depth) ++
    [.lines (scope.transitions.map (fun t => layout.line depth t.text) ++
      scope.notes.flatMap (Note.lines layout depth))]

/-- The number of steps that a `scope` is written in at most: itself, its transitions and notes, and
four for each state and scope in it. -/
def scopeSteps (scope : Scope State) : Nat := 2 + 4 * State.sizeList scope.states

theorem totalWeight_regions (layout : Layout) (depth : Nat) (rs : List (Scope State)) :
    Item.totalWeight scopeSteps (rs.flatMap (regionItems layout depth)) ≤
      4 * State.sizeScopes rs := by
  apply Item.totalWeight_flatMap_le scopeSteps
  intro r rs
  simp only [regionItems, Item.totalWeight_cons, Item.totalWeight_nil, Item.weight, scopeSteps,
    State.sizeScopes]
  omega

theorem totalWeight_items (layout : Layout) (depth : Nat) (s : State) :
    Item.totalWeight scopeSteps (s.items layout depth) ≤ 4 * s.size := by
  have hregions := totalWeight_regions layout (depth + 1) s.regions
  obtain ⟨i, l, k, c, ts, ns, d, r, p⟩ := s
  cases c with
  | none =>
    simp only [State.items, State.isComposite, Option.isSome_none, Bool.false_eq_true, if_false,
      Item.totalWeight_cons, Item.totalWeight_nil, Item.weight, State.size]
    omega
  | some ss =>
    simp only [State.items, State.isComposite, Option.isSome_some, if_true, List.cons_append,
      Item.totalWeight_cons, Item.totalWeight_append, Item.totalWeight_nil, Item.weight, scopeSteps,
      State.ownScope, Option.getD_some, State.size, State.sizeChildren] at *
    omega

theorem totalWeight_states (layout : Layout) (depth : Nat) (ss : List State) :
    Item.totalWeight scopeSteps (ss.flatMap (State.items layout depth)) ≤
      4 * State.sizeList ss := by
  apply Item.totalWeight_flatMap_le scopeSteps
  intro s ss
  have hs := totalWeight_items layout depth s
  rw [State.sizeList]
  omega

theorem totalWeight_scopeItems (layout : Layout) (depth : Nat) (s : Scope State) :
    Item.totalWeight scopeSteps (scopeItems layout depth s) < scopeSteps s := by
  have hstates := totalWeight_states layout depth s.states
  rw [scopeItems, Item.totalWeight_append, Item.totalWeight_cons, Item.totalWeight_nil, Item.weight,
    scopeSteps]
  omega

/-- The agenda of a state diagram, the bodies of which are scopes. `scopeSteps` bounds the work on a
scope. -/
def agenda (layout : Layout) : Agenda (Scope State) where
  items := scopeItems layout
  size := scopeSteps
  totalWeight_items_lt := totalWeight_scopeItems layout

@[simp]
theorem agenda_items (layout : Layout) : (agenda layout).items = scopeItems layout := rfl

/-- The header word of a version. -/
def Version.header : Version → String
  | .v1 => "stateDiagram"
  | .v2 => "stateDiagram-v2"

end States

namespace StateDiagram

open States

/-! ### The diagram -/

/-- The lines of a state diagram `d`, the header line and the direction first. -/
def lines (layout : Layout) (d : StateDiagram) : List String :=
  d.version.header ::
    (d.direction.map fun x => layout.line 1 s!"direction {x.name}").toList ++
    (agenda layout).lines [.body d.scope 1]

/-- A state diagram `d` as it is written, as one text. -/
def write (layout : Layout) (d : StateDiagram) : String := joinLines (d.lines layout)

end StateDiagram
end DiagramText
