import DiagramText.Proofs.Reading.Located
import DiagramText.Proofs.States.Sound

/-!
# Positions in state diagrams

States and transitions are at the positions of tokens that they were read from.

* `StateDiagram.positions`: all positions in a diagram.
* `States.located_read`: the positions in a diagram that was read are those of its tokens.
-/

-- the lemmas of a mutual block use what is assumed of the change through one another
set_option linter.unusedSectionVars false

namespace DiagramText

namespace States

open Reading

/-! ### Positions -/

namespace State

mutual

/-- The positions in a state, those in its scopes included. The four functions follow the tree. -/
def positions : State → List Position
  | ⟨_, _, _, children, transitions, _, _, regions, position⟩ =>
    position.toList ++ positionsChildren children ++ transitions.filterMap Transition.position ++
      positionsScopes regions

/-- The positions in the states of a scope that may be missing, and then there are none. -/
def positionsChildren : Option (List State) → List Position
  | none => []
  | some ss => positionsList ss

/-- The positions in states. -/
def positionsList : List State → List Position
  | [] => []
  | s :: ss => s.positions ++ positionsList ss

/-- The positions in scopes. -/
def positionsScopes : List (Scope State) → List Position
  | [] => []
  | ⟨states, transitions, _⟩ :: rs =>
    positionsList states ++ transitions.filterMap Transition.position ++ positionsScopes rs

end

theorem positionsList_append (ss ts : List State) :
    positionsList (ss ++ ts) = positionsList ss ++ positionsList ts := by
  induction ss with
  | nil => rw [positionsList, List.nil_append, List.nil_append]
  | cons s ss ih => rw [List.cons_append, positionsList, positionsList, ih, List.append_assoc]

variable {P : Position → Prop} {i : String} {f : State → State}

/-- A state `s` in which all positions have a property, at any depth. -/
def LocatedAt (P : Position → Prop) (s : State) : Prop := ∀ p ∈ s.positions, P p

section Modify

variable (hf : ∀ t, t.LocatedAt P → (f t).LocatedAt P)

include hf

mutual

/-- A change that keeps the positions of each state keeps those of a tree, wherever in it the state
`i` is. -/
theorem forall_positions_modify : ∀ s : State, s.LocatedAt P → (s.modify i f).LocatedAt P
  | ⟨id, label, kind, children, transitions, notes, direction, regions, position⟩, h => by
    rw [modify]
    split
    · exact hf _ h
    · simp only [LocatedAt, positions, List.forall_mem_append] at h ⊢
      exact ⟨⟨⟨h.1.1.1, forall_positionsChildren_modify children h.1.1.2⟩, h.1.2⟩,
        forall_positionsScopes_modify regions h.2⟩

theorem forall_positionsChildren_modify : ∀ c : Option (List State),
    (∀ p ∈ positionsChildren c, P p) → ∀ p ∈ positionsChildren (modifyChildren i f c), P p
  | none, h => h
  | some ss, h => forall_positionsList_modify ss h

theorem forall_positionsList_modify : ∀ ss : List State,
    (∀ p ∈ positionsList ss, P p) → ∀ p ∈ positionsList (modifyList i f ss), P p
  | [], h => h
  | s :: ss, h => by
    rw [positionsList, List.forall_mem_append] at h
    rw [modifyList, positionsList]
    exact List.forall_mem_append.2
      ⟨forall_positions_modify s h.1, forall_positionsList_modify ss h.2⟩

theorem forall_positionsScopes_modify : ∀ rs : List (Scope State),
    (∀ p ∈ positionsScopes rs, P p) → ∀ p ∈ positionsScopes (modifyScopes i f rs), P p
  | [], h => h
  | ⟨states, transitions, notes⟩ :: rs, h => by
    rw [positionsScopes, List.forall_mem_append, List.forall_mem_append] at h
    rw [modifyScopes, positionsScopes]
    exact List.forall_mem_append.2 ⟨List.forall_mem_append.2
      ⟨forall_positionsList_modify states h.1.1, h.1.2⟩, forall_positionsScopes_modify rs h.2⟩

end

end Modify

end State

/-- A scope `y` in which all positions have a property: those in its states and those of its
transitions. -/
structure Scope.LocatedAt (P : Position → Prop) (y : Scope State) : Prop where
  states : ∀ p ∈ State.positionsList y.states, P p
  transitions : ∀ t ∈ y.transitions, ∀ p ∈ t.position, P p

variable {P : Position → Prop}

theorem forall_positions_transitions {ts : List Transition} :
    (∀ p ∈ ts.filterMap Transition.position, P p) ↔ ∀ t ∈ ts, ∀ p ∈ t.position, P p := by
  simp only [List.mem_filterMap, forall_exists_index, and_imp]
  exact ⟨fun h t ht p hp => h p t ht hp, fun h p t ht hp => h t ht p hp⟩

namespace State

theorem forall_positionsScopes_iff {ys : List (Scope State)} :
    (∀ p ∈ positionsScopes ys, P p) ↔ ∀ y ∈ ys, y.LocatedAt P := by
  induction ys with
  | nil => simp [positionsScopes]
  | cons y ys ih =>
    rw [positionsScopes, List.forall_mem_append, List.forall_mem_append, ih, List.forall_mem_cons,
      forall_positions_transitions]
    exact and_congr_left' ⟨fun h => ⟨h.1, h.2⟩, fun h => ⟨h.1, h.2⟩⟩

/-- The positions in a state `s` are its own and those in its scopes, so they can be looked at scope
by scope. -/
theorem locatedAt_iff {s : State} :
    s.LocatedAt P ↔ (∀ p ∈ s.position, P p) ∧ ∀ y ∈ s.scopes, y.LocatedAt P := by
  obtain ⟨id, label, kind, children, transitions, notes, direction, regions, position⟩ := s
  have hchildren : positionsChildren children = positionsList (children.getD []) := by
    cases children <;> rfl
  have hown : Scope.LocatedAt P ⟨children.getD [], transitions, notes⟩ ↔
      (∀ p ∈ positionsChildren children, P p) ∧
        ∀ p ∈ transitions.filterMap Transition.position, P p := by
    rw [hchildren, forall_positions_transitions]
    exact ⟨fun h => ⟨h.1, h.2⟩, fun h => ⟨h.1, h.2⟩⟩
  rw [LocatedAt, positions, List.forall_mem_append, List.forall_mem_append, List.forall_mem_append,
    forall_positionsScopes_iff, scopes, List.forall_mem_cons, ownScope, hown]
  simp only [Option.mem_toList, Option.mem_def, and_assoc]

/-- A change of a region that keeps its positions keeps those of the state `s`, be the region there
or not. -/
theorem LocatedAt.modifyRegion {s : State} (h : s.LocatedAt P) {g : Scope State → Scope State}
    (hg : ∀ y, y.LocatedAt P → (g y).LocatedAt P) (region : Nat) :
    (s.modifyRegion region g).LocatedAt P := by
  rw [locatedAt_iff] at h ⊢
  refine ⟨?_, forall_scopes_modifyRegion hg region h.2⟩
  cases region <;> exact h.1

end State

/-! ### Drafts -/

namespace Draft

variable {d : Draft} {i : String} {f : State → State}

/-- A draft `d` in which all positions have a property. Open scopes have none of their own. -/
def LocatedAt (P : Position → Prop) (d : Draft) : Prop := d.scope.LocatedAt P

namespace LocatedAt

theorem modify (h : d.LocatedAt P) (i : String)
    (hf : ∀ t : State, t.LocatedAt P → (f t).LocatedAt P) : (d.modify i f).LocatedAt P :=
  ⟨State.forall_positionsList_modify hf d.scope.states h.states, h.transitions⟩

/-- A change `f` of a state that leaves its position and its scopes as they are, such as that of a
label. -/
theorem adorn (h : d.LocatedAt P) (i : String)
    (hf : ∀ t : State, (f t).position = t.position ∧ (f t).scopes = t.scopes) :
    (d.modify i f).LocatedAt P := by
  refine h.modify i fun t ht => ?_
  rw [State.locatedAt_iff] at ht ⊢
  rwa [(hf t).1, (hf t).2]

theorem modifyScope (h : d.LocatedAt P) {g : Scope State → Scope State}
    (hg : ∀ y, y.LocatedAt P → (g y).LocatedAt P) : (d.modifyScope g).LocatedAt P := by
  unfold Draft.modifyScope
  split
  · exact hg _ h
  · exact h.modify _ fun t ht => ht.modifyRegion hg _

theorem mention (h : d.LocatedAt P) {t : Token} (ht : P t.start) : (d.mention t).LocatedAt P := by
  unfold Draft.mention
  split
  · exact h
  · refine h.modifyScope fun y hy => ⟨?_, hy.transitions⟩
    rw [State.positionsList_append]
    refine List.forall_mem_append.2 ⟨hy.states, ?_⟩
    simpa [State.positionsList, State.positions, State.positionsChildren, State.positionsScopes]
      using ht

theorem addTransition (h : d.LocatedAt P) {t : Transition} (ht : ∀ p ∈ t.position, P p) :
    (d.modifyScope fun s => { s with transitions := s.transitions ++ [t] }).LocatedAt P :=
  h.modifyScope fun _ hy => ⟨hy.states, List.forall_mem_append.2
    ⟨hy.transitions, List.forall_mem_singleton.2 ht⟩⟩

theorem openScope (h : d.LocatedAt P) (i : String) : (d.openScope i).LocatedAt P :=
  h.adorn (f := fun s => { s with children := some (s.children.getD []) }) i fun _ => ⟨rfl, rfl⟩

theorem nextRegion (h : d.LocatedAt P) : d.nextRegion.LocatedAt P := by
  unfold Draft.nextRegion
  split
  · exact h
  · rename_i s outer _
    refine h.modify (f := fun t => { t with regions := t.regions ++ [{}] }) s.owner fun t ht => ?_
    rw [State.locatedAt_iff] at ht ⊢
    obtain ⟨hown, hregions⟩ := List.forall_mem_cons.1 ht.2
    refine ⟨ht.1, List.forall_mem_cons.2 ⟨hown, List.forall_mem_append.2 ⟨hregions, ?_⟩⟩⟩
    exact List.forall_mem_singleton.2
      ⟨by simp [State.positionsList], List.forall_mem_nil _⟩

theorem setDirection (h : d.LocatedAt P) (x : Direction) : (d.setDirection x).LocatedAt P := by
  unfold Draft.setDirection
  split
  · exact h
  · exact h.adorn _ fun _ => ⟨rfl, rfl⟩

end LocatedAt
end Draft

/-! ### Statements -/

variable {B : String → Prop} {d : Draft}

theorem located_stateRef (hd : d.LocatedAt P) :
    Located P B (stateRef d) fun r => r.1.LocatedAt P :=
  .bind (located_expect _ _) fun _ ht => .pure (hd.mention ht)

theorem located_description (hd : d.LocatedAt P) (id : String) :
    Located P B (description d id) (Draft.LocatedAt P) := by
  refine .bind (located_accept _) fun t _ => ?_
  cases t with
  | none => exact .pure hd
  | some _ =>
    exact .bind (located_expect _ _) fun _ _ => .bind (located_content _) fun _ _ =>
      .pure (hd.adorn id fun _ => ⟨rfl, rfl⟩)

theorem located_stateKind (hd : d.LocatedAt P) (id : String) :
    Located P B (stateKind d id) (Draft.LocatedAt P) := by
  refine .bind (located_accept _) fun t _ => ?_
  cases t with
  | none => exact .pure hd
  | some _ =>
    refine .bind (located_expect _ _) fun token ht => ?_
    split
    · exact .unexpected _ ht
    · exact .bind (located_expect _ _) fun _ _ => .pure (hd.adorn id fun _ => ⟨rfl, rfl⟩)

theorem located_quotedLabel : Located P B quotedLabel fun _ => True := by
  refine .bind (located_accept _) fun t _ => ?_
  cases t with
  | none => exact .pure trivial
  | some _ => exact .bind (located_expectWord _) fun _ _ => .pure trivial

theorem located_declaration (hd : d.LocatedAt P) :
    Located P B (declaration d) (Draft.LocatedAt P) := by
  refine .bind located_advance fun _ _ => .bind located_quotedLabel fun quoted _ =>
    .bind (located_stateRef hd) fun (d, id) hd => ?_
  -- what follows the label
  have hrest : ∀ d : Draft, d.LocatedAt P → Located P B (do
      let d ← stateKind d id
      let d ← description d id
      let brace ← accept .leftBrace
      let d := if brace.isSome then d.openScope id else d
      endStatement
      return d) (Draft.LocatedAt P) := fun d hd =>
    .bind (located_stateKind hd id) fun d hd => .bind (located_description hd id) fun d hd =>
      .bind (located_accept _) fun brace _ => .bind located_endStatement fun _ _ => .pure (by
        split
        · exact hd.openScope id
        · exact hd)
  cases quoted with
  | none => exact hrest d hd
  | some text =>
    exact .bind (located_content _) fun _ _ => hrest _ (hd.adorn id fun _ => ⟨rfl, rfl⟩)

theorem located_transitionEnd (hd : d.LocatedAt P) (pseudostate : String) :
    Located P B (transitionEnd d pseudostate) fun r => r.1.LocatedAt P := by
  refine .bind (located_accept _) fun t _ => ?_
  cases t with
  | none => exact located_stateRef hd
  | some _ => exact .pure hd

theorem located_transitionLabel : Located P B transitionLabel fun _ => True :=
  located_behindColon located_contentOf

theorem located_transition (hd : d.LocatedAt P) :
    Located P B (transition d) (Draft.LocatedAt P) := by
  refine .bind located_peek fun first hfirst =>
    .bind (located_transitionEnd hd _) fun (d, source) hd => .bind (located_expect _ _) fun _ _ =>
    .bind (located_transitionEnd hd _) fun (d, target) hd => .bind located_transitionLabel
      fun _ _ => .bind located_endStatement fun _ _ => .pure (hd.addTransition ?_)
  rintro p ⟨⟩
  exact hfirst

theorem located_plainState (hd : d.LocatedAt P) :
    Located P B (plainState d) (Draft.LocatedAt P) :=
  .bind (located_stateRef hd) fun (_, id) hd => .bind (located_description hd id) fun _ hd =>
    .bind located_endStatement fun _ _ => .pure hd

/-! ### Notes -/

theorem located_noteLines (hnote : B "note") (keyword : Token) :
    Located P B (noteLines keyword) fun _ => True := by
  refine .loop (I := fun _ => True) (fun lines _ => ?_) trivial
  refine .bind (located_checkWord _) fun _ _ => .bind (located_ahead 1) fun _ _ => .ite
    (fun _ => .pure trivial) fun _ => .bind (located_look _) fun _ _ => .ite ?_ ?_
  · exact fun _ => .bind located_peek fun _ ht => .unterminated hnote ht
  · exact fun _ => .bind located_restOfStatement fun _ _ => .bind located_endStatement fun _ _ =>
      .pure trivial

theorem located_noteText (hnote : B "note") (keyword : Token) :
    Located P B (noteText keyword) fun _ => True := by
  refine .bind (located_accept _) fun t _ => ?_
  cases t with
  | some _ =>
    exact .bind (located_expect _ _) fun _ _ => .bind located_endStatement fun _ _ => .pure trivial
  | none =>
    exact .bind located_endStatement fun _ _ => .bind (located_noteLines hnote _) fun _ _ =>
      .bind located_advance fun _ _ => .bind located_advance fun _ _ =>
        .bind located_endStatement fun _ _ => .pure trivial

theorem located_note (hnote : B "note") (hd : d.LocatedAt P) :
    Located P B (note d) (Draft.LocatedAt P) :=
  .bind located_advance fun keyword _ => .bind located_advance fun _ _ =>
    .bind (located_expectWord _) fun _ _ => .bind (located_stateRef hd) fun (_, _) hd =>
      .bind (located_noteText hnote keyword) fun _ _ => .bind (located_content _) fun _ _ =>
        .pure (hd.modifyScope fun _ hy => ⟨hy.states, hy.transitions⟩)

/-! ### The diagram -/

theorem located_statement (hnote : B "note") (hd : d.LocatedAt P) :
    Located P B (statement d) (Draft.LocatedAt P) := by
  have hline : ∀ {e : Draft}, e.LocatedAt P → Located P B (do
      let _ ← advance
      endStatement
      return e) (Draft.LocatedAt P) := fun he =>
    .bind located_advance fun _ _ => .bind located_endStatement fun _ _ => .pure he
  refine .bind located_peek fun _ _ => .bind (located_ahead 1) fun _ _ =>
    .bind (located_check _) fun _ _ => .ite ?newline fun _ => .ite ?close fun _ =>
      .ite (fun _ => located_declaration hd) fun _ => .ite (fun _ => located_note hnote hd) fun _ =>
        .ite ?direction fun _ => .ite ?region fun _ => .ite (fun _ => located_transition hd)
          fun _ =>
          .ite (fun _ => located_plainState hd) fun _ => located_fail _
  case newline => exact fun _ => .bind located_advance fun _ _ => .pure hd
  case close =>
    have hclosed : d.closeScope.LocatedAt P := hd
    exact fun _ => .ite (fun _ => located_fail _) fun _ => hline hclosed
  case direction =>
    exact fun _ => .bind located_advance fun _ _ => .bind (located_takeDirection _) fun x _ =>
      .bind located_endStatement fun _ _ => .pure (hd.setDirection x)
  case region => exact fun _ => .ite (fun _ => located_fail _) fun _ => hline hd.nextRegion

theorem located_header : Located P B header (Draft.LocatedAt P) := by
  have hempty : ∀ version : Version, Draft.LocatedAt P { version } := fun _ =>
    ⟨by simp [State.positionsList], List.forall_mem_nil _⟩
  refine .bind located_skipNewlines fun _ _ => .bind (located_expect _ _) fun token ht => ?_
  have hend : ∀ version : Version, Located P B (do
      endStatement
      return ({ version } : Draft)) (Draft.LocatedAt P) := fun version =>
    .bind located_endStatement fun _ _ => .pure (hempty version)
  split
  · exact hend .v1
  · exact hend .v2
  · exact .bind (.unexpected (Q := fun _ => True) _ ht) fun _ _ => hend _

end States

namespace StateDiagram

open States

/-- All positions in a diagram `d`, in the order of its tree. -/
def positions (d : StateDiagram) : List Position := State.positionsScopes [d.scope]

end StateDiagram

namespace States

open Reading

/-- The positions in a diagram that was read are those of its tokens, as is that of an error. `P` is
what is known of the tokens. -/
theorem located_read {P : Position → Prop} {B : String → Prop} (hnote : B "note")
    (hstate : B "state") : Located P B read fun d => ∀ p ∈ d.positions, P p := by
  refine .bind located_header fun start hstart =>
    .bind (.untilEnd (fun _ hd => located_statement hnote hd) hstart) fun d hd => ?_
  split
  · exact .pure (State.forall_positionsScopes_iff.2 (List.forall_mem_singleton.2 hd))
  · exact .bind located_peek fun t ht => .unterminated hstate ht

end States
end DiagramText
