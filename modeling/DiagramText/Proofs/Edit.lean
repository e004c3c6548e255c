import DiagramText.Classes.Edit
import DiagramText.Entities.Edit
import DiagramText.Flowchart.Edit
import DiagramText.Proofs.Classes.RoundTrip
import DiagramText.Proofs.Entities.RoundTrip
import DiagramText.Proofs.Flowchart.RoundTrip
import DiagramText.Proofs.Identifier
import DiagramText.Proofs.Sequence.RoundTrip
import DiagramText.Proofs.States.RoundTrip
import DiagramText.Sequence.Edit
import DiagramText.States.Edit
import Mathlib.Logic.Relation

/-!
# Edited diagrams

An edit without labels brings only ids into a diagram. If these are tokens of the dialect, a diagram
of which all parts can stand in a document stays one, so it reads back after any number of edits.

* `Diagram.Readable`: all parts of a diagram can stand in a document.
* `Diagram.Edit`: one diagram is another one after an edit with ids that are tokens.
* `Diagram.readsBack_of_edits`: what is built by such edits reads back.
* `Diagram.readsBack_lost`: a checked id that is no token.
-/

namespace DiagramText

open Text

/-! ### Flowcharts -/

namespace Flowchart

variable {d e : Flowchart} {c : Clause} {id source target : String}

theorem isName_of_checkFor (h : Identifier.checkFor .node id = .ok id)
    (htoken : Identifier.IsToken .flowchart id) : IsName id := by
  obtain ⟨-, -, hreserved⟩ := Identifier.of_checkFor h
  refine ⟨Identifier.isHyphenated_of_isToken (by decide) htoken, fun hmem => hreserved ?_⟩
  have hsubset : ["subgraph", "end"] ⊆ Identifier.reservedWords := by decide
  exact hsubset hmem

namespace Registry

variable {p : String → Prop} {nodes : List Node}

theorem forall_mention (hnodes : ∀ n ∈ nodes, p n.id) (hid : p id) :
    ∀ n ∈ mention nodes id, p n.id := by
  unfold mention
  split
  · exact hnodes
  · exact List.forall_mem_append.2 ⟨hnodes, List.forall_mem_singleton.2 hid⟩

/-- The registry after a clause `c` holds the nodes it held and those that the clause mentions, so
what holds of the ids of all of them holds in the registry. -/
theorem forall_enter (hnodes : ∀ n ∈ nodes, p n.id) (hc : ∀ i ∈ c.mentioned, p i) :
    ∀ n ∈ enter nodes c, p n.id := by
  cases c with
  | node node position =>
    have hid : p node.id := hc _ List.mem_cons_self
    have hmention := forall_mention hnodes hid
    simp only [enter, declare]
    split
    · exact hmention
    · refine List.forall_mem_map.2 fun n hn => ?_
      split
      · exact hid
      · exact hmention n hn
  | edge e =>
    obtain ⟨hsource, hc⟩ := List.forall_mem_cons.1 hc
    obtain ⟨htarget, -⟩ := List.forall_mem_cons.1 hc
    exact forall_mention (forall_mention hnodes hsource) htarget
  | classDef _ _ => exact hnodes
  | classes _ _ => exact hnodes
  | style _ _ => exact hnodes

end Registry

/-- The ids of all registered nodes can stand in a document. -/
theorem Readable.isName_of_mem (h : d.Readable) : ∀ n ∈ d.nodes, IsName n.id := by
  have hfold : ∀ (ss : List Statement) (nodes : List Node), (∀ s ∈ ss, s.Readable) →
      (∀ n ∈ nodes, IsName n.id) →
      ∀ n ∈ ss.foldl Registry.enterStatement nodes, IsName n.id := by
    intro ss
    induction ss with
    | nil => exact fun _ _ hnodes => hnodes
    | cons s ss ih =>
      intro nodes hss hnodes
      obtain ⟨hs, hss⟩ := List.forall_mem_cons.1 hss
      refine ih _ hss ?_
      cases s with
      -- a subgraph itself enters nothing, and the statements of its body are in the walk too
      | subgraph _ _ => exact hnodes
      | clause c =>
        refine Registry.forall_enter hnodes fun i hi => ?_
        cases c with
        | node n position =>
          obtain rfl := List.mem_singleton.1 hi
          exact hs.1
        | edge e =>
          simp only [Clause.mentioned, List.mem_cons, List.not_mem_nil, or_false] at hi
          rcases hi with rfl | rfl
          · exact hs.1
          · exact hs.2.1
        | classDef _ _ => cases hi
        | classes _ _ => cases hi
        | style _ _ => cases hi
  rw [h.nodes]
  exact hfold _ _ h.statements (List.forall_mem_nil _)

theorem Readable.append (h : d.Readable) (hc : c.Readable) : (d.append c).Readable := by
  have hwalk : Statement.walk (d.statements ++ [.clause c]) =
      Statement.walk d.statements ++ [.clause c] := by
    rw [Statement.walk_append, Statement.walk_singleton]
    simp [Statement.body, Statement.walk]
  refine ⟨?_, ?_⟩
  · show ∀ s ∈ Statement.walk (d.statements ++ [.clause c]), s.Readable
    rw [hwalk]
    exact List.forall_mem_append.2 ⟨h.statements, List.forall_mem_singleton.2 hc⟩
  · show Registry.enter d.nodes c = Registry.ofStatements (d.statements ++ [.clause c])
    rw [Registry.ofStatements, hwalk, List.foldl_append, ← Registry.ofStatements, ← h.nodes]
    rfl

/-- A new node without a label keeps a flowchart `d` readable, if its id is one token. -/
theorem Readable.of_addNode (h : d.Readable) {shape : Shape}
    (hadd : d.addNode id none shape = .ok e)
    (htoken : Identifier.IsToken .flowchart id) : e.Readable := by
  obtain ⟨value, hvalue, hrest⟩ := Except.bind_eq_ok_iff.1 hadd
  obtain ⟨rfl, -, -⟩ := Identifier.of_checkFor hvalue
  split at hrest
  · cases hrest
  · cases hrest
    exact h.append ⟨isName_of_checkFor hvalue htoken, nofun⟩

/-- A new edge without a label keeps a flowchart `d` readable, since it joins registered nodes, of
which the ids can stand in a document. -/
theorem Readable.of_addEdge (h : d.Readable) {kind : EdgeKind}
    (hadd : d.addEdge source target kind none = .ok e) : e.Readable := by
  have hname : ∀ {id u}, d.requireNode id = .ok u → IsName id := by
    intro id u hrequire
    unfold requireNode at hrequire
    split at hrequire
    · rename_i hsome
      obtain ⟨n, hn⟩ := Option.isSome_iff_exists.1 hsome
      have hid : n.id = id := by simpa using List.find?_some hn
      exact hid ▸ h.isName_of_mem n (List.mem_of_find?_eq_some hn)
    · cases hrequire
  obtain ⟨_, hsource, hrest⟩ := Except.bind_eq_ok_iff.1 hadd
  obtain ⟨_, htarget, hlast⟩ := Except.bind_eq_ok_iff.1 hrest
  cases hlast
  exact h.append ⟨hname hsource, hname htarget, nofun⟩

end Flowchart

/-! ### Sequence diagrams -/

namespace SequenceDiagram

open Sequence

variable {d e : SequenceDiagram} {c : Clause} {id source target : String}

theorem isIdentifier_of_checkFor (h : Identifier.checkFor .participant id = .ok id)
    (htoken : Identifier.IsToken .sequence id) : IsIdentifier id :=
  Identifier.isIdentifier_of_isToken (by decide) (Identifier.of_checkFor h).2.1 htoken

theorem Readable.append (h : d.Readable) (hc : c.Readable) (hplace : c.unplaced = c) :
    (d.append c).Readable := by
  have hwalk : (d.append c).walk = d.walk ++ [(0, .clause c)] := by
    rw [walk, SequenceDiagram.append, Placed.walk_all_append, ← walk]
    show d.walk ++ Placed.walk [(0, .clause c)] = _
    rw [Placed.walk_singleton]
    simp [Placed.contents, Statement.contents, Placed.all, Placed.walk]
  refine ⟨?_, ?_⟩
  · rw [hwalk]
    exact List.forall_mem_append.2 ⟨h.statements, List.forall_mem_singleton.2 hc⟩
  · rw [hwalk, List.map_append, List.foldl_append, ← h.participants]
    show (Registry.enter d.participants c).map Participant.unplaced = _
    rw [Registry.unplaced_enter, hplace]
    rfl

/-- A new participant without a label keeps a sequence diagram `d` readable, if its id is one
token. -/
theorem Readable.of_addParticipant (h : d.Readable) {kind : ParticipantKind}
    (hadd : d.addParticipant id none kind = .ok e) (htoken : Identifier.IsToken .sequence id) :
    e.Readable := by
  obtain ⟨value, hvalue, hrest⟩ := Except.bind_eq_ok_iff.1 hadd
  obtain ⟨rfl, -, -⟩ := Identifier.of_checkFor hvalue
  split at hrest
  · cases hrest
  · cases hrest
    exact h.append ⟨isIdentifier_of_checkFor hvalue htoken, nofun⟩ rfl

/-- A new message without a text keeps a sequence diagram `d` readable, if its ends are tokens. Ends
that are new become participants. -/
theorem Readable.of_addMessage (h : d.Readable) {arrow : Arrow}
    (hadd : d.addMessage source target none arrow = .ok e)
    (hsource : Identifier.IsToken .sequence source)
    (htarget : Identifier.IsToken .sequence target) : e.Readable := by
  obtain ⟨value, hvalue, hrest⟩ := Except.bind_eq_ok_iff.1 hadd
  obtain ⟨rfl, -, -⟩ := Identifier.of_checkFor hvalue
  obtain ⟨value', hvalue', hlast⟩ := Except.bind_eq_ok_iff.1 hrest
  obtain ⟨rfl, -, -⟩ := Identifier.of_checkFor hvalue'
  cases hlast
  exact h.append ⟨isIdentifier_of_checkFor hvalue hsource, isIdentifier_of_checkFor hvalue' htarget,
    nofun, fun _ h => nomatch h⟩ rfl

end SequenceDiagram

/-! ### Class diagrams -/

namespace ClassDiagram

open Classes

variable {d e : ClassDiagram} {name source target : String}

theorem isIdentifier_of_checkFor (h : Identifier.checkFor .class_ name = .ok name)
    (htoken : Identifier.IsToken .classes name) : IsIdentifier name :=
  Identifier.isIdentifier_of_isToken (by decide) (Identifier.of_checkFor h).2.1 htoken

/-- What is there stays there when the class `name` is mentioned, which then is there too. -/
theorem mem_mention {m : String} (h : m ∈ d.names ∨ m = name) (position : Option Position) :
    m ∈ (d.mention name position).names := by
  by_cases hmem : name ∈ d.names
  · rw [mention_of_mem hmem]
    exact h.elim id fun heq => heq ▸ hmem
  · rw [mention_of_not_mem hmem, names_add, List.mem_append]
    exact h.imp_right List.mem_singleton.2

theorem Distinct.mention (h : d.Distinct) (hname : IsIdentifier name) (position : Option Position) :
    (d.mention name position).Distinct := by
  by_cases hmem : name ∈ d.names
  · rwa [mention_of_mem hmem]
  · have hnames : ∀ m ∈ d.names, m ∈ (d.mention name position).names := fun m hm =>
      mem_mention (.inl hm) position
    rw [mention_of_not_mem hmem] at hnames ⊢
    refine ⟨?_, ?_, fun r hr => ?_⟩
    · exact List.forall_mem_append.2
        ⟨h.classes, List.forall_mem_singleton.2 ⟨hname, nofun, nofun, List.forall_mem_nil _⟩⟩
    · rw [names_add, List.nodup_append]
      refine ⟨h.nodup, by simp, ?_⟩
      rintro a ha b hb rfl
      obtain rfl : a = name := by simpa using hb
      exact hmem ha
    · obtain ⟨hr, hsource, htarget⟩ := h.relations r hr
      exact ⟨hr, hnames _ hsource, hnames _ htarget⟩

/-- A new relation without a label keeps a class diagram `Distinct`, as a class that is new has a
name of its own. -/
theorem Distinct.of_addRelation (h : d.Distinct) {kind : RelationKind}
    (hadd : d.addRelation source target kind none none none = .ok e)
    (hsource : Identifier.IsToken .classes source) (htarget : Identifier.IsToken .classes target) :
    e.Distinct := by
  obtain ⟨value, hvalue, hrest⟩ := Except.bind_eq_ok_iff.1 hadd
  obtain ⟨rfl, -, -⟩ := Identifier.of_checkFor hvalue
  obtain ⟨value', hvalue', hlast⟩ := Except.bind_eq_ok_iff.1 hrest
  obtain ⟨rfl, -, -⟩ := Identifier.of_checkFor hvalue'
  have hs := isIdentifier_of_checkFor hvalue hsource
  have ht := isIdentifier_of_checkFor hvalue' htarget
  cases hlast
  have hmention := (h.mention hs none).mention ht none
  refine ⟨hmention.classes, hmention.nodup, List.forall_mem_append.2
    ⟨hmention.relations, List.forall_mem_singleton.2
      ⟨⟨hs, ht, fun _ h => (nomatch h), nofun, nofun⟩, ?_, ?_⟩⟩⟩
  · exact mem_mention (.inl (mem_mention (.inr rfl) none)) none
  · exact mem_mention (.inr rfl) none

end ClassDiagram

/-! ### Entity-relationship diagrams -/

namespace EntityDiagram

open Entities

variable {d e : EntityDiagram} {name source target : String}

theorem isName_of_isToken (h : Identifier.IsToken .entities name) : IsName name where
  plain := (Identifier.isHyphenated_of_isToken (by decide) h).plain
  lexeme := h

/-- A new relationship without a label keeps an entity-relationship diagram `d` readable, if its
ends are tokens. -/
theorem Readable.of_addRelationship (h : d.Readable) {left right : Cardinality} {i : Identification}
    (hadd : d.addRelationship source target left right none i = .ok e)
    (hsource : Identifier.IsToken .entities source)
    (htarget : Identifier.IsToken .entities target) : e.Readable := by
  obtain ⟨value, hvalue, hrest⟩ := Except.bind_eq_ok_iff.1 hadd
  obtain ⟨rfl, -, -⟩ := Identifier.of_checkFor hvalue
  obtain ⟨value', hvalue', hlast⟩ := Except.bind_eq_ok_iff.1 hrest
  obtain ⟨rfl, -, -⟩ := Identifier.of_checkFor hvalue'
  cases hlast
  have hmention := (h.mention (isName_of_isToken hsource) none).mention
    (isName_of_isToken htarget) none
  exact hmention.addRelationship (mem_mention (.inl (mem_mention (.inr rfl) none)) none)
    (mem_mention (.inr rfl) none) nofun

end EntityDiagram

/-! ### State diagrams -/

namespace States.State

theorem isOrderedList_append (known : List String) (ss ts : List State) :
    isOrderedList known (ss ++ ts) =
      (isOrderedList known ss && isOrderedList (known ++ idsList ss) ts) := by
  induction ss generalizing known with
  | nil => simp [isOrderedList, idsList]
  | cons s ss ih =>
    rw [List.cons_append, isOrderedList, isOrderedList, ih, idsList, Bool.and_assoc,
      List.append_assoc]

end States.State

namespace StateDiagram

open States

variable {d e : StateDiagram} {id source target : String}

theorem ordered_iff (d : StateDiagram) :
    State.isOrderedScopes [] [d.scope] = true ↔ State.isOrderedList [] d.scope.states = true ∧
      ∀ i ∈ mentioned d.scope.transitions d.scope.notes, i ∈ State.idsList d.scope.states := by
  simp [State.isOrderedScopes]

theorem mem_idsList_mention (hid : isPseudostate id = false) :
    id ∈ State.idsList (d.mention id).scope.states := by
  unfold mention
  split
  · rename_i h
    simpa [hid, state?, State.isSome_findList?] using h
  · simp [State.idsList_append, State.idsList_singleton, State.ids]

theorem subset_mention (d : StateDiagram) (id : String) :
    State.idsList d.scope.states ⊆ State.idsList (d.mention id).scope.states := by
  unfold mention
  split
  · exact List.Subset.refl _
  · simp [State.idsList_append]

/-- The diagram with one more state `s` in its outermost scope. -/
def add (d : StateDiagram) (s : State) : StateDiagram :=
  { d with scope := { d.scope with states := d.scope.states ++ [s] } }

theorem idsList_add (id : String) :
    State.idsList (d.add { id := id }).scope.states = State.idsList d.scope.states ++ [id] := by
  rw [add, State.idsList_append, State.idsList_singleton]
  rfl

theorem nodesList_add (id : String) :
    State.nodesList (d.add { id := id }).scope.states =
      State.nodesList d.scope.states ++ [{ id := id }] := by
  rw [add, State.nodesList_append]
  rfl

/-- A state of which only the `id` is known brings no transition and no note into a diagram `d`. -/
theorem mem_scopes_add {y : Scope State} (hy : y ∈ (d.add { id := id }).scopes) :
    (y.transitions = [] ∧ y.notes = []) ∨
      ∃ z ∈ d.scopes, z.transitions = y.transitions ∧ z.notes = y.notes := by
  rw [scopes, nodesList_add, List.flatMap_append] at hy
  rcases List.mem_cons.1 hy with rfl | hy
  · exact .inr ⟨d.scope, List.mem_cons_self, rfl, rfl⟩
  · rcases List.mem_append.1 hy with hy | hy
    · exact .inr ⟨y, List.mem_cons_of_mem _ hy, rfl, rfl⟩
    · obtain rfl : y = {} := by simpa [State.scopes, State.ownScope] using hy
      exact .inl ⟨rfl, rfl⟩

/-- A new state of which only the id is known keeps a diagram `Declared`, if no state of the
outermost scope, at any depth, has the id. -/
theorem Declared.add (h : d.Declared) (hid : IsHyphenated id)
    (hnew : id ∉ State.idsList d.scope.states) : (d.add { id := id }).Declared := by
  have hmem : ∀ {i}, i ∈ State.idsList d.scope.states →
      i ∈ State.idsList (d.add { id := id }).scope.states := fun hi => by
    rw [idsList_add]
    exact List.mem_append_left _ hi
  -- The new state has neither a body nor transitions nor notes, so all conditions but those on ids
  -- are as before.
  refine ⟨?_, ?_, ?_, ?_, fun y hy => ?_, fun y hy => ?_, ?_⟩
  · rw [idsList_add]
    exact List.forall_mem_append.2 ⟨h.ids, List.forall_mem_singleton.2 hid⟩
  · rw [idsList_add, List.nodup_append]
    refine ⟨h.nodup, List.nodup_singleton id, ?_⟩
    rintro i hi j hj rfl
    exact hnew (List.mem_singleton.1 hj ▸ hi)
  · rw [nodesList_add]
    refine List.forall_mem_append.2 ⟨h.coherent, List.forall_mem_singleton.2 ?_⟩
    exact ⟨nofun, fun _ => rfl, fun _ => rfl, fun _ => rfl, fun _ => rfl⟩
  · rw [nodesList_add]
    exact List.forall_mem_append.2 ⟨h.labels, List.forall_mem_singleton.2 nofun⟩
  · rcases mem_scopes_add hy with ⟨htransitions, -⟩ | ⟨z, hz, htransitions, -⟩
    · rw [htransitions]
      exact List.forall_mem_nil _
    · rw [← htransitions]
      intro t ht
      obtain ⟨hsource, htarget, hlabel⟩ := h.transitions z hz t ht
      exact ⟨hsource.imp_right hmem, htarget.imp_right hmem, hlabel⟩
  · rcases mem_scopes_add hy with ⟨-, hnotes⟩ | ⟨z, hz, -, hnotes⟩
    · rw [hnotes]
      exact List.forall_mem_nil _
    · rw [← hnotes]
      exact fun n hn => ⟨hmem (h.notes z hz n hn).1, (h.notes z hz n hn).2⟩
  · obtain ⟨hstates, hmentioned⟩ := (ordered_iff d).1 h.ordered
    refine (ordered_iff _).2 ⟨?_, fun i hi => hmem (hmentioned i hi)⟩
    rw [StateDiagram.add, State.isOrderedList_append, hstates]
    rfl

/-- A mention of a state keeps a diagram `Declared`, be it a pseudostate, a state that is there or a
new one. -/
theorem Declared.mention (h : d.Declared) (hid : isPseudostate id = true ∨ IsHyphenated id) :
    (d.mention id).Declared := by
  unfold StateDiagram.mention
  split
  · exact h
  · rename_i hnew
    simp only [Bool.or_eq_true, not_or, state?, State.isSome_findList?] at hnew
    exact h.add (hid.resolve_left hnew.1) hnew.2

/-- A new transition `t` without a label keeps a diagram `Declared`, if it joins states that are
there or pseudostates on the sides where they belong. -/
theorem Declared.addTransition (h : d.Declared) {t : Transition}
    (hsource : t.source = startId ∨ t.source ∈ State.idsList d.scope.states)
    (htarget : t.target = endId ∨ t.target ∈ State.idsList d.scope.states)
    (hlabel : t.label = none) :
    Declared { d with scope := { d.scope with transitions := d.scope.transitions ++ [t] } } where
  ids := h.ids
  nodup := h.nodup
  coherent := h.coherent
  labels := h.labels
  transitions := by
    obtain ⟨hscope, hrest⟩ := List.forall_mem_cons.1 h.transitions
    refine List.forall_mem_cons.2 ⟨List.forall_mem_append.2 ⟨hscope, ?_⟩, hrest⟩
    exact List.forall_mem_singleton.2 ⟨hsource, htarget, by rw [hlabel]; nofun⟩
  notes := by
    obtain ⟨hscope, hrest⟩ := List.forall_mem_cons.1 h.notes
    exact List.forall_mem_cons.2 ⟨hscope, hrest⟩
  ordered := by
    obtain ⟨hstates, hmentioned⟩ := (ordered_iff d).1 h.ordered
    refine (ordered_iff _).2 ⟨hstates, fun i hi => ?_⟩
    simp only [mentioned, List.flatMap_append, List.filter_append, List.append_assoc,
      List.mem_append] at hi hmentioned
    -- an id is mentioned by an old transition, by the new one or by a note
    rcases hi with hi | hi | hi
    · exact hmentioned i (.inl hi)
    · obtain ⟨hi, hpseudo⟩ := List.mem_filter.1 hi
      have hne : i ≠ startId ∧ i ≠ endId := by simpa [isPseudostate] using hpseudo
      rw [List.flatMap_singleton, List.mem_cons, List.mem_singleton] at hi
      rcases hi with rfl | rfl
      · exact hsource.resolve_left hne.1
      · exact htarget.resolve_left hne.2
    · exact hmentioned i (.inr hi)

/-- The end of a transition that is accepted: the pseudostate that may stand there, or the id of a
state, which is there after it is mentioned. -/
theorem checkEnd_cases {value : String} (h : checkEnd id = .ok value)
    (htoken : isPseudostate id = true ∨ Identifier.IsToken .states id) :
    value = id ∧ (isPseudostate id = true ∨ IsHyphenated id) := by
  have hhyphenated := htoken.imp_right (Identifier.isHyphenated_of_isToken (by decide))
  unfold checkEnd at h
  split at h
  · cases h
    exact ⟨rfl, hhyphenated⟩
  · exact ⟨(Identifier.of_checkFor h).1, hhyphenated⟩

/-- A new transition without a label keeps a state diagram `Declared`, if its ends are pseudostates
or tokens. -/
theorem Declared.of_addTransition (h : d.Declared)
    (hadd : d.addTransition source target none = .ok e)
    (hsource : isPseudostate source = true ∨ Identifier.IsToken .states source)
    (htarget : isPseudostate target = true ∨ Identifier.IsToken .states target) : e.Declared := by
  unfold StateDiagram.addTransition at hadd
  by_cases hend : source = endId
  · rw [if_pos hend] at hadd
    cases hadd
  by_cases hstart : target = startId
  · rw [if_neg hend, if_pos hstart] at hadd
    cases hadd
  rw [if_neg hend, if_neg hstart] at hadd
  obtain ⟨value, hvalue, hrest⟩ := Except.bind_eq_ok_iff.1 hadd
  obtain ⟨value', hvalue', hlast⟩ := Except.bind_eq_ok_iff.1 hrest
  obtain ⟨rfl, hs⟩ := checkEnd_cases hvalue hsource
  obtain ⟨rfl, ht⟩ := checkEnd_cases hvalue' htarget
  cases hlast
  refine ((h.mention hs).mention ht).addTransition ?_ ?_ rfl
  · cases hpseudo : isPseudostate value with
    | true => exact .inl (by simpa [isPseudostate, hend] using hpseudo)
    | false => exact .inr (subset_mention _ _ (mem_idsList_mention hpseudo))
  · cases hpseudo : isPseudostate value' with
    | true => exact .inl (by simpa [isPseudostate, hstart] using hpseudo)
    | false => exact .inr (mem_idsList_mention hpseudo)

end StateDiagram

/-! ### Diagrams -/

namespace Diagram

/-- A diagram `d` of which all parts can stand in a document, as the condition of its dialect says.
Charts are not among them, since no edit of a chart takes ids only. -/
inductive Readable : Diagram → Prop
  | flowchart {d : Flowchart} (h : d.Readable) : Readable (.flowchart d)
  | sequence {d : SequenceDiagram} (h : d.Readable) : Readable (.sequence d)
  | classes {d : ClassDiagram} (h : d.Distinct) : Readable (.classes d)
  | entities {d : EntityDiagram} (h : d.Readable) : Readable (.entities d)
  | states {d : StateDiagram} (h : d.Declared) : Readable (.states d)

/-- An edit without labels that is accepted, and of which the ids are tokens of the dialect. Edges
join registered nodes, so that their ids are not new. -/
inductive Edit : Diagram → Diagram → Prop
  | node {d e : Flowchart} {id : String} {shape : Shape}
    (h : d.addNode id none shape = .ok e) (hid : Identifier.IsToken .flowchart id) :
    Edit (.flowchart d) (.flowchart e)
  | edge {d e : Flowchart} {source target : String} {kind : Flowchart.EdgeKind}
    (h : d.addEdge source target kind none = .ok e) : Edit (.flowchart d) (.flowchart e)
  | participant {d e : SequenceDiagram} {id : String} {kind : Sequence.ParticipantKind}
    (h : d.addParticipant id none kind = .ok e) (hid : Identifier.IsToken .sequence id) :
    Edit (.sequence d) (.sequence e)
  | message {d e : SequenceDiagram} {source target : String} {arrow : Sequence.Arrow}
    (h : d.addMessage source target none arrow = .ok e)
    (hsource : Identifier.IsToken .sequence source)
    (htarget : Identifier.IsToken .sequence target) : Edit (.sequence d) (.sequence e)
  | relation {d e : ClassDiagram} {source target : String} {kind : Classes.RelationKind}
    (h : d.addRelation source target kind none none none = .ok e)
    (hsource : Identifier.IsToken .classes source)
    (htarget : Identifier.IsToken .classes target) : Edit (.classes d) (.classes e)
  | relationship {d e : EntityDiagram} {source target : String} {left right : Entities.Cardinality}
    {identification : Entities.Identification}
    (h : d.addRelationship source target left right none identification = .ok e)
    (hsource : Identifier.IsToken .entities source)
    (htarget : Identifier.IsToken .entities target) : Edit (.entities d) (.entities e)
  | transition {d e : StateDiagram} {source target : String}
    (h : d.addTransition source target none = .ok e)
    (hsource : States.isPseudostate source = true ∨ Identifier.IsToken .states source)
    (htarget : States.isPseudostate target = true ∨ Identifier.IsToken .states target) :
    Edit (.states d) (.states e)

variable {d e : Diagram} {layout : Layout}

/-- A diagram `d` of which all parts can stand in a document reads back, in every `layout` with a
blank indent. -/
theorem Readable.readsBack (hd : d.Readable) (hlayout : layout.IsBlank) :
    Program.ReadsBack layout ⟨[d]⟩ := by
  cases hd with
  | flowchart h => exact h.readsBack hlayout
  | sequence h => exact h.readsBack hlayout
  | classes h => exact h.readsBack hlayout
  | entities h => exact h.readsBack hlayout
  | states h => exact h.readsBack hlayout

/-- An edit keeps a diagram `d` readable, by the lemma for the operation it calls. -/
theorem Edit.readable (h : Edit d e) (hd : d.Readable) : e.Readable := by
  cases h with
  | node h hid =>
    cases hd with
    | flowchart hd => exact .flowchart (hd.of_addNode h hid)
  | edge h =>
    cases hd with
    | flowchart hd => exact .flowchart (hd.of_addEdge h)
  | participant h hid =>
    cases hd with
    | sequence hd => exact .sequence (hd.of_addParticipant h hid)
  | message h hsource htarget =>
    cases hd with
    | sequence hd => exact .sequence (hd.of_addMessage h hsource htarget)
  | relation h hsource htarget =>
    cases hd with
    | classes hd => exact .classes (hd.of_addRelation h hsource htarget)
  | relationship h hsource htarget =>
    cases hd with
    | entities hd => exact .entities (hd.of_addRelationship h hsource htarget)
  | transition h hsource htarget =>
    cases hd with
    | states hd => exact .states (hd.of_addTransition h hsource htarget)

/-- If all parts of `d` can stand in a document, what any number of edits make of `d` reads back.

`d.Readable` asks more than that `d` reads back. It asks of each name and each label that it is read
wherever it is written, and of the registry that it is the one of the statements. A diagram that
reads back although one of its parts does not meet this is not treated. An entity-relationship
diagram of a document always meets it, by `EntityDiagram.readable_of_mem`. -/
theorem readsBack_of_edits (hlayout : layout.IsBlank) (hd : d.Readable)
    (h : Relation.ReflTransGen Edit d e) : Program.ReadsBack layout ⟨[e]⟩ := by
  have hreadable : e.Readable := by
    induction h with
    | refl => exact hd
    | tail _ hedit ih => exact hedit.readable ih
  exact hreadable.readsBack hlayout

/-- A new state with a hyphen in its id is entered from the start, and left for a state that another
one holds. -/
theorem readsBack_of_edits_states : ∃ d e f : StateDiagram,
    d.addTransition States.startId "b-c" = .ok e ∧ e.addTransition "b-c" "x" = .ok f ∧
      f.scope.states.map States.State.id = ["A", "b-c"] ∧
        Program.ReadsBack ⟨"\t"⟩ ⟨[.states f]⟩ := by
  let d : StateDiagram := { direction := some .lr, scope := {
    states := [{ id := "A", children := some [{ id := "x" }] }] } }
  let e : StateDiagram := { d with scope := {
    states := [{ id := "A", children := some [{ id := "x" }] }, { id := "b-c" }]
    transitions := [{ source := States.startId, target := "b-c" }] } }
  let f : StateDiagram := { e with scope := {
    e.scope with transitions := e.scope.transitions ++ [{ source := "b-c", target := "x" }] } }
  have hd : d.Declared := ⟨by decide +kernel, by decide +kernel, by decide +kernel,
    by decide +kernel, by decide +kernel, by decide +kernel, by decide +kernel⟩
  have hfirst : d.addTransition States.startId "b-c" = .ok e := by decide +kernel
  have hsecond : e.addTransition "b-c" "x" = .ok f := by decide +kernel
  refine ⟨d, e, f, hfirst, hsecond, by decide +kernel, readsBack_of_edits ?_ (.states hd) ?_⟩
  · simp [Layout.IsBlank, isSpaceOrTab]
  · exact .tail (.single (.transition hfirst (.inl (by decide)) (.inr (by decide +kernel))))
      (.transition hsecond (.inr (by decide +kernel)) (.inr (by decide +kernel)))

/-- A checked id that a sequence diagram cannot hold, since its identifiers have no hyphens. -/
theorem readsBack_lost : ∃ d e : SequenceDiagram, Program.ReadsBack {} ⟨[.sequence d]⟩ ∧
    d.addParticipant "a-b" = .ok e ∧ ¬Program.ReadsBack {} ⟨[.sequence e]⟩ :=
  ⟨{}, { statements := [.clause (.participant { id := "a-b" })]
         participants := [{ id := "a-b" }] },
    by decide +kernel, by decide +kernel, by decide +kernel⟩

end Diagram
end DiagramText
