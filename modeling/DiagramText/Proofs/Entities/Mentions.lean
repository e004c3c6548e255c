import DiagramText.Entities.Edit
import DiagramText.Proofs.Entities.Reader
import DiagramText.Proofs.Identifier
import DiagramText.Proofs.Program.Failures
import DiagramText.Proofs.Program.Single
import DiagramText.Proofs.Reading.Starts
import DiagramText.Proofs.Roster

/-!
# What entity-relationship diagrams mention

An entity becomes known where it is first mentioned, by its own line or by a relationship. The lines
of its body change it in place, so the entities of a diagram are the names that its statements
mention, each once.

* `Entities.mentionedAt`: the names that a statement mentions, by the tokens where it starts.
* `Entities.ensures_statement_registers`: what one statement registers.
* `EntityDiagram.History.registers`: the entities of a diagram that was read and edited.
* `EntityDiagram.Edit.extends`: no edit removes or changes what a diagram has.
-/

namespace DiagramText

open Reading

/-! ### Names and relationships -/

namespace EntityDiagram

open Entities

/-- The names of the entities of the diagram `d`, in the order in which they were first
mentioned. -/
def names (d : EntityDiagram) : List String := d.entities.map Entity.name

/-- The source and the target of each relationship of the diagram `d`, in order. -/
def links (d : EntityDiagram) : List (String × String) :=
  d.relationships.map fun r => (r.source, r.target)

variable {d e f : EntityDiagram} {mentioned : List String}

/-- The diagrams `d` and `e` have entities of the same names and the same relationships. -/
def SameNames (d e : EntityDiagram) : Prop :=
  e.names = d.names ∧ e.relationships = d.relationships

theorem SameNames.trans (h : d.SameNames e) (h' : e.SameNames f) : d.SameNames f :=
  ⟨h'.1.trans h.1, h'.2.trans h.2⟩

theorem SameNames.registers (h : d.SameNames e) (hd : Registers d.names d.links mentioned) :
    Registers e.names e.links mentioned := by
  rw [links, h.1, h.2]
  exact hd

/-- An entity is changed in place as long as the `change` keeps its name. -/
theorem sameNames_modify {change : Entity → Entity} (h : ∀ e, (change e).name = e.name)
    (name : String) : d.SameNames (d.modify name change) :=
  ⟨map_key_modify h name d.entities, rfl⟩

theorem entities_mention (d : EntityDiagram) (name : String) (position : Option Position) :
    (d.mention name position).entities = if d.entities.any (·.name == name) then d.entities else
      d.entities ++ [({ name, position } : Entity)] := by
  unfold mention
  split <;> rfl

theorem names_mention (d : EntityDiagram) (name : String) (position : Option Position) :
    (d.mention name position).names = if name ∈ d.names then d.names else d.names ++ [name] := by
  rw [names, entities_mention]
  exact map_key_mention d.entities ({ name, position } : Entity)

theorem relationships_mention (d : EntityDiagram) (name : String) (position : Option Position) :
    (d.mention name position).relationships = d.relationships := by
  unfold mention
  split <;> rfl

theorem registers_mention (h : Registers d.names d.links mentioned) (name : String)
    (position : Option Position) : Registers (d.mention name position).names
      (d.mention name position).links (mentioned ++ [name]) := by
  rw [names_mention, links, relationships_mention]
  exact h.mention name

/-- A relationship `r` registers its source and then its target, and then brings the two into the
links. -/
theorem registers_relationship (h : Registers d.names d.links mentioned) {source target : String}
    (p q : Option Position) {r : Relationship} (hsource : r.source = source)
    (htarget : r.target = target) :
    let e := (d.mention source p).mention target q
    Registers { e with relationships := e.relationships ++ [r] }.names
      { e with relationships := e.relationships ++ [r] }.links
      (mentioned ++ [source, target]) := by
  subst hsource htarget
  intro e
  have hlinks : links { e with relationships := e.relationships ++ [r] } =
      d.links ++ [(r.source, r.target)] := by
    rw [links, relationships_mention, relationships_mention]
    exact List.map_append
  rw [hlinks]
  show Registers e.names _ _
  rw [names_mention, names_mention]
  exact h.mention_link r.source r.target

end EntityDiagram

/-! ### Statements -/

namespace Entities

open EntityDiagram

variable {d : EntityDiagram} {ts : List Token} {mentioned : List String} {P : Cursor → Prop}

/-- The names that a statement mentions, by the tokens ahead where it starts: the entity that it
starts with, and behind a relation another one. A line break mentions none. -/
def mentionedAt : List Token → List String
  | t :: us =>
    if t.kind = .identifier then
      if us.head?.any (·.kind = .entityRelation) then t.text :: (us[1]?.map Token.text).toList
      else [t.text]
    else []
  | [] => []

theorem ensures_bodyLine_sameNames (name : String) :
    Ensures P (bodyLine d name) fun e _ => d.SameNames e := by
  refine .look_bind fun t => .bind .unknown fun text => .bind .unknown fun a => ?_
  have hmodify : d.SameNames
      (d.modify name fun e => { e with attributes := e.attributes ++ [a] }) := by
    apply sameNames_modify
    intro e
    rfl
  refine .look_bind fun _ => .ite (fun _ => .pure fun _ _ => hmodify) fun _ => ?_
  exact .bind .unknown fun _ => .pure fun _ _ => hmodify

theorem ensures_body_sameNames (entity : Token) (e : EntityDiagram) :
    Ensures (fun _ => d.SameNames e) (body entity e) fun f _ => d.SameNames f :=
  Reading.ensures_body (fun _ he => (ensures_bodyLine_sameNames entity.text).imp_right
    fun _ _ hf => he.trans hf) _ e

/-- The line of an entity and the body behind it register no other entity than the one `token`
names. -/
theorem ensures_entity_registers (hd : Registers d.names d.links mentioned) (token : Token) :
    Ensures P (entity d token)
      fun e _ => Registers e.names e.links (mentioned ++ [token.text]) := by
  have hmention := registers_mention hd token.text (some token.start)
  refine .bind .unknown fun _ => .ite (fun _ => ?_) fun _ => ?_
  · refine (ensures_body_sameNames token _).imp (fun _ _ => ⟨rfl, rfl⟩) fun e _ he => ?_
    exact SameNames.registers he hmention
  · exact .bind .unknown fun _ => .pure fun _ _ => hmention

/-- A relationship mentions the entity `t` it starts with and then the one behind the relation
`u`. -/
theorem ensures_relationship_registers {t u : Token} {us : List Token}
    (hd : Registers d.names d.links mentioned) :
    Ensures (Cursor.Behind (t :: u :: us) [t]) (relationship d t) fun e _ => ∃ v,
      [v] <+: us ∧ Registers e.names e.links (mentioned ++ [t.text, v.text]) := by
  refine .bind_and (ensures_advance_behind [t]) fun relation _ => ?_
  have hcardinality : ∀ marks, Ensures (Cursor.Behind (t :: u :: us) [t, u])
      (cardinality marks relation) fun _ => Cursor.Behind (t :: u :: us) [t, u] := by
    intro marks
    unfold cardinality
    split
    · exact .pure fun _ hc => hc
    · exact .failAt _ _
  refine .bind (hcardinality _) fun sourceCardinality => ?_
  refine .bind (hcardinality _) fun targetCardinality => ?_
  refine .bind (ensures_expect_behind (by decide) _) fun v => .of_and fun _ => ?_
  refine ensures_of_behind fun hfirst => ?_
  refine .bind .unknown fun label => .bind .unknown fun _ => .pure fun _ _ => ?_
  have hv : [v] <+: us := by simpa using hfirst
  exact ⟨v, hv, registers_relationship hd _ _ rfl rfl⟩

/-! ### The diagram -/

/-- A statement registers the names that it mentions, in their order, behind those that were
`mentioned` before. -/
theorem ensures_statement_registers {t : Token} {us : List Token}
    (hd : Registers d.names d.links mentioned) :
    Ensures (Cursor.Behind (t :: us) []) (statement d)
      fun e _ => Registers e.names e.links (mentioned ++ mentionedAt (t :: us)) := by
  refine .bind_and (ensures_check_behind [] (by decide)) fun b hb => ?_
  subst hb
  -- A line break or a semicolon is taken, and nothing is mentioned.
  refine .ite (fun hline => ?_) fun _ => ?_
  · have hkind : t.kind = .newline ∨ t.kind = .semicolon := by simpa using hline
    have hnone : mentionedAt (t :: us) = [] := by rcases hkind with h | h <;> simp [mentionedAt, h]
    rw [hnone, List.append_nil]
    exact .bind .unknown fun _ => .pure fun _ _ => hd
  have hfirst : Ensures (Cursor.Behind (t :: us) []) (expect .identifier "entity name")
      fun token c => (token = t ∧ t.kind = .identifier) ∧ c.Behind (t :: us) [t] := by
    refine (ensures_expect_behind (by decide) _).imp_right fun token c hc => ?_
    obtain rfl : t = token := (List.cons.inj hc.2.1).1
    exact ⟨⟨rfl, hc.1⟩, hc.2⟩
  refine .bind_and hfirst fun token htoken => ?_
  obtain ⟨rfl, hkind⟩ := htoken
  refine .bind_and (ensures_check_behind [token] (by decide)) fun b hb => ?_
  have hb : b = us.head?.any (·.kind = .entityRelation) := by rw [hb]; simp
  subst hb
  refine .ite (fun hrelation => ?_) fun hrelation => ?_
  -- A relation stands behind the name, so the statement is a relationship.
  · obtain ⟨u, hu, hoperator⟩ := Option.any_eq_true _ _ |>.1 hrelation
    obtain ⟨us, rfl⟩ := List.head?_eq_some_iff.1 hu
    refine (ensures_relationship_registers hd).imp_right fun e _ he => ?_
    obtain ⟨v, ⟨vs, rfl⟩, hregisters⟩ := he
    have hnames : mentionedAt (token :: u :: ([v] ++ vs)) = [token.text, v.text] := by
      simp [mentionedAt, hkind, of_decide_eq_true hoperator]
    rwa [hnames]
  -- No relation stands behind the name, so this is the line of an entity.
  · have hnames : mentionedAt (token :: us) = [token.text] := by
      simp [mentionedAt, hkind, hrelation]
    rw [hnames]
    exact ensures_entity_registers hd token

/-- Reads the line that starts an entity-relationship diagram. -/
def header : Reading Unit := do
  skipNewlines
  let _ ← expectWord "erdiagram"
  endStatement

theorem read_eq : read = header >>= fun _ => untilEnd statement {} := by
  unfold read header
  simp only [bind_assoc]

theorem steady_header {x : Dialect} : Steady x ts header fun _ => True :=
  .bind steady_skipNewlines fun _ _ => .bind (takes_expectWord _).steady fun _ _ =>
    steady_endStatement

/-- The names that the statements of an entity-relationship diagram mention, if it is read from the
cursor `c`, read off the tokens at the starts of its statements. -/
def mentions (c : Cursor) : List String := (startsAfter header statement {} c).flatMap mentionedAt

/-- The entities of a diagram `d` that is read are those that its statements mention, each once. -/
theorem registers_of_read {row : List Token} {c c' : Cursor} (hc : c.Within row)
    (h : read c = .ok (d, c')) : Registers d.names d.links (mentions c) := by
  rw [read_eq] at h
  refine startsAfter_spec
    (I := fun d starts => Registers d.names d.links (starts.flatMap mentionedAt)) ?_ ?_ ?_ .nil hc h
  · exact fun ts n => (steady_header (x := .entities)).passes n
  · exact fun ts n d => (moves_statement (x := .entities) d).passes n
  · intro d starts t us hd
    rw [List.flatMap_append, List.flatMap_singleton]
    exact ensures_statement_registers hd

end Entities

/-! ### Edits -/

namespace EntityDiagram

open Entities

/-- A diagram comes from the diagram `d` by an accepted edit, which mentions names. -/
inductive Edit (d : EntityDiagram) : List String → EntityDiagram → Prop
  | addRelationship {e : EntityDiagram} {source target : String}
      {sourceCardinality targetCardinality : Cardinality} {label : Option String}
      {identification : Identification}
      (h : d.addRelationship source target sourceCardinality targetCardinality label
        identification = .ok e) : Edit d [source, target] e

/-- A diagram that was empty or was read, and was then edited any number of times, with the names
that its document and its edits mention. -/
abbrev History : EntityDiagram → List String → Prop :=
  Diagram.History .entities (· = {}) mentions Edit

variable {d e : EntityDiagram} {mentioned names : List String}

/-- An accepted edit mentions the ends of its relationship `r`, which it adds behind those that are
there. -/
theorem Edit.exists_relationship (h : Edit d names e) :
    ∃ r : Relationship, names = [r.source, r.target] ∧
      let mentions := (d.mention r.source none).mention r.target none
      e = { mentions with relationships := mentions.relationships ++ [r] } := by
  cases h with
  | @addRelationship e source target sourceCardinality targetCardinality label identification h =>
    obtain ⟨_, hsource, hrest⟩ := Except.bind_eq_ok_iff.1 h
    obtain ⟨_, htarget, he⟩ := Except.bind_eq_ok_iff.1 hrest
    rw [(Identifier.of_checkFor hsource).1, (Identifier.of_checkFor htarget).1] at he
    cases he
    let label := label.filter fun l => !l.isEmpty
    exact ⟨⟨source, target, sourceCardinality, targetCardinality, identification, label, none⟩,
      rfl, rfl⟩

theorem Edit.registers (h : Edit d names e) (hd : Registers d.names d.links mentioned) :
    Registers e.names e.links (mentioned ++ names) := by
  obtain ⟨r, rfl, rfl⟩ := h.exists_relationship
  exact registers_relationship hd none none rfl rfl

theorem entities_prefix_mention (d : EntityDiagram) (name : String) (position : Option Position) :
    d.entities <+: (d.mention name position).entities := by
  rw [entities_mention]
  exact prefix_mention _ _ _

/-- The diagram `e` has all that `d` has, and may have more entities and relationships behind it. -/
structure Extends (d e : EntityDiagram) : Prop where
  entities_prefix : d.entities <+: e.entities
  relationships_prefix : d.relationships <+: e.relationships

/-- No edit removes or changes what a diagram `d` has, and no entity changes its place. -/
theorem Edit.extends (h : Edit d names e) : d.Extends e := by
  obtain ⟨r, -, rfl⟩ := h.exists_relationship
  constructor
  · exact (entities_prefix_mention d _ none).trans (entities_prefix_mention _ _ none)
  · rw [relationships_mention, relationships_mention]
    exact List.prefix_append _ _

/-- The entities of a diagram `d` with a history are those that were mentioned, each at its first
mention, and every relationship joins two of them. -/
theorem History.registers (h : History d mentioned) : Registers d.names d.links mentioned := by
  refine Diagram.History.induction (x := Entities.read)
    (P := fun d mentioned => Registers d.names d.links mentioned)
    (fun _ _ => Diagram.entities.inj) (fun _ => rfl) ?_ ?_ ?_ h
  · rintro _ rfl
    exact .nil
  · intro s d c hread
    exact registers_of_read s.below_tokens hread
  · intro d e mentioned names hd hedit
    exact hedit.registers hd

end EntityDiagram
end DiagramText
