import DiagramText.Entities.Reader
import DiagramText.Proofs.Reading.Alike
import DiagramText.Proofs.Reading.Located
import DiagramText.Proofs.Reading.Steady

/-!
# Reading entity-relationship diagrams

Entities and relationships are at the positions of tokens that they were read from, and apart from
these reading does not depend on places. Every statement takes a token, and so does every line in
the body of an entity, which starts before neither a line break nor a brace.

* `EntityDiagram.positions`: all positions in a diagram.
* `Entities.located_read`: the positions in a diagram that was read are those of its tokens.
* `Entities.alike_read`: alike rows of tokens are read as diagrams that are equal without positions.
* `Entities.steady_read`: an entity-relationship diagram is read, or its text is to blame.
-/

/-! ## Positions -/

namespace DiagramText

namespace EntityDiagram

open Entities

/-- All positions in a diagram `d`: those of its entities, then those of its relationships.
Attributes have positions of their own, which no comparison looks at. -/
def positions (d : EntityDiagram) : List Position :=
  d.entities.filterMap Entity.position ++ d.relationships.filterMap Relationship.position

variable {P : Position → Prop} {d : EntityDiagram}

/-- A diagram in which all positions have the property `P`. -/
structure LocatedAt (P : Position → Prop) (d : EntityDiagram) : Prop where
  entities : ∀ e ∈ d.entities, ∀ p ∈ e.position, P p
  relationships : ∀ r ∈ d.relationships, ∀ p ∈ r.position, P p

namespace LocatedAt

theorem forall_positions (h : d.LocatedAt P) : ∀ p ∈ d.positions, P p := by
  intro p hp
  rcases List.mem_append.1 hp with hp | hp
  · obtain ⟨e, he, hp⟩ := List.mem_filterMap.1 hp
    exact h.entities e he p hp
  · obtain ⟨r, hr, hp⟩ := List.mem_filterMap.1 hp
    exact h.relationships r hr p hp

theorem mention (h : d.LocatedAt P) (name : String) {p : Position} (hp : P p) :
    (d.mention name (some p)).LocatedAt P := by
  unfold EntityDiagram.mention
  split
  · exact h
  · refine ⟨List.forall_mem_append.2 ⟨h.entities, List.forall_mem_singleton.2 ?_⟩,
      h.relationships⟩
    rintro _ ⟨⟩
    exact hp

theorem modify (h : d.LocatedAt P) (name : String) {f : Entity → Entity}
    (hf : ∀ e, (f e).position = e.position) : (d.modify name f).LocatedAt P := by
  refine ⟨List.forall_mem_map.2 fun e he => ?_, h.relationships⟩
  split
  · rw [hf]
    exact h.entities e he
  · exact h.entities e he

end LocatedAt
end EntityDiagram

namespace Entities

open Reading

variable {P : Position → Prop} {B : String → Prop} {d : EntityDiagram}

/-! ### Entities -/

theorem located_attributeOf (text : String) {p : Position} (hp : P p) :
    Located P B (attributeOf text p) fun _ => True := by
  refine located_ofResult fun e h => ?_
  simp only [Attribute.ofText] at h
  split at h
  · cases h
  · cases h
    exact ⟨⟨p, rfl, hp⟩, trivial⟩

theorem located_bodyLine (hd : d.LocatedAt P) (name : String) :
    Located P B (bodyLine d name) (EntityDiagram.LocatedAt P) := by
  refine .bind located_peek fun t ht => .bind (located_rawUntil _) fun _ _ =>
    .bind (located_attributeOf _ ht) fun a _ => ?_
  have hadded := hd.modify name (f := fun e => { e with attributes := e.attributes ++ [a] })
    fun _ => rfl
  exact .bind (located_check _) fun _ _ => .ite (fun _ => .pure hadded)
    fun _ => .bind located_endStatement fun _ _ => .pure hadded

theorem located_body (hentity : B "entity") (entity : Token) (hd : d.LocatedAt P) :
    Located P B (body entity d) (EntityDiagram.LocatedAt P) :=
  Reading.located_body hentity (fun _ hd => located_bodyLine hd entity.text) hd

theorem located_entity (hentity : B "entity") (hd : d.LocatedAt P) {t : Token} (ht : P t.start) :
    Located P B (entity d t) (EntityDiagram.LocatedAt P) := by
  have hmention := hd.mention t.text ht
  exact .bind (located_accept _) fun _ _ => .ite (fun _ => located_body hentity t hmention)
    fun _ => .bind located_endStatement fun _ _ => .pure hmention

/-! ### Relationships -/

theorem located_cardinality (marks : List Char) {t : Token} (ht : P t.start) :
    Located P B (cardinality marks t) fun _ => True := by
  unfold cardinality
  split
  · exact .pure trivial
  · exact .failAt (by trivial) ht

theorem located_relationshipLabel : Located P B relationshipLabel fun _ => True :=
  located_behindColon fun _ => .pure trivial

theorem located_relationship (hd : d.LocatedAt P) {source : Token} (hsource : P source.start) :
    Located P B (relationship d source) (EntityDiagram.LocatedAt P) := by
  refine .bind located_advance fun relation hrelation =>
    .bind (located_cardinality _ hrelation) fun _ _ =>
    .bind (located_cardinality _ hrelation) fun _ _ => .bind (located_expect _ _) fun target ht =>
    .bind located_relationshipLabel fun _ _ => .bind located_endStatement fun _ _ => .pure ?_
  have hmention := (hd.mention source.text hsource).mention target.text ht
  refine ⟨hmention.entities, List.forall_mem_append.2
    ⟨hmention.relationships, List.forall_mem_singleton.2 ?_⟩⟩
  rintro _ ⟨⟩
  exact hsource

/-! ### The diagram -/

theorem located_statement (hentity : B "entity") (hd : d.LocatedAt P) :
    Located P B (statement d) (EntityDiagram.LocatedAt P) := by
  refine .bind (located_check _) fun _ _ => .ite (fun _ => ?_) fun _ => ?_
  · exact .bind located_advance fun _ _ => .pure hd
  · exact .bind (located_expect _ _) fun t ht => .bind (located_check _) fun _ _ => .ite
      (fun _ => located_relationship hd ht) fun _ => located_entity hentity hd ht

/-- The positions in a diagram that was read are those of its tokens, as is that of an error. By
`hentity`, `B` admits what is named where the body of an entity is not closed. -/
theorem located_read (hentity : B "entity") :
    Located P B read fun d => ∀ p ∈ d.positions, P p := by
  have hempty : EntityDiagram.LocatedAt P {} := ⟨List.forall_mem_nil _, List.forall_mem_nil _⟩
  have huntil := Located.untilEnd (fun _ hd => located_statement hentity hd) hempty
  exact .bind located_skipNewlines fun _ _ => .bind (located_expectWord _) fun _ _ =>
    .bind located_endStatement fun _ _ => huntil.imp fun _ hd => hd.forall_positions

end Entities
end DiagramText

/-! ## Readings at different places -/

namespace DiagramText

namespace EntityDiagram

open Entities

/-! ### Equality without positions -/

/-- The diagrams `d` and `e` are equal without positions, which is how diagrams are compared. -/
def Same (d e : EntityDiagram) : Prop := d.unplaced = e.unplaced

theorem unplaced_mention (d : EntityDiagram) (name : String) (position : Option Position) :
    (d.mention name position).unplaced = d.unplaced.mention name none := by
  have hany : (d.unplaced.entities.any (·.name == name)) = d.entities.any (·.name == name) := by
    simp only [unplaced, List.any_map, Function.comp_def]
  unfold mention
  rw [hany]
  split
  · rfl
  · simp [unplaced]

theorem unplaced_modify (d : EntityDiagram) (name : String) (f : Entity → Entity)
    (hname : ∀ e, (f { e with position := none }) = { f e with position := none }) :
    (d.modify name f).unplaced = d.unplaced.modify name f := by
  simp only [modify, unplaced, List.map_map, mk.injEq, List.map_inj_left, Function.comp_apply,
    and_true]
  intro e _
  split
  · exact (hname e).symm
  · rfl

theorem Same.mention {d e : EntityDiagram} (h : d.Same e) (name : String)
    (p q : Option Position) : (d.mention name p).Same (e.mention name q) := by
  rw [Same, unplaced_mention, unplaced_mention, h]

end EntityDiagram

namespace Entities

open Reading EntityDiagram

variable {P : Position → Position → Prop} {pre : Nat → Cursor → Prop} {d e : EntityDiagram}
  {t u : Token}

/-! ### Entities -/

theorem alike_attributeOf (text : String) {p q : Position} (h : P p q) :
    AlikeWhen P pre Eq (attributeOf text p) (attributeOf text q) := by
  intro n c d _ hcd
  simp only [attributeOf, ofResult, Attribute.ofText]
  cases Attribute.parse? (Text.trim text.toList) with
  | none => exact Outcome.error (.malformed rfl (.some h))
  | some a => exact .ok rfl (List.suffix_refl _) (Nat.le_refl _) (.inr rfl) hcd

theorem alike_bodyLine (hde : d.Same e) (name : String) :
    AlikeWhen P pre Same (bodyLine d name) (bodyLine e name) := by
  refine AlikeWhen.peek_bind fun t u htu => ?_
  refine (alike_rawUntil _).bind fun text _ htext => htext ▸ ?_
  refine (alike_attributeOf text htu.start).bind fun a _ ha => ha ▸ ?_
  have hadd : (d.modify name fun x => { x with attributes := x.attributes ++ [a] }).Same
      (e.modify name fun x => { x with attributes := x.attributes ++ [a] }) := by
    rw [Same, unplaced_modify _ _ _ fun _ => rfl, unplaced_modify _ _ _ fun _ => rfl, hde]
  refine AlikeWhen.check_bind rfl fun b => AlikeWhen.ite (fun _ => .pure hadd) fun _ => ?_
  exact alike_endStatement.bind fun _ _ _ => .pure hadd

theorem alike_body (htu : t.Same P u) (hde : d.Same e) :
    AlikeWhen P pre Same (body t d) (body u e) := by
  rw [body, body, htu.text]
  exact Reading.alike_body (fun _ _ hde => alike_bodyLine hde u.text) hde

theorem alike_entity (htu : t.Same P u) (hde : d.Same e) :
    AlikeWhen P pre Same (entity d t) (entity e u) := by
  refine (alike_accept (by decide)).bind fun b b' hb => ?_
  have h := hde.mention t.text (some t.start) (some u.start)
  rw [← htu.text]
  cases hb with
  | none => exact alike_endStatement.bind fun _ _ _ => .pure h
  | some hb => exact alike_body htu h

/-! ### Relationships -/

theorem alike_cardinality (marks : List Char) (htu : t.Same P u) :
    AlikeWhen P pre Eq (cardinality marks t) (cardinality marks u) := by
  unfold cardinality
  cases Cardinality.ofMarks? marks with
  | none => exact alike_failAt rfl (.some htu.start)
  | some c => exact .pure rfl

theorem alike_relationshipLabel :
    AlikeWhen P pre Eq relationshipLabel relationshipLabel := by
  refine alike_behindColon fun t u htu => ?_
  cases htu with
  | none => exact .pure rfl
  | some htu => exact .pure (by rw [Option.map_some, Option.map_some, htu.text])

theorem alike_relationship (htu : t.Same P u) (hde : d.Same e)
    (hpre : ∀ n c, pre n c → c.peek.kind.Inner) :
    AlikeWhen P pre Same (relationship d t) (relationship e u) := by
  refine (alike_advance_same hpre).bind fun x y hxy => ?_
  rw [← hxy.text]
  refine (alike_cardinality _ hxy).bind fun left _ hleft => hleft ▸ ?_
  refine (alike_cardinality _ hxy).bind fun right _ hright => hright ▸ ?_
  refine (alike_expect (by decide)).bind fun v w hvw => ?_
  refine alike_relationshipLabel.bind fun label _ hlabel => hlabel ▸ ?_
  refine alike_endStatement.bind fun _ _ _ => .pure ?_
  have h := (hde.mention t.text (some t.start) (some u.start)).mention v.text (some v.start)
    (some w.start)
  rw [← htu.text, ← hvw.text]
  simp only [Same, unplaced, mk.injEq, List.map_append, List.map_cons, List.map_nil] at h ⊢
  exact ⟨h.1, by rw [h.2]⟩

/-! ### The diagram -/

theorem statement_newline (d : EntityDiagram) (past : List Token) (u : Token) (us : List Token)
    (final : Token) (hu : u.kind = .newline) :
    statement d ⟨past, u :: us, final⟩ = .ok (d, ⟨u :: past, us, final⟩) := by
  simp [statement, bind_apply, check_apply, Except.bind, hu, map_apply, advance_cons]

theorem alike_statement (hde : d.Same e) :
    AlikeWhen P (fun _ c => c.rest ≠ []) Same (statement d) (statement e) := by
  refine AlikeWhen.check_bind_of_cons (fun _ _ h => h) fun b =>
    AlikeWhen.ite (fun _ => ?_) fun _ => ?_
  · exact alike_advance.bind fun _ _ _ => .pure hde
  · refine (alike_expect (by decide)).bind fun t u htu => ?_
    refine AlikeWhen.check_bind rfl fun b => AlikeWhen.ite (fun hb => ?_) fun _ => ?_
    · exact alike_relationship htu hde fun n c hc =>
        inner_of_check (by decide) (hc.2.trans hb)
    · exact alike_entity htu hde

/-- Reading an entity-relationship diagram does not depend on places: rows that are alike give
diagrams that are the `Same`. -/
theorem alike_read : Alike P Same read read := by
  refine alike_skipNewlines_bind ?_
  refine alike_expectWord.bind fun _ _ _ => ?_
  refine alike_endStatement.bind fun _ _ _ => ?_
  exact alike_untilEnd (fun _ _ => alike_statement) statement_newline rfl

end Entities
end DiagramText

/-! ## Failures -/

namespace DiagramText.Entities

open Reading

variable {x : Dialect} {ts : List Token}

/-! ### Entities -/

theorem steady_attributeOf (text : String) (p : Position) :
    Steady x ts (attributeOf text p) fun _ => True := steady_ofResult _

theorem sound_bodyLine (name : String) (d : EntityDiagram) (n : Nat) :
    Sound x ts
      (fun c => c.Facing ts n ∧ c.peek.kind.endsStatement = false ∧ c.peek.kind ≠ .rightBrace)
      (bodyLine d name) fun _ c => c.Below ts n := by
  have hrest : ∀ text p, Steady x ts (do
      let a ← attributeOf text p
      let d := d.modify name fun e => { e with attributes := e.attributes ++ [a] }
      if ← check [.rightBrace] then return d
      else
        endStatement
        return d) fun _ => True := fun text p =>
    .bind (steady_attributeOf text p) fun _ _ => .bind (.look _) fun _ _ =>
      .ite (fun _ => .pure trivial) fun _ => .bind steady_endStatement fun _ _ => .pure trivial
  refine .look_bind fun t => .bind (sound_rawUntil ?_) fun text =>
    (hrest text t.start n).imp (fun _ => id) fun _ _ hc => hc.2
  rintro c ⟨⟨hfacing, hends, hbrace⟩, -⟩
  exact ⟨hfacing, hends, fun hmem => hbrace (List.mem_singleton.1 hmem)⟩

theorem steady_body (entity : Token) (d : EntityDiagram) :
    Steady x ts (body entity d) fun _ => True :=
  Reading.steady_body (sound_bodyLine entity.text) _ d

theorem steady_entity (d : EntityDiagram) (token : Token) :
    Steady x ts (entity d token) fun _ => True :=
  .bind (steady_accept (by decide)) fun _ _ => .ite (fun _ => steady_body token _)
    fun _ => .bind steady_endStatement fun _ _ => .pure trivial

/-! ### Relationships -/

theorem steady_cardinality (marks : List Char) (relation : Token) :
    Steady x ts (cardinality marks relation) fun _ => True := by
  unfold cardinality
  split
  · exact .pure trivial
  · exact .failAt _ _

theorem steady_relationshipLabel : Steady x ts relationshipLabel fun _ => True :=
  steady_behindColon fun _ _ => .pure trivial

theorem steady_relationship (d : EntityDiagram) (source : Token) :
    Steady x ts (relationship d source) fun _ => True :=
  .bind steady_advance fun relation _ => .bind (steady_cardinality _ relation) fun _ _ =>
    .bind (steady_cardinality _ relation) fun _ _ =>
      .bind (takes_expect (by decide) _).steady fun _ _ =>
        .bind steady_relationshipLabel fun _ _ => .bind steady_endStatement fun _ _ => .pure trivial

/-! ### The diagram -/

theorem moves_statement (d : EntityDiagram) : Moves x ts (statement d) fun _ => True := by
  refine .look_bind fun _ => .ite (fun _ => ?_) fun _ => ?_
  · exact .bind moves_advance fun _ _ => .pure trivial
  · exact .bind (takes_expect (by decide) _).moves fun t _ => .bind (.look _) fun _ _ =>
      .ite (fun _ => steady_relationship d t) fun _ => steady_entity d t

/-- An entity-relationship diagram is read, or its text is to blame; reading never stalls. -/
theorem steady_read : Steady x ts read fun _ => True :=
  .bind steady_skipNewlines fun _ _ => .bind (takes_expectWord _).steady fun _ _ =>
    .bind steady_endStatement fun _ _ => .untilEnd (fun d _ => moves_statement d) trivial

end DiagramText.Entities
