import DiagramText.Entities.Reader
import DiagramText.Proofs.Entities.Attribute
import DiagramText.Proofs.Reading.Ensures
import DiagramText.Proofs.Roster

/-!
# What reading entity-relationship diagrams makes sure of

* `EntityDiagram.Readable`: the names, attributes and labels of a diagram can stand in a document,
  and no entity is missing or there twice.
* `Entities.readable_of_read`: a diagram that was read is readable.
-/

namespace DiagramText

open Text Reading

namespace Entities

/-! ### Parts that can stand in a document -/

/-- A text `name` that is one identifier, which the common rules and those of the dialect take in
whole. -/
structure IsName (name : String) : Prop where
  plain : Plain name.toList
  lexeme : Rule.first (Rule.common ++ Dialect.entityRules) name.toList =
    (.identifier, name.toList.length)

/-- A `text` that the body of an entity can hold on a line: it ends neither the line nor the
body. -/
def IsBodyLine (text : String) : Prop :=
  Token.IsSpan .entities (fun k => !k.endsStatement && ! [TokenKind.rightBrace].contains k)
    text.toList

/-- An attribute `a` that reads back from the text that is written for it. -/
structure Attribute.Readable (a : Attribute) : Prop where
  parse? : parse? a.text.toList = some a
  isBodyLine : IsBodyLine a.text

/-- A `label` that can be written: it is not empty, and can stand in quotes on one line. -/
def IsLabel (label : String) : Prop := label ≠ "" ∧ Plain label.toList

end Entities

namespace EntityDiagram

open Entities

/-- A diagram `d` of which all parts can stand in a document: entities have different names, and the
ends of relationships are among them. -/
structure Readable (d : EntityDiagram) : Prop where
  nodup : (d.entities.map Entity.name).Nodup
  names : ∀ e ∈ d.entities, IsName e.name
  attributes : ∀ e ∈ d.entities, ∀ a ∈ e.attributes, a.Readable
  sources : ∀ r ∈ d.relationships, r.source ∈ d.entities.map Entity.name
  targets : ∀ r ∈ d.relationships, r.target ∈ d.entities.map Entity.name
  labels : ∀ r ∈ d.relationships, ∀ l ∈ r.label, IsLabel l

variable {d : EntityDiagram} {name : String}

/-! ### Mentioning and changing entities -/

theorem mention_of_mem (h : name ∈ d.entities.map Entity.name) (position : Option Position) :
    d.mention name position = d := by
  rw [mention, if_pos (any_key_iff.2 h)]

theorem mention_of_not_mem (h : name ∉ d.entities.map Entity.name) (position : Option Position) :
    d.mention name position = { d with entities := d.entities ++ [{ name, position }] } := by
  rw [mention, if_neg (mt any_key_iff.1 h)]

/-- What is there stays there when the entity `name` is mentioned, which then is there too. -/
theorem mem_mention {m : String} (h : m ∈ d.entities.map Entity.name ∨ m = name)
    (position : Option Position) :
    m ∈ (d.mention name position).entities.map Entity.name := by
  by_cases hmem : name ∈ d.entities.map Entity.name
  · rw [mention_of_mem hmem]
    obtain h | rfl := h
    · exact h
    · exact hmem
  · rw [mention_of_not_mem hmem]
    simpa using h

theorem map_name_modify {f : Entity → Entity} (hf : ∀ e, (f e).name = e.name) :
    (d.modify name f).entities.map Entity.name = d.entities.map Entity.name := by
  rw [modify, List.map_map]
  refine List.map_congr_left fun e _ => ?_
  rw [Function.comp_apply]
  split
  · exact hf e
  · rfl

namespace Readable

theorem empty : Readable {} where
  nodup := .nil
  names := nofun
  attributes := List.forall_mem_nil _
  sources := List.forall_mem_nil _
  targets := List.forall_mem_nil _
  labels := List.forall_mem_nil _

theorem mention (h : d.Readable) (hname : IsName name) (position : Option Position) :
    (d.mention name position).Readable := by
  by_cases hmem : name ∈ d.entities.map Entity.name
  · rwa [mention_of_mem hmem]
  · have hnames : ∀ m ∈ d.entities.map Entity.name,
        m ∈ (d.mention name position).entities.map Entity.name :=
      fun m hm => mem_mention (.inl hm) position
    rw [mention_of_not_mem hmem] at hnames ⊢
    refine ⟨?_, ?_, ?_, fun r hr => hnames _ (h.sources r hr),
      fun r hr => hnames _ (h.targets r hr), h.labels⟩
    · rw [List.map_append, List.nodup_append]
      refine ⟨h.nodup, by simp, ?_⟩
      rintro a ha b hb rfl
      obtain rfl : a = name := by simpa using hb
      exact hmem ha
    · exact List.forall_mem_append.2 ⟨h.names, List.forall_mem_singleton.2 hname⟩
    · exact List.forall_mem_append.2 ⟨h.attributes, List.forall_mem_singleton.2 nofun⟩

theorem addAttribute (h : d.Readable) (name : String) {a : Attribute} (ha : a.Readable) :
    (d.modify name fun e => { e with attributes := e.attributes ++ [a] }).Readable := by
  have hnames : (d.modify name fun e => { e with attributes := e.attributes ++ [a] }).entities.map
      Entity.name = d.entities.map Entity.name := map_name_modify fun _ => rfl
  refine ⟨hnames ▸ h.nodup, List.forall_mem_map.2 fun e he => ?_,
    List.forall_mem_map.2 fun e he => ?_, fun r hr => hnames ▸ h.sources r hr,
    fun r hr => hnames ▸ h.targets r hr, h.labels⟩
  · have hname := h.names e he
    split <;> exact hname
  · have hall := h.attributes e he
    split
    · exact List.forall_mem_append.2 ⟨hall, List.forall_mem_singleton.2 ha⟩
    · exact hall

theorem addRelationship (h : d.Readable) {r : Relationship}
    (hsource : r.source ∈ d.entities.map Entity.name)
    (htarget : r.target ∈ d.entities.map Entity.name) (hlabel : ∀ l ∈ r.label, IsLabel l) :
    Readable { d with relationships := d.relationships ++ [r] } where
  nodup := h.nodup
  names := h.names
  attributes := h.attributes
  sources := List.forall_mem_append.2 ⟨h.sources, List.forall_mem_singleton.2 hsource⟩
  targets := List.forall_mem_append.2 ⟨h.targets, List.forall_mem_singleton.2 htarget⟩
  labels := List.forall_mem_append.2 ⟨h.labels, List.forall_mem_singleton.2 hlabel⟩

end Readable
end EntityDiagram

namespace Entities

/-! ### Reading -/

variable {d : EntityDiagram} {entityToken : Token}

/-- The cursor is before a row of a source. -/
abbrev Scanned : Cursor → Prop := Cursor.Scanned .entities

theorem ensures_attributeOf {text : String} (htext : IsBodyLine text) (position : Position) :
    Ensures Scanned (attributeOf text position) fun a c => a.Readable ∧ Scanned c := by
  refine (ensures_ofResult _).imp_right fun a c h => ⟨?_, h.2⟩
  have hresult := h.1
  rw [Attribute.ofText, htext.trimmed.trim_eq] at hresult
  cases hparse : Attribute.parse? text.toList with
  | none =>
    rw [hparse] at hresult
    cases hresult
  | some b =>
    rw [hparse] at hresult
    cases hresult
    obtain ⟨hwell, hrespaced⟩ := Attribute.respaced_of_parse? htext.plain hparse
    exact ⟨Attribute.parse?_text hwell, htext.respaced Dialect.regular_entities (by decide)
      hrespaced⟩

theorem ensures_bodyLine (hd : d.Readable) (name : String) :
    Ensures Scanned (bodyLine d name) fun e c => e.Readable ∧ Scanned c := by
  refine .look_bind fun t => ?_
  refine .bind_and (ensures_rawUntil Dialect.regular_entities (by decide)) fun text htext => ?_
  refine .bind_and (ensures_attributeOf htext _) fun a ha => ?_
  have hadd := hd.addAttribute name ha
  refine .look_bind fun b => .ite (fun _ => .pure fun _ hc => ⟨hadd, hc⟩) fun _ => ?_
  exact .bind (ensures_endStatement Dialect.regular_entities) fun _ => .pure fun _ hc => ⟨hadd, hc⟩

theorem ensures_body (hd : d.Readable) :
    Ensures Scanned (body entityToken d) fun e c => e.Readable ∧ Scanned c := by
  refine (Ensures.loop (I := fun e c => EntityDiagram.Readable e ∧ Scanned c) (fun e => ?_) d).imp
    (fun c hc => ⟨hd, hc⟩) fun _ _ => id
  refine .of_and fun he => .bind (ensures_skipNewlines Dialect.regular_entities) fun _ => ?_
  refine .look_bind fun b => .ite (fun _ => .look_bind fun _ => .failAt _ _) fun _ => ?_
  refine .bind (ensures_accept Dialect.regular_entities (by decide)) fun t =>
    .ite (fun _ => ?_) fun _ => ?_
  · exact .bind (ensures_endStatement Dialect.regular_entities) fun _ => .pure fun _ hc => ⟨he, hc⟩
  · exact .bind (ensures_bodyLine he _) fun _ => .pure fun _ hc => hc

theorem ensures_entity (hd : d.Readable) (hname : IsName entityToken.text) :
    Ensures Scanned (entity d entityToken) fun e c => e.Readable ∧ Scanned c := by
  have hmention := hd.mention hname (some entityToken.start)
  refine .bind (ensures_accept Dialect.regular_entities (by decide)) fun t =>
    .ite (fun _ => ?_) fun _ => ?_
  · exact ensures_body hmention
  · exact .bind (ensures_endStatement Dialect.regular_entities) fun _ =>
      .pure fun _ hc => ⟨hmention, hc⟩

theorem ensures_relationshipLabel :
    Ensures Scanned relationshipLabel fun label c => (∀ l ∈ label, IsLabel l) ∧ Scanned c := by
  refine ensures_behindColon Dialect.regular_entities fun t ht =>
    .pure fun c hc => ⟨fun l hl => ?_, hc⟩
  obtain ⟨hl, hne⟩ := Option.mem_filter_iff.1 hl
  obtain ⟨u, hu, rfl⟩ := Option.map_eq_some_iff.1 hl
  exact ⟨by simpa using hne, (ht u hu).2.1.of_subset fun c => mem_of_mem_unquote⟩

theorem ensures_relationship (hd : d.Readable) (hname : IsName entityToken.text) :
    Ensures (fun c => c.peek.kind ≠ .colon ∧ Scanned c) (relationship d entityToken)
      fun e c => e.Readable ∧ Scanned c := by
  have hcardinality : ∀ marks relation,
      Ensures Scanned (cardinality marks relation) fun _ c => Scanned c := by
    intro marks relation
    rw [cardinality]
    split
    · exact .pure fun _ hc => hc
    · exact .failAt _ _
  refine .bind (ensures_advance Dialect.regular_entities) fun relation => ?_
  refine .bind (hcardinality _ _) fun left => .bind (hcardinality _ _) fun right => ?_
  refine .bind_and (ensures_expect Dialect.regular_entities (by decide)) fun target htarget => ?_
  refine .bind_and ensures_relationshipLabel fun label hlabel => ?_
  refine .bind (ensures_endStatement Dialect.regular_entities) fun _ => .pure fun c hc => ⟨?_, hc⟩
  have htarget : IsName target.text := ⟨htarget.2.1, htarget.1 ▸ htarget.2.2⟩
  exact ((hd.mention hname _).mention htarget _).addRelationship
    (EntityDiagram.mem_mention (.inl (EntityDiagram.mem_mention (.inr rfl) _)) _)
    (EntityDiagram.mem_mention (.inr rfl) _) hlabel

theorem ensures_statement (hd : d.Readable) :
    Ensures Scanned (statement d) fun e c => e.Readable ∧ Scanned c := by
  refine .bind (ensures_check _) fun b => .ite (fun hb => ?_) fun _ => ?_
  · refine .bind ((ensures_advance Dialect.regular_entities).imp
      (fun c hc => ⟨fun hcolon => ?_, hc.2⟩)
      fun _ _ => id) fun _ => .pure fun _ hc => ⟨hd, hc⟩
    rw [hb, hcolon] at hc
    exact absurd hc.1 (by decide)
  · refine .bind_and ((ensures_expect Dialect.regular_entities (by decide)).imp (fun _ hc => hc.2)
      fun _ _ => id) fun t ht => ?_
    have hname : IsName t.text := ⟨ht.2.1, ht.1 ▸ ht.2.2⟩
    refine .bind (ensures_check _) fun b => .ite (fun hb => ?_) fun _ => ?_
    · refine (ensures_relationship hd hname).imp (fun c hc => ⟨fun hcolon => ?_, hc.2⟩)
        fun _ _ => id
      rw [hb, hcolon] at hc
      exact absurd hc.1 (by decide)
    · exact (ensures_entity hd hname).imp (fun _ hc => hc.2) fun _ _ => id

/-- A diagram that was read from a source is `Readable`, so its parts can be written again. -/
theorem ensures_read : Ensures Scanned read fun d _ => d.Readable := by
  refine .bind (ensures_skipNewlines Dialect.regular_entities) fun _ => ?_
  refine .bind (ensures_expectWord Dialect.regular_entities _) fun _ => ?_
  refine .bind (ensures_endStatement Dialect.regular_entities) fun _ => ?_
  refine (Ensures.untilEnd (I := fun d c => EntityDiagram.Readable d ∧ Scanned c)
    (fun d => .of_and ensures_statement) {}).imp (fun c hc => ⟨.empty, hc⟩) fun _ _ h => h.1

end Entities
end DiagramText
