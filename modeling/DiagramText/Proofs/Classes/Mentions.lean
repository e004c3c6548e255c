import DiagramText.Classes.Edit
import DiagramText.Proofs.Classes.Lines
import DiagramText.Proofs.Classes.Reader
import DiagramText.Proofs.Identifier
import DiagramText.Proofs.Program.Failures
import DiagramText.Proofs.Program.Single
import DiagramText.Proofs.Reading.Starts
import DiagramText.Proofs.Roster
import Mathlib.Logic.Relation

/-!
# What class diagrams mention

A class becomes known where it is first mentioned: by its own line, by a stereotype or a member that
stands for itself, or by a relation. What follows on its line or in its body changes it in place, so
the classes of a diagram are the names that its statements mention, each once.

* `Classes.mentionedAt`: the names that a statement mentions, by the tokens where it starts.
* `Classes.ensures_statement_registers`: what one statement registers.
* `ClassDiagram.History.registers`: the classes of a diagram that was read and edited.
* `ClassDiagram.Edit.extends`: no edit removes or changes what a diagram has.
-/

namespace DiagramText

open Reading

/-! ### Names and relations -/

namespace ClassDiagram

open Classes

/-- The source and the target of each relation of the diagram `d`, in order. -/
def links (d : ClassDiagram) : List (String × String) :=
  d.relations.map fun r => (r.source, r.target)

variable {d e f : ClassDiagram} {mentioned : List String}

/-- The diagrams `d` and `e` have classes of the same names and the same relations. What is inside
the classes may differ. -/
def SameNames (d e : ClassDiagram) : Prop := e.names = d.names ∧ e.relations = d.relations

theorem SameNames.trans (h : d.SameNames e) (h' : e.SameNames f) : d.SameNames f :=
  ⟨h'.1.trans h.1, h'.2.trans h.2⟩

theorem SameNames.registers (h : d.SameNames e) (hd : Registers d.names d.links mentioned) :
    Registers e.names e.links mentioned := by
  rw [links, h.1, h.2]
  exact hd

/-- A class is changed in place as long as `change` keeps its name. -/
theorem sameNames_modify {change : Definition → Definition} (h : ∀ c, (change c).name = c.name)
    (name : String) : d.SameNames (d.modify name change) :=
  ⟨map_key_modify h name d.classes, rfl⟩

theorem classes_mention (d : ClassDiagram) (name : String) (position : Option Position) :
    (d.mention name position).classes = if d.classes.any (·.name == name) then d.classes else
      d.classes ++ [({ name, position } : Definition)] := by
  unfold mention
  split <;> rfl

theorem names_mention (d : ClassDiagram) (name : String) (position : Option Position) :
    (d.mention name position).names = if name ∈ d.names then d.names else d.names ++ [name] := by
  rw [names, classes_mention]
  exact map_key_mention d.classes ({ name, position } : Definition)

theorem relations_mention (d : ClassDiagram) (name : String) (position : Option Position) :
    (d.mention name position).relations = d.relations := by
  unfold mention
  split <;> rfl

theorem registers_mention (h : Registers d.names d.links mentioned) (name : String)
    (position : Option Position) : Registers (d.mention name position).names
      (d.mention name position).links (mentioned ++ [name]) := by
  rw [names_mention, links, relations_mention]
  exact h.mention name

/-- A relation `r` registers its source and then its target, each unless it is known. -/
theorem registers_relation (h : Registers d.names d.links mentioned) {source target : String}
    (p q : Option Position) {r : Relation} (hsource : r.source = source)
    (htarget : r.target = target) :
    let e := (d.mention source p).mention target q
    Registers { e with relations := e.relations ++ [r] }.names
      { e with relations := e.relations ++ [r] }.links (mentioned ++ [source, target]) := by
  subst hsource htarget
  intro e
  have hlinks : links { e with relations := e.relations ++ [r] } =
      d.links ++ [(r.source, r.target)] := by
    rw [links, relations_mention, relations_mention]
    exact List.map_append
  rw [hlinks]
  show Registers e.names _ _
  rw [names_mention, names_mention]
  exact h.mention_link r.source r.target

end ClassDiagram

/-! ### Statements -/

namespace Classes

open ClassDiagram

variable {d : ClassDiagram} {ts : List Token} {mentioned : List String} {P : Cursor → Prop}

/-- The names that a statement mentions, by the tokens `ts` ahead where it starts: the class that a
line is about, or the source and the target of a relation. -/
def mentionedAt : List Token → List String
  | t :: u :: ts =>
    if t.isWord ["class"] && u.kind = .identifier then [u.text]
    else if t.isWord ["direction"] && u.kind = .identifier then []
    else if t.kind = .stereotypeOpen then (ts[1]?.map Token.text).toList
    else if t.kind = .identifier && u.kind = .colon then [t.text]
    else if t.kind = .identifier then
      t.text :: (((u :: ts).find? (·.kind = .identifier)).map Token.text).toList
    else []
  | _ => []

theorem sameNames_setStereotype (name stereotype : String) :
    d.SameNames (setStereotype d name stereotype) := by
  apply sameNames_modify
  intro c
  rfl

theorem sameNames_addMember (name : String) (m : Member) : d.SameNames (addMember d name m) := by
  apply sameNames_modify
  intro c
  rfl

theorem ensures_generic_sameNames (name : String) :
    Ensures P (generic d name) fun e _ => d.SameNames e := by
  refine .bind .unknown fun t => ?_
  cases t with
  | none => exact .pure fun _ _ => ⟨rfl, rfl⟩
  | some t =>
    refine .bind .unknown fun text => .bind .unknown fun _ => .ite (fun _ => .fail _) fun _ => ?_
    apply Ensures.pure
    intro _ _
    apply sameNames_modify
    intro c
    rfl

theorem ensures_bodyLine_sameNames (name : String) :
    Ensures P (bodyLine d name) fun e _ => d.SameNames e := by
  have hend : ∀ e : ClassDiagram, d.SameNames e → Ensures (fun _ => True) (do
      if ← check [.rightBrace] then return e
      else
        endStatement
        return e) fun e _ => d.SameNames e := fun e he =>
    .look_bind fun _ => .ite (fun _ => .pure fun _ _ => he) fun _ =>
      .bind .unknown fun _ => .pure fun _ _ => he
  refine .look_bind fun b => .ite (fun _ => ?_) fun _ => ?_
  · exact .bind .unknown fun s => hend _ (sameNames_setStereotype name s)
  · refine .look_bind fun t => .bind .unknown fun text => .bind .unknown fun m => ?_
    exact hend _ (sameNames_addMember name m)

theorem ensures_body_sameNames (keyword : Token) (name : String) (e : ClassDiagram) :
    Ensures (fun _ => d.SameNames e) (body keyword name e) fun f _ => d.SameNames f :=
  Reading.ensures_body (fun _ he => (ensures_bodyLine_sameNames name).imp_right
    fun _ _ hf => he.trans hf) _ e

/-- What a line says about its class `u`, and the body behind it, register no other class. -/
theorem ensures_definition_registers {t u : Token} {us : List Token}
    (hd : Registers d.names d.links mentioned) :
    Ensures (Cursor.Behind (t :: u :: us) []) (definition d)
      fun e _ => Registers e.names e.links (mentioned ++ [u.text]) := by
  refine .bind_and (ensures_advance_behind []) fun keyword _ => ?_
  refine .bind_and (ensures_advance_behind [t]) fun token htoken => ?_
  obtain rfl := htoken
  -- what follows the name and the stereotype changes the class only
  have hrest : ∀ d₁ e : ClassDiagram, d₁.SameNames e → Ensures (fun _ => True) (do
      if (← accept .leftBrace).isNone then
        endStatement
        return e
      else if (← accept .rightBrace).isSome then
        endStatement
        return e
      else
        endStatement
        body keyword token.text e) fun e _ => d₁.SameNames e := by
    intro d₁ e he
    have hdone : Ensures (fun _ => True) (do endStatement; return e) fun e _ => d₁.SameNames e :=
      .bind .unknown fun _ => .pure fun _ _ => he
    refine .bind .unknown fun _ => .ite (fun _ => hdone) fun _ => ?_
    refine .bind .unknown fun _ => .ite (fun _ => hdone) fun _ => .bind .unknown fun _ => ?_
    exact (ensures_body_sameNames keyword token.text e).imp (fun _ _ => he) fun _ _ => id
  refine Ensures.imp_right ?_ fun e _ he =>
    SameNames.registers he (registers_mention hd token.text (some token.start))
  refine .bind (ensures_generic_sameNames token.text) fun e => .of_fact fun he => ?_
  refine .look_bind fun _ => .ite (fun _ => ?_) fun _ => hrest _ e he
  exact .bind .unknown fun s => hrest _ _ (he.trans (sameNames_setStereotype token.text s))

/-- The line of a stereotype mentions the class behind it, which is its fourth token. -/
theorem ensures_stereotypeLine_registers (hd : Registers d.names d.links mentioned) :
    Ensures (Cursor.Behind ts []) (stereotypeLine d) fun e _ => ∃ s u v w,
      [s, u, v, w] <+: ts ∧ Registers e.names e.links (mentioned ++ [w.text]) := by
  have hstereotype : Ensures (Cursor.Behind ts []) stereotype fun _ c =>
      ∃ s u v, c.Behind ts [s, u, v] := by
    refine .bind (ensures_expect_behind (by decide) _) fun s => .of_and fun _ => ?_
    refine .bind (ensures_expect_behind (by decide) _) fun u => .of_and fun _ => ?_
    refine .bind (ensures_expect_behind (by decide) _) fun v => .of_and fun _ => ?_
    exact .pure fun _ hc => ⟨s, u, v, hc⟩
  refine .bind hstereotype fun text => ?_
  refine .of_exists fun s => .of_exists fun u => .of_exists fun v => ?_
  refine .bind (ensures_expect_behind (by decide) _) fun w => .of_and fun _ => ?_
  refine ensures_of_behind fun hfirst => .bind .unknown fun _ => .pure fun _ _ => ?_
  exact ⟨s, u, v, w, hfirst, (sameNames_setStereotype w.text text).registers
    (registers_mention hd w.text (some w.start))⟩

/-- The line of a member mentions the class `t` before its colon. -/
theorem ensures_memberLine_registers {t : Token} {us : List Token}
    (hd : Registers d.names d.links mentioned) :
    Ensures (Cursor.Behind (t :: us) []) (memberLine d)
      fun e _ => Registers e.names e.links (mentioned ++ [t.text]) := by
  refine .bind_and (ensures_advance_behind []) fun token htoken => ?_
  obtain rfl := htoken
  refine .bind .unknown fun _ => .bind .unknown fun text => .bind .unknown fun m => ?_
  refine .bind .unknown fun _ => .pure fun _ _ => ?_
  exact (sameNames_addMember token.text m).registers
    (registers_mention hd token.text (some token.start))

/-! ### Relations -/

/-- Behind the first of the tokens `t :: us` none that names a class was passed, so the first
identifier ahead is the target. -/
def BeforeTarget (t : Token) (us : List Token) (c : Cursor) : Prop :=
  ∃ passed, (∀ u ∈ passed, u.kind ≠ .identifier) ∧ c.Behind (t :: us) (t :: passed)

theorem BeforeTarget.cons {t u : Token} {us passed : List Token} {c : Cursor}
    (hpassed : ∀ u ∈ passed, u.kind ≠ .identifier) (hu : u.kind ≠ .identifier)
    (hc : c.Behind (t :: us) (t :: passed ++ [u])) : BeforeTarget t us c := by
  refine ⟨passed ++ [u], ?_, hc⟩
  intro v hv
  rcases List.mem_append.1 hv with hv | hv
  · exact hpassed v hv
  · rwa [List.mem_singleton.1 hv]

theorem ensures_cardinality_target {t : Token} {us : List Token} :
    Ensures (BeforeTarget t us) cardinality fun _ => BeforeTarget t us := by
  refine .of_exists fun passed => .of_and fun hpassed => ?_
  refine .bind (ensures_accept_behind (by decide)) fun text => .of_and fun htext => .pure ?_
  intro c hc
  cases text with
  | none => exact ⟨passed, hpassed, by simpa using hc⟩
  | some u => exact .cons hpassed (by rw [htext u rfl]; decide) hc

/-- A relation mentions the class `t` it starts with and then the first class behind that. -/
theorem ensures_relation_registers {t : Token} {us : List Token}
    (hd : Registers d.names d.links mentioned) :
    Ensures (Cursor.Behind (t :: us) []) (relation d) fun e _ => ∃ u,
      us.find? (·.kind = .identifier) = some u ∧
        Registers e.names e.links (mentioned ++ [t.text, u.text]) := by
  refine .bind_and (ensures_advance_behind []) fun source hsource => ?_
  obtain rfl := hsource
  refine .bind (Q := fun _ => BeforeTarget source us) ?_ fun sourceCardinality => ?_
  · exact ensures_cardinality_target.imp (fun c hc => ⟨[], nofun, hc⟩) fun _ _ => id
  refine .bind (Q := fun _ => BeforeTarget source us) ?_ fun operator => ?_
  · refine .of_exists fun passed => .of_and fun hpassed => ?_
    refine (ensures_expect_behind (by decide) _).imp_right fun u c hc => ?_
    exact .cons hpassed (by rw [hc.1]; decide) hc.2
  split
  · exact .failAt _ _
  · next kind =>
    refine .bind ensures_cardinality_target fun targetCardinality => ?_
    refine .of_exists fun passed => .of_and fun hpassed => ?_
    refine .bind (ensures_expect_behind (by decide) _) fun target => .of_and fun htarget => ?_
    refine ensures_of_behind fun hfirst => ?_
    refine .bind .unknown fun label => .bind .unknown fun _ => .pure fun _ _ => ?_
    refine ⟨target, ?_, ?_⟩
    -- no identifier was passed before the target, so it is the first one
    · obtain ⟨rest, hrest⟩ := hfirst
      obtain rfl : passed ++ target :: rest = us := by simpa using hrest
      have hnone : passed.find? (·.kind = .identifier) = none := by simpa using hpassed
      rw [List.find?_append, hnone, Option.none_or, List.find?_cons_of_pos]
      exact decide_eq_true htarget
    · exact registers_relation hd _ _ rfl rfl

/-! ### The diagram -/

/-- A statement registers the names that it mentions, in their order, by `mentionedAt`. -/
theorem ensures_statement_registers {t : Token} {us : List Token}
    (hd : Registers d.names d.links mentioned) :
    Ensures (Cursor.Behind (t :: us) []) (statement d)
      fun e _ => Registers e.names e.links (mentioned ++ mentionedAt (t :: us)) := by
  refine .bind_and ensures_peek_behind fun token htoken => ?_
  refine .bind_and ensures_second_behind fun second hsecond => ?_
  obtain rfl := htoken
  -- a second token is ahead if it is of any kind but the end of input
  have hahead : second.kind ≠ .endOfInput → ∃ ws, us = second :: ws := by
    intro hkind
    exact hsecond.resolve_left fun h => hkind h.2
  refine ensures_accept_bind_behind [] ?newline fun hnewline => ?_
  case newline =>
    intro hkind
    have hnone : mentionedAt (token :: us) = [] := by
      cases us <;> simp [mentionedAt, Token.isWord, hkind]
    rw [hnone, List.append_nil]
    exact .pure fun _ _ => hd
  refine .ite (fun h => absurd h (by decide)) fun _ => .ite ?definition fun hclass =>
    .ite ?direction fun hdirection =>
    .ite ?stereotype fun hstereotype => .ite ?member fun hmember => .ite ?relation fun _ => .fail _
  case definition =>
    intro h
    rw [Bool.and_eq_true, decide_eq_true_eq] at h
    obtain ⟨ws, rfl⟩ := hahead (by rw [h.2]; decide)
    have hnames : mentionedAt (token :: second :: ws) = [second.text] := by simp [mentionedAt, h]
    rw [hnames]
    exact ensures_definition_registers hd
  case direction =>
    intro h
    rw [Bool.and_eq_true, decide_eq_true_eq] at h
    obtain ⟨ws, rfl⟩ := hahead (by rw [h.2]; decide)
    have hnone : mentionedAt (token :: second :: ws) = [] := by
      have hclass : token.isWord ["class"] = false := by simpa [h.2] using hclass
      simp [mentionedAt, h, hclass]
    rw [hnone, List.append_nil]
    refine .bind .unknown fun _ => .bind .unknown fun _ => .bind .unknown fun _ => ?_
    exact .pure fun _ _ => hd
  case stereotype =>
    intro h
    refine (ensures_stereotypeLine_registers hd).imp_right fun e _ he => ?_
    obtain ⟨s, u, v, w, ⟨ws, hws⟩, hregisters⟩ := he
    have hnames : mentionedAt (token :: us) = [w.text] := by
      obtain ⟨rfl, rfl⟩ : s = token ∧ u :: v :: w :: ws = us := by simpa using hws
      simp [mentionedAt, Token.isWord, h]
    rwa [hnames]
  case member =>
    intro h
    rw [Bool.and_eq_true, decide_eq_true_eq, decide_eq_true_eq] at h
    obtain ⟨ws, rfl⟩ := hahead (by rw [h.2]; decide)
    have hnames : mentionedAt (token :: second :: ws) = [token.text] := by
      simp [mentionedAt, h]
    rw [hnames]
    exact ensures_memberLine_registers hd
  case relation =>
    intro h
    refine (ensures_relation_registers hd).imp_right fun e _ he => ?_
    obtain ⟨u, hu, hregisters⟩ := he
    obtain ⟨ws, rfl⟩ : ∃ ws, us = second :: ws := by
      refine hsecond.resolve_left fun hnil => ?_
      rw [hnil.1] at hu
      cases hu
    have hcolon : second.kind ≠ .colon := fun hcolon => hmember (by simp [h, hcolon])
    have hnames : mentionedAt (token :: second :: ws) = [token.text, u.text] := by
      simp [mentionedAt, h, hclass, hdirection, hcolon, hu]
    rwa [hnames]

/-- Reads the line that starts a class diagram, as `Classes.read` does before its statements. -/
def header : Reading Unit := do
  skipNewlines
  let _ ← expectWord "classdiagram"
  if (← accept .minus).isSome then
    let _ ← expectWord "v2"
  endStatement

theorem read_eq : read = header >>= fun _ => untilEnd statement {} := by
  unfold read header
  simp only [bind_assoc]
  refine bind_congr fun _ => bind_congr fun _ => bind_congr fun minus => ?_
  split
  · rw [bind_assoc]
  · rfl

theorem steady_header {x : Dialect} : Steady x ts header fun _ => True := by
  refine .bind steady_skipNewlines fun _ _ => .bind (takes_expectWord _).steady fun _ _ => ?_
  refine .bind (steady_accept (by decide)) fun _ _ =>
    .ite (fun _ => ?_) fun _ => steady_endStatement
  exact .bind (takes_expectWord _).steady fun _ _ => steady_endStatement

/-- The names that the statements of a class diagram mention, statement by statement, if it is read
from the cursor `c`. -/
def mentions (c : Cursor) : List String := (startsAfter header statement {} c).flatMap mentionedAt

/-- The classes of a diagram `d` that is read are those that its statements mention. -/
theorem registers_of_read {row : List Token} {c c' : Cursor} (hc : c.Within row)
    (h : read c = .ok (d, c')) : Registers d.names d.links (mentions c) := by
  rw [read_eq] at h
  refine startsAfter_spec
    (I := fun d starts => Registers d.names d.links (starts.flatMap mentionedAt)) ?_ ?_ ?_ .nil hc h
  · exact fun ts n => (steady_header (x := .classes)).passes n
  · exact fun ts n d => (moves_statement (x := .classes) d).passes n
  · intro d starts t us hd
    rw [List.flatMap_append, List.flatMap_singleton]
    exact ensures_statement_registers hd

end Classes

/-! ### Edits -/

namespace ClassDiagram

open Classes

/-- A diagram comes from the diagram `d` by an accepted edit, which mentions names. -/
inductive Edit (d : ClassDiagram) : List String → ClassDiagram → Prop
  | addRelation {e : ClassDiagram} {source target : String} {kind : RelationKind}
      {label sourceCardinality targetCardinality : Option String}
      (h : d.addRelation source target kind label sourceCardinality targetCardinality = .ok e) :
      Edit d [source, target] e

/-- A diagram that was empty or was read, and was then edited any number of times, with the names
that its document and its edits mention. -/
abbrev History : ClassDiagram → List String → Prop :=
  Diagram.History .classes (fun d => ∃ direction, d = { direction }) mentions Edit

variable {d e : ClassDiagram} {mentioned names : List String}

/-- An accepted edit mentions the ends of its relation `r`, which it adds. -/
theorem Edit.exists_relation (h : Edit d names e) : ∃ r : Relation, names = [r.source, r.target] ∧
    let mentions := (d.mention r.source none).mention r.target none
    e = { mentions with relations := mentions.relations ++ [r] } := by
  cases h with
  | @addRelation e source target kind label sourceCardinality targetCardinality h =>
    obtain ⟨_, hsource, hrest⟩ := Except.bind_eq_ok_iff.1 h
    obtain ⟨_, htarget, he⟩ := Except.bind_eq_ok_iff.1 hrest
    rw [(Identifier.of_checkFor hsource).1, (Identifier.of_checkFor htarget).1] at he
    cases he
    let label := label.filter fun l => !l.isEmpty
    exact ⟨⟨source, target, kind, sourceCardinality, targetCardinality, label, none⟩, rfl, rfl⟩

theorem Edit.registers (h : Edit d names e) (hd : Registers d.names d.links mentioned) :
    Registers e.names e.links (mentioned ++ names) := by
  obtain ⟨r, rfl, rfl⟩ := h.exists_relation
  exact registers_relation hd none none rfl rfl

theorem classes_prefix_mention (d : ClassDiagram) (name : String) (position : Option Position) :
    d.classes <+: (d.mention name position).classes := by
  rw [classes_mention]
  exact prefix_mention _ _ _

theorem direction_mention (d : ClassDiagram) (name : String) (position : Option Position) :
    (d.mention name position).direction = d.direction := by
  unfold mention
  split <;> rfl

/-- The diagram `e` has all that `d` has, and may have more classes and relations behind it. -/
structure Extends (d e : ClassDiagram) : Prop where
  classes_prefix : d.classes <+: e.classes
  relations_prefix : d.relations <+: e.relations
  direction_eq : e.direction = d.direction

/-- No edit removes or changes what a diagram has: `e` extends `d`. -/
theorem Edit.extends (h : Edit d names e) : d.Extends e := by
  obtain ⟨r, -, rfl⟩ := h.exists_relation
  constructor
  · exact (classes_prefix_mention d _ none).trans (classes_prefix_mention _ _ none)
  · rw [relations_mention, relations_mention]
    exact List.prefix_append _ _
  · exact (direction_mention _ _ none).trans (direction_mention d _ none)

/-- The classes of a diagram `d` with a history are those that were mentioned, each once, in the
order of their first mention. -/
theorem History.registers (h : History d mentioned) : Registers d.names d.links mentioned := by
  refine Diagram.History.induction (x := Classes.read)
    (P := fun d mentioned => Registers d.names d.links mentioned)
    (fun _ _ => Diagram.classes.inj) (fun _ => rfl) ?_ ?_ ?_ h
  · rintro _ ⟨direction, rfl⟩
    exact .nil
  · intro s d c hread
    exact registers_of_read s.below_tokens hread
  · intro d e mentioned names hd hedit
    exact hedit.registers hd

end ClassDiagram
end DiagramText
