import DiagramText.Classes.Reader
import DiagramText.Proofs.Reading.Alike
import DiagramText.Proofs.Reading.Located
import DiagramText.Proofs.Reading.Steady

/-!
# Reading class diagrams

Classes and relations are at the positions of tokens that they were read from, and apart from these
reading does not depend on places. Every statement takes a token, and so does every line in the body
of a class: a stereotype, or a member, which starts before neither a line break nor a brace.

* `ClassDiagram.positions`: all positions in a diagram.
* `Classes.located_read`: the positions in a diagram that was read are those of its tokens.
* `Classes.alike_read`: alike rows of tokens are read as diagrams that are equal without positions.
* `Classes.steady_read`: a class diagram is read, or its text is to blame.
-/

/-! ## Positions -/

namespace DiagramText

namespace ClassDiagram

open Classes

/-- All positions in a diagram `d`, those of its classes before those of its relations. Members have
positions of their own, which no comparison of diagrams looks at. -/
def positions (d : ClassDiagram) : List Position :=
  d.classes.filterMap Definition.position ++ d.relations.filterMap Relation.position

variable {P : Position → Prop} {d : ClassDiagram}

/-- A diagram in which all positions have the property `P`. -/
structure LocatedAt (P : Position → Prop) (d : ClassDiagram) : Prop where
  classes : ∀ c ∈ d.classes, ∀ p ∈ c.position, P p
  relations : ∀ r ∈ d.relations, ∀ p ∈ r.position, P p

namespace LocatedAt

theorem forall_positions (h : d.LocatedAt P) : ∀ p ∈ d.positions, P p := by
  intro p hp
  rcases List.mem_append.1 hp with hp | hp
  · obtain ⟨c, hc, hp⟩ := List.mem_filterMap.1 hp
    exact h.classes c hc p hp
  · obtain ⟨r, hr, hp⟩ := List.mem_filterMap.1 hp
    exact h.relations r hr p hp

theorem mention (h : d.LocatedAt P) (name : String) {p : Position} (hp : P p) :
    (d.mention name (some p)).LocatedAt P := by
  unfold ClassDiagram.mention
  split
  · exact h
  · refine ⟨List.forall_mem_append.2 ⟨h.classes, List.forall_mem_singleton.2 ?_⟩, h.relations⟩
    rintro _ ⟨⟩
    exact hp

theorem modify (h : d.LocatedAt P) (name : String) {f : Definition → Definition}
    (hf : ∀ c, (f c).position = c.position) : (d.modify name f).LocatedAt P := by
  refine ⟨List.forall_mem_map.2 fun c hc => ?_, h.relations⟩
  split
  · rw [hf]
    exact h.classes c hc
  · exact h.classes c hc

theorem addMember (h : d.LocatedAt P) (name : String) (m : Member) :
    (Classes.addMember d name m).LocatedAt P := h.modify name fun _ => rfl

theorem setStereotype (h : d.LocatedAt P) (name stereotype : String) :
    (Classes.setStereotype d name stereotype).LocatedAt P := h.modify name fun _ => rfl

end LocatedAt
end ClassDiagram

namespace Classes

open Reading

variable {P : Position → Prop} {B : String → Prop} {d : ClassDiagram}

/-! ### Lines about a class -/

theorem located_memberOf (text : String) {p : Position} (hp : P p) :
    Located P B (memberOf text p) fun _ => True := by
  refine located_ofResult fun e h => ?_
  simp only [Member.ofText] at h
  split at h
  · cases h
  · cases h
    exact ⟨⟨p, rfl, hp⟩, trivial⟩

theorem located_stereotype : Located P B stereotype fun _ => True :=
  .bind (located_expect _ _) fun _ _ => .bind (located_expect _ _) fun _ _ =>
    .bind (located_expect _ _) fun _ _ => .pure trivial

theorem located_stereotypeLine (hd : d.LocatedAt P) :
    Located P B (stereotypeLine d) (ClassDiagram.LocatedAt P) :=
  .bind located_stereotype fun _ _ => .bind (located_expect _ _) fun t ht =>
    .bind located_endStatement fun _ _ => .pure ((hd.mention t.text ht).setStereotype _ _)

theorem located_memberLine (hd : d.LocatedAt P) :
    Located P B (memberLine d) (ClassDiagram.LocatedAt P) :=
  .bind located_advance fun t ht => .bind located_advance fun _ _ =>
    .bind (located_expect _ _) fun _ htext => .bind (located_memberOf _ htext) fun _ _ =>
      .bind located_endStatement fun _ _ => .pure ((hd.mention t.text ht).addMember _ _)

/-! ### Classes -/

theorem located_generic (hd : d.LocatedAt P) (name : String) :
    Located P B (generic d name) (ClassDiagram.LocatedAt P) := by
  refine .bind (located_accept _) fun t _ => ?_
  cases t with
  | none => exact .pure hd
  | some t =>
    exact .bind (located_rawUntil _) fun _ _ => .bind (located_expect _ _) fun _ _ =>
      .ite (fun _ => located_fail _) fun _ => .pure (hd.modify name fun _ => rfl)

theorem located_bodyLine (hd : d.LocatedAt P) (name : String) :
    Located P B (bodyLine d name) (ClassDiagram.LocatedAt P) := by
  have hend : ∀ e : ClassDiagram, e.LocatedAt P → Located P B (do
      if ← check [.rightBrace] then return e
      else
        endStatement
        return e) (ClassDiagram.LocatedAt P) := fun e he =>
    .bind (located_check _) fun _ _ => .ite (fun _ => .pure he)
      fun _ => .bind located_endStatement fun _ _ => .pure he
  refine .bind (located_check _) fun _ _ => .ite (fun _ => ?_) fun _ => ?_
  · exact .bind located_stereotype fun s _ => hend _ (hd.setStereotype name s)
  · refine .bind located_peek fun t ht => .bind (located_rawUntil _) fun text _ => ?_
    exact .bind (located_memberOf text ht) fun m _ => hend _ (hd.addMember name m)

theorem located_body (hclass : B "class") (keyword : Token) (name : String) (hd : d.LocatedAt P) :
    Located P B (body keyword name d) (ClassDiagram.LocatedAt P) :=
  Reading.located_body hclass (fun _ hd => located_bodyLine hd name) hd

theorem located_definition (hclass : B "class") (hd : d.LocatedAt P) :
    Located P B (definition d) (ClassDiagram.LocatedAt P) := by
  have hrest : ∀ (keyword : Token) (name : String) (e : ClassDiagram), e.LocatedAt P →
      Located P B (do
        if (← accept .leftBrace).isNone then
          endStatement
          return e
        else if (← accept .rightBrace).isSome then
          endStatement
          return e
        else
          endStatement
          body keyword name e) (ClassDiagram.LocatedAt P) := fun keyword name e he =>
    .bind (located_accept _) fun _ _ => .ite
      (fun _ => .bind located_endStatement fun _ _ => .pure he)
      fun _ => .bind (located_accept _) fun _ _ => .ite
        (fun _ => .bind located_endStatement fun _ _ => .pure he)
        fun _ => .bind located_endStatement fun _ _ => located_body hclass keyword name he
  refine .bind located_advance fun keyword _ => .bind located_advance fun t ht =>
    .bind (located_generic (hd.mention t.text ht) _) fun e he =>
      .bind (located_check _) fun _ _ => .ite (fun _ => ?_) fun _ => ?_
  · exact .bind located_stereotype fun s _ => hrest keyword t.text _ (he.setStereotype t.text s)
  · exact hrest keyword t.text e he

/-! ### Relations -/

theorem located_cardinality : Located P B cardinality fun _ => True :=
  .bind (located_accept _) fun _ _ => .pure trivial

theorem located_relationLabel : Located P B relationLabel fun _ => True :=
  located_behindColon fun _ => .pure trivial

theorem located_relation (hd : d.LocatedAt P) :
    Located P B (relation d) (ClassDiagram.LocatedAt P) := by
  refine .bind located_advance fun source hsource => .bind located_cardinality fun _ _ =>
    .bind (located_expect _ _) fun operator hoperator => ?_
  split
  · exact .unexpected _ hoperator
  · refine .bind located_cardinality fun _ _ => .bind (located_expect _ _) fun target htarget =>
      .bind located_relationLabel fun _ _ => .bind located_endStatement fun _ _ => .pure ?_
    have hmention := (hd.mention source.text hsource).mention target.text htarget
    refine ⟨hmention.classes, List.forall_mem_append.2
      ⟨hmention.relations, List.forall_mem_singleton.2 ?_⟩⟩
    rintro _ ⟨⟩
    exact hsource

/-! ### The diagram -/

theorem located_statement (hclass : B "class") (hd : d.LocatedAt P) :
    Located P B (statement d) (ClassDiagram.LocatedAt P) := by
  refine .bind located_peek fun _ _ => .bind (located_ahead 1) fun _ _ =>
    .bind (located_accept _) fun _ _ => .ite (fun _ => .pure hd) fun _ =>
      .ite (fun _ => located_definition hclass hd) fun _ => .ite ?direction fun _ =>
        .ite (fun _ => located_stereotypeLine hd) fun _ =>
          .ite (fun _ => located_memberLine hd) fun _ =>
            .ite (fun _ => located_relation hd) fun _ => located_fail _
  case direction =>
    exact fun _ => .bind located_advance fun _ _ => .bind (located_takeDirection _) fun _ _ =>
      .bind located_endStatement fun _ _ => .pure ⟨hd.classes, hd.relations⟩

/-- The positions in a diagram `d` that was read are those of its tokens, as is that of an error. -/
theorem located_read (hclass : B "class") :
    Located P B read fun d => ∀ p ∈ d.positions, P p := by
  have hempty : ClassDiagram.LocatedAt P {} := ⟨List.forall_mem_nil _, List.forall_mem_nil _⟩
  have huntil := Located.untilEnd (fun _ hd => located_statement hclass hd) hempty
  have hrest := huntil.imp fun _ hd => hd.forall_positions
  refine .bind located_skipNewlines fun _ _ => .bind (located_expectWord _) fun _ _ =>
    .bind (located_accept _) fun _ _ => .ite (fun _ => ?_) fun _ => ?_
  · exact .bind (located_expectWord _) fun _ _ => .bind located_endStatement fun _ _ => hrest
  · exact .bind located_endStatement fun _ _ => hrest

end Classes
end DiagramText

/-! ## Readings at different places -/

namespace DiagramText

namespace ClassDiagram

open Classes

/-! ### Equality without positions -/

/-- The diagrams `d` and `e` are equal without positions. -/
def Same (d e : ClassDiagram) : Prop := d.unplaced = e.unplaced

theorem unplaced_mention (d : ClassDiagram) (name : String) (position : Option Position) :
    (d.mention name position).unplaced = d.unplaced.mention name none := by
  have hany : (d.unplaced.classes.any (·.name == name)) = d.classes.any (·.name == name) := by
    simp only [unplaced, List.any_map, Function.comp_def]
  unfold mention
  rw [hany]
  split
  · rfl
  · simp [unplaced]

theorem unplaced_modify (d : ClassDiagram) (name : String) (f : Definition → Definition)
    (hname : ∀ c, f { c with position := none } = { f c with position := none }) :
    (d.modify name f).unplaced = d.unplaced.modify name f := by
  simp only [modify, unplaced, List.map_map, mk.injEq, List.map_inj_left, Function.comp_apply,
    and_true]
  intro c _
  split
  · exact (hname c).symm
  · rfl

variable {d e : ClassDiagram}

theorem Same.mention (h : d.Same e) (name : String) (p q : Option Position) :
    (d.mention name p).Same (e.mention name q) := by
  rw [Same, unplaced_mention, unplaced_mention, h]

theorem Same.modify (h : d.Same e) (name : String) {f : Definition → Definition}
    (hname : ∀ c, f { c with position := none } = { f c with position := none }) :
    (d.modify name f).Same (e.modify name f) := by
  rw [Same, unplaced_modify d name f hname, unplaced_modify e name f hname, h]

theorem Same.addRelation (h : d.Same e) {r s : Relation}
    (hrs : { r with position := none } = { s with position := none }) :
    Same { d with relations := d.relations ++ [r] } { e with relations := e.relations ++ [s] } := by
  simp only [Same, unplaced, mk.injEq, List.map_append, List.map_cons, List.map_nil] at h ⊢
  exact ⟨h.1, by rw [h.2.1, hrs], h.2.2⟩

theorem Same.setDirection (h : d.Same e) (x : Option Direction) :
    Same { d with direction := x } { e with direction := x } := by
  simp only [Same, unplaced, mk.injEq, and_true] at h ⊢
  exact ⟨h.1, h.2.1⟩

end ClassDiagram

namespace Classes

open Reading ClassDiagram

variable {P : Position → Position → Prop} {pre : Nat → Cursor → Prop} {d e : ClassDiagram}
  {t u : Token}

/-! ### Lines about a class -/

theorem alike_memberOf (text : String) {p q : Position} (h : P p q) :
    AlikeWhen P pre Eq (memberOf text p) (memberOf text q) := by
  intro n c d _ hcd
  simp only [memberOf, ofResult, Member.ofText]
  generalize List.contains _ '(' = isMethod
  generalize (if isMethod = true then method? _ _ else attribute? _ _) = member
  cases member with
  | some m => exact .ok rfl (List.suffix_refl _) (Nat.le_refl _) (.inr rfl) hcd
  | none => exact Outcome.error (.malformed rfl (.some h))

theorem Same.addMember (h : d.Same e) (name : String) (m : Member) :
    (addMember d name m).Same (addMember e name m) := h.modify name fun _ => rfl

theorem Same.setStereotype (h : d.Same e) (name stereotype : String) :
    (setStereotype d name stereotype).Same (setStereotype e name stereotype) :=
  h.modify name fun _ => rfl

theorem alike_stereotype : AlikeWhen P pre Eq stereotype stereotype := by
  refine (alike_expect (by decide)).bind fun _ _ _ => ?_
  refine (alike_expect (by decide)).bind fun t u htu => ?_
  exact (alike_expect (by decide)).bind fun _ _ _ => .pure htu.text

theorem alike_stereotypeLine (hde : d.Same e) :
    AlikeWhen P pre Same (stereotypeLine d) (stereotypeLine e) := by
  refine alike_stereotype.bind fun name _ hname => hname ▸ ?_
  refine (alike_expect (by decide)).bind fun t u htu => ?_
  rw [← htu.text]
  exact alike_endStatement.bind fun _ _ _ => .pure (Same.setStereotype (hde.mention _ _ _) _ _)

theorem alike_memberLine (hde : d.Same e)
    (hpre : ∀ n c, pre n c → c.peek.kind.Inner) :
    AlikeWhen P pre Same (memberLine d) (memberLine e) := by
  refine (alike_advance_same hpre).bind fun t u htu => ?_
  refine alike_advance.bind fun _ _ _ => ?_
  refine (alike_expect (by decide)).bind fun x y hxy => ?_
  rw [← hxy.text, ← htu.text]
  refine (alike_memberOf _ hxy.start).bind fun m _ hm => hm ▸ ?_
  exact alike_endStatement.bind fun _ _ _ => .pure (Same.addMember (hde.mention _ _ _) _ _)

/-! ### Classes -/

theorem alike_generic (hde : d.Same e) (name : String) :
    AlikeWhen P pre Same (generic d name) (generic e name) := by
  refine (alike_accept (by decide)).bind fun _ _ h => ?_
  cases h with
  | none => exact .pure hde
  | some _ =>
    refine (alike_rawUntil _).bind fun text _ htext => htext ▸ ?_
    refine (alike_expect (by decide)).bind fun _ _ _ => ?_
    exact AlikeWhen.ite (fun _ => alike_fail) fun _ => .pure (hde.modify name fun _ => rfl)

theorem alike_bodyLine (hde : d.Same e) (name : String) :
    AlikeWhen P pre Same (bodyLine d name) (bodyLine e name) := by
  -- what follows an annotation or a member
  have hend : ∀ {d e : ClassDiagram}, d.Same e → Alike P Same
      (do if ← check [.rightBrace] then return d else do endStatement; return d)
      (do if ← check [.rightBrace] then return e else do endStatement; return e) := fun hde =>
    AlikeWhen.check_bind rfl fun b => AlikeWhen.ite (fun _ => .pure hde) fun _ =>
      alike_endStatement.bind fun _ _ _ => .pure hde
  refine AlikeWhen.check_bind rfl fun b => AlikeWhen.ite (fun _ => ?_) fun _ => ?_
  · refine alike_stereotype.bind fun s _ hs => hs ▸ ?_
    exact hend (Same.setStereotype hde _ _)
  · refine AlikeWhen.peek_bind fun t u htu => ?_
    refine (alike_rawUntil _).bind fun text _ htext => htext ▸ ?_
    refine (alike_memberOf _ htu.start).bind fun m _ hm => hm ▸ ?_
    exact hend (Same.addMember hde _ _)

theorem alike_body (t u : Token) (name : String) (hde : d.Same e) :
    AlikeWhen P pre Same (body t name d) (body u name e) :=
  Reading.alike_body (fun _ _ hde => alike_bodyLine hde name) hde

theorem alike_definition (hde : d.Same e)
    (hpre : ∀ n c, pre n c → (c.ahead 1).kind = .identifier) :
    AlikeWhen P pre Same (definition d) (definition e) := by
  refine AlikeWhen.advance_bind_of_ahead (by decide) hpre fun keyword keyword' _ => ?_
  refine (alike_advance_same fun _ _ hc => by rw [hc]; decide).bind fun t u htu => ?_
  dsimp only
  rw [← htu.text]
  refine (alike_generic (hde.mention _ _ _) _).bind fun d e hde => ?_
  -- what follows the stereotype
  have hend : ∀ {d e : ClassDiagram}, d.Same e → Alike P Same
      (do
        if (← accept .leftBrace).isNone then do endStatement; return d
        else if (← accept .rightBrace).isSome then do endStatement; return d
        else do endStatement; body keyword t.text d)
      (do
        if (← accept .leftBrace).isNone then do endStatement; return e
        else if (← accept .rightBrace).isSome then do endStatement; return e
        else do endStatement; body keyword' t.text e) := by
    intro d e hde
    refine (alike_accept (by decide)).bind fun _ _ h => ?_
    cases h with
    | none => exact alike_endStatement.bind fun _ _ _ => .pure hde
    | some _ =>
      refine (alike_accept (by decide)).bind fun _ _ h => ?_
      cases h with
      | none => exact alike_endStatement.bind fun _ _ _ => alike_body _ _ _ hde
      | some _ => exact alike_endStatement.bind fun _ _ _ => .pure hde
  refine AlikeWhen.check_bind rfl fun b => AlikeWhen.ite (fun _ => ?_) fun _ =>
    (hend hde).mono (fun _ _ _ => trivial) fun _ _ h => h
  refine alike_stereotype.bind fun s _ hs => hs ▸ ?_
  exact hend (Same.setStereotype hde _ _)

/-! ### Relations -/

theorem alike_cardinality : AlikeWhen P pre Eq cardinality cardinality := by
  refine (alike_accept (by decide)).map fun _ _ h => ?_
  cases h with
  | none => rfl
  | some h => rw [Option.map_some, Option.map_some, h.text]

theorem alike_relationLabel : AlikeWhen P pre Eq relationLabel relationLabel := by
  refine alike_behindColon fun t u htu => ?_
  cases htu with
  | none => exact .pure rfl
  | some htu => exact .pure (by rw [Option.map_some, Option.map_some, htu.text])

theorem alike_relation (hde : d.Same e)
    (hpre : ∀ n c, pre n c → c.peek.kind.Inner) :
    AlikeWhen P pre Same (relation d) (relation e) := by
  refine (alike_advance_same hpre).bind fun t u htu => ?_
  refine alike_cardinality.bind fun left _ hleft => hleft ▸ ?_
  refine (alike_expect (by decide)).bind fun x y hxy => ?_
  rw [← hxy.text]
  split
  · exact alike_unexpected hxy.start
  · refine alike_cardinality.bind fun right _ hright => hright ▸ ?_
    refine (alike_expect (by decide)).bind fun v w hvw => ?_
    refine alike_relationLabel.bind fun label _ hlabel => hlabel ▸ ?_
    refine alike_endStatement.bind fun _ _ _ => .pure ?_
    rw [← htu.text, ← hvw.text]
    exact Same.addRelation ((hde.mention _ _ _).mention _ _ _) rfl

/-! ### The diagram -/

theorem statement_newline (d : ClassDiagram) (past : List Token) (u : Token) (us : List Token)
    (final : Token) (hu : u.kind = .newline) :
    statement d ⟨past, u :: us, final⟩ = .ok (d, ⟨u :: past, us, final⟩) := by
  simp [statement, bind_apply, peek_apply, ahead_apply, accept_cons, Except.bind, hu, pure_apply]

theorem alike_statement (hde : d.Same e) :
    AlikeWhen P (fun _ c => c.rest ≠ []) Same (statement d) (statement e) := by
  refine AlikeWhen.peek_bind_of_cons (fun _ _ hc => hc) fun t u htu => ?_
  refine AlikeWhen.ahead_bind fun second second' hsecond => ?_
  refine AlikeWhen.accept_bind_of_cons (fun _ _ hc => hc.1.1) (fun _ _ _ _ => .pure hde) ?_
  simp only [Option.isSome_none, Bool.false_eq_true, if_false, ← htu.isWord_eq, ← htu.kind,
    ← hsecond.kind_eq (fun k => decide (k = .identifier)) rfl,
    ← hsecond.kind_eq (fun k => decide (k = .colon)) rfl]
  refine AlikeWhen.ite (fun h => ?_) fun _ => AlikeWhen.ite (fun h => ?_) fun _ =>
    AlikeWhen.ite (fun _ => alike_stereotypeLine hde) fun _ =>
      AlikeWhen.ite (fun h => ?_) fun _ => AlikeWhen.ite (fun h => ?_) fun _ => alike_fail
  · simp only [Bool.and_eq_true, decide_eq_true_eq] at h
    exact alike_definition hde fun n c hc => hc.1.2 ▸ h.2
  · simp only [Bool.and_eq_true, decide_eq_true_eq] at h
    refine AlikeWhen.advance_bind_of_ahead (by decide) (fun n c hc => hc.1.2 ▸ h.2) fun _ _ _ => ?_
    refine (alike_takeDirection fun _ _ hc => by rw [hc]; decide).bind fun x _ hx => hx ▸ ?_
    exact alike_endStatement.bind fun _ _ _ => .pure (hde.setDirection _)
  · simp only [Bool.and_eq_true, decide_eq_true_eq] at h
    exact alike_memberLine hde fun n c hc => by rw [hc.1.1.2, h.1]; decide
  · exact alike_relation hde fun n c hc => by rw [hc.1.1.2, h]; decide

/-- Reading a class diagram does not depend on places: rows that are alike give diagrams that are
the `Same`. -/
theorem alike_read : Alike P Same read read := by
  refine alike_skipNewlines_bind ?_
  refine alike_expectWord.bind fun _ _ _ => ?_
  refine (alike_accept (by decide)).bind fun x y hxy => ?_
  have hrest : AlikeWhen P (fun _ _ => True) Same (do endStatement; untilEnd statement {})
      (do endStatement; untilEnd statement {}) :=
    alike_endStatement.bind fun _ _ _ => alike_untilEnd (fun _ _ => alike_statement)
      statement_newline rfl
  cases hxy with
  | none => exact hrest
  | some _ => exact alike_expectWord.bind fun _ _ _ => hrest

end Classes
end DiagramText

/-! ## Failures -/

namespace DiagramText.Classes

open Reading

variable {x : Dialect} {ts : List Token}

/-! ### Lines about a class -/

theorem steady_memberOf (text : String) (p : Position) :
    Steady x ts (memberOf text p) fun _ => True := steady_ofResult _

theorem takes_stereotype : Takes x ts stereotype fun _ => True :=
  .bind (takes_expect (by decide) _) fun _ _ =>
    .bind (takes_expect (by decide) _).steady fun _ _ =>
      .bind (takes_expect (by decide) _).steady fun _ _ => .pure trivial

theorem moves_stereotypeLine (d : ClassDiagram) : Moves x ts (stereotypeLine d) fun _ => True :=
  .bind takes_stereotype.moves fun _ _ => .bind (takes_expect (by decide) _).steady fun _ _ =>
    .bind steady_endStatement fun _ _ => .pure trivial

theorem moves_memberLine (d : ClassDiagram) : Moves x ts (memberLine d) fun _ => True :=
  .bind moves_advance fun _ _ => .bind steady_advance fun _ _ =>
    .bind (takes_expect (by decide) _).steady fun text _ =>
      .bind (steady_memberOf text.text text.start) fun _ _ =>
        .bind steady_endStatement fun _ _ => .pure trivial

/-! ### Classes -/

theorem steady_generic (d : ClassDiagram) (name : String) :
    Steady x ts (generic d name) fun _ => True := by
  refine .bind (steady_accept (by decide)) fun t _ => ?_
  cases t with
  | none => exact .pure trivial
  | some t =>
    exact .bind (steady_rawUntil _) fun _ _ => .bind (takes_expect (by decide) _).steady fun _ _ =>
      .ite (fun _ => .fail _) fun _ => .pure trivial

/-- A line of the body of the class `name` takes a token, be it the start of a stereotype or of a
member. So the loop over a body cannot stall. -/
theorem sound_bodyLine (name : String) (d : ClassDiagram) (n : Nat) :
    Sound x ts
      (fun c => c.Facing ts n ∧ c.peek.kind.endsStatement = false ∧ c.peek.kind ≠ .rightBrace)
      (bodyLine d name) fun _ c => c.Below ts n := by
  -- what both kinds of line end with
  have hend : ∀ d : ClassDiagram, Steady x ts (do
      if ← check [.rightBrace] then return d
      else
        endStatement
        return d) fun _ => True := fun d =>
    .bind (.look _) fun _ _ => .ite (fun _ => .pure trivial) fun _ =>
      .bind steady_endStatement fun _ _ => .pure trivial
  refine .look_bind fun b => .ite (fun _ => ?_) fun _ => ?_
  · have hline : Moves x ts (do
        let s ← stereotype
        let d := setStereotype d name s
        if ← check [.rightBrace] then return d
        else
          endStatement
          return d) fun _ => True := .bind takes_stereotype.moves fun _ _ => hend _
    exact (hline n).imp (fun _ hc => hc.1.1) fun _ _ hc => hc.2
  · refine .look_bind fun t => .bind (sound_rawUntil (n := n) ?_) fun text => ?_
    · rintro c ⟨⟨⟨hfacing, hends, hbrace⟩, -⟩, -⟩
      exact ⟨hfacing, hends, fun hmem => hbrace (List.mem_singleton.1 hmem)⟩
    · have hmember := Steady.bind (steady_memberOf text t.start) fun m _ =>
        hend (addMember d name m)
      exact (hmember n).imp (fun _ => id) fun _ _ hc => hc.2

theorem steady_body (keyword : Token) (name : String) (d : ClassDiagram) :
    Steady x ts (body keyword name d) fun _ => True :=
  Reading.steady_body (sound_bodyLine name) _ d

theorem moves_definition (d : ClassDiagram) : Moves x ts (definition d) fun _ => True := by
  refine .bind moves_advance fun keyword _ => .bind steady_advance fun t _ =>
    .bind (steady_generic _ _) fun d _ => .bind (.look _) fun _ _ => ?_
  have hrest : ∀ d : ClassDiagram, Steady x ts (do
      if (← accept .leftBrace).isNone then
        endStatement
        return d
      else if (← accept .rightBrace).isSome then
        endStatement
        return d
      else
        endStatement
        body keyword t.text d) fun _ => True := fun d =>
    .bind (steady_accept (by decide)) fun _ _ => .ite
      (fun _ => .bind steady_endStatement fun _ _ => .pure trivial)
      fun _ => .bind (steady_accept (by decide)) fun _ _ => .ite
        (fun _ => .bind steady_endStatement fun _ _ => .pure trivial)
        fun _ => .bind steady_endStatement fun _ _ => steady_body keyword t.text d
  apply Steady.ite
  · intro _
    exact .bind takes_stereotype.steady fun _ _ => hrest _
  · intro _
    exact hrest d

/-! ### Relations -/

theorem steady_cardinality : Steady x ts cardinality fun _ => True :=
  .bind (steady_accept (by decide)) fun _ _ => .pure trivial

theorem steady_relationLabel : Steady x ts relationLabel fun _ => True :=
  steady_behindColon fun _ _ => .pure trivial

theorem moves_relation (d : ClassDiagram) : Moves x ts (relation d) fun _ => True := by
  refine .bind moves_advance fun source _ => .bind steady_cardinality fun _ _ =>
    .bind (takes_expect (by decide) _).steady fun operator _ => ?_
  split
  · exact .unexpected _ _
  · exact .bind steady_cardinality fun _ _ => .bind (takes_expect (by decide) _).steady fun _ _ =>
      .bind steady_relationLabel fun _ _ => .bind steady_endStatement fun _ _ => .pure trivial

/-! ### The diagram -/

theorem moves_statement (d : ClassDiagram) : Moves x ts (statement d) fun _ => True := by
  refine .look_bind fun _ => .look_bind fun _ =>
    .accept_bind (by decide) (fun _ _ => .pure trivial) ?_
  refine .ite (fun h => absurd h (by decide)) fun _ => .ite (fun _ => moves_definition d) fun _ =>
    .ite ?direction fun _ => .ite (fun _ => moves_stereotypeLine d) fun _ =>
      .ite (fun _ => moves_memberLine d) fun _ => .ite (fun _ => moves_relation d) fun _ => .fail _
  case direction =>
    exact fun _ => .bind moves_advance fun _ _ => .bind (steady_takeDirection _) fun _ _ =>
      .bind steady_endStatement fun _ _ => .pure trivial

/-- A class diagram is read, or its text is to blame; reading never stalls. -/
theorem steady_read : Steady x ts read fun _ => True := by
  have hrest : Steady x ts (do endStatement; untilEnd statement {}) fun _ => True :=
    .bind steady_endStatement fun _ _ => .untilEnd (fun d _ => moves_statement d) trivial
  refine .bind steady_skipNewlines fun _ _ => .bind (takes_expectWord _).steady fun _ _ =>
    .bind (steady_accept (by decide)) fun _ _ => .ite (fun _ => ?_) fun _ => hrest
  exact .bind (takes_expectWord _).steady fun _ _ => hrest

end DiagramText.Classes
