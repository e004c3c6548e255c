import DiagramText.Proofs.Classes.Mentions
import DiagramText.Proofs.Classes.Reader
import DiagramText.Proofs.Entities.Mentions
import DiagramText.Proofs.Entities.Reader
import DiagramText.Proofs.Reading.Unclosed

/-!
# Bodies that are left open

The body of an entity or a class is read with the line that opens it. A body of an entity without a
closing brace is said to be opened at its entity, which is what the line starts with, and one of a
class at the word that its line starts with.

* `Entities.leavesOpen_statement` and `Classes.leavesOpen_statement`: what is known of a statement
  that leaves a body open.
* `Entities.openedAt_of_unterminated` and `Classes.openedAt_of_unterminated`: where the body is said
  to be opened.
-/

namespace DiagramText.Entities

open Reading

variable {d : EntityDiagram} {us : List Token} {t : Token}

/-! ### What is passed -/

/-- A line of a body does not pass the brace that closes the body, so what is left open has no such
brace. -/
theorem ensures_bodyLine_past (d : EntityDiagram) (name : String) (inner : List Token) :
    Ensures (Cursor.Past (· != .rightBrace) inner) (bodyLine d name)
      fun _ c => c.Past (· != .rightBrace) inner := by
  refine .look_bind fun first => .bind (ensures_rawUntil_past fun kind _ hkind => ?_) fun text =>
    .bind_and (ensures_ofResult _) fun a _ => .look_bind fun _ => .ite
      (fun _ => .pure fun _ hc => hc) fun _ =>
        .bind (ensures_endStatement_past ⟨rfl, rfl⟩) fun _ => .pure fun _ hc => hc
  rw [List.mem_singleton] at hkind
  exact bne_iff_ne.2 hkind

/-! ### Statements -/

/-- An entity `t` leaves its body open that a brace on its line opens. -/
theorem leavesOpen_entity (hd : d.LocatedAt fun _ => True) (ht : t.kind = .identifier) :
    LeavesOpen (Cursor.Behind (t :: us) [t]) (entity d t)
      fun _ p => p = some t.start ∧ OpensBody (t :: us) := by
  have hmention := hd.mention t.text (p := t.start) trivial
  refine .imp (.bind (located_accept _) ensures_accept_leftBrace fun brace _ => ?_)
    fun c hc => ⟨[t], List.forall_mem_singleton.2 (by rw [ht]; rfl), hc⟩
  refine .ite (fun hbrace => .imp ?_ fun c hc => hc hbrace) fun _ => ?_
  · exact leavesOpen_body (fun _ _ hd => located_bodyLine hd t.text)
      (fun d inner => ensures_bodyLine_past d t.text inner) hmention
  · exact .of_closed (R := fun _ => True) (.bind located_endStatement fun _ _ => .pure trivial)

/-- A statement that leaves a body open starts with its entity `t`. -/
theorem leavesOpen_statement (hd : d.LocatedAt fun _ => True) (t : Token) (us : List Token) :
    LeavesOpen (Cursor.Behind (t :: us) []) (statement d)
      fun _ p => p = some t.start ∧ OpensBody (t :: us) := by
  refine .look_bind fun _ => .ite (fun _ => ?_) fun _ => ?_
  · exact .of_closed (R := fun _ => True) (.bind located_advance fun _ _ => .pure trivial)
  · refine .bind (located_expect _ _) (ensures_expect_behind (by decide) _) fun token _ =>
      .of_and fun hkind => .of_behind fun hfirst => .look_bind fun _ =>
        .ite (fun _ => ?_) fun _ => ?_
    · exact .of_closed (located_relationship hd trivial)
    · obtain rfl : token = t := (List.cons_prefix_cons.1 hfirst).1
      exact leavesOpen_entity hd hkind

/-! ### The diagram -/

/-- Reads the line that starts an entity-relationship diagram, of which nothing is known then. -/
def start : Reading EntityDiagram := do
  header
  return {}

/-- Where an entity-relationship diagram ends inside the body of an entity, it is said that the body
is opened at the entity that the statement starts with, and the error is at the end of input. -/
theorem openedAt_of_unterminated {row : List Token} {c : Cursor} (hc : c.Within row)
    {block : String} {openedAt position : Option Position}
    (h : read c = .error (.malformed ⟨.unterminated block openedAt, position⟩)) :
    position = some c.final.start ∧ ∃ t us, unreadBehind? start statement c = some (t :: us) ∧
      openedAt = some t.start ∧ OpensBody (t :: us) := by
  have hempty : EntityDiagram.LocatedAt (fun _ => True) {} :=
    ⟨List.forall_mem_nil _, List.forall_mem_nil _⟩
  have hstart : Closed start (EntityDiagram.LocatedAt fun _ => True) := by
    refine .bind (Q := fun _ => True) ?_ fun _ _ => .pure hempty
    exact .bind located_skipNewlines fun _ _ => .bind (located_expectWord _) fun _ _ =>
      located_endStatement
  have hread : read = start >>= untilEnd statement := by
    rw [read_eq, start, bind_assoc]
    rfl
  rw [hread] at h
  refine exists_unread_of_unterminated (U := fun t us _ p => p = some t.start ∧ OpensBody (t :: us))
    hstart ?_ (fun d hd => located_statement trivial hd)
    (fun d t us hd => leavesOpen_statement hd t us) hc h
  exact .bind ((steady_header (x := .entities)).passes _) fun _ => .pure fun _ hc => hc

end DiagramText.Entities

namespace DiagramText.Classes

open Reading

variable {d : ClassDiagram} {f : TokenKind → Bool} {ts us : List Token} {t u : Token}

/-! ### What is passed -/

theorem ensures_stereotype_past (hf : ∀ kind, kind = .stereotypeOpen ∨ kind = .identifier ∨
      kind = .stereotypeClose → f kind = true) :
    Ensures (Cursor.Past f ts) stereotype fun _ c => c.Past f ts := by
  refine .bind_and (ensures_expect_past ⟨hf _ (.inl rfl), by decide⟩ _) fun _ _ => ?_
  refine .bind_and (ensures_expect_past ⟨hf _ (.inr (.inl rfl)), by decide⟩ _) fun _ _ => ?_
  refine .bind_and (ensures_expect_past ⟨hf _ (.inr (.inr rfl)), by decide⟩ _) fun _ _ => ?_
  exact .pure fun _ hc => hc

theorem ensures_generic_past (d : ClassDiagram) (name : String) :
    Ensures (Cursor.Past (!·.endsStatement) ts) (generic d name)
      fun _ c => c.Past (!·.endsStatement) ts := by
  refine .bind (ensures_accept_past ⟨rfl, by decide⟩) fun tilde => ?_
  cases tilde with
  | none => exact .pure fun _ hc => hc
  | some _ =>
    refine .bind (ensures_rawUntil_past fun kind hkind _ => ?_) fun text => ?_
    · rw [hkind]
      rfl
    refine .bind_and (ensures_expect_past ⟨rfl, by decide⟩ _) fun _ _ => ?_
    exact .ite (fun _ => .fail _) fun _ => .pure fun _ hc => hc

/-- A line of a body does not pass the brace that closes the body, so what is left open has no such
brace. -/
theorem ensures_bodyLine_past (d : ClassDiagram) (name : String) (inner : List Token) :
    Ensures (Cursor.Past (· != .rightBrace) inner) (bodyLine d name)
      fun _ c => c.Past (· != .rightBrace) inner := by
  have hend : ∀ e : ClassDiagram, Ensures (Cursor.Past (· != .rightBrace) inner) (do
      if ← check [.rightBrace] then return e
      else
        endStatement
        return e) fun _ c => c.Past (· != .rightBrace) inner := fun e =>
    .look_bind fun _ => .ite (fun _ => .pure fun _ hc => hc) fun _ =>
      .bind (ensures_endStatement_past ⟨rfl, rfl⟩) fun _ => .pure fun _ hc => hc
  refine .look_bind fun _ => .ite (fun _ => ?_) fun _ => ?_
  · refine .bind (ensures_stereotype_past ?_) fun s => hend _
    rintro kind (rfl | rfl | rfl) <;> rfl
  · refine .look_bind fun first => .bind (ensures_rawUntil_past fun kind _ hkind => ?_) fun text =>
      .bind_and (ensures_ofResult _) fun m _ => hend _
    rw [List.mem_singleton] at hkind
    exact bne_iff_ne.2 hkind

/-! ### Statements -/

/-- A class leaves its body open that a brace on its line opens. The word `t` comes before its name
`u`. -/
theorem leavesOpen_definition (hd : d.LocatedAt fun _ => True) (ht : t.kind = .identifier)
    (hu : u.kind = .identifier) : LeavesOpen (Cursor.Behind (t :: u :: us) []) (definition d)
      fun _ p => p = some t.start ∧ OpensBody (t :: u :: us) := by
  refine .bind located_advance (ensures_advance_behind []) fun keyword _ => .of_and ?_
  rintro rfl
  refine .bind located_advance (ensures_advance_behind [keyword]) fun token _ => .of_and ?_
  rintro rfl
  have hline : ∀ c : Cursor, c.Behind (keyword :: token :: us) [keyword, token] →
      c.Past (!·.endsStatement) (keyword :: token :: us) := by
    intro c hc
    refine ⟨[keyword, token], ?_, hc⟩
    simp [ht, hu, TokenKind.endsStatement]
  -- what follows the name, with a stereotype or without one
  have hrest : ∀ (name : String) (e : ClassDiagram), e.LocatedAt (fun _ => True) →
      LeavesOpen (Cursor.Past (!·.endsStatement) (keyword :: token :: us)) (do
        if (← accept .leftBrace).isNone then
          endStatement
          return e
        else if (← accept .rightBrace).isSome then
          endStatement
          return e
        else
          endStatement
          body keyword name e) fun _ p => p = some keyword.start ∧
            OpensBody (keyword :: token :: us) := by
    intro name e he
    have hend : Closed (do endStatement; return e) fun _ => True :=
      .bind located_endStatement fun _ _ => .pure trivial
    refine .bind (located_accept _) ensures_accept_leftBrace fun brace _ => ?_
    refine .ite (fun _ => .of_closed hend) fun hbrace => .imp ?_ fun c hc => hc ?_
    · refine .bind (located_accept _) ensures_accept_rightBrace fun right _ => ?_
      refine .ite (fun _ => .of_closed hend) fun hright => .imp ?_ fun c hc => hc ?_
      · refine .bind located_endStatement
          (ensures_inBody fun _ => ensures_endStatement_past ⟨rfl, rfl⟩) fun _ _ => ?_
        exact leavesOpen_body (fun _ _ hd => located_bodyLine hd name)
          (fun d inner => ensures_bodyLine_past d name inner) he
      · rwa [Option.isSome_iff_ne_none, not_not] at hright
    · rwa [← Option.not_isSome, Bool.not_eq_true, Bool.not_eq_false'] at hbrace
  refine .imp ?_ hline
  refine .bind (located_generic (hd.mention _ trivial) _) (ensures_generic_past _ _) fun e he => ?_
  refine .look_bind fun _ => .ite (fun _ => ?_) fun _ => hrest _ e he
  refine .bind located_stereotype (ensures_stereotype_past ?_) fun s _ =>
    hrest _ _ (he.setStereotype _ s)
  rintro kind (rfl | rfl | rfl) <;> rfl

/-- A statement that leaves a body open is a class, which starts with the word `t`. -/
theorem leavesOpen_statement (hd : d.LocatedAt fun _ => True) (t : Token) (us : List Token) :
    LeavesOpen (Cursor.Behind (t :: us) []) (statement d)
      fun _ p => p = some t.start ∧ OpensBody (t :: us) := by
  refine .bind located_peek ensures_peek_behind fun token _ => .of_and ?_
  rintro rfl
  refine .bind (located_ahead 1) ensures_second_behind fun second _ => .of_and fun hsecond => ?_
  refine .accept_bind (by decide) (fun _ => .of_closed (.pure hd)) ?_
  refine .ite (fun h => absurd h (by decide)) fun _ => .ite (fun h => ?_) fun _ =>
    .of_closed (R := ClassDiagram.LocatedAt fun _ => True) ?_
  · rw [Bool.and_eq_true, decide_eq_true_eq] at h
    obtain ⟨ws, rfl⟩ : ∃ ws, us = second :: ws :=
      hsecond.resolve_left fun hnil => absurd (h.2.symm.trans hnil.2) (by decide)
    exact leavesOpen_definition hd (kind_of_isWord h.1) h.2
  · refine .ite (fun _ => ?_) fun _ => .ite (fun _ => located_stereotypeLine hd) fun _ =>
      .ite (fun _ => located_memberLine hd) fun _ =>
        .ite (fun _ => located_relation hd) fun _ => located_fail _
    exact .bind located_advance fun _ _ => .bind (located_takeDirection _) fun _ _ =>
      .bind located_endStatement fun _ _ => .pure ⟨hd.classes, hd.relations⟩

/-! ### The diagram -/

/-- Reads the line that starts a class diagram, of which nothing is known then. -/
def start : Reading ClassDiagram := do
  header
  return {}

/-- Where a class diagram ends inside the body of a class, it is said that the body is opened where
the statement starts that opens it, and the error is at the end of input. -/
theorem openedAt_of_unterminated {row : List Token} {c : Cursor} (hc : c.Within row)
    {block : String} {openedAt position : Option Position}
    (h : read c = .error (.malformed ⟨.unterminated block openedAt, position⟩)) :
    position = some c.final.start ∧ ∃ t us, unreadBehind? start statement c = some (t :: us) ∧
      openedAt = some t.start ∧ OpensBody (t :: us) := by
  have hempty : ClassDiagram.LocatedAt (fun _ => True) {} :=
    ⟨List.forall_mem_nil _, List.forall_mem_nil _⟩
  have hstart : Closed start (ClassDiagram.LocatedAt fun _ => True) := by
    refine .bind (Q := fun _ => True) ?_ fun _ _ => .pure hempty
    refine .bind located_skipNewlines fun _ _ => .bind (located_expectWord _) fun _ _ =>
      .bind (located_accept _) fun _ _ => .ite (fun _ => ?_) fun _ => located_endStatement
    exact .bind (located_expectWord _) fun _ _ => located_endStatement
  have hread : read = start >>= untilEnd statement := by
    rw [read_eq, start, bind_assoc]
    rfl
  rw [hread] at h
  refine exists_unread_of_unterminated (U := fun t us _ p => p = some t.start ∧ OpensBody (t :: us))
    hstart ?_ (fun d hd => located_statement trivial hd)
    (fun d t us hd => leavesOpen_statement hd t us) hc h
  exact .bind ((steady_header (x := .classes)).passes _) fun _ => .pure fun _ hc => hc

end DiagramText.Classes
