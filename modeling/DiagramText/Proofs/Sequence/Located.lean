import DiagramText.Proofs.Reading.Located
import DiagramText.Proofs.Sequence.Steady
import DiagramText.Sequence.Reader

/-!
# Positions in sequence diagrams

Participants, messages, notes and blocks are at the positions of tokens that they were read from.

* `SequenceDiagram.positions`: all positions in a diagram.
* `Sequence.located_read`: the positions in a diagram that was read are those of its tokens.
-/

namespace DiagramText

namespace Sequence

open Reading

/-! ### Positions -/

/-- The position of a clause, if it has one. -/
def Clause.position? : Clause → Option Position
  | .participant p => p.position
  | .message m => m.position
  | .note n => n.position
  | .activation _ _ => none

namespace Statement

mutual

/-- The positions in a statement, those of what it holds included. -/
def positions : Statement → List Position
  | .clause c => c.position?.toList
  | .block head body branches =>
    head.position.toList ++ positionsList body ++ positionsBranches branches

/-- The positions in statements, one after the other. -/
def positionsList : List Statement → List Position
  | [] => []
  | s :: ss => s.positions ++ positionsList ss

/-- The positions in branches, which have none of their own. -/
def positionsBranches : List (Branch Statement) → List Position
  | [] => []
  | ⟨_, ss⟩ :: bs => positionsList ss ++ positionsBranches bs

end

theorem positionsList_append (ss ts : List Statement) :
    positionsList (ss ++ ts) = positionsList ss ++ positionsList ts := by
  induction ss with
  | nil => rw [positionsList, List.nil_append, List.nil_append]
  | cons s ss ih => rw [List.cons_append, positionsList, positionsList, ih, List.append_assoc]

theorem positionsBranches_append (bs cs : List (Branch Statement)) :
    positionsBranches (bs ++ cs) = positionsBranches bs ++ positionsBranches cs := by
  induction bs with
  | nil => rw [positionsBranches, List.nil_append, List.nil_append]
  | cons b bs ih =>
    rw [List.cons_append, positionsBranches, positionsBranches, ih, List.append_assoc]

theorem positionsList_clauses (cs : List Clause) :
    positionsList (cs.map .clause) = cs.flatMap (·.position?.toList) := by
  induction cs with
  | nil => rw [List.map_nil, positionsList, List.flatMap_nil]
  | cons c cs ih => rw [List.map_cons, positionsList, positions, ih, List.flatMap_cons]

end Statement

/-! ### Drafts -/

variable {P : Position → Prop} {B : String → Prop}

/-- A clause at a position with the property `P`, if it has one. -/
def Clause.LocatedAt (P : Position → Prop) (c : Clause) : Prop := ∀ p ∈ c.position?, P p

/-- Participants `ps` at positions with the property `P`, where they have one. -/
def Registry.LocatedAt (P : Position → Prop) (ps : List Participant) : Prop :=
  ∀ q ∈ ps, ∀ p ∈ q.position, P p

namespace Registry.LocatedAt

variable {ps : List Participant}

theorem mention (h : Registry.LocatedAt P ps) (id : String) :
    Registry.LocatedAt P (Registry.mention ps id) := by
  unfold Registry.mention
  split
  · exact h
  · exact List.forall_mem_append.2 ⟨h, List.forall_mem_singleton.2 nofun⟩

theorem declare (h : Registry.LocatedAt P ps) (p : Participant) :
    Registry.LocatedAt P (Registry.declare ps p) := by
  unfold Registry.declare
  split
  · refine List.forall_mem_map.2 fun q hq => ?_
    split
    · exact h q hq
    · exact h q hq
  · exact List.forall_mem_append.2 ⟨h, List.forall_mem_singleton.2 nofun⟩

/-- The registry takes no positions from clauses, so none but those that it had are in it when the
clause `c` is entered. -/
theorem enter (h : Registry.LocatedAt P ps) (c : Clause) :
    Registry.LocatedAt P (Registry.enter ps c) := by
  cases c with
  | participant p => exact h.declare p
  | message m => exact (h.mention _).mention _
  | activation id _ => exact h.mention id
  | note n =>
    simp only [Registry.enter]
    induction n.participants generalizing ps with
    | nil => exact h
    | cons id ids ih => exact ih (h.mention id)

theorem enterAll (h : Registry.LocatedAt P ps) (cs : List Clause) :
    Registry.LocatedAt P (cs.foldl Registry.enter ps) := by
  induction cs generalizing ps with
  | nil => exact h
  | cons c cs ih => exact ih (h.enter c)

end Registry.LocatedAt

namespace OpenBlock

theorem mem_positions_extend {b : OpenBlock} {ss : List Statement} {p : Position}
    (hp : p ∈ (b.extend ss).close.positions) :
    p ∈ b.close.positions ∨ p ∈ Statement.positionsList ss := by
  obtain ⟨head, body, branches⟩ := b
  rcases List.eq_nil_or_concat branches with rfl | ⟨branches, ⟨label, last⟩, rfl⟩
  · simp only [OpenBlock.extend, OpenBlock.close, Statement.positions, List.getLast?_nil,
      Statement.positionsList_append, List.mem_append] at hp ⊢
    grind
  · simp only [OpenBlock.extend, OpenBlock.close, Statement.positions, List.concat_eq_append,
      List.getLast?_concat, List.dropLast_concat, Statement.positionsBranches_append,
      Statement.positionsBranches, List.append_nil, Statement.positionsList_append,
      List.mem_append] at hp ⊢
    grind

theorem positions_branch (b : OpenBlock) (label : Option String) :
    (b.branch label).close.positions = b.close.positions := by
  simp [OpenBlock.close, OpenBlock.branch, Statement.positions, Statement.positionsBranches_append,
    Statement.positionsBranches, Statement.positionsList]

end OpenBlock

/-- A draft in which all positions have the property `P`, in statements, participants and open
blocks. -/
structure Draft.LocatedAt (P : Position → Prop) (d : Draft) : Prop where
  statements : ∀ p ∈ Statement.positionsList d.statements, P p
  participants : Registry.LocatedAt P d.participants
  opened : ∀ b ∈ d.opened, ∀ p ∈ b.close.positions, P p

namespace Draft.LocatedAt

variable {d : Draft}

theorem extend (h : d.LocatedAt P) {ss : List Statement}
    (hss : ∀ p ∈ Statement.positionsList ss, P p) : (d.extend ss).LocatedAt P := by
  obtain ⟨statements, autonumber, participants, opened⟩ := d
  cases opened with
  | nil =>
    refine ⟨?_, h.participants, h.opened⟩
    rw [Draft.extend, Statement.positionsList_append]
    exact List.forall_mem_append.2 ⟨h.statements, hss⟩
  | cons b outer =>
    obtain ⟨hb, houter⟩ := List.forall_mem_cons.1 h.opened
    refine ⟨h.statements, h.participants, List.forall_mem_cons.2 ⟨fun p hp => ?_, houter⟩⟩
    exact (OpenBlock.mem_positions_extend hp).elim (hb p) (hss p)

theorem add (h : d.LocatedAt P) {cs : List Clause} (hcs : ∀ c ∈ cs, c.LocatedAt P) :
    (d.add cs).LocatedAt P := by
  have hentered :
      Draft.LocatedAt P { d with participants := cs.foldl Registry.enter d.participants } :=
    ⟨h.statements, h.participants.enterAll cs, h.opened⟩
  refine hentered.extend fun p hp => ?_
  rw [Statement.positionsList_clauses] at hp
  obtain ⟨c, hc, hp⟩ := List.mem_flatMap.1 hp
  exact hcs c hc p (Option.mem_toList.1 hp)

theorem openBlock (h : d.LocatedAt P) {head : Block} (hhead : ∀ p ∈ head.position, P p) :
    (d.openBlock head).LocatedAt P := by
  refine ⟨h.statements, h.participants, List.forall_mem_cons.2 ⟨?_, h.opened⟩⟩
  simpa [OpenBlock.close, Statement.positions, Statement.positionsList,
    Statement.positionsBranches] using hhead

theorem branch (h : d.LocatedAt P) (label : Option String) : (d.branch label).LocatedAt P := by
  obtain ⟨statements, autonumber, participants, opened⟩ := d
  cases opened with
  | nil => exact ⟨h.statements, h.participants, h.opened⟩
  | cons b outer =>
    obtain ⟨hb, houter⟩ := List.forall_mem_cons.1 h.opened
    refine ⟨h.statements, h.participants, List.forall_mem_cons.2 ⟨?_, houter⟩⟩
    rwa [OpenBlock.positions_branch]

theorem closeBlock (h : d.LocatedAt P) : d.closeBlock.LocatedAt P := by
  obtain ⟨statements, autonumber, participants, opened⟩ := d
  cases opened with
  | nil => exact ⟨h.statements, h.participants, h.opened⟩
  | cons b outer =>
    obtain ⟨hb, houter⟩ := List.forall_mem_cons.1 h.opened
    have hclosed : Draft.LocatedAt P ⟨statements, autonumber, participants, outer⟩ :=
      ⟨h.statements, h.participants, houter⟩
    refine hclosed.extend ?_
    rwa [Statement.positionsList, Statement.positionsList, List.append_nil]

end Draft.LocatedAt

/-! ### Clauses -/

variable {d : Draft}

theorem located_name : Located P B name fun _ => True :=
  .bind (located_expectAny _ _) fun _ _ => .pure trivial

theorem located_checkKeyword (words : List String) :
    Located P B (checkKeyword words) fun _ => True :=
  .bind (located_checkWord _) fun _ _ => .bind (located_ahead 1) fun _ _ => .pure trivial

theorem located_label : Located P B label fun _ => True :=
  .bind located_restOfStatement fun _ _ => .pure trivial

theorem located_labelled {p : Participant} (h : ∀ i ∈ p.position, P i) (label : Option String) :
    Located P B (labelled p label) fun r => ∀ i ∈ r.1.position, P i := by
  refine .ite (fun _ => .pure h) fun _ => .bind (located_accept _) fun comma _ => ?_
  cases comma with
  | some _ => exact .pure h
  | none => exact .bind (located_accept _) fun ampersand _ => .pure h

theorem located_participant (kind : ParticipantKind) :
    Located P B (participant kind) fun r => ∀ p ∈ r.1.position, P p := by
  refine .bind located_peek fun t ht => .bind located_name fun id _ =>
    .bind (located_acceptWord _) fun as _ => ?_
  have hstart : ∀ i ∈ (⟨id, none, kind, some t.start⟩ : Participant).position, P i := by
    rintro i ⟨⟩
    exact ht
  cases as with
  | none => exact located_labelled hstart none
  | some _ => exact .bind located_label fun label _ => located_labelled hstart label

theorem located_participants (kind : ParticipantKind) :
    Located P B (participants kind) fun ps => ∀ q ∈ ps, ∀ p ∈ q.position, P p := by
  refine .loop (I := fun ps => ∀ q ∈ ps, ∀ p ∈ q.position, P p) (fun ps hps => ?_)
    (List.forall_mem_nil _)
  refine .bind (located_participant kind) fun (p, more) hp => .pure ?_
  have hall : ∀ q ∈ ps ++ [p], ∀ x ∈ q.position, P x :=
    List.forall_mem_append.2 ⟨hps, List.forall_mem_singleton.2 hp⟩
  cases more <;> exact hall

theorem located_declaration (kind : ParticipantKind) :
    Located P B (declaration kind) fun cs => ∀ c ∈ cs, c.LocatedAt P :=
  .bind located_advance fun _ _ => .bind (located_participants kind) fun _ hps =>
    .bind located_endStatement fun _ _ => .pure (List.forall_mem_map.2 hps)

theorem located_activation (active : Bool) :
    Located P B (activation active) fun c => c.LocatedAt P :=
  .bind located_advance fun _ _ => .bind located_name fun _ _ =>
    .bind located_endStatement fun _ _ => .pure nofun

theorem located_placement : Located P B placement fun _ => True :=
  .bind (located_acceptWord _) fun _ _ => .ite (fun _ => .pure trivial)
    fun _ => .bind (located_checkWord _) fun _ _ => .ite
      (fun _ => .bind located_advance fun _ _ => .bind (located_expectWord _) fun _ _ =>
        .pure trivial)
      fun _ => located_fail _

theorem located_moreNames (names : List String) : Located P B (moreNames names) fun _ => True := by
  refine .loop (I := fun _ => True) (fun names _ => .bind (located_accept _) fun t _ => ?_) trivial
  cases t with
  | none => exact .pure trivial
  | some _ => exact .bind located_name fun _ _ => .pure trivial

theorem located_note : Located P B note fun c => c.LocatedAt P := by
  refine .bind located_advance fun keyword hkeyword => .bind located_placement fun _ _ =>
    .bind located_name fun _ _ => .bind (located_moreNames _) fun _ _ =>
      .bind (located_expect _ _) fun _ _ => .bind (located_expect _ _) fun _ _ =>
        .bind located_endStatement fun _ _ => .bind (located_content _) fun _ _ => .pure ?_
  rintro p ⟨⟩
  exact hkeyword

theorem located_activationMark : Located P B activationMark fun _ => True :=
  .bind (located_accept _) fun _ _ => .ite (fun _ => .pure trivial)
    fun _ => .bind (located_accept _) fun _ _ => .ite (fun _ => .pure trivial)
      fun _ => .pure trivial

theorem located_messageText : Located P B messageText fun _ => True :=
  located_behindColon located_contentOf

theorem located_message : Located P B message fun c => c.LocatedAt P := by
  refine .bind located_peek fun t ht => .bind located_name fun _ _ =>
    .bind (located_expect _ _) fun arrow harrow => .bind located_activationMark fun _ _ =>
      .bind located_name fun _ _ => .bind located_messageText fun _ _ =>
        .bind located_endStatement fun _ _ => ?_
  split
  · exact .unexpected _ harrow
  · refine .pure ?_
    rintro p ⟨⟩
    exact ht

/-! ### Blocks -/

theorem located_blockKind : Located P B blockKind? fun _ => True :=
  .bind (located_checkKeyword _) fun _ _ => .ite
    (fun _ => .bind located_peek fun _ _ => .pure trivial) fun _ => .pure trivial

theorem located_blockHead (kind : BlockKind) :
    Located P B (blockHead kind) fun b => ∀ p ∈ b.position, P p := by
  refine .bind located_advance fun keyword hkeyword => .bind located_label fun _ _ =>
    .bind located_endStatement fun _ _ => .pure ?_
  rintro p ⟨⟩
  exact hkeyword

theorem located_branchLine (opened : List OpenBlock) :
    Located P B (branchLine opened) fun _ => True := by
  refine .bind located_peek fun keyword hkeyword => ?_
  cases opened with
  | nil => exact .unexpected _ hkeyword
  | cons b outer =>
    exact .ite (fun _ => .bind located_advance fun _ _ => .bind located_label fun _ _ =>
      .bind located_endStatement fun _ _ => .pure trivial) fun _ => .unexpected _ hkeyword

/-! ### The diagram -/

theorem located_line (hd : d.LocatedAt P) : Located P B (line d) (Draft.LocatedAt P) := by
  have hclause : ∀ {x : Reading Clause}, (Located P B x fun c => c.LocatedAt P) →
      Located P B (do return d.add [← x]) (Draft.LocatedAt P) := fun hx =>
    .bind hx fun _ hc => .pure (hd.add (List.forall_mem_singleton.2 hc))
  refine .bind located_peek fun _ _ => .bind (located_ahead 1) fun _ _ =>
    .bind (located_checkWord _) fun _ _ => .ite ?declaration fun _ =>
      .bind (located_checkKeyword _) fun _ _ => .ite ?autonumber fun _ =>
        .bind (located_checkWord _) fun _ _ => .ite (fun _ => hclause (located_activation _))
          fun _ =>
          .bind (located_checkWord _) fun _ _ => .ite (fun _ => hclause located_note)
            fun _ => hclause located_message
  case declaration =>
    exact fun _ => .bind (located_declaration _) fun _ hcs => .pure (hd.add hcs)
  case autonumber =>
    exact fun _ => .bind located_advance fun _ _ => .bind located_restOfStatement fun _ _ =>
      .bind located_endStatement fun _ _ => .pure ⟨hd.statements, hd.participants, hd.opened⟩

theorem located_statement (hd : d.LocatedAt P) : Located P B (statement d) (Draft.LocatedAt P) := by
  refine .bind (located_accept _) fun _ _ => .ite (fun _ => .pure hd) fun _ =>
    .bind (located_checkKeyword _) fun _ _ => .ite ?close fun _ =>
      .bind (located_checkKeyword _) fun _ _ => .ite ?branch fun _ =>
        .bind located_blockKind fun kind _ => ?block
  case close =>
    exact fun _ => .ite (fun _ => located_fail _) fun _ => .bind located_advance fun _ _ =>
      .bind located_endStatement fun _ _ => .pure hd.closeBlock
  case branch =>
    exact fun _ => .bind (located_branchLine _) fun label _ => .pure (hd.branch label)
  case block =>
    cases kind with
    | none => exact located_line hd
    | some kind =>
      exact .bind (located_blockHead kind) fun _ hhead => .pure (hd.openBlock hhead)

end Sequence

namespace SequenceDiagram

open Sequence

/-- All positions in a diagram `d`, those of its registry of participants included. -/
def positions (d : SequenceDiagram) : List Position :=
  Statement.positionsList d.statements ++ d.participants.filterMap Participant.position

end SequenceDiagram

namespace Sequence

open Reading

/-- The positions in a diagram that was read are those of its tokens, as is that of an error. By
`hblock`, `B` admits the name of any block that is not closed. -/
theorem located_read {P : Position → Prop} {B : String → Prop}
    (hblock : ∀ k : BlockKind, B k.text) : Located P B read fun d => ∀ p ∈ d.positions, P p := by
  have hempty : Draft.LocatedAt P {} :=
    ⟨by simp [Statement.positionsList], List.forall_mem_nil _, List.forall_mem_nil _⟩
  refine .bind located_skipNewlines fun _ _ => .bind (located_expectWord _) fun _ _ =>
    .bind located_endStatement fun _ _ =>
      .bind (.untilEnd (fun _ hd => located_statement hd) hempty) fun d hd => ?_
  split
  · refine .pure (List.forall_mem_append.2 ⟨hd.statements, fun p hp => ?_⟩)
    obtain ⟨q, hq, hp⟩ := List.mem_filterMap.1 hp
    exact hd.participants q hq p hp
  · exact .bind located_peek fun t ht => .unterminated (hblock _) ht

end Sequence
end DiagramText
