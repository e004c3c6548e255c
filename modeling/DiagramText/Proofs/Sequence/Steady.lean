import DiagramText.Proofs.Reading.Steady
import DiagramText.Sequence.Reader

/-!
# Why sequence diagrams are not read

Every statement takes a token, also after a look at the word that follows its first one. The text
of a note or a message is a token of its own.

* `Sequence.steady_read`: a sequence diagram is read, or its text is to blame.
-/

namespace DiagramText.Sequence

open Reading

variable {x : Dialect} {ts : List Token}

/-! ### Clauses -/

theorem takes_name : Takes x ts name fun _ => True :=
  .bind (takes_expectAny (by decide) _) fun _ _ => .pure trivial

/-- A check for a keyword only looks, so what follows it has to move whatever the answer is. -/
theorem moves_checkKeyword_bind {α : Type} {words : List String} {f : Bool → Reading α}
    {Q : α → Prop} (h : ∀ b, Moves x ts (f b) Q) : Moves x ts (checkKeyword words >>= f) Q := by
  intro n
  constructor
  intro c hc
  exact (h _ n).apply c hc

theorem steady_label : Steady x ts label fun _ => True :=
  .bind steady_restOfStatement fun _ _ => .pure trivial

/-- What reading a participant `p` ends with: a separator asks for another one, unless there was a
label. -/
def labelled (p : Participant) (label : Option String) : Reading (Participant × Bool) := do
  let more ←
    if label.isSome then pure false
    else match ← accept .comma with
      | some _ => pure true
      | none => pure (← accept .ampersand).isSome
  return ({ p with label }, more)

theorem steady_labelled (p : Participant) (label : Option String) :
    Steady x ts (labelled p label) fun _ => True := by
  refine .ite (fun _ => .pure trivial) fun _ => .bind (steady_accept (by decide)) fun t _ => ?_
  cases t with
  | some t => exact .pure trivial
  | none => exact .bind (steady_accept (by decide)) fun _ _ => .pure trivial

theorem takes_participant (kind : ParticipantKind) :
    Takes x ts (participant kind) fun _ => True := by
  refine .look_bind fun _ => .bind takes_name fun id _ => .bind (steady_acceptWord _) fun t _ => ?_
  cases t with
  | none => exact steady_labelled ⟨id, none, kind, _⟩ none
  | some t => exact .bind steady_label fun label _ => steady_labelled ⟨id, none, kind, _⟩ label

/-- One round of reading participants. It ends the loop unless a separator asks for another one. -/
def participantRound (kind : ParticipantKind) (ps : List Participant) :
    Reading (List Participant ⊕ List Participant) := do
  let (p, more) ← participant kind
  return if more then .inl (ps ++ [p]) else .inr (ps ++ [p])

theorem rounds_participant (kind : ParticipantKind) (ps : List Participant) :
    Rounds x ts (participantRound kind ps) (fun _ => True) fun _ => True := by
  refine .of_takes (.bind (takes_participant kind) ?_)
  rintro ⟨p, more⟩ -
  cases more with
  | false => exact .pure trivial
  | true => exact .pure trivial

theorem steady_participants (kind : ParticipantKind) :
    Steady x ts (participants kind) fun _ => True :=
  .loop (fun ps _ => rounds_participant kind ps) trivial

theorem moves_declaration (kind : ParticipantKind) :
    Moves x ts (declaration kind) fun _ => True :=
  .bind moves_advance fun _ _ => .bind (steady_participants kind) fun _ _ =>
    .bind steady_endStatement fun _ _ => .pure trivial

theorem moves_activation (active : Bool) : Moves x ts (activation active) fun _ => True :=
  .bind moves_advance fun _ _ => .bind takes_name.steady fun _ _ =>
    .bind steady_endStatement fun _ _ => .pure trivial

theorem steady_placement : Steady x ts placement fun _ => True :=
  .bind (steady_acceptWord _) fun _ _ => .ite (fun _ => .pure trivial) fun _ =>
    .bind (.look _) fun _ _ => .ite
      (fun _ => .bind steady_advance fun _ _ => .bind (takes_expectWord _).steady fun _ _ =>
        .pure trivial)
      fun _ => .fail _

/-- One round of reading further `names`, which takes a comma and a name or ends the loop. -/
def nameRound (names : List String) : Reading (List String ⊕ List String) := do
  match ← accept .comma with
  | none => return .inr names
  | some _ => return .inl (names ++ [← name])

theorem rounds_name (names : List String) :
    Rounds x ts (nameRound names) (fun _ => True) fun _ => True :=
  .of_accept (by decide) (fun _ _ => .bind takes_name.steady fun _ _ => .pure trivial) rfl

theorem steady_moreNames (names : List String) : Steady x ts (moreNames names) fun _ => True :=
  .loop (fun names _ => rounds_name names) trivial

theorem moves_note : Moves x ts note fun _ => True :=
  .bind moves_advance fun _ _ => .bind steady_placement fun _ _ =>
    .bind takes_name.steady fun _ _ => .bind (steady_moreNames _) fun _ _ =>
      .bind (takes_expect (by decide) _).steady fun _ _ =>
        .bind (takes_expect (by decide) _).steady fun _ ht =>
          .bind steady_endStatement fun _ _ =>
            .bind (steady_content (Token.digitCount_text_le ht)) fun _ _ => .pure trivial

theorem steady_activationMark : Steady x ts activationMark fun _ => True :=
  .bind (steady_accept (by decide)) fun _ _ => .ite (fun _ => .pure trivial) fun _ =>
    .bind (steady_accept (by decide)) fun _ _ => .ite (fun _ => .pure trivial)
      fun _ => .pure trivial

theorem steady_messageText : Steady x ts messageText fun _ => True :=
  steady_behindColon fun _ => steady_contentOf

theorem takes_message : Takes x ts message fun _ => True := by
  refine .look_bind fun _ => .bind takes_name fun _ _ =>
    .bind (takes_expect (by decide) _).steady fun arrow _ => .bind steady_activationMark fun _ _ =>
      .bind takes_name.steady fun _ _ => .bind steady_messageText fun _ _ =>
        .bind steady_endStatement fun _ _ => ?_
  split
  · exact .unexpected _ _
  · exact .pure trivial

/-! ### Blocks -/

/-- Whether a block opens here is seen by looking, so what follows has to move in either case. -/
theorem moves_blockKind?_bind {α : Type} {f : Option BlockKind → Reading α} {Q : α → Prop}
    (h : ∀ k, Moves x ts (f k) Q) : Moves x ts (blockKind? >>= f) Q := by
  rw [blockKind?, bind_assoc]
  refine moves_checkKeyword_bind fun b => ?_
  cases b with
  | false => exact h none
  | true =>
    intro n
    constructor
    intro c hc
    exact (h _ n).apply c hc

theorem moves_blockHead (kind : BlockKind) : Moves x ts (blockHead kind) fun _ => True :=
  .bind moves_advance fun _ _ => .bind steady_label fun _ _ =>
    .bind steady_endStatement fun _ _ => .pure trivial

theorem moves_branchLine (opened : List OpenBlock) :
    Moves x ts (branchLine opened) fun _ => True := by
  refine .look_bind fun keyword => ?_
  cases opened with
  | nil => exact fun n => .failAt _ _
  | cons b outer =>
    exact .ite (fun _ => .bind moves_advance fun _ _ => .bind steady_label fun _ _ =>
      .bind steady_endStatement fun _ _ => .pure trivial) fun _ n => .failAt _ _

/-! ### The diagram -/

theorem moves_line (d : Draft) : Moves x ts (line d) fun _ => True := by
  refine .look_bind fun _ => .look_bind fun _ => .look_bind fun _ => .ite ?declaration fun _ =>
    moves_checkKeyword_bind fun _ => .ite ?autonumber fun _ => .look_bind fun _ =>
      .ite ?activation fun _ => .look_bind fun _ => .ite ?note fun _ => ?message
  case declaration => exact fun _ => .bind (moves_declaration _) fun _ _ => .pure trivial
  case autonumber =>
    exact fun _ => .bind moves_advance fun _ _ => .bind steady_restOfStatement fun _ _ =>
      .bind steady_endStatement fun _ _ => .pure trivial
  case activation => exact fun _ => .bind (moves_activation _) fun _ _ => .pure trivial
  case note => exact fun _ => .bind moves_note fun _ _ => .pure trivial
  case message => exact .bind takes_message.moves fun _ _ => .pure trivial

theorem moves_statement (d : Draft) : Moves x ts (statement d) fun _ => True := by
  refine .accept_bind (by decide) (fun _ _ => .pure trivial) (.ite (fun h => absurd h (by decide))
    fun _ => moves_checkKeyword_bind fun _ => .ite ?close fun _ =>
      moves_checkKeyword_bind fun _ => .ite ?branch fun _ => moves_blockKind?_bind fun kind => ?_)
  case close =>
    exact fun _ => .ite (fun _ => .fail _) fun _ => .bind moves_advance fun _ _ =>
      .bind steady_endStatement fun _ _ => .pure trivial
  case branch => exact fun _ => .bind (moves_branchLine _) fun _ _ => .pure trivial
  cases kind with
  | some kind => exact .bind (moves_blockHead kind) fun _ _ => .pure trivial
  | none => exact moves_line d

/-- A sequence diagram is read, or its text is to blame: no loop of the reader stands still. -/
theorem steady_read : Steady x ts read fun _ => True := by
  refine .bind steady_skipNewlines fun _ _ => .bind (takes_expectWord _).steady fun _ _ =>
    .bind steady_endStatement fun _ _ =>
      .bind (.untilEnd (I := fun _ => True) (fun d _ => moves_statement d) trivial) fun d _ => ?_
  split
  · exact .pure trivial
  · exact .bind (.look _) fun _ _ => .failAt _ _

end DiagramText.Sequence
