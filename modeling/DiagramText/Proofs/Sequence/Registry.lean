import DiagramText.Proofs.Program.Single
import DiagramText.Proofs.Roster
import DiagramText.Proofs.Sequence.RoundTrip
import DiagramText.Sequence.Edit
import Mathlib.Logic.Relation

/-!
# The registry of a sequence diagram

Participants become known by declarations, messages, notes and activations, inside blocks as well as
outside. The reader and the edits enter them clause by clause, which makes the same registry as a
walk over the whole diagram.

* `Sequence.Registry.foldl_enter`: what clauses make is the roster of the ids that they mention.
* `Sequence.Draft.Registered`: the registry of a draft is what its clauses make, those in open
  blocks included; `Sequence.Draft.Step.registered` says that each statement keeps it.
* `SequenceDiagram.participants_of_edits`: the registry of a sequence diagram after any edits.
-/

namespace DiagramText

open Reading

namespace Sequence

/-! ### Clauses in document order -/

/-- The clause that a statement is, if it is no block. -/
def Statement.clause? : Statement → Option Clause
  | .clause c => some c
  | .block .. => none

/-- The clauses of statements `ss` in document order, at any depth. Blocks have no clause of their
own. -/
def clausesOf (ss : List Statement) : List Clause :=
  (Placed.walk (Placed.all 0 ss)).filterMap fun p => p.2.clause?

/-- The blocks around statements do not change the order in which these are visited, so they may be
left out. -/
theorem Placed.map_snd_walk {ps qs : List Placed} (h : ps.map Prod.snd = qs.map Prod.snd) :
    (walk ps).map Prod.snd = (walk qs).map Prod.snd := by
  induction ps using walk.induct generalizing qs with
  | case1 =>
    obtain rfl : qs = [] := List.map_eq_nil_iff.1 h.symm
    rfl
  | case2 p ps ih =>
    cases qs with
    | nil => cases h
    | cons q qs =>
      rw [List.map_cons, List.map_cons, List.cons.injEq] at h
      have hcontents : (p.contents ++ ps).map Prod.snd = (q.contents ++ qs).map Prod.snd := by
        simp only [contents, all, List.map_append, List.map_map, h]
        rfl
      rw [walk, walk, List.map_cons, List.map_cons, h.1, ih hcontents]

theorem clausesOf_eq (depth : Nat) (ss : List Statement) :
    clausesOf ss = (Placed.walk (Placed.all depth ss)).filterMap fun p => p.2.clause? := by
  have hsnd : (Placed.all 0 ss).map Prod.snd = (Placed.all depth ss).map Prod.snd := by
    simp [Placed.all]
  have hwalk := congrArg (List.filterMap Statement.clause?) (Placed.map_snd_walk hsnd)
  rw [List.filterMap_map, List.filterMap_map] at hwalk
  exact hwalk

@[simp]
theorem clausesOf_nil : clausesOf [] = [] := by simp [clausesOf, Placed.all, Placed.walk]

theorem clausesOf_append (ss ts : List Statement) :
    clausesOf (ss ++ ts) = clausesOf ss ++ clausesOf ts := by
  rw [clausesOf, Placed.walk_all_append, List.filterMap_append]
  rfl

/-- The clauses of a block `head` are those of its body and then those of its `branches`, in one
row. -/
theorem clausesOf_block (head : Block) (body : List Statement)
    (branches : List (Branch Statement)) : clausesOf [.block head body branches] =
      clausesOf (body ++ branches.flatMap Branch.statements) := by
  rw [clausesOf_eq 1 (body ++ _), clausesOf, Placed.all, List.map_singleton, Placed.walk_singleton]
  rfl

theorem clausesOf_map_clause (cs : List Clause) : clausesOf (cs.map .clause) = cs := by
  induction cs with
  | nil => exact clausesOf_nil
  | cons c cs ih =>
    have hhead : clausesOf [.clause c] = [c] := by
      rw [clausesOf, Placed.all, List.map_singleton, Placed.walk_singleton]
      show c :: clausesOf [] = [c]
      rw [clausesOf_nil]
    rw [List.map_cons, ← List.singleton_append, clausesOf_append, hhead, ih]
    rfl

theorem Statement.foldl_enterStatement (ps : List Placed) (participants : List Participant) :
    (ps.map Prod.snd).foldl Registry.enterStatement participants =
      (ps.filterMap fun p => p.2.clause?).foldl Registry.enter participants := by
  induction ps generalizing participants with
  | nil => rfl
  | cons p ps ih =>
    obtain ⟨depth, s⟩ := p
    cases s with
    | clause c => exact ih (Registry.enter participants c)
    | block head body branches => exact ih participants

/-! ### The roster of participants -/

/-- The ids that a clause mentions: the one that it declares, the source and then the target of a
message, those across which a note stands, and the one that is activated or deactivated. -/
def Clause.mentioned : Clause → List String
  | .participant p => [p.id]
  | .message m => [m.source, m.target]
  | .note n => n.participants
  | .activation id _ => [id]

/-- The participant that a clause declares, without a position, as the registry has none. -/
def Clause.declared? : Clause → Option Participant
  | .participant p => some { p with position := none }
  | _ => none

/-- A participant with the defaults of one that is never declared: its `id` and nothing else. -/
def Participant.undeclared (id : String) : Participant := { id := id }

namespace Registry

/-- The roster of the participants that clauses mention and declare, which does not go through them
one by one. -/
def rosterOf (cs : List Clause) : List Participant :=
  clauseRoster Participant.id .undeclared Clause.mentioned Clause.declared? cs

/-- A declaration `p` mentions its participant and then sets its kind and label, and nothing of any
other one. -/
theorem declare_eq (ps : List Participant) (p : Participant) :
    declare ps p = (mention ps p.id).map fun q =>
      if q.id = p.id then { q with kind := p.kind, label := p.label } else q := by
  unfold declare mention
  split
  · rfl
  · next h =>
    rw [List.map_append, List.map_singleton, if_pos rfl]
    apply congrArg (· ++ _)
    conv_lhs => rw [← List.map_id ps]
    apply List.map_congr_left
    intro q hq
    have hne : q.id ≠ p.id := by
      intro heq
      exact h (List.any_eq_true.2 ⟨q, hq, by simpa using heq⟩)
    rw [if_neg hne]
    rfl

/-- A mention of `id` in the registry is a mention in the roster, behind the others. -/
theorem mention_roster {mentions : List String} {declared : List Participant}
    (h : ∀ p ∈ declared, p.id ∈ mentions) (id : String) :
    mention (roster Participant.id .undeclared mentions declared) id =
      roster Participant.id .undeclared (mentions ++ [id]) declared :=
  (roster_mention (fun _ => rfl) h id).symm

theorem foldl_mention_roster {mentions : List String} {declared : List Participant}
    (h : ∀ p ∈ declared, p.id ∈ mentions) (ids : List String) :
    ids.foldl mention (roster Participant.id .undeclared mentions declared) =
      roster Participant.id .undeclared (mentions ++ ids) declared := by
  induction ids generalizing mentions with
  | nil => rw [List.append_nil]; rfl
  | cons id ids ih =>
    rw [List.foldl_cons, mention_roster h, ih, List.append_assoc]
    · rfl
    · intro p hp
      exact List.mem_append_left _ (h p hp)

theorem declare_roster {mentions : List String} {declared : List Participant}
    (h : ∀ p ∈ declared, p.id ∈ mentions) (hplace : ∀ p ∈ declared, p.position = none)
    (p : Participant) :
    declare (roster Participant.id .undeclared mentions declared) p =
      roster Participant.id .undeclared (mentions ++ [p.id])
        (declared ++ [{ p with position := none }]) := by
  rw [declare_eq, mention_roster h, roster_declare fun _ => rfl]
  apply List.map_congr_left
  intro q hq
  obtain ⟨id, -, rfl⟩ := List.mem_map.1 hq
  have hposition : (lastDeclared Participant.id .undeclared declared id).position = none :=
    lastDeclared_induction (P := fun p : Participant => p.position = none) (fun _ => rfl) hplace id
  split
  · next hid =>
    generalize lastDeclared Participant.id .undeclared declared id = q at *
    obtain ⟨id', label, kind, position⟩ := q
    simp_all
  · rfl

theorem mem_mentioned_of_declared {cs : List Clause} {p : Participant}
    (hp : p ∈ cs.filterMap Clause.declared?) :
    p.id ∈ cs.flatMap Clause.mentioned ∧ p.position = none := by
  obtain ⟨c, hc, hdeclared⟩ := List.mem_filterMap.1 hp
  cases c with
  | participant q =>
    cases hdeclared
    exact ⟨List.mem_flatMap.2 ⟨_, hc, List.mem_singleton_self _⟩, rfl⟩
  | message _ => cases hdeclared
  | note _ => cases hdeclared
  | activation _ _ => cases hdeclared

/-- Entering one clause `c` more in the roster makes the roster of one clause more. -/
theorem enter_rosterOf (cs : List Clause) (c : Clause) :
    enter (rosterOf cs) c = rosterOf (cs ++ [c]) := by
  have hmentioned : ∀ p ∈ cs.filterMap Clause.declared?, p.id ∈ cs.flatMap Clause.mentioned :=
    fun p hp => (mem_mentioned_of_declared hp).1
  have hplace : ∀ p ∈ cs.filterMap Clause.declared?, p.position = none :=
    fun p hp => (mem_mentioned_of_declared hp).2
  unfold rosterOf clauseRoster
  rw [List.flatMap_append, List.filterMap_append, List.flatMap_singleton]
  cases c with
  | participant p => exact declare_roster hmentioned hplace p
  | message m =>
    show [m.source, m.target].foldl mention _ = roster _ _ _ (_ ++ [])
    rw [foldl_mention_roster hmentioned, List.append_nil]
    rfl
  | note n =>
    show n.participants.foldl mention _ = roster _ _ _ (_ ++ [])
    rw [foldl_mention_roster hmentioned, List.append_nil]
    rfl
  | activation id _ =>
    show mention _ id = roster _ _ _ (_ ++ [])
    rw [mention_roster hmentioned, List.append_nil]
    rfl

/-- What clauses `cs` make in an empty registry is their roster, by induction from the last clause
on. -/
theorem foldl_enter (cs : List Clause) : cs.foldl enter [] = rosterOf cs :=
  foldl_eq_roster enter_rosterOf cs

end Registry

/-! ### Drafts -/

/-- The statements of an open block `b`, its body first and then each branch, as far as they were
read. -/
def OpenBlock.contents (b : OpenBlock) : List Statement :=
  b.body ++ b.branches.flatMap Branch.statements

theorem OpenBlock.contents_extend (b : OpenBlock) (ss : List Statement) :
    (b.extend ss).contents = b.contents ++ ss := by
  obtain ⟨head, body, branches⟩ := b
  rcases List.eq_nil_or_concat branches with rfl | ⟨branches, last, rfl⟩
  · simp [extend, contents]
  · simp [extend, contents]

theorem OpenBlock.contents_branch (b : OpenBlock) (label : Option String) :
    (b.branch label).contents = b.contents := by
  simp [branch, contents]

namespace Draft

/-- The clauses read so far in document order, those of outer open blocks first. No statement stands
behind an open block yet. -/
def clauses (d : Draft) : List Clause :=
  clausesOf d.statements ++ d.opened.reverse.flatMap fun b => clausesOf b.contents

/-- The registry of a draft `d` is what the clauses read so far make. -/
def Registered (d : Draft) : Prop := EnteredBy Registry.enter d.participants d.clauses

/-- What one statement does to a draft `d`. -/
inductive Step (d : Draft) : Draft → Prop
  | skip : Step d d
  | number : Step d { d with autonumber := true }
  | add (cs : List Clause) : Step d (d.add cs)
  | openBlock (head : Block) : Step d (d.openBlock head)
  | branch (label : Option String) : Step d (d.branch label)
  | closeBlock : Step d d.closeBlock

variable {d d' : Draft}

theorem participants_extend (d : Draft) (ss : List Statement) :
    (d.extend ss).participants = d.participants := by
  unfold extend
  split <;> rfl

/-- New statements `ss` come last, since all that is open is open around them. -/
theorem clauses_extend (d : Draft) (ss : List Statement) :
    (d.extend ss).clauses = d.clauses ++ clausesOf ss := by
  obtain ⟨statements, autonumber, participants, opened⟩ := d
  cases opened with
  | nil => simp [clauses, extend, clausesOf_append]
  | cons b outer => simp [clauses, extend, OpenBlock.contents_extend, clausesOf_append]

theorem clauses_branch (d : Draft) (label : Option String) :
    (d.branch label).clauses = d.clauses := by
  obtain ⟨statements, autonumber, participants, opened⟩ := d
  cases opened with
  | nil => rfl
  | cons b outer => simp [clauses, branch, OpenBlock.contents_branch]

theorem clauses_closeBlock (d : Draft) : d.closeBlock.clauses = d.clauses := by
  unfold closeBlock
  split
  · rfl
  · next b outer h =>
    rw [clauses_extend, OpenBlock.close, clausesOf_block]
    simp [clauses, OpenBlock.contents, h]

/-- Each statement keeps the registry what the clauses make, whatever step `h` it takes. -/
theorem Step.registered (h : d.Step d') (hd : d.Registered) : d'.Registered := by
  unfold Registered at *
  cases h with
  | skip => exact hd
  | number => exact hd
  | add cs =>
    unfold Draft.add
    rw [clauses_extend, participants_extend, clausesOf_map_clause]
    exact hd.append cs
  | openBlock head => simpa [Draft.openBlock, clauses, OpenBlock.contents] using hd
  | branch label =>
    have hparticipants : (d.branch label).participants = d.participants := by
      unfold Draft.branch
      split <;> rfl
    rwa [clauses_branch, hparticipants]
  | closeBlock =>
    have hparticipants : d.closeBlock.participants = d.participants := by
      unfold Draft.closeBlock
      split
      · rfl
      · exact participants_extend _ _
    rwa [clauses_closeBlock, hparticipants]

end Draft

/-! ### Reading -/

theorem ensures_line_step (d : Draft) : Ensures (fun _ => True) (line d) fun d' _ => d.Step d' := by
  unfold line
  -- participants
  refine .look_bind fun _ => .look_bind fun _ => .look_bind fun _ => .ite (fun _ => ?_) fun _ => ?_
  · exact .bind .unknown fun cs => .pure fun _ _ => .add cs
  -- the line that asks for numbers
  refine .bind .unknown fun _ => .ite (fun _ => ?_) fun _ => ?_
  · exact .bind .unknown fun _ => .bind .unknown fun _ => .bind .unknown fun _ =>
      .pure fun _ _ => .number
  -- an activation, a note or a message, each of one clause
  refine .look_bind fun _ => .ite (fun _ => ?_) fun _ => ?_
  · exact .bind .unknown fun c => .pure fun _ _ => .add [c]
  refine .look_bind fun _ => .ite (fun _ => ?_) fun _ => ?_
  · exact .bind .unknown fun c => .pure fun _ _ => .add [c]
  · exact .bind .unknown fun c => .pure fun _ _ => .add [c]

/-- What a statement does to the draft `d`, whatever its line holds: it takes one of the steps. -/
theorem ensures_step (d : Draft) : Ensures (fun _ => True) (statement d) fun d' _ => d.Step d' := by
  unfold statement
  refine .bind .unknown fun _ => .ite (fun _ => .pure fun _ _ => .skip) fun _ => ?_
  -- the end of a block, which has to be open
  refine .bind .unknown fun _ => .ite (fun _ => ?_) fun _ => ?_
  · refine .ite (fun _ => .fail _) fun _ => ?_
    exact .bind .unknown fun _ => .bind .unknown fun _ => .pure fun _ _ => .closeBlock
  -- the next branch of a block
  refine .bind .unknown fun _ => .ite (fun _ => ?_) fun _ => ?_
  · exact .bind .unknown fun label => .pure fun _ _ => .branch label
  -- the start of a block, if not a line of its own
  refine .bind .unknown fun kind => ?_
  cases kind with
  | none => exact ensures_line_step d
  | some kind => exact .bind .unknown fun head => .pure fun _ _ => .openBlock head

/-- The registry of a diagram that is read is what its statements make in document order. -/
theorem ensures_read_registered : Ensures (fun _ => True) read fun d _ =>
    d.participants = (d.walk.map Prod.snd).foldl Registry.enterStatement [] := by
  have hempty : Draft.Registered {} := by
    simp [Draft.Registered, Draft.clauses, EnteredBy.nil]
  have hstatement : ∀ d : Draft, Ensures (fun _ => d.Registered) (statement d)
      fun d' _ => d'.Registered :=
    fun d c d' c' hd hx => (ensures_step d c d' c' trivial hx).registered hd
  unfold read
  refine .bind .unknown fun _ => .bind .unknown fun _ => .bind .unknown fun _ => ?_
  refine .bind ((Ensures.untilEnd hstatement {}).imp (fun _ _ => hempty) fun _ _ => id) fun d => ?_
  split
  · next hopened =>
    apply Ensures.pure
    intro c hd
    rw [Draft.Registered, Draft.clauses, hopened] at hd
    rw [Statement.foldl_enterStatement]
    show EnteredBy Registry.enter d.participants (clausesOf d.statements)
    simpa using hd
  · exact .look_bind fun _ => .failAt _ _

end Sequence

namespace SequenceDiagram

open Sequence

/-! ### Edits -/

/-- The diagram `e` is `d` after an accepted edit. -/
inductive Edit (d : SequenceDiagram) : SequenceDiagram → Prop
  | addParticipant {e : SequenceDiagram} {id : String} {label : Option String}
      {kind : ParticipantKind} (h : d.addParticipant id label kind = .ok e) : Edit d e
  | addMessage {e : SequenceDiagram} {source target : String} {text : Option String} {arrow : Arrow}
      (h : d.addMessage source target text arrow = .ok e) : Edit d e

/-- A sequence diagram `d` to start from: an empty one, or one that comes from a document. -/
def IsStart (d : SequenceDiagram) : Prop :=
  (∃ autonumber, d = { autonumber := autonumber }) ∨ (Diagram.sequence d).IsRead

/-- The clauses of a diagram `d`, in the order in which a walk visits them. -/
def clauses (d : SequenceDiagram) : List Clause := d.walk.filterMap fun p => p.2.clause?

/-- The ids that the clauses of a diagram `d` mention, one after the other. -/
def mentionedIds (d : SequenceDiagram) : List String := d.clauses.flatMap Clause.mentioned

/-- A participant with the kind and label of the last declaration of `id`, or the defaults if there
is none. -/
def participantOf (d : SequenceDiagram) (id : String) : Participant :=
  lastDeclared Participant.id .undeclared (d.clauses.filterMap Clause.declared?) id

/-- The registry of a sequence diagram `d` is that of its statements, entered one after the other as
a walk visits them. -/
structure Registered (d : SequenceDiagram) : Prop where
  participants_eq : d.participants = (d.walk.map Prod.snd).foldl Registry.enterStatement []
  /-- There is one participant for each id at its first mention, as it was last declared. -/
  roster_eq : d.participants = d.mentionedIds.eraseDups.map d.participantOf
  /-- No id is registered twice. -/
  nodup : (d.participants.map Participant.id).Nodup

variable {d e : SequenceDiagram}

/-- The registry of statements is known from the mentions and the declarations in them: from the one
equation come all fields of `Registered`. -/
theorem Registered.of_foldl_enter (h : d.participants = d.clauses.foldl Registry.enter []) :
    d.Registered := by
  have hroster : d.participants = roster Participant.id .undeclared d.mentionedIds
      (d.clauses.filterMap Clause.declared?) := h.trans (Registry.foldl_enter d.clauses)
  constructor
  · rw [Statement.foldl_enterStatement]
    exact h
  · exact hroster
  · rw [hroster]
    exact nodup_map_key_roster (fun _ => rfl) _ _

theorem foldl_enter_append (h : d.participants = d.clauses.foldl Registry.enter []) (c : Clause) :
    (d.append c).participants = (d.append c).clauses.foldl Registry.enter [] := by
  have hclauses : (d.append c).clauses = d.clauses ++ [c] := by
    show clausesOf (d.statements ++ [.clause c]) = clausesOf d.statements ++ [c]
    rw [clausesOf_append]
    exact congrArg _ (clausesOf_map_clause [c])
  rw [hclauses, List.foldl_append, ← h]
  rfl

/-- An edit of `d` leaves the registry to be what the clauses make, as it enters the clause that it
adds. -/
theorem Edit.foldl_enter (h : Edit d e) (hd : d.participants = d.clauses.foldl Registry.enter []) :
    e.participants = e.clauses.foldl Registry.enter [] := by
  cases h with
  | addParticipant h =>
    obtain ⟨id', -, h⟩ := Except.bind_eq_ok_iff.1 h
    split at h
    · cases h
    · cases h
      exact foldl_enter_append hd _
  | addMessage h =>
    obtain ⟨source', -, h⟩ := Except.bind_eq_ok_iff.1 h
    obtain ⟨target', -, h⟩ := Except.bind_eq_ok_iff.1 h
    obtain ⟨text', -, h⟩ := Except.bind_eq_ok_iff.1 h
    cases h
    exact foldl_enter_append hd _

theorem IsStart.foldl_enter (h : d.IsStart) :
    d.participants = d.clauses.foldl Registry.enter [] := by
  rcases h with ⟨autonumber, rfl⟩ | h
  · simp [clauses, walk, Placed.all, Placed.walk]
  · rw [clauses, ← Statement.foldl_enterStatement]
    apply h.of_ensures (x := Sequence.read) (P := fun _ => True)
      (Q := fun d : SequenceDiagram =>
        d.participants = (d.walk.map Prod.snd).foldl Registry.enterStatement [])
    · intro d e hde
      exact Diagram.sequence.inj hde
    · rfl
    · exact fun _ _ => trivial
    · exact ensures_read_registered

/-- After any number of edits of `d₀`, which is empty or comes from a document, the registry of a
sequence diagram is that of its statements. -/
theorem participants_of_edits {d₀ d : SequenceDiagram} (hstart : d₀.IsStart)
    (h : Relation.ReflTransGen Edit d₀ d) : d.Registered := by
  apply Registered.of_foldl_enter
  induction h with
  | refl => exact hstart.foldl_enter
  | tail _ hedit ih => exact hedit.foldl_enter ih

/-- What is read has a participant that is declared in a branch of a block only after it was
activated. Another is added by a message, and a third one explicitly. -/
theorem participants_of_edits_branch : ∃ d₀ d₁ d₂ : SequenceDiagram,
    Program.read "sequenceDiagram\nalt x\nactivate B\nelse y\nactor B as b\nend\n" =
        .ok ⟨[.sequence d₀]⟩ ∧
      d₀.addMessage "B" "A" = .ok d₁ ∧ d₁.addParticipant "C" (some "c") .actor = .ok d₂ ∧
        d₂.participants = [⟨"B", some "b", .actor, none⟩, ⟨"A", none, .participant, none⟩,
          ⟨"C", some "c", .actor, none⟩] ∧ d₂.Registered := by
  let block : Statement := .block ⟨.alt, some "x", some ⟨2, 0, 16⟩⟩
    [.clause (.activation "B" true)]
    [⟨some "y", [.clause (.participant ⟨"B", some "b", .actor, some ⟨5, 6, 46⟩⟩)]⟩]
  let d₀ : SequenceDiagram := ⟨[block], false, [⟨"B", some "b", .actor, none⟩]⟩
  let d₁ : SequenceDiagram := d₀.append (.message ⟨"B", "A", .solidArrow, none, none, none⟩)
  let d₂ : SequenceDiagram := d₁.append (.participant ⟨"C", some "c", .actor, none⟩)
  have hread : Program.read "sequenceDiagram\nalt x\nactivate B\nelse y\nactor B as b\nend\n" =
      .ok ⟨[.sequence d₀]⟩ := by decide +kernel
  have hmessage : d₀.addMessage "B" "A" = .ok d₁ := by decide +kernel
  have hparticipant : d₁.addParticipant "C" (some "c") .actor = .ok d₂ := by decide +kernel
  have hstart : d₀.IsStart := .inr ⟨_, _, hread, List.mem_singleton_self _⟩
  exact ⟨d₀, d₁, d₂, hread, hmessage, hparticipant, by decide +kernel,
    participants_of_edits hstart
      (.tail (.single (.addMessage hmessage)) (.addParticipant hparticipant))⟩

end SequenceDiagram
end DiagramText
