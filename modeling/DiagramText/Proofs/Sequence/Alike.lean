import DiagramText.Proofs.Reading.Alike
import DiagramText.Proofs.Sequence.Steady
import DiagramText.Sequence.Reader

/-!
# Reading sequence diagrams does not depend on places

* `Sequence.alike_read`: alike rows of tokens are read as diagrams that are equal without positions.
-/

namespace DiagramText

/-- Two sequence diagrams are equal without positions, which is how diagrams are compared. -/
def SequenceDiagram.Same (d e : SequenceDiagram) : Prop := d.unplaced = e.unplaced

namespace Sequence

open Reading

/-! ### Equality without positions -/

namespace Statement

theorem unplacedList_eq_map (ss : List Statement) : unplacedList ss = ss.map unplaced := by
  induction ss with
  | nil => rfl
  | cons s ss ih => rw [unplacedList, ih, List.map_cons]

/-- A branch `b` without positions: those of its statements, as it has none itself. -/
def unplacedBranch (b : Branch Statement) : Branch Statement :=
  { b with statements := b.statements.map unplaced }

theorem unplacedBranches_eq_map (bs : List (Branch Statement)) :
    unplacedBranches bs = bs.map unplacedBranch := by
  induction bs with
  | nil => rfl
  | cons b bs ih =>
    rw [unplacedBranches, ih, List.map_cons, unplacedList_eq_map]
    rfl

end Statement

/-- A participant `p` without its position. -/
def Participant.unplaced (p : Participant) : Participant := { p with position := none }

namespace Registry

theorem any_unplaced (ps : List Participant) (id : String) :
    (ps.map Participant.unplaced).any (·.id == id) = ps.any (·.id == id) := by
  rw [List.any_map]
  rfl

theorem unplaced_mention (ps : List Participant) (id : String) :
    (mention ps id).map Participant.unplaced = mention (ps.map Participant.unplaced) id := by
  unfold mention
  rw [any_unplaced]
  split
  · rfl
  · rw [List.map_append]
    rfl

theorem unplaced_declare (ps : List Participant) (p : Participant) :
    (declare ps p).map Participant.unplaced =
      declare (ps.map Participant.unplaced) p.unplaced := by
  unfold declare
  have hid : p.unplaced.id = p.id := rfl
  rw [hid, any_unplaced]
  split
  · simp only [List.map_map, List.map_inj_left, Function.comp_apply]
    intro q _
    have hq : q.unplaced.id = q.id := rfl
    rw [hq]
    split <;> rfl
  · rw [List.map_append]
    rfl

theorem unplaced_enter (ps : List Participant) (c : Clause) :
    (enter ps c).map Participant.unplaced = enter (ps.map Participant.unplaced) c.unplaced := by
  cases c with
  | participant p => exact unplaced_declare ps p
  | message m => simp only [enter, unplaced_mention]; rfl
  | activation id active => exact unplaced_mention ps id
  | note n =>
    simp only [enter, Clause.unplaced]
    induction n.participants generalizing ps with
    | nil => rfl
    | cons id ids ih => rw [List.foldl_cons, ih, unplaced_mention]; rfl

end Registry

/-- A block whose end has not been read, without positions. -/
def OpenBlock.unplaced (b : OpenBlock) : OpenBlock where
  head := { b.head with position := none }
  body := b.body.map Statement.unplaced
  branches := b.branches.map Statement.unplacedBranch

namespace OpenBlock

theorem unplaced_extend (b : OpenBlock) (ss : List Statement) :
    (b.extend ss).unplaced = b.unplaced.extend (ss.map Statement.unplaced) := by
  have hlast : b.unplaced.branches.getLast? = b.branches.getLast?.map Statement.unplacedBranch :=
    List.getLast?_map ..
  unfold extend
  rw [hlast]
  cases b.branches.getLast? with
  | none => simp [unplaced]
  | some last => simp [unplaced, Statement.unplacedBranch, List.map_dropLast]

theorem unplaced_branch (b : OpenBlock) (label : Option String) :
    (b.branch label).unplaced = b.unplaced.branch label := by
  simp [branch, unplaced, Statement.unplacedBranch]

theorem unplaced_close (b : OpenBlock) : b.close.unplaced = b.unplaced.close := by
  simp [close, unplaced, Statement.unplaced, Statement.unplacedList_eq_map,
    Statement.unplacedBranches_eq_map]

end OpenBlock

namespace Draft

/-- A part of a sequence diagram without positions. -/
def unplaced (d : Draft) : Draft where
  statements := d.statements.map Statement.unplaced
  autonumber := d.autonumber
  participants := d.participants.map Participant.unplaced
  opened := d.opened.map OpenBlock.unplaced

/-- Two drafts are equal without positions, in open blocks too. -/
def Same (d e : Draft) : Prop := d.unplaced = e.unplaced

theorem unplaced_extend (d : Draft) (ss : List Statement) :
    (d.extend ss).unplaced = d.unplaced.extend (ss.map Statement.unplaced) := by
  obtain ⟨statements, autonumber, participants, opened⟩ := d
  cases opened with
  | nil => simp [extend, unplaced]
  | cons b outer => simp [extend, unplaced, OpenBlock.unplaced_extend]

theorem unplaced_add (d : Draft) (cs : List Clause) :
    (d.add cs).unplaced = d.unplaced.add (cs.map Clause.unplaced) := by
  have hentered : (cs.foldl Registry.enter d.participants).map Participant.unplaced =
      (cs.map Clause.unplaced).foldl Registry.enter (d.participants.map Participant.unplaced) := by
    generalize d.participants = ps
    induction cs generalizing ps with
    | nil => rfl
    | cons c cs ih => rw [List.foldl_cons, ih, Registry.unplaced_enter]; rfl
  have hclauses : (cs.map Statement.clause).map Statement.unplaced =
      (cs.map Clause.unplaced).map Statement.clause := by
    simp only [List.map_map, List.map_inj_left, Function.comp_apply, Statement.unplaced,
      implies_true]
  rw [add, unplaced_extend, hclauses, unplaced, hentered]
  rfl

theorem unplaced_openBlock (d : Draft) (head : Block) :
    (d.openBlock head).unplaced = d.unplaced.openBlock { head with position := none } := rfl

theorem unplaced_branch (d : Draft) (label : Option String) :
    (d.branch label).unplaced = d.unplaced.branch label := by
  obtain ⟨statements, autonumber, participants, opened⟩ := d
  cases opened with
  | nil => rfl
  | cons b outer => simp [branch, unplaced, OpenBlock.unplaced_branch]

theorem unplaced_closeBlock (d : Draft) : d.closeBlock.unplaced = d.unplaced.closeBlock := by
  obtain ⟨statements, autonumber, participants, opened⟩ := d
  cases opened with
  | nil => rfl
  | cons b outer =>
    rw [closeBlock, unplaced_extend]
    simp [unplaced, closeBlock, OpenBlock.unplaced_close]

variable {d e : Draft}

theorem Same.opened_eq (h : d.Same e) :
    d.opened.map OpenBlock.unplaced = e.opened.map OpenBlock.unplaced := by
  have ho : d.unplaced.opened = e.unplaced.opened := congrArg opened h
  exact ho

theorem Same.isEmpty_eq (h : d.Same e) : d.opened.isEmpty = e.opened.isEmpty := by
  simpa only [List.isEmpty_map] using congrArg List.isEmpty h.opened_eq

theorem Same.add (h : d.Same e) {cs ds : List Clause}
    (hcs : cs.map Clause.unplaced = ds.map Clause.unplaced) : (d.add cs).Same (e.add ds) := by
  rw [Same, unplaced_add, unplaced_add, h, hcs]

theorem Same.setAutonumber (h : d.Same e) :
    Same { d with autonumber := true } { e with autonumber := true } := by
  simp only [Same, unplaced, mk.injEq] at h ⊢
  exact ⟨h.1, trivial, h.2.2.1, h.2.2.2⟩

theorem Same.openBlock (h : d.Same e) {head head' : Block}
    (hhead : { head with position := none } = { head' with position := none }) :
    (d.openBlock head).Same (e.openBlock head') := by
  rw [Same, unplaced_openBlock, unplaced_openBlock, h, hhead]

theorem Same.branch (h : d.Same e) (label : Option String) :
    (d.branch label).Same (e.branch label) := by
  rw [Same, unplaced_branch, unplaced_branch, h]

theorem Same.closeBlock (h : d.Same e) : d.closeBlock.Same e.closeBlock := by
  rw [Same, unplaced_closeBlock, unplaced_closeBlock, h]

end Draft

variable {P : Position → Position → Prop} {pre : Nat → Cursor → Prop} {d e : Draft}
  {t u : Token}

/-! ### Clauses -/

theorem alike_name : AlikeWhen P pre Eq name name :=
  (alike_expectAny (by decide)).map fun _ _ h => h.text

theorem alike_label : AlikeWhen P pre Eq label label :=
  alike_restOfStatement.bind fun _ _ htext => htext ▸ .pure rfl

theorem checkKeyword_apply (words : List String) (c : Cursor) : checkKeyword words c =
    .ok (c.peek.isWord words && (c.ahead 1).kind != .arrow, c) := rfl

/-- A keyword is told from a name by what follows it, so alike cursors are both before a keyword, or
both before a name. -/
theorem AlikeWhen.checkKeyword_bind {γ δ : Type} {R : γ → δ → Prop} {words : List String}
    {f : Bool → Reading γ} {g : Bool → Reading δ}
    (hfg : ∀ b, AlikeWhen P (fun n c => pre n c ∧ (b = true → c.peek.isWord words = true)) R
      (f b) (g b)) :
    AlikeWhen P pre R (checkKeyword words >>= f) (checkKeyword words >>= g) := by
  intro n c d hn hcd
  have hword := hcd.peek.isWord_eq words
  have harrow := (hcd.ahead 1).kind_eq (· != .arrow) rfl
  rw [bind_apply, bind_apply, checkKeyword_apply, checkKeyword_apply, ← hword, ← harrow]
  exact hfg _ n c d ⟨hn, fun h => (Bool.and_eq_true_iff.1 h).1⟩ hcd

/-- Two participants, each with whether another one follows, are equal without positions, and are
followed alike. -/
def SameItem (p q : Participant × Bool) : Prop := p.1.unplaced = q.1.unplaced ∧ p.2 = q.2

theorem alike_labelled {id : String} {kind : ParticipantKind} {i j : Option Position}
    (label : Option String) :
    Alike P SameItem (labelled ⟨id, none, kind, i⟩ label) (labelled ⟨id, none, kind, j⟩ label) := by
  have hsame : ∀ more, SameItem (⟨id, label, kind, i⟩, more) (⟨id, label, kind, j⟩, more) :=
    fun _ => ⟨rfl, rfl⟩
  refine AlikeWhen.ite (fun _ => .pure (hsame _)) fun _ => ?_
  refine (alike_accept (by decide)).bind fun _ _ h => ?_
  cases h with
  | some _ => exact .pure (hsame _)
  | none =>
    refine (alike_accept (by decide)).bind fun _ _ h => ?_
    cases h with
    | some _ => exact .pure (hsame _)
    | none => exact .pure (hsame _)

theorem alike_participant (kind : ParticipantKind) :
    AlikeWhen P pre SameItem (participant kind) (participant kind) := by
  refine AlikeWhen.peek_bind fun t u htu => ?_
  refine alike_name.bind fun id _ hid => hid ▸ ?_
  refine alike_acceptWord.bind fun _ _ has => ?_
  cases has with
  | none => exact alike_labelled none
  | some _ => exact alike_label.bind fun label _ hlabel => hlabel ▸ alike_labelled label

theorem alike_participants (kind : ParticipantKind) :
    AlikeWhen P pre (fun ps qs => ps.map Participant.unplaced = qs.map Participant.unplaced)
      (participants kind) (participants kind) := by
  refine alike_loop_of_stop
    (T := fun ps qs => ps.map Participant.unplaced = qs.map Participant.unplaced) ?_ ?_ rfl
  · intro ps qs hps
    refine (alike_participant kind).bind ?_
    rintro ⟨p, more⟩ ⟨q, _⟩ ⟨hpq, rfl⟩
    have hmap : (ps ++ [p]).map Participant.unplaced = (qs ++ [q]).map Participant.unplaced := by
      rw [List.map_append, List.map_append, hps, List.map_singleton, List.map_singleton, hpq]
    cases more with
    | false => exact .pure (.inr hmap)
    | true => exact .pure (.inl hmap)
  · rintro ps ⟨past, rest, final⟩ ps' c' hc hend
    obtain rfl : rest = [] := hc
    have hend : final.kind = .endOfInput := hend
    simp [participant, name, expectAny, nameKinds, bind_apply, peek_apply, check_apply, fail_apply,
      Except.bind, hend]

theorem alike_declaration (kind : ParticipantKind) :
    AlikeWhen P pre (fun cs ds => cs.map Clause.unplaced = ds.map Clause.unplaced)
      (declaration kind) (declaration kind) := by
  refine alike_advance.bind fun _ _ _ => ?_
  refine (alike_participants kind).bind fun ps qs hps => ?_
  refine alike_endStatement.bind fun _ _ _ => .pure ?_
  have hclause : ∀ ps : List Participant, (ps.map Clause.participant).map Clause.unplaced =
      (ps.map Participant.unplaced).map Clause.participant := fun ps => by
    rw [List.map_map, List.map_map]
    rfl
  rw [hclause, hclause, hps]

theorem alike_activation (active : Bool) :
    AlikeWhen P pre Eq (activation active) (activation active) := by
  refine alike_advance.bind fun _ _ _ => ?_
  refine alike_name.bind fun id _ hid => hid ▸ ?_
  exact alike_endStatement.bind fun _ _ _ => .pure rfl

theorem alike_placement : AlikeWhen P pre Eq placement placement := by
  refine alike_acceptWord.bind fun _ _ h => ?_
  cases h with
  | some _ => exact .pure rfl
  | none =>
    refine AlikeWhen.checkWord_bind fun b => AlikeWhen.ite (fun _ => ?_) fun _ => alike_fail
    refine alike_advance.bind fun t u htu => ?_
    refine alike_expectWord.bind fun _ _ _ => .pure ?_
    rw [htu.isWord_eq]

theorem alike_moreNames (names : List String) :
    AlikeWhen P pre Eq (moreNames names) (moreNames names) := by
  refine alike_loop_of_stop (T := Eq) ?_ ?_ rfl
  · rintro names _ rfl
    refine (alike_accept (by decide)).bind fun _ _ h => ?_
    cases h with
    | none => exact .pure (.inr rfl)
    | some _ => exact alike_name.bind fun n _ hn => hn ▸ .pure (.inl rfl)
  · rintro names ⟨past, rest, final⟩ names' c' hc hend
    obtain rfl : rest = [] := hc
    have hend : final.kind = .endOfInput := hend
    simp [bind_apply, accept_nil, Except.bind, hend, pure_apply]

theorem alike_note :
    AlikeWhen P pre (fun c d => c.unplaced = d.unplaced) note note := by
  refine alike_advance.bind fun t u htu => ?_
  refine alike_placement.bind fun placement _ hplacement => hplacement ▸ ?_
  refine alike_name.bind fun n _ hn => hn ▸ ?_
  refine (alike_moreNames _).bind fun names _ hnames => hnames ▸ ?_
  refine (alike_expect (by decide)).bind fun _ _ _ => ?_
  refine (alike_expect (by decide)).bind fun x y hxy => ?_
  refine alike_endStatement.bind fun _ _ _ => ?_
  rw [hxy.text]
  exact (alike_content _).bind fun label _ hlabel => hlabel ▸ .pure rfl

theorem alike_activationMark : AlikeWhen P pre Eq activationMark activationMark := by
  refine (alike_accept (by decide)).bind fun _ _ h => ?_
  cases h with
  | some _ => exact .pure rfl
  | none =>
    refine (alike_accept (by decide)).bind fun _ _ h => ?_
    cases h with
    | some _ => exact .pure rfl
    | none => exact .pure rfl

theorem alike_messageText : AlikeWhen P pre Eq messageText messageText :=
  alike_behindColon fun _ _ => alike_contentOf

theorem alike_message :
    AlikeWhen P pre (fun c d => c.unplaced = d.unplaced) message message := by
  refine AlikeWhen.peek_bind fun t u htu => ?_
  refine alike_name.bind fun source _ hsource => hsource ▸ ?_
  refine (alike_expect (by decide)).bind fun arrow arrow' harrow => ?_
  refine alike_activationMark.bind fun mark _ hmark => hmark ▸ ?_
  refine alike_name.bind fun target _ htarget => htarget ▸ ?_
  refine alike_messageText.bind fun text _ htext => htext ▸ ?_
  refine alike_endStatement.bind fun _ _ _ => ?_
  rw [harrow.text]
  split
  · exact alike_unexpected harrow.start
  · exact .pure rfl

/-! ### Blocks -/

theorem alike_blockKind : AlikeWhen P pre Eq blockKind? blockKind? := by
  refine AlikeWhen.checkKeyword_bind fun b => AlikeWhen.ite (fun hb => ?_) fun _ => .pure rfl
  refine AlikeWhen.peek_bind_same (fun n c hc => inner_of_isWord (hc.2 hb)) fun t u htu => ?_
  exact .pure (by rw [htu.text])

theorem alike_blockHead (kind : BlockKind) :
    AlikeWhen P pre (fun h k => { h with position := none } = { k with position := none })
      (blockHead kind) (blockHead kind) := by
  refine alike_advance.bind fun t u htu => ?_
  refine alike_label.bind fun label _ hlabel => hlabel ▸ ?_
  exact alike_endStatement.bind fun _ _ _ => .pure rfl

theorem alike_branchLine {bs cs : List OpenBlock}
    (hbs : bs.map OpenBlock.unplaced = cs.map OpenBlock.unplaced)
    (hpre : ∀ n c, pre n c → c.peek.kind.Inner) :
    AlikeWhen P pre Eq (branchLine bs) (branchLine cs) := by
  refine AlikeWhen.peek_bind_same hpre fun t u htu => ?_
  rw [← htu.text]
  cases bs with
  | nil =>
    obtain rfl := List.map_eq_nil_iff.1 hbs.symm
    exact alike_unexpected htu.start
  | cons b bs =>
    obtain ⟨c, cs, rfl, hcb, -⟩ := List.map_eq_cons_iff.1 hbs.symm
    have hkind : b.head.kind = c.head.kind := congrArg (fun b => b.head.kind) hcb.symm
    dsimp only
    rw [← hkind]
    refine AlikeWhen.ite (fun _ => ?_) fun _ => alike_unexpected htu.start
    refine alike_advance.bind fun _ _ _ => ?_
    refine alike_label.bind fun label _ hlabel => hlabel ▸ ?_
    exact alike_endStatement.bind fun _ _ _ => .pure rfl

/-! ### The diagram -/

theorem kind_of_checked {c : Cursor} {words : List String} {b x : Bool} (ht : c.peek = t)
    (hb : c.peek.isWord words = b) (h : (b && x) = true) : t.kind = .identifier := by
  subst ht
  exact kind_of_isWord (hb.trans (Bool.and_eq_true_iff.1 h).1)

theorem alike_line (hde : d.Same e) : AlikeWhen P pre Draft.Same (line d) (line e) := by
  refine AlikeWhen.peek_bind fun t u htu => ?_
  refine AlikeWhen.ahead_bind fun second second' hsecond => ?_
  have htext : t.kind = .identifier → t.text = u.text := fun ht =>
    (htu.alike_of (by simp [ht])).text (by simp [ht])
  rw [← hsecond.kind_eq nameKinds.contains rfl,
    ← hsecond.kind_eq (fun k => decide (k = .identifier)) rfl]
  refine AlikeWhen.checkWord_bind fun b => AlikeWhen.ite (fun hb => ?_) fun _ => ?_
  · refine AlikeWhen.assume (fun n c hc => kind_of_checked hc.1.1.2 hc.2 hb) fun ht => ?_
    rw [htext ht]
    exact (alike_declaration _).bind fun cs ds hcs => .pure (hde.add hcs)
  refine AlikeWhen.checkKeyword_bind fun b => AlikeWhen.ite (fun _ => ?_) fun _ => ?_
  · refine alike_advance.bind fun _ _ _ => ?_
    refine alike_restOfStatement.bind fun _ _ _ => ?_
    exact alike_endStatement.bind fun _ _ _ => .pure hde.setAutonumber
  refine AlikeWhen.checkWord_bind fun b => AlikeWhen.ite (fun hb => ?_) fun _ => ?_
  · refine AlikeWhen.assume (fun n c hc => kind_of_checked hc.1.1.1.1.2 hc.2 hb) fun ht => ?_
    rw [htext ht]
    exact (alike_activation _).bind fun c d hcd => .pure (hde.add (by rw [hcd]))
  refine AlikeWhen.checkWord_bind fun b => AlikeWhen.ite (fun hb => ?_) fun _ => ?_
  · exact alike_note.bind fun c d hcd => .pure (hde.add (by simpa using hcd))
  · exact alike_message.bind fun c d hcd => .pure (hde.add (by simpa using hcd))

theorem statement_newline (d : Draft) (past : List Token) (u : Token) (us : List Token)
    (final : Token) (hu : u.kind = .newline) :
    statement d ⟨past, u :: us, final⟩ = .ok (d, ⟨u :: past, us, final⟩) := by
  simp [statement, bind_apply, accept_cons, Except.bind, hu, pure_apply]

theorem alike_statement (hde : d.Same e) :
    AlikeWhen P (fun _ c => c.rest ≠ []) Draft.Same (statement d) (statement e) := by
  refine AlikeWhen.accept_bind_of_cons (fun _ _ hc => hc) (fun _ _ _ _ => .pure hde) ?_
  simp only [Option.isSome_none, Bool.false_eq_true, if_false]
  refine AlikeWhen.checkKeyword_bind fun b => AlikeWhen.ite (fun _ => ?_) fun _ => ?_
  · rw [← hde.isEmpty_eq]
    refine AlikeWhen.ite (fun _ => alike_fail) fun _ => ?_
    refine alike_advance.bind fun _ _ _ => ?_
    exact alike_endStatement.bind fun _ _ _ => .pure hde.closeBlock
  refine AlikeWhen.checkKeyword_bind fun b => AlikeWhen.ite (fun hb => ?_) fun _ => ?_
  · refine AlikeWhen.bind (alike_branchLine hde.opened_eq fun n c hc => ?_) fun label _ hlabel =>
      hlabel ▸ .pure (hde.branch label)
    exact inner_of_isWord (hc.2 hb)
  refine alike_blockKind.bind fun kind _ hkind => hkind ▸ ?_
  cases kind with
  | none => exact alike_line hde
  | some kind => exact (alike_blockHead kind).bind fun _ _ hhead => .pure (hde.openBlock hhead)

/-- Reading a sequence diagram does not depend on places: rows that are alike give diagrams that are
the `Same`. -/
theorem alike_read : Alike P SequenceDiagram.Same read read := by
  refine alike_skipNewlines_bind ?_
  refine alike_expectWord.bind fun _ _ _ => ?_
  refine alike_endStatement.bind fun _ _ _ => ?_
  refine (alike_untilEnd (fun _ _ => alike_statement) statement_newline rfl).bind fun d e hde => ?_
  have hopened := hde.opened_eq
  cases hd : d.opened with
  | nil =>
    rw [hd] at hopened
    rw [List.map_eq_nil_iff.1 hopened.symm]
    refine .pure ?_
    simp only [Draft.Same, Draft.unplaced, Draft.mk.injEq] at hde
    simp only [SequenceDiagram.Same, SequenceDiagram.unplaced, Statement.unplacedList_eq_map,
      SequenceDiagram.mk.injEq]
    exact ⟨hde.1, hde.2.1, hde.2.2.1⟩
  | cons b bs =>
    rw [hd] at hopened
    obtain ⟨c, cs, he, hcb, -⟩ := List.map_eq_cons_iff.1 hopened.symm
    rw [he]
    exact AlikeWhen.peek_bind fun t u htu => alike_failAt rfl (.some htu.start)

end Sequence
end DiagramText
