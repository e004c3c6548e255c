import DiagramText.Proofs.Reading.Alike
import DiagramText.States.Reader

/-!
# Reading state diagrams does not depend on places

* `States.alike_read`: alike rows of tokens are read as diagrams that are equal without positions.
-/

namespace DiagramText

/-- Two state diagrams are equal without positions, which is how `alike_read` compares what it
reads. -/
def StateDiagram.Same (d e : StateDiagram) : Prop := d.unplaced = e.unplaced

namespace States

open Reading

/-! ### States without positions -/

/-- A scope `s` without positions. Notes have none. -/
def Scope.unplaced (s : Scope State) : Scope State :=
  ⟨State.unplacedList s.states, s.transitions.map Transition.unplaced, s.notes⟩

namespace State

theorem unplacedList_append (ss ts : List State) :
    unplacedList (ss ++ ts) = unplacedList ss ++ unplacedList ts := by
  induction ss with
  | nil => rfl
  | cons s ss ih => rw [List.cons_append, unplacedList, unplacedList, ih, List.cons_append]

theorem unplacedScopes_eq_map (rs : List (Scope State)) :
    unplacedScopes rs = rs.map Scope.unplaced := by
  induction rs with
  | nil => rfl
  | cons r rs ih => rw [unplacedScopes, ih, List.map_cons]; rfl

mutual

theorem find?_unplaced (id : String) : ∀ s : State,
    s.unplaced.find? id = (s.find? id).map unplaced
  | ⟨i, label, kind, children, transitions, notes, direction, regions, position⟩ => by
    rw [unplaced, find?, find?, findChildren?_unplaced id children,
      findScopes?_unplaced id regions]
    by_cases h : i = id
    · rw [if_pos h, if_pos h]
      rfl
    · rw [if_neg h, if_neg h, Option.map_or]

theorem findChildren?_unplaced (id : String) : ∀ c : Option (List State),
    findChildren? id (unplacedChildren c) = (findChildren? id c).map unplaced
  | none => rfl
  | some ss => findList?_unplaced id ss

theorem findList?_unplaced (id : String) : ∀ ss : List State,
    findList? id (unplacedList ss) = (findList? id ss).map unplaced
  | [] => rfl
  | s :: ss => by
    rw [unplacedList, findList?, findList?, find?_unplaced id s, findList?_unplaced id ss,
      Option.map_or]

theorem findScopes?_unplaced (id : String) : ∀ rs : List (Scope State),
    findScopes? id (unplacedScopes rs) = (findScopes? id rs).map unplaced
  | [] => rfl
  | ⟨states, _, _⟩ :: rs => by
    rw [unplacedScopes, findScopes?, findScopes?, findList?_unplaced id states,
      findScopes?_unplaced id rs, Option.map_or]

end

mutual

theorem unplaced_modify (id : String) {f g : State → State}
    (hfg : ∀ s, (f s).unplaced = g s.unplaced) :
    ∀ s : State, (s.modify id f).unplaced = s.unplaced.modify id g
  | ⟨i, label, kind, children, transitions, notes, direction, regions, position⟩ => by
    rw [unplaced, modify, modify]
    by_cases h : i = id
    · rw [if_pos h, if_pos h, hfg]
      rfl
    · rw [if_neg h, if_neg h, unplaced, unplaced_modifyChildren id hfg children,
        unplaced_modifyScopes id hfg regions]

theorem unplaced_modifyChildren (id : String) {f g : State → State}
    (hfg : ∀ s, (f s).unplaced = g s.unplaced) : ∀ c : Option (List State),
    unplacedChildren (modifyChildren id f c) = modifyChildren id g (unplacedChildren c)
  | none => rfl
  | some ss => congrArg some (unplaced_modifyList id hfg ss)

theorem unplaced_modifyList (id : String) {f g : State → State}
    (hfg : ∀ s, (f s).unplaced = g s.unplaced) : ∀ ss : List State,
    unplacedList (modifyList id f ss) = modifyList id g (unplacedList ss)
  | [] => rfl
  | s :: ss => by
    rw [modifyList, unplacedList, unplacedList, modifyList, unplaced_modify id hfg s,
      unplaced_modifyList id hfg ss]

theorem unplaced_modifyScopes (id : String) {f g : State → State}
    (hfg : ∀ s, (f s).unplaced = g s.unplaced) : ∀ rs : List (Scope State),
    unplacedScopes (modifyScopes id f rs) = modifyScopes id g (unplacedScopes rs)
  | [] => rfl
  | ⟨states, _, _⟩ :: rs => by
    rw [modifyScopes, unplacedScopes, unplacedScopes, modifyScopes,
      unplaced_modifyList id hfg states, unplaced_modifyScopes id hfg rs]

end

theorem unplaced_ownScope (s : State) : s.unplaced.ownScope = s.ownScope.unplaced := by
  obtain ⟨i, label, kind, children, transitions, notes, direction, regions, position⟩ := s
  cases children <;> rfl

theorem length_regions_unplaced (s : State) : s.unplaced.regions.length = s.regions.length := by
  obtain ⟨i, label, kind, children, transitions, notes, direction, regions, position⟩ := s
  rw [unplaced, unplacedScopes_eq_map, List.length_map]

theorem unplaced_modifyRegion (region : Nat) {f g : Scope State → Scope State}
    (hfg : ∀ s, (f s).unplaced = g s.unplaced) (s : State) :
    (s.modifyRegion region f).unplaced = s.unplaced.modifyRegion region g := by
  cases region with
  -- The first region is made of the state's own fields.
  | zero =>
    have h := hfg s.ownScope
    rw [← unplaced_ownScope] at h
    obtain ⟨i, label, kind, children, transitions, notes, direction, regions, position⟩ := s
    simp only [modifyRegion, ← h]
    rfl
  | succ n =>
    obtain ⟨i, label, kind, children, transitions, notes, direction, regions, position⟩ := s
    simp only [modifyRegion, unplaced, unplacedScopes_eq_map]
    congr 1
    apply List.ext_getElem?
    intro k
    simp only [List.getElem?_map, List.getElem?_modify]
    cases regions[k]? with
    | none => rfl
    | some r =>
      by_cases hk : n = k
      · simp only [hk, if_true]
        exact congrArg some (hfg r)
      · simp only [hk, if_false]
        rfl

end State

namespace Draft

/-- The part `d` of a state diagram without positions: that of its outermost scope, for open scopes
have none. -/
def unplaced (d : Draft) : Draft := { d with scope := d.scope.unplaced }

/-- The drafts `d` and `e` are equal without positions. -/
def Same (d e : Draft) : Prop := d.unplaced = e.unplaced

theorem state?_unplaced (d : Draft) (id : String) :
    d.unplaced.state? id = (d.state? id).map State.unplaced :=
  State.findList?_unplaced id d.scope.states

theorem unplaced_modify (d : Draft) (id : String) {f g : State → State}
    (hfg : ∀ s, (f s).unplaced = g s.unplaced) :
    (d.modify id f).unplaced = d.unplaced.modify id g := by
  simp only [modify, unplaced, Scope.unplaced, State.unplaced_modifyList id hfg]

theorem unplaced_modifyScope (d : Draft) {f g : Scope State → Scope State}
    (hfg : ∀ s, (f s).unplaced = g s.unplaced) :
    (d.modifyScope f).unplaced = d.unplaced.modifyScope g := by
  obtain ⟨version, direction, scope, opened⟩ := d
  cases opened with
  | nil => simp only [modifyScope, unplaced, hfg]
  | cons s outer => exact unplaced_modify _ _ (State.unplaced_modifyRegion _ hfg)

variable {d e : Draft}

theorem Same.state? (h : d.Same e) (id : String) :
    (d.state? id).map State.unplaced = (e.state? id).map State.unplaced := by
  rw [← state?_unplaced, h, state?_unplaced]

theorem Same.isSome_state? (h : d.Same e) (id : String) :
    (d.state? id).isSome = (e.state? id).isSome := by
  simpa only [Option.isSome_map] using congrArg Option.isSome (h.state? id)

theorem Same.modify (h : d.Same e) (id : String) {f : State → State}
    (hf : ∀ s, (f s).unplaced = f s.unplaced) : (d.modify id f).Same (e.modify id f) := by
  rw [Same, unplaced_modify d id hf, unplaced_modify e id hf, h]

theorem Same.modifyScope (h : d.Same e) {f f' g : Scope State → Scope State}
    (hf : ∀ s, (f s).unplaced = g s.unplaced) (hf' : ∀ s, (f' s).unplaced = g s.unplaced) :
    (d.modifyScope f).Same (e.modifyScope f') := by
  rw [Same, unplaced_modifyScope d hf, unplaced_modifyScope e hf', h]

theorem Same.opened_eq (h : d.Same e) : d.opened = e.opened := by
  have ho : d.unplaced.opened = e.unplaced.opened := congrArg opened h
  exact ho

theorem Same.setOpened (h : d.Same e) (opened : List OpenScope) :
    Same { d with opened } { e with opened } := by
  simp only [Same, unplaced, mk.injEq, and_true] at h ⊢
  exact ⟨h.1, h.2.1, h.2.2.1⟩

theorem Same.mention (h : d.Same e) {t u : Token} (htu : t.text = u.text) :
    (d.mention t).Same (e.mention u) := by
  unfold Draft.mention
  rw [← htu, ← h.isSome_state?]
  split
  · exact h
  · refine h.modifyScope (g := fun s => { s with states := s.states ++ [{ id := t.text }] }) ?_ ?_
    all_goals
      intro s
      simp only [Scope.unplaced, State.unplacedList_append]
      rfl

theorem Same.openScope (h : d.Same e) (id : String) :
    (d.openScope id).Same (e.openScope id) := by
  have hm := h.modify id (f := fun s => { s with children := some (s.children.getD []) })
    fun ⟨_, _, _, children, _, _, _, _, _⟩ => by cases children <;> rfl
  have ho := hm.setOpened (⟨id, 0⟩ :: d.opened)
  rw [Draft.openScope, Draft.openScope]
  exact h.opened_eq ▸ ho

theorem Same.closeScope (h : d.Same e) : d.closeScope.Same e.closeScope := by
  rw [Draft.closeScope, Draft.closeScope, ← h.opened_eq]
  exact h.setOpened _

theorem Same.nextRegion (h : d.Same e) : d.nextRegion.Same e.nextRegion := by
  unfold Draft.nextRegion
  rw [← h.opened_eq]
  cases d.opened with
  | nil => exact h
  | cons s outer =>
    have hcount : (d.state? s.owner).map (·.regions.length) =
        (e.state? s.owner).map (·.regions.length) := by
      have hs := congrArg (Option.map (·.regions.length)) (h.state? s.owner)
      simpa only [Option.map_map, Function.comp_def, State.length_regions_unplaced] using hs
    dsimp only
    rw [← hcount]
    refine (h.modify s.owner fun t => ?_).setOpened _
    obtain ⟨i, label, kind, children, transitions, notes, direction, regions, position⟩ := t
    simp [State.unplaced, State.unplacedScopes_eq_map, Scope.unplaced, State.unplacedList]

theorem Same.setDirection (h : d.Same e) (x : Direction) :
    (d.setDirection x).Same (e.setDirection x) := by
  unfold Draft.setDirection
  rw [← h.opened_eq]
  cases d.opened with
  | nil =>
    simp only [Same, unplaced, mk.injEq] at h ⊢
    exact ⟨h.1, trivial, h.2.2.1, trivial⟩
  | cons s outer => exact h.modify _ fun ⟨_, _, _, _, _, _, _, _, _⟩ => rfl

end Draft

variable {P : Position → Position → Prop} {pre : Nat → Cursor → Prop} {d e : Draft}
  {t u : Token}

/-! ### Statements -/

/-- Drafts that are equal without positions, each with the same text. This is what a mention of a
state gives. -/
def SameRef (x y : Draft × String) : Prop := x.1.Same y.1 ∧ x.2 = y.2

theorem alike_stateRef (hde : d.Same e) :
    AlikeWhen P pre SameRef (stateRef d) (stateRef e) :=
  (alike_expect (by decide)).bind fun _ _ htu => .pure ⟨hde.mention htu.text, htu.text⟩

theorem alike_description (hde : d.Same e) (id : String) :
    AlikeWhen P pre Draft.Same (description d id) (description e id) := by
  refine (alike_accept (by decide)).bind fun _ _ h => ?_
  cases h with
  | none => exact .pure hde
  | some _ =>
    refine (alike_expect (by decide)).bind fun t u htu => ?_
    rw [htu.text]
    refine (alike_content _).bind fun label _ hlabel => hlabel ▸ .pure ?_
    exact hde.modify _ fun ⟨_, _, _, _, _, _, _, _, _⟩ => rfl

theorem alike_stateKind (hde : d.Same e) (id : String) :
    AlikeWhen P pre Draft.Same (stateKind d id) (stateKind e id) := by
  refine (alike_accept (by decide)).bind fun _ _ h => ?_
  cases h with
  | none => exact .pure hde
  | some _ =>
    refine (alike_expect (by decide)).bind fun t u htu => ?_
    rw [← htu.text]
    split
    · exact alike_unexpected htu.start
    · refine (alike_expect (by decide)).bind fun _ _ _ => .pure ?_
      exact hde.modify _ fun ⟨_, _, _, _, _, _, _, _, _⟩ => rfl

theorem alike_quotedLabel : AlikeWhen P pre Eq quotedLabel quotedLabel := by
  refine (alike_accept (by decide)).bind fun _ _ h => ?_
  cases h with
  | none => exact .pure rfl
  | some htu => exact alike_expectWord.bind fun _ _ _ => .pure (by rw [htu.text])

theorem alike_declaration (hde : d.Same e) :
    AlikeWhen P pre Draft.Same (declaration d) (declaration e) := by
  refine alike_advance.bind fun _ _ _ => ?_
  refine alike_quotedLabel.bind fun quoted _ hquoted => hquoted ▸ ?_
  refine (alike_stateRef hde).bind ?_
  rintro ⟨d, id⟩ ⟨e, _⟩ ⟨hde, rfl⟩
  -- what follows the id and its label
  have hend : ∀ {d e : Draft}, d.Same e → Alike P Draft.Same
      (do
        let d ← description (← stateKind d id) id
        let brace ← accept .leftBrace
        let d := if brace.isSome then d.openScope id else d
        endStatement
        return d)
      (do
        let d ← description (← stateKind e id) id
        let brace ← accept .leftBrace
        let d := if brace.isSome then d.openScope id else d
        endStatement
        return d) := by
    intro d e hde
    refine (alike_stateKind hde id).bind fun d e hde => ?_
    refine (alike_description hde id).bind fun d e hde => ?_
    refine (alike_accept (by decide)).bind fun _ _ h => ?_
    refine alike_endStatement.bind fun _ _ _ => .pure ?_
    cases h with
    | none => exact hde
    | some _ => exact hde.openScope id
  cases quoted with
  | none => exact hend hde
  | some text =>
    refine (alike_content text).bind fun label _ hlabel => hlabel ▸ hend ?_
    exact hde.modify id fun ⟨_, _, _, _, _, _, _, _, _⟩ => rfl

theorem alike_transitionEnd (hde : d.Same e) (pseudostate : String) :
    AlikeWhen P pre SameRef (transitionEnd d pseudostate) (transitionEnd e pseudostate) := by
  refine (alike_accept (by decide)).bind fun _ _ h => ?_
  cases h with
  | some _ => exact .pure ⟨hde, rfl⟩
  | none => exact alike_stateRef hde

theorem alike_transitionLabel : AlikeWhen P pre Eq transitionLabel transitionLabel :=
  alike_behindColon fun _ _ => alike_contentOf

theorem alike_transition (hde : d.Same e) :
    AlikeWhen P pre Draft.Same (transition d) (transition e) := by
  refine AlikeWhen.peek_bind fun first first' _ => ?_
  refine (alike_transitionEnd hde startId).bind ?_
  rintro ⟨d, source⟩ ⟨e, _⟩ ⟨hde, rfl⟩
  refine (alike_expect (by decide)).bind fun _ _ _ => ?_
  refine (alike_transitionEnd hde endId).bind ?_
  rintro ⟨d, target⟩ ⟨e, _⟩ ⟨hde, rfl⟩
  refine alike_transitionLabel.bind fun label _ hlabel => hlabel ▸ ?_
  refine alike_endStatement.bind fun _ _ _ => .pure ?_
  refine hde.modifyScope (g := fun s =>
    { s with transitions := s.transitions ++ [{ source, target, label }] }) ?_ ?_
  all_goals
    intro s
    simp only [Scope.unplaced, List.map_append]
    rfl

theorem alike_plainState (hde : d.Same e) :
    AlikeWhen P pre Draft.Same (plainState d) (plainState e) := by
  refine (alike_stateRef hde).bind ?_
  rintro ⟨d, id⟩ ⟨e, _⟩ ⟨hde, rfl⟩
  refine (alike_description hde id).bind fun d e hde => ?_
  exact alike_endStatement.bind fun _ _ _ => .pure hde

/-! ### Notes -/

/-- One round of reading the lines of a note, up to the words `end note`. -/
def noteRound (keyword : Token) (lines : List String) : Reading (List String ⊕ List String) := do
  if (← checkWord ["end"]) && (← ahead 1).isWord ["note"] then return .inr lines
  else if ← look Cursor.atEnd then
    failAt (.unterminated "note" (some keyword.start)) (some (← peek).start)
  else
    let line ← restOfStatement
    endStatement
    return .inl (lines ++ [line])

theorem noteLines_eq (keyword : Token) : noteLines keyword = loop (noteRound keyword) [] := rfl

/-- Where only further line breaks are left, a note does not end, whichever of its `lines` were
read. -/
theorem noteRound_newlines {e : Position} {n : Nat} {us past : List Token} {keyword final : Token}
    (h : Row.Alike P e n [] us) (hfinal : final.kind = .endOfInput) (lines : List String) :
    loop (noteRound keyword) lines ⟨past, us, final⟩ =
      .error (.malformed ⟨.unterminated "note" (some keyword.start), some final.start⟩) := by
  induction n generalizing us past lines with
  | zero =>
    rw [h.eq_nil_of_zero, loop_apply]
    simp [noteRound, bind_apply, checkWord_apply, ahead_apply, look_apply, peek_apply, failAt,
      Except.bind, Token.isWord, hfinal, Cursor.atEnd]
  | succ n ih =>
    cases h with
    | @extra _ u us kind start rest =>
      rw [loop_apply]
      simp [noteRound, bind_apply, map_apply, checkWord_apply, ahead_apply, look_apply, Except.bind,
        Token.isWord, kind, Cursor.atEnd, restOfStatement, rawUntil, move, Cursor.rawUntil,
        Cursor.span, endStatement_cons, TokenKind.endsStatement, ih rest]

theorem alike_noteLines (t u : Token) : AlikeWhen P pre Eq (noteLines t) (noteLines u) := by
  rw [noteLines_eq, noteLines_eq]
  refine Alike.when (alike_loop (T := Eq) ?_ ?_ rfl)
  · rintro lines _ rfl
    refine AlikeWhen.checkWord_bind fun b => AlikeWhen.ahead_bind fun second second' hsecond => ?_
    rw [← hsecond.isWord_eq]
    refine AlikeWhen.ite (fun _ => .pure (.inr rfl)) fun _ => ?_
    refine AlikeWhen.atEnd_bind (fun n c hc h => absurd h hc.1.1) fun b => ?_
    refine AlikeWhen.ite (fun _ => ?_) fun _ => ?_
    · exact AlikeWhen.peek_bind fun _ _ h => alike_failAt rfl (.some h.start)
    · refine alike_restOfStatement.bind fun line _ hline => hline ▸ ?_
      exact alike_endStatement.bind fun _ _ _ => .pure (.inl rfl)
  · rintro lines _ n ⟨past, rest, final⟩ ⟨past', rest', final'⟩ rfl hc hcd
    obtain rfl : rest = [] := hc
    have hfinal' : final'.kind = .endOfInput := hcd.final.kind ▸ hcd.isEnd
    rw [noteRound_newlines hcd.rest hfinal',
      noteRound_newlines (P := P) (e := .origin) .nil hcd.isEnd]
    exact .error (.malformed rfl (.some hcd.final.start))

theorem alike_noteText (t u : Token) : AlikeWhen P pre Eq (noteText t) (noteText u) := by
  refine (alike_accept (by decide)).bind fun _ _ h => ?_
  cases h with
  | some _ =>
    refine (alike_expect (by decide)).bind fun _ _ htu => ?_
    exact alike_endStatement.bind fun _ _ _ => .pure htu.text
  | none =>
    refine alike_endStatement.bind fun _ _ _ => ?_
    refine (alike_noteLines t u).bind fun lines _ hlines => hlines ▸ ?_
    refine alike_advance.bind fun _ _ _ => ?_
    refine alike_advance.bind fun _ _ _ => ?_
    exact alike_endStatement.bind fun _ _ _ => .pure rfl

theorem alike_note (hde : d.Same e) : AlikeWhen P pre Draft.Same (note d) (note e) := by
  refine alike_advance.bind fun keyword keyword' _ => ?_
  refine alike_advance.bind fun side side' hside => ?_
  refine alike_expectWord.bind fun _ _ _ => ?_
  refine (alike_stateRef hde).bind ?_
  rintro ⟨d, state⟩ ⟨e, _⟩ ⟨hde, rfl⟩
  refine (alike_noteText keyword keyword').bind fun text _ htext => htext ▸ ?_
  refine (alike_content text).bind fun label _ hlabel => hlabel ▸ .pure ?_
  rw [← hside.isWord_eq]
  dsimp only
  generalize (if side.isWord ["left"] then NotePlacement.leftOf else .rightOf) = placement
  exact hde.modifyScope (g := fun s => { s with notes := s.notes ++ [⟨state, placement, label⟩] })
    (fun _ => rfl) fun _ => rfl

/-! ### The diagram -/

theorem statement_newline (d : Draft) (past : List Token) (u : Token) (us : List Token)
    (final : Token) (hu : u.kind = .newline) :
    statement d ⟨past, u :: us, final⟩ = .ok (d, ⟨u :: past, us, final⟩) := by
  simp [statement, bind_apply, peek_apply, ahead_apply, check_apply, Except.bind, hu, map_apply,
    advance_cons]

theorem alike_statement (hde : d.Same e) :
    AlikeWhen P (fun _ c => c.rest ≠ []) Draft.Same (statement d) (statement e) := by
  refine AlikeWhen.peek_bind_of_cons (fun _ _ hc => hc) fun t u htu => ?_
  refine AlikeWhen.ahead_bind fun second second' hsecond => ?_
  refine AlikeWhen.check_bind_of_cons (fun _ _ hc => hc.1.1) fun b =>
    AlikeWhen.ite (fun _ => ?_) fun _ => ?_
  · exact alike_advance.bind fun _ _ _ => .pure hde
  simp only [← htu.isWord_eq, ← htu.kind, ← hsecond.isWord_eq, ← hde.opened_eq,
    ← hsecond.kind_eq (fun k => decide (k = .identifier)) rfl,
    ← hsecond.kind_eq (fun k => decide (k = .string)) rfl,
    ← hsecond.kind_eq (fun k => decide (k = .transition)) rfl]
  refine AlikeWhen.ite (fun _ => ?_) fun _ => AlikeWhen.ite (fun _ => alike_declaration hde)
    fun _ => AlikeWhen.ite (fun _ => alike_note hde) fun _ => AlikeWhen.ite (fun h => ?_) fun _ =>
      AlikeWhen.ite (fun _ => ?_) fun _ => AlikeWhen.ite (fun _ => alike_transition hde) fun _ =>
        AlikeWhen.ite (fun _ => alike_plainState hde) fun _ => alike_fail
  · refine AlikeWhen.ite (fun _ => alike_fail) fun _ => alike_advance.bind fun _ _ _ => ?_
    exact alike_endStatement.bind fun _ _ _ => .pure hde.closeScope
  · refine AlikeWhen.advance_bind_of_ahead (by decide)
      (fun n c hc => hc.1.2 ▸ of_decide_eq_true (Bool.and_eq_true_iff.1 h).2) fun _ _ _ => ?_
    refine (alike_takeDirection fun _ _ hc => by rw [hc]; decide).bind fun x _ hx => hx ▸ ?_
    exact alike_endStatement.bind fun _ _ _ => .pure (hde.setDirection _)
  · refine AlikeWhen.ite (fun _ => alike_fail) fun _ => alike_advance.bind fun _ _ _ => ?_
    exact alike_endStatement.bind fun _ _ _ => .pure hde.nextRegion

theorem alike_header : AlikeWhen P pre Eq header header := by
  refine alike_skipNewlines_bind ?_
  refine (alike_expect (by decide)).bind fun t u htu => ?_
  rw [← htu.text]
  split
  · exact alike_endStatement.bind fun _ _ _ => .pure rfl
  · exact alike_endStatement.bind fun _ _ _ => .pure rfl
  · refine (alike_unexpected htu.start).bind (S := Eq) fun _ _ h => h ▸ ?_
    exact alike_endStatement.bind fun _ _ _ => .pure rfl

/-- Reading a state diagram does not depend on places: alike rows give equal diagrams, up to
positions, or errors of one kind. -/
theorem alike_read : Alike P StateDiagram.Same read read := by
  refine alike_header.bind fun d _ hd => hd ▸ ?_
  refine (alike_untilEnd (fun _ _ => alike_statement) statement_newline rfl).bind fun d e hde => ?_
  rw [← hde.opened_eq]
  cases d.opened with
  | nil =>
    refine .pure ?_
    simp only [Draft.Same, Draft.unplaced, Draft.mk.injEq] at hde
    simp only [StateDiagram.Same, StateDiagram.unplaced, StateDiagram.mk.injEq]
    exact ⟨hde.1, hde.2.1, hde.2.2.1⟩
  | cons s ss => exact AlikeWhen.peek_bind fun t u htu => alike_failAt rfl (.some htu.start)

end States
end DiagramText
