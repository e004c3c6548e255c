import DiagramText.Proofs.Reading.Ensures
import DiagramText.Proofs.Sequence.Blocks
import DiagramText.Program

/-!
# Sequence diagrams are read as the grammar of blocks says

A line is read whatever blocks are open, and then either fits them or not. So reading a diagram is
reading its lines and nesting them.

* `Sequence.Draft.take?`: what becomes of a draft with a line.
* `Sequence.parses_statement`: a statement is read as a line that fits.
* `Sequence.read_iff_body`: a diagram is read exactly when its lines are nested, as the tree that
  the grammar of blocks derives from them.
-/

namespace DiagramText.Sequence

open Reading

/-! ### Lines and drafts -/

namespace Draft

/-- The kinds of the blocks that are open in a draft `d`, the innermost first. -/
def kinds (d : Draft) : List BlockKind := d.opened.map (·.head.kind)

/-- What becomes of a draft `d` with a line, if the line fits the blocks that are open. Without
fitting it is refused. -/
def take? (d : Draft) : Line → Option Draft
  | .blank => some d
  | .number => some { d with autonumber := true }
  | .clauses cs => some (d.add cs)
  | .opening head => some (d.openBlock head)
  | .branch word label =>
    if d.kinds.head?.bind BlockKind.branchKeyword? = some word then some (d.branch label) else none
  | .closing => if d.kinds = [] then none else some d.closeBlock

theorem kinds_extend (d : Draft) (ss : List Statement) : (d.extend ss).kinds = d.kinds := by
  obtain ⟨statements, autonumber, participants, opened⟩ := d
  cases opened with
  | nil => rfl
  | cons b outer =>
    rw [extend_of_opened rfl, kinds, kinds, OpenBlock.extend]
    split <;> rfl

theorem kinds_add (d : Draft) (cs : List Clause) : (d.add cs).kinds = d.kinds :=
  kinds_extend _ _

theorem kinds_openBlock (d : Draft) (head : Block) :
    (d.openBlock head).kinds = head.kind :: d.kinds := rfl

theorem kinds_branch (d : Draft) (label : Option String) : (d.branch label).kinds = d.kinds := by
  obtain ⟨statements, autonumber, participants, opened⟩ := d
  cases opened with
  | nil => rfl
  | cons b outer => rfl

theorem kinds_closeBlock (d : Draft) : d.closeBlock.kinds = d.kinds.tail := by
  obtain ⟨statements, autonumber, participants, opened⟩ := d
  cases opened with
  | nil => rfl
  | cons b outer => exact kinds_extend _ _

/-- The lines `ls` behind a line have to fit the blocks that are open behind it. -/
theorem nested_cons_iff {d : Draft} {l : Line} {ls : List Line} :
    Nested d.kinds (l :: ls) ↔ ∃ d', d.take? l = some d' ∧ Nested d'.kinds ls := by
  constructor
  -- What fits in the kinds of blocks that are open in the draft is taken.
  · intro h
    generalize hkinds : d.kinds = kinds at h
    cases h with
    | blank h => exact ⟨d, rfl, hkinds ▸ h⟩
    | number h => exact ⟨_, rfl, hkinds ▸ h⟩
    | clauses cs h => exact ⟨d.add cs, rfl, by rwa [kinds_add, hkinds]⟩
    | @opening _ _ head h => exact ⟨d.openBlock head, rfl, by rwa [kinds_openBlock, hkinds]⟩
    | @branch _ _ _ _ label hword h =>
      exact ⟨d.branch label, if_pos (by rwa [hkinds]), by rwa [kinds_branch, hkinds]⟩
    | closing h =>
      exact ⟨d.closeBlock, if_neg (by rw [hkinds]; exact List.cons_ne_nil _ _),
        by rwa [kinds_closeBlock, hkinds]⟩
  -- What is taken fits, since the conditions for it are the same.
  · rintro ⟨d', htake, h⟩
    cases l with
    | blank => cases htake; exact .blank h
    | number => cases htake; exact .number h
    | clauses cs =>
      cases htake
      rw [kinds_add] at h
      exact .clauses cs h
    | opening head =>
      cases htake
      rw [kinds_openBlock] at h
      exact .opening h
    | branch word label =>
      obtain ⟨hword, htake⟩ := Option.ite_none_right_eq_some.1 htake
      cases htake
      rw [kinds_branch] at h
      cases hkinds : d.kinds with
      | nil =>
        rw [hkinds] at hword
        cases hword
      | cons kind kinds =>
        rw [hkinds] at hword h
        exact .branch hword h
    | closing =>
      obtain ⟨hopened, htake⟩ := Option.ite_none_left_eq_some.1 htake
      cases htake
      rw [kinds_closeBlock] at h
      cases hkinds : d.kinds with
      | nil => exact absurd hkinds hopened
      | cons kind kinds =>
        rw [hkinds] at h
        exact .closing h

/-- Lines `ls` are taken one behind the other, with all blocks closed at the end, if and only if
they are nested. -/
theorem nested_iff {d : Draft} {ls : List Line} :
    Nested d.kinds ls ↔ ∃ d', ls.foldlM take? d = some d' ∧ d'.opened = [] := by
  induction ls generalizing d with
  | nil =>
    -- At the end of the lines both sides say that no block is open.
    have hnil : Nested d.kinds [] ↔ d.opened = [] := by
      constructor
      · intro h
        generalize hkinds : d.kinds = kinds at h
        cases h
        exact List.map_eq_nil_iff.1 hkinds
      · intro h
        rw [kinds, h]
        exact .nil
    rw [hnil]
    exact ⟨fun h => ⟨d, rfl, h⟩, fun ⟨_, hd, h⟩ => by cases hd; exact h⟩
  | cons l ls ih =>
    rw [nested_cons_iff]
    constructor
    · rintro ⟨d', htake, h⟩
      obtain ⟨d'', hfold, hopened⟩ := ih.1 h
      exact ⟨d'', by rw [List.foldlM_cons, htake]; exact hfold, hopened⟩
    · rintro ⟨d'', hfold, hopened⟩
      rw [List.foldlM_cons] at hfold
      obtain ⟨d', htake, hfold⟩ := Option.bind_eq_some_iff.1 hfold
      exact ⟨d', htake, ih.2 ⟨d'', hfold, hopened⟩⟩

/-! ### What the lines make up -/

/-- The statements that have been read, closed or open, without what is kept beside them. -/
def tree (d : Draft) : Draft := { d with autonumber := false, participants := [] }

theorem tree_extend (d : Draft) (ss : List Statement) : (d.extend ss).tree = d.tree.extend ss := by
  obtain ⟨statements, autonumber, participants, opened⟩ := d
  cases opened <;> rfl

/-- A line `l` that is taken adds its entries, whatever else it does to the draft. -/
theorem tree_take {d d' : Draft} {l : Line} (h : d.take? l = some d') :
    d'.tree = l.entries.foldl put d.tree := by
  cases l with
  | blank => cases h; rfl
  | number => cases h; rfl
  | clauses cs =>
    cases h
    rw [Line.entries, foldl_put_clauses, add, tree_extend]
    rfl
  | opening head => cases h; rfl
  | branch word label =>
    obtain ⟨-, h⟩ := Option.ite_none_right_eq_some.1 h
    cases h
    obtain ⟨statements, autonumber, participants, opened⟩ := d
    cases opened <;> rfl
  | closing =>
    obtain ⟨-, h⟩ := Option.ite_none_left_eq_some.1 h
    cases h
    obtain ⟨statements, autonumber, participants, opened⟩ := d
    cases opened with
    | nil => rfl
    | cons b outer => exact tree_extend _ _

theorem tree_foldlM {d d' : Draft} {ls : List Line} (h : ls.foldlM take? d = some d') :
    d'.tree = (ls.flatMap Line.entries).foldl put d.tree := by
  induction ls generalizing d with
  | nil => cases h; rfl
  | cons l ls ih =>
    rw [List.foldlM_cons] at h
    obtain ⟨d₁, htake, h⟩ := Option.bind_eq_some_iff.1 h
    rw [ih h, tree_take htake, List.flatMap_cons, List.foldl_append]

/-- Lines that are taken make up the one tree `ss` that has their entries in their order. -/
theorem eq_statements {d : Draft} {ls : List Line} (h : ls.foldlM take? {} = some d)
    {ss : List Statement} (hss : Statement.entriesList ss = ls.flatMap Line.entries) :
    ss = d.statements := by
  have htree := tree_foldlM h
  rw [← hss, foldl_put_entriesList] at htree
  exact (congrArg statements htree).symm

theorem body_iff {d : Draft} {ls : List Line} (h : ls.foldlM take? {} = some d)
    (hopened : d.opened = []) {ss : List Statement} : Body ls ss ↔ ss = d.statements := by
  constructor
  · intro hbody
    exact eq_statements h hbody.entriesList_eq
  · rintro rfl
    have hnested : Nested (kinds {}) ls := nested_iff.2 ⟨d, h, hopened⟩
    obtain ⟨ss, hbody⟩ := nested_nil_iff.1 hnested
    rwa [← eq_statements h hbody.entriesList_eq]

theorem autonumber_extend (d : Draft) (ss : List Statement) :
    (d.extend ss).autonumber = d.autonumber := by
  rw [extend]
  split <;> rfl

theorem autonumber_take {d d' : Draft} {l : Line} (h : d.take? l = some d') :
    d'.autonumber = true ↔ d.autonumber = true ∨ .number = l := by
  cases l with
  | blank => cases h; simp
  | number => cases h; simp
  | clauses cs => cases h; simp [add, autonumber_extend]
  | opening head => cases h; simp [openBlock]
  | branch word label =>
    obtain ⟨-, h⟩ := Option.ite_none_right_eq_some.1 h
    cases h
    rw [branch]
    split <;> simp
  | closing =>
    obtain ⟨-, h⟩ := Option.ite_none_left_eq_some.1 h
    cases h
    rw [closeBlock]
    split <;> simp [autonumber_extend]

/-- Messages are numbered behind the lines `ls` if one of them asks for it, or if they were
before. -/
theorem autonumber_foldlM {d d' : Draft} {ls : List Line} (h : ls.foldlM take? d = some d') :
    d'.autonumber = true ↔ d.autonumber = true ∨ .number ∈ ls := by
  induction ls generalizing d with
  | nil => cases h; simp
  | cons l ls ih =>
    rw [List.foldlM_cons] at h
    obtain ⟨d₁, htake, h⟩ := Option.bind_eq_some_iff.1 h
    rw [ih h, autonumber_take htake, List.mem_cons, or_assoc]

end Draft

/-! ### Reading with and without blocks -/

section Follows

variable {α β γ : Type} {step : α → Option β} {c : Cursor}

/-- The reading `y` succeeds where `x` does and what `x` reads leads on by `step`. -/
def Follows (step : α → Option β) (x : Reading α) (y : Reading β) (c : Cursor) : Prop :=
  ∀ b c', y c = .ok (b, c') ↔ ∃ a, x c = .ok (a, c') ∧ step a = some b

theorem Follows.pure {a : α} {b : β} (h : step a = some b) :
    Follows step (pure a) (pure b) c := by
  intro b' c'
  constructor
  · intro hy
    cases hy
    exact ⟨a, rfl, h⟩
  · rintro ⟨a', hx, ha⟩
    cases hx
    rw [h] at ha
    cases ha
    rfl

theorem Follows.bind {x : Reading γ} {f : γ → Reading α} {g : γ → Reading β}
    (h : ∀ e c', x c = .ok (e, c') → Follows step (f e) (g e) c') :
    Follows step (x >>= f) (x >>= g) c := by
  intro b c'
  rw [bind_apply, bind_apply]
  cases hx : x c with
  | error e => exact ⟨nofun, nofun⟩
  | ok r => exact h r.1 r.2 hx b c'

theorem Follows.ite {p : Prop} [Decidable p] {x x' : Reading α} {y y' : Reading β}
    (h : p → Follows step x y c) (h' : ¬p → Follows step x' y' c) :
    Follows step (if p then x else x') (if p then y else y') c := by
  split
  · next hp => exact h hp
  · next hp => exact h' hp

/-- A reading `x` that fails follows one that reads only what leads nowhere, so that both refuse the
line. -/
theorem Follows.refuse {x : Reading α} {y : Reading β} (hy : ∀ r, y c ≠ .ok r)
    (hx : Ensures (· = c) x fun a _ => step a = none) : Follows step x y c := by
  intro b c'
  constructor
  · intro h
    exact absurd h (hy _)
  · rintro ⟨a, ha, hstep⟩
    rw [hx c a c' rfl ha] at hstep
    cases hstep

theorem Follows.parses {final : Token} {x : Reading α} {y : Reading β} {G : Grammar α}
    (hx : Parses final x G) (h : ∀ c, Follows step x y c) :
    Parses final y fun ts b us => ∃ a, G ts a us ∧ step a = some b := by
  constructor
  · intro past ts b c hy
    obtain ⟨a, ha, hstep⟩ := (h _ b c).1 hy
    obtain ⟨hfinal, hg⟩ := hx.sound past ts a c ha
    exact ⟨hfinal, a, hg, hstep⟩
  · rintro past ts b us ⟨a, hg, hstep⟩
    obtain ⟨past', ha⟩ := hx.complete past ts a us hg
    exact ⟨past', (h _ _ _).2 ⟨a, ha, hstep⟩⟩

end Follows

theorem follows_line (d : Draft) (c : Cursor) : Follows d.take? readPlainLine (line d) c := by
  unfold readPlainLine line
  refine .bind fun first _ _ => .bind fun second _ _ => .bind fun _ _ _ => .ite ?_ fun _ =>
    .bind fun _ _ _ => .ite ?_ fun _ => .bind fun _ _ _ => .ite ?_ fun _ => .bind fun _ _ _ =>
      .ite ?_ fun _ => ?_
  · exact fun _ => .bind fun cs _ _ => .pure rfl
  · exact fun _ => .bind fun _ _ _ => .bind fun _ _ _ => .bind fun _ _ _ => .pure rfl
  · exact fun _ => .bind fun c _ _ => .pure rfl
  · exact fun _ => .bind fun c _ _ => .pure rfl
  · exact .bind fun c _ _ => .pure rfl

/-- The line of a branch is read up to its end if its word is the one of the innermost block. The
check of the word then lets it pass. -/
theorem branchLine_of_word {opened : List OpenBlock} {c : Cursor}
    (h : (opened.head?.map (·.head.kind)).bind BlockKind.branchKeyword? =
      some (Text.lower c.peek.text)) : branchLine opened c =
        (advance >>= fun _ => label >>= fun l => endStatement >>= fun _ => pure l) c := by
  cases opened with
  | nil => cases h
  | cons b outer =>
    have hb : b.head.kind.branchKeyword? = some (Text.lower c.peek.text) := h
    rw [branchLine, bind_apply, peek_apply]
    show (ite _ _ _ : Reading _) c = _
    rw [if_pos hb]

theorem branchLine_ne_ok {opened : List OpenBlock} {c : Cursor}
    (h : ¬(opened.head?.map (·.head.kind)).bind BlockKind.branchKeyword? =
      some (Text.lower c.peek.text)) (r : Option String × Cursor) :
    branchLine opened c ≠ .ok r := by
  intro hr
  cases opened with
  | nil => cases hr
  | cons b outer =>
    have hb : ¬b.head.kind.branchKeyword? = some (Text.lower c.peek.text) := h
    rw [branchLine, bind_apply, peek_apply] at hr
    change (ite _ _ _ : Reading _) c = _ at hr
    rw [if_neg hb] at hr
    cases hr

theorem follows_branchLine (d : Draft) (c : Cursor) : Follows d.take?
    (advance >>= fun keyword => label >>= fun l => endStatement >>= fun _ =>
      pure (.branch (Text.lower keyword.text) l))
    (branchLine d.opened >>= fun l => pure (d.branch l)) c := by
  have hkeyword : ∀ t c', advance c = .ok (t, c') → t = c.peek := by
    intro t c' h
    obtain ⟨past, rest, final⟩ := c
    cases rest <;> cases h <;> rfl
  have hkinds : d.kinds.head? = d.opened.head?.map (·.head.kind) := List.head?_map
  -- the word is that of the innermost block, or the line is refused by both
  by_cases hword : d.kinds.head?.bind BlockKind.branchKeyword? = some (Text.lower c.peek.text)
  · have hline : (branchLine d.opened >>= fun l => pure (d.branch l)) c =
        (advance >>= fun _ => label >>= fun l => endStatement >>= fun _ =>
          pure (d.branch l)) c := by
      rw [bind_apply, branchLine_of_word (hkinds ▸ hword)]
      show ((advance >>= fun _ => label >>= fun l => endStatement >>= fun _ => pure l) >>=
        fun l => pure (d.branch l) : Reading Draft) c = _
      simp only [bind_assoc, pure_bind]
    intro b c'
    rw [hline]
    refine Follows.bind (fun t c₁ ht => .bind fun label _ _ => .bind fun _ _ _ => .pure ?_) b c'
    rw [hkeyword t c₁ ht, Draft.take?, if_pos hword]
  · refine .refuse ?_ ?_
    · intro r h
      rw [bind_apply, Except.bind_eq_ok_iff] at h
      obtain ⟨r', hr', -⟩ := h
      exact branchLine_ne_ok (hkinds ▸ hword) r' hr'
    · refine .bind (Q := fun t _ => t = c.peek) ?_ fun t => .of_fact fun ht =>
        .bind .unknown fun _ => .bind .unknown fun _ => .pure fun _ _ => ?_
      · rintro _ t c' rfl h
        exact hkeyword t c' h
      · rw [ht, Draft.take?, if_neg hword]

theorem follows_endLine (d : Draft) (c : Cursor) : Follows d.take?
    (advance >>= fun _ => endStatement >>= fun _ => pure .closing)
    (if d.opened.isEmpty then fail "statement"
      else advance >>= fun _ => endStatement >>= fun _ => pure d.closeBlock) c := by
  have hkinds : d.kinds = [] ↔ d.opened.isEmpty = true := by
    rw [List.isEmpty_iff, Draft.kinds, List.map_eq_nil_iff]
  split
  · next hopened =>
    refine .refuse ?_ ?_
    · intro r h
      cases h
    · refine .bind .unknown fun _ => .bind .unknown fun _ => .pure fun _ _ => ?_
      rw [Draft.take?, if_pos (hkinds.2 hopened)]
  · next hopened =>
    refine .bind fun _ _ _ => .bind fun _ _ _ => .pure ?_
    rw [Draft.take?, if_neg (mt hkinds.1 hopened)]

theorem follows_statement (d : Draft) (c : Cursor) : Follows d.take? readLine (statement d) c := by
  unfold readLine statement
  refine .bind fun _ _ _ => .ite (fun _ => .pure rfl) fun _ => .bind fun _ c' _ =>
    .ite (fun _ => follows_endLine d c') fun _ => .bind fun _ _ _ =>
      .ite (fun _ => follows_branchLine d _) fun _ => .bind fun kind _ _ => ?_
  cases kind with
  | none => exact follows_line d _
  | some kind => exact .bind fun head _ _ => .pure rfl

/-! ### Diagrams -/

/-- The diagram that has been read, if no block is open. -/
def Draft.diagram (d : Draft) : SequenceDiagram := ⟨d.statements, d.autonumber, d.participants⟩

/-- Tokens start with the line that says it is a sequence diagram, behind any line breaks. -/
inductive Opens : List Token → List Token → Prop
  | mk {breaks ts us : List Token} {t : Token}
      (hbreaks : ∀ b ∈ breaks, b.kind = .newline ∨ b.kind = .semicolon)
      (ht : t.isWord ["sequencediagram"] = true) (hend : Ends ts us) : Opens (breaks ++ t :: ts) us

/-- The tokens `ts` of a diagram with the lines `ls`, its header included. -/
def Source (ts : List Token) (ls : List Line) : Prop := ∃ us, Opens ts us ∧ Spelled us ls

/-- Reads the line that says it is a sequence diagram, and any line breaks before it. -/
def header : Reading Unit := do
  skipNewlines
  let _ ← expectWord "sequencediagram"
  endStatement

/-- Ends a diagram, of which no block may be open: otherwise the innermost is said to be
unterminated. -/
def closed (d : Draft) : Reading SequenceDiagram :=
  match d.opened with
  | [] => return d.diagram
  | b :: _ => do failAt (.unterminated b.head.kind.text b.head.position) (some (← peek).start)

theorem read_eq : read = header >>= fun _ => untilEnd statement {} >>= closed := by
  rw [header]
  simp only [bind_assoc]
  rfl

section Diagrams

variable {final : Token}

theorem parses_closed (d : Draft) : Parses final (closed d)
    fun ts s us => (d.opened = [] ∧ s = d.diagram) ∧ us = ts := by
  unfold closed
  cases d.opened with
  | nil => exact (Parses.pure _).congr fun _ _ _ => by simp
  | cons b outer =>
    exact (Parses.look_bind Parses.peek fun t => .failAt _ _).congr fun _ _ _ => by simp

variable (hfinal : final.kind = .endOfInput)

include hfinal

/-- A statement is read behind `d` as a line that fits the blocks that are open, and no other line
is read. -/
theorem parses_statement (d : Draft) : Parses final (statement d)
    fun ts d' us => ∃ l, Spells ts l us ∧ d.take? l = some d' :=
  Follows.parses (parses_readLine hfinal) (follows_statement d)

/-- Statements are read behind `d` as lines that fit one behind the other, up to the end of
input. -/
theorem parses_statements (d : Draft) : Parses final (untilEnd statement d)
    fun ts d' us => (∃ ls, Spelled ts ls ∧ ls.foldlM Draft.take? d = some d') ∧ us = [] := by
  refine (Parses.untilEnd (parses_statement hfinal) d).congr fun ts d' us => and_congr_left' ?_
  constructor
  · intro h
    induction h with
    | nil => exact ⟨[], .nil, rfl⟩
    | cons h _ _ ih =>
      obtain ⟨l, hl, htake⟩ := h
      obtain ⟨ls, hls, hfold⟩ := ih
      exact ⟨l :: ls, .cons hl hls, by rw [List.foldlM_cons, htake]; exact hfold⟩
  · rintro ⟨ls, hls, hfold⟩
    induction hls generalizing d with
    | nil => cases hfold; exact .nil
    | cons hl _ ih =>
      rw [List.foldlM_cons] at hfold
      obtain ⟨d₁, htake, hfold⟩ := Option.bind_eq_some_iff.1 hfold
      exact .cons ⟨_, hl, htake⟩ hl.length_lt (ih d₁ hfold)

theorem parses_header : Parses final header fun ts _ us => Opens ts us := by
  refine Parses.congr ((Parses.skipNewlines hfinal).bind fun _ =>
    (Parses.expectWord hfinal _).bind fun _ => Parses.endStatement hfinal) ?_
  intro ts u us
  constructor
  · rintro ⟨_, _, ⟨breaks, rfl, hbreaks, -⟩, t, vs, ⟨ht, rfl⟩, hend⟩
    exact .mk hbreaks ht hend
  · rintro ⟨hbreaks, ht, hend⟩
    refine ⟨(), _, ⟨_, rfl, hbreaks, ?_⟩, _, _, ⟨ht, rfl⟩, hend⟩
    rw [next_cons, kind_of_isWord ht]
    decide

/-- A diagram is read as a header and lines that fit one behind the other and close all blocks. -/
theorem parses_read : Parses final read fun ts s us => (∃ ls d, Source ts ls ∧
    ls.foldlM Draft.take? {} = some d ∧ d.opened = [] ∧ s = d.diagram) ∧ us = [] := by
  rw [read_eq]
  refine Parses.congr ((parses_header hfinal).bind fun _ =>
    (parses_statements hfinal {}).bind fun d => parses_closed d) ?_
  intro ts s us
  constructor
  · rintro ⟨_, vs, hopens, d, _, ⟨⟨ls, hls, hfold⟩, rfl⟩, ⟨hopened, rfl⟩, rfl⟩
    exact ⟨⟨ls, d, ⟨vs, hopens, hls⟩, hfold, hopened, rfl⟩, rfl⟩
  · rintro ⟨⟨ls, d, ⟨vs, hopens, hls⟩, hfold, hopened, rfl⟩, rfl⟩
    exact ⟨(), vs, hopens, d, [], ⟨⟨ls, hls, hfold⟩, rfl⟩, ⟨hopened, rfl⟩, rfl⟩

end Diagrams

/-- Tokens `ts` are those of one diagram only, as each line is read in one way. -/
theorem Source.unique {ts : List Token} {ls ls' : List Line} (h : Source ts ls)
    (h' : Source ts ls') : ls = ls' := by
  obtain ⟨us, hopens, hls⟩ := h
  obtain ⟨us', hopens', hls'⟩ := h'
  have hfinal : (⟨.endOfInput, "", "", .origin, .origin⟩ : Token).kind = .endOfInput := rfl
  obtain ⟨-, rfl⟩ := (parses_header hfinal).unique (a := ()) (b := ()) hopens hopens'
  exact hls.unique hls'

/-- A stream of `tokens` is read as a diagram exactly when it is a header and lines that are nested:
each end closes a block that is open, each branch word is the one of the innermost open block, and
all blocks are closed. What is read is what the recursive grammar of blocks derives from the lines,
and the only tree that has their entries in their order. -/
theorem read_iff_body (tokens : List Token)
    (hfinal : (Cursor.ofTokens tokens).final.kind = .endOfInput) :
    ((∃ r, read (.ofTokens tokens) = .ok r) ↔
      ∃ ls, Source (Cursor.ofTokens tokens).rest ls ∧ Nested [] ls) ∧
    (∀ ss, (∃ d c, read (.ofTokens tokens) = .ok (d, c) ∧ d.statements = ss) ↔
      ∃ ls, Source (Cursor.ofTokens tokens).rest ls ∧ Body ls ss) ∧
    ∀ d c ls, read (.ofTokens tokens) = .ok (d, c) → Source (Cursor.ofTokens tokens).rest ls →
      (∀ ss, Statement.entriesList ss = ls.flatMap Line.entries ↔ ss = d.statements) ∧
        (d.autonumber = true ↔ .number ∈ ls) := by
  have hread := parses_read hfinal
  have hsound : ∀ d c, read (.ofTokens tokens) = .ok (d, c) → ∃ ls draft,
      Source (Cursor.ofTokens tokens).rest ls ∧ ls.foldlM Draft.take? {} = some draft ∧
        draft.opened = [] ∧ d = draft.diagram := by
    intro d c h
    exact (hread.sound _ _ d c h).2.1
  have hcomplete : ∀ ls, Source (Cursor.ofTokens tokens).rest ls → Nested [] ls → ∃ draft c,
      ls.foldlM Draft.take? {} = some draft ∧ draft.opened = [] ∧
        read (.ofTokens tokens) = .ok (draft.diagram, c) := by
    intro ls hsource hnested
    obtain ⟨draft, hfold, hopened⟩ := (Draft.nested_iff (d := {})).1 hnested
    obtain ⟨past, h⟩ := hread.complete _ _ _ _ ⟨⟨ls, draft, hsource, hfold, hopened, rfl⟩, rfl⟩
    exact ⟨draft, _, hfold, hopened, h⟩
  refine ⟨?_, ?_, ?_⟩
  -- Whether the diagram is read: its lines are nested, by what is kept on the stack of open blocks.
  · constructor
    · rintro ⟨⟨d, c⟩, h⟩
      obtain ⟨ls, draft, hsource, hfold, hopened, -⟩ := hsound d c h
      exact ⟨ls, hsource, (Draft.nested_iff (d := {})).2 ⟨draft, hfold, hopened⟩⟩
    · rintro ⟨ls, hsource, hnested⟩
      obtain ⟨draft, c, -, -, h⟩ := hcomplete ls hsource hnested
      exact ⟨_, h⟩
  · intro ss
    constructor
    · rintro ⟨d, c, h, rfl⟩
      obtain ⟨ls, draft, hsource, hfold, hopened, rfl⟩ := hsound d c h
      exact ⟨ls, hsource, (Draft.body_iff hfold hopened).2 rfl⟩
    · rintro ⟨ls, hsource, hbody⟩
      obtain ⟨draft, c, hfold, hopened, h⟩ := hcomplete ls hsource (nested_nil_iff.2 ⟨ss, hbody⟩)
      exact ⟨draft.diagram, c, h, ((Draft.body_iff hfold hopened).1 hbody).symm⟩
  -- The lines of the diagram that was read are those of any other reading of the tokens.
  · intro d c ls h hsource
    obtain ⟨ls', draft, hsource', hfold, hopened, rfl⟩ := hsound d c h
    obtain rfl := hsource.unique hsource'
    refine ⟨?_, ?_⟩
    · intro ss
      constructor
      · exact Draft.eq_statements hfold
      · rintro rfl
        exact ((Draft.body_iff hfold hopened).2 rfl).entriesList_eq
    · exact (Draft.autonumber_foldlM hfold).trans (by simp)

/-- A choice with a branch stands in the body of a parallel block, of which the second branch is
empty. A participant has the name of a keyword. -/
theorem read_iff_body_branches : ∃ (s : Segment) (d : SequenceDiagram) (ls : List Line),
    s.dialect = .sequence ∧ s.text =
      "sequenceDiagram\nautonumber\npar x\nloop->>B: hi\nalt\nelse y\nA->>B\nend\nand\nend\n" ∧
    (Cursor.ofTokens s.tokens).final.kind = .endOfInput ∧
    (read (.ofTokens s.tokens)).map Prod.fst = .ok d ∧
    Source (Cursor.ofTokens s.tokens).rest ls ∧ Nested [] ls ∧ Body ls d.statements ∧
    .number ∈ ls ∧ ls.flatMap Line.entries =
      [.opening ⟨.par, some "x", some ⟨3, 0, 27⟩⟩,
        .clause (.message ⟨"loop", "B", .solidArrow, some ⟨"hi", .plain, none⟩, none,
          some ⟨4, 0, 33⟩⟩),
        .opening ⟨.alt, none, some ⟨5, 0, 46⟩⟩, .branch (some "else") (some "y"),
        .clause (.message ⟨"A", "B", .solidArrow, none, none, some ⟨7, 0, 57⟩⟩), .closing,
        .branch (some "and") none, .closing] := by
  let s : Segment := ⟨.sequence,
    "sequenceDiagram\nautonumber\npar x\nloop->>B: hi\nalt\nelse y\nA->>B\nend\nand\nend\n", 1, 0⟩
  let inner : Statement := .block ⟨.alt, none, some ⟨5, 0, 46⟩⟩ []
    [⟨some "y", [.clause (.message ⟨"A", "B", .solidArrow, none, none, some ⟨7, 0, 57⟩⟩)]⟩]
  let outer : Statement := .block ⟨.par, some "x", some ⟨3, 0, 27⟩⟩
    [.clause (.message ⟨"loop", "B", .solidArrow, some ⟨"hi", .plain, none⟩, none,
      some ⟨4, 0, 33⟩⟩), inner] [⟨none, []⟩]
  let d : SequenceDiagram := ⟨[outer], true, [{ id := "loop" }, { id := "B" }, { id := "A" }]⟩
  have hfinal : (Cursor.ofTokens s.tokens).final.kind = .endOfInput := by decide +kernel
  have hd : (read (.ofTokens s.tokens)).map Prod.fst = .ok d := by decide +kernel
  obtain ⟨⟨d', c⟩, hread, hd'⟩ := Except.map_eq_ok_iff.1 hd
  obtain rfl : d' = d := hd'
  -- the lines are those of the grammar, which are the only ones
  obtain ⟨hnested, hbody, hentries⟩ := read_iff_body s.tokens hfinal
  obtain ⟨ls, hsource, hls⟩ := hnested.1 ⟨_, hread⟩
  obtain ⟨ls', hsource', hbody⟩ := (hbody d.statements).1 ⟨d, c, hread, rfl⟩
  obtain rfl := hsource.unique hsource'
  obtain ⟨hentries, hnumber⟩ := hentries d c ls hread hsource
  exact ⟨s, d, ls, rfl, rfl, hfinal, hd, hsource, hls, hbody, hnumber.1 rfl,
    ((hentries d.statements).2 rfl).symm⟩

end DiagramText.Sequence
