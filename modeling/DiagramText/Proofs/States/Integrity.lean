import DiagramText.Proofs.Edit
import DiagramText.Proofs.Program.Failures
import DiagramText.Proofs.Program.Single
import DiagramText.Proofs.Reading.Progress
import DiagramText.Proofs.States.Intact
import DiagramText.Proofs.States.RoundTrip
import DiagramText.Proofs.States.Steady
import DiagramText.States.Edit
import Mathlib.Logic.Relation

/-!
# The integrity of state diagrams

A state is declared once, wherever it is first mentioned, so ids stay apart over all scopes and
regions, and what mentions a state finds it there. The reader keeps this with a stack of open
scopes, in any text; an edit searches all states instead.

* `States.isPseudostate_of_mem_row`: an identifier in a text is never the id of a pseudostate.
* `States.Draft.Keeps`: what every step of reading keeps.
* `States.Draft.Keeps.ensures_statement`, `StateDiagram.ensures_read_kept`: so one statement keeps
  it, and it is known of the diagram that is read.
* `StateDiagram.Consistent`: what is known of a diagram as a whole.
* `StateDiagram.consistent_of_edits`: it is known after any edits.
-/

namespace DiagramText

open Text Reading

/-! ### Identifiers of a text -/

namespace Piece

/-- An identifier of a state diagram starts with a word character. The ids of pseudostates start
with a bracket. -/
def StartsWord (p : Piece) : Prop :=
  ∀ x, p = lexeme .identifier x → ∃ c, x.head? = some c ∧ isAsciiWord c = true

theorem isAsciiWord_of_first {before : Option Char} {c : Char} {cs : List Char} {n : Nat}
    (h : Rule.first (Rule.ofDialect .states before) (c :: cs) = (.identifier, n)) :
    isAsciiWord c = true ∧ n ≠ 0 := by
  obtain ⟨r, hr, hkind, hlength, hne⟩ := Rule.exists_of_first h (by decide)
  have hrule : ∀ r ∈ Rule.ofDialect .states before, r.1 = .identifier →
      r.2 = Measure.hyphenated := by
    simp [Rule.ofDialect, Rule.common, Rule.punctuation]
  rw [hrule r hr hkind, Measure.hyphenated] at hlength
  split at hlength
  · next hc => exact ⟨hc, hne⟩
  · exact absurd hlength.symm hne

theorem startsWord_next (context : Context) (c : Char) (cs : List Char) :
    ∀ p ∈ next .states context (c :: cs), p.StartsWord := by
  have hgap : ∀ b, StartsWord (.gap b) := by
    intro b x hx
    cases hx
  show ∀ p ∈ plain .states context (c :: cs), p.StartsWord
  rw [plain]
  split
  · exact List.forall_mem_singleton.2 (hgap _)
  -- The only identifiers come from the first rule that matches, since the rest of the pieces are
  -- gaps and texts.
  · generalize hfirst : Rule.first (Rule.ofDialect .states context.before) (c :: cs) = r
    obtain ⟨kind, n⟩ := r
    dsimp only
    refine List.forall_mem_cons.2 ⟨?_, ?_⟩
    · intro x hx
      cases hx
      obtain ⟨hc, hne⟩ := isAsciiWord_of_first hfirst
      obtain ⟨m, rfl⟩ := Nat.exists_eq_succ_of_ne_zero hne
      exact ⟨c, rfl, hc⟩
    · split
      · intro p hp
        obtain ⟨b, text, b', -, -, -, hpieces⟩ := exists_colonText ((c :: cs).drop n)
        rw [hpieces, List.cons_append, List.mem_cons, List.mem_append, List.mem_singleton] at hp
        rcases hp with rfl | hp | rfl
        · exact hgap _
        · split at hp
          · cases hp
          · rw [List.mem_singleton.1 hp]
            intro x hx
            cases hx
        · exact hgap _
      · exact List.forall_mem_nil _

theorem startsWord_ofText (text : List Char) : ∀ p ∈ ofText .states text, p.StartsWord := by
  have hline : ∀ cs : List Char, ∀ p ∈ ofLine .states cs, p.StartsWord := fun cs =>
    forall_ofRest (Q := fun _ => True) (fun _ _ _ => trivial)
      (fun context c cs _ => startsWord_next context c cs) {} trivial
  intro p hp
  obtain ⟨l, -, hp⟩ := List.mem_flatMap.1 hp
  rcases List.mem_append.1 hp with hp | hp
  · exact hline l.content p hp
  · split at hp
    · cases hp
    · rw [List.mem_singleton.1 hp]
      exact fun x hx => nomatch hx

end Piece

namespace States

/-- An identifier of a text is never the id of a pseudostate, so no text declares one as a state. -/
theorem isPseudostate_of_mem_row {s : Segment} (hs : s.dialect = .states) :
    ∀ t ∈ s.row, t.kind = .identifier → isPseudostate t.text = false := by
  intro t ht hkind
  have hmem : t ∈ s.tokens := (List.dropLast_sublist _).subset (List.mem_of_mem_filter ht)
  rcases Token.exists_of_mem_place hmem with hend | ⟨cs, hcs, htext⟩
  · rw [hkind] at hend
    cases hend
  · rw [hkind, hs] at hcs
    obtain ⟨c, hhead, hc⟩ := Piece.startsWord_ofText _ _ hcs cs rfl
    apply isPseudostate_of_head _ hc
    rw [htext, String.toList_ofList, hhead]

end States

/-! ### Passing over tokens -/

namespace Reading

variable {ts : List Token}

/-- What is expected is one of the tokens `ts`, and of the `kind`, and tokens are left over as
before. -/
theorem ensures_expect_mem {kind : TokenKind} (hkind : kind ≠ .endOfInput) (expected : String)
    (n : Nat) : Ensures (Cursor.Below ts n) (expect kind expected)
      fun t c => (t ∈ ts ∧ t.kind = kind) ∧ c.Below ts n := by
  intro c t c' hc hx
  obtain ⟨ht, hc'⟩ :=
    ((takes_expect (d := .states) hkind expected).steady n).ensures c t c' hc hx
  refine ⟨⟨ht, ?_⟩, hc'⟩
  rw [expect, expectAny, bind_apply, check_apply] at hx
  dsimp only [Except.bind] at hx
  split at hx
  · next hcheck =>
    have hpeek : c.peek.kind = kind := by simpa using hcheck
    have hadvance : t = c.peek := by
      obtain ⟨past, rest, final⟩ := c
      cases rest <;> (cases hx; rfl)
    rw [hadvance, hpeek]
  · rw [fail_apply] at hx
    cases hx

end Reading

namespace States

variable {ts : List Token} {n : Nat} {d e : Draft}

/-! ### What reading keeps -/

/-- What is kept by each step of reading that mentions states by ids of some form `P`. It is known
of intact drafts only, so what is mentioned is there afterwards. -/
structure Draft.Keeps (I : Draft → Prop) (P : String → Prop) : Prop where
  intact : ∀ {d}, I d → d.Intact
  name : ∀ {i}, P i → isPseudostate i = false
  empty : ∀ version, I { version }
  decorate : ∀ {d f}, I d → State.Decorates f → ∀ i, I (d.modify i f)
  mention : ∀ {d} {t : Token}, I d → P t.text → I (d.mention t)
  openScope : ∀ {d i}, I d → i ∈ d.ids → I (d.openScope i)
  closeScope : ∀ {d}, I d → I d.closeScope
  nextRegion : ∀ {d}, I d → I d.nextRegion
  setDirection : ∀ {d}, I d → ∀ x, I (d.setDirection x)
  addTransition : ∀ {d} {t : Transition}, I d → (t.source = startId ∨ t.source ∈ d.ids) →
    (t.target = endId ∨ t.target ∈ d.ids) → I (d.add { transitions := [t] })
  addNote : ∀ {d} {n : Note}, I d → n.state ∈ d.ids → I (d.add { notes := [n] })

/-- A draft `e` for which this is known, with all states of `d`. Reading a part of a statement gives
such a draft. -/
structure Draft.Continues (I : Draft → Prop) (e d : Draft) : Prop where
  kept : I e
  mem : ∀ i ∈ d.ids, i ∈ e.ids

namespace Draft.Keeps

variable {I : Draft → Prop} {P : String → Prop}

theorem continues_self (h : I d) : d.Continues I d := ⟨h, fun _ hi => hi⟩

section

variable (hI : Keeps I P)

include hI

theorem continues_decorate (h : I d) {f : State → State} (hf : State.Decorates f) (i : String) :
    (d.modify i f).Continues I d :=
  ⟨hI.decorate h hf i, fun _ hj =>
    mem_ids_modify (.of_eq (fun t => (hf.parts t).1) hf.inner) hj⟩

theorem ensures_description (hd : I d) (id : String) : Ensures (Cursor.Below ts n)
    (description d id) fun e c => e.Continues I d ∧ c.Below ts n := by
  refine .bind (passes_accept (by decide)) fun t => ?_
  cases t with
  | none => exact .pure fun c hc => ⟨continues_self hd, hc⟩
  | some t =>
    refine .bind (passes_expect (by decide) _) fun text => ?_
    refine .bind_and (ensures_content _) fun l _ => .pure fun c hc => ⟨?_, hc⟩
    exact hI.continues_decorate hd (f := fun s => { s with label := some l }) (fun _ => rfl) id

theorem ensures_stateKind (hd : I d) (id : String) : Ensures (Cursor.Below ts n)
    (stateKind d id) fun e c => e.Continues I d ∧ c.Below ts n := by
  refine .bind (passes_accept (by decide)) fun t => ?_
  cases t with
  | none => exact .pure fun c hc => ⟨continues_self hd, hc⟩
  | some t =>
    refine .bind (passes_expect (by decide) _) fun u => ?_
    split
    · exact .failAt _ _
    · next kind _ =>
      refine .bind (passes_expect (by decide) _) fun _ =>
        .pure fun c hc => ⟨?_, hc⟩
      exact hI.continues_decorate hd (f := fun s => { s with kind := kind }) (fun _ => rfl) id

end

/-! ### Statements -/

section

variable (hI : Keeps I P) (hts : ∀ t ∈ ts, t.kind = .identifier → P t.text)

include hI hts

theorem ensures_stateRef (hd : I d) : Ensures (Cursor.Below ts n) (stateRef d)
    fun r c => (r.1.Continues I d ∧ r.2 ∈ r.1.ids) ∧ c.Below ts n := by
  refine .bind_and (ensures_expect_mem (by decide) _ n) fun t ht => .pure fun c hc => ⟨?_, hc⟩
  have hname := hts t ht.1 ht.2
  obtain ⟨-, hmem, hmono⟩ := (hI.intact hd).mention (hI.name hname)
  exact ⟨⟨hI.mention hd hname, hmono⟩, hmem⟩

/-- An end of a transition is the `pseudostate` that may stand there or a state that is there, once
it was read. -/
theorem ensures_transitionEnd (hd : I d) (pseudostate : String) :
    Ensures (Cursor.Below ts n) (transitionEnd d pseudostate) fun r c =>
      (r.1.Continues I d ∧ (r.2 = pseudostate ∨ r.2 ∈ r.1.ids)) ∧ c.Below ts n := by
  refine .bind (passes_accept (by decide)) fun t => ?_
  cases t with
  | none =>
    exact (hI.ensures_stateRef hts hd).imp_right fun r c h => ⟨⟨h.1.1, .inr h.1.2⟩, h.2⟩
  | some t => exact .pure fun c hc => ⟨⟨continues_self hd, .inl rfl⟩, hc⟩

/-- A declaration opens only the scope of the state that it mentions, so the owner of an open scope
is there. -/
theorem ensures_declaration (hd : I d) :
    Ensures (Cursor.Below ts n) (declaration d) fun e c => I e ∧ c.Below ts n := by
  refine .bind passes_advance fun _ => ?_
  refine .bind ((steady_quotedLabel (x := .states)).passes n) fun quoted => ?_
  refine .bind_and (hI.ensures_stateRef hts hd) fun r hr => ?_
  obtain ⟨d₁, id⟩ := r
  obtain ⟨hd₁, hmem⟩ := hr
  have hrest : ∀ d₂ : Draft, d₂.Continues I d₁ → Ensures (Cursor.Below ts n) (do
      let d₃ ← stateKind d₂ id
      let d₄ ← description d₃ id
      let brace ← accept .leftBrace
      let d₅ := if brace.isSome then d₄.openScope id else d₄
      endStatement
      -- A label changes the mentioned state only, so what follows is the same with and without it.
      return d₅) fun e c => I e ∧ c.Below ts n := by
    intro d₂ hd₂
    refine .bind_and (hI.ensures_stateKind hd₂.kept id) fun d₃ hd₃ => ?_
    refine .bind_and (hI.ensures_description hd₃.kept id) fun d₄ hd₄ => ?_
    refine .bind (passes_accept (by decide)) fun brace => ?_
    refine .bind passes_endStatement fun _ => .pure fun c hc => ⟨?_, hc⟩
    split
    · exact hI.openScope hd₄.kept (hd₄.mem _ (hd₃.mem _ (hd₂.mem _ hmem)))
    · exact hd₄.kept
  cases quoted with
  | none =>
    exact .bind_and (p := fun e => e.Continues I d₁)
      (.pure fun c hc => ⟨continues_self hd₁.kept, hc⟩) hrest
  | some text =>
    refine .bind_and (ensures_content text) fun l _ => ?_
    exact .bind_and (p := fun e => e.Continues I d₁) (.pure fun c hc =>
      ⟨hI.continues_decorate hd₁.kept (f := fun s => { s with label := some l }) (fun _ => rfl) id,
        hc⟩) hrest

theorem ensures_plainState (hd : I d) :
    Ensures (Cursor.Below ts n) (plainState d) fun e c => I e ∧ c.Below ts n := by
  refine .bind_and (hI.ensures_stateRef hts hd) fun r hr => ?_
  refine .bind_and (hI.ensures_description hr.1.kept r.2) fun e he => ?_
  exact .bind passes_endStatement fun _ => .pure fun c hc => ⟨he.kept, hc⟩

/-- Both ends of a transition are known: its source is there when its target is read. -/
theorem ensures_transition (hd : I d) :
    Ensures (Cursor.Below ts n) (transition d) fun e c => I e ∧ c.Below ts n := by
  refine .look_bind fun first => ?_
  refine .bind_and (hI.ensures_transitionEnd hts hd startId) fun r hr => ?_
  obtain ⟨d₁, source⟩ := r
  obtain ⟨hd₁, hsource⟩ := hr
  refine .bind (passes_expect (by decide) _) fun _ => ?_
  refine .bind_and (hI.ensures_transitionEnd hts hd₁.kept endId) fun r hr => ?_
  obtain ⟨d₂, target⟩ := r
  obtain ⟨hd₂, htarget⟩ := hr
  refine .bind ((steady_transitionLabel (x := .states)).passes n) fun label => ?_
  refine .bind passes_endStatement fun _ => .pure fun c hc => ⟨?_, hc⟩
  have hadd := hI.addTransition (t := ⟨source, target, label, some first.start⟩) hd₂.kept
    (hsource.imp_right (hd₂.mem _)) htarget
  simpa only [Draft.add, Scope.append, List.append_nil] using hadd

theorem ensures_note (hd : I d) :
    Ensures (Cursor.Below ts n) (note d) fun e c => I e ∧ c.Below ts n := by
  refine .bind passes_advance fun keyword => ?_
  refine .bind passes_advance fun side => ?_
  refine .bind ((takes_expectWord (d := .states) _).steady.passes n) fun _ => ?_
  refine .bind_and (hI.ensures_stateRef hts hd) fun r hr => ?_
  obtain ⟨e, state⟩ := r
  obtain ⟨he, hstate⟩ := hr
  refine .bind ((steady_noteText (x := .states) keyword).passes n) fun text => ?_
  refine .bind_and (ensures_content text) fun l _ => .pure fun c hc => ⟨?_, hc⟩
  have hadd := hI.addNote
    (n := ⟨state, if side.isWord ["left"] then .leftOf else .rightOf, l⟩) he.kept hstate
  simpa only [Draft.add, Scope.append, List.append_nil] using hadd

/-- Every statement keeps it, whatever its line holds: one case for each kind of line. -/
theorem ensures_statement (hd : I d) :
    Ensures (Cursor.Below ts n) (statement d) fun e c => I e ∧ c.Below ts n := by
  refine .look_bind fun _ => .look_bind fun _ => .look_bind fun _ => .ite ?newline fun _ =>
    .ite ?close fun _ => .ite ?declaration fun _ => .ite ?note fun _ => .ite ?direction fun _ =>
      .ite ?region fun _ => .ite (fun _ => hI.ensures_transition hts hd) fun _ =>
        .ite (fun _ => hI.ensures_plainState hts hd) fun _ => .fail _
  case newline => exact fun _ => .bind passes_advance fun _ => .pure fun _ hc => ⟨hd, hc⟩
  case close =>
    exact fun _ => .ite (fun _ => .fail _) fun _ => .bind passes_advance fun _ =>
      .bind passes_endStatement fun _ => .pure fun _ hc => ⟨hI.closeScope hd, hc⟩
  case declaration => exact fun _ => hI.ensures_declaration hts hd
  case note => exact fun _ => hI.ensures_note hts hd
  case direction =>
    exact fun _ => .bind passes_advance fun _ =>
      .bind ((steady_takeDirection (d := .states) _).passes n) fun x =>
        .bind passes_endStatement fun _ => .pure fun _ hc => ⟨hI.setDirection hd x, hc⟩
  case region =>
    exact fun _ => .ite (fun _ => .fail _) fun _ => .bind passes_advance fun _ =>
      .bind passes_endStatement fun _ => .pure fun _ hc => ⟨hI.nextRegion hd, hc⟩

end

theorem ensures_header (hI : Keeps I P) : Ensures (Cursor.Below ts n) header
    fun e c => I e ∧ c.Below ts n := by
  refine .bind ((steady_skipNewlines (d := .states)).passes n) fun _ => ?_
  refine .bind (passes_expect (by decide) _) fun t => ?_
  have hrest : ∀ version : Version, Ensures (Cursor.Below ts n) (do
      endStatement
      return { version }) fun (e : Draft) c => I e ∧ c.Below ts n := fun version =>
    .bind passes_endStatement fun _ => .pure fun c hc => ⟨hI.empty version, hc⟩
  split
  · exact hrest .v1
  · exact hrest .v2
  · exact .bind (Q := fun _ _ => False) (.failAt _ _) fun _ _ _ _ h => h.elim

end Draft.Keeps

theorem Draft.keeps_intact : Draft.Keeps Draft.Intact (isPseudostate · = false) where
  intact h := h
  name h := h
  empty version := .empty version none
  decorate h hf i := h.decorate hf i
  mention h ht := (h.mention ht).1
  openScope h hi := h.openScope hi
  closeScope h := h.closeScope
  nextRegion h := h.nextRegion
  setDirection h x := h.setDirection x
  addTransition h hsource htarget := h.addTransition hsource htarget
  addNote h hstate := h.addNote hstate

end States

namespace StateDiagram

open States

/-- The diagram `d` as a draft without open scopes, which is what reading ends with. -/
def draft (d : StateDiagram) : Draft :=
  { version := d.version, direction := d.direction, scope := d.scope }

/-- What every step of reading keeps is known of the diagram that is read, since it is known of the
empty draft. -/
theorem ensures_read_kept {I : Draft → Prop} {P : String → Prop} (hI : Draft.Keeps I P) : Ensures
    (fun c => ∃ ts n, (∀ t ∈ ts, t.kind = .identifier → P t.text) ∧ c.Below ts n)
    States.read fun d _ => I d.draft := by
  rintro c d c' ⟨ts, n, hts, hc⟩ hx
  have hread : Ensures (Cursor.Below ts n) States.read fun d _ => I d.draft := by
    refine .bind_and hI.ensures_header fun d₀ hd₀ => ?_
    have huntil := Ensures.untilEnd (I := fun d c => I d ∧ c.Below ts n)
      (fun d => .of_and (hI.ensures_statement hts)) d₀
    refine .bind_and (huntil.imp (fun c hc => ⟨hd₀, hc⟩) fun _ _ => id) fun d hd => ?_
    split
    · next hopened =>
      apply Ensures.pure
      intro c _
      obtain ⟨version, direction, scope, opened⟩ := d
      obtain rfl : opened = [] := hopened
      exact hd
    · exact .look_bind fun _ => .failAt _ _
  exact hread c d c' hc hx

end StateDiagram

/-! ### All states of a diagram -/

namespace States.State

/-- The states `ss` of lists are those of their first levels and those in the lists that these hold,
in another order. -/
theorem perm_nodesList (ss : List State) :
    (nodesList ss).Perm (ss ++ (groupsOf ss).flatMap fun g => nodesList g.2) := by
  -- the lists that a state holds are those of its children and of its regions
  have hgroups : ∀ s : State, (s.groups.flatMap fun g => nodesList g.2) =
      nodesChildren s.children ++ nodesScopes s.regions := by
    intro s
    have hregions : ∀ rs : List (Scope State),
        ((rs.map fun r => ((some s, r.states) : Group)).flatMap fun g => nodesList g.2) =
          nodesScopes rs := by
      intro rs
      induction rs with
      | nil => rfl
      | cons r rs ih => rw [List.map_cons, List.flatMap_cons, ih]; rfl
    rw [groups, List.flatMap_append, hregions]
    cases s.children with
    | none => rfl
    | some ss => exact congrArg (· ++ _) (List.append_nil _)
  induction ss with
  | nil => exact List.Perm.refl _
  | cons s ss ih =>
    have hcons : groupsOf (s :: ss) = s.groups ++ groupsOf ss := rfl
    rw [nodesList, nodes_eq, hcons, List.flatMap_append, hgroups, List.cons_append,
      List.cons_append]
    -- each state comes first, and the rest only changes its order
    apply List.Perm.cons
    apply (ih.append_left _).trans
    rw [← List.append_assoc, ← List.append_assoc ss]
    exact List.perm_append_comm.append_right _

/-- A walk visits all states of the lists in its queue `gs`, at any depth, and each of them once. -/
theorem perm_walk (gs : List Group) :
    ((walk gs).map Prod.snd).Perm (gs.flatMap fun g => nodesList g.2) := by
  induction gs using walk.induct with
  | case1 =>
    rw [walk]
    exact List.Perm.refl _
  | case2 holder states queue ih =>
    have hstates : (states.map fun s => (holder, s)).map Prod.snd = states := by
      rw [List.map_map]
      exact List.map_id states
    rw [List.flatMap_append] at ih
    rw [walk, List.map_append, hstates, List.flatMap_cons]
    apply ((ih.trans List.perm_append_comm).append_left states).trans
    rw [← List.append_assoc]
    exact (perm_nodesList states).symm.append_right _

end States.State

namespace StateDiagram

open States

variable {d e : StateDiagram} {id : String}

theorem perm_walk (d : StateDiagram) :
    (d.walk.map Prod.snd).Perm (State.nodesList d.scope.states) := by
  have hperm := State.perm_walk [(none, d.scope.states)]
  rw [List.flatMap_singleton] at hperm
  exact hperm

theorem perm_stateIds (d : StateDiagram) : d.stateIds.Perm (State.idsList d.scope.states) := by
  have hids : d.stateIds = (d.walk.map Prod.snd).map State.id := by
    rw [List.map_map]
    rfl
  rw [hids, ← State.map_id_nodesList]
  exact d.perm_walk.map State.id

/-- A diagram `d` in which everything is where it belongs. -/
structure Consistent (d : StateDiagram) : Prop where
  /-- No two states have the same id, in whatever scopes they are. -/
  nodup : d.stateIds.Nodup
  /-- The source of a transition is the start of its scope or a state of the diagram. -/
  sources : ∀ y ∈ d.scopes, ∀ t ∈ y.transitions, t.source = startId ∨ t.source ∈ d.stateIds
  /-- The target of a transition is the end of its scope or a state of the diagram. -/
  targets : ∀ y ∈ d.scopes, ∀ t ∈ y.transitions, t.target = endId ∨ t.target ∈ d.stateIds
  /-- No transition leaves an end, and none leads to a start. -/
  directed : ∀ y ∈ d.scopes, ∀ t ∈ y.transitions, t.source ≠ endId ∧ t.target ≠ startId
  /-- A note is about a state of the diagram. -/
  notes : ∀ y ∈ d.scopes, ∀ n ∈ y.notes, n.state ∈ d.stateIds
  /-- A state that is not composite owns nothing. -/
  simple : ∀ p ∈ d.walk, p.2.isComposite = false →
    p.2.transitions = [] ∧ p.2.notes = [] ∧ p.2.regions = []

/-- What is kept of drafts is known of the diagram `d` that they become. The walk lists the states
in another order than the tree. -/
theorem Consistent.of_intact (h : d.draft.Intact) : d.Consistent := by
  have hmem : ∀ i, i ∈ d.stateIds ↔ i ∈ d.draft.ids := fun i => d.perm_stateIds.mem_iff
  have hwithin : ∀ y ∈ d.scopes, y.Within d.draft.ids := by
    refine List.forall_mem_cons.2 ⟨h.scope, fun y hy => ?_⟩
    obtain ⟨s, hs, hy⟩ := List.mem_flatMap.1 hy
    exact (h.states s hs).within y hy
  -- No state is named like a pseudostate, so the side of a transition tells which of the two may
  -- stand there.
  have hnames : ∀ i ∈ d.draft.ids, i ≠ startId ∧ i ≠ endId := by
    intro i hi
    simpa [isPseudostate] using h.names i hi
  constructor
  · exact d.perm_stateIds.nodup_iff.2 h.nodup
  · intro y hy t ht
    rw [hmem]
    exact (hwithin y hy).sources t ht
  · intro y hy t ht
    rw [hmem]
    exact (hwithin y hy).targets t ht
  · intro y hy t ht
    constructor
    · rcases (hwithin y hy).sources t ht with hsource | hsource
      · rw [hsource]
        decide
      · exact (hnames _ hsource).2
    · rcases (hwithin y hy).targets t ht with htarget | htarget
      · rw [htarget]
        decide
      · exact (hnames _ htarget).1
  · intro y hy n hn
    rw [hmem]
    exact (hwithin y hy).notes n hn
  · intro p hp hsimple
    have hnode : p.2 ∈ State.nodesList d.scope.states :=
      d.perm_walk.subset (List.mem_map_of_mem hp)
    apply (h.states p.2 hnode).simple
    simpa [State.isComposite] using hsimple

/-! ### Edits -/

/-- The state diagram `e` is `d` after an accepted edit. -/
inductive Edit (d : StateDiagram) : StateDiagram → Prop
  | addTransition {e : StateDiagram} {source target : String} {label : Option String}
      (h : d.addTransition source target label = .ok e) : Edit d e

/-- A state diagram `d` to start from: an empty one, or one that comes from a document. -/
def IsStart (d : StateDiagram) : Prop :=
  (∃ version direction, d = { version := version, direction := direction }) ∨
    (Diagram.states d).IsRead

theorem IsStart.intact (h : d.IsStart) : d.draft.Intact := by
  rcases h with ⟨version, direction, rfl⟩ | h
  · exact .empty version direction
  · apply h.of_ensures (x := States.read) (Q := fun d : StateDiagram => d.draft.Intact)
      (P := fun c => ∃ ts n, (∀ t ∈ ts, t.kind = .identifier → isPseudostate t.text = false) ∧
        c.Below ts n)
    · intro d e hde
      exact Diagram.states.inj hde
    · rfl
    · intro s hs
      exact ⟨s.row, s.row.length + 1, isPseudostate_of_mem_row hs, s.below_tokens⟩
    · exact ensures_read_kept Draft.keeps_intact

/-- An edit mentions a state `id` as reading does: it looks for it in all scopes. -/
theorem intact_mention (h : d.draft.Intact) (id : String) :
    (d.mention id).draft.Intact ∧
      (isPseudostate id = false → id ∈ (d.mention id).draft.ids) ∧
        ∀ j ∈ d.draft.ids, j ∈ (d.mention id).draft.ids := by
  refine ⟨?_, mem_idsList_mention, d.subset_mention id⟩
  unfold mention
  split
  · exact h
  · next hnew =>
    simp only [Bool.or_eq_true, not_or, state?, State.isSome_findList?] at hnew
    have hadd := h.addState (by simpa using hnew.1) hnew.2 none
    simpa only [Draft.add, Draft.modifyScope, Scope.append, List.append_nil, draft] using hadd

theorem checkEnd_eq {value : String} (h : checkEnd id = .ok value) : value = id := by
  unfold checkEnd at h
  split at h
  · exact (Except.ok.inj h).symm
  · exact (Identifier.of_checkFor h).1

/-- An accepted transition keeps a diagram `d` intact: its ends are mentioned before it is added. -/
theorem Edit.intact (h : Edit d e) (hd : d.draft.Intact) : e.draft.Intact := by
  obtain @⟨source, target, label, hadd⟩ := h
  unfold StateDiagram.addTransition at hadd
  by_cases hend : source = endId
  · rw [if_pos hend] at hadd
    cases hadd
  by_cases hstart : target = startId
  · rw [if_neg hend, if_pos hstart] at hadd
    cases hadd
  rw [if_neg hend, if_neg hstart] at hadd
  obtain ⟨source', hsource, hrest⟩ := Except.bind_eq_ok_iff.1 hadd
  obtain ⟨target', htarget, hlabel⟩ := Except.bind_eq_ok_iff.1 hrest
  obtain ⟨label', -, hlast⟩ := Except.bind_eq_ok_iff.1 hlabel
  -- both ends stay as they were given, and are mentioned one after the other
  obtain rfl := checkEnd_eq hsource
  obtain rfl := checkEnd_eq htarget
  obtain ⟨hfirst, hfirstMem, -⟩ := intact_mention hd source'
  obtain ⟨hsecond, hsecondMem, hmono⟩ := intact_mention hfirst target'
  have hsource : source' = startId ∨ source' ∈ ((d.mention source').mention target').draft.ids := by
    cases hpseudo : isPseudostate source' with
    | true => exact .inl (by simpa [isPseudostate, hend] using hpseudo)
    | false => exact .inr (hmono _ (hfirstMem hpseudo))
  have htarget : target' = endId ∨ target' ∈ ((d.mention source').mention target').draft.ids := by
    cases hpseudo : isPseudostate target' with
    | true => exact .inl (by simpa [isPseudostate, hstart] using hpseudo)
    | false => exact .inr (hsecondMem hpseudo)
  have hintact := hsecond.addTransition
    (t := { source := source', target := target', label := label' }) hsource htarget
  cases hlast
  simpa only [Draft.add, Draft.modifyScope, Scope.append, List.append_nil, draft] using hintact

/-- After any number of edits of `d₀`, which is empty or comes from a document, a state diagram is
consistent. -/
theorem consistent_of_edits {d₀ d : StateDiagram} (hstart : d₀.IsStart)
    (h : Relation.ReflTransGen Edit d₀ d) : d.Consistent := by
  apply Consistent.of_intact
  induction h with
  | refl => exact hstart.intact
  | tail _ hedit ih => exact hedit.intact ih

/-- What is read has a state that is mentioned before it is opened, and in its second region a note
about a state outside. A transition is added from a state inside it to a new state. -/
theorem consistent_of_edits_regions : ∃ d₀ d₁ : StateDiagram,
    Program.read "stateDiagram\nA --> B\nstate A \x7b\nC --> [*]\n--\nnote left of B: n\n\x7d\n" =
        .ok ⟨[.states d₀]⟩ ∧
      d₀.addTransition "C" "D" (some "x") = .ok d₁ ∧ d₁.stateIds = ["A", "B", "D", "C"] ∧
        d₁.Consistent := by
  let inner : State := { id := "C", position := some ⟨4, 0, 31⟩ }
  let outer : State :=
    { id := "A", children := some [inner], transitions := [⟨"C", endId, none, some ⟨4, 0, 31⟩⟩],
      regions := [{ notes := [⟨"B", .leftOf, Content.ofText "n"⟩] }], position := some ⟨2, 0, 13⟩ }
  let other : State := { id := "B", position := some ⟨2, 6, 19⟩ }
  let transition : Transition := ⟨"A", "B", none, some ⟨2, 0, 13⟩⟩
  let d₀ : StateDiagram := ⟨.v1, none, ⟨[outer, other], [transition], []⟩⟩
  let d₁ : StateDiagram := ⟨.v1, none, ⟨[outer, other, { id := "D" }],
    [transition, ⟨"C", "D", some (Content.ofText "x"), none⟩], []⟩⟩
  have hread : Program.read
      "stateDiagram\nA --> B\nstate A \x7b\nC --> [*]\n--\nnote left of B: n\n\x7d\n" =
        .ok ⟨[.states d₀]⟩ := by decide +kernel
  have hedit : d₀.addTransition "C" "D" (some "x") = .ok d₁ := by decide +kernel
  have hstart : d₀.IsStart := .inr ⟨_, _, hread, List.mem_singleton_self _⟩
  exact ⟨d₀, d₁, hread, hedit, by decide +kernel,
    consistent_of_edits hstart (.single (.addTransition hedit))⟩

end StateDiagram
end DiagramText
