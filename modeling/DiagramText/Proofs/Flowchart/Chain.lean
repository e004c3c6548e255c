import DiagramText.Flowchart.Reader
import DiagramText.Proofs.Reading.Spelling
import DiagramText.Token.Scan
import Mathlib.Data.List.Perm.Basic
import Mathlib.Data.List.ProdSigma

/-!
# Lines of nodes and edges

A line of a flowchart that starts with no keyword is a chain: groups of references to nodes, with a
link between each group and the next. The line is read as a whole before anything of it is put into
the draft, so a line that is rejected leaves the draft as it was.

* `Flowchart.Chains`: the tokens of a chain.
* `Flowchart.parses_chain`: chains are read, and only they.
* `Flowchart.chainClauses_of_links` and `Flowchart.chainClauses_perm`: what a chain declares and
  links.
* `Flowchart.Keeping`: reading beside a draft that is kept where reading fails.
* `Flowchart.statement_chain`: what a line does to a draft.
-/

namespace DiagramText.Flowchart

open Reading

/-! ### The tokens of a chain -/

/-- The label that the token between delimiters stands for, if it is there. An empty one stands for
none. -/
inductive Labels : Option Token → Option Content → Prop
  | missing : Labels none none
  | empty {t : Token} (ht : innerText t.text = "") : Labels (some t) none
  | text {t : Token} {label : Content} (ht : innerText t.text ≠ "")
      (hlabel : Content.ofText? (innerText t.text) = some label) : Labels (some t) (some label)

/-- The tokens behind the delimiter `opener` of the shape of a node, which declare the node that `t`
names. -/
inductive Shapes (t opener : Token) : Spelling Reference
  | intro {text : Option Token} {closer : Token} {shape : Shape} {label : Option Content}
      (htext : ∀ l ∈ text, l.kind = .label) (hcloser : closer.kind = .shapeClose)
      (hshape : shapeOf? opener.text closer.text = some shape) (hlabel : Labels text label) :
      Shapes t opener (text.toList ++ [closer])
        ⟨t.text, some (.node ⟨t.text, label, shape⟩ (some t.start))⟩

/-- The tokens of a reference to a node: its id, and a shape if the node is declared there. -/
inductive Refers : Spelling Reference
  | plain {t : Token} (ht : t.kind = .identifier) : Refers [t] ⟨t.text, none⟩
  | shaped {t opener : Token} {us : List Token} {r : Reference} (ht : t.kind = .identifier)
      (hopener : opener.kind = .shapeOpen) (hus : Shapes t opener us r) :
      Refers (t :: opener :: us) r

/-- The tokens of a group: one reference or more, with ampersands between them. -/
inductive Groups : Spelling (List Reference)
  | intro {ts us : List Token} {r : Reference} {rs : List Reference} (hr : Refers ts r)
      (hrs : Separated .ampersand (fun _ => Refers) us rs) : Groups (ts ++ us) (r :: rs)

/-- The tokens of a link behind its `operator`: a label, if there is one, and the next group. -/
inductive Connects (operator : Token) : Spelling Link
  | intro {text : Option Token} {us : List Token} {kind : EdgeKind} {label : Option Content}
      {targets : List Reference} (hkind : EdgeKind.ofText? operator.text = some kind)
      (htext : ∀ l ∈ text, l.kind = .edgeLabel) (htargets : Groups us targets)
      (hlabel : Labels text label) :
      Connects operator (text.toList ++ us) ⟨kind, label, operator.start, targets⟩

/-- The tokens of a chain with its `first` group and its links, and those that are left behind its
line. -/
inductive Chains : List Token → List Reference → List Link → List Token → Prop
  | intro {ts us vs ws : List Token} {first : List Reference} {ls : List Link}
      (hfirst : Groups ts first) (hls : Separated .edge Connects us ls) (hend : Ends vs ws) :
      Chains (ts ++ us ++ vs) first ls ws

theorem Refers.exists_cons {ts : List Token} {r : Reference} (h : Refers ts r) :
    ∃ t us, ts = t :: us ∧ t.kind = .identifier := by
  cases h with
  | plain ht => exact ⟨_, _, rfl, ht⟩
  | shaped ht => exact ⟨_, _, rfl, ht⟩

theorem Groups.exists_cons {ts : List Token} {rs : List Reference} (h : Groups ts rs) :
    ∃ t us, ts = t :: us ∧ t.kind = .identifier := by
  obtain ⟨hr, _⟩ := h
  obtain ⟨t, us, rfl, ht⟩ := hr.exists_cons
  exact ⟨t, _, rfl, ht⟩

/-! ### Reading a chain -/

section

variable {final : Token} {stops : List TokenKind}

/-- Reads a link behind its operator `t`. -/
def link (t : Token) : Reading Link := do
  let kind ← edgeKind t
  let text ← accept .edgeLabel
  let targets ← group
  let label ← labelOf text
  return ⟨kind, label, t.start, targets⟩

theorem links_eq : links = separated .edge link [] := by
  unfold links separated
  congr 1
  funext ls
  refine congrArg _ (funext fun t => ?_)
  cases t with
  | none => rfl
  | some t => simp only [link, bind_assoc, pure_bind]

theorem consumes_content (text : String) : Consumes final stops (content text) fun ts label =>
    ts = [] ∧ Content.ofText? text = some label :=
  .of_parses (.content text) (fun _ _ _ h => ⟨[], h.2.symm, rfl, h.1⟩)
    fun _ _ _ h _ => ⟨h.2, by rw [h.1, List.nil_append]⟩

theorem consumes_labelOf (text : Option Token) :
    Consumes final stops (labelOf text) fun ts label => ts = [] ∧ Labels text label := by
  cases text with
  -- Without a token there is no label.
  | none =>
    refine (Consumes.pure none).congr fun ts label => and_congr_right fun _ => ?_
    constructor
    · rintro rfl
      exact .missing
    · rintro ⟨⟩
      rfl
  -- The text of the token is empty, or it is taken for a label.
  | some t =>
    show Consumes final stops (if (innerText t.text).isEmpty then pure none
      else content (innerText t.text) >>= fun label => pure (some label)) _
    split
    · next ht =>
      have hempty := String.isEmpty_iff.1 ht
      refine (Consumes.pure none).congr fun ts label => and_congr_right fun _ => ?_
      constructor
      · rintro rfl
        exact .empty hempty
      · rintro (_ | _ | hne)
        · rfl
        · exact absurd hempty hne
    · next ht =>
      have hne : innerText t.text ≠ "" := fun heq => ht (String.isEmpty_iff.2 heq)
      refine ((consumes_content _).map some).congr fun ts label => ?_
      constructor
      · rintro ⟨l, ⟨rfl, hl⟩, rfl⟩
        exact ⟨rfl, .text hne hl⟩
      · rintro ⟨rfl, _ | hempty | ⟨-, hl⟩⟩
        · exact absurd hempty hne
        · exact ⟨_, ⟨rfl, hl⟩, rfl⟩

variable (hfinal : final.kind = .endOfInput)

include hfinal

/-- Behind an opening delimiter a reference declares its node, and nothing else is taken for a
shape. -/
theorem consumes_shape (t opener : Token) : Consumes final stops (do
      let text ← accept .label
      let closer ← expect .shapeClose "closing delimiter"
      match shapeOf? opener.text closer.text with
      | none => unexpected "matching shape delimiter" closer
      | some shape =>
        let label ← labelOf text
        return ⟨t.text, some (.node ⟨t.text, label, shape⟩ (some t.start))⟩)
    (Shapes t opener) := by
  -- What comes behind the closing delimiter takes no token: the two delimiters make a shape or not.
  have hshape : ∀ (text : Option Token) (closer : Token), Consumes final stops
      (match shapeOf? opener.text closer.text with
        | none => unexpected "matching shape delimiter" closer
        | some shape => labelOf text >>= fun label =>
          pure ⟨t.text, some (.node ⟨t.text, label, shape⟩ (some t.start))⟩)
      fun ts (r : Reference) => ts = [] ∧ ∃ shape label,
        shapeOf? opener.text closer.text = some shape ∧ Labels text label ∧
          r = ⟨t.text, some (.node ⟨t.text, label, shape⟩ (some t.start))⟩ := by
    intro text closer
    cases shapeOf? opener.text closer.text with
    | none => exact (Consumes.failAt _ _).congr fun ts r => by simp
    | some shape => exact ((consumes_labelOf text).map _).congr fun ts r => by simp [and_assoc]
  refine (Consumes.accept_bind hfinal (by decide) (fun text =>
    .expect_bind hfinal (by decide) (hshape text)) ?_).congr fun ts r => ?_
  · rintro _ _ us ⟨closer, _, rfl, hcloser, -⟩ -
    -- If there is no label, the next token is the closing delimiter, which is no label either.
    show closer.kind ≠ .label
    rw [hcloser]
    decide
  · constructor
    · rintro ⟨text, _, rfl, htext, closer, _, rfl, hcloser, rfl, shape, label, hshape, hlabel, rfl⟩
      exact .intro htext hcloser hshape hlabel
    · rintro ⟨htext, hcloser, hshape, hlabel⟩
      exact ⟨_, _, rfl, htext, _, _, rfl, hcloser, rfl, _, _, hshape, hlabel, rfl⟩

theorem consumes_reference : Consumes final [.shapeOpen] reference Refers := by
  refine (Consumes.expect_bind hfinal (by decide) fun t => Consumes.accept_bind
    (T := fun opener us r => opener.elim (us = [] ∧ r = ⟨t.text, none⟩) (Shapes t · us r)) hfinal
    (by decide) (fun opener => ?_) ?_).congr fun ts r => ?_
  · cases opener with
    | none => exact Consumes.pure (⟨t.text, none⟩ : Reference)
    | some opener => exact consumes_shape hfinal t opener
  · rintro _ _ us ⟨rfl, -⟩ hus hkind
    exact hus (List.mem_singleton.2 hkind)
  · constructor
    · rintro ⟨t, _, rfl, ht, _ | opener, us, rfl, hopener, h⟩
      · obtain ⟨rfl, rfl⟩ := h
        exact .plain ht
      · exact .shaped ht (hopener opener rfl) h
    · rintro (ht | ⟨ht, hopener, hus⟩)
      · exact ⟨_, _, rfl, ht, none, [], rfl, nofun, rfl, rfl⟩
      · exact ⟨_, _, rfl, ht, some _, _, rfl, fun u hu => Option.some.inj hu ▸ hopener, hus⟩

theorem consumes_group : Consumes final [.ampersand, .shapeOpen] group Groups := by
  have hmore : ∀ r, Consumes final [.ampersand, .shapeOpen] (moreReferences [r]) fun ts rs =>
      ∃ more, rs = [r] ++ more ∧ Separated .ampersand (fun _ => Refers) ts more := fun r =>
    Consumes.separated hfinal (by decide) (fun _ => consumes_reference hfinal) (by decide) [r]
  refine ((consumes_reference hfinal).bind hmore ?_).congr fun ts rs => ?_
  · rintro r ts _ us ⟨more, rfl, hmore⟩ hus
    refine next_append_kind (fun t ht => ?_) fun hopener => hus (List.mem_cons_of_mem _ hopener)
    rw [hmore.head_kind t ht]
    decide
  · constructor
    · rintro ⟨r, us, vs, rfl, hr, more, rfl, hmore⟩
      exact .intro hr hmore
    · rintro ⟨hr, hmore⟩
      exact ⟨_, _, _, rfl, hr, _, rfl, hmore⟩

theorem consumes_link (t : Token) : Consumes final [.ampersand, .shapeOpen] (link t)
    (Connects t) := by
  -- The parts behind the operator are read one after the other: the kind and the label take no
  -- token.
  have hkind : Consumes final [] (edgeKind t) fun ts kind =>
      ts = [] ∧ EdgeKind.ofText? t.text = some kind := by
    unfold edgeKind
    cases EdgeKind.ofText? t.text with
    | none => exact (Consumes.failAt _ _).congr fun ts kind => by simp
    | some kind => exact (Consumes.pure kind).congr fun ts kind' => by simp [eq_comm]
  have hlabel : ∀ kind text targets, Consumes final [.ampersand, .shapeOpen]
      (labelOf text >>= fun label => pure (⟨kind, label, t.start, targets⟩ : Link)) _ :=
    fun kind text targets => (consumes_labelOf text).map _
  have hgroup := fun (kind : EdgeKind) (text : Option Token) =>
    (consumes_group hfinal).bind (hlabel kind text) (by
      rintro targets _ _ us ⟨label, ⟨rfl, -⟩, -⟩ hus
      exact hus)
  refine (hkind.bind (fun kind => .accept_bind hfinal (by decide) (hgroup kind) ?_)
    fun _ _ _ _ _ _ => List.not_mem_nil).congr fun ts l => ?_
  -- If there is no label, the next token is that of a node.
  · rintro _ _ us ⟨targets, _, _, rfl, htargets, _⟩ -
    obtain ⟨u, _, rfl, hu⟩ := htargets.exists_cons
    show u.kind ≠ .edgeLabel
    rw [hu]
    decide
  · constructor
    · rintro ⟨kind, _, _, rfl, ⟨rfl, hkind⟩, text, _, rfl, htext, targets, us, _, rfl, htargets,
        label, ⟨rfl, hlabel⟩, rfl⟩
      rw [List.append_nil]
      exact .intro hkind htext htargets hlabel
    · rintro ⟨hkind, htext, htargets, hlabel⟩
      exact ⟨_, [], _, rfl, ⟨rfl, hkind⟩, _, _, rfl, htext, _, _, [], (List.append_nil _).symm,
        htargets, _, ⟨rfl, hlabel⟩, rfl⟩

theorem consumes_links :
    Consumes final [.edge, .ampersand, .shapeOpen] links (Separated .edge Connects) := by
  rw [links_eq]
  have hlinks := Consumes.separated hfinal (by decide : TokenKind.edge ≠ .endOfInput)
    (consumes_link hfinal) (by decide) []
  exact hlinks.congr fun ts ls => by simp

/-- A line is read as a `chain` if and only if it is one. -/
theorem parses_chain : Parses final chain fun ts cs us =>
    ∃ first ls, Chains ts first ls us ∧ cs = chainClauses first ls := by
  have heq : chain = (group >>= fun first => links >>= fun ls => pure (first, ls)) >>= fun p =>
      endStatement >>= fun _ => pure (chainClauses p.1 p.2) := by
    simp only [chain, bind_assoc, pure_bind]
  rw [heq]
  have hparts := (consumes_group hfinal).bind
    (fun first => (consumes_links hfinal).map (Prod.mk first)) (by
      rintro first ts _ us ⟨ls, hls, -⟩ hus
      refine next_append_kind (fun t ht => ?_) fun hmem => hus (List.mem_cons_of_mem _ hmem)
      rw [hls.head_kind t ht]
      decide)
  refine (hparts.bind_end hfinal (by decide) fun p => Parses.pure _).congr fun ts cs ws => ?_
  constructor
  · rintro ⟨_, _, vs, _, rfl, ⟨first, ts, us, rfl, hfirst, ls, hls, rfl⟩, hend, rfl, rfl⟩
    exact ⟨first, ls, .intro hfirst hls hend, rfl⟩
  · rintro ⟨first, ls, ⟨hfirst, hls, hend⟩, rfl⟩
    exact ⟨(first, ls), _, _, _, rfl, ⟨first, _, _, rfl, hfirst, ls, hls, rfl⟩, hend, rfl, rfl⟩

end

/-! ### What a chain becomes -/

/-- The declaration of a node that is referred to: by its shape, or else by its `id` alone. -/
def Reference.clause (r : Reference) : Clause :=
  r.declaration.getD (.node (Node.bare r.id) none)

/-- The edges of a link, one for each pair of a source and a target. The pairs of the first of the
`sources` come first. -/
def Link.between (sources : List Reference) (l : Link) : List Clause :=
  (sources.product l.targets).map fun p =>
    .edge ⟨p.1.id, p.2.id, l.kind, l.label, some l.position⟩

theorem Link.edges_eq (l : Link) (sources : List Reference) :
    l.edges sources = l.between sources := by
  rw [Link.between, List.product, List.map_flatMap]
  simp only [List.map_map]
  rfl

/-- Each link makes the edges between the group before it and its own, so the groups are `first` and
all targets but the last. -/
theorem chainEdges_eq (first : List Reference) (ls : List Link) :
    chainEdges first ls = (List.zipWith Link.between (first :: ls.map Link.targets)
      ls).flatten := by
  induction ls generalizing first with
  | nil => rfl
  | cons l ls ih =>
    rw [chainEdges, ih, Link.edges_eq, List.map_cons, List.zipWith_cons_cons, List.flatten_cons]

/-- A line with links `ls` becomes the declarations of its shaped nodes and then its edges. -/
theorem chainClauses_of_links (first : List Reference) {ls : List Link} (hls : ls ≠ []) :
    chainClauses first ls =
      (first ++ ls.flatMap Link.targets).filterMap Reference.declaration ++
        (List.zipWith Link.between (first :: ls.map Link.targets) ls).flatten := by
  rw [chainClauses, if_neg (by simpa using hls), chainEdges_eq]

/-- A line without links declares each of its nodes, those of the group `first`. Those with a shape
come before the others. -/
theorem chainClauses_perm (first : List Reference) :
    (chainClauses first []).Perm (first.map Reference.clause) := by
  rw [chainClauses, if_pos List.isEmpty_nil, List.flatMap_nil, List.append_nil]
  induction first with
  | nil => exact .nil
  | cons r rs ih =>
    rw [List.map_cons, Reference.clause]
    cases hr : r.declaration with
    | none =>
      rw [List.filterMap_cons_none hr, List.filterMap_cons_some (by rw [hr]; rfl)]
      exact List.perm_middle.trans (ih.cons _)
    | some c =>
      rw [List.filterMap_cons_some hr, List.filterMap_cons_none (by rw [hr]; rfl)]
      exact ih.cons _

/-! ### A draft that is kept -/

/-- Reading beside a draft, which is still there where reading fails: what is thrown does not take
the state with it. -/
abbrev Keeping := StateT Cursor (ExceptT Failure (StateM Draft))

namespace Keeping

variable {α β : Type}

/-- The reading `x`, which leaves the draft alone. -/
def lift (x : Reading α) : Keeping α := fun c d => (x c, d)

/-- A change `f` of the draft, which takes no token and never fails. -/
def change (f : Draft → Draft) : Keeping Unit := fun c d => (.ok ((), c), f d)

theorem lift_bind (x : Reading α) (f : α → Keeping β) (c : Cursor) (d : Draft) :
    (lift x >>= f) c d = match x c with
      | .error e => (.error e, d)
      | .ok r => f r.1 r.2 d := by
  simp only [bind, StateT.bind, ExceptT.bind, ExceptT.mk, ExceptT.bindCont, lift]
  cases x c with
  | error e => rfl
  | ok r => rfl

theorem forM_change_bind (f : Clause → Draft → Draft) (k : Unit → Keeping β) (cs : List Clause)
    (c : Cursor) (d : Draft) :
    ((cs.forM fun clause => change (f clause)) >>= k) c d =
      k () c (cs.foldl (fun d clause => f clause d) d) := by
  induction cs generalizing d with
  | nil => rfl
  | cons clause cs ih => exact ih (f clause d)

end Keeping

/-- Enters the nodes of a clause `c` into the registry of a draft `d`. -/
def Draft.enter (d : Draft) (c : Clause) : Draft := { d with nodes := Registry.enter d.nodes c }

/-- Reads a line of nodes and edges into a draft. The nodes of each clause are entered, then the
clauses are put at the end of the innermost open body. -/
def enterChain : Keeping Unit := do
  let first ← Keeping.lift group
  let ls ← Keeping.lift links
  Keeping.lift endStatement
  (chainClauses first ls).forM fun c => Keeping.change (·.enter c)
  Keeping.change (·.extend ((chainClauses first ls).map .clause))

theorem Draft.foldl_enter (d : Draft) (cs : List Clause) :
    cs.foldl Draft.enter d = { d with nodes := cs.foldl Registry.enter d.nodes } := by
  induction cs generalizing d with
  | nil => rfl
  | cons c cs ih => rw [List.foldl_cons, ih]; rfl

/-- A line that is read is added as a whole; one that is not leaves the draft as it was. Here
`enterChain` takes its steps one by one, and still no step that can fail comes behind a change. -/
theorem enterChain_apply (c : Cursor) (d : Draft) :
    enterChain c d = match chain c with
      | .error e => (.error e, d)
      | .ok r => (.ok ((), r.2), d.add r.1) := by
  -- A chain is its first group, its links and its end, all read before anything is entered.
  have hchain : chain c = (group c).bind fun r => (links r.2).bind fun r' =>
      (endStatement r'.2).bind fun r'' => .ok (chainClauses r.1 r'.1, r''.2) := rfl
  rw [hchain, enterChain, Keeping.lift_bind]
  cases group c with
  | error e => rfl
  | ok r =>
    dsimp only [Except.bind]
    rw [Keeping.lift_bind]
    cases links r.2 with
    | error e => rfl
    | ok r' =>
      dsimp only
      rw [Keeping.lift_bind]
      cases endStatement r'.2 with
      | error e => rfl
      | ok r'' =>
        dsimp only
        rw [Keeping.forM_change_bind]
        show (Except.ok ((), r''.2), (((chainClauses r.1 r'.1).foldl Draft.enter d).extend _)) = _
        rw [Draft.foldl_enter]
        rfl

/-! ### What a line does to a draft -/

/-- Whether a line with `t` and `second` as its first two tokens is where a subgraph starts or
ends. -/
def isBound (t second : Token) : Bool :=
  t.isWord ["end"] && second.kind.endsStatement || t.isWord ["subgraph"]

/-- Whether the first two tokens of a line make it a statement of another kind: it is empty, a
subgraph starts or ends there, or it starts with another keyword and a name. -/
def startsOther (t second : Token) : Bool :=
  [.newline, .semicolon].contains t.kind || isBound t second ||
    t.isWord ["direction", "classdef", "class", "style"] && second.kind == .identifier

/-- All other lines are read as chains, whatever draft `d` has been read before. -/
theorem statement_of_not_startsOther {c : Cursor} (h : startsOther c.peek (c.ahead 1) = false)
    (d : Draft) : statement d c = (chain c).bind fun r => .ok (d.add r.1, r.2) := by
  simp only [startsOther, isBound, Bool.or_eq_false_iff] at h
  obtain ⟨⟨hbreak, hend, hsubgraph⟩, hnamed⟩ := h
  have hword : ∀ word ∈ ["direction", "classdef", "class", "style"],
      (c.peek.isWord [word] && decide ((c.ahead 1).kind = .identifier)) = false := by
    intro word hword
    rw [Bool.eq_false_iff]
    intro hboth
    obtain ⟨hfirst, hsecond⟩ := Bool.and_eq_true_iff.1 hboth
    rw [isWord_eq hfirst, List.contains_iff_mem.2 hword, Bool.true_and,
      beq_eq_false_iff_ne] at hnamed
    exact hnamed (of_decide_eq_true hsecond)
  simp only [statement, bind_apply, peek_apply, ahead_apply, check_apply, Except.bind, hbreak,
    hend, hsubgraph, hword "direction" (by simp), hword "classdef" (by simp),
    hword "class" (by simp), hword "style" (by simp), Bool.false_eq_true, if_false]
  rfl

section

variable {final : Token} (hfinal : final.kind = .endOfInput)

include hfinal

/-- A chain `ts` starts with an id, and no other id comes right behind it. So a keyword at its start
is not followed by a name. -/
theorem Chains.exists_cons {ts ws : List Token} {first : List Reference} {ls : List Link}
    (h : Chains ts first ls ws) : ∃ t us, ts = t :: us ∧ t.kind = .identifier ∧
      (next final us).kind ∉ [TokenKind.identifier] := by
  cases h with
  | @intro ts us vs ws first ls hfirst hls hend =>
    cases hfirst with
    | @intro ts more r rs hr hrs =>
      have hmore : ∀ t ∈ more.head?, t.kind ∉ [TokenKind.identifier] := by
        intro t ht
        rw [hrs.head_kind t ht]
        decide
      have hlinks : ∀ t ∈ us.head?, t.kind ∉ [TokenKind.identifier] := by
        intro t ht
        rw [hls.head_kind t ht]
        decide
      have hvs : (next final vs).kind ∉ [TokenKind.identifier] := by
        rw [List.mem_singleton]
        exact kind_ne_of_endsStatement (hend.next_kind hfinal) rfl
      -- Behind a bare id the chain goes on or ends, and behind another one comes its shape.
      cases hr with
      | plain ht =>
        refine ⟨_, more ++ (us ++ vs), by simp, ht, ?_⟩
        exact next_append_kind hmore (next_append_kind hlinks hvs)
      | @shaped t opener shape r ht hopener =>
        refine ⟨t, opener :: (shape ++ more ++ us ++ vs), by simp, ht, ?_⟩
        rw [next_cons, hopener]
        decide

/-- Of the lines of other kinds only those where a subgraph starts or ends look like chains, as
`end` and `subgraph` may be ids. -/
theorem Chains.startsOther_eq {ts ws : List Token} {first : List Reference} {ls : List Link}
    (h : Chains ts first ls ws) : startsOther (next final ts) (next final ts.tail) =
      isBound (next final ts) (next final ts.tail) := by
  obtain ⟨t, us, rfl, ht, hnext⟩ := h.exists_cons hfinal
  rw [List.mem_singleton] at hnext
  rw [next_cons, List.tail_cons, startsOther, ht, beq_eq_false_iff_ne.2 hnext, Bool.and_false,
    Bool.or_false]
  rfl

/-- A chain is read. It becomes the declarations of its shaped nodes and then an edge for each pair
that a link joins; without links it declares each of its nodes. Of the lines that are not of another
kind only chains are read, and those that are not read leave the draft `d` as it was. -/
theorem statement_chain (past ts : List Token) (d : Draft) :
    (∀ first ls rest, Chains ts first ls rest →
      isBound (next final ts) (next final ts.tail) = false → ∃ cs past',
        statement d ⟨past, ts, final⟩ = .ok (d.add cs, ⟨past', rest, final⟩) ∧
          (ls ≠ [] → cs = (first ++ ls.flatMap Link.targets).filterMap Reference.declaration ++
            (List.zipWith Link.between (first :: ls.map Link.targets) ls).flatten) ∧
          (ls = [] → cs.Perm (first.map Reference.clause))) ∧
    (startsOther (next final ts) (next final ts.tail) = false →
      (∀ d' c, statement d ⟨past, ts, final⟩ = .ok (d', c) →
        (∃ first ls, Chains ts first ls c.rest) ∧
          enterChain ⟨past, ts, final⟩ d = (.ok ((), c), d')) ∧
      ∀ e, statement d ⟨past, ts, final⟩ = .error e →
        enterChain ⟨past, ts, final⟩ d = (.error e, d)) := by
  -- All that is said of lines of no other kind comes from how such a line is read.
  have hstatement : startsOther (next final ts) (next final ts.tail) = false →
      statement d ⟨past, ts, final⟩ =
        (chain ⟨past, ts, final⟩).bind fun r => .ok (d.add r.1, r.2) := by
    intro hline
    have hpeek : (⟨past, ts, final⟩ : Cursor).peek = next final ts := by cases ts <;> rfl
    have hahead : (⟨past, ts, final⟩ : Cursor).ahead 1 = next final ts.tail := by
      rcases ts with _ | ⟨t, _ | ⟨u, us⟩⟩ <;> rfl
    rw [← hpeek, ← hahead] at hline
    exact statement_of_not_startsOther hline d
  constructor
  · intro first ls rest h hbound
    obtain ⟨past', hchain⟩ := (parses_chain hfinal).complete past ts _ rest ⟨first, ls, h, rfl⟩
    refine ⟨chainClauses first ls, past', ?_, chainClauses_of_links first, ?_⟩
    · rw [hstatement ((h.startsOther_eq hfinal).trans hbound), hchain]
      rfl
    · rintro rfl
      exact chainClauses_perm first
  · intro hline
    rw [hstatement hline, enterChain_apply]
    -- A chain that fails has not changed the draft, and one that is read was one.
    cases hchain : chain ⟨past, ts, final⟩ with
    | error e =>
      dsimp only [Except.bind]
      constructor
      · intro d' c hd
        cases hd
      · intro e' he
        cases he
        rfl
    | ok r =>
      dsimp only [Except.bind]
      constructor
      · intro d' c hd
        cases hd
        obtain ⟨-, first, ls, hchains, -⟩ := (parses_chain hfinal).sound past ts r.1 r.2 hchain
        exact ⟨⟨first, ls, hchains⟩, rfl⟩
      · intro e he
        cases he

end

/-- A link between two groups of two makes four edges with its label, behind the declaration of the
shaped node. -/
theorem statement_chain_groups : ∃ ts final, Token.scan .flowchart "A[x] & B -->|y| C & D" 1 0 =
      ts ++ [final] ∧ final.kind = .endOfInput ∧
    ∃ first ls cs past', Chains ts first ls [] ∧
      statement {} ⟨[], ts, final⟩ = .ok (Draft.add {} cs, ⟨past', [], final⟩) ∧
      (Draft.add {} cs).statements =
        [.clause (.node ⟨"A", some (.plain "x"), .rectangle⟩ (some ⟨1, 0, 0⟩)),
          .clause (.edge ⟨"A", "C", .arrow, some (.plain "y"), some ⟨1, 9, 9⟩⟩),
          .clause (.edge ⟨"A", "D", .arrow, some (.plain "y"), some ⟨1, 9, 9⟩⟩),
          .clause (.edge ⟨"B", "C", .arrow, some (.plain "y"), some ⟨1, 9, 9⟩⟩),
          .clause (.edge ⟨"B", "D", .arrow, some (.plain "y"), some ⟨1, 9, 9⟩⟩)] := by
  let ts := (Token.scan .flowchart "A[x] & B -->|y| C & D" 1 0).dropLast
  let final : Token := ⟨.endOfInput, "", "", ⟨1, 21, 21⟩, ⟨1, 21, 21⟩⟩
  let d : Draft :=
    { nodes := [⟨"A", some (.plain "x"), .rectangle⟩, .bare "C", .bare "D", .bare "B"]
      statements := [.clause (.node ⟨"A", some (.plain "x"), .rectangle⟩ (some ⟨1, 0, 0⟩)),
        .clause (.edge ⟨"A", "C", .arrow, some (.plain "y"), some ⟨1, 9, 9⟩⟩),
        .clause (.edge ⟨"A", "D", .arrow, some (.plain "y"), some ⟨1, 9, 9⟩⟩),
        .clause (.edge ⟨"B", "C", .arrow, some (.plain "y"), some ⟨1, 9, 9⟩⟩),
        .clause (.edge ⟨"B", "D", .arrow, some (.plain "y"), some ⟨1, 9, 9⟩⟩)] }
  have hfinal : final.kind = .endOfInput := rfl
  have hscan : Token.scan .flowchart "A[x] & B -->|y| C & D" 1 0 = ts ++ [final] := by
    decide +kernel
  have hread : statement {} ⟨[], ts, final⟩ = .ok (d, ⟨ts.reverse, [], final⟩) := by decide +kernel
  obtain ⟨hread_chain, hread_only⟩ := statement_chain hfinal [] ts {}
  obtain ⟨⟨first, ls, hchains⟩, -⟩ := (hread_only (by decide +kernel)).1 d _ hread
  obtain ⟨cs, past', hadd, -⟩ := hread_chain first ls [] hchains (by decide +kernel)
  obtain ⟨hd, -⟩ := Prod.mk.inj (Except.ok.inj (hadd.symm.trans hread))
  exact ⟨ts, final, hscan, hfinal, first, ls, cs, past', hchains, hadd, by rw [hd]⟩

end DiagramText.Flowchart
