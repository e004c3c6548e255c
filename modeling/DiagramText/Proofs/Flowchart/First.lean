import DiagramText.Proofs.Flowchart.Labels
import DiagramText.Proofs.Flowchart.Lines
import DiagramText.Proofs.Flowchart.Registry

/-!
# The first line behind the header

The first statement of a flowchart comes from its first line, whatever is read behind it. What a
line makes of a label is known from its first tokens alone, even if the label ended too early and
what is left of it is read as more of the line.

* `Flowchart.Draft.front?`: the first statement, which later ones leave as it is.
* `Flowchart.front_of_node`, `Flowchart.front_of_edge` and `Flowchart.front_of_subgraph`: the first
  statement of a line that starts with a label behind a name.
-/

namespace DiagramText

open Text Reading

namespace Flowchart

/-! ### The first statement -/

/-- A statement without what is read of it later: the direction and the body of a subgraph. -/
def Statement.front : Statement → Statement
  | .clause c => .clause c
  | .subgraph head _ => .subgraph { head with direction := none } []

namespace Draft

/-- The first statement of the draft `d` that was read, which may be a subgraph that is still open.
Of those it is the outermost. -/
def front? (d : Draft) : Option Statement :=
  (d.statements.head?.or (d.opened.getLast?.map fun o => .subgraph o.head o.body)).map
    Statement.front

variable {d d' : Draft} {s : Statement}

theorem front?_extend (h : d.front? = some s) (ss : List Statement) :
    (d.extend ss).front? = some s := by
  obtain ⟨direction, nodes, statements, opened⟩ := d
  cases opened with
  | nil =>
    cases statements with
    | nil => cases h
    | cons t ts => exact h
  | cons o outer =>
    cases outer <;> cases statements <;> exact h

/-- No later statement takes the place of the first one, when a step leads from `d` to `d'`. -/
theorem Step.front? (h : d.Step d') (hs : d.front? = some s) : d'.front? = some s := by
  obtain ⟨direction, nodes, statements, opened⟩ := d
  cases h with
  | skip => exact hs
  | add cs =>
    exact front?_extend (d := ⟨direction, cs.foldl Registry.enter nodes, statements, opened⟩) hs
      (cs.map .clause)
  -- An opened subgraph is the first statement only if there was none before it.
  | openSubgraph head =>
    cases opened with
    | nil =>
      cases statements with
      | nil => cases hs
      | cons t ts => exact hs
    | cons o outer => exact hs
  -- A closed subgraph keeps its place: it goes to the body around it, or behind the statements that
  -- there are.
  | closeSubgraph =>
    cases opened with
    | nil => exact hs
    | cons o outer =>
      cases outer with
      | nil => cases statements <;> exact hs
      | cons o' outer =>
        exact front?_extend (d := ⟨direction, nodes, statements, o' :: outer⟩) hs
          [.subgraph o.head o.body]
  | setDirection x =>
    cases opened with
    | nil => exact hs
    | cons o outer =>
      cases outer <;> cases statements <;> exact hs

/-- What is first behind the first line is first at the end of input, since every round takes a
step. -/
theorem front?_of_untilEnd {c c' : Cursor} (hs : d.front? = some s)
    (h : untilEnd statement d c = .ok (d', c')) : d'.front? = some s :=
  Ensures.untilEnd (I := fun d _ => d.front? = some s)
    (fun d c d' c' hs hx => (ensures_step d c d' c' trivial hx).front? hs) d c d' c' hs h

end Draft

/-! ### References and links -/

section Lines

variable {past ts : List Token} {t o u k final : Token} {c : Cursor}

/-- The label that a token `u` means has its text. -/
theorem raw_of_labelOf {l : Option Content} {c' : Cursor}
    (h : labelOf (some u) c = .ok (l, c')) : ∀ x ∈ l, x.raw = innerText u.text := by
  have hlabel : Ensures (fun _ => True) (labelOf (some u)) fun l _ =>
      (∀ x ∈ l, IsContentOf [u] u.kind x) ∧ True := ensures_labelOf (by simp)
  intro x hx
  obtain ⟨⟨-, v, hv, -, hraw⟩, -⟩ := (hlabel c l c' trivial h).1 x hx
  rw [← hraw, List.mem_singleton.1 hv]

/-- Delimiters `o` and `k` with a label `u` between them declare a node with the label. -/
theorem declaration_of_reference (ht : t.kind = .identifier) (ho : o.kind = .shapeOpen)
    (hu : u.kind = .label) (hk : k.kind = .shapeClose) {r : Reference}
    (h : reference ⟨past, t :: o :: u :: k :: ts, final⟩ = .ok (r, c)) :
    ∃ n p, r.declaration = some (.node n p) ∧ ∀ x ∈ n.label, x.raw = innerText u.text := by
  cases hshape : shapeOf? o.text k.text with
  | none =>
    simp only [reference, bind_apply, expect_cons ht, accept_cons, ho, hu, if_true, Except.bind,
      expect_cons hk, hshape] at h
    cases h
  | some shape =>
    simp only [reference, bind_apply, expect_cons ht, accept_cons, ho, hu, if_true, Except.bind,
      expect_cons hk, hshape] at h
    cases hlabel : labelOf (some u) ⟨k :: u :: o :: t :: past, ts, final⟩ with
    | error e =>
      rw [hlabel] at h
      cases h
    | ok p =>
      rw [hlabel] at h
      cases h
      exact ⟨_, _, rfl, raw_of_labelOf hlabel⟩

/-- A reference `r` of which the declaration, if it has one, is that of a node. No other reference
is read. -/
def Reference.DeclaresNode (r : Reference) : Prop := ∀ x ∈ r.declaration, ∃ n p, x = .node n p

theorem ensures_reference_node :
    Ensures (fun _ => True) reference fun r _ => r.DeclaresNode := by
  refine .bind .unknown fun _ => .bind .unknown fun opener => ?_
  cases opener with
  | none => exact .pure fun _ _ _ h => nomatch h
  | some _ =>
    refine .bind .unknown fun _ => .bind .unknown fun _ => ?_
    split
    · exact .failAt _ _
    · refine .bind .unknown fun _ => .pure fun _ _ => ?_
      rintro _ ⟨⟩
      exact ⟨_, _, rfl⟩

/-- References `rs` are added behind those that there are. -/
theorem ensures_moreReferences_prefix {rs : List Reference} (hrs : ∀ r ∈ rs, r.DeclaresNode) :
    Ensures (fun _ => True) (moreReferences rs)
      fun rs' _ => rs <+: rs' ∧ ∀ r ∈ rs', r.DeclaresNode := by
  refine (Ensures.loop (I := fun rs' _ => rs <+: rs' ∧ ∀ r ∈ rs', r.DeclaresNode) (fun rs' => ?_)
    rs).imp (fun _ _ => ⟨List.prefix_refl rs, hrs⟩) fun _ _ => id
  refine .of_fact fun ⟨hfirst, hrs'⟩ => .bind .unknown fun t => ?_
  cases t with
  | none => exact .pure fun _ _ => ⟨hfirst, hrs'⟩
  | some t =>
    exact .bind ensures_reference_node fun r => .pure fun _ hr =>
      ⟨hfirst.trans (List.prefix_append _ _),
        List.forall_mem_append.2 ⟨hrs', List.forall_mem_singleton.2 hr⟩⟩

/-- A group `rs` starts with its first reference, as it is read on its own. -/
theorem exists_of_group {rs : List Reference} {c' : Cursor} (h : group c = .ok (rs, c')) :
    (∀ r ∈ rs, r.DeclaresNode) ∧ ∃ r rs' c₁, reference c = .ok (r, c₁) ∧ rs = r :: rs' := by
  rw [group, bind_apply, Except.bind_eq_ok_iff] at h
  obtain ⟨⟨r, c₁⟩, hr, hmore⟩ := h
  have hnode : ∀ x ∈ [r], x.DeclaresNode :=
    List.forall_mem_singleton.2 (ensures_reference_node _ _ _ trivial hr)
  obtain ⟨⟨rs', rfl⟩, hnodes⟩ := ensures_moreReferences_prefix hnode _ _ _ trivial hmore
  exact ⟨hnodes, r, rs', c₁, hr, rfl⟩

/-- Links `ls` are added behind those that there are. -/
theorem ensures_links_prefix {ls : List Link} (hls : ∀ l ∈ ls, ∀ r ∈ l.targets, r.DeclaresNode) :
    Ensures (fun _ => True) (loop linkRound ls)
      fun ls' _ => ls <+: ls' ∧ ∀ l ∈ ls', ∀ r ∈ l.targets, r.DeclaresNode := by
  refine (Ensures.loop (I := fun ls' _ => ls <+: ls' ∧ ∀ l ∈ ls', ∀ r ∈ l.targets, r.DeclaresNode)
    (fun ls' => ?_) ls).imp (fun _ _ => ⟨List.prefix_refl ls, hls⟩) fun _ _ => id
  refine .of_fact fun ⟨hfirst, hls'⟩ => .bind .unknown fun t => ?_
  cases t with
  | none => exact .pure fun _ _ => ⟨hfirst, hls'⟩
  | some t =>
    have hgroup : Ensures (fun _ => True) group fun rs _ => ∀ r ∈ rs, r.DeclaresNode :=
      fun _ _ _ _ h => (exists_of_group h).1
    refine .bind .unknown fun _ => .bind .unknown fun _ => .bind hgroup fun targets =>
      .of_fact fun htargets => .bind .unknown fun _ => .pure fun _ _ => ?_
    exact ⟨hfirst.trans (List.prefix_append _ _),
      List.forall_mem_append.2 ⟨hls', List.forall_mem_singleton.2 htargets⟩⟩

/-- The clauses of a line are told from its references `rs` and links `ls`. -/
theorem exists_of_chain {cs : List Clause} {c' : Cursor} (h : chain c = .ok (cs, c')) :
    ∃ rs ls c₁ c₂, group c = .ok (rs, c₁) ∧ links c₁ = .ok (ls, c₂) ∧ cs = chainClauses rs ls := by
  rw [chain, bind_apply, Except.bind_eq_ok_iff] at h
  obtain ⟨⟨rs, c₁⟩, hgroup, h⟩ := h
  rw [bind_apply, Except.bind_eq_ok_iff] at h
  obtain ⟨⟨ls, c₂⟩, hlinks, h⟩ := h
  rw [bind_apply, Except.bind_eq_ok_iff] at h
  obtain ⟨⟨_, c₃⟩, -, h⟩ := h
  cases h
  exact ⟨rs, ls, c₁, c₂, hgroup, hlinks, rfl⟩

/-- A line that starts with a shaped node declares the node first. -/
theorem exists_of_chain_shaped (ht : t.kind = .identifier) (ho : o.kind = .shapeOpen)
    (hu : u.kind = .label) (hk : k.kind = .shapeClose) {cs : List Clause}
    (h : chain ⟨past, t :: o :: u :: k :: ts, final⟩ = .ok (cs, c)) :
    ∃ n p cs', cs = .node n p :: cs' ∧ ∀ x ∈ n.label, x.raw = innerText u.text := by
  obtain ⟨rs, ls, c₁, c₂, hgroup, -, rfl⟩ := exists_of_chain h
  obtain ⟨-, r, rs', c₀, hr, rfl⟩ := exists_of_group hgroup
  obtain ⟨n, p, hdeclaration, hlabel⟩ := declaration_of_reference ht ho hu hk hr
  rw [chainClauses, List.cons_append, List.filterMap_cons, hdeclaration]
  exact ⟨n, p, _, List.cons_append, hlabel⟩

/-- Links that start with a labelled edge start with a link that has the label and some target. -/
theorem exists_of_links (ho : o.kind = .edge) (hu : u.kind = .edgeLabel) {ls : List Link}
    (h : links ⟨past, o :: u :: ts, final⟩ = .ok (ls, c)) :
    (∀ l ∈ ls, ∀ r ∈ l.targets, r.DeclaresNode) ∧ ∃ l ls', ls = l :: ls' ∧ l.targets ≠ [] ∧
      ∀ x ∈ l.label, x.raw = innerText u.text := by
  -- The first round takes the operator and the label, and makes a link of what comes behind them.
  have hround : ∀ r c', linkRound [] ⟨past, o :: u :: ts, final⟩ = .ok (r, c') →
      ∃ l, r = .inl [l] ∧ l.targets ≠ [] ∧ (∀ r ∈ l.targets, r.DeclaresNode) ∧
        ∀ x ∈ l.label, x.raw = innerText u.text := by
    intro r c' hround
    rw [linkRound, bind_apply, accept_cons, if_pos ho] at hround
    dsimp only [Except.bind] at hround
    rw [bind_apply, Except.bind_eq_ok_iff] at hround
    obtain ⟨⟨kind, c₁⟩, hkind, hround⟩ := hround
    obtain rfl : c₁ = ⟨o :: past, u :: ts, final⟩ := by
      cases htext : EdgeKind.ofText? o.text with
      | none =>
        rw [edgeKind, htext] at hkind
        cases hkind
      | some kind =>
        rw [edgeKind, htext] at hkind
        cases hkind
        rfl
    rw [bind_apply, accept_cons, if_pos hu] at hround
    dsimp only [Except.bind] at hround
    rw [bind_apply, Except.bind_eq_ok_iff] at hround
    obtain ⟨⟨targets, c₂⟩, hgroup, hround⟩ := hround
    rw [bind_apply, Except.bind_eq_ok_iff] at hround
    obtain ⟨⟨label, c₃⟩, hlabel, hround⟩ := hround
    cases hround
    obtain ⟨hnodes, r, rs, _, _, rfl⟩ := exists_of_group hgroup
    exact ⟨_, rfl, List.cons_ne_nil r rs, hnodes, raw_of_labelOf hlabel⟩
  -- The links are those of the first round and more behind them.
  rw [show links = loop linkRound [] from rfl, loop_apply] at h
  cases hx : linkRound [] ⟨past, o :: u :: ts, final⟩ with
  | error e =>
    rw [hx] at h
    cases h
  | ok p =>
    obtain ⟨r, c'⟩ := p
    obtain ⟨l, rfl, htargets, hnodes, hlabel⟩ := hround r c' hx
    rw [hx] at h
    dsimp only at h
    split at h
    · obtain ⟨⟨ls', rfl⟩, hall⟩ := ensures_links_prefix
        (List.forall_mem_singleton.2 hnodes) _ _ _ trivial h
      exact ⟨hall, l, ls', rfl, htargets, hlabel⟩
    · cases h

/-- A line that starts with a labelled edge has the label on its first edge, but may declare nodes
before that. -/
theorem exists_of_chain_edge (ht : t.kind = .identifier) (ho : o.kind = .edge)
    (hu : u.kind = .edgeLabel) {cs : List Clause}
    (h : chain ⟨past, t :: o :: u :: ts, final⟩ = .ok (cs, c)) :
    ∃ x cs', cs = x :: cs' ∧ ∀ e, x = .edge e → ∀ l ∈ e.label, l.raw = innerText u.text := by
  obtain ⟨rs, ls, c₁, c₂, hgroup, hlinks, rfl⟩ := exists_of_chain h
  rw [group_single (reference_bare past (u :: ts) final ht (by rw [ho]; decide))
    (by rw [ho]; decide)] at hgroup
  cases hgroup
  obtain ⟨hnodes, l, ls', rfl, htargets, hlabel⟩ := exists_of_links ho hu hlinks
  rw [chainClauses]
  cases hshaped : ([(⟨t.text, none⟩ : Reference)] ++ (l :: ls').flatMap Link.targets).filterMap
      Reference.declaration with
  | nil =>
    -- no target has a shape, so the first clause is the edge
    obtain ⟨kind, label, position, targets⟩ := l
    obtain ⟨target, targets, rfl⟩ := List.exists_cons_of_ne_nil htargets
    refine ⟨.edge ⟨t.text, target.id, kind, label, some position⟩, _, rfl, ?_⟩
    rintro _ ⟨⟩
    exact hlabel
  | cons x xs =>
    refine ⟨x, _, List.cons_append, ?_⟩
    rintro e rfl
    have hmem : Clause.edge e ∈ ([(⟨t.text, none⟩ : Reference)] ++
        (l :: ls').flatMap Link.targets).filterMap Reference.declaration :=
      hshaped ▸ List.mem_cons_self
    obtain ⟨r, hr, hdeclaration⟩ := List.mem_filterMap.1 hmem
    rcases List.mem_append.1 hr with hr | hr
    · rw [List.mem_singleton.1 hr] at hdeclaration
      cases hdeclaration
    · obtain ⟨m, hm, hr⟩ := List.mem_flatMap.1 hr
      obtain ⟨n, p, heq⟩ := hnodes m hm r hr _ hdeclaration
      cases heq

/-- The label `u` between the brackets behind the id of a subgraph is its label. -/
theorem label_of_subgraphHead (ht : t.kind = .identifier) (ho : o.kind = .shapeOpen)
    (hu : u.kind = .label) (hk : k.kind = .shapeClose) {keyword : Token} {head : Subgraph}
    (h : subgraphHead ⟨past, keyword :: t :: o :: u :: k :: ts, final⟩ = .ok (head, c)) :
    ∀ x ∈ head.label, x = innerText u.text := by
  have hname : subgraphName ⟨keyword :: past, t :: o :: u :: k :: ts, final⟩ = .ok
      ((t.text, some (innerText u.text)), ⟨k :: u :: o :: t :: keyword :: past, ts, final⟩) := by
    simp [subgraphName, bind_apply, ahead_apply, check_apply, Except.bind, ht, ho, map_apply,
      advance_cons, subgraphLabel, accept_cons, hu, expect_cons hk]
  rw [subgraphHead, bind_apply, advance_cons] at h
  dsimp only [Except.bind] at h
  rw [bind_apply, hname] at h
  dsimp only [Except.bind] at h
  rw [bind_apply, Except.bind_eq_ok_iff] at h
  obtain ⟨⟨_, c₁⟩, -, h⟩ := h
  rw [pure_apply] at h
  have hhead : _ = head := congrArg Prod.fst (Except.ok.inj h)
  have hlabel : head.label = (some (innerText u.text)).filter (!·.isEmpty) := by
    rw [← hhead]
  intro x hx
  rw [hlabel, Option.mem_filter_iff] at hx
  exact (Option.some.inj hx.1).symm

/-! ### The first statement of a line -/

variable {d' : Draft} {x : Direction}

/-- A line with a shaped node in front makes a node with the label that is found there. -/
theorem front_of_node {id : String} (hid : IsName id) (gap : List Char) (ho : o.kind = .shapeOpen)
    (hu : u.kind = .label) (hk : k.kind = .shapeClose)
    (h : statement { direction := x } ⟨past, .plain .identifier gap id.toList :: o :: u :: k :: ts,
      final⟩ = .ok (d', c)) :
    ∃ n p, d'.front? = some (.clause (.node n p)) ∧ ∀ l ∈ n.label, l.raw = innerText u.text := by
  rw [statement_name hid gap past _ final (by rw [ho]; decide), map_apply,
    Except.bind_eq_ok_iff] at h
  obtain ⟨⟨cs, c'⟩, hchain, h⟩ := h
  cases h
  obtain ⟨n, p, cs, rfl, hlabel⟩ := exists_of_chain_shaped rfl ho hu hk hchain
  exact ⟨n, p, rfl, hlabel⟩

/-- A line with a labelled edge behind a name makes an edge with the label that is found there, or
another clause first. -/
theorem front_of_edge {id : String} (hid : IsName id) (gap : List Char) (ho : o.kind = .edge)
    (hu : u.kind = .edgeLabel)
    (h : statement { direction := x } ⟨past, .plain .identifier gap id.toList :: o :: u :: ts,
      final⟩ = .ok (d', c)) :
    ∃ y, d'.front? = some (.clause y) ∧
      ∀ e, y = .edge e → ∀ l ∈ e.label, l.raw = innerText u.text := by
  rw [statement_name hid gap past _ final (by rw [ho]; decide), map_apply,
    Except.bind_eq_ok_iff] at h
  obtain ⟨⟨cs, c'⟩, hchain, h⟩ := h
  cases h
  obtain ⟨y, cs, rfl, hlabel⟩ := exists_of_chain_edge rfl ho hu hchain
  exact ⟨y, rfl, hlabel⟩

/-- A line that opens a labelled subgraph makes one with the label that is found there. -/
theorem front_of_subgraph (gap : List Char) (ht : t.kind = .identifier) (ho : o.kind = .shapeOpen)
    (hu : u.kind = .label) (hk : k.kind = .shapeClose)
    (h : statement { direction := x } ⟨past, .plain .identifier gap "subgraph".toList :: t :: o ::
      u :: k :: ts, final⟩ = .ok (d', c)) :
    ∃ head, d'.front? = some (.subgraph head []) ∧ ∀ l ∈ head.label, l = innerText u.text := by
  rw [statement_subgraph, map_apply, Except.bind_eq_ok_iff] at h
  obtain ⟨⟨head, c'⟩, hhead, h⟩ := h
  cases h
  have hlabel := label_of_subgraphHead ht ho hu hk hhead
  exact ⟨{ head with direction := none }, rfl, hlabel⟩

end Lines
end Flowchart
end DiagramText
