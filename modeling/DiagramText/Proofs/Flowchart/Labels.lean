import DiagramText.Proofs.Flowchart.Reader
import DiagramText.Proofs.Program.Failures
import DiagramText.Proofs.Program.Single
import DiagramText.Proofs.Reading.Progress

/-!
# Labels that are read

A label that is read is the text of a token between delimiters, without the blanks and quotes around
it, and is not empty. A label of a node or an edge also means something, and its token stands on one
line with its delimiters.

* `Flowchart.IsLabelOf`: a text is the label that a token of a kind means.
* `Flowchart.ensures_read_labels`: the labels of a flowchart that was read are those of its tokens.
* `Flowchart.labels_of_isRead`: what this says of the labels of a flowchart that comes from a
  document.
-/

namespace DiagramText

open Text Reading

namespace Flowchart

/-! ### Labels of tokens -/

/-- The text `s` is the label that one of the tokens `ts` of a kind means, and is not empty. -/
def IsLabelOf (ts : List Token) (kind : TokenKind) (s : String) : Prop :=
  s ≠ "" ∧ ∃ t ∈ ts, t.kind = kind ∧ innerText t.text = s

/-- A label with its meaning is that of one of the tokens `ts` of a kind. -/
def IsContentOf (ts : List Token) (kind : TokenKind) (l : Content) : Prop :=
  IsLabelOf ts kind l.raw ∧ Content.ofText? l.raw = some l

/-- A clause of which the label is that of one of the tokens `ts`. Nodes have theirs between
delimiters, and edges behind an operator. -/
def Clause.LabelledFrom (ts : List Token) : Clause → Prop
  | .node n _ => ∀ l ∈ n.label, IsContentOf ts .label l
  | .edge e => ∀ l ∈ e.label, IsContentOf ts .edgeLabel l
  | _ => True

/-- A subgraph of which the label is that of one of the tokens `ts`. -/
def Subgraph.LabelledFrom (ts : List Token) (s : Subgraph) : Prop :=
  ∀ l ∈ s.label, IsLabelOf ts .label l

/-- References with declarations of which the labels are those of the tokens `ts`. -/
def AreLabelled (ts : List Token) (rs : List Reference) : Prop :=
  ∀ r ∈ rs, ∀ c ∈ r.declaration, c.LabelledFrom ts

/-- Links of which the labels, and those of their targets, are those of the tokens `ts`. -/
def LinksLabelled (ts : List Token) (ls : List Link) : Prop :=
  ∀ l ∈ ls, (∀ x ∈ l.label, IsContentOf ts .edgeLabel x) ∧ AreLabelled ts l.targets

variable {ts : List Token} {n : Nat} {P : Cursor → Prop}

/-! ### Nodes and edges -/

theorem ensures_labelOf {kind : TokenKind} {token : Option Token}
    (h : ∀ t ∈ token, t ∈ ts ∧ t.kind = kind) :
    Ensures P (labelOf token) fun l c => (∀ x ∈ l, IsContentOf ts kind x) ∧ P c := by
  cases token with
  | none => exact .pure fun _ hc => ⟨(fun _ h => nomatch h), hc⟩
  | some t =>
    obtain ⟨ht, hkind⟩ := h t rfl
    show Ensures P (if (innerText t.text).isEmpty then return none else
      some <$> content (innerText t.text)) _
    refine .ite (fun _ => .pure fun _ hc => ⟨(fun _ h => nomatch h), hc⟩) fun hne => ?_
    refine .map ((ensures_content _).imp_right ?_)
    rintro l c ⟨⟨hraw, hcontent⟩, hc⟩
    refine ⟨?_, hc⟩
    rintro _ ⟨⟩
    have hempty : innerText t.text ≠ "" := by simpa using hne
    exact ⟨⟨hraw ▸ hempty, t, ht, hkind, hraw.symm⟩, hcontent⟩

theorem ensures_reference : Ensures (Cursor.Below ts n) reference
    fun r c => AreLabelled ts [r] ∧ c.Below ts n := by
  refine .bind (passes_expect (by decide) _) fun token =>
    .bind_and (ensures_accept_below (by decide)) fun opener _ => ?_
  cases opener with
  | none =>
    refine .pure fun c hc => ⟨List.forall_mem_singleton.2 ?_, hc⟩
    exact fun _ h => nomatch h
  | some opener =>
    refine .bind_and (ensures_accept_below (by decide)) fun text htext =>
      .bind (passes_expect (by decide) _) fun closer => ?_
    split
    · exact .failAt _ _
    · refine .bind_and (ensures_labelOf htext) fun label hlabel => .pure fun c hc => ⟨?_, hc⟩
      refine List.forall_mem_singleton.2 ?_
      rintro _ ⟨⟩
      exact hlabel

theorem ensures_moreReferences (rs : List Reference) :
    Ensures (fun c => AreLabelled ts rs ∧ c.Below ts n) (moreReferences rs)
      fun rs c => AreLabelled ts rs ∧ c.Below ts n := by
  refine .loop (I := fun rs c => AreLabelled ts rs ∧ c.Below ts n) (fun rs => ?_) rs
  refine .of_and fun hrs => .bind (passes_accept (by decide)) fun t => ?_
  cases t with
  | none => exact .pure fun c hc => ⟨hrs, hc⟩
  | some t =>
    exact .bind_and ensures_reference fun r hr => .pure fun c hc =>
      ⟨List.forall_mem_append.2 ⟨hrs, hr⟩, hc⟩

theorem ensures_group : Ensures (Cursor.Below ts n) group
    fun rs c => AreLabelled ts rs ∧ c.Below ts n :=
  .bind ensures_reference fun _ => ensures_moreReferences _

theorem ensures_links : Ensures (Cursor.Below ts n) links
    fun ls c => LinksLabelled ts ls ∧ c.Below ts n := by
  refine (Ensures.loop (I := fun ls c => LinksLabelled ts ls ∧ c.Below ts n) (fun ls => ?_) []).imp
    (fun c hc => ⟨List.forall_mem_nil _, hc⟩) fun _ _ => id
  refine .of_and fun hls => .bind (passes_accept (by decide)) fun t => ?_
  cases t with
  | none => exact .pure fun c hc => ⟨hls, hc⟩
  | some t =>
    refine .bind ((steady_edgeKind (x := .flowchart) t).passes n) fun _ =>
      .bind_and (ensures_accept_below (by decide)) fun text htext =>
        .bind_and ensures_group fun targets htargets =>
          .bind_and (ensures_labelOf htext) fun label hlabel => .pure fun c hc => ⟨?_, hc⟩
    exact List.forall_mem_append.2 ⟨hls, List.forall_mem_singleton.2 ⟨hlabel, htargets⟩⟩

/-- The clauses of a chain have the labels of its declarations and links. -/
theorem labelledFrom_of_mem_chainClauses {first : List Reference} {ls : List Link}
    (hfirst : AreLabelled ts first) (hls : LinksLabelled ts ls) :
    ∀ c ∈ chainClauses first ls, c.LabelledFrom ts := by
  -- the nodes of a chain are declared by its references, at either side of its links
  have hshaped : ∀ c ∈ (first ++ ls.flatMap Link.targets).filterMap Reference.declaration,
      c.LabelledFrom ts := by
    intro c hc
    obtain ⟨r, hr, hc⟩ := List.mem_filterMap.1 hc
    rcases List.mem_append.1 hr with hr | hr
    · exact hfirst r hr c hc
    · obtain ⟨l, hl, hr⟩ := List.mem_flatMap.1 hr
      exact (hls l hl).2 r hr c hc
  have hedges : ∀ c ∈ chainEdges first ls, c.LabelledFrom ts := by
    clear hshaped hfirst
    induction ls generalizing first with
    | nil => exact List.forall_mem_nil _
    | cons l ls ih =>
      obtain ⟨hl, hls⟩ := List.forall_mem_cons.1 hls
      refine List.forall_mem_append.2 ⟨fun c hc => ?_, ih hls⟩
      obtain ⟨source, -, hc⟩ := List.mem_flatMap.1 hc
      obtain ⟨target, -, rfl⟩ := List.mem_map.1 hc
      exact hl.1
  refine List.forall_mem_append.2 ⟨hshaped, ?_⟩
  split
  -- without links, the references that declare nothing are mentioned, and a mention has no label
  · intro c hc
    obtain ⟨r, -, hc⟩ := List.mem_filterMap.1 hc
    split at hc
    · cases hc
      exact fun _ h => nomatch h
    · cases hc
  · exact hedges

theorem ensures_chain : Ensures (Cursor.Below ts n) chain
    fun cs _ => ∀ c ∈ cs, c.LabelledFrom ts :=
  .bind_and ensures_group fun _ hfirst => .bind_and ensures_links fun _ hls =>
    .bind .unknown fun _ => .pure fun _ _ => labelledFrom_of_mem_chainClauses hfirst hls

/-! ### Statements with a keyword -/

theorem ensures_subgraphLabel : Ensures (Cursor.Below ts n) subgraphLabel
    fun l _ => ∀ x ∈ l.filter (!·.isEmpty), IsLabelOf ts .label x := by
  refine .bind (passes_accept (by decide)) fun t => ?_
  cases t with
  | none => exact .pure fun _ _ _ h => nomatch h
  | some t =>
    refine .bind_and (ensures_accept_below (by decide)) fun text htext =>
      .bind .unknown fun _ => .pure fun _ _ => ?_
    cases text with
    | none => exact fun _ h => nomatch h
    | some text =>
      obtain ⟨hmem, hkind⟩ := htext text rfl
      intro x hx
      obtain ⟨heq, hne⟩ := Option.filter_eq_some_iff.1 hx
      cases heq
      exact ⟨by simpa using hne, text, hmem, hkind, rfl⟩

theorem ensures_subgraphName : Ensures (Cursor.Below ts n) subgraphName
    fun p _ => ∀ x ∈ p.2.filter (!·.isEmpty), IsLabelOf ts .label x := by
  refine .look_bind fun _ => .look_bind fun _ => .ite (fun _ => ?_) fun _ => .look_bind fun _ =>
    .ite (fun _ => ?_) fun _ => ?_
  · exact .bind .unknown fun _ => .pure fun _ _ _ h => nomatch h
  · exact .bind passes_advance fun _ => .bind ensures_subgraphLabel fun _ => .pure fun _ hl => hl
  · exact .look_bind fun _ => .bind .unknown fun _ => .ite (fun _ => .fail _) fun _ =>
      .ite (fun _ => .failAt _ _) fun _ => .pure fun _ _ _ h => nomatch h

theorem ensures_subgraphHead : Ensures (Cursor.Below ts n) subgraphHead
    fun s _ => s.LabelledFrom ts :=
  .bind passes_advance fun _ => .bind ensures_subgraphName fun _ => .of_fact fun hlabel =>
    .bind .unknown fun _ => .pure fun _ _ => hlabel

/-- Of the clauses that one keyword line makes none has a label. -/
theorem ensures_named_labels {make : String → String → Clause}
    (hmake : ∀ name styles, (make name styles).LabelledFrom ts) :
    Ensures P (named make) fun c _ => c.LabelledFrom ts :=
  .bind .unknown fun _ => .bind .unknown fun _ => .bind .unknown fun _ => .bind .unknown fun _ =>
    .pure fun _ _ => hmake _ _

theorem ensures_classAssignment_labels :
    Ensures P classAssignment fun c _ => c.LabelledFrom ts :=
  .bind .unknown fun _ => .bind .unknown fun _ => .bind .unknown fun _ => .bind .unknown fun _ =>
    .bind .unknown fun _ => .pure fun _ _ => trivial

/-! ### The diagram -/

/-- A draft in which all labels are those of the tokens `ts`, in closed statements and in open
subgraphs. -/
abbrev Draft.LabelledFrom (ts : List Token) (d : Draft) : Prop :=
  d.Every (Clause.LabelledFrom ts) (Subgraph.LabelledFrom ts)

theorem ensures_statement_labels {d : Draft} (hd : d.LabelledFrom ts) :
    Ensures (Cursor.Below ts n) (statement d) fun d' _ => d'.LabelledFrom ts := by
  have hclause : ∀ {x : Reading Clause}, (Ensures (Cursor.Below ts n) x
      fun c _ => c.LabelledFrom ts) → Ensures (Cursor.Below ts n) (do return d.add [← x])
        fun d' _ => d'.LabelledFrom ts := fun hx =>
    .bind hx fun _ => .pure fun _ hc => hd.add (List.forall_mem_singleton.2 hc)
  refine .look_bind fun _ => .look_bind fun _ => .look_bind fun _ => .ite ?newline fun _ =>
    .ite ?close fun _ => .ite ?subgraph fun _ => .ite ?direction fun _ => .ite ?classDef fun _ =>
      .ite ?classes fun _ => .ite ?style fun _ => ?chain
  case newline => exact fun _ => .bind .unknown fun _ => .pure fun _ _ => hd
  case close =>
    exact fun _ => .ite (fun _ => .fail _) fun _ => .bind .unknown fun _ => .bind .unknown fun _ =>
      .pure fun _ _ => hd.closeSubgraph
  case subgraph =>
    exact fun _ => .bind ensures_subgraphHead fun _ => .pure fun _ hhead => hd.openSubgraph hhead
  case direction =>
    exact fun _ => .bind .unknown fun x => .pure fun _ _ => hd.setDirection x fun _ => id
  case classDef => exact fun _ => hclause (ensures_named_labels fun _ _ => trivial)
  case classes => exact fun _ => hclause ensures_classAssignment_labels
  case style => exact fun _ => hclause (ensures_named_labels fun _ _ => trivial)
  case chain => exact .bind ensures_chain fun _ => .pure fun _ hcs => hd.add hcs

theorem ensures_header_labels : Ensures (Cursor.Below ts n) header
    fun d c => d.LabelledFrom ts ∧ c.Below ts n := by
  have hend : ∀ d : Draft, d.LabelledFrom ts → Ensures (Cursor.Below ts n)
      (do endStatement; return d) fun d c => d.LabelledFrom ts ∧ c.Below ts n := fun d hd =>
    .bind passes_endStatement fun _ => .pure fun _ hc => ⟨hd, hc⟩
  refine .bind ((steady_skipNewlines (d := .flowchart)).passes n) fun _ =>
    .bind ((steady_acceptWord (d := .flowchart) _).passes n) fun word => ?_
  cases word with
  | none => exact .fail _
  | some _ =>
    refine .look_bind fun _ => .ite (fun _ => ?_) fun _ => hend _ (.start _)
    exact .bind ((steady_takeDirection (d := .flowchart) _).passes n) fun x => hend _ (.start x)

/-- The labels of a flowchart that is read are those of tokens `ts` that were below the cursor. -/
theorem ensures_read_labels : Ensures (Cursor.Below ts n) read fun d _ =>
    ∀ s ∈ Statement.walk d.statements,
      s.Has (Clause.LabelledFrom ts) (Subgraph.LabelledFrom ts) := by
  have hstatement : ∀ d : Draft,
      Ensures (fun c => (d.LabelledFrom ts ∧ c.Below ts n) ∧ c.rest ≠ []) (statement d)
        fun d' c => d'.LabelledFrom ts ∧ c.Below ts n := by
    rintro d c d' c' ⟨⟨hd, hc⟩, hne⟩ hx
    have hfacing : c.Facing ts n := ⟨hc.mono (Nat.le_succ n), hne⟩
    exact ⟨ensures_statement_labels hd c d' c' hc hx,
      (moves_statement (x := .flowchart) d).passes n c d' c' hfacing hx⟩
  unfold read
  refine .bind ensures_header_labels fun d =>
    .bind (Ensures.untilEnd_of_ne_nil hstatement d) fun d => ?_
  split
  · exact .pure fun _ hc => hc.1.statements
  · exact .look_bind fun _ => .failAt _ _

/-- Every label of a flowchart `d` that comes from a document is that of a token of a text, and
stands on one line. -/
theorem labels_of_isRead {d : Flowchart} (h : (Diagram.flowchart d).IsRead) : ∃ ts : List Token,
    (∀ t ∈ ts, t.kind ≠ .newline → OnOneLine t.text.toList) ∧ ∀ s ∈ Statement.walk d.statements,
      s.Has (Clause.LabelledFrom ts) (Subgraph.LabelledFrom ts) := by
  apply h.of_ensures (x := read) (P := fun c => ∃ ts n,
      (∀ t ∈ ts, t.kind ≠ .newline → OnOneLine t.text.toList) ∧ c.Below ts n)
    (Q := fun d : Flowchart => ∃ ts : List Token,
      (∀ t ∈ ts, t.kind ≠ .newline → OnOneLine t.text.toList) ∧ ∀ s ∈ Statement.walk d.statements,
        s.Has (Clause.LabelledFrom ts) (Subgraph.LabelledFrom ts))
    (fun d e hde => Diagram.flowchart.inj hde) rfl
  · intro s _
    refine ⟨s.row, s.row.length + 1, fun t ht hkind => ?_, s.below_tokens⟩
    have hmem : t ∈ s.tokens := (List.dropLast_sublist _).subset (List.mem_of_mem_filter ht)
    rcases Token.exists_of_mem_place hmem with hend | ⟨cs, hcs, htext⟩
    · exact absurd hend (s.below_tokens.inner t ht)
    · rw [htext, String.toList_ofList]
      exact (Piece.cut_ofText _ _).2.onOneLine hcs hkind
  · exact .of_exists fun ts => .of_exists fun n => .of_and fun hts =>
      ensures_read_labels.imp_right fun _ _ hd => ⟨ts, hts, hd⟩

end Flowchart
end DiagramText
