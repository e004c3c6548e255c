import DiagramText.Proofs.Flowchart.First
import DiagramText.Proofs.Flowchart.Quoting
import DiagramText.Proofs.Flowchart.RoundTrip
import Mathlib.Data.List.Infix

/-!
# Labels that survive

A label that was read at a place of a flowchart is written into a line of its own, at a place of the
same kind, and the line is read.

* `Flowchart.Bearer`: what may have a label, with the lines that are written for it.
* `Flowchart.label_readsBack_iff`: the label is read back if and only if no delimiter that may close
  it stands behind its first double quote, and no space at its end if it is written without quotes.
* `Flowchart.label_lost_space`: a label of a document that is not read back.
-/

namespace DiagramText

open Text Reading

namespace Flowchart

/-! ### Labels that survive -/

/-- Whether a label survives can be told from the text `s` behind its first double quote and from
its end. In this form it is decidable. -/
theorem survives_iff {closers : List (List Char)} {s : String} : Survives closers s ↔ s ≠ "" ∧
    (∀ v ∈ (s.toList.dropWhile (· != '"')).tail?, ∀ k ∈ closers, ¬k <:+: v) ∧
      (isSafeLabel s.toList = true → s.toList.getLast? ≠ some ' ') := by
  have hsplit : ∀ u v : List Char, '"' ∉ u →
      ((u ++ '"' :: v).dropWhile (· != '"')).tail? = some v := by
    intro u v hu
    rw [List.dropWhile_append_of_pos fun c hc => by simpa using ne_of_mem_of_not_mem hc hu]
    rfl
  constructor
  · intro h
    refine ⟨h.ne_empty, fun v hv => ?_, fun hsafe hlast => h.space hsafe ' ' hlast rfl⟩
    by_cases hquote : '"' ∈ s.toList
    · obtain ⟨u, w, hs, hu⟩ := List.eq_append_cons_of_mem hquote
      rw [hs, hsplit u w hu] at hv
      cases hv
      exact h.closer u v hs hu
    · have hnil : s.toList.dropWhile (· != '"') = [] :=
        List.dropWhile_eq_nil_iff.2 fun c hc => by simpa using ne_of_mem_of_not_mem hc hquote
      rw [hnil] at hv
      cases hv
  · rintro ⟨hne, hcloser, hspace⟩
    refine ⟨hne, fun u v hs hu => hcloser v (by rw [hs]; exact hsplit u v hu), ?_⟩
    rintro hsafe c hc rfl
    exact hspace hsafe hc

instance (closers : List (List Char)) (s : String) : Decidable (Survives closers s) :=
  decidable_of_iff _ survives_iff.symm

/-! ### Bearers of labels -/

/-- What may have a label: a node of some shape, an edge, or a subgraph. -/
inductive Bearer where
  | node (shape : Shape)
  | edge
  | subgraph
deriving DecidableEq

namespace Bearer

/-- The delimiters that may close the label, of which there may be two for a slanted shape. -/
def closers : Bearer → List (List Char)
  | node s => closersOf s
  | edge => [['|']]
  | subgraph => [[']']]

/-- The delimiter that is written behind the label. It is one of those that may close it. -/
def closer : Bearer → List Char
  | node s => (delimiters s).2.toList
  | edge => ['|']
  | subgraph => [']']

theorem closes (b : Bearer) : Closes b.closers b.closer := by
  cases b with
  | node s => exact closes_delimiters s
  | edge => exact ⟨by decide, List.mem_cons_self, fun _ => rfl⟩
  | subgraph => exact closes_delimiters .rectangle

/-- The label of a statement of the kind `b`, as its raw text. -/
def label? : Bearer → Statement → Option String
  | node s, .clause (.node n _) => if n.shape = s then n.label.map Content.raw else none
  | edge, .clause (.edge e) => e.label.map Content.raw
  | subgraph, .subgraph head _ => head.label
  | _, _ => none

/-- The labels of a flowchart at places of the kind `b`, at any depth. -/
def labels (b : Bearer) (d : Flowchart) : List String :=
  (Statement.walk d.statements).filterMap b.label?

/-- The label of the first statement of a flowchart, if it is of the kind `b` and has one. -/
def first? (b : Bearer) (d : Flowchart) : Option String := d.statements.head?.bind b.label?

/-- The statement of the kind `b` with a label, and with the ids and the kind of edge that it
needs. -/
def statement (b : Bearer) (id target : String) (kind : EdgeKind) (label : String) : Statement :=
  match b with
  | node s => .clause (.node ⟨id, some (.ofText label), s⟩ none)
  | edge => .clause (.edge ⟨id, target, kind, some (.ofText label), none⟩)
  | subgraph => .subgraph { id, label := some label } []

/-- The flowchart of one such statement, with the nodes that it mentions. -/
def flowchart (b : Bearer) (x : Direction) (id target : String) (kind : EdgeKind)
    (label : String) : Flowchart :=
  let statements := [b.statement id target kind label]
  ⟨x, statements, Registry.ofStatements statements⟩

theorem label?_front (b : Bearer) (s : Statement) : b.label? s.front = b.label? s := by
  cases s with
  | clause c => rfl
  | subgraph head body => cases b <;> rfl

theorem label?_unplaced (b : Bearer) (s : Statement) : b.label? s.unplaced = b.label? s := by
  cases s with
  | clause c => cases c <;> cases b <;> rfl
  | subgraph head body => cases b <;> rfl

theorem first?_unplaced (b : Bearer) (d : Flowchart) : b.first? d.unplaced = b.first? d := by
  obtain ⟨direction, statements, nodes⟩ := d
  cases statements with
  | nil => rfl
  | cons s ss => exact b.label?_unplaced s

/-! ### Lines -/

variable {id target label : String} {kind : EdgeKind} {layout : Layout} {x : Direction}

/-- The text of the line of the statement for `b`, without its indent. -/
def text (b : Bearer) (id target : String) (kind : EdgeKind) (label : String) : String :=
  match b with
  | node s => Node.text ⟨id, some (.ofText label), s⟩
  | edge => Edge.text ⟨id, target, kind, some (.ofText label), none⟩
  | subgraph => Subgraph.text { id, label := some label }

/-- The text of the line behind that of the statement, if there is one: a subgraph is closed
there. -/
def closing : Bearer → List String
  | subgraph => ["end"]
  | _ => []

/-- The lines that are written for the statement of `b`, behind the header. -/
theorem lines_flowchart (b : Bearer) :
    (b.flowchart x id target kind label).lines layout = s!"flowchart {x.name}" ::
      layout.line 1 (b.text id target kind label) :: b.closing.map (layout.line 1) := by
  rw [Flowchart.lines, Agenda.lines_body, Agenda.lines_nil, List.append_nil, agenda_items,
    bodyItems, flowchart]
  dsimp only
  rw [List.flatMap_singleton]
  cases b with
  | node s => rw [statement, lines_clause]; rfl
  | edge => rw [statement, lines_clause]; rfl
  | subgraph =>
    rw [statement, lines_subgraph, bodyItems, List.flatMap_nil, Agenda.lines_nil]
    rfl

/-- What is written before the label, up to the delimiter that opens it. -/
def before (id : String) (kind : EdgeKind) : Bearer → String
  | node s => id ++ (delimiters s).1
  | edge => s!"{id} {kind.text}|"
  | subgraph => s!"subgraph {id}["

theorem toList_before_node (s : Shape) :
    (before id kind (node s)).toList = id.toList ++ (delimiters s).1.toList := String.toList_append

theorem toList_before_edge :
    (before id kind edge).toList = id.toList ++ ' ' :: (kind.text.toList ++ ['|']) := by
  simp [before, toString]

theorem toList_before_subgraph : (before id kind subgraph).toList =
    "subgraph".toList ++ ' ' :: (id.toList ++ (delimiters .rectangle).1.toList) := by
  simp [before, delimiters, toString]

/-- What is written behind the delimiter that closes the label: the target of an edge. -/
def behind (target : String) : Bearer → List Char
  | edge => ' ' :: target.toList
  | _ => []

theorem toList_text (b : Bearer) (hid : isSafeId id = true) : (b.text id target kind label).toList =
    (b.before id kind).toList ++ ((labelText label).toList ++ (b.closer ++ b.behind target)) := by
  unfold text
  have hraw := Content.raw_ofText label
  generalize Content.ofText label = l at hraw
  cases b with
  | node s =>
    dsimp only
    rw [Node.toList_text]
    simp [Node.isBare, labelChars, hraw, before, closer, behind]
  | edge =>
    dsimp only
    rw [Edge.toList_text]
    simp [hraw, before, closer, behind, toString]
  | subgraph =>
    dsimp only
    rw [Subgraph.toList_text]
    simp [Subgraph.nameChars, hid, before, closer, behind, toString]

/-- The line of the statement stays a line if the `label` is on one line. -/
theorem onOneLine_text (b : Bearer) (hid : IsName id) (htarget : IsName target)
    (hlabel : OnOneLine label.toList) : OnOneLine (b.text id target kind label).toList := by
  -- what stands before the label and behind it is plain, whatever bears the label
  have hbefore : Plain (b.before id kind).toList := by
    have hname : Plain id.toList := IsHyphenated.plain hid.1
    cases b with
    | node s =>
      have hopener : Plain (delimiters s).1.toList := by
        cases s <;> decide
      rw [toList_before_node]
      exact Plain.append.2 ⟨hname, hopener⟩
    | edge =>
      have hkind : Plain (kind.text.toList ++ ['|']) := by
        cases kind <;> decide
      rw [toList_before_edge]
      exact Plain.append.2 ⟨hname, Plain.space hkind⟩
    | subgraph =>
      have hkeyword : Plain "subgraph".toList := by decide
      have hbracket : Plain (delimiters .rectangle).1.toList := by decide
      rw [toList_before_subgraph]
      exact Plain.append.2 ⟨hkeyword, Plain.space (Plain.append.2 ⟨hname, hbracket⟩)⟩
  have hbehind : Plain (b.closer ++ b.behind target) := by
    have htail : Plain (b.behind target) := by
      cases b with
      | node s => exact .nil
      | edge => exact Plain.space (IsHyphenated.plain htarget.1)
      | subgraph => exact .nil
    have hcloser : Plain b.closer := by
      cases b with
      | node s => cases s <;> decide
      | edge => decide
      | subgraph => decide
    exact Plain.append.2 ⟨hcloser, htail⟩
  have hquote : OnOneLine ['"'] := onOneLine_of_plain (by decide)
  -- the quotes that a label may get break no line either
  have hwritten : OnOneLine (labelText label).toList := by
    unfold labelText
    split
    · exact hlabel
    · rw [toList_doubleQuoted]
      exact (hquote.append hlabel).append hquote
  rw [b.toList_text hid.1]
  exact (onOneLine_of_plain hbefore).append (hwritten.append (onOneLine_of_plain hbehind))

/-- What is written for the flowchart stays as many lines as it is, if the `label` is on one
line. -/
theorem onOneLine_lines (b : Bearer) (hlayout : layout.IsBlank) (hid : IsName id)
    (htarget : IsName target) (hlabel : OnOneLine label.toList) :
    ∀ m ∈ (b.flowchart x id target kind label).lines layout, OnOneLine m.toList := by
  have hline : ∀ text : String, OnOneLine text.toList →
      OnOneLine (layout.line 1 text).toList := by
    intro text htext
    rw [Layout.line, String.toList_append]
    exact (onOneLine_of_blank (Layout.isSpaceOrTab_of_mem_pad hlayout 1)).append htext
  have hheadline : Plain s!"flowchart {x.name}".toList := by
    cases x <;> decide +kernel
  rw [lines_flowchart]
  refine List.forall_mem_cons.2 ⟨onOneLine_of_plain hheadline, List.forall_mem_cons.2
    ⟨hline _ (b.onOneLine_text hid htarget hlabel), fun m hm => ?_⟩⟩
  obtain ⟨text, htext, rfl⟩ := List.mem_map.1 hm
  refine hline text (onOneLine_of_plain ?_)
  cases b with
  | subgraph =>
    rw [List.mem_singleton.1 htext]
    decide
  | _ => cases htext

/-! ### Rows -/

/-- The first tokens of the line, with the `label` and the `closer` that are found there. -/
def row (gap : List Char) (id : String) (kind : EdgeKind) (label closer : List Char) :
    Bearer → List Token
  | node s => [.plain .identifier gap id.toList, .plain .shapeOpen [] (delimiters s).1.toList,
      .plain .label [] label, .plain .shapeClose [] closer]
  | edge => [.plain .identifier gap id.toList, .plain .edge [' '] kind.text.toList,
      .plain .edgeLabel ['|'] label]
  | subgraph => [.plain .identifier gap "subgraph".toList, .plain .identifier [' '] id.toList,
      .plain .shapeOpen [] ['['], .plain .label [] label, .plain .shapeClose [] closer]

/-- The row of the line starts with the label up to some delimiter, which is that of the bearer only
if the label survives. Where the label ends is known without reading what is left of it. -/
theorem exists_flow (b : Bearer) (hid : IsName id) (hne : label ≠ "") (gap : List Char) :
    ∃ found closer ts, Token.flow false gap (b.text id target kind label).toList =
        b.row gap id kind found closer ++ ts ∧
      (innerText (String.ofList found) = label → Survives b.closers label) := by
  obtain ⟨r, l, c, hsplit, hl, hr, hbefore, hsurvives⟩ :=
    exists_labelBefore b.closes hne (b.behind target)
  obtain ⟨e, cs, hcs, he⟩ := exists_labelText label
  have hinner : r ++ (l ++ c) = e :: (cs ++ (b.closer ++ b.behind target)) := by
    rw [← hsplit, hcs]
    rfl
  have hopen : e ∉ ['(', '[', '{'] := fun hmem => he (List.mem_append_left ['/', '\\'] hmem)
  have hslash : e ∉ ['/', '\\'] := fun hmem => he (List.mem_append_right ['(', '[', '{'] hmem)
  rw [b.toList_text hid.1, hsplit]
  -- Up to the label the row is what is written there, and the label goes up to the first delimiter
  -- that may close it.
  cases b with
  | node s =>
    refine ⟨r, l, Token.flow false [] c, ?_, hsurvives⟩
    rw [toList_before_node, List.append_assoc, flow_name hid.1 (head_opener s _),
      flow_shape_first s hbefore hinner hopen (fun _ => hslash), if_neg hr]
    rfl
  | edge =>
    obtain rfl : l = ['|'] := List.mem_singleton.1 hl
    refine ⟨r, ['|'], Token.flow false ['|'] c, ?_, hsurvives⟩
    rw [List.singleton_append] at hbefore ⊢
    rw [toList_before_edge, List.append_assoc, List.cons_append, List.append_assoc,
      flow_name_space hid.1, List.singleton_append, flow_edgeKind kind (.inr rfl),
      Token.flow_edgeLabel hbefore]
    rfl
  | subgraph =>
    refine ⟨r, l, Token.flow false [] c, ?_, hsurvives⟩
    rw [toList_before_subgraph, List.append_assoc, List.cons_append, List.append_assoc,
      flow_name_space (by decide), flow_name hid.1 (head_opener .rectangle _),
      flow_shape_first .rectangle hbefore hinner hopen (fun _ => hslash), if_neg hr]
    rfl

/-- The same is true of the whole written line, behind its indent. -/
theorem exists_fullLine (b : Bearer) (hlayout : layout.IsBlank) (hid : IsName id)
    (hne : label ≠ "") : ∃ found closer ts,
      Token.fullLine .flowchart (layout.line 1 (b.text id target kind label)) =
        b.row (layout.pad 1).toList id kind found closer ++ ts ∧
      (innerText (String.ofList found) = label → Survives b.closers label) := by
  obtain ⟨found, closer, us, hflow, hsurvives⟩ :=
    b.exists_flow hid hne (layout.pad 1).toList
  have hline : Token.ofLine .flowchart [] (layout.line 1 (b.text id target kind label)).toList =
      b.row (layout.pad 1).toList id kind found closer ++ us := by
    rw [Layout.line, String.toList_append,
      Token.skipsBlanks_flowchart _ (Layout.isSpaceOrTab_of_mem_pad hlayout 1), ← hflow]
    rfl
  have hkind : (b.row (layout.pad 1).toList id kind found closer).filter Token.isRead =
      b.row (layout.pad 1).toList id kind found closer := by
    cases b <;> rfl
  refine ⟨found, closer, us.filter Token.isRead ++
    [Token.lineBreak .flowchart (layout.line 1 (b.text id target kind label)).toList], ?_,
    hsurvives⟩
  rw [Token.fullLine, hline, List.filter_append, hkind, List.append_assoc]

/-- What the line makes first has the label `found` that is in its row, or no label of the kind. -/
theorem exists_front (b : Bearer) (hid : IsName id) (gap : List Char) {found closer : List Char}
    {past ts : List Token} {final : Token} {d : Draft} {c : Cursor}
    (h : Flowchart.statement { direction := x }
      ⟨past, b.row gap id kind found closer ++ ts, final⟩ = .ok (d, c)) :
    ∃ s, d.front? = some s ∧ ∀ l ∈ b.label? s, l = innerText (String.ofList found) := by
  cases b with
  | node shape =>
    obtain ⟨n, p, hfront, hlabel⟩ := front_of_node hid gap rfl rfl rfl h
    refine ⟨_, hfront, fun l hl => ?_⟩
    rw [label?, Option.mem_ite_none_right] at hl
    obtain ⟨m, hm, rfl⟩ := Option.map_eq_some_iff.1 hl.2
    exact hlabel m hm
  | edge =>
    obtain ⟨y, hfront, hlabel⟩ := front_of_edge hid gap rfl rfl h
    refine ⟨_, hfront, fun l hl => ?_⟩
    cases y with
    | edge e =>
      obtain ⟨m, hm, rfl⟩ := Option.map_eq_some_iff.1 hl
      exact hlabel e rfl m hm
    | _ => cases hl
  | subgraph =>
    obtain ⟨head, hfront, hlabel⟩ := front_of_subgraph gap rfl rfl rfl rfl h
    exact ⟨_, hfront, hlabel⟩

/-! ### Reading the lines -/

/-- A `label` of a document is not empty, stands on one line, and means something unless it is that
of a subgraph. -/
theorem spec_of_mem_labels {d : Flowchart} (h : (Diagram.flowchart d).IsRead) {b : Bearer}
    (hlabel : label ∈ b.labels d) : label ≠ "" ∧ OnOneLine label.toList ∧
      (b ≠ subgraph → Content.ofText? label = some (.ofText label)) := by
  obtain ⟨ts, hts, hall⟩ := labels_of_isRead h
  obtain ⟨s, hs, hlabel⟩ := List.mem_filterMap.1 hlabel
  have hhas := hall s hs
  have hof : ∀ kind, kind ≠ .newline → ∀ l, IsLabelOf ts kind l → l ≠ "" ∧ OnOneLine l.toList := by
    rintro kind hkind l ⟨hne, t, ht, rfl, rfl⟩
    exact ⟨hne, fun c hc => hts t ht hkind c ((innerText_sublist t.text).subset hc)⟩
  have hcontent : ∀ kind, kind ≠ .newline → ∀ l : Content, IsContentOf ts kind l →
      l.raw ≠ "" ∧ OnOneLine l.raw.toList ∧ Content.ofText? l.raw = some (.ofText l.raw) :=
    fun kind hkind l hl => ⟨(hof kind hkind _ hl.1).1, (hof kind hkind _ hl.1).2,
      hl.2.trans (congrArg some (Content.eq_ofText hl.2))⟩
  -- a label stands at its own kind of place only
  unfold label? at hlabel
  split at hlabel
  next shape n p =>
    rw [Option.ite_none_right_eq_some, Option.map_eq_some_iff] at hlabel
    obtain ⟨-, l, hl, rfl⟩ := hlabel
    obtain ⟨hne, hline, hmeans⟩ := hcontent .label (by decide) l (hhas l hl)
    exact ⟨hne, hline, fun _ => hmeans⟩
  next e =>
    obtain ⟨l, hl, rfl⟩ := Option.map_eq_some_iff.1 hlabel
    obtain ⟨hne, hline, hmeans⟩ := hcontent .edgeLabel (by decide) l (hhas l hl)
    exact ⟨hne, hline, fun _ => hmeans⟩
  next head body =>
    obtain ⟨hne, hline⟩ := hof .label (by decide) label (hhas label hlabel)
    exact ⟨hne, hline, fun h => absurd rfl h⟩
  next => cases hlabel

/-- The lines of a `label` that survives are read as a statement that has it, whatever ids stand
beside it. -/
theorem exists_runs (b : Bearer) (hlayout : layout.IsBlank) (hid : IsName id)
    (htarget : IsName target) (h : Survives b.closers label)
    (hmeans : b ≠ subgraph → Content.ofText? label = some (.ofText label)) :
    ∃ d, d.opened = [] ∧ d.statements.head?.bind b.label? = some label ∧
      Runs Flowchart.statement { direction := x }
        (Token.fullLine .flowchart (layout.line 1 (b.text id target kind label)) ++
          (b.closing.map (layout.line 1)).flatMap (Token.fullLine .flowchart)) d := by
  -- A clause is one line. A subgraph needs a second one, which closes it.
  have hclause : ∀ c : Clause, c.Legible → ∃ d : Draft, d.opened = [] ∧
      d.statements = [.clause c.atOrigin] ∧ Runs Flowchart.statement { direction := x }
        (Token.fullLine .flowchart (layout.line 1 c.text) ++ []) d := by
    intro c hc
    refine ⟨Draft.add { direction := x } [c.atOrigin], rfl, rfl, ?_⟩
    rw [List.append_nil]
    exact .line Token.skipsBlanks_flowchart hlayout 1 (flow_clause hc _)
      (Clause.kind_ne_comment hc _) fun _ _ _ hnl => statement_clause hc _ hnl
  have hraw := Content.raw_ofText label
  cases b with
  | node s =>
    obtain ⟨d, hopened, hstatements, hruns⟩ := hclause (.node ⟨id, some (.ofText label), s⟩ none)
      ⟨hid, by rintro _ ⟨⟩; exact ⟨hraw.symm ▸ h, hraw.symm ▸ hmeans nofun⟩⟩
    refine ⟨d, hopened, ?_, hruns⟩
    rw [hstatements]
    show (if s = s then some (Content.ofText label).raw else none) = some label
    rw [if_pos rfl, hraw]
  | edge =>
    obtain ⟨d, hopened, hstatements, hruns⟩ :=
      hclause (.edge ⟨id, target, kind, some (.ofText label), none⟩)
        ⟨hid, htarget, by rintro _ ⟨⟩; exact ⟨hraw.symm ▸ h, hraw.symm ▸ hmeans nofun⟩⟩
    refine ⟨d, hopened, ?_, hruns⟩
    rw [hstatements]
    exact congrArg some hraw
  | subgraph =>
    -- The id is a name, so it is written as it is.
    have hquote : '"' ∉ id.toList := by
      obtain ⟨c, cs, hcs, hc, hall⟩ := IsHyphenated.exists_cons hid.1
      rw [hcs]
      intro hmem
      rcases List.mem_cons.1 hmem with rfl | hmem
      · exact absurd hc (by decide)
      · exact absurd (hall '"' hmem) (by decide)
    let head : Subgraph := { id, label := some label }
    have hlegible : head.Legible := ⟨hquote, fun _ => hid.1, by rintro _ ⟨⟩; exact h⟩
    have hopen : Runs Flowchart.statement { direction := x }
        (Token.fullLine .flowchart (layout.line 1 head.text))
        (Draft.within { direction := x } ⟨head.atOrigin, []⟩) :=
      .line Token.skipsBlanks_flowchart hlayout 1 (flow_subgraph hlegible _)
        (head.kind_ne_comment _) fun _ _ _ hnl => statement_open hlegible _ hnl
    have hclose := (readsLines_end hlayout 1 { direction := x } ⟨head.atOrigin, []⟩).runs
    exact ⟨_, rfl, rfl, hopen.append hclose⟩

/-- A statement that is read of the lines has the label only if it survives: what is read first is
known from the row, and the rest of the lines cannot change it. -/
theorem survives_of_untilEnd (b : Bearer) (hlayout : layout.IsBlank) (hid : IsName id)
    {past ts : List Token} {d : Draft} {c : Cursor}
    (h : untilEnd Flowchart.statement { direction := x } ⟨past,
      Token.fullLine .flowchart (layout.line 1 (b.text id target kind label)) ++ ts,
      Token.endOfInput⟩ = .ok (d, c)) (hopened : d.opened = []) (hne : label ≠ "")
    (hlabel : d.statements.head?.bind b.label? = some label) : Survives b.closers label := by
  obtain ⟨found, closer, us, hline, hsurvives⟩ :=
    b.exists_fullLine hlayout hid hne
  obtain ⟨t, row, hrow⟩ : ∃ t row, b.row (layout.pad 1).toList id kind found closer = t :: row := by
    cases b <;> exact ⟨_, _, rfl⟩
  rw [hline, List.append_assoc, hrow, List.cons_append] at h
  obtain ⟨d₁, c₁, hfirst, -, hrest⟩ := exists_of_untilEnd_cons h
  rw [← List.cons_append, ← hrow] at hfirst
  obtain ⟨s, hs, hfound⟩ := b.exists_front hid _ hfirst
  -- later statements do not change what is first
  have hfront : d.statements.head?.map Statement.front = some s := by
    have hd := Draft.front?_of_untilEnd hs hrest
    rw [Draft.front?, hopened] at hd
    simpa using hd
  obtain ⟨s', hs', hlabel⟩ := Option.bind_eq_some_iff.1 hlabel
  rw [hs', Option.map_some] at hfront
  rw [← b.label?_front, Option.some.inj hfront] at hlabel
  exact hsurvives (hfound label hlabel).symm

/-! ### Reading the segment -/

/-- A diagram `e` that is equal to a flowchart `d` without positions is a flowchart itself. -/
theorem exists_flowchart {e : Diagram} {d : Flowchart}
    (h : e.unplaced = (Diagram.flowchart d).unplaced) :
    ∃ d', e = .flowchart d' ∧ d'.unplaced = d.unplaced := by
  cases e with
  | flowchart d' => exact ⟨d', rfl, Diagram.flowchart.inj h⟩
  | _ => cases h

/-- What the first `label` of a segment `s` is can be told from its row, as places do not matter to
it. -/
theorem read_iff_row (b : Bearer) (s : Segment) :
    (∃ e, s.read = .ok (.flowchart e) ∧ b.first? e = some label) ↔
      ∃ e c, diagram s.dialect (Cursor.ofText s.dialect s.text.toList) = .ok (.flowchart e, c) ∧
        b.first? e = some label := by
  constructor
  · rintro ⟨e, he, hfirst⟩
    obtain ⟨e', c, he', hu⟩ := (s.read_iff_row _).1 ⟨_, he, rfl⟩
    obtain ⟨d, rfl, hd⟩ := exists_flowchart hu
    exact ⟨d, c, he', by rw [← b.first?_unplaced, hd, b.first?_unplaced, hfirst]⟩
  · rintro ⟨e, c, he, hfirst⟩
    obtain ⟨e', he', hu⟩ := (s.read_iff_row _).2 ⟨_, c, he, rfl⟩
    obtain ⟨d, rfl, hd⟩ := exists_flowchart hu
    exact ⟨d, he', by rw [← b.first?_unplaced, hd, b.first?_unplaced, hfirst]⟩

end Bearer

/-- A label of a flowchart `d` that was read is read back from a line that is written for it,
between the delimiters of the same shape, of an edge or of a subgraph, if and only if it survives:
no delimiter that may close it stands behind its first double quote, and it does not end with a
space if all of it can be written without quotes. -/
theorem label_readsBack_iff {layout : Layout} (hlayout : layout.IsBlank) {src : String}
    {p : Program} (hread : Program.read src = .ok p) {d : Flowchart}
    (hd : .flowchart d ∈ p.diagrams) {b : Bearer} {label : String} (hlabel : label ∈ b.labels d)
    {id target : String} (hid : IsName id) (htarget : IsName target) (x : Direction)
    (kind : EdgeKind) :
    (∃ e, (Segment.mk .flowchart ((b.flowchart x id target kind label).write layout ++ "\n")
        1 0).read = .ok (.flowchart e) ∧ b.first? e = some label) ↔
      Survives b.closers label := by
  obtain ⟨hne, hline, hmeans⟩ := Bearer.spec_of_mem_labels ⟨src, p, hread, hd⟩ hlabel
  have hlines : ∀ m ∈ (b.flowchart x id target kind label).lines layout, OnOneLine m.toList :=
    b.onOneLine_lines hlayout hid htarget hline
  rw [Bearer.lines_flowchart] at hlines
  rw [Bearer.read_iff_row, Flowchart.write, Bearer.lines_flowchart]
  dsimp only
  rw [ofText_lines .flowchart hlines, List.flatMap_cons, List.flatMap_cons]
  constructor
  · rintro ⟨e, c, he, hfirst⟩
    obtain ⟨past, d, hrest, hopened, rfl⟩ := exists_of_diagram_lines x he
    exact b.survives_of_untilEnd hlayout hid hrest hopened hne hfirst
  · intro h
    obtain ⟨d, hopened, hfirst, hruns⟩ := b.exists_runs hlayout hid htarget h hmeans
    obtain ⟨c, hc⟩ := read_lines x hruns hopened
    exact ⟨_, c, hc, hfirst⟩

/-- A label of an edge with a quote, a bracket and a space at its end is read back. -/
theorem label_readsBack_quote : ∃ e,
    (Segment.mk .flowchart ((Bearer.edge.flowchart .td "C" "D" .dottedLine "say \"hi] ").write {} ++
      "\n") 1 0).read = .ok (.flowchart e) ∧ Bearer.edge.first? e = some "say \"hi] " := by
  let label : Content := .plain "say \"hi] "
  let d : Flowchart := ⟨.lr, [.clause (.edge ⟨"A", "B", .arrow, some label, some ⟨2, 2, 15⟩⟩)],
    [.bare "A", .bare "B"]⟩
  have hread : Program.read "flowchart LR\nA -->|\"say \"hi] \"| B\n" = .ok ⟨[.flowchart d]⟩ := by
    decide +kernel
  have hlabel : label.raw ∈ Bearer.edge.labels d := by decide +kernel
  exact (label_readsBack_iff (by simp [Layout.IsBlank, isSpaceOrTab]) hread List.mem_cons_self
    hlabel (by decide) (by decide) .td .dottedLine).2 (by decide +kernel)

/-- A space at the end of a label is lost: the label is written without quotes, and the blanks
around those are not part of a label. -/
theorem label_lost_space : ∃ d e,
    Program.read "flowchart LR\nA[\"x \"]\n" = .ok ⟨[.flowchart d]⟩ ∧
      Program.read (Program.write {} ⟨[.flowchart d]⟩) = .ok ⟨[.flowchart e]⟩ ∧
        (Bearer.node .rectangle).labels d = ["x "] ∧ (Bearer.node .rectangle).labels e = ["x"] := by
  let shaped (label : String) : Flowchart :=
    ⟨.lr, [.clause (.node ⟨"A", some (.plain label), .rectangle⟩ (some ⟨2, 0, 13⟩))],
      [⟨"A", some (.plain label), .rectangle⟩]⟩
  refine ⟨shaped "x ",
    ⟨.lr, [.clause (.node ⟨"A", some (.plain "x"), .rectangle⟩ (some ⟨2, 4, 17⟩))],
      [⟨"A", some (.plain "x"), .rectangle⟩]⟩, ?_, ?_, ?_, ?_⟩ <;> decide +kernel

end Flowchart
end DiagramText
