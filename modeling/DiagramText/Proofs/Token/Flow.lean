import DiagramText.Proofs.Token.Content
import DiagramText.Proofs.Text.Word
import Mathlib.Data.List.Basic
import Mathlib.Data.List.TakeWhile

/-!
# Lines of flowcharts

No rule of the flowchart dialect looks at the character before it, but delimiters open a label only
behind an identifier. So the row of the rest of a line depends on one thing before it: whether an
identifier came last.

* `Token.flow`: the row of the rest of a line.
* `Token.flow_blanks`, `Token.flow_lexeme`, `Token.flow_shape` and `Token.flow_edgeLabel` are its
  steps.
* `Token.trim_source_flow`: a text without bars is the source of its row.
-/

namespace DiagramText

open Text

namespace Piece

/-! ### What a step knows -/

/-- Whether an identifier came last behind some pieces, `named` being whether one did before. -/
def leavesNamed (named : Bool) (ps : List Piece) : Bool :=
  (ps.foldl Context.push { afterIdentifier := named }).afterIdentifier

theorem afterIdentifier_foldl (c : Context) (ps : List Piece) :
    (ps.foldl Context.push c).afterIdentifier = leavesNamed c.afterIdentifier ps := by
  induction ps generalizing c with
  | nil => rfl
  | cons p ps ih =>
    rw [leavesNamed, List.foldl_cons, List.foldl_cons, ih, ih]
    cases p <;> rfl

/-- Only whether an identifier came last matters to the rest of a line `cs`. The character before it
does not. -/
theorem ofRest_flowchart (c : Context) (cs : List Char) :
    ofRest .flowchart c cs = ofRest .flowchart { afterIdentifier := c.afterIdentifier } cs := by
  induction hlen : cs.length using Nat.strongRecOn generalizing c cs with
  | _ len ih =>
    cases cs with
    | nil => rw [ofRest, ofRest]
    | cons e cs =>
      have hnext : next .flowchart c (e :: cs) =
          next .flowchart { afterIdentifier := c.afterIdentifier } (e :: cs) := rfl
      have hlt : ∀ n, (cs.drop n).length < len := by
        intro n
        rw [List.length_drop, ← hlen, List.length_cons]
        omega
      rw [ofRest, ofRest, hnext, ih _ (hlt _) _ _ rfl, ih _ (hlt _) (List.foldl _ _ _) _ rfl,
        afterIdentifier_foldl, afterIdentifier_foldl]

/-- The pieces `ps` of the next step come first, whatever their characters are, and the rest goes on
behind them. -/
theorem ofRest_step {named : Bool} {x b : List Char} {ps : List Piece} (hne : x ≠ [])
    (hnext : next .flowchart { afterIdentifier := named } (x ++ b) = ps)
    (hchars : ps.flatMap chars = x) :
    ofRest .flowchart { afterIdentifier := named } (x ++ b) =
      ps ++ ofRest .flowchart { afterIdentifier := leavesNamed named ps } b := by
  obtain ⟨c, x, rfl⟩ := List.exists_cons_of_ne_nil hne
  have hdrop : (x ++ b).drop ((c :: x).length - 1) = b := by
    rw [List.length_cons, Nat.add_sub_cancel, List.drop_left]
  rw [List.cons_append] at hnext ⊢
  rw [ofRest, hnext, hchars, hdrop, ofRest_flowchart, afterIdentifier_foldl]

/-! ### Where labels start -/

/-- Whether a character `c` can start a label: a bar, or a delimiter behind an identifier. -/
def startsLabel (named : Bool) (c : Char) : Bool :=
  c == '|' || named && ['(', '[', '{', '>'].contains c

theorem label?_eq_none {named : Bool} {cs : List Char}
    (h : ∀ c ∈ cs.head?, startsLabel named c = false) :
    label? .flowchart { afterIdentifier := named } cs = none := by
  cases cs with
  | nil => cases named <;> rfl
  | cons c cs =>
    have hc := h c rfl
    rw [startsLabel, Bool.or_eq_false_iff, beq_eq_false_iff_ne] at hc
    have hedge : edgeLabel? (c :: cs) = none := edgeLabel?.eq_2 _ (by rintro _ ⟨⟩; exact hc.1 rfl)
    cases named with
    | false => rw [label?, hedge]; rfl
    | true =>
      have hdelimiter : c ∉ ['(', '[', '{', '>'] := fun hmem => by
        rw [Bool.true_and, List.contains_iff_mem.2 hmem] at hc
        cases hc.2
      -- every opening delimiter starts with one of four brackets
      have hshape : shape? (c :: cs) = none := by
        rw [shape?, List.findSome?_eq_none_iff]
        have hheads : ∀ p ∈ shapeDelimiters,
            p.1 ≠ [] ∧ ∀ e ∈ p.1.head?, e ∈ ['(', '[', '{', '>'] := by decide
        rintro ⟨opener, closers⟩ hmem
        obtain ⟨hne, hhead⟩ := hheads _ hmem
        obtain ⟨e, opener, rfl⟩ := List.exists_cons_of_ne_nil hne
        have hec : (e == c) = false := by
          rw [beq_eq_false_iff_ne]
          rintro rfl
          exact hdelimiter (hhead e rfl)
        simp only [shapeWith, List.isPrefixOf_cons_cons, hec, Bool.false_and, Bool.false_eq_true,
          if_false]
      rw [label?, hedge, hshape]
      rfl

/-- No label starts with a space or tab `c`, so blanks are skipped. -/
theorem startsLabel_of_isSpaceOrTab {c : Char} (h : isSpaceOrTab c = true) (named : Bool) :
    startsLabel named c = false := by
  obtain rfl | rfl := Measure.eq_of_isSpaceOrTab h <;> cases named <;> rfl

/-- No label starts with a word character `c`, so a name is a lexeme. -/
theorem startsLabel_of_isAsciiWord {c : Char} (h : isAsciiWord c = true) (named : Bool) :
    startsLabel named c = false := by
  have hne : ∀ e : Char, isAsciiWord e = false → c ≠ e := by
    rintro e he rfl
    rw [he] at h
    cases h
  simp [startsLabel, hne '|' (by decide), hne '(' (by decide), hne '[' (by decide),
    hne '{' (by decide), hne '>' (by decide)]

/-! ### Where labels end -/

/-- The characters of which the delimiters of labels are made, and the double quote, which hides
them. -/
def delimiterChars : List Char := ['(', ')', '[', ']', '{', '}', '/', '\\', '>', '|', '"']

/-- A label that ends at the first delimiter behind it: a text `cs` in double quotes, in which no
delimiter stands behind the first double quote of its own, or a text that no delimiter is part
of. -/
inductive IsLabel (closers : List (List Char)) : List Char → Prop
  | quoted {cs : List Char}
      (h : ∀ u v, cs = u ++ '"' :: v → '"' ∉ u → ∀ k ∈ closers, ¬k <:+: v) :
      IsLabel closers ('"' :: cs ++ ['"'])
  | bare {cs : List Char} (hhead : ∀ c ∈ cs.head?, isSpaceOrTab c = false)
      (h : ∀ c ∈ cs, c ∉ delimiterChars) : IsLabel closers cs

/-- The `closers` can close a label: each starts with one of those characters, not with a blank, and
holds no double quote. -/
def AreClosers (closers : List (List Char)) : Prop :=
  ∀ k ∈ closers, k ≠ [] ∧ (∀ c ∈ k.head?, c ∈ delimiterChars ∧ isSpaceOrTab c = false) ∧ '"' ∉ k

instance (closers : List (List Char)) : Decidable (AreClosers closers) :=
  inferInstanceAs (Decidable (∀ _ ∈ _, _))

/-- A delimiter that starts nowhere in a `label` is looked for behind it, and found as much
later. -/
theorem findCloser_append {closers : List (List Char)} {label cs : List Char}
    (h : ∀ y, y <:+ label → y ≠ [] → ∀ k ∈ closers, ¬k <+: y ++ cs) :
    findCloser closers (label ++ cs) =
      (findCloser closers cs).map fun found => (label.length + found.1, found.2) := by
  induction label with
  | nil => simp
  | cons c label ih =>
    have hnone : closers.find? (·.isPrefixOf (c :: (label ++ cs))) = none := by
      rw [List.find?_eq_none]
      intro k hk hstart
      exact h _ (List.suffix_refl _) (List.cons_ne_nil c label) k hk
        (List.isPrefixOf_iff_prefix.1 hstart)
    rw [List.cons_append, findCloser, hnone]
    dsimp only
    rw [ih fun y hy => h y (hy.trans (List.suffix_cons c label)), Option.map_map]
    congr 1
    funext found
    simp only [Function.comp_apply, List.length_cons]
    rw [Nat.add_right_comm]

/-- A delimiter `k` that holds no double quote and starts before one ends before it, since it cannot
span it. -/
theorem prefix_of_prefix_quote {k y cs : List Char} (hk : '"' ∉ k) (h : k <+: y ++ '"' :: cs) :
    k <+: y := by
  induction y generalizing k with
  | nil =>
    cases k with
    | nil => exact List.prefix_refl []
    | cons c k =>
      obtain rfl : c = '"' := (List.cons_prefix_cons.1 h).1
      exact absurd List.mem_cons_self hk
  | cons e y ih =>
    cases k with
    | nil => exact List.nil_prefix
    | cons c k =>
      obtain ⟨hc, htail⟩ := List.cons_prefix_cons.1 h
      exact List.cons_prefix_cons.2 ⟨hc, ih (fun hmem => hk (List.mem_cons_of_mem _ hmem)) htail⟩

theorem findCloser_closer {closers : List (List Char)} {closer b : List Char} (hne : closer ≠ [])
    (h : closers.find? (·.isPrefixOf (closer ++ b)) = some closer) :
    findCloser closers (closer ++ b) = some (0, closer.length) := by
  obtain ⟨c, closer, rfl⟩ := List.exists_cons_of_ne_nil hne
  rw [List.cons_append] at h ⊢
  rw [findCloser, h]

/-- A label `cs` that does not start with a quoted string is searched from its start, blanks
included. -/
theorem quotedStart_eq_zero {cs : List Char}
    (h : ∀ c ∈ cs.head?, isSpaceOrTab c = false ∧ c ≠ '"') : quotedStart cs = 0 := by
  cases cs with
  | nil => rfl
  | cons c cs =>
    obtain ⟨hc, hquote⟩ := h c rfl
    have hrun : Measure.run isSpaceOrTab (c :: cs) = 0 := by simp [Measure.run, hc]
    have hstring : Measure.quotedString (c :: cs) = 0 :=
      Measure.quotedString.eq_2 _ (by simpa using hquote)
    rw [quotedStart, hrun]
    simp [hstring]

/-- Behind the quoted string of `u` that a label starts with, the label ends at the first delimiter,
and those inside the string do not count. -/
theorem labelBefore_quoted (closers : List (List Char)) {u : List Char} (hu : '"' ∉ u)
    (cs : List Char) : labelBefore closers ('"' :: (u ++ '"' :: cs)) =
      (findCloser closers cs).map fun found => (u.length + 2 + found.1, found.2) := by
  have hrun : Measure.run isSpaceOrTab ('"' :: (u ++ '"' :: cs)) = 0 := rfl
  have hstart : quotedStart ('"' :: (u ++ '"' :: cs)) = u.length + 2 := by
    rw [quotedStart, hrun]
    simp [Measure.quotedString_append hu]
  have hskip : ('"' :: (u ++ '"' :: cs)).drop (u.length + 2) = cs := by
    rw [List.drop_succ_cons, ← List.drop_drop, List.drop_left]
    rfl
  rw [labelBefore, hstart, hskip]

/-- A label ends where the delimiter that closes it starts, if no delimiter starts before: that is
what `IsLabel` says. -/
theorem labelBefore_append {closers : List (List Char)} {label closer b : List Char}
    (hclosers : AreClosers closers) (hmem : closer ∈ closers)
    (h : closers.find? (·.isPrefixOf (closer ++ b)) = some closer)
    (hlabel : IsLabel closers label) :
    labelBefore closers (label ++ (closer ++ b)) = some (label.length, closer.length) := by
  obtain ⟨hne, hhead, hquote⟩ := hclosers closer hmem
  -- In a text in double quotes, what matters is whether it has a double quote of its own: the
  -- quoted string ends there.
  cases hlabel with
  | @quoted cs hcs =>
    by_cases hinner : '"' ∈ cs
    · obtain ⟨u, v, rfl, hu⟩ := List.eq_append_cons_of_mem hinner
      have hassoc : '"' :: (u ++ '"' :: v) ++ ['"'] ++ (closer ++ b) =
          '"' :: (u ++ '"' :: (v ++ ['"'] ++ (closer ++ b))) := by simp
      have hnone : ∀ y, y <:+ v ++ ['"'] → y ≠ [] → ∀ k ∈ closers, ¬k <+: y ++ (closer ++ b) := by
        intro y hy hne k hk hstart
        obtain hnil | ⟨w, rfl, hw⟩ := List.suffix_concat_iff.1 hy
        · exact hne hnil
        rw [List.append_assoc, List.singleton_append] at hstart
        exact hcs u v rfl hu k hk
          ((prefix_of_prefix_quote (hclosers k hk).2.2 hstart).isInfix.trans hw.isInfix)
      rw [hassoc, labelBefore_quoted closers hu, findCloser_append hnone, findCloser_closer hne h]
      simp
      omega
    · have hassoc : '"' :: cs ++ ['"'] ++ (closer ++ b) = '"' :: (cs ++ '"' :: (closer ++ b)) := by
        simp
      rw [hassoc, labelBefore_quoted closers hinner, findCloser_closer hne h]
      simp
  | bare hstart hall =>
    have hfirst : ∀ c ∈ (label ++ (closer ++ b)).head?, isSpaceOrTab c = false ∧ c ≠ '"' := by
      cases label with
      | nil =>
        obtain ⟨c, closer, rfl⟩ := List.exists_cons_of_ne_nil hne
        rintro e ⟨⟩
        exact ⟨(hhead c rfl).2, fun he => hquote (he ▸ List.mem_cons_self)⟩
      | cons c label =>
        rintro e ⟨⟩
        refine ⟨hstart c rfl, ?_⟩
        rintro rfl
        exact hall _ List.mem_cons_self (by decide)
    -- No suffix of a bare label starts with a character of a delimiter.
    have hnone : ∀ y, y <:+ label → y ≠ [] → ∀ k ∈ closers, ¬k <+: y ++ (closer ++ b) := by
      intro y hy hy0 k hk hprefix
      obtain ⟨c, y, rfl⟩ := List.exists_cons_of_ne_nil hy0
      obtain ⟨hk0, hkhead, -⟩ := hclosers k hk
      obtain ⟨e, k, rfl⟩ := List.exists_cons_of_ne_nil hk0
      obtain rfl : e = c := (List.cons_prefix_cons.1 hprefix).1
      exact hall e (hy.mem List.mem_cons_self) (hkhead e rfl).1
    rw [labelBefore, quotedStart_eq_zero hfirst, List.drop_zero, findCloser_append hnone,
      findCloser_closer hne h]
    simp

/-- A shape is its opening delimiter, its label unless that is empty, and its closing delimiter,
each a piece of its own. -/
theorem shapeWith_append {closers : List (List Char)} (opener : List Char)
    {label closer b : List Char}
    (h : labelBefore closers (label ++ (closer ++ b)) = some (label.length, closer.length)) :
    shapeWith (opener ++ (label ++ (closer ++ b))) opener closers =
      some (.lexeme .shapeOpen opener ::
        (if label = [] then [] else [.lexeme .label label]) ++ [.lexeme .shapeClose closer]) := by
  have hstart : opener.isPrefixOf (opener ++ (label ++ (closer ++ b))) = true :=
    List.isPrefixOf_iff_prefix.2 (List.prefix_append _ _)
  rw [shapeWith, if_pos hstart]
  dsimp only
  rw [List.drop_left, h, Option.map_some]
  simp only [List.take_left, List.drop_left, List.length_eq_zero_iff]

theorem edgeLabel?_append {label b : List Char}
    (h : labelBefore [['|']] (label ++ '|' :: b) = some (label.length, 1)) :
    edgeLabel? ('|' :: (label ++ '|' :: b)) =
      some [.gap ['|'], .lexeme .edgeLabel label, .gap ['|']] := by
  rw [edgeLabel?, h, Option.map_some]
  dsimp only
  rw [List.take_left]

end Piece

namespace Token

/-- The row of the rest of a flowchart line, `named` being whether an identifier came last. -/
def flow (named : Bool) (gap cs : List Char) : List Token :=
  row gap (Piece.ofRest .flowchart { afterIdentifier := named } cs)

theorem ofLine_flowchart (gap cs : List Char) : ofLine .flowchart gap cs = flow false gap cs := rfl

theorem flow_nil (named : Bool) (gap : List Char) : flow named gap [] = [] := by
  rw [flow, Piece.ofRest, row]

theorem flow_step {named : Bool} {x b : List Char} {ps : List Piece} (hne : x ≠ [])
    (hnext : Piece.next .flowchart { afterIdentifier := named } (x ++ b) = ps)
    (hchars : ps.flatMap Piece.chars = x) (gap : List Char) :
    flow named gap (x ++ b) =
      row gap ps ++ flow (Piece.leavesNamed named ps) (trailing gap ps) b := by
  rw [flow, Piece.ofRest_step hne hnext hchars, row_append]
  rfl

/-! ### Steps -/

theorem flow_dropWhile (named : Bool) (gap cs : List Char) :
    flow named gap cs =
      flow named (gap ++ cs.takeWhile isSpaceOrTab) (cs.dropWhile isSpaceOrTab) := by
  by_cases hne : cs.takeWhile isSpaceOrTab = []
  · have hdrop := cs.takeWhile_append_dropWhile (p := isSpaceOrTab)
    rw [hne, List.nil_append] at hdrop
    rw [hne, hdrop, List.append_nil]
  have hhead : ∀ c ∈ cs.head?, Piece.startsLabel named c = false := by
    cases cs with
    | nil => exact absurd rfl hne
    | cons c cs =>
      rintro e ⟨⟩
      refine Piece.startsLabel_of_isSpaceOrTab ?_ named
      by_contra hc
      exact hne (List.takeWhile_cons_of_neg hc)
  -- No label starts with a blank, so blanks are a step of their own.
  have hnext : Piece.next .flowchart { afterIdentifier := named } cs =
      [.gap (cs.takeWhile isSpaceOrTab)] := by
    have hrun : Measure.run isSpaceOrTab cs ≠ 0 := by
      rwa [Measure.run, ne_eq, List.length_eq_zero_iff]
    rw [Piece.next, Piece.label?_eq_none hhead, Option.getD_none, Piece.plain, if_pos hrun,
      Measure.run, ← List.prefix_iff_eq_take.1 (List.takeWhile_prefix _)]
  conv => lhs; rw [← cs.takeWhile_append_dropWhile (p := isSpaceOrTab)]
  rw [flow_step hne (by rw [List.takeWhile_append_dropWhile, hnext]) (List.append_nil _)]
  rfl

/-- Spaces and tabs `b` are skipped, and go into the gap before the next token. -/
theorem flow_blanks {b : List Char} (hb : ∀ c ∈ b, isSpaceOrTab c = true) (named : Bool)
    (gap cs : List Char) : flow named gap (b ++ cs) = flow named (gap ++ b) cs := by
  rw [flow_dropWhile, flow_dropWhile named (gap ++ b), List.takeWhile_append_of_pos hb,
    List.dropWhile_append_of_pos hb, List.append_assoc]

theorem skipsBlanks_flowchart : Dialect.flowchart.SkipsBlanks := fun _ hb =>
  flow_blanks hb false

/-- A lexeme `x` that starts no label is one token, and only its kind matters to what follows. -/
theorem flow_lexeme {named : Bool} {kind : TokenKind} {x b : List Char} (hne : x ≠ [])
    (hhead : ∀ c ∈ x.head?, isSpaceOrTab c = false ∧ Piece.startsLabel named c = false)
    (hfirst : Rule.first (Rule.ofDialect .flowchart none) (x ++ b) = (kind, x.length))
    (gap : List Char) :
    flow named gap (x ++ b) = plain kind gap x :: flow (kind == .identifier) [] b := by
  have hhead' : ∀ c ∈ (x ++ b).head?,
      isSpaceOrTab c = false ∧ Piece.startsLabel named c = false := by
    obtain ⟨c, x, rfl⟩ := List.exists_cons_of_ne_nil hne
    exact hhead
  have hnext : Piece.next .flowchart { afterIdentifier := named } (x ++ b) = [.lexeme kind x] := by
    have hrun : Measure.run isSpaceOrTab (x ++ b) = 0 := by
      obtain ⟨c, x, rfl⟩ := List.exists_cons_of_ne_nil hne
      simp [Measure.run, (hhead c rfl).1]
    rw [Piece.next, Piece.label?_eq_none fun c hc => (hhead' c hc).2, Option.getD_none,
      Piece.plain]
    simp only [hrun, hfirst, ne_eq, not_true_eq_false, if_false, List.take_left]
    simp [Piece.colonOpensText]
  rw [flow_step hne hnext (List.append_nil x)]
  rfl

/-- Behind an identifier, a shape is its `opener`, its `label` unless that is empty, and its
`closer`, as tokens of the row. -/
theorem flow_shape {closers : List (List Char)} {opener label closer b : List Char}
    (hshape : ∀ ps, Piece.shapeWith (opener ++ (label ++ (closer ++ b))) opener closers = some ps →
      Piece.shape? (opener ++ (label ++ (closer ++ b))) = some ps)
    (h : Piece.labelBefore closers (label ++ (closer ++ b)) =
      some (label.length, closer.length))
    (hopener : opener ≠ []) (hbar : opener.head? ≠ some '|') (gap : List Char) :
    flow true gap (opener ++ (label ++ (closer ++ b))) =
      plain .shapeOpen gap opener :: ((if label = [] then [] else [plain .label [] label]) ++
        plain .shapeClose [] closer :: flow false [] b) := by
  -- A bar would start the label of an edge, which is looked for first.
  have hedge : Piece.edgeLabel? (opener ++ (label ++ (closer ++ b))) = none := by
    obtain ⟨c, opener, rfl⟩ := List.exists_cons_of_ne_nil hopener
    exact Piece.edgeLabel?.eq_2 _ (by rintro _ ⟨⟩; exact hbar rfl)
  have hnext : Piece.next .flowchart { afterIdentifier := true }
      ((opener ++ (label ++ closer)) ++ b) = .lexeme .shapeOpen opener ::
        (if label = [] then [] else [.lexeme .label label]) ++ [.lexeme .shapeClose closer] := by
    rw [List.append_assoc, List.append_assoc, Piece.next, Piece.label?, hedge,
      hshape _ (Piece.shapeWith_append opener h)]
    rfl
  have hassoc : opener ++ (label ++ (closer ++ b)) = (opener ++ (label ++ closer)) ++ b := by simp
  rw [hassoc, flow_step (by simp [hopener]) hnext]
  · split
    · rfl
    · rfl
  · split
    · next hnil => simp [hnil, Piece.chars]
    · simp [Piece.chars]

/-- The `label` of an edge is one token, and the bars around it belong to none. -/
theorem flow_edgeLabel {named : Bool} {label b : List Char}
    (h : Piece.labelBefore [['|']] (label ++ '|' :: b) = some (label.length, 1))
    (gap : List Char) :
    flow named gap ('|' :: (label ++ '|' :: b)) =
      plain .edgeLabel (gap ++ ['|']) label :: flow false ['|'] b := by
  have hnext : Piece.next .flowchart { afterIdentifier := named } (('|' :: (label ++ ['|'])) ++ b) =
      [.gap ['|'], .lexeme .edgeLabel label, .gap ['|']] := by
    have hassoc : ('|' :: (label ++ ['|'])) ++ b = '|' :: (label ++ '|' :: b) := by simp
    rw [hassoc, Piece.next, Piece.label?, Piece.edgeLabel?_append h]
    rfl
  have hassoc : '|' :: (label ++ '|' :: b) = ('|' :: (label ++ ['|'])) ++ b := by simp
  rw [hassoc, flow_step (by simp) hnext (by simp [Piece.chars])]
  rfl

end Token

/-! ### Texts that are taken as they stand -/

/-- A text `cs` of one statement: no semicolon ends it, no comment is in it, and no bar, which no
token would hold. -/
structure Text.IsStyle (cs : List Char) : Prop where
  bar : '|' ∉ cs
  semicolon : ';' ∉ cs
  comment : ¬['%', '%'] <:+: cs

theorem Text.IsStyle.of_suffix {x b : List Char} (h : IsStyle (x ++ b)) : IsStyle b where
  bar hmem := h.bar (List.mem_append_right _ hmem)
  semicolon hmem := h.semicolon (List.mem_append_right _ hmem)
  comment hin := h.comment (hin.trans (List.suffix_append x b).isInfix)

namespace Piece

/-- The first lexeme of such a text neither ends a statement nor is a comment, since only other
characters start these. -/
theorem isInner_first {c : Char} {cs : List Char} (h : IsStyle (c :: cs)) (x : List Char) :
    IsInner [] (.lexeme (Rule.first (Rule.ofDialect .flowchart none) (c :: cs)).1 x) := by
  rcases Rule.first_eq_or (Rule.ofDialect .flowchart none) (c :: cs) with
    ⟨hfirst, -⟩ | ⟨r, hr, h0, hfirst⟩
  · rw [hfirst]
    exact ⟨rfl, by decide, List.not_mem_nil⟩
  rw [hfirst]
  have hstart : ∀ s : List Char, Measure.literal s (c :: cs) ≠ 0 → s <+: c :: cs := by
    intro s hs
    by_contra hne
    exact hs (if_neg (mt List.isPrefixOf_iff_prefix.1 hne))
  simp only [Rule.ofDialect, Rule.common, Rule.punctuation, List.cons_append, List.nil_append,
    List.mem_cons, List.not_mem_nil, or_false] at hr
  rcases hr with rfl | rfl | rfl | rfl | rfl | rfl | rfl | rfl | rfl | rfl | rfl | rfl
  · exact absurd (hstart _ (mt Measure.comment_eq_zero_iff.2 h0)).isInfix h.comment
  -- the rule for semicolons
  pick_goal 5
  · exact absurd ((hstart _ h0).subset List.mem_cons_self) h.semicolon
  all_goals exact ⟨rfl, TokenKind.noConfusion, List.not_mem_nil⟩

/-- Neither the delimiters nor the label of a shape end a statement, so `rawUntil` reads over
them. -/
theorem isInner_of_shape? {cs : List Char} {ps : List Piece} (h : shape? cs = some ps) :
    ∀ p ∈ ps, p.IsInner [] := by
  obtain ⟨⟨opener, closers⟩, -, hshape⟩ : ∃ p ∈ shapeDelimiters,
      shapeWith cs p.1 p.2 = some ps := List.exists_of_findSome?_eq_some h
  simp only [shapeWith] at hshape
  split at hshape
  case isFalse => cases hshape
  case isTrue =>
  rw [Option.map_eq_some_iff] at hshape
  obtain ⟨⟨label, closer⟩, -, rfl⟩ := hshape
  dsimp only
  intro p hp
  have hkind : ∃ k x, p = .lexeme k x ∧ k ∈ [.shapeOpen, .label, .shapeClose] := by
    split at hp <;> simp only [List.cons_append, List.nil_append, List.mem_cons,
      List.not_mem_nil, or_false] at hp
    · rcases hp with rfl | rfl <;> exact ⟨_, _, rfl, by decide⟩
    · rcases hp with rfl | rfl | rfl <;> exact ⟨_, _, rfl, by decide⟩
  obtain ⟨k, x, rfl, hk⟩ := hkind
  exact (by decide : ∀ k ∈ [TokenKind.shapeOpen, .label, .shapeClose],
    k.endsStatement = false ∧ k ≠ .comment ∧ k ∉ []) k hk

/-- The pieces of a step are inner ones, whether the step is a shape or a lexeme. -/
theorem isInner_next (context : Context) {c : Char} {cs : List Char} (h : IsStyle (c :: cs)) :
    ∀ p ∈ next .flowchart context (c :: cs), p.IsInner [] := by
  -- Styles hold no bar, so no edge label is found in them.
  have hedge : edgeLabel? (c :: cs) = none := by
    refine edgeLabel?.eq_2 _ ?_
    rintro _ ⟨⟩
    exact h.bar List.mem_cons_self
  cases hlabel : label? .flowchart context (c :: cs) with
  | some ps =>
    rw [next, hlabel, Option.getD_some]
    obtain ⟨before, named⟩ := context
    rw [label?, hedge] at hlabel
    cases named with
    | false => cases hlabel
    | true => exact isInner_of_shape? hlabel
  | none =>
    rw [next, hlabel, Option.getD_none, plain]
    split
    · have hchars : (c :: cs).take (Measure.run isSpaceOrTab (c :: cs)) =
          (c :: cs).takeWhile isSpaceOrTab := by
        rw [Measure.run, ← List.prefix_iff_eq_take.1 (List.takeWhile_prefix _)]
      rw [hchars]
      exact List.forall_mem_singleton.2 fun e he => List.all_eq_true.1 List.all_takeWhile e he
    · have hrules : Rule.ofDialect .flowchart context.before = Rule.ofDialect .flowchart none := rfl
      rw [hrules]
      simpa [colonOpensText] using isInner_first h _

/-- The pieces of such a text `cs` are inner ones, whatever comes before it. -/
theorem isInner_ofRest (context : Context) {cs : List Char} (h : IsStyle cs) :
    ∀ p ∈ ofRest .flowchart context cs, p.IsInner [] :=
  forall_ofRest (fun _ _ => IsStyle.of_suffix) (fun context _ _ => isInner_next context) context h

end Piece

namespace Token

/-- No token of such a text ends a statement or is a comment, whatever is skipped before it. -/
theorem kind_flow (named : Bool) {gap cs : List Char} (hgap : ∀ c ∈ gap, isSpaceOrTab c = true)
    (h : IsStyle cs) :
    ∀ t ∈ flow named gap cs, t.kind.endsStatement = false ∧ t.kind ≠ .comment := fun t ht =>
  have hkind := (row_of_isInner hgap (Piece.isInner_ofRest _ h)).1 t ht
  ⟨hkind.1, hkind.2.1⟩

/-- Such a text is the source of its row but for the blanks around it, so a style is read back as it
is written. -/
theorem trim_source_flow (named : Bool) {gap cs : List Char}
    (hgap : ∀ c ∈ gap, isSpaceOrTab c = true) (h : IsStyle cs) (htrim : Trimmed cs) :
    trim (source (flow named gap cs)).toList = cs :=
  trim_source_row hgap (Piece.isInner_ofRest _ h) (Piece.cut_ofRest _ _ cs).1 htrim

end Token
end DiagramText
