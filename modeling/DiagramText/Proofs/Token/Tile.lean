import DiagramText.Proofs.Text.Relaid
import DiagramText.Token.Scan

/-!
# Tokens tile a text

Every route by which a line is cut into lexemes leaves pieces that are the line when they are put
together again. Placed one after the other, the pieces of a text are tokens that are slices of it.

* `Piece.Cut`: what pieces a text is cut into, and `Piece.cut_ofText`: they are the text.
* `Token.Tiles`: tokens are slices of a text, in order and apart from each other, with nothing but
  blanks and the bars of edge labels between them.
* `Token.tiles_scan`: the tokens of a text tile it, in every dialect and wherever the text starts.
-/

namespace DiagramText

open Text

namespace Piece

/-! ### Pieces of a text -/

/-- The pieces that a text is cut into: blanks, lexemes that are not empty, labels between two bars,
which may be empty, and line breaks. -/
inductive Cut : List Piece → Prop
  | nil : Cut []
  | gap {b : List Char} {ps : List Piece}
      (hb : ∀ c ∈ b, isBlank c = true ∧ isLineBreak c = false) (h : Cut ps) : Cut (.gap b :: ps)
  | lexeme {kind : TokenKind} {x : List Char} {ps : List Piece}
      (hkind : kind ∉ [.newline, .endOfInput, .edgeLabel]) (hne : x ≠ [])
      (hx : ∀ c ∈ x, isLineBreak c = false) (h : Cut ps) : Cut (.lexeme kind x :: ps)
  | edgeLabel {x : List Char} {ps : List Piece} (hx : ∀ c ∈ x, isLineBreak c = false)
      (h : Cut ps) : Cut (.gap ['|'] :: .lexeme .edgeLabel x :: .gap ['|'] :: ps)
  | newline {t : List Char} {ps : List Piece} (ht : t ∈ terminators)
      (hseam : t = ['\r'] → (ps.flatMap chars).head? ≠ some '\n') (h : Cut ps) :
      Cut (.lexeme .newline t :: ps)

/-- Pieces `ps` of a part of a line that go well before other pieces, so that cuts can be put
together. -/
def Fits (ps : List Piece) : Prop := ∀ qs, Cut qs → Cut (ps ++ qs)

/-- Pieces that stand for a text at the start of `cs`, which breaks no line. -/
structure Heads (ps : List Piece) (cs : List Char) : Prop where
  prefix_eq : ∃ rest, cs = ps.flatMap chars ++ rest
  ne_nil : ps.flatMap chars ≠ []
  fits : (∀ c ∈ cs, isLineBreak c = false) → Fits ps

/-! ### Labels between delimiters -/

/-- Where a closing delimiter is found, it stands, and the length of one of the `closers` is
given. -/
theorem exists_of_findCloser {closers : List (List Char)} {cs : List Char} {n k : Nat}
    (h : findCloser closers cs = some (n, k)) :
    ∃ closer ∈ closers, closer <+: cs.drop n ∧ k = closer.length := by
  induction cs generalizing n with
  | nil => cases h
  | cons c cs ih =>
    rw [findCloser] at h
    split at h
    · next closer hfind =>
      cases h
      have hprefix := List.find?_some hfind
      exact ⟨closer, List.mem_of_find?_eq_some hfind, List.isPrefixOf_iff_prefix.1 hprefix, rfl⟩
    · rw [Option.map_eq_some_iff] at h
      obtain ⟨⟨m, l⟩, hm, heq⟩ := h
      cases heq
      exact ih hm

/-- A label ends where one of the `closers` stands, whether the label starts with a quoted string or
not. -/
theorem exists_of_labelBefore {closers : List (List Char)} {cs : List Char} {n k : Nat}
    (h : labelBefore closers cs = some (n, k)) :
    ∃ closer ∈ closers, closer <+: cs.drop n ∧ k = closer.length := by
  rw [labelBefore, Option.map_eq_some_iff] at h
  obtain ⟨⟨m, l⟩, hm, heq⟩ := h
  cases heq
  rw [← List.drop_drop]
  exact exists_of_findCloser hm

/-- The pieces `ps` of a shape are its opening delimiter, its label unless that is empty, and its
closing delimiter, and so they are the start of the line. -/
theorem heads_shape? {cs : List Char} {ps : List Piece} (h : shape? cs = some ps) :
    Heads ps cs := by
  obtain ⟨⟨opener, closers⟩, hmem, hshape⟩ : ∃ p ∈ shapeDelimiters,
      shapeWith cs p.1 p.2 = some ps := List.exists_of_findSome?_eq_some h
  have hopener : opener ≠ [] := (by decide : ∀ p ∈ shapeDelimiters, p.1 ≠ []) _ hmem
  have hclosers : ∀ closer ∈ closers, closer ≠ [] :=
    (by decide : ∀ p ∈ shapeDelimiters, ∀ closer ∈ p.2, closer ≠ []) _ hmem
  simp only [shapeWith] at hshape
  split at hshape
  case isFalse => cases hshape
  case isTrue hstart =>
  obtain ⟨inner, rfl⟩ := List.isPrefixOf_iff_prefix.1 hstart
  rw [List.drop_left, Option.map_eq_some_iff] at hshape
  obtain ⟨⟨label, k⟩, hlabel, rfl⟩ := hshape
  obtain ⟨closer, hcloser, ⟨rest, hrest⟩, rfl⟩ := exists_of_labelBefore hlabel
  have hinner : inner = inner.take label ++ (closer ++ rest) := by
    rw [hrest, List.take_append_drop]
  have hclose : (inner.drop label).take closer.length = closer := by
    rw [← hrest, List.take_left]
  dsimp only
  rw [hclose]
  have hchars : (Piece.lexeme .shapeOpen opener ::
      (if label = 0 then [] else [Piece.lexeme .label (inner.take label)]) ++
        [Piece.lexeme .shapeClose closer]).flatMap chars =
          opener ++ (inner.take label ++ closer) := by
    split
    · next h0 => simp [chars, h0]
    · simp [chars]
  refine ⟨⟨rest, ?_⟩, ?_, fun hbreak qs hqs => ?_⟩
  · rw [hchars, List.append_assoc, List.append_assoc, ← hinner]
  · rw [hchars]
    simp [hopener]
  · rw [hinner] at hbreak
    obtain ⟨hbreakOpener, hbreak⟩ := List.forall_mem_append.1 hbreak
    obtain ⟨hbreakLabel, hbreak⟩ := List.forall_mem_append.1 hbreak
    obtain ⟨hbreakCloser, -⟩ := List.forall_mem_append.1 hbreak
    have hclosed : Cut (.lexeme .shapeClose closer :: qs) :=
      .lexeme (by decide) (hclosers closer hcloser) hbreakCloser hqs
    rw [List.cons_append, List.cons_append, List.append_assoc]
    refine .lexeme (by decide) hopener hbreakOpener ?_
    split
    · exact hclosed
    · next h0 =>
      -- the label is not empty, since a delimiter stands behind it
      have hne : inner.take label ≠ [] := by
        rw [Ne, List.take_eq_nil_iff]
        rintro (h0' | hnil)
        · exact h0 h0'
        · rw [hnil, List.drop_nil] at hrest
          exact hclosers closer hcloser (List.append_eq_nil_iff.1 hrest).1
      exact .lexeme (by decide) hne hbreakLabel hclosed

/-- The pieces `ps` of an edge label are the label and the bars around it, and so they are the start
of the line. -/
theorem heads_edgeLabel? {cs : List Char} {ps : List Piece} (h : edgeLabel? cs = some ps) :
    Heads ps cs := by
  unfold edgeLabel? at h
  split at h
  case h_2 => cases h
  case h_1 inner =>
  rw [Option.map_eq_some_iff] at h
  obtain ⟨⟨label, k⟩, hlabel, rfl⟩ := h
  obtain ⟨closer, hcloser, ⟨rest, hrest⟩, -⟩ := exists_of_labelBefore hlabel
  obtain rfl : closer = ['|'] := List.mem_singleton.1 hcloser
  have hinner : inner = inner.take label ++ (['|'] ++ rest) := by
    rw [hrest, List.take_append_drop]
  refine ⟨⟨rest, ?_⟩, by simp [chars], fun hbreak qs hqs => ?_⟩
  · conv => lhs; rw [hinner]
    simp [chars]
  · refine .edgeLabel (fun c hc => hbreak c ?_) hqs
    exact List.mem_cons_of_mem _ (List.mem_of_mem_take hc)

/-! ### Lexemes -/

/-- Rules find no line breaks, no ends of input and no labels between bars. These come from the
lines and the labels. -/
theorem kind_first_not_mem (d : Dialect) (before : Option Char) (cs : List Char) :
    (Rule.first (Rule.ofDialect d before) cs).1 ∉ [.newline, .endOfInput, .edgeLabel] := by
  have hrules : ∀ r ∈ Rule.ofDialect d before, r.1 ∉ [.newline, .endOfInput, .edgeLabel] := by
    cases d <;> simp [Rule.ofDialect, Rule.common, Rule.punctuation, Rule.lineOriented]
  generalize Rule.ofDialect d before = rules at hrules
  induction rules with
  | nil => exact (by decide : TokenKind.unknown ∉ [.newline, .endOfInput, .edgeLabel])
  | cons r rules ih =>
    obtain ⟨hr, hrules⟩ := List.forall_mem_cons.1 hrules
    rw [Rule.first]
    split
    · exact ih hrules
    · exact hr

theorem first_ne_zero (rules : List Rule) (cs : List Char) : (Rule.first rules cs).2 ≠ 0 := by
  induction rules with
  | nil => exact Nat.one_ne_zero
  | cons r rules ih =>
    rw [Rule.first]
    split
    · exact ih
    · next hne => exact hne

/-- The text `cs` after a colon stands between blanks, each of which is a gap. -/
theorem exists_colonText (cs : List Char) : ∃ b text b', cs = b ++ (text ++ b') ∧
    (∀ c ∈ b, isBlank c = true) ∧ (∀ c ∈ b', isBlank c = true) ∧
      colonText cs = .gap b :: (if text.isEmpty then [] else [.lexeme .text text]) ++
        [.gap b'] := by
  obtain ⟨b', hb', hblank, -⟩ := exists_trimRight (cs.dropWhile isSpaceOrTab)
  have hdrop : (cs.dropWhile isSpaceOrTab).drop
      (trimRight (cs.dropWhile isSpaceOrTab)).length = b' := by
    conv => lhs; arg 2; rw [hb']
    exact List.drop_left
  refine ⟨cs.takeWhile isSpaceOrTab, trimRight (cs.dropWhile isSpaceOrTab), b', ?_, ?_, hblank, ?_⟩
  · rw [← hb', List.takeWhile_append_dropWhile]
  · exact fun c hc => isBlank_of_isSpaceOrTab (List.all_eq_true.1 List.all_takeWhile c hc)
  · rw [colonText, hdrop]

theorem flatMap_colonText (cs : List Char) : (colonText cs).flatMap chars = cs := by
  obtain ⟨b, text, b', hcs, -, -, hpieces⟩ := exists_colonText cs
  rw [hpieces]
  conv => rhs; rw [hcs]
  cases text <;> simp [chars]

theorem fits_colonText {cs : List Char} (h : ∀ c ∈ cs, isLineBreak c = false) :
    Fits (colonText cs) := by
  obtain ⟨b, text, b', rfl, hb, hb', hpieces⟩ := exists_colonText cs
  obtain ⟨hbreak, hrest⟩ := List.forall_mem_append.1 h
  obtain ⟨hbreakText, hbreak'⟩ := List.forall_mem_append.1 hrest
  intro qs hqs
  have hend : Cut (.gap b' :: qs) := .gap (fun c hc => ⟨hb' c hc, hbreak' c hc⟩) hqs
  rw [hpieces, List.cons_append, List.cons_append, List.append_assoc]
  refine .gap (fun c hc => ⟨hb c hc, hbreak c hc⟩) ?_
  cases text with
  | nil => exact hend
  | cons c text => exact .lexeme (by decide) (List.cons_ne_nil c text) hbreakText hend

/-- A run of spaces and tabs, or one lexeme with the text it introduces, is the start of the
line. -/
theorem heads_plain (d : Dialect) (context : Context) {cs : List Char} (hne : cs ≠ []) :
    Heads (plain d context cs) cs := by
  -- Blanks are one gap. Otherwise a lexeme is cut off, and a colon takes the rest of the line as
  -- well.
  rw [plain]
  split
  · next hrun =>
    have hchars : cs.take (Measure.run isSpaceOrTab cs) = cs.takeWhile isSpaceOrTab := by
      rw [Measure.run, ← List.prefix_iff_eq_take.1 (List.takeWhile_prefix _)]
    rw [hchars]
    refine ⟨⟨cs.dropWhile isSpaceOrTab, ?_⟩, ?_, fun hbreak qs hqs => ?_⟩
    · rw [List.flatMap_singleton, chars, List.takeWhile_append_dropWhile]
    · rw [List.flatMap_singleton, chars]
      rwa [Measure.run, ne_eq, List.length_eq_zero_iff] at hrun
    · refine .gap (fun c hc => ⟨isBlank_of_isSpaceOrTab ?_, hbreak c ?_⟩) hqs
      · exact List.all_eq_true.1 List.all_takeWhile c hc
      · exact (List.takeWhile_sublist _).subset hc
  · have hkind := kind_first_not_mem d context.before cs
    have hpos := first_ne_zero (Rule.ofDialect d context.before) cs
    generalize Rule.first (Rule.ofDialect d context.before) cs = r at hkind hpos
    obtain ⟨kind, n⟩ := r
    have htake : cs.take n ≠ [] := by
      rw [Ne, List.take_eq_nil_iff, not_or]
      exact ⟨hpos, hne⟩
    have hlexeme : (∀ c ∈ cs, isLineBreak c = false) → ∀ qs, Cut qs →
        Cut (.lexeme kind (cs.take n) :: qs) := fun hbreak qs hqs =>
      .lexeme hkind htake (fun c hc => hbreak c (List.mem_of_mem_take hc)) hqs
    dsimp only
    split
    · refine ⟨⟨[], ?_⟩, ?_, fun hbreak qs hqs => ?_⟩
      · rw [List.flatMap_cons, flatMap_colonText, chars, List.take_append_drop, List.append_nil]
      · simp [chars, htake]
      · have hdrop : ∀ c ∈ cs.drop n, isLineBreak c = false := fun c hc =>
          hbreak c (List.mem_of_mem_drop hc)
        rw [List.cons_append]
        exact hlexeme hbreak _ (fits_colonText hdrop qs hqs)
    · refine ⟨⟨cs.drop n, ?_⟩, ?_, hlexeme⟩
      · rw [List.flatMap_singleton, chars, List.take_append_drop]
      · rwa [List.flatMap_singleton]

/-- Whatever a step finds, its pieces stand at the start of the rest of the line, and there is at
least a character in them. -/
theorem heads_next (d : Dialect) (context : Context) {cs : List Char} (hne : cs ≠ []) :
    Heads (next d context cs) cs := by
  rw [next]
  cases hlabel : label? d context cs with
  | none => exact heads_plain d context hne
  | some ps =>
    rw [Option.getD_some]
    unfold label? at hlabel
    split at hlabel
    · cases hlabel
    · rw [Option.or_eq_some_iff] at hlabel
      rcases hlabel with hedge | ⟨-, hshape⟩
      · exact heads_edgeLabel? hedge
      · split at hshape
        · exact heads_shape? hshape
        · cases hshape

/-! ### Lines and texts -/

/-- The rest of a line is cut by a step and then from where the step leaves it, with what is known
there. -/
theorem ofRest_eq_append {d : Dialect} {context : Context} {cs rest : List Char} (hne : cs ≠ [])
    (hrest : cs = (next d context cs).flatMap chars ++ rest) : ofRest d context cs =
      next d context cs ++ ofRest d ((next d context cs).foldl Context.push context) rest := by
  cases cs with
  | nil => exact absurd rfl hne
  | cons c cs =>
    have hstep := (heads_next d context hne).ne_nil
    rw [ofRest]
    generalize next d context (c :: cs) = ps at hrest hstep
    obtain ⟨n, hn⟩ := Nat.exists_eq_add_of_le' (List.length_pos_iff.2 hstep)
    have hdrop : (c :: cs).drop (ps.flatMap chars).length = rest := by
      rw [hrest, List.drop_left]
    rw [hn, List.drop_succ_cons] at hdrop
    rw [hn, Nat.add_sub_cancel, hdrop]

/-- The character before the rest of a line is the last one of the pieces `ps` before it, or the one
before these if they are empty. -/
theorem before_foldl (c : Context) (ps : List Piece) :
    (ps.foldl Context.push c).before = (ps.flatMap chars).getLast?.or c.before := by
  induction ps generalizing c with
  | nil => rfl
  | cons p ps ih =>
    rw [List.foldl_cons, ih, List.flatMap_cons, List.getLast?_append]
    exact Option.or_assoc.symm

/-- What is known before the rest of a line comes to the same in `c` and `c'`, since only whether a
word ends there matters to it, and in a flowchart whether an identifier does. -/
structure Context.Alike (d : Dialect) (c c' : Context) : Prop where
  before : c.before.any isWord = c'.before.any isWord
  afterIdentifier : d = .flowchart → c.afterIdentifier = c'.afterIdentifier

theorem Context.Alike.push {d : Dialect} {c c' : Context} (h : Alike d c c') (p : Piece) :
    Alike d (c.push p) (c'.push p) where
  before := by
    show (p.chars.getLast?.or c.before).any isWord = (p.chars.getLast?.or c'.before).any isWord
    cases p.chars.getLast? with
    | none => exact h.before
    | some => rfl
  afterIdentifier hd := by
    cases p with
    | gap => exact h.afterIdentifier hd
    | lexeme => rfl

theorem Context.Alike.foldl {d : Dialect} {c c' : Context} (h : Alike d c c') (ps : List Piece) :
    Alike d (ps.foldl Context.push c) (ps.foldl Context.push c') := by
  induction ps generalizing c c' with
  | nil => exact h
  | cons p ps ih => exact ih (h.push p)

theorem ofDialect_congr (d : Dialect) {before before' : Option Char}
    (h : before.any isWord = before'.any isWord) :
    Rule.ofDialect d before = Rule.ofDialect d before' := by
  cases d <;> simp only [Rule.ofDialect, Measure.classRelation, h]

theorem label?_congr {d : Dialect} {c c' : Context} (h : Context.Alike d c c') (cs : List Char) :
    label? d c cs = label? d c' cs := by
  unfold label?
  split
  · rfl
  · next hd => rw [h.afterIdentifier (by simpa using hd)]

theorem next_congr {d : Dialect} {c c' : Context} (h : Context.Alike d c c') (cs : List Char) :
    next d c cs = next d c' cs := by
  rw [next, next, label?_congr h, plain, plain, ofDialect_congr d h.before]

/-- The rest of a line `cs` is cut in the same way where what is known before it comes to the same,
step by step. -/
theorem ofRest_congr {d : Dialect} {c c' : Context} (h : Context.Alike d c c') (cs : List Char) :
    ofRest d c cs = ofRest d c' cs := by
  induction hlen : cs.length using Nat.strongRecOn generalizing c c' cs with
  | _ len ih =>
    cases cs with
    | nil => rw [ofRest, ofRest]
    | cons e cs =>
      have hlt : ∀ n, (cs.drop n).length < len := by
        intro n
        rw [List.length_drop, ← hlen, List.length_cons]
        omega
      rw [ofRest, ofRest, next_congr h]
      exact congrArg _ (ih _ (hlt _) (h.foldl _) _ rfl)

/-- The pieces of the rest of a line are the rest of the line, and they go well before other
pieces. -/
theorem cut_ofRest (d : Dialect) (context : Context) (cs : List Char) :
    (ofRest d context cs).flatMap chars = cs ∧
      ((∀ c ∈ cs, isLineBreak c = false) → Fits (ofRest d context cs)) := by
  -- The induction is on the length of the rest: a step takes at least a character off it.
  induction hlen : cs.length using Nat.strongRecOn generalizing cs context with
  | _ len ih =>
    cases cs with
    | nil =>
      rw [ofRest]
      exact ⟨rfl, fun _ qs hqs => hqs⟩
    | cons c cs =>
      obtain ⟨⟨rest, hrest⟩, hne, hfits⟩ := heads_next d context (List.cons_ne_nil c cs)
      rw [ofRest_eq_append (List.cons_ne_nil c cs) hrest]
      generalize next d context (c :: cs) = ps at hrest hne hfits
      have hlt : rest.length < len := by
        have hcount := congrArg List.length hrest
        have hpos : 0 < (ps.flatMap chars).length := List.length_pos_iff.2 hne
        rw [List.length_append] at hcount
        omega
      obtain ⟨hchars, hall⟩ := ih rest.length hlt (ps.foldl Context.push context) rest rfl
      refine ⟨by rw [List.flatMap_append, hchars, ← hrest], fun hbreak qs hqs => ?_⟩
      have hbreak' : ∀ e ∈ rest, isLineBreak e = false := fun e he =>
        hbreak e (by rw [hrest]; exact List.mem_append_right _ he)
      rw [List.append_assoc]
      exact hfits hbreak _ (hall hbreak' qs hqs)

theorem ofText_of_onOneLine (d : Dialect) {x : List Char} (hx : OnOneLine x) :
    ofText d x = ofLine d x := by
  rw [ofText, lines_singleton (by decide) hx, List.flatMap_singleton, ofFullLine]
  exact List.append_nil _

theorem ofText_break (d : Dialect) {x t rest : List Char} (hx : OnOneLine x)
    (ht : EndsBefore t rest) :
    ofText d (x ++ (t ++ rest)) = ofLine d x ++ lexeme .newline t :: ofText d rest := by
  rw [ofText, lines_break (by decide) hx (ht.cases (by decide) (by decide)), List.flatMap_cons,
    ofFullLine, if_neg (by simpa using ht.ne_nil), List.append_assoc]
  rfl

/-- The pieces of a text are the text, and they are a `Cut`. -/
theorem cut_ofText (d : Dialect) (text : List Char) :
    (ofText d text).flatMap chars = text ∧ Cut (ofText d text) := by
  induction text using inductionOnLines with
  | last x hx =>
    obtain ⟨hchars, hfits⟩ := cut_ofRest d {} x
    rw [ofText_of_onOneLine d hx]
    have hcut := hfits hx [] .nil
    rw [List.append_nil] at hcut
    exact ⟨hchars, hcut⟩
  | cons x t rest hx ht ih =>
    obtain ⟨hchars, hfits⟩ := cut_ofRest d {} x
    obtain ⟨hrest, hcut⟩ := ih
    rw [ofText_break d hx ht]
    refine ⟨?_, hfits hx _ (.newline ht.1 (by rw [hrest]; exact ht.2) hcut)⟩
    rw [List.flatMap_append, List.flatMap_cons, hrest]
    exact congrArg (· ++ _) hchars

/-- No lexeme `x` but a line break breaks a line, since each is a part of one. -/
theorem Cut.onOneLine {ps : List Piece} (h : Cut ps) {kind : TokenKind} {x : List Char}
    (hmem : .lexeme kind x ∈ ps) (hkind : kind ≠ .newline) : OnOneLine x := by
  induction h with
  | nil => cases hmem
  -- In each case `x` is one of the first pieces, which are on one line, or is further behind.
  | gap _ _ ih =>
    rcases List.mem_cons.1 hmem with heq | hmem
    · cases heq
    · exact ih hmem
  | lexeme _ _ hx _ ih =>
    rcases List.mem_cons.1 hmem with heq | hmem
    · cases heq
      exact hx
    · exact ih hmem
  | edgeLabel hx _ ih =>
    simp only [List.mem_cons, reduceCtorEq, false_or] at hmem
    rcases hmem with heq | hmem
    · cases heq
      exact hx
    · exact ih hmem
  | newline _ _ _ ih =>
    rcases List.mem_cons.1 hmem with heq | hmem
    · cases heq
      exact absurd rfl hkind
    · exact ih hmem

end Piece

namespace Token

/-! ### Tokens -/

/-- A token `t` of pieces is the end of input, or has the characters of one of them and its kind. -/
theorem exists_of_mem_place {t : Token} {ps : List Piece} {p : Position} {gap : List Char}
    (h : t ∈ place p gap ps) : t.kind = .endOfInput ∨
      ∃ cs, .lexeme t.kind cs ∈ ps ∧ t.text = String.ofList cs := by
  induction ps generalizing p gap with
  | nil => exact .inl (congrArg Token.kind (List.mem_singleton.1 h))
  | cons q ps ih =>
    cases q with
    | gap cs =>
      refine (ih h).imp_right fun ⟨cs, hcs, htext⟩ => ⟨cs, List.mem_cons_of_mem _ hcs, htext⟩
    | lexeme kind cs =>
      rcases List.mem_cons.1 h with rfl | h
      · exact .inr ⟨cs, List.mem_cons_self, rfl⟩
      · exact (ih h).imp_right fun ⟨cs, hcs, htext⟩ => ⟨cs, List.mem_cons_of_mem _ hcs, htext⟩

/-- Whether the index `i` of a text that starts at `offset` is in a token. -/
def Covers (offset : Int) (i : Nat) (t : Token) : Prop :=
  t.start.offset ≤ offset + i ∧ offset + i < t.stop.offset

/-- Whether the index `i` of a text that starts at `offset` is right before or behind an edge
label. -/
def Delimits (offset : Int) (i : Nat) (t : Token) : Prop :=
  t.kind = .edgeLabel ∧ (t.start.offset = offset + i + 1 ∨ t.stop.offset = offset + i)

/-- Tokens tile a text, which starts at the given line and offset, from the index `n` on. -/
structure Tiles (text : List Char) (line offset : Int) (n : Nat) (ts : List Token) : Prop where
  /-- A token is the slice of the text between its places. -/
  slice : ∀ t ∈ ts, ∃ i j, n ≤ i ∧ i ≤ j ∧ IsPlace text line offset i t.start ∧
    IsPlace text line offset j t.stop ∧ t.text.toList = (text.drop i).take (j - i)
  /-- Tokens stand in their order and do not overlap. -/
  ordered : ts.Pairwise fun t u => t.stop.offset ≤ u.start.offset
  /-- The last token, and no other, is the end of input, at the end of the text. -/
  last : ∃ us e, ts = us ++ [e] ∧ e.kind = .endOfInput ∧ e.start.offset = offset + text.length ∧
    ∀ t ∈ us, t.kind ≠ .endOfInput
  /-- Only the end of input and labels between bars are empty. -/
  empty : ∀ t ∈ ts, t.text = "" → t.kind = .endOfInput ∨ t.kind = .edgeLabel
  /-- What is in no token is a blank or a bar beside a label. -/
  outside : ∀ i c, n ≤ i → text[i]? = some c → (∃ t ∈ ts, t.Covers offset i) ∨
    isBlank c = true ∨ c = '|' ∧ ∃ t ∈ ts, t.Delimits offset i

namespace Tiles

variable {text rest : List Char} {line offset : Int} {n m : Nat} {ts : List Token}

/-- At the end of the `text` stands the end of input, which is empty. -/
theorem endOfInput {p : Position} (hp : IsPlace text line offset n p) (hn : text.drop n = [])
    (gap : String) : Tiles text line offset n [⟨.endOfInput, gap, "", p, p⟩] where
  slice := by
    refine List.forall_mem_singleton.2 ⟨n, n, (Nat.le_refl _), (Nat.le_refl _), hp, hp, ?_⟩
    rw [Nat.sub_self, List.take_zero]
    rfl
  ordered := List.pairwise_singleton _ _
  last := by
    have hlen : n = text.length := by
      have := hp.le
      rw [List.drop_eq_nil_iff] at hn
      omega
    refine ⟨[], _, rfl, rfl, ?_, List.forall_mem_nil _⟩
    rw [← hlen]
    exact hp.offset_eq
  empty := List.forall_mem_singleton.2 fun _ => .inl rfl
  outside i c hi hc := by
    rw [List.drop_eq_nil_iff] at hn
    rw [List.getElem?_eq_none (by omega)] at hc
    cases hc

/-- What stands before tokens `ts` in no token is blanks, so the tokens tile the `text` from there
on. -/
theorem gap (h : Tiles text line offset m ts) (hnm : n ≤ m)
    (hblank : ∀ i c, n ≤ i → i < m → text[i]? = some c → isBlank c = true) :
    Tiles text line offset n ts where
  slice t ht := by
    obtain ⟨i, j, hi, hslice⟩ := h.slice t ht
    exact ⟨i, j, by omega, hslice⟩
  ordered := h.ordered
  last := h.last
  empty := h.empty
  outside i c hi hc := by
    by_cases him : i < m
    · exact .inr (.inl (hblank i c hi him hc))
    · exact h.outside i c (by omega) hc

/-- A token `t` before tokens `ts`, with nothing but blanks and bars beside it, tiles the `text`
with them. -/
theorem cons {t : Token} {i j : Nat} (h : Tiles text line offset m ts) (hni : n ≤ i) (hij : i ≤ j)
    (hjm : j ≤ m) (hstart : IsPlace text line offset i t.start)
    (hstop : IsPlace text line offset j t.stop)
    (htext : t.text.toList = (text.drop i).take (j - i)) (hkind : t.kind ≠ .endOfInput)
    (hempty : t.text = "" → t.kind = .edgeLabel)
    (houtside : ∀ k c, n ≤ k → k < i ∨ j ≤ k → k < m → text[k]? = some c →
      isBlank c = true ∨ c = '|' ∧ t.Delimits offset k) :
    Tiles text line offset n (t :: ts) where
  slice := by
    refine List.forall_mem_cons.2 ⟨⟨i, j, hni, hij, hstart, hstop, htext⟩, fun u hu => ?_⟩
    obtain ⟨i', j', hi', hslice⟩ := h.slice u hu
    exact ⟨i', j', by omega, hslice⟩
  ordered := by
    refine List.pairwise_cons.2 ⟨fun u hu => ?_, h.ordered⟩
    obtain ⟨i', j', hi', -, hu, -⟩ := h.slice u hu
    rw [hstop.offset_eq, hu.offset_eq]
    omega
  last := by
    obtain ⟨us, e, rfl, he, hend, hus⟩ := h.last
    exact ⟨t :: us, e, rfl, he, hend, List.forall_mem_cons.2 ⟨hkind, hus⟩⟩
  empty := List.forall_mem_cons.2 ⟨fun ht => .inr (hempty ht), h.empty⟩
  -- A character at an index is in the new token, in the gap beside it, or in what the other tokens
  -- tile.
  outside k c hk hc := by
    by_cases hin : i ≤ k ∧ k < j
    · refine .inl ⟨t, List.mem_cons_self, ?_⟩
      rw [Covers, hstart.offset_eq, hstop.offset_eq]
      omega
    by_cases hkm : k < m
    · rcases houtside k c hk (by omega) hkm hc with hblank | ⟨rfl, hbar⟩
      · exact .inr (.inl hblank)
      · exact .inr (.inr ⟨rfl, t, List.mem_cons_self, hbar⟩)
    · rcases h.outside k c (by omega) hc with ⟨u, hu, hcovers⟩ | hblank | ⟨rfl, u, hu, hbar⟩
      · exact .inl ⟨u, List.mem_cons_of_mem t hu, hcovers⟩
      · exact .inr (.inl hblank)
      · exact .inr (.inr ⟨rfl, u, List.mem_cons_of_mem t hu, hbar⟩)

end Tiles

/-- A character `c` of the part of a text that stands at an index, told by the index. -/
theorem mem_of_getElem? {text x rest : List Char} {n : Nat} (hx : text.drop n = x ++ rest) {i : Nat}
    {c : Char} (hn : n ≤ i) (hi : i < n + x.length) (hc : text[i]? = some c) : c ∈ x := by
  have hget : (x ++ rest)[i - n]? = some c := by
    rw [← hx, List.getElem?_drop, ← hc]
    congr 1
    omega
  rw [List.getElem?_append_left (by omega)] at hget
  exact List.mem_of_getElem? hget

/-- Placed one after the other, the pieces `ps` of a text are tokens that tile it. The induction is
on the cut. -/
theorem tiles_place {text : List Char} {line offset : Int} {ps : List Piece} (h : Piece.Cut ps)
    {n : Nat} {p : Position} (hp : IsPlace text line offset n p)
    (hps : text.drop n = ps.flatMap Piece.chars) (gap : List Char) :
    Tiles text line offset n (place p gap ps) := by
  induction h generalizing n p gap with
  | nil => exact .endOfInput hp hps _
  | @gap b ps hb h ih =>
    rw [List.flatMap_cons] at hps
    have hq := hp.right hps fun c hc => (hb c hc).2
    refine (ih hq (IsPlace.drop_add hps) (gap ++ b)).gap (Nat.le_add_right _ _) ?_
    exact fun i c hn hi hc => (hb c (mem_of_getElem? hps hn hi hc)).1
  | @lexeme kind x ps hkind hne hx h ih =>
    rw [List.flatMap_cons] at hps
    have hq := hp.right hps hx
    have hnewline : kind ≠ .newline := fun hk => hkind (by rw [hk]; decide)
    rw [place, if_neg hnewline]
    refine (ih hq (IsPlace.drop_add hps) []).cons (Nat.le_refl _) (Nat.le_add_right _ _)
      (Nat.le_refl _) hp hq ?_
      (fun hk => hkind (by rw [show kind = _ from hk]; decide)) (fun ht => ?_)
      fun k c hk hout hkm _ => by omega
    · rw [hps, Nat.add_sub_cancel_left, String.toList_ofList]
      exact List.take_left.symm
    · exact absurd (by simpa using ht) hne
  | @edgeLabel x ps hx h ih =>
    have hbar : ∀ c ∈ ['|'], isLineBreak c = false := by decide
    rw [List.flatMap_cons] at hps
    have hp₁ := hp.right hps hbar
    have hps₁ := IsPlace.drop_add hps
    rw [List.flatMap_cons] at hps₁
    have hp₂ := hp₁.right hps₁ hx
    have hps₂ := IsPlace.drop_add hps₁
    rw [List.flatMap_cons] at hps₂
    have hp₃ := hp₂.right hps₂ hbar
    have hps₃ := IsPlace.drop_add hps₂
    have hrest := ih hp₃ hps₃ ['|']
    rw [place, place, if_neg (by decide), place]
    refine hrest.cons (Nat.le_add_right _ _) (Nat.le_add_right _ _)
      (Nat.le_add_right _ _) hp₁ hp₂ ?_
      nofun (fun _ => rfl) fun k c hk hout hkm hc => .inr ?_
    · rw [hps₁, Nat.add_sub_cancel_left, String.toList_ofList]
      exact List.take_left.symm
    · -- one of the bars stands at the index
      rcases hout with hlt | hge
      · have hmem := mem_of_getElem? hps hk hlt hc
        obtain rfl : k = n := Nat.le_antisymm (Nat.le_of_lt_succ hlt) hk
        exact ⟨List.mem_singleton.1 hmem, rfl, .inl (congrArg (· + 1) hp.offset_eq)⟩
      · have hmem := mem_of_getElem? hps₂ hge hkm hc
        obtain rfl : k = _ := Nat.le_antisymm (Nat.le_of_lt_succ hkm) hge
        exact ⟨List.mem_singleton.1 hmem, rfl, .inr hp₂.offset_eq⟩
  | @newline t ps ht hseam h ih =>
    rw [List.flatMap_cons] at hps
    have hq := hp.down hps ht hseam
    rw [place, if_pos rfl]
    refine (ih hq (IsPlace.drop_add hps) []).cons (Nat.le_refl _) (Nat.le_add_right _ _)
      (Nat.le_refl _) hp hq ?_
      nofun (fun hempty => ?_) fun k c hk hout hkm _ => by omega
    · rw [hps, Nat.add_sub_cancel_left, String.toList_ofList]
      exact List.take_left.symm
    · have hnil : t = [] := by simpa using hempty
      rw [hnil] at ht
      exact absurd ht (by decide)

/-- The pieces that the text of `scan d text line offset` is cut into are its tokens in place. -/
theorem tiles_pieces (d : Dialect) (text : String) (line offset : Int) :
    Tiles text.toList line offset 0 (scan d text line offset) := by
  obtain ⟨hchars, hcut⟩ := Piece.cut_ofText d text.toList
  exact tiles_place hcut (.start text.toList line offset) hchars.symm []

/-- The tokens of a `text`, in any dialect and wherever the text starts, are slices of it in
order that end with the end of input, and between them there are only blanks and the bars of edge
labels. -/
theorem tiles_scan (d : Dialect) (text : String) (line offset : Int) :
    Tiles text.toList line offset 0 (scan d text line offset) :=
  tiles_pieces d text line offset

end Token
end DiagramText
