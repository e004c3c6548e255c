import DiagramText.Program
import DiagramText.Proofs.Token.Content
import DiagramText.Proofs.Token.Place
import Mathlib.Data.List.Chain

/-!
# Tails of statements

The rest of a statement is taken as it stands: from the token at the cursor up to the next one that
ends the tail, with what is between the tokens. The bars of an edge label are in no token, so they
are kept inside a tail and lost at its ends.

* `Token.Spaced`: tokens with the text that they were read from, in which only blanks are between
  the lexemes, and `Token.spaced_scan`: so it is with the tokens of a text.
* `Token.endsStatement_after_comment`: a comment is the last token of its line.
* `Token.IsTail`: the text of a tail, from its first lexeme up to the token that ends it.
* `Cursor.rawUntil_spec`: what is taken of a tail. It is the tail without blanks around it if and
  only if an edge label neither starts nor ends the tail.
-/

namespace DiagramText

open Text

namespace Token

/-! ### Lexemes with their bars -/

/-- The bar on either side of an edge label `t`, which belongs to no token. Other tokens have
none. -/
def bar (t : Token) : List Char := if t.kind = .edgeLabel then ['|'] else []

/-- The characters of a token `t` with the bars around them, as they stand in the text. -/
def lexeme (t : Token) : List Char := t.bar ++ t.text.toList ++ t.bar

/-- The bar behind the last of some tokens, `bar` being behind the token before them. -/
def closing (bar : List Char) : List Token → List Char
  | [] => bar
  | t :: ts => closing t.bar ts

theorem bar_of_ne {t : Token} (h : t.kind ≠ .edgeLabel) : t.bar = [] := if_neg h

theorem closing_eq {bar : List Char} {ts : List Token} {last : Token}
    (h : ts.getLast? = some last) : closing bar ts = last.bar := by
  induction ts generalizing bar with
  | nil => cases h
  | cons t ts ih =>
    cases ts with
    | nil =>
      obtain rfl := Option.some.inj h
      rfl
    | cons u ts => exact @ih t.bar h

theorem lexeme_of_ne {t : Token} (h : t.kind ≠ .edgeLabel) : t.lexeme = t.text.toList := by
  rw [lexeme, bar_of_ne h, List.nil_append, List.append_nil]

/-- The text `cs` is the lexemes of tokens with blanks before each. It starts at the offset `o`,
behind the given bar of the token before. -/
inductive Spaced : Int → List Char → List Token → List Char → Prop
  | nil (o : Int) (bar : List Char) : Spaced o bar [] []
  | cons {o : Int} {bar b cs : List Char} {t : Token} {ts : List Token}
      (hb : ∀ c ∈ b, isBlank c = true) (hgap : t.gap.toList = bar ++ b ++ t.bar)
      (hstart : t.start.offset = o + b.length + t.bar.length)
      (h : Spaced (o + (b ++ t.lexeme).length) t.bar ts cs) :
      Spaced o bar (t :: ts) (b ++ t.lexeme ++ cs)

namespace Spaced

variable {o : Int} {bar cs : List Char} {ts us : List Token}

/-- What tokens `ts` hold with their gaps is their text, but for the bars at the ends of it: the one
before belongs to it, the one behind does not. -/
theorem content_eq (h : Spaced o bar ts cs) : bar ++ cs = content ts ++ closing bar ts := by
  induction h with
  | nil o bar => rw [List.append_nil]; rfl
  | @cons o bar b cs t ts hb hgap hstart h ih =>
    have hcontent : content (t :: ts) = t.gap.toList ++ t.text.toList ++ content ts := rfl
    rw [closing, hcontent, List.append_assoc _ (content ts), ← ih, hgap, lexeme]
    simp only [List.append_assoc]

/-- The text of the tokens `ts ++ us` is that of the first of them and that of the others, with a
bar where they meet in either. -/
theorem append (h : Spaced o bar (ts ++ us) cs) : ∃ x y, cs = x ++ y ∧ Spaced o bar ts x ∧
    Spaced (o + x.length) (closing bar ts) us y := by
  induction ts generalizing o bar cs with
  | nil =>
    refine ⟨[], cs, rfl, .nil o bar, ?_⟩
    rw [List.length_nil, Int.natCast_zero, Int.add_zero]
    exact h
  | cons t ts ih =>
    cases h with
    | @cons _ _ b cs _ _ hb hgap hstart h =>
      obtain ⟨x, y, rfl, hx, hy⟩ := ih h
      refine ⟨b ++ t.lexeme ++ x, y, (List.append_assoc ..).symm, .cons hb hgap hstart hx, ?_⟩
      rw [List.length_append, Int.natCast_add, ← Int.add_assoc]
      exact hy

/-- A token `t` without bars before other tokens, which it leaves as they are. -/
theorem plain {t : Token} {b x : List Char} (hkind : t.kind ≠ .edgeLabel)
    (hb : ∀ c ∈ b, isBlank c = true) (hgap : t.gap.toList = bar ++ b) (htext : t.text.toList = x)
    (hstart : t.start.offset = o + b.length) (h : Spaced (o + (b ++ x).length) [] ts cs) :
    Spaced o bar (t :: ts) (b ++ x ++ cs) := by
  have hbar := bar_of_ne hkind
  rw [← htext, ← lexeme_of_ne hkind] at h ⊢
  rw [← hbar] at h
  refine .cons hb ?_ ?_ h
  · rw [hgap, hbar, List.append_nil]
  · rw [hstart, hbar]
    exact (Int.add_zero _).symm

end Spaced

/-- Pieces `ps` that are placed one after the other are tokens with their text, whatever they
are. -/
theorem spaced_place {ps : List Piece} (h : Piece.Cut ps) {o : Int} {p : Position}
    {bar b : List Char} (hb : ∀ c ∈ b, isBlank c = true) (hp : p.offset = o + b.length) :
    Spaced o bar (place p (bar ++ b) ps) (b ++ ps.flatMap Piece.chars) := by
  have hgap : (String.ofList (bar ++ b)).toList = bar ++ b := String.toList_ofList
  -- `bar` and `b` are what is skipped since the last lexeme: its bar, and the blanks read so far
  induction h generalizing o p bar b with
  | nil =>
    rw [List.flatMap_nil, ← List.append_nil (b ++ [])]
    exact .plain (by simp) hb hgap rfl hp (.nil _ _)
  | @gap g ps hg h ih =>
    have hblank : ∀ c ∈ b ++ g, isBlank c = true :=
      List.forall_mem_append.2 ⟨hb, fun c hc => (hg c hc).1⟩
    have hplace : (p.right g.length).offset = o + (b ++ g).length := by
      rw [Position.right, hp, List.length_append, Int.natCast_add, Int.add_assoc]
    have hspaced := @ih o (p.right g.length) bar (b ++ g) hblank hplace String.toList_ofList
    rw [place, List.flatMap_cons, ← List.append_assoc]
    rwa [← List.append_assoc] at hspaced
  | @lexeme kind x ps hkind hne hx h ih =>
    have hlabel : kind ≠ .edgeLabel := fun heq => hkind (by simp [heq])
    have hnewline : kind ≠ .newline := fun heq => hkind (by simp [heq])
    have hplace : (p.right x.length).offset = o + (b ++ x).length + ([] : List Char).length := by
      rw [Position.right, hp, List.length_append, Int.natCast_add, Int.add_assoc]
      exact (Int.add_zero _).symm
    rw [place, if_neg hnewline, List.flatMap_cons, ← List.append_assoc]
    exact .plain hlabel hb hgap String.toList_ofList hp
      (@ih _ _ [] [] (List.forall_mem_nil _) hplace String.toList_ofList)
  | @edgeLabel x ps hx h ih =>
    -- the bar before the label ends the gap of its token, the one behind it starts the next gap
    let t : Token := ⟨.edgeLabel, String.ofList (bar ++ b ++ ['|']), String.ofList x, p.right 1,
      (p.right 1).right x.length⟩
    have hbar : t.bar = ['|'] := rfl
    have hlexeme : t.lexeme = '|' :: x ++ ['|'] := by
      rw [lexeme, hbar]
      exact congrArg (fun y => '|' :: y ++ ['|']) String.toList_ofList
    have hplace : (((p.right 1).right x.length).right 1).offset =
        o + (b ++ t.lexeme).length + ([] : List Char).length := by
      rw [hlexeme]
      simp [Position.right, hp]
      omega
    have hrest := @ih _ _ ['|'] [] (List.forall_mem_nil _) hplace String.toList_ofList
    have hspaced : Spaced o bar (t :: _) (b ++ t.lexeme ++ ps.flatMap Piece.chars) :=
      .cons hb String.toList_ofList (by rw [hbar]; simp [t, Position.right, hp]) hrest
    have htext : b ++ ('|' :: x ++ ['|']) ++ ps.flatMap Piece.chars =
        b ++ (['|'] ++ (x ++ (['|'] ++ ps.flatMap Piece.chars))) := by simp
    rw [hlexeme, htext] at hspaced
    rw [place, place, if_neg (by decide), place]
    exact hspaced
  | @newline x ps hx hseam h ih =>
    have hplace : (p.down x.length).offset = o + (b ++ x).length + ([] : List Char).length := by
      rw [Position.down, hp, List.length_append, Int.natCast_add, Int.add_assoc]
      exact (Int.add_zero _).symm
    rw [place, if_pos rfl, List.flatMap_cons, ← List.append_assoc]
    exact .plain (by simp) hb hgap String.toList_ofList hp
      (@ih _ _ [] [] (List.forall_mem_nil _) hplace String.toList_ofList)

/-- The tokens of a `text` are the text, with nothing but blanks between their lexemes, bars counted
as part of these. -/
theorem spaced_scan (d : Dialect) (text : String) (line offset : Int) :
    Spaced offset [] (scan d text line offset) text.toList := by
  obtain ⟨hchars, hcut⟩ := Piece.cut_ofText d text.toList
  have hspaced : Spaced offset [] (place ⟨line, 0, offset⟩ ([] ++ []) (Piece.ofText d text.toList))
      ([] ++ (Piece.ofText d text.toList).flatMap Piece.chars) :=
    spaced_place hcut (List.forall_mem_nil _) (Int.add_zero offset).symm
  rw [hchars] at hspaced
  exact hspaced

end Token

/-! ### Comments -/

namespace Piece

/-- If `p` is a comment, `q` is a line break, so the comment ends its line. -/
def BreakAfter (p q : Piece) : Prop := ∀ x, p = .lexeme .comment x → ∃ t, q = .lexeme .newline t

/-- No comment is in a label, be it that of a shape or of an edge. -/
theorem comment_not_mem_label {d : Dialect} {context : Context} {cs x : List Char}
    {ps : List Piece} (h : label? d context cs = some ps) : .lexeme .comment x ∉ ps := by
  have hedge : ∀ {cs}, edgeLabel? cs = some ps → .lexeme .comment x ∉ ps := by
    intro cs h
    unfold edgeLabel? at h
    split at h
    · obtain ⟨r, -, rfl⟩ := Option.map_eq_some_iff.1 h
      simp
    · cases h
  have hshape : shape? cs = some ps → .lexeme .comment x ∉ ps := by
    intro h
    obtain ⟨delimiters, -, h⟩ := List.exists_of_findSome?_eq_some h
    simp only [shapeWith] at h
    split at h
    · obtain ⟨r, -, rfl⟩ := Option.map_eq_some_iff.1 h
      split <;> simp
    · cases h
  unfold label? at h
  split at h
  · cases h
  · rcases Option.or_eq_some_iff.1 h with h | ⟨-, h⟩
    · exact hedge h
    · split at h
      · exact hshape h
      · cases h

/-- A comment `x` is all that is left of a line, so it is the only piece of its step. -/
theorem plain_of_comment {d : Dialect} {context : Context} {cs x : List Char}
    (h : .lexeme .comment x ∈ plain d context cs) :
    plain d context cs = [.lexeme .comment cs] := by
  unfold plain at h ⊢
  dsimp only at h ⊢
  split at h
  · simp at h
  next hblank =>
  rw [if_neg hblank]
  generalize hfirst : Rule.first (Rule.ofDialect d context.before) cs = r at h ⊢
  obtain ⟨kind, n⟩ := r
  dsimp only at h ⊢
  rcases List.mem_cons.1 h with heq | hmem
  · obtain rfl : kind = .comment := by cases heq; rfl
    obtain ⟨r, hr, hkind, rfl, hne⟩ := Rule.exists_of_first hfirst (by decide)
    have hrule : ∀ r ∈ Rule.ofDialect d context.before, r.1 = .comment →
        r.2 = Measure.comment := by
      cases d <;> simp [Rule.ofDialect, Rule.common, Rule.punctuation, Rule.lineOriented]
    rw [hrule r hr hkind] at hne ⊢
    rw [Measure.comment_eq_length hne, List.take_length]
    rfl
  · -- the text behind a colon is no comment
    split at hmem
    · unfold colonText at hmem
      dsimp only at hmem
      split at hmem <;> simp at hmem
    · cases hmem

theorem next_of_comment {d : Dialect} {context : Context} {cs x : List Char}
    (h : .lexeme .comment x ∈ next d context cs) : next d context cs = [.lexeme .comment cs] := by
  rw [next] at h ⊢
  cases hlabel : label? d context cs with
  | none =>
    rw [hlabel] at h
    exact plain_of_comment h
  | some ps =>
    rw [hlabel] at h
    exact absurd h (comment_not_mem_label hlabel)

theorem breakAfter_of_ne {p q : Piece} (h : ∀ x, p ≠ .lexeme .comment x) : BreakAfter p q :=
  fun x hx => absurd hx (h x)

/-- No piece of the rest of a line stands behind a comment, since the step of a comment is the
last. -/
theorem chain_ofRest (d : Dialect) (context : Context) (cs : List Char) :
    (ofRest d context cs).IsChain BreakAfter := by
  induction hlen : cs.length using Nat.strongRecOn generalizing cs context with
  | _ len ih =>
    cases cs with
    | nil =>
      rw [ofRest]
      exact List.isChain_nil
    | cons c cs =>
      obtain ⟨⟨rest, hrest⟩, hne, -⟩ := heads_next d context (List.cons_ne_nil c cs)
      rw [ofRest_eq_append (List.cons_ne_nil c cs) hrest]
      -- a comment among the next pieces leaves no rest; without one nothing is asked of them
      by_cases hcomment : ∃ x, .lexeme .comment x ∈ next d context (c :: cs)
      · obtain ⟨x, hx⟩ := hcomment
        have hnext := next_of_comment hx
        obtain rfl : rest = [] := by
          rw [hnext, List.flatMap_singleton] at hrest
          exact List.append_right_eq_self.1 hrest.symm
        rw [ofRest, hnext, List.append_nil]
        exact List.isChain_singleton _
      · have hlt : rest.length < len := by
          have hcount := congrArg List.length hrest
          have hpos : 0 < ((next d context (c :: cs)).flatMap chars).length :=
            List.length_pos_iff.2 hne
          rw [List.length_append] at hcount
          omega
        have hother : ∀ p ∈ next d context (c :: cs), ∀ q, BreakAfter p q := fun p hp q =>
          breakAfter_of_ne fun x hx => hcomment ⟨x, hx ▸ hp⟩
        have hnext : (next d context (c :: cs)).IsChain BreakAfter :=
          List.isChain_iff_getElem.2 fun i hi => hother _ (List.getElem_mem _) _
        exact List.isChain_append.2 ⟨hnext, ih rest.length hlt _ rest rfl, fun p hp q _ =>
          hother p (List.mem_of_getLast? hp) q⟩

/-- Behind a comment there is nothing or a line break, in the pieces of any `text`. -/
theorem chain_ofText (d : Dialect) (text : List Char) : (ofText d text).IsChain BreakAfter := by
  induction text using inductionOnLines with
  | last x hx =>
    rw [ofText_of_onOneLine d hx]
    exact chain_ofRest d {} x
  | cons x t rest hx ht ih =>
    rw [ofText_break d hx ht]
    refine List.isChain_append.2 ⟨chain_ofRest d {} x, ?_, fun p _ q hq => ?_⟩
    · exact List.isChain_cons.2 ⟨fun q _ => breakAfter_of_ne nofun, ih⟩
    · obtain rfl := Option.some.inj hq
      exact fun _ _ => ⟨t, rfl⟩

end Piece

namespace Token

/-- If `t` is a comment, `u` ends the statement, being a line break or the end of input. -/
def EndAfter (t u : Token) : Prop := t.kind = .comment → u.kind.endsStatement = true

theorem chain_place {ps : List Piece} (h : ps.IsChain Piece.BreakAfter) (p : Position)
    (gap : List Char) : (place p gap ps).IsChain EndAfter := by
  induction ps generalizing p gap with
  | nil => exact List.isChain_singleton _
  | cons q ps ih =>
    obtain ⟨hhead, htail⟩ := List.isChain_cons.1 h
    cases q with
    | gap cs => exact ih htail _ _
    | lexeme kind cs =>
      refine List.isChain_cons.2 ⟨fun u hu hkind => ?_, ih htail _ _⟩
      obtain rfl : kind = .comment := hkind
      cases ps with
      | nil =>
        obtain rfl := Option.some.inj hu
        rfl
      | cons r ps =>
        obtain ⟨t, rfl⟩ := hhead r rfl cs rfl
        obtain rfl := Option.some.inj hu
        rfl

/-- A comment is the last token of its line. -/
theorem endsStatement_after_comment (d : Dialect) (text : String) (line offset : Int) :
    (scan d text line offset).IsChain EndAfter := chain_place (Piece.chain_ofText d _) _ _

/-! ### Tails -/

/-- Whether a tail that is read up to some kinds `stops` of token ends before a token `t`, with
comments counted. -/
def endsTail (stops : List TokenKind) (t : Token) : Bool :=
  t.kind.endsStatement || t.kind == .comment || stops.contains t.kind

variable {ts : List Token}

/-- Where comments are left out, a tail ends before the same token, since a comment comes right
before one that ends it. -/
theorem takeWhile_filter_isRead (stops : List TokenKind) (hchain : ts.IsChain EndAfter)
    (hend : ∃ t ∈ ts, t.kind.endsStatement = true) :
    (ts.filter isRead).takeWhile (fun t => !t.kind.endsStatement && !stops.contains t.kind) =
      ts.takeWhile (!endsTail stops ·) := by
  -- The induction is on the tokens. A comment is the only one at which the two tests differ.
  induction ts with
  | nil => simp at hend
  | cons t ts ih =>
    obtain ⟨hhead, htail⟩ := List.isChain_cons.1 hchain
    have hrest : t.kind.endsStatement = false → ∃ u ∈ ts, u.kind.endsStatement = true := by
      intro ht
      obtain ⟨u, hu, hends⟩ := hend
      rcases List.mem_cons.1 hu with rfl | hu
      · rw [ht] at hends
        cases hends
      · exact ⟨u, hu, hends⟩
    by_cases hcomment : t.kind = .comment
    · -- the token behind the comment is read, and it ends the statement
      obtain ⟨u, hu, -⟩ := hrest (by rw [hcomment]; rfl)
      obtain ⟨v, vs, rfl⟩ := List.exists_cons_of_ne_nil (List.ne_nil_of_mem hu)
      have hv : v.kind.endsStatement = true := hhead v rfl hcomment
      have hread : isRead v = true := by
        cases hkind : v.kind <;> simp_all [isRead, TokenKind.endsStatement]
      rw [List.filter_cons_of_neg (by simp [isRead, hcomment]), List.filter_cons_of_pos hread,
        List.takeWhile_cons_of_neg (by simp [hv]),
        List.takeWhile_cons_of_neg (by simp [endsTail, hcomment])]
    · rw [List.filter_cons_of_pos (by simp [isRead, hcomment])]
      cases hends : endsTail stops t with
      | true =>
        have hstop : (!t.kind.endsStatement && !stops.contains t.kind) = false := by
          simpa [endsTail, hcomment, imp_iff_not_or] using hends
        rw [List.takeWhile_cons_of_neg (by simp only [hstop]; decide),
          List.takeWhile_cons_of_neg (by simp [hends])]
      | false =>
        have hgo : t.kind.endsStatement = false ∧ stops.contains t.kind = false := by
          simpa [endsTail, hcomment] using hends
        rw [List.takeWhile_cons_of_pos (by simp only [hgo]; rfl),
          List.takeWhile_cons_of_pos (by simp [hends]), ih htail (hrest hgo.1)]

/-- Where a statement ends, a tail ends there or before, at the first token that ends it. -/
theorem exists_stop (stops : List TokenKind)
    (hend : ∃ t ∈ ts, t.kind.endsStatement = true) : ∃ stop after,
    ts.dropWhile (!endsTail stops ·) = stop :: after ∧ endsTail stops stop = true := by
  cases hdrop : ts.dropWhile (!endsTail stops ·) with
  | nil =>
    obtain ⟨t, ht, hends⟩ := hend
    have hgo := List.dropWhile_eq_nil_iff.1 hdrop t ht
    rw [endsTail, hends] at hgo
    cases hgo
  | cons stop after =>
    have hstop := List.head?_dropWhile_not (!endsTail stops ·) ts
    rw [hdrop] at hstop
    exact ⟨stop, after, rfl, by simpa using hstop⟩

end Token

namespace Cursor

open Token

theorem peek_mem (c : Cursor) : c.peek ∈ c.rest ++ [c.final] := by
  obtain ⟨past, rest, final⟩ := c
  cases rest with
  | nil => exact List.mem_cons_self
  | cons t rest => exact List.mem_cons_self

theorem takeWhile_concat {p : Token → Bool} {ts : List Token} {e : Token} (he : p e = false) :
    (ts ++ [e]).takeWhile p = ts.takeWhile p := by
  rw [List.takeWhile_append, List.takeWhile_cons_of_neg (by simp [he]), List.append_nil]
  split
  · next hall => exact ((List.takeWhile_prefix p).eq_of_length hall).symm
  · rfl

/-- A cursor `c` at any place in tokens `ts`: what is behind it and ahead of it are the tokens but
for comments. -/
def Over (c : Cursor) (ts : List Token) : Prop :=
  c.past.reverse ++ c.rest ++ [c.final] = ts.filter isRead

variable {c : Cursor} {stops : List TokenKind} {ts : List Token}

/-- A cursor at the start of the tokens of a `text` is over them. -/
theorem over_scan (d : Dialect) (text : String) (line offset : Int) :
    (ofTokens (scan d text line offset)).Over (scan d text line offset) := by
  obtain ⟨us, e, hscan, he, -, -⟩ := (tiles_pieces d text line offset).last
  rw [hscan, ofTokens_append, Over, List.filter_append,
    List.filter_cons_of_pos (by simp [isRead, he])]
  rfl

/-- Where a statement goes on, the tokens `ts` from the one at the cursor `c` on are those ahead of
it, and the comments between them. -/
theorem Over.exists_row (hc : c.Over ts) (he : c.final.kind = .endOfInput)
    (hend : c.atStatementEnd = false) : ∃ before after,
      ts = before ++ c.peek :: after ∧ before.filter isRead = c.past.reverse ∧
        (c.peek :: after).filter isRead = c.rest ++ [c.final] := by
  obtain ⟨past, rest, final⟩ := c
  cases rest with
  | nil =>
    have hpeek : final.kind.endsStatement = false := hend
    rw [show final.kind = .endOfInput from he] at hpeek
    cases hpeek
  | cons t rest =>
    rw [Over, List.append_assoc] at hc
    obtain ⟨l₁, l₂, hsplit, hpast, hrest⟩ := List.filter_eq_append_iff.1 hc.symm
    obtain ⟨m₁, m₂, rfl, hm₁, hread, hm₂⟩ := List.filter_eq_cons_iff.1 hrest
    refine ⟨l₁ ++ m₁, m₂, ?_, ?_, ?_⟩
    · rw [hsplit, List.append_assoc]
      rfl
    · rw [List.filter_append, hpast, List.filter_eq_nil_iff.2 hm₁, List.append_nil]
    · exact (List.filter_cons_of_pos hread).trans (congrArg (t :: ·) hm₂)

/-- The last of all tokens is the end of input, and the cursor keeps it as its `final` one. -/
theorem Over.final_kind (hc : c.Over ts)
    (hlast : ∃ us e, ts = us ++ [e] ∧ e.kind = .endOfInput) : c.final.kind = .endOfInput := by
  obtain ⟨us, e, rfl, he⟩ := hlast
  rw [Over, List.filter_append, List.filter_cons_of_pos (by simp [isRead, he])] at hc
  rw [List.singleton_inj.1 (List.append_inj' hc rfl).2]
  exact he

/-- The tokens `ts` of a tail stand in a row, the one at the cursor `c` first, and behind them is
one that ends the tail. -/
theorem exists_tail (hc : c.Over ts) (hchain : ts.IsChain EndAfter)
    (hlast : ∃ us e, ts = us ++ [e] ∧ e.kind = .endOfInput) (hend : c.atStatementEnd = false)
    (hstops : c.check stops = false) : ∃ before taken stop after,
      ts = before ++ taken ++ stop :: after ∧ before.filter isRead = c.past.reverse ∧
        (c.span fun t => !t.kind.endsStatement && !stops.contains t.kind).1 = taken ∧
          taken.head? = some c.peek ∧ (∀ t ∈ taken, endsTail stops t = false) ∧
            endsTail stops stop = true := by
  have he := hc.final_kind hlast
  obtain ⟨before, after, hsplit, hbefore, hrow⟩ := hc.exists_row he hend
  -- the end of input is still ahead of the cursor, so a tail that starts here ends
  have hends : ∃ u ∈ c.peek :: after, u.kind.endsStatement = true := by
    have hmem : c.final ∈ (c.peek :: after).filter isRead := by
      rw [hrow]
      exact List.mem_append_right _ List.mem_cons_self
    exact ⟨c.final, (List.mem_filter.1 hmem).1, by rw [he]; rfl⟩
  have htail : (c.peek :: after).IsChain EndAfter := (List.isChain_append.1 (hsplit ▸ hchain)).2.1
  have htake := takeWhile_filter_isRead stops htail hends
  rw [hrow, takeWhile_concat (by rw [he]; rfl)] at htake
  obtain ⟨stop, rest, hdrop, hstop⟩ := exists_stop stops hends
  have hgo : endsTail stops c.peek = false := by
    have hkind : c.peek.kind ≠ .comment := fun hcomment => by
      have hread := (List.mem_filter.1 (hrow ▸ c.peek_mem)).2
      rw [isRead, hcomment] at hread
      cases hread
    rw [atStatementEnd] at hend
    rw [check] at hstops
    rw [endsTail, hend, hstops]
    simpa using hkind
  refine ⟨before, (c.peek :: after).takeWhile (!endsTail stops ·), stop, rest, ?_, hbefore, htake,
    ?_, ?_, hstop⟩
  · rw [List.append_assoc, ← hdrop, List.takeWhile_append_dropWhile]
    exact hsplit
  · rw [List.takeWhile_cons_of_pos (by rw [hgo]; rfl)]
    rfl
  · intro u hu
    have hall := List.all_eq_true.1 List.all_takeWhile u hu
    simpa using hall

/-- The text `tail` is that of a tail at the cursor, which the token `stop` ends: it starts with the
lexeme at the cursor and goes on up to that of `stop`. Its tokens are `ts`, among all tokens of a
text that starts at the given offset. -/
structure IsTail (text : List Char) (offset : Int) (all : List Token) (stops : List TokenKind)
    (c : Cursor) (ts : List Token) (stop : Token) (tail : List Char) : Prop where
  row : ∃ before after, all = before ++ ts ++ stop :: after ∧ before.filter isRead = c.past.reverse
  first : ts.head? = some c.peek
  inside : ∀ t ∈ ts, endsTail stops t = false
  stopped : endsTail stops stop = true
  slice : ∃ x y, text = x ++ tail ++ y ∧
    c.peek.start.offset = offset + x.length + c.peek.bar.length ∧
      stop.start.offset = offset + (x ++ tail).length + stop.bar.length

/-- Trimming leaves all characters but blanks, so the bars of a text `cs` can be counted. -/
theorem count_trim {a : Char} (ha : isBlank a = false) (cs : List Char) :
    (trim cs).count a = cs.count a := by
  obtain ⟨x, y, hcs, hx, hy⟩ := exists_trim cs
  have hzero : ∀ {b : List Char}, (∀ c ∈ b, isBlank c = true) → b.count a = 0 := fun hb =>
    List.count_eq_zero.2 fun hmem => by
      rw [hb a hmem] at ha
      cases ha
  conv => rhs; rw [hcs]
  rw [List.count_append, List.count_append, hzero hx, hzero hy, Nat.zero_add, Nat.add_zero]

theorem count_bar (t : Token) : t.bar.count '|' = if t.kind = .edgeLabel then 1 else 0 := by
  rw [Token.bar]
  split <;> rfl

/-- The source of the tokens `ts` of a tail is the text of the tail without the bars at its ends and
the blanks behind it. -/
theorem isTail_of_over (d : Dialect) (text : String) (line offset : Int) (stops : List TokenKind)
    (hc : c.Over (scan d text line offset)) (hend : c.atStatementEnd = false)
    (hstops : c.check stops = false) : ∃ ts stop tail last blanks,
      c.IsTail text.toList offset (scan d text line offset) stops ts stop tail ∧
        (c.span fun t => !t.kind.endsStatement && !stops.contains t.kind).1 = ts ∧
          ts.getLast? = some last ∧ (∀ e ∈ blanks, isBlank e = true) ∧
            tail = c.peek.bar ++ (source ts).toList ++ last.bar ++ blanks := by
  obtain ⟨us, e, hscan, he, -, -⟩ := (tiles_pieces d text line offset).last
  obtain ⟨before, ts, stop, after, hall, hbefore, hspan, hfirst, hinside, hstopped⟩ :=
    exists_tail hc (endsStatement_after_comment d text line offset) ⟨us, e, hscan, he⟩ hend hstops
  obtain ⟨us, rfl⟩ : ∃ us, ts = c.peek :: us := List.head?_eq_some_iff.1 hfirst
  have hspaced := spaced_scan d text line offset
  rw [hall] at hspaced
  -- the text is what is before the tail, the lexemes of the tail, and what is from its stop on
  obtain ⟨v, w, htext, hv, hw⟩ := hspaced.append
  obtain ⟨x, y, rfl, hx, hy⟩ := hv.append
  cases hw with
  | @cons _ _ blanks w _ _ hblanks _ hstop _ =>
  cases hy with
  | @cons _ _ b z _ _ hb hgap hstart hz =>
  obtain ⟨last, hlast⟩ : ∃ last, (c.peek :: us).getLast? = some last :=
    ⟨_, List.getLast?_eq_some_getLast (List.cons_ne_nil _ _)⟩
  have hclosing : closing c.peek.bar us = last.bar := @closing_eq [] _ _ hlast
  have hsource : (source (c.peek :: us)).toList = c.peek.text.toList ++ content us := by
    have hcontent := content_cons c.peek us
    rw [content, List.flatMap_cons, ← content, List.append_assoc] at hcontent
    exact (List.append_cancel_left hcontent).symm
  refine ⟨c.peek :: us, stop, c.peek.lexeme ++ z ++ blanks, last, blanks,
    ⟨⟨before, after, hall, hbefore⟩, hfirst, hinside, hstopped, x ++ b, stop.lexeme ++ w, ?_, ?_,
      ?_⟩,
    hspan, hlast, hblanks, ?_⟩
  · rw [htext]
    simp only [List.append_assoc]
  · rw [hstart, List.length_append]
    push_cast
    omega
  · rw [hstop]
    simp only [List.length_append]
    push_cast
    omega
  · -- the bar behind the last lexeme is in no token of the tail
    have hcontent := hz.content_eq
    rw [hclosing] at hcontent
    rw [hsource, lexeme, List.append_assoc _ _ z, hcontent]
    simp only [List.append_assoc]

/-- What is taken of a tail is its text without the bars of an edge label that starts or ends it,
and without the blanks around it. So it is the tail without the blanks around it if and only if no
edge label starts or ends the tail. -/
theorem rawUntil_spec (d : Dialect) (text : String) (line offset : Int) (stops : List TokenKind)
    (hc : c.Over (scan d text line offset)) (hend : c.atStatementEnd = false)
    (hstops : c.check stops = false) : ∃ ts stop tail last middle blanks,
      c.IsTail text.toList offset (scan d text line offset) stops ts stop tail ∧
        ts.getLast? = some last ∧ tail = c.peek.bar ++ middle ++ last.bar ++ blanks ∧
          (∀ e ∈ blanks, isBlank e = true) ∧
            (c.rawUntil stops).1 = String.ofList (trim middle) ∧
              ((c.rawUntil stops).1 = String.ofList (trim tail) ↔
                c.peek.kind ≠ .edgeLabel ∧ last.kind ≠ .edgeLabel) := by
  obtain ⟨ts, stop, tail, last, blanks, htail, hspan, hlast, hblanks, heq⟩ :=
    isTail_of_over d text line offset stops hc hend hstops
  have hraw : (c.rawUntil stops).1 = String.ofList (trim (source ts).toList) := by
    rw [← hspan]
    rfl
  refine ⟨ts, stop, tail, last, (source ts).toList, blanks, htail, hlast, heq, hblanks, hraw, ?_⟩
  rw [hraw]
  constructor
  · intro h
    -- a bar is no blank, so none at the ends can be missing
    have hcount : (trim (source ts).toList).count '|' = (trim tail).count '|' :=
      congrArg (List.count '|') (String.ofList_injective h)
    have hnone : blanks.count '|' = 0 := List.count_eq_zero.2 fun hmem =>
      absurd (hblanks '|' hmem) (by decide)
    rw [count_trim (by decide), count_trim (by decide), heq, List.count_append, List.count_append,
      List.count_append, count_bar, count_bar, hnone] at hcount
    constructor
    · intro hfirst
      rw [if_pos hfirst] at hcount
      omega
    · intro hfinal
      rw [if_pos hfinal] at hcount
      omega
  · rintro ⟨hfirst, hfinal⟩
    have hblank := trim_append_blanks (List.forall_mem_nil _) hblanks (source ts).toList
    rw [heq, bar_of_ne hfirst, bar_of_ne hfinal, List.append_nil, hblank]

/-- An edge label starts the tail, so the bar before it is lost, and the one behind it is kept. -/
theorem rawUntil_spec_label : ∃ (c : Cursor) (ts : List Token) (stop : Token) (tail : List Char),
    c.IsTail "|a| b".toList 0 (scan .flowchart "|a| b" 1 0) [] ts stop tail ∧
      (c.rawUntil []).1 = "a| b" ∧ (c.rawUntil []).1 ≠ String.ofList (trim tail) := by
  obtain ⟨ts, stop, tail, last, middle, blanks, htail, -, -, -, -, hiff⟩ :=
    rawUntil_spec .flowchart "|a| b" 1 0 [] (over_scan .flowchart "|a| b" 1 0)
      (by decide +kernel) (by decide +kernel)
  refine ⟨_, ts, stop, tail, htail, by decide +kernel, fun heq => ?_⟩
  exact (hiff.1 heq).1 (by decide +kernel)

/-- An edge label ends the styles, so the bar behind it is lost when the document is written. -/
theorem rawUntil_lost_bar : ∃ p, Program.read "flowchart LR\nstyle A a|b|\n" = .ok p ∧
    Program.write {} p = "flowchart LR\n    style A a|b\n" := by
  refine ⟨⟨[.flowchart ⟨.lr, [.clause (.style "A" "a|b")], []⟩]⟩, ?_, ?_⟩ <;> decide +kernel

end Cursor
end DiagramText
