import DiagramText.Proofs.Classes.Row
import DiagramText.Proofs.Text.Relaid
import DiagramText.Proofs.Token.Content
import DiagramText.Proofs.Token.Flow
import DiagramText.Proofs.Token.Tile

/-!
# Tokens of texts in another layout

Texts that are the same but for their layout are scanned into alike tokens in every dialect. Where
places matter, only the line breaks differ, so the pieces can be placed side by side. Where they do
not, it is enough to compare rows at the origin: the blanks that a line starts with go into the gap
before its first token, and a comment is not read.

* `Cursor.alike_of_relaid` states this for the cursors at the starts of the tokens.
-/

namespace DiagramText

open Text

/-! ### Where places matter -/

/-- Positions related by `P` stay related behind the same characters of a line, behind any line
breaks, and at the same column. -/
structure Position.Stable (P : Position → Position → Prop) : Prop where
  right {p q : Position} (n : Nat) (h : P p q) : P (p.right n) (q.right n)
  down {p q : Position} (m n : Nat) (h : P p q) : P (p.down m) (q.down n)
  column {p q : Position} (n : Nat) (h : P p q) : P { p with column := n } { q with column := n }

theorem Position.stable_anyPlace : Position.Stable Token.AnyPlace :=
  ⟨fun _ _ => trivial, fun _ _ _ => trivial, fun _ _ => trivial⟩

/-- The positions `p` and `q` are on the same line and in the same column. Their offsets may
differ. -/
def Position.SameSpot (p q : Position) : Prop := p.line = q.line ∧ p.column = q.column

theorem Position.stable_sameSpot : Position.Stable SameSpot where
  right n h := ⟨h.1, congrArg (· + n) h.2⟩
  down _ _ h := ⟨congrArg (· + 1) h.1, rfl⟩
  column _ h := ⟨h.1, rfl⟩

namespace Piece

variable {P : Position → Position → Prop}

/-- The pieces `ps` and `qs` are alike tokens wherever they are placed, at related positions, with
the ends of input alike too. -/
def PlacedAlike (P : Position → Position → Prop) (ps qs : List Piece) : Prop :=
  ∀ p q gap, P p q → ∃ ts us e f, Token.place p gap ps = ts ++ [e] ∧
    Token.place q gap qs = us ++ [f] ∧ e.Alike P f ∧ e.kind = .endOfInput ∧
    Row.Alike P e.start 0 (ts.filter Token.isRead) (us.filter Token.isRead) ∧
    SameGap (ts.filter Token.isRead) (us.filter Token.isRead)

theorem placedAlike_nil : PlacedAlike P [] [] := fun _ _ _ hpq =>
  ⟨[], [], _, _, rfl, rfl, ⟨rfl, fun _ => rfl, hpq⟩, rfl, .nil, fun _ h => nomatch h⟩

/-- The same lexemes, or any two line breaks, before pieces that are placed alike, are placed
alike. -/
theorem PlacedAlike.lexeme (hP : Position.Stable P) {ps qs : List Piece}
    (h : PlacedAlike P ps qs) {kind : TokenKind} {x y : List Char}
    (hxy : kind ≠ .newline → x = y) :
    PlacedAlike P (lexeme kind x :: ps) (lexeme kind y :: qs) := by
  intro p q gap hpq
  let next := fun (p : Position) (x : List Char) =>
    if kind = .newline then p.down x.length else p.right x.length
  -- the places behind the two lexemes are related, be these breaks or not
  have hnext : P (next p x) (next q y) := by
    by_cases hk : kind = .newline
    · simp only [next, if_pos hk]
      exact hP.down _ _ hpq
    · simp only [next, if_neg hk, hxy hk]
      exact hP.right _ hpq
  obtain ⟨ts, us, e, f, hts, hus, hef, he, hrow, hgap⟩ := h _ _ [] hnext
  refine ⟨⟨kind, String.ofList gap, String.ofList x, p, next p x⟩ :: ts,
    ⟨kind, String.ofList gap, String.ofList y, q, next q y⟩ :: us, e, f, ?_, ?_, hef, he, ?_⟩
  · rw [Token.place, hts]
    rfl
  · rw [Token.place, hus]
    rfl
  · by_cases hkind : kind = .comment
    · rw [List.filter_cons_of_neg (by simp [Token.isRead, hkind]),
        List.filter_cons_of_neg (by simp [Token.isRead, hkind])]
      exact ⟨hrow, hgap⟩
    · rw [List.filter_cons_of_pos (by simp [Token.isRead, hkind]),
        List.filter_cons_of_pos (by simp [Token.isRead, hkind])]
      refine ⟨.cons ⟨rfl, fun hk => congrArg String.ofList (hxy hk), hpq⟩ (fun _ => hgap) hrow, ?_⟩
      simp [SameGap]

/-- The same pieces `rs` before pieces that are placed alike, as those of an equal line. -/
theorem PlacedAlike.append (hP : Position.Stable P) {ps qs : List Piece} (h : PlacedAlike P ps qs)
    (rs : List Piece) : PlacedAlike P (rs ++ ps) (rs ++ qs) := by
  induction rs with
  | nil => exact h
  | cons r rs ih =>
    cases r with
    | gap cs => exact fun p q gap hpq => ih _ _ _ (hP.right cs.length hpq)
    | lexeme kind x => exact ih.lexeme hP fun _ => rfl

/-- If places matter, the texts `cs` and `cs'` in two layouts are placed alike, since only their
breaks differ. -/
theorem placedAlike_ofText (hP : Position.Stable P) (hplace : ¬∀ p q, P p q) (d : Dialect)
    {cs cs' : List Char} (h : Relaid P cs cs') :
    PlacedAlike P (ofText d cs) (ofText d cs') := by
  have hsame : ∀ x x', SameContent P x x' → x = x' := by
    intro x x' h
    cases h with
    | silent hall => exact absurd hall hplace
    | indented h =>
      cases h with
      | same => rfl
      | blanks hall => exact absurd hall hplace
  induction h with
  | @last x x' h hx hx' =>
    obtain rfl := hsame _ _ h
    have hline := placedAlike_nil.append hP (ofLine d x)
    rw [ofText_of_onOneLine d hx]
    rwa [List.append_nil] at hline
  | @cons x x' t t' cs cs' h hx hx' ht ht' rest ih =>
    obtain rfl := hsame _ _ h
    rw [ofText_break d hx ht, ofText_break d hx' ht']
    exact (ih.lexeme hP fun hk => absurd rfl hk).append hP _

end Piece

/-! ### Where places do not matter -/

namespace Token

/-- Rows are alike if they are at the origin, because `AnyPlace` asks nothing of positions. -/
theorem alike_of_unplaced {e : Position} {ts us : List Token}
    (h : Row.Alike AnyPlace e 0 (ts.map unplaced) (us.map unplaced)) :
    Row.Alike AnyPlace e 0 ts us := by
  induction ts generalizing us with
  | nil =>
    have hus := h.eq_nil_of_zero
    rw [List.map_eq_nil_iff] at hus
    rw [hus]
    exact .nil
  | cons t ts ih =>
    cases us with
    | nil => nomatch h
    | cons u us =>
      rw [List.map_cons, List.map_cons] at h
      cases h with
      | cons head gap rest =>
        refine .cons ⟨head.kind, head.text, trivial⟩ (fun hk => ?_) (ih rest)
        cases ts with
        | nil => nofun
        | cons t' ts =>
          cases us with
          | nil => nomatch rest
          | cons u' us => simpa [SameGap, unplaced] using gap hk

/-- The same tokens `ts` before alike rows give alike rows. -/
theorem alike_append {e : Position} {us us' : List Token} (h : Row.Alike AnyPlace e 0 us us')
    (hgap : SameGap us us') (ts : List Token) :
    Row.Alike AnyPlace e 0 (ts ++ us) (ts ++ us') ∧ SameGap (ts ++ us) (ts ++ us') := by
  induction ts with
  | nil => exact ⟨h, hgap⟩
  | cons t ts ih =>
    exact ⟨.cons ⟨rfl, fun _ => rfl, trivial⟩ (fun _ => ih.2) ih.1, by simp [SameGap]⟩

/-- The gap before the first token of a line does not matter to how the row is read. -/
theorem alike_modifyHead {e : Position} {us us' : List Token} (h : Row.Alike AnyPlace e 0 us us')
    {ts : List Token} (hgap : ts ≠ [] → SameGap us us') (b b' : String) :
    Row.Alike AnyPlace e 0 ((ts.modifyHead fun t => { t with gap := b ++ t.gap }).filter isRead ++
      us)
      ((ts.modifyHead fun t => { t with gap := b' ++ t.gap }).filter isRead ++ us') := by
  cases ts with
  | nil => exact h
  | cons t ts =>
    obtain ⟨hrow, hgap⟩ := alike_append h (hgap (List.cons_ne_nil t ts)) (ts.filter isRead)
    rw [List.modifyHead_cons, List.modifyHead_cons]
    by_cases ht : isRead t = true
    · rw [List.filter_cons_of_pos (by exact ht), List.filter_cons_of_pos (by exact ht)]
      exact .cons ⟨rfl, fun _ => rfl, trivial⟩ (fun _ => hgap) hrow
    · rw [List.filter_cons_of_neg (by exact ht), List.filter_cons_of_neg (by exact ht)]
      exact hrow

/-! ### Lines -/

theorem skipsBlanks (d : Dialect) : d.SkipsBlanks := by
  cases d with
  | flowchart => exact skipsBlanks_flowchart
  | sequence => exact Dialect.regular_sequence.skipsBlanks
  | classes => exact skipsBlanks_classes
  | entities => exact Dialect.regular_entities.skipsBlanks
  | states => exact Dialect.regular_states.skipsBlanks
  | gantt => exact Dialect.regular_gantt.skipsBlanks

/-- The tokens of a line `x` behind an indent are those of the line, the indent being skipped before
them, in the gap of the first. -/
theorem ofLine_indent (d : Dialect) {b : List Char} (hb : ∀ c ∈ b, isSpaceOrTab c = true)
    (x : List Char) : ofLine d [] (b ++ x) =
      (ofLine d [] x).modifyHead fun t => { t with gap := String.ofList b ++ t.gap } := by
  rw [skipsBlanks d b hb, List.nil_append, ← ofLine_gap, List.append_nil]

/-- What is skipped at the end of a line `x`, behind its last token. -/
def lineEnd (d : Dialect) (x : List Char) : List Char := trailing [] (Piece.ofLine d x)

/-- A line `x` is what its tokens hold and what is skipped at its end, so no character gets lost. -/
theorem content_ofLine (d : Dialect) (x : List Char) :
    content (ofLine d [] x) ++ lineEnd d x = x := by
  have h := content_row [] (Piece.ofLine d x)
  rw [Piece.ofLine, (Piece.cut_ofRest d {} x).1] at h
  exact h.symm

/-- What is skipped at the end of a line `x` behind an indent is what is skipped at the end of the
line, if it has a token. -/
theorem lineEnd_indent (d : Dialect) {b : List Char} (hb : ∀ c ∈ b, isSpaceOrTab c = true)
    {x : List Char} (hne : ofLine d [] x ≠ []) : lineEnd d (b ++ x) = lineEnd d x := by
  have hindented := content_ofLine d (b ++ x)
  have hline := content_ofLine d x
  rw [ofLine_indent d hb] at hindented
  obtain ⟨t, ts, hts⟩ := List.exists_cons_of_ne_nil hne
  have hcontent : content ((t :: ts).modifyHead fun t =>
    { t with gap := String.ofList b ++ t.gap }) =
      b ++ content (t :: ts) := by
    simp [content, List.modifyHead_cons]
  rw [hts, hcontent, List.append_assoc] at hindented
  rw [hts] at hline
  exact List.append_cancel_left ((List.append_cancel_left hindented).trans hline.symm)

/-- A comment `y` is one token, which reaches to the end of its line. -/
theorem ofLine_comment (d : Dialect) (gap : List Char) {y : List Char} (hy : ['%', '%'] <+: y) :
    ofLine d gap y = [plain .comment gap y] := by
  obtain ⟨z, rfl⟩ := hy
  have hfirst : Rule.first (Rule.ofDialect d none) ('%' :: '%' :: z) =
      (.comment, z.length + 2) := by
    simp [Rule.ofDialect, Rule.common, Rule.first, Measure.comment]
  have hlabel : Piece.label? d {} ('%' :: '%' :: z) = none := by
    simp [Piece.label?, Piece.edgeLabel?]
  have hnext : Piece.next d {} ('%' :: '%' :: z) = [.lexeme .comment ('%' :: '%' :: z)] := by
    rw [Piece.next, hlabel, Option.getD_none, Piece.plain]
    simp [Measure.run, isSpaceOrTab, hfirst]
  show row gap (Piece.ofRest d {} ('%' :: '%' :: z)) = _
  rw [Piece.ofRest, hnext]
  simp [Piece.chars, Piece.ofRest, row]

/-- Nothing is read of a silent line `x`, whose only token, if it has one, is a comment. -/
theorem filter_ofLine_of_isSilent (d : Dialect) {x : List Char} (hx : IsSilent x) :
    (ofLine d [] x).filter isRead = [] := by
  obtain ⟨b, y, rfl, hb, hy⟩ := hx.split
  rw [skipsBlanks d b hb]
  rcases hy with rfl | hy
  · rw [ofLine_nil]
    rfl
  · rw [ofLine_comment d _ hy]
    rfl

/-! ### Texts -/

/-- The tokens of a text `cs` that are read, at the origin, comments left out. -/
def readRow (d : Dialect) (cs : List Char) : List Token :=
  (row [] (Piece.ofText d cs)).filter isRead

theorem readRow_break (d : Dialect) {x t rest : List Char} (hx : OnOneLine x)
    (ht : EndsBefore t rest) : readRow d (x ++ (t ++ rest)) =
      (ofLine d [] x).filter isRead ++ plain .newline (lineEnd d x) t :: readRow d rest := by
  rw [readRow, Piece.ofText_break d hx ht, row_append, row, List.filter_append,
    List.filter_cons_of_pos (by rfl)]
  rfl

theorem readRow_of_onOneLine (d : Dialect) {x : List Char} (hx : OnOneLine x) :
    readRow d x = (ofLine d [] x).filter isRead := by
  rw [readRow, Piece.ofText_of_onOneLine d hx]
  rfl

/-- Lines `x` and `x'` with the same content are read alike before what is read alike, be they
indented otherwise or silent. -/
theorem alike_line (d : Dialect) {x x' : List Char} (h : SameContent AnyPlace x x') {e : Position}
    {us us' : List Token} (hus : Row.Alike AnyPlace e 0 us us')
    (hgap : lineEnd d x = lineEnd d x' → SameGap us us') :
    Row.Alike AnyPlace e 0 ((ofLine d [] x).filter isRead ++ us)
      ((ofLine d [] x').filter isRead ++ us') := by
  cases h with
  | silent _ hx hx' =>
    rw [filter_ofLine_of_isSilent d hx, filter_ofLine_of_isSilent d hx']
    exact hus
  | indented h =>
    cases h with
    | same => exact (alike_append hus (hgap rfl) _).1
    | @blanks _ b b' hb hb' x =>
      rw [ofLine_indent d hb, ofLine_indent d hb']
      refine alike_modifyHead hus (fun hne => hgap ?_) _ _
      rw [lineEnd_indent d hb hne, lineEnd_indent d hb' hne]

theorem alike_readRow (d : Dialect) {cs cs' : List Char} (h : Relaid AnyPlace cs cs')
    (e : Position) : Row.Alike AnyPlace e 0 (readRow d cs) (readRow d cs') := by
  induction h with
  | @last x x' h hx hx' =>
    have hline := alike_line d h (Row.Alike.nil : Row.Alike AnyPlace e 0 [] []) fun _ _ h =>
      nomatch h
    rw [readRow_of_onOneLine d hx, readRow_of_onOneLine d hx']
    rwa [List.append_nil, List.append_nil] at hline
  | @cons x x' t t' cs cs' h hx hx' ht ht' rest ih =>
    rw [readRow_break d hx ht, readRow_break d hx' ht']
    refine alike_line d h (.cons ⟨rfl, fun hk => absurd rfl hk, trivial⟩
      (fun hk => absurd rfl hk) ih)
      fun hend => ?_
    simp [SameGap, plain, hend]

end Token

/-- The texts `text` and `text'`, which are the same but for their layout, are scanned into alike
tokens, so their cursors are alike. -/
theorem Cursor.alike_of_relaid {P : Position → Position → Prop} (hP : Position.Stable P)
    {text text' : String} (h : Relaid P text.toList text'.toList) {line offset line' offset' : Int}
    (hstart : P ⟨line, 0, offset⟩ ⟨line', 0, offset'⟩) (d : Dialect) :
    Cursor.Alike P 0 (.ofTokens (Token.scan d text line offset))
      (.ofTokens (Token.scan d text' line' offset')) := by
  by_cases hplace : ∀ p q, P p q
  · obtain rfl : P = Token.AnyPlace := by
      funext p q
      exact propext ⟨fun _ => trivial, fun _ => hplace p q⟩
    obtain ⟨ts, e, hts, hrow, he, htext⟩ :=
      Token.place_eq ⟨line, 0, offset⟩ [] (Piece.ofText d text.toList)
    obtain ⟨us, f, hus, hrow', hf, htext'⟩ :=
      Token.place_eq ⟨line', 0, offset'⟩ [] (Piece.ofText d text'.toList)
    rw [Token.scan, Token.scan, hts, hus, Token.ofTokens_append, Token.ofTokens_append]
    refine ⟨Token.alike_of_unplaced ?_, ⟨he.trans hf.symm, fun _ => htext.trans htext'.symm,
      trivial⟩, he⟩
    have halike := Token.alike_readRow d h e.start
    rw [Token.readRow, Token.readRow, ← hrow, ← hrow', List.filter_map, List.filter_map] at halike
    exact halike
  · obtain ⟨ts, us, e, f, hts, hus, hef, he, hrow, -⟩ :=
      Piece.placedAlike_ofText hP hplace d h _ _ [] hstart
    rw [Token.scan, Token.scan, hts, hus, Token.ofTokens_append, Token.ofTokens_append]
    exact ⟨hrow, hef, he⟩

end DiagramText
