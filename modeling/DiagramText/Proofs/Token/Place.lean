import DiagramText.Proofs.Reading.Alike
import DiagramText.Proofs.Text.Lines
import DiagramText.Token.Scan

/-!
# Tokens of one text at different places

A text that starts elsewhere and has further line feeds at its end is scanned into the same tokens
at other places, and further line breaks.

* `Token.alike_scan` states this for the cursors at the starts of the tokens.
-/

namespace DiagramText

namespace Piece

/-- The piece of a line feed, which is a line break of its own. -/
def newline : Piece := .lexeme .newline ['\n']

theorem ofLine_nil (d : Dialect) : ofLine d [] = [] := by
  rw [ofLine, ofRest]

theorem ofText_nil (d : Dialect) : ofText d [] = [] := by
  simp [ofText, Text.lines, ofFullLine, ofLine_nil]

theorem ofText_newlines (d : Dialect) (k : Nat) :
    ofText d (List.replicate k '\n') = List.replicate k newline := by
  induction k with
  | zero => exact ofText_nil d
  | succ k ih =>
    rw [ofText] at ih ⊢
    rw [List.replicate_succ, Text.lines_newline (by decide), List.flatMap_cons, ih, ofFullLine,
      ofLine_nil]
    rfl

/-- Line feeds at the end of a text `cs` that ends with one are pieces of their own, and the text
before them stays as it is. -/
theorem ofText_append_newlines (d : Dialect) (cs : List Char) (k : Nat) :
    ofText d (cs ++ ['\n'] ++ List.replicate k '\n') =
      ofText d (cs ++ ['\n']) ++ List.replicate k newline := by
  obtain ⟨l, ls, hls⟩ := @Text.lines_append Text.isLineBreak (by decide) cs
  have h : ∀ ys, ofText d (cs ++ '\n' :: ys) =
      (l :: ls).flatMap (ofFullLine d) ++ ofText d ys := fun ys => by
    rw [ofText, hls, List.flatMap_append]
    rfl
  rw [List.append_assoc, List.singleton_append, h, h, ofText_newlines, ofText_nil, List.append_nil]

end Piece

namespace Token

/-- Places do not matter: this relates all positions. -/
abbrev AnyPlace : Position → Position → Prop := fun _ _ => True

/-- Whether a token `t` is read, and not skipped as a comment by the cursor. -/
def isRead (t : Token) : Bool := t.kind != .comment

theorem ofTokens_append (ts : List Token) (e : Token) :
    Cursor.ofTokens (ts ++ [e]) = ⟨[], ts.filter isRead, e⟩ := by
  rw [Cursor.ofTokens, List.dropLast_concat, List.getLast?_concat]
  rfl

/-- Line feeds placed anywhere are further line breaks, as many before the end of input. -/
theorem alike_place_newlines (q : Position) (gap : List Char) (k : Nat) :
    ∃ us f, place q gap (List.replicate k Piece.newline) = us ++ [f] ∧ f.kind = .endOfInput ∧
      f.text = "" ∧ ∀ e, Row.Alike AnyPlace e k [] (us.filter isRead) := by
  induction k generalizing q gap with
  | zero => exact ⟨[], _, rfl, rfl, rfl, fun _ => .nil⟩
  | succ k ih =>
    obtain ⟨us, f, h, hf, htext, hrow⟩ := ih (q.down 1) []
    refine ⟨⟨.newline, String.ofList gap, "\n", q, q.down 1⟩ :: us, f, ?_, hf, htext, ?_⟩
    · rw [List.replicate_succ, Piece.newline, place, ← Piece.newline]
      simp only [if_true, List.length_singleton, h]
      rfl
    · exact fun e => .extra rfl trivial (hrow e)

/-- Pieces `ps` placed anywhere, with further line feeds after them, are alike once comments are
taken out. -/
theorem alike_place (p q : Position) (gap : List Char) (ps : List Piece) (k : Nat) :
    ∃ ts us e f, place p gap ps = ts ++ [e] ∧
      place q gap (ps ++ List.replicate k Piece.newline) = us ++ [f] ∧
      e.Alike AnyPlace f ∧ e.kind = .endOfInput ∧
      (∀ a, Row.Alike AnyPlace a k (ts.filter isRead) (us.filter isRead)) ∧
      SameGap (ts.filter isRead) (us.filter isRead) := by
  induction ps generalizing p q gap with
  | nil =>
    obtain ⟨us, f, h, hf, htext, hrow⟩ := alike_place_newlines q gap k
    exact ⟨[], us, _, f, rfl, h, ⟨hf.symm, fun _ => htext.symm, trivial⟩, rfl, hrow,
      fun _ h => nomatch h⟩
  | cons piece ps ih =>
    cases piece with
    | gap cs => exact ih _ _ _
    | lexeme kind cs =>
      obtain ⟨ts, us, e, f, hts, hus, hef, he, hrow, hgap⟩ :=
        ih (if kind = .newline then p.down cs.length else p.right cs.length)
          (if kind = .newline then q.down cs.length else q.right cs.length) []
      refine ⟨⟨kind, String.ofList gap, String.ofList cs, p, _⟩ :: ts,
        ⟨kind, String.ofList gap, String.ofList cs, q, _⟩ :: us, e, f,
        by rw [place, hts]; rfl, by rw [List.cons_append, place, hus]; rfl, hef, he, ?_⟩
      -- a comment drops out of both rows, and any other lexeme is in both
      by_cases hkind : kind = .comment
      · rw [List.filter_cons_of_neg (by simp [isRead, hkind]),
          List.filter_cons_of_neg (by simp [isRead, hkind])]
        exact ⟨hrow, hgap⟩
      · rw [List.filter_cons_of_pos (by simp [isRead, hkind]),
          List.filter_cons_of_pos (by simp [isRead, hkind])]
        refine ⟨fun a => .cons ⟨rfl, fun _ => rfl, trivial⟩ (fun _ => hgap) (hrow a), ?_⟩
        simp [SameGap]

/-- Scanned somewhere else, and with further line feeds at its end, a text `cs` is read alike: the
cursors at its start are. -/
theorem alike_scan (d : Dialect) (cs : List Char) (k : Nat) (line offset line' offset' : Int) :
    Cursor.Alike AnyPlace k
      (Cursor.ofTokens (scan d (String.ofList (cs ++ ['\n'])) line offset))
      (Cursor.ofTokens
        (scan d (String.ofList (cs ++ ['\n'] ++ List.replicate k '\n')) line' offset')) := by
  rw [scan, scan, String.toList_ofList, String.toList_ofList, Piece.ofText_append_newlines]
  obtain ⟨ts, us, e, f, hts, hus, hef, he, hrow, -⟩ :=
    alike_place ⟨line, 0, offset⟩ ⟨line', 0, offset'⟩ [] (Piece.ofText d (cs ++ ['\n'])) k
  rw [hts, hus, ofTokens_append, ofTokens_append]
  exact ⟨hrow _, hef, he⟩

end Token
end DiagramText
