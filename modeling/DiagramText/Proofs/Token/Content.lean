import DiagramText.Proofs.Token.Span
import DiagramText.Proofs.Token.Tile

/-!
# Texts that are taken as they stand

The source of tokens holds the gaps between them. So where a text is read up to a token that stops
it, it is read as it stands, but for blanks around it, if no such token is in it.

* `Piece.forall_ofRest`: what holds of the pieces of each step holds of the pieces of a line.
* `Token.row_of_isInner`: inner pieces give tokens that are read over.
* `Token.trim_source_row`: pieces of a text give tokens of which the source is the text.

Where text stands after a colon, a lexeme is told by its own characters, so it is the same lexeme in
another line. The text after a colon is taken from there again, too.

* `Piece.Alone`: a lexeme that its characters give, or the text after a colon.
* `Token.alone_scan`: the tokens of a text are such lexemes.
-/

namespace DiagramText

open Text

namespace Piece

/-- What holds of the pieces of each step, wherever it is, holds of the pieces of a line. `Q` is
what every suffix inherits. -/
theorem forall_ofRest {d : Dialect} {Q : List Char → Prop} {P : Piece → Prop}
    (hsuffix : ∀ x b, Q (x ++ b) → Q b)
    (hnext : ∀ context c cs, Q (c :: cs) → ∀ p ∈ next d context (c :: cs), P p)
    (context : Context) {cs : List Char} (h : Q cs) : ∀ p ∈ ofRest d context cs, P p := by
  induction hlen : cs.length using Nat.strongRecOn generalizing cs context with
  | _ len ih =>
    cases cs with
    | nil =>
      rw [ofRest]
      exact List.forall_mem_nil _
    | cons c cs =>
      have hrest : ∀ n, Q (cs.drop n) ∧ (cs.drop n).length < len := by
        intro n
        refine ⟨hsuffix (c :: cs.take n) _ ?_, ?_⟩
        · rw [List.cons_append, List.take_append_drop]
          exact h
        · rw [List.length_drop, ← hlen, List.length_cons]
          omega
      rw [ofRest]
      exact List.forall_mem_append.2 ⟨hnext context c cs h,
        ih _ (hrest _).2 _ (hrest _).1 rfl⟩

/-- A gap of spaces and tabs, or a lexeme that neither ends a statement nor is a comment nor stops a
text, so that `rawUntil` reads over it. -/
def IsInner (stops : List TokenKind) : Piece → Prop
  | gap cs => ∀ c ∈ cs, isSpaceOrTab c = true
  | lexeme kind _ => kind.endsStatement = false ∧ kind ≠ .comment ∧ kind ∉ stops

end Piece

namespace Token

/-- The characters that the tokens `ts` hold, their gaps included, in their order. -/
def content (ts : List Token) : List Char := ts.flatMap fun t => t.gap.toList ++ t.text.toList

theorem content_row (gap : List Char) (ps : List Piece) :
    gap ++ ps.flatMap Piece.chars = content (row gap ps) ++ trailing gap ps := by
  induction ps generalizing gap with
  | nil => simp [row, trailing, content]
  | cons p ps ih =>
    cases p with
    | gap cs => rw [row, trailing, ← ih, List.flatMap_cons, List.append_assoc]; rfl
    | lexeme kind cs =>
      have htail := ih []
      rw [List.nil_append] at htail
      rw [row, trailing, List.flatMap_cons, htail]
      simp [content, plain, Piece.chars]

/-- The content of tokens `ts` is the gap before the first, and their source. -/
theorem content_cons (t : Token) (ts : List Token) :
    content (t :: ts) = t.gap.toList ++ (source (t :: ts)).toList := by
  have hjoin : (String.join (ts.map fun u => u.gap ++ u.text)).toList = content ts := by
    induction ts with
    | nil => rfl
    | cons u us ih =>
      rw [List.map_cons, String.join_cons, String.toList_append, ih, String.toList_append]
      rfl
  rw [source, String.toList_append, hjoin, ← List.append_assoc]
  rfl

/-- What some of the tokens `us` hold is part of what all of them hold, gaps included. -/
theorem content_sublist {ts us : List Token} (h : ts.Sublist us) :
    (content ts).Sublist (content us) := by
  induction h with
  | slnil => exact List.Sublist.refl _
  | cons t h ih => exact ih.trans (List.sublist_append_right _ _)
  | cons_cons t h ih => exact (List.Sublist.refl _).append ih

theorem source_sublist (ts : List Token) : (source ts).toList.Sublist (content ts) := by
  cases ts with
  | nil => exact List.nil_sublist _
  | cons t ts =>
    rw [content_cons]
    exact List.sublist_append_right _ _

variable {stops : List TokenKind} {gap : List Char} {ps : List Piece}

/-- The tokens of inner pieces `ps` are read over, and have gaps of spaces and tabs, if the gap
before them is one. -/
theorem row_of_isInner (hgap : ∀ c ∈ gap, isSpaceOrTab c = true)
    (hps : ∀ p ∈ ps, p.IsInner stops) :
    (∀ t ∈ row gap ps, t.kind.endsStatement = false ∧ t.kind ≠ .comment ∧ t.kind ∉ stops) ∧
      (∀ t ∈ row gap ps, ∀ c ∈ t.gap.toList, isSpaceOrTab c = true) ∧
      ∀ c ∈ trailing gap ps, isSpaceOrTab c = true := by
  induction ps generalizing gap with
  | nil => exact ⟨List.forall_mem_nil _, List.forall_mem_nil _, hgap⟩
  | cons p ps ih =>
    obtain ⟨hp, htail⟩ := List.forall_mem_cons.1 hps
    cases p with
    | gap cs => exact ih (List.forall_mem_append.2 ⟨hgap, hp⟩) htail
    | lexeme kind cs =>
      have hnone : ∀ c ∈ ([] : List Char), isSpaceOrTab c = true := List.forall_mem_nil _
      obtain ⟨hkinds, hgaps, htrailing⟩ := ih hnone htail
      exact ⟨List.forall_mem_cons.2 ⟨hp, hkinds⟩,
        List.forall_mem_cons.2 ⟨by simpa [plain] using hgap, hgaps⟩, htrailing⟩

/-- The characters of inner pieces are the source of their tokens but for the blanks around it,
which `trim` takes away. -/
theorem trim_source_row (hgap : ∀ c ∈ gap, isSpaceOrTab c = true)
    (hps : ∀ p ∈ ps, p.IsInner stops) {cs : List Char} (hchars : ps.flatMap Piece.chars = cs)
    (htrim : Trimmed cs) : trim (source (row gap ps)).toList = cs := by
  obtain ⟨-, hgaps, htrailing⟩ := row_of_isInner hgap hps
  have hblank : ∀ b : List Char, (∀ c ∈ b, isSpaceOrTab c = true) → ∀ c ∈ b, isBlank c = true :=
    fun b hb c hc => isBlank_of_isSpaceOrTab (hb c hc)
  have hcontent := content_row gap ps
  rw [hchars] at hcontent
  have hcs : trim (gap ++ cs ++ []) = cs := by
    rw [trim_append_blanks (hblank _ hgap) (List.forall_mem_nil _), htrim.trim_eq]
  rw [List.append_nil] at hcs
  cases hrow : row gap ps with
  | nil =>
    -- nothing but blanks makes no token
    rw [hrow, content, List.flatMap_nil, List.nil_append] at hcontent
    have hnil := trim_append_blanks (hblank _ htrailing) (List.forall_mem_nil _) []
    rw [List.append_nil, List.append_nil, ← hcontent, hcs] at hnil
    rw [hnil]
    rfl
  | cons t ts =>
    rw [hrow, content_cons] at hcontent
    rw [hrow] at hgaps
    rw [hcontent, trim_append_blanks (hblank _ (hgaps t List.mem_cons_self))
      (hblank _ htrailing)] at hcs
    exact hcs

end Token
/-! ### Lexemes that are scanned alone -/

variable {d : Dialect} {words : List Rule}

namespace Piece

/-- Characters that give a lexeme of the kind when they are scanned alone, or one that stands only
at its place: the text `x` after a colon, or a line break. -/
inductive Alone (words : List Rule) : TokenKind → List Char → Prop
  | text {x : List Char} (hx : Token.IsTail x) : Alone words .text x
  | newline (x : List Char) : Alone words .newline x
  | lexeme {kind : TokenKind} {x : List Char}
      (hfirst : Rule.first (Rule.common ++ words) x = (kind, x.length)) : Alone words kind x

/-- The first lexeme of a line `cs` is the first lexeme of its own characters, since no rule needs
what follows to match them. -/
theorem alone_first (hd : d.Regular words) {c : Char} (hc : isSpaceOrTab c = false) (cs : List Char)
    {kind : TokenKind} {n : Nat}
    (hfirst : Rule.first (Rule.common ++ words) (c :: cs) = (kind, n)) :
    Alone words kind ((c :: cs).take n) := by
  have hn : n ≤ (c :: cs).length := by
    have hcases := Rule.first_cases hd hc cs
    rw [hfirst] at hcases
    cases hcases with
    | comment => exact Nat.le_refl _
    | colon _ => exact Nat.succ_pos _
    | other _ hn _ => exact hn
  have hlength : ((c :: cs).take n).length = n := by rw [List.length_take, Nat.min_eq_left hn]
  have hcut := hd.cut ((c :: cs).take n) ((c :: cs).drop n)
  rw [List.take_append_drop, hfirst, hlength] at hcut
  exact .lexeme (by rw [hcut (Nat.le_refl n) (.inl rfl), hlength])

theorem isTail_colonText (cs : List Char) (hne : trimRight (cs.dropWhile isSpaceOrTab) ≠ []) :
    Token.IsTail (trimRight (cs.dropWhile isSpaceOrTab)) := by
  obtain ⟨b, hb, -, hlast⟩ := exists_trimRight (cs.dropWhile isSpaceOrTab)
  refine ⟨hne, fun c hc => ?_, hlast⟩
  have hhead := List.head?_dropWhile_not isSpaceOrTab cs
  rw [hb, List.head?_append, Option.mem_def.1 hc] at hhead
  simpa using hhead

/-- The lexemes of a step stand alone: at most one by a rule, and a text if that one is a colon. -/
theorem alone_plain (hd : d.Regular words) (c : Char) (cs : List Char) {kind : TokenKind}
    {x : List Char} (h : lexeme kind x ∈ plain d {} (c :: cs)) : Alone words kind x := by
  unfold plain at h
  dsimp only at h
  -- Blanks are skipped and are no lexeme.
  split at h
  · cases List.mem_singleton.1 h
  · next hblanks =>
    have hc : isSpaceOrTab c = false := by
      by_contra hc
      simp [Measure.run, hc] at hblanks
    rw [hd.rules] at h
    cases hfirst : Rule.first (Rule.common ++ words) (c :: cs) with
    | mk k n =>
      rw [hfirst] at h
      rcases List.mem_cons.1 h with h | h
      · cases h
        exact alone_first hd hc cs hfirst
      · split at h
        -- A colon takes the rest of its line: blanks, a text and blanks.
        · rw [colonText, List.cons_append] at h
          rcases List.mem_cons.1 h with h | h
          · cases h
          rcases List.mem_append.1 h with h | h
          · split at h
            · cases h
            · next hne =>
              cases List.mem_singleton.1 h
              exact .text (isTail_colonText _ (by simpa using hne))
          · cases List.mem_singleton.1 h
        · cases h

/-- The lexemes of a `text` stand alone, whatever line they come from. -/
theorem alone_ofText (hd : d.Regular words) {text : List Char} {kind : TokenKind} {x : List Char}
    (h : lexeme kind x ∈ ofText d text) : Alone words kind x := by
  have hline : ∀ cs, ∀ p ∈ ofLine d cs, ∀ kind x, p = lexeme kind x → Alone words kind x := by
    intro cs
    refine forall_ofRest (Q := fun _ => True) (fun _ _ _ => trivial) (fun context c cs _ => ?_) {}
      trivial
    rintro p hp kind x rfl
    rw [next_eq hd] at hp
    exact alone_plain hd c cs hp
  obtain ⟨l, -, hp⟩ := List.mem_flatMap.1 h
  rcases List.mem_append.1 hp with hp | hp
  · exact hline l.content _ hp kind x rfl
  · split at hp
    · cases hp
    · cases List.mem_singleton.1 hp
      exact .newline _

end Piece

/-- The tokens of a `text` stand alone, and all but line breaks stand on one line, since a text is
scanned line by line. -/
theorem Token.alone_scan (hd : d.Regular words) {text : String} {line offset : Int} {t : Token}
    (ht : t ∈ scan d text line offset) (hend : t.kind ≠ .endOfInput) :
    Piece.Alone words t.kind t.text.toList ∧ (t.kind ≠ .newline → OnOneLine t.text.toList) := by
  rcases exists_of_mem_place ht with h | ⟨cs, hcs, htext⟩
  · exact absurd h hend
  · rw [htext, String.toList_ofList]
    exact ⟨Piece.alone_ofText hd hcs, (Piece.cut_ofText d text.toList).2.onOneLine hcs⟩

end DiagramText
