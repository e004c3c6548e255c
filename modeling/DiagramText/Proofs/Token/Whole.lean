import DiagramText.Proofs.Text.Measure
import DiagramText.Proofs.Token.Tile

/-!
# Texts scanned as a whole

A text is scanned line by line. It may as well be scanned as a whole, with all that is left of the
text ahead of each step and all that is before it behind: no form reaches beyond a line break, and
the end of a string, of a label and of the text after a colon is looked for only up to the next one.

* `Piece.through`: the pieces of a text that is scanned as a whole.
* `Piece.through_eq_ofText`: they are those of the lines of the text.
* `Token.scan_append_newline`: the tokens of a text with a line feed in it are those of the text
  before the line feed and those of the text behind it.
-/

namespace DiagramText

open Text

variable {d : Dialect} {cs tail : List Char}

/-! ### Forms ahead of which the whole text stands -/

namespace Measure

/-- A line break, of which a carriage return with a line feed behind it is one. -/
def lineBreak : Measure := firstOf [literal ['\r', '\n'], literal ['\n'], literal ['\r']]

/-- A comment, up to the next line break and without it. -/
def commentAhead : Measure := fun cs =>
  if ['%', '%'].isPrefixOf cs then run (!isLineBreak ·) cs else 0

/-- A text `cs` between two double quotes with no line break in it. -/
def stringAhead : Measure
  | '"' :: cs =>
    let n := run (fun c => c != '"' && !isLineBreak c) cs
    if (cs.drop n).head? = some '"' then n + 2 else 0
  | _ => 0

/-- At a line break, the break is measured as far as `EndsBefore` says. -/
theorem lineBreak_append {t rest : List Char} (ht : EndsBefore t rest) :
    lineBreak (t ++ rest) = t.length := by
  rcases @EndsBefore.cases isLineBreak rfl rfl _ _ ht with rfl | ⟨c, rfl, hc, hseam⟩
  · simp [lineBreak, firstOf, literal]
  · rw [isLineBreak, Bool.or_eq_true, beq_iff_eq, beq_iff_eq] at hc
    rcases hc with rfl | rfl
    · simp [lineBreak, firstOf, literal]
    · have hpair : literal ['\r', '\n'] (['\r'] ++ rest) = 0 := by
        cases rest with
        | nil => rfl
        | cons e rest =>
          have he : '\n' ≠ e := fun he => hseam rfl (by rw [he]; rfl)
          simp [literal, he]
      rw [lineBreak, firstOf, if_pos hpair]
      simp [firstOf, literal]

/-- Inside a line there is no line break at the next character. -/
theorem lineBreak_eq_zero (hne : cs ≠ []) (hcs : OnOneLine cs) :
    lineBreak (cs ++ tail) = 0 := by
  obtain ⟨c, cs, rfl⟩ := List.exists_cons_of_ne_nil hne
  have hc := hcs c List.mem_cons_self
  rw [isLineBreak, Bool.or_eq_false_iff, beq_eq_false_iff_ne, beq_eq_false_iff_ne] at hc
  simp only [lineBreak, firstOf, List.cons_append, literal_cons_of_ne hc.1,
    literal_cons_of_ne hc.2, if_true]

/-- A run of characters of a line `cs` ends with the line, whatever follows it. -/
theorem run_line {q : Char → Bool} (hcs : OnOneLine cs)
    (htail : ∀ c ∈ tail.head?, isLineBreak c = true) :
    run (fun c => q c && !isLineBreak c) (cs ++ tail) = run q cs := by
  rw [within_run (fun c hc => by rw [hc, Bool.not_true, Bool.and_false]) cs tail htail]
  induction cs with
  | nil => rfl
  | cons c cs ih =>
    obtain ⟨hc, hcs⟩ := List.forall_mem_cons.1 hcs
    have hrun := ih hcs
    simp only [run, List.takeWhile_cons, hc, Bool.not_false, Bool.and_true] at hrun ⊢
    split
    · rw [List.length_cons, List.length_cons, hrun]
    · rfl

/-- A form `m` ends in the line where it starts, and does not look behind the line. -/
structure InLine (m : Measure) : Prop where
  within : Within isLineBreak m
  bounded : Bounded m

theorem commentAhead_append (hcs : OnOneLine cs)
    (htail : ∀ c ∈ tail.head?, isLineBreak c = true) :
    commentAhead (cs ++ tail) = comment cs := by
  have hstart := isPrefixOf_append (p := isLineBreak) (s := ['%', '%']) (by decide) cs htail
  have hrun := run_line (q := fun _ => true) hcs htail
  have hall : run (fun _ => true) (cs ++ []) = cs.length :=
    run_append_of_all (fun _ _ => rfl) fun _ h => (nomatch h)
  rw [List.append_nil] at hall
  rw [commentAhead, comment, hstart]
  exact congrArg (if ['%', '%'].isPrefixOf cs then · else 0) (hrun.trans hall)

theorem stringAhead_append (hcs : OnOneLine cs)
    (htail : ∀ c ∈ tail.head?, isLineBreak c = true) :
    stringAhead (cs ++ tail) = quotedString cs := by
  have hquote : tail.head? ≠ some '"' := fun h => absurd (htail '"' h) (by decide)
  by_cases hstart : ∃ inner, cs = '"' :: inner
  · obtain ⟨inner, rfl⟩ := hstart
    have hrun := run_line (q := (· != '"')) (fun c hc => hcs c (List.mem_cons_of_mem _ hc)) htail
    have hle := run_le (· != '"') inner
    have hclosed : ((inner ++ tail).drop (run (· != '"') inner)).head? = some '"' ↔
        run (· != '"') inner < inner.length := by
      rw [List.drop_append_of_le_length hle]
      rcases Nat.lt_or_eq_of_le hle with hlt | heq
      · -- the run stops before the end of the line, so at a quote
        have hne : inner.drop (run (· != '"') inner) ≠ [] := by
          rw [Ne, List.drop_eq_nil_iff]
          omega
        have hrest : inner.drop (run (· != '"') inner) = inner.dropWhile (· != '"') := by
          conv => lhs; arg 2; rw [← List.takeWhile_append_dropWhile (p := (· != '"')) (l := inner)]
          exact List.drop_left
        have hhead := List.head?_dropWhile_not (· != '"') inner
        rw [hrest] at hne ⊢
        obtain ⟨c, rest, hc⟩ := List.exists_cons_of_ne_nil hne
        rw [hc] at hhead ⊢
        have hc : c = '"' := by simpa using hhead
        simp [hc, hlt]
      · rw [heq, List.drop_length, List.nil_append]
        simp [hquote]
    simp only [List.cons_append, stringAhead, quotedString, hrun, hclosed]
  · have hstart' : ∀ inner, cs ++ tail ≠ '"' :: inner := by
      rintro inner h
      cases cs with
      | nil => exact hquote (by rw [← tail.nil_append, h]; rfl)
      | cons c cs => exact hstart ⟨cs, by cases h; rfl⟩
    rw [stringAhead.eq_2 _ hstart', quotedString.eq_2 _ fun inner h => hstart ⟨inner, h⟩]

end Measure

/-! ### Rules -/

namespace Rule

open DiagramText.Measure

/-- The rules that a dialect `d` tries behind the common ones, which may depend on the character
before. -/
def own (d : Dialect) (before : Option Char) : List Rule :=
  (ofDialect d before).drop common.length

theorem ofDialect_eq (d : Dialect) (before : Option Char) :
    ofDialect d before = common ++ own d before := by
  cases d <;> rfl

/-- The rules of a dialect `d` where the whole rest of the text is ahead, line breaks included. A
break is tried first. -/
def ahead (d : Dialect) (before : Option Char) : List Rule :=
  [(.newline, lineBreak), (.comment, commentAhead), (.string, stringAhead),
    (.colon, literal [':'])] ++ own d before

theorem inLine_literal {s : List Char} (hs : ∀ c ∈ s, c ∉ [' ', '\t', '\n', '\r']) :
    InLine (literal s) :=
  ⟨parts_isLineBreak.literal hs, literal_le s⟩

theorem inLine_hyphenated : InLine hyphenated :=
  ⟨within_hyphenated parts_isLineBreak, hyphenated_le⟩

theorem inLine_punctuation : ∀ r ∈ punctuation, r.2.InLine := by
  simp only [punctuation, List.forall_mem_cons]
  refine ⟨?_, ?_, ?_, ?_, ?_, ?_, ?_, List.forall_mem_nil _⟩ <;> exact inLine_literal (by decide)

theorem inLine_lineOriented : ∀ r ∈ lineOriented, r.2.InLine := by
  simp only [lineOriented, List.forall_mem_cons]
  refine ⟨?_, ?_, ?_, ?_, ?_, ?_, ?_, ?_, ?_, ⟨within_number parts_isLineBreak, number_le⟩,
    ⟨within_wordIdentifier parts_isLineBreak, wordIdentifier_le⟩, List.forall_mem_nil _⟩ <;>
      exact inLine_literal (by decide)

theorem inLine_messageArrow : InLine messageArrow := by
  have hforms : ∀ m ∈ [literal ['-', '-', '>', '>'], literal ['-', '>', '>'],
      literal ['-', '-', 'x'], literal ['-', '-', ')'], literal ['-', '-', '>'],
      literal ['-', 'x'], literal ['-', ')'], literal ['-', '>']], m.InLine := by
    simp only [List.forall_mem_cons]
    refine ⟨?_, ?_, ?_, ?_, ?_, ?_, ?_, ?_, nofun⟩ <;> exact inLine_literal (by decide)
  exact ⟨within_firstOf fun m hm => (hforms m hm).within,
    firstOf_le fun m hm => (hforms m hm).bounded⟩

/-- The rules of a dialect `d` are for forms that end in their line, so none has to be changed for
what is ahead. -/
theorem inLine_own (d : Dialect) (before : Option Char) : ∀ r ∈ own d before, r.2.InLine := by
  have hp := parts_isLineBreak
  cases d with
  | flowchart =>
    exact List.forall_mem_cons.2 ⟨⟨within_edge hp, edge_le⟩,
      List.forall_mem_cons.2 ⟨inLine_hyphenated, inLine_punctuation⟩⟩
  | states =>
    exact List.forall_mem_cons.2 ⟨inLine_literal (by decide),
      List.forall_mem_cons.2 ⟨inLine_literal (by decide),
        List.forall_mem_cons.2 ⟨⟨within_regionSeparator hp, regionSeparator_le⟩,
          List.forall_mem_cons.2 ⟨inLine_hyphenated, inLine_punctuation⟩⟩⟩⟩
  | entities =>
    exact List.forall_mem_cons.2 ⟨⟨within_entityRelation hp, entityRelation_le⟩,
      List.forall_mem_cons.2 ⟨inLine_hyphenated, inLine_punctuation⟩⟩
  | sequence => exact List.forall_mem_cons.2 ⟨inLine_messageArrow, inLine_lineOriented⟩
  | classes =>
    exact List.forall_mem_cons.2 ⟨⟨within_classRelation hp before, classRelation_le before⟩,
      inLine_lineOriented⟩
  | gantt => exact inLine_lineOriented

/-- Where `rules` do not look beyond a line break, they find the same lexeme whatever is behind it,
one by one. -/
theorem first_append_of_within {p : Char → Bool} {rules : List Rule}
    (hrules : ∀ r ∈ rules, r.2.Within p) (htail : ∀ c ∈ tail.head?, p c = true) :
    first rules (cs ++ tail) = first rules cs := by
  induction rules with
  | nil => rfl
  | cons r rules ih =>
    obtain ⟨hr, hrules⟩ := List.forall_mem_cons.1 hrules
    rw [first, first, hr cs tail htail, ih hrules]

/-- Inside a line, the rest of the text does not matter to which lexeme comes first, so `ahead`
finds what `ofDialect` does. -/
theorem first_ahead (before : Option Char) (hne : cs ≠ [])
    (hcs : OnOneLine cs) (htail : ∀ c ∈ tail.head?, isLineBreak c = true) :
    first (ahead d before) (cs ++ tail) = first (ofDialect d before) cs := by
  have hcolon := parts_isLineBreak.literal (s := [':']) (by decide) cs tail htail
  have hwithin : ∀ r ∈ own d before, r.2.Within isLineBreak := fun r hr =>
    (inLine_own d before r hr).within
  have hown : first (own d before) (cs ++ tail) = first (own d before) cs :=
    first_append_of_within hwithin htail
  simp only [ofDialect_eq, ahead, common, List.cons_append, List.nil_append, first,
    lineBreak_eq_zero hne hcs, commentAhead_append hcs htail, stringAhead_append hcs htail, hcolon,
    hown, if_true]

/-- The first lexeme of a line is no longer than the line, not even a comment. -/
theorem first_le (d : Dialect) (before : Option Char) (hne : cs ≠ []) :
    (first (ofDialect d before) cs).2 ≤ cs.length := by
  have hlen := List.length_pos_iff.2 hne
  have hcommon : ∀ r ∈ common, r.2.Bounded := by
    simp only [common, List.forall_mem_cons]
    exact ⟨comment_le, quotedString_le, literal_le _, List.forall_mem_nil _⟩
  have hrules : ∀ r ∈ ofDialect d before, r.2.Bounded := by
    rw [ofDialect_eq]
    exact List.forall_mem_append.2 ⟨hcommon, fun r hr => (inLine_own d before r hr).bounded⟩
  generalize ofDialect d before = rules at hrules
  induction rules with
  | nil => exact hlen
  | cons r rules ih =>
    obtain ⟨hr, hrules⟩ := List.forall_mem_cons.1 hrules
    rw [first]
    split
    · exact ih hrules
    · exact hr cs

/-- At a line break `t` the first lexeme is the break, since it is tried first. -/
theorem first_ahead_newline (before : Option Char) {t rest : List Char} (ht : EndsBefore t rest) :
    first (ahead d before) (t ++ rest) = (.newline, t.length) := by
  rw [ahead, List.cons_append, first, lineBreak_append ht,
    if_neg (Nat.ne_of_gt (List.length_pos_iff.2 ht.ne_nil))]

end Rule

/-! ### Steps through the whole text -/

namespace Piece

/-- What stands before the next line break, or all of the text `cs`. -/
def lineAhead (cs : List Char) : List Char := cs.takeWhile (!isLineBreak ·)

/-- The next pieces of a text `cs` that is not at its end. Only a label, with the delimiter behind
it, and the text after a colon are taken from what stands before the next line break. -/
def nextThrough (d : Dialect) (context : Context) (cs : List Char) : List Piece :=
  (label? d context (lineAhead cs)).getD <|
    let blanks := Measure.run isSpaceOrTab cs
    if blanks ≠ 0 then [gap (cs.take blanks)]
    else
      let (kind, length) := Rule.first (Rule.ahead d context.before) cs
      lexeme kind (cs.take length) ::
        (if kind = .colon && colonOpensText d then colonText (lineAhead (cs.drop length)) else [])

/-- The pieces of the rest of a text `cs`, where the character before it and whether an identifier
came last are known across line breaks. No line is ever cut off first. -/
def through (d : Dialect) (context : Context) (cs : List Char) : List Piece :=
  match cs with
  | [] => []
  | c :: rest =>
    let pieces := nextThrough d context (c :: rest)
    let length := (pieces.flatMap chars).length
    pieces ++ through d (pieces.foldl Context.push context) (rest.drop (length - 1))
termination_by cs.length

variable {context : Context}

theorem isSpaceOrTab_of_isLineBreak {c : Char} (h : isLineBreak c = true) :
    isSpaceOrTab c = false := by
  rw [isLineBreak, Bool.or_eq_true, beq_iff_eq, beq_iff_eq] at h
  rcases h with rfl | rfl <;> decide

theorem lineAhead_append (hcs : OnOneLine cs)
    (htail : ∀ c ∈ tail.head?, isLineBreak c = true) : lineAhead (cs ++ tail) = cs := by
  have hrest : tail.takeWhile (!isLineBreak ·) = [] := by
    cases tail with
    | nil => rfl
    | cons c tail => exact List.takeWhile_cons_of_neg (by simp [htail c rfl])
  rw [lineAhead, List.takeWhile_append_of_pos fun c hc => by rw [hcs c hc]; rfl, hrest,
    List.append_nil]

/-- Inside a line `cs` a step takes the next pieces of the line, whatever is behind the line. -/
theorem nextThrough_line (hne : cs ≠ []) (hcs : OnOneLine cs)
    (htail : ∀ c ∈ tail.head?, isLineBreak c = true) :
    nextThrough d context (cs ++ tail) = next d context cs := by
  have hblanks : Measure.run isSpaceOrTab (cs ++ tail) = Measure.run isSpaceOrTab cs :=
    Measure.within_run (fun _ => isSpaceOrTab_of_isLineBreak) cs tail htail
  have hfirst := Rule.first_ahead (d := d) context.before hne hcs htail
  have hle := Rule.first_le d context.before hne
  unfold nextThrough next plain
  rw [lineAhead_append hcs htail]
  dsimp only
  rw [hblanks, hfirst, List.take_append_of_le_length (Measure.run_le _ cs)]
  generalize Rule.first (Rule.ofDialect d context.before) cs = r at hle
  obtain ⟨kind, n⟩ := r
  have hdrop : ∀ c ∈ cs.drop n, isLineBreak c = false := fun c hc => hcs c (List.mem_of_mem_drop hc)
  dsimp only
  rw [List.take_append_of_le_length hle, List.drop_append_of_le_length hle,
    lineAhead_append hdrop htail]

/-- A character that breaks the line stands at the start of what is behind a line, the break `t`, if
anything is. -/
theorem head_break {t rest : List Char} (ht : EndsBefore t rest) :
    ∀ c ∈ (t ++ rest).head?, isLineBreak c = true := by
  rcases @EndsBefore.cases isLineBreak rfl rfl _ _ ht with rfl | ⟨c, rfl, hc, -⟩
  · rintro _ ⟨⟩
    decide
  · rintro _ ⟨⟩
    exact hc

/-- At a line break `t` a step takes the break, and nothing else. -/
theorem nextThrough_break {t rest : List Char} (ht : EndsBefore t rest) :
    nextThrough d context (t ++ rest) = [lexeme .newline t] := by
  have hhead := head_break ht
  have hline : lineAhead (t ++ rest) = [] := lineAhead_append (List.forall_mem_nil _) hhead
  have hlabel : label? d context [] = none := by
    unfold label?
    split
    · rfl
    · cases context.afterIdentifier <;> rfl
  have hblanks : Measure.run isSpaceOrTab (t ++ rest) = 0 :=
    Measure.within_run (fun _ => isSpaceOrTab_of_isLineBreak) [] _ hhead
  rw [nextThrough, hline, hlabel, Option.getD_none]
  dsimp only
  rw [if_neg (not_not_intro hblanks), Rule.first_ahead_newline context.before ht]
  dsimp only
  rw [List.take_left]
  rfl

/-- A text is scanned by a step and then from where the step leaves it, with what is known there. -/
theorem through_eq_append {ps : List Piece} {rest : List Char}
    (hnext : nextThrough d context cs = ps) (hne : ps.flatMap chars ≠ [])
    (hrest : cs = ps.flatMap chars ++ rest) :
    through d context cs = ps ++ through d (ps.foldl Context.push context) rest := by
  obtain ⟨n, hn⟩ := Nat.exists_eq_add_of_le' (List.length_pos_iff.2 hne)
  cases cs with
  | nil => exact absurd (List.append_eq_nil_iff.1 hrest.symm).1 hne
  | cons c cs =>
    have hdrop : (c :: cs).drop (ps.flatMap chars).length = rest := by
      rw [hrest, List.drop_left]
    rw [hn, List.drop_succ_cons] at hdrop
    rw [through, hnext, hn, Nat.add_sub_cancel, hdrop]

/-- The rest of a line `cs` is scanned as the line, whatever is behind it, and then what is behind
it. -/
theorem through_line (htail : ∀ c ∈ tail.head?, isLineBreak c = true) (context : Context)
    (cs : List Char) (hcs : OnOneLine cs) :
    through d context (cs ++ tail) = ofRest d context cs ++
      through d ((ofRest d context cs).foldl Context.push context) tail := by
  induction hlen : cs.length using Nat.strongRecOn generalizing cs context with
  | _ len ih =>
    by_cases hne : cs = []
    · rw [hne, ofRest]
      rfl
    obtain ⟨⟨rest, hrest⟩, hstep, -⟩ := heads_next d context hne
    have hnext : nextThrough d context (cs ++ tail) = next d context cs :=
      nextThrough_line hne hcs htail
    have hlt : rest.length < len := by
      have hcount := congrArg List.length hrest
      have hpos := List.length_pos_iff.2 hstep
      rw [List.length_append] at hcount
      omega
    have hbreak : ∀ c ∈ rest, isLineBreak c = false := fun c hc =>
      hcs c (by rw [hrest]; exact List.mem_append_right _ hc)
    have hsplit : cs ++ tail = (next d context cs).flatMap chars ++ (rest ++ tail) := by
      rw [← List.append_assoc, ← hrest]
    rw [through_eq_append hnext hstep hsplit, ih rest.length hlt _ rest hbreak rfl,
      ofRest_eq_append hne hrest, List.foldl_append, List.append_assoc]

/-- A line break `t` is scanned on its own, and what it leaves known comes behind it. -/
theorem through_break {t rest : List Char} (ht : EndsBefore t rest) (context : Context) :
    through d context (t ++ rest) =
      lexeme .newline t :: through d (context.push (lexeme .newline t)) rest := by
  refine through_eq_append (nextThrough_break ht) ?_ ?_
  · rw [List.flatMap_singleton]
    exact ht.ne_nil
  · rw [List.flatMap_singleton]
    rfl

/-- Behind a line break `t`, as at the start of a text, neither a word nor an identifier came
before. So a line can be scanned by itself. -/
theorem alike_break {t rest : List Char} (ht : EndsBefore t rest) (context : Context) :
    (context.push (lexeme .newline t)).Alike d {} where
  before := by
    rcases @EndsBefore.cases isLineBreak rfl rfl _ _ ht with rfl | ⟨c, rfl, hc, -⟩
    · show (some '\n').any isWord = false
      decide
    · exact Measure.parts_isLineBreak.eq_false (q := isWord) (by decide) hc
  afterIdentifier _ := rfl

/-- Scanned as a whole, a `text` has the pieces of its lines. The induction is on the lines. -/
theorem through_eq_ofText (text : List Char) {context : Context} (hcontext : context.Alike d {}) :
    through d context text = ofText d text := by
  induction text using inductionOnLines generalizing context with
  | last x hx =>
    have hthrough : through d context (x ++ []) = ofRest d context x ++ through d _ [] :=
      through_line (by simp) context x hx
    rw [List.append_nil, through, List.append_nil, ofRest_congr hcontext] at hthrough
    rw [hthrough, ofText_of_onOneLine d hx]
    rfl
  | cons x t rest hx ht ih =>
    rw [through_line (head_break ht) context x hx, through_break ht, ih (alike_break ht _),
      ofText_break d hx ht, ofRest_congr hcontext]
    rfl

/-- A line feed parts the pieces of `a` from those of `b`, unless it belongs to a carriage return
before it. -/
theorem ofText_append_newline (d : Dialect) (a b : List Char) (ha : a.getLast? ≠ some '\r') :
    ofText d (a ++ '\n' :: b) = ofText d a ++ lexeme .newline ['\n'] :: ofText d b := by
  induction a using inductionOnLines with
  | last x hx =>
    rw [ofText_of_onOneLine d hx]
    exact ofText_break d hx (endsBefore_newline b)
  | cons x t rest hx ht ih =>
    -- the break that ends the line is the same with the line feed behind the text
    have ht' : EndsBefore t (rest ++ '\n' :: b) := by
      refine ⟨ht.1, fun hr => ?_⟩
      cases rest with
      | nil =>
        rw [hr] at ha
        simp at ha
      | cons e rest => exact ht.2 hr
    have hrest : rest.getLast? ≠ some '\r' := by
      intro hlast
      refine ha ?_
      rw [List.getLast?_append, List.getLast?_append, hlast]
      rfl
    rw [List.append_assoc, List.append_assoc, ofText_break d hx ht', ofText_break d hx ht,
      ih hrest, List.append_assoc]
    rfl

end Piece

/-! ### Tokens -/

namespace Token

/-- The tokens of a `text` that starts at the given line and offset and is scanned as a whole. -/
def scanThrough (d : Dialect) (text : String) (line offset : Int) : List Token :=
  place ⟨line, 0, offset⟩ [] (Piece.through d {} text.toList)

theorem scanThrough_eq (d : Dialect) (text : String) (line offset : Int) :
    scanThrough d text line offset = scan d text line offset := by
  rw [scanThrough, Piece.through_eq_ofText _ ⟨rfl, fun _ => rfl⟩, scan]

/-- Further pieces `ps` are placed where the end of input stood, and the tokens before it stay. -/
theorem place_append (p : Position) (gap : List Char) (ps : List Piece) :
    ∃ ts e, place p gap ps = ts ++ [e] ∧ e.kind = .endOfInput ∧
      ∀ qs, place p gap (ps ++ qs) = ts ++ place e.start e.gap.toList qs := by
  induction ps generalizing p gap with
  | nil => exact ⟨[], _, rfl, rfl, fun qs => by rw [String.toList_ofList]; rfl⟩
  | cons piece ps ih =>
    cases piece with
    | gap cs => exact ih _ _
    | lexeme kind cs =>
      let q := if kind = .newline then p.down cs.length else p.right cs.length
      obtain ⟨ts, e, hts, he, happend⟩ := ih q []
      refine ⟨⟨kind, String.ofList gap, String.ofList cs, p, q⟩ :: ts, e, ?_, he, fun qs => ?_⟩
      · rw [place, hts]
        rfl
      · rw [List.cons_append, place, happend]
        rfl

/-- The end of input stands at the end of a `text`, so its place tells how many lines there are. -/
theorem isPlace_endOfInput {d : Dialect} {text : String} {line offset : Int} {ts : List Token}
    {e : Token} (h : scan d text line offset = ts ++ [e]) :
    IsPlace text.toList line offset text.toList.length e.start := by
  obtain ⟨us, f, hus, -, hend, -⟩ := (tiles_pieces d text line offset).last
  obtain ⟨-, rfl⟩ : ts = us ∧ e = f := by
    have heq := h.symm.trans hus
    exact ⟨(List.append_inj' heq rfl).1, by simpa using (List.append_inj' heq rfl).2⟩
  obtain ⟨i, -, -, -, hplace, -⟩ := (tiles_pieces d text line offset).slice e
    (by rw [h]; exact List.mem_append_right _ List.mem_cons_self)
  obtain rfl : i = text.toList.length := by
    have := hplace.offset_eq
    omega
  exact hplace

/-- Where a line feed stands in a text, and no carriage return right before it, the tokens are those
of the text before it, the line feed and those of the text behind it, placed on the next line. In
every dialect `d` they are found by scanning the text as a whole as they are by scanning its lines,
so this is not owed to the way a text is cut into lines. -/
theorem scan_append_newline (d : Dialect) :
    (∀ text line offset, scanThrough d text line offset = scan d text line offset) ∧
      ∀ (a b : String) (line offset : Int), a.toList.getLast? ≠ some '\r' →
        ∃ ts e, scan d a line offset = ts ++ [e] ∧ e.kind = .endOfInput ∧
          IsPlace a.toList line offset a.toList.length e.start ∧
          scan d (a ++ "\n" ++ b) line offset =
            ts ++ ⟨.newline, e.gap, "\n", e.start, e.start.down 1⟩ ::
              scan d b (e.start.line + 1) (offset + a.toList.length + 1) := by
  refine ⟨scanThrough_eq d, fun a b line offset ha => ?_⟩
  obtain ⟨ts, e, hts, hkind, happend⟩ := place_append ⟨line, 0, offset⟩ [] (Piece.ofText d a.toList)
  have hplace : IsPlace a.toList line offset a.toList.length e.start := isPlace_endOfInput hts
  refine ⟨ts, e, hts, hkind, hplace, ?_⟩
  have htext : (a ++ "\n" ++ b).toList = a.toList ++ '\n' :: b.toList := by simp
  rw [scan, htext, Piece.ofText_append_newline d a.toList b.toList ha, happend, place,
    String.ofList_toList, scan, ← hplace.offset_eq]
  rfl

/-- An identifier before a line feed does not make a shape of a bracket behind it. -/
theorem scan_newline_bracket : ∃ ts e, scan .flowchart "A" 1 0 = ts ++ [e] ∧
    scan .flowchart ("A" ++ "\n" ++ "[b]") 1 0 =
      ts ++ ⟨.newline, e.gap, "\n", e.start, e.start.down 1⟩ ::
        scan .flowchart "[b]" (e.start.line + 1) (0 + "A".toList.length + 1) := by
  obtain ⟨ts, e, hts, -, -, hscan⟩ :=
    (scan_append_newline .flowchart).2 "A" "[b]" 1 0 (by decide)
  exact ⟨ts, e, hts, hscan⟩

end Token
end DiagramText
