import DiagramText.Proofs.Sequence.Grammar

/-!
# Reading lines of sequence diagrams by themselves

A line is read without regard to the blocks around it, exactly as its grammar says.

* `Sequence.readLine`: reads a line by itself.
* `Sequence.parses_readLine`: a line is read exactly as the grammar says.
* `Sequence.Spelled.unique`: tokens are the lines of one list only.
-/

namespace DiagramText.Sequence

open Reading

/-! ### Reading a line -/

/-- Reads a line that is not about a block: participants, an activation, a note, a message, or the
word `autonumber`. -/
def readPlainLine : Reading Line := do
  let word := Text.lower (← peek).text
  let second ← ahead 1
  if (← checkWord ["participant", "actor"]) && nameKinds.contains second.kind then
    return .clauses (← declaration ((ParticipantKind.ofText? word).getD .participant))
  else if ← checkKeyword ["autonumber"] then
    let _ ← advance
    let _ ← restOfStatement
    endStatement
    return .number
  else if (← checkWord ["activate", "deactivate"]) && nameKinds.contains second.kind then
    return .clauses [← activation (word == "activate")]
  else if (← checkWord ["note"]) && second.kind = .identifier then return .clauses [← note]
  else return .clauses [← message]

/-- Reads a line, whatever block it is in. The keywords of blocks come before all else, as they do
where a draft is at hand. -/
def readLine : Reading Line := do
  if (← accept .newline).isSome then return .blank
  else if ← checkKeyword ["end"] then
    let _ ← advance
    endStatement
    return .closing
  else if ← checkKeyword ["else", "and", "option"] then
    let keyword ← advance
    let label ← label
    endStatement
    return .branch (Text.lower keyword.text) label
  else
    match ← blockKind? with
    | some kind => return .opening (← blockHead kind)
    | none => readPlainLine

/-! ### What is seen of a line -/

section Lines

variable {final : Token}

theorem parses_checkKeyword (words : List String) : Parses final (checkKeyword words)
    fun ts b us => b = ((next final ts).isWord words && (next final ts.tail).kind != .arrow) ∧
      us = ts := by
  refine Parses.congr (Parses.look_bind (Parses.checkWord words) fun b =>
    Parses.look_bind Parses.ahead_one fun t => .pure _) ?_
  intro ts b us
  exact Iff.rfl

/-- The kind of block that the tokens `ts` ahead open, or nothing, if an arrow follows the keyword
and makes it a name. -/
def blockKindAt (final : Token) (ts : List Token) : Option BlockKind :=
  if ((next final ts).isWord (BlockKind.all.map BlockKind.text) &&
      (next final ts.tail).kind != .arrow) = true then
    BlockKind.ofText? (Text.lower (next final ts).text)
  else none

theorem blockKindAt_eq_some {ts : List Token} {kind : BlockKind} :
    blockKindAt final ts = some kind ↔
      ((next final ts).isWord [kind.text] && (next final ts.tail).kind != .arrow) = true := by
  have htext : ∀ {t : Token}, t.isWord [kind.text] = true ↔
      t.isWord (BlockKind.all.map BlockKind.text) = true ∧
        BlockKind.ofText? (Text.lower t.text) = some kind := by
    intro t
    constructor
    · intro ht
      rw [isWord_eq ht, lower_of_isWord ht]
      cases kind <;> exact ⟨rfl, rfl⟩
    · rintro ⟨ht, hkind⟩
      have hlower : kind.text = Text.lower t.text := by
        have := List.find?_some hkind
        simpa using this
      rw [hlower, Token.isWord, kind_of_isWord ht]
      simp
  rw [blockKindAt, Option.ite_none_right_eq_some, Bool.and_eq_true, Bool.and_eq_true, htext,
    and_right_comm]

theorem parses_blockKind? :
    Parses final blockKind? fun ts k us => k = blockKindAt final ts ∧ us = ts := by
  refine Parses.congr (Parses.look_bind (parses_checkKeyword _) fun b => .ite
    (Parses.look_bind Parses.peek fun t => .pure _) (.pure _)) ?_
  intro ts k us
  unfold blockKindAt
  split
  · exact Iff.rfl
  · exact Iff.rfl

theorem Declares.next_isName {kind : ParticipantKind} {ts us : List Token} {ps : List Participant}
    (h : Declares kind ts ps us) : IsName (next final ts) := by
  cases h with
  | plain ht => exact ht
  | labelled ht _ _ => exact ht
  | more ht _ _ => exact ht

theorem Places.next_kind {ts us : List Token} {placement : NotePlacement}
    (h : Places ts placement us) : (next final ts).kind = .identifier := by
  cases h with
  | across ht => exact kind_of_isWord ht
  | leftOf ht _ => exact kind_of_isWord ht
  | rightOf ht _ => exact kind_of_isWord ht

theorem ofText?_lower {t : Token} {kind : ParticipantKind} (h : t.isWord [kind.text] = true) :
    ParticipantKind.ofText? (Text.lower t.text) = some kind := by
  rw [lower_of_isWord h]
  cases kind <;> rfl

theorem IsLabel.of_next {label us : List Token} (hlabel : Inside label)
    (h : (next final (label ++ us)).kind ≠ .arrow) : IsLabel label := by
  refine ⟨hlabel, ?_⟩
  intro t ht
  cases label with
  | nil => cases ht
  | cons u label =>
    obtain rfl : u = t := Option.some.inj ht
    exact h

/-- A line that starts with a line break is blank, since `Spells` has no other line of that kind. -/
theorem Spells.newline_iff {ts us : List Token} {l : Line} (h : Spells ts l us) :
    (next final ts).kind = .newline ↔ l = .blank := by
  have hword : ∀ {t : Token} {word : String}, t.isWord [word] = true → t.kind ≠ .newline := by
    intro t word ht
    rw [kind_of_isWord ht]
    decide
  cases h with
  | blank ht => simp [ht]
  | closing ht _ => simp [hword ht]
  | branch ht _ _ _ => simp [hword ht]
  | opening ht _ _ => simp [hword ht]
  | participants ht _ _ => simp [hword ht]
  | number ht _ _ => simp [hword ht]
  | activation ht _ _ => simp [hword ht]
  | note ht _ _ _ _ _ _ _ => simp [hword ht]
  | message hs _ _ _ _ _ _ => simpa using hs.kind_ne (by decide)

variable (hfinal : final.kind = .endOfInput)

include hfinal

/-- Behind a keyword stands no arrow, be there a label or not: an `IsLabel` that is not empty starts
with another token. -/
theorem IsLabel.next_kind_ne {label ts us : List Token} (hlabel : IsLabel label)
    (hend : Ends ts us) : (next final (label ++ ts)).kind ≠ .arrow := by
  cases label with
  | nil => exact kind_ne_of_endsStatement (hend.next_kind hfinal) rfl
  | cons t label => exact hlabel.2 t rfl

/-! ### Lines that are not about blocks -/

theorem Spells.of_declaration {ts us vs : List Token} {ps : List Participant}
    (hword : (next final ts).isWord ["participant", "actor"] = true)
    (hps : Declares ((ParticipantKind.ofText? (Text.lower (next final ts).text)).getD .participant)
      ts.tail ps us) (hend : Ends us vs) : Spells ts (.clauses (ps.map .participant)) vs := by
  obtain ⟨t, ts, rfl, ht⟩ := exists_cons_of_isWord hfinal hword
  obtain ⟨word, hmem, ht⟩ := exists_of_isWord ht
  have hkind : ∃ kind : ParticipantKind, word = kind.text := by
    rcases List.mem_pair.1 hmem with rfl | rfl
    · exact ⟨.participant, rfl⟩
    · exact ⟨.actor, rfl⟩
  obtain ⟨kind, rfl⟩ := hkind
  rw [next_cons, ofText?_lower ht] at hps
  exact .participants ht hps hend

theorem Spells.of_number {ts label us vs : List Token}
    (hword : (next final ts).isWord ["autonumber"] = true)
    (hnext : (next final ts.tail).kind ≠ .arrow) (htail : ts.tail = label ++ us)
    (hlabel : Inside label) (hend : Ends us vs) : Spells ts .number vs := by
  obtain ⟨t, ts, rfl, ht⟩ := exists_cons_of_isWord hfinal hword
  obtain rfl : ts = label ++ us := htail
  exact .number ht (.of_next hlabel hnext) hend

theorem Spells.of_activation {ts us vs : List Token} {u : Token}
    (hword : (next final ts).isWord ["activate", "deactivate"] = true) (hu : IsName u)
    (htail : ts.tail = u :: us) (hend : Ends us vs) : Spells ts
      (.clauses [.activation u.text (Text.lower (next final ts).text == "activate")]) vs := by
  obtain ⟨t, ts, rfl, ht⟩ := exists_cons_of_isWord hfinal hword
  obtain rfl : ts = u :: us := htail
  refine .activation ?_ hu hend
  obtain ⟨word, hmem, ht⟩ := exists_of_isWord ht
  rw [next_cons, lower_of_isWord ht]
  rcases List.mem_pair.1 hmem with rfl | rfl
  · exact ht
  · exact ht

/-- A line that is not about a block is read by `readPlainLine` exactly as the grammar says. -/
theorem parses_readPlainLine :
    Parses final readPlainLine fun ts l us => Spells ts l us ∧ l.IsPlain := by
  refine Parses.congr (Parses.look_bind Parses.peek fun first =>
    Parses.look_bind Parses.ahead_one fun second =>
    Parses.look_bind (Parses.checkWord _) fun _ => .ite
      ((parses_declaration hfinal _).bind fun cs => .pure _) <|
    Parses.look_bind (parses_checkKeyword _) fun _ => .ite
      (Parses.advance.bind fun _ => (Parses.restOfStatement hfinal).bind fun _ =>
        (Parses.endStatement hfinal).bind fun _ => .pure _) <|
    Parses.look_bind (Parses.checkWord _) fun _ => .ite
      ((parses_activation hfinal _).bind fun c => .pure _) <|
    Parses.look_bind (Parses.checkWord _) fun _ => .ite
      ((parses_note hfinal).bind fun c => .pure _)
      ((parses_message hfinal).bind fun c => .pure _)) ?_
  intro ts l us
  constructor
  -- From what was read to the grammar: each branch of the reader is one rule.
  · intro h
    split at h
    · next hword =>
      obtain ⟨_, _, ⟨ps, vs, hps, hend, rfl⟩, rfl, rfl⟩ := h
      exact ⟨.of_declaration hfinal (Bool.and_eq_true_iff.1 hword).1 hps hend, trivial⟩
    split at h
    · next hword =>
      obtain ⟨_, _, ⟨rfl, rfl⟩, _, vs, ⟨label, htail, hlabel, -, rfl⟩, _, _, hend, rfl, rfl⟩ := h
      rw [Bool.and_eq_true, bne_iff_ne] at hword
      exact ⟨.of_number hfinal hword.1 hword.2 htail hlabel hend, trivial⟩
    split at h
    · next hword =>
      obtain ⟨_, _, ⟨u, vs, hu, htail, hend, rfl⟩, rfl, rfl⟩ := h
      exact ⟨.of_activation hfinal (Bool.and_eq_true_iff.1 hword).1 hu htail hend, trivial⟩
    split at h
    · next hword =>
      obtain ⟨_, _, ⟨u, colon, text, vs, ws, placement, names, label, hplacement, hu, hnames,
        hcolon, htext, hlabel, hend, rfl⟩, rfl, rfl⟩ := h
      obtain ⟨t, ts, rfl, ht⟩ := exists_cons_of_isWord hfinal (Bool.and_eq_true_iff.1 hword).1
      exact ⟨.note ht hplacement hu hnames hcolon htext hlabel hend, trivial⟩
    · obtain ⟨_, _, ⟨s, a, t, ms, us, vs, arrow, mark, text, rfl, hs, ha, harrow, hmark, ht, hsays,
        hend, rfl⟩, rfl, rfl⟩ := h
      exact ⟨.message hs ha harrow hmark ht hsays hend, trivial⟩
  -- From the grammar to what is read: the first word of the rule decides which branch is taken.
  · rintro ⟨h, hplain⟩
    cases h with
    | blank _ => cases hplain
    | closing _ _ => cases hplain
    | branch _ _ _ _ => cases hplain
    | opening _ _ _ => cases hplain
    | @participants t ts us vs kind ps ht hps hend =>
      have hname : nameKinds.contains (next final ts).kind = true :=
        List.contains_iff_mem.2 hps.next_isName
      have hword : ["participant", "actor"].contains kind.text = true := by cases kind <;> rfl
      rw [next_cons, isWord_eq ht, if_pos (by rw [hword]; exact hname), ofText?_lower ht]
      exact ⟨_, _, ⟨ps, us, hps, hend, rfl⟩, rfl, rfl⟩
    | @number t label ts us ht hlabel hend =>
      have hnext : (next final (label ++ ts)).kind ≠ .arrow := hlabel.next_kind_ne hfinal hend
      rw [next_cons, isWord_eq ht, isWord_eq ht, if_neg (by simp), if_pos (by simpa using hnext)]
      exact ⟨t, _, ⟨rfl, rfl⟩, _, ts, ⟨label, rfl, hlabel.1, hend.next_kind hfinal, rfl⟩, (), us,
        hend, rfl, rfl⟩
    | @activation t u ts us active ht hu hend =>
      have hname : nameKinds.contains u.kind = true := List.contains_iff_mem.2 hu
      have hactive : ((if active then "activate" else "deactivate") == "activate") = active := by
        cases active <;> rfl
      rw [next_cons, isWord_eq ht, isWord_eq ht, isWord_eq ht, lower_of_isWord ht, hactive,
        if_neg (by cases active <;> simp), if_neg (by cases active <;> simp),
        if_pos (by cases active <;> exact hname)]
      exact ⟨_, _, ⟨u, ts, hu, rfl, hend, rfl⟩, rfl, rfl⟩
    | @note t u colon text ts vs ws xs placement names label ht hplacement hu hnames hcolon htext
        hlabel hend =>
      have hkind : (next final ts).kind = .identifier := hplacement.next_kind
      rw [next_cons, isWord_eq ht, isWord_eq ht, isWord_eq ht, isWord_eq ht, if_neg (by simp),
        if_neg (by simp), if_neg (by simp), if_pos (by rw [List.tail_cons, hkind]; rfl)]
      exact ⟨_, _, ⟨u, colon, text, vs, ws, placement, names, label, hplacement, hu, hnames, hcolon,
        htext, hlabel, hend, rfl⟩, rfl, rfl⟩
    | @message s a t ms us vs ws arrow mark text hs ha harrow hmark ht htext hend =>
      rw [next_cons, List.tail_cons, next_cons, ha, if_neg (by simp [nameKinds]),
        if_neg (by simp), if_neg (by simp [nameKinds]), if_neg (by simp)]
      exact ⟨_, _, ⟨s, a, t, ms, us, vs, arrow, mark, text, rfl, hs, ha, harrow, hmark, ht, htext,
        hend, rfl⟩, rfl, rfl⟩

/-! ### Lines that may be about blocks -/

/-- The words that start lines that are not about a block. -/
def plainWords : List String :=
  ["participant", "actor", "autonumber", "activate", "deactivate", "note"]

/-- The keyword that a line about a block starts with, in lower case. -/
def Line.blockWord? : Line → Option String
  | .closing => some "end"
  | .branch word _ => some word
  | .opening head => some head.kind.text
  | .blank | .number | .clauses _ => none

/-- The kind of block that a line opens, if it opens one. -/
def Line.opened? : Line → Option BlockKind
  | .opening head => some head.kind
  | .blank | .number | .clauses _ | .branch _ _ | .closing => none

/-- Which keyword of blocks is seen is told from the line, as long as none of `plainWords` is asked
for. -/
theorem Spells.checkKeyword {ts us : List Token} {l : Line} (h : Spells ts l us)
    {words : List String} (hwords : ∀ word ∈ plainWords, words.contains word = false) :
    ((next final ts).isWord words && (next final ts.tail).kind != .arrow) =
      l.blockWord?.any words.contains := by
  -- A line that starts with one of the plain words opens no block, whichever keywords are asked
  -- for.
  have hplain : ∀ {t : Token} {us : List Token} {word : String}, t.isWord [word] = true →
      word ∈ plainWords → (t.isWord words && (next final us).kind != .arrow) = false := by
    intro t us word ht hmem
    rw [isWord_eq ht, hwords word hmem, Bool.false_and]
  -- A keyword of blocks is told from a participant of that name by the arrow behind it.
  have hblock : ∀ {t : Token} {us : List Token} {word : String}, t.isWord [word] = true →
      (next final us).kind ≠ .arrow →
        (t.isWord words && (next final us).kind != .arrow) = words.contains word := by
    intro t us word ht hnext
    rw [isWord_eq ht, bne_iff_ne.2 hnext, Bool.and_true]
  cases h with
  | blank ht => rw [next_cons, Token.isWord, ht]; rfl
  | closing ht hend => exact hblock ht (kind_ne_of_endsStatement (hend.next_kind hfinal) rfl)
  | branch ht _ hlabel hend => exact hblock ht (hlabel.next_kind_ne hfinal hend)
  | opening ht hlabel hend => exact hblock ht (hlabel.next_kind_ne hfinal hend)
  | @participants _ _ _ _ kind _ ht _ _ => exact hplain ht (by cases kind <;> decide)
  | number ht _ _ => exact hplain ht (by decide)
  | @activation _ _ _ _ active ht _ _ => exact hplain ht (by cases active <;> decide)
  | note ht _ _ _ _ _ _ _ => exact hplain ht (by decide)
  | message _ ha _ _ _ _ _ =>
    rw [List.tail_cons, next_cons, next_cons, ha, bne_self_eq_false, Bool.and_false]
    rfl

theorem Spells.blockKindAt_eq {ts us : List Token} {l : Line} (h : Spells ts l us) :
    blockKindAt final ts = l.opened? := by
  refine Option.ext fun kind => ?_
  rw [blockKindAt_eq_some, h.checkKeyword hfinal (by cases kind <;> decide)]
  cases h with
  | @branch _ _ _ _ word _ hword _ _ =>
    have hne : kind.text ≠ word := by
      rintro rfl
      cases kind <;> exact absurd hword (by decide)
    simpa [Line.blockWord?, Line.opened?] using hne.symm
  | closing _ _ => cases kind <;> simp [Line.blockWord?, Line.opened?, BlockKind.text]
  | @opening _ _ _ _ kind' _ _ _ =>
    have htext : kind'.text = kind.text ↔ kind' = kind := by
      cases kind <;> cases kind' <;> decide
    simpa [Line.blockWord?, Line.opened?] using htext
  | _ => simp [Line.blockWord?, Line.opened?]

theorem parses_blockLine (k : Option BlockKind) : Parses final
    (match k with
      | some kind => return .opening (← blockHead kind)
      | none => readPlainLine) fun ts l us =>
    (∃ kind inside ms, k = some kind ∧ ts.tail = inside ++ ms ∧ Inside inside ∧ Ends ms us ∧
      l = .opening ⟨kind, labelOf inside, some (next final ts).start⟩) ∨
    (k = none ∧ Spells ts l us ∧ l.IsPlain) := by
  cases k with
  | none => exact (parses_readPlainLine hfinal).congr fun _ _ _ => by simp
  | some kind =>
    refine Parses.congr ((parses_blockHead hfinal kind).bind fun head => .pure _) ?_
    intro ts l us
    constructor
    · rintro ⟨_, _, ⟨inside, ms, htail, hinside, hend, rfl⟩, rfl, rfl⟩
      exact .inl ⟨kind, inside, ms, rfl, htail, hinside, hend, rfl⟩
    · rintro (⟨_, inside, ms, hkind, htail, hinside, hend, rfl⟩ | ⟨h, _⟩)
      · cases hkind
        exact ⟨_, us, ⟨inside, ms, htail, hinside, hend, rfl⟩, rfl, rfl⟩
      · cases h

theorem Spells.of_branch {ts label us vs : List Token}
    (hword : (next final ts).isWord ["else", "and", "option"] = true)
    (hnext : (next final ts.tail).kind ≠ .arrow) (htail : ts.tail = label ++ us)
    (hlabel : Inside label) (hend : Ends us vs) :
    Spells ts (.branch (Text.lower (next final ts).text) (labelOf label)) vs := by
  obtain ⟨t, ts, rfl, ht⟩ := exists_cons_of_isWord hfinal hword
  obtain rfl : ts = label ++ us := htail
  obtain ⟨word, hmem, ht⟩ := exists_of_isWord ht
  rw [next_cons, lower_of_isWord ht]
  exact .branch ht hmem (.of_next hlabel hnext) hend

theorem Spells.of_opening {ts label us vs : List Token} {kind : BlockKind}
    (hkind : blockKindAt final ts = some kind) (htail : ts.tail = label ++ us)
    (hlabel : Inside label) (hend : Ends us vs) :
    Spells ts (.opening ⟨kind, labelOf label, some (next final ts).start⟩) vs := by
  have hword := blockKindAt_eq_some.1 hkind
  rw [Bool.and_eq_true, bne_iff_ne] at hword
  obtain ⟨t, ts, rfl, ht⟩ := exists_cons_of_isWord hfinal hword.1
  obtain rfl : ts = label ++ us := htail
  exact .opening ht (.of_next hlabel hword.2) hend

/-- A line is read by `readLine` exactly as the grammar says. -/
theorem parses_readLine : Parses final readLine Spells := by
  refine Parses.congr (Parses.option_bind (Parses.accept hfinal (by decide)) (fun _ => .pure _) <|
    Parses.look_bind (parses_checkKeyword _) fun _ => .ite
      (Parses.advance.bind fun _ => (Parses.endStatement hfinal).bind fun _ => .pure _) <|
    Parses.look_bind (parses_checkKeyword _) fun _ => .ite
      (Parses.advance.bind fun _ => parses_label_end hfinal fun _ => .pure _) <|
    Parses.look_bind parses_blockKind? fun k => parses_blockLine hfinal k) ?_
  intro ts l us
  constructor
  · rintro (⟨t, _, ht, rfl, rfl, rfl⟩ | ⟨-, h⟩)
    · exact .blank ht
    split at h
    · next hword =>
      obtain ⟨_, _, ⟨rfl, rfl⟩, _, _, hend, rfl, rfl⟩ := h
      rw [Bool.and_eq_true] at hword
      obtain ⟨t, ts, rfl, ht⟩ := exists_cons_of_isWord hfinal hword.1
      exact .closing ht hend
    split at h
    · next hword =>
      obtain ⟨_, _, ⟨rfl, rfl⟩, label, vs, _, htail, hlabel, hend, rfl, rfl⟩ := h
      rw [Bool.and_eq_true, bne_iff_ne] at hword
      exact .of_branch hfinal hword.1 hword.2 htail hlabel hend
    · obtain ⟨kind, label, vs, hkind, htail, hlabel, hend, rfl⟩ | ⟨-, h, -⟩ := h
      · exact .of_opening hfinal hkind htail hlabel hend
      · exact h
  -- The keyword that is seen decides, and the line tells which it is.
  · intro h
    have hnewline : l ≠ .blank → ¬(next final ts).kind = .newline := mt h.newline_iff.1
    rw [h.checkKeyword hfinal (by decide), h.checkKeyword hfinal (by decide),
      h.blockKindAt_eq hfinal]
    cases l with
    | blank =>
      cases h with
      | @blank t us ht => exact .inl ⟨t, us, ht, rfl, rfl, rfl⟩
    | closing =>
      cases h with
      | @closing t ts us ht hend =>
        refine .inr ⟨hnewline nofun, ?_⟩
        rw [if_pos]
        · exact ⟨t, ts, ⟨rfl, rfl⟩, (), us, hend, rfl, rfl⟩
        · rfl
    | branch word label =>
      cases h with
      | @branch t inside ts us word ht hword hlabel hend =>
        have hne : ¬["end"].contains word = true := by
          intro h
          obtain rfl := List.mem_singleton.1 (List.contains_iff_mem.1 h)
          exact absurd hword (by decide)
        refine .inr ⟨hnewline nofun, ?_⟩
        rw [if_neg, if_pos]
        · refine ⟨t, _, ⟨rfl, rfl⟩, inside, ts, us, rfl, hlabel.1, hend, ?_, rfl⟩
          rw [lower_of_isWord ht]
        · exact List.contains_iff_mem.2 hword
        · exact hne
    | opening head =>
      cases h with
      | @opening t label ts us kind ht hlabel hend =>
        refine .inr ⟨hnewline nofun, ?_⟩
        rw [if_neg, if_neg]
        · exact .inl ⟨kind, label, ts, rfl, rfl, hlabel.1, hend, rfl⟩
        · cases kind <;> exact Bool.false_ne_true
        · cases kind <;> exact Bool.false_ne_true
    | number => exact .inr ⟨hnewline nofun, .inr ⟨rfl, h, trivial⟩⟩
    | clauses cs => exact .inr ⟨hnewline nofun, .inr ⟨rfl, h, trivial⟩⟩

end Lines

/-- Tokens are the lines of one list only, since `readLine` is a function and reads each line to its
end. -/
theorem Spelled.unique {ts : List Token} {ls ls' : List Line} (h : Spelled ts ls)
    (h' : Spelled ts ls') : ls = ls' := by
  have hfinal : (⟨.endOfInput, "", "", .origin, .origin⟩ : Token).kind = .endOfInput := rfl
  induction h generalizing ls' with
  | nil =>
    cases h' with
    | nil => rfl
    | cons hl _ => exact absurd hl.length_lt (Nat.not_lt_zero _)
  | cons hl _ ih =>
    cases h' with
    | nil => exact absurd hl.length_lt (Nat.not_lt_zero _)
    | cons hl' hls' =>
      obtain ⟨rfl, rfl⟩ := (parses_readLine hfinal).unique hl hl'
      rw [ih hls']

end DiagramText.Sequence
