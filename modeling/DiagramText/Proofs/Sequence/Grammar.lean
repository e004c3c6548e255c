import DiagramText.Proofs.Reading.Grammar
import DiagramText.Proofs.Sequence.Alike
import DiagramText.Proofs.Sequence.Steady
import DiagramText.Sequence.Reader

/-!
# The grammar of lines of sequence diagrams

Each line of a sequence diagram is a statement by itself: it is empty, opens or closes a block,
starts a branch, asks for numbers, or holds clauses. What it is does not depend on the lines around
it. A keyword is one unless an arrow follows it; before an arrow it is the name of a participant.

* `Sequence.Line`: a line.
* `Sequence.Spells`: the tokens of a line.
* The lemmas about `Reading.Parses` say how the parts of a line are read.
-/

namespace DiagramText.Sequence

open Reading

/-! ### Lines -/

/-- A line of a sequence diagram: what it is for the blocks, with the clauses or the label that it
has. -/
inductive Line where
  | blank
  | number
  | clauses (clauses : List Clause)
  | opening (head : Block)
  | branch (word : String) (label : Option String)
  | closing

/-- A line that is not about a block and not empty. -/
def Line.IsPlain : Line → Prop
  | .number | .clauses _ => True
  | .blank | .opening _ | .branch _ _ | .closing => False

/-! ### Parts of a line -/

/-- A token `t` that can name a participant, keywords among them. -/
def IsName (t : Token) : Prop := t.kind ∈ nameKinds

theorem IsName.kind_ne {t : Token} (h : IsName t) {kind : TokenKind} (hkind : kind ∉ nameKinds) :
    t.kind ≠ kind := fun ht => hkind (ht ▸ h)

/-- Tokens `ts` that can stand behind a keyword as its label. An arrow right behind it would make
the keyword the name of a participant. -/
def IsLabel (ts : List Token) : Prop := Inside ts ∧ ∀ t ∈ ts.head?, t.kind ≠ .arrow

/-- The label that tokens stand for, as their text. An empty label is none. -/
def labelOf (ts : List Token) : Option String :=
  if (textOf ts).isEmpty then none else some (textOf ts)

/-- Participants that a line declares, separated by commas or ampersands. The label of the last may
be any text. -/
inductive Declares (kind : ParticipantKind) : List Token → List Participant → List Token → Prop
  | plain {t : Token} {us : List Token} (ht : IsName t) :
      Declares kind (t :: us) [⟨t.text, none, kind, some t.start⟩] us
  | labelled {t as : Token} {label us : List Token} (ht : IsName t) (has : as.isWord ["as"] = true)
      (hlabel : Inside label) :
      Declares kind (t :: as :: (label ++ us)) [⟨t.text, labelOf label, kind, some t.start⟩] us
  | more {t separator : Token} {ts us : List Token} {ps : List Participant} (ht : IsName t)
      (hseparator : separator.kind = .comma ∨ separator.kind = .ampersand)
      (hps : Declares kind ts ps us) :
      Declares kind (t :: separator :: ts) (⟨t.text, none, kind, some t.start⟩ :: ps) us

/-- Where a note is placed, told by one word or by two. -/
inductive Places : List Token → NotePlacement → List Token → Prop
  | across {t : Token} {us : List Token} (ht : t.isWord ["over"] = true) :
      Places (t :: us) .across us
  | leftOf {t u : Token} {us : List Token} (ht : t.isWord ["left"] = true)
      (hu : u.isWord ["of"] = true) : Places (t :: u :: us) .leftOf us
  | rightOf {t u : Token} {us : List Token} (ht : t.isWord ["right"] = true)
      (hu : u.isWord ["of"] = true) : Places (t :: u :: us) .rightOf us

/-- Further names, each behind a comma, and the tokens `us` that are left behind them. -/
inductive MoreNames : List Token → List String → List Token → Prop
  | nil {us : List Token} : MoreNames us [] us
  | cons {comma t : Token} {ts us : List Token} {names : List String} (hcomma : comma.kind = .comma)
      (ht : IsName t) (hnames : MoreNames ts names us) :
      MoreNames (comma :: t :: ts) (t.text :: names) us

/-- An activation mark, or none, in front of the target of a message. -/
inductive Marks : List Token → Option ActivationMark → List Token → Prop
  | none {us : List Token} : Marks us none us
  | activate {t : Token} {us : List Token} (ht : t.kind = .plus) :
      Marks (t :: us) (some .activate) us
  | deactivate {t : Token} {us : List Token} (ht : t.kind = .minus) :
      Marks (t :: us) (some .deactivate) us

/-- The text of a message behind a colon. There may be none, with a colon or without. -/
inductive Says : List Token → Option Content → List Token → Prop
  | none {us : List Token} : Says us none us
  | silent {colon : Token} {us : List Token} (hcolon : colon.kind = .colon) :
      Says (colon :: us) none us
  | text {colon t : Token} {us : List Token} {label : Content} (hcolon : colon.kind = .colon)
      (ht : t.kind = .text) (hlabel : Content.ofText? t.text = some label) :
      Says (colon :: t :: us) (some label) us

/-! ### The tokens of a line -/

/-- Tokens `us` start with a line, and others are left behind it. The end of input may stand for its
line break. -/
inductive Spells : List Token → Line → List Token → Prop
  | blank {t : Token} {us : List Token} (ht : t.kind = .newline) : Spells (t :: us) .blank us
  | closing {t : Token} {ts us : List Token} (ht : t.isWord ["end"] = true) (hend : Ends ts us) :
      Spells (t :: ts) .closing us
  | branch {t : Token} {label ts us : List Token} {word : String} (ht : t.isWord [word] = true)
      (hword : word ∈ ["else", "and", "option"]) (hlabel : IsLabel label) (hend : Ends ts us) :
      Spells (t :: (label ++ ts)) (.branch word (labelOf label)) us
  | opening {t : Token} {label ts us : List Token} {kind : BlockKind}
      (ht : t.isWord [kind.text] = true) (hlabel : IsLabel label) (hend : Ends ts us) :
      Spells (t :: (label ++ ts)) (.opening ⟨kind, labelOf label, some t.start⟩) us
  | number {t : Token} {label ts us : List Token} (ht : t.isWord ["autonumber"] = true)
      (hlabel : IsLabel label) (hend : Ends ts us) : Spells (t :: (label ++ ts)) .number us
  | participants {t : Token} {ts us vs : List Token} {kind : ParticipantKind}
      {ps : List Participant} (ht : t.isWord [kind.text] = true) (hps : Declares kind ts ps us)
      (hend : Ends us vs) : Spells (t :: ts) (.clauses (ps.map .participant)) vs
  | activation {t u : Token} {ts us : List Token} {active : Bool}
      (ht : t.isWord [if active then "activate" else "deactivate"] = true) (hu : IsName u)
      (hend : Ends ts us) : Spells (t :: u :: ts) (.clauses [.activation u.text active]) us
  | note {t u colon text : Token} {ts us vs ws : List Token} {placement : NotePlacement}
      {names : List String} {label : Content} (ht : t.isWord ["note"] = true)
      (hplacement : Places ts placement (u :: us)) (hu : IsName u)
      (hnames : MoreNames us names (colon :: text :: vs)) (hcolon : colon.kind = .colon)
      (htext : text.kind = .text) (hlabel : Content.ofText? text.text = some label)
      (hend : Ends vs ws) :
      Spells (t :: ts) (.clauses [.note ⟨placement, u.text :: names, label, some t.start⟩]) ws
  | message {s a t : Token} {ts us vs ws : List Token} {arrow : Arrow}
      {mark : Option ActivationMark} {text : Option Content} (hs : IsName s)
      (ha : a.kind = .arrow) (harrow : Arrow.ofText? a.text = some arrow)
      (hmark : Marks ts mark (t :: us)) (ht : IsName t) (htext : Says us text vs)
      (hend : Ends vs ws) :
      Spells (s :: a :: ts)
        (.clauses [.message ⟨s.text, t.text, arrow, text, mark, some s.start⟩]) ws

/-- Tokens are lines one behind the other, with nothing left. -/
inductive Spelled : List Token → List Line → Prop
  | nil : Spelled [] []
  | cons {ts us : List Token} {l : Line} {ls : List Line} (hl : Spells ts l us)
      (hls : Spelled us ls) : Spelled ts (l :: ls)

/-! ### Tokens that are used -/

theorem Declares.suffix {kind : ParticipantKind} {ts us : List Token} {ps : List Participant}
    (h : Declares kind ts ps us) : us <:+ ts := by
  induction h with
  | @plain t us _ => exact List.suffix_cons t us
  | @labelled t as label us _ _ _ => exact List.suffix_append (t :: as :: label) us
  | @more t separator ts us _ _ _ _ ih => exact ih.trans (List.suffix_append [t, separator] ts)

theorem MoreNames.suffix {ts us : List Token} {names : List String} (h : MoreNames ts names us) :
    us <:+ ts := by
  induction h with
  | nil => exact List.suffix_refl _
  | @cons comma t ts us names _ _ _ ih => exact ih.trans (List.suffix_append [comma, t] ts)

theorem Places.suffix {ts us : List Token} {placement : NotePlacement}
    (h : Places ts placement us) : us <:+ ts := by
  cases h with
  | @across t us _ => exact List.suffix_cons t us
  | @leftOf t u us _ _ => exact List.suffix_append [t, u] us
  | @rightOf t u us _ _ => exact List.suffix_append [t, u] us

theorem Marks.suffix {ts us : List Token} {mark : Option ActivationMark} (h : Marks ts mark us) :
    us <:+ ts := by
  cases h with
  | none => exact List.suffix_refl _
  | @activate t us _ => exact List.suffix_cons t us
  | @deactivate t us _ => exact List.suffix_cons t us

theorem Says.suffix {ts us : List Token} {text : Option Content} (h : Says ts text us) :
    us <:+ ts := by
  cases h with
  | none => exact List.suffix_refl _
  | @silent colon us _ => exact List.suffix_cons colon us
  | @text colon t us label _ _ _ => exact List.suffix_append [colon, t] us

/-- A line `l` is of a token or more, and others are left behind it, which are the last of the
tokens. -/
theorem Spells.exists_cons {ts us : List Token} {l : Line} (h : Spells ts l us) :
    ∃ t vs, ts = t :: vs ∧ us <:+ vs := by
  cases h with
  | blank _ => exact ⟨_, _, rfl, List.suffix_refl _⟩
  | closing _ hend => exact ⟨_, _, rfl, hend.suffix⟩
  | @branch _ label _ _ _ _ _ _ hend =>
    exact ⟨_, _, rfl, hend.suffix.trans (List.suffix_append label _)⟩
  | @opening _ label _ _ _ _ _ hend =>
    exact ⟨_, _, rfl, hend.suffix.trans (List.suffix_append label _)⟩
  | @number _ label _ _ _ _ hend =>
    exact ⟨_, _, rfl, hend.suffix.trans (List.suffix_append label _)⟩
  | participants _ hps hend => exact ⟨_, _, rfl, hend.suffix.trans hps.suffix⟩
  | @activation _ u _ _ _ _ _ hend =>
    exact ⟨_, _, rfl, hend.suffix.trans (List.suffix_cons u _)⟩
  | @note _ u colon text _ _ _ _ _ _ _ _ hplacement _ hnames _ _ _ hend =>
    have hnames' := (List.suffix_append [colon, text] _).trans hnames.suffix
    exact ⟨_, _, rfl, hend.suffix.trans
      (hnames'.trans ((List.suffix_cons u _).trans hplacement.suffix))⟩
  | @message _ a t _ _ _ _ _ _ _ _ _ _ hmark _ htext hend =>
    have hmark' := (List.suffix_cons t _).trans hmark.suffix
    exact ⟨_, _, rfl, hend.suffix.trans
      (htext.suffix.trans (hmark'.trans (List.suffix_cons a _)))⟩

theorem Spells.length_lt {ts us : List Token} {l : Line} (h : Spells ts l us) :
    us.length < ts.length := by
  obtain ⟨t, vs, rfl, hsuffix⟩ := h.exists_cons
  exact Nat.lt_succ_of_le hsuffix.length_le

/-! ### One participant after the other -/

/-- A participant as it is read, and whether a separator behind it asks for another one, as a
grammar of one round. -/
inductive DeclaresOne (final : Token) (kind : ParticipantKind) :
    List Token → Participant × Bool → List Token → Prop
  | plain {t : Token} {us : List Token} (ht : IsName t)
      (has : ¬(next final us).isWord ["as"] = true) (hcomma : (next final us).kind ≠ .comma)
      (hampersand : (next final us).kind ≠ .ampersand) :
      DeclaresOne final kind (t :: us) (⟨t.text, none, kind, some t.start⟩, false) us
  | labelled {t as : Token} {label us : List Token} (ht : IsName t) (has : as.isWord ["as"] = true)
      (hlabel : Inside label) (hnext : (next final us).kind.endsStatement = true) :
      DeclaresOne final kind (t :: as :: (label ++ us))
        (⟨t.text, labelOf label, kind, some t.start⟩, false) us
  | more {t separator : Token} {us : List Token} (ht : IsName t)
      (hseparator : separator.kind = .comma ∨ separator.kind = .ampersand) :
      DeclaresOne final kind (t :: separator :: us) (⟨t.text, none, kind, some t.start⟩, true) us

/-- One round of reading the participants of a line, behind those that were read: it goes on if
another one is asked for. -/
def DeclaresRound (final : Token) (kind : ParticipantKind) (ps : List Participant) :
    Grammar (List Participant ⊕ List Participant) := fun ts r us =>
  ∃ a, DeclaresOne final kind ts a us ∧
    r = if a.2 = true then .inl (ps ++ [a.1]) else .inr (ps ++ [a.1])

section

variable {final : Token}

theorem declares_of_loops {kind : ParticipantKind} {ps qs : List Participant}
    {ts us : List Token} (h : Parses.Loops (DeclaresRound final kind) ps ts qs us) :
    ∃ more, qs = ps ++ more ∧ Declares kind ts more us := by
  induction h with
  | done h =>
    obtain ⟨_, hone, h⟩ := h
    cases hone with
    | plain ht _ _ _ => cases h; exact ⟨_, rfl, .plain ht⟩
    | labelled ht has hlabel _ => cases h; exact ⟨_, rfl, .labelled ht has hlabel⟩
    | more _ _ => cases h
  | more h _ _ ih =>
    obtain ⟨_, hone, h⟩ := h
    cases hone with
    | plain _ _ _ _ => cases h
    | labelled _ _ _ _ => cases h
    | more ht hseparator =>
      cases h
      obtain ⟨more, rfl, hmore⟩ := ih
      exact ⟨_ :: more, (List.append_cons _ _ _).symm, .more ht hseparator hmore⟩

theorem loops_of_declares {kind : ParticipantKind} {qs : List Participant} {ts us : List Token}
    (h : Declares kind ts qs us) (hend : (next final us).kind.endsStatement = true)
    (ps : List Participant) : Parses.Loops (DeclaresRound final kind) ps ts (ps ++ qs) us := by
  induction h generalizing ps with
  | plain ht =>
    exact .done ⟨_, .plain ht (not_isWord_of_endsStatement hend _)
      (kind_ne_of_endsStatement hend rfl) (kind_ne_of_endsStatement hend rfl), rfl⟩
  | labelled ht has hlabel => exact .done ⟨_, .labelled ht has hlabel hend, rfl⟩
  | @more t separator ts us qs ht hseparator _ ih =>
    rw [List.append_cons]
    refine .more ⟨_, .more ht hseparator, rfl⟩ ?_ (ih hend _)
    exact Nat.lt_succ_of_lt (Nat.lt_succ_self _)

end

/-! ### Reading the parts of a line -/

section Parts

variable {final : Token} (hfinal : final.kind = .endOfInput)

include hfinal

theorem parses_name : Parses final name fun ts id us =>
    ∃ t, IsName t ∧ ts = t :: us ∧ id = t.text := by
  refine ((Parses.expectAny hfinal (by decide) _).bind fun t => .pure t.text).congr ?_
  intro ts id us
  constructor
  · rintro ⟨t, _, ⟨ht, rfl⟩, rfl, rfl⟩
    exact ⟨t, ht, rfl, rfl⟩
  · rintro ⟨t, ht, rfl, rfl⟩
    exact ⟨t, us, ⟨ht, rfl⟩, rfl, rfl⟩

theorem parses_label : Parses final label fun ts l us => ∃ inside, ts = inside ++ us ∧
    Inside inside ∧ (next final us).kind.endsStatement = true ∧ l = labelOf inside := by
  refine ((Parses.restOfStatement hfinal).bind fun text => .pure _).congr ?_
  intro ts l us
  constructor
  · rintro ⟨_, _, ⟨inside, rfl, hinside, hnext, rfl⟩, rfl, rfl⟩
    exact ⟨inside, rfl, hinside, hnext, rfl⟩
  · rintro ⟨inside, rfl, hinside, hnext, rfl⟩
    exact ⟨_, us, ⟨inside, rfl, hinside, hnext, rfl⟩, rfl, rfl⟩

theorem parses_activationMark : Parses final activationMark fun ts mark us =>
    Marks ts mark us ∧
      (mark = none → (next final us).kind ≠ .plus ∧ (next final us).kind ≠ .minus) := by
  refine Parses.congr (Parses.option_bind (Parses.accept hfinal (by decide)) (fun _ => .pure _)
    (Parses.option_bind (Parses.accept hfinal (by decide)) (fun _ => .pure _) (.pure _))) ?_
  intro ts mark us
  constructor
  · rintro (⟨t, _, ht, rfl, rfl, rfl⟩ | ⟨hplus, ⟨t, _, ht, rfl, rfl, rfl⟩ | ⟨hminus, rfl, rfl⟩⟩)
    · exact ⟨.activate ht, nofun⟩
    · exact ⟨.deactivate ht, nofun⟩
    · exact ⟨.none, fun _ => ⟨hplus, hminus⟩⟩
  · rintro ⟨hmark, hnone⟩
    cases hmark with
    | none => exact .inr ⟨(hnone rfl).1, .inr ⟨(hnone rfl).2, rfl, rfl⟩⟩
    | activate ht => exact .inl ⟨_, _, ht, rfl, rfl, rfl⟩
    | deactivate ht =>
      refine .inr ⟨?_, .inl ⟨_, _, ht, rfl, rfl, rfl⟩⟩
      rw [next_cons, ht]
      decide

theorem parses_messageText_end {β : Type} {f : Option Content → Reading β}
    {K : Option Content → Grammar β} (hf : ∀ text, Parses final (f text) (K text)) :
    Parses final (messageText >>= fun text => endStatement >>= fun _ => f text) fun ts b ws =>
      ∃ text us vs, Says ts text us ∧ Ends us vs ∧ K text vs b ws := by
  refine Parses.bind_end hfinal (Parses.option_bind (Parses.accept hfinal (by decide))
    (fun _ => Parses.option_bind (Parses.accept hfinal (by decide))
      (fun t => Parses.map (Parses.content t.text)) (.pure _)) (.pure _)) ?_ ?_ hf
  · rintro ts text us (⟨colon, vs, hcolon, rfl, ⟨t, ws, ht, rfl, _, rfl, hlabel, rfl⟩ |
      ⟨-, rfl, rfl⟩⟩ | ⟨-, rfl, rfl⟩)
    · exact .text hcolon ht hlabel
    · exact .silent hcolon
    · exact .none
  · intro ts text us hsays hend
    cases hsays with
    | none => exact .inr ⟨kind_ne_of_endsStatement hend rfl, rfl, rfl⟩
    | silent hcolon =>
      exact .inl ⟨_, _, hcolon, rfl, .inr ⟨kind_ne_of_endsStatement hend rfl, rfl, rfl⟩⟩
    | text hcolon ht hlabel =>
      exact .inl ⟨_, _, hcolon, rfl, .inl ⟨_, _, ht, rfl, _, rfl, hlabel, rfl⟩⟩

theorem parses_message : Parses final message fun ts c ws =>
    ∃ s a t ms us vs arrow mark text, ts = s :: a :: ms ∧ IsName s ∧ a.kind = .arrow ∧
      Arrow.ofText? a.text = some arrow ∧ Marks ms mark (t :: us) ∧ IsName t ∧ Says us text vs ∧
      Ends vs ws ∧ c = .message ⟨s.text, t.text, arrow, text, mark, some s.start⟩ := by
  refine Parses.congr (Parses.look_bind Parses.peek fun first => (parses_name hfinal).bind
    fun source => (Parses.expect hfinal (by decide) _).bind fun a =>
      (parses_activationMark hfinal).bind fun mark => (parses_name hfinal).bind fun target =>
        parses_messageText_end hfinal (K := fun text ts c us => ∃ arrow,
          Arrow.ofText? a.text = some arrow ∧
            c = .message ⟨source, target, arrow, text, mark, some first.start⟩ ∧ us = ts)
          fun text => ?_) ?_
  · cases Arrow.ofText? a.text with
    | none => exact (Parses.failAt _ _).congr fun _ _ _ => by simp
    | some arrow => exact (Parses.pure _).congr fun _ _ _ => by simp
  intro ts c ws
  constructor
  · rintro ⟨_, _, ⟨s, hs, rfl, rfl⟩, a, ms, ⟨ha, rfl⟩, mark, _, ⟨hmark, -⟩, _, us,
      ⟨t, ht, rfl, rfl⟩, text, vs, ws, hsays, hend, arrow, harrow, rfl, rfl⟩
    exact ⟨s, a, t, ms, us, vs, arrow, mark, text, rfl, hs, ha, harrow, hmark, ht, hsays, hend, rfl⟩
  · rintro ⟨s, a, t, ms, us, vs, arrow, mark, text, rfl, hs, ha, harrow, hmark, ht, hsays, hend,
      rfl⟩
    -- A name is no mark, so the marks end where the target starts.
    have hplus : t.kind ≠ .plus := ht.kind_ne (by decide)
    have hminus : t.kind ≠ .minus := ht.kind_ne (by decide)
    exact ⟨_, _, ⟨s, hs, rfl, rfl⟩, a, ms, ⟨ha, rfl⟩, mark, _, ⟨hmark, fun _ => ⟨hplus, hminus⟩⟩,
      _, us, ⟨t, ht, rfl, rfl⟩, text, vs, ws, hsays, hend, arrow, harrow, rfl, rfl⟩

theorem parses_activation (active : Bool) : Parses final (activation active) fun ts c ws =>
    ∃ u us, IsName u ∧ ts.tail = u :: us ∧ Ends us ws ∧ c = .activation u.text active := by
  refine Parses.congr (Parses.advance.bind fun _ => (parses_name hfinal).bind fun id =>
    (Parses.endStatement hfinal).bind fun _ => .pure _) ?_
  intro ts c ws
  constructor
  · rintro ⟨_, _, ⟨rfl, rfl⟩, _, us, ⟨u, hu, htail, rfl⟩, _, _, hend, rfl, rfl⟩
    exact ⟨u, us, hu, htail, hend, rfl⟩
  · rintro ⟨u, us, hu, htail, hend, rfl⟩
    exact ⟨_, _, ⟨rfl, rfl⟩, _, us, ⟨u, hu, htail, rfl⟩, (), ws, hend, rfl, rfl⟩

theorem parses_placement : Parses final placement Places := by
  refine Parses.congr (Parses.option_bind (Parses.acceptWord hfinal _) (fun _ => .pure _)
    (Parses.look_bind (Parses.checkWord _) fun b => .ite
      (Parses.advance.bind fun side => (Parses.expectWord hfinal _).bind fun _ => .pure _)
      (.fail _))) ?_
  intro ts placement us
  constructor
  · rintro (⟨t, us, ht, rfl, rfl, rfl⟩ | ⟨-, h⟩)
    · exact .across ht
    split at h
    · next hside =>
      obtain ⟨_, _, ⟨rfl, rfl⟩, u, us, ⟨hu, htail⟩, rfl, rfl⟩ := h
      cases ts with
      | nil => cases htail
      | cons t ts =>
        obtain rfl : ts = u :: us := htail
        -- Of the two words for a side, the token is one.
        rw [next_cons] at hside ⊢
        by_cases hleft : t.isWord ["left"] = true
        · rw [if_pos hleft]
          exact .leftOf hleft hu
        · obtain ⟨word, hword, ht⟩ := exists_of_isWord hside
          rcases List.mem_pair.1 hword with rfl | rfl
          · exact absurd ht hleft
          · rw [if_neg hleft]
            exact .rightOf ht hu
    · cases h
  · intro h
    cases h with
    | across ht => exact .inl ⟨_, _, ht, rfl, rfl, rfl⟩
    | @leftOf t u us ht hu =>
      refine .inr ⟨?_, ?_⟩
      · rw [next_cons, isWord_eq ht]
        decide
      · rw [next_cons, isWord_eq ht, if_pos (by decide)]
        refine ⟨t, _, ⟨rfl, rfl⟩, u, us, ⟨hu, rfl⟩, ?_, rfl⟩
        rw [if_pos ht]
    | @rightOf t u us ht hu =>
      refine .inr ⟨?_, ?_⟩
      · rw [next_cons, isWord_eq ht]
        decide
      · rw [next_cons, isWord_eq ht, if_pos (by decide)]
        refine ⟨t, _, ⟨rfl, rfl⟩, u, us, ⟨hu, rfl⟩, ?_, rfl⟩
        rw [if_neg (by rw [isWord_eq ht]; decide)]

theorem parses_moreNames (names : List String) : Parses final (moreNames names) fun ts ids us =>
    ∃ more, ids = names ++ more ∧ MoreNames ts more us ∧ (next final us).kind ≠ .comma := by
  have hround := fun names : List String =>
    (Parses.option_bind (Parses.accept hfinal (by decide)) (fun _ => (parses_name hfinal).bind
      fun id => .pure (Sum.inl (names ++ [id]))) (.pure (Sum.inr names)) :
        Parses final (nameRound names) _)
  refine Parses.congr (Parses.loop hround names) ?_
  intro ts ids us
  constructor
  · intro h
    induction h with
    -- No comma follows, so there are no more names.
    | done h =>
      rcases h with ⟨_, _, _, _, _, _, _, h, _⟩ | ⟨hcomma, h, rfl⟩
      · cases h
      · cases h
        exact ⟨[], (List.append_nil _).symm, .nil, hcomma⟩
    -- A comma and a name, and then what the other rounds read.
    | more h hlt hrest ih =>
      rcases h with ⟨comma, _, hcomma, rfl, _, us, ⟨t, ht, rfl, rfl⟩, h, rfl⟩ | ⟨_, h, _⟩
      · cases h
        obtain ⟨more, rfl, hmore, hnext⟩ := ih
        exact ⟨t.text :: more, by simp, .cons hcomma ht hmore, hnext⟩
      · cases h
  · rintro ⟨more, rfl, hmore, hnext⟩
    induction hmore generalizing names with
    | nil =>
      rw [List.append_nil]
      exact .done (.inr ⟨hnext, rfl, rfl⟩)
    | @cons comma t ts us more hcomma ht hnames ih =>
      rw [List.append_cons]
      refine .more (.inl ⟨comma, _, hcomma, rfl, _, ts, ⟨t, ht, rfl, rfl⟩, rfl, rfl⟩) ?_
        (ih _ hnext)
      exact Nat.lt_succ_of_lt (Nat.lt_succ_self _)

theorem parses_note : Parses final note fun ts c ws =>
    ∃ u colon text us vs placement names label, Places ts.tail placement (u :: us) ∧ IsName u ∧
      MoreNames us names (colon :: text :: vs) ∧ colon.kind = .colon ∧ text.kind = .text ∧
      Content.ofText? text.text = some label ∧ Ends vs ws ∧
      c = .note ⟨placement, u.text :: names, label, some (next final ts).start⟩ := by
  refine Parses.congr (Parses.advance.bind fun keyword => (parses_placement hfinal).bind
    fun placement => (parses_name hfinal).bind fun id => (parses_moreNames hfinal [id]).bind
      fun names => (Parses.expect hfinal (by decide) _).bind fun _ =>
        (Parses.expect hfinal (by decide) _).bind fun text =>
          (Parses.endStatement hfinal).bind fun _ => (Parses.content text.text).bind
            fun label => .pure _) ?_
  intro ts c ws
  constructor
  · rintro ⟨_, _, ⟨rfl, rfl⟩, placement, _, hplacement, _, us, ⟨u, hu, rfl, rfl⟩, _, _,
      ⟨names, rfl, hnames, -⟩, colon, _, ⟨hcolon, rfl⟩, text, vs, ⟨htext, rfl⟩, _, ws, hend, label,
      _, ⟨hlabel, rfl⟩, rfl, rfl⟩
    exact ⟨u, colon, text, us, vs, placement, names, label, hplacement, hu, hnames, hcolon, htext,
      hlabel, hend, rfl⟩
  · rintro ⟨u, colon, text, us, vs, placement, names, label, hplacement, hu, hnames, hcolon, htext,
      hlabel, hend, rfl⟩
    -- the colon ends the list of names
    have hcomma : colon.kind ≠ .comma := by
      rw [hcolon]
      decide
    exact ⟨_, _, ⟨rfl, rfl⟩, placement, _, hplacement, _, us, ⟨u, hu, rfl, rfl⟩, _, _,
      ⟨names, rfl, hnames, hcomma⟩, colon, _, ⟨hcolon, rfl⟩, text, vs, ⟨htext, rfl⟩, (), ws, hend,
      label, _, ⟨hlabel, rfl⟩, rfl, rfl⟩

/-- Whether another participant follows is told from a separator, unless there was a label: a label
goes up to the end of its line. -/
theorem parses_labelled (p : Participant) (label : Option String) :
    Parses final (labelled p label) fun ts r us =>
    (label = none ∧ (∃ separator, (separator.kind = .comma ∨ separator.kind = .ampersand) ∧
      ts = separator :: us) ∧ r = ({ p with label }, true)) ∨
    ((label = none → (next final us).kind ≠ .comma ∧ (next final us).kind ≠ .ampersand) ∧
      us = ts ∧ r = ({ p with label }, false)) := by
  refine Parses.congr (.ite (.pure _) (.option_bind (.accept hfinal (by decide)) (fun _ => .pure _)
    ((Parses.accept hfinal (by decide)).bind fun _ => .pure _))) ?_
  intro ts r us
  cases label with
  | some label => simp [and_comm]
  -- a comma is tried before an ampersand, so the second is accepted only without the first
  | none =>
    rw [if_neg (by simp)]
    constructor
    · rintro (⟨separator, _, hcomma, rfl, rfl, rfl⟩ | ⟨hcomma, _, _,
        ⟨separator, rfl, hampersand, rfl⟩ | ⟨rfl, hampersand, rfl⟩, rfl, rfl⟩)
      · exact .inl ⟨rfl, ⟨separator, .inl hcomma, rfl⟩, rfl⟩
      · exact .inl ⟨rfl, ⟨separator, .inr hampersand, rfl⟩, rfl⟩
      · exact .inr ⟨fun _ => ⟨hcomma, hampersand⟩, rfl, rfl⟩
    · rintro (⟨-, ⟨separator, hseparator, rfl⟩, rfl⟩ | ⟨hnext, rfl, rfl⟩)
      · rcases hseparator with hcomma | hampersand
        · exact .inl ⟨separator, _, hcomma, rfl, rfl, rfl⟩
        · refine .inr ⟨?_, some separator, us, .inl ⟨separator, rfl, hampersand, rfl⟩, rfl, rfl⟩
          rw [next_cons, hampersand]
          decide
      · exact .inr ⟨(hnext rfl).1, none, us, .inr ⟨rfl, (hnext rfl).2, rfl⟩, rfl, rfl⟩

theorem parses_participant (kind : ParticipantKind) :
    Parses final (participant kind) (DeclaresOne final kind) := by
  refine Parses.congr (Parses.look_bind Parses.peek fun first => (parses_name hfinal).bind
    fun id => .option_bind (.acceptWord hfinal _)
      (fun _ => (parses_label hfinal).bind fun label =>
        parses_labelled hfinal ⟨id, none, kind, some first.start⟩ label)
      (parses_labelled hfinal ⟨id, none, kind, some first.start⟩ none)) ?_
  intro ts r us
  constructor
  · rintro ⟨_, ms, ⟨t, ht, rfl, rfl⟩, ⟨as, _, has, rfl, _, _, ⟨label, rfl, hlabel, hnext, rfl⟩, h⟩ |
      ⟨has, h⟩⟩
    -- a label ends its statement, so no separator can follow it
    · rcases h with ⟨-, ⟨separator, hseparator, rfl⟩, rfl⟩ | ⟨-, rfl, rfl⟩
      · rcases hseparator with h | h
        · exact absurd h (kind_ne_of_endsStatement hnext rfl)
        · exact absurd h (kind_ne_of_endsStatement hnext rfl)
      · exact .labelled ht has hlabel hnext
    · rcases h with ⟨-, ⟨separator, hseparator, rfl⟩, rfl⟩ | ⟨hnext, rfl, rfl⟩
      · exact .more ht hseparator
      · exact .plain ht has (hnext rfl).1 (hnext rfl).2
  · intro h
    cases h with
    | @plain t us ht has hcomma hampersand =>
      exact ⟨_, us, ⟨t, ht, rfl, rfl⟩,
        .inr ⟨has, .inr ⟨fun _ => ⟨hcomma, hampersand⟩, rfl, rfl⟩⟩⟩
    | @labelled t as label us ht has hlabel hnext =>
      exact ⟨_, _, ⟨t, ht, rfl, rfl⟩, .inl ⟨as, _, has, rfl, _, us,
        ⟨label, rfl, hlabel, hnext, rfl⟩, .inr ⟨fun _ => ⟨kind_ne_of_endsStatement hnext rfl,
          kind_ne_of_endsStatement hnext rfl⟩, rfl, rfl⟩⟩⟩
    | @more t separator us ht hseparator =>
      refine ⟨_, _, ⟨t, ht, rfl, rfl⟩, .inr ⟨?_, .inl ⟨rfl, ⟨separator, hseparator, rfl⟩, rfl⟩⟩⟩
      rw [next_cons, Token.isWord]
      rcases hseparator with h | h <;> rw [h] <;> exact Bool.false_ne_true

theorem parses_participantRound (kind : ParticipantKind) (ps : List Participant) :
    Parses final (participantRound kind ps) (DeclaresRound final kind ps) := by
  refine Parses.congr ((parses_participant hfinal kind).bind fun a =>
    .pure (if a.2 = true then Sum.inl (ps ++ [a.1]) else Sum.inr (ps ++ [a.1]))) ?_
  intro ts r us
  constructor
  · rintro ⟨a, us, ha, rfl, rfl⟩
    exact ⟨a, ha, rfl⟩
  · rintro ⟨a, ha, rfl⟩
    exact ⟨a, us, ha, rfl, rfl⟩

/-- The participants that a line declares are read up to its end. As the end is no separator, the
grammar need not say what follows. -/
theorem parses_participants_end (kind : ParticipantKind) {β : Type}
    {f : List Participant → Reading β} {K : List Participant → Grammar β}
    (hf : ∀ ps, Parses final (f ps) (K ps)) :
    Parses final (participants kind >>= fun ps => endStatement >>= fun _ => f ps) fun ts b ws =>
      ∃ ps us vs, Declares kind ts ps us ∧ Ends us vs ∧ K ps vs b ws := by
  refine Parses.bind_end hfinal (Parses.loop (parses_participantRound hfinal kind) []) ?_ ?_ hf
  · intro ts qs us h
    obtain ⟨more, rfl, hmore⟩ := declares_of_loops h
    exact hmore
  · intro ts qs us h hend
    exact loops_of_declares h hend []

theorem parses_declaration (kind : ParticipantKind) : Parses final (declaration kind)
    fun ts cs ws => ∃ ps us, Declares kind ts.tail ps us ∧ Ends us ws ∧
      cs = ps.map .participant := by
  refine Parses.congr (Parses.advance.bind fun _ => parses_participants_end hfinal kind
    fun ps => .pure _) ?_
  intro ts cs ws
  constructor
  · rintro ⟨_, _, ⟨rfl, rfl⟩, ps, us, _, hps, hend, rfl, rfl⟩
    exact ⟨ps, us, hps, hend, rfl⟩
  · rintro ⟨ps, us, hps, hend, rfl⟩
    exact ⟨_, _, ⟨rfl, rfl⟩, ps, us, ws, hps, hend, rfl, rfl⟩

/-- A label is read up to the end of its line, as all that is inside the statement. -/
theorem parses_label_end {β : Type} {f : Option String → Reading β} {K : Option String → Grammar β}
    (hf : ∀ l, Parses final (f l) (K l)) :
    Parses final (label >>= fun l => endStatement >>= fun _ => f l) fun ts b ws =>
      ∃ inside us vs, ts = inside ++ us ∧ Inside inside ∧ Ends us vs ∧
        K (labelOf inside) vs b ws := by
  refine Parses.congr (Parses.bind_end hfinal (parses_label hfinal)
    (S := fun ts l us => ∃ inside, ts = inside ++ us ∧ Inside inside ∧ l = labelOf inside)
    ?_ ?_ hf) ?_
  · rintro ts l us ⟨inside, hts, hinside, -, hl⟩
    exact ⟨inside, hts, hinside, hl⟩
  · rintro ts l us ⟨inside, hts, hinside, hl⟩ hnext
    exact ⟨inside, hts, hinside, hnext, hl⟩
  · intro ts b ws
    constructor
    · rintro ⟨_, us, vs, ⟨inside, rfl, hinside, rfl⟩, hend, hk⟩
      exact ⟨inside, us, vs, rfl, hinside, hend, hk⟩
    · rintro ⟨inside, us, vs, rfl, hinside, hend, hk⟩
      exact ⟨_, us, vs, ⟨inside, rfl, hinside, rfl⟩, hend, hk⟩

theorem parses_blockHead (kind : BlockKind) : Parses final (blockHead kind) fun ts head ws =>
    ∃ inside us, ts.tail = inside ++ us ∧ Inside inside ∧ Ends us ws ∧
      head = ⟨kind, labelOf inside, some (next final ts).start⟩ := by
  refine Parses.congr (Parses.advance.bind fun keyword => parses_label_end hfinal
    fun l => .pure _) ?_
  intro ts head ws
  constructor
  · rintro ⟨_, _, ⟨rfl, rfl⟩, inside, us, _, htail, hinside, hend, rfl, rfl⟩
    exact ⟨inside, us, htail, hinside, hend, rfl⟩
  · rintro ⟨inside, us, htail, hinside, hend, rfl⟩
    exact ⟨_, _, ⟨rfl, rfl⟩, inside, us, ws, htail, hinside, hend, rfl, rfl⟩

end Parts

end DiagramText.Sequence
