import DiagramText.Proofs.Reading.Located
import DiagramText.Proofs.Reading.Starts
import Mathlib.Data.List.Induction

/-!
# Blocks that are left open

A block is open from the statement that opens it on, up to the one that closes it. If the text ends
before that, the reading fails at the end of input and says where the block was opened.

* `Brackets.unclosed`: the statements that opened the blocks which are open behind some statements.
* `Reading.exists_opener_of_unterminated`: where blocks span statements, the reading fails behind
  the last of them, and says where the innermost open block was opened.
* `Reading.LeavesOpen`: what is known where a block is one statement that is not read to its end.
* `Reading.unread?`: the first statement that is not read.
-/

namespace DiagramText

/-! ### Blocks of statements -/

/-- How statements open blocks and close them, told from the tokens ahead where they start. A
dialect has one way for all its blocks. -/
structure Brackets where
  opens : List Token → Bool
  closes : List Token → Bool

namespace Brackets

variable {α β : Type} (b : Brackets)

/-- The open blocks, the innermost first, behind a statement `us` that opens one, which is `block`,
closes the innermost, or does neither. -/
def push (us : List Token) (block : α) (opened : List α) : List α :=
  if b.opens us then block :: opened else if b.closes us then opened.tail else opened

/-- The statements that opened the blocks still open behind some statements, the innermost first. Of
a statement, `starts` has the tokens ahead. -/
def unclosed (starts : List (List Token)) : List (List Token) :=
  starts.foldl (fun opened us => b.push us us opened) []

section Push

variable {b : Brackets} {us : List Token} {block : α} {opened : List α}

theorem push_of_opens (h : b.opens us = true) : b.push us block opened = block :: opened := if_pos h

theorem push_of_closes (h : b.opens us = false) (h' : b.closes us = true) :
    b.push us block opened = opened.tail := by
  rw [push, h, h']
  rfl

theorem push_of_neither (h : b.opens us = false) (h' : b.closes us = false) :
    b.push us block opened = opened := by
  rw [push, h, h']
  rfl

end Push

theorem map_push (f : α → β) (us : List Token) (block : α) (opened : List α) :
    (b.push us block opened).map f = b.push us (f block) (opened.map f) := by
  unfold push
  split
  · exact List.map_cons
  · split
    · exact List.map_tail
    · rfl

theorem unclosed_append (starts : List (List Token)) (us : List Token) :
    b.unclosed (starts ++ [us]) = b.push us us (b.unclosed starts) := by
  rw [unclosed, List.foldl_append]
  rfl

/-- A block that is still open was opened by one of the statements, and by none that closed it. -/
theorem of_mem_unclosed {starts : List (List Token)} {us : List Token}
    (h : us ∈ b.unclosed starts) : us ∈ starts ∧ b.opens us = true := by
  induction starts using List.reverseRecOn with
  | nil => cases h
  | append_singleton starts vs ih =>
    have hold : us ∈ b.unclosed starts → us ∈ starts ++ [vs] ∧ b.opens us = true := fun h =>
      (ih h).imp_left (List.mem_append_left _)
    rw [unclosed_append, push] at h
    split at h
    · next hopens =>
      rcases List.mem_cons.1 h with rfl | h
      · exact ⟨List.mem_append_right _ List.mem_cons_self, hopens⟩
      · exact hold h
    · split at h
      · exact hold (List.mem_of_mem_tail h)
      · exact hold h

/-- Where something is known of each open block, by `f`, it is known of the innermost one. -/
theorem exists_head_of_eq_map {starts : List (List Token)} {f : List Token → α} {block : α}
    {opened : List α} (h : block :: opened = (b.unclosed starts).map f) :
    ∃ us, (b.unclosed starts).head? = some us ∧ b.opens us = true ∧ block = f us := by
  cases hunclosed : b.unclosed starts with
  | nil =>
    rw [hunclosed] at h
    cases h
  | cons us outer =>
    rw [hunclosed] at h
    have hmem : us ∈ b.unclosed starts := hunclosed ▸ List.mem_cons_self
    exact ⟨us, rfl, (b.of_mem_unclosed hmem).2, (List.cons.inj h).1⟩

end Brackets

/-! ### Tokens of some kinds -/

/-- Of the tokens `ts`, those that were passed are of kinds that pass the test `f`. -/
def Cursor.Past (f : TokenKind → Bool) (ts : List Token) (c : Cursor) : Prop :=
  ∃ passed, (∀ u ∈ passed, f u.kind = true) ∧ c.Behind ts passed

/-- A brace on the first line of the tokens `ts` opens a body that no brace behind it closes. -/
def OpensBody (ts : List Token) : Prop :=
  ∃ line brace inner, ts = line ++ brace :: inner ∧
    (∀ u ∈ line, u.kind.endsStatement = false) ∧ brace.kind = .leftBrace ∧
      ∀ u ∈ inner, u.kind ≠ .rightBrace

/-- Of the tokens `ts`, a brace on the first line was passed, and no closing brace behind it. -/
def Cursor.InBody (ts : List Token) (c : Cursor) : Prop :=
  ∃ line brace inner, (ts = line ++ brace :: inner ∧
    (∀ u ∈ line, u.kind.endsStatement = false) ∧ brace.kind = .leftBrace) ∧
      c.Past (· != .rightBrace) inner

namespace Reading

variable {α β σ : Type} {f : TokenKind → Bool} {ts passed : List Token} {kind : TokenKind}

theorem past_of_behind (us : List Token) {c : Cursor} (hpassed : ∀ u ∈ passed, f u.kind = true)
    (hus : ∀ u ∈ us, f u.kind = true) (hc : c.Behind ts (passed ++ us)) : c.Past f ts :=
  ⟨passed ++ us, List.forall_mem_append.2 ⟨hpassed, hus⟩, hc⟩

theorem ensures_expect_past (hkind : f kind = true ∧ kind ≠ .endOfInput) (expected : String) :
    Ensures (Cursor.Past f ts) (expect kind expected) fun t c => t.kind = kind ∧ c.Past f ts := by
  refine .of_exists fun passed => .of_and fun hpassed => ?_
  refine (ensures_expect_behind hkind.2 expected).imp_right fun t c hc => ⟨hc.1, ?_⟩
  refine past_of_behind [t] hpassed (List.forall_mem_singleton.2 ?_) hc.2
  rw [hc.1]
  exact hkind.1

theorem ensures_accept_past (hkind : f kind = true ∧ kind ≠ .endOfInput) :
    Ensures (Cursor.Past f ts) (accept kind) fun _ c => c.Past f ts := by
  refine .of_exists fun passed => .of_and fun hpassed => ?_
  refine (ensures_accept_behind hkind.2).imp_right fun t c hc => ?_
  refine past_of_behind t.toList hpassed (fun u hu => ?_) hc.2
  rw [hc.1 u (Option.mem_toList.1 hu)]
  exact hkind.1

/-- Where tokens are passed as long as they pass the test `p`, they are of kinds that pass `f`. -/
theorem behind_span {p : Token → Bool} {c : Cursor}
    (hp : ∀ t ∈ c.rest, p t = true → f t.kind = true) (hc : c.Past f ts) :
    (c.span p).2.Past f ts := by
  obtain ⟨passed, hpassed, hts, hfinal⟩ := hc
  refine past_of_behind (c.rest.takeWhile p) hpassed (fun u hu => ?_) ⟨?_, hfinal⟩
  · exact hp u ((List.takeWhile_prefix p).subset hu) (List.mem_takeWhile_imp hu)
  · rw [hts, List.append_assoc]
    exact congrArg (passed ++ ·) List.takeWhile_append_dropWhile.symm

theorem ensures_skipNewlines_past (hf : f .newline = true ∧ f .semicolon = true) :
    Ensures (Cursor.Past f ts) skipNewlines fun _ c => c.Past f ts := by
  intro c _ c' hc hx
  cases hx
  refine behind_span (fun t _ ht => ?_) hc
  rw [Bool.or_eq_true, beq_iff_eq, beq_iff_eq] at ht
  rcases ht with ht | ht
  · rw [ht]
    exact hf.1
  · rw [ht]
    exact hf.2

theorem ensures_rawUntil_past {stops : List TokenKind}
    (hf : ∀ kind : TokenKind, kind.endsStatement = false → kind ∉ stops → f kind = true) :
    Ensures (Cursor.Past f ts) (rawUntil stops) fun _ c => c.Past f ts := by
  intro c _ c' hc hx
  cases hx
  refine behind_span (fun t _ ht => ?_) hc
  rw [Bool.and_eq_true, Bool.not_eq_true', Bool.not_eq_true'] at ht
  refine hf t.kind ht.1 fun hmem => ?_
  rw [List.contains_iff_mem.2 hmem] at ht
  exact Bool.noConfusion ht.2

theorem ensures_endStatement_past (hf : f .newline = true ∧ f .semicolon = true) :
    Ensures (Cursor.Past f ts) endStatement fun _ c => c.Past f ts := by
  rintro ⟨past, rest, final⟩ _ c' ⟨passed, hpassed, hts, hfinal⟩ hx
  cases rest with
  | nil =>
    rw [endStatement_nil hfinal] at hx
    cases hx
    exact ⟨passed, hpassed, hts, hfinal⟩
  | cons t us =>
    rw [endStatement_cons] at hx
    split at hx
    · next ht =>
      cases hx
      refine past_of_behind [t] hpassed (List.forall_mem_singleton.2 ?_) ⟨?_, hfinal⟩
      · rcases ht with ht | ht
        · rw [ht]
          exact hf.1
        · rw [ht]
          exact hf.2
      · rw [hts, List.append_assoc]
        rfl
    · cases hx

/-! ### Blocks that span statements -/

section

variable {B : String → Prop} {Q : α → Prop} {x : Reading α} {c c' : Cursor} {a : α}
  {block : String} {openedAt position : Option Position}

theorem Located.of_ok (h : Located (fun _ => True) B x Q) (hx : x c = .ok (a, c')) :
    Q a ∧ c'.final = c.final := by
  have hresult := h.apply c ⟨fun _ _ => trivial, trivial⟩
  rw [hx] at hresult
  exact ⟨hresult.1, hresult.2.2⟩

theorem Located.of_unterminated (h : Located (fun _ => True) B x Q)
    (hx : x c = .error (.malformed ⟨.unterminated block openedAt, position⟩)) : B block := by
  have hresult := h.apply c ⟨fun _ _ => trivial, trivial⟩
  rw [hx] at hresult
  exact hresult.2

theorem rest_of_untilEnd {statement : σ → Reading σ} {s e : σ}
    (h : untilEnd statement s c = .ok (e, c')) : c'.rest = [] := by
  have hround : ∀ s, Ensures (fun _ => True) (statementRound statement s) fun r c =>
      r.elim (fun _ => True) fun _ => c.rest = [] := by
    intro s
    refine .bind (ensures_look _) fun b => .ite (fun hb => .pure fun c hc => ?_) fun _ => ?_
    · exact List.isEmpty_iff.1 (hc.1.symm.trans hb)
    · exact .bind .unknown fun _ => .pure fun _ _ => trivial
  exact Ensures.loop (I := fun _ _ => True) (Q := fun _ c => c.rest = []) hround s c e c' trivial h

/-- Where no statement leaves a block open itself, one that is open is noticed at the end of input,
behind all statements. -/
theorem exists_of_unterminated {header : Reading σ} {statement : σ → Reading σ} {Q : σ → Prop}
    {finish : σ → Reading α} (hread : Located (fun _ => True) B (header >>= untilEnd statement) Q)
    (hblock : ¬B block) (h : (header >>= fun s => untilEnd statement s >>= finish) c =
      .error (.malformed ⟨.unterminated block openedAt, position⟩)) :
    ∃ e c', (header >>= untilEnd statement) c = .ok (e, c') ∧ c'.peek = c.final ∧
      finish e c' = .error (.malformed ⟨.unterminated block openedAt, position⟩) := by
  rw [← bind_assoc, bind_apply, Except.bind_eq_error_iff] at h
  rcases h with h | ⟨⟨e, c'⟩, he, hfinish⟩
  · exact absurd (hread.of_unterminated h) hblock
  · refine ⟨e, c', he, ?_, hfinish⟩
    have hrest : c'.rest = [] := by
      obtain ⟨⟨s, c₁⟩, -, huntil⟩ := Except.bind_eq_ok_iff.1 he
      exact rest_of_untilEnd huntil
    rw [Cursor.peek, Cursor.ahead, hrest]
    exact (hread.of_ok he).2

/-- Where each statement opens a block at its own start or closes the innermost one, a block that is
open at the end of input is said to be opened where its statement starts. -/
theorem exists_opener_of_unterminated {header : Reading σ} {statement : σ → Reading σ}
    {Q : σ → Prop} {finish : σ → Reading α} {row : List Token} {b : Brackets}
    {openings : σ → List (Option Position)} (hopens : b.opens [] = false)
    (hread : Located (fun _ => True) (fun _ => False) (header >>= untilEnd statement) Q)
    (hheader : Ensures (Cursor.Within row) header fun s c => openings s = [] ∧ c.Within row)
    (hmoves : ∀ ts n s, Ensures (Cursor.Facing ts n) (statement s) fun _ c => c.Below ts n)
    (hstep : ∀ s t us, Ensures (Cursor.Behind (t :: us) []) (statement s)
      fun s' _ => openings s' = b.push (t :: us) (some t.start) (openings s))
    (hfinish : ∀ s c, finish s c = .error (.malformed ⟨.unterminated block openedAt, position⟩) →
      position = some c.peek.start ∧ ∃ outer, openings s = openedAt :: outer)
    (hc : c.Within row) (h : (header >>= fun s => untilEnd statement s >>= finish) c =
      .error (.malformed ⟨.unterminated block openedAt, position⟩)) :
    position = some c.final.start ∧ ∃ t us,
      (b.unclosed (startsBehind header statement c)).head? = some (t :: us) ∧
        openedAt = some t.start := by
  obtain ⟨e, c', he, hpeek, hfails⟩ := exists_of_unterminated hread id h
  obtain ⟨hposition, outer, houter⟩ := hfinish e c' hfails
  -- behind all statements, the open blocks are at the statements that opened them
  have hopenings : openings e = (b.unclosed (startsBehind header statement c)).map
      fun us => us.head?.map Token.start := by
    refine startsBehind_spec (I := fun s starts => openings s = (b.unclosed starts).map
      fun us => us.head?.map Token.start) hheader hmoves ?_ hc he
    intro s starts t us _ hs
    refine (hstep s t us).imp_right fun s' _ hs' => ?_
    rw [hs', hs, Brackets.unclosed_append, Brackets.map_push]
    rfl
  rw [houter] at hopenings
  obtain ⟨us, hhead, hus, hopenedAt⟩ := b.exists_head_of_eq_map hopenings
  cases us with
  | nil =>
    rw [hopens] at hus
    cases hus
  | cons t us => exact ⟨by rw [hposition, hpeek], t, us, hhead, hopenedAt⟩

end

/-! ### Blocks in one statement -/

/-- Where the reading `x` fails at a cursor with the property `P` because a block is left open, it
fails at the end of input, and `U` is known of the block and of where it was opened. -/
def LeavesOpen (P : Cursor → Prop) (x : Reading α) (U : String → Option Position → Prop) : Prop :=
  ∀ c block openedAt position, P c →
    x c = .error (.malformed ⟨.unterminated block openedAt, position⟩) →
      position = some c.final.start ∧ U block openedAt

/-- A reading that never leaves a block open, with a result that has the property `Q`. -/
abbrev Closed (x : Reading α) (Q : α → Prop) : Prop :=
  Located (fun _ => True) (fun _ => False) x Q

namespace LeavesOpen

variable {P P' : Cursor → Prop} {x : Reading α} {R : α → Prop} {Q : α → Cursor → Prop}
  {U : String → Option Position → Prop}

theorem of_closed (h : Closed x R) : LeavesOpen P x U := fun _ _ _ _ _ hx =>
  (h.of_unterminated hx).elim

theorem imp (h : LeavesOpen P x U) (hP : ∀ c, P' c → P c) : LeavesOpen P' x U :=
  fun c block openedAt position hc hx => h c block openedAt position (hP c hc) hx

theorem of_and {p : Prop} (h : p → LeavesOpen P x U) : LeavesOpen (fun c => p ∧ P c) x U :=
  fun c block openedAt position hc hx => h hc.1 c block openedAt position hc.2 hx

/-- The tokens that were passed are the first ones, so this may be used. -/
theorem of_behind (h : passed <+: ts → LeavesOpen (Cursor.Behind ts passed) x U) :
    LeavesOpen (Cursor.Behind ts passed) x U :=
  fun c block openedAt position hc hx => h ⟨c.rest, hc.1.symm⟩ c block openedAt position hc hx

/-- What is read before, by `x`, leaves no block open, and what is known behind it is known then. -/
theorem bind {f : α → Reading β} (hx : Closed x R) (hQ : Ensures P x Q)
    (hf : ∀ a, R a → LeavesOpen (Q a) (f a) U) : LeavesOpen P (x >>= f) U := by
  intro c block openedAt position hc h
  rw [bind_apply, Except.bind_eq_error_iff] at h
  rcases h with h | ⟨⟨a, c'⟩, ha, hfa⟩
  · exact (hx.of_unterminated h).elim
  · obtain ⟨hR, hfinal⟩ := hx.of_ok ha
    obtain ⟨hposition, hU⟩ := hf a hR c' block openedAt position (hQ c a c' hc ha) hfa
    exact ⟨hfinal ▸ hposition, hU⟩

theorem look_bind {f : Cursor → α} {g : α → Reading β} (h : ∀ a, LeavesOpen P (g a) U) :
    LeavesOpen P (look f >>= g) U :=
  fun c block openedAt position hc hx => h (f c) c block openedAt position hc hx

theorem ite {b : Prop} [Decidable b] {y : Reading α} (hx : b → LeavesOpen P x U)
    (hy : ¬b → LeavesOpen P y U) : LeavesOpen P (if b then x else y) U := by
  split
  · exact hx ‹_›
  · exact hy ‹_›

theorem accept_bind {f : Option Token → Reading β} (hkind : kind ≠ .endOfInput)
    (hsome : ∀ t, LeavesOpen (Cursor.Behind ts (passed ++ [t])) (f (some t)) U)
    (hnone : LeavesOpen (Cursor.Behind ts passed) (f none) U) :
    LeavesOpen (Cursor.Behind ts passed) (accept kind >>= f) U := by
  refine bind (located_accept _) (ensures_accept_behind hkind) fun t _ => .of_and fun _ => ?_
  cases t with
  | none =>
    rw [Option.toList_none, List.append_nil]
    exact hnone
  | some t => exact hsome t

/-- Where no round but the one that fails leaves a block open, what is known before each round, here
`P`, is known before that one. -/
theorem loop {round : σ → Reading (σ ⊕ α)} {I : σ → Prop}
    (hlocated : ∀ s, I s → Located (fun _ => True) (fun _ => True) (round s) fun r =>
      r.elim I fun _ => True)
    (hpass : ∀ s, Ensures P (round s) fun r c => r.elim (fun _ => P c) fun _ => True)
    (hround : ∀ s, I s → LeavesOpen P (round s) U) {s : σ} (hs : I s) :
    LeavesOpen P (loop round s) U := by
  intro c block openedAt position hc h
  -- by the tokens that are left, of which every round but the last one takes some
  induction hlen : c.rest.length using Nat.strongRecOn generalizing s c with
  | _ len ih =>
    rw [loop_apply] at h
    cases hx : round s c with
    | error e =>
      rw [hx] at h
      cases h
      exact hround s hs c block openedAt position hc hx
    | ok r =>
      obtain ⟨s' | a, c'⟩ := r
      · rw [hx] at h
        dsimp only at h
        split at h
        · obtain ⟨hs', hfinal⟩ := (hlocated s hs).of_ok hx
          obtain ⟨hposition, hU⟩ := ih _ (by omega) hs' c' (hpass s c _ c' hc hx) h rfl
          exact ⟨hfinal ▸ hposition, hU⟩
        · cases h
      · rw [hx] at h
        cases h

/-- A body is left open where none of its rounds comes to a closing brace, since the round at the
end of input fails. -/
theorem body {line : σ → Reading σ} {I : σ → Prop} {block : String} {openedAt : Option Position}
    (hline : ∀ B s, I s → Located (fun _ => True) B (line s) I)
    (hskip : Ensures P skipNewlines fun _ c => P c)
    (hbrace : Ensures P (accept .rightBrace) fun t c => t = none → P c)
    (hpass : ∀ s, Ensures P (line s) fun _ c => P c)
    (hend : ∀ c, P c → c.rest = [] → U block openedAt) {s : σ} (hs : I s) :
    LeavesOpen P (Reading.loop (bodyRound line (.unterminated block openedAt)) s) U := by
  have hbody : ∀ B s, I s → Located (fun _ => True) B (do
      if (← accept .rightBrace).isSome then
        endStatement
        return (.inr s : σ ⊕ σ)
      else return .inl (← line s)) fun r => r.elim I fun _ => True := fun B s hs =>
    .bind (located_accept _) fun _ _ => .ite
      (fun _ => .bind located_endStatement fun _ _ => .pure trivial)
      fun _ => .bind (hline B s hs) fun _ hs' => .pure hs'
  refine loop (fun s hs => ?_) (fun s => ?_) (fun s hs => ?_) hs
  · exact .bind located_skipNewlines fun _ _ => .bind (located_look _) fun _ _ => .ite
      (fun _ => .bind located_peek fun _ _ => .unterminated trivial trivial)
      fun _ => hbody _ s hs
  · refine hskip.bind fun _ => .look_bind fun _ => .ite
      (fun _ => .look_bind fun _ => .failAt _ _) fun _ => hbrace.bind fun t => ?_
    cases t with
    | some _ =>
      exact .ite (fun _ => .bind .unknown fun _ => .pure fun _ _ => trivial)
        fun h => absurd rfl h
    | none =>
      refine .ite (fun h => absurd h (by decide)) fun _ => ?_
      exact .bind ((hpass s).imp (fun _ hc => hc rfl) fun _ _ => id) fun _ => .pure fun _ hc => hc
  · refine .bind (R := fun _ => True) located_skipNewlines hskip fun _ _ => ?_
    refine .bind (R := fun _ => True) (located_look _) (ensures_look _) fun b _ => ?_
    refine .ite (fun hb => ?_) fun _ => .of_closed (hbody _ s hs)
    -- at the end of input the round fails there
    rintro c _ _ _ ⟨rfl, hc⟩ h
    cases h
    have hrest : c.rest = [] := List.isEmpty_iff.1 hb
    refine ⟨?_, hend c hc hrest⟩
    rw [Cursor.peek, Cursor.ahead, hrest]
    rfl

end LeavesOpen

theorem ensures_accept_leftBrace : Ensures (Cursor.Past (!·.endsStatement) ts) (accept .leftBrace)
    fun t c => t.isSome = true → Cursor.InBody ts c := by
  refine .of_exists fun line => .of_and fun hline => ?_
  refine (ensures_accept_behind (by decide)).imp_right fun t c ⟨ht, hts, hfinal⟩ hsome => ?_
  obtain ⟨brace, rfl⟩ := Option.isSome_iff_exists.1 hsome
  refine ⟨line, brace, c.rest, ⟨?_, fun u hu => ?_, ht brace rfl⟩, [], nofun, rfl, hfinal⟩
  · rw [hts, Option.toList_some, List.append_assoc]
    rfl
  · exact Bool.not_eq_true' _ ▸ hline u hu

/-- What passes no closing brace stays inside a body, wherever the body was opened. -/
theorem ensures_inBody {x : Reading α} (hx : ∀ inner, Ensures (Cursor.Past (· != .rightBrace) inner)
      x fun _ c => c.Past (· != .rightBrace) inner) :
    Ensures (Cursor.InBody ts) x fun _ c => Cursor.InBody ts c :=
  .of_exists fun line => .of_exists fun brace => .of_exists fun inner => .of_and fun hbody =>
    (hx inner).imp_right fun _ _ hc => ⟨line, brace, inner, hbody, hc⟩

theorem ensures_accept_rightBrace : Ensures (Cursor.InBody ts) (accept .rightBrace)
    fun t c => t = none → Cursor.InBody ts c := by
  refine .of_exists fun line => .of_exists fun brace => .of_exists fun inner =>
    .of_and fun hbody => .of_exists fun passed => .of_and fun hpassed => ?_
  refine (ensures_accept_behind (by decide)).imp_right ?_
  rintro _ c ⟨-, hc⟩ rfl
  rw [Option.toList_none, List.append_nil] at hc
  exact ⟨line, brace, inner, hbody, passed, hpassed, hc⟩

/-- A body that is left open was opened on its first line, and nothing closes it. -/
theorem leavesOpen_body {line : σ → Reading σ} {I : σ → Prop} {block : String}
    {openedAt : Option Position} (hline : ∀ B s, I s → Located (fun _ => True) B (line s) I)
    (hpass : ∀ s inner, Ensures (Cursor.Past (· != .rightBrace) inner) (line s)
      fun _ c => c.Past (· != .rightBrace) inner) {s : σ} (hs : I s) :
    LeavesOpen (Cursor.InBody ts) (loop (bodyRound line (.unterminated block openedAt)) s)
      fun _ p => p = openedAt ∧ OpensBody ts := by
  refine .body hline (ensures_inBody fun _ => ensures_skipNewlines_past ⟨rfl, rfl⟩)
    ensures_accept_rightBrace (fun s => ensures_inBody (hpass s)) ?_ hs
  rintro c ⟨line, brace, inner, ⟨hts, hline, hbrace⟩, passed, hpassed, hinner, -⟩ hrest
  rw [hrest, List.append_nil] at hinner
  refine ⟨rfl, line, brace, inner, hts, hline, hbrace, fun u hu => ?_⟩
  exact bne_iff_ne.1 (hpassed u (hinner ▸ hu))

/-! ### Statements that are not read -/

/-- The tokens ahead where the first statement starts that is not read, if there is one. All
statements before it are read. -/
def unread? (statement : σ → Reading σ) (s : σ) (c : Cursor) : Option (List Token) :=
  if c.rest = [] then none
  else match statement s c with
    | .error _ => some c.rest
    | .ok (s', c') => if c'.rest.length < c.rest.length then unread? statement s' c' else none
termination_by c.rest.length

/-- The tokens ahead where the first statement behind a `header` starts that is not read, if there
is one. -/
def unreadBehind? (header : Reading σ) (statement : σ → Reading σ) (c : Cursor) :
    Option (List Token) :=
  match header c with
  | .ok (s, c) => unread? statement s c
  | .error _ => none

/-- Where statements are not read, the first of them that is not read fails, and its failure is that
of all. -/
theorem exists_of_untilEnd_malformed {statement : σ → Reading σ} {I : σ → Prop}
    (hstatement : ∀ s, I s → Located (fun _ => True) (fun _ => True) (statement s) I) {s : σ}
    (hs : I s) {c : Cursor} (hc : c.final.kind = .endOfInput) {e : ReadError}
    (h : untilEnd statement s c = .error (.malformed e)) :
    ∃ s' c' t us, I s' ∧ unread? statement s c = some (t :: us) ∧ c'.Behind (t :: us) [] ∧
      c'.final = c.final ∧ statement s' c' = .error (.malformed e) := by
  induction hlen : c.rest.length using Nat.strongRecOn generalizing s c with
  | _ len ih =>
    obtain ⟨past, rest, final⟩ := c
    cases rest with
    | nil =>
      rw [untilEnd_nil] at h
      cases h
    | cons t us =>
      rw [unread?, if_neg (List.cons_ne_nil t us)]
      rw [untilEnd, loop_apply] at h
      simp only [bind_apply, look_apply, Cursor.atEnd, Except.bind, List.isEmpty_cons,
        Bool.false_eq_true, if_false] at h
      cases hx : statement s ⟨past, t :: us, final⟩ with
      | error e' =>
        -- an error of this statement is that of the whole reading
        rw [hx] at h
        cases h
        exact ⟨s, _, t, us, hs, rfl, ⟨rfl, hc⟩, rfl, hx⟩
      | ok r =>
        obtain ⟨s', c₁⟩ := r
        obtain ⟨hs', hfinal⟩ := (hstatement s hs).of_ok hx
        rw [hx] at h
        dsimp only [pure_apply] at h ⊢
        split at h
        · next hlt =>
          rw [if_pos hlt]
          obtain ⟨e', c', u, vs, he', hunread, hbehind, hend, hfails⟩ :=
            ih _ (hlen ▸ hlt) hs' (hfinal ▸ hc) h rfl
          exact ⟨e', c', u, vs, he', hunread, hbehind, hend.trans hfinal, hfails⟩
        · cases h

/-- Where a statement may leave a block open, the one that does is the first that is not read, and
what is known of it tells where the block was opened. -/
theorem exists_unread_of_unterminated {header : Reading σ} {statement : σ → Reading σ}
    {I : σ → Prop} {row : List Token} (hheader : Closed header I)
    (hfinal : Ensures (Cursor.Within row) header fun _ c => c.Within row)
    (hstatement : ∀ s, I s → Located (fun _ => True) (fun _ => True) (statement s) I)
    {U : Token → List Token → String → Option Position → Prop}
    (hopen : ∀ s t us, I s → LeavesOpen (Cursor.Behind (t :: us) []) (statement s) (U t us))
    {c : Cursor} (hc : c.Within row) {block : String} {openedAt position : Option Position}
    (h : (header >>= untilEnd statement) c =
      .error (.malformed ⟨.unterminated block openedAt, position⟩)) :
    position = some c.final.start ∧ ∃ t us, unreadBehind? header statement c = some (t :: us) ∧
      U t us block openedAt := by
  rw [bind_apply, Except.bind_eq_error_iff] at h
  rcases h with h | ⟨⟨s, c₁⟩, hx, h⟩
  · exact (hheader.of_unterminated h).elim
  · obtain ⟨hs, hend⟩ := hheader.of_ok hx
    obtain ⟨s', c', t, us, hs', hunread, hbehind, hend', hfails⟩ :=
      exists_of_untilEnd_malformed hstatement hs (hfinal c s c₁ hc hx).final_kind h
    obtain ⟨hposition, hU⟩ := hopen s' t us hs' c' block openedAt position hbehind hfails
    refine ⟨?_, t, us, ?_, hU⟩
    · rw [hposition, hend', hend]
    · rw [unreadBehind?, hx]
      exact hunread

end Reading
end DiagramText
