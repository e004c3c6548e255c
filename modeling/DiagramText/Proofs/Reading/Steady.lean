import DiagramText.Calendar.Format
import DiagramText.Proofs.Reading.Step
import DiagramText.Proofs.Text.Digits
import DiagramText.Proofs.Token.Content

/-!
# Why readings fail

A reading moves only forward, and every round of a loop takes a token, so no loop stalls. What is
left to fail for is the text: it is malformed, a directive of it sets a date format that names a
field twice, or it has more digits than a number is read with.

* `Failure.IsDueTo`: what a failure says about the tokens that were read.
* `Reading.Steady`: a reading moves forward over tokens, or fails for a reason found in them.
* `Reading.Moves`: a steady reading that takes a token if there is one ahead.
* `Reading.Steady.untilEnd`: statements that move are read to the end, and never stall.
-/

namespace DiagramText

open Text

/-! ### Reasons in tokens -/

namespace Token

/-- The number of decimal digits that the tokens `ts` hold, their gaps included. -/
def digitCount (ts : List Token) : Nat := Text.digitCount (content ts)

/-- A word in a row of tokens sets the date format `format`, which is the text behind it in its
statement. -/
def SetsDateFormat (ts : List Token) (format : String) : Prop :=
  ∃ t us, t :: us <:+ ts ∧ t.isWord ["dateformat"] = true ∧
    format = String.ofList (trim (source (us.takeWhile fun u => !u.kind.endsStatement)).toList)

variable {ts us : List Token} {t : Token}

theorem digitCount_append (ts us : List Token) :
    digitCount (ts ++ us) = digitCount ts + digitCount us := by
  rw [digitCount, content, List.flatMap_append, Text.digitCount_append]
  rfl

theorem digitCount_le_of_sublist (h : us.Sublist ts) : digitCount us ≤ digitCount ts :=
  Text.digitCount_le_of_sublist (content_sublist h)

theorem digitCount_text_le (h : t ∈ ts) : Text.digitCount t.text.toList ≤ digitCount ts := by
  have htext : (t.gap.toList ++ t.text.toList).Sublist (content ts) := by
    rw [content, List.flatMap_def]
    exact List.sublist_flatten_of_mem (List.mem_map_of_mem h)
  exact Text.digitCount_le_of_sublist ((List.sublist_append_right _ _).trans htext)

end Token

/-- What a failure says about the tokens `ts`: a directive of a chart sets a date format that names
a field twice, or they have more digits than a number is read with. No failure is a lack of
progress. -/
def Failure.IsDueTo (d : Dialect) (ts : List Token) : Failure → Prop
  | .malformed _ => True
  | .repeatedDateField =>
    d = .gantt ∧ ∃ format, Token.SetsDateFormat ts format ∧
      (DateFormat.ofText format).isSimple = false
  | .oversizedNumber => maxDigits < Token.digitCount ts
  | .stalled => False

/-! ### Cursors among tokens -/

/-- A cursor before the last of the tokens `ts`, fewer than `n` of them. The end of input is kept
apart from them. -/
structure Cursor.Below (ts : List Token) (n : Nat) (c : Cursor) : Prop where
  suffix : c.rest <:+ ts
  length_lt : c.rest.length < n
  inner : ∀ t ∈ ts, t.kind ≠ .endOfInput
  final_kind : c.final.kind = .endOfInput

/-- A cursor before at least one of the tokens `ts`, and before `n` of them at most. -/
def Cursor.Facing (ts : List Token) (n : Nat) (c : Cursor) : Prop :=
  c.Below ts (n + 1) ∧ c.rest ≠ []

namespace Cursor

variable {ts : List Token} {m n : Nat} {c : Cursor}

theorem Below.mono (h : c.Below ts m) (hmn : m ≤ n) : c.Below ts n :=
  ⟨h.suffix, Nat.lt_of_lt_of_le h.length_lt hmn, h.inner, h.final_kind⟩

theorem Below.mem (h : c.Below ts n) {t : Token} (ht : t ∈ c.rest) : t ∈ ts := h.suffix.mem ht

/-- Behind the first token `t` ahead there are fewer tokens, so the bound is one less. -/
theorem Below.tail (h : c.Below ts (n + 1)) {t : Token} {us : List Token} (hrest : c.rest = t :: us)
    (past : List Token) : (⟨past, us, c.final⟩ : Cursor).Below ts n := by
  have hlt := h.length_lt
  have hsuffix := h.suffix
  rw [hrest] at hlt hsuffix
  exact ⟨(List.suffix_cons t us).trans hsuffix, Nat.lt_of_succ_lt_succ hlt, h.inner, h.final_kind⟩

theorem Below.peek_kind_ne (h : c.Below ts n) (hne : c.rest ≠ []) : c.peek.kind ≠ .endOfInput := by
  obtain ⟨past, rest, final⟩ := c
  cases rest with
  | nil => exact absurd rfl hne
  | cons t us => exact h.inner t (h.mem List.mem_cons_self)

/-- Past some of the tokens ahead, here those that pass `p`, there are no more tokens than
before. -/
theorem Below.dropWhile (h : c.Below ts n) (p : Token → Bool) : (c.span p).2.Below ts n := by
  have hsuffix : c.rest.dropWhile p <:+ c.rest := List.dropWhile_suffix p
  exact ⟨hsuffix.trans h.suffix, Nat.lt_of_le_of_lt hsuffix.length_le h.length_lt, h.inner,
    h.final_kind⟩

end Cursor

/-! ### Results and failures -/

namespace Except

variable {α β : Type} {E : Failure → Prop} {Q : α → Prop} {R : β → Prop}

/-- A result with the property `Q`, or a failure with the property `E`. -/
def Meets (E : Failure → Prop) (Q : α → Prop) : Except Failure α → Prop
  | .ok a => Q a
  | .error e => E e

theorem Meets.imp {x : Except Failure α} {Q' : α → Prop} (hx : Meets E Q x)
    (h : ∀ a, Q a → Q' a) : Meets E Q' x := by
  cases x with
  | error e => exact hx
  | ok a => exact h a hx

theorem Meets.bind {x : Except Failure α} {f : α → Except Failure β} (hx : Meets E Q x)
    (hf : ∀ a, Q a → Meets E R (f a)) : Meets E R (x.bind f) := by
  cases x with
  | error e => exact hx
  | ok a => exact hf a hx

theorem Meets.map {x : Except Failure α} {f : α → β} (hx : Meets E (fun a => R (f a)) x) :
    Meets E R (x.map f) := by
  cases x with
  | error e => exact hx
  | ok a => exact hx

end Except

namespace Reading

variable {α β σ : Type} {d : Dialect} {ts : List Token} {n : Nat}

/-- At cursors with the property `P`, the reading `x` gives a result and a cursor with the property
`Q`, or it fails for a reason found in the tokens `ts`. -/
structure Sound (d : Dialect) (ts : List Token) (P : Cursor → Prop) (x : Reading α)
    (Q : α → Cursor → Prop) : Prop where
  apply : ∀ c, P c → Except.Meets (Failure.IsDueTo d ts) (fun r => Q r.1 r.2) (x c)

/-- A reading that moves only forward among the tokens `ts`, and gives a result with the property
`Q`. -/
def Steady (d : Dialect) (ts : List Token) (x : Reading α) (Q : α → Prop) : Prop :=
  ∀ n, Sound d ts (Cursor.Below ts n) x fun a c => Q a ∧ c.Below ts n

/-- A steady reading that takes a token if there is one ahead. -/
def Moves (d : Dialect) (ts : List Token) (x : Reading α) (Q : α → Prop) : Prop :=
  ∀ n, Sound d ts (Cursor.Facing ts n) x fun a c => Q a ∧ c.Below ts n

/-- A steady reading that takes a token or fails, wherever it starts. -/
def Takes (d : Dialect) (ts : List Token) (x : Reading α) (Q : α → Prop) : Prop :=
  ∀ n, Sound d ts (Cursor.Below ts (n + 1)) x fun a c => Q a ∧ c.Below ts n

/-- A round of a loop, which takes a token unless it is the last one. Only then may it leave as many
tokens `ts` as there were. -/
def Rounds (d : Dialect) (ts : List Token) (x : Reading (σ ⊕ α)) (I : σ → Prop) (Q : α → Prop) :
    Prop :=
  ∀ n, Sound d ts (Cursor.Below ts (n + 1)) x fun r c =>
    r.elim (fun s => I s ∧ c.Below ts n) fun a => Q a ∧ c.Below ts (n + 1)

/-! ### Putting readings together -/

namespace Sound

variable {P P' : Cursor → Prop} {x : Reading α} {Q Q' : α → Cursor → Prop} {R : β → Cursor → Prop}

theorem and (h : Sound d ts P x Q) (h' : Sound d ts P x Q') :
    Sound d ts P x fun a c => Q a c ∧ Q' a c := by
  constructor
  intro c hc
  have hx := h.apply c hc
  have hx' := h'.apply c hc
  cases hresult : x c with
  | error e =>
    rw [hresult] at hx
    exact hx
  | ok r =>
    rw [hresult] at hx hx'
    exact ⟨hx, hx'⟩

theorem imp (h : Sound d ts P x Q) (hP : ∀ c, P' c → P c) (hQ : ∀ a c, Q a c → Q' a c) :
    Sound d ts P' x Q' := ⟨fun c hc => (h.apply c (hP c hc)).imp fun r hr => hQ r.1 r.2 hr⟩

theorem pure {a : α} (h : ∀ c, P c → Q a c) : Sound d ts P (pure a) Q := ⟨h⟩

theorem bind {f : α → Reading β} (hx : Sound d ts P x Q) (hf : ∀ a, Sound d ts (Q a) (f a) R) :
    Sound d ts P (x >>= f) R :=
  ⟨fun c hc => (hx.apply c hc).bind fun r hr => (hf r.1).apply r.2 hr⟩

theorem map {f : α → β} (hx : Sound d ts P x fun a c => R (f a) c) : Sound d ts P (f <$> x) R :=
  ⟨fun c hc => (hx.apply c hc).bind fun _ hr => hr⟩

theorem ite {b : Prop} [Decidable b] {y : Reading α} (hx : b → Sound d ts P x Q)
    (hy : ¬b → Sound d ts P y Q) : Sound d ts P (if b then x else y) Q := by
  split
  · exact hx ‹_›
  · exact hy ‹_›

/-- After looking, what was seen is known, and the cursor is where it was. -/
theorem look_bind {f : Cursor → α} {g : α → Reading β}
    (h : ∀ a, Sound d ts (fun c => P c ∧ f c = a) (g a) R) : Sound d ts P (look f >>= g) R :=
  ⟨fun c hc => (h (f c)).apply c ⟨hc, rfl⟩⟩

theorem failAt (cause : ReadError.Cause) (p : Option Position) :
    Sound d ts P (Reading.failAt cause p) Q := ⟨fun _ _ => trivial⟩

theorem fail (expected : String) : Sound d ts P (Reading.fail expected) Q := ⟨fun _ _ => trivial⟩

/-- A loop never stalls if every round that goes on takes a token. The induction is on the number of
tokens `ts` ahead. -/
theorem loop {round : σ → Reading (σ ⊕ α)} {I : σ → Cursor → Prop}
    (h : ∀ s c, I s c → Sound d ts (· = c) (round s) fun r c' =>
      r.elim (fun s' => I s' c' ∧ c'.rest.length < c.rest.length) (Q · c')) (s : σ) :
    Sound d ts (I s) (Reading.loop round s) Q := by
  constructor
  intro c hc
  induction hlen : c.rest.length using Nat.strongRecOn generalizing s c with
  | _ len ih =>
    have hround := (h s c hc).apply c rfl
    rw [loop_apply]
    cases hx : round s c with
    | error e =>
      rw [hx] at hround
      exact hround
    | ok r =>
      obtain ⟨s' | a, c'⟩ := r
      · rw [hx] at hround
        obtain ⟨hs', hlt⟩ := hround
        dsimp only
        rw [if_pos hlt]
        exact ih _ (hlen ▸ hlt) s' c' hs' rfl
      · rw [hx] at hround
        exact hround

end Sound

variable {x : Reading α} {Q : α → Prop} {R : β → Prop}

namespace Steady

theorem imp {Q' : α → Prop} (h : Steady d ts x Q) (hQ : ∀ a, Q a → Q' a) : Steady d ts x Q' :=
  fun n => (h n).imp (fun _ => id) fun a _ ha => ⟨hQ a ha.1, ha.2⟩

theorem pure {a : α} (h : Q a) : Steady d ts (pure a) Q := fun _ => .pure fun _ hc => ⟨h, hc⟩

theorem failAt (cause : ReadError.Cause) (p : Option Position) :
    Steady d ts (Reading.failAt cause p) Q := fun _ => .failAt cause p

theorem fail (expected : String) : Steady d ts (Reading.fail expected) Q := fun _ => .fail expected

theorem unexpected (expected : String) (t : Token) :
    Steady d ts (Reading.unexpected expected t) Q := failAt _ _

theorem look (f : Cursor → α) : Steady d ts (look f) fun _ => True :=
  fun _ => ⟨fun _ hc => ⟨trivial, hc⟩⟩

theorem map {f : α → β} (h : Steady d ts x fun a => R (f a)) : Steady d ts (f <$> x) R :=
  fun n => .map (h n)

theorem ite {b : Prop} [Decidable b] {y : Reading α} (hx : b → Steady d ts x Q)
    (hy : ¬b → Steady d ts y Q) : Steady d ts (if b then x else y) Q :=
  fun n => .ite (fun hb => hx hb n) fun hb => hy hb n

end Steady

/-- Whatever was read before, a steady reading keeps below the number `n` of tokens `ts`, and so do
both together. -/
theorem Sound.bind_steady {P : Cursor → Prop} {f : α → Reading β}
    (hx : Sound d ts P x fun a c => Q a ∧ c.Below ts n) (hf : ∀ a, Q a → Steady d ts (f a) R) :
    Sound d ts P (x >>= f) fun b c => R b ∧ c.Below ts n :=
  ⟨fun c hc => (hx.apply c hc).bind fun r hr => (hf r.1 hr.1 n).apply r.2 hr.2⟩

theorem Steady.bind {f : α → Reading β} (hx : Steady d ts x Q)
    (hf : ∀ a, Q a → Steady d ts (f a) R) : Steady d ts (x >>= f) R :=
  fun n => (hx n).bind_steady hf

/-- What is no reading is steady if its failure is found in the tokens `ts`, as it moves no
cursor. -/
theorem Steady.lift {x : Except Failure α} (h : Except.Meets (Failure.IsDueTo d ts) Q x) :
    Steady d ts (StateT.lift x) Q := fun _ => ⟨fun _ hc => h.bind fun _ ha => ⟨ha, hc⟩⟩

namespace Moves

theorem bind {f : α → Reading β} (hx : Moves d ts x Q) (hf : ∀ a, Q a → Steady d ts (f a) R) :
    Moves d ts (x >>= f) R := fun n => (hx n).bind_steady hf

theorem look_bind {f : Cursor → α} {g : α → Reading β} (h : ∀ a, Moves d ts (g a) R) :
    Moves d ts (look f >>= g) R :=
  fun n => .look_bind fun a => (h a n).imp (fun _ hc => hc.1) fun _ _ => id

/-- What is read before a reading that moves may take tokens `ts` or not, if the reading is steady
at the end as well. -/
theorem bind_right {f : α → Reading β} (hx : Steady d ts x Q) (hf : ∀ a, Q a → Moves d ts (f a) R)
    (hf' : ∀ a, Q a → Steady d ts (f a) R) : Moves d ts (x >>= f) R := by
  intro n
  constructor
  intro c hc
  refine (hx (n + 1) |>.apply c hc.1).bind ?_
  rintro ⟨a, c'⟩ ⟨ha, hc'⟩
  by_cases hrest : c'.rest = []
  · -- all tokens are taken, and there was one
    have hpos : 1 ≤ n := by
      have hlen := List.length_pos_iff.2 hc.2
      have hlt := hc.1.length_lt
      omega
    have hlt : c'.rest.length < 1 := by
      rw [hrest]
      exact Nat.one_pos
    have hnone : c'.Below ts 1 := ⟨hc'.suffix, hlt, hc'.inner, hc'.final_kind⟩
    exact ((hf' a ha 1).apply c' hnone).imp fun _ hr => ⟨hr.1, hr.2.mono hpos⟩
  · exact (hf a ha n).apply c' ⟨hc', hrest⟩

theorem fail (expected : String) : Moves d ts (Reading.fail expected) Q := fun _ => .fail expected

theorem ite {b : Prop} [Decidable b] {y : Reading α} (hx : b → Moves d ts x Q)
    (hy : ¬b → Moves d ts y Q) : Moves d ts (if b then x else y) Q :=
  fun n => .ite (fun hb => hx hb n) fun hb => hy hb n

end Moves

namespace Takes

theorem moves (h : Takes d ts x Q) : Moves d ts x Q :=
  fun n => (h n).imp (fun _ hc => hc.1) fun _ _ => id

theorem steady (h : Takes d ts x Q) : Steady d ts x Q := by
  intro n
  cases n with
  | zero => exact ⟨fun c hc => absurd hc.length_lt (Nat.not_lt_zero _)⟩
  | succ n => exact (h n).imp (fun _ => id) fun _ _ hc => ⟨hc.1, hc.2.mono (Nat.le_succ n)⟩

theorem bind {f : α → Reading β} (hx : Takes d ts x Q) (hf : ∀ a, Q a → Steady d ts (f a) R) :
    Takes d ts (x >>= f) R := fun n => (hx n).bind_steady hf

theorem look_bind {f : Cursor → α} {g : α → Reading β} (h : ∀ a, Takes d ts (g a) R) :
    Takes d ts (look f >>= g) R :=
  fun n => .look_bind fun a => (h a n).imp (fun _ hc => hc.1) fun _ _ => id

/-- What is read before a token is taken may take tokens or not, as the token is taken behind it. -/
theorem bind_right {f : α → Reading β} (hx : Steady d ts x Q) (hf : ∀ a, Q a → Takes d ts (f a) R) :
    Takes d ts (x >>= f) R :=
  fun n => ⟨fun c hc => (hx (n + 1) |>.apply c hc).bind fun r hr => (hf r.1 hr.1 n).apply r.2 hr.2⟩

theorem fail (expected : String) : Takes d ts (Reading.fail expected) Q := fun _ => .fail expected

theorem ite {b : Prop} [Decidable b] {y : Reading α} (hx : b → Takes d ts x Q)
    (hy : ¬b → Takes d ts y Q) : Takes d ts (if b then x else y) Q :=
  fun n => .ite (fun hb => hx hb n) fun hb => hy hb n

end Takes

/-! ### Repeating -/

/-- A loop of rounds is steady, with `I` as what they keep. -/
theorem Steady.loop {round : σ → Reading (σ ⊕ α)} {I : σ → Prop}
    (h : ∀ s, I s → Rounds d ts (round s) I Q) {s : σ} (hs : I s) :
    Steady d ts (Reading.loop round s) Q := by
  intro n
  have hloop : Sound d ts (fun c => I s ∧ c.Below ts n) (Reading.loop round s) fun a c =>
      Q a ∧ c.Below ts n := by
    refine .loop (I := fun s c => I s ∧ c.Below ts n) (fun s c hs => ?_) s
    -- a round that goes on leaves fewer tokens than were ahead of it
    have hlt := hs.2.length_lt
    refine (h s hs.1 c.rest.length).imp ?_ ?_
    · rintro _ rfl
      exact ⟨hs.2.suffix, Nat.lt_succ_self _, hs.2.inner, hs.2.final_kind⟩
    · rintro (s' | a) c' hr
      · exact ⟨⟨hr.1, hr.2.mono (Nat.le_of_lt hlt)⟩, hr.2.length_lt⟩
      · exact ⟨hr.1, hr.2.mono hlt⟩
  exact hloop.imp (fun _ hc => ⟨hs, hc⟩) fun _ _ => id

/-- A round of reading statements, which is the last one at the end of input. This is the round of
`untilEnd`. -/
def statementRound (statement : σ → Reading σ) (s : σ) : Reading (σ ⊕ σ) := do
  if ← look Cursor.atEnd then return .inr s
  else return .inl (← statement s)

theorem rounds_statement {statement : σ → Reading σ} {s : σ} {I : σ → Prop}
    (h : Moves d ts (statement s) I) (hs : I s) : Rounds d ts (statementRound statement s) I I := by
  refine fun n => .look_bind fun b => .ite (fun _ => ?_) fun hb => ?_
  · exact .pure fun c hc => ⟨hs, hc.1⟩
  · have hstatement : Sound d ts (fun c => c.Below ts (n + 1) ∧ c.atEnd = b) (statement s)
        fun s' c => I s' ∧ c.Below ts n := by
      refine (h n).imp (fun c hc => ⟨hc.1, ?_⟩) fun _ _ => id
      rw [← hc.2, Cursor.atEnd, List.isEmpty_iff] at hb
      exact hb
    exact hstatement.bind fun s' => .pure fun c hc => hc

/-- Statements that move are read up to the end of input, with `I` as what they keep. -/
theorem Steady.untilEnd {statement : σ → Reading σ} {I : σ → Prop}
    (h : ∀ s, I s → Moves d ts (statement s) I) {s : σ} (hs : I s) :
    Steady d ts (Reading.untilEnd statement s) I :=
  .loop (fun s hs => rounds_statement (h s hs) hs) hs

/-- A reading that takes a token can be a round, be it the last one or not. -/
theorem Rounds.of_takes {x : Reading (σ ⊕ α)} {I : σ → Prop} (h : Takes d ts x (Sum.elim I Q)) :
    Rounds d ts x I Q := by
  refine fun n => (h n).imp (fun _ => id) ?_
  rintro (s | a) c hc
  · exact hc
  · exact ⟨hc.1, hc.2.mono (Nat.le_succ n)⟩

/-! ### Taking tokens -/

/-- Where the next token is not the end of input, it is one of the tokens, and fewer follow. -/
theorem sound_advance {P : Cursor → Prop}
    (hP : ∀ c, P c → c.Below ts (n + 1) ∧ c.peek.kind ≠ .endOfInput) :
    Sound d ts P advance fun t c => t ∈ ts ∧ c.Below ts n := by
  constructor
  rintro ⟨past, rest, final⟩ hc
  obtain ⟨hbelow, hkind⟩ := hP _ hc
  cases rest with
  | nil => exact absurd hbelow.final_kind hkind
  | cons t us => exact ⟨hbelow.suffix.mem List.mem_cons_self, hbelow.tail rfl _⟩

theorem moves_advance : Moves d ts advance fun _ => True := by
  intro n
  constructor
  rintro ⟨past, rest, final⟩ ⟨hc, hne⟩
  cases rest with
  | nil => exact absurd rfl hne
  | cons t us => exact ⟨trivial, hc.tail rfl _⟩

theorem steady_advance : Steady d ts advance fun _ => True := by
  intro n
  constructor
  rintro ⟨past, rest, final⟩ hc
  cases rest with
  | nil => exact ⟨trivial, hc⟩
  | cons t us => exact ⟨trivial, (hc.mono (Nat.le_succ n)).tail rfl _⟩

section Checks

variable {p : Cursor → Bool} (hp : ∀ c : Cursor, p c = true → c.peek.kind ≠ .endOfInput)

include hp

/-- Behind a check that the end of input does not pass, the next token is taken; otherwise the text
is malformed. -/
theorem takes_if (expected : String) :
    Takes d ts (do if ← look p then advance else fail expected) (· ∈ ts) :=
  fun _ => .look_bind fun _ => .ite
    (fun hb => sound_advance fun c hc => ⟨hc.1, hp c (hc.2.trans hb)⟩) fun _ => .fail _

theorem steady_if :
    Steady d ts (do if ← look p then some <$> advance else return none)
      fun t => ∀ u ∈ t, u ∈ ts := by
  refine fun n => .look_bind fun b => .ite (fun hb => ?_) fun _ =>
    .pure fun c hc => ⟨fun _ h => (nomatch h), hc.1⟩
  have htake := sound_advance (d := d) (P := fun c => c.Below ts n ∧ p c = b) (n := n)
    fun c hc => ⟨hc.1.mono (Nat.le_succ n), hp c (hc.2.trans hb)⟩
  refine .map (htake.imp (fun _ => id) fun t c hc => ⟨?_, hc.2⟩)
  rintro _ ⟨⟩
  exact hc.1

/-- The next token is taken and goes on to `f`, or it stays and the check is known to fail. -/
theorem Sound.bind_if {P : Cursor → Prop} {f : Option Token → Reading β} {R : β → Cursor → Prop}
    (hP : ∀ c, P c → c.Below ts (n + 1))
    (hsome : ∀ t ∈ ts, Sound d ts (Cursor.Below ts n) (f (some t)) R)
    (hnone : Sound d ts (fun c => P c ∧ p c = false) (f none) R) :
    Sound d ts P ((do if ← look p then some <$> advance else return none) >>= f) R := by
  refine bind (Q := fun t c => (∃ u ∈ ts, t = some u ∧ c.Below ts n) ∨
    t = none ∧ P c ∧ p c = false) (look_bind fun b => .ite (fun hb => ?_) fun hb => ?_) fun t => ?_
  · have htake := sound_advance (d := d) (P := fun c => P c ∧ p c = b) (n := n)
      fun c hc => ⟨hP c hc.1, hp c (hc.2.trans hb)⟩
    exact .map (htake.imp (fun _ => id) fun t c hc => .inl ⟨t, hc.1, rfl, hc.2⟩)
  · exact .pure fun c hc => .inr ⟨rfl, hc.1, hc.2.trans (Bool.not_eq_true _ ▸ hb)⟩
  · constructor
    rintro c (⟨u, hu, rfl, hc⟩ | ⟨rfl, hc⟩)
    · exact (hsome u hu).apply c hc
    · exact hnone.apply c hc

end Checks

variable {kind : TokenKind} {kinds : List TokenKind}

theorem ne_endOfInput_of_check (hkinds : .endOfInput ∉ kinds) (c : Cursor)
    (h : c.check kinds = true) : c.peek.kind ≠ .endOfInput := by
  rw [Cursor.check, List.contains_iff_mem] at h
  exact fun hend => hkinds (hend ▸ h)

theorem ne_endOfInput_of_isWord (words : List String) (c : Cursor)
    (h : c.peek.isWord words = true) : c.peek.kind ≠ .endOfInput := by
  rw [Token.isWord, Bool.and_eq_true, beq_iff_eq] at h
  rw [h.1]
  decide

theorem ne_endOfInput_of_check_singleton (hkind : kind ≠ .endOfInput) (c : Cursor)
    (h : c.check [kind] = true) : c.peek.kind ≠ .endOfInput :=
  ne_endOfInput_of_check (fun hmem => hkind (List.mem_singleton.1 hmem).symm) c h

theorem takes_expectAny (hkinds : .endOfInput ∉ kinds) (expected : String) :
    Takes d ts (expectAny kinds expected) (· ∈ ts) := takes_if (ne_endOfInput_of_check hkinds) _

theorem takes_expect (hkind : kind ≠ .endOfInput) (expected : String) :
    Takes d ts (expect kind expected) (· ∈ ts) :=
  takes_if (ne_endOfInput_of_check_singleton hkind) _

theorem takes_expectWord (word : String) : Takes d ts (expectWord word) (· ∈ ts) :=
  takes_if (ne_endOfInput_of_isWord [word]) _

theorem Sound.accept_bind {P : Cursor → Prop} {f : Option Token → Reading β} {R : β → Cursor → Prop}
    (hkind : kind ≠ .endOfInput) (hP : ∀ c, P c → c.Below ts (n + 1))
    (hsome : ∀ t ∈ ts, Sound d ts (Cursor.Below ts n) (f (some t)) R)
    (hnone : Sound d ts (fun c => P c ∧ c.check [kind] = false) (f none) R) :
    Sound d ts P (accept kind >>= f) R :=
  bind_if (ne_endOfInput_of_check_singleton hkind) hP hsome hnone

theorem Moves.accept_bind {f : Option Token → Reading β} (hkind : kind ≠ .endOfInput)
    (hsome : ∀ t ∈ ts, Steady d ts (f (some t)) R) (hnone : Moves d ts (f none) R) :
    Moves d ts (accept kind >>= f) R :=
  fun n => .accept_bind hkind (fun _ hc => hc.1) (fun t ht => hsome t ht n)
    ((hnone n).imp (fun _ hc => hc.1) fun _ _ => id)

/-- A round that goes on behind a token of some `kind`, and ends where there is none. -/
theorem Rounds.accept_bind {f : Option Token → Reading (σ ⊕ α)} {I : σ → Prop}
    (hkind : kind ≠ .endOfInput) (hsome : ∀ t ∈ ts, Steady d ts (f (some t)) (Sum.elim I Q))
    (hnone : Steady d ts (f none) (Sum.elim (fun _ => False) Q)) :
    Rounds d ts (accept kind >>= f) I Q := by
  intro n
  refine .accept_bind hkind (fun _ => id) (fun t ht => ?_) ?_
  · refine (hsome t ht n).imp (fun _ => id) ?_
    rintro (s | a) c hc
    · exact hc
    · exact ⟨hc.1, hc.2.mono (Nat.le_succ n)⟩
  · refine (hnone (n + 1)).imp (fun _ hc => hc.1) ?_
    rintro (s | a) c hc
    · exact absurd hc.1 id
    · exact hc

/-- A round of reading a list that goes on behind each separator, and ends where there is none, with
the list as it is. -/
theorem Rounds.of_accept {f : Option Token → Reading (σ ⊕ σ)} {s : σ} (hkind : kind ≠ .endOfInput)
    (hsome : ∀ t ∈ ts, Steady d ts (f (some t)) fun _ => True) (hnone : f none = return .inr s) :
    Rounds d ts (accept kind >>= f) (fun _ => True) fun _ => True := by
  refine .accept_bind hkind (fun t ht => (hsome t ht).imp ?_) ?_
  · rintro (s | s) h
    · exact h
    · exact h
  · rw [hnone]
    exact .pure trivial

theorem steady_accept (hkind : kind ≠ .endOfInput) :
    Steady d ts (accept kind) fun t => ∀ u ∈ t, u ∈ ts :=
  steady_if (ne_endOfInput_of_check_singleton hkind)

theorem steady_acceptWord (words : List String) :
    Steady d ts (acceptWord words) fun t => ∀ u ∈ t, u ∈ ts :=
  steady_if (ne_endOfInput_of_isWord words)

/-! ### Labels and directions -/

theorem steady_ofResult (result : Except ReadError α) :
    Steady d ts (ofResult result) fun _ => True := by
  refine fun n => ⟨fun c hc => ?_⟩
  cases result with
  | ok a => exact ⟨trivial, hc⟩
  | error e => trivial

/-- A label is read if its text has no more digits than the tokens, since only a number that is too
long is not read. -/
theorem steady_content {text : String} (h : Text.digitCount text.toList ≤ Token.digitCount ts) :
    Steady d ts (content text) fun _ => True := by
  unfold content
  split
  · exact .pure trivial
  · next htext =>
    have hoversized : Content.isOversized text = true := by
      unfold Content.ofText? at htext
      split at htext
      · assumption
      · cases htext
    have hdigits := Nat.lt_of_lt_of_le (Content.lt_digitCount_of_isOversized hoversized) h
    exact fun _ => ⟨fun _ _ => hdigits⟩

theorem steady_contentOf {token : Option Token} (h : ∀ t ∈ token, t ∈ ts) :
    Steady d ts (contentOf token) fun _ => True := by
  cases token with
  | none => exact .pure trivial
  | some t => exact .map (steady_content (Token.digitCount_text_le (h t rfl)))

theorem steady_behindColon {read : Option Token → Reading (Option α)}
    (h : ∀ token, (∀ t ∈ token, t ∈ ts) → Steady d ts (read token) fun _ => True) :
    Steady d ts (behindColon read) fun _ => True := by
  refine .bind (steady_accept (by decide)) fun t _ => ?_
  cases t with
  | none => exact .pure trivial
  | some _ => exact .bind (steady_accept (by decide)) fun token => h token

theorem steady_takeDirection (expected : String) :
    Steady d ts (takeDirection expected) fun _ => True := by
  refine .bind steady_advance fun t _ => ?_
  split
  · exact .pure trivial
  · exact .unexpected _ _

/-! ### Statements -/

/-- Behind the line breaks and semicolons that are skipped stands neither. -/
theorem sound_skipNewlines : Sound d ts (Cursor.Below ts n) skipNewlines fun _ c =>
    c.Below ts n ∧ c.peek.kind ≠ .newline ∧ c.peek.kind ≠ .semicolon := by
  refine ⟨fun c hc => ⟨hc.dropWhile _, ?_⟩⟩
  have hhead := List.head?_dropWhile_not
    (fun t : Token => t.kind == .newline || t.kind == .semicolon) c.rest
  show (c.skipNewlines).peek.kind ≠ _ ∧ (c.skipNewlines).peek.kind ≠ _
  rw [Cursor.peek, Cursor.ahead, Cursor.skipNewlines, Cursor.span, ← List.head?_eq_getElem?]
  dsimp only
  cases hrest : (c.rest.dropWhile fun t => t.kind == .newline || t.kind == .semicolon).head? with
  | none =>
    rw [Option.getD_none, hc.final_kind]
    decide
  | some t =>
    rw [hrest] at hhead
    simpa using hhead

theorem steady_skipNewlines : Steady d ts skipNewlines fun _ => True :=
  fun _ => sound_skipNewlines.imp (fun _ => id) fun _ _ hc => ⟨trivial, hc.1⟩

/-- The digits of a source, and those of the tokens behind it, were ahead before, so together they
are no more. -/
theorem digitCount_rawUntil_add_le (c : Cursor) (stops : List TokenKind) :
    Text.digitCount (c.rawUntil stops).1.toList + Token.digitCount (c.rawUntil stops).2.rest ≤
      Token.digitCount c.rest := by
  simp only [Cursor.rawUntil, Cursor.span, String.toList_ofList]
  generalize (fun t : Token => !t.kind.endsStatement && !stops.contains t.kind) = p
  have hsource := Text.digitCount_le_of_sublist
    ((Text.trim_sublist _).trans (Token.source_sublist (c.rest.takeWhile p)))
  have hsplit : Token.digitCount (c.rest.takeWhile p) + Token.digitCount (c.rest.dropWhile p) =
      Token.digitCount c.rest := by
    rw [← Token.digitCount_append, List.takeWhile_append_dropWhile]
  rw [← hsplit]
  exact Nat.add_le_add_right hsource _

theorem steady_rawUntil (stops : List TokenKind) : Steady d ts (rawUntil stops) fun text =>
    Text.digitCount text.toList ≤ Token.digitCount ts :=
  fun _ => ⟨fun c hc => ⟨Nat.le_trans (Nat.le_trans (Nat.le_add_right _ _)
    (digitCount_rawUntil_add_le c stops)) (Token.digitCount_le_of_sublist hc.suffix.sublist),
    hc.dropWhile _⟩⟩

/-- Before a token that does not stop it, a text takes a token at least. -/
theorem sound_rawUntil {stops : List TokenKind} {P : Cursor → Prop}
    (hP : ∀ c, P c → c.Facing ts n ∧ c.peek.kind.endsStatement = false ∧ c.peek.kind ∉ stops) :
    Sound d ts P (rawUntil stops) fun _ c => c.Below ts n := by
  constructor
  rintro ⟨past, rest, final⟩ hcursor
  obtain ⟨⟨hc, hne⟩, hends, hstops⟩ := hP _ hcursor
  cases rest with
  | nil => exact absurd rfl hne
  | cons t us =>
    have ht : (!t.kind.endsStatement && !stops.contains t.kind) = true := by
      rw [show t.kind.endsStatement = false from hends, Bool.not_false, Bool.true_and,
        Bool.not_eq_true', ← Bool.not_eq_true, List.contains_iff_mem]
      exact hstops
    have hrest := (hc.tail rfl past).dropWhile
      fun t => !t.kind.endsStatement && !stops.contains t.kind
    have hspan : (⟨past, t :: us, final⟩ : Cursor).rest.dropWhile
        (fun t => !t.kind.endsStatement && !stops.contains t.kind) = us.dropWhile
        fun t => !t.kind.endsStatement && !stops.contains t.kind := List.dropWhile_cons_of_pos ht
    refine ⟨?_, ?_, hrest.inner, hrest.final_kind⟩
    · simp only [Cursor.rawUntil, Cursor.span, hspan]
      exact hrest.suffix
    · simp only [Cursor.rawUntil, Cursor.span, hspan]
      exact hrest.length_lt

theorem steady_restOfStatement : Steady d ts restOfStatement fun text =>
    Text.digitCount text.toList ≤ Token.digitCount ts := steady_rawUntil []

/-- What stays true behind the next token is true at the end of a statement. -/
theorem sound_endStatement {P : Cursor → Prop} (hP : ∀ c, P c → P c.advance.2) :
    Sound d ts P endStatement fun _ c => P c := by
  refine .look_bind fun _ => .ite (fun _ => .map ⟨fun c hc => hP c hc.1⟩) fun _ =>
    .look_bind fun _ => .ite (fun _ => .pure fun c hc => hc.1.1) fun _ => .fail _

theorem steady_endStatement : Steady d ts endStatement fun _ => True := by
  refine .bind (.look _) fun _ _ => .ite (fun _ => .map (steady_advance.imp fun _ _ => trivial))
    fun _ => .bind (.look _) fun _ _ => .ite (fun _ => .pure trivial) fun _ => .fail _

/-- Before a token, the end of a statement takes it or fails: there is no third way. -/
theorem moves_endStatement : Moves d ts endStatement fun _ => True := by
  intro n
  refine .look_bind fun b => .ite (fun _ => ?_) fun _ => .look_bind fun b' => .ite (fun hb' => ?_)
    fun _ => .fail _
  · exact .map ((moves_advance n).imp (fun _ hc => hc.1) fun _ _ hc => ⟨trivial, hc.2⟩)
  · refine .pure fun c hc => absurd ?_ hc.1.1.2
    rw [← List.isEmpty_iff]
    exact hc.2.trans hb'

/-! ### Bodies in braces -/

/-- Between line breaks that are skipped and the closing brace, a line has a token to take, so each
round but the last takes one. -/
theorem rounds_body {line : σ → Reading σ} {s : σ} (h : ∀ n, Sound d ts
      (fun c => c.Facing ts n ∧ c.peek.kind.endsStatement = false ∧ c.peek.kind ≠ .rightBrace)
      (line s) fun _ c => c.Below ts n) (cause : ReadError.Cause) :
    Rounds d ts (bodyRound line cause s) (fun _ => True) fun _ => True := by
  intro n
  refine sound_skipNewlines.bind fun _ => .look_bind fun b =>
    .ite (fun _ => .look_bind fun _ => .failAt _ _) fun hb => ?_
  refine .accept_bind (by decide) (fun c hc => hc.1.1) (fun t ht => ?_) ?_
  · have hend : Steady d ts (do endStatement; return (.inr s : σ ⊕ σ))
        (Sum.elim (fun _ => False) fun _ => True) :=
      steady_endStatement.bind fun _ _ => .pure trivial
    refine (hend n).imp (fun _ => id) ?_
    rintro (s | s) c hc
    · exact hc.1.elim
    · exact ⟨trivial, hc.2.mono (Nat.le_succ n)⟩
  · refine ((h n).imp ?_ fun _ _ => id).bind fun s' => .pure fun c hc => ⟨trivial, hc⟩
    -- No token reaches `line` but one that is neither the brace nor ends a statement.
    rintro c ⟨⟨⟨hbelow, hnewline, hsemicolon⟩, rfl⟩, hbrace⟩
    have hne : c.rest ≠ [] := fun hnil => hb (List.isEmpty_iff.2 hnil)
    refine ⟨⟨hbelow, hne⟩, ?_, fun hkind => ?_⟩
    · have hend := hbelow.peek_kind_ne hne
      revert hnewline hsemicolon hend
      cases c.peek.kind <;> decide
    · rw [Cursor.check, hkind] at hbrace
      cases hbrace

/-- A body is read if each of its lines takes a token where it starts at neither a line break nor a
brace. Then it cannot stall. -/
theorem steady_body {line : σ → Reading σ} (h : ∀ s n, Sound d ts
      (fun c => c.Facing ts n ∧ c.peek.kind.endsStatement = false ∧ c.peek.kind ≠ .rightBrace)
      (line s) fun _ c => c.Below ts n) (cause : ReadError.Cause) (s : σ) :
    Steady d ts (loop (bodyRound line cause) s) fun _ => True :=
  .loop (I := fun _ => True) (fun s _ => rounds_body (h s) cause) trivial

end Reading
end DiagramText
