import DiagramText.Content
import DiagramText.Proofs.Text.Blank
import DiagramText.Text.Quoted

/-!
# Digits of texts

A number is read only if it has no more digits than `Text.maxDigits`. Whatever is cut out of a text
has no more digits than the text, so a text with few digits holds no number that is not read.

* `Text.digitCount`: the number of decimal digits in a text.
* `Content.lt_digitCount_of_isOversized`: a label that refers to a character by too many digits has
  too many digits.
-/

namespace DiagramText

open Text

namespace Text

/-- The number of decimal digits in a text `cs`, wherever they stand. -/
def digitCount (cs : List Char) : Nat := cs.countP isDecimal

theorem digitCount_append (a b : List Char) : digitCount (a ++ b) = digitCount a + digitCount b :=
  List.countP_append

theorem digitCount_le_of_sublist {a b : List Char} (h : a.Sublist b) :
    digitCount a ≤ digitCount b := h.countP_le

/-- Where all characters of `cs` are digits, they are counted one by one, so the count is the
length. -/
theorem digitCount_of_all {cs : List Char} (h : ∀ c ∈ cs, isDecimal c = true) :
    digitCount cs = cs.length := List.countP_eq_length.2 h

theorem isDecimal_of_isDigit {c : Char} (h : c.isDigit = true) : isDecimal c = true := by
  rw [isDecimal, digitValue?, if_pos h]
  rfl

/-! ### Numbers as they are written -/

theorem isDigit_of_mem_toString {n : Nat} : ∀ c ∈ (toString n).toList, c.isDigit = true := by
  intro c hc
  rw [Nat.toString_eq_ofList_toDigits, String.toList_ofList] at hc
  exact Nat.isDigit_of_mem_toDigits (by decide) (by decide) hc

theorem all_isDecimal_toString (n : Nat) : (toString n).toList.all isDecimal = true :=
  List.all_eq_true.2 fun c hc => isDecimal_of_isDigit (isDigit_of_mem_toString c hc)

/-- A number is read by `decimalValue` from the digits that are written for it. -/
theorem decimalValue_toString (n : Nat) : decimalValue (toString n).toList = n := by
  have hdigits : ∀ (cs : List Char) (k : Nat), (∀ c ∈ cs, c.isDigit = true) →
      cs.foldl (fun n c => 10 * n + (digitValue? c).getD 0) k = Nat.ofDigitChars 10 cs k := by
    intro cs
    induction cs with
    | nil => exact fun k _ => Nat.ofDigitChars_nil.symm
    | cons c cs ih =>
      intro k hall
      obtain ⟨hc, hcs⟩ := List.forall_mem_cons.1 hall
      rw [List.foldl_cons, ih _ hcs, Nat.ofDigitChars_cons, digitValue?, if_pos hc]
      rfl
  rw [decimalValue, hdigits _ _ isDigit_of_mem_toString, Nat.toString_eq_ofList_toDigits,
    String.toList_ofList, Nat.ofDigitChars_toDigits (by decide) (by decide)]

/-! ### Parts of a text -/

theorem trim_sublist (cs : List Char) : (trim cs).Sublist cs := by
  obtain ⟨a, b, hcs, -⟩ := exists_trim cs
  have hmiddle := (List.sublist_append_right a (trim cs)).trans (List.sublist_append_left _ b)
  rwa [← hcs] at hmiddle

theorem unquote_sublist (text : String) : (unquote text).toList.Sublist text.toList := by
  unfold unquote
  split
  · next cs htext =>
    split
    · rw [String.toList_ofList, htext]
      exact (List.dropLast_sublist cs).trans (List.sublist_cons_self _ cs)
    · exact List.Sublist.refl _
  · exact List.Sublist.refl _

theorem sublist_of_mem_fields {p : Char → Bool} {f cs : List Char} (h : f ∈ fields p cs) :
    f.Sublist cs := by
  induction cs generalizing f with
  | nil =>
    rw [fields, List.mem_singleton] at h
    exact h ▸ List.Sublist.refl _
  | cons c cs ih =>
    rw [fields] at h
    split at h
    · rcases List.mem_cons.1 h with rfl | h
      · exact List.nil_sublist _
      · exact (ih h).cons c
    · split at h
      · rw [List.mem_singleton.1 h]
        exact (List.nil_sublist cs).cons_cons c
      · next g gs hfields =>
        rcases List.mem_cons.1 h with rfl | h
        · exact (ih (hfields ▸ List.mem_cons_self)).cons_cons c
        · exact (ih (hfields ▸ List.mem_cons_of_mem g h)).cons c

end Text

/-! ### Labels -/

/-- Tags are replaced by spaces, so no digit is added by `stripTags`. -/
theorem Markup.digitCount_stripTags_le (cs : List Char) :
    digitCount (stripTags cs) ≤ digitCount cs := by
  fun_induction stripTags cs with
  | case1 => exact Nat.le_refl _
  | case2 c rest n hn ih =>
    rw [digitCount, digitCount, List.countP_cons, List.countP_cons]
    exact Nat.add_le_add_right ih _
  | case3 c rest n hn ih =>
    have hspace : isDecimal ' ' = false := by decide
    have hdrop := (List.drop_sublist (n - 1) rest).trans (List.sublist_cons_self c rest)
    rw [digitCount, List.countP_cons_of_neg (by simp [hspace])]
    exact Nat.le_trans ih (digitCount_le_of_sublist hdrop)

theorem Reference.lt_digitCount_of_hasOversizedNumber {cs : List Char}
    (h : hasOversizedNumber cs = true) : maxDigits < digitCount cs := by
  fun_induction hasOversizedNumber cs with
  | case1 => cases h
  | case2 cs ih =>
    have hrest : digitCount cs ≤ digitCount ('&' :: '#' :: cs) :=
      digitCount_le_of_sublist ((List.sublist_cons_self _ _).trans (List.sublist_cons_self _ _))
    rw [Bool.or_eq_true, decide_eq_true_eq] at h
    rcases h with h | h
    · have hall : ∀ c ∈ cs.takeWhile Char.isDigit, isDecimal c = true := fun c hc =>
        isDecimal_of_isDigit (List.all_eq_true.1 List.all_takeWhile c hc)
      have htaken := digitCount_le_of_sublist (List.takeWhile_sublist (l := cs) Char.isDigit)
      rw [digitCount_of_all hall] at htaken
      omega
    · exact Nat.lt_of_lt_of_le (ih h) hrest
  | case3 c cs _ ih =>
    exact Nat.lt_of_lt_of_le (ih h) (digitCount_le_of_sublist (List.sublist_cons_self c cs))

/-- A label that is not read because of a number has more digits than `maxDigits`. So a row with few
digits has no such label. -/
theorem Content.lt_digitCount_of_isOversized {text : String} (h : isOversized text = true) :
    maxDigits < digitCount text.toList := by
  rw [isOversized, Bool.and_eq_true] at h
  exact Nat.lt_of_lt_of_le (Reference.lt_digitCount_of_hasOversizedNumber h.2)
    (Markup.digitCount_stripTags_le _)

end DiagramText
