import Reckoner.Proofs.Termination

/-!
# Rows

A text without parentheses as a row of operators and words, each with the spaces in front of it. On
a row the next operation is found item by item; `findFrom?_text` shows that the scan over characters
finds the same one, so a round can be followed on rows.
-/

namespace Reckoner

open Literal
open Operator (Level)

inductive Mark where
  | operator (op : Operator)
  | word (w : Text)

namespace Mark

def text : Mark → Text
  | operator op => [op.symbol]
  | word w => w

def isWord : Mark → Bool
  | operator _ => false
  | word _ => true

/-- Words are literals or the names of values that are not finite. -/
def Fits : Mark → Prop
  | operator _ => True
  | word w => IsWord w

@[simp] theorem text_operator (op : Operator) : (operator op).text = [op.symbol] := rfl
@[simp] theorem text_word (w : Text) : (word w).text = w := rfl
@[simp] theorem isWord_operator (op : Operator) : (operator op).isWord = false := rfl
@[simp] theorem isWord_word (w : Text) : (word w).isWord = true := rfl
@[simp] theorem fits_operator (op : Operator) : (operator op).Fits := trivial
@[simp] theorem fits_word (w : Text) : (word w).Fits ↔ IsWord w := Iff.rfl

theorem Fits.text_ne_nil {mark : Mark} (h : mark.Fits) : mark.text ≠ [] := by
  cases mark with
  | operator op => simp
  | word w => exact IsWord.ne_nil h

end Mark

structure Item where
  gap : Nat
  mark : Mark

abbrev Row := List Item

structure Operand where
  gap : Nat
  text : Text

theorem isWordChar_ne_space {c : Char} (h : isWordChar c = true) : c ≠ ' ' := by
  rintro rfl
  exact absurd h (by decide)

theorem IsWord.head {w : Text} (h : IsWord w) :
    ∃ c r, w = c :: r ∧ c ≠ ' ' ∧ isOperatorChar c = false := by
  cases w with
  | nil => exact absurd rfl h.ne_nil
  | cons c r =>
    have hc := h.all_isWordChar c (by simp)
    exact ⟨c, r, rfl, isWordChar_ne_space hc, isOperatorChar_of_isWordChar hc⟩

/-- What takes each character of a word as part of one operand takes the word as one. -/
theorem IsWord.scan {β : Type} {f : Bool → Text → β}
    (hf : ∀ afterOperand c t, isWordChar c = true → f afterOperand (c :: t) = f true t) {w : Text}
    (hw : IsWord w) (afterOperand : Bool) (t : Text) : f afterOperand (w ++ t) = f true t := by
  have hchars := hw.all_isWordChar
  have hne := hw.ne_nil
  clear hw
  induction w generalizing afterOperand with
  | nil => exact absurd rfl hne
  | cons c w ih =>
    rw [List.cons_append, hf afterOperand c _ (hchars c (by simp))]
    cases w with
    | nil => rfl
    | cons d w => exact ih true (fun x hx => hchars x (List.mem_cons_of_mem c hx)) (by simp)

theorem ne_minus_of_not_operator {c : Char} (h : isOperatorChar c = false) : c ≠ '-' := by
  rintro rfl
  exact absurd h (by decide)

theorem covers_decimal?_iff (w : Text) : covers decimal? w = true ↔ IsDecimal w := by
  constructor
  · intro h
    unfold covers at h
    split at h
    · next l he =>
      have ha := append_of_decimal? he
      simp only [List.append_nil] at ha
      exact ha ▸ (isDecimal_of_decimal? he).1
    · simp at h
  · intro h
    have := @decimal?_append w [] h stops_nil
    rw [List.append_nil] at this
    simp [covers, this]

namespace Row

def text (trailing : Nat) : Row → Text
  | [] => List.replicate trailing ' '
  | item :: row => List.replicate item.gap ' ' ++ (item.mark.text ++ text trailing row)

/-- No two words are neighbours; `afterWord` tells whether a word stands in front. -/
def Valid : (afterWord : Bool) → Row → Prop
  | _, [] => True
  | afterWord, item :: row =>
    (afterWord && item.mark.isWord) = false ∧ item.mark.Fits ∧ Valid item.mark.isWord row

/-- Whether a row ends in a word; `afterWord` answers for the empty row. -/
def endsInWord : (afterWord : Bool) → Row → Bool
  | afterWord, [] => afterWord
  | _, item :: row => endsInWord item.mark.isWord row

/-- The items that write a text with or without a minus sign in front. -/
def signedItems (gap : Nat) : Text → Row
  | '-' :: w => [⟨gap, .operator .minus⟩, ⟨0, .word w⟩]
  | w => [⟨gap, .word w⟩]

def headGap (row : Row) : Option Nat := row.head?.map Item.gap

variable {level : Level} {afterWord : Bool} {row : Row} (trailing : Nat)

@[simp] theorem headGap_nil : headGap [] = none := rfl

@[simp] theorem headGap_cons (item : Item) (row : Row) : headGap (item :: row) = some item.gap := rfl

@[simp] theorem headGap_signedItems_append (gap : Nat) (t : Text) (row : Row) :
    headGap (signedItems gap t ++ row) = some gap := by
  unfold signedItems
  split <;> rfl

@[simp] theorem text_nil : text trailing [] = List.replicate trailing ' ' := rfl

@[simp] theorem text_cons (gap : Nat) (mark : Mark) (row : Row) :
    text trailing (⟨gap, mark⟩ :: row) =
      List.replicate gap ' ' ++ (mark.text ++ text trailing row) := rfl

@[simp] theorem valid_nil (afterWord : Bool) : Valid afterWord [] := trivial

@[simp] theorem valid_operator_cons (afterWord : Bool) (gap : Nat) (op : Operator) (row : Row) :
    Valid afterWord (⟨gap, .operator op⟩ :: row) ↔ Valid false row := by
  simp [Valid]

@[simp] theorem valid_word_cons (afterWord : Bool) (gap : Nat) (w : Text) (row : Row) :
    Valid afterWord (⟨gap, .word w⟩ :: row) ↔ afterWord = false ∧ IsWord w ∧ Valid true row := by
  simp [Valid]

theorem valid_append (afterWord : Bool) (row next : Row) :
    Valid afterWord (row ++ next) ↔
      Valid afterWord row ∧ Valid (endsInWord afterWord row) next := by
  induction row generalizing afterWord with
  | nil => simp [endsInWord]
  | cons item row ih => simp [Valid, endsInWord, ih, and_assoc]

theorem signedItems_word {w : Text} (h : IsWord w) (gap : Nat) :
    signedItems gap w = [⟨gap, .word w⟩] := by
  obtain ⟨c, r, rfl, -, hc⟩ := h.head
  unfold signedItems
  split
  · next he =>
    obtain ⟨rfl, -⟩ := List.cons.inj he
    exact absurd rfl (ne_minus_of_not_operator hc)
  · rfl

theorem signedItems_minus (w : Text) (gap : Nat) :
    signedItems gap ('-' :: w) = [⟨gap, .operator .minus⟩, ⟨0, .word w⟩] := rfl

@[simp] theorem text_signedItems_append (gap : Nat) (t : Text) (row : Row) :
    text trailing (signedItems gap t ++ row) =
      List.replicate gap ' ' ++ (t ++ text trailing row) := by
  unfold signedItems
  split <;> simp [Operator.symbol]

/-- A signed word fits where no word stands in front. -/
theorem valid_signedItems_append {t : Text} (h : IsSigned IsWord t) (gap : Nat) (row : Row) :
    Valid false (signedItems gap t ++ row) ↔ Valid true row := by
  rcases h with h | ⟨w, rfl, h⟩
  · simp [signedItems_word h, h]
  · simp [signedItems_minus, h]

/-- Behind a word nothing goes on with it. -/
theorem stops_text (h : Valid true row) : Stops (text trailing row) := by
  match row, h with
  | [], _ => simpa using stops_spaces trailing stops_nil
  | ⟨gap, .operator op⟩ :: row, _ =>
    simpa using stops_spaces gap (stops_symbol op (text trailing row))
  | ⟨gap, .word w⟩ :: row, h => simp at h

theorem spaces_text (gap : Nat) {mark : Mark} (h : mark.Fits) (row : Row) :
    Text.spaces (text trailing (⟨gap, mark⟩ :: row)) = List.replicate gap ' ' ∧
      Text.afterSpaces (text trailing (⟨gap, mark⟩ :: row)) = mark.text ++ text trailing row := by
  have hne : (mark.text ++ text trailing row).head? ≠ some ' ' := by
    cases mark with
    | operator op => simpa using (symbol_facts op).2.2
    | word w =>
      obtain ⟨c, r, rfl, hc, -⟩ := h.head
      simpa using hc
  simpa using spaces_replicate_append gap hne

theorem afterSpaces_text_nil : Text.afterSpaces (text trailing []) = [] := by
  simpa using (spaces_replicate_append trailing (t := []) (by simp)).2

def negative? : Row → Option (Operand × Row)
  | ⟨gap, .operator .minus⟩ :: ⟨0, .word w⟩ :: row =>
    if covers decimal? w then some (⟨gap, '-' :: w⟩, row) else none
  | _ => none

def unsigned? : Row → Option (Operand × Row)
  | ⟨gap, .word w⟩ :: row => if isUnsigned w then some (⟨gap, w⟩, row) else none
  | _ => none

def signed? (row : Row) : Option (Operand × Row) := (negative? row).or (unsigned? row)

theorem negative?_eq_some_iff {x : Operand} {rest : Row} :
    negative? row = some (x, rest) ↔ ∃ gap d, IsDecimal d ∧ x = ⟨gap, '-' :: d⟩ ∧
      row = ⟨gap, .operator .minus⟩ :: ⟨0, .word d⟩ :: rest := by
  constructor
  · intro h
    unfold negative? at h
    split at h
    · split at h
      · next hw =>
        simp only [Option.some.injEq, Prod.mk.injEq] at h
        obtain ⟨rfl, rfl⟩ := h
        exact ⟨_, _, (covers_decimal?_iff _).1 hw, rfl, rfl⟩
      · simp at h
    · simp at h
  · rintro ⟨gap, d, hd, rfl, rfl⟩
    simp [negative?, (covers_decimal?_iff d).2 hd]

theorem unsigned?_eq_some_iff {x : Operand} {rest : Row} :
    unsigned? row = some (x, rest) ↔ ∃ gap w, (IsDecimal w ∨ IsFraction w) ∧ x = ⟨gap, w⟩ ∧
      row = ⟨gap, .word w⟩ :: rest := by
  constructor
  · intro h
    unfold unsigned? at h
    split at h
    · split at h
      · next hw =>
        simp only [Option.some.injEq, Prod.mk.injEq] at h
        obtain ⟨rfl, rfl⟩ := h
        exact ⟨_, _, (isUnsigned_iff _).1 hw, rfl, rfl⟩
      · simp at h
    · simp at h
  · rintro ⟨gap, w, hw, rfl, rfl⟩
    simp [unsigned?, (isUnsigned_iff w).2 hw]

/-- An operand that is read is written by the items it is read from. -/
theorem signed?_spec {x : Operand} {rest : Row} (h : signed? row = some (x, rest)) :
    row = signedItems x.gap x.text ++ rest ∧ IsOperand x.text := by
  rcases Option.or_eq_some_iff.1 h with h | ⟨-, h⟩
  · obtain ⟨gap, d, hd, rfl, rfl⟩ := negative?_eq_some_iff.1 h
    exact ⟨rfl, .inl (.inr ⟨d, rfl, hd⟩)⟩
  · obtain ⟨gap, w, hw, rfl, rfl⟩ := unsigned?_eq_some_iff.1 h
    refine ⟨by simp [signedItems_word (isWord_of_unsigned hw)], ?_⟩
    rcases hw with hw | hw
    · exact .inl (.inl hw)
    · exact .inr hw

theorem decimal?_of_word {w : Text} (h : IsWord w) (hd : ¬ IsDecimal w) (t : Text) :
    Literal.decimal? (w ++ t) = none := by
  apply decimal?_of_not_digit
  rcases h with h | ⟨ds, -, rfl⟩ | rfl | rfl
  · exact absurd h hd
  all_goals
    rintro c hc
    obtain rfl := Option.some.inj hc
    decide

theorem decimal?_text (h : Valid afterWord row) :
    Literal.decimal? (text trailing row) = match row with
      | ⟨0, .word w⟩ :: rest =>
        if covers Literal.decimal? w then some (w, text trailing rest) else none
      | _ => none := by
  have hspace : ∀ n t, Literal.decimal? (List.replicate (n + 1) ' ' ++ t) = none :=
    fun n t => decimal?_of_not_digit (stops_space _).digit
  match row, h with
  | [], _ => exact decimal?_of_not_digit (@stops_text [] trailing (valid_nil _)).digit
  | ⟨gap + 1, mark⟩ :: row, _ => simpa using hspace gap _
  | ⟨0, .operator op⟩ :: row, _ => simpa using decimal?_of_not_digit (stops_symbol op _).digit
  | ⟨0, .word w⟩ :: row, h =>
    obtain ⟨-, hw, hv⟩ := (valid_word_cons _ _ _ _).1 h
    by_cases hd : IsDecimal w
    · simp [(covers_decimal?_iff w).2 hd, decimal?_append hd (stops_text trailing hv)]
    · have hc : covers Literal.decimal? w = false := by
        rw [Bool.eq_false_iff]
        exact fun hc => hd ((covers_decimal?_iff w).1 hc)
      simp [hc, decimal?_of_word hw hd]

theorem negative?_text (h : Valid afterWord row) :
    Literal.negative? (Text.afterSpaces (text trailing row)) =
      (negative? row).map fun (x, rest) => (x.text, text trailing rest) := by
  match row, h with
  | [], _ =>
    rw [afterSpaces_text_nil]
    rfl
  | ⟨gap, .word w⟩ :: row, h =>
    obtain ⟨-, hw, hv⟩ := (valid_word_cons _ _ _ _).1 h
    obtain ⟨c, r, rfl, -, hc⟩ := hw.head
    rw [(spaces_text trailing gap ((Mark.fits_word _).2 hw) row).2, negative?_of_not_minus]
    · simp [negative?]
    · simpa using ne_minus_of_not_operator hc
  | ⟨gap, .operator op⟩ :: row, h =>
    rw [(spaces_text trailing gap (Mark.fits_operator op) row).2]
    have hv := (valid_operator_cons _ _ _ _).1 h
    cases op with
    | minus =>
      have hd := decimal?_text trailing hv
      simp only [Mark.text_operator, Operator.symbol, List.singleton_append, Literal.negative?, hd]
      cases row with
      | nil => simp [negative?]
      | cons item rest =>
        obtain ⟨gap, mark⟩ := item
        cases gap with
        | zero =>
          cases mark with
          | word w => simp only [negative?]; split <;> simp
          | operator op => simp [negative?]
        | succ n => cases mark <;> simp [negative?]
    | _ => simp [negative?, Literal.negative?, Operator.symbol]

theorem unsigned?_text (h : Valid afterWord row) :
    Literal.unsigned? (Text.afterSpaces (text trailing row)) =
      (unsigned? row).map fun (x, rest) => (x.text, text trailing rest) := by
  match row, h with
  | [], _ =>
    rw [afterSpaces_text_nil]
    rfl
  | ⟨gap, .operator op⟩ :: row, _ =>
    rw [(spaces_text trailing gap (Mark.fits_operator op) row).2]
    simp [unsigned?, unsigned?_of_stops (stops_symbol op _)]
  | ⟨gap, .word w⟩ :: row, h =>
    obtain ⟨-, hw, hv⟩ := (valid_word_cons _ _ _ _).1 h
    rw [(spaces_text trailing gap ((Mark.fits_word _).2 hw) row).2, Mark.text_word]
    by_cases hu : IsDecimal w ∨ IsFraction w
    · simp [unsigned?, (isUnsigned_iff w).2 hu, unsigned?_append hu (stops_text trailing hv)]
    · have hn : isUnsigned w = false := by
        rw [Bool.eq_false_iff]
        exact fun hn => hu ((isUnsigned_iff w).1 hn)
      have hs : Stops (w ++ text trailing row) := by
        rcases hw with hw | hw | rfl | rfl
        · exact absurd (.inl hw) hu
        · exact absurd (.inr hw) hu
        · exact (stops_cons _ _).2 (by decide)
        · exact (stops_cons _ _).2 (by decide)
      simp [unsigned?, hn, unsigned?_of_stops hs]

/-- The operand in front of a row's text, spaces aside, is the operand in front of the row. -/
theorem signed?_text (h : Valid afterWord row) :
    Literal.signed? (Text.afterSpaces (text trailing row)) =
      (signed? row).map fun (x, rest) => (x.text, text trailing rest) := by
  simp only [Literal.signed?, signed?, negative?_text trailing h, unsigned?_text trailing h]
  cases negative? row <;> simp

end Row

end Reckoner
