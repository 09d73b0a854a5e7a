import Reckoner.Proofs.Rounds

/-!
# What is left of a row

Reduced on every level, a row is blank or one word, which may have a minus sign in front. So a row
has a value unless an operation fails or the word left is no number.
-/

namespace Reckoner

open Literal
open Operator (Level)

theorem isBlank_of_isWordChar {c : Char} (h : isWordChar c = true) : Text.isBlank c = false := by
  have hrange : 46 ≤ c.toNat ∧ c.toNat ≤ 122 := by
    simp only [isWordChar, Bool.or_eq_true, beq_iff_eq, Char.isDigit, Char.isAlpha, Char.isUpper,
      Char.isLower, Bool.and_eq_true, decide_eq_true_eq, ge_iff_le, UInt32.le_iff_toNat_le] at h
    have hn : c.toNat = c.val.toNat := rfl
    rw [hn]
    rcases h with (h | rfl) | h
    · simp at h
      omega
    · decide
    · simp at h
      omega
  simp only [Text.isBlank, Text.blankRanges, List.any_cons, List.any_nil, Bool.or_false,
    Bool.or_eq_false_iff, Bool.and_eq_false_iff, decide_eq_false_iff_not]
  omega

theorem isBlank_spaces (n : Nat) : ∀ c ∈ List.replicate n ' ', Text.isBlank c = true := by
  intro c hc
  obtain ⟨-, rfl⟩ := List.mem_replicate.1 hc
  decide

/-- Trimming takes the spaces in front. -/
theorem trim_spaces_append (n : Nat) (t : Text) :
    Text.trim (List.replicate n ' ' ++ t) = Text.trim t := by
  rw [Text.trim, Text.trimStart, List.dropWhile_append_of_pos (isBlank_spaces n), Text.trim,
    Text.trimStart]

/-- Trimming takes the spaces at the end. -/
theorem trim_append_spaces (n : Nat) (t : Text) :
    Text.trim (t ++ List.replicate n ' ') = Text.trim t := by
  have hend : ∀ s, Text.trimEnd (s ++ List.replicate n ' ') = Text.trimEnd s := by
    intro s
    rw [Text.trimEnd, List.reverse_append, List.reverse_replicate,
      List.dropWhile_append_of_pos (isBlank_spaces n), Text.trimEnd]
  rw [Text.trim, Text.trim, Text.trimStart, Text.trimStart, List.dropWhile_append]
  cases hs : t.dropWhile Text.isBlank with
  | nil => simp [List.dropWhile_eq_nil_iff.2 (isBlank_spaces n)]
  | cons c s => exact hend (c :: s)

theorem trim_of_not_blank {t : Text} (h : ∀ c ∈ t, Text.isBlank c = false) : Text.trim t = t := by
  have hstart : Text.trimStart t = t := by
    cases t with
    | nil => rfl
    | cons c t => simp [Text.trimStart, h c (by simp)]
  have hend : t.reverse.dropWhile Text.isBlank = t.reverse := by
    cases hr : t.reverse with
    | nil => rfl
    | cons c r => simp [h c (List.mem_reverse.1 (by rw [hr]; simp))]
  rw [Text.trim, hstart, Text.trimEnd, hend, List.reverse_reverse]

theorem trim_cons {c : Char} (h : Text.isBlank c = false) (t : Text) :
    Text.trim (c :: t) = c :: Text.trimEnd t := by
  rw [Text.trim, Text.trimStart, List.dropWhile_cons_of_neg (by simp [h])]
  rw [Text.trimEnd, Text.trimEnd, List.reverse_cons, List.dropWhile_append]
  split
  · next hall =>
    have : t.reverse.dropWhile Text.isBlank = [] := List.isEmpty_iff.1 hall
    simp [this, h]
  · simp

theorem trimEnd_append {t : Text} (h : ∀ c ∈ t, Text.isBlank c = false) (hne : t ≠ [])
    (s : Text) : Text.trimEnd (s ++ t) = s ++ t := by
  obtain ⟨u, c, rfl⟩ := (List.eq_nil_or_concat' t).resolve_left hne
  have hc : Text.isBlank c = false := h c (by simp)
  rw [Text.trimEnd, ← List.append_assoc, List.reverse_append, List.reverse_singleton,
    List.singleton_append, List.dropWhile_cons_of_neg (by simp [hc]), List.reverse_cons,
    List.reverse_reverse]

theorem trim_spaces (n : Nat) : Text.trim (List.replicate n ' ') = [] :=
  trim_append_spaces n []

/-- What the levels leave of a row: nothing, a word, or a literal with a minus sign in front. -/
def IsReduced (t : Text) : Prop :=
  t = [] ∨ IsWord t ∨ ∃ w, (IsDecimal w ∨ IsFraction w) ∧ t = '-' :: w

theorem trim_word (m n : Nat) {w : Text} (h : IsWord w) :
    Text.trim (List.replicate m ' ' ++ (w ++ List.replicate n ' ')) = w := by
  rw [trim_spaces_append, trim_append_spaces]
  exact trim_of_not_blank fun c hc => isBlank_of_isWordChar (h.all_isWordChar c hc)

theorem IsWord.trim {w : Text} (h : IsWord w) : Text.trim w = w := by
  simpa using trim_word 0 0 h

theorem trim_minus_word (n : Nat) {w : Text} (h : IsWord w) :
    Text.trim ('-' :: (w ++ List.replicate n ' ')) = '-' :: w := by
  rw [← List.cons_append, trim_append_spaces]
  apply trim_of_not_blank
  intro c hc
  rcases List.mem_cons.1 hc with rfl | hc
  · decide
  · exact isBlank_of_isWordChar (h.all_isWordChar c hc)

namespace Row

theorem operatorsIn_text_cons (trailing gap : Nat) (mark : Mark) (row : Row) :
    operatorsIn (text trailing (⟨gap, mark⟩ :: row)) =
      operatorsIn mark.text + operatorsIn (text trailing row) := by
  rw [text_cons, operatorsIn_append, operatorsIn_append, operatorsIn_spaces]
  omega

/-- A row without operators is empty or one word. -/
theorem eq_word_of_no_operators {afterWord : Bool} {row : Row} {trailing : Nat}
    (hv : Valid afterWord row) (h : operatorsIn (text trailing row) = 0) :
    row = [] ∨ ∃ gap w, IsWord w ∧ row = [⟨gap, .word w⟩] := by
  have hop : ∀ gap op rest, operatorsIn (text trailing (⟨gap, .operator op⟩ :: rest)) ≠ 0 := by
    intro gap op rest
    have := operatorsIn_symbol_cons op []
    rw [operatorsIn_text_cons, Mark.text_operator, this]
    omega
  match row, hv with
  | [], _ => exact .inl rfl
  | ⟨gap, .operator op⟩ :: rest, _ => exact absurd h (hop gap op rest)
  | ⟨gap, .word w⟩ :: rest, hv =>
    obtain ⟨-, hw, hv⟩ := (valid_word_cons _ _ _ _).1 hv
    match rest, hv with
    | [], _ => exact .inr ⟨gap, w, hw, rfl⟩
    | ⟨g, .operator op⟩ :: rest, _ =>
      rw [operatorsIn_text_cons] at h
      exact absurd h (by have := hop g op rest; omega)
    | ⟨g, .word v⟩ :: rest, hv => simp at hv

/-- A text that does not begin with a space begins with the first mark of its row. -/
theorem exists_mark {row : Row} {trailing : Nat} {c : Char} {t : Text} (hc : c ≠ ' ')
    (h : text trailing row = c :: t) :
    ∃ mark rest, row = ⟨0, mark⟩ :: rest ∧ mark.text ++ text trailing rest = c :: t := by
  have hspace : ∀ {n s}, List.replicate (n + 1) ' ' ++ s ≠ c :: t := by
    intro n s he
    rw [List.replicate_succ] at he
    exact hc (List.cons.inj he).1.symm
  match row with
  | [] =>
    cases trailing with
    | zero => simp at h
    | succ n => exact absurd (by simpa using h) (@hspace n [])
  | ⟨0, mark⟩ :: rest => exact ⟨mark, rest, rfl, by simpa using h⟩
  | ⟨gap + 1, mark⟩ :: rest => exact absurd h hspace

/-- A word that begins with a digit or a point is a literal. -/
theorem literal_of_head {w r : Text} {c : Char} (h : IsWord w) (he : w = c :: r)
    (hc : c.isDigit = true ∨ c = '.') : IsDecimal w ∨ IsFraction w := by
  have hletter : ∀ {a : Char} {s : Text}, a :: s = c :: r → a.isDigit = false → a = '.' := by
    intro a s he ha
    obtain rfl := (List.cons.inj he).1
    exact hc.resolve_left (by simp [ha])
  rcases h with h | h | rfl | rfl
  · exact .inl h
  · exact .inr h
  · exact absurd (hletter he (by decide)) (by decide)
  · exact absurd (hletter he (by decide)) (by decide)

/-- A row that begins with its only operator, a minus sign right in front of a literal, is a
negative literal. -/
theorem eq_minus_of_literal {row : Row} {trailing : Nat} {w rest : Text} (hv : Valid false row)
    (hw : IsDecimal w ∨ IsFraction w) (ht : text trailing row = '-' :: (w ++ rest))
    (h : operatorsIn (text trailing row) = 1) :
    ∃ v, (IsDecimal v ∨ IsFraction v) ∧ row = [⟨0, .operator .minus⟩, ⟨0, .word v⟩] := by
  obtain ⟨c, r, rfl, hc⟩ := unsignedLiteral_head hw
  have hspace : c ≠ ' ' := by
    rintro rfl
    rcases hc with hc | hc <;> exact absurd hc (by decide)
  obtain ⟨mark, row, rfl, hmark⟩ := exists_mark (by decide) ht
  cases mark with
  | word v =>
    obtain ⟨a, u, rfl, -, ha⟩ := ((valid_word_cons _ _ _ _).1 hv).2.1.head
    obtain rfl : a = '-' := (List.cons.inj hmark).1
    exact absurd ha (by decide)
  | operator op =>
    obtain ⟨hop, htail⟩ : op.symbol = '-' ∧ text trailing row = c :: (r ++ rest) := by
      simpa using hmark
    have hminus : op = .minus := by
      cases op <;> simp [Operator.symbol] at hop ⊢
    have hnone : operatorsIn (text trailing row) = 0 := by
      have := operatorsIn_symbol_cons op []
      rw [operatorsIn_text_cons, Mark.text_operator, this] at h
      simpa using h
    obtain ⟨mark, row, rfl, hhead⟩ := exists_mark hspace htail
    rcases eq_word_of_no_operators ((valid_operator_cons _ _ _ _).1 hv) hnone with
      hnil | ⟨gap, v, hword, hrow⟩
    · cases hnil
    · obtain ⟨⟨-, rfl⟩, rfl⟩ : (0 = gap ∧ mark = .word v) ∧ row = [] := by simpa using hrow
      obtain ⟨a, u, rfl, -⟩ := hword.head
      obtain rfl : a = c := (List.cons.inj hhead).1
      exact ⟨_, literal_of_head hword rfl hc, by rw [hminus]⟩

end Row

/-- A text whose operators are all signs has at most one, in front of the literal that opens it. -/
theorem literal_of_negativeCount {t : Text} (h : negativeCount t = operatorsIn t)
    (hne : operatorsIn t ≠ 0) : operatorsIn t = 1 ∧
      ∃ w rest, (IsDecimal w ∨ IsFraction w) ∧ t = '-' :: (w ++ rest) := by
  have hone : operatorsIn t = 1 := by
    have := two_mul_negativeCountFrom_le true t
    rw [negativeCount] at h
    simp only [h, if_true] at this
    omega
  refine ⟨hone, ?_⟩
  cases t with
  | nil => simp at hone
  | cons c t =>
    have hrest : negativeCountFrom false 0 t = 0 := by
      have hle := two_mul_negativeCountFrom_le false t
      have hstep : operatorsIn t ≤ operatorsIn (c :: t) := by
        simp [operatorsIn, List.countP_cons]
      simp only [Bool.false_eq_true, if_false] at hle
      omega
    cases hn : negativeLiteral? true (c :: t) with
    | none =>
      rw [negativeCount, negativeCountFrom_of_none hn] at h
      omega
    | some number =>
      rcases Option.or_eq_some_iff.1 hn with hm | ⟨-, hm⟩
      · simp only [if_true] at hm
        obtain ⟨w, rest, hw, rfl, ht⟩ := minusLiteral?_spec hm
        exact ⟨w, rest, hw, ht⟩
      · obtain ⟨op, n, w, rest, -, rfl, ht⟩ := operatorMinusLiteral?_spec hm
        have hminus := operatorsIn_symbol_cons .minus w
        rw [show Operator.minus.symbol = '-' from rfl] at hminus
        rw [ht] at hone
        simp only [operatorsIn_append, operatorsIn_symbol_cons, hminus] at hone
        omega

/-- A row that no operation is left in is at most one word, which may have a minus sign. -/
theorem Row.isReduced_of_isSettled {trailing : Nat} {row : Row} (hv : Valid false row)
    (hmult : operatorCount Operator.multiplicative (text trailing row) = 0)
    (hadd : IsSettled Operator.additive (text trailing row)) :
    IsReduced (Text.trim (text trailing row)) := by
  have hops := operatorsIn_eq (text trailing row)
  rw [hmult, Nat.zero_add] at hops
  by_cases hne : operatorsIn (text trailing row) = 0
  · rcases eq_word_of_no_operators hv hne with rfl | ⟨gap, w, hw, rfl⟩
    · exact .inl (trim_spaces trailing)
    · rw [text_cons, Mark.text_word, text_nil, trim_word gap trailing hw]
      exact .inr (.inl hw)
  · have hcount : negativeCount (text trailing row) = operatorsIn (text trailing row) := by
      rcases hadd with h0 | ⟨-, hcount⟩
      · exact absurd (hops.trans h0) hne
      · exact hcount.trans hops.symm
    obtain ⟨hone, w, rest, hw, htext⟩ := literal_of_negativeCount hcount hne
    obtain ⟨v, hv', rfl⟩ := eq_minus_of_literal hv hw htext hone
    refine .inr (.inr ⟨v, hv', ?_⟩)
    have := trim_minus_word trailing (isWord_of_unsigned hv')
    simpa [Operator.symbol] using this

/-- Reduced on every level, a row is at most one word, which may have a minus sign. -/
theorem isReduced_of_reduceAll {t d : Text} (ht : IsRow t) (h : reduceAll t = .ok d) :
    IsReduced (Text.trim d) := by
  rw [reduceAll_eq] at h
  cases hm : reduce Operator.multiplicative t with
  | error fault => simp [hm] at h
  | ok s =>
    rw [hm] at h
    have hle := @operatorCount_le_of_reduce _ Operator.multiplicative _ _ (by decide) h
    rw [operatorCount_of_reduce hm] at hle
    obtain ⟨⟨trailing, row, hv, rfl⟩, hadd⟩ := isRow_of_reduce (isRow_of_reduce ht hm).1 h
    exact Row.isReduced_of_isSettled hv (Nat.le_zero.1 hle) hadd

theorem not_ok_of_error {e : Except Fault Text} {r : Text} (h : ∃ fault, e = .error fault) :
    e ≠ .ok r := by
  obtain ⟨fault, rfl⟩ := h
  simp

def IsFlatFault (fault : Fault) : Prop :=
  fault = .divisionByZero ∨ fault = .operatorPlacement ∨ fault = .notANumber "NaN".toList

theorem isSigned_of_isResult {t : Text} (h : isResult t = true) : IsSigned IsWord t := by
  have hpart : IsWord (unsignedPart t) := by
    simp only [isResult, Bool.or_eq_true, beq_iff_eq, isUnsigned_iff] at h
    rcases h with h | h
    · exact .inr (.inr (.inl h))
    · exact isWord_of_unsigned h
  unfold unsignedPart at hpart
  split at hpart
  · exact .inr ⟨_, rfl, hpart⟩
  · exact .inl hpart

theorem evaluateFlat_ok {t r : Text} (h : evaluateFlat t = .ok r) : r = [] ∨ isResult r = true := by
  unfold evaluateFlat at h
  split at h
  · simp at h
  · next reduced _ =>
    dsimp only at h
    split at h
    · next hr =>
      obtain rfl : Text.trim reduced = r := by simpa using h
      simpa using hr
    · simp at h

theorem evaluateFlat_eq_ok {t r : Text} (h : evaluateFlat t = .ok r) :
    ∃ s d, reduce Operator.multiplicative t = .ok s ∧ reduce Operator.additive s = .ok d ∧
      r = Text.trim d ∧ (r = [] ∨ isResult r = true) := by
  have hresult := evaluateFlat_ok h
  rw [evaluateFlat, reduceAll_eq] at h
  cases hm : reduce Operator.multiplicative t with
  | error fault => simp [hm] at h
  | ok s =>
    cases ha : reduce Operator.additive s with
    | error fault => simp [hm, ha] at h
    | ok d =>
      simp only [hm, ha] at h
      split at h
      · exact ⟨s, d, rfl, ha, (Except.ok.inj h).symm, hresult⟩
      · simp at h

theorem unsignedPart_of_isWord {w : Text} (h : IsWord w) : unsignedPart w = w := by
  obtain ⟨c, r, rfl, -, hc⟩ := h.head
  unfold unsignedPart
  split
  · next he =>
    obtain ⟨rfl, -⟩ := List.cons.inj he
    exact absurd rfl (ne_minus_of_not_operator hc)
  · rfl

theorem isResult_of_unsigned {w : Text} (h : IsDecimal w ∨ IsFraction w) : isResult w = true := by
  simp [isResult, unsignedPart_of_isWord (isWord_of_unsigned h), (isUnsigned_iff w).2 h]

theorem isResult_minus {w : Text} (h : IsDecimal w ∨ IsFraction w) :
    isResult ('-' :: w) = true := by
  simp [isResult, unsignedPart, (isUnsigned_iff w).2 h]

/-- Of the texts that are no numbers only one can be left of a row. -/
theorem evaluateFlat_error {t : Text} {fault : Fault} (ht : IsRow t)
    (h : evaluateFlat t = .error fault) : IsFlatFault fault := by
  unfold evaluateFlat at h
  split at h
  · next f hf =>
    obtain rfl : f = fault := by simpa using h
    rcases reduceAll_error hf with rfl | rfl
    · exact .inl rfl
    · exact .inr (.inl rfl)
  · next reduced hr =>
    dsimp only at h
    split at h
    · simp at h
    · next hno =>
      obtain rfl : Fault.notANumber (Text.trim reduced) = fault := by simpa using h
      simp only [Bool.or_eq_true, List.isEmpty_iff, not_or] at hno
      rcases isReduced_of_reduceAll ht hr with he | hw | ⟨w, hw, he⟩
      · exact absurd he hno.1
      · have hpart := unsignedPart_of_isWord hw
        rw [isResult, hpart] at hno
        simp only [Bool.or_eq_true, beq_iff_eq, isUnsigned_iff, not_or] at hno
        rcases hw with hw | hw | hw | hw
        · exact absurd hw hno.2.2.1
        · exact absurd hw hno.2.2.2
        · exact absurd hw hno.2.1
        · exact .inr (.inr (by rw [hw]))
      · rw [he] at hno
        exact absurd (isResult_minus hw) hno.2

end Reckoner
