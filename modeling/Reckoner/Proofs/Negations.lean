import Reckoner.Proofs.Facing
import Reckoner.Proofs.Meaning

/-!
# Negating a variable

A minus sign in front of a variable negates it, unless the variable is negative and something is
added to it or subtracted from it: the two minus signs are then taken for the sign of the sum.
-/

namespace Reckoner

open Literal

/-- Two texts are read as equal numbers; the sign of zero does not matter. -/
def SameNumber (s t : Text) : Prop :=
  ∃ v w, leadingNumber? s = some v ∧ leadingNumber? t = some w ∧ (v == w) = true

/-- Whether a plus or a minus sign follows an operand, spaces aside; `afterOperand` tells whether an
operand stands in front. -/
def hasSum : (afterOperand : Bool) → Text → Bool
  | _, [] => false
  | afterOperand, c :: t =>
    if c = ' ' then hasSum afterOperand t
    else match Operator.ofChar? c with
      | some op => afterOperand && decide (op ∈ Operator.additive) || hasSum false t
      | none => hasSum true t

theorem hasSum_spaces (afterOperand : Bool) (n : Nat) (t : Text) :
    hasSum afterOperand (List.replicate n ' ' ++ t) = hasSum afterOperand t := by
  induction n with
  | zero => rfl
  | succ n ih => simpa [List.replicate_succ, hasSum] using ih

theorem hasSum_word {w : Text} (hw : IsWord w) (afterOperand : Bool) (t : Text) :
    hasSum afterOperand (w ++ t) = hasSum true t := by
  refine hw.scan (fun afterOperand c t hc => ?_) afterOperand t
  have hop : Operator.ofChar? c = none := by
    simpa [isOperatorChar] using isOperatorChar_of_isWordChar hc
  rw [hasSum, if_neg (isWordChar_ne_space hc), hop]

/-- Where a text has no sum, its row has none. -/
theorem Row.multiplies_of_hasSum (trailing : Nat) {afterWord : Bool} {row : Row}
    (hv : Row.Valid afterWord row) (h : hasSum afterWord (Row.text trailing row) = false) :
    Row.Multiplies afterWord row := by
  induction row generalizing afterWord with
  | nil => trivial
  | cons item row ih =>
    obtain ⟨gap, mark⟩ := item
    rw [Row.text_cons, hasSum_spaces] at h
    cases mark with
    | operator op =>
      have hop : op.symbol ≠ ' ' := (symbol_facts op).2.2
      rw [Mark.text_operator, List.singleton_append, hasSum, if_neg hop, Operator.ofChar?_symbol] at h
      simp only [Bool.or_eq_false_iff, Bool.and_eq_false_iff, decide_eq_false_iff_not] at h
      refine ⟨?_, ih ((Row.valid_operator_cons _ _ _ _).1 hv) h.2⟩
      intro hafter
      rcases h.1 with hno | hno
      · rw [hno] at hafter
        cases hafter
      · cases op <;> simp [Operator.additive, Operator.multiplicative] at hno ⊢
    | word w =>
      obtain ⟨-, hw, hrest⟩ := (Row.valid_word_cons _ _ _ _).1 hv
      rw [Mark.text_word, hasSum_word hw] at h
      exact ih hrest h

/-- A result is read as a number, with the sign that it is written with. -/
theorem leadingNumber?_of_isResult {t : Text} (h : isResult t = true) :
    ∃ negative m, m ≤ Binary64.infinity ∧
      leadingNumber? t = some (Binary64.ofMagnitude negative m) := by
  have hpart : ∀ u, (u = "Infinity".toList ∨ IsDecimal u ∨ IsFraction u) →
      ∃ m, m ≤ Binary64.infinity ∧ leadingNumber? u = some (Binary64.ofMagnitude false m) ∧
        leadingNumber? ('-' :: u) = some (Binary64.ofMagnitude true m) := by
    rintro u (rfl | hu)
    · exact ⟨Binary64.infinity, Nat.le_refl _, rfl, rfl⟩
    · obtain ⟨d, h1, h2⟩ := leadingNumber?_of_literal hu
      exact ⟨d.nearest, d.nearest_le_infinity, h1, h2⟩
  simp only [isResult, Bool.or_eq_true, beq_iff_eq, isUnsigned_iff] at h
  obtain ⟨m, hm, h1, h2⟩ := hpart _ h
  unfold unsignedPart at h1 h2
  split at h1
  · exact ⟨true, m, hm, h2⟩
  · exact ⟨false, m, hm, h1⟩

theorem sameNumber_iff (s t : Text) : SameNumber s t ↔
    ((leadingNumber? s).any fun v => (leadingNumber? t).any fun w => v == w) = true := by
  simp only [SameNumber, Option.any_eq_true, exists_and_left]

theorem sameNumber_self {t : Text} (h : isResult t = true) : SameNumber t t := by
  obtain ⟨negative, m, hm, hv⟩ := leadingNumber?_of_isResult h
  exact ⟨_, _, hv, hv, Binary64.beq_ofMagnitude_self negative hm⟩

theorem sameNumber_zero : SameNumber ['-', '0'] ['0'] :=
  ⟨Binary64.ofMagnitude true 0, Binary64.ofMagnitude false 0, rfl, rfl,
    Binary64.zero_beq true false (Nat.zero_le _)⟩

/-- A spoilt text has no value. -/
theorem IsSpoilt.not_result {d : Text} (h : IsSpoilt d) :
    Text.trim d ≠ [] ∧ isResult (Text.trim d) = false := by
  have hno : ∀ c t, c.isDigit = false → c ≠ '.' → c ≠ 'I' → isResult ('-' :: c :: t) = false := by
    intro c t hdigit hpoint hletter
    rw [Bool.eq_false_iff]
    intro hr
    simp only [isResult, unsignedPart, Bool.or_eq_true, beq_iff_eq, isUnsigned_iff] at hr
    rcases hr with hr | hr
    · exact hletter (List.cons.inj hr).1
    · apply not_stops_literal_append hr []
      rw [List.append_nil, stops_cons]
      exact ⟨hdigit, hpoint⟩
  have htrim : ∀ c t, Text.isBlank c = false → c.isDigit = false → c ≠ '.' → c ≠ 'I' →
      Text.trim ('-' :: c :: t) ≠ [] ∧ isResult (Text.trim ('-' :: c :: t)) = false := by
    intro c t hblank hdigit hpoint hletter
    have hend : Text.trimEnd (c :: t) = c :: Text.trimEnd t := by
      have := trim_cons hblank t
      rwa [Text.trim, Text.trimStart, List.dropWhile_cons_of_neg (by simp [hblank])] at this
    rw [trim_cons (by decide), hend]
    exact ⟨by simp, hno c _ hdigit hpoint hletter⟩
  obtain ⟨front, trailing, row, hfront, -, rfl⟩ := h
  rcases hfront with rfl | rfl
  · simp only [List.cons_append, List.nil_append, Row.text_cons, Mark.text_operator, Mark.text_word]
    exact htrim 'N' _ (by decide) (by decide) (by decide) (by decide)
  · simp only [List.cons_append, List.nil_append, Row.text_cons, Mark.text_operator, Mark.text_word]
    exact htrim '-' _ (by decide) (by decide) (by decide) (by decide)

/-- A text that begins with a word and is settled on every level is that word. -/
theorem Row.eq_nil_of_isSettled (trailing : Nat) {w : Text} {row : Row} (hw : IsWord w)
    (hv : Row.Valid true row)
    (hm : operatorCount Operator.multiplicative (w ++ Row.text trailing row) = 0)
    (hs : IsSettled Operator.additive (w ++ Row.text trailing row)) : row = [] := by
  have htext : w ++ Row.text trailing row = Row.text trailing (⟨0, .word w⟩ :: row) := by simp
  have hvalid : Row.Valid false (⟨0, .word w⟩ :: row) := by simp [hw, hv]
  have hops := operatorsIn_eq (w ++ Row.text trailing row)
  rw [hm, Nat.zero_add] at hops
  by_cases h0 : operatorsIn (w ++ Row.text trailing row) = 0
  · rw [htext] at h0
    rcases Row.eq_word_of_no_operators hvalid h0 with hnil | ⟨gap, v, -, he⟩
    · cases hnil
    · exact (List.cons.inj he).2
  · have hcount : negativeCount (w ++ Row.text trailing row) =
        operatorsIn (w ++ Row.text trailing row) := by
      rcases hs with hzero | ⟨-, hcount⟩
      · omega
      · omega
    obtain ⟨-, v, rest, -, he⟩ := literal_of_negativeCount hcount h0
    obtain ⟨c, r, rfl, -, hc⟩ := hw.head
    exact absurd (List.cons.inj he).1 (ne_minus_of_not_operator hc)

/-- Where only products were to be carried out and none is left, nothing is left. -/
theorem Row.Multiplies.eq_nil (trailing : Nat) {row : Row} (h : Row.Multiplies true row)
    (hv : Row.Valid true row)
    (hm : operatorCount Operator.multiplicative (Row.text trailing row) = 0) : row = [] := by
  match row, h, hv with
  | [], _, _ => rfl
  | ⟨gap, .operator op⟩ :: row, h, _ =>
    rw [Row.text_cons, operatorCount_append, Mark.text_operator, List.singleton_append,
      operatorCount_symbol_cons, if_pos (h.1 rfl)] at hm
    omega
  | ⟨gap, .word w⟩ :: row, _, hv => simp at hv

/-- The sums make the same number of facing texts that begin with zero. -/
theorem sameNumber_of_zero (trailing : Nat) {row : Row} {d e : Text} (hv : Row.Valid true row)
    (hd : reduce Operator.additive ('-' :: '0' :: Row.text trailing row) = .ok d)
    (he : reduce Operator.additive ('0' :: Row.text trailing row) = .ok e)
    (hcount : operatorCount Operator.multiplicative ('0' :: Row.text trailing row) = 0)
    (hresult : isResult (Text.trim d) = true) : SameNumber (Text.trim d) (Text.trim e) := by
  rcases reduce_zero trailing hv hd he with rfl | ⟨next, hn, rfl, rfl, hsettled⟩
  · exact sameNumber_self hresult
  have hle := @operatorCount_le_of_reduce _ Operator.multiplicative _ _ (by decide) he
  have hnext : operatorCount Operator.multiplicative (['0'] ++ Row.text trailing next) = 0 := by
    rw [List.singleton_append]
    omega
  obtain rfl := Row.eq_nil_of_isSettled trailing (.inl isDecimal_zero) hn hnext hsettled
  have h1 := trim_minus_word trailing (.inl isDecimal_zero)
  have h2 := trim_word 0 trailing (.inl isDecimal_zero)
  simp only [List.replicate_zero, List.nil_append, List.singleton_append] at h1 h2
  rw [Row.text_nil, h1, h2]
  exact sameNumber_zero

/-- The sums make the same number of a literal and of its double negation. -/
theorem sameNumber_of_doubled (trailing : Nat) {x d e : Text} (hx : IsDecimal x)
    (hd : reduce Operator.additive ('-' :: '-' :: (x ++ List.replicate trailing ' ')) = .ok d)
    (he : reduce Operator.additive (x ++ List.replicate trailing ' ') = .ok e) :
    SameNumber (Text.trim d) (Text.trim e) := by
  obtain rfl := reduce_doubled trailing hx hd
  have hword : IsWord d := .inl hx
  have hcount : operatorCount Operator.additive (d ++ List.replicate trailing ' ') = 0 := by
    rw [operatorCount_append, operatorCount_eq_zero _ hword.not_operator, operatorCount_spaces]
  simp only [reduce, hcount, if_true] at he
  obtain rfl := Except.ok.inj he
  have htrim := trim_word 0 trailing hword
  rw [List.replicate_zero, List.nil_append] at htrim
  rw [hword.trim, htrim]
  exact sameNumber_self (isResult_of_unsigned (.inl hx))

/-- Facing texts have the same value. -/
theorem Facing.sameNumber {a b r s : Text} (h : Facing a b) (ha : evaluateFlat a = .ok r)
    (hb : evaluateFlat b = .ok s) (hr : r ≠ []) : SameNumber r s := by
  obtain ⟨u, d, hu, hd, rfl, hresult⟩ := evaluateFlat_eq_ok ha
  obtain ⟨w, e, hw, he, rfl, -⟩ := evaluateFlat_eq_ok hb
  have hresult := hresult.resolve_left hr
  have hcount := operatorCount_of_reduce hw
  rcases h.reduce hu hw with hface | hspoilt
  · cases hface with
    | same =>
      obtain rfl : d = e := Except.ok.inj (hd.symm.trans he)
      exact sameNumber_self hresult
    | zero trailing hv => exact sameNumber_of_zero trailing hv hd he hcount hresult
    | doubled trailing hx hv hm =>
      rw [operatorCount_append] at hcount
      obtain rfl := hm.eq_nil trailing hv (by omega)
      exact sameNumber_of_doubled trailing hx hd he
  · have hno := (hspoilt.reduce hd).not_result
    rw [hno.2] at hresult
    cases hresult

end Reckoner
