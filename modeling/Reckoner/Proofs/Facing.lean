import Reckoner.Proofs.Fronts
import Reckoner.Proofs.NormalForms

/-!
# Texts beside each other

Two texts face each other when the first has a minus sign in front of an operand and the second has
the negative of that operand. A round leaves facing texts facing, because it finds the same
operation in both; only a name that is not finite behind the sign spoils the first text for good.
-/

namespace Reckoner

open Literal
open Operator (Level)

/-- A minus sign in front of an operand, and the negative of the operand in its place. Where two
minus signs meet, nothing may be added to the operand. -/
inductive Facing : Text → Text → Prop where
  | same (t : Text) : Facing t t
  | zero (trailing : Nat) {row : Row} (valid : Row.Valid true row) :
    Facing ('-' :: '0' :: Row.text trailing row) ('0' :: Row.text trailing row)
  | doubled (trailing : Nat) {d : Text} {row : Row} (fits : IsDecimal d)
    (valid : Row.Valid true row) (multiplies : Row.Multiplies true row) :
    Facing ('-' :: '-' :: (d ++ Row.text trailing row)) (d ++ Row.text trailing row)

/-- A text that begins with minus signs in front of the name of a value that is not finite. -/
def IsSpoilt (t : Text) : Prop :=
  ∃ front trailing row, Row.IsStuck front ∧ Row.Valid true row ∧ t = Row.text trailing (front ++ row)

variable {level : Level}

/-- A spoilt text stays spoilt. -/
theorem IsSpoilt.round {t : Text} (h : IsSpoilt t) :
    (∃ fault, round level t = .error fault) ∨
      ∃ contracted u, IsSpoilt u ∧ round level t = settle level contracted u := by
  obtain ⟨front, trailing, row, hfront, hv, rfl⟩ := h
  have hvalid := (Row.valid_stuck_append hfront row).2 hv
  rw [Row.round_text trailing hvalid, Row.site?_stuck_append hfront]
  cases hs : Row.site? level false row with
  | none => exact .inr ⟨false, _, ⟨front, trailing, row, hfront, hv, rfl⟩, rfl⟩
  | some s =>
    simp only [Option.map_some, Site.behind, Site.outcome]
    cases calculate s.left.text s.operator s.right.text with
    | error fault => exact .inl ⟨fault, rfl⟩
    | ok v =>
      have hnext := hv.replace (by simp) hs v
      exact .inr ⟨true, _, ⟨front, trailing, s.replace v, hfront, hnext, rfl⟩,
        by simp [Site.replace]⟩

theorem IsSpoilt.doubleNegated? {t : Text} (h : IsSpoilt t) : doubleNegated? t = none := by
  obtain ⟨front, trailing, row, hfront, -, rfl⟩ := h
  rw [Option.eq_none_iff_forall_ne_some]
  intro w hw
  obtain ⟨hliteral, n, he⟩ := doubleNegated?_eq_some_iff.1 hw
  obtain ⟨c, r, rfl, hc⟩ := unsignedLiteral_head hliteral
  rcases hfront with rfl | rfl
  · cases n <;> simp [Operator.symbol, List.replicate_succ] at he
  · cases n with
    | zero =>
      obtain ⟨rfl, -⟩ : 'I' = c ∧ _ := by simpa [Operator.symbol] using he
      rcases hc with hc | hc <;> exact absurd hc (by decide)
    | succ n => simp [Operator.symbol, List.replicate_succ] at he

theorem IsSpoilt.reduce {t d : Text} (h : IsSpoilt t) (hd : reduce level t = .ok d) :
    IsSpoilt d :=
  reduce_invariant_of_settle IsSpoilt.doubleNegated? IsSpoilt.round h hd

/-- The texts of opposite values leave facing texts. -/
theorem facing_of_finite (negative : Bool) {m : Nat} (h : m < Binary64.infinity) (trailing : Nat)
    {row : Row} (hv : Row.Valid true row) (hm : negative = true → m ≠ 0 → Row.Multiplies true row) :
    Facing ('-' :: (render (Binary64.ofMagnitude negative m) ++ Row.text trailing row))
      (render (Binary64.ofMagnitude (!negative) m) ++ Row.text trailing row) := by
  by_cases h0 : m = 0
  · subst h0
    rw [render_zero, render_zero]
    exact .zero trailing hv
  · rw [render_finite _ h h0, render_finite _ h h0]
    cases negative with
    | true => exact .doubled trailing (isDecimal_positional _) hv (hm rfl h0)
    | false => exact .same _

/-- Opposite results leave facing texts, or the first of them spoilt. -/
theorem facing_of_opposite {a b : Float} (h : Binary64.Opposite a b) (trailing : Nat) {row : Row}
    (hv : Row.Valid true row) (hm : Row.Multiplies true row) :
    Facing ('-' :: (render a ++ Row.text trailing row)) (render b ++ Row.text trailing row) ∨
      IsSpoilt ('-' :: (render a ++ Row.text trailing row)) := by
  cases h with
  | nan => exact .inr ⟨_, trailing, row, .inl rfl, hv, by simp [Operator.symbol]; rfl⟩
  | @signs negative m hle =>
    by_cases hi : m = Binary64.infinity
    · subst hi
      rw [render_infinity, render_infinity]
      cases negative with
      | true => exact .inr ⟨_, trailing, row, .inr rfl, hv, by simp [Operator.symbol, signText]⟩
      | false => exact .inl (.same _)
    · have hlt : m < Binary64.infinity := by omega
      exact .inl (facing_of_finite negative hlt trailing hv fun _ _ => hm)

/-- A round on a signed zero finds what a round on zero finds, and nothing else is left of the sign
once an operation has taken it. -/
theorem round_zero (trailing : Nat) {row : Row} (hv : Row.Valid true row) :
    round level ('-' :: '0' :: Row.text trailing row) = round level ('0' :: Row.text trailing row) ∨
      ∃ contracted next, Row.Valid true next ∧
        round level ('-' :: '0' :: Row.text trailing row) =
          settle level contracted ('-' :: '0' :: Row.text trailing next) ∧
        round level ('0' :: Row.text trailing row) =
          settle level contracted ('0' :: Row.text trailing next) := by
  have h1 := @Row.round_operand level trailing ['-', '0'] row isOperand_minus_zero hv
  have h2 := @Row.round_operand level trailing ['0'] row isOperand_zero hv
  simp only [List.cons_append, List.nil_append] at h1 h2
  rw [h1, h2]
  unfold Row.operandRound
  cases hc : Row.completion? level row with
  | some found =>
    obtain ⟨gap, op, right, after⟩ := found
    obtain ⟨rest, -, hs, -⟩ := Row.completion?_eq_some_iff.1 hc
    have hzero := calculate_zero op (Row.signed?_spec hs).2
    refine .inl ?_
    simp only
    cases ha : calculate ['-', '0'] op right.text with
    | error fault =>
      cases hb : calculate ['0'] op right.text with
      | error other =>
        rw [ha, hb] at hzero
        simpa [Except.map] using hzero
      | ok w => simp [ha, hb, Except.map] at hzero
    | ok v =>
      cases hb : calculate ['0'] op right.text with
      | error other => simp [ha, hb, Except.map] at hzero
      | ok w =>
        have hsame : render v = render w := by simpa [ha, hb, Except.map] using hzero
        simp only [hsame]
  | none =>
    cases hs : Row.site? level false row with
    | none => exact .inr ⟨false, row, hv, rfl, rfl⟩
    | some s =>
      simp only
      cases ho : s.outcome with
      | error fault => exact .inl rfl
      | ok v => exact .inr ⟨true, s.replace v, hv.replace (by simp) hs v, rfl, rfl⟩

/-- A round of products and quotients fails on the first text, or it leaves the texts facing, or the
first one spoilt. -/
def KeepsFacing (a b : Text) : Prop :=
  (∃ fault, round Operator.multiplicative a = .error fault) ∨
    ∃ contracted u, round Operator.multiplicative a =
        settle Operator.multiplicative contracted u ∧
      (IsSpoilt u ∨ ∃ w, Facing u w ∧
        round Operator.multiplicative b = settle Operator.multiplicative contracted w)

/-- Texts on which a round does the same keep facing. -/
theorem keepsFacing_of_eq {a b : Text}
    (h : round Operator.multiplicative a = round Operator.multiplicative b) : KeepsFacing a b := by
  rcases exists_settle Operator.multiplicative b with ⟨fault, hf⟩ | ⟨contracted, u, hu⟩
  · exact .inl ⟨fault, h.trans hf⟩
  · exact .inr ⟨contracted, u, h.trans hu, .inr ⟨u, .same u, hu⟩⟩

theorem keepsFacing_zero (trailing : Nat) {row : Row} (hv : Row.Valid true row) :
    KeepsFacing ('-' :: '0' :: Row.text trailing row) ('0' :: Row.text trailing row) := by
  rcases @round_zero Operator.multiplicative trailing _ hv with he | ⟨contracted, next, hn, h1, h2⟩
  · exact keepsFacing_of_eq he
  · exact .inr ⟨contracted, _, h1, .inr ⟨_, .zero trailing hn, h2⟩⟩

theorem keepsFacing_doubled (trailing : Nat) {d : Text} {row : Row} (hd : IsDecimal d)
    (hv : Row.Valid true row) (hm : Row.Multiplies true row) :
    KeepsFacing ('-' :: '-' :: (d ++ Row.text trailing row)) (d ++ Row.text trailing row) := by
  have h1 := @Row.round_doubled Operator.multiplicative trailing d row hd hv
  have h2 := @Row.round_operand Operator.multiplicative trailing d row (.inl (.inl hd)) hv
  unfold KeepsFacing
  rw [h1, h2]
  unfold Row.operandRound
  cases hc : Row.completion? Operator.multiplicative row with
  | some found =>
    -- The operation takes the operand behind the signs.
    obtain ⟨gap, op, right, after⟩ := found
    obtain ⟨rest, hop, hs, rfl⟩ := Row.completion?_eq_some_iff.1 hc
    obtain ⟨rfl, hright⟩ := Row.signed?_spec hs
    have hword := Row.isWord_of_isOperand hright
    have hafter : Row.Valid true after :=
      (Row.valid_signedItems_append hword _ _).1 ((Row.valid_operator_cons _ _ _ _).1 hv)
    have hmafter : Row.Multiplies true after :=
      (Row.multiplies_signedItems_append hword _ _).1 hm.2
    simp only
    rcases calculate_opposite hop hd hright with ⟨fault, hf⟩ | ⟨v, w, hvw, ha, hb⟩
    · exact .inl ⟨fault, by rw [hf]⟩
    · refine .inr ⟨true, '-' :: (render v ++ Row.text trailing after), by rw [ha]; rfl, ?_⟩
      rcases facing_of_opposite hvw trailing hafter hmafter with hface | hspoilt
      · exact .inr ⟨_, hface, by rw [hb]; rfl⟩
      · exact .inl hspoilt
  | none =>
    cases hs : Row.site? Operator.multiplicative false row with
    | none => exact .inr ⟨false, _, rfl, .inr ⟨_, .doubled trailing hd hv hm, rfl⟩⟩
    | some s =>
      simp only
      cases ho : s.outcome with
      | error fault => exact .inl ⟨fault, rfl⟩
      | ok v =>
        have hnext := hv.replace (by simp) hs v
        exact .inr ⟨true, _, rfl,
          .inr ⟨_, .doubled trailing hd hnext (hm.replace hv hs v), rfl⟩⟩

/-- A round of products and quotients leaves facing texts facing. -/
theorem Facing.round {a b : Text} (h : Facing a b) : KeepsFacing a b := by
  cases h with
  | same => exact keepsFacing_of_eq rfl
  | zero trailing hv => exact keepsFacing_zero trailing hv
  | doubled trailing hd hv hm => exact keepsFacing_doubled trailing hd hv hm

/-- Signs apart, facing texts have the same operators. -/
theorem Facing.operatorCount {a b : Text} (h : Facing a b) :
    operatorCount Operator.multiplicative a = operatorCount Operator.multiplicative b := by
  have hminus : ∀ t, Reckoner.operatorCount Operator.multiplicative ('-' :: t) =
      Reckoner.operatorCount Operator.multiplicative t := by
    intro t
    exact operatorCount_symbol_cons Operator.multiplicative .minus t
  cases h with
  | same => rfl
  | zero => rw [hminus]
  | doubled => rw [hminus, hminus]

/-- Products and quotients reduce facing texts to facing texts. -/
theorem Facing.reduce {a b u w : Text} (h : Facing a b)
    (ha : Reckoner.reduce Operator.multiplicative a = .ok u)
    (hb : Reckoner.reduce Operator.multiplicative b = .ok w) : Facing u w ∨ IsSpoilt u := by
  have hplain : ∀ t, .minus ∈ Operator.multiplicative → doubleNegated? t = none := by
    intro t hm
    exact absurd hm (by decide)
  induction a using round_induction Operator.multiplicative generalizing b with
  | step a ih =>
    rcases h.round with ⟨fault, hr⟩ | ⟨contracted, t, hr, hnext⟩
    · rw [reduce_eq, hr] at ha
      simp at ha
    rcases hnext with hspoilt | ⟨s, hface, hs⟩
    · rcases reduce_of_settle (hplain t) hr ha with ⟨-, rfl⟩ | ⟨-, -, ha⟩
      · exact .inr hspoilt
      · exact .inr (hspoilt.reduce ha)
    · have hsame : IsSettled Operator.multiplicative t ↔ IsSettled Operator.multiplicative s := by
        rw [isSettled_multiplicative, isSettled_multiplicative, hface.operatorCount]
      rcases reduce_of_settle_pair (hplain t) (hplain s) hr hs hsame ha hb with
        ⟨-, rfl, rfl⟩ | ⟨hgo, ha, hb⟩
      · exact .inl hface
      · exact ih t hgo hface ha hb

/-- The sign of zero is a sign wherever it stands, so it settles a text no sooner and no later. -/
theorem isSettled_zero (trailing : Nat) {row : Row} (hv : Row.Valid true row) :
    IsSettled Operator.additive ('-' :: '0' :: Row.text trailing row) ↔
      IsSettled Operator.additive ('0' :: Row.text trailing row) := by
  have hminus : operatorCount Operator.additive ('-' :: '0' :: Row.text trailing row) =
      operatorCount Operator.additive ('0' :: Row.text trailing row) + 1 :=
    operatorCount_symbol_cons Operator.additive .minus _
  have hplain : operatorCount Operator.additive ('0' :: Row.text trailing row) =
      operatorCount Operator.additive (Row.text trailing row) :=
    operatorCount_cons_of_not_operator Operator.additive (by decide) _
  have hsigned : negativeCount ('-' :: '0' :: Row.text trailing row) =
      negativeCountFrom false 0 (Row.text trailing row) + 1 :=
    negativeCount_minus_append (.inl isDecimal_zero) (Row.stops_text trailing hv)
  have hunsigned : negativeCount ('0' :: Row.text trailing row) =
      negativeCountFrom false 0 (Row.text trailing row) :=
    negativeCount_word_append (.inl isDecimal_zero) _
  have hm : Operator.minus ∈ Operator.additive := by decide
  have hle := negativeCountFrom_le hm false (Row.text trailing row)
  simp only [IsSettled, hm, true_and]
  omega

/-- Sums and differences leave the sign of zero as it is, or nothing of it. -/
theorem reduce_zero (trailing : Nat) {row : Row} {u w : Text} (hv : Row.Valid true row)
    (ha : reduce Operator.additive ('-' :: '0' :: Row.text trailing row) = .ok u)
    (hb : reduce Operator.additive ('0' :: Row.text trailing row) = .ok w) :
    u = w ∨ ∃ next, Row.Valid true next ∧ u = '-' :: '0' :: Row.text trailing next ∧
      w = '0' :: Row.text trailing next ∧ IsSettled Operator.additive w := by
  have hminus : ∀ t, doubleNegated? ('-' :: '0' :: t) = none := fun t => rfl
  have hplain : ∀ t, doubleNegated? ('0' :: t) = none := fun t => rfl
  generalize ht : '-' :: '0' :: Row.text trailing row = t at ha
  induction t using round_induction Operator.additive generalizing row with
  | step t ih =>
    subst ht
    rcases @round_zero Operator.additive trailing row hv with he | ⟨contracted, next, hn, h1, h2⟩
    · refine .inl ?_
      rw [reduce_eq] at ha hb
      rw [he, hb] at ha
      exact (Except.ok.inj ha).symm
    · have hsame := isSettled_zero trailing hn
      rcases reduce_of_settle_pair (fun _ => hminus _) (fun _ => hplain _) h1 h2 hsame ha hb with
        ⟨hs, rfl, rfl⟩ | ⟨hgo, ha, hb⟩
      · exact .inr ⟨next, hn, rfl, rfl, hs⟩
      · exact ih _ hgo hn hb rfl ha

/-- A double negation is undone if nothing follows it, not even a space. -/
theorem reduce_doubled (n : Nat) {d u : Text} (hd : IsDecimal d)
    (h : reduce Operator.additive ('-' :: '-' :: (d ++ List.replicate n ' ')) = .ok u) : u = d := by
  have hround := @Row.round_doubled Operator.additive n d [] hd trivial
  simp only [Row.operandRound, Row.completion?, Row.site?, Row.text_nil, List.cons_append,
    List.nil_append] at hround
  cases n with
  | zero =>
    have hdouble : doubleNegated? ('-' :: '-' :: d) = some d :=
      doubleNegated?_eq_some_iff.2 ⟨.inl hd, 0, rfl⟩
    rw [List.replicate_zero, List.append_nil] at hround h
    rw [settle_of_doubleNegated false (by decide) hdouble] at hround
    rw [reduce_eq, hround] at h
    simp only [reduce, operatorCount_eq_zero _ (IsWord.not_operator (.inl hd)), if_true] at h
    exact (Except.ok.inj h).symm
  | succ n =>
    have hplain := doubleNegated?_append_space ('-' :: '-' :: d) n
    have hsettled :
        ¬ IsSettled Operator.additive ('-' :: '-' :: (d ++ List.replicate (n + 1) ' ')) :=
      fun hs => not_isNormal_minus_minus (by decide) 0 _ (isNormal_of_isSettled hs)
    rw [List.cons_append, List.cons_append] at hplain
    rw [settle_of_plain false fun _ => hplain, if_neg hsettled] at hround
    rw [reduce_eq, hround] at h
    simp at h

end Reckoner
