import Reckoner.Proofs.Answers
import Reckoner.Proofs.Chains
import Reckoner.Proofs.ReadBack

/-!
# Single operations

An operation between two operands, with any spaces around its operator, is reduced to the text of
its value, and that text is reduced further as if it had been typed. So every value is the answer,
plus infinity included, except for one: the text of minus infinity has a sign that no literal takes,
which counts as an operator without operands.
-/

namespace Reckoner

open Literal
open Operator (Level)

def operationText (left : Text) (leftGap : Nat) (op : Operator) (rightGap : Nat) (right : Text) :
    Text :=
  left ++ (List.replicate leftGap ' ' ++ op.symbol :: (List.replicate rightGap ' ' ++ right))

variable {level : Level} {x y : Text} {op : Operator} {v : Float}

theorem doubleNegated?_render (v : Float) : doubleNegated? (render v) = none := by
  rw [Option.eq_none_iff_forall_ne_some]
  intro w hw
  obtain ⟨-, n, he⟩ := doubleNegated?_eq_some_iff.1 hw
  rcases isSigned_render v with h | ⟨u, hu, h⟩
  · exact absurd (h.not_operator '-' (by simp [he])) (by decide)
  · rw [hu] at he
    obtain rfl := (List.cons.inj he).2
    exact absurd (h.not_operator '-' (by simp)) (by decide)

namespace Chain

variable (leftGap rightGap : Nat)

theorem fits_operation (hx : IsOperand x) (hy : IsOperand y) :
    Fits ⟨x, [⟨leftGap, op, rightGap, y⟩]⟩ := by
  refine ⟨hx, fun l hl => ?_⟩
  obtain rfl := List.mem_singleton.1 hl
  exact hy

theorem text_operation :
    text 0 ⟨x, [⟨leftGap, op, rightGap, y⟩]⟩ = operationText x leftGap op rightGap y := by
  simp [text, Link.text, operationText]

theorem round_operation (hx : IsOperand x) (hy : IsOperand y) (hm : op ∈ level) :
    round level (operationText x leftGap op rightGap y) = match calculate x op y with
      | .error fault => .error fault
      | .ok v => settle level true (render v) := by
  let c : Chain := ⟨x, [⟨leftGap, op, rightGap, y⟩]⟩
  have hfits : c.Fits := fits_operation leftGap rightGap hx hy
  have hround := @Row.round_text level c.row 0 hfits.valid
  have hsite := @Row.site?_signedItems_append level x hx (linkRow c.links)
  have hstep := @operandSite?_linkRow level 0 x c.links hfits.links
  have hfirst : step? level x c.links = some (⟨x, op, y⟩, fun v => ⟨render v, []⟩) := by
    simp [c, step?, hm]
  rw [hfirst] at hstep
  obtain ⟨s, hfound, hout, hrep⟩ := hstep
  rw [← text_eq, row, hsite, hfound] at hround
  simp only [hout, Contraction.outcome, hrep] at hround
  rw [← text_operation, hround]
  cases calculate x op y with
  | error fault => rfl
  | ok v =>
    have htext : Row.text 0 (Row.signedItems 0 (render v) ++ linkRow []) = render v := by
      rw [Row.text_signedItems_append]
      simp [linkRow]
    simp only [htext]

end Chain

/-- On its level, an operation is reduced as the text of its value is. -/
theorem reduce_operation (hx : IsOperand x) (hy : IsOperand y) (hm : op ∈ level)
    (h : calculate x op y = .ok v) (leftGap rightGap : Nat) :
    reduce level (operationText x leftGap op rightGap y) = reduce level (render v) := by
  have hround := Chain.round_operation leftGap rightGap hx hy hm
  simp only [h, settle_of_plain true fun _ => doubleNegated?_render v, if_true] at hround
  rw [reduce_eq, hround]
  by_cases hs : IsSettled level (render v)
  · simp only [if_pos hs, reduce_of_isSettled hs]
  · simp only [if_neg hs]

/-- Below its level, an operation stays. -/
theorem reduce_operation_of_not_mem (hx : IsOperand x) (hy : IsOperand y) (hm : op ∉ level)
    (leftGap rightGap : Nat) : reduce level (operationText x leftGap op rightGap y) =
      .ok (operationText x leftGap op rightGap y) := by
  have hfits : Chain.Fits ⟨x, [⟨leftGap, op, rightGap, y⟩]⟩ :=
    Chain.fits_operation leftGap rightGap hx hy
  rw [← Chain.text_operation]
  apply reduce_of_isSettled
  rw [Chain.isSettled_iff hfits]
  intro l hl
  obtain rfl := List.mem_singleton.1 hl
  exact hm

theorem reduceAll_render (v : Float) :
    reduceAll (render v) = reduce Operator.additive (render v) := by
  have hs : IsSettled Operator.multiplicative (render v) :=
    .inl (operatorCount_render (by decide) v)
  rw [reduceAll_eq, reduce_of_isSettled hs]

/-- An operation has the value that the text of its value has. -/
theorem evaluateFlat_operation_eq (hx : IsOperand x) (hy : IsOperand y)
    (h : calculate x op y = .ok v) (leftGap rightGap : Nat) :
    evaluateFlat (operationText x leftGap op rightGap y) = evaluateFlat (render v) := by
  have hall : reduceAll (operationText x leftGap op rightGap y) = reduceAll (render v) := by
    rw [reduceAll_eq]
    by_cases hm : op ∈ Operator.multiplicative
    · rw [reduce_operation hx hy hm h, ← reduceAll_eq]
    · have ha : op ∈ Operator.additive := by
        cases op <;> simp [Operator.multiplicative, Operator.additive] at hm ⊢
      rw [reduce_operation_of_not_mem hx hy hm]
      simp only [reduce_operation hx hy ha h, reduceAll_render]
  rw [evaluateFlat, hall, evaluateFlat]

/-- Every value but minus infinity is written as an answer. -/
theorem isAnswer_render (hn : Binary64.isNaN v = false)
    (hv : v ≠ Binary64.ofMagnitude true Binary64.infinity) : IsAnswer (render v) := by
  by_cases hf : Binary64.isFinite v = true
  · rcases isSigned_render_of_isFinite hf with h | ⟨w, he, h⟩
    · exact .literal (.inl h)
    · exact he ▸ .negative (.inl h)
  · have hmagnitude : Binary64.magnitude v = Binary64.infinity := by
      simp only [Binary64.isFinite, decide_eq_true_eq] at hf
      simp only [Binary64.isNaN, decide_eq_false_iff_not] at hn
      omega
    have he := Binary64.eq_ofMagnitude (Nat.le_of_eq hmagnitude)
    rw [hmagnitude] at he
    cases hs : Binary64.isNegative v with
    | true => exact absurd (hs ▸ he) hv
    | false =>
      rw [he, hs, render_infinity]
      exact .infinity

/-- An operation is answered with its value, and with `Infinity` where it exceeds all numbers; only
minus infinity is no answer. -/
theorem evaluateFlat_operation {x y : Text} {op : Operator} {v : Float} (hx : IsOperand x)
    (hy : IsOperand y) (h : calculate x op y = .ok v) (hn : Binary64.isNaN v = false)
    (leftGap rightGap : Nat) :
    (v ≠ Binary64.ofMagnitude true Binary64.infinity →
      evaluateFlat (operationText x leftGap op rightGap y) = .ok (render v)) ∧
    (v = Binary64.ofMagnitude false Binary64.infinity →
      evaluateFlat (operationText x leftGap op rightGap y) = .ok "Infinity".toList) ∧
    (v = Binary64.ofMagnitude true Binary64.infinity →
      evaluateFlat (operationText x leftGap op rightGap y) = .error .operatorPlacement) := by
  rw [evaluateFlat_operation_eq hx hy h]
  refine ⟨fun hv => (isAnswer_render hn hv).evaluateFlat, ?_, ?_⟩
  · rintro rfl
    rw [render_infinity]
    exact IsAnswer.infinity.evaluateFlat
  · rintro rfl
    rw [render_infinity]
    exact evaluateFlat_minus_infinity

/-- Ten to the power 308 is a value and ten times as much is none. -/
theorem evaluateFlat_operation_overflow :
    evaluateFlat (operationText ('1' :: List.replicate 308 '0') 1 .times 1 "10".toList) =
      .ok "Infinity".toList := by
  have hx : IsOperand ('1' :: List.replicate 308 '0') :=
    (covers_signed?_iff _).1 (by decide +kernel)
  have hy : IsOperand "10".toList := (covers_signed?_iff _).1 (by decide)
  have h : calculate ('1' :: List.replicate 308 '0') .times "10".toList =
      .ok (Binary64.ofMagnitude false Binary64.infinity) := by decide +kernel
  have hn := isNaN_ofMagnitude false (Nat.le_refl Binary64.infinity)
  exact (evaluateFlat_operation hx hy h hn 1 1).2.1 rfl

/-- The same with a minus sign in front has minus infinity for its value, and no answer. -/
theorem evaluateFlat_operation_unanswered :
    ∃ x y v, IsOperand x ∧ IsOperand y ∧ calculate x .times y = .ok v ∧
      Binary64.isNaN v = false ∧ render v = "-Infinity".toList ∧
      evaluateFlat (operationText x 1 .times 1 y) = .error .operatorPlacement := by
  have hx : IsOperand ('-' :: '1' :: List.replicate 308 '0') :=
    (covers_signed?_iff _).1 (by decide +kernel)
  have hy : IsOperand "10".toList := (covers_signed?_iff _).1 (by decide)
  exact ⟨_, _, Binary64.ofMagnitude true Binary64.infinity, hx, hy, by decide +kernel,
    by decide +kernel, by decide +kernel, by decide +kernel⟩

end Reckoner
