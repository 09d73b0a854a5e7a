import Reckoner.Proofs.NormalForms
import Reckoner.Proofs.Resolution

/-!
# Answers are answered with themselves

An expression without parentheses is answered with nothing, with a literal that may have a minus
sign in front, or with infinity. These texts are settled on every level, so each is its own value
and stays what it is in any number of parentheses. Minus infinity is none of them, though it has the
shape of a result: its sign belongs to no literal, so no reduction stops there.
-/

namespace Reckoner

open Literal
open Operator (Level)

/-- What an expression without parentheses is answered with. -/
inductive IsAnswer : Text → Prop where
  | empty : IsAnswer []
  | literal {w : Text} (h : IsDecimal w ∨ IsFraction w) : IsAnswer w
  | negative {w : Text} (h : IsDecimal w ∨ IsFraction w) : IsAnswer ('-' :: w)
  | infinity : IsAnswer "Infinity".toList

variable {level : Level} {t r : Text}

theorem isSettled_of_not_operator (h : ∀ c ∈ t, isOperatorChar c = false) : IsSettled level t :=
  .inl (operatorCount_eq_zero level h)

/-- A literal is settled with its sign: either the level has no minus or the literal is counted. -/
theorem isSettled_minus {w : Text} (h : IsDecimal w ∨ IsFraction w) :
    IsSettled level ('-' :: w) := by
  have hplain := operatorCount_eq_zero level (isWord_of_unsigned h).not_operator
  have hcount : operatorCount level ('-' :: w) = _ := operatorCount_symbol_cons level .minus w
  rw [hplain, Nat.zero_add] at hcount
  by_cases hm : .minus ∈ level
  · have hnegative := @negativeCount_minus_append w [] h stops_nil
    rw [List.append_nil] at hnegative
    rw [if_pos hm] at hcount
    exact .inr ⟨hm, by rw [hnegative, hcount]; rfl⟩
  · rw [if_neg hm] at hcount
    exact .inl hcount

theorem reduceAll_of_isSettled (h : ∀ level, IsSettled level t) : reduceAll t = .ok t := by
  rw [reduceAll_eq, reduce_of_isSettled (h _)]
  exact reduce_of_isSettled (h _)

namespace IsAnswer

theorem isSettled (h : IsAnswer r) (level : Level) : IsSettled level r := by
  cases h with
  | empty => exact isSettled_of_not_operator (by simp)
  | literal h => exact isSettled_of_not_operator (isWord_of_unsigned h).not_operator
  | negative h => exact isSettled_minus h
  | infinity => exact isSettled_of_not_operator (IsWord.not_operator (.inr (.inr (.inl rfl))))

theorem trim_eq (h : IsAnswer r) : Text.trim r = r := by
  cases h with
  | empty => rfl
  | literal h => exact (isWord_of_unsigned h).trim
  | negative h => simpa using trim_minus_word 0 (isWord_of_unsigned h)
  | infinity => decide

theorem isResult (h : IsAnswer r) : r = [] ∨ Literal.isResult r = true := by
  cases h with
  | empty => exact .inl rfl
  | literal h => exact .inr (isResult_of_unsigned h)
  | negative h => exact .inr (isResult_minus h)
  | infinity => exact .inr (by decide)

/-- An answer is its own value. -/
theorem evaluateFlat (h : IsAnswer r) : evaluateFlat r = .ok r := by
  rw [Reckoner.evaluateFlat, reduceAll_of_isSettled h.isSettled]
  simp only [h.trim_eq]
  cases h.isResult with
  | inl hempty => simp [hempty]
  | inr hresult => simp [hresult]

end IsAnswer

/-- Trimming cuts a text out of a longer one. -/
theorem exists_append_trim (t : Text) : ∃ before after, t = before ++ (Text.trim t ++ after) := by
  refine ⟨t.takeWhile Text.isBlank, ((Text.trimStart t).reverse.takeWhile Text.isBlank).reverse, ?_⟩
  have hend : Text.trim t ++ ((Text.trimStart t).reverse.takeWhile Text.isBlank).reverse =
      Text.trimStart t := by
    rw [Text.trim, Text.trimEnd, ← List.reverse_append, List.takeWhile_append_dropWhile,
      List.reverse_reverse]
  rw [hend, Text.trimStart, List.takeWhile_append_dropWhile]

/-- No literal begins with a letter, so the sign of minus infinity is not one of a literal. -/
theorem not_isNormal_minus_infinity (hm : .minus ∈ level) (before after : Text) :
    ¬ IsNormal level (before ++ ("-Infinity".toList ++ after)) := by
  intro h
  obtain ⟨w, rest, hw, he⟩ := (h before .minus ("Infinity".toList ++ after) rfl hm).literal
  have hstops : Stops ("Infinity".toList ++ after) := (stops_cons _ _).2 (by decide)
  exact not_stops_literal_append hw rest (he ▸ hstops)

/-- What has the shape of a result is an answer, minus infinity apart. -/
theorem isAnswer_of_isResult (h : isResult r = true) (hne : r ≠ "-Infinity".toList) :
    IsAnswer r := by
  simp only [isResult, Bool.or_eq_true, beq_iff_eq, isUnsigned_iff] at h
  unfold unsignedPart at h
  split at h
  · next u =>
    cases h with
    | inl hinfinity => exact absurd (by rw [hinfinity]; rfl) hne
    | inr hliteral => exact .negative hliteral
  · cases h with
    | inl hinfinity => exact hinfinity ▸ .infinity
    | inr hliteral => exact .literal hliteral

theorem isAnswer_of_evaluateFlat (h : evaluateFlat t = .ok r) : IsAnswer r := by
  obtain ⟨s, d, -, hd, rfl, hr⟩ := evaluateFlat_eq_ok h
  cases hr with
  | inl hempty => exact hempty ▸ .empty
  | inr hresult =>
    refine isAnswer_of_isResult hresult fun he => ?_
    obtain ⟨before, after, hsplit⟩ := exists_append_trim d
    have hnormal := isNormal_of_isSettled (isSettled_of_reduce hd)
    rw [hsplit, he] at hnormal
    exact not_isNormal_minus_infinity (by decide) before after hnormal

theorem evaluateFlat_minus_infinity :
    evaluateFlat "-Infinity".toList = .error .operatorPlacement := by decide +kernel

/-- Of the texts in the shape of a result, minus infinity is the only one that is never answered. -/
theorem exists_evaluateFlat_iff (r : Text) :
    (∃ t, evaluateFlat t = .ok r) ↔ r = [] ∨ isResult r = true ∧ r ≠ "-Infinity".toList := by
  constructor
  · rintro ⟨t, h⟩
    have hanswer := isAnswer_of_evaluateFlat h
    refine hanswer.isResult.imp_right fun hresult => ⟨hresult, ?_⟩
    rintro rfl
    have hfixed := hanswer.evaluateFlat
    rw [evaluateFlat_minus_infinity] at hfixed
    cases hfixed
  · rintro (rfl | ⟨hresult, hne⟩)
    · exact ⟨[], IsAnswer.empty.evaluateFlat⟩
    · exact ⟨r, (isAnswer_of_isResult hresult hne).evaluateFlat⟩

namespace Group

def nested (depth : Nat) (t : Text) : Text :=
  List.replicate depth '(' ++ (t ++ List.replicate depth ')')

theorem nested_succ (depth : Nat) (t : Text) :
    nested (depth + 1) t = '(' :: (nested depth t ++ [')']) := by
  rw [nested, nested, List.replicate_succ, List.replicate_succ' (a := ')')]
  simp

/-- Parentheses around a text that is its own value fall away one pair after the other. -/
theorem resolveGroups_nested (hr : evaluateFlat r = .ok r) (depth : Nat) :
    resolveGroups (nested depth r) = .ok r := by
  have hparen : '(' ∉ r ∧ ')' ∉ r :=
    ⟨not_mem_value hr (by decide) (by decide), not_mem_value hr (by decide) (by decide)⟩
  induction depth with
  | zero => simpa [nested] using resolveGroups_of_not_mem hparen
  | succ depth ih =>
    have hgroup := resolveGroups_of_closeAll (closeAll_group ih hr [] [])
    rw [List.nil_append, List.nil_append, List.append_nil] at hgroup
    rw [nested_succ, hgroup, resolveGroups_of_not_mem hparen]

end Group

/-- What an expression is answered with is its own value, also in any number of parentheses. -/
theorem evaluateFlat_fixed {t r : Text} (h : evaluateFlat t = .ok r) :
    evaluateFlat r = .ok r ∧ ∀ depth, resolveGroups (Group.nested depth r) = .ok r := by
  have hfixed := (isAnswer_of_evaluateFlat h).evaluateFlat
  exact ⟨hfixed, Group.resolveGroups_nested hfixed⟩

theorem evaluateFlat_fixed_negative :
    evaluateFlat "3 * 2 - 8 ".toList = .ok "-2".toList ∧
      evaluateFlat "-2".toList = .ok "-2".toList ∧
      resolveGroups "(((-2)))".toList = .ok "-2".toList := by
  have h : evaluateFlat "3 * 2 - 8 ".toList = .ok "-2".toList := by decide +kernel
  obtain ⟨hfixed, hnested⟩ := evaluateFlat_fixed h
  exact ⟨h, hfixed, hnested 3⟩

end Reckoner
