import Reckoner.Proofs.Answers
import Reckoner.Proofs.Provenance
import Reckoner.Proofs.Splicing

/-!
# Answers in canonical form

A text is in canonical form if it is how the number in it is written: in as few digits as tell the
number apart, and without a sign if it is zero. What is written for a value is in canonical form. An
evaluation may end at a literal as it was typed, or at a minus sign and a literal, though, so an
answer is in canonical form unless it is zero with a minus sign or one of the typed literals that
are not.
-/

namespace Reckoner

open Literal

/-- A text that is how the number in front of it is written. -/
def IsCanonical (t : Text) : Prop := (leadingNumber? t).map render = some t

instance (t : Text) : Decidable (IsCanonical t) := inferInstanceAs (Decidable (_ = _))

section Canonical

variable {v : Float} {t w : Text}

theorem isCanonical_of_leadingNumber? (h : leadingNumber? t = some v) :
    IsCanonical t ↔ render v = t := by
  rw [IsCanonical, h, Option.map_some, Option.some.injEq]

theorem Binary64.render_withoutZeroSign (v : Float) : render (withoutZeroSign v) = render v := by
  unfold withoutZeroSign
  split
  · next h =>
    have hle : magnitude v ≤ infinity := h ▸ Nat.zero_le _
    rw [eq_ofMagnitude hle, h, render_zero, render_zero]
  · rfl

/-- The texts in canonical form are the texts of the values. -/
theorem isCanonical_iff (t : Text) :
    IsCanonical t ↔ ∃ v, Binary64.isNaN v = false ∧ render v = t := by
  constructor
  · intro h
    obtain ⟨v, hv, hr⟩ := Option.map_eq_some_iff.1 h
    obtain ⟨_, _, _, -, -, hvalue⟩ := leadingNumber?_spec hv
    exact ⟨v, hvalue.not_nan, hr⟩
  · rintro ⟨v, hv, rfl⟩
    rw [isCanonical_of_leadingNumber? (leadingNumber?_render_self hv),
      Binary64.render_withoutZeroSign]

theorem render_minus {m : Nat} (hm : m ≤ Binary64.infinity) (h0 : m ≠ 0) :
    render (Binary64.ofMagnitude true m) = '-' :: render (Binary64.ofMagnitude false m) := by
  rcases Nat.lt_or_eq_of_le hm with hlt | rfl
  · rw [render_finite true hlt h0, render_finite false hlt h0]
    rfl
  · rw [render_infinity, render_infinity]
    rfl

/-- A minus sign keeps a literal in canonical form, unless the literal is zero. -/
theorem isCanonical_minus_iff (hw : IsDecimal w ∨ IsFraction w) :
    IsCanonical ('-' :: w) ↔ IsCanonical w ∧ w ≠ ['0'] := by
  obtain ⟨d, hplain, hminus⟩ := leadingNumber?_of_literal hw
  rw [isCanonical_of_leadingNumber? hplain, isCanonical_of_leadingNumber? hminus]
  by_cases h0 : d.nearest = 0
  · rw [h0, render_zero, render_zero]
    constructor
    · intro h
      cases h
    · rintro ⟨h, hne⟩
      exact absurd h.symm hne
  · rw [render_minus d.nearest_le_infinity h0, List.cons_inj_right]
    refine ⟨fun h => ⟨h, ?_⟩, And.left⟩
    rintro rfl
    have hzero : leadingNumber? ['0'] = some (Binary64.ofMagnitude false 0) := rfl
    rw [hzero, Option.some.injEq] at hplain
    have hmagnitude := congrArg Binary64.magnitude hplain
    rw [Binary64.magnitude_ofMagnitude false d.nearest_le_infinity,
      Binary64.magnitude_ofMagnitude false (Nat.zero_le _)] at hmagnitude
    exact h0 hmagnitude.symm

theorem numbers_infinity : numbers "Infinity".toList = [] := by decide +kernel

/-- What is written for a value that is not finite has letters only, the sign aside. -/
theorem numbers_render_of_not_finite (h : ¬ Binary64.isFinite v = true) :
    numbers (render v) = [] := by
  have h0 : Binary64.magnitude v ≠ 0 := by
    intro h0
    rw [Binary64.isFinite, h0] at h
    exact h (by decide)
  rw [render, if_neg h0, if_neg h]
  split
  · decide +kernel
  · cases Binary64.isNegative v with
    | false => exact numbers_infinity
    | true => exact (numbers_symbol_cons .minus _).trans numbers_infinity

/-- The literals that are written for values are in canonical form. -/
theorem isCanonical_of_mem_numbers_render (hw : w ∈ numbers (render v)) : IsCanonical w := by
  by_cases hv : Binary64.isFinite v = true
  · have hcanonical : IsCanonical (render v) := by
      obtain ⟨negative, m, hm, rfl⟩ := exists_ofMagnitude hv
      exact (isCanonical_iff _).2 ⟨_, isNaN_ofMagnitude negative hm.le, rfl⟩
    rcases isSigned_render_of_isFinite hv with hd | ⟨u, he, hd⟩
    · rw [numbers_literal (.inl hd), List.mem_singleton] at hw
      exact hw ▸ hcanonical
    · rw [he, numbers_minus_literal (.inl hd), List.mem_singleton] at hw
      rw [he, isCanonical_minus_iff (.inl hd)] at hcanonical
      exact hw ▸ hcanonical.1
  · rw [numbers_render_of_not_finite hv] at hw
    cases hw

end Canonical

namespace IsAnswer

variable {r w : Text}

/-- An answer has one literal at most, and besides it nothing but a minus sign. -/
theorem eq_of_mem_numbers (h : IsAnswer r) (hw : w ∈ numbers r) : r = w ∨ r = '-' :: w := by
  cases h with
  | empty => cases hw
  | literal h =>
    rw [numbers_literal h, List.mem_singleton] at hw
    exact .inl hw.symm
  | negative h =>
    rw [numbers_minus_literal h, List.mem_singleton] at hw
    exact .inr (hw ▸ rfl)
  | infinity =>
    rw [numbers_infinity] at hw
    cases hw

/-- An answer is in canonical form if its literal is and it is not zero with a minus sign. -/
theorem isCanonical_iff (h : IsAnswer r) (hne : r ≠ []) :
    IsCanonical r ↔ r ≠ "-0".toList ∧ ∀ w ∈ numbers r, IsCanonical w := by
  cases h with
  | empty => exact absurd rfl hne
  | literal h =>
    have hzero : r ≠ "-0".toList := by
      rintro rfl
      exact absurd ((isUnsigned_iff _).2 h) (by decide)
    rw [numbers_literal h, List.forall_mem_singleton, and_iff_right hzero]
  | @negative w h =>
    have hzero : '-' :: w ≠ "-0".toList ↔ w ≠ ['0'] := by simp
    rw [isCanonical_minus_iff h, numbers_minus_literal h, hzero, List.forall_mem_singleton,
      and_comm]
  | infinity =>
    have hcanonical : IsCanonical "Infinity".toList := by decide +kernel
    have hzero : "Infinity".toList ≠ "-0".toList := by decide
    rw [numbers_infinity, iff_true_left hcanonical]
    exact ⟨hzero, List.forall_mem_nil _⟩

end IsAnswer

namespace Store

variable {store : Store} {account : Account} {t u r : Text}

theorem isAnswer_of_evaluate (h : store.evaluate account t = .ok r) : IsAnswer r := by
  obtain ⟨-, flat, -, hr⟩ := exists_flat_of_evaluate h
  exact isAnswer_of_evaluateFlat hr

theorem execute_expression (ht : Command.ofText t = .expression u)
    (h : store.evaluate account u = .ok r) : store.execute account t = (store, r) := by
  rw [execute, ht, Command.run, h]
  rfl

/-- An expression is answered in canonical form unless the answer is zero with a minus sign, or a
literal of the expression that is not in canonical form, with or without a minus sign. -/
theorem execute_canonical_iff (hr : Reachable store) (ht : Command.ofText t = .expression u)
    (h : store.evaluate account u = .ok r) (hne : r ≠ []) :
    (store.execute account t).2 = r ∧ (IsCanonical r ↔
      r ≠ "-0".toList ∧ ∀ w ∈ numbers u, r = w ∨ r = '-' :: w → IsCanonical w) := by
  have hanswer := isAnswer_of_evaluate h
  refine ⟨by rw [execute_expression ht h], ?_⟩
  constructor
  · intro hcanonical
    refine ⟨((hanswer.isCanonical_iff hne).1 hcanonical).1, fun w hw he => ?_⟩
    rcases he with rfl | rfl
    · exact hcanonical
    · exact ((isCanonical_minus_iff (isLiteral_of_mem_numbers hw)).1 hcanonical).1
  · rintro ⟨hzero, htyped⟩
    refine (hanswer.isCanonical_iff hne).2 ⟨hzero, fun w hw => ?_⟩
    rcases hr.sound.numbers_evaluate h w hw with hw' | ⟨v, hv⟩
    · exact htyped w hw' (hanswer.eq_of_mem_numbers hw)
    · exact isCanonical_of_mem_numbers_render hv

/-- The value of an operation is written in canonical form, whatever its operands are. -/
theorem execute_canonical_sum :
    empty.evaluate "a" "1.50 + 1".toList = .ok "2.5".toList ∧
      (empty.execute "a" "1.50 + 1".toList).2 = "2.5".toList ∧ IsCanonical "2.5".toList := by
  have hsum : (empty.evaluate "a" "1.50 + 1".toList).toOption = some "2.5".toList := by
    decide +kernel
  have hcommand : Command.ofText "1.50 + 1".toList = .expression "1.50 + 1".toList := by
    decide +kernel
  have htyped : ∀ w ∈ numbers "1.50 + 1".toList,
      "2.5".toList = w ∨ "2.5".toList = '-' :: w → IsCanonical w := by
    decide +kernel
  have h := eq_ok_of_toOption hsum
  obtain ⟨hanswer, hiff⟩ := execute_canonical_iff ⟨[], rfl⟩ hcommand h (by simp)
  exact ⟨h, hanswer, hiff.2 ⟨by decide, htyped⟩⟩

/-- In parentheses behind a minus sign a literal is answered with as it was typed. -/
theorem execute_not_canonical :
    ¬ ∀ (store : Store) (account : Account) (t u r : Text), Reachable store →
      Command.ofText t = .expression u → store.evaluate account u = .ok r → r ≠ [] →
        IsCanonical r := by
  intro h
  have hminus : (empty.evaluate "a" "-(1.50)".toList).toOption = some "-1.50".toList := by
    decide +kernel
  have hcommand : Command.ofText "-(1.50)".toList = .expression "-(1.50)".toList := by
    decide +kernel
  have hnot : ¬ IsCanonical "-1.50".toList := by decide +kernel
  exact hnot (h empty "a" _ _ _ ⟨[], rfl⟩ hcommand (eq_ok_of_toOption hminus) (by simp))

example : (empty.execute "a" "-(3 - 3)".toList).2 = "-0".toList := by decide +kernel

end Store

end Reckoner
