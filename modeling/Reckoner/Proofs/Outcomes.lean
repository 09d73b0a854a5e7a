import Reckoner.Evaluation
import Reckoner.Proofs.Lexemes

/-!
# What an evaluation can return

Whatever the variables hold, an evaluation answers with nothing, with a number or with a fault of
its text.
-/

namespace Reckoner.Store

open Literal

theorem evaluate_eq (store : Store) (account : Account) (t : Text) :
    store.evaluate account t = match Check.runAll Check.typed t with
      | .error fault => .error fault
      | .ok () => match Check.runAll Check.closed (store.substitute account t) with
        | .error fault => .error fault
        | .ok () => match resolveGroups (store.substitute account t) with
          | .error fault => .error fault
          | .ok flat => evaluateFlat flat := by
  simp only [evaluate, bind, Except.bind]
  cases Check.runAll Check.typed t with
  | error fault => rfl
  | ok _ =>
    cases Check.runAll Check.closed (store.substitute account t) with
    | error fault => rfl
    | ok _ => cases resolveGroups (store.substitute account t) <;> rfl

/-- What is evaluated has passed the checks and lost its variables and its groups. -/
theorem exists_flat_of_evaluate {store : Store} {account : Account} {t r : Text}
    (h : store.evaluate account t = .ok r) :
    Check.runAll Check.closed (store.substitute account t) = .ok () ∧
      ∃ flat, resolveGroups (store.substitute account t) = .ok flat ∧
        evaluateFlat flat = .ok r := by
  rw [evaluate_eq] at h
  split at h
  · simp at h
  split at h
  · simp at h
  · next hclosed =>
    split at h
    · simp at h
    · next flat hflat => exact ⟨hclosed, flat, hflat, h⟩

theorem typed_of_evaluate {store : Store} {account : Account} {t r : Text}
    (h : store.evaluate account t = .ok r) : Check.runAll Check.typed t = .ok () := by
  rw [evaluate_eq] at h
  split at h
  · simp at h
  · next htyped => exact htyped

theorem evaluate_of_flat {store : Store} {account : Account} {t flat r : Text}
    (htyped : Check.runAll Check.typed t = .ok ())
    (hclosed : Check.runAll Check.closed (store.substitute account t) = .ok ())
    (hflat : resolveGroups (store.substitute account t) = .ok flat)
    (hr : evaluateFlat flat = .ok r) : store.evaluate account t = .ok r := by
  simp only [evaluate_eq, htyped, hclosed, hflat, hr]

theorem eq_ok_of_toOption {α : Type} {e : Except Fault α} {r : α} (h : e.toOption = some r) :
    e = .ok r := by
  cases e with
  | error fault => simp [Except.toOption] at h
  | ok v => simpa [Except.toOption] using h

def IsExpressionFault (fault : Fault) : Prop :=
  (∃ check ∈ Check.typed ++ Check.closed, check.fault = fault) ∨ fault = .parentheses ∨
    IsFlatFault fault

theorem isExpressionFault_of_evaluate {store : Store} {account : Account} {t : Text}
    {fault : Fault} (h : store.evaluate account t = .error fault) : IsExpressionFault fault := by
  rw [evaluate_eq] at h
  cases htyped : Check.runAll Check.typed t with
  | error f =>
    obtain rfl : f = fault := by simpa [htyped] using h
    obtain ⟨check, hm, hf⟩ := Check.runAll_error htyped
    exact .inl ⟨check, List.mem_append_left _ hm, hf⟩
  | ok _ =>
    simp only [htyped] at h
    cases hclosed : Check.runAll Check.closed (store.substitute account t) with
    | error f =>
      obtain rfl : f = fault := by simpa [hclosed] using h
      obtain ⟨check, hm, hf⟩ := Check.runAll_error hclosed
      exact .inl ⟨check, List.mem_append_right _ hm, hf⟩
    | ok _ =>
      simp only [hclosed] at h
      obtain ⟨hrow, hfault⟩ := (Check.separated_of_closed hclosed).resolveGroups
      cases hflat : resolveGroups (store.substitute account t) with
      | error f =>
        obtain rfl : f = fault := by simpa [hflat] using h
        exact .inr (hfault f hflat)
      | ok flat =>
        simp only [hflat] at h
        exact .inr (.inr (evaluateFlat_error (hrow flat hflat) h))

theorem result_of_evaluate {store : Store} {account : Account} {t r : Text}
    (h : store.evaluate account t = .ok r) : r = [] ∨ isResult r = true := by
  rw [evaluate_eq] at h
  split at h
  · simp at h
  split at h
  · simp at h
  split at h
  · simp at h
  · exact evaluateFlat_ok h

/-- An evaluation returns nothing or the text of one number. It complains neither about names nor
about values to be stored, and the only text that it finds to be no number is `NaN`. -/
theorem evaluate_outcome (store : Store) (account : Account) (t : Text) :
    match store.evaluate account t with
    | .ok r => r = [] ∨ isResult r = true
    | .error fault => (∀ name, fault ≠ .undefined name) ∧ fault ≠ .value ∧
        ∀ operand, fault = .notANumber operand → operand = "NaN".toList := by
  cases h : store.evaluate account t with
  | ok r => exact result_of_evaluate h
  | error fault =>
    rcases isExpressionFault_of_evaluate h with ⟨check, hm, rfl⟩ | rfl | rfl | rfl | rfl
    · simp only [Check.typed, Check.closed, List.cons_append, List.nil_append, List.mem_cons,
        List.not_mem_nil, or_false] at hm
      rcases hm with rfl | rfl | rfl | rfl | rfl | rfl | rfl <;>
        simp [Check.loneNegative, Check.variableNames, Check.characters, Check.numberFormat,
          Check.missingOperators, Check.operatorAdjacency, Check.operatorBoundaries]
    · simp
    · simp
    · simp
    · simp

end Reckoner.Store
