import Reckoner.Proofs.Rounds

/-!
# Operands are read in full

The reader of numbers takes the number in front of a text and ignores the rest, and the left operand
of an operation may have an operator in front of its number. No character is lost by either: the
operands that are found are literals of which every digit counts, so an operation on them fails only
by dividing by zero.
-/

namespace Reckoner

open Literal
open Operator (Level)

/-- An operand that is read as a number from its first character to its last. -/
structure ReadInFull (t : Text) (v : Float) : Prop where
  isOperand : IsOperand t
  writes : ∃ negative w d, t = signText negative ++ w ∧ Writes w d ∧
    v = Binary64.ofMagnitude negative d.nearest
  number : leadingNumber? t = some v

theorem exists_readInFull {t : Text} (h : IsOperand t) : ∃ v, ReadInFull t v := by
  rcases h.unsigned_or_negative with hw | ⟨w, rfl, hw⟩
  · obtain ⟨d, hd⟩ := exists_writes hw
    have hnumber := (leadingNumber?_of_mantissa? hw hd.mantissa?).1
    exact ⟨_, h, ⟨false, t, d, rfl, hd, rfl⟩, hnumber⟩
  · obtain ⟨d, hd⟩ := exists_writes (.inl hw)
    have hnumber := (leadingNumber?_of_mantissa? (.inl hw) hd.mantissa?).2
    exact ⟨_, h, ⟨true, w, d, rfl, hd, rfl⟩, hnumber⟩

/-- Arithmetic on operands is arithmetic on what they say. -/
theorem ReadInFull.calculate {left right : Text} {l r : Float} (hl : ReadInFull left l)
    (hr : ReadInFull right r) (op : Operator) : calculate left op right = op.apply l r := by
  simp only [Reckoner.calculate, operandValue, hl.number, hr.number]

namespace Occurrence

variable {level : Level} {t : Text}

/-- The left operand is an operator with spaces, or nothing, and a number; both numbers are read in
full, and the result stands behind the operator. -/
theorem Found.readInFull {o : Occurrence} {carried number : Text}
    (h : Found level t o carried number) : ∃ l r, ReadInFull number l ∧ ReadInFull o.right r ∧
      resultText o.left o.operator o.right =
        (o.operator.apply l r).map fun v => carried ++ render v := by
  obtain ⟨l, hl⟩ := exists_readInFull h.isOperand
  obtain ⟨r, hr⟩ := exists_readInFull h.right
  refine ⟨l, r, hl, hr, ?_⟩
  simp only [resultText, h.split, hl.calculate hr]

/-- The operands of an operation that is found are read in full: the left one is cut into an
operator with spaces, or nothing, and a number. So the operation has a result behind that operator
or divides by zero, and no text is ever found to be no number while a level is reduced. -/
theorem find?_operands (level : Level) (t : Text) :
    (∀ o, find? level t = some o → ∃ carried number l r,
      splitOperand? o.left = some (carried, number) ∧ carried ++ number = o.left ∧
      IsCarried carried ∧ ReadInFull number l ∧ ReadInFull o.right r ∧
      resultText o.left o.operator o.right =
        (o.operator.apply l r).map (fun v => carried ++ render v) ∧
      ∀ fault, resultText o.left o.operator o.right = .error fault → fault = .divisionByZero) ∧
    ∀ fault, reduce level t = .error fault → fault = .divisionByZero ∨ fault = .operatorPlacement := by
  refine ⟨fun o ho => ?_, fun fault h => reduce_error h⟩
  obtain ⟨carried, number, hfound⟩ := find?_spec ho
  obtain ⟨l, r, hl, hr, hresult⟩ := hfound.readInFull
  refine ⟨carried, number, l, r, hfound.split, hfound.left.symm, hfound.isCarried, hl, hr, hresult,
    fun fault h => ?_⟩
  rw [hresult] at h
  cases hv : o.operator.apply l r with
  | error f =>
    obtain rfl : f = fault := by simpa [hv, Except.map] using h
    exact (Operator.apply_error hv).1
  | ok v => simp [hv, Except.map] at h

end Occurrence

end Reckoner
