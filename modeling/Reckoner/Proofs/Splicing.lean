import Reckoner.Proofs.Chains
import Reckoner.Proofs.LongestMatch
import Reckoner.Proofs.Numerals

/-!
# Written numbers in front of further text

A value that is written into a text is read back by both readers: the reader of operands ends where
the value ends, and the reader of leading numbers gives the value back, whatever follows as long as
it begins with no digit, point or exponent mark. An infinity is read back in front of every text.
So no two values are written alike but for the sign of zero.
-/

namespace Reckoner

open Literal

def Binary64.withoutZeroSign (v : Float) : Float :=
  if magnitude v = 0 then ofMagnitude false 0 else v

theorem Binary64.magnitude_withoutZeroSign (v : Float) :
    magnitude (withoutZeroSign v) = magnitude v := by
  unfold withoutZeroSign
  split
  · next h => rw [h, magnitude_ofMagnitude false (Nat.zero_le _)]
  · rfl

/-- A text that goes on with no number in front of it: it begins with no digit, point or exponent
mark. -/
def EndsNumber (t : Text) : Prop :=
  ∀ c ∈ t.head?, c.isDigit = false ∧ c ≠ '.' ∧ c ≠ 'e' ∧ c ≠ 'E'

section Texts

variable {w t : Text}

theorem EndsNumber.stops (h : EndsNumber t) : Stops t := fun c hc => ⟨(h c hc).1, (h c hc).2.1⟩

theorem EndsNumber.exponentPart (h : EndsNumber t) : Decimal.exponentPart t = 0 := by
  cases t with
  | nil => rfl
  | cons c t =>
    obtain ⟨-, -, he, hE⟩ := h c rfl
    rw [Decimal.exponentPart, if_neg (by simp [he, hE])]

theorem exists_mantissa (h : IsDecimal w ∨ IsFraction w) : ∃ x, IsMantissa w x := by
  rcases h with (h | ⟨ds, f, hd, ⟨fs, hf, rfl⟩, rfl⟩) | ⟨fs, hf, rfl⟩
  · exact ⟨_, .whole h⟩
  · exact ⟨_, .point hd hf.2⟩
  · exact ⟨_, .fraction hf⟩

/-- What follows a mantissa and does not go on with it does not change its number. -/
theorem leadingNumber?_mantissa_append {s : Text} {negative : Bool} {x : ℚ}
    (hs : IsLeadingSign s negative) (hw : IsMantissa w x) :
    ∃ m, ∀ t, EndsNumber t →
      leadingNumber? (s ++ (w ++ t)) = some (Binary64.ofMagnitude negative m) := by
  obtain ⟨d, -, hd⟩ := hw.exists_decimal
  refine ⟨d.nearest, fun t ht => ?_⟩
  have hread : Decimal.leading? (w ++ t) = some d := by
    rw [Decimal.leading?, hd t ht.stops, Option.map_some]
    dsimp only
    rw [ht.exponentPart, Int.add_zero]
  rw [(hw.isPlain.append t).leadingNumber?_append hs,
    if_neg (Bool.eq_false_iff.1 (hw.not_infinity t)), hread, Option.map_some]

end Texts

section Values

variable {v w : Float} {t : Text}

theorem exists_render (h : Binary64.isFinite v = true) : ∃ s negative body x,
    IsLeadingSign s negative ∧ IsMantissa body x ∧ render v = s ++ body := by
  rcases isSigned_render_of_isFinite h with hw | ⟨body, he, hw⟩
  · obtain ⟨x, hx⟩ := exists_mantissa (.inl hw)
    exact ⟨[], false, render v, x, .none, hx, rfl⟩
  · obtain ⟨x, hx⟩ := exists_mantissa (.inl hw)
    exact ⟨['-'], true, body, x, .minus, hx, he⟩

/-- A value is read from its text, apart from the sign of zero. -/
theorem leadingNumber?_render_self (h : Binary64.isNaN v = false) :
    leadingNumber? (render v) = some (Binary64.withoutZeroSign v) := by
  have hle : Binary64.magnitude v ≤ Binary64.infinity := by
    simpa [Binary64.isNaN] using h
  have hread := leadingNumber?_render (Binary64.isNegative v) hle
  rw [← Binary64.eq_ofMagnitude hle] at hread
  rw [hread, Binary64.withoutZeroSign]
  by_cases h0 : Binary64.magnitude v = 0
  · simp [h0]
  · rw [if_neg h0, show (Binary64.magnitude v != 0) = true by simpa using h0, Bool.and_true,
      ← Binary64.eq_ofMagnitude hle]

theorem leadingNumber?_render_append (h : Binary64.isFinite v = true) (ht : EndsNumber t) :
    leadingNumber? (render v ++ t) = leadingNumber? (render v) := by
  obtain ⟨s, negative, body, x, hs, hx, he⟩ := exists_render h
  obtain ⟨m, hread⟩ := leadingNumber?_mantissa_append hs hx
  have hself := hread [] (by simp [EndsNumber])
  rw [List.append_nil] at hself
  rw [he, List.append_assoc, hread t ht, hself]

theorem endAt?_render_append (h : Binary64.isFinite v = true) (ht : Stops t) :
    endAt? signed? (render v ++ t) 0 = some (render v).utf8Size := by
  have hoperand : IsOperand (render v) := .inl (isSigned_render_of_isFinite h)
  have hread := endAt?_append signed? [] (render v ++ t)
  rw [signed?_append hoperand ht] at hread
  simpa using hread

/-- An infinity is read in front of every text. -/
theorem leadingNumber?_infinity_append (h : Binary64.magnitude v = Binary64.infinity) (t : Text) :
    leadingNumber? (render v ++ t) = some v := by
  have hv := Binary64.eq_ofMagnitude (Nat.le_of_eq h)
  rw [h] at hv
  generalize Binary64.isNegative v = negative at hv
  subst hv
  rw [render_infinity]
  cases negative <;> rfl

/-- Values that are written alike differ in the sign of zero at most. -/
theorem eq_of_render_eq (hv : Binary64.isNaN v = false) (hw : Binary64.isNaN w = false)
    (h : render v = render w) : v = w ∨ Binary64.magnitude v = 0 ∧ Binary64.magnitude w = 0 := by
  have hread := leadingNumber?_render_self hv
  rw [h, leadingNumber?_render_self hw, Option.some.injEq] at hread
  have hmagnitude := congrArg Binary64.magnitude hread
  rw [Binary64.magnitude_withoutZeroSign, Binary64.magnitude_withoutZeroSign] at hmagnitude
  by_cases h0 : Binary64.magnitude v = 0
  · exact .inr ⟨h0, hmagnitude.trans h0⟩
  · rw [Binary64.withoutZeroSign, Binary64.withoutZeroSign, hmagnitude, if_neg h0,
      if_neg h0] at hread
    exact .inl hread.symm

end Values

/-- A written number is read back as it was, as a number and as an operand. -/
theorem render_read_back (v : Float) :
    (Binary64.isFinite v = true → ∀ t, EndsNumber t →
      leadingNumber? (render v ++ t) = some (Binary64.withoutZeroSign v) ∧
      endAt? signed? (render v ++ t) 0 = some (render v).utf8Size ∧
      isResult (render v) = true) ∧
    (Binary64.magnitude v = Binary64.infinity → ∀ t, leadingNumber? (render v ++ t) = some v) ∧
    ∀ w, Binary64.isNaN v = false → Binary64.isNaN w = false → render v = render w →
      v = w ∨ Binary64.magnitude v = 0 ∧ Binary64.magnitude w = 0 := by
  refine ⟨fun h t ht => ⟨?_, endAt?_render_append h ht.stops, ?_⟩,
    leadingNumber?_infinity_append, fun w hv hw => eq_of_render_eq hv hw⟩
  · have hnan : Binary64.isNaN v = false := by
      obtain ⟨negative, m, hm, rfl⟩ := exists_ofMagnitude h
      exact isNaN_ofMagnitude negative hm.le
    rw [leadingNumber?_render_append h ht, leadingNumber?_render_self hnan]
  · exact Chain.isResult_operand (.inl (isSigned_render_of_isFinite h))

theorem render_read_back_in_sum :
    Binary64.isFinite (Binary64.ofMagnitude true 0x3fb999999999999a) = true ∧
      EndsNumber " + 1".toList ∧
      leadingNumber? (render (Binary64.ofMagnitude true 0x3fb999999999999a) ++ " + 1".toList) =
        some (Binary64.withoutZeroSign (Binary64.ofMagnitude true 0x3fb999999999999a)) := by
  have hfinite : Binary64.isFinite (Binary64.ofMagnitude true 0x3fb999999999999a) = true :=
    isFinite_ofMagnitude true (by decide)
  have hend : EndsNumber " + 1".toList := by simp [EndsNumber]
  exact ⟨hfinite, hend, ((render_read_back _).1 hfinite _ hend).1⟩

end Reckoner
