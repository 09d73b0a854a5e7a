import Reckoner.Number.Layout
import Reckoner.Proofs.Literals

/-!
# The shape of written numbers

A finite value is written as a decimal with or without a minus sign, so that it can stand wherever
a literal can. The other values are words of letters, which no reader of literals takes.
-/

namespace Reckoner

open Literal

/-- What can stand between the operators of a text: a literal, or the name of a value that is not
finite. -/
def IsWord (t : Text) : Prop :=
  IsDecimal t ∨ IsFraction t ∨ t = "Infinity".toList ∨ t = "NaN".toList

def IsSigned (p : Text → Prop) (t : Text) : Prop := p t ∨ ∃ w, t = '-' :: w ∧ p w

theorem IsSigned.mono {p q : Text → Prop} (h : ∀ t, p t → q t) {t : Text} (ht : IsSigned p t) :
    IsSigned q t := by
  rcases ht with ht | ⟨w, rfl, hw⟩
  · exact .inl (h t ht)
  · exact .inr ⟨w, rfl, h w hw⟩

theorem isSigned_signText {p : Text → Prop} {t : Text} (b : Bool) (h : p t) :
    IsSigned p (signText b ++ t) := by
  cases b with
  | false => exact .inl h
  | true => exact .inr ⟨t, rfl, h⟩

theorem isDigits_toDigits (n : Nat) : IsDigits (Nat.toDigits 10 n) :=
  ⟨Nat.toDigits_ne_nil, fun _ hc => Nat.isDigit_of_mem_toDigits (by decide) (by decide) hc⟩

theorem isDigits_append_zeros {ds : Text} (h : IsDigits ds) (n : Nat) :
    IsDigits (ds ++ List.replicate n '0') := by
  refine ⟨by simp [h.1], ?_⟩
  intro c hc
  rcases List.mem_append.1 hc with hc | hc
  · exact h.2 c hc
  · obtain ⟨-, rfl⟩ := List.mem_replicate.1 hc
    decide

theorem isDigits_zeros_append {ds : Text} (h : IsDigits ds) (n : Nat) :
    IsDigits (List.replicate n '0' ++ ds) := by
  refine ⟨by simp [h.1], ?_⟩
  intro c hc
  rcases List.mem_append.1 hc with hc | hc
  · obtain ⟨-, rfl⟩ := List.mem_replicate.1 hc
    decide
  · exact h.2 c hc

/-- The positional form has digits on both sides of its point, if it has one. -/
theorem isDecimal_positional (d : Decimal) : IsDecimal d.positional := by
  have hd := isDigits_toDigits d.digits
  unfold Decimal.positional
  dsimp only
  split
  · exact .inl (isDigits_append_zeros hd _)
  · next hneg =>
    have hp : 0 < (-d.exponent).toNat := by omega
    split
    · next hlt =>
      refine .inr ⟨_, _, ⟨?_, ?_⟩, ⟨_, ⟨?_, ?_⟩, rfl⟩, rfl⟩
      · rw [← List.length_pos_iff, List.length_take]
        omega
      · exact fun c hc => hd.2 c (List.mem_of_mem_take hc)
      · rw [← List.length_pos_iff, List.length_drop]
        omega
      · exact fun c hc => hd.2 c (List.mem_of_mem_drop hc)
    · exact .inr ⟨['0'], _, by simp [IsDigits], ⟨_, isDigits_zeros_append hd _, rfl⟩, rfl⟩

theorem isDecimal_zero : IsDecimal ['0'] := .inl (by simp [IsDigits])

/-- A finite value is written as a decimal with or without a sign. -/
theorem isSigned_render_of_isFinite {v : Float} (h : Binary64.isFinite v = true) :
    IsSigned IsDecimal (render v) := by
  have hn : Binary64.isNaN v = false := by
    simp only [Binary64.isFinite, decide_eq_true_eq] at h
    simp only [Binary64.isNaN, decide_eq_false_iff_not]
    omega
  unfold render
  simp only [hn, h, Bool.false_eq_true, if_false, if_true]
  split
  · exact .inl isDecimal_zero
  · exact isSigned_signText _ (isDecimal_positional _)

theorem isSigned_render (v : Float) : IsSigned IsWord (render v) := by
  by_cases hf : Binary64.isFinite v = true
  · exact (isSigned_render_of_isFinite hf).mono fun _ h => .inl h
  · unfold render
    split
    · exact .inl (.inr (.inr (.inr rfl)))
    split
    · exact .inl (.inl isDecimal_zero)
    · exact isSigned_signText _ (.inr (.inr (.inl rfl)))

/-- The characters of a word: digits and points, or letters. No word has an operator, a space or a
parenthesis in it. -/
def isWordChar (c : Char) : Bool := c.isDigit || c == '.' || c.isAlpha

theorem IsDigits.all_isWordChar {t : Text} (h : IsDigits t) : ∀ c ∈ t, isWordChar c = true := by
  intro c hc
  simp [isWordChar, h.2 c hc]

theorem IsFraction.all_isWordChar {t : Text} (h : IsFraction t) :
    ∀ c ∈ t, isWordChar c = true := by
  obtain ⟨ds, hd, rfl⟩ := h
  intro c hc
  rcases List.mem_cons.1 hc with rfl | hc
  · decide
  · exact IsDigits.all_isWordChar hd c hc

theorem IsWord.all_isWordChar {t : Text} (h : IsWord t) : ∀ c ∈ t, isWordChar c = true := by
  rcases h with (h | ⟨ds, f, hd, hf, rfl⟩) | h | rfl | rfl
  · exact IsDigits.all_isWordChar h
  · intro c hc
    rcases List.mem_append.1 hc with hc | hc
    · exact IsDigits.all_isWordChar hd c hc
    · exact IsFraction.all_isWordChar hf c hc
  · exact IsFraction.all_isWordChar h
  · exact List.all_eq_true.1 (by decide)
  · exact List.all_eq_true.1 (by decide)

theorem IsWord.ne_nil {t : Text} (h : IsWord t) : t ≠ [] := by
  rcases h with h | ⟨ds, -, rfl⟩ | rfl | rfl
  · obtain ⟨c, r, rfl, -⟩ := h.head
    simp
  all_goals simp

namespace Literal

theorem isAlpha_eq_false_of_isDigit {c : Char} (h : c.isDigit = true) : c.isAlpha = false := by
  have h48 : 48 ≤ c.toNat ∧ c.toNat ≤ 57 := by
    simp only [Char.isDigit, Bool.and_eq_true, decide_eq_true_eq, ge_iff_le,
      UInt32.le_iff_toNat_le] at h
    exact h
  have hn : c.toNat = c.val.toNat := rfl
  simp only [Char.isAlpha, Char.isUpper, Char.isLower, Bool.or_eq_false_iff, Bool.and_eq_false_iff,
    decide_eq_false_iff_not, ge_iff_le, UInt32.le_iff_toNat_le]
  simp
  omega

theorem isAlpha_eq_false_of_isLiteralChar {c : Char} (h : isLiteralChar c = true) :
    c.isAlpha = false := by
  rw [isLiteralChar, Bool.or_eq_true, beq_iff_eq] at h
  rcases h with h | rfl
  · exact isAlpha_eq_false_of_isDigit h
  · decide

theorem IsFraction.not_letter {f : Text} (h : IsFraction f) : ∀ c ∈ f, c.isAlpha = false := by
  obtain ⟨ds, hd, rfl⟩ := h
  intro c hc
  rcases List.mem_cons.1 hc with rfl | hc
  · decide
  · exact isAlpha_eq_false_of_isDigit (hd.2 c hc)

theorem IsDecimal.not_letter {d : Text} (h : IsDecimal d) : ∀ c ∈ d, c.isAlpha = false := by
  rcases h with h | ⟨ds, f, hd, hf, rfl⟩
  · exact fun c hc => isAlpha_eq_false_of_isDigit (h.2 c hc)
  · intro c hc
    rcases List.mem_append.1 hc with hc | hc
    · exact isAlpha_eq_false_of_isDigit (hd.2 c hc)
    · exact hf.not_letter c hc

end Literal

end Reckoner
