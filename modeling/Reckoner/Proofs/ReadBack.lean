import Reckoner.Proofs.Operands
import Reckoner.Proofs.Opposites

/-!
# Reading back what was written

The decimal that is written for a finite value is nearest to that value and to no other, and its
text reads as that decimal. So an operand that writes a value has that value; only the sign of zero
is lost.
-/

namespace Reckoner

open Literal

namespace Binary64

/-- An integer power as a quotient of two natural ones. -/
theorem zpow_eq_div (b : ℚ) (k : Int) : b ^ k = b ^ k.toNat / b ^ (-k).toNat := by
  rcases k.eq_nat_or_neg with ⟨n, rfl | rfl⟩
  · simp
  · simp

section Orders

variable {num den : Nat}

theorem le_div_iff_two_pow (hd : den ≠ 0) (k : Int) :
    den * 2 ^ k.toNat ≤ num * 2 ^ (-k).toNat ↔ (2 : ℚ) ^ k ≤ (num : ℚ) / den := by
  have hden : (0 : ℚ) < den := by exact_mod_cast Nat.pos_of_ne_zero hd
  rw [zpow_eq_div 2, div_le_div_iff₀ (by positivity) hden, mul_comm _ (den : ℚ)]
  exact_mod_cast Iff.rfl

/-- A quotient lies between the power of two of its order and the next one. -/
theorem binaryOrder_spec (hn : num ≠ 0) (hd : den ≠ 0) :
    (2 : ℚ) ^ binaryOrder num den ≤ (num : ℚ) / den ∧
      (num : ℚ) / den < 2 ^ (binaryOrder num den + 1) := by
  have hden : (0 : ℚ) < den := by exact_mod_cast Nat.pos_of_ne_zero hd
  have htwo : (2 : ℚ) ≠ 0 := by norm_num
  have hnum : ((2 : ℚ) ^ (num.log2 : Int) ≤ num) ∧ (num : ℚ) < 2 ^ ((num.log2 : Int) + 1) := by
    constructor
    · exact_mod_cast Nat.log2_self_le hn
    · exact_mod_cast @Nat.lt_log2_self num
  have hden' : ((2 : ℚ) ^ (den.log2 : Int) ≤ den) ∧ (den : ℚ) < 2 ^ ((den.log2 : Int) + 1) := by
    constructor
    · exact_mod_cast Nat.log2_self_le hd
    · exact_mod_cast @Nat.lt_log2_self den
  -- The logarithms of the two numbers leave two candidates.
  have hbelow : (2 : ℚ) ^ ((num.log2 : Int) - den.log2 - 1) ≤ (num : ℚ) / den := by
    rw [le_div_iff₀ hden]
    calc (2 : ℚ) ^ ((num.log2 : Int) - den.log2 - 1) * den
        ≤ 2 ^ ((num.log2 : Int) - den.log2 - 1) * 2 ^ ((den.log2 : Int) + 1) := by
          gcongr
          exact hden'.2.le
      _ = 2 ^ (num.log2 : Int) := by rw [← zpow_add₀ htwo]; congr 1; ring
      _ ≤ num := hnum.1
  have habove : (num : ℚ) / den < 2 ^ ((num.log2 : Int) - den.log2 + 1) := by
    rw [div_lt_iff₀ hden]
    calc (num : ℚ) < 2 ^ ((num.log2 : Int) + 1) := hnum.2
      _ = 2 ^ ((num.log2 : Int) - den.log2 + 1) * 2 ^ (den.log2 : Int) := by
          rw [← zpow_add₀ htwo]; congr 1; ring
      _ ≤ 2 ^ ((num.log2 : Int) - den.log2 + 1) * den := by
          gcongr
          exact hden'.1
  unfold binaryOrder
  simp only [Nat.shiftLeft_eq]
  split
  · next h => exact ⟨(le_div_iff_two_pow hd _).1 h, habove⟩
  · next h =>
    rw [le_div_iff_two_pow hd, not_le] at h
    rw [Int.sub_add_cancel]
    exact ⟨hbelow, h⟩

/-- It does so for one order only. -/
theorem binaryOrder_unique (hn : num ≠ 0) (hd : den ≠ 0) {k : Int}
    (hlow : (2 : ℚ) ^ k ≤ (num : ℚ) / den) (hhigh : (num : ℚ) / den < 2 ^ (k + 1)) :
    binaryOrder num den = k := by
  obtain ⟨hlow', hhigh'⟩ := binaryOrder_spec hn hd
  have hle := (zpow_lt_zpow_iff_right₀ one_lt_two).1 (hlow.trans_lt hhigh')
  have hge := (zpow_lt_zpow_iff_right₀ one_lt_two).1 (hlow'.trans_lt hhigh)
  omega

/-- The order of a quotient that equals a number times a power of two. -/
theorem binaryOrder_eq {s : Nat} {e : Int} (hs : s ≠ 0) (hd : den ≠ 0)
    (h : num * 2 ^ (-e).toNat = s * den * 2 ^ e.toNat) :
    binaryOrder num den = s.log2 + e := by
  have htwo : (2 : ℚ) ≠ 0 := by norm_num
  have hquotient : (num : ℚ) / den = s * 2 ^ e := by
    rw [zpow_eq_div, ← mul_div_assoc, div_eq_div_iff (by exact_mod_cast hd) (by positivity),
      mul_right_comm]
    exact_mod_cast h
  have hn : num ≠ 0 := by
    rintro rfl
    rw [Nat.zero_mul] at h
    exact Nat.mul_ne_zero (Nat.mul_ne_zero hs hd) (Nat.ne_of_gt (Nat.two_pow_pos _)) h.symm
  apply binaryOrder_unique hn hd
  · rw [hquotient, zpow_add₀ htwo]
    gcongr
    exact_mod_cast Nat.log2_self_le hs
  · rw [hquotient, add_right_comm, zpow_add₀ htwo]
    gcongr
    exact_mod_cast @Nat.lt_log2_self s

end Orders

theorem divNearest_mul (s : Nat) {d : Nat} (hd : d ≠ 0) : divNearest (s * d) d = s := by
  unfold divNearest
  rw [Nat.mul_mod_left, Nat.mul_div_cancel s (Nat.pos_of_ne_zero hd)]
  simp [Nat.pos_of_ne_zero hd]

/-- A quotient that equals a finite magnitude is rounded to it. -/
theorem ofQuotient_eq {num den m : Nat} (hm : m < infinity) (h0 : m ≠ 0) (hd : den ≠ 0)
    (h : num * 2 ^ (-exponent m).toNat = significand m * den * 2 ^ (exponent m).toNat) :
    ofQuotient num den = m := by
  have hs : significand m ≠ 0 := Nat.ne_of_gt (significand_pos h0)
  have hscaled : den * 2 ^ (exponent m).toNat ≠ 0 :=
    Nat.mul_ne_zero hd (Nat.ne_of_gt (Nat.two_pow_pos _))
  have hn : num ≠ 0 := by
    rintro rfl
    rw [Nat.zero_mul, Nat.mul_assoc] at h
    exact Nat.mul_ne_zero hs hscaled h.symm
  have hunit : max (binaryOrder num den - 52) (-1074) = exponent m := by
    rw [binaryOrder_eq hs hd h]
    by_cases hlt : m < 0x10000000000000
    · have := log2_significand_lt hlt h0
      rw [exponent, if_pos hlt]
      omega
    · have := log2_significand (Nat.le_of_not_lt hlt)
      rw [exponent, if_neg hlt]
      omega
  have hfields : (exponent m + 1074).toNat * 0x10000000000000 + significand m = m := by
    unfold exponent significand
    split <;> omega
  rw [ofQuotient, if_neg hn]
  simp only [hunit, Nat.shiftLeft_eq]
  rw [h, Nat.mul_assoc, divNearest_mul _ hscaled, hfields, Nat.min_eq_left (Nat.le_of_lt hm)]

end Binary64

namespace Decimal

open Binary64

theorem two_mul_le_log2_five_pow (n : Nat) : 2 * n ≤ (5 ^ n).log2 := by
  have hne : 5 ^ n ≠ 0 := Nat.ne_of_gt (Nat.pow_pos (by decide))
  rw [Nat.le_log2 hne, Nat.pow_mul]
  exact Nat.pow_le_pow_left (by decide) n

theorem nearest_eq (d : Decimal) : d.nearest =
    if d.digits = 0 then 0
    else if 310 < d.exponent then infinity
    else if d.exponent + d.digits.log2 + 1 < -330 then 0
    else ofQuotient (d.digits * 10 ^ d.exponent.toNat) (10 ^ (-d.exponent).toNat) := by
  simp only [nearest, Nat.pow_eq]

theorem exact_eq (m : Nat) : exact m =
    if 0 ≤ Binary64.exponent m then ⟨significand m * 2 ^ (Binary64.exponent m).toNat, 0⟩
    else ⟨significand m * 5 ^ (-Binary64.exponent m).toNat, Binary64.exponent m⟩ := by
  simp only [exact, Nat.shiftLeft_eq, Nat.pow_eq]

theorem nearest_of_digits_eq_zero {d : Decimal} (h : d.digits = 0) : d.nearest = 0 := by
  rw [nearest, if_pos h]

/-- What is written without loss reads back. -/
theorem nearest_exact {m : Nat} (hm : m < infinity) : (exact m).nearest = m := by
  by_cases h0 : m = 0
  · subst h0
    have hz : significand 0 = 0 := rfl
    rw [exact_eq]
    split <;> exact nearest_of_digits_eq_zero (by simp only [hz, Nat.zero_mul])
  have hs := significand_pos h0
  have hpow : ∀ b k : Nat, 0 < b → b ^ k ≠ 0 := fun b k hb => Nat.ne_of_gt (Nat.pow_pos hb)
  rw [exact_eq]
  split
  · next hpos =>
    have hd : significand m * 2 ^ (Binary64.exponent m).toNat ≠ 0 :=
      Nat.mul_ne_zero (Nat.ne_of_gt hs) (hpow _ _ (by decide))
    have hz : (-Binary64.exponent m).toNat = 0 := by omega
    rw [nearest_eq, if_neg hd, if_neg (by simp only; omega), if_neg (by simp only; omega)]
    apply ofQuotient_eq hm h0 (hpow _ _ (by decide))
    rw [hz]
    simp
  · next hneg =>
    generalize hk : (-Binary64.exponent m).toNat = k
    have he : Binary64.exponent m = -(k : Int) := by omega
    have hd : significand m * 5 ^ k ≠ 0 :=
      Nat.mul_ne_zero (Nat.ne_of_gt hs) (hpow _ _ (by decide))
    have hlog : 2 * k ≤ (significand m * 5 ^ k).log2 := by
      refine Nat.le_trans (two_mul_le_log2_five_pow k) ?_
      rw [Nat.le_log2 hd]
      exact Nat.le_trans (Nat.log2_self_le (hpow 5 k (by decide)))
        (Nat.le_mul_of_pos_left _ hs)
    have hz : (Binary64.exponent m).toNat = 0 := by omega
    rw [nearest_eq, if_neg hd, if_neg (by simp only; omega), if_neg (by simp only; omega)]
    simp only [hz, hk, Nat.pow_zero, Nat.mul_one]
    apply ofQuotient_eq hm h0 (hpow _ _ (by decide))
    rw [hz, hk, Nat.pow_zero, Nat.mul_one, Nat.mul_assoc, ← Nat.mul_pow]

/-- The shortest decimal reads back. -/
theorem nearest_shortest {m : Nat} (hm : m < infinity) : (shortest m).nearest = m := by
  unfold shortest
  dsimp only
  cases hf : (List.range' 1 (digitCount (exact m).digits)).findSome? fun kept =>
      without? m (exact m) (digitCount (exact m).digits - kept) with
  | none => exact nearest_exact hm
  | some d =>
    obtain ⟨kept, -, hw⟩ := List.exists_of_findSome?_eq_some hf
    exact nearest_of_without? hw

/-- Digits and a power of ten may be written out. -/
theorem nearest_scaled {d : Decimal} (he : 0 ≤ d.exponent) (h : d.nearest < infinity) :
    (Decimal.mk (d.digits * 10 ^ d.exponent.toNat) 0).nearest = d.nearest := by
  by_cases h0 : d.digits = 0
  · rw [nearest_of_digits_eq_zero h0, nearest_of_digits_eq_zero (by simp [h0])]
  have hd : d.digits * 10 ^ d.exponent.toNat ≠ 0 :=
    Nat.mul_ne_zero h0 (Nat.ne_of_gt (Nat.pow_pos (by decide)))
  have hz : (-d.exponent).toNat = 0 := by omega
  rw [nearest_eq] at h ⊢
  rw [nearest_eq]
  rw [if_neg h0] at h ⊢
  rw [if_neg hd, if_neg (by simp only; omega), if_neg (by simp only; omega)]
  split
  · next hbig =>
    rw [if_pos hbig] at h
    exact absurd h (Nat.lt_irrefl _)
  · next hbig =>
    rw [if_neg (by omega), hz]
    simp

/-- The digits of the positional form, whatever zeros it is filled up with. -/
theorem mantissa?_positional (d : Decimal) : mantissa? d.positional =
    some (if 0 ≤ d.exponent then ⟨d.digits * 10 ^ d.exponent.toNat, 0⟩ else d, []) := by
  have hd := isDigits_toDigits d.digits
  have hval : Nat.ofDigitChars 10 (Nat.toDigits 10 d.digits) 0 = d.digits :=
    Nat.ofDigitChars_ten_toDigits
  unfold positional
  dsimp only
  by_cases he : 0 ≤ d.exponent
  · rw [if_pos he, if_pos he, mantissa?_digits (isDigits_append_zeros hd _)]
    simp [ofParts, Nat.ofDigitChars_append, hval, Nat.mul_comm]
  rw [if_neg he, if_neg he]
  generalize hp : (-d.exponent).toNat = places
  generalize hl : (Nat.toDigits 10 d.digits).length = l
  have hexp : -(places : Int) = d.exponent := by omega
  by_cases hlt : places < l
  · rw [if_pos hlt, mantissa?_point]
    · rw [ofParts, List.take_append_drop, hval, List.length_drop, hl,
        show l - (l - places) = places by omega, hexp]
    · exact fun c hc => hd.2 c (List.mem_of_mem_take hc)
    · refine ⟨?_, fun c hc => hd.2 c (List.mem_of_mem_drop hc)⟩
      rw [← List.length_pos_iff, List.length_drop]
      omega
  · have hz : Nat.ofDigitChars 10 ['0'] 0 = 0 := by decide
    rw [if_neg hlt, show ∀ t : Text, '0' :: '.' :: t = ['0'] ++ '.' :: t from fun _ => rfl,
      mantissa?_point (by simp) (isDigits_zeros_append hd _), ofParts, Nat.ofDigitChars_append,
      Nat.ofDigitChars_append, hz, List.length_append, List.length_replicate, hl,
      show places - l + l = places by omega, hexp]
    simp [hval]

end Decimal

/-- The decimal written for a finite value is read again. -/
theorem leadingNumber?_positional {m : Nat} (h : m < Binary64.infinity) (negative : Bool) :
    leadingNumber? (signText negative ++ (Decimal.shortest m).positional) =
      some (Binary64.ofMagnitude negative m) := by
  have hm := Decimal.mantissa?_positional (Decimal.shortest m)
  have hs := Decimal.nearest_shortest h
  have hnearest : (if 0 ≤ (Decimal.shortest m).exponent then
      ⟨(Decimal.shortest m).digits * 10 ^ (Decimal.shortest m).exponent.toNat, 0⟩
      else Decimal.shortest m).nearest = m := by
    split
    · next he => rw [Decimal.nearest_scaled he (by rw [hs]; exact h), hs]
    · exact hs
  obtain ⟨h1, h2⟩ := leadingNumber?_of_mantissa? (.inl (isDecimal_positional _)) hm
  rw [hnearest] at h1 h2
  cases negative with
  | false => exact h1
  | true => exact h2

theorem isNaN_ofMagnitude (negative : Bool) {m : Nat} (h : m ≤ Binary64.infinity) :
    Binary64.isNaN (Binary64.ofMagnitude negative m) = false := by
  rw [Binary64.isNaN, Binary64.magnitude_ofMagnitude negative h, decide_eq_false_iff_not]
  omega

theorem isFinite_ofMagnitude (negative : Bool) {m : Nat} (h : m < Binary64.infinity) :
    Binary64.isFinite (Binary64.ofMagnitude negative m) = true := by
  rw [Binary64.isFinite, Binary64.magnitude_ofMagnitude negative (Nat.le_of_lt h)]
  exact decide_eq_true h

theorem exists_ofMagnitude {v : Float} (h : Binary64.isFinite v = true) :
    ∃ negative m, m < Binary64.infinity ∧ v = Binary64.ofMagnitude negative m := by
  have hlt : Binary64.magnitude v < Binary64.infinity := by
    simpa [Binary64.isFinite] using h
  exact ⟨_, _, hlt, Binary64.eq_ofMagnitude (Nat.le_of_lt hlt)⟩

theorem render_zero (negative : Bool) : render (Binary64.ofMagnitude negative 0) = ['0'] := by
  have h := Nat.zero_le Binary64.infinity
  rw [render, if_neg (by rw [isNaN_ofMagnitude negative h]; decide),
    if_pos (Binary64.magnitude_ofMagnitude negative h)]

theorem render_infinity (negative : Bool) :
    render (Binary64.ofMagnitude negative Binary64.infinity) =
      signText negative ++ "Infinity".toList := by
  cases negative <;> rfl

theorem render_finite (negative : Bool) {m : Nat} (h : m < Binary64.infinity) (h0 : m ≠ 0) :
    render (Binary64.ofMagnitude negative m) =
      signText negative ++ (Decimal.shortest m).positional := by
  have hle := Nat.le_of_lt h
  unfold render
  rw [isNaN_ofMagnitude negative hle, Binary64.isFinite,
    Binary64.magnitude_ofMagnitude negative hle, Binary64.isNegative_ofMagnitude negative hle]
  simp [h0, h]

/-- A value that is written is read again, apart from the sign of zero. -/
theorem leadingNumber?_render (negative : Bool) {m : Nat} (h : m ≤ Binary64.infinity) :
    leadingNumber? (render (Binary64.ofMagnitude negative m)) =
      some (Binary64.ofMagnitude (negative && m != 0) m) := by
  by_cases h0 : m = 0
  · subst h0
    have hz := (@leadingNumber?_of_mantissa? ['0'] ⟨0, 0⟩ (.inl isDecimal_zero) (by decide)).1
    rw [Decimal.nearest_of_digits_eq_zero rfl] at hz
    simpa [render_zero] using hz
  have hb : (m != 0) = true := by simpa using h0
  rw [hb, Bool.and_true]
  by_cases hf : m < Binary64.infinity
  · rw [render_finite negative hf h0, leadingNumber?_positional hf]
  · obtain rfl : m = Binary64.infinity := by omega
    rw [render_infinity]
    cases negative <;> rfl

/-- A finite value is read back from its text as one that is equal to it and written alike. -/
theorem exists_leadingNumber?_render {v : Float} (h : Binary64.isFinite v = true) :
    ∃ w, leadingNumber? (render v) = some w ∧ Binary64.isFinite w = true ∧
      render w = render v ∧ (v == w) = true := by
  obtain ⟨negative, m, hm, rfl⟩ := exists_ofMagnitude h
  have hle := Nat.le_of_lt hm
  refine ⟨_, leadingNumber?_render negative hle, isFinite_ofMagnitude _ hm, ?_⟩
  by_cases h0 : m = 0
  · subst h0
    exact ⟨by rw [render_zero, render_zero], Binary64.zero_beq _ _ hle⟩
  · have hb : (m != 0) = true := by simpa using h0
    rw [hb, Bool.and_true]
    exact ⟨rfl, Binary64.beq_ofMagnitude_self negative hle⟩

end Reckoner
