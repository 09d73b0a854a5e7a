import Reckoner.Proofs.Magnitudes

/-!
# Opposite values

Products and quotients of opposite values are opposite, and a difference of values vanishes only if
they are equal. Both follow arithmetic through its rounding.
-/

namespace Reckoner.Binary64

open Float.Model Float.Model.UnpackedFloat

inductive Opposite : Float → Float → Prop where
  | nan : Opposite nan nan
  | signs (negative : Bool) {m : Nat} (h : m ≤ infinity) :
    Opposite (ofMagnitude negative m) (ofMagnitude (!negative) m)

theorem ofModel_pack {w u : UnpackedFloat}
    (h : UnpackedFloat.pack Format.binary64 w = UnpackedFloat.pack Format.binary64 u) :
    Float.ofModel (.pack w) = Float.ofModel (.pack u) := by
  simp only [Float.Model.pack, h]

theorem ofModel_pack_word {w : UnpackedFloat} {negative : Bool} {m : Nat} (hm : m ≤ infinity)
    (h : UnpackedFloat.pack Format.binary64 w = word negative m) :
    Float.ofModel (.pack w) = ofMagnitude negative m := by
  rw [ofMagnitude_eq negative hm]
  exact ofModel_pack (by rw [h, pack_unpacked negative hm])

theorem opposite_pack (w : UnpackedFloat) :
    Opposite (.ofModel (.pack w)) (.ofModel (.pack w.neg)) := by
  rcases exists_word w with rfl | ⟨negative, m, hm, h1, h2⟩
  · exact .nan
  · rw [ofModel_pack_word hm h1, ofModel_pack_word hm h2]
    exact .signs negative hm

theorem roundWithAccuracy_neg (s : Sign) (m : Nat) (e : Int) (a : Accuracy) :
    roundWithAccuracy Format.binary64 (-s) m e a =
      (roundWithAccuracy Format.binary64 s m e a).neg := by
  unfold roundWithAccuracy
  dsimp only
  split <;> rfl

theorem neg_mul (s t : Sign) : -s * t = -(s * t) := by
  cases s <;> cases t <;> rfl

theorem neg_div (s t : Sign) : -s / t = -(s / t) := by
  cases s <;> cases t <;> rfl

theorem mul_neg (x y : UnpackedFloat) :
    UnpackedFloat.mul Format.binary64 x.neg y = (UnpackedFloat.mul Format.binary64 x y).neg := by
  cases x <;> cases y <;>
    simp [UnpackedFloat.mul, UnpackedFloat.neg, neg_mul, roundWithAccuracy_neg]

theorem div_neg (x y : UnpackedFloat) :
    UnpackedFloat.div Format.binary64 x.neg y = (UnpackedFloat.div Format.binary64 x y).neg := by
  cases x <;> cases y <;>
    simp [UnpackedFloat.div, UnpackedFloat.neg, neg_div, roundWithAccuracy_neg]

theorem unpack_nan : nan.toModel.unpack = .notANumber := by
  rfl

/-- What commutes with the sign of its first operand keeps opposites. -/
theorem Opposite.map {f : UnpackedFloat → UnpackedFloat → UnpackedFloat}
    (hnan : ∀ y, f .notANumber y = .notANumber) (hneg : ∀ x y, f x.neg y = (f x y).neg)
    {a b : Float} (h : Opposite a b) (y : UnpackedFloat) :
    Opposite (.ofModel (.pack (f a.toModel.unpack y))) (.ofModel (.pack (f b.toModel.unpack y))) := by
  cases h with
  | nan =>
    rw [unpack_nan, hnan]
    exact .nan
  | @signs negative m hm =>
    rw [unpack_ofMagnitude negative hm, unpack_ofMagnitude (!negative) hm, ← neg_unpacked, hneg]
    exact opposite_pack _

theorem Opposite.mul {a b : Float} (h : Opposite a b) (y : Float) : Opposite (a * y) (b * y) :=
  h.map (fun y => by cases y <;> rfl) mul_neg y.toModel.unpack

theorem Opposite.div {a b : Float} (h : Opposite a b) (y : Float) : Opposite (a / y) (b / y) :=
  h.map (fun y => by cases y <;> rfl) div_neg y.toModel.unpack

theorem sub_ofMagnitude {n m : Nat} (a b : Bool) (hn : n ≤ infinity) (hm : m ≤ infinity) :
    ofMagnitude a n - ofMagnitude b m =
      .ofModel (.pack (UnpackedFloat.sub Format.binary64 (unpacked a n) (unpacked b m))) := by
  rw [← unpack_ofMagnitude a hn, ← unpack_ofMagnitude b hm]
  rfl

theorem add_ofMagnitude {n m : Nat} (a b : Bool) (hn : n ≤ infinity) (hm : m ≤ infinity) :
    ofMagnitude a n + ofMagnitude b m =
      .ofModel (.pack (UnpackedFloat.add Format.binary64 (unpacked a n) (unpacked b m))) := by
  rw [← unpack_ofMagnitude a hn, ← unpack_ofMagnitude b hm]
  rfl

theorem zero_add_zero (a b : Bool) :
    ofMagnitude a 0 + ofMagnitude b 0 = ofMagnitude (a && b) 0 := by
  cases a <;> cases b <;> rfl

theorem zero_sub_zero (a b : Bool) :
    ofMagnitude a 0 - ofMagnitude b 0 = ofMagnitude (a && !b) 0 := by
  cases a <;> cases b <;> rfl

/-- Zero, whatever its sign, adds nothing. -/
theorem zero_add (a b : Bool) {m : Nat} (h : m ≤ infinity) (h0 : m ≠ 0) :
    ofMagnitude a 0 + ofMagnitude b m = ofMagnitude b m := by
  rw [add_ofMagnitude a b (Nat.zero_le _) h, ofMagnitude_eq b h, unpacked_zero]
  rcases Nat.lt_or_eq_of_le h with hlt | rfl
  · rw [unpacked_finite b hlt h0]
    rfl
  · rfl

theorem zero_sub (a b : Bool) {m : Nat} (h : m ≤ infinity) (h0 : m ≠ 0) :
    ofMagnitude a 0 - ofMagnitude b m = ofMagnitude (!b) m := by
  rw [sub_ofMagnitude a b (Nat.zero_le _) h, ofMagnitude_eq (!b) h, ← neg_unpacked, unpacked_zero]
  rcases Nat.lt_or_eq_of_le h with hlt | rfl
  · rw [unpacked_finite b hlt h0]
    rfl
  · rfl

theorem sub_self (negative : Bool) {m : Nat} (h : m < infinity) (h0 : m ≠ 0) :
    ofMagnitude negative m - ofMagnitude negative m = ofMagnitude false 0 := by
  have hle := Nat.le_of_lt h
  rw [sub_ofMagnitude _ _ hle hle, ofMagnitude_eq false (Nat.zero_le _), unpacked_finite _ h h0,
    unpacked_zero]
  simp only [UnpackedFloat.sub, Int.sub_self, UnpackedFloat.normalize]
  rfl

/-- Zero times a finite value is zero, and zero times an infinity is no number. -/
theorem zero_mul (a b : Bool) {m : Nat} (h : m ≤ infinity) :
    (∃ c, ofMagnitude a 0 * ofMagnitude b m = ofMagnitude c 0) ∨
      m = infinity ∧ ofMagnitude a 0 * ofMagnitude b m = nan := by
  have hmul : ofMagnitude a 0 * ofMagnitude b m =
      .ofModel (.pack (UnpackedFloat.mul Format.binary64 (unpacked a 0) (unpacked b m))) := by
    rw [← unpack_ofMagnitude a (Nat.zero_le _), ← unpack_ofMagnitude b h]
    rfl
  rw [hmul]
  by_cases hi : m = infinity
  · subst hi
    exact .inr ⟨rfl, rfl⟩
  refine .inl ?_
  by_cases h0 : m = 0
  · subst h0
    cases a <;> cases b
    · exact ⟨false, rfl⟩
    · exact ⟨true, rfl⟩
    · exact ⟨true, rfl⟩
    · exact ⟨false, rfl⟩
  · rw [unpacked_finite b (by omega) h0]
    cases a <;> cases b
    · exact ⟨false, rfl⟩
    · exact ⟨true, rfl⟩
    · exact ⟨true, rfl⟩
    · exact ⟨false, rfl⟩

/-- Zero divided by anything but zero is zero. -/
theorem zero_div (a b : Bool) {m : Nat} (h : m ≤ infinity) (h0 : m ≠ 0) :
    ∃ c, ofMagnitude a 0 / ofMagnitude b m = ofMagnitude c 0 := by
  have hdiv : ofMagnitude a 0 / ofMagnitude b m =
      .ofModel (.pack (UnpackedFloat.div Format.binary64 (unpacked a 0) (unpacked b m))) := by
    rw [← unpack_ofMagnitude a (Nat.zero_le _), ← unpack_ofMagnitude b h]
    rfl
  rw [hdiv]
  rcases Nat.lt_or_eq_of_le h with hlt | rfl
  · rw [unpacked_finite b hlt h0]
    cases a <;> cases b
    · exact ⟨false, rfl⟩
    · exact ⟨true, rfl⟩
    · exact ⟨true, rfl⟩
    · exact ⟨false, rfl⟩
  · cases a <;> cases b
    · exact ⟨false, rfl⟩
    · exact ⟨true, rfl⟩
    · exact ⟨true, rfl⟩
    · exact ⟨false, rfl⟩

theorem shiftRight_mantissa (k : Nat) (x : ExtendedMantissa) :
    (x >>> k).mantissa = x.mantissa / 2 ^ k := by
  induction k with
  | zero =>
    rw [Nat.pow_zero, Nat.div_one]
    rfl
  | succ k ih =>
    have hstep : (x >>> (k + 1)).mantissa = (x >>> k).mantissa / 2 := rfl
    rw [hstep, ih, Nat.div_div_eq_div_mul, Nat.pow_succ]

theorem mantissa_le_rounded (x : ExtendedMantissa) : x.mantissa ≤ x.roundedMantissa := by
  obtain ⟨m, r, s⟩ := x
  cases r <;> cases s
  · exact Nat.le_refl _
  · exact Nat.le_refl _
  · exact Nat.le_add_right _ _
  · exact Nat.le_add_right _ _

/-- A positive mantissa keeps its leading bit when it is shifted to its place. -/
theorem shiftToTargetExponent_bounds {m : Nat} {e : Int} (a : Accuracy) (hm : 0 < m)
    (he : -1074 ≤ e) :
    0 < (shiftToTargetExponent Format.binary64 m e a).1.mantissa ∧
      (shiftToTargetExponent Format.binary64 m e a).1.mantissa < 2 ^ 53 ∧
      -1074 ≤ (shiftToTargetExponent Format.binary64 m e a).2 := by
  have ht : Format.binary64.targetExponent (totalExponent m e) =
      max (m.log2 + 1 + e - 53) (-1074) := rfl
  have hmantissa : (ExtendedMantissa.ofMantissaAndAccuracy m a).mantissa = m := by
    cases a with
    | exact => rfl
    | inexact o => cases o <;> rfl
  simp only [shiftToTargetExponent, shiftToExponent, shiftRight_mantissa, hmantissa, ht]
  have hlow := Nat.log2_self_le (Nat.ne_of_gt hm)
  have hhigh := @Nat.lt_log2_self m
  generalize m.log2 = l at hlow hhigh ⊢
  generalize hk : (max ((l : Int) + 1 + e - 53) (-1074) - e).toNat = k
  have hkl : k ≤ l := by omega
  have hlk : l + 1 ≤ 53 + k := by omega
  refine ⟨?_, ?_, by omega⟩
  · apply Nat.div_pos _ (Nat.two_pow_pos k)
    exact Nat.le_trans (Nat.pow_le_pow_right (by decide) hkl) hlow
  · rw [Nat.div_lt_iff_lt_mul (Nat.two_pow_pos k), ← Nat.pow_add]
    exact Nat.lt_of_lt_of_le hhigh (Nat.pow_le_pow_right (by decide) hlk)

/-- Nothing but zero is rounded to zero where the exponents are those of values. -/
theorem round_finite (s : Sign) {m : Nat} {e : Int} (hm : 0 < m) (he : -1074 ≤ e) :
    ∃ f x, ∃ hf : 0 < f, UnpackedFloat.round Format.binary64 s m e = .finite s f x hf ∧ f < 2 ^ 53 ∧
      -1074 ≤ x := by
  unfold UnpackedFloat.round decreaseExponent roundWithAccuracy
  dsimp only
  generalize hk : (e - Format.binary64.targetExponent (totalExponent m e)).toNat = k
  have ht : -1074 ≤ Format.binary64.targetExponent (totalExponent m e) := Int.le_max_right _ _
  have hpos : 0 < m <<< k := by
    rw [Nat.shiftLeft_eq]
    exact Nat.mul_pos hm (Nat.two_pow_pos k)
  obtain ⟨h1, -, h3⟩ := @shiftToTargetExponent_bounds _ (e - k) .exact hpos (by omega)
  have hr := Nat.lt_of_lt_of_le h1 (mantissa_le_rounded _)
  obtain ⟨g1, g2, g3⟩ := shiftToTargetExponent_bounds .exact hr h3
  rw [dif_neg (Nat.ne_of_gt g1)]
  exact ⟨_, _, g1, rfl, g2, g3⟩

theorem normalize_apply (negative : Bool) {m : Nat} (hm : 0 < m) (e : Int) (zero : Sign) :
    UnpackedFloat.normalize Format.binary64 ((signOf negative).apply m) e zero =
      UnpackedFloat.round Format.binary64 (signOf negative) m e := by
  unfold UnpackedFloat.normalize
  cases negative with
  | true =>
    have hlt : compare ((signOf true).apply m) 0 = .lt := by
      rw [Int.compare_eq_lt, signOf, if_pos rfl, Sign.apply]
      omega
    have hm : (-(signOf true).apply m).toNat = m := by
      rw [signOf, if_pos rfl, Sign.apply]
      omega
    rw [hlt, hm]
    rfl
  | false =>
    have hgt : compare ((signOf false).apply m) 0 = .gt := by
      rw [Int.compare_eq_gt, signOf, if_neg Bool.false_ne_true, Sign.apply]
      omega
    rw [hgt]
    rfl

/-- A finite value and its opposite are not equal. -/
theorem sub_opposite (negative : Bool) {m : Nat} (h : m < infinity) (h0 : m ≠ 0) :
    ∃ k, k ≠ 0 ∧ k ≤ infinity ∧
      ofMagnitude negative m - ofMagnitude (!negative) m = ofMagnitude negative k := by
  have hle := Nat.le_of_lt h
  have he : -1074 ≤ exponent m := by
    unfold exponent
    split <;> omega
  have hpos : 0 < significand m + significand m := by
    have := significand_pos h0
    omega
  obtain ⟨f, x, hf, hr, hlt, hx⟩ := round_finite (signOf negative) hpos he
  obtain ⟨k, hk, hne, hw⟩ := pack_finite x hf
  refine ⟨k, hne hlt hx, hk, ?_⟩
  rw [sub_ofMagnitude _ _ hle hle, unpacked_finite _ h h0, unpacked_finite _ h h0]
  apply ofModel_pack_word hk
  rw [← hw, ← hr]
  rw [← normalize_apply negative hpos (exponent m) .positive]
  simp only [UnpackedFloat.sub, Int.min_self, decreaseExponent, Int.sub_self, Int.toNat_zero,
    Nat.shiftLeft_zero]
  have hsum : (signOf negative).apply (significand m) - (signOf !negative).apply (significand m) =
      (signOf negative).apply ((significand m + significand m : Nat) : Int) := by
    cases negative with
    | true =>
      simp only [signOf, Sign.apply, if_true, Bool.not_true, Bool.false_eq_true, if_false]
      omega
    | false =>
      simp only [signOf, Sign.apply, if_true, Bool.not_false, Bool.false_eq_true, if_false]
      omega
  rw [hsum]

theorem compare_unpacked_zero (negative : Bool) {m : Nat} :
    (unpacked negative m).compare (unpacked false 0) =
      some (if m = 0 then .eq else if negative then .lt else .gt) := by
  rw [unpacked_zero]
  unfold unpacked
  by_cases hi : m = infinity
  · subst hi
    cases negative <;> rfl
  by_cases h0 : m = 0
  · subst h0
    rfl
  · rw [if_neg hi, dif_neg h0, if_neg h0]
    cases negative <;> rfl

theorem lt_zero_iff (negative : Bool) {m : Nat} (h : m ≤ infinity) :
    ofMagnitude negative m < 0 ↔ negative = true ∧ m ≠ 0 := by
  have hlt : ofMagnitude negative m < 0 ↔
      UnpackedFloat.lt (ofMagnitude negative m).toModel.unpack (unpacked false 0) = true :=
    decide_eq_true_iff
  rw [hlt, unpack_ofMagnitude negative h, UnpackedFloat.lt, compare_unpacked_zero]
  by_cases h0 : m = 0
  · simp [h0]
  · cases negative <;> simp [h0]

theorem beq_ofMagnitude_self (negative : Bool) {m : Nat} (h : m ≤ infinity) :
    (ofMagnitude negative m == ofMagnitude negative m) = true := by
  change UnpackedFloat.beq _ _ = true
  rw [unpack_ofMagnitude negative h]
  by_cases hi : m = infinity
  · subst hi
    cases negative <;> rfl
  by_cases h0 : m = 0
  · subst h0
    rfl
  · rw [unpacked_finite negative (by omega) h0, UnpackedFloat.beq]
    cases negative <;>
      simp [signOf, UnpackedFloat.compare]

/-- No value but zero equals zero, and the sign of zero does not matter. -/
theorem zero_beq (a b : Bool) {m : Nat} (h : m ≤ infinity) :
    (ofMagnitude a 0 == ofMagnitude b m) = (m == 0) := by
  change UnpackedFloat.beq _ _ = _
  rw [unpack_ofMagnitude b h, unpack_ofMagnitude a (Nat.zero_le _), unpacked_zero]
  by_cases hi : m = infinity
  · subst hi
    cases b <;> rfl
  by_cases h0 : m = 0
  · subst h0
    rfl
  · have hne : (m == 0) = false := by simpa using h0
    rw [unpacked_finite b (by omega) h0, hne]
    cases b <;> rfl

end Reckoner.Binary64
