import Reckoner.Proofs.ReadBack

/-!
# Rounding to the nearest value

Every magnitude stands for a rational number, and the numbers grow with the magnitudes. The
rounding of a decimal is said without its computation: of all magnitudes up to infinity it is the
nearest one, and an even one where two are equally near. There is only one such magnitude, and
`Decimal.nearest` computes it.
-/

namespace Reckoner

namespace Binary64

/-- The number a magnitude stands for. Infinity counts as `2 ^ 1024`, the number behind the greatest
finite one. -/
def value (m : Nat) : ℚ := significand m * 2 ^ exponent m

/-- The magnitude nearest to a number, a half to the even one. -/
structure IsNearest (x : ℚ) (m : Nat) : Prop where
  le_infinity : m ≤ infinity
  nearer : ∀ k ≤ infinity, |x - value m| ≤ |x - value k|
  even : ∀ k ≤ infinity, k ≠ m → |x - value k| = |x - value m| → m % 2 = 0

/-- A unit `2 ^ (e - 1074)` taken `s` times is a magnitude, if `s` is normal for that unit. -/
theorem value_fields {e s : Nat} (hs : s ≤ 2 ^ 53) (he : e = 0 ∨ 2 ^ 52 ≤ s) :
    value (e * 2 ^ 52 + s) = s * 2 ^ ((e : Int) - 1074) := by
  by_cases hsub : e * 2 ^ 52 + s < 2 ^ 52
  · obtain rfl : e = 0 := by omega
    rw [value, significand, exponent, if_pos (by omega), if_pos (by omega)]
    norm_num
  have hnormal : value (e * 2 ^ 52 + s) = ((2 ^ 52 + (e * 2 ^ 52 + s) % 2 ^ 52 : Nat) : ℚ) *
      2 ^ ((((e * 2 ^ 52 + s) / 2 ^ 52 : Nat) : Int) - 1075) := by
    rw [value, significand, exponent, if_neg (by omega), if_neg (by omega)]
    norm_num
  rw [hnormal]
  by_cases htop : s = 2 ^ 53
  · have hmod : (e * 2 ^ 52 + s) % 2 ^ 52 = 0 := by omega
    have hdiv : (e * 2 ^ 52 + s) / 2 ^ 52 = e + 2 := by omega
    have hunit : (((e + 2 : Nat) : Int) - 1075) = ((e : Int) - 1074) + 1 := by omega
    rw [hmod, hdiv, hunit, zpow_add_one₀ (by norm_num), htop]
    push_cast
    ring
  · have hmod : 2 ^ 52 + (e * 2 ^ 52 + s) % 2 ^ 52 = s := by omega
    have hdiv : (e * 2 ^ 52 + s) / 2 ^ 52 = e + 1 := by omega
    have hunit : (((e + 1 : Nat) : Int) - 1075) = (e : Int) - 1074 := by omega
    rw [hmod, hdiv, hunit]

/-- From a magnitude to the next one it is one unit. -/
theorem value_succ (m : Nat) : value (m + 1) = value m + 2 ^ exponent m := by
  obtain ⟨e, s, rfl, hs, he, hunit⟩ : ∃ e s, m = e * 2 ^ 52 + s ∧ s < 2 ^ 53 ∧
      (e = 0 ∨ 2 ^ 52 ≤ s) ∧ exponent m = (e : Int) - 1074 := by
    unfold exponent
    split
    · exact ⟨0, m, by omega, by omega, .inl rfl, rfl⟩
    · exact ⟨m / 2 ^ 52 - 1, 2 ^ 52 + m % 2 ^ 52, by omega, by omega, .inr (by omega), by omega⟩
  rw [hunit, Nat.add_assoc, value_fields hs (by omega), value_fields (Nat.le_of_lt hs) he]
  push_cast
  ring

theorem value_strictMono : StrictMono value := by
  refine strictMono_nat_of_lt_succ fun m => ?_
  rw [value_succ]
  exact lt_add_of_pos_right _ (zpow_pos (by norm_num) _)

@[simp] theorem value_zero : value 0 = 0 := by simp [value, significand]

theorem value_infinity : value infinity = 2 ^ 1024 := by
  rw [show infinity = 2046 * 2 ^ 52 + 2 ^ 52 from rfl,
    value_fields (by norm_num) (.inr (Nat.le_refl _))]
  rw [show (((2046 : Nat) : Int) - 1074) = (972 : Nat) from rfl, zpow_natCast]
  rw [Nat.cast_pow, Nat.cast_ofNat, ← pow_add]

section Nearest

variable {x : ℚ} {m k c : Nat}

/-- Of two magnitudes with nothing between them and `x` the nearer one is nearest of all. -/
theorem isNearest_of_adjacent (hm : m < infinity) (hlo : value m ≤ x) (hhi : x ≤ value (m + 1))
    (hc : c = m ∨ c = m + 1) (hbelow : |x - value c| ≤ x - value m)
    (habove : |x - value c| ≤ value (m + 1) - x)
    (htie : x - value m = value (m + 1) - x → c % 2 = 0) : IsNearest x c := by
  have hleft : ∀ {k}, k ≤ m → |x - value k| = x - value k ∧ value k ≤ value m := by
    intro k hk
    have hle := value_strictMono.monotone hk
    exact ⟨abs_of_nonneg (by linarith), hle⟩
  have hright : ∀ {k}, m < k → |x - value k| = value k - x ∧ value (m + 1) ≤ value k := by
    intro k hk
    have hle := value_strictMono.monotone (Nat.succ_le_of_lt hk)
    rw [abs_sub_comm]
    exact ⟨abs_of_nonneg (by linarith), hle⟩
  refine ⟨by omega, fun k _ => ?_, fun k _ hne heq => htie ?_⟩
  · rcases Nat.lt_or_ge m k with hk | hk
    · linarith [hright hk]
    · linarith [hleft hk]
  · -- Equally near is only the other one of the two.
    rcases Nat.lt_or_ge m k with hk | hk
    · obtain ⟨habs, hle⟩ := hright hk
      obtain rfl : k = m + 1 := value_strictMono.injective (by linarith)
      obtain rfl : c = m := by omega
      linarith [(hleft (Nat.le_refl c)).1]
    · obtain ⟨habs, hle⟩ := hleft hk
      obtain rfl : k = m := value_strictMono.injective (by linarith)
      obtain rfl : c = k + 1 := by omega
      linarith [(hright (Nat.lt_succ_self k)).1]

theorem isNearest_lower (hm : m < infinity) (hlo : value m ≤ x)
    (h : x - value m < value (m + 1) - x) : IsNearest x m := by
  have habs : |x - value m| = x - value m := abs_of_nonneg (by linarith)
  exact isNearest_of_adjacent hm hlo (by linarith) (.inl rfl) (by linarith) (by linarith)
    fun htie => absurd htie h.ne

theorem isNearest_upper (hm : m < infinity) (hhi : x ≤ value (m + 1))
    (h : value (m + 1) - x < x - value m) : IsNearest x (m + 1) := by
  have habs : |x - value (m + 1)| = value (m + 1) - x := by
    rw [abs_sub_comm]
    exact abs_of_nonneg (by linarith)
  exact isNearest_of_adjacent hm (by linarith) hhi (.inr rfl) (by linarith) (by linarith)
    fun htie => absurd htie h.ne'

/-- A half goes to the even magnitude. -/
theorem isNearest_half (hm : m < infinity) (hlo : value m ≤ x)
    (h : x - value m = value (m + 1) - x) : IsNearest x (m + m % 2) := by
  have hc : m + m % 2 = m ∨ m + m % 2 = m + 1 := by omega
  have habs : |x - value (m + m % 2)| = x - value m := by
    rcases hc with hc | hc
    · rw [hc, abs_of_nonneg (by linarith)]
    · rw [hc, abs_sub_comm, abs_of_nonneg (by linarith), h]
  exact isNearest_of_adjacent hm hlo (by linarith) hc habs.le (by linarith) fun _ => by omega

/-- What is as great as infinity is rounded to it. -/
theorem isNearest_infinity (h : value infinity ≤ x) : IsNearest x infinity := by
  refine ⟨Nat.le_refl _, fun k hk => ?_, fun _ _ _ _ => by decide⟩
  have hle := value_strictMono.monotone hk
  rw [abs_of_nonneg (by linarith), abs_of_nonneg (by linarith)]
  linarith

/-- A number is rounded by what part of the way from a magnitude to the next one it has come. -/
theorem isNearest_min {part u : ℚ} {q : Nat} (hu : 0 < u) (h0 : 0 ≤ part) (h1 : part < 1)
    (hdown : x - value m = part * u) (hup : value (m + 1) - x = (1 - part) * u)
    (hq : 2 * part < 1 ∧ q = m ∨ 1 < 2 * part ∧ q = m + 1 ∨ 2 * part = 1 ∧ q = m + m % 2) :
    IsNearest x (min q infinity) := by
  have hle : value m ≤ x := by
    have : 0 ≤ part * u := by positivity
    linarith
  have hle' : x ≤ value (m + 1) := by
    have : 0 ≤ (1 - part) * u := mul_nonneg (by linarith) hu.le
    linarith
  rcases Nat.lt_or_ge m infinity with hlt | hge
  · rcases hq with ⟨hpart, rfl⟩ | ⟨hpart, rfl⟩ | ⟨hpart, rfl⟩
    · rw [Nat.min_eq_left hlt.le]
      refine isNearest_lower hlt hle ?_
      rw [hdown, hup]
      exact mul_lt_mul_of_pos_right (by linarith) hu
    · rw [Nat.min_eq_left hlt]
      refine isNearest_upper hlt hle' ?_
      rw [hdown, hup]
      exact mul_lt_mul_of_pos_right (by linarith) hu
    · rw [Nat.min_eq_left (by omega)]
      refine isNearest_half hlt hle ?_
      rw [hdown, hup]
      congr 1
      linarith
  · rw [Nat.min_eq_right (by omega)]
    exact isNearest_infinity ((value_strictMono.monotone hge).trans hle)

/-- What is below half the least magnitude is rounded to zero. -/
theorem isNearest_zero (h0 : 0 ≤ x) (h : 2 * x < value 1) : IsNearest x 0 := by
  refine isNearest_lower (by decide) (by simpa using h0) ?_
  rw [value_zero, Nat.zero_add]
  linarith

/-- No two magnitudes are nearest to one number. -/
theorem IsNearest.unique (hm : IsNearest x m) (hk : IsNearest x k) : m = k := by
  wlog hlt : m < k generalizing m k
  · rcases Nat.lt_trichotomy m k with h | h | h
    · exact absurd h hlt
    · exact h
    · exact (this hk hm h).symm
  have heq : |x - value m| = |x - value k| :=
    le_antisymm (hm.nearer k hk.le_infinity) (hk.nearer m hm.le_infinity)
  have hme := hm.even k hk.le_infinity (Nat.ne_of_gt hlt) heq.symm
  have hke := hk.even m hm.le_infinity (Nat.ne_of_lt hlt) heq
  -- Two even magnitudes have a third one between them, which is nearer.
  have hle := hk.le_infinity
  have hbetween := hm.nearer (m + 1) (by omega)
  have h1 := value_strictMono (Nat.lt_succ_self m)
  have h2 := value_strictMono (show m + 1 < k by omega)
  rw [abs_sub_comm x (value k)] at heq
  rcases abs_eq_abs.1 heq with hmid | hsame
  · have habs : |x - value (m + 1)| < x - value m := abs_lt.2 ⟨by linarith, by linarith⟩
    rw [abs_of_nonneg (show 0 ≤ x - value m by linarith)] at hbetween
    linarith
  · linarith

end Nearest

section Quotients

variable {num den : Nat}

/-- A quotient is so many units and a part of one, by which it is rounded. -/
theorem divNearest_spec (n : Nat) {d : Nat} (hd : 0 < d) : ∃ part : ℚ,
    0 ≤ part ∧ part < 1 ∧ (n : ℚ) / d = (n / d : Nat) + part ∧
    (2 * part < 1 ∧ divNearest n d = n / d ∨ 1 < 2 * part ∧ divNearest n d = n / d + 1 ∨
      2 * part = 1 ∧ divNearest n d = n / d + n / d % 2) := by
  have hdq : (0 : ℚ) < d := by exact_mod_cast hd
  obtain ⟨part, hpart⟩ : ∃ part : ℚ, part * d = (n % d : Nat) :=
    ⟨(n % d : Nat) / d, div_mul_cancel₀ _ hdq.ne'⟩
  have htwice : ((2 * (n % d) : Nat) : ℚ) = 2 * part * d := by
    rw [Nat.cast_mul, ← hpart]
    ring
  refine ⟨part, ?_, ?_, ?_, ?_⟩
  · have : 0 ≤ part * d := by
      rw [hpart]
      positivity
    exact nonneg_of_mul_nonneg_left this hdq
  · rw [← mul_lt_mul_iff_left₀ hdq, hpart, one_mul]
    exact_mod_cast Nat.mod_lt n hd
  · rw [div_eq_iff hdq.ne', add_mul, hpart]
    exact_mod_cast (Nat.div_add_mod' n d).symm
  · rw [← mul_lt_iff_lt_one_left hdq, ← lt_mul_iff_one_lt_left hdq, ← mul_eq_right₀ hdq.ne',
      ← htwice]
    simp only [divNearest]
    norm_cast
    split
    · next h => exact .inl ⟨h, rfl⟩
    split
    · next h => exact .inr (.inl ⟨h, rfl⟩)
    · next h => exact .inr (.inr ⟨by omega, rfl⟩)

/-- A quotient in units of `2 ^ (e - 1074)` is rounded to the nearest magnitude. -/
theorem isNearest_fields {e n d : Nat} (hd : 0 < d) (hfloor : n / d < 2 ^ 53)
    (hnormal : e = 0 ∨ 2 ^ 52 ≤ n / d) :
    IsNearest ((n : ℚ) / d * 2 ^ ((e : Int) - 1074))
      (min (e * 2 ^ 52 + divNearest n d) infinity) := by
  have hlo := value_fields (Nat.le_of_lt hfloor) hnormal
  have hhi : value (e * 2 ^ 52 + n / d + 1) = ((n / d + 1 : Nat) : ℚ) * 2 ^ ((e : Int) - 1074) := by
    rw [Nat.add_assoc, value_fields (by omega) (by omega)]
  obtain ⟨part, h0, h1, hdiv, hq⟩ := divNearest_spec n hd
  have hu : (0 : ℚ) < 2 ^ ((e : Int) - 1074) := zpow_pos (by norm_num) _
  refine @isNearest_min _ (e * 2 ^ 52 + n / d) part _ _ hu h0 h1 ?_ ?_ ?_
  · rw [hlo, hdiv]
    ring
  · rw [hhi, hdiv]
    push_cast
    ring
  · have hparity : (e * 2 ^ 52 + n / d) % 2 = n / d % 2 := by omega
    rw [hparity]
    rcases hq with ⟨hpart, hq⟩ | ⟨hpart, hq⟩ | ⟨hpart, hq⟩
    · exact .inl ⟨hpart, by rw [hq]⟩
    · exact .inr (.inl ⟨hpart, by rw [hq, Nat.add_assoc]⟩)
    · exact .inr (.inr ⟨hpart, by rw [hq, Nat.add_assoc]⟩)

/-- A quotient is rounded to the nearest magnitude. -/
theorem isNearest_ofQuotient (hd : den ≠ 0) :
    IsNearest ((num : ℚ) / den) (ofQuotient num den) := by
  by_cases hn : num = 0
  · subst hn
    have hpos := value_strictMono Nat.zero_lt_one
    rw [value_zero] at hpos
    rw [ofQuotient_zero]
    exact isNearest_zero (by simp) (by simpa using hpos)
  obtain ⟨hlow, hhigh⟩ := binaryOrder_spec hn hd
  rw [ofQuotient, if_neg hn]
  simp only [Nat.shiftLeft_eq]
  generalize hunit : max (binaryOrder num den - 52) (-1074) = unit
  generalize hnum : num * 2 ^ (-unit).toNat = n
  generalize hden : den * 2 ^ unit.toNat = d
  have hdpos : 0 < d := by
    rw [← hden]
    positivity
  have hdq : (0 : ℚ) < d := by exact_mod_cast hdpos
  have hupos : (0 : ℚ) < 2 ^ unit := zpow_pos (by norm_num) _
  -- In units of the last place the quotient is `n / d`.
  have hx : (num : ℚ) / den = (n : ℚ) / d * 2 ^ unit := by
    have hdne : (den : ℚ) ≠ 0 := by exact_mod_cast hd
    rw [← hnum, ← hden, zpow_eq_div 2 unit]
    push_cast
    field_simp
  have hfloor : n / d < 2 ^ 53 := by
    have hlt : (num : ℚ) / den < 2 ^ (53 : Int) * 2 ^ unit := by
      refine hhigh.trans_le ?_
      rw [← zpow_add₀ (by norm_num)]
      exact zpow_le_zpow_right₀ (by norm_num) (by omega)
    rw [hx, mul_lt_mul_iff_left₀ hupos, div_lt_iff₀ hdq] at hlt
    rw [Nat.div_lt_iff_lt_mul hdpos]
    exact_mod_cast hlt
  have hnormal : (unit + 1074).toNat = 0 ∨ 2 ^ 52 ≤ n / d := by
    by_cases hsub : unit = -1074
    · exact .inl (by omega)
    · have hle : 2 ^ (52 : Int) * 2 ^ unit ≤ (num : ℚ) / den := by
        refine le_trans ?_ hlow
        rw [← zpow_add₀ (by norm_num)]
        exact zpow_le_zpow_right₀ (by norm_num) (by omega)
      rw [hx, mul_le_mul_iff_left₀ hupos, le_div_iff₀ hdq] at hle
      refine .inr ((Nat.le_div_iff_mul_le hdpos).2 ?_)
      exact_mod_cast hle
  have hexp : (((unit + 1074).toNat : Nat) : Int) - 1074 = unit := by omega
  have h := isNearest_fields hdpos hfloor hnormal
  rwa [hexp, ← hx] at h

end Quotients

end Binary64

namespace Decimal

open Binary64

def value (d : Decimal) : ℚ := d.digits * 10 ^ d.exponent

theorem value_eq_div (d : Decimal) : d.value =
    ((d.digits * 10 ^ d.exponent.toNat : Nat) : ℚ) / ((10 ^ (-d.exponent).toNat : Nat) : ℚ) := by
  rw [value, zpow_eq_div]
  push_cast
  ring

/-- From `10 ^ 311` on a number is infinite. -/
theorem infinity_le_ten_pow : Binary64.value infinity ≤ 10 ^ (311 : Int) := by
  have h : 2 ^ 1024 ≤ 10 ^ 311 := by decide +kernel
  have hq : ((2 ^ 1024 : Nat) : ℚ) ≤ (10 ^ 311 : Nat) := Nat.cast_le.2 h
  rw [Nat.cast_pow, Nat.cast_pow, Nat.cast_ofNat, Nat.cast_ofNat] at hq
  rwa [value_infinity, zpow_ofNat]

/-- Below `10 ^ -330` a number is below half the least magnitude. -/
theorem ten_pow_lt_least : 2 * (10 : ℚ) ^ (-331 : Int) < Binary64.value 1 := by
  have h : 2 * 2 ^ 1074 < 10 ^ 331 := by decide +kernel
  have hq : ((2 * 2 ^ 1074 : Nat) : ℚ) < (10 ^ 331 : Nat) := Nat.cast_lt.2 h
  rw [Nat.cast_mul, Nat.cast_pow, Nat.cast_pow, Nat.cast_ofNat, Nat.cast_ofNat] at hq
  have hleast : Binary64.value 1 = ((2 : ℚ) ^ 1074)⁻¹ := by
    rw [show (1 : Nat) = 0 * 2 ^ 52 + 1 from rfl, value_fields (by norm_num) (.inl rfl)]
    rw [Nat.cast_one, one_mul, Nat.cast_zero, Int.zero_sub, zpow_neg, zpow_ofNat]
  rw [hleast, zpow_neg, zpow_ofNat, ← div_eq_mul_inv, div_lt_iff₀ (by positivity),
    ← div_eq_inv_mul, lt_div_iff₀ (by positivity)]
  exact hq

/-- A decimal is rounded to the nearest magnitude. -/
theorem isNearest_nearest (d : Decimal) : IsNearest d.value d.nearest := by
  rw [nearest_eq]
  split
  · next h0 =>
    have hleast := value_strictMono Nat.zero_lt_one
    exact isNearest_zero (by simp [value, h0]) (by simpa [value, h0] using hleast)
  next h0 =>
  have hdigits : (1 : ℚ) ≤ d.digits := by exact_mod_cast Nat.pos_of_ne_zero h0
  split
  · next hbig =>
    refine isNearest_infinity ?_
    calc Binary64.value infinity ≤ 10 ^ (311 : Int) := infinity_le_ten_pow
      _ ≤ 10 ^ d.exponent := zpow_le_zpow_right₀ (by norm_num) (by omega)
      _ ≤ d.digits * 10 ^ d.exponent := le_mul_of_one_le_left (by positivity) hdigits
  split
  · next hsmall =>
    refine isNearest_zero (by unfold value; positivity) ?_
    have hlog : (d.digits : ℚ) ≤ 10 ^ ((d.digits.log2 : Int) + 1) := by
      calc (d.digits : ℚ) ≤ 2 ^ (d.digits.log2 + 1) := by
            exact_mod_cast (@Nat.lt_log2_self d.digits).le
        _ ≤ 10 ^ (d.digits.log2 + 1) := by gcongr; norm_num
        _ = 10 ^ ((d.digits.log2 : Int) + 1) := by norm_cast
    calc 2 * d.value ≤ 2 * (10 ^ ((d.digits.log2 : Int) + 1) * 10 ^ d.exponent) := by
          unfold value
          gcongr
      _ = 2 * 10 ^ ((d.digits.log2 : Int) + 1 + d.exponent) := by rw [← zpow_add₀ (by norm_num)]
      _ ≤ 2 * 10 ^ (-331 : Int) := by
          gcongr
          · norm_num
          · omega
      _ < Binary64.value 1 := ten_pow_lt_least
  · rw [value_eq_div]
    exact isNearest_ofQuotient (by positivity)

/-- The rounding sees nothing of a decimal but its number. -/
theorem nearest_congr {d e : Decimal} (h : d.value = e.value) : d.nearest = e.nearest :=
  (h ▸ d.isNearest_nearest).unique e.isNearest_nearest

end Decimal

end Reckoner
