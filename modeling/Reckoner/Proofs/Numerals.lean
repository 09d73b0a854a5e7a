import Reckoner.Proofs.Leftmost
import Reckoner.Proofs.Rounding

/-!
# The longest numeral

A numeral is an optional sign and either `Infinity` or digits with at most one point among or beside
them and an optional exponent. The number a numeral writes is said part by part, without the scanner
and its decimals. The number in front of a text is the value of the longest numeral that the text
begins with behind its blanks, and there is none exactly if no numeral stands there.
-/

namespace Reckoner

open Literal

/-- A sign in front of a number, or none, and whether it is a minus. -/
inductive IsLeadingSign : Text → Bool → Prop
  | none : IsLeadingSign [] false
  | plus : IsLeadingSign ['+'] false
  | minus : IsLeadingSign ['-'] true

/-- Digits with at most one point and at least one digit, and the number they write. -/
inductive IsMantissa : Text → ℚ → Prop
  | whole {ds : Text} (h : IsDigits ds) : IsMantissa ds (Nat.ofDigitChars 10 ds 0)
  | point {ds fs : Text} (hd : IsDigits ds) (hf : ∀ c ∈ fs, c.isDigit = true) :
      IsMantissa (ds ++ '.' :: fs)
        (Nat.ofDigitChars 10 ds 0 + Nat.ofDigitChars 10 fs 0 / 10 ^ fs.length)
  | fraction {fs : Text} (h : IsDigits fs) :
      IsMantissa ('.' :: fs) (Nat.ofDigitChars 10 fs 0 / 10 ^ fs.length)

/-- An exponent, or none, and the power of ten it is. -/
inductive IsExponent : Text → Int → Prop
  | none : IsExponent [] 0
  | power {mark : Char} {s ds : Text} {negative : Bool} (hm : mark = 'e' ∨ mark = 'E')
      (hs : IsLeadingSign s negative) (hd : IsDigits ds) :
      IsExponent (mark :: (s ++ ds))
        (if negative then -(Nat.ofDigitChars 10 ds 0 : Int) else Nat.ofDigitChars 10 ds 0)

/-- A numeral without a sign and the number it writes; infinity writes none. -/
inductive IsAmount : Text → Option ℚ → Prop
  | infinity : IsAmount "Infinity".toList none
  | decimal {body power : Text} {x : ℚ} {p : Int} (hb : IsMantissa body x)
      (he : IsExponent power p) : IsAmount (body ++ power) (some (x * 10 ^ p))

/-- A numeral, whether it has a minus sign, and the number it writes behind it. -/
def IsNumeral (w : Text) (negative : Bool) (d : Option ℚ) : Prop :=
  ∃ s amount, IsLeadingSign s negative ∧ IsAmount amount d ∧ w = s ++ amount

/-- The value of a numeral: the nearest one to its number, with its sign. -/
def IsValue (negative : Bool) : Option ℚ → Float → Prop
  | none, v => v = Binary64.ofMagnitude negative Binary64.infinity
  | some x, v => ∃ m, Binary64.IsNearest x m ∧ v = Binary64.ofMagnitude negative m

/-- No numeral in front of `t` is longer than `w`. -/
structure IsLongest (t w : Text) : Prop where
  isPrefix : w <+: t
  longest : ∀ v negative d, IsNumeral v negative d → v <+: t → v.length ≤ w.length

theorem isValue_value_iff {negative : Bool} {d : Decimal} {v : Float} :
    IsValue negative (some d.value) v ↔ v = Binary64.ofMagnitude negative d.nearest := by
  constructor
  · rintro ⟨m, hm, rfl⟩
    rw [hm.unique d.isNearest_nearest]
  · exact fun h => ⟨d.nearest, d.isNearest_nearest, h⟩

theorem IsValue.not_nan {negative : Bool} {d : Option ℚ} {v : Float}
    (h : IsValue negative d v) : Binary64.isNaN v = false := by
  cases d with
  | none =>
    rw [h]
    exact isNaN_ofMagnitude negative (Nat.le_refl _)
  | some x =>
    obtain ⟨m, hm, rfl⟩ := h
    exact isNaN_ofMagnitude negative hm.le_infinity

namespace Decimal

/-- Behind the point the digits count tenths, hundredths and so on. -/
theorem value_ofParts (ds fs : Text) : (ofParts ds fs).value =
    Nat.ofDigitChars 10 ds 0 + Nat.ofDigitChars 10 fs 0 / 10 ^ fs.length := by
  have hpos : (10 : ℚ) ^ fs.length ≠ 0 := by positivity
  rw [value, ofParts, Nat.ofDigitChars_append, Nat.ofDigitChars_eq_ofDigitChars_zero, zpow_neg,
    zpow_natCast]
  push_cast
  field_simp

/-- An exponent multiplies the number by its power of ten. -/
theorem value_scaled (d : Decimal) (p : Int) :
    value ⟨d.digits, d.exponent + p⟩ = d.value * 10 ^ p := by
  rw [value, value, zpow_add₀ (by norm_num), mul_assoc]

end Decimal

/-! ### Signs -/

theorem sign_append {s r : Text} {negative : Bool} (hs : IsLeadingSign s negative)
    (hr : ∀ c ∈ r.head?, c ≠ '+' ∧ c ≠ '-') : Decimal.sign (s ++ r) = (negative, r) := by
  cases hs with
  | none =>
    rw [List.nil_append]
    unfold Decimal.sign
    split
    · exact absurd rfl (hr '-' rfl).2
    · exact absurd rfl (hr '+' rfl).1
    · rfl
  | plus => rfl
  | minus => rfl

theorem exists_sign (t : Text) :
    ∃ s, IsLeadingSign s (Decimal.sign t).1 ∧ t = s ++ (Decimal.sign t).2 := by
  unfold Decimal.sign
  split
  · exact ⟨['-'], .minus, rfl⟩
  · exact ⟨['+'], .plus, rfl⟩
  · exact ⟨[], .none, rfl⟩

/-! ### Mantissas -/

section Mantissas

variable {body t r : Text} {d : Decimal} {x : ℚ}

/-- A mantissa begins with a digit, or with a point and a digit. -/
theorem IsMantissa.head (h : IsMantissa body x) : ∃ c u, body = c :: u ∧
    (c.isDigit = true ∨ c = '.' ∧ ∃ e v, u = e :: v ∧ e.isDigit = true) := by
  cases h with
  | whole h =>
    obtain ⟨c, u, rfl, hc⟩ := h.head
    exact ⟨c, u, rfl, .inl hc⟩
  | point hd hf =>
    obtain ⟨c, u, rfl, hc⟩ := hd.head
    exact ⟨c, _, rfl, .inl hc⟩
  | fraction h => exact ⟨'.', _, rfl, .inr ⟨rfl, h.head⟩⟩

theorem IsMantissa.all_isLiteralChar (h : IsMantissa body x) :
    ∀ c ∈ body, isLiteralChar c = true := by
  intro c hc
  cases h with
  | whole h => exact isLiteralChar_of_isDigit (h.2 c hc)
  | point hd hf =>
    rcases List.mem_append.1 hc with hc | hc
    · exact isLiteralChar_of_isDigit (hd.2 c hc)
    · rcases List.mem_cons.1 hc with rfl | hc
      · rfl
      · exact isLiteralChar_of_isDigit (hf c hc)
  | fraction h =>
    rcases List.mem_cons.1 hc with rfl | hc
    · rfl
    · exact isLiteralChar_of_isDigit (h.2 c hc)

theorem count_point_digits {ds : Text} (h : ∀ c ∈ ds, c.isDigit = true) : ds.count '.' = 0 := by
  refine List.count_eq_zero.2 fun hmem => ?_
  exact absurd (h '.' hmem) (by decide)

/-- A mantissa has one point at most. -/
theorem IsMantissa.count_point_le (h : IsMantissa body x) : body.count '.' ≤ 1 := by
  cases h with
  | whole h => rw [count_point_digits h.2]; exact Nat.zero_le _
  | point hd hf =>
    rw [List.count_append, List.count_cons_self, count_point_digits hd.2, count_point_digits hf]
  | fraction h => rw [List.count_cons_self, count_point_digits h.2]

/-- A mantissa is read whole, as a decimal with its number. -/
theorem IsMantissa.exists_decimal (h : IsMantissa body x) : ∃ d : Decimal, d.value = x ∧
    ∀ r, Stops r → Decimal.mantissa? (body ++ r) = some (d, r) := by
  cases h with
  | whole h =>
    refine ⟨.ofParts body [], by simp [Decimal.value_ofParts], fun r hr => ?_⟩
    obtain ⟨h1, h2⟩ := digits_append h.2 hr.digit
    rw [digits] at h1
    rw [afterDigits] at h2
    have hne : body.isEmpty = false := by simpa using h.1
    unfold Decimal.mantissa?
    rw [h1, h2]
    dsimp only
    split
    · exact absurd rfl (hr '.' rfl).2
    · simp [hne]
  | @point ds fs hd hf =>
    refine ⟨.ofParts ds fs, Decimal.value_ofParts ds fs, fun r hr => ?_⟩
    obtain ⟨h1, h2⟩ := @digits_append ds ('.' :: (fs ++ r)) hd.2 (by simp)
    obtain ⟨h3, h4⟩ := digits_append hf hr.digit
    rw [digits] at h1 h3
    rw [afterDigits] at h2 h4
    have hne : ds.isEmpty = false := by simpa using hd.1
    simp [Decimal.mantissa?, h1, h2, h3, h4, hne]
  | @fraction fs h =>
    refine ⟨.ofParts [] fs, by simp [Decimal.value_ofParts], fun r hr => ?_⟩
    obtain ⟨h3, h4⟩ := digits_append h.2 hr.digit
    rw [digits] at h3
    rw [afterDigits] at h4
    have hne : fs.isEmpty = false := by simpa using h.1
    simp [Decimal.mantissa?, h3, h4, hne]

theorem IsMantissa.exists_value (h : IsMantissa body x) (negative : Bool) :
    ∃ v, IsValue negative (some x) v := by
  obtain ⟨d, rfl, -⟩ := h.exists_decimal
  exact ⟨_, isValue_value_iff.2 rfl⟩

/-- What is read is a mantissa, and neither a digit nor a first point goes on with it. -/
theorem mantissa?_spec (h : Decimal.mantissa? t = some (d, r)) :
    ∃ body, IsMantissa body d.value ∧ t = body ++ r ∧ (∀ c ∈ r.head?, c.isDigit = false) ∧
      ('.' ∉ body → r.head? ≠ some '.') := by
  have hsplit : digits t ++ afterDigits t = t := digits_append_afterDigits t
  have hdigits : ∀ u, ∀ c ∈ digits u, c.isDigit = true :=
    fun u => List.all_eq_true.1 List.all_takeWhile
  unfold Decimal.mantissa? at h
  rw [← digits, ← afterDigits] at h
  dsimp only at h
  split at h
  · next rest hrest =>
    rw [← digits, ← afterDigits] at h
    split at h
    · cases h
    · next hempty =>
      obtain ⟨rfl, rfl⟩ := Prod.mk.inj (Option.some.inj h)
      refine ⟨digits t ++ '.' :: digits rest, ?_, ?_, afterDigits_head rest, by simp⟩
      · rw [Decimal.value_ofParts]
        by_cases hw : (digits t).isEmpty = true
        · have hf : (digits rest).isEmpty = false := by simpa [hw] using hempty
          rw [List.isEmpty_iff.1 hw]
          simpa using IsMantissa.fraction (isDigits_digits hf)
        · exact .point (isDigits_digits (Bool.eq_false_iff.2 hw)) (hdigits rest)
      · rw [List.append_assoc, List.cons_append, digits_append_afterDigits, ← hrest, hsplit]
  · next hrest =>
    split at h
    · cases h
    · next hw =>
      obtain ⟨rfl, rfl⟩ := Prod.mk.inj (Option.some.inj h)
      refine ⟨digits t, ?_, hsplit.symm, afterDigits_head t, fun _ hhead => ?_⟩
      · simpa [Decimal.value_ofParts] using
          IsMantissa.whole (isDigits_digits (Bool.eq_false_iff.2 hw))
      · obtain ⟨u, hu⟩ := List.head?_eq_some_iff.1 hhead
        exact hrest u hu

/-- A mantissa that a text begins with is read, and perhaps more. -/
theorem exists_mantissa? (h : IsMantissa body x) (t : Text) :
    (Decimal.mantissa? (body ++ t)).isSome = true := by
  obtain ⟨c, u, rfl, hc | ⟨rfl, e, v, rfl, he⟩⟩ := h.head
  · unfold Decimal.mantissa?
    simp only [List.cons_append, List.takeWhile_cons, hc, if_true, List.isEmpty_cons,
      Bool.false_and, Bool.false_eq_true, if_false]
    split <;> rfl
  · simp [Decimal.mantissa?, he]

/-- No mantissa in front of a text is longer than a beginning with which none can go on. -/
theorem IsMantissa.length_le {v : Text} (hv : IsMantissa v x) (hpre : v <+: body ++ r)
    (hdigit : ∀ c ∈ r.head?, c.isDigit = false) (hpoint : '.' ∉ body → r.head? ≠ some '.') :
    v.length ≤ body.length := by
  by_contra hlt
  obtain ⟨z, rfl⟩ : body <+: v :=
    List.prefix_of_prefix_length_le (List.prefix_append body r) hpre (by omega)
  cases z with
  | nil => simp at hlt
  | cons c z =>
    obtain ⟨u, rfl⟩ := (List.prefix_append_right_inj body).1 hpre
    have hc : isLiteralChar c = true := hv.all_isLiteralChar c (by simp)
    obtain rfl : c = '.' := by simpa [isLiteralChar, hdigit c rfl] using hc
    have hmem : '.' ∈ body := by
      by_contra hmem
      exact hpoint hmem rfl
    have hone := List.count_pos_iff.2 hmem
    have htwo := hv.count_point_le
    rw [List.count_append, List.count_cons_self] at htwo
    omega

end Mantissas

/-! ### Exponents -/

section Exponents

variable {power t : Text} {p : Int}

theorem ne_sign_of_isDigit {c : Char} (h : c.isDigit = true) : c ≠ '+' ∧ c ≠ '-' := by
  constructor
  · rintro rfl
    cases h
  · rintro rfl
    cases h

/-- A sign in front of digits is the sign of the text. -/
theorem sign_digits {s ds x : Text} {negative : Bool} (hs : IsLeadingSign s negative)
    (hd : IsDigits ds) : Decimal.sign (s ++ (ds ++ x)) = (negative, ds ++ x) := by
  obtain ⟨c, u, rfl, hc⟩ := hd.head
  refine sign_append hs fun a ha => ?_
  obtain rfl : c = a := by simpa using ha
  exact ne_sign_of_isDigit hc

theorem exponentPart_eq (h : IsExponent power p) : Decimal.exponentPart power = p := by
  cases h with
  | none => rfl
  | power hm hs hd =>
    have hsign := @sign_digits _ _ [] _ hs hd
    rw [List.append_nil] at hsign
    rw [Decimal.exponentPart, if_pos hm, hsign]
    simp only [(takeWhile_digits hd.2).1]

/-- An exponent that a text begins with is empty, or has the digits behind the text's sign. -/
theorem IsExponent.prefix_cases {v : Text} {c : Char} (hv : IsExponent v p) (hpre : v <+: c :: t) :
    v = [] ∨ (c = 'e' ∨ c = 'E') ∧ ∃ s ds x, v = c :: (s ++ ds) ∧ IsDigits ds ∧
      t = s ++ (Decimal.sign t).2 ∧ (Decimal.sign t).2 = ds ++ x := by
  cases hv with
  | none => exact .inl rfl
  | @power mark s ds _ hm hs hd =>
    obtain ⟨x, hx⟩ := hpre
    rw [List.cons_append, List.append_assoc] at hx
    obtain ⟨rfl, rfl⟩ := List.cons.inj hx
    rw [sign_digits hs hd]
    exact .inr ⟨hm, s, ds, x, rfl, hd, rfl, rfl⟩

theorem exponentPart_of_mark {c : Char} (hc : c = 'e' ∨ c = 'E') (t : Text) :
    Decimal.exponentPart (c :: t) =
      if (Decimal.sign t).1 then -(Nat.ofDigitChars 10 (digits (Decimal.sign t).2) 0 : Int)
      else Nat.ofDigitChars 10 (digits (Decimal.sign t).2) 0 := by
  rw [Decimal.exponentPart, if_pos hc]
  rfl

theorem exponentPart_of_digits_nil {c : Char} (hc : c = 'e' ∨ c = 'E') {t : Text}
    (h : digits (Decimal.sign t).2 = []) : Decimal.exponentPart (c :: t) = 0 := by
  rw [exponentPart_of_mark hc, h]
  cases (Decimal.sign t).1 <;> rfl

/-- The exponent of a text is its longest one. -/
theorem exponentPart_spec (t : Text) : ∃ power rest, t = power ++ rest ∧
    IsExponent power (Decimal.exponentPart t) ∧
    ∀ v p, IsExponent v p → v <+: t → v.length ≤ power.length := by
  cases t with
  | nil =>
    refine ⟨[], [], rfl, .none, fun v p _ hpre => ?_⟩
    rw [List.prefix_nil.1 hpre]
  | cons c t =>
    by_cases hc : c = 'e' ∨ c = 'E'
    · obtain ⟨s, hs, ht⟩ := exists_sign t
      by_cases hempty : (digits (Decimal.sign t).2).isEmpty = true
      · have hzero := exponentPart_of_digits_nil hc (List.isEmpty_iff.1 hempty)
        refine ⟨[], c :: t, rfl, hzero ▸ .none, fun v p hv hpre => ?_⟩
        rcases hv.prefix_cases hpre with rfl | ⟨-, s', ds, x, -, hd, -, hx⟩
        · exact Nat.le_refl _
        · rw [hx, (digits_append_of_isDigits hd x).1] at hempty
          simp [hd.1] at hempty
      · refine ⟨c :: (s ++ digits (Decimal.sign t).2), afterDigits (Decimal.sign t).2, ?_, ?_,
          fun v p hv hpre => ?_⟩
        · rw [List.cons_append, List.append_assoc, digits_append_afterDigits, ← ht]
        · rw [exponentPart_of_mark hc]
          exact .power hc hs (isDigits_digits (Bool.eq_false_iff.2 hempty))
        · rcases hv.prefix_cases hpre with rfl | ⟨-, s', ds, x, rfl, hd, ht', hx⟩
          · exact Nat.zero_le _
          · obtain rfl : s' = s := List.append_cancel_right (ht'.symm.trans ht)
            rw [hx, (digits_append_of_isDigits hd x).1]
            simp
    · have hzero : Decimal.exponentPart (c :: t) = 0 := by rw [Decimal.exponentPart, if_neg hc]
      refine ⟨[], c :: t, rfl, hzero ▸ .none, fun v p hv hpre => ?_⟩
      rcases hv.prefix_cases hpre with rfl | ⟨hm, -⟩
      · exact Nat.le_refl _
      · exact absurd hm hc

end Exponents

/-! ### Amounts -/

section Amounts

variable {amount t : Text} {d : Option ℚ}

def IsPlain (t : Text) : Prop := ∃ c u, t = c :: u ∧ c ≠ '+' ∧ c ≠ '-' ∧ Text.isBlank c = false

theorem IsPlain.append {t : Text} (h : IsPlain t) (u : Text) : IsPlain (t ++ u) := by
  obtain ⟨c, r, rfl, hc⟩ := h
  exact ⟨c, r ++ u, rfl, hc⟩

theorem IsMantissa.isPlain {body : Text} {x : ℚ} (h : IsMantissa body x) : IsPlain body := by
  obtain ⟨c, u, rfl, hc | ⟨rfl, -⟩⟩ := h.head
  · exact ⟨c, u, rfl, (ne_sign_of_isDigit hc).1, (ne_sign_of_isDigit hc).2,
      isBlank_eq_false_of_isDigit hc⟩
  · exact ⟨'.', u, rfl, by decide, by decide, by decide⟩

theorem IsAmount.isPlain (h : IsAmount amount d) : IsPlain amount := by
  cases h with
  | infinity => exact ⟨'I', "nfinity".toList, rfl, by decide, by decide, by decide⟩
  | decimal hb he => exact hb.isPlain.append _

theorem IsPlain.sign_append {s r : Text} {negative : Bool} (hr : IsPlain r)
    (hs : IsLeadingSign s negative) : Decimal.sign (s ++ r) = (negative, r) := by
  obtain ⟨c, u, rfl, hplus, hminus, -⟩ := hr
  exact Reckoner.sign_append hs (by simpa using ⟨hplus, hminus⟩)

/-- Behind a sign nothing is skipped. -/
theorem IsPlain.leadingNumber?_append {s r : Text} {negative : Bool} (hr : IsPlain r)
    (hs : IsLeadingSign s negative) : leadingNumber? (s ++ r) =
      if "Infinity".toList.isPrefixOf r then
        some (Binary64.ofMagnitude negative Binary64.infinity)
      else (Decimal.leading? r).map fun d => Binary64.ofMagnitude negative d.nearest := by
  have htrim : Text.trimStart (s ++ r) = s ++ r := by
    obtain ⟨c, u, rfl, -, -, hblank⟩ := hr
    cases hs with
    | none => simp [Text.trimStart, hblank]
    | plus => rfl
    | minus => rfl
  rw [leadingNumber?, htrim, hr.sign_append hs]

/-- Infinity is no beginning of a text that a mantissa begins. -/
theorem IsMantissa.not_infinity {body : Text} {x : ℚ} (h : IsMantissa body x) (t : Text) :
    "Infinity".toList.isPrefixOf (body ++ t) = false := by
  rw [Bool.eq_false_iff]
  intro hpre
  obtain ⟨c, u, rfl, hc⟩ := h.head
  obtain ⟨rfl, -⟩ := List.cons_prefix_cons.1 (List.isPrefixOf_iff_prefix.1 hpre)
  rcases hc with hc | ⟨hc, -⟩ <;> cases hc

/-- What is read without a sign is the longest amount. -/
theorem leading?_spec {d : Decimal} (h : Decimal.leading? t = some d) : ∃ amount,
    IsAmount amount (some d.value) ∧ amount <+: t ∧ "Infinity".toList.isPrefixOf t = false ∧
    ∀ v e, IsAmount v e → v <+: t → v.length ≤ amount.length := by
  obtain ⟨⟨b, r⟩, hm, rfl⟩ := Option.map_eq_some_iff.1 h
  obtain ⟨body, hb, rfl, hdigit, hpoint⟩ := mantissa?_spec hm
  obtain ⟨power, rest, hrest, he, hlongest⟩ := exponentPart_spec r
  refine ⟨body ++ power, b.value_scaled _ ▸ .decimal hb he, ⟨rest, by rw [List.append_assoc, ← hrest]⟩,
    hb.not_infinity r, fun v e hv hpre => ?_⟩
  cases hv with
  | infinity =>
    have hinfinity := hb.not_infinity r
    rw [List.isPrefixOf_iff_prefix.2 hpre] at hinfinity
    cases hinfinity
  | @decimal body' power' _ _ hb' he' =>
    have hbody := hb'.length_le ((List.prefix_append body' power').trans hpre) hdigit hpoint
    obtain ⟨z, rfl⟩ : body' <+: body :=
      List.prefix_of_prefix_length_le ((List.prefix_append body' power').trans hpre)
        (List.prefix_append body r) hbody
    rw [List.append_assoc] at hpre
    replace hpre := (List.prefix_append_right_inj body').1 hpre
    cases z with
    | nil =>
      rw [List.append_nil, List.length_append, List.length_append]
      exact Nat.add_le_add_left (hlongest power' _ he' hpre) _
    | cons c z =>
      -- Inside the digits and the point of a longer mantissa no exponent begins.
      have hc : isLiteralChar c = true := hb.all_isLiteralChar c (by simp)
      cases he' with
      | none => simp
      | power hm =>
        rw [← (List.cons_prefix_cons.1 hpre).1] at hc
        rcases hm with rfl | rfl <;> exact absurd hc (by decide)

/-- Where nothing is read no amount begins. -/
theorem leading?_eq_none (h : Decimal.leading? t = none) {amount : Text} {x : ℚ}
    (ha : IsAmount amount (some x)) : ¬ amount <+: t := by
  rintro ⟨u, rfl⟩
  cases ha with
  | @decimal body power _ _ hb he =>
    have hread := exists_mantissa? hb (power ++ u)
    rw [Decimal.leading?, List.append_assoc, Option.map_eq_none_iff] at h
    rw [h] at hread
    cases hread

/-- An amount is read as a decimal with its number. -/
theorem leading?_of_isAmount {x : ℚ} (h : IsAmount amount (some x)) :
    ∃ d : Decimal, d.value = x ∧ Decimal.leading? amount = some d ∧
      "Infinity".toList.isPrefixOf amount = false := by
  cases h with
  | @decimal body power _ _ hb he =>
    have hstops : Stops power := by
      cases he with
      | none => exact stops_nil
      | power hm =>
        rw [stops_cons]
        rcases hm with rfl | rfl <;> decide
    obtain ⟨d, rfl, hread⟩ := hb.exists_decimal
    refine ⟨_, d.value_scaled _, ?_, hb.not_infinity power⟩
    rw [Decimal.leading?, hread power hstops, Option.map_some]
    dsimp only
    rw [exponentPart_eq he]

end Amounts

/-! ### Numerals -/

section Numerals

variable {t w : Text} {negative : Bool} {d : Option ℚ} {v : Float}

/-- The numerals in front of a text have its sign, and their amounts stand behind it. -/
theorem IsNumeral.amount (h : IsNumeral w negative d) (hpre : w <+: t) :
    ∃ s amount, IsAmount amount d ∧ w = s ++ amount ∧ t = s ++ (Decimal.sign t).2 ∧
      (Decimal.sign t).1 = negative ∧ amount <+: (Decimal.sign t).2 := by
  obtain ⟨s, amount, hs, ha, rfl⟩ := h
  obtain ⟨x, rfl⟩ := hpre
  rw [List.append_assoc, (ha.isPlain.append x).sign_append hs]
  exact ⟨s, amount, ha, rfl, rfl, rfl, x, rfl⟩

/-- A numeral ends in a digit, in a point or in the word for infinity. -/
theorem IsNumeral.getLast (h : IsNumeral w negative d) :
    ∀ c ∈ w.getLast?, isLiteralChar c = true ∨ c = 'y' := by
  obtain ⟨s, amount, -, ha, rfl⟩ := h
  intro c hc
  cases ha with
  | infinity =>
    obtain rfl : 'y' = c := by simpa using hc
    exact .inr rfl
  | @decimal body power _ _ hb he =>
    refine .inl ?_
    cases he with
    | none =>
      obtain ⟨a, u, rfl, -⟩ := hb.head
      have hmem : c ∈ (a :: u).getLast? := by simpa using hc
      exact hb.all_isLiteralChar c (List.mem_of_mem_getLast? hmem)
    | @power mark sign ds _ hm hs hd =>
      have hsplit : s ++ (body ++ mark :: (sign ++ ds)) = (s ++ (body ++ mark :: sign)) ++ ds := by
        simp
      have hmem : c ∈ ds.getLast? := by
        rwa [hsplit, List.getLast?_append_of_ne_nil _ hd.1] at hc
      exact isLiteralChar_of_isDigit (hd.2 c (List.mem_of_mem_getLast? hmem))

/-- Behind the sign the longest amount makes the longest numeral. -/
theorem isLongest_of_amount {s amount : Text} (ht : t = s ++ (Decimal.sign t).2)
    (hpre : amount <+: (Decimal.sign t).2)
    (hlongest : ∀ v e, IsAmount v e → v <+: (Decimal.sign t).2 → v.length ≤ amount.length) :
    IsLongest t (s ++ amount) := by
  refine ⟨?_, fun v negative d hv hvt => ?_⟩
  · obtain ⟨x, hx⟩ := hpre
    exact ⟨x, by rw [List.append_assoc, hx, ← ht]⟩
  · obtain ⟨s', a, ha, rfl, ht', -, hpre'⟩ := hv.amount hvt
    obtain rfl : s' = s := List.append_cancel_right (ht'.symm.trans ht)
    rw [List.length_append, List.length_append]
    exact Nat.add_le_add_left (hlongest a d ha hpre') _

theorem leadingNumber?_spec (h : leadingNumber? t = some v) : ∃ w negative d,
    IsNumeral w negative d ∧ IsLongest (Text.trimStart t) w ∧ IsValue negative d v := by
  obtain ⟨s, hs, ht⟩ := exists_sign (Text.trimStart t)
  rw [leadingNumber?] at h
  dsimp only at h
  split at h
  · next hinfinity =>
    refine ⟨_, _, none, ⟨s, _, hs, .infinity, rfl⟩, isLongest_of_amount ht
      (List.isPrefixOf_iff_prefix.1 hinfinity) fun a e ha hpre => ?_, (Option.some.inj h).symm⟩
    cases ha with
    | infinity => exact Nat.le_refl _
    | @decimal body power _ _ hb he =>
      obtain ⟨x, hx⟩ := hpre
      have hnot := hb.not_infinity (power ++ x)
      rw [← List.append_assoc, hx, hinfinity] at hnot
      cases hnot
  · obtain ⟨d, hd, hv⟩ := Option.map_eq_some_iff.1 h
    obtain ⟨amount, ha, hpre, -, hlongest⟩ := leading?_spec hd
    exact ⟨_, _, some d.value, ⟨s, amount, hs, ha, rfl⟩, isLongest_of_amount ht hpre hlongest,
      isValue_value_iff.2 hv.symm⟩

theorem not_prefix_of_leadingNumber? (h : leadingNumber? t = none)
    (hw : IsNumeral w negative d) : ¬ w <+: Text.trimStart t := by
  intro hpre
  obtain ⟨s, amount, ha, -, -, -, hpre⟩ := hw.amount hpre
  rw [leadingNumber?] at h
  dsimp only at h
  split at h
  · cases h
  · next hinfinity =>
    cases d with
    | none =>
      cases ha
      exact hinfinity (List.isPrefixOf_iff_prefix.2 hpre)
    | some x => exact leading?_eq_none (Option.map_eq_none_iff.1 h) ha hpre

/-- A numeral is read as its value. -/
theorem leadingNumber?_of_isNumeral (hw : IsNumeral w negative d) (hv : IsValue negative d v) :
    leadingNumber? w = some v := by
  obtain ⟨s, amount, hs, ha, rfl⟩ := hw
  rw [ha.isPlain.leadingNumber?_append hs]
  cases d with
  | none =>
    cases ha
    rw [hv]
    rfl
  | some x =>
    obtain ⟨d, rfl, hread, hinfinity⟩ := leading?_of_isAmount ha
    rw [if_neg (Bool.eq_false_iff.1 hinfinity), hread, isValue_value_iff.1 hv, Option.map_some]

/-- The number in front of a text is the value of the longest numeral there. -/
theorem leadingNumber?_longest (t : Text) :
    (leadingNumber? t = none ↔
      ∀ w negative d, IsNumeral w negative d → ¬ w <+: Text.trimStart t) ∧
    (∀ v, leadingNumber? t = some v ↔ ∃ w negative d,
      IsNumeral w negative d ∧ IsLongest (Text.trimStart t) w ∧ IsValue negative d v) ∧
    (leadingNumber? t).filter (fun v => !Binary64.isNaN v) = leadingNumber? t := by
  refine ⟨⟨fun h w negative d => not_prefix_of_leadingNumber? h, fun h => ?_⟩,
    fun v => ⟨leadingNumber?_spec, ?_⟩, ?_⟩
  · refine Option.eq_none_iff_forall_ne_some.2 fun v hv => ?_
    obtain ⟨w, negative, d, hw, hlongest, -⟩ := leadingNumber?_spec hv
    exact h w negative d hw hlongest.isPrefix
  · rintro ⟨w, negative, d, hw, hlongest, hv⟩
    cases hread : leadingNumber? t with
    | none => exact absurd hlongest.isPrefix (not_prefix_of_leadingNumber? hread hw)
    | some u =>
      obtain ⟨w', negative', d', hw', hlongest', hu⟩ := leadingNumber?_spec hread
      -- Of one length, the two numerals are one beginning of the text.
      have hlength : w'.length = w.length :=
        Nat.le_antisymm (hlongest.longest w' _ _ hw' hlongest'.isPrefix)
          (hlongest'.longest w _ _ hw hlongest.isPrefix)
      obtain rfl : w' = w :=
        (List.prefix_of_prefix_length_le hlongest'.isPrefix hlongest.isPrefix
          hlength.le).eq_of_length hlength
      rw [← leadingNumber?_of_isNumeral hw' hu, leadingNumber?_of_isNumeral hw hv]
  · cases hread : leadingNumber? t with
    | none => rfl
    | some v =>
      obtain ⟨w, negative, d, -, -, hv⟩ := leadingNumber?_spec hread
      simp [hv.not_nan]

/-- In front of `1.5e3x` the longest numeral is `1.5e3`, which is fifteen hundred. -/
theorem leadingNumber?_longest_exponent :
    IsNumeral "1.5e3".toList false (some 1500) ∧ IsLongest "1.5e3x".toList "1.5e3".toList ∧
      leadingNumber? "1.5e3x".toList = some (Float.ofBits 0x4097700000000000) := by
  have hdigit : ∀ c, c.isDigit = true → IsDigits [c] := fun c hc => ⟨by simp, by simpa using hc⟩
  have hnumeral : IsNumeral "1.5e3".toList false (some 1500) := by
    have hone : Nat.ofDigitChars 10 ['1'] 0 = 1 := by decide
    have hfive : Nat.ofDigitChars 10 ['5'] 0 = 5 := by decide
    have hthree : Nat.ofDigitChars 10 ['3'] 0 = 3 := by decide
    have hbody := IsMantissa.point (hdigit '1' (by decide)) (hdigit '5' (by decide)).2
    have hpower := @IsExponent.power 'e' [] ['3'] false (.inl rfl) .none (hdigit '3' (by decide))
    have hamount := IsAmount.decimal hbody hpower
    rw [hone, hfive, hthree] at hamount
    norm_num at hamount
    exact ⟨[], _, .none, hamount, rfl⟩
  have hlongest : IsLongest "1.5e3x".toList "1.5e3".toList := by
    refine ⟨⟨['x'], rfl⟩, fun v negative d hv hpre => ?_⟩
    by_contra hlt
    obtain rfl : v = "1.5e3x".toList :=
      hpre.eq_of_length (Nat.le_antisymm hpre.length_le (Nat.lt_of_not_le hlt))
    exact absurd (hv.getLast 'x' rfl) (by decide)
  refine ⟨hnumeral, hlongest, ((leadingNumber?_longest _).2.1 _).2
    ⟨_, false, some 1500, hnumeral, hlongest, Decimal.nearest ⟨15, 2⟩, ?_, ?_⟩⟩
  · have hnearest := Decimal.isNearest_nearest ⟨15, 2⟩
    norm_num [Decimal.value] at hnearest
    exact hnearest
  · decide +kernel

end Numerals

end Reckoner
