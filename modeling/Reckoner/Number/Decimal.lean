import Reckoner.Number.Binary64

/-!
# Decimals

A decimal is a natural number of units of a power of ten. `nearest` rounds one to binary64 and
`exact` writes a finite magnitude without loss, so `nearest` undoes `exact`.
-/

namespace Reckoner

/-- The number `digits * 10 ^ exponent`. -/
structure Decimal where
  digits : Nat
  exponent : Int
  deriving DecidableEq, Repr

namespace Decimal

/-- The binary64 magnitude nearest to a decimal, a half to the even one. Decimals of `10 ^ 311` and
more are infinite and those below `10 ^ -330` are zero, whatever their digits, which keeps the
powers of ten small. -/
def nearest (d : Decimal) : Nat :=
  if d.digits = 0 then 0
  else if 310 < d.exponent then Binary64.infinity
  else if d.exponent + d.digits.log2 + 1 < -330 then 0
  else Binary64.ofQuotient (d.digits * Nat.pow 10 d.exponent.toNat)
      (Nat.pow 10 (-d.exponent).toNat)

theorem nearest_le_infinity (d : Decimal) : d.nearest ≤ Binary64.infinity := by
  unfold nearest
  split
  · exact Nat.zero_le _
  split
  · exact Nat.le_refl _
  split
  · exact Nat.zero_le _
  · exact Binary64.ofQuotient_le_infinity _ _

/-- The decimal equal to a finite magnitude: below the point, `2 ^ -k` is `5 ^ k * 10 ^ -k`. -/
def exact (magnitude : Nat) : Decimal :=
  let unit := Binary64.exponent magnitude
  if 0 ≤ unit then ⟨Binary64.significand magnitude <<< unit.toNat, 0⟩
  else ⟨Binary64.significand magnitude * Nat.pow 5 (-unit).toNat, unit⟩

example : nearest ⟨1, -1⟩ = 0x3fb999999999999a := by decide +kernel
example : nearest ⟨5, -324⟩ = 1 := by decide +kernel
example : nearest ⟨2, -324⟩ = 0 := by decide +kernel
example : nearest ⟨17976931348623157, 292⟩ = Binary64.infinity - 1 := by decide +kernel
example : nearest ⟨18, 307⟩ = Binary64.infinity := by decide +kernel
example : nearest (exact 0x3fb999999999999a) = 0x3fb999999999999a := by decide +kernel

end Decimal

end Reckoner
