/-!
# Binary64 values by their bits

A value is a sign and a magnitude, the lower 63 bits of its pattern read as a natural number.
Magnitudes are ordered as the values are: below `infinity` they are finite, above it they are no
numbers. A finite magnitude `m` stands for `significand m * 2 ^ exponent m`, and `ofQuotient` goes
back: it rounds any quotient of natural numbers to the nearest magnitude, a half to the even one.
-/

namespace Reckoner.Binary64

def infinity : Nat := 0x7ff0000000000000

def magnitude (v : Float) : Nat := v.toBits.toNat % 0x8000000000000000

def isNegative (v : Float) : Bool := 0x8000000000000000 ≤ v.toBits.toNat

def isFinite (v : Float) : Bool := magnitude v < infinity

def isNaN (v : Float) : Bool := infinity < magnitude v

def ofMagnitude (negative : Bool) (m : Nat) : Float :=
  Float.ofBits (UInt64.ofNat (if negative then 0x8000000000000000 + m else m))

def nan : Float := ofMagnitude false (infinity + 0x8000000000000)

/-- Magnitudes below `2 ^ 52` are subnormal and lack the leading one. -/
def significand (m : Nat) : Nat :=
  if m < 0x10000000000000 then m else 0x10000000000000 + m % 0x10000000000000

def exponent (m : Nat) : Int :=
  if m < 0x10000000000000 then -1074 else ((m / 0x10000000000000 : Nat) : Int) - 1075

/-- The exponent of the greatest power of two that is at most `num / den`. -/
def binaryOrder (num den : Nat) : Int :=
  let k : Int := (num.log2 : Int) - den.log2
  if den <<< k.toNat ≤ num <<< (-k).toNat then k else k - 1

/-- The natural number nearest to `num / den`, a half to the even one. -/
def divNearest (num den : Nat) : Nat :=
  let floor := num / den
  let rest := num % den
  if 2 * rest < den then floor
  else if den < 2 * rest then floor + 1
  else floor + floor % 2

/-- The magnitude nearest to `num / den`, a half to the even one. A significand rounded up to
`2 ^ 53` carries into the exponent by itself, because the two fields are added. -/
def ofQuotient (num den : Nat) : Nat :=
  if num = 0 then 0
  else
    let unit := max (binaryOrder num den - 52) (-1074)
    let significand := divNearest (num <<< (-unit).toNat) (den <<< unit.toNat)
    min ((unit + 1074).toNat * 0x10000000000000 + significand) infinity

@[simp] theorem ofQuotient_zero (den : Nat) : ofQuotient 0 den = 0 := rfl

theorem ofQuotient_le_infinity (num den : Nat) : ofQuotient num den ≤ infinity := by
  unfold ofQuotient
  split
  · simp
  · exact Nat.min_le_right _ _

example : ofQuotient 1 1 = 1023 * 2 ^ 52 := by decide
example : ofQuotient 1 (2 ^ 1074) = 1 := by decide +kernel
example : ofQuotient 1 (2 ^ 1075) = 0 := by decide +kernel
example : ofQuotient (2 ^ 1024) 1 = infinity := by decide +kernel

end Reckoner.Binary64
