import Reckoner.Number.Decimal

/-!
# The shortest decimal that reads back

For each count of digits the two decimals next to the value are tried, fewest digits first. If
both read back, the nearer one is taken and a tie goes up. The value's own digits are the last
resort, so a result reads back in every case.
-/

namespace Reckoner.Decimal

def digitCount (n : Nat) : Nat := (Nat.toDigits 10 n).length

/-- The decimal without its last `dropped` digits, at most `d`. -/
def roundDown (d : Decimal) (dropped : Nat) : Decimal :=
  ⟨d.digits / Nat.pow 10 dropped, d.exponent + dropped⟩

/-- The next decimal of as many digits; past the last one, a power of ten. -/
def roundUp (d : Decimal) (dropped : Nat) : Decimal :=
  let below := roundDown d dropped
  let kept := digitCount below.digits
  if below.digits + 1 = Nat.pow 10 kept then ⟨1, below.exponent + kept⟩
  else ⟨below.digits + 1, below.exponent⟩

def isNearerDown (d : Decimal) (dropped : Nat) : Bool :=
  2 * (d.digits % Nat.pow 10 dropped) < Nat.pow 10 dropped

/-- Of the two decimals next to `d` that lack its last `dropped` digits, the nearer one that reads
back as `magnitude`. -/
def without? (magnitude : Nat) (d : Decimal) (dropped : Nat) : Option Decimal :=
  let down := roundDown d dropped
  let up := roundUp d dropped
  let candidates := if isNearerDown d dropped then [down, up] else [up, down]
  candidates.find? fun candidate => candidate.nearest == magnitude

def shortest (magnitude : Nat) : Decimal :=
  let d := exact magnitude
  let count := digitCount d.digits
  ((List.range' 1 count).findSome? fun kept => without? magnitude d (count - kept)).getD d

theorem nearest_of_without? {magnitude dropped : Nat} {d r : Decimal}
    (h : without? magnitude d dropped = some r) : r.nearest = magnitude := by
  simpa using List.find?_some h

example : shortest 0x3fb999999999999a = ⟨1, -1⟩ := by decide +kernel
example : shortest 0x3fd3333333333334 = ⟨30000000000000004, -17⟩ := by decide +kernel
example : shortest 1 = ⟨5, -324⟩ := by decide +kernel
example : shortest 0x44b52d02c7e14af6 = ⟨1, 23⟩ := by decide +kernel

end Reckoner.Decimal
