import Reckoner.Text
import Reckoner.Number.Shortest

/-!
# Writing numbers

`render` is the form in which a value stands in a reply and in a text under evaluation: the
shortest digits that read back, laid out positionally whatever their number. `renderTyped` is the
form for the log, which marks whole values with `.0` and turns to an exponent for the very large and
the very small.
-/

namespace Reckoner

namespace Decimal

def positional (d : Decimal) : Text :=
  let digits := Nat.toDigits 10 d.digits
  if 0 ≤ d.exponent then digits ++ List.replicate d.exponent.toNat '0'
  else
    let places := (-d.exponent).toNat
    if places < digits.length then
      digits.take (digits.length - places) ++ '.' :: digits.drop (digits.length - places)
    else '0' :: '.' :: (List.replicate (places - digits.length) '0' ++ digits)

/-- The exponent of the leading digit. -/
def order (d : Decimal) : Int := d.exponent + digitCount d.digits - 1

/-- One digit in front of the point, and the exponent of that digit behind `e`. -/
def scientific (d : Decimal) : Text :=
  let exponent := 'e' :: (toString d.order).toList
  match Nat.toDigits 10 d.digits with
  | first :: second :: rest => first :: '.' :: second :: rest ++ exponent
  | digits => digits ++ exponent

end Decimal

def signText (negative : Bool) : Text := if negative then ['-'] else []

/-- A value as it stands in replies and in a text under evaluation. Both zeros are `0`. -/
def render (v : Float) : Text :=
  if Binary64.isNaN v then "NaN".toList
  else if Binary64.magnitude v = 0 then ['0']
  else if Binary64.isFinite v then
    signText (Binary64.isNegative v) ++ (Decimal.shortest (Binary64.magnitude v)).positional
  else signText (Binary64.isNegative v) ++ "Infinity".toList

/-- A finite value as it stands in the log. The sign of zero is kept, a whole value has a `.0`, and
from `1e16` up and below `1e-4` an exponent is used. -/
def renderTyped (v : Float) : Text :=
  let d := Decimal.shortest (Binary64.magnitude v)
  signText (Binary64.isNegative v) ++
    if Binary64.magnitude v = 0 then "0.0".toList
    else if -4 ≤ d.order ∧ d.order ≤ 15 then
      d.positional ++ if 0 ≤ d.exponent then ".0".toList else []
    else d.scientific

example : (Decimal.mk 1 2).positional = "100".toList := by decide +kernel
example : (Decimal.mk 125 (-2)).positional = "1.25".toList := by decide +kernel
example : (Decimal.mk 125 (-5)).positional = "0.00125".toList := by decide +kernel
example : (Decimal.mk 125 (-9)).scientific = "1.25e-7".toList := by decide +kernel

end Reckoner
