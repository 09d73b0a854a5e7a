import Reckoner.Text
import Reckoner.Number.Decimal

/-!
# The number in front of a text

Blanks in front are skipped and whatever follows the number is ignored, so `9 apples` is nine. A
number is an optional sign and either `Infinity` or digits with at most one point among or beside
them and an optional exponent. An exponent mark without digits does not belong to the number.
-/

namespace Reckoner

namespace Decimal

def ofParts (whole fraction : Text) : Decimal :=
  ⟨Nat.ofDigitChars 10 (whole ++ fraction) 0, -(fraction.length : Int)⟩

/-- Digits with at most one point and at least one digit, and what follows them. -/
def mantissa? (t : Text) : Option (Decimal × Text) :=
  let whole := t.takeWhile Char.isDigit
  match t.dropWhile Char.isDigit with
  | '.' :: rest =>
    let fraction := rest.takeWhile Char.isDigit
    if whole.isEmpty && fraction.isEmpty then none
    else some (ofParts whole fraction, rest.dropWhile Char.isDigit)
  | rest => if whole.isEmpty then none else some (ofParts whole [], rest)

/-- The sign in front of a text, `true` for a minus, and what follows it. -/
def sign : Text → Bool × Text
  | '-' :: t => (true, t)
  | '+' :: t => (false, t)
  | t => (false, t)

def exponentPart : Text → Int
  | [] => 0
  | c :: t =>
    if c = 'e' ∨ c = 'E' then
      let (negative, rest) := sign t
      let power : Int := Nat.ofDigitChars 10 (rest.takeWhile Char.isDigit) 0
      if negative then -power else power
    else 0

def leading? (t : Text) : Option Decimal :=
  (mantissa? t).map fun (d, rest) => ⟨d.digits, d.exponent + exponentPart rest⟩

end Decimal

/-- The number in front of a text, rounded to the nearest binary64 value. -/
def leadingNumber? (t : Text) : Option Float :=
  let (negative, rest) := Decimal.sign (Text.trimStart t)
  if "Infinity".toList.isPrefixOf rest then
    some (Binary64.ofMagnitude negative Binary64.infinity)
  else (Decimal.leading? rest).map fun d => Binary64.ofMagnitude negative d.nearest

example : Decimal.leading? "16 apples".toList = some ⟨16, 0⟩ := by decide
example : Decimal.leading? ".5abc".toList = some ⟨5, -1⟩ := by decide
example : Decimal.leading? "1.e3".toList = some ⟨1, 3⟩ := by decide
example : Decimal.leading? "1e-".toList = some ⟨1, 0⟩ := by decide
example : Decimal.leading? ".".toList = none := by decide

end Reckoner
