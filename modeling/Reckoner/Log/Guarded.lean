import Reckoner.Log.Quoted

/-!
# Guarded text

A message is printed without quotes. The characters in it that a terminal would obey, such as the
one that begins a colour code, are written by number; everything else stays, line feeds included.
-/

namespace Reckoner.Guarded

/-- The ASCII characters that a terminal obeys and a message has no use for. -/
def obeyed : List Nat := [0x07, 0x08, 0x0C, 0x1B, 0x7F]

def isSecondControl (c : Char) : Bool := 0x80 ≤ c.toNat && c.toNat ≤ 0x9F

def twoDigits (c : Char) : Text :=
  let digits := Nat.toDigits 16 c.toNat
  "\\x".toList ++ (List.replicate (2 - digits.length) '0' ++ digits)

def escape (c : Char) : Text :=
  if obeyed.contains c.toNat then twoDigits c
  else if isSecondControl c then Quoted.codePoint c
  else [c]

def guard (t : Text) : Text := t.flatMap escape

@[simp] theorem guard_nil : guard [] = [] := rfl

@[simp] theorem guard_append (s t : Text) : guard (s ++ t) = guard s ++ guard t := by
  simp [guard]

example : guard "\x1b[1m".toList = "\\x1b[1m".toList := by decide +kernel
example : guard "a\x0cb\x0b".toList = "a\\x0cb\x0b".toList := by decide +kernel
example : guard ['\u0085'] = Quoted.codePoint '\u0085' := by decide +kernel

end Reckoner.Guarded
