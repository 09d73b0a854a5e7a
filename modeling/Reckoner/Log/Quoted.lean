import Reckoner.Text
import Reckoner.Log.Hidden

/-!
# Quoted text

A quoted text stands between double quotes. Double quotes and backslashes inside are escaped, and so
is every character that would not show.
-/

namespace Reckoner.Quoted

def codePoint (c : Char) : Text :=
  "\\u\x7b".toList ++ Nat.toDigits 16 c.toNat ++ ['\x7d']

def escape (c : Char) : Text :=
  if c = '"' then "\\\"".toList
  else if c = '\\' then "\\\\".toList
  else if c = '\n' then "\\n".toList
  else if c = '\r' then "\\r".toList
  else if c = '\t' then "\\t".toList
  else if c.toNat = 0 then "\\0".toList
  else if Hidden.isHidden c then codePoint c
  else [c]

def quote (t : Text) : Text := '"' :: (t.flatMap escape ++ ['"'])

example : quote "a\" \\ *".toList = "\"a\\\" \\\\ *\"".toList := by decide +kernel

end Reckoner.Quoted
