import Reckoner.Text

/-!
# Literals

A decimal is digits, or digits, a point and digits; a fraction is a point and digits. Only a
decimal may carry a minus sign. A reader returns the longest literal in front of a text together
with what follows it.
-/

namespace Reckoner.Literal

def digits (t : Text) : Text := t.takeWhile Char.isDigit

def afterDigits (t : Text) : Text := t.dropWhile Char.isDigit

@[simp] theorem digits_append_afterDigits (t : Text) : digits t ++ afterDigits t = t :=
  List.takeWhile_append_dropWhile

def fraction? : Text → Option (Text × Text)
  | '.' :: t => if (digits t).isEmpty then none else some ('.' :: digits t, afterDigits t)
  | _ => none

/-- At least one digit, and a fraction where one follows. -/
def decimal? (t : Text) : Option (Text × Text) :=
  if (digits t).isEmpty then none
  else match fraction? (afterDigits t) with
    | some (part, rest) => some (digits t ++ part, rest)
    | none => some (digits t, afterDigits t)

def unsigned? (t : Text) : Option (Text × Text) := (decimal? t).or (fraction? t)

def negative? : Text → Option (Text × Text)
  | '-' :: t => (decimal? t).map fun (number, rest) => ('-' :: number, rest)
  | _ => none

/-- An operand: a decimal with or without a minus sign, or a fraction. -/
def signed? (t : Text) : Option (Text × Text) := (negative? t).or (unsigned? t)

/-- The byte behind the literal that begins at a byte. -/
def endAt? (read : Text → Option (Text × Text)) (t : Text) (start : Nat) : Option Nat :=
  ((Text.afterBytes? t start).bind read).map fun (literal, _) => start + Text.utf8Size literal

def covers (read : Text → Option (Text × Text)) (t : Text) : Bool :=
  match read t with
  | some (_, []) => true
  | _ => false

def isUnsigned (t : Text) : Bool := covers unsigned? t

def unsignedPart : Text → Text
  | '-' :: t => t
  | t => t

/-- Whether a text is the outcome of an evaluation: an unsigned literal or an infinity, with or
without a minus sign. -/
def isResult (t : Text) : Bool := unsignedPart t == "Infinity".toList || isUnsigned (unsignedPart t)

/-- Whether a text is runs of digits with single points between them; with `expectDigit` it may not
start with a point. -/
def isDotted : (expectDigit : Bool) → Text → Bool
  | expectDigit, [] => !expectDigit
  | expectDigit, c :: t =>
    if c.isDigit then isDotted false t else c == '.' && !expectDigit && isDotted true t

/-- Whether a text is a minus sign and a fraction, or a minus sign and digits with any number of
fractions behind them. -/
def isNegative : Text → Bool
  | '-' :: t => covers fraction? t || isDotted true t
  | _ => false

/-- What a fraction reader splits is the text. -/
theorem append_of_fraction? {t l r : Text} (h : fraction? t = some (l, r)) : l ++ r = t := by
  unfold fraction? at h
  split at h
  · split at h
    · simp at h
    · simp only [Option.some.injEq, Prod.mk.injEq] at h
      obtain ⟨rfl, rfl⟩ := h
      simp
  · simp at h

theorem append_of_decimal? {t l r : Text} (h : decimal? t = some (l, r)) : l ++ r = t := by
  unfold decimal? at h
  split at h
  · simp at h
  split at h
  · next hf =>
    simp only [Option.some.injEq, Prod.mk.injEq] at h
    obtain ⟨rfl, rfl⟩ := h
    rw [List.append_assoc, append_of_fraction? hf, digits_append_afterDigits]
  · simp only [Option.some.injEq, Prod.mk.injEq] at h
    obtain ⟨rfl, rfl⟩ := h
    simp

theorem append_of_unsigned? {t l r : Text} (h : unsigned? t = some (l, r)) : l ++ r = t := by
  rcases Option.or_eq_some_iff.1 h with h | ⟨_, h⟩
  · exact append_of_decimal? h
  · exact append_of_fraction? h

theorem append_of_negative? {t l r : Text} (h : negative? t = some (l, r)) : l ++ r = t := by
  unfold negative? at h
  split at h
  · obtain ⟨⟨number, rest⟩, hd, he⟩ := Option.map_eq_some_iff.1 h
    simp only [Prod.mk.injEq] at he
    obtain ⟨rfl, rfl⟩ := he
    simp [append_of_decimal? hd]
  · simp at h

theorem append_of_signed? {t l r : Text} (h : signed? t = some (l, r)) : l ++ r = t := by
  rcases Option.or_eq_some_iff.1 h with h | ⟨_, h⟩
  · exact append_of_negative? h
  · exact append_of_unsigned? h

example : decimal? "12.5 + 1".toList = some ("12.5".toList, " + 1".toList) := by decide
example : decimal? "1. + 1".toList = some ("1".toList, ". + 1".toList) := by decide
example : signed? "-3 * 2".toList = some ("-3".toList, " * 2".toList) := by decide
example : signed? "-.25".toList = none := by decide

end Reckoner.Literal
