import Reckoner.Arithmetic
import Reckoner.Number.Layout
import Reckoner.Number.Literal

/-!
# Occurrences of operations

An occurrence is a place in a text where two operands stand around an operator. `find?` takes the
leftmost one of a level, and `contract` puts its result in its place. A negative left operand must
open the text or follow an operator, which then belongs to the operand and survives the contraction:
`1 + -3 * 2` becomes `1 + -6`.
-/

namespace Reckoner

/-- An operation in a text, with the text around it. -/
structure Occurrence where
  before : Text
  left : Text
  leftGap : Text
  operator : Operator
  rightGap : Text
  right : Text
  after : Text
  deriving DecidableEq, Repr

namespace Occurrence

def extent (o : Occurrence) : Text :=
  o.left ++ (o.leftGap ++ o.operator.symbol :: (o.rightGap ++ o.right))

def text (o : Occurrence) : Text := o.before ++ (o.extent ++ o.after)

def replace (o : Occurrence) (result : Text) : Text := o.before ++ (result ++ o.after)

def start (o : Occurrence) : Nat := Text.utf8Size o.before

def stop (o : Occurrence) : Nat := o.start + Text.utf8Size o.extent

def openingOperand? (seen t : Text) : Option (Text × Text) :=
  if seen.isEmpty then Literal.negative? t else none

/-- An operator, spaces and a negative decimal. -/
def trailingOperand? : Text → Option (Text × Text)
  | [] => none
  | c :: t =>
    if isOperatorChar c then
      (Literal.negative? (Text.afterSpaces t)).map fun (number, rest) =>
        (c :: (Text.spaces t ++ number), rest)
    else none

/-- The left operands that can begin at a place, each with what follows it, in the order in which
they are tried; `seen` is the text in front, last character first. A literal does not begin between
two digits. -/
def leftOperands (seen t : Text) : List (Text × Text) :=
  let unsigned := if seen.head?.any Char.isDigit then []
    else [Literal.decimal? t, Literal.fraction? t]
  (openingOperand? seen t :: trailingOperand? t :: unsigned).filterMap id

/-- The occurrence with a given left operand, if an operator of the level and a right operand
follow. -/
def complete? (level : Operator.Level) (seen left rest : Text) : Option Occurrence :=
  match Text.afterSpaces rest with
  | [] => none
  | c :: t => match Operator.ofChar? c with
    | none => none
    | some op =>
      if op ∈ level then
        (Literal.signed? (Text.afterSpaces t)).map fun (right, after) =>
          ⟨seen.reverse, left, Text.spaces rest, op, Text.spaces t, right, after⟩
      else none

def findFrom? (level : Operator.Level) : (seen : Text) → Text → Option Occurrence
  | _, [] => none
  | seen, c :: t =>
    ((leftOperands seen (c :: t)).findSome? fun (left, rest) => complete? level seen left rest).or
      (findFrom? level (c :: seen) t)

def find? (level : Operator.Level) (t : Text) : Option Occurrence := findFrom? level [] t

def carried? : Text → Option (Text × Text)
  | [] => none
  | c :: t =>
    if isOperatorChar c then
      (Literal.signed? (Text.afterSpaces t)).map fun (number, _) => (c :: Text.spaces t, number)
    else none

/-- A left operand cut into the operator text in front of its number and the number. The number
is looked for first, and what stands in front of both is dropped. -/
def splitOperand? : Text → Option (Text × Text)
  | [] => none
  | c :: t =>
    match Literal.signed? (c :: t) with
    | some (number, _) => some ([], number)
    | none => (carried? (c :: t)).or (splitOperand? t)

/-- The text of an operation's result, behind the operator text in front of the left operand. -/
def resultText (left : Text) (op : Operator) (right : Text) : Except Fault Text :=
  match splitOperand? left with
  | none => .error (.notANumber left)
  | some (carried, number) => (calculate number op right).map fun v => carried ++ render v

def contract (o : Occurrence) : Except Fault Text :=
  (resultText o.left o.operator o.right).map o.replace

example : (find? Operator.multiplicative "1 + -3 * 2".toList).map
    (fun o => (o.start, o.stop, o.left, o.right)) = some (2, 10, "+ -3".toList, "2".toList) := by
  decide
example : splitOperand? "+ -3".toList = some ("+ ".toList, "-3".toList) := by decide

end Occurrence

end Reckoner
