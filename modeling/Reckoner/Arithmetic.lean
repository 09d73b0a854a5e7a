import Reckoner.Fault
import Reckoner.Operator
import Reckoner.Number.Leading

/-!
# Arithmetic on operands

Operands are texts; the number in front of each is taken and the arithmetic is that of binary64.
-/

namespace Reckoner

/-- The result of an operation, except that nothing is divided by zero. -/
def Operator.apply (op : Operator) (left right : Float) : Except Fault Float :=
  match op with
  | plus => .ok (left + right)
  | minus => .ok (left - right)
  | times => .ok (left * right)
  | divide => if right == 0 then .error .divisionByZero else .ok (left / right)

def operandValue (operand : Text) : Except Fault Float :=
  match leadingNumber? operand with
  | some v => .ok v
  | none => .error (.notANumber operand)

/-- The result of an operation on two operands; the left one is read first. -/
def calculate (left : Text) (op : Operator) (right : Text) : Except Fault Float :=
  match operandValue left with
  | .error fault => .error fault
  | .ok l => match operandValue right with
    | .error fault => .error fault
    | .ok r => op.apply l r

end Reckoner
