import Reckoner.Text

/-!
# Faults

The ways in which an expression or an equation fails, and the ways in which a command is refused,
each with the message shown to the user.
-/

namespace Reckoner

inductive Fault where
  /-- A name is not one letter, or a letter touches a letter, a digit or a point. -/
  | variableName
  /-- A value to be stored is not finite. -/
  | value
  /-- A variable is read that the account does not hold. -/
  | undefined (name : Text)
  /-- A character has no place in an expression, or there is no character at all. -/
  | character
  /-- A literal has a point without a digit behind it, or two points. -/
  | numberFormat
  /-- Two operands have no operator between them. -/
  | missingOperator
  /-- An operator lacks an operand. -/
  | operatorPlacement
  /-- A parenthesis has no partner. -/
  | parentheses
  /-- A text that should be a number is none. -/
  | notANumber (operand : Text)
  | divisionByZero
  deriving DecidableEq, Repr

def Fault.message : Fault → Text
  | variableName => "Invalid variable name".toList
  | value => "Value is not a number".toList
  | undefined name => "Variable '".toList ++ name ++ "' is not defined".toList
  | character => "Invalid character".toList
  | numberFormat => "Invalid number format".toList
  | missingOperator => "Missing operator".toList
  | operatorPlacement => "Invalid operator placement".toList
  | parentheses => "Mismatched parentheses".toList
  | notANumber operand => operand ++ " is not a number".toList
  | divisionByZero => "Cannot divide by zero".toList

inductive Refusal where
  /-- The text is no command of any kind. -/
  | unrecognized
  | fault (cause : Fault)
  deriving DecidableEq, Repr

namespace Refusal

def message : Refusal → Text
  | unrecognized => "Unrecognized command".toList
  | fault cause => cause.message

def cause? : Refusal → Option Fault
  | unrecognized => none
  | fault cause => some cause

end Refusal

end Reckoner
