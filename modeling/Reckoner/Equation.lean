import Reckoner.Evaluation

/-!
# Equations

An equation is a name, one equals sign and a right side, blanks at their ends aside. The right side
is evaluated only if it has an operator and is no negative literal; otherwise the number in front of
it counts. It is evaluated before the name is looked at.
-/

namespace Reckoner

structure Equation where
  name : Text
  right : Text
  deriving DecidableEq, Repr

namespace Equation

def ofText (t : Text) : Except Fault Equation :=
  match t.dropWhile (· != '=') with
  | [] => .error .missingOperator
  | _ :: right =>
    if right.contains '=' then .error .character
    else .ok ⟨Text.trim (t.takeWhile (· != '=')), Text.trim right⟩

/-- Whether the right side is read as it stands. -/
def isDirect (e : Equation) : Bool := !hasOperator e.right || Literal.isNegative e.right

/-- The text whose leading number is assigned. -/
def valueText (e : Equation) (store : Store) (account : Account) : Except Fault Text :=
  if e.isDirect then .ok e.right else store.evaluate account e.right

def reply (e : Equation) (v : Float) : Text := e.name ++ (" = ".toList ++ render v)

end Equation

/-- Assigns the value of the right side of an equation, and answers with the equation solved. A
right side without a number has no finite value. -/
def Store.solve (store : Store) (account : Account) (t : Text) : Except Fault (Store × Text) := do
  let e ← Equation.ofText t
  let number ← e.valueText store account
  let v := (leadingNumber? number).getD Binary64.nan
  let store ← store.assign account e.name v
  return (store, e.reply v)

end Reckoner
