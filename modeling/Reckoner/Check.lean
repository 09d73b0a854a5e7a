import Reckoner.Fault
import Reckoner.Lexeme

/-!
# Checks

A check is a condition on lexemes under which an expression is refused, with the fault reported.
Two checks see an expression as it is typed, the others see it after its variables have been
replaced by their values. The first check that fails decides the fault.
-/

namespace Reckoner

structure Check where
  fault : Fault
  fails : List Lexeme → Bool

namespace Check

open Lexeme (Kind)

def pairs {α : Type} (l : List α) : List (α × α) := l.zip l.tail

def significant (l : List Lexeme) : List Lexeme := l.filter (!·.isSpace)

/-- A minus sign and a literal make no expression; `-a` does. -/
def loneNegative : Check :=
  ⟨.missingOperator, fun l => match l with
    | [sign, number] => sign.kind == .operator .minus && number.isNumber
    | _ => false⟩

/-- A letter stands apart from letters, literals and points. -/
def variableNames : Check :=
  ⟨.variableName, fun l => (pairs l).any fun (a, b) =>
    a.kind.isWord && b.kind.isWord && (a.kind == .letter || b.kind == .letter)⟩

/-- There is something to evaluate, and nothing in it is a letter or foreign to expressions. -/
def characters : Check :=
  ⟨.character, fun l => l.isEmpty || l.any fun lexeme =>
    lexeme.kind == .letter || lexeme.kind == .other⟩

/-- A point has a digit behind it and is the only one of its literal. -/
def numberFormat : Check :=
  ⟨.numberFormat, fun l => l.any (·.kind == .dot) || (pairs l).any fun (a, b) =>
    a.isNumber && a.text.contains '.' && b.text.head? == some '.'⟩

/-- Two operands do not follow each other, spaces aside. -/
def missingOperators : Check :=
  ⟨.missingOperator, fun l => (pairs (significant l)).any fun (a, b) =>
    (a.isNumber || a.kind == .rightParen) && (b.isNumber || b.kind == .leftParen)⟩

/-- Whether the first lexeme is an operator other than a minus sign right in front of a literal. -/
def startsWithOperation : List Lexeme → Bool
  | [] => false
  | l :: next => l.isOperator && !(l.kind == .operator .minus && next.head?.any (·.isNumber))

/-- Whether somewhere an operator is followed, spaces aside, by another that negates no literal. -/
def operatorsMeet : List Lexeme → Bool
  | [] => false
  | l :: next =>
    (l.isOperator && startsWithOperation (next.dropWhile (·.isSpace))) || operatorsMeet next

/-- Of two operators with only spaces between them the second negates a literal. -/
def operatorAdjacency : Check := ⟨.operatorPlacement, operatorsMeet⟩

/-- An operator other than minus opens neither the expression nor a group, and none closes either.
Only lexemes that touch count. -/
def operatorBoundaries : Check :=
  ⟨.operatorPlacement, fun l =>
    l.head?.any (·.isBinaryOnly) || l.getLast?.any (·.isOperator) || (pairs l).any fun (a, b) =>
      (a.kind == .leftParen && b.isBinaryOnly) || (a.isOperator && b.kind == .rightParen)⟩

/-- The checks of an expression as it is typed. -/
def typed : List Check := [loneNegative, variableNames]

/-- The checks of an expression whose variables have been replaced. -/
def closed : List Check :=
  [characters, numberFormat, missingOperators, operatorAdjacency, operatorBoundaries]

def run (check : Check) (l : List Lexeme) : Except Fault Unit :=
  if check.fails l then .error check.fault else .ok ()

def firstFault? (checks : List Check) (l : List Lexeme) : Option Fault :=
  (checks.find? (·.fails l)).map (·.fault)

def runAll (checks : List Check) (t : Text) : Except Fault Unit :=
  match firstFault? checks (Lexeme.list t) with
  | some fault => .error fault
  | none => .ok ()

example : firstFault? closed (Lexeme.list "3 * (-1 + 5)".toList) = none := by decide
example : firstFault? closed (Lexeme.list "2 ^ 3".toList) = some .character := by decide
example : firstFault? closed (Lexeme.list "1. * 4".toList) = some .numberFormat := by decide
example : firstFault? closed (Lexeme.list "(1 + 2) (5 - 4)".toList) = some .missingOperator := by
  decide
example : firstFault? closed (Lexeme.list "1 + + 1".toList) = some .operatorPlacement := by decide

end Check

end Reckoner
