import Reckoner.Occurrence

/-!
# Reducing a text without parentheses

A level of operators is reduced in rounds. A round contracts the leftmost occurrence and unwraps a
double negation that is the whole text. Rounds end when no operator of the level is left, or when
those left are the signs of negative literals; a round that changes nothing is a fault. All levels
in their order reduce a text to one number.
-/

namespace Reckoner

open Operator (Level)

def operatorCount (level : Level) (t : Text) : Nat :=
  t.countP fun c => (Operator.ofChar? c).any (· ∈ level)

def minusLiteral? : Text → Option Text
  | '-' :: t => (Literal.unsigned? t).map fun (number, _) => '-' :: number
  | _ => none

def operatorMinusLiteral? : Text → Option Text
  | [] => none
  | c :: t =>
    if isOperatorChar c then
      (minusLiteral? (Text.afterSpaces t)).map fun number => c :: (Text.spaces t ++ number)
    else none

/-- A negative literal at the beginning of a text, together with the operator it follows unless it
opens the expression. -/
def negativeLiteral? (opens : Bool) (t : Text) : Option Text :=
  (if opens then minusLiteral? t else none).or (operatorMinusLiteral? t)

/-- The negative literals behind the first `skip` characters, which belong to the literal in
front. -/
def negativeCountFrom : (opens : Bool) → (skip : Nat) → Text → Nat
  | _, _, [] => 0
  | opens, 0, c :: t =>
    match negativeLiteral? opens (c :: t) with
    | some number => negativeCountFrom false (number.length - 1) t + 1
    | none => negativeCountFrom false 0 t
  | _, skip + 1, _ :: t => negativeCountFrom false skip t

/-- The number of negative literals in a text, counted from the left without overlap. -/
def negativeCount (t : Text) : Nat := negativeCountFrom true 0 t

/-- The literal in a text that is nothing but its double negation. -/
def doubleNegated? : Text → Option Text
  | '-' :: t => match Text.afterSpaces t with
    | '-' :: number => if Literal.isUnsigned number then some number else none
    | _ => none
  | _ => none

inductive Round where
  | finished (t : Text)
  | ongoing (t : Text)
  deriving DecidableEq, Repr

/-- The second half of a round, on a text in which an occurrence has been contracted or not. -/
def settle (level : Level) (contracted : Bool) (t : Text) : Except Fault Round :=
  let remaining := operatorCount level t
  let plain? := if .minus ∈ level then doubleNegated? t else none
  let rest := plain?.getD t
  if remaining = 0 then .ok (.finished t)
  else if .minus ∈ level ∧ negativeCount rest = remaining then .ok (.finished rest)
  else if contracted || plain?.isSome then .ok (.ongoing rest)
  else .error .operatorPlacement

def round (level : Level) (t : Text) : Except Fault Round :=
  match Occurrence.find? level t with
  | none => settle level false t
  | some o => match o.contract with
    | .error fault => .error fault
    | .ok contracted => settle level true contracted

/-- Rounds until one finishes; `none` if that takes more than `fuel` of them. -/
def rounds (level : Level) : (fuel : Nat) → Text → Option (Except Fault Text)
  | 0, _ => none
  | fuel + 1, t =>
    match round level t with
    | .error fault => some (.error fault)
    | .ok (.finished done) => some (.ok done)
    | .ok (.ongoing rest) => rounds level fuel rest

/-- Reduces the operations of a level. An ongoing round uses up a literal or unwraps the one double
negation, so two rounds more than the text has characters are enough. -/
def reduce (level : Level) (t : Text) : Except Fault Text :=
  if operatorCount level t = 0 then .ok t
  else (rounds level (t.length + 2) t).getD (.error .operatorPlacement)

def reduceAll (t : Text) : Except Fault Text :=
  Operator.levels.foldlM (fun t level => reduce level t) t

/-- The value of an expression without parentheses, as text; it is empty if the expression is
blank. -/
def evaluateFlat (t : Text) : Except Fault Text :=
  match reduceAll t with
  | .error fault => .error fault
  | .ok reduced =>
    let result := Text.trim reduced
    if result.isEmpty || Literal.isResult result then .ok result else .error (.notANumber result)

end Reckoner
