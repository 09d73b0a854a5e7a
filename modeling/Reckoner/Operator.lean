import Reckoner.Text

/-!
# Operators

The four binary operators, how they are written, and the two levels at which they bind.
-/

namespace Reckoner

inductive Operator where
  | plus | minus | times | divide
  deriving DecidableEq, Repr

namespace Operator

def symbol : Operator → Char
  | plus => '+'
  | minus => '-'
  | times => '*'
  | divide => '/'

def ofChar? : Char → Option Operator
  | '+' => some plus
  | '-' => some minus
  | '*' => some times
  | '/' => some divide
  | _ => none

@[simp] theorem ofChar?_symbol (op : Operator) : ofChar? op.symbol = some op := by
  cases op <;> rfl

theorem symbol_of_ofChar? {c : Char} {op : Operator} (h : ofChar? c = some op) : op.symbol = c := by
  unfold ofChar? at h
  split at h <;> simp_all <;> subst h <;> rfl

theorem ofChar?_eq_some_iff {c : Char} {op : Operator} : ofChar? c = some op ↔ c = op.symbol :=
  ⟨fun h => (symbol_of_ofChar? h).symm, fun h => h ▸ ofChar?_symbol op⟩

/-- A set of operators that are contracted together. -/
abbrev Level := List Operator

def multiplicative : Level := [times, divide]

def additive : Level := [plus, minus]

def levels : List Level := [multiplicative, additive]

def precedence (op : Operator) : Nat := levels.findIdx (op ∈ ·)

end Operator

def isOperatorChar (c : Char) : Bool := (Operator.ofChar? c).isSome

/-- Whether an operator occurs anywhere in a text, be it the sign of a literal. -/
def hasOperator (t : Text) : Bool := t.any isOperatorChar

end Reckoner
