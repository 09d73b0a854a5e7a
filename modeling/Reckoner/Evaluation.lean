import Reckoner.Check
import Reckoner.Group
import Reckoner.Store

/-!
# Evaluating expressions

An expression is checked as it is typed, its variables are replaced by the text of their values, the
outcome is checked again, its groups are resolved, and what is left is reduced to a number.
-/

namespace Reckoner

def Text.substitute (c : Char) (value t : Text) : Text :=
  t.flatMap fun x => if x = c then value else [x]

namespace Store

/-- A text in which the account's variables are replaced by their values, one name after the
other. -/
def substitute (store : Store) (account : Account) (t : Text) : Text :=
  (store.bindings account).foldl (fun t (name, v) => Text.substitute name (render v) t) t

def evaluate (store : Store) (account : Account) (t : Text) : Except Fault Text := do
  Check.runAll Check.typed t
  let closed := store.substitute account t
  Check.runAll Check.closed closed
  let flat ← resolveGroups closed
  evaluateFlat flat

end Store

end Reckoner
