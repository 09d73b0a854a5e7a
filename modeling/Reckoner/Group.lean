import Reckoner.Reduction

/-!
# Groups

Groups in parentheses are replaced by their values, the one that opens last first. Read from its
end, a text is rebuilt character by character: whatever follows an opening parenthesis holds no
other one by then, so the next closing parenthesis is its partner.
-/

namespace Reckoner

namespace Group

/-- The text up to the first closing parenthesis and the text behind it. -/
def split? (t : Text) : Option (Text × Text) :=
  match t.dropWhile (· != ')') with
  | [] => none
  | _ :: rest => some (t.takeWhile (· != ')'), rest)

/-- Puts a character in front of a text without opening parentheses; an opening one is replaced,
together with its group, by the group's value. -/
def extend (c : Char) (t : Text) : Except Fault Text :=
  if c = '(' then
    match split? t with
    | none => .error .parentheses
    | some (inner, rest) => (evaluateFlat inner).map (· ++ rest)
  else .ok (c :: t)

/-- Replaces the groups that open in a text; closing parentheses without a partner stay. -/
def closeAll (t : Text) : Except Fault Text := t.foldrM extend []

@[simp] theorem closeAll_nil : closeAll [] = .ok [] := rfl

end Group

def resolveGroups (t : Text) : Except Fault Text :=
  match Group.closeAll t with
  | .error fault => .error fault
  | .ok resolved => if resolved.contains ')' then .error .parentheses else .ok resolved

end Reckoner
