import Reckoner.Command

/-!
# Traces

The operations that an evaluation carries out, in order. An operation whose arithmetic fails is the
last of its trace.
-/

namespace Reckoner.Trace

open Operator (Level)

/-- The operations of at most `fuel` rounds. -/
def ofRounds (level : Level) : (fuel : Nat) → Text → List Occurrence
  | 0, _ => []
  | fuel + 1, t =>
    (Occurrence.find? level t).toList ++ match round level t with
      | .ok (.ongoing rest) => ofRounds level fuel rest
      | _ => []

def ofReduce (level : Level) (t : Text) : List Occurrence :=
  if operatorCount level t = 0 then [] else ofRounds level (t.length + 2) t

def ofLevels : List Level → Text → List Occurrence
  | [], _ => []
  | level :: levels, t =>
    ofReduce level t ++ match reduce level t with
      | .ok reduced => ofLevels levels reduced
      | .error _ => []

def ofFlat (t : Text) : List Occurrence := ofLevels Operator.levels t

/-- The operations inside groups, the last group first. -/
def ofGroups : Text → List Occurrence
  | [] => []
  | c :: t =>
    ofGroups t ++ match c, Group.closeAll t with
      | '(', .ok rest => ((Group.split? rest).map fun (inner, _) => ofFlat inner).getD []
      | _, _ => []

def ofExpression (store : Store) (account : Account) (t : Text) : List Occurrence :=
  let closed := store.substitute account t
  match Check.runAll Check.typed t, Check.runAll Check.closed closed with
  | .ok (), .ok () =>
    ofGroups closed ++ match resolveGroups closed with
      | .ok flat => ofFlat flat
      | .error _ => []
  | _, _ => []

def ofEquation (store : Store) (account : Account) (t : Text) : List Occurrence :=
  match Equation.ofText t with
  | .ok e => if e.isDirect then [] else ofExpression store account e.right
  | .error _ => []

def ofCommand (store : Store) (account : Account) : Command → List Occurrence
  | .equation t => ofEquation store account t
  | .expression t => ofExpression store account t
  | _ => []

example : (ofFlat "1 + -3 * 2".toList).map (fun o => (o.left, o.operator)) =
    [("+ -3".toList, .times), ("1".toList, .plus)] := by decide +kernel

end Reckoner.Trace
