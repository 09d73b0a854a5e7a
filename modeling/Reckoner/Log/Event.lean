import Reckoner.Log.Guarded
import Reckoner.Trace

/-!
# Log events

What a session tells the log: operations, assignments, refused commands and the removal of an
account's variables. A line has the severity, the place the event belongs to, a message and fields.
-/

namespace Reckoner

inductive Severity where
  | error | warning | info | debug | trace
  deriving DecidableEq, Repr

namespace Severity

def rank : Severity → Nat
  | error => 0
  | warning => 1
  | info => 2
  | debug => 3
  | trace => 4

def label : Severity → Text
  | error => "ERROR".toList
  | warning => "WARN".toList
  | info => "INFO".toList
  | debug => "DEBUG".toList
  | trace => "TRACE".toList

end Severity

inductive Event where
  | reducing (o : Occurrence)
  | assigning (account : Account) (name : Text) (v : Float)
  | refusing (account : Account) (command : Text) (refusal : Refusal)
  | clearing (account : Account)

namespace Event

def severity : Event → Severity
  | reducing _ => .trace
  | assigning .. => .debug
  | refusing .. => .error
  | clearing _ => .info

def target : Event → Text
  | reducing _ => "calcbot::interpreter::evaluator::operation".toList
  | assigning .. => "calcbot::interpreter::store".toList
  | refusing .. => "calcbot::command".toList
  | clearing _ => "calcbot::interpreter::store".toList

def message : Event → Text
  | reducing _ => "reducing operation".toList
  | assigning .. => "assigning variable".toList
  | refusing _ _ refusal => refusal.message
  | clearing account => "Deleting variables for account: ".toList ++ account.toList

def fields : Event → List (Text × Text)
  | reducing o =>
    [("operator".toList, [o.operator.symbol]), ("operand1".toList, Quoted.quote o.left),
     ("operand2".toList, Quoted.quote o.right)]
  | assigning account name v =>
    [("account".toList, Quoted.quote account.toList), ("name".toList, name),
     ("value".toList, renderTyped v)]
  | refusing account command _ =>
    [("account".toList, Quoted.quote account.toList), ("command".toList, Quoted.quote command)]
  | clearing _ => []

def line (e : Event) : Text :=
  e.severity.label ++ ' ' :: e.target ++ ": ".toList ++ Guarded.guard e.message ++
    e.fields.flatMap fun (name, value) => ' ' :: (name ++ '=' :: value)

def ofAssignment (store : Store) (account : Account) (t : Text) : List Event :=
  match Equation.ofText t, store.solve account t with
  | .ok e, .ok (next, _) =>
    match next.lookup account e.name with
    | .ok v => [assigning account e.name v]
    | .error _ => []
  | _, _ => []

/-- The events of one command: its operations, then its assignment or, if refused commands are
logged, its refusal. -/
def ofCommand (store : Store) (account : Account) (logRefusals : Bool) (t : Text) : List Event :=
  let command := Command.ofText t
  (Trace.ofCommand store account command).map reducing ++
    match command, command.run store account with
    | .equation equation, .ok _ => ofAssignment store account equation
    | _, .error refusal => if logRefusals then [refusing account (Text.trim t) refusal] else []
    | _, .ok _ => []

end Event

/-- Which events are printed: those at least as grave as a severity, or none. -/
abbrev Threshold := Option Severity

namespace Threshold

def standard : Threshold := some .info

/-- The threshold that a filter asks for; the program's name may stand in front of the severity. -/
def ofFilter (filter : Text) : Threshold :=
  let name := "calcbot=".toList
  let severity := if name.isPrefixOf filter then filter.drop name.length else filter
  if severity = "off".toList then none
  else if severity = "error".toList then some .error
  else if severity = "warn".toList then some .warning
  else if severity = "debug".toList then some .debug
  else if severity = "trace".toList then some .trace
  else standard

def shows (threshold : Threshold) (e : Event) : Bool :=
  threshold.any fun limit => e.severity.rank ≤ limit.rank

end Threshold

end Reckoner
