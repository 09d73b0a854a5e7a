import Reckoner.Equation

/-!
# Commands

A command is a keyword, an equation, an expression or a variable to look up; what it is can be told
from its text alone. Only an equation changes the variables. Every command is answered: where it is
refused, the answer says why.
-/

namespace Reckoner

inductive Keyword where
  | hello | author | help
  deriving DecidableEq, Repr

namespace Keyword

def all : List Keyword := [hello, author, help]

def name : Keyword → Text
  | hello => "hello".toList
  | author => "author".toList
  | help => "help".toList

def helpLines : List String :=
  ["", "Commands:",
   "hello", "    Output \"world\"",
   "author", "    Output author name",
   "help", "    Output this help message",
   "",
   "This bot can also perform basic mathematical calculations (exponents are not supported). " ++
     "Variables may be assigned using the format:",
   "x = 1",
   "Variable names may consist of a single letter and are case sensitive. " ++
     "Variables may also be used in calculations. For example:",
   "a = 1", "b = 2", "2 * (a+b)", "-> 6"]

def reply : Keyword → Text
  | hello => "world".toList
  | author => "Bill Bryant".toList
  | help => ("\n".intercalate helpLines).toList

/-- The keyword that a text is; capitals do not matter. -/
def ofText? (t : Text) : Option Keyword := all.find? fun keyword => keyword.name == Text.lower t

end Keyword

inductive Command where
  | keyword (k : Keyword)
  | equation (t : Text)
  | expression (t : Text)
  | lookup (name : Text)
  | unrecognized
  deriving DecidableEq, Repr

namespace Command

def ofTrimmed (t : Text) : Command :=
  match Keyword.ofText? t with
  | some k => keyword k
  | none =>
    if t.contains '=' then equation t
    else if hasOperator t then expression t
    else if (Store.variableName? t).isSome then lookup t
    else unrecognized

def ofText (t : Text) : Command := ofTrimmed (Text.trim t)

def refuse {α : Type} (outcome : Except Fault α) : Except Refusal α := outcome.mapError .fault

def run (store : Store) (account : Account) : Command → Except Refusal (Store × Text)
  | keyword k => .ok (store, k.reply)
  | equation t => refuse (store.solve account t)
  | expression t => refuse ((store.evaluate account t).map fun result => (store, result))
  | lookup name => refuse ((store.lookup account name).map fun v => (store, render v))
  | unrecognized => .error .unrecognized

end Command

/-- Carries out the command that a text is, and answers. A refused command leaves the variables as
they are. -/
def Store.execute (store : Store) (account : Account) (t : Text) : Store × Text :=
  match (Command.ofText t).run store account with
  | .ok outcome => outcome
  | .error refusal => (store, "Error: ".toList ++ refusal.message)

end Reckoner
