import Reckoner.Fault
import Reckoner.Number.Binary64
import Std.Data.TreeMap

/-!
# Variables

Every account has variables of its own, named by one letter each and holding a finite value. Small
and capital letters are different names.
-/

namespace Reckoner

abbrev Account := String

abbrev Variables := Std.TreeMap Char Float

/-- The variables of every account that has any. -/
structure Store where
  accounts : Std.TreeMap Account Variables

namespace Store

def empty : Store := ⟨∅⟩

/-- The variable a text names: it is a single ASCII letter. -/
def variableName? : Text → Option Char
  | [c] => if c.isAlpha then some c else none
  | _ => none

def get? (store : Store) (account : Account) (name : Char) : Option Float :=
  match store.accounts[account]? with
  | some held => held[name]?
  | none => none

def insert (store : Store) (account : Account) (name : Char) (v : Float) : Store :=
  ⟨store.accounts.insert account ((store.accounts.getD account ∅).insert name v)⟩

/-- Assigns a value to the variable that a text names; the name is checked before the value. -/
def assign (store : Store) (account : Account) (name : Text) (v : Float) : Except Fault Store :=
  match variableName? name with
  | none => .error .variableName
  | some c => if Binary64.isFinite v then .ok (store.insert account c v) else .error .value

def lookup (store : Store) (account : Account) (name : Text) : Except Fault Float :=
  match (variableName? name).bind (store.get? account) with
  | some v => .ok v
  | none => .error (.undefined name)

def holds (store : Store) (account : Account) : Bool := store.accounts.contains account

def clear (store : Store) (account : Account) : Store := ⟨store.accounts.erase account⟩

/-- The variables of an account in the order of their names. -/
def bindings (store : Store) (account : Account) : List (Char × Float) :=
  match store.accounts[account]? with
  | some held => held.toList
  | none => []

end Store

end Reckoner
