import Reckoner.Command

/-!
# Requests

The operations that the variables of an account offer to a host, each with its answer, and the
answers to a sequence of requests of several accounts.
-/

namespace Reckoner

inductive Request where
  | execute (t : Text)
  | solve (t : Text)
  | evaluate (t : Text)
  | assign (name : Text) (v : Float)
  | lookup (name : Text)
  | clear

inductive Answer where
  | text (t : Text)
  | value (v : Float)
  | done
  /-- Whether there was anything to remove. -/
  | removed (any : Bool)
  | failed (fault : Fault)

namespace Store

def settled {α : Type} (store : Store) (answer : α → Answer) :
    Except Fault (Store × α) → Store × Answer
  | .ok (next, outcome) => (next, answer outcome)
  | .error fault => (store, .failed fault)

def respond (store : Store) (account : Account) : Request → Store × Answer
  | .execute t =>
    let outcome := store.execute account t
    (outcome.1, .text outcome.2)
  | .solve t => store.settled .text (store.solve account t)
  | .evaluate t => store.settled .text ((store.evaluate account t).map fun r => (store, r))
  | .assign name v => store.settled (fun _ => .done) ((store.assign account name v).map (·, ()))
  | .lookup name => store.settled .value ((store.lookup account name).map fun v => (store, v))
  | .clear => (store.clear account, .removed (store.holds account))

def after (store : Store) (requests : List (Account × Request)) : Store :=
  requests.foldl (fun store (account, request) => (store.respond account request).1) store

def answers : Store → List (Account × Request) → List Answer
  | _, [] => []
  | store, (account, request) :: rest =>
    let outcome := store.respond account request
    outcome.2 :: answers outcome.1 rest

/-- The variables that some sequence of requests brings about. -/
def Reachable (store : Store) : Prop := ∃ requests, store = empty.after requests

end Store

end Reckoner
