import Reckoner.Arguments
import Reckoner.Log.Event

/-!
# Sessions

A session executes commands of one account: either those it is started with, or the lines of its
input, each after a prompt. When it is over, the account's variables are removed.
-/

namespace Reckoner

inductive Line where
  | leave
  | blank
  | command (t : Text)
  deriving DecidableEq, Repr

/-- Reads a line; `exit` is known whatever its capitals. -/
def Line.ofText (t : Text) : Line :=
  let trimmed := Text.trim t
  if Text.lower trimmed = "exit".toList then leave
  else if trimmed.isEmpty then blank
  else command trimmed

structure Progress where
  store : Store
  printed : Text
  events : List Event

namespace Session

def prompt : Text := "> ".toList

def respond (options : Options) (store : Store) (t : Text) : Progress :=
  let outcome := store.execute options.account t
  ⟨outcome.1, outcome.2 ++ ['\n'],
    Event.ofCommand store options.account options.logRefusals t⟩

/-- What follows a line of input; `none` when it leaves the session. -/
def feed (options : Options) (store : Store) (line : Text) : Option Progress :=
  match Line.ofText line with
  | .leave => none
  | .blank => some ⟨store, prompt, []⟩
  | .command t =>
    let answered := respond options store t
    some ⟨answered.store, answered.printed ++ prompt, answered.events⟩

/-- How a session over lines of input ends; `readable` tells that no line was spoilt. -/
structure Ending where
  progress : Progress
  readable : Bool

/-- Reads lines until one leaves or cannot be read, which is `none`. -/
def interact (options : Options) : Store → List (Option Text) → Ending
  | store, [] => ⟨⟨store, [], []⟩, true⟩
  | store, none :: _ => ⟨⟨store, [], []⟩, false⟩
  | store, some line :: rest =>
    match feed options store line with
    | none => ⟨⟨store, [], []⟩, true⟩
    | some answered =>
      let ending := interact options answered.store rest
      ⟨⟨ending.progress.store, answered.printed ++ ending.progress.printed,
        answered.events ++ ending.progress.events⟩, ending.readable⟩

def interactive (options : Options) (store : Store) (lines : List (Option Text)) : Ending :=
  let ending := interact options store lines
  ⟨⟨ending.progress.store, prompt ++ ending.progress.printed, ending.progress.events⟩,
    ending.readable⟩

def batch (options : Options) : Store → List Text → Progress
  | store, [] => ⟨store, [], []⟩
  | store, command :: rest =>
    let answered := respond options store command
    let remaining := batch options answered.store rest
    ⟨remaining.store, answered.printed ++ remaining.printed, answered.events ++ remaining.events⟩

/-- Runs a session on what it was started with; without commands it reads its input. -/
def run (options : Options) (lines : List (Option Text)) : Ending :=
  if options.commands.isEmpty then interactive options Store.empty lines
  else ⟨batch options Store.empty options.commands, true⟩

def close (options : Options) (ending : Ending) : Ending :=
  ⟨⟨ending.progress.store.clear options.account, ending.progress.printed,
    ending.progress.events ++ [.clearing options.account]⟩, ending.readable⟩

end Session

end Reckoner
