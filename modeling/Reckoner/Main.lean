import Reckoner.CommandLine

/-!
# The program

Input is read a line at a time, so that a line is answered before the next one is awaited.
-/

namespace Reckoner.Program

def filterVariable : String := "RUST_LOG"

def usageText : Text := "error: invalid arguments\n\nFor more information, try '--help'.\n".toList

def write (stream : IO.FS.Stream) (t : Text) : IO Unit := do
  stream.putStr (String.ofList t)
  stream.flush

def emit (threshold : Threshold) (p : Progress) : IO Unit := do
  write (← IO.getStderr) (CommandLine.log threshold p.events)
  write (← IO.getStdout) p.printed

/-- The next line of input, `none` at its end; `line` holds the bytes read so far in reverse. -/
partial def nextLine? (input : IO.FS.Stream) (line : List UInt8) : IO (Option (List UInt8)) := do
  match (← input.read 1).toList with
  | [] => return if line.isEmpty then none else some line.reverse
  | b :: _ => if b = 10 then return some (CommandLine.ended line) else nextLine? input (b :: line)

/-- Answers lines until the session is over; returns the variables and whether every line could be
read. -/
partial def converse (options : Options) (threshold : Threshold) (store : Store) :
    IO (Store × Bool) := do
  match ← nextLine? (← IO.getStdin) [] with
  | none => return (store, true)
  | some bytes =>
    match CommandLine.decode? bytes with
    | none => return (store, false)
    | some line =>
      match Session.feed options store line with
      | none => return (store, true)
      | some answered =>
        emit threshold answered
        converse options threshold answered.store

def execute (options : Options) (threshold : Threshold) : IO Store := do
  let mut store := Store.empty
  for command in options.commands do
    let answered := Session.respond options store command
    emit threshold answered
    store := answered.store
  return store

/-- Runs a session and removes the account's variables; returns the exit code. -/
def runSession (options : Options) (threshold : Threshold) : IO UInt32 := do
  let (store, readable) ←
    if options.commands.isEmpty then
      write (← IO.getStdout) Session.prompt
      converse options threshold Store.empty
    else pure (← execute options threshold, true)
  emit threshold (Session.close options ⟨⟨store, [], []⟩, readable⟩).progress
  if readable then return 0
  write (← IO.getStderr) CommandLine.unreadable
  return 1

def run (arguments : List String) : IO UInt32 := do
  match Invocation.ofArguments (arguments.map String.toList) with
  | .help =>
    write (← IO.getStdout) CommandLine.helpText
    return 0
  | .version =>
    write (← IO.getStdout) CommandLine.versionText
    return 0
  | .mistaken =>
    write (← IO.getStderr) usageText
    return 2
  | .session options =>
    let filter? ← IO.getEnv filterVariable
    runSession options (CommandLine.thresholdOf (filter?.map String.toList))

end Reckoner.Program

def main (arguments : List String) : IO UInt32 := Reckoner.Program.run arguments
