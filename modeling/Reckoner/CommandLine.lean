import Reckoner.Session

/-!
# The command line

From arguments, input and log filter to exit code and output. Input is bytes, cut into lines and
decoded line by line, so that a line which is not UTF-8 spoils only what follows it.
-/

namespace Reckoner

namespace CommandLine

def versionText : Text := "calcbot 0.1.0\n".toList

def helpLines : List String :=
  ["An arithmetic expression and equation evaluator with per-account variables.",
   "",
   "Usage: calcbot [OPTIONS]",
   "",
   "Options:",
   "  -a, --account <ACCOUNT>  The account variables are stored under [default: cli]",
   "  -e, --eval <COMMAND>     Runs the given command and exits instead of reading standard " ++
     "input. May be given several times",
   "  -l, --log-errors         Logs evaluation errors to standard error",
   "  -h, --help               Print help",
   "  -V, --version            Print version"]

def helpText : Text := helpLines.flatMap fun line => line.toList ++ ['\n']

def unreadable : Text := "Session I/O failed: stream did not contain valid UTF-8\n".toList

/-- The bytes of a line that a line feed ends, from its bytes in reverse; a carriage return in front
of the line feed is dropped. -/
def ended : List UInt8 → List UInt8
  | 13 :: line => line.reverse
  | line => line.reverse

/-- The lines of a list of bytes; the last one may lack a line feed. `line` holds the bytes of the
current line in reverse. -/
def linesFrom (line : List UInt8) : List UInt8 → List (List UInt8)
  | [] => if line.isEmpty then [] else [line.reverse]
  | b :: rest => if b = 10 then ended line :: linesFrom [] rest else linesFrom (b :: line) rest

def decode? (bytes : List UInt8) : Option Text :=
  (String.fromUTF8? ⟨bytes.toArray⟩).map String.toList

/-- The lines of an input, `none` for one that is not UTF-8. -/
def lines (input : List UInt8) : List (Option Text) := (linesFrom [] input).map decode?

structure Outcome where
  code : Nat
  printed : Text
  logged : Text
  deriving DecidableEq, Repr

def log (threshold : Threshold) (events : List Event) : Text :=
  (events.filter threshold.shows).flatMap fun e => e.line ++ ['\n']

def conclude (threshold : Threshold) (ending : Session.Ending) : Outcome :=
  let logged := log threshold ending.progress.events
  if ending.readable then ⟨0, ending.progress.printed, logged⟩
  else ⟨1, ending.progress.printed, logged ++ unreadable⟩

def thresholdOf (filter? : Option Text) : Threshold :=
  match filter? with
  | some filter => Threshold.ofFilter filter
  | none => Threshold.standard

/-- Runs the program. Nothing is said here of what is wrong with mistaken arguments. -/
def run (arguments : List Text) (input : List UInt8) (filter? : Option Text) : Outcome :=
  match Invocation.ofArguments arguments with
  | .help => ⟨0, helpText, []⟩
  | .version => ⟨0, versionText, []⟩
  | .mistaken => ⟨2, [], []⟩
  | .session options =>
    conclude (thresholdOf filter?) (Session.close options (Session.run options (lines input)))

end CommandLine

end Reckoner
