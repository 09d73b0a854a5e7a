import Reckoner.Store

/-!
# Arguments

The options of the command line. Arguments are read into items one after the other, and the items
are acted on in order: help, version and a mistake each end the reading, so a mistake behind
`--help` goes unnoticed.
-/

namespace Reckoner

structure Options where
  account : Account
  commands : List Text
  logRefusals : Bool
  deriving DecidableEq, Repr

inductive Invocation where
  | session (options : Options)
  | help
  | version
  | mistaken
  deriving DecidableEq, Repr

namespace Arguments

/-- An option that takes a value. -/
inductive Setting where
  | account | eval
  deriving DecidableEq, Repr

inductive Flag where
  | logErrors | help | version
  deriving DecidableEq, Repr

abbrev Choice := Setting ⊕ Flag

/-- An option in use, or an argument that is none. -/
inductive Item where
  | set (setting : Setting) (value : Text)
  | flag (flag : Flag)
  | mistake
  deriving DecidableEq, Repr

def choiceOfLetter? : Char → Option Choice
  | 'a' => some (.inl .account)
  | 'e' => some (.inl .eval)
  | 'l' => some (.inr .logErrors)
  | 'h' => some (.inr .help)
  | 'V' => some (.inr .version)
  | _ => none

def choiceOfName? (name : Text) : Option Choice :=
  if name = "account".toList then some (.inl .account)
  else if name = "eval".toList then some (.inl .eval)
  else if name = "log-errors".toList then some (.inr .logErrors)
  else if name = "help".toList then some (.inr .help)
  else if name = "version".toList then some (.inr .version)
  else none

/-- The items of the letters behind one dash, and the option that still waits for its value. What
follows an option with a value is the value; an equals sign between the two is dropped. -/
def ofLetters : Text → List Item × Option Setting
  | [] => ([], none)
  | c :: t =>
    match choiceOfLetter? c with
    | none => ([.mistake], none)
    | some (.inl setting) =>
      match t with
      | [] => ([], some setting)
      | '=' :: value => ([.set setting value], none)
      | value => ([.set setting value], none)
    | some (.inr flag) =>
      let more := ofLetters t
      (.flag flag :: more.1, more.2)

def ofName (t : Text) : List Item × Option Setting :=
  match choiceOfName? (t.takeWhile (· != '=')), t.dropWhile (· != '=') with
  | some (.inl setting), [] => ([], some setting)
  | some (.inl setting), _ :: value => ([.set setting value], none)
  | some (.inr flag), [] => ([.flag flag], none)
  | _, _ => ([.mistake], none)

def ofArgument : Text → List Item × Option Setting
  | '-' :: '-' :: name => ofName name
  | '-' :: c :: letters => ofLetters (c :: letters)
  | _ => ([.mistake], none)

def isValue : Text → Bool
  | '-' :: _ :: _ => false
  | _ => true

/-- The items of all arguments. Two dashes end the options, and nothing may follow them. -/
def items : List Text → List Item
  | [] => []
  | [argument] =>
    if argument = "--".toList then []
    else match ofArgument argument with
      | (found, none) => found
      | (found, some _) => found ++ [.mistake]
  | argument :: next :: rest =>
    if argument = "--".toList then [.mistake]
    else match ofArgument argument with
      | (found, none) => found ++ items (next :: rest)
      | (found, some setting) =>
        if isValue next then found ++ .set setting next :: items rest else found ++ [.mistake]

structure Draft where
  account? : Option Account
  commands : List Text
  logRefusals : Bool

def Draft.options (d : Draft) : Options := ⟨d.account?.getD "cli", d.commands, d.logRefusals⟩

/-- Acts on items; commands add up, but neither the account nor the logging is asked for twice. -/
def act (d : Draft) : List Item → Invocation
  | [] => .session d.options
  | .mistake :: _ => .mistaken
  | .set .account value :: rest =>
    if d.account?.isSome then .mistaken
    else act ⟨some (String.ofList value), d.commands, d.logRefusals⟩ rest
  | .set .eval value :: rest => act ⟨d.account?, d.commands ++ [value], d.logRefusals⟩ rest
  | .flag .logErrors :: rest =>
    if d.logRefusals then .mistaken else act ⟨d.account?, d.commands, true⟩ rest
  | .flag .help :: _ => .help
  | .flag .version :: _ => .version

end Arguments

def Invocation.ofArguments (arguments : List Text) : Invocation :=
  Arguments.act ⟨none, [], false⟩ (Arguments.items arguments)

example : Invocation.ofArguments ["-le".toList, "1+1".toList, "-a=matt".toList] =
    .session ⟨"matt", ["1+1".toList], true⟩ := by decide
example : Invocation.ofArguments ["-h".toList, "-x".toList] = .help := by decide
example : Invocation.ofArguments ["-e".toList, "-5".toList] = .mistaken := by decide

end Reckoner
