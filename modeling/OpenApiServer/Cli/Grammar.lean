import OpenApiServer.Text.Basic

/-!
# The grammar of a command line

A command has named arguments, positional arguments and commands of its own. `help` is a command of
every command that has others, and `-h` and `--help` are known everywhere. The help text of a
command is made from its grammar.
-/

namespace OpenApiServer.Cli

/-- What a named argument takes: a text, or one of some choices. -/
structure ValueKind where
  placeholder : String
  choices : List String
  default : Option String
  deriving DecidableEq, Repr

/-- A named argument. Without a kind of value it is a flag. -/
structure Named where
  name : String
  letter : Option Char
  value : Option ValueKind
  help : String
  deriving DecidableEq, Repr

/-- A positional argument, which is required and not empty. -/
structure Positional where
  placeholder : String
  help : String
  deriving DecidableEq, Repr

structure Command where
  name : String
  about : String
  version : Option String
  named : List Named
  positionals : List Positional
  commands : List Command
  conflicts : List (String × String)

namespace Named

def helpFlag : Named := ⟨"help", some 'h', none, "Print help"⟩

def versionFlag : Named := ⟨"version", some 'V', none, "Print version"⟩

/-- The argument as it is written in messages. -/
def display (n : Named) : String :=
  "--" ++ n.name ++
    match n.value with
    | some v => " <" ++ v.placeholder ++ ">"
    | none => ""

/-- The argument with its letter, as it is written in help texts. -/
def helpName (n : Named) : String :=
  (match n.letter with
    | some c => "-" ++ String.ofList [c] ++ ", "
    | none => "    ") ++ n.display

/-- The help of an argument with its default and its choices. -/
def helpText (n : Named) : String :=
  n.help ++
    match n.value with
    | none => ""
    | some v =>
      (match v.default with
        | some d => " [default: " ++ d ++ "]"
        | none => "") ++
      (if v.choices.isEmpty then ""
        else " [possible values: " ++ Text.joinWith ", " v.choices ++ "]")

end Named

namespace Positional

def display (p : Positional) : String := "<" ++ p.placeholder ++ ">"

end Positional

namespace Command

def helpName : String := "help"

def helpAbout : String := "Print this message or the help of the given subcommand(s)"

/-- All named arguments, help and version last. -/
def allNamed (c : Command) : List Named :=
  c.named ++ [Named.helpFlag] ++ (if c.version.isSome then [Named.versionFlag] else [])

def hasCommands (c : Command) : Bool := !c.commands.isEmpty

def find? (c : Command) (name : String) : Option Command := c.commands.find? (·.name == name)

def byName? (c : Command) (name : String) : Option Named := c.allNamed.find? (·.name == name)

def byLetter? (c : Command) (letter : Char) : Option Named :=
  c.allNamed.find? (·.letter == some letter)

/-! ## Help -/

def padTo (n : Nat) (s : String) : String :=
  s ++ String.ofList (List.replicate (n - s.length) ' ')

/-- Lines of names and texts, the texts below each other. -/
def helpTable (entries : List (String × String)) : String :=
  let longest := (entries.map (·.1.length)).foldl max 0
  Text.joinWith "" (entries.map fun (name, text) =>
    "  " ++ padTo longest name ++ "  " ++ text ++ "\n")

def helpSection (title : String) (entries : List (String × String)) : String :=
  if entries.isEmpty then "" else "\n" ++ title ++ ":\n" ++ helpTable entries

def usage (c : Command) (path : String) : String :=
  "Usage: " ++ path ++ " [OPTIONS]" ++
    Text.joinWith "" (c.positionals.map fun p => " " ++ p.display) ++
    (if c.hasCommands then " <COMMAND>" else "")

/-- The help of a command that is reached by the names in `path`. -/
def help (c : Command) (path : String) : String :=
  c.about ++ "\n\n" ++ c.usage path ++ "\n" ++
    helpSection "Commands"
      (if c.hasCommands then c.commands.map (fun s => (s.name, s.about)) ++ [(helpName, helpAbout)]
        else []) ++
    helpSection "Arguments" (c.positionals.map fun p => (p.display, p.help)) ++
    helpSection "Options" (c.allNamed.map fun n => (n.helpName, n.helpText))

/-- The help of the `help` command. -/
def helpOfHelp (path : String) : String :=
  helpAbout ++ "\n\nUsage: " ++ path ++ " help [COMMAND]...\n" ++
    helpSection "Arguments" [("[COMMAND]...", "Print help for the subcommand(s)")]

end Command

end OpenApiServer.Cli

/-!
## Arguments that do not fit a grammar

Reading a command line ends early when help or the version is asked for, or when the arguments are
not what the grammar allows.
-/

namespace OpenApiServer.Cli

/-- Why arguments are refused. Arguments are given as they are written in messages. -/
inductive UsageError where
  | missingCommand (path : String)
  | missingArguments (names : List String)
  | unknownCommand (text : String)
  | unknownArgument (text : String)
  | missingValue (argument : String)
  | badValue (value argument : String)
  | unexpectedValue (value argument : String)
  | repeated (argument : String)
  | conflict (argument other : String)
  deriving DecidableEq, Repr

def UsageError.message : UsageError → String
  | .missingCommand path => "'" ++ path ++ "' requires a subcommand but one was not provided"
  | .missingArguments names =>
    "the following required arguments were not provided:" ++
      Text.joinWith "" (names.map ("\n  " ++ ·))
  | .unknownCommand text => "unrecognized subcommand '" ++ text ++ "'"
  | .unknownArgument text => "unexpected argument '" ++ text ++ "' found"
  | .missingValue argument => "a value is required for '" ++ argument ++ "' but none was supplied"
  | .badValue value argument => "invalid value '" ++ value ++ "' for '" ++ argument ++ "'"
  | .unexpectedValue value argument =>
    "unexpected value '" ++ value ++ "' for '" ++ argument ++ "' found; no more were expected"
  | .repeated argument => "the argument '" ++ argument ++ "' cannot be used multiple times"
  | .conflict argument other =>
    "the argument '" ++ argument ++ "' cannot be used with '" ++ other ++ "'"

/-- Why no command is run: help or the version is shown, help is shown because nothing was asked
for, or the arguments are refused. -/
inductive Halt where
  | help (text : String)
  | version (text : String)
  | nothingGiven (help : String)
  | refused (error : UsageError)
  deriving DecidableEq, Repr

end OpenApiServer.Cli
