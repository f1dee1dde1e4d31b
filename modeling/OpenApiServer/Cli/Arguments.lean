import OpenApiServer.Cli.Grammar

/-!
# Reading a command line

Arguments are read from left to right. A name of a command hands the rest over to that command, two
hyphens start a long name, one hyphen a row of letters, and anything else is the value of the named
argument before it or the next positional argument. After `--` all arguments are positional. A
value is checked when the next argument is met, so an unknown argument after it is reported first.
-/

namespace OpenApiServer.Cli

/-- What has been given: the values of arguments by name, innermost command first. -/
structure Given where
  commands : List String
  values : List (String × String)
  deriving Repr

namespace Given

def empty : Given := ⟨[], []⟩

def value? (g : Given) (name : String) : Option String := g.values.lookup name

def isSet (g : Given) (name : String) : Bool := (g.value? name).isSome

end Given

/-- An argument whose value has not been checked yet. -/
inductive Waiting where
  | named (argument : Named) (value : Option String)
  | positional (argument : Positional) (value : String)

/-- How far the arguments of one command have been read. -/
structure ArgumentState where
  values : List (String × String)
  waiting : Option Waiting
  position : Nat
  trailing : Bool

namespace ArgumentState

def start : ArgumentState := ⟨[], none, 0, false⟩

def refuse {α : Type} (e : UsageError) : Except Halt α := .error (.refused e)

/-- Whether the next argument is the value of the last one. -/
def awaitsValue (s : ArgumentState) : Bool :=
  match s.waiting with
  | some (.named _ none) => true
  | _ => false

/-- Notes a value of a named argument, which can be given once. -/
def note (s : ArgumentState) (n : Named) (value : String) : Except Halt ArgumentState :=
  if (s.values.lookup n.name).isSome then refuse (.repeated n.display)
  else .ok { s with values := s.values ++ [(n.name, value)] }

/-- Checks and notes the value of a named argument. -/
def accept (s : ArgumentState) (n : Named) (kind : ValueKind) (value : String) :
    Except Halt ArgumentState := do
  let s ← s.note n value
  if kind.choices.isEmpty || kind.choices.contains value then return s
  else if value.isEmpty then refuse (.missingValue n.display)
  else refuse (.badValue value n.display)

/-- Checks the value that is waiting. -/
def settle (s : ArgumentState) : Except Halt ArgumentState :=
  let t := { s with waiting := none }
  match s.waiting with
  | none => .ok t
  | some (.positional p value) =>
    if value.isEmpty then refuse (.missingValue p.display)
    else .ok { t with values := t.values ++ [(p.placeholder, value)] }
  | some (.named n value) =>
    match n.value, value with
    | some kind, some v => t.accept n kind v
    | _, _ => refuse (.missingValue n.display)

/-- Notes a flag. Help and version are shown at once. -/
def flag (s : ArgumentState) (c : Command) (path : String) (n : Named) :
    Except Halt ArgumentState := do
  let s ← s.settle
  if n = Named.helpFlag then .error (.help (c.help path))
  else if n = Named.versionFlag then .error (.version (path ++ " " ++ c.version.getD "" ++ "\n"))
  else s.note n "true"

/-- Reads a long name with the value that may be attached to it. -/
def long (s : ArgumentState) (c : Command) (path : String) (name : String) (value : Option String) :
    Except Halt ArgumentState :=
  match c.byName? name with
  | none => refuse (.unknownArgument ("--" ++ name))
  | some n =>
    match n.value, value with
    | some kind, some v => do (← s.settle).accept n kind v
    | some _, none => do return { ← s.settle with waiting := some (.named n none) }
    | none, some v => refuse (.unexpectedValue v n.display)
    | none, none => s.flag c path n

/-- Reads a row of letters. -/
def letters (c : Command) (path : String) :
    ArgumentState → List Char → Except Halt ArgumentState
  | s, [] => .ok s
  | s, letter :: rest =>
    match c.byLetter? letter with
    | none => refuse (.unknownArgument ("-" ++ String.ofList [letter]))
    | some n => do
      let s ← s.flag c path n
      letters c path s rest

/-- Reads a positional argument. -/
def positional (s : ArgumentState) (c : Command) (text : String) : Except Halt ArgumentState :=
  match c.positionals[s.position]? with
  | some p => do
    let s ← s.settle
    return { s with waiting := some (.positional p text), position := s.position + 1 }
  | none =>
    let known := s.trailing && ((c.find? text).isSome || text == Command.helpName)
    if c.hasCommands && !known then refuse (.unknownCommand text)
    else refuse (.unknownArgument text)

/-- Reads an argument that names no command. -/
def argument (s : ArgumentState) (c : Command) (path : String) (text : String) :
    Except Halt ArgumentState :=
  if s.trailing then s.positional c text
  else match text.toList with
    | ['-', '-'] => .ok { s with trailing := true }
    | '-' :: '-' :: rest =>
      match Text.splitFirst? '=' rest with
      | some (name, value) => s.long c path (String.ofList name) (some (String.ofList value))
      | none => s.long c path (String.ofList rest) none
    | '-' :: first :: rest => letters c path s (first :: rest)
    | _ =>
      match s.waiting with
      | some (.named n none) => .ok { s with waiting := some (.named n (some text)) }
      | _ => s.positional c text

/-- The other argument of a pair that holds `name`. -/
def partner? (name : String) (pair : String × String) : Option String :=
  if pair.1 = name then some pair.2 else if pair.2 = name then some pair.1 else none

/-- The first given argument that must not stand beside another given one. -/
def findConflict (c : Command) (s : ArgumentState) : Option UsageError :=
  s.values.findSome? fun (name, _) =>
    let others := (c.conflicts.filterMap (partner? name)).filter fun o => (s.values.lookup o).isSome
    match c.byName? name, others.head?.bind c.byName? with
    | some n, some other => some (.conflict n.display other.display)
    | _, _ => none

/-- Checks a command at the end of its arguments. -/
def finish (s : ArgumentState) (c : Command) (path : String) (inner : Option Given) :
    Except Halt Given := do
  let s ← s.settle
  if inner.isNone && c.hasCommands then
    if s.values.isEmpty then .error (.nothingGiven (c.help path)) else refuse (.missingCommand path)
  match findConflict c s with
  | some e => refuse e
  | none =>
    let missing := c.positionals.filter fun p => (s.values.lookup p.placeholder).isNone
    if !missing.isEmpty then refuse (.missingArguments (missing.map Positional.display))
    else
      let inner := inner.getD Given.empty
      return ⟨c.name :: inner.commands, inner.values ++ s.values⟩

end ArgumentState

namespace Command

/-- Shows the help of the command that is reached by names. -/
def showHelp (c : Command) (path : String) : List String → Halt
  | [] => .help (c.help path)
  | name :: rest =>
    match c.find? name with
    | some inner => showHelp inner (path ++ " " ++ name) rest
    | none =>
      if !c.hasCommands || name ≠ helpName then .refused (.unknownCommand name)
      else match rest with
        | [] => .help (helpOfHelp path)
        | other :: _ => .refused (.unknownCommand other)

/-- Reads the arguments of a command. -/
def read (c : Command) (path : String) (s : ArgumentState) : List String → Except Halt Given
  | [] => s.finish c path none
  | text :: rest =>
    match (if s.trailing || s.awaitsValue then none else c.find? text) with
    | some inner => do
      let given ← read inner (path ++ " " ++ text) ArgumentState.start rest
      s.finish c path (some given)
    | none =>
      if !s.trailing && !s.awaitsValue && c.hasCommands && text == helpName then
        .error (c.showHelp path rest)
      else do
        let s ← s.argument c path text
        read c path s rest

def parse (c : Command) (arguments : List String) : Except Halt Given :=
  c.read c.name ArgumentState.start arguments

end Command

end OpenApiServer.Cli
