/-!
# Colors

Text has a color by its role. There is one palette for terminals with a dark background and one
for those with a light background; without colors text is printed as it is.
-/

namespace OpenApiServer.Cli

inductive Role where
  | timestamp
  | primary
  | accent
  | label
  | value
  | success
  deriving DecidableEq, Repr

inductive Theme where
  | dark
  | light
  deriving DecidableEq, Repr

structure Rgb where
  red : Nat
  green : Nat
  blue : Nat
  deriving DecidableEq, Repr

def Theme.color : Theme → Role → Rgb
  | .dark, .timestamp => ⟨118, 166, 166⟩
  | .dark, .primary => ⟨191, 126, 4⟩
  | .dark, .accent => ⟨166, 84, 55⟩
  | .dark, .label => ⟨217, 164, 4⟩
  | .dark, .value => ⟨242, 211, 56⟩
  | .dark, .success => ⟨118, 166, 166⟩
  | .light, .timestamp => ⟨92, 62, 38⟩
  | .light, .primary => ⟨70, 42, 25⟩
  | .light, .accent => ⟨211, 99, 70⟩
  | .light, .label => ⟨176, 103, 66⟩
  | .light, .value => ⟨199, 146, 76⟩
  | .light, .success => ⟨34, 142, 90⟩

/-- When text is printed in color. -/
inductive ColorMode where
  | always
  | auto
  | never
  deriving DecidableEq, Repr

namespace ColorMode

def all : List ColorMode := [.always, .auto, .never]

def name : ColorMode → String
  | .always => "always"
  | .auto => "auto"
  | .never => "never"

def ofName? (s : String) : Option ColorMode := all.find? (·.name == s)

/-- Whether to print in color on a device. -/
def enabled (mode : ColorMode) (isTerminal : Bool) : Bool :=
  match mode with
  | .always => true
  | .auto => isTerminal
  | .never => false

end ColorMode

/-- Which palette is used. -/
inductive ThemeMode where
  | dark
  | light
  | auto
  deriving DecidableEq, Repr

namespace ThemeMode

def all : List ThemeMode := [.dark, .light, .auto]

def name : ThemeMode → String
  | .dark => "dark"
  | .light => "light"
  | .auto => "auto"

def ofName? (s : String) : Option ThemeMode := all.find? (·.name == s)

/-- The index of a background color, a number below 256. -/
def backgroundIndex? (cs : List Char) : Option Nat :=
  let digits := match cs with
    | '+' :: rest => rest
    | _ => cs
  if digits.isEmpty || !digits.all Char.isDigit then none
  else
    let n := digits.foldl (fun n d => n * 10 + (d.toNat - '0'.toNat)) 0
    if n < 256 then some n else none

/-- The theme of a terminal that describes its colors by indices between semicolons: the last one
is the background, and the upper half of the sixteen basic colors is light. -/
def detect (colors : Option String) : Theme :=
  match colors with
  | none => .dark
  | some text =>
    let last := (text.toList.reverse.takeWhile (· != ';')).reverse
    match backgroundIndex? last with
    | some n => if 8 ≤ n then .light else .dark
    | none => .dark

def theme (mode : ThemeMode) (colors : Option String) : Theme :=
  match mode with
  | .dark => .dark
  | .light => .light
  | .auto => detect colors

end ThemeMode

/-- How text is colored in one run. -/
structure Colors where
  enabled : Bool
  theme : Theme
  deriving DecidableEq, Repr

namespace Colors

def pick (c : Colors) (role : Role) : Option Rgb :=
  if c.enabled then some (c.theme.color role) else none

end Colors

/-- The control sequence that sets the color of text. -/
def Rgb.start (c : Rgb) : String :=
  "\x1b[38;2;" ++ toString c.red ++ ";" ++ toString c.green ++ ";" ++ toString c.blue ++ "m"

/-- How text looks besides its letters. -/
structure Style where
  color : Option Rgb
  bold : Bool
  deriving DecidableEq, Repr

/-- Text between control sequences; bold text resets everything at its end. -/
def Style.apply (s : Style) (text : String) : String :=
  (match s.color with
    | some c => c.start
    | none => "") ++
  (if s.bold then "\x1b[1m" else "") ++ text ++
  (if s.bold then "\x1b[0m" else if s.color.isSome then "\x1b[39m" else "")

def Colors.paint (c : Colors) (role : Role) (text : String) : String :=
  Style.apply ⟨c.pick role, false⟩ text

end OpenApiServer.Cli
