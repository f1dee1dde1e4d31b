/-!
# Layouts

A layout is text with places where a line may end. A group is either kept on one line or broken:
then every break of a stacked group ends a line, and of a filled group those after which the next
piece does not fit. The width of a layout is what it takes on one line; a hard break is wider than
any line, so that a group around it is always broken. A group with a limit that is wider than the
limit is broken too.
-/

namespace OpenApiServer

/-- A place where a line may end. Where it does not end there, the blanks and the joint are
written. -/
structure LineBreak where
  blanks : Nat
  /-- How much the next line is indented more than the group. -/
  offset : Int
  /-- What is written before the line ends. -/
  before : Option Char
  /-- What the next line starts with. -/
  after : String
  joint : Option Char
  /-- Whether the line never ends here. -/
  glued : Bool
  deriving DecidableEq, Repr

structure GroupStyle where
  offset : Int
  stacked : Bool
  limit : Option Nat
  deriving DecidableEq, Repr

inductive Layout where
  | text (s : String)
  | lineBreak (b : LineBreak)
  | group (style : GroupStyle) (body : List Layout)
  deriving Repr

namespace LineBreak

/-- A width that no line has. -/
def endless : Nat := 0xffff

def blank (blanks : Nat) : LineBreak := ⟨blanks, 0, none, "", none, false⟩

def shift (offset : Int) (b : LineBreak) : LineBreak := { b with offset := b.offset + offset }

/-- A comma is written where the line ends. -/
def withComma (b : LineBreak) : LineBreak := { b with before := some ',' }

end LineBreak

namespace Layout

/-- The columns of one step of indentation. -/
def step : Int := 4

def cut : Layout := .lineBreak (.blank 0)

def space : Layout := .lineBreak (.blank 1)

def hard : Layout := .lineBreak (.blank LineBreak.endless)

/-- A place that only ends what is measured before it. -/
def glue : Layout := .lineBreak { LineBreak.blank 0 with glued := true }

/-- The break at the end of a group whose closing bracket goes back to the start. -/
def hardBack : Layout := .lineBreak ((LineBreak.blank LineBreak.endless).shift (-step))

def spaceBack : Layout := .lineBreak ((LineBreak.blank 1).shift (-step))

def stack (offset : Int) (body : List Layout) : Layout := .group ⟨offset, true, none⟩ body

def fill (offset : Int) (body : List Layout) : Layout := .group ⟨offset, false, none⟩ body

/-- A stacked group that is broken when it is wider than the limit. -/
def stackWithin (limit : Nat) (offset : Int) (body : List Layout) : Layout :=
  .group ⟨offset, true, some limit⟩ body

/-- Items with a comma and a space between them. -/
def commaSeparated : List (List Layout) → List Layout
  | [] => []
  | [item] => item
  | item :: rest => item ++ .text "," :: space :: commaSeparated rest

/-- Items between brackets, each on a line of its own if they do not fit. -/
def listed (offset : Int) (items : List (List Layout)) : List Layout :=
  if items.isEmpty then []
  else
    let last := LineBreak.withComma ((LineBreak.blank 0).shift (-step))
    [stack offset (cut :: commaSeparated items ++ [.lineBreak last])]

/-- Layouts on lines of their own. -/
def hardLines : List (List Layout) → List Layout
  | [] => []
  | items => hard :: (items.intersperse [hard]).flatten ++ [hardBack]

/-! ## Widths -/

/-- The width of a group, given the width of its body. -/
def limitedWidth (limit : Option Nat) (width : Nat) : Nat :=
  if limit.any (· < width) then width + LineBreak.endless else width

mutual

def width : Layout → Nat
  | .text s => s.utf8ByteSize
  | .lineBreak b => b.blanks
  | .group style body => limitedWidth style.limit (widthAll body)

def widthAll : List Layout → Nat
  | [] => 0
  | l :: rest => width l + widthAll rest

end

/-- The width up to the next break outside the groups of the list; `after` is the width up to that
break from the end of the list on. -/
def lead (after : Nat) : List Layout → Nat
  | [] => after
  | .lineBreak _ :: _ => 0
  | l :: rest => l.width + lead after rest

end Layout

end OpenApiServer

/-!
## Writing layouts

A layout is written from left to right. At each group it is decided from the space that is left on
the line whether the group stays on the line, together with what follows it up to the next break.
Lines have 89 columns, and a line has at least 60 of them after its indentation.
-/

namespace OpenApiServer

/-- What has been written. The pending blanks are written before the next text, so that no line
ends in blanks. -/
structure Page where
  out : String
  space : Int
  pending : Nat

namespace Page

def lineWidth : Int := 89

def leastSpace : Int := 60

def empty : Page := ⟨"", lineWidth, 0⟩

def indented (p : Page) : Page :=
  { p with out := p.out ++ String.ofList (List.replicate p.pending ' '), pending := 0 }

def write (p : Page) (s : String) : Page :=
  let p := p.indented
  { p with out := p.out ++ s, space := p.space - s.utf8ByteSize }

/-- Goes on in the line. -/
def goOn (p : Page) (b : LineBreak) : Page :=
  let p := { p with pending := p.pending + b.blanks, space := p.space - b.blanks }
  match b.joint with
  | some c => { p with out := p.out.push c, space := p.space - c.utf8Size }
  | none => p

/-- Starts a new line. -/
def newLine (p : Page) (indent : Int) (b : LineBreak) : Page :=
  let ended := match b.before with
    | some c => p.indented.out.push c
    | none => p.out
  let column := indent + b.offset
  let p : Page := ⟨ended.push '\n', max (lineWidth - column) leastSpace, column.toNat⟩
  if b.after = "" then p else p.write b.after

end Page

/-- How the group around a break is written. -/
inductive GroupMode where
  | inline
  | stacked
  | filled
  deriving DecidableEq, Repr

namespace Layout

/-- Whether the line goes on at a break; `size` is the width up to the next break. -/
def staysInLine (mode : GroupMode) (b : LineBreak) (size : Nat) (p : Page) : Bool :=
  b.glued || match mode with
    | .inline => true
    | .stacked => false
    | .filled => size ≤ p.space

def brokenMode (style : GroupStyle) : GroupMode := if style.stacked then .stacked else .filled

mutual

def write (indent : Int) (mode : GroupMode) (after : Nat) (p : Page) : Layout → Page
  | .text s => p.write s
  | .lineBreak b =>
    if staysInLine mode b (b.blanks + after) p then p.goOn b else p.newLine indent b
  | .group style body =>
    if limitedWidth style.limit (widthAll body) + after > p.space then
      writeAll (indent + style.offset) (brokenMode style) after p body
    else writeAll indent .inline after p body

def writeAll (indent : Int) (mode : GroupMode) (after : Nat) (p : Page) : List Layout → Page
  | [] => p
  | l :: rest =>
    writeAll indent mode after (write indent mode (lead after rest) p l) rest

end

/-- The text of a list of layouts with all their outermost breaks taken. -/
def render (body : List Layout) : String := (writeAll 0 .stacked 0 .empty body).out

end Layout

end OpenApiServer
