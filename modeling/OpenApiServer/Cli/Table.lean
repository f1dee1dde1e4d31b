import OpenApiServer.Cli.Color
import OpenApiServer.Text.Basic
import OpenApiServer.Text.Width
import OpenApiServer.Document.Basic
import OpenApiServer.Name.Identifier

/-!
# Tables

A table has a line above, one under its header and one at the end, and a space between columns.
Columns are as wide as their contents while the terminal has room for them. Otherwise the columns
that are wider than the average share what the others leave, and their texts are broken into
lines, at spaces where that is possible.
-/

namespace OpenApiServer.Cli

inductive Alignment where
  | left
  | right
  deriving DecidableEq, Repr

structure Cell where
  text : String
  style : Style
  alignment : Alignment
  deriving Repr

namespace Cell

def lines (c : Cell) : List (List Char) := Text.splitOn '\n' c.text.toList

end Cell

structure Table where
  header : List Cell
  rows : List (List Cell)

namespace Table

def charsWidth (cs : List Char) : Nat := cs.foldr (fun c width => Text.charWidth c + width) 0

/-! ## Breaking text into lines -/

/-- The longest start of a word that has a width of at most `limit`, and the rest of the word. -/
def splitWord (limit : Nat) : List Char → List Char × List Char
  | [] => ([], [])
  | c :: rest =>
    if limit < Text.charWidth c then ([], c :: rest)
    else
      let (start, after) := splitWord (limit - Text.charWidth c) rest
      (c :: start, after)

/-- Like `splitWord`, but at least one character long. -/
def splitWordNonempty (limit : Nat) (word : List Char) : List Char × List Char :=
  match splitWord limit word with
  | ([], c :: rest) => ([c], rest)
  | parts => parts

/-- A line with less room than this is not filled up. -/
def leastRoom : Nat := 2

/-- Puts a line that is full to the lines done. -/
def endIfFull (width : Nat) (done : List (List Char)) (line : List Char) :
    List (List Char) × List Char :=
  if charsWidth line > width - leastRoom then (line :: done, []) else (done, line)

/-- Fills lines with words. The lines done are in reverse. -/
def fill (width : Nat) :
    Nat → List (List Char) → List Char → List (List Char) → List (List Char)
  | 0, done, line, _ => line :: done
  | _ + 1, done, line, [] => if line.isEmpty then done else line :: done
  | fuel + 1, done, line, word :: words =>
    let fresh := line.isEmpty
    let start := if fresh then [] else line ++ [' ']
    let room := width - charsWidth line - (if fresh then 0 else 1)
    if charsWidth start + charsWidth word ≤ width then
      let (done, line) := endIfFull width done (start ++ word)
      fill width fuel done line words
    else if !fresh && room ≤ leastRoom then fill width fuel (line :: done) [] (word :: words)
    else if charsWidth word > width then
      let (part, rest) := if fresh then splitWordNonempty room word else splitWord room word
      let (done, line) := endIfFull width done (start ++ part)
      fill width fuel done line (rest :: words)
    else
      let (done, line) := endIfFull width (line :: done) word
      fill width fuel done line words

/-- The lines of a text at a width. -/
def wrap (width : Nat) (text : List Char) : List (List Char) :=
  if charsWidth text ≤ width then [text]
  else (fill width (4 * text.length + 8) [] [] (Text.splitOn ' ' text)).reverse

def wrapCell (width : Nat) (c : Cell) : List (List Char) := c.lines.flatMap (wrap width)

/-! ## Widths of columns -/

/-- A column while widths are chosen. -/
structure Column where
  cells : List Cell
  width : Option Nat

/-- The room that is left for the columns without a width. -/
structure Room where
  width : Nat
  columns : Nat

def longest (lines : List (List Char)) : Nat := (lines.map charsWidth).foldl max 0

/-- The width of a column whose texts are not broken. -/
def Column.natural (c : Column) : Nat := longest (c.cells.flatMap Cell.lines)

/-- The width for a column that needs no more than the average. -/
def naturalFit (average : Nat) (c : Column) : Option Nat :=
  if c.natural ≤ average then some c.natural else none

/-- The width for a column that needs clearly less than the average when its texts are broken. -/
def brokenFit (average : Nat) (c : Column) : Option Nat :=
  let needed := longest (c.cells.flatMap (wrapCell average))
  if average - needed ≥ 3 then some needed else none

/-- Gives widths to the columns that fit, from left to right. -/
def fitPass (fit : Nat → Column → Option Nat) : Room → List Column → List Column × Room
  | room, [] => ([], room)
  | room, c :: rest =>
    match c.width, fit (room.width / room.columns) c with
    | none, some w =>
      let (rest, left) := fitPass fit ⟨room.width - w, room.columns - 1⟩ rest
      ({ c with width := some w } :: rest, left)
    | _, _ =>
      let (rest, left) := fitPass fit room rest
      (c :: rest, left)

/-- Repeats a pass: every column that gets a width leaves more room for the others. -/
def fitAll (fit : Nat → Column → Option Nat) : Nat → Room → List Column → List Column × Room
  | 0, room, columns => (columns, room)
  | n + 1, room, columns =>
    let (columns, room) := fitPass fit room columns
    fitAll fit n room columns

/-- Shares the room that is left, with one more for the first columns if it cannot be shared
evenly. -/
def share (average : Nat) : Nat → List Column → List Nat
  | _, [] => []
  | excess, c :: rest =>
    match c.width with
    | some w => w :: share average excess rest
    | none =>
      if excess = 0 then average :: share average 0 rest
      else (average + 1) :: share average (excess - 1) rest

/-- The widths of the columns on a terminal; every column has a space on both sides. -/
def widths (terminal : Nat) (columns : List (List Cell)) : List Nat :=
  let n := columns.length
  let room : Room := ⟨terminal - (n - 1) - 2 * n, n⟩
  let start := columns.map fun cells => Column.mk cells none
  let (natural, room) := fitAll naturalFit n room start
  let (broken, room) := fitAll brokenFit n room natural
  let total := max room.width room.columns
  share (total / room.columns) (total % room.columns) broken

/-! ## Output -/

def spaces (n : Nat) : List Char := List.replicate n ' '

/-- One line of a cell with its blanks and colors. -/
def cellLine (width : Nat) (c : Cell) (line : List Char) : String :=
  let blanks := spaces (width - charsWidth line)
  let body := match c.alignment with
    | .left => line ++ blanks
    | .right => blanks ++ line
  c.style.apply (String.ofList (' ' :: body ++ [' ']))

/-- The lines of a row: cells with fewer lines than others are filled up with blanks. -/
def rowLines (widths : List Nat) (row : List Cell) : List String :=
  let cells := (widths.zip row).map fun (w, c) => (w, (wrapCell w c).map (cellLine w c))
  let height := (cells.map (·.2.length)).foldl max 0
  (List.range height).map fun i =>
    Text.joinWith " " (cells.map fun (w, lines) => lines[i]?.getD (String.ofList (spaces (w + 2))))

def border (joint : String) (widths : List Nat) : String :=
  Text.joinWith joint (widths.map fun w => String.ofList (List.replicate (w + 2) '─'))

/-- The cells of each column from top to bottom. -/
def columns (t : Table) : List (List Cell) :=
  t.header.zipIdx.map fun (head, i) => head :: t.rows.filterMap (·[i]?)

def render (t : Table) (terminal : Nat) : String :=
  let ws := widths terminal t.columns
  Text.joinWith "\n" (
    [border " " ws] ++ rowLines ws t.header ++ [border "─" ws] ++
    t.rows.flatMap (rowLines ws) ++ [border " " ws])

end Table

end OpenApiServer.Cli

/-!
## Listing operations

One row for each operation of a document, in their order, with the name that the operation has in
the generated server.
-/

namespace OpenApiServer.Cli

structure OperationRow where
  handler : FieldName
  method : Method
  path : String

namespace OperationRow

/-- The rows of operations after those whose names are used. -/
def ofEndpoints : List String → List Endpoint → List OperationRow
  | _, [] => []
  | used, e :: rest =>
    let name := Name.unique (FieldName.ofText e.operationId).bare used
    ⟨.ofText name, e.method, e.path⟩ :: ofEndpoints (name :: used) rest

def ofDocument (d : Document) : List OperationRow := ofEndpoints [] d.endpoints

def cells (colors : Colors) (r : OperationRow) : List Cell :=
  [⟨r.handler.text, ⟨colors.pick .value, colors.enabled⟩, .left⟩,
    ⟨r.method.name, ⟨colors.pick .accent, false⟩, .right⟩,
    ⟨r.path, ⟨colors.pick .primary, false⟩, .left⟩]

def table (colors : Colors) (rows : List OperationRow) : Table where
  header := ["HANDLER", "METHOD", "PATH"].map fun title =>
    ⟨title, ⟨colors.pick .label, false⟩, .left⟩
  rows := rows.map (cells colors)

end OperationRow

end OpenApiServer.Cli
