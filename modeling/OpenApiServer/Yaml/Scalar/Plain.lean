import OpenApiServer.Yaml.Cursor

/-!
# Line folding

A `Gap` is the blanks and line breaks between two parts of a scalar. A gap without a line break is
its blanks. A single line break becomes a space, and of several line feeds the first is dropped.
-/

namespace OpenApiServer.Yaml

/-- `first` is the value of the first line break, if there is one; an escaped line break has no
value. -/
structure Gap where
  blanks : List Char
  first : Option (List Char)
  later : List Char
  deriving Repr

namespace Gap

def none : Gap := ⟨[], Option.none, []⟩

def escapedBreak : Gap := ⟨[], some [], []⟩

def isBroken (g : Gap) : Bool := g.first.isSome

/-- What a gap stands for. -/
def text (g : Gap) : List Char :=
  match g.first with
  | Option.none => g.blanks
  | some first => if first = ['\n'] then (if g.later.isEmpty then [' '] else g.later)
    else first ++ g.later

def addBlank (g : Gap) (c : Char) : Gap :=
  if g.isBroken then g else { g with blanks := g.blanks ++ [c] }

def addBreak (g : Gap) (c : Char) : Gap :=
  if g.isBroken then { g with later := g.later ++ [breakValue c] }
  else { g with blanks := [], first := some [breakValue c] }

/-- Reads blanks and line breaks. The answer has the place of the first tab that stands in the
indentation of a line, in the columns before `level`. -/
def read (level : Nat) (g : Gap) : List Char → Mark → Except Mark (Gap × Cursor)
  | [], m => .ok (g, ⟨[], m⟩)
  | '\r' :: '\n' :: rest, m => read level (g.addBreak '\n') rest (m.newLine 2)
  | c :: rest, m =>
    if isBreak c then read level (g.addBreak c) rest (m.newLine 1)
    else if isBlank c then
      if g.isBroken && m.column < level && c == '\t' then .error m
      else read level (g.addBlank c) rest (m.advance 1)
    else .ok (g, ⟨c :: rest, m⟩)

end Gap

end OpenApiServer.Yaml

/-!
## Plain scalars

A plain scalar ends at a colon with a blank after it, at a comment, at a line that is indented
less than its collection, and between brackets at an indicator of these.
-/

namespace OpenApiServer.Yaml.Plain

/-- The characters that end a plain scalar between brackets. -/
def isFlowIndicator (c : Char) : Bool := ",[]\x7b\x7d".toList.contains c

/-- Whether a plain scalar can start with the first character of a text. -/
def canStart (inFlow : Bool) : List Char → Bool
  | [] => false
  | '-' :: rest => !rest.head?.any isBlank
  | c :: rest =>
    if c = '?' ∨ c = ':' then !inFlow && !atBlankOrEnd rest
    else !isBlankOrBreak c && !",[]\x7b\x7d#&*!|>'\"%@\x60".toList.contains c

/-- Where the characters of a scalar stop on a line; `ambiguous` is a colon before an indicator. -/
inductive Stop where
  | done
  | ambiguous
  deriving DecidableEq, Repr

/-- Reads up to a blank, a line break or the end of the scalar. The characters are put in front of
those already read. -/
def run (inFlow : Bool) : List Char → List Char → Mark → List Char × Stop × Cursor
  | read, [], m => (read, .done, ⟨[], m⟩)
  | read, c :: rest, m =>
    if isBlankOrBreak c then (read, .done, ⟨c :: rest, m⟩)
    else if inFlow && c == ':' && rest.head?.any (fun d => d == '?' || isFlowIndicator d) then
      (read, .ambiguous, ⟨c :: rest, m⟩)
    else if (c == ':' && atBlankOrEnd rest) || (inFlow && isFlowIndicator c) then
      (read, .done, ⟨c :: rest, m⟩)
    else run inFlow (c :: read) rest (m.advance 1)

/-- A plain scalar that has been read. `broken` says that it was followed by a line break. -/
structure Result where
  text : String
  broken : Bool
  after : Cursor
  deriving Repr

/-- Reads the rest of a plain scalar after `gap`, with the characters before it in reverse. -/
def lines (inFlow : Bool) (level : Nat) (began : Mark) :
    Nat → List Char → Gap → Cursor → Except Fault Result
  | 0, read, gap, c => .ok ⟨String.ofList read.reverse, gap.isBroken, c⟩
  | fuel + 1, read, gap, c =>
    if c.atDocumentIndicator || c.startsWith '#' then
      .ok ⟨String.ofList read.reverse, gap.isBroken, c⟩
    else
      let (next, stop, c) := run inFlow [] c.rest c.mark
      let (read, gap) :=
        if next.isEmpty then (read, gap) else (next ++ gap.text.reverse ++ read, Gap.none)
      if stop = .ambiguous then c.fails .unexpectedColon .plainScalar began
      else if !c.rest.head?.any isBlankOrBreak then
        .ok ⟨String.ofList read.reverse, gap.isBroken, c⟩
      else match Gap.read level gap c.rest c.mark with
        | .error place => .error (.problem .tabInIndentation place (some (.plainScalar, began)))
        | .ok (gap, c) =>
          if !inFlow && c.mark.column < level then
            .ok ⟨String.ofList read.reverse, gap.isBroken, c⟩
          else lines inFlow level began fuel read gap c

/-- Reads a plain scalar whose further lines start at column `level` or later. -/
def read (inFlow : Bool) (level : Nat) (c : Cursor) : Except Fault Result :=
  lines inFlow level c.mark (c.rest.length + 1) [] Gap.none c

end OpenApiServer.Yaml.Plain
