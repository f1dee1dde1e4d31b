import OpenApiServer.Yaml.Cursor

/-!
# Block scalars

A header says how line breaks at the end are kept and may give the indentation; else the first
line that is not empty gives it. In a folded scalar a line break between two lines that start with
no blank becomes a space.
-/

namespace OpenApiServer.Yaml.Block

/-- What becomes of the line breaks at the end of a block scalar. -/
inductive Chomping where
  | clip
  | strip
  | keep
  deriving DecidableEq, Repr

structure Header where
  chomping : Chomping
  indentation : Option Nat
  deriving Repr

def chomping? : Char → Option Chomping
  | '+' => some .keep
  | '-' => some .strip
  | _ => none

/-- Reads an indentation from 1 to 9, if there is a digit. -/
def indentation (began : Mark) (c : Cursor) : Except Fault (Option Nat × Cursor) :=
  match c.rest with
  | d :: _ =>
    if d = '0' then c.fails .zeroIndentation .blockScalar began
    else if d.isDigit then .ok (some (d.toNat - '0'.toNat), c.skip 1)
    else .ok (none, c)
  | [] => .ok (none, c)

/-- Reads the header after its indicator: chomping and indentation in any order. -/
def header (began : Mark) (c : Cursor) : Except Fault (Header × Cursor) :=
  match c.rest.head?.bind chomping? with
  | some chomping => do
    let (indent, c) ← indentation began (c.skip 1)
    return (⟨chomping, indent⟩, c)
  | none => do
    let (indent, c) ← indentation began c
    match indent, c.rest.head?.bind chomping? with
    | some n, some chomping => return (⟨chomping, some n⟩, c.skip 1)
    | _, _ => return (⟨.clip, indent⟩, c)

/-- Empty lines that have been read: their line breaks and the widest indentation seen. -/
structure Empty where
  breaks : List Char
  widest : Nat
  after : Cursor
  deriving Repr

/-- Reads empty lines and the indentation of the next line. While the indentation is not known,
all spaces belong to it. The answer has the place of a tab in the indentation. -/
def emptyLines (indent : Option Nat) :
    List Char → Nat → List Char → Mark → Except Mark Empty
  | breaks, widest, [], m => .ok ⟨breaks, max widest m.column, ⟨[], m⟩⟩
  | breaks, widest, '\r' :: '\n' :: rest, m =>
    emptyLines indent (breaks ++ ['\n']) (max widest m.column) rest (m.newLine 2)
  | breaks, widest, c :: rest, m =>
    let inside := indent.all (m.column < ·)
    if inside && c == ' ' then emptyLines indent breaks widest rest (m.advance 1)
    else if inside && c == '\t' then .error m
    else if isBreak c then
      emptyLines indent (breaks ++ [breakValue c]) (max widest m.column) rest (m.newLine 1)
    else .ok ⟨breaks, max widest m.column, ⟨c :: rest, m⟩⟩

/-- The line break that ended a line, and whether the line started with a blank. -/
structure Line where
  ending : List Char
  blank : Bool
  deriving Repr

/-- What stands between a line, the empty lines after it and the next line. -/
def join (literal : Bool) (last : Line) (breaks : List Char) (nextBlank : Bool) : List Char :=
  if !literal && last.ending == ['\n'] && !last.blank && !nextBlank then
    if breaks.isEmpty then [' '] else breaks
  else last.ending ++ breaks

/-- Reads lines while they are indented by `indent`. The text read is in reverse. -/
def lines (literal : Bool) (indent : Nat) :
    Nat → List Char → Line → Empty → Except Mark (List Char × Line × Empty)
  | 0, read, last, empty => .ok (read, last, empty)
  | fuel + 1, read, last, empty =>
    let c := empty.after
    if c.mark.column ≠ indent ∨ c.rest.isEmpty then .ok (read, last, empty)
    else do
      let blank := c.rest.head?.any isBlank
      let content := c.rest.takeWhile (!isBreak ·)
      let c := c.skip content.length
      let read := content.reverse ++ (join literal last empty.breaks blank).reverse ++ read
      let after := c.skipBreak
      let empty ← emptyLines (some indent) [] 0 after.rest after.mark
      lines literal indent fuel read ⟨c.breakText, blank⟩ empty

/-- What the line breaks at the end stand for. -/
def chomp : Chomping → List Char → List Char → List Char
  | .strip, _, _ => []
  | .clip, ending, _ => ending
  | .keep, ending, breaks => ending ++ breaks

/-- Reads a block scalar inside collections whose content starts at column `level`. -/
def read (literal : Bool) (level : Nat) (c : Cursor) : Except Fault (String × Cursor) := do
  let began := c.mark
  let (head, c) ← header began (c.skip 1)
  let c := c.skipComment
  if !c.atBreakOrEnd then c.fails .commentOrBreakExpected .blockScalar began
  let c := c.skipBreak
  let result : Except Mark (List Char × Line × Empty) := do
    let given := head.indentation.map (level - 1 + ·)
    let empty ← emptyLines given [] 0 c.rest c.mark
    let indent := given.getD (max (max empty.widest level) 1)
    lines literal indent (c.rest.length + 1) [] ⟨[], false⟩ empty
  match result with
  | .error place => .error (.problem .tabAsIndentation place (some (.blockScalar, began)))
  | .ok (read, last, empty) =>
    return (String.ofList (read.reverse ++ chomp head.chomping last.ending empty.breaks),
      empty.after)

end OpenApiServer.Yaml.Block
