import OpenApiServer.Yaml.Mark

/-!
# Reading YAML text

A `Cursor` is the text that is left together with its place. Five characters end a line, and a
carriage return with a line feed after it counts as one line break.
-/

namespace OpenApiServer.Yaml

def isBreak (c : Char) : Bool :=
  c == '\n' || c == '\r' || c == '\u0085' || c == '\u2028' || c == '\u2029'

def isBlank (c : Char) : Bool := c == ' ' || c == '\t'

def isBlankOrBreak (c : Char) : Bool := isBlank c || isBreak c

/-- The characters of anchors, directives and tag handles. -/
def isNameChar (c : Char) : Bool := c.isAlphanum || c == '_' || c == '-'

def isHexDigit (c : Char) : Bool :=
  c.isDigit || ('a' ≤ c && c ≤ 'f') || ('A' ≤ c && c ≤ 'F')

def hexValue (c : Char) : Nat :=
  if c.isDigit then c.toNat - '0'.toNat
  else if 'a' ≤ c then c.toNat - 'a'.toNat + 10
  else c.toNat - 'A'.toNat + 10

/-- Whether no more than blanks could follow: the text is at its end, at a blank or at a break. -/
def atBlankOrEnd : List Char → Bool
  | [] => true
  | c :: _ => isBlankOrBreak c

def atBreakOrEnd : List Char → Bool
  | [] => true
  | c :: _ => isBreak c

/-- The value of a line break: two breaks of Unicode stand for themselves, all others for a line
feed. -/
def breakValue (c : Char) : Char := if c == '\u2028' || c == '\u2029' then c else '\n'

structure Cursor where
  rest : List Char
  mark : Mark
  deriving Repr, Inhabited

namespace Cursor

/-- Moves over `n` characters that end no line. -/
def skip (c : Cursor) (n : Nat) : Cursor := ⟨c.rest.drop n, c.mark.advance n⟩

def skipWhile (p : Char → Bool) (c : Cursor) : Cursor :=
  ⟨c.rest.dropWhile p, c.mark.advance (c.rest.takeWhile p).length⟩

/-- Moves over one line break, if there is one. -/
def skipBreak (c : Cursor) : Cursor :=
  match c.rest with
  | '\r' :: '\n' :: rest => ⟨rest, c.mark.newLine 2⟩
  | b :: rest => if isBreak b then ⟨rest, c.mark.newLine 1⟩ else c
  | [] => c

/-- The value of the line break at the cursor, if there is one. -/
def breakText (c : Cursor) : List Char :=
  match c.rest with
  | b :: _ => if isBreak b then [breakValue b] else []
  | [] => []

def startsWith (c : Cursor) (ch : Char) : Bool := c.rest.head? == some ch

def atBlankOrEnd (c : Cursor) : Bool := Yaml.atBlankOrEnd c.rest

def atBreakOrEnd (c : Cursor) : Bool := Yaml.atBreakOrEnd c.rest

/-- Moves over blanks and a comment, up to the end of the line. -/
def skipComment (c : Cursor) : Cursor :=
  let c := c.skipWhile isBlank
  if c.startsWith '#' then c.skipWhile (!isBreak ·) else c

/-- Three hyphens or three points that stand alone at the start of a line separate documents. -/
def atIndicator (ch : Char) (c : Cursor) : Bool :=
  c.mark.column == 0 &&
    match c.rest with
    | x :: y :: z :: after => x == ch && y == ch && z == ch && Yaml.atBlankOrEnd after
    | _ => false

def atDocumentIndicator (c : Cursor) : Bool := c.atIndicator '-' || c.atIndicator '.'

/-- A problem at the cursor, found in something that began at `began`. -/
def fails {α : Type} (c : Cursor) (p : Problem) (activity : Activity) (began : Mark) :
    Except Fault α :=
  .error (.problem p c.mark (some (activity, began)))

/-- A problem at the cursor that needs no more explanation. -/
def refuses {α : Type} (c : Cursor) (p : Problem) : Except Fault α :=
  .error (.problem p c.mark none)

end Cursor

/-- The characters that a text may have. -/
def isAllowed (c : Char) : Bool :=
  let n := c.toNat
  n == 0x09 || n == 0x0a || n == 0x0d || (0x20 ≤ n && n ≤ 0x7e) || n == 0x85 ||
  (0xa0 ≤ n && n ≤ 0xd7ff) || (0xe000 ≤ n && n ≤ 0xfffd) || 0x10000 ≤ n

/-- The offset in bytes of the first character that a text may not have. -/
def badCharacter? (offset : Nat) : List Char → Option Nat
  | [] => none
  | c :: rest => if isAllowed c then badCharacter? (offset + c.utf8Size) rest else some offset

end OpenApiServer.Yaml
