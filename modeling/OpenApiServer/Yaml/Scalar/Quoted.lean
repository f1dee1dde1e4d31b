import OpenApiServer.Yaml.Scalar.Plain

/-!
# Quoted scalars

Between single quotes a quote is written twice. Between double quotes a backslash starts an
escape sequence, and an escaped line break joins two lines without a space.
-/

namespace OpenApiServer.Yaml

inductive Quote where
  | single
  | double
  deriving DecidableEq, Repr

namespace Quote

def char : Quote → Char
  | .single => '\''
  | .double => '"'

/-- The character of an escape sequence of one letter. -/
def escape? : Char → Option Char
  | '0' => some (Char.ofNat 0)
  | 'a' => some '\x07'
  | 'b' => some '\x08'
  | 't' => some '\t'
  | '\t' => some '\t'
  | 'n' => some '\n'
  | 'v' => some '\x0b'
  | 'f' => some '\x0c'
  | 'r' => some '\r'
  | 'e' => some '\x1b'
  | ' ' => some ' '
  | '"' => some '"'
  | '/' => some '/'
  | '\\' => some '\\'
  | 'N' => some '\u0085'
  | '_' => some '\u00a0'
  | 'L' => some '\u2028'
  | 'P' => some '\u2029'
  | _ => none

/-- The number of hexadecimal digits after a letter that starts a code point. -/
def codeLength? : Char → Option Nat
  | 'x' => some 2
  | 'u' => some 4
  | 'U' => some 8
  | _ => none

def isCodePoint (n : Nat) : Bool := n < 0xd800 || (0xe000 ≤ n && n < 0x110000)

/-- Reads a code point of `n` digits. -/
def codePoint (began : Mark) (n : Nat) (c : Cursor) : Except Fault (Char × Cursor) :=
  let digits := c.rest.take n
  if digits.length < n || !digits.all isHexDigit then c.fails .hexExpected .escapeSequence began
  else
    let value := digits.foldl (fun v d => v * 16 + hexValue d) 0
    if isCodePoint value then .ok (Char.ofNat value, c.skip n)
    else c.fails .badCodePoint .escapeSequence began

/-- Reads an escape sequence after its backslash, where `c` stands at the backslash. -/
def escapeSequence (began : Mark) (letter : Char) (c : Cursor) : Except Fault (Char × Cursor) :=
  match escape? letter, codeLength? letter with
  | some value, _ => .ok (value, c.skip 2)
  | none, some n => codePoint began n (c.skip 2)
  | none, none => c.fails .unknownEscape .escapeSequence began

/-- Where the reading of a line stopped: after the closing quote, at a gap, or after an escaped
line break. -/
inductive Stop where
  | closed
  | gap
  | escapedBreak
  deriving DecidableEq, Repr

/-- Reads up to a blank, a line break, the closing quote or the end of the text. The characters
are put in front of those already read. -/
def run (q : Quote) (began : Mark) :
    Nat → List Char → Cursor → Except Fault (List Char × Stop × Cursor)
  | 0, read, c => .ok (read, .gap, c)
  | fuel + 1, read, c =>
    match q, c.rest with
    | _, [] => .ok (read, .gap, c)
    | .single, '\'' :: '\'' :: _ => run q began fuel ('\'' :: read) (c.skip 2)
    | .double, '\\' :: letter :: _ =>
      if isBreak letter then .ok (read, .escapedBreak, (c.skip 1).skipBreak)
      else do
        let (value, c) ← escapeSequence began letter c
        run q began fuel (value :: read) c
    | .double, ['\\'] => c.fails .unknownEscape .escapeSequence began
    | _, ch :: _ =>
      if isBlankOrBreak ch then .ok (read, .gap, c)
      else if ch = q.char then .ok (read, .closed, c.skip 1)
      else run q began fuel (ch :: read) (c.skip 1)

/-- Reads lines up to the closing quote. -/
def lines (q : Quote) (began : Mark) :
    Nat → List Char → Cursor → Except Fault (List Char × Cursor)
  | 0, _, c => c.fails .endOfStream .quotedScalar began
  | fuel + 1, read, c => do
    if c.atDocumentIndicator then c.fails .documentIndicator .quotedScalar began
    if c.rest.isEmpty then c.fails .endOfStream .quotedScalar began
    let (read, stop, c) ← run q began (c.rest.length + 1) read c
    if stop = .closed then return (read, c)
    let start := if stop = .escapedBreak then Gap.escapedBreak else Gap.none
    match c.rest.head? == some q.char, Gap.read 0 start c.rest c.mark with
    | true, _ => return (read, c.skip 1)
    | false, .ok (gap, c) => lines q began fuel (gap.text.reverse ++ read) c
    | false, .error place => .error (.problem .tabInIndentation place none)

/-- Reads a quoted scalar. -/
def read (q : Quote) (c : Cursor) : Except Fault (String × Cursor) := do
  let (read, after) ← lines q c.mark (c.rest.length + 1) [] (c.skip 1)
  return (String.ofList read.reverse, after)

end Quote

end OpenApiServer.Yaml
