import OpenApiServer.Yaml.Token.Basic
import OpenApiServer.Yaml.Scalar.Quoted
import OpenApiServer.Yaml.Scalar.Plain
import OpenApiServer.Yaml.Scalar.Block

/-!
# From text to tokens

A key of a mapping is known only when its colon is met. Tokens therefore wait in a queue while one
of them may start a key, and a colon inserts a key token before it. A possible key ends with its
line and after 1024 characters; where a line of a block mapping starts a key is required.
-/

namespace OpenApiServer.Yaml

/-- A place where a key may have started, with the number of the first token of the key. -/
structure PossibleKey where
  number : Nat
  mark : Mark
  required : Bool
  deriving Repr

/-- `columns` are those of the open block collections, innermost first. `key` is the possible key
inside the innermost brackets and `outer` has those outside, one for each open bracket. -/
structure Lexer where
  cursor : Cursor
  queue : List Token
  delivered : Nat
  columns : List Nat
  key : Option PossibleKey
  outer : List (Option PossibleKey)
  keyAllowed : Bool

namespace Lexer

/-- A byte order mark at the start of the text is no part of it. -/
def ofText (cs : List Char) : Lexer :=
  let cs := match cs with
    | '\ufeff' :: rest => rest
    | _ => cs
  ⟨⟨cs, Mark.start⟩, [], 0, [], none, [], true⟩

def inFlow (l : Lexer) : Bool := !l.outer.isEmpty

/-- The first column that belongs to the content of the innermost block collection. -/
def level (l : Lexer) : Nat := (l.columns.head?.map (· + 1)).getD 0

def push (l : Lexer) (t : Token) : Lexer := { l with queue := l.queue ++ [t] }

/-- Puts a token without text at a place. -/
def pushEmpty (l : Lexer) (kind : Token.Kind) (m : Mark) : Lexer := l.push ⟨kind, m, m⟩

/-- Inserts a token before the one with a given number. -/
def insertBefore (l : Lexer) (number : Nat) (t : Token) : Lexer :=
  let i := number - l.delivered
  { l with queue := l.queue.take i ++ t :: l.queue.drop i }

/-- Takes an indicator of `n` characters as a token. -/
def pushIndicator (l : Lexer) (kind : Token.Kind) (n : Nat) : Lexer :=
  let after := l.cursor.skip n
  { l.push ⟨kind, l.cursor.mark, after.mark⟩ with cursor := after }

/-! Possible keys -/

def tooLate (k : PossibleKey) (m : Mark) : Bool :=
  k.mark.line < m.line || k.mark.index + 1024 < m.index

def missingColon {α : Type} (l : Lexer) (k : PossibleKey) : Except Fault α :=
  l.cursor.fails .colonExpected .simpleKey k.mark

def refreshKey (l : Lexer) : Option PossibleKey → Except Fault (Option PossibleKey)
  | none => .ok none
  | some k =>
    if !tooLate k l.cursor.mark then .ok (some k)
    else if k.required then l.missingColon k
    else .ok none

/-- Drops the possible keys that have become too long, the outermost first. -/
def dropLateKeys (l : Lexer) : Except Fault Lexer := do
  let outer ← l.outer.reverse.mapM l.refreshKey
  let key ← l.refreshKey l.key
  return { l with key, outer := outer.reverse }

def dropKey (l : Lexer) : Except Fault Lexer :=
  match l.key with
  | some k => if k.required then l.missingColon k else .ok { l with key := none }
  | none => .ok l

/-- Notes that a key may start at the cursor. -/
def noteKey (l : Lexer) : Except Fault Lexer :=
  if !l.keyAllowed then .ok l
  else do
    let required := !l.inFlow && l.columns.head? == some l.cursor.mark.column
    let l' ← l.dropKey
    return { l' with key := some ⟨l.delivered + l.queue.length, l.cursor.mark, required⟩ }

/-! Block collections -/

/-- Starts a block collection at a column if that is farther right than the innermost one. -/
def openBlock (l : Lexer) (column : Nat) (insert : Lexer → Lexer) : Lexer :=
  if l.inFlow || column < l.level then l
  else { insert l with columns := column :: l.columns }

/-- Ends the block collections that start at or after column `level`. -/
def closeFrom (m : Mark) (level : Nat) : List Nat → List Nat × List Token
  | [] => ([], [])
  | column :: rest =>
    if level ≤ column then
      let (columns, tokens) := closeFrom m level rest
      (columns, ⟨.blockEnd, m, m⟩ :: tokens)
    else (column :: rest, [])

def closeBlocks (l : Lexer) (level : Nat) : Lexer :=
  if l.inFlow then l
  else
    let (columns, tokens) := closeFrom l.cursor.mark level l.columns
    { l with columns, queue := l.queue ++ tokens }

/-! Blanks and comments -/

/-- Moves over blanks, comments and line breaks. A line break outside of brackets allows a key,
and where a key is allowed there tabs are no blanks. -/
def skipBlanks (inFlow comment keyAllowed : Bool) : List Char → Mark → Cursor × Bool
  | [], m => (⟨[], m⟩, keyAllowed)
  | '\r' :: '\n' :: rest, m => skipBlanks inFlow false (keyAllowed || !inFlow) rest (m.newLine 2)
  | c :: rest, m =>
    if isBreak c then skipBlanks inFlow false (keyAllowed || !inFlow) rest (m.newLine 1)
    else if comment || c == ' ' || (c == '\t' && (inFlow || !keyAllowed)) then
      skipBlanks inFlow comment keyAllowed rest (m.advance 1)
    else if c == '#' then skipBlanks inFlow true keyAllowed rest (m.advance 1)
    else (⟨c :: rest, m⟩, keyAllowed)

def toNextToken (l : Lexer) : Lexer :=
  let c := if l.cursor.mark.index == 0 && l.cursor.startsWith '\ufeff' then l.cursor.skip 1
    else l.cursor
  let (cursor, keyAllowed) := skipBlanks l.inFlow false l.keyAllowed c.rest c.mark
  { l with cursor, keyAllowed }

/-! Tokens -/

def streamEnd (l : Lexer) : Except Fault Lexer := do
  let c := l.cursor
  let c := if c.mark.column = 0 then c else ⟨c.rest, c.mark.newLine 0⟩
  let l ← ({ l with cursor := c }.closeBlocks 0).dropKey
  return { l.pushEmpty .streamEnd c.mark with keyAllowed := false }

/-- Ends all block collections, as a directive and a document indicator do. -/
def endContent (l : Lexer) : Except Fault Lexer := do
  return { ← (l.closeBlocks 0).dropKey with keyAllowed := false }

def directive (l : Lexer) : Except Fault Lexer := do
  let l ← l.endContent
  let (d, after) ← Directive.read l.cursor
  return { l.push ⟨.directive d, l.cursor.mark, after.mark⟩ with cursor := after }

def openBracket (l : Lexer) (kind : Token.Kind) : Except Fault Lexer := do
  let l ← l.noteKey
  return { l with key := none, outer := l.key :: l.outer, keyAllowed := true }.pushIndicator kind 1

def closeBracket (l : Lexer) (kind : Token.Kind) : Except Fault Lexer := do
  let l ← l.dropKey
  let (key, outer) := match l.outer with
    | k :: outer => (k, outer)
    | [] => (l.key, [])
  return { l with key, outer, keyAllowed := false }.pushIndicator kind 1

def comma (l : Lexer) : Except Fault Lexer := do
  return { ← l.dropKey with keyAllowed := true }.pushIndicator .flowEntry 1

def entryIndicator (l : Lexer) : Except Fault Lexer := do
  if !l.inFlow && !l.keyAllowed then l.cursor.refuses .entryNotAllowed
  let m := l.cursor.mark
  let l ← (l.openBlock m.column (·.pushEmpty .blockSequenceStart m)).dropKey
  return { l with keyAllowed := true }.pushIndicator .blockEntry 1

def keyIndicator (l : Lexer) : Except Fault Lexer := do
  if !l.inFlow && !l.keyAllowed then l.cursor.refuses .keyNotAllowed
  let m := l.cursor.mark
  let l ← (l.openBlock m.column (·.pushEmpty .blockMappingStart m)).dropKey
  return { l with keyAllowed := !l.inFlow }.pushIndicator .key 1

/-- A colon after a possible key makes it a key, in a new block mapping if none is open there. -/
def valueIndicator (l : Lexer) : Except Fault Lexer :=
  match l.key with
  | some k =>
    let l := l.insertBefore k.number ⟨.key, k.mark, k.mark⟩
    let l := l.openBlock k.mark.column
      (·.insertBefore k.number ⟨.blockMappingStart, k.mark, k.mark⟩)
    .ok ({ l with key := none, keyAllowed := false }.pushIndicator .value 1)
  | none => do
    if !l.inFlow && !l.keyAllowed then l.cursor.refuses .valueNotAllowed
    let m := l.cursor.mark
    let l := l.openBlock m.column (·.pushEmpty .blockMappingStart m)
    return { l with keyAllowed := !l.inFlow }.pushIndicator .value 1

/-- Adds a token that has been read from the cursor on. -/
def pushRead (l : Lexer) (kind : Token.Kind) (after : Cursor) : Lexer :=
  { l.push ⟨kind, l.cursor.mark, after.mark⟩ with cursor := after }

def name (l : Lexer) (activity : Activity) (kind : String → Token.Kind) : Except Fault Lexer := do
  let l ← l.noteKey
  let (text, after) ← Anchor.readName activity l.cursor
  return { l with keyAllowed := false }.pushRead (kind text) after

def tag (l : Lexer) : Except Fault Lexer := do
  let l ← l.noteKey
  let (tag, after) ← Tag.read l.inFlow l.cursor
  return { l with keyAllowed := false }.pushRead (.tag tag) after

def blockScalar (l : Lexer) (literal : Bool) : Except Fault Lexer := do
  let l ← l.dropKey
  let (text, after) ← Block.read literal l.level l.cursor
  return { l with keyAllowed := true }.pushRead (.scalar text false) after

def quotedScalar (l : Lexer) (quote : Quote) : Except Fault Lexer := do
  let l ← l.noteKey
  let (text, after) ← quote.read l.cursor
  return { l with keyAllowed := false }.pushRead (.scalar text false) after

def plainScalar (l : Lexer) : Except Fault Lexer := do
  let l ← l.noteKey
  let scalar ← Plain.read l.inFlow l.level l.cursor
  return { l with keyAllowed := scalar.broken }.pushRead (.scalar scalar.text true) scalar.after

/-- Reads the token that starts with the characters at the cursor. -/
def token (l : Lexer) : Except Fault Lexer :=
  let c := l.cursor
  match c.rest with
  | [] => l.streamEnd
  | first :: rest =>
    if c.mark.column == 0 && first == '%' then l.directive
    else if c.atIndicator '-' then do return (← l.endContent).pushIndicator .documentStart 3
    else if c.atIndicator '.' then do return (← l.endContent).pushIndicator .documentEnd 3
    else match first with
      | '[' => l.openBracket .flowSequenceStart
      | '{' => l.openBracket .flowMappingStart
      | ']' => l.closeBracket .flowSequenceEnd
      | '}' => l.closeBracket .flowMappingEnd
      | ',' => l.comma
      | '*' => l.name .alias .alias
      | '&' => l.name .anchor .anchor
      | '!' => l.tag
      | '\'' => l.quotedScalar .single
      | '"' => l.quotedScalar .double
      | _ =>
        if first == '-' && atBlankOrEnd rest then l.entryIndicator
        else if first == '?' && (l.inFlow || atBlankOrEnd rest) then l.keyIndicator
        else if first == ':' && (l.inFlow || atBlankOrEnd rest) then l.valueIndicator
        else if first == '|' && !l.inFlow then l.blockScalar true
        else if first == '>' && !l.inFlow then l.blockScalar false
        else if Plain.canStart l.inFlow c.rest then l.plainScalar
        else c.fails .noToken .nextToken c.mark

/-- Reads one more token into the queue, after the ends of block collections before it. -/
def fetch (l : Lexer) : Except Fault Lexer := do
  let l ← l.toNextToken.dropLateKeys
  (l.closeBlocks (l.cursor.mark.column + 1)).token

/-- Whether the first waiting token may turn out to start a key. -/
def mayBeKey (l : Lexer) : Bool :=
  (l.key :: l.outer).any fun k => k.any (·.number == l.delivered)

/-- Delivers the tokens of the text; those already delivered are in reverse. -/
def tokens : Nat → List Token → Lexer → Tokens
  | 0, done, l => (Tokens.ended l.cursor.mark).prepend done
  | fuel + 1, done, l =>
    match l.queue with
    | [] =>
      match l.fetch with
      | .error f => (Tokens.faulty f).prepend done
      | .ok l => tokens fuel done l
    | t :: queue =>
      match l.dropLateKeys with
      | .error f => (Tokens.faulty f).prepend done
      | .ok l =>
        if l.mayBeKey then
          match l.fetch with
          | .error f => (Tokens.faulty f).prepend done
          | .ok l => tokens fuel done l
        else if t.kind = .streamEnd then (Tokens.ended t.start).prepend done
        else tokens fuel (t :: done) { l with queue, delivered := l.delivered + 1 }

end Lexer

/-- The tokens of a text. Every character gives at most four tokens. -/
def Tokens.ofText (cs : List Char) : Tokens :=
  match badCharacter? 0 cs with
  | some offset => .faulty (.controlCharacter offset)
  | none => Lexer.tokens (8 * cs.length + 8) [] (Lexer.ofText cs)

end OpenApiServer.Yaml
