import OpenApiServer.Json.Basic
import OpenApiServer.Text.Utf8
import OpenApiServer.Text.Quoted

/-!
# What can be wrong with a JSON text

A `Failure` is a fault together with its place: the number of bytes that were left unread, and
the steps that lead to the value that was being read. `Failure.message` adds the line and the
column, both counted in bytes from the start of the text.
-/

namespace OpenApiServer.Json

/-- A value that was found in place of the expected one. -/
inductive Found where
  | null
  | bool (value : Bool)
  | number (value : Number)
  | text (value : String)
  | sequence
  | map
  deriving Repr

namespace Found

def describe : Found → String
  | .null => "null"
  | .bool b => "boolean `" ++ toString b ++ "`"
  | .number (.int n) => "integer `" ++ toString n ++ "`"
  | .number (.real x) => "floating point `" ++ numberText (.real x) ++ "`"
  | .text s => "string " ++ Text.debugQuoted s
  | .sequence => "sequence"
  | .map => "map"

end Found

inductive Fault where
  | endOfValue
  | endOfList
  | endOfObject
  | endOfString
  | valueExpected
  | wordExpected
  | colonExpected
  | listCommaOrEnd
  | objectCommaOrEnd
  | keyNotString
  | trailingComma
  | trailingCharacters
  | badEscape
  | badNumber
  | numberRange
  | loneSurrogate
  | halfSurrogatePair
  | controlCharacter
  | tooDeep
  | wrongType (found : Found) (expected : String)
  | wrongValue (found : Found) (expected : String)
  | wrongLength (count : Nat) (expected : String)
  | missingField (name : String)
  | duplicateField (name : String)
  deriving Repr

namespace Fault

def message : Fault → String
  | .endOfValue => "EOF while parsing a value"
  | .endOfList => "EOF while parsing a list"
  | .endOfObject => "EOF while parsing an object"
  | .endOfString => "EOF while parsing a string"
  | .valueExpected => "expected value"
  | .wordExpected => "expected ident"
  | .colonExpected => "expected `:`"
  | .listCommaOrEnd => "expected `,` or `]`"
  | .objectCommaOrEnd => "expected `,` or `\x7d`"
  | .keyNotString => "key must be a string"
  | .trailingComma => "trailing comma"
  | .trailingCharacters => "trailing characters"
  | .badEscape => "invalid escape"
  | .badNumber => "invalid number"
  | .numberRange => "number out of range"
  | .loneSurrogate => "lone leading surrogate in hex escape"
  | .halfSurrogatePair => "unexpected end of hex escape"
  | .controlCharacter => "control character (\\u0000-\\u001F) found while parsing a string"
  | .tooDeep => "recursion limit exceeded"
  | .wrongType found expected => "invalid type: " ++ found.describe ++ ", expected " ++ expected
  | .wrongValue found expected => "invalid value: " ++ found.describe ++ ", expected " ++ expected
  | .wrongLength n expected => "invalid length " ++ toString n ++ ", expected " ++ expected
  | .missingField name => "missing field `" ++ name ++ "`"
  | .duplicateField name => "duplicate field `" ++ name ++ "`"

end Fault

/-- One step from a value to a part of it. A place between two entries of an object has no key. -/
inductive Step where
  | index (i : Nat)
  | key (name : String)
  | betweenEntries
  deriving DecidableEq, Repr

/-- The text of a path: keys are joined by points, and the empty path is a point. -/
def pathText (path : List Step) : String :=
  let parts := path.map fun
    | .index i => (false, "[" ++ toString i ++ "]")
    | .key name => (true, name)
    | .betweenEntries => (true, "?")
  match parts with
  | [] => "."
  | (_, first) :: rest =>
    rest.foldl (fun acc (dotted, part) => acc ++ (if dotted then "." else "") ++ part) first

structure Failure where
  fault : Fault
  left : Nat
  path : List Step
  deriving Repr

namespace Failure

def under (step : Step) (f : Failure) : Failure := { f with path := step :: f.path }

end Failure

/-- The line and column at which `index` bytes of a text have been read. -/
def lineColumn (index line column : Nat) : List Char → Nat × Nat
  | [] => (line, column)
  | c :: rest =>
    if index = 0 then (line, column)
    else if c = '\n' then lineColumn (index - 1) (line + 1) 0 rest
    else
      let width := min index c.utf8Size
      lineColumn (index - width) line (column + width) rest

namespace Failure

/-- The fault with the line and the column of its place in `text`. -/
def message (text : List Char) (f : Failure) : String :=
  let (line, column) := lineColumn (Utf8.byteCount text - f.left) 1 0 text
  f.fault.message ++ " at line " ++ toString line ++ " column " ++ toString column

end Failure

end OpenApiServer.Json
