import OpenApiServer.Text.Unprintable

/-!
# Quoted text

The escapes of a quoted string: a backslash before the quote and the backslash, short escapes for
the tab and the line ends, and the hexadecimal code of whatever is not printed as it is. A single
quote is left alone.
-/

namespace OpenApiServer.Text

def hexDigits (n : Nat) : List Char := Nat.toDigits 16 n

def codeEscape (c : Char) : List Char := ['\\', 'u', '{'] ++ hexDigits c.toNat ++ ['}']

def escape (c : Char) : List Char :=
  if c = '\t' then ['\\', 't']
  else if c = '\r' then ['\\', 'r']
  else if c = '\n' then ['\\', 'n']
  else if c = '"' then ['\\', '"']
  else if c = '\\' then ['\\', '\\']
  else if isExtending c || isUnprintable c then codeEscape c
  else [c]

def isOctal (c : Char) : Bool := '0' ≤ c && c ≤ '7'

/-- The text of a value in a message: NUL is written as `\0`. -/
def debugQuoted (s : String) : String :=
  let body := s.toList.flatMap fun c => if c = '\x00' then ['\\', '0'] else escape c
  String.ofList ('"' :: body ++ ['"'])

def literalBody : List Char → List Char
  | [] => []
  | c :: rest =>
    if c = '\x00' then
      (if rest.head?.any isOctal then ['\\', 'x', '0', '0'] else ['\\', '0']) ++ literalBody rest
    else escape c ++ literalBody rest

/-- A string literal: NUL is written as `\0`, or as `\x00` where an octal digit follows. -/
def literal (s : String) : String := String.ofList ('"' :: literalBody s.toList ++ ['"'])

end OpenApiServer.Text
