import OpenApiServer.Text.Utf8
import OpenApiServer.Text.Basic
import OpenApiServer.Json.Reader

/-!
# Percent-encoded text

A percent sign with two hexadecimal digits stands for a byte; any other percent sign stands for
itself. In a query a plus sign stands for a space, pairs are separated by ampersands, and the
first equals sign ends the name. Bytes that are no UTF-8 become U+FFFD.
-/

namespace OpenApiServer.Http

/-- The bytes that a percent-encoded text stands for. -/
def percentBytes : List Char → List UInt8
  | [] => []
  | [c] => String.utf8EncodeChar c
  | [c, d] => String.utf8EncodeChar c ++ String.utf8EncodeChar d
  | c :: h :: l :: rest =>
    match c, Json.hexValue? h, Json.hexValue? l with
    | '%', some high, some low => UInt8.ofNat (high * 16 + low) :: percentBytes rest
    | _, _, _ => String.utf8EncodeChar c ++ percentBytes (h :: l :: rest)

def percentDecode (cs : List Char) : String := String.ofList (Utf8.decodeLossy (percentBytes cs))

def plusToSpace (c : Char) : Char := if c = '+' then ' ' else c

def formDecode (cs : List Char) : String := percentDecode (cs.map plusToSpace)

/-- The pairs of a query text; empty pieces are no pairs. -/
def formPairs (cs : List Char) : List (String × String) :=
  ((Text.splitOn '&' cs).filter (!·.isEmpty)).map fun piece =>
    match Text.splitFirst? '=' piece with
    | some (name, value) => (formDecode name, formDecode value)
    | none => (formDecode piece, "")

end OpenApiServer.Http

/-!
## Query parameters

A decoded query keeps every pair in the order of the request, so that a name can occur several
times.
-/

namespace OpenApiServer.Http

structure Query where
  pairs : List (String × String)
  deriving DecidableEq, Repr

namespace Query

def parse (text : Option String) : Query :=
  ⟨match text with
    | some s => formPairs s.toList
    | none => []⟩

def first? (q : Query) (name : String) : Option String := fieldNamed? name q.pairs

def all (q : Query) (name : String) : List String :=
  (q.pairs.filter (·.1 == name)).map (·.2)

def contains (q : Query) (name : String) : Bool := q.pairs.any (·.1 == name)

def isEmpty (q : Query) : Bool := q.pairs.isEmpty

end Query

end OpenApiServer.Http
