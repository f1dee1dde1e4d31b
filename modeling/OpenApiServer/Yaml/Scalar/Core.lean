import OpenApiServer.Decimal.Double
import OpenApiServer.Json.Basic
import OpenApiServer.Text.Quoted
import OpenApiServer.Yaml.Event.Basic

/-!
# What scalars stand for

A plain scalar without a tag is a null, a boolean, a number or else a text, by the core schema of
YAML; digits after a leading zero are a text. A core tag asks for one of these kinds. Quoted and
block scalars without a tag are texts. Numbers that have no value in JSON are nulls.
-/

namespace OpenApiServer.Yaml

/-- A value that is not of the kind it should be. -/
inductive Mismatch where
  | notValue (text : String) (expected : String)
  | outOfRange
  | localTag
  | keyKind (found expected : String)
  deriving DecidableEq, Repr

def Mismatch.message : Mismatch → String
  | .notValue text expected =>
    "invalid value: string " ++ Text.debugQuoted text ++ ", expected " ++ expected
  | .outOfRange => "JSON number out of range"
  | .localTag => "invalid type: enum, expected any valid JSON value"
  | .keyKind found expected => "invalid type: " ++ found ++ ", expected " ++ expected

namespace Core

def isNull (s : String) : Bool := s == "null" || s == "Null" || s == "NULL" || s == "~"

def bool? (s : String) : Option Bool :=
  if s = "true" ∨ s = "True" ∨ s = "TRUE" then some true
  else if s = "false" ∨ s = "False" ∨ s = "FALSE" then some false
  else none

def isSign (c : Char) : Bool := c == '+' || c == '-'

def dropSign : List Char → List Char
  | [] => []
  | c :: rest => if isSign c then rest else c :: rest

/-- Whether a text is digits after a leading zero, with an optional sign. -/
def isZeroPadded (cs : List Char) : Bool :=
  match dropSign cs with
  | '0' :: d :: rest => (d :: rest).all Char.isDigit
  | _ => false

/-- The value of one or more digits in a base. -/
def natural? (base : Nat) (cs : List Char) : Option Nat :=
  if cs.isEmpty || !cs.all (fun c => isHexDigit c && hexValue c < base) then none
  else some (cs.foldl (fun n c => n * base + hexValue c) 0)

def magnitude? : List Char → Option Nat
  | '0' :: 'x' :: rest => natural? 16 rest
  | '0' :: 'o' :: rest => natural? 8 rest
  | '0' :: 'b' :: rest => natural? 2 rest
  | cs => if isZeroPadded cs then none else natural? 10 cs

def integer? : List Char → Option Int
  | '+' :: rest => (magnitude? rest).map Int.ofNat
  | '-' :: rest => (magnitude? rest).map fun n => -(n : Int)
  | cs => (magnitude? cs).map Int.ofNat

/-- The value of an integer; those of more than 128 bits are no integers. -/
def integerValue? (cs : List Char) : Option (Except Mismatch Json) :=
  match integer? cs with
  | none => none
  | some n =>
    if -Int.pow 2 63 ≤ n ∧ n < Int.pow 2 64 then some (.ok (.num (.int n)))
    else if -Int.pow 2 127 ≤ n ∧ n < Int.pow 2 128 then some (.error .outOfRange)
    else none

def isInfinity (s : String) : Bool := s == ".inf" || s == ".Inf" || s == ".INF"

def isNaN (s : String) : Bool := s == ".nan" || s == ".NaN" || s == ".NAN"

/-- The value of a text in decimal notation, if it is not too large. -/
def realValue? (s : String) : Option Json :=
  let cs := s.toList
  let (positive, unsigned) := match cs with
    | '+' :: rest => (true, rest)
    | '-' :: rest => (false, rest)
    | _ => (false, cs)
  if positive && unsigned.head?.any isSign then none
  else if isInfinity (String.ofList unsigned) || isNaN s then some .null
  else match Double.ofText? cs with
    | some x => if x.isFinite then some (.num (.real x)) else none
    | none => none

def plainValue (s : String) : Except Mismatch Json :=
  if s.isEmpty || isNull s then .ok .null
  else match bool? s with
    | some b => .ok (.bool b)
    | none =>
      match integerValue? s.toList with
      | some v => v
      | none =>
        if isZeroPadded s.toList then .ok (.str s)
        else .ok ((realValue? s).getD (.str s))

/-- The value of a scalar with its tag. -/
def value (tag : Option Tag.Resolved) (s : String) (plain : Bool) : Except Mismatch Json :=
  match tag with
  | none => if plain then plainValue s else .ok (.str s)
  | some tag =>
    if tag = Tag.core "bool" then
      match bool? s with
      | some b => .ok (.bool b)
      | none => .error (.notValue s "a boolean")
    else if tag = Tag.core "int" then
      (integerValue? s.toList).getD (.error (.notValue s "an integer"))
    else if tag = Tag.core "float" then
      match realValue? s with
      | some v => .ok v
      | none => .error (.notValue s "a float")
    else if tag = Tag.core "null" then
      if isNull s then .ok .null else .error (.notValue s "null")
    else .ok (.str s)

end Core

end OpenApiServer.Yaml
