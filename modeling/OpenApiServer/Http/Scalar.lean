import OpenApiServer.Decimal.Double
import OpenApiServer.Json.Shape

/-!
# Parsing scalars from text

Path and query parameters are texts that are parsed into integers of a fixed width, doubles,
booleans or texts. Digits are read from left to right, so the first digit that leaves the range is
reported before a later character that is no digit.
-/

namespace OpenApiServer.Http

inductive ScalarKind where
  | integer (range : Json.IntegerRange)
  | real
  | bool
  | text
  deriving Repr

inductive Scalar where
  | integer (value : Int)
  | real (value : Double)
  | bool (value : Bool)
  | text (value : String)
  deriving DecidableEq, Repr

inductive ScalarError where
  | emptyInteger
  | badDigit
  | tooLarge
  | tooSmall
  | emptyReal
  | badReal
  | badBool
  deriving DecidableEq, Repr

def ScalarError.message : ScalarError → String
  | .emptyInteger => "cannot parse integer from empty string"
  | .badDigit => "invalid digit found in string"
  | .tooLarge => "number too large to fit in target type"
  | .tooSmall => "number too small to fit in target type"
  | .emptyReal => "cannot parse float from empty string"
  | .badReal => "invalid float literal"
  | .badBool => "provided string was not `true` or `false`"

namespace Scalar

/-- Reads digits up to a largest magnitude. -/
def digitsUpTo (limit : Nat) (overflow : ScalarError) : Nat → List Char → Except ScalarError Nat
  | value, [] => .ok value
  | value, c :: rest =>
    if !Json.isDigit c then .error .badDigit
    else if value * 10 + Json.digitValue c > limit then .error overflow
    else digitsUpTo limit overflow (value * 10 + Json.digitValue c) rest

def magnitude (limit : Nat) (overflow : ScalarError) (cs : List Char) : Except ScalarError Nat :=
  if cs.isEmpty then .error .badDigit else digitsUpTo limit overflow 0 cs

/-- An integer with an optional sign; a minus sign needs a range below zero. -/
def parseInteger (range : Json.IntegerRange) (cs : List Char) : Except ScalarError Int :=
  match cs with
  | [] => .error .emptyInteger
  | '+' :: rest => do return (← magnitude range.high.toNat .tooLarge rest : Nat)
  | '-' :: rest =>
    if range.low < 0 then do return -(← magnitude range.low.natAbs .tooSmall rest : Nat)
    else .error .badDigit
  | _ => do return (← magnitude range.high.toNat .tooLarge cs : Nat)

def parseReal (cs : List Char) : Except ScalarError Double :=
  if cs.isEmpty then .error .emptyReal
  else match Double.ofText? cs with
    | some x => .ok x
    | none => .error .badReal

def parse (kind : ScalarKind) (text : String) : Except ScalarError Scalar :=
  match kind with
  | .integer range => .integer <$> parseInteger range text.toList
  | .real => .real <$> parseReal text.toList
  | .bool =>
    if text = "true" then .ok (.bool true)
    else if text = "false" then .ok (.bool false)
    else .error .badBool
  | .text => .ok (.text text)

/-- Doubles turn to an exponent at `10 ^ 16` and below `10 ^ (-4)`. -/
def realFormat : FloatFormat := ⟨-3, 16, false⟩

def realText (x : Double) : String :=
  if x.isNaN then "NaN"
  else if x.isFinite then realFormat.write x
  else if x.isNegative then "-inf" else "inf"

def toText : Scalar → String
  | .integer n => toString n
  | .real x => realText x
  | .bool b => toString b
  | .text s => s

end Scalar

end OpenApiServer.Http
