import OpenApiServer.Decimal.Double
import OpenApiServer.Decimal.Shortest

/-!
# JSON values

An object is a list of fields in the order in which their keys first appeared; `insertField`
keeps the position of a repeated key and takes its last value. `same` compares values and does
not look at the order of fields.
-/

namespace OpenApiServer

/-- A number is an integer between `-2 ^ 63` and `2 ^ 64 - 1`, or a double. -/
inductive Number where
  | int (value : Int)
  | real (value : Double)
  deriving DecidableEq, Repr, Inhabited

inductive Json where
  | null
  | bool (value : Bool)
  | num (value : Number)
  | str (text : String)
  | arr (items : List Json)
  | obj (fields : List (String × Json))
  deriving Repr, Inhabited

namespace Number

def same : Number → Number → Bool
  | .int a, .int b => a == b
  | .real a, .real b => a.sameValue b
  | _, _ => false

end Number

/-- The value of the first field with a given key. -/
def fieldNamed? {α : Type} (key : String) : List (String × α) → Option α
  | [] => none
  | (k, v) :: rest => if k = key then some v else fieldNamed? key rest

/-- Sets a field: in its place if the key is there, else at the end. -/
def insertField {α : Type} (key : String) (value : α) : List (String × α) → List (String × α)
  | [] => [(key, value)]
  | (k, v) :: rest => if k = key then (k, value) :: rest else (k, v) :: insertField key value rest

theorem fieldNamed?_insertField_self {α : Type} (key : String) (value : α)
    (fields : List (String × α)) : fieldNamed? key (insertField key value fields) = some value := by
  induction fields with
  | nil => simp [insertField, fieldNamed?]
  | cons f rest ih =>
    by_cases h : f.1 = key <;> simp [insertField, fieldNamed?, h, ih]

theorem fieldNamed?_insertField_ne {α : Type} {key other : String} (h : key ≠ other) (value : α)
    (fields : List (String × α)) :
    fieldNamed? other (insertField key value fields) = fieldNamed? other fields := by
  induction fields with
  | nil => simp [insertField, fieldNamed?, h]
  | cons f rest ih => grind [insertField, fieldNamed?]

namespace Json

def asString? : Json → Option String
  | .str s => some s
  | _ => none

def asBool? : Json → Option Bool
  | .bool b => some b
  | _ => none

def asArray? : Json → Option (List Json)
  | .arr items => some items
  | _ => none

def asObject? : Json → Option (List (String × Json))
  | .obj fields => some fields
  | _ => none

def isObject (j : Json) : Bool := j.asObject?.isSome

/-- The field of an object; other values have none. -/
def get? (j : Json) (key : String) : Option Json :=
  match j with
  | .obj fields => fieldNamed? key fields
  | _ => none

/-- The value reached by following keys of objects. -/
def getPath? (j : Json) : List String → Option Json
  | [] => some j
  | key :: rest => (j.get? key).bind (getPath? · rest)

def string (j : Json) (key : String) : Option String := (j.get? key).bind asString?

mutual

/-- Equality of values, the order of fields apart. -/
def same : Json → Json → Bool
  | .null, .null => true
  | .bool a, .bool b => a == b
  | .num a, .num b => a.same b
  | .str a, .str b => a == b
  | .arr a, .arr b => sameItems a b
  | .obj a, .obj b => a.length == b.length && fieldsWithin a b
  | _, _ => false

def sameItems : List Json → List Json → Bool
  | [], [] => true
  | x :: xs, y :: ys => same x y && sameItems xs ys
  | _, _ => false

/-- Whether every field has an equal one among `others`. -/
def fieldsWithin : List (String × Json) → List (String × Json) → Bool
  | [], _ => true
  | f :: rest, others => fieldWithin f others && fieldsWithin rest others

def fieldWithin : String × Json → List (String × Json) → Bool
  | (key, value), others =>
    match fieldNamed? key others with
    | some other => same value other
    | none => false

end

mutual

/-- The number of values in a tree, keys and texts counted by their length. -/
def size : Json → Nat
  | .str s => s.length + 1
  | .arr items => sizeItems items + 1
  | .obj fields => sizeFields fields + 1
  | _ => 1

def sizeItems : List Json → Nat
  | [] => 0
  | j :: rest => size j + sizeItems rest

def sizeFields : List (String × Json) → Nat
  | [] => 0
  | f :: rest => sizeField f + sizeFields rest

def sizeField : String × Json → Nat
  | (key, value) => key.length + size value

end

end Json

end OpenApiServer

/-!
## Compact JSON text

Fields are written in their order and without blanks. In a string the quote, the backslash and
the control characters below U+0020 are escaped, and nothing else.
-/

namespace OpenApiServer.Json

/-- Numbers keep one place after the point and turn to an exponent at `10 ^ 16` and below
`10 ^ (-5)`. A double that is not finite is written as `null`. -/
def numberFormat : FloatFormat := ⟨-4, 16, true⟩

def hexDigit (n : Nat) : Char := (Nat.digitChar n)

def escapeChar (c : Char) : List Char :=
  if c = '"' then ['\\', '"']
  else if c = '\\' then ['\\', '\\']
  else if c = '\n' then ['\\', 'n']
  else if c = '\r' then ['\\', 'r']
  else if c = '\t' then ['\\', 't']
  else if c = '\x08' then ['\\', 'b']
  else if c = '\x0c' then ['\\', 'f']
  else if c.toNat < 32 then ['\\', 'u', '0', '0', hexDigit (c.toNat / 16), hexDigit (c.toNat % 16)]
  else [c]

def quoted (s : String) : List Char := '"' :: s.toList.flatMap escapeChar ++ ['"']

def numberText : Number → String
  | .int n => toString n
  | .real x => if x.isFinite then numberFormat.write x else "null"

mutual

def print : Json → List Char
  | .null => "null".toList
  | .bool true => "true".toList
  | .bool false => "false".toList
  | .num n => (numberText n).toList
  | .str s => quoted s
  | .arr items => '[' :: printItems items ++ [']']
  | .obj fields => '{' :: printFields fields ++ ['}']

def printItems : List Json → List Char
  | [] => []
  | [j] => print j
  | j :: rest => print j ++ ',' :: printItems rest

def printFields : List (String × Json) → List Char
  | [] => []
  | [f] => printField f
  | f :: rest => printField f ++ ',' :: printFields rest

def printField : String × Json → List Char
  | (key, value) => quoted key ++ ':' :: print value

end

/-- The compact text of a value. -/
def text (j : Json) : String := String.ofList (print j)

end OpenApiServer.Json
