import OpenApiServer.Json.Skip

/-!
# Decoding JSON by shape

A `Shape` describes the values that a program accepts. `Shape.read` reads a value of that shape
and normalizes it: a real number stays real, a map is sorted by key, a record has its declared
fields in their order and leaves out the optional ones that are absent or null. Unknown fields of
a record are passed over, and a list stands for a record field by field.
-/

namespace OpenApiServer.Json

/-- A range of integers under the name that messages use for it. -/
structure IntegerRange where
  name : String
  low : Int
  high : Int
  deriving DecidableEq, Repr

namespace IntegerRange

def contains (r : IntegerRange) (n : Int) : Bool := r.low ≤ n && n ≤ r.high

/-- The integers of two's complement with one bit for the sign and `n` others. -/
def signed (name : String) (n : Nat) : IntegerRange := ⟨name, -Int.pow 2 n, Int.pow 2 n - 1⟩

def unsigned (name : String) (n : Nat) : IntegerRange := ⟨name, 0, Int.pow 2 n - 1⟩

def i8 : IntegerRange := signed "i8" 7
def i16 : IntegerRange := signed "i16" 15
def i32 : IntegerRange := signed "i32" 31
def i64 : IntegerRange := signed "i64" 63
def u8 : IntegerRange := unsigned "u8" 8
def u16 : IntegerRange := unsigned "u16" 16
def u32 : IntegerRange := unsigned "u32" 32
def u64 : IntegerRange := unsigned "u64" 64

end IntegerRange

inductive Shape where
  | any
  | integer (range : IntegerRange)
  | real
  | bool
  | text
  | optional (shape : Shape)
  | list (shape : Shape)
  | map (shape : Shape)
  | record (name : String) (fields : List (String × Shape))
  deriving Repr

/-- The failure of a value of another type that starts `cs`. The value itself may be ill-formed;
then that is the failure. -/
def wrongType {α : Type} (expected : String) (cs : List Char) : Except Failure α :=
  match cs with
  | [] => failOn .endOfValue []
  | 'n' :: rest => do failAt (.wrongType .null expected) (← readWord ['u', 'l', 'l'] rest)
  | 't' :: rest => do failAt (.wrongType (.bool true) expected) (← readWord ['r', 'u', 'e'] rest)
  | 'f' :: rest => do
    failAt (.wrongType (.bool false) expected) (← readWord ['a', 'l', 's', 'e'] rest)
  | '"' :: rest => do
    let (s, rest) ← readString rest
    failAt (.wrongType (.text s) expected) rest
  | '[' :: _ => failAt (.wrongType .sequence expected) cs
  | '\x7b' :: _ => failAt (.wrongType .map expected) cs
  | '-' :: rest => do
    let (n, rest) ← readNumber true rest
    failAt (.wrongType (.number n) expected) rest
  | c :: _ =>
    if isDigit c then do
      let (n, rest) ← readNumber false cs
      failAt (.wrongType (.number n) expected) rest
    else failOn .valueExpected cs

/-- Reads a number that starts `cs`, if one does. -/
def number (expected : String) : Reader Number := fun cs =>
  match cs with
  | '-' :: rest => readNumber true rest
  | c :: _ => if isDigit c then readNumber false cs else wrongType expected cs
  | [] => failOn .endOfValue []

namespace Shape

def isOptional : Shape → Bool
  | .optional _ => true
  | _ => false

def recordName (name : String) : String := "struct " ++ name

def countText (n : Nat) : String := toString n ++ (if n = 1 then " element" else " elements")

/-- Sets the entry of a sorted map. -/
def sortedInsert (key : String) (value : Json) : List (String × Json) → List (String × Json)
  | [] => [(key, value)]
  | (k, v) :: rest =>
    if k = key then (k, value) :: rest
    else if key < k then (key, value) :: (k, v) :: rest
    else (k, v) :: sortedInsert key value rest

def sortedEntry (value : Reader Json) (fields : List (String × Json)) (key : String) :
    Reader (List (String × Json)) := fun cs =>
  within (.key key) do
    let rest ← readColon cs
    let (v, rest) ← value rest
    return (sortedInsert key v fields, rest)

/-- The first field that has to be there and was not read. -/
def firstMissing (found : List (String × Json)) : List (String × Shape) → Option String
  | [] => none
  | (name, shape) :: rest =>
    if shape.isOptional ∨ (fieldNamed? name found).isSome then firstMissing found rest
    else some name

/-- The fields of a record in their declared order, absent and null ones left out. -/
def arrange (found : List (String × Json)) (fields : List (String × Shape)) :
    List (String × Json) :=
  fields.filterMap fun (name, shape) =>
    match fieldNamed? name found with
    | some .null => if shape.isOptional then none else some (name, .null)
    | some v => some (name, v)
    | none => none

/-- Reads one entry of a record. -/
def recordEntry (field? : String → Option (Reader Json)) (found : List (String × Json))
    (key : String) : Reader (List (String × Json)) := fun cs =>
  match field? key with
  | none => within (.key key) do
    let rest ← readColon cs
    return (found, ← skipValue rest)
  | some read =>
    if (fieldNamed? key found).isSome then failAt (.duplicateField key) (skipBlank cs)
    else within (.key key) do
      let rest ← readColon cs
      let (v, rest) ← read rest
      return (found ++ [(key, v)], rest)

/-- Moves to the next element of a list, or to its closing bracket. -/
def nextElement (isFirst : Bool) (cs : List Char) : Except Failure (List Char) :=
  match skipBlank cs with
  | [] => failOn .endOfList []
  | ']' :: rest => .ok (']' :: rest)
  | ',' :: rest =>
    if isFirst then .ok (',' :: rest)
    else match skipBlank rest with
      | [] => failOn .endOfValue []
      | ']' :: more => failOn .trailingComma (']' :: more)
      | next => .ok next
  | other => if isFirst then .ok other else failOn .listCommaOrEnd other

/-- Reads the closing bracket of a list that stands for a record. -/
def closeRecord (cs : List Char) : Except Failure (List Char) :=
  match skipBlank cs with
  | [] => failOn .endOfList []
  | ']' :: rest => .ok rest
  | ',' :: rest =>
    match skipBlank rest with
    | ']' :: more => failOn .trailingComma (']' :: more)
    | other => failOn .trailingCharacters other
  | other => failOn .trailingCharacters other

mutual

/-- Reads a value of the shape with at most `depth` levels of lists and objects. -/
def read : Shape → Nat → Reader Json
  | .any, depth, cs => value depth cs
  | .integer range, _, cs => do
    match ← number range.name (skipBlank cs) with
    | (.int n, rest) =>
      if range.contains n then return (.num (.int n), rest)
      else failAt (.wrongValue (.number (.int n)) range.name) rest
    | (.real x, rest) => failAt (.wrongType (.number (.real x)) range.name) rest
  | .real, _, cs => do
    match ← number "f64" (skipBlank cs) with
    | (.int n, rest) => return (.num (.real (Double.ofInt n)), rest)
    | (.real x, rest) => return (.num (.real x), rest)
  | .bool, _, cs =>
    match skipBlank cs with
    | 't' :: rest => do return (.bool true, ← readWord ['r', 'u', 'e'] rest)
    | 'f' :: rest => do return (.bool false, ← readWord ['a', 'l', 's', 'e'] rest)
    | other => wrongType "a boolean" other
  | .text, _, cs =>
    match skipBlank cs with
    | '"' :: rest => do
      let (s, rest) ← readString rest
      return (.str s, rest)
    | other => wrongType "a string" other
  | .optional shape, depth, cs =>
    match skipBlank cs with
    | 'n' :: rest => do return (.null, ← readWord ['u', 'l', 'l'] rest)
    | other => read shape depth other
  | .list shape, depth, cs =>
    match skipBlank cs, depth with
    | '[' :: rest, 0 => failOn .tooDeep ('[' :: rest)
    | '[' :: rest, depth + 1 => do
      let (items, rest) ← listBody (read shape depth) rest
      return (.arr items, rest)
    | other, _ => wrongType "a sequence" other
  | .map shape, depth, cs =>
    match skipBlank cs, depth with
    | '\x7b' :: rest, 0 => failOn .tooDeep ('\x7b' :: rest)
    | '\x7b' :: rest, depth + 1 => do
      let (fields, rest) ← objectBody (sortedEntry (read shape depth)) [] rest
      return (.obj fields, rest)
    | other, _ => wrongType "a map" other
  | .record name fields, depth, cs =>
    match skipBlank cs, depth with
    | '\x7b' :: rest, 0 => failOn .tooDeep ('\x7b' :: rest)
    | '[' :: rest, 0 => failOn .tooDeep ('[' :: rest)
    | '\x7b' :: rest, depth + 1 => do
      let (found, rest) ← objectBody (recordEntry (fieldReader? fields depth)) [] rest
      match firstMissing found fields with
      | some field => failAt (.missingField field) rest
      | none => return (.obj (arrange found fields), rest)
    | '[' :: rest, depth + 1 => do
      let expected := recordName name ++ " with " ++ countText fields.length
      let (found, rest) ← readInOrder fields depth expected 0 rest
      return (.obj (arrange found fields), ← closeRecord rest)
    | other, _ => wrongType (recordName name) other

/-- The reader of the field with a given key. -/
def fieldReader? : List (String × Shape) → Nat → String → Option (Reader Json)
  | [], _, _ => none
  | field :: rest, depth, key =>
    if field.1 = key then some (readField field depth) else fieldReader? rest depth key

def readField : String × Shape → Nat → Reader Json
  | (_, shape), depth, cs => read shape depth cs

/-- Reads the fields of a record from the elements of a list. -/
def readInOrder : List (String × Shape) → Nat → String → Nat → Reader (List (String × Json))
  | [], _, _, _, cs => .ok ([], cs)
  | field :: rest, depth, expected, index, cs => do
    match ← nextElement (index == 0) cs with
    | ']' :: after =>
      if field.2.isOptional then readInOrder rest depth expected (index + 1) (']' :: after)
      else failAt (.wrongLength index expected) after
    | next => do
      let (v, after) ← within (.index index) (readField field depth next)
      let (found, last) ← readInOrder rest depth expected (index + 1) after
      return ((field.1, v) :: found, last)

end

/-- Decodes the value at the start of a text; what follows it is not looked at. -/
def decode (shape : Shape) (cs : List Char) : Except Failure Json := do
  let (v, _) ← read shape maxDepth cs
  return v

end Shape

end OpenApiServer.Json
