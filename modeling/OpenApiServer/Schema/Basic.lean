import OpenApiServer.BuildError

/-!
# Schemas

`Schema` is the closed view of a schema node that everything else works with. A reference wins over
what stands beside it, then `allOf`, then `oneOf`; an enumeration or a constant wins over the
declared type, which has to be `string` then. A node without a type is an object if it has
properties.
-/

namespace OpenApiServer

inductive PrimitiveKind where
  | string
  | integer
  | number
  | boolean
  | null
  deriving DecidableEq, Repr

def PrimitiveKind.name : PrimitiveKind → String
  | .string => "string"
  | .integer => "integer"
  | .number => "number"
  | .boolean => "boolean"
  | .null => "null"

inductive Schema where
  | primitive (kind : PrimitiveKind) (format : Option String)
  | reference (pointer : String)
  | array (items : Json)
  | object (properties : List (String × Json)) (required : List String)
  | allOf (parts : List Json)
  | oneOf (arms : List Json)
  | stringEnum (members : List String) (default : Option String)
  deriving Repr

namespace Schema

def nonEmptyList (context keyword : String) (node : Json) : Except BuildError (List Json) :=
  match node with
  | .arr (item :: items) => .ok (item :: items)
  | _ => .error (.unsupported context (.notNonEmptyList keyword))

def requiredName (context : String) (name : Json) : Except BuildError String :=
  match name with
  | .str s => .ok s
  | _ => .error (.unsupported context .requiredNotNames)

/-- The view of an object schema. -/
def object? (context : String) (node : Json) : Except BuildError Schema := do
  let properties ← match node.get? "properties" with
    | none => pure []
    | some (.obj properties) => pure properties
    | some _ => .error (.unsupported context .propertiesNotObject)
  let required ← match node.get? "required" with
    | none => pure []
    | some (.arr names) => names.mapM (requiredName context)
    | some _ => .error (.unsupported context .requiredNotList)
  return .object properties required

/-- The texts among the members of an enumeration, each once and in the order of first
occurrence. -/
def distinctMembers (context : String) : List String → List Json → Except BuildError (List String)
  | found, [] => .ok found
  | found, .str s :: rest =>
    distinctMembers context (if s ∈ found then found else found ++ [s]) rest
  | _, _ => .error (.unsupported context .notStringEnum)

/-- The view of an enumeration or a constant. -/
def enum? (context : String) (node : Json) (type : Option String) : Except BuildError Schema := do
  if type.any (· != "string") then .error (.unsupported context .notStringEnum)
  let values ← match node.get? "enum", node.get? "const" with
    | some (.arr values), _ => pure values
    | none, some value => pure [value]
    | _, _ => .error (.unsupported context .enumNotList)
  let members ← distinctMembers context [] values
  if members.isEmpty then .error (.unsupported context .enumEmpty)
  match node.get? "default" with
  | none => return .stringEnum members none
  | some (.str default) =>
    if default ∈ members then return .stringEnum members (some default)
    else .error (.unsupported context (.badDefault (.str default)))
  | some other => .error (.unsupported context (.badDefault other))

def declaredType (context : String) (node : Json) : Except BuildError (Option String) :=
  match node.get? "type" with
  | none => .ok none
  | some (.str name) => .ok (some name)
  | some _ => .error (.unsupported context .typeNotName)

/-- The view of a node by its declared type. -/
def ofType (context : String) (node : Json) : Option String → Except BuildError Schema
  | some "object" => object? context node
  | some "array" =>
    match node.get? "items" with
    | some items => .ok (.array items)
    | none => .error (.unsupported context .arrayWithoutItems)
  | some "string" => .ok (.primitive .string (node.string "format"))
  | some "integer" => .ok (.primitive .integer (node.string "format"))
  | some "number" => .ok (.primitive .number (node.string "format"))
  | some "boolean" => .ok (.primitive .boolean (node.string "format"))
  | some "null" => .ok (.primitive .null none)
  | some other => .error (.unsupported context (.unknownType other))
  | none =>
    if (node.get? "properties").isSome then object? context node
    else .error (.unsupported context .noType)

/-- The view of a node without a reference, parts or arms. -/
def ofPlain (context : String) (node : Json) : Except BuildError Schema := do
  if (node.get? "anyOf").isSome then .error (.unsupported context (.keyword "anyOf"))
  if (node.get? "not").isSome then .error (.unsupported context (.keyword "not"))
  let type ← declaredType context node
  if (node.get? "enum").isSome || (node.get? "const").isSome then enum? context node type
  else ofType context node type

/-- The view of a node; `context` names its place in messages. -/
def classify (context : String) (node : Json) : Except BuildError Schema :=
  if !node.isObject then .error (.unsupported context .schemaNotObject)
  else match node.get? "$ref", node.get? "allOf", node.get? "oneOf" with
    | some (.str pointer), _, _ => .ok (.reference pointer)
    | some _, _, _ => .error (.unsupported context .referenceNotString)
    | none, some parts, _ => .allOf <$> nonEmptyList context "allOf" parts
    | none, none, some arms => .oneOf <$> nonEmptyList context "oneOf" arms
    | none, none, none => ofPlain context node

def isNull (node : Json) : Bool := node.string "type" == some "null"

/-- The other arm of two where exactly one is null. -/
def nullableArm? : List Json → Option Json
  | [first, second] =>
    match isNull first, isNull second with
    | true, false => some second
    | false, true => some first
    | _, _ => none
  | _ => none

end Schema

end OpenApiServer
