import OpenApiServer.BuildError
import OpenApiServer.Document.BasePath
import OpenApiServer.Name.Identifier
import OpenApiServer.Json.Basic
import OpenApiServer.Http.Scalar
import OpenApiServer.Text.Basic

/-!
# JSON pointers

A local pointer is `#` followed by segments, each after a slash. In a segment `~1` stands for a
slash and `~0` for a tilde; they are undone in that order. A segment is a key of an object or an
index of a list.
-/

namespace OpenApiServer.Pointer

def unescape (cs : List Char) : String :=
  String.ofList (Text.replacePair '~' '0' ['~'] (Text.replacePair '~' '1' ['/'] cs))

def escapeChar (c : Char) : List Char :=
  if c = '~' then ['~', '0'] else if c = '/' then ['~', '1'] else [c]

/-- The segment that stands for a key. -/
def escape (key : String) : List Char := key.toList.flatMap escapeChar

/-- The index that a key stands for: digits, with a plus sign before them or not. -/
def index? (key : String) : Option Nat :=
  (Http.Scalar.parseInteger .u64 key.toList).toOption.map Int.toNat

/-- One step into a value. -/
def step (current : Json) (key : String) : Option Json :=
  match current with
  | .obj fields => fieldNamed? key fields
  | .arr items => (index? key).bind (items[·]?)
  | _ => none

/-- The value that a list of keys leads to. -/
def follow (current : Json) : List String → Option Json
  | [] => some current
  | key :: rest => (step current key).bind (follow · rest)

/-- The keys of a local pointer. -/
def keys? (pointer : String) : Option (List String) :=
  match pointer.toList with
  | ['#'] => some []
  | '#' :: '/' :: path => some ((Text.splitOn '/' path).map unescape)
  | _ => none

/-- The value that a pointer names in a document. -/
def resolve? (root : Json) (pointer : String) : Option Json :=
  (keys? pointer).bind (follow root)

/-- Where the schemas of a document are. -/
def schemaRoot : String := "#/components/schemas/"

/-- The name of the schema that a pointer names. -/
def schemaName? (pointer : String) : Option String :=
  match Text.dropStart? schemaRoot.toList pointer.toList with
  | some name => if name.isEmpty || name.contains '/' then none else some (unescape name)
  | none => none

end OpenApiServer.Pointer

/-!
## API documents

A document is a JSON object whose `paths` and `components.schemas`, if they are there, are objects.
`endpoints` lists its operations: paths as they are declared, and for each path the methods in a
fixed order. `dereference` follows references until it meets a node that is none, and refuses a
pointer that it meets twice.
-/

namespace OpenApiServer

inductive Method where
  | get
  | put
  | post
  | delete
  | options
  | head
  | patch
  | trace
  deriving DecidableEq, Repr

namespace Method

def all : List Method := [.get, .put, .post, .delete, .options, .head, .patch, .trace]

/-- The key of the method in a path item. -/
def key : Method → String
  | .get => "get"
  | .put => "put"
  | .post => "post"
  | .delete => "delete"
  | .options => "options"
  | .head => "head"
  | .patch => "patch"
  | .trace => "trace"

def name (m : Method) : String := Text.upper m.key

end Method

structure Document where
  root : Json

/-- An operation as a document declares it. -/
structure Endpoint where
  path : String
  method : Method
  node : Json
  pathItem : Json

namespace Endpoint

/-- The declared operation id, or one made of method and path. -/
def operationId (e : Endpoint) : String :=
  (e.node.string "operationId").getD (Name.pascalCase [e.method.key, e.path])

/-- The place of the operation in messages. -/
def context (e : Endpoint) : String := e.method.name ++ " " ++ e.path

end Endpoint

namespace Document

def isOtherThanObject (j : Option Json) : Bool :=
  match j with
  | some (.obj _) => false
  | some _ => true
  | none => false

def ofJson (root : Json) : Except BuildError Document :=
  if !root.isObject then .error (.invalidDocument .rootNotObject)
  else if isOtherThanObject (root.get? "paths") then .error (.invalidDocument .pathsNotObject)
  else if isOtherThanObject (Pointer.follow root ["components", "schemas"]) then
    .error (.invalidDocument .schemasNotObject)
  else .ok ⟨root⟩

def title? (d : Document) : Option String := (d.root.getPath? ["info", "title"]).bind Json.asString?

def version? (d : Document) : Option String :=
  (d.root.getPath? ["info", "version"]).bind Json.asString?

/-- The path of the first server. -/
def basePath (d : Document) : String :=
  match Pointer.follow d.root ["servers", "0"] with
  | some server => BasePath.ofServer server
  | none => ""

/-- The named schemas in their order. -/
def schemas (d : Document) : List (String × Json) :=
  ((d.root.getPath? ["components", "schemas"]).bind Json.asObject?).getD []

def endpointsOf (path : String) (item : Json) : List Endpoint :=
  Method.all.filterMap fun method =>
    match item.get? method.key with
    | some node => if node.isObject then some ⟨path, method, node, item⟩ else none
    | none => none

def endpoints (d : Document) : List Endpoint :=
  (((d.root.get? "paths").bind Json.asObject?).getD []).flatMap fun (path, item) =>
    endpointsOf path item

/-! ## References -/

/-- The pointer of a reference node. -/
def reference? (node : Json) : Option String := node.string "$ref"

def resolve (d : Document) (pointer : String) : Except BuildError Json :=
  match Pointer.resolve? d.root pointer with
  | some node => .ok node
  | none => .error (.unresolvedReference pointer)

/-- Follows references for a number of steps; `visited` holds the pointers met so far. -/
def dereferenceFrom (d : Document) : Nat → List String → Json → Except BuildError Json
  | steps, visited, node =>
    match reference? node with
    | none => .ok node
    | some pointer =>
      if pointer ∈ visited then .error (.recursiveSchema pointer)
      else match steps with
        | 0 => .error (.recursiveSchema pointer)
        | steps + 1 => do
          let target ← d.resolve pointer
          dereferenceFrom d steps (pointer :: visited) target

/-- The node at the end of a chain of references. A chain without repetition is at most as long as
the document has values, and one step more. -/
def dereference (d : Document) (node : Json) : Except BuildError Json :=
  dereferenceFrom d (d.root.size + 1) [] node

end Document

end OpenApiServer
