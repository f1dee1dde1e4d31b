import OpenApiServer.Http.Query

/-!
# Routers

A router is a trie over the segments of path templates. A segment is a fixed text or a placeholder
in braces, and a route keeps the names of its own placeholders. A lookup prefers the fixed text to
the placeholder at each segment and comes back to the placeholder when the fixed text leads to no
route. `normalizePath` gives the one spelling of a path that all its slash variants share.
-/

namespace OpenApiServer.Http

/-- A path with single slashes, one at its start, and none at its end unless it is the root. -/
def normalizeChars (cs : List Char) : List Char :=
  let collapsed := collapse true cs
  '/' :: (if collapsed.getLast? = some '/' then collapsed.dropLast else collapsed)
where
  /-- Drops the slashes that follow a slash. -/
  collapse (afterSlash : Bool) : List Char → List Char
    | [] => []
    | c :: rest =>
      if c = '/' then if afterSlash then collapse true rest else '/' :: collapse true rest
      else c :: collapse false rest

def normalizePath (path : String) : String := String.ofList (normalizeChars path.toList)

/-- The segments of a path: the texts between slashes that are not empty. -/
def pathSegments (path : String) : List (List Char) :=
  (Text.splitOn '/' (normalizeChars path.toList)).filter (!·.isEmpty)

inductive Segment where
  | fixed (text : String)
  | placeholder (name : String)
  deriving DecidableEq, Repr

def isBrace (c : Char) : Bool := c == '\x7b' || c == '\x7d'

/-- A segment in braces names a placeholder; elsewhere no brace is allowed. -/
def Segment.ofText? (cs : List Char) : Option Segment :=
  match (Text.dropStart? ['\x7b'] cs).bind (Text.dropEnd? ['\x7d']) with
  | some name =>
    if name.isEmpty || name.any isBrace then none else some (.placeholder (String.ofList name))
  | none => if cs.any isBrace then none else some (.fixed (String.ofList cs))

inductive InsertError where
  | duplicate (template : String)
  | malformedSegment (template segment : String)
  deriving DecidableEq, Repr

def InsertError.message : InsertError → String
  | .duplicate template => "route `" ++ template ++ "` is already registered"
  | .malformedSegment template segment =>
    "route `" ++ template ++ "` has a malformed segment `" ++ segment ++ "`"

/-- The segments of a template, or its first malformed segment. -/
def parseTemplate (template : String) : Except InsertError (List Segment) :=
  (pathSegments template).mapM fun cs =>
    match Segment.ofText? cs with
    | some segment => .ok segment
    | none => .error (.malformedSegment template (String.ofList cs))

structure Route (α : Type) where
  names : List String
  value : α

inductive Node (α : Type) where
  | mk (route : Option (Route α)) (fixed : List (String × Node α)) (placeholder : Option (Node α))

namespace Node
variable {α : Type}

def empty : Node α := .mk none [] none

def route : Node α → Option (Route α)
  | .mk r _ _ => r

def fixedChild? (node : Node α) (text : String) : Option (Node α) :=
  match node with
  | .mk _ fixed _ => fieldNamed? text fixed

def placeholderChild? : Node α → Option (Node α)
  | .mk _ _ p => p

def setFixedChild (node : Node α) (text : String) (child : Node α) : Node α :=
  match node with
  | .mk r fixed p => .mk r (insertField text child fixed) p

def setPlaceholderChild (node : Node α) (child : Node α) : Node α :=
  match node with
  | .mk r fixed _ => .mk r fixed (some child)

/-- Opens the nodes along the segments and puts the route at their end, unless one is there. Gives
the node that is left in either case, and whether the route was put. -/
def insert (r : Route α) : List Segment → Node α → Node α × Bool
  | [], .mk none fixed p => (.mk (some r) fixed p, true)
  | [], .mk (some old) fixed p => (.mk (some old) fixed p, false)
  | .fixed text :: rest, node =>
    let (child, placed) := insert r rest ((node.fixedChild? text).getD empty)
    (node.setFixedChild text child, placed)
  | .placeholder _ :: rest, node =>
    let (child, placed) := insert r rest (node.placeholderChild?.getD empty)
    (node.setPlaceholderChild child, placed)

/-- Searches for the route of a path. The buffer holds the texts of the segments that placeholders
have taken; a search below a placeholder that finds nothing cuts the buffer back. -/
def search : List (List Char) → Node α → List String → Option (Route α) × List String
  | [], node, captured => (node.route, captured)
  | segment :: rest, node, captured =>
    let viaFixed := match node.fixedChild? (String.ofList segment) with
      | some child => search rest child captured
      | none => (none, captured)
    match viaFixed with
    | (some r, captured) => (some r, captured)
    | (none, captured) =>
      match node.placeholderChild? with
      | none => (none, captured)
      | some child =>
        match search rest child (captured ++ [percentDecode segment]) with
        | (some r, captured) => (some r, captured)
        | (none, left) => (none, left.take captured.length)

end Node

structure Router (α : Type) where
  root : Node α

/-- What a lookup gives: the value of the route, and its placeholders with their texts. -/
structure RouteMatch (α : Type) where
  value : α
  params : List (String × String)
  deriving Repr

namespace Router
variable {α : Type}

def empty : Router α := ⟨Node.empty⟩

/-- The names of the placeholders of a template. -/
def placeholderNames (segments : List Segment) : List String :=
  segments.filterMap fun
    | .placeholder name => some name
    | .fixed _ => none

/-- The router that an insertion leaves, and what went wrong. -/
def tryInsert (router : Router α) (template : String) (value : α) :
    Router α × Option InsertError :=
  match parseTemplate template with
  | .error e => (router, some e)
  | .ok segments =>
    let (root, placed) := router.root.insert ⟨placeholderNames segments, value⟩ segments
    (⟨root⟩, if placed then none else some (.duplicate template))

def insert (router : Router α) (template : String) (value : α) : Except InsertError (Router α) :=
  match router.tryInsert template value with
  | (router, none) => .ok router
  | (_, some e) => .error e

/-- The router after an insertion that may have failed. -/
def afterInsert (router : Router α) (template : String) (value : α) : Router α :=
  (router.tryInsert template value).1

def at? (router : Router α) (path : String) : Option (RouteMatch α) :=
  match router.root.search (pathSegments path) [] with
  | (some r, captured) => some ⟨r.value, r.names.zip captured⟩
  | (none, _) => none

/-- The router that insertions in a row leave, whether they failed or not. -/
def ofRoutes (routes : List (String × α)) : Router α :=
  routes.foldl (fun router (template, value) => router.afterInsert template value) empty

end Router

end OpenApiServer.Http
