import OpenApiServer.Build.Fields
import OpenApiServer.Document.PathTemplate

/-!
# Parameters of operations

An operation inherits the parameters of its path and replaces those that it declares again. Header
and cookie parameters are left out with a warning, and so is a path parameter that the template
does not have. A placeholder that nothing declares is bound as a text. What is bound is a scalar,
an enumeration, or in a query a list of them.
-/

namespace OpenApiServer.Build

/-- A parameter as it is declared, its references followed. -/
structure DeclaredParameter where
  name : String
  location : String
  node : Json

/-- The declared parameters of a path or an operation. -/
def parameterNodes (context : String) (owner : Json) : Except BuildError (List Json) :=
  match owner.get? "parameters" with
  | none => .ok []
  | some (.arr nodes) => .ok nodes
  | some _ => .error (.unsupported context .parametersNotList)

def declaredParameter (d : Document) (context : String) (node : Json) :
    Except BuildError DeclaredParameter := do
  let node ← d.dereference node
  match node.string "name", node.string "in" with
  | some name, some location => return ⟨name, location, node⟩
  | _, _ => .error (.unsupported context .parameterIncomplete)

/-- Adds a parameter in the place of one with the same name and location, or at the end. -/
def overrideParameter (p : DeclaredParameter) : List DeclaredParameter → List DeclaredParameter
  | [] => [p]
  | q :: rest =>
    if q.location = p.location ∧ q.name = p.name then p :: rest
    else q :: overrideParameter p rest

/-- Merges the parameters that a path or an operation declares into those before it. -/
def mergeParameters (d : Document) (context : String) (merged : List DeclaredParameter)
    (owner : Json) : Except BuildError (List DeclaredParameter) := do
  let nodes ← parameterNodes context owner
  nodes.foldlM (fun merged node => do
    return overrideParameter (← declaredParameter d context node) merged) merged

/-- The parameters of an operation: those of its path first. -/
def declaredParameters (d : Document) (e : Endpoint) : Except BuildError (List DeclaredParameter) :=
  [e.pathItem, e.node].foldlM (mergeParameters d e.context) []

/-- An argument name that is not used yet, and the used names with it. -/
def freshArgument (raw : String) (used : List String) : FieldName × List String :=
  let name := Name.unique (FieldName.ofText raw).bare used
  (.ofText name, name :: used)

/-- How a list is written in a query: repeated keys, or commas where `explode` is false. -/
def listStyle (context : String) (node : Json) : Except BuildError ParameterStyle :=
  let style := (node.string "style").getD "form"
  let explode := ((node.get? "explode").bind Json.asBool?).getD (style == "form")
  if style != "form" then .error (.unsupported context (.arrayStyle style))
  else .ok (if explode then .repeated else .delimited)

/-- Whether a value of the type can be parsed from a text. -/
def isFromText (d : Document) (type : TypeExpr) : Build Bool :=
  match type with
  | .primitive _ => pure type.isScalar
  | .named name => do
    match (← get).nodeOf? name with
    | none => return false
    | some node =>
      match ← Schema.classify name.text (← d.dereference node) with
      | .stringEnum _ _ => return true
      | .primitive kind _ => return kind != .null
      | _ => return false
  | _ => pure false

/-- The type of a parameter; without a schema it is a text. -/
def parameterType (d : Document) (operation context : String) (p : DeclaredParameter) :
    Build TypeExpr := do
  match p.node.get? "schema" with
  | some schema =>
    typeOf d schema (.ofFragments [operation, Name.pascalCase [p.name]])
  | none =>
    warn (context ++ ": no schema, binding it as a string")
    return .primitive .string

/-- The style of a parameter and the type of one element. -/
def elementOf (context : String) (p : DeclaredParameter) (location : ParameterLocation)
    (type : TypeExpr) : Except BuildError (ParameterStyle × TypeExpr) :=
  match type.withoutOption with
  | .list item =>
    if location = .path then .error (.unsupported context .arrayInPath)
    else do return (← listStyle context p.node, item.withoutOption)
  | other => .ok (.single, other)

def bindParameter (d : Document) (operation : String) (e : Endpoint) (p : DeclaredParameter)
    (location : ParameterLocation) (used : List String) : Build (Parameter × List String) := do
  let context := e.context ++ " parameter `" ++ p.name ++ "`"
  let type ← parameterType d operation context p
  let (style, element) ← elementOf context p location type
  if !(← isFromText d element) then fail (.unsupported context (.notFromText element.text))
  let required := location == .path || ((p.node.get? "required").bind Json.asBool?).getD false
  let (name, used) := freshArgument p.name used
  return (⟨name, p.name, location, required, element, style, .ofNode p.node⟩, used)

/-- The location of a parameter that is to be bound; none for one that is left out. -/
def boundLocation (e : Endpoint) (template : PathTemplate) (p : DeclaredParameter) :
    Build (Option ParameterLocation) := do
  match p.location with
  | "path" =>
    if template.params.contains p.name then return some .path
    warn (e.context ++ ": path parameter `" ++ p.name ++ "` does not appear in the template")
    return none
  | "query" => return some .query
  | "header" | "cookie" =>
    warn (e.context ++ ": " ++ p.location ++ " parameter `" ++ p.name ++ "` is not bound")
    return none
  | other => fail (.unsupported e.context (.parameterLocation other))

def bindDeclared (d : Document) (operation : String) (e : Endpoint) (template : PathTemplate) :
    List String → List DeclaredParameter → Build (List Parameter × List String)
  | used, [] => pure ([], used)
  | used, p :: rest => do
    match ← boundLocation e template p with
    | none => bindDeclared d operation e template used rest
    | some location =>
      let (parameter, used) ← bindParameter d operation e p location used
      let (parameters, used) ← bindDeclared d operation e template used rest
      return (parameter :: parameters, used)

/-- Binds placeholders as texts. -/
def bindUndeclared (e : Endpoint) : List String → List String → Build (List Parameter)
  | _, [] => pure []
  | used, placeholder :: rest => do
    warn (e.context ++ ": placeholder `\x7b" ++ placeholder ++
      "\x7d` is undeclared, binding it as a string")
    let (name, used) := freshArgument placeholder used
    return ⟨name, placeholder, .path, true, .primitive .string, .single, .empty⟩ ::
      (← bindUndeclared e used rest)

def bindParameters (d : Document) (operation : String) (e : Endpoint) (template : PathTemplate) :
    Build (List Parameter) := do
  let (bound, used) ← bindDeclared d operation e template [] (← declaredParameters d e)
  let declared := (bound.filter (·.location == .path)).map (·.wireName)
  let rest ← bindUndeclared e used (template.params.filter (!declared.contains ·))
  return bound ++ rest

end OpenApiServer.Build
