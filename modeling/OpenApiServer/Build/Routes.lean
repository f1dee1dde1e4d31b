import OpenApiServer.Declaration.Operation
import OpenApiServer.Document.PathTemplate

/-!
# Route tables

The routes of each method, in the order in which methods and templates were first met. A template
that a table already has keeps its variant. Two templates that match the same paths cannot share a
table. The pattern of a route is the base path followed by its template.
-/

namespace OpenApiServer

/-- A template with the variant that stands for it. -/
structure Route where
  variant : TypeName
  template : PathTemplate

/-- The routes of one method. -/
structure MethodRoutes where
  method : Method
  routes : List Route

abbrev RouteTables := List MethodRoutes

namespace MethodRoutes

/-- The name of the enumeration of paths. -/
def enumName (method : Method) : TypeName := .ofFragments [method.key, "Path"]

def staticName (method : Method) : String := constantName (method.key ++ "_routes")

/-- The name of a variant before it is made unique. -/
def variantBase (template : PathTemplate) : String :=
  let name := Name.pascalCase [template.text]
  if name = "" then "Root" else (TypeName.ofText name).text

/-- Adds a template, unless it is there, and finds its variant. -/
def add (m : MethodRoutes) (template : PathTemplate) :
    Except BuildError (TypeName × MethodRoutes) :=
  match m.routes.find? (·.template.text == template.text) with
  | some route => .ok (route.variant, m)
  | none =>
    match m.routes.find? (·.template.shape == template.shape) with
    | some route =>
      .error (.invalidPath template.text (.conflict route.template.text m.method.name))
    | none =>
      let used := m.routes.map (·.variant.text)
      let variant : TypeName := ⟨Name.unique (variantBase template) used⟩
      .ok (variant, { m with routes := m.routes ++ [⟨variant, template⟩] })

def table (basePath : String) (m : MethodRoutes) : RouteTable :=
  ⟨m.method, enumName m.method, staticName m.method,
    m.routes.map fun r => ⟨r.variant, basePath ++ r.template.text⟩⟩

end MethodRoutes

namespace RouteTables

/-- Adds a template to the table of a method and finds its variant. -/
def add (method : Method) (template : PathTemplate) :
    RouteTables → Except BuildError (TypeName × RouteTables)
  | [] => do
    let (variant, m) ← MethodRoutes.add ⟨method, []⟩ template
    return (variant, [m])
  | m :: rest => do
    if m.method = method then
      let (variant, m) ← m.add template
      return (variant, m :: rest)
    else
      let (variant, rest) ← add method template rest
      return (variant, m :: rest)

end RouteTables

end OpenApiServer
