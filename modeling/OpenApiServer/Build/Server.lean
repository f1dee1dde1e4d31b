import OpenApiServer.Build.Boxing
import OpenApiServer.Build.Contents
import OpenApiServer.Build.Conversions
import OpenApiServer.Build.Routes

/-!
# From a document to a server

The named schemas are registered first, then the operations are bound in their order, and then the
queue of schemas without a declaration is worked off in passes: building a declaration can queue
further inline schemas. What only the finished declarations can tell comes last: conversions
between enumerations, boxes in recursive records, and which fields the conversions can copy.
-/

namespace OpenApiServer.Build

/-- What has been built from operations. -/
structure OperationState where
  tables : RouteTables
  usedNames : List String

/-- Binds one operation and declares its responses. -/
def buildOperation (d : Document) (state : OperationState) (e : Endpoint) :
    Build (Operation × ResponseDecl × OperationState) := do
  let template ← PathTemplate.parse e.path
  let name := Name.unique (FieldName.ofText e.operationId).bare state.usedNames
  let (variant, tables) ← state.tables.add e.method template
  let parameters ← bindParameters d name e template
  let body ← bindBody d name e parameters
  let response ← buildResponse d name e
  let operation : Operation :=
    ⟨.ofText name, e.operationId, e.method, e.path, .ofNode e.node, parameters, body,
      response.name, MethodRoutes.enumName e.method, variant⟩
  return (operation, response, ⟨tables, name :: state.usedNames⟩)

def buildOperations (d : Document) :
    OperationState → List Endpoint → Build (List (Operation × ResponseDecl) × RouteTables)
  | state, [] => pure ([], state.tables)
  | state, e :: rest => do
    let (operation, response, state) ← buildOperation d state e
    let (built, tables) ← buildOperations d state rest
    return ((operation, response) :: built, tables)

/-! ## Declarations of queued schemas -/

/-- The name under which an alias looks for its target, so that the target does not claim the name
of the alias. -/
def valueName (name : TypeName) : TypeName := name.extend "Value"

def declareEnum (name : TypeName) (docs : Docs) (members : List String)
    (default : Option String) : Build EnumDecl :=
  modifyGet fun r =>
    let (decl, enums) := r.enums.register name docs members default
    (decl, { r with enums := enums })

/-- Builds the declaration of a queued schema. -/
def declare (d : Document) (p : Pending) : Build Declaration := do
  let docs := Docs.ofNode p.node
  match ← Schema.classify p.name.text p.node with
  | .object _ _ => .record <$> buildRecord d p.name p.node
  | .allOf _ => .record <$> buildRecord d p.name p.node
  | .stringEnum members default => .enum <$> declareEnum p.name docs members default
  | .oneOf arms =>
    match Schema.nullableArm? arms with
    | some arm => return .alias ⟨p.name, docs, (← typeOf d arm (valueName p.name)).optional⟩
    | none => .union <$> buildUnion d p.name p.node arms
  | .reference _ =>
    let _ ← d.dereference p.node
    return .alias ⟨p.name, docs, ← typeOf d p.node (valueName p.name)⟩
  | .primitive _ _ => return .alias ⟨p.name, docs, ← typeOf d p.node (valueName p.name)⟩
  | .array _ => return .alias ⟨p.name, docs, ← typeOf d p.node p.name⟩

def declareAndKeep (d : Document) (p : Pending) : Build Unit := do
  let declaration ← declare d p
  modify fun r => { r with types := r.types ++ [declaration] }

/-- Builds the declarations of everything that is queued. -/
def declarePass (d : Document) : Build Unit := do
  let pass ← modifyGet Registry.takePass
  pass.forM (declareAndKeep d)

end OpenApiServer.Build

namespace OpenApiServer

/-- Works off the queue for as long as it takes. A queue that never empties has no result. -/
def Document.drainOn (d : Document) (r : Registry) : Option (Except BuildError Registry) :=
  if r.pending.isEmpty then some (.ok r)
  else match Build.declarePass d r with
    | .ok ((), next) => d |>.drainOn next
    | .error e => some (.error e)
  partial_fixpoint

end OpenApiServer

namespace OpenApiServer.Build

/-- Works off the queue. The given number of passes can be computed, and those after them have no
bound. -/
def drainFrom (d : Document) : Nat → Build Unit
  | 0 => step fun r =>
    (d.drainOn r).getD (.error (.recursiveSchema (Registry.chainText (r.pending.map (·.name)))))
  | passes + 1 => do
    if (← get).pending.isEmpty then return
    declarePass d
    drainFrom d passes

/-- More passes than a document of this size needs, unless a schema of it contains itself. -/
def passLimit (d : Document) : Nat := (d.root.size + 2) * (d.root.size + 2)

/-- Works off the queue. -/
def drain (d : Document) : Build Unit := drainFrom d (passLimit d)

/-- Registers the named schemas. -/
def registerSchemas (d : Document) : Build Unit :=
  d.schemas.forM fun (name, node) =>
    step (·.register (.ofText name) node (Pointer.schemaRoot ++ name))

/-- Puts the server together from what has been built. -/
def finish (basePath : String) (r : Registry) (built : List (Operation × ResponseDecl))
    (tables : RouteTables) : ServerModel :=
  let enums := r.enums.conversions
  let boxed := Boxing.box r.types r.conversions
  let known := enums.map fun c => (c.source, c.target)
  { types := boxed.types ++ built.map (.response ·.2)
    enumConversions := enums
    conversions := Conversion.settle known boxed.conversions
    operations := built.map (·.1)
    routeTables := tables.map (·.table basePath)
    warnings := r.warnings
    boxedFields := boxed.boxedFields }

def buildServer (d : Document) (basePath : String) : Build ServerModel := do
  registerSchemas d
  let (built, tables) ← buildOperations d ⟨[], []⟩ d.endpoints
  drain d
  return finish basePath (← get) built tables

end OpenApiServer.Build

namespace OpenApiServer

/-- The server that a document describes, its routes under a base path. -/
def Document.server (d : Document) (basePath : String) : Except BuildError ServerModel :=
  (Build.buildServer d basePath).run' Registry.empty

end OpenApiServer
