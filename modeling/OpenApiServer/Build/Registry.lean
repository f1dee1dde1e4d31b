import OpenApiServer.Build.EnumBuckets
import OpenApiServer.Declaration.Operation

/-!
# The registry of a build

A registry holds what has been found out while a document is turned into declarations. A name
belongs to the first schema that claims it: claiming it again for an equal schema changes nothing,
and for another schema it fails. Each claim by `register` also queues the schema, and `takePass`
empties the queue.
-/

namespace OpenApiServer

/-- A claimed name with its schema and the place that claimed it. -/
structure Claim where
  name : TypeName
  node : Json
  origin : String

/-- A named schema whose declaration has not been built. -/
structure Pending where
  name : TypeName
  node : Json

structure Registry where
  claims : List Claim
  pending : List Pending
  enums : EnumBuckets
  conversions : List Conversion
  types : List Declaration
  warnings : List String
  fields : List (TypeName × List Field)
  merging : List TypeName

abbrev Build := StateT Registry (Except BuildError)

namespace Registry

def empty : Registry := ⟨[], [], [], [], [], [], [], []⟩

def claim? (r : Registry) (name : TypeName) : Option Claim := r.claims.find? (·.name == name)

def nodeOf? (r : Registry) (name : TypeName) : Option Json := (r.claim? name).map (·.node)

/-- Claims a name for a schema and queues it. -/
def register (r : Registry) (name : TypeName) (node : Json) (origin : String) :
    Except BuildError Registry :=
  match r.claim? name with
  | some claim =>
    if claim.node.same node then .ok r
    else .error (.nameCollision name.text claim.origin origin)
  | none =>
    .ok { r with
      claims := r.claims ++ [⟨name, node, origin⟩]
      pending := r.pending ++ [⟨name, node⟩] }

/-- Claims a name for a declaration that no schema describes. -/
def reserve (r : Registry) (name : TypeName) (node : Json) (origin : String) :
    Except BuildError Registry :=
  match r.claim? name with
  | some claim => .error (.nameCollision name.text claim.origin origin)
  | none => .ok { r with claims := r.claims ++ [⟨name, node, origin⟩] }

/-- Takes what is queued. -/
def takePass (r : Registry) : List Pending × Registry := (r.pending, { r with pending := [] })

def chainText (names : List TypeName) : String := Text.joinWith " -> " (names.map (·.text))

/-- Marks a name as being merged; a name that is being merged cannot be entered again. -/
def enterMerge (r : Registry) (name : TypeName) : Except BuildError Registry :=
  if name ∈ r.merging then .error (.recursiveSchema (chainText (r.merging ++ [name])))
  else .ok { r with merging := r.merging ++ [name] }

def leaveMerge (r : Registry) : Registry := { r with merging := r.merging.dropLast }

def warn (r : Registry) (message : String) : Registry :=
  { r with warnings := r.warnings ++ [message] }

def fieldsOf? (r : Registry) (name : TypeName) : Option (List Field) := r.fields.lookup name

def keepFields (r : Registry) (name : TypeName) (fields : List Field) : Registry :=
  { r with fields := (name, fields) :: r.fields }

end Registry

namespace Build

/-- Runs a step of the registry that can fail. -/
def step (f : Registry → Except BuildError Registry) : Build Unit := fun r => do
  return ((), ← f r)

def fail {α : Type} (e : BuildError) : Build α := throw e

def warn (message : String) : Build Unit := modify (·.warn message)

end Build

end OpenApiServer
