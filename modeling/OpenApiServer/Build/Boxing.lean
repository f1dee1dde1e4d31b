import OpenApiServer.Build.Union

/-!
# Boxes in recursive records

A record that holds itself inline, directly or through other types, has no finite size. A field of
a record is boxed when the type that it holds inline leads back to the record. Lists cut such
chains and so do boxes. What was computed from the fields before is then brought up to date.
-/

namespace OpenApiServer

namespace Declaration

/-- The declared types that a value holds inline. -/
def inlineTargets : Declaration → List TypeName
  | .record decl => decl.fields.filterMap (·.type.inlineTarget?)
  | .union decl => decl.variants.filterMap (·.payload.inlineTarget?)
  | .alias decl => decl.target.inlineTarget?.toList
  | .enum _ => []
  | .response _ => []

end Declaration

namespace Boxing

/-- Pairs of declared types, the first of which holds the second inline. -/
abbrev Edges := List (TypeName × TypeName)

def edges (types : List Declaration) : Edges :=
  types.flatMap fun t => t.inlineTargets.map fun target => (t.name, target)

/-- Adds what the names found so far hold inline. -/
def grow (edges : Edges) (found : List TypeName) : List TypeName :=
  edges.foldl (fun found e =>
    if e.1 ∈ found ∧ e.2 ∉ found then found ++ [e.2] else found) found

/-- The names found in a number of rounds. -/
def reachFrom (edges : Edges) : Nat → List TypeName → List TypeName
  | 0, found => found
  | rounds + 1, found =>
    let next := grow edges found
    if next.length = found.length then found else reachFrom edges rounds next

/-- The names that a chain of edges leads to, the start included. -/
def reachable (edges : Edges) (start : TypeName) : List TypeName :=
  reachFrom edges edges.length [start]

/-- Whether a field of `owner` holds a type inline that leads back to `owner`. -/
def closesCycle (edges : Edges) (owner : TypeName) (field : Field) : Bool :=
  match field.type.inlineTarget? with
  | some target => (reachable edges target).contains owner
  | none => false

def boxField (edges : Edges) (owner : TypeName) (field : Field) : Field :=
  if closesCycle edges owner field then { field with type := field.type.boxInline } else field

def boxDeclaration (edges : Edges) : Declaration → Declaration
  | .record decl =>
    .record { decl with fields := decl.fields.map (boxField edges decl.name) }
  | other => other

def boxedFieldCount (edges : Edges) : Declaration → Nat
  | .record decl => decl.fields.countP (closesCycle edges decl.name)
  | _ => 0

/-! ## Bringing the rest up to date -/

/-- The fields of the declared records. -/
def recordFields (types : List Declaration) : List (TypeName × List Field) :=
  types.filterMap fun
    | .record decl => some (decl.name, decl.fields)
    | _ => none

/-- The field of a record with a given JSON name. -/
def fieldOf? (records : List (TypeName × List Field)) (owner : TypeName) (jsonName : String) :
    Option Field :=
  (records.lookup owner).bind fun fields => fields.find? (·.jsonName == jsonName)

def refreshField (records : List (TypeName × List Field)) (owner : TypeName) (field : Field) :
    Field :=
  (fieldOf? records owner field.jsonName).getD field

def refreshMapping (records : List (TypeName × List Field)) (source target : TypeName)
    (m : FieldMapping) : FieldMapping :=
  ⟨refreshField records target m.field,
    match fieldOf? records source m.field.jsonName with
    | some field => field.fieldType
    | none => m.source⟩

def refreshConversion (records : List (TypeName × List Field)) (c : Conversion) : Conversion :=
  { c with
    copied := c.copied.map (refreshMapping records c.source c.target)
    extras := c.extras.map (refreshField records c.target) }

/-- The fields of a payload that is a record. -/
def fieldsOfPayload? (records : List (TypeName × List Field)) (v : UnionVariant) :
    Option (List Field) :=
  match v.payload with
  | .named payload => records.lookup payload
  | _ => none

def refreshUnion (records : List (TypeName × List Field)) (u : UnionDecl) : UnionDecl :=
  if u.sharedFields.isEmpty then u
  else match u.variants.mapM (fieldsOfPayload? records) with
    | some fields => { u with sharedFields := Build.commonFields fields }
    | none => u

def refreshDeclaration (records : List (TypeName × List Field)) : Declaration → Declaration
  | .union decl => .union (refreshUnion records decl)
  | other => other

/-- What boxing makes of the declared types and the conversions between them. -/
structure Result where
  types : List Declaration
  conversions : List Conversion
  boxedFields : Nat

def box (types : List Declaration) (conversions : List Conversion) : Result :=
  let edges := edges types
  let count := types.foldr (fun t count => boxedFieldCount edges t + count) 0
  let types := types.map (boxDeclaration edges)
  if count = 0 then ⟨types, conversions, 0⟩
  else
    let records := recordFields types
    ⟨types.map (refreshDeclaration records), conversions.map (refreshConversion records), count⟩

end Boxing

end OpenApiServer
