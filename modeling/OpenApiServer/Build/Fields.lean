import OpenApiServer.Build.Registry
import OpenApiServer.Schema.Basic

/-!
# Types of schemas

The type of a place that holds a schema. A reference to a named schema is its name and is not
followed; any other reference is followed. Objects, merged schemas, enumerations and unions that
stand inline get a declaration of their own under a suggested name.
-/

namespace OpenApiServer.Build

def primitiveType (context : String) (kind : PrimitiveKind) (format : Option String) :
    Except BuildError TypeExpr :=
  match kind with
  | .string => .ok (.primitive .string)
  | .number => .ok (.primitive .f64)
  | .boolean => .ok (.primitive .bool)
  | .integer =>
    match Primitive.ofIntegerFormat? format with
    | some p => .ok (.primitive p)
    | none => .error (.unsupportedFormat context (format.getD ""))
  | .null => .error (.unsupported context .lonelyNull)

/-- Registers an inline schema under a suggested name. -/
def inlineType (node : Json) (suggested : TypeName) : Build TypeExpr := do
  step (·.register suggested node suggested.text)
  return .named suggested

/-- The type of a schema, after a bounded number of steps through arrays and references. -/
def typeFrom (d : Document) : Nat → Json → TypeName → Build TypeExpr
  | 0, _, suggested => fail (.recursiveSchema suggested.text)
  | steps + 1, node, suggested => do
    match ← Schema.classify suggested.text node with
    | .reference pointer =>
      match Pointer.schemaName? pointer with
      | some name =>
        let _ ← d.resolve pointer
        return .named (.ofText name)
      | none =>
        let _ ← d.dereference node
        typeFrom d steps (← d.resolve pointer) suggested
    | .primitive kind format => primitiveType suggested.text kind format
    | .array items => return .list (← typeFrom d steps items (suggested.extend "Item"))
    | .oneOf arms =>
      match Schema.nullableArm? arms with
      | some arm => return (← typeFrom d steps arm suggested).optional
      | none => inlineType node suggested
    | .object _ _ => inlineType node suggested
    | .allOf _ => inlineType node suggested
    | .stringEnum _ _ => inlineType node suggested

/-- The type of a schema of the document. A path through arrays and references that meets no node
twice is no longer than the document has values. -/
def typeOf (d : Document) (node : Json) (suggested : TypeName) : Build TypeExpr :=
  typeFrom d (d.root.size + 1) node suggested

end OpenApiServer.Build

/-!
## Fields of records

The fields of an object schema, and of a schema that merges parts. Of a property that several parts
declare the first declaration counts, and it is required as soon as one of the parts that declare
it requires it. Field names that fall together get a number.
-/

namespace OpenApiServer.Build

/-- One field for each property; an inline property is named after its owner. -/
def objectField (d : Document) (owner : TypeName) (required : List String)
    (property : String × Json) : Build Field := do
  let suggested := TypeName.ofFragments [owner.text, Name.pascalCase [property.1]]
  let type ← typeOf d property.2 suggested
  return ⟨.ofText property.1, property.1, type, required.contains property.1, .ofNode property.2⟩

def objectFields (d : Document) (owner : TypeName) (properties : List (String × Json))
    (required : List String) : Build (List Field) :=
  properties.mapM (objectField d owner required)

/-- Gives fields distinct names, given the names that are taken. -/
def distinctNamesFrom (used : List String) : List Field → List Field
  | [] => []
  | f :: rest =>
    let name := if f.name.bare ∈ used then f.name.uniqueAmong used else f.name
    { f with name := name } :: distinctNamesFrom (name.bare :: used) rest

def distinctNames (fields : List Field) : List Field := distinctNamesFrom [] fields

/-- Adds a field to merged fields, or its requirement to the field of the same property. -/
def absorbField (field : Field) : List Field → List Field
  | [] => [field]
  | f :: rest =>
    if f.jsonName = field.jsonName then { f with required := f.required || field.required } :: rest
    else f :: absorbField field rest

def absorb (merged fields : List Field) : List Field :=
  fields.foldl (fun merged field => absorbField field merged) merged

/-- Follows references from a fragment; the last named schema on the way is the component that the
fragment stands for. -/
def componentFrom (d : Document) (context : String) :
    Nat → Option TypeName → Json → Except BuildError (Option TypeName × Json)
  | 0, component, node => .ok (component, node)
  | steps + 1, component, node => do
    match ← Schema.classify context node with
    | .reference pointer =>
      let component := match Pointer.schemaName? pointer with
        | some name => some (TypeName.ofText name)
        | none => component
      componentFrom d context steps component (← d.resolve pointer)
    | _ => return (component, node)

/-- The component that a fragment refers to, with the schema that declares its properties. -/
def fragmentComponent (d : Document) (owner : TypeName) (fragment : Json) :
    Except BuildError (Option (TypeName × Json)) := do
  let _ ← d.dereference fragment
  let (component, node) ← componentFrom d owner.text (d.root.size + 2) none fragment
  return component.map fun name => (name, node)

mutual

/-- The fields of a named record, computed once for each name. -/
def recordFieldsFrom (d : Document) : Nat → TypeName → Json → Build (List Field)
  | 0, name, _ => fail (.recursiveSchema name.text)
  | depth + 1, name, node => do
    match (← get).fieldsOf? name with
    | some fields => return fields
    | none =>
      let fields ← match ← Schema.classify name.text node with
        | .object properties required => objectFields d name properties required
        | .allOf parts => do
          step (·.enterMerge name)
          let merged ← parts.foldlM (mergeFragmentFrom d depth name) []
          modify Registry.leaveMerge
          pure merged
        | _ => fail (.unsupported name.text .notMergeable)
      let fields := distinctNames fields
      modify (·.keepFields name fields)
      return fields

/-- Merges the fields of one fragment. -/
def mergeFragmentFrom (d : Document) : Nat → TypeName → List Field → Json → Build (List Field)
  | 0, owner, _, _ => fail (.recursiveSchema owner.text)
  | depth + 1, owner, merged, fragment => do
    match ← fragmentComponent d owner fragment with
    | some (component, node) => return absorb merged (← recordFieldsFrom d depth component node)
    | none =>
      match ← Schema.classify owner.text (← d.dereference fragment) with
      | .object properties required =>
        return absorb merged (← objectFields d owner properties required)
      | .allOf parts => parts.foldlM (mergeFragmentFrom d depth owner) merged
      | _ => fail (.unsupported owner.text .fragmentNotObject)

end

/-- How deep merges can nest: no name is merged inside itself, and between two names no part is
met twice. -/
def mergeDepth (d : Document) : Nat := (d.root.size + 2) * (d.root.size + 2)

def recordFields (d : Document) (name : TypeName) (node : Json) : Build (List Field) :=
  recordFieldsFrom d (mergeDepth d) name node

/-- The fields of a claimed name, when its schema is a record. -/
def recordFieldsOfName? (d : Document) (name : TypeName) : Build (Option (List Field)) := do
  match (← get).nodeOf? name with
  | none => return none
  | some node =>
    match ← Schema.classify name.text node with
    | .object _ _ => some <$> recordFields d name node
    | .allOf _ => some <$> recordFields d name node
    | _ => return none

/-! ## Conversions from parts -/

/-- The components that parts refer to, nested parts included, each once. -/
def sourcesFrom (d : Document) (owner : TypeName) :
    Nat → List (TypeName × Json) → Json → Except BuildError (List (TypeName × Json))
  | 0, _, _ => .error (.recursiveSchema owner.text)
  | depth + 1, sources, part => do
    match ← fragmentComponent d owner part with
    | some (component, node) =>
      return if sources.any (·.1 == component) then sources else sources ++ [(component, node)]
    | none =>
      match ← Schema.classify owner.text (← d.dereference part) with
      | .allOf parts => parts.foldlM (sourcesFrom d owner depth) sources
      | _ => return sources

/-- Splits the fields of a merged record into those that a part declares and the others. -/
def splitFields (target source : List Field) : List FieldMapping × List Field :=
  (target.filterMap fun field =>
      (source.find? (·.jsonName == field.jsonName)).map fun «from» => ⟨field, «from».fieldType⟩,
    target.filter fun field => !source.any (·.jsonName == field.jsonName))

/-- Records the conversion from one part into the merged record `name`. -/
def recordConversion (d : Document) (name : TypeName) (fields : List Field)
    (source : TypeName × Json) : Build Unit := do
  let known := (← get).conversions.any fun c => c.source == source.1 && c.target == name
  if source.1 != name && !known then
    let (copied, extras) := splitFields fields (← recordFields d source.1 source.2)
    modify fun r => { r with conversions := r.conversions ++ [⟨source.1, name, copied, extras⟩] }

/-- Records one conversion for each component that the parts of `name` refer to. -/
def recordConversions (d : Document) (name : TypeName) (parts : List Json)
    (fields : List Field) : Build Unit := do
  let sources ← liftM (parts.foldlM (sourcesFrom d name (mergeDepth d)) [])
  sources.forM (recordConversion d name fields)

/-- The record of an object or merged schema. -/
def buildRecord (d : Document) (name : TypeName) (node : Json) : Build RecordDecl := do
  let fields ← recordFields d name node
  match ← Schema.classify name.text node with
  | .allOf parts => recordConversions d name parts fields
  | _ => pure ()
  return ⟨name, .ofNode node, fields⟩

end OpenApiServer.Build
