import OpenApiServer.Build.Fields

/-!
# Tagged unions

A `oneOf` becomes a tagged union when every arm is an object of two required properties, one of
them a constant text, the tag. All arms use the same two properties, and no two arms have the same
tag or the same variant name. Where both properties of an arm are constant, the arms before it say
which one is the tag.
-/

namespace OpenApiServer.Build

/-- The properties that hold the tag and the payload. -/
structure UnionLayout where
  tagField : String
  payloadField : String
  deriving DecidableEq, Repr

/-- What is known after some arms. -/
structure UnionDraft where
  layout : Option UnionLayout
  variants : List UnionVariant

/-- The text of a constant, or of an enumeration with one member. -/
def singleLiteral (d : Document) (union : TypeName) (node : Json) :
    Except BuildError (Option String) := do
  let target ← d.dereference node
  match Schema.classify union.text target with
  | .ok (.stringEnum [member] _) => return some member
  | _ => return none

/-- The properties of an arm that are constant texts. -/
def armLiterals (d : Document) (union : TypeName) :
    List (String × Json) → Except BuildError (List (String × String))
  | [] => .ok []
  | (property, node) :: rest => do
    let literal ← singleLiteral d union node
    let literals ← armLiterals d union rest
    return match literal with
      | some text => (property, text) :: literals
      | none => literals

/-- The tag property of an arm and its text. -/
def tagOf (arm : Nat) (layout : Option UnionLayout) (literals : List (String × String)) :
    Except UnionFlaw (String × String) :=
  match literals, layout with
  | [literal], _ => .ok literal
  | [first, second], some expected =>
    match [first, second].find? (·.1 == expected.tagField) with
    | some literal => .ok literal
    | none => .error (.tagPropertyAbsent arm expected.tagField)
  | [], _ => .error (.noTagProperty arm)
  | _, _ => .error (.ambiguousTag arm)

/-- Compares the layout of an arm with that of the arms before it. -/
def agreeOnLayout (arm : Nat) (earlier : Option UnionLayout) (found : UnionLayout) :
    Except UnionFlaw Unit :=
  match earlier with
  | none => .ok ()
  | some expected =>
    if found = expected then .ok ()
    else .error (.layoutDiffers arm found.tagField found.payloadField expected.tagField
      expected.payloadField)

/-- The layout and the tag of an arm with given properties, and the schema of its payload. -/
def readArm (arm : Nat) (draft : UnionDraft) (properties : List (String × Json))
    (literals : List (String × String)) : Except UnionFlaw (UnionLayout × String × Json) := do
  let (tagField, tag) ← tagOf arm draft.layout literals
  match properties.find? (·.1 != tagField) with
  | none => .error (.noPayload arm)
  | some (payloadField, payload) =>
    let layout : UnionLayout := ⟨tagField, payloadField⟩
    agreeOnLayout arm draft.layout layout
    if draft.variants.any (·.tag == tag) then .error (.tagRepeated tag)
    return (layout, tag, payload)

def flawed {α : Type} (union : TypeName) : Except UnionFlaw α → Build α
  | .ok a => pure a
  | .error flaw => fail (.malformedUnion union.text flaw)

/-- Adds the variant of one arm. -/
def addArm (d : Document) (union : TypeName) (draft : UnionDraft) (arm : Nat) (node : Json) :
    Build UnionDraft := do
  match ← Schema.classify union.text (← d.dereference node) with
  | .object properties required =>
    if properties.length != 2 || properties.any fun p => !required.contains p.1 then
      flawed union (.error (.armNotTwoRequired arm))
    let literals ← armLiterals d union properties
    let (layout, tag, payload) ← flawed union (readArm arm draft properties literals)
    let type ← typeOf d payload (.ofFragments [union.text, Name.pascalCase [tag]])
    if draft.variants.any (·.name == type.variantName) then
      flawed union (.error (.variantRepeated type.variantName.text))
    return ⟨some layout, draft.variants ++ [⟨type.variantName, tag, type⟩]⟩
  | _ => flawed union (.error (.armNotObject arm))

def addArms (d : Document) (union : TypeName) (draft : UnionDraft) :
    Nat → List Json → Build UnionDraft
  | _, [] => pure draft
  | arm, node :: rest => do addArms d union (← addArm d union draft arm node) (arm + 1) rest

/-! ## Fields that all payloads share -/

def sameField (a b : Field) : Bool :=
  a.jsonName == b.jsonName && a.name == b.name && a.type == b.type && a.required == b.required

/-- The fields of the first record that all the others have too. -/
def commonFields : List (List Field) → List SharedField
  | [] => []
  | first :: rest =>
    (first.filter fun field => rest.all fun others => others.any (sameField · field)).map
      fun field => ⟨field.name, field.jsonName, field.fieldType⟩

/-- The fields of each payload, when all payloads are records. -/
def payloadFields (d : Document) : List UnionVariant → Build (Option (List (List Field)))
  | [] => pure (some [])
  | v :: rest =>
    match v.payload with
    | .named payload => do
      match ← recordFieldsOfName? d payload with
      | none => return none
      | some fields => return (← payloadFields d rest).map (fields :: ·)
    | _ => pure none

def sharedFields (d : Document) (variants : List UnionVariant) : Build (List SharedField) := do
  return commonFields ((← payloadFields d variants).getD [])

def buildUnion (d : Document) (name : TypeName) (node : Json) (arms : List Json) :
    Build UnionDecl := do
  let draft ← addArms d name ⟨none, []⟩ 0 arms
  match draft.layout with
  | none => flawed name (.error .noArms)
  | some layout =>
    let shared ← sharedFields d draft.variants
    return ⟨name, .ofNode node, layout.tagField, layout.payloadField, draft.variants, shared⟩

end OpenApiServer.Build
