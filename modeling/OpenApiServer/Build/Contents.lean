import OpenApiServer.Build.Parameters
import OpenApiServer.Http.MediaType

/-!
# Bodies and responses of operations

A body or a response is JSON when one of its JSON media types has a schema, and the first such
schema counts; any other content is raw bytes. An operation declares at least one response, and
each is declared under a status code or as the default.
-/

namespace OpenApiServer.Build

/-- The content of a body or a response, unless it is empty. -/
def contentOf? (node : Json) : Option (List (String × Json)) :=
  match node.get? "content" with
  | some (.obj (media :: rest)) => some (media :: rest)
  | _ => none

/-- The schema of the first JSON media type that has one. -/
def jsonSchema? (content : List (String × Json)) : Option Json :=
  (content.filter fun media => Http.isJsonContent media.1).findSome? (·.2.get? "schema")

def bodyKind (d : Document) (operation : String) (node : Json) (content : List (String × Json)) :
    Build BodyKind := do
  match jsonSchema? content with
  | some schema =>
    let type ← typeOf d schema (.ofFragments [operation, "Body"])
    return .json type (((node.get? "required").bind Json.asBool?).getD false)
  | none => return .raw

/-- The body of an operation, named apart from its parameters. -/
def bindBody (d : Document) (operation : String) (e : Endpoint) (parameters : List Parameter) :
    Build (Option RequestBody) := do
  match e.node.get? "requestBody" with
  | none => return none
  | some declared =>
    let node ← d.dereference declared
    match contentOf? node with
    | none =>
      warn (e.context ++ ": request body declares no content and is ignored")
      return none
    | some content =>
      let kind ← bodyKind d operation node content
      return some ⟨(freshArgument "body" (parameters.map (·.name.bare))).1, kind⟩

/-- The status of a response key, none for the default response. -/
def responseStatus (context key : String) : Except BuildError (Option Nat) :=
  if key = "default" then .ok none
  else match Http.Scalar.parseInteger .u16 key.toList with
    | .ok code =>
      if 100 ≤ code ∧ code ≤ 599 then .ok (some code.toNat)
      else .error (.unsupported context (.responseKey key))
    | .error _ => .error (.unsupported context (.responseKey key))

def responsePayload (d : Document) (operation key : String) (node : Json) :
    Build (Option Payload) := do
  match contentOf? node with
  | none => return none
  | some content =>
    match jsonSchema? content with
    | some schema =>
      let type ← typeOf d schema (.ofFragments [operation, Name.pascalCase [key], "Body"])
      return some (.json type)
    | none => return some .bytes

def responseVariant (d : Document) (operation context : String) (declared : String × Json) :
    Build ResponseVariant := do
  let status ← responseStatus context declared.1
  let name : TypeName := match status with
    | some code => ⟨"Http" ++ toString code⟩
    | none => ⟨"Default"⟩
  let node ← d.dereference declared.2
  let payload ← responsePayload d operation declared.1 node
  return ⟨name, status, .ofNode node, payload⟩

/-- The responses of an operation, under a name that no schema can claim any more. -/
def buildResponse (d : Document) (operation : String) (e : Endpoint) : Build ResponseDecl := do
  let name := TypeName.ofFragments [operation, "Response"]
  step (·.reserve name e.node e.context)
  match e.node.get? "responses" with
  | some (.obj (first :: rest)) =>
    let variants ← (first :: rest).mapM (responseVariant d operation e.context)
    return ⟨name, ⟨["Responses of `" ++ e.context ++ "`."]⟩, variants⟩
  | _ => fail (.unsupported e.context .noResponses)

end OpenApiServer.Build
