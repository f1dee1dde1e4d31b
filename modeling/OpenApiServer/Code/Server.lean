import OpenApiServer.Code.Types

/-!
# Code of the server

The items of the file of the server: a routing table for each method, the interface with one method
for each operation, the rendering of responses, and the dispatcher. The dispatcher looks a path up
in the table of the method, binds the arguments of the operation that the route belongs to, and
renders what the operation answers.
-/

namespace OpenApiServer.Code

def bytesType : CodeType := .path "support::Bytes" []

def httpResponse : CodeType := .path "support::http::Response" [bytesType]

def requestErrorType : CodeType := .path "support::RequestError" []

/-- A result with an error that becomes a response. -/
def requestResult : CodeType := .path "std::result::Result" [httpResponse, requestErrorType]

def variantOf (enumName variant : TypeName) : String := enumName.text ++ "::" ++ variant.text

/-- The lookup of the path in a table. -/
def lookup (t : RouteTable) : Expr := .method (.word t.staticName) "at" [.word "path"]

/-! ## Routing tables -/

def routesValue (t : RouteTable) : Expr :=
  let insert (r : RouteDecl) : Stmt :=
    .bind (.word "_") (.method (.word "router") "insert"
      [.word (Text.literal r.pattern), .word (variantOf t.enumName r.variant)])
  .call (.word "std::sync::LazyLock::new") [.closure [] (.block
    (.bind (.word "mut router") (.call (.word "support::Router::new") []) ::
      t.routes.map insert ++ [.result (.word "router")]))]

def routeTable (visibility : Visibility) (t : RouteTable) : List Item :=
  let doc := " Routed paths for `" ++ t.method.name ++ "` requests."
  let router := CodeType.path "support::Router" [.path t.enumName.text []]
  [.enum [.doc doc, .listed "derive" ["Debug", "Clone", "Copy", "PartialEq", "Eq"]] visibility
      t.enumName.text (t.routes.map fun r => ⟨[], r.variant.text, none⟩),
    .static t.staticName (.path "std::sync::LazyLock" [router]) (routesValue t)]

/-! ## The interface -/

def bodyParam (b : RequestBody) : ParamItem :=
  let type := match b.argumentType? with
    | some type => type.code
    | none => .path "support::RawBody" []
  ⟨b.name.text, some type⟩

def operationMethod (o : Operation) : ImplItem :=
  let answer := CodeType.binding "Output" (.path "anyhow::Result" [.path o.response.text []])
  let params : List ParamItem :=
    o.parameters.map fun p => ⟨p.name.text, some p.argumentType.code⟩
  .function ⟨docAttributes o.docs, .inherited, false, o.name.text, [],
    selfReceiver :: params ++ (o.body.map bodyParam).toList,
    some (.some [.path "std::future::Future" [answer], .path "Send" []]), [], none⟩

def apiInterface (visibility : Visibility) (operations : List Operation) : Item :=
  .interface [.doc " Implemented by the application; one method per operation."] visibility "Api"
    [.path "Send" [], .path "Sync" []] (operations.map operationMethod)

/-! ## Responses -/

/-- The response of a variant whose payload is bound. -/
def renderVariant (v : ResponseVariant) : Expr :=
  match v.payload with
  | some (.json _) =>
    .call (.word "support::json_response") [.word "status", .reference (.word "body")]
  | some .bytes =>
    .call (.word "Ok") [.call (.word "support::bytes_response") [.word "status", .word "body"]]
  | none => .call (.word "Ok") [.call (.word "support::empty_response") [.word "status"]]

def responseImpl (r : ResponseDecl) : Item :=
  let arm (v : ResponseVariant) : Arm := .mk (variantPattern v "body") (renderVariant v)
  .impl (some (.path "support::IntoHttpResponse" [])) (.path r.name.text [])
    [method .inherited "into_http_response" [⟨"self", none⟩] requestResult
      [.bind (.word "status") (.method (.word "self") "status_code" []),
        .result (.cases (.word "self") (r.variants.map arm))]]

def responsesOf (types : List Declaration) : List ResponseDecl :=
  types.filterMap fun
    | .response r => some r
    | _ => none

/-! ## Calls of operations -/

def arrayStyle (style : ParameterStyle) : Expr :=
  match style with
  | .delimited => .word "support::ArrayStyle::Delimited"
  | _ => .word "support::ArrayStyle::Repeated"

/-- The expression that binds a parameter. -/
def bindParameter (p : Parameter) : Expr :=
  let name : Expr := .word (Text.literal p.wireName)
  let query : Expr := .reference (.word "query")
  match p.location, p.style, p.required with
  | .path, _, _ =>
    .attempt (.call (.word "support::path_param")
      [.reference (.field (.word "matched") "params"), name])
  | .query, .single, true => .attempt (.call (.word "support::query_param") [query, name])
  | .query, .single, false => .attempt (.call (.word "support::optional_query_param") [query, name])
  | .query, style, true =>
    .attempt (.call (.word "support::query_values") [query, name, arrayStyle style])
  | .query, style, false =>
    .attempt (.call (.word "support::optional_query_values") [query, name, arrayStyle style])

/-- The expression that reads the body. -/
def bindBody (b : RequestBody) : Expr :=
  let read (function : String) : Expr :=
    .attempt (.await (.call (.word ("support::" ++ function)) [.word "body"]))
  match b.kind with
  | .json _ true => read "read_json"
  | .json _ false => read "read_optional_json"
  | .raw => .call (.word "support::raw_body") [.word "body"]

/-- The call of an operation and the rendering of its answer. -/
def operationCall (o : Operation) : Expr :=
  let called := Expr.method (.word "api") o.name.text
    (o.parameters.map bindParameter ++ (o.body.map bindBody).toList)
  let answered := Expr.method (.await called) "map_err" [.word "support::RequestError::operation"]
  .method (.attempt answered) "into_http_response" []

/-! ## The dispatcher -/

/-- The error for a path that the table of the method does not have. -/
def unroutedError : Expr :=
  .call (.word "Err") [.call (.word "unrouted")
    [.reference (.field (.word "parts") "method"), .word "path"]]

/-- The operation that a route belongs to. -/
def operationFor? (operations : List Operation) (t : RouteTable) (r : RouteDecl) :
    Option Operation :=
  operations.find? fun o => o.method == t.method && o.pathVariant == r.variant

def routeArm (operations : List Operation) (t : RouteTable) (r : RouteDecl) : Arm :=
  let body := match operationFor? operations t r with
    | some o => operationCall o
    | none => unroutedError
  .mk (.word (variantOf t.enumName r.variant)) body

def methodArm (operations : List Operation) (t : RouteTable) : Arm :=
  .mk (.word (Text.literal t.method.name)) (.block
    [.bindOr (.tuple "Some" [.word "matched"]) (lookup t) [.run (.giveBack unroutedError)],
      .result (.cases (.field (.word "matched") "value") (t.routes.map (routeArm operations t)))])

/-- Whether some table has the path. -/
def isRouted (tables : List RouteTable) : Expr :=
  let found (t : RouteTable) : Expr := .method (lookup t) "is_some" []
  match tables with
  | [] => .word "false"
  | first :: rest => rest.foldl (fun e t => .binary e "||" (found t)) (found first)

/-- What is asked of the application and of the body of a request. -/
def dispatchBounds : List Bound := [
  ⟨"A", [.path "Api" []]⟩,
  ⟨"B", [.path "support::http_body::Body" [.binding "Data" bytesType], .path "Send" [],
    .path "'static" []]⟩,
  ⟨"B::Error", [.path "Into" [.path "support::BoxError" []]]⟩]

def dispatchParams : List ParamItem := [
  ⟨"api", some (.reference "" (.path "A" []))⟩,
  ⟨"request", some (.path "support::http::Request" [.path "B" []])⟩]

def handleFunction (visibility : Visibility) : Item :=
  let ok : Arm := .mk (.tuple "Ok" [.word "response"]) (.word "response")
  let err : Arm :=
    .mk (.tuple "Err" [.word "error"]) (.method (.word "error") "into_response" [])
  .function ⟨[
      .doc " Routes `request`, binds its arguments, awaits the operation and renders",
      .doc " the result. Binding and operation failures become JSON error responses."],
    visibility, true, "handle", ["A", "B"], dispatchParams, some httpResponse, dispatchBounds,
    some [.result (.cases
      (.await (.call (.word "dispatch") [.word "api", .word "request"])) [ok, err])]⟩

def dispatchFunction (m : ServerModel) : Item :=
  let uri : Expr := .field (.word "parts") "uri"
  let other : Arm := .mk (.word "_") unroutedError
  .function ⟨[.listed "allow" ["unused_variables"]], .inherited, true, "dispatch", ["A", "B"],
    dispatchParams, some requestResult, dispatchBounds, some [
      .bind (.tuple "" [.word "parts", .word "body"]) (.method (.word "request") "into_parts" []),
      .bind (.word "path") (.method uri "path" []),
      .bind (.word "query") (.call (.word "support::QueryParams::parse") [.method uri "query" []]),
      .result (.cases (.method (.field (.word "parts") "method") "as_str" [])
        (m.routeTables.map (methodArm m.operations) ++ [other]))]⟩

def unroutedFunction (tables : List RouteTable) : Item :=
  let path : FieldValue := .given "path" (.method (.word "path") "to_string" [])
  let method : FieldValue := .given "method" (.method (.word "method") "clone" [])
  .function ⟨[], .inherited, false, "unrouted", [],
    [⟨"method", some (.reference "" (.path "support::http::Method" []))⟩,
      ⟨"path", some (.reference "" (.path "str" []))⟩],
    some requestErrorType, [], some [
      .bind (.word "routed") (isRouted tables),
      .result (.choose (.word "routed")
        [.result (.record "support::RequestError::MethodNotAllowed" [method, path])]
        [.result (.record "support::RequestError::NotFound" [path])])]⟩

/-- The items of the file of the server. -/
def serverItems (visibility : Visibility) (m : ServerModel) : List Item :=
  [.useNames .inherited "oas3_scaffold_support" ["self as support", "IntoHttpResponse"],
    .useAll "super::types"] ++
  m.routeTables.flatMap (routeTable visibility) ++ [apiInterface visibility m.operations] ++
  (responsesOf m.types).map responseImpl ++
  [handleFunction visibility, dispatchFunction m, unroutedFunction m.routeTables]

end OpenApiServer.Code
