import OpenApiServer.Items.Basic
import OpenApiServer.Http.Body
import OpenApiServer.Http.Param
import OpenApiServer.Http.Router
import OpenApiServer.Http.Uri

/-!
# The item service

A request is routed and its arguments are bound before any operation runs: `callOf` gives the one
call that the request asks for, or the error that answers it. `handle` then runs that call against
an application with a state.
-/

namespace OpenApiServer.Items
open Http

inductive GetPath where
  | items
  | itemsId
  deriving DecidableEq, Repr

inductive PostPath where
  | items
  deriving DecidableEq, Repr

def getRoutes : Router GetPath :=
  Router.ofRoutes [("/v1/items", .items), ("/v1/items/\x7bid\x7d", .itemsId)]

def postRoutes : Router PostPath := Router.ofRoutes [("/v1/items", .items)]

structure Request where
  method : String
  uri : Uri
  body : Body

/-- An operation with its arguments. -/
inductive Call where
  | listItems (limit : Option Nat) (tag : Option (List String))
  | createItem (body : NewItem)
  | getItem (id : Int)
  deriving DecidableEq, Repr

inductive ListItemsResponse where
  | http200 (items : List Item)

inductive CreateItemResponse where
  | http201 (item : Item)
  | other (problem : Problem)

inductive GetItemResponse where
  | http200 (item : Item)
  | http404

def ListItemsResponse.toResponse : ListItemsResponse → Response
  | .http200 items => Response.json 200 (listToJson items)

def CreateItemResponse.toResponse : CreateItemResponse → Response
  | .http201 item => Response.json 201 item.toJson
  | .other problem => Response.json 500 problem.toJson

def GetItemResponse.toResponse : GetItemResponse → Response
  | .http200 item => Response.json 200 item.toJson
  | .http404 => Response.empty 404

/-- An application: each operation answers or fails, and may change the state. -/
structure Api (σ : Type) where
  listItems : Option Nat → Option (List String) → σ → Except String ListItemsResponse × σ
  createItem : NewItem → σ → Except String CreateItemResponse × σ
  getItem : Int → σ → Except String GetItemResponse × σ

/-- The answer to a request that its method does not route. -/
def unrouted (method path : String) : RequestError :=
  if (getRoutes.at? path).isSome || (postRoutes.at? path).isSome then .methodNotAllowed method path
  else .notFound path

/-- An integer parameter of a given range. -/
def integerParam (range : Json.IntegerRange) : Param.Parser Int := fun text =>
  (Scalar.parseInteger range text.toList).mapError ScalarError.message

/-- The call that a request asks for. -/
def callOf (request : Request) : Except RequestError Call :=
  let path := request.uri.path
  let query := Query.parse request.uri.query
  match request.method with
  | "GET" =>
    match getRoutes.at? path with
    | none => .error (unrouted request.method path)
    | some found =>
      match found.value with
      | .items => do
        let limit ← Param.optional (integerParam .u32) query "limit"
        let tag ← Param.optionalValues .ok query "tag" .repeated
        return .listItems (limit.map Int.toNat) tag
      | .itemsId => do
        return .getItem (← Param.ofPath (integerParam .i32) found.params "id")
  | "POST" =>
    match postRoutes.at? path with
    | none => .error (unrouted request.method path)
    | some found =>
      match found.value with
      | .items => do
        let j ← request.body.json NewItem.shape
        match NewItem.ofJson? j with
        | some item => return .createItem item
        | none => .error (.invalidInput "." "not an item")
  | other => .error (unrouted other path)

/-- Runs a call: a failed operation is an error of its own. -/
def Api.run {σ : Type} (api : Api σ) (call : Call) (state : σ) : Response × σ :=
  let answer {α : Type} (render : α → Response) (result : Except String α × σ) : Response × σ :=
    match result with
    | (.ok value, state) => (render value, state)
    | (.error reason, state) => ((RequestError.operationFailed reason).toResponse, state)
  match call with
  | .listItems limit tag => answer ListItemsResponse.toResponse (api.listItems limit tag state)
  | .createItem item => answer CreateItemResponse.toResponse (api.createItem item state)
  | .getItem id => answer GetItemResponse.toResponse (api.getItem id state)

/-- Answers a request. -/
def Api.handle {σ : Type} (api : Api σ) (request : Request) (state : σ) : Response × σ :=
  match callOf request with
  | .ok call => api.run call state
  | .error e => (e.toResponse, state)

end OpenApiServer.Items
