import OpenApiServer.Json.Basic
import OpenApiServer.Text.Utf8

/-!
# Responses

A response has a status, a content type unless it is empty, and bytes. A code outside 100 to 999 is
no status and becomes 500.
-/

namespace OpenApiServer.Http

structure Response where
  status : Nat
  contentType : Option String
  body : List UInt8
  deriving DecidableEq, Repr

namespace Response

def statusOf (code : Nat) : Nat := if 100 ≤ code ∧ code ≤ 999 then code else 500

def json (code : Nat) (value : Json) : Response :=
  ⟨statusOf code, some "application/json", Utf8.encode value.print⟩

def bytes (code : Nat) (body : List UInt8) : Response :=
  ⟨statusOf code, some "application/octet-stream", body⟩

def empty (code : Nat) : Response := ⟨statusOf code, none, []⟩

end Response

end OpenApiServer.Http

/-!
## Request errors

Everything that can go wrong between a request and its response, with its status and the stable
code that the rendered error carries.
-/

namespace OpenApiServer.Http

inductive RequestError where
  | notFound (path : String)
  | methodNotAllowed (method path : String)
  | invalidParameter (name reason : String)
  | readFailed (reason : String)
  | badEncoding (fault : Utf8.Fault)
  | invalidInput (path message : String)
  | serializationFailed (reason : String)
  | operationFailed (reason : String)
  deriving DecidableEq, Repr

namespace RequestError

def status : RequestError → Nat
  | .notFound _ => 404
  | .methodNotAllowed _ _ => 405
  | .invalidParameter _ _ => 400
  | .readFailed _ => 400
  | .badEncoding _ => 400
  | .invalidInput _ _ => 422
  | .serializationFailed _ => 500
  | .operationFailed _ => 500

def code : RequestError → String
  | .notFound _ => "not_found"
  | .methodNotAllowed _ _ => "method_not_allowed"
  | .invalidParameter _ _ => "invalid_parameter"
  | .readFailed _ => "read_failed"
  | .badEncoding _ => "encoding_error"
  | .invalidInput _ _ => "invalid_input"
  | .serializationFailed _ => "serialization_failure"
  | .operationFailed _ => "operation_failed"

def message : RequestError → String
  | .notFound path => "no route matches `" ++ path ++ "`"
  | .methodNotAllowed method path => "method " ++ method ++ " is not allowed for `" ++ path ++ "`"
  | .invalidParameter name reason =>
    "invalid value for parameter `" ++ name ++ "`: " ++ reason
  | .readFailed reason => "failed to read request body: " ++ reason
  | .badEncoding fault => "request body is not valid UTF-8: " ++ fault.message
  | .invalidInput path message => "invalid request body at `" ++ path ++ "`: " ++ message
  | .serializationFailed reason => "failed to serialize response body: " ++ reason
  | .operationFailed reason => "operation failed: " ++ reason

/-- The error as a response: its code and its message as a JSON object. -/
def toResponse (e : RequestError) : Response :=
  { Response.json e.status (.obj [("error", .str e.code), ("message", .str e.message)]) with
    status := e.status }

end RequestError

/-- The reason for refusing a text that names no variant of an enumeration. -/
def unknownVariantReason (typeName value : String) : String :=
  "`" ++ value ++ "` is not a valid " ++ typeName

/-- The reason for refusing to write a map whose keys are not texts. -/
def keyNotStringReason : String := "key must be a string"

end OpenApiServer.Http
