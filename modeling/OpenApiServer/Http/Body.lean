import OpenApiServer.Http.Response
import OpenApiServer.Json.Shape

/-!
# Request bodies

A body arrives in frames, and any frame can fail. Its bytes are collected before they are decoded,
so the cut into frames has no influence on the result. A failed frame wins over bytes that are no
UTF-8, and those win over JSON of another shape.
-/

namespace OpenApiServer.Http

inductive Frame where
  | data (bytes : List UInt8)
  | failed (reason : String)
  deriving Repr

abbrev Body := List Frame

namespace Body

/-- The bytes of all frames. -/
def bytes : Body → Except RequestError (List UInt8)
  | [] => .ok []
  | .data chunk :: rest => (chunk ++ ·) <$> bytes rest
  | .failed reason :: _ => .error (.readFailed reason)

/-- Decodes UTF-8 JSON and reports the path of the first value that does not fit. -/
def decode (shape : Json.Shape) (data : List UInt8) : Except RequestError Json :=
  match Utf8.decode data with
  | .error fault => .error (.badEncoding fault)
  | .ok text =>
    (shape.decode text).mapError fun f => .invalidInput (Json.pathText f.path) (f.message text)

def json (shape : Json.Shape) (body : Body) : Except RequestError Json := do
  decode shape (← body.bytes)

/-- The blank bytes of ASCII, form feed included. -/
def isBlankByte (b : UInt8) : Bool := b == 0x20 || b == 0x09 || b == 0x0a || b == 0x0c || b == 0x0d

/-- Like `json`, but a body of blanks is absent. -/
def optionalJson (shape : Json.Shape) (body : Body) : Except RequestError (Option Json) := do
  let data ← body.bytes
  if data.all isBlankByte then return none
  else return some (← decode shape data)

end Body

end OpenApiServer.Http
