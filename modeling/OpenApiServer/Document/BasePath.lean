import OpenApiServer.Http.Uri
import OpenApiServer.Json.Basic

/-!
# The base path of a server

The routes of a server start with the path of its URL. Variables in braces are replaced by their
defaults first. A URL that is well-formed gives its path; one that is not, such as one with a
variable in its host, gives the text after `://` from its first slash on.
-/

namespace OpenApiServer.BasePath

def isBrace (c : Char) : Bool := c == '\x7b' || c == '\x7d'

/-- Replaces each `{name}` with a value, and leaves those without a value. The first `skip`
characters belong to a variable that has been replaced. -/
def expand (value? : String → Option String) : Nat → List Char → List Char
  | _, [] => []
  | skip + 1, _ :: rest => expand value? skip rest
  | 0, c :: rest =>
    if c = '\x7b' then
      let name := rest.takeWhile (!isBrace ·)
      match rest.drop name.length with
      | '\x7d' :: _ =>
        if name.isEmpty then c :: expand value? 0 rest
        else match value? (String.ofList name) with
          | some value => value.toList ++ expand value? (name.length + 1) rest
          | none => c :: name ++ '\x7d' :: expand value? (name.length + 1) rest
      | _ => c :: expand value? 0 rest
    else c :: expand value? 0 rest

/-- A base path without blanks around it or slashes at its end; it starts with a slash or is
empty. -/
def normalize (raw : String) : String :=
  let cs := Text.dropEndWhile (· == '/') (Text.trimChars raw.toList)
  match cs with
  | [] => ""
  | '/' :: _ => String.ofList cs
  | _ => String.ofList ('/' :: cs)

/-- The path in a text that is no URL. -/
def pathOfText (url : List Char) : String :=
  let body := url.takeWhile fun c => c != '?' && c != '#'
  match Text.splitAround? [':', '/', '/'] body with
  | some (_, rest) => String.ofList (rest.dropWhile (· != '/'))
  | none => String.ofList body

def ofUrl (url : List Char) : String :=
  match Http.Uri.parse url with
  | .ok uri => normalize uri.path
  | .error _ => normalize (pathOfText url)

/-- The default of a server variable. -/
def variableDefault? (server : Json) (name : String) : Option String := do
  let declared ← (← server.get? "variables").get? name
  declared.string "default"

def ofServer (server : Json) : String :=
  match server.string "url" with
  | some url => ofUrl (expand (variableDefault? server) 0 url.toList)
  | none => ""

end OpenApiServer.BasePath
