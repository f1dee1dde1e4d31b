import OpenApiServer.Text.Basic

/-!
# Media types

A media type is a type, a subtype that may have a suffix after its last plus sign, and parameters.
Content is JSON for `application/json` and for every suffix `json`; case matters, and a text that
is no media type is not JSON.
-/

namespace OpenApiServer.Http

structure MediaType where
  type : String
  subtype : String
  suffix : Option String
  deriving DecidableEq, Repr

namespace MediaType

def isTokenChar (c : Char) : Bool :=
  ('a' ≤ c && c ≤ 'z') || ('A' ≤ c && c ≤ 'Z') || ('0' ≤ c && c ≤ '9') ||
  "!#$%&'*+-.^_|~`".toList.contains c

def isToken (cs : List Char) : Bool := !cs.isEmpty && cs.length ≤ 127 && cs.all isTokenChar

def isOptionalBlank (c : Char) : Bool := c == ' ' || c == '\t'

/-- What follows a quoted value, after its opening quote. -/
def afterQuoted? : List Char → Option (List Char)
  | [] => none
  | '"' :: rest => some rest
  | ['\\'] => none
  | '\\' :: _ :: rest => afterQuoted? rest
  | _ :: rest => afterQuoted? rest

/-- Whether a text is a list of parameters, each after a semicolon. -/
def areParams : Nat → List Char → Bool
  | 0, _ => false
  | fuel + 1, cs =>
    match cs with
    | [] => true
    | _ =>
      match cs.dropWhile isOptionalBlank with
      | ';' :: rest =>
        match Text.splitFirst? '=' (rest.dropWhile isOptionalBlank) with
        | none => false
        | some (key, value) =>
          isToken key && (match value with
            | '"' :: quoted => (afterQuoted? quoted).any (areParams fuel)
            | _ =>
              isToken (value.takeWhile isTokenChar) && areParams fuel (value.dropWhile isTokenChar))
      | _ => false

/-- Splits a subtype at its last plus sign. -/
def splitSuffix (cs : List Char) : List Char × Option (List Char) :=
  match Text.splitFirst? '+' cs.reverse with
  | some (suffix, subtype) => (subtype.reverse, some suffix.reverse)
  | none => (cs, none)

def parse? (text : String) : Option MediaType := do
  let (type, rest) ← Text.splitFirst? '/' text.toList
  let isEnd := fun c => c == ';' || isOptionalBlank c
  let (subtype, suffix) := splitSuffix (rest.takeWhile (!isEnd ·))
  let params := rest.dropWhile (!isEnd ·)
  if isToken type && isToken subtype && suffix.all isToken &&
      areParams (params.length + 1) params then
    some ⟨String.ofList type, String.ofList subtype, suffix.map String.ofList⟩
  else none

def isJson (m : MediaType) : Bool :=
  (m.type == "application" && m.subtype == "json") || m.suffix == some "json"

end MediaType

/-- Whether content of the given type is JSON. -/
def isJsonContent (contentType : String) : Bool :=
  (MediaType.parse? contentType).any MediaType.isJson

end OpenApiServer.Http
