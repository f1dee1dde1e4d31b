import OpenApiServer.Http.Query
import OpenApiServer.Http.Response
import OpenApiServer.Http.Scalar

/-!
# Parameters of requests

Binding of path and query parameters by name. A list parameter is spread over repeated keys or
joined with commas in one key; it is read as a whole or not at all, and an absent key differs from
an empty list.
-/

namespace OpenApiServer.Http

inductive ArrayStyle where
  | repeated
  | delimited
  deriving DecidableEq, Repr

namespace Param
variable {α : Type}

/-- How the elements of a parameter are read from text; a failure gives the reason. -/
abbrev Parser (α : Type) := String → Except String α

def scalar (kind : ScalarKind) : Parser Scalar := fun text =>
  (Scalar.parse kind text).mapError ScalarError.message

def parse (parser : Parser α) (name raw : String) : Except RequestError α :=
  (parser raw).mapError (.invalidParameter name)

def ofPath (parser : Parser α) (params : List (String × String)) (name : String) :
    Except RequestError α :=
  match fieldNamed? name params with
  | some raw => parse parser name raw
  | none => .error (.invalidParameter name "missing path segment")

def required (name : String) : Option α → Except RequestError α
  | some value => .ok value
  | none => .error (.invalidParameter name "required but missing")

def optional (parser : Parser α) (query : Query) (name : String) :
    Except RequestError (Option α) :=
  match query.first? name with
  | some raw => some <$> parse parser name raw
  | none => .ok none

def ofQuery (parser : Parser α) (query : Query) (name : String) : Except RequestError α := do
  required name (← optional parser query name)

/-- The texts of the elements of a list parameter that is there. -/
def elementTexts (query : Query) (name : String) : ArrayStyle → List String
  | .repeated => query.all name
  | .delimited =>
    ((Text.splitOn ',' ((query.first? name).getD "").toList).filter (!·.isEmpty)).map String.ofList

def optionalValues (parser : Parser α) (query : Query) (name : String) (style : ArrayStyle) :
    Except RequestError (Option (List α)) :=
  if query.contains name then some <$> (elementTexts query name style).mapM (parse parser name)
  else .ok none

def values (parser : Parser α) (query : Query) (name : String) (style : ArrayStyle) :
    Except RequestError (List α) := do
  required name (← optionalValues parser query name style)

end Param

end OpenApiServer.Http
