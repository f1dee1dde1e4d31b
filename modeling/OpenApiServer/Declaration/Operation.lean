import OpenApiServer.Declaration.Basic
import OpenApiServer.Document.Basic

/-!
# Declared operations

An operation binds a method and a path to arguments and a response type. The routes of one method
form a table, which has an enumeration of paths and a router of its own.
-/

namespace OpenApiServer

inductive ParameterLocation where
  | path
  | query
  deriving DecidableEq, Repr

def ParameterLocation.text : ParameterLocation → String
  | .path => "path"
  | .query => "query"

inductive ParameterStyle where
  | single
  | repeated
  | delimited
  deriving DecidableEq, Repr

def ParameterStyle.text : ParameterStyle → String
  | .single => "single"
  | .repeated => "repeated"
  | .delimited => "delimited"

/-- A bound parameter. Its type is the type of one element. -/
structure Parameter where
  name : FieldName
  wireName : String
  location : ParameterLocation
  required : Bool
  type : TypeExpr
  style : ParameterStyle
  docs : Docs
  deriving DecidableEq, Repr

/-- The type of the argument. -/
def Parameter.argumentType (p : Parameter) : TypeExpr :=
  let type := match p.style with
    | .single => p.type
    | _ => .list p.type
  if p.required then type else type.optional

inductive BodyKind where
  | json (type : TypeExpr) (required : Bool)
  | raw
  deriving DecidableEq, Repr

structure RequestBody where
  name : FieldName
  kind : BodyKind
  deriving DecidableEq, Repr

namespace RequestBody

def isRaw (b : RequestBody) : Bool := b.kind == .raw

/-- The type of the argument; a raw body has none of the declared types. -/
def argumentType? (b : RequestBody) : Option TypeExpr :=
  match b.kind with
  | .json type required => some (if required then type else type.optional)
  | .raw => none

end RequestBody

structure Operation where
  name : FieldName
  operationId : String
  method : Method
  path : String
  docs : Docs
  parameters : List Parameter
  body : Option RequestBody
  response : TypeName
  pathEnum : TypeName
  pathVariant : TypeName
  deriving DecidableEq, Repr

structure RouteDecl where
  variant : TypeName
  pattern : String
  deriving DecidableEq, Repr

structure RouteTable where
  method : Method
  enumName : TypeName
  staticName : String
  routes : List RouteDecl
  deriving DecidableEq, Repr

/-- Everything that is known about a server before it is printed. -/
structure ServerModel where
  types : List Declaration
  enumConversions : List EnumConversion
  conversions : List Conversion
  operations : List Operation
  routeTables : List RouteTable
  warnings : List String
  boxedFields : Nat
  deriving DecidableEq, Repr

end OpenApiServer
