/-!
# The tree of the generated code

The parts of the target language that the generated files use: types, patterns, expressions,
statements and items. Names, paths and literals are texts that are written as they are.
-/

namespace OpenApiServer.Code

inductive CodeType where
  /-- A path with the arguments of its last segment. -/
  | path (name : String) (args : List CodeType)
  /-- An argument that fixes an associated type. -/
  | binding (name : String) (value : CodeType)
  /-- A reference; the mark is what stands after the ampersand. -/
  | reference (mark : String) (target : CodeType)
  /-- Some type with the given bounds. -/
  | some (bounds : List CodeType)
  deriving Repr

inductive Pattern where
  | word (text : String)
  | tuple (name : String) (parts : List Pattern)
  deriving Repr

mutual

inductive Expr where
  /-- A path or a literal. -/
  | word (text : String)
  | reference (inner : Expr)
  | deref (inner : Expr)
  | field (owner : Expr) (name : String)
  | await (inner : Expr)
  /-- The value, or the error at once. -/
  | attempt (inner : Expr)
  | call (function : Expr) (args : List Expr)
  | method (owner : Expr) (name : String) (args : List Expr)
  | closure (params : List String) (body : Expr)
  | record (name : String) (fields : List FieldValue)
  | binary (left : Expr) (op : String) (right : Expr)
  | assign (target value : Expr)
  | block (body : List Stmt)
  | cases (subject : Expr) (arms : List Arm)
  | choose (condition : Expr) (yes no : List Stmt)
  | giveBack (value : Expr)
  deriving Repr

inductive FieldValue where
  /-- A field with the value of the variable of its name. -/
  | same (name : String)
  | given (name : String) (value : Expr)
  deriving Repr

inductive Arm where
  | mk (pattern : Pattern) (body : Expr)
  deriving Repr

inductive Stmt where
  | bind (pattern : Pattern) (value : Expr)
  /-- A binding that leaves the function where the pattern does not match. -/
  | bindOr (pattern : Pattern) (value : Expr) (otherwise : List Stmt)
  | run (value : Expr)
  | result (value : Expr)
  deriving Repr

end

/-- What stands in brackets before an item, a field or a variant. -/
inductive Attribute where
  | doc (text : String)
  | mark (name : String)
  | listed (name : String) (args : List String)
  deriving Repr

/-- Who can see what is declared. -/
inductive Visibility where
  | everyone
  | crate
  | inherited
  deriving DecidableEq, Repr

namespace Visibility

def text : Visibility → String
  | .everyone => "pub "
  | .crate => "pub(crate) "
  | .inherited => ""

def ofName? : String → Option Visibility
  | "public" => some .everyone
  | "crate" => some .crate
  | _ => none

end Visibility

structure FieldItem where
  attributes : List Attribute
  visibility : Visibility
  name : String
  type : CodeType
  deriving Repr

structure VariantItem where
  attributes : List Attribute
  name : String
  payload : Option CodeType
  deriving Repr

/-- A parameter, without a type where it is the receiver. -/
structure ParamItem where
  name : String
  type : Option CodeType
  deriving Repr

/-- A bound on a type parameter. -/
structure Bound where
  type : String
  bounds : List CodeType
  deriving Repr

structure FunctionItem where
  attributes : List Attribute
  visibility : Visibility
  isAsync : Bool
  name : String
  typeParams : List String
  params : List ParamItem
  result : Option CodeType
  bounds : List Bound
  /-- No body where the function is only declared. -/
  body : Option (List Stmt)
  deriving Repr

inductive ImplItem where
  | function (f : FunctionItem)
  | type (name : String) (value : CodeType)
  deriving Repr

inductive Item where
  | module (visibility : Visibility) (name : String)
  | useAll (path : String)
  | useNames (visibility : Visibility) (path : String) (names : List String)
  | typeAlias (attributes : List Attribute) (visibility : Visibility) (name : String)
      (value : CodeType)
  | struct (attributes : List Attribute) (visibility : Visibility) (name : String)
      (fields : List FieldItem)
  | enum (attributes : List Attribute) (visibility : Visibility) (name : String)
      (variants : List VariantItem)
  | impl (interface : Option CodeType) (type : CodeType) (items : List ImplItem)
  | interface (attributes : List Attribute) (visibility : Visibility) (name : String)
      (bounds : List CodeType) (items : List ImplItem)
  | static (name : String) (type : CodeType) (value : Expr)
  | function (f : FunctionItem)
  deriving Repr

end OpenApiServer.Code
