import OpenApiServer.Declaration.TypeExpr
import OpenApiServer.Json.Basic
import OpenApiServer.Text.Basic

/-!
# Documentation comments

The lines of a description, without the blanks around it and at the ends of its lines. A backslash
with an `n` after it starts a new line too. A node is documented by its description, else by its
summary, else by its title.
-/

namespace OpenApiServer

structure Docs where
  lines : List String
  deriving DecidableEq, Repr, Inhabited

namespace Docs

def empty : Docs := ⟨[]⟩

def ofText (text : String) : Docs :=
  let body := Text.trimChars text.toList
  let broken := String.ofList (Text.replacePair '\\' 'n' ['\n'] body)
  ⟨(Text.lines broken).map Text.trimEnd⟩

def ofNode (node : Json) : Docs :=
  match node.string "description", node.string "summary", node.string "title" with
  | some text, _, _ => ofText text
  | none, some text, _ => ofText text
  | none, none, some text => ofText text
  | none, none, none => empty

/-- The texts of the comment lines: a blank starts each line that is not empty. -/
def comments (d : Docs) : List String :=
  d.lines.map fun line => if line = "" then "" else " " ++ line

end Docs

end OpenApiServer

/-!
## Declared types

The declarations of the generated types: records, closed sets of texts, tagged unions, aliases and
the responses of operations. Beside them stand the conversions between declared types.
-/

namespace OpenApiServer

/-- A field of a record. Its declared type does not say whether the field can be absent. -/
structure Field where
  name : FieldName
  jsonName : String
  type : TypeExpr
  required : Bool
  docs : Docs
  deriving DecidableEq, Repr

namespace Field

/-- The type that the field is declared with. -/
def fieldType (f : Field) : TypeExpr := if f.required then f.type else f.type.optional

/-- Whether the JSON key is another text than the identifier. -/
def isRenamed (f : Field) : Bool := f.name.bare != f.jsonName

end Field

structure RecordDecl where
  name : TypeName
  docs : Docs
  fields : List Field
  deriving DecidableEq, Repr

structure EnumVariant where
  name : TypeName
  value : String
  deriving DecidableEq, Repr

/-- A closed set of texts. Unknown text becomes the default variant, if there is one. -/
structure EnumDecl where
  name : TypeName
  docs : Docs
  variants : List EnumVariant
  default : Option TypeName
  deriving DecidableEq, Repr

namespace EnumDecl

def variantFor? (e : EnumDecl) (value : String) : Option TypeName :=
  (e.variants.find? (·.value == value)).map (·.name)

end EnumDecl

structure UnionVariant where
  name : TypeName
  tag : String
  payload : TypeExpr
  deriving DecidableEq, Repr

/-- A field that every payload of a union has with the same type. -/
structure SharedField where
  name : FieldName
  jsonName : String
  type : TypeExpr
  deriving DecidableEq, Repr

/-- A union whose JSON form is an object with the tag beside the payload. -/
structure UnionDecl where
  name : TypeName
  docs : Docs
  tagField : String
  payloadField : String
  variants : List UnionVariant
  sharedFields : List SharedField
  deriving DecidableEq, Repr

namespace UnionDecl

/-- The variants whose payload converts into the union: those with a declared type. -/
def convertible (u : UnionDecl) : List UnionVariant := u.variants.filter (!·.payload.isBuiltin)

end UnionDecl

structure AliasDecl where
  name : TypeName
  docs : Docs
  target : TypeExpr
  deriving DecidableEq, Repr

inductive Payload where
  | json (type : TypeExpr)
  | bytes
  deriving DecidableEq, Repr

def Payload.type : Payload → TypeExpr
  | .json type => type
  | .bytes => .primitive .bytes

/-- One response of an operation; the default response has no status of its own. -/
structure ResponseVariant where
  name : TypeName
  status : Option Nat
  docs : Docs
  payload : Option Payload
  deriving DecidableEq, Repr

namespace ResponseVariant

def statusCode (v : ResponseVariant) : Nat := v.status.getD 500

def payloadType? (v : ResponseVariant) : Option TypeExpr := v.payload.map Payload.type

end ResponseVariant

structure ResponseDecl where
  name : TypeName
  docs : Docs
  variants : List ResponseVariant
  deriving DecidableEq, Repr

namespace ResponseDecl

/-- The variants whose payload type no other variant carries. -/
def shortcuts (r : ResponseDecl) : List (TypeExpr × ResponseVariant) :=
  let types := r.variants.filterMap (·.payloadType?)
  r.variants.filterMap fun v =>
    match v.payloadType? with
    | some type => if types.count type = 1 then some (type, v) else none
    | none => none

end ResponseDecl

inductive Declaration where
  | record (decl : RecordDecl)
  | enum (decl : EnumDecl)
  | union (decl : UnionDecl)
  | alias (decl : AliasDecl)
  | response (decl : ResponseDecl)
  deriving DecidableEq, Repr

namespace Declaration

def name : Declaration → TypeName
  | .record d => d.name
  | .enum d => d.name
  | .union d => d.name
  | .alias d => d.name
  | .response d => d.name

end Declaration

/-- The conversion between two enumerations with the same texts, variant by variant. -/
structure EnumConversion where
  source : TypeName
  target : TypeName
  variants : List (TypeName × TypeName)
  deriving DecidableEq, Repr

/-- A field of a merged record that is filled from the same field of a part. -/
structure FieldMapping where
  field : Field
  source : TypeExpr
  deriving DecidableEq, Repr

/-- The conversion from a part of a merged record into the record. The extras are the fields that
the part does not provide. -/
structure Conversion where
  source : TypeName
  target : TypeName
  copied : List FieldMapping
  extras : List Field
  deriving DecidableEq, Repr

namespace Conversion

/-- Whether every extra field can be left out. -/
def isPlain (c : Conversion) : Bool := c.extras.all (!·.required)

def constructorName (c : Conversion) : FieldName :=
  .ofText ("from_" ++ Name.snakeCase [c.source.text])

def requiredExtras (c : Conversion) : List Field := c.extras.filter (·.required)

end Conversion

end OpenApiServer
