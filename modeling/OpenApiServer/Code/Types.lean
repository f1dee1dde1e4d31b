import OpenApiServer.Declaration.Counts
import OpenApiServer.Text.Quoted
import OpenApiServer.Code.Basic
import OpenApiServer.Declaration.Basic

/-!
# Code of conversions

The expression that turns a value of one type into another. It follows the rule by which types
convert: a box is opened or put around, options and lists convert item by item under a name of
their own, and declared types convert by the conversion between them.
-/

namespace OpenApiServer

/-- The code of a type. -/
def TypeExpr.code : TypeExpr → Code.CodeType
  | .primitive .bytes => .path "oas3_scaffold_support::Bytes" []
  | .primitive p => .path p.text []
  | .named name => .path name.text []
  | .list item => .path "Vec" [item.code]
  | .option inner => .path "Option" [inner.code]
  | .box inner => .path "Box" [inner.code]

namespace Code

/-- The name of an item, by how many items it is inside of. -/
def itemName (depth : Nat) : String := if depth = 0 then "item" else "item" ++ toString depth

/-- The expression for a value of type `source` as a value of type `target`. -/
def convert (value : Expr) (source target : TypeExpr) (depth : Nat) : Expr :=
  if source = target then value
  else match source, target with
    | .box inner, target => convert (.deref value) inner target depth
    | source, .box inner => .call (.word "Box::new") [convert value source inner depth]
    | .option a, .option b =>
      let item := itemName depth
      .method value "map" [.closure [item] (convert (.word item) a b (depth + 1))]
    | source, .option b => .call (.word "Some") [convert value source b depth]
    | .list a, .list b =>
      let item := itemName depth
      let converted := Expr.closure [item] (convert (.word item) a b (depth + 1))
      .method (.method (.method value "into_iter" []) "map" [converted]) "collect" []
    | _, .named name => .call (.word (name.text ++ "::from")) [value]
    | _, _ => value
  termination_by sizeOf source + sizeOf target

/-- A conversion function of a type. -/
def fromFunction (param : String) (source : CodeType) (body : List Stmt) : ImplItem :=
  .function ⟨[], .inherited, false, "from", [], [⟨param, some source⟩], some (.path "Self" []), [],
    some body⟩

/-- The implementation of a conversion. -/
def fromImpl (source : CodeType) (target : TypeName) (param : String) (body : List Stmt) : Item :=
  .impl (some (.path "From" [source])) (.path target.text [])
    [fromFunction param source body]

/-- The conversion between two enumerations. -/
def enumConversion (c : EnumConversion) : Item :=
  let arm (v : TypeName × TypeName) : Arm :=
    .mk (.word (c.source.text ++ "::" ++ v.1.text)) (.word ("Self::" ++ v.2.text))
  fromImpl (.path c.source.text []) c.target "value"
    [.result (.cases (.word "value") (c.variants.map arm))]

/-- The name of the argument that is converted, apart from the extra arguments. -/
def sourceName (c : Conversion) : FieldName :=
  .ofText (Name.unique "value" (c.requiredExtras.map (·.name.bare)))

def copiedValue (source : String) (m : FieldMapping) : FieldValue :=
  .given m.field.name.text
    (convert (.field (.word source) m.field.name.text) m.source m.field.fieldType 0)

def extraValue (field : Field) : FieldValue :=
  if field.required then .same field.name.text else .given field.name.text (.word "None")

/-- The record that a conversion makes. -/
def convertedRecord (c : Conversion) : Expr :=
  .record "Self" (c.copied.map (copiedValue (sourceName c).text) ++ c.extras.map extraValue)

/-- The conversion from a part into a merged record: a plain conversion if it needs no extra
arguments, else a constructor. -/
def conversion (visibility : Visibility) (c : Conversion) : Item :=
  let body : List Stmt := [.result (convertedRecord c)]
  let source : CodeType := .path c.source.text []
  if c.isPlain then fromImpl source c.target (sourceName c).text body
  else
    let doc := " Builds a `" ++ c.target.text ++ "` from a `" ++ c.source.text ++
      "` plus the fields it lacks."
    let extras : List ParamItem :=
      c.requiredExtras.map fun f => ⟨f.name.text, some f.fieldType.code⟩
    .impl none (.path c.target.text [])
      [.function ⟨[.doc doc], visibility, false, c.constructorName.text, [],
        ⟨(sourceName c).text, some source⟩ :: extras, some (.path "Self" []), [], some body⟩]

end Code

end OpenApiServer

/-!
## Code of declared types

The items of the file of types: each declaration with its methods, then the conversions between
enumerations, then those between records, and the responses last.
-/

namespace OpenApiServer.Code

def docAttributes (docs : Docs) : List Attribute := docs.comments.map .doc

def rename (key : String) : Attribute := .listed "serde" ["rename = " ++ Text.literal key]

def selfReceiver : ParamItem := ⟨"&self", none⟩

/-- A match on the receiver with one arm for each of a list. -/
def matchSelf (arms : List Arm) : List Stmt := [.result (.cases (.word "self") arms)]

/-- A method of the type itself. -/
def method (visibility : Visibility) (name : String) (params : List ParamItem) (result : CodeType)
    (body : List Stmt) : ImplItem :=
  .function ⟨[], visibility, false, name, [], params, some result, [], some body⟩

/-! ## Records -/

def field (visibility : Visibility) (f : Field) : FieldItem :=
  let renamed := if f.isRenamed then [rename f.jsonName] else []
  let optional := if f.fieldType.isOption then
      [Attribute.listed "serde" ["default", "skip_serializing_if = \"Option::is_none\""]]
    else []
  ⟨docAttributes f.docs ++ renamed ++ optional, visibility, f.name.text, f.fieldType.code⟩

def dataTraits : List String :=
  ["Debug", "Clone", "PartialEq", "serde::Serialize", "serde::Deserialize"]

def record (visibility : Visibility) (r : RecordDecl) : List Item :=
  [.struct (docAttributes r.docs ++ [.listed "derive" dataTraits]) visibility r.name.text
    (r.fields.map (field visibility))]

/-! ## Enumerations -/

def enumVariant (default : Option TypeName) (v : EnumVariant) : VariantItem :=
  let mark := if default = some v.name then [Attribute.mark "default"] else []
  ⟨mark ++ [rename v.value], v.name.text, none⟩

def enumTraits (e : EnumDecl) : List String :=
  ["Debug", "Clone", "Copy", "PartialEq", "Eq", "Hash"] ++
    (if e.default.isSome then ["Default"] else []) ++ ["serde::Serialize", "serde::Deserialize"]

/-- The method that gives the text of a variant. -/
def asText (visibility : Visibility) (e : EnumDecl) : ImplItem :=
  let arm (v : EnumVariant) : Arm :=
    .mk (.word ("Self::" ++ v.name.text)) (.word (Text.literal v.value))
  method visibility "as_str" [selfReceiver] (.reference "'static " (.path "str" []))
    (matchSelf (e.variants.map arm))

def displayImpl (e : EnumDecl) : Item :=
  let formatter := CodeType.path "std::fmt::Formatter" [.path "'_" []]
  .impl (some (.path "std::fmt::Display" [])) (.path e.name.text [])
    [method .inherited "fmt" [selfReceiver, ⟨"f", some (.reference "mut " formatter)⟩]
      (.path "std::fmt::Result" [])
      [.result (.method (.word "f") "write_str" [.method (.word "self") "as_str" []])]]

/-- How a text that is no variant is read: as the default if there is one. -/
def unknownTextArm (e : EnumDecl) : Arm :=
  match e.default with
  | some name => .mk (.word "_") (.call (.word "Ok") [.word ("Self::" ++ name.text)])
  | none =>
    .mk (.word "other") (.call (.word "Err") [.call
      (.word "oas3_scaffold_support::ParseEnumError::new")
      [.word (Text.literal e.name.text), .word "other"]])

def fromTextImpl (e : EnumDecl) : Item :=
  let error := if e.default.isSome then "std::convert::Infallible"
    else "oas3_scaffold_support::ParseEnumError"
  let arm (v : EnumVariant) : Arm :=
    .mk (.word (Text.literal v.value)) (.call (.word "Ok") [.word ("Self::" ++ v.name.text)])
  .impl (some (.path "std::str::FromStr" [])) (.path e.name.text [])
    [.type "Err" (.path error []),
      method .inherited "from_str" [⟨"s", some (.reference "" (.path "str" []))⟩]
        (.path "std::result::Result" [.path "Self" [], .path "Self::Err" []])
        [.result (.cases (.word "s") (e.variants.map arm ++ [unknownTextArm e]))]]

def enumeration (visibility : Visibility) (e : EnumDecl) : List Item :=
  [.enum (docAttributes e.docs ++ [.listed "derive" (enumTraits e)]) visibility e.name.text
      (e.variants.map (enumVariant e.default)),
    .impl none (.path e.name.text []) [asText visibility e], displayImpl e, fromTextImpl e]

/-! ## Unions -/

def unionVariant (v : UnionVariant) : VariantItem :=
  ⟨[rename v.tag], v.name.text, some v.payload.code⟩

/-- A match on the payload of a union. -/
def onPayload (u : UnionDecl) (body : Expr) : List Stmt :=
  matchSelf (u.variants.map fun v =>
    .mk (.tuple ("Self::" ++ v.name.text) [.word "payload"]) body)

/-- The methods that read and change a field that all payloads share. -/
def accessors (visibility : Visibility) (u : UnionDecl) (f : SharedField) : List ImplItem :=
  let payload : Expr := .field (.word "payload") f.name.text
  let setter := (f.name.derived "set").text
  let doc := " `" ++ f.jsonName ++ "` of whichever payload is present."
  let value : ParamItem := ⟨"value", some f.type.code⟩
  [.function ⟨[.doc doc], visibility, false, f.name.text, [], [selfReceiver],
      some (.reference "" f.type.code), [], some (onPayload u (.reference payload))⟩,
    .function ⟨[], visibility, false, setter, [], [⟨"&mut self", none⟩, value], none, [],
      some (onPayload u (.assign payload (.word "value")))⟩,
    method visibility (f.name.derived "with").text [⟨"mut self", none⟩, value] (.path "Self" [])
      [.run (.method (.word "self") setter [.word "value"]), .result (.word "self")]]

/-- The conversion of a payload into the variant that carries it. -/
def payloadImpl (target : TypeName) (payload : TypeExpr) (variant : TypeName) : Item :=
  fromImpl payload.code target "value"
    [.result (.call (.word ("Self::" ++ variant.text)) [.word "value"])]

def union (visibility : Visibility) (u : UnionDecl) : List Item :=
  let tagging := Attribute.listed "serde"
    ["tag = " ++ Text.literal u.tagField, "content = " ++ Text.literal u.payloadField]
  let methods := u.sharedFields.flatMap (accessors visibility u)
  [.enum (docAttributes u.docs ++ [.listed "derive" dataTraits, tagging]) visibility u.name.text
      (u.variants.map unionVariant)] ++
    (if methods.isEmpty then [] else [.impl none (.path u.name.text []) methods]) ++
    u.convertible.map fun v => payloadImpl u.name v.payload v.name

/-! ## Responses -/

def responseVariant (v : ResponseVariant) : VariantItem :=
  ⟨docAttributes v.docs, v.name.text, v.payloadType?.map TypeExpr.code⟩

/-- The pattern of a variant, with a pattern for its payload. -/
def variantPattern (v : ResponseVariant) (payload : String) : Pattern :=
  let name := "Self::" ++ v.name.text
  if v.payload.isSome then .tuple name [.word payload] else .word name

def response (visibility : Visibility) (r : ResponseDecl) : List Item :=
  let arm (v : ResponseVariant) : Arm :=
    .mk (variantPattern v "_") (.word (toString v.statusCode))
  [.enum (docAttributes r.docs ++ [.listed "derive" ["Debug", "Clone", "PartialEq"]]) visibility
      r.name.text (r.variants.map responseVariant),
    .impl none (.path r.name.text []) [method visibility "status_code" [selfReceiver]
      (.path "u16" []) (matchSelf (r.variants.map arm))]] ++
    r.shortcuts.map fun (payload, v) => payloadImpl r.name payload v.name

/-! ## The file -/

def declaration (visibility : Visibility) : Declaration → List Item
  | .record decl => record visibility decl
  | .enum decl => enumeration visibility decl
  | .union decl => union visibility decl
  | .alias decl =>
    [.typeAlias (docAttributes decl.docs) visibility decl.name.text decl.target.code]
  | .response decl => response visibility decl

/-- The items of the file of types. -/
def typeItems (visibility : Visibility) (m : ServerModel) : List Item :=
  (m.types.filter (!·.isResponse)).flatMap (declaration visibility) ++
    m.enumConversions.map enumConversion ++ m.conversions.map (conversion visibility) ++
    (m.types.filter (·.isResponse)).flatMap (declaration visibility)

end OpenApiServer.Code
