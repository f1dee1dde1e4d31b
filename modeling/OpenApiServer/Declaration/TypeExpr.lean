import OpenApiServer.Name.Identifier

/-!
# Types of fields, parameters and payloads

A type is a primitive, a declared name, or a list, an option or a box around a type. `optional` and
`boxed` do not wrap twice.
-/

namespace OpenApiServer

inductive Primitive where
  | i8
  | i16
  | i32
  | i64
  | u8
  | u16
  | u32
  | u64
  | f64
  | bool
  | string
  | bytes
  deriving DecidableEq, Repr

namespace Primitive

/-- The type of an integer schema by its format. -/
def ofIntegerFormat? : Option String → Option Primitive
  | none => some .i64
  | some "int64" => some .i64
  | some "int8" => some .i8
  | some "int16" => some .i16
  | some "int32" => some .i32
  | some "uint8" => some .u8
  | some "uint16" => some .u16
  | some "uint32" => some .u32
  | some "uint64" => some .u64
  | some _ => none

def text : Primitive → String
  | .i8 => "i8"
  | .i16 => "i16"
  | .i32 => "i32"
  | .i64 => "i64"
  | .u8 => "u8"
  | .u16 => "u16"
  | .u32 => "u32"
  | .u64 => "u64"
  | .f64 => "f64"
  | .bool => "bool"
  | .string => "String"
  | .bytes => "Bytes"

/-- The name of a variant that carries the primitive. -/
def variantName : Primitive → String
  | .i8 => "I8"
  | .i16 => "I16"
  | .i32 => "I32"
  | .i64 => "I64"
  | .u8 => "U8"
  | .u16 => "U16"
  | .u32 => "U32"
  | .u64 => "U64"
  | .f64 => "F64"
  | .bool => "Bool"
  | .string => "Text"
  | .bytes => "Bytes"

end Primitive

inductive TypeExpr where
  | primitive (p : Primitive)
  | named (name : TypeName)
  | list (item : TypeExpr)
  | option (inner : TypeExpr)
  | box (inner : TypeExpr)
  deriving DecidableEq, Repr

namespace TypeExpr

def optional : TypeExpr → TypeExpr
  | .option inner => .option inner
  | other => .option other

def boxed : TypeExpr → TypeExpr
  | .box inner => .box inner
  | other => .box other

/-- Whether no declared type occurs. -/
def isBuiltin : TypeExpr → Bool
  | .primitive _ => true
  | .named _ => false
  | .list inner => inner.isBuiltin
  | .option inner => inner.isBuiltin
  | .box inner => inner.isBuiltin

def isOption : TypeExpr → Bool
  | .option _ => true
  | _ => false

def withoutOption : TypeExpr → TypeExpr
  | .option inner => inner
  | other => other

/-- The name of a union variant that carries the type. -/
def variantName : TypeExpr → TypeName
  | .primitive p => ⟨p.variantName⟩
  | .named name => name
  | .list inner => inner.variantName.extend "List"
  | .option inner => inner.variantName
  | .box inner => inner.variantName

/-- Whether a parameter can be parsed into the type. -/
def isScalar : TypeExpr → Bool
  | .primitive p => p != .bytes
  | _ => false

/-- The declared type that a value holds inline: lists and boxes keep their items elsewhere. -/
def inlineTarget? : TypeExpr → Option TypeName
  | .named name => some name
  | .option inner => inner.inlineTarget?
  | _ => none

/-- Boxes the declared type that a value holds inline. -/
def boxInline : TypeExpr → TypeExpr
  | .option inner => inner.boxInline.optional
  | .named name => .box (.named name)
  | other => other

def text : TypeExpr → String
  | .primitive p => p.text
  | .named name => name.text
  | .list inner => "Vec<" ++ inner.text ++ ">"
  | .option inner => "Option<" ++ inner.text ++ ">"
  | .box inner => "Box<" ++ inner.text ++ ">"

/-- The declared names that occur in the type. -/
def names : TypeExpr → List TypeName
  | .primitive _ => []
  | .named name => [name]
  | .list inner => inner.names
  | .option inner => inner.names
  | .box inner => inner.names

theorem optional_optional (t : TypeExpr) : t.optional.optional = t.optional := by
  cases t <;> rfl

theorem boxed_boxed (t : TypeExpr) : t.boxed.boxed = t.boxed := by
  cases t <;> rfl

end TypeExpr

end OpenApiServer
