import OpenApiServer.Declaration.Basic

/-!
# Which fields a conversion can copy

A value converts into a type of the same structure: boxes are opened and closed, options and lists
convert item by item, and declared types convert where a conversion between them is known.
`settle` moves the fields that do not convert from the copied fields of a conversion to its extras.
That can take away a known conversion, so it goes on until nothing moves; each round moves at least
one field, which bounds the rounds.
-/

namespace OpenApiServer

/-- Pairs of declared types with a conversion from the first into the second. -/
abbrev KnownConversions := List (TypeName × TypeName)

namespace TypeExpr

def convertsInto (known : KnownConversions) (source target : TypeExpr) : Bool :=
  if source = target then true
  else match source, target with
    | .box inner, target => convertsInto known inner target
    | source, .box inner => convertsInto known source inner
    | .option a, .option b => convertsInto known a b
    | .option _, _ => false
    | source, .option b => convertsInto known source b
    | .list a, .list b => convertsInto known a b
    | .named a, .named b => known.contains (a, b)
    | _, _ => false
  termination_by sizeOf source + sizeOf target

end TypeExpr

namespace Conversion

/-- Moves the fields that do not convert to the extras. -/
def demote (known : KnownConversions) (c : Conversion) : Conversion :=
  let converts (m : FieldMapping) : Bool := m.source.convertsInto known m.field.fieldType
  { c with
    copied := c.copied.filter converts
    extras := c.extras ++ (c.copied.filter (!converts ·)).map (·.field) }

/-- The pairs that convert without extra arguments. -/
def plainPairs (conversions : List Conversion) : KnownConversions :=
  (conversions.filter (·.isPlain)).map fun c => (c.source, c.target)

def copiedCount (conversions : List Conversion) : Nat :=
  conversions.foldr (fun c count => c.copied.length + count) 0

/-- One round of moving fields. -/
def settleOnce (enums : KnownConversions) (conversions : List Conversion) : List Conversion :=
  conversions.map (demote (enums ++ plainPairs conversions))

/-- Moves fields until every copied field converts. -/
def settle (enums : KnownConversions) (conversions : List Conversion) : List Conversion :=
  let next := settleOnce enums conversions
  if copiedCount next < copiedCount conversions then settle enums next else next
  termination_by copiedCount conversions

end Conversion

end OpenApiServer
