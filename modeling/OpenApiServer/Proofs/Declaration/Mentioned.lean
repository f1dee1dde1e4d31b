import OpenApiServer.Build.Server
import OpenApiServer.Proofs.Data.List

/-!
# The names that declarations mention

A declaration mentions the declared types that occur in its fields, payloads or target. An operation
mentions those of its arguments and the type of its responses, and a conversion its two ends and
the types of its fields. What the build does with a type, an option around it or a box within, does
not change what it mentions.
-/

namespace OpenApiServer

namespace TypeExpr

@[simp] theorem names_optional (t : TypeExpr) : t.optional.names = t.names := by
  cases t <;> rfl

@[simp] theorem names_withoutOption (t : TypeExpr) : t.withoutOption.names = t.names := by
  cases t <;> rfl

@[simp] theorem names_boxInline (t : TypeExpr) : t.boxInline.names = t.names := by
  induction t with
  | option inner ih =>
    rw [boxInline, names_optional, ih]
    rfl
  | _ => rfl

end TypeExpr

namespace Field

def mentioned (f : Field) : List TypeName := f.type.names

@[simp] theorem names_fieldType (f : Field) : f.fieldType.names = f.mentioned := by
  rw [fieldType, mentioned]
  split
  · rfl
  · exact f.type.names_optional

end Field

/-- What the fields of a record mention. -/
def fieldsMentioned (fields : List Field) : List TypeName := fields.flatMap Field.mentioned

theorem fieldsMentioned_subset_iff {fields : List Field} {names : List TypeName} :
    fieldsMentioned fields ⊆ names ↔ ∀ f ∈ fields, f.mentioned ⊆ names :=
  flatMap_subset_iff

def variantsMentioned (variants : List UnionVariant) : List TypeName :=
  variants.flatMap (·.payload.names)

def sharedMentioned (shared : List SharedField) : List TypeName := shared.flatMap (·.type.names)

namespace ResponseVariant

def mentioned (v : ResponseVariant) : List TypeName := v.payloadType?.elim [] TypeExpr.names

end ResponseVariant

namespace Declaration

def mentioned : Declaration → List TypeName
  | .record decl => fieldsMentioned decl.fields
  | .enum _ => []
  | .union decl => variantsMentioned decl.variants ++ sharedMentioned decl.sharedFields
  | .alias decl => decl.target.names
  | .response decl => decl.variants.flatMap ResponseVariant.mentioned

end Declaration

namespace EnumConversion

def mentioned (c : EnumConversion) : List TypeName := [c.source, c.target]

end EnumConversion

namespace FieldMapping

def mentioned (m : FieldMapping) : List TypeName := m.field.mentioned ++ m.source.names

end FieldMapping

namespace Conversion

def mentioned (c : Conversion) : List TypeName :=
  c.source :: c.target :: (c.copied.flatMap FieldMapping.mentioned ++ fieldsMentioned c.extras)

theorem mentioned_subset_iff {c : Conversion} {names : List TypeName} :
    c.mentioned ⊆ names ↔ c.source ∈ names ∧ c.target ∈ names ∧
      (∀ m ∈ c.copied, m.mentioned ⊆ names) ∧ ∀ f ∈ c.extras, f.mentioned ⊆ names := by
  simp only [mentioned, List.cons_subset, List.append_subset, flatMap_subset_iff,
    fieldsMentioned_subset_iff]

end Conversion

namespace BodyKind

def mentioned : BodyKind → List TypeName
  | .json type _ => type.names
  | .raw => []

end BodyKind

/-- What the types of parameters mention. -/
def parametersMentioned (parameters : List Parameter) : List TypeName :=
  parameters.flatMap (·.type.names)

/-- What the type of a body mentions, if there is a body. -/
def bodyMentioned (body : Option RequestBody) : List TypeName := body.elim [] (·.kind.mentioned)

namespace Operation

def mentioned (o : Operation) : List TypeName :=
  o.response :: (parametersMentioned o.parameters ++ bodyMentioned o.body)

end Operation

namespace ServerModel

/-- Every declared type that occurs anywhere in a server. -/
def mentioned (m : ServerModel) : List TypeName :=
  m.types.flatMap Declaration.mentioned ++ m.enumConversions.flatMap EnumConversion.mentioned ++
    m.conversions.flatMap Conversion.mentioned ++ m.operations.flatMap Operation.mentioned

theorem source_mem_mentioned {m : ServerModel} {c : Conversion} (h : c ∈ m.conversions) :
    c.source ∈ m.mentioned :=
  List.mem_append_left _ (List.mem_append_right _
    (List.mem_flatMap.2 ⟨c, h, List.mem_cons_self ..⟩))

end ServerModel

end OpenApiServer
