import OpenApiServer.Declaration.Basic
import OpenApiServer.Proofs.Data.List

/-!
# Declarations that match

Declarations that match have one name and one kind and are made of the same types. Fields of records
can stand in another order and under other names, as the numbers on names go by the order of the fields.
-/

namespace OpenApiServer

/-- Whether two fields stand for one property, with the same type and requirement. -/
structure Field.Matches (f f' : Field) : Prop where
  jsonName : f.jsonName = f'.jsonName
  type : f.type = f'.type
  required : f.required = f'.required

namespace Field.Matches

variable {f f' : Field}

theorem symm (h : f.Matches f') : f'.Matches f := ⟨h.jsonName.symm, h.type.symm, h.required.symm⟩

theorem fieldType_eq (h : f.Matches f') : f.fieldType = f'.fieldType := by
  rw [fieldType, fieldType, h.required, h.type]

end Field.Matches

/-- Whether two records have the same fields, each property once. -/
structure SameFields (fields fields' : List Field) : Prop where
  nodup : (fields.map (·.jsonName)).Nodup
  nodup' : (fields'.map (·.jsonName)).Nodup
  matched : Matched Field.Matches fields fields'

namespace SameFields

variable {fields fields' : List Field}

theorem symm (h : SameFields fields fields') : SameFields fields' fields where
  nodup := h.nodup'
  nodup' := h.nodup
  matched := h.matched.swap fun _ _ hmatch => hmatch.symm

/-- The field of a property is found in both records or in neither. -/
theorem find? (h : SameFields fields fields') (key : String) :
    Option.Rel Field.Matches (fields.find? (·.jsonName == key))
      (fields'.find? (·.jsonName == key)) := by
  have hfind {fields : List Field} (hnodup : (fields.map (·.jsonName)).Nodup) {f : Field}
      (hf : f ∈ fields) : fields.find? (·.jsonName == f.jsonName) = some f := by
    refine find?_eq_some_of_unique hf (beq_self_eq_true _) fun g hg hkey => ?_
    exact List.inj_on_of_nodup_map hnodup hg hf (beq_iff_eq.1 hkey)
  cases hfound : fields.find? (·.jsonName == key) with
  | some f =>
    obtain ⟨f', hf', hmatch⟩ := h.matched.left f (List.mem_of_find?_eq_some hfound)
    have hkey := List.find?_some hfound
    rw [← beq_iff_eq.1 hkey, hmatch.jsonName, hfind h.nodup' hf']
    exact .some hmatch
  | none =>
    have hnone : fields'.find? (·.jsonName == key) = none := by
      rw [List.find?_eq_none] at hfound ⊢
      intro f' hf'
      obtain ⟨f, hf, hmatch⟩ := h.matched.right f' hf'
      rw [← hmatch.jsonName]
      exact hfound f hf
    rw [hnone]
    exact .none

end SameFields

namespace Declaration

/-- The kinds of declared types. -/
inductive Kind where
  | record
  | enum
  | union
  | alias
  | response
  deriving DecidableEq, Repr

def kind : Declaration → Kind
  | .record _ => .record
  | .enum _ => .enum
  | .union _ => .union
  | .alias _ => .alias
  | .response _ => .response

end Declaration

/-- Whether two declarations are of one name and one kind, and made of the same types. -/
inductive Declaration.Matches : Declaration → Declaration → Prop where
  | record {decl decl' : RecordDecl} (name : decl.name = decl'.name)
    (fields : SameFields decl.fields decl'.fields) : Matches (.record decl) (.record decl')
  | enum (decl : EnumDecl) : Matches (.enum decl) (.enum decl)
  | union {decl decl' : UnionDecl} (name : decl.name = decl'.name)
    (variants : decl.variants = decl'.variants) : Matches (.union decl) (.union decl')
  | aliased {decl decl' : AliasDecl} (name : decl.name = decl'.name)
    (target : decl.target = decl'.target) : Matches (.alias decl) (.alias decl')

namespace Declaration.Matches

variable {t t' : Declaration}

theorem name_eq (h : t.Matches t') : t.name = t'.name := by
  cases h with
  | enum => rfl
  | record name | union name | aliased name => exact name

theorem kind_eq (h : t.Matches t') : t.kind = t'.kind := by cases h <;> rfl

theorem symm (h : t.Matches t') : t'.Matches t := by
  cases h with
  | record name fields => exact .record name.symm fields.symm
  | enum decl => exact .enum decl
  | union name variants => exact .union name.symm variants.symm
  | aliased name target => exact .aliased name.symm target.symm

end Declaration.Matches

/-- Whether two mappings fill fields that match with values of one type. -/
structure FieldMapping.Matches (m m' : FieldMapping) : Prop where
  field : m.field.Matches m'.field
  source : m.source = m'.source

/-- Whether two conversions are between the same records and copy the same fields. -/
structure Conversion.Matches (c c' : Conversion) : Prop where
  source : c.source = c'.source
  target : c.target = c'.target
  copied : Matched FieldMapping.Matches c.copied c'.copied
  extras : Matched Field.Matches c.extras c'.extras

theorem Conversion.Matches.symm {c c' : Conversion} (h : c.Matches c') : c'.Matches c where
  source := h.source.symm
  target := h.target.symm
  copied := h.copied.swap fun _ _ hm => ⟨hm.field.symm, hm.source.symm⟩
  extras := h.extras.swap fun _ _ hf => hf.symm

theorem Conversion.Matches.isPlain_eq {c c' : Conversion} (h : c.Matches c') :
    c.isPlain = c'.isPlain :=
  h.extras.all_eq fun f f' hmatch => by rw [hmatch.required]

end OpenApiServer
