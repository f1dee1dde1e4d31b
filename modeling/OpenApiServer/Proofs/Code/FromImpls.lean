import OpenApiServer.Code.Types
import Mathlib.Data.List.Basic

/-!
# The conversions that the file of types implements

A union implements the conversion from each of its declared payload types, the responses of an
operation from each payload type that only one of them carries, an enumeration from its siblings and
a merged record from the parts that need no extra arguments.
-/

namespace OpenApiServer

namespace Code

/-- What an implementation of a conversion is from and for. -/
def Item.fromPair? : Item → Option (CodeType × CodeType)
  | .impl (some (.path "From" [source])) target _ => some (source, target)
  | _ => none

end Code

/-- The types that convert into a declared type by its own conversions. -/
def Declaration.sources : Declaration → List TypeExpr
  | .union decl => decl.convertible.map (·.payload)
  | .response decl => decl.shortcuts.map (·.1)
  | _ => []

/-- The conversions of a declaration: source and target. -/
def Declaration.fromPairs (t : Declaration) : List (TypeExpr × TypeName) :=
  t.sources.map (·, t.name)

def EnumConversion.fromPair (c : EnumConversion) : TypeExpr × TypeName :=
  (.named c.source, c.target)

def Conversion.fromPair (c : Conversion) : TypeExpr × TypeName := (.named c.source, c.target)

/-- All conversions, in the order of the file. -/
def ServerModel.fromPairs (m : ServerModel) : List (TypeExpr × TypeName) :=
  (m.types.filter (!·.isResponse)).flatMap (·.fromPairs) ++
    m.enumConversions.map (·.fromPair) ++ (m.conversions.filter (·.isPlain)).map (·.fromPair) ++
    (m.types.filter (·.isResponse)).flatMap (·.fromPairs)

namespace Code

/-- Source and target as they are written. -/
def fromCode (pair : TypeExpr × TypeName) : CodeType × CodeType :=
  (pair.1.code, .path pair.2.text [])

variable (visibility : Visibility)

theorem fromPairs_payloadImpl {α : Type} (xs : List α) (target : TypeName)
    (payload : α → TypeExpr) (variant : α → TypeName) :
    (xs.map fun x => payloadImpl target (payload x) (variant x)).filterMap Item.fromPair? =
      ((xs.map payload).map (·, target)).map fromCode := by
  induction xs with
  | nil => rfl
  | cons x rest ih => exact congrArg (fromCode (payload x, target) :: ·) ih

theorem fromPairs_union (u : UnionDecl) :
    (union visibility u).filterMap Item.fromPair? =
      (Declaration.union u).fromPairs.map fromCode := by
  have hmethods (items : List ImplItem) :
      (if items.isEmpty then [] else [Item.impl none (.path u.name.text []) items]).filterMap
        Item.fromPair? = [] := by
    split <;> rfl
  rw [union, List.filterMap_append, List.filterMap_append, hmethods, fromPairs_payloadImpl]
  rfl

theorem fromPairs_response (r : ResponseDecl) :
    (response visibility r).filterMap Item.fromPair? =
      (Declaration.response r).fromPairs.map fromCode := by
  rw [response, List.filterMap_append, fromPairs_payloadImpl r.shortcuts r.name (·.1) (·.2.name)]
  rfl

theorem fromPairs_declaration (t : Declaration) :
    (declaration visibility t).filterMap Item.fromPair? = t.fromPairs.map fromCode := by
  cases t with
  | union u => exact fromPairs_union visibility u
  | response r => exact fromPairs_response visibility r
  | _ => rfl

theorem fromPairs_conversions (conversions : List Conversion) :
    (conversions.map (conversion visibility)).filterMap Item.fromPair? =
      ((conversions.filter (·.isPlain)).map (·.fromPair)).map fromCode := by
  induction conversions with
  | nil => rfl
  | cons c rest ih =>
    rw [List.map_cons, conversion]
    dsimp only
    split_ifs with hplain
    · rw [List.filter_cons_of_pos hplain]
      exact congrArg _ ih
    · rw [List.filter_cons_of_neg hplain]
      exact ih

theorem fromPairs_enumConversions (conversions : List EnumConversion) :
    (conversions.map enumConversion).filterMap Item.fromPair? =
      (conversions.map (·.fromPair)).map fromCode := by
  induction conversions with
  | nil => rfl
  | cons c rest ih => exact congrArg (fromCode c.fromPair :: ·) ih

theorem fromPairs_declarations (types : List Declaration) :
    (types.flatMap (declaration visibility)).filterMap Item.fromPair? =
      (types.flatMap (·.fromPairs)).map fromCode := by
  simp only [List.filterMap_flatMap, fromPairs_declaration, List.map_flatMap]

/-- The conversions that the file of types implements. -/
theorem fromPairs_typeItems (m : ServerModel) :
    (typeItems visibility m).filterMap Item.fromPair? = m.fromPairs.map fromCode := by
  simp only [typeItems, ServerModel.fromPairs, List.filterMap_append, List.map_append,
    fromPairs_declarations, fromPairs_enumConversions, fromPairs_conversions]

end Code

end OpenApiServer
