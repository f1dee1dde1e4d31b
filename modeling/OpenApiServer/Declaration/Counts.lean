import OpenApiServer.Declaration.Operation

/-!
# Counting declarations

How many declarations of each kind a server has, for the report after a run.
-/

namespace OpenApiServer

structure DeclarationCounts where
  types : Nat
  records : Nat
  enums : Nat
  unions : Nat
  aliases : Nat
  responses : Nat
  enumConversions : Nat
  conversions : Nat
  operations : Nat
  routes : Nat
  boxedFields : Nat
  deriving DecidableEq, Repr

namespace Declaration

def isRecord : Declaration → Bool
  | .record _ => true
  | _ => false

def isEnum : Declaration → Bool
  | .enum _ => true
  | _ => false

def isUnion : Declaration → Bool
  | .union _ => true
  | _ => false

def isAlias : Declaration → Bool
  | .alias _ => true
  | _ => false

def isResponse : Declaration → Bool
  | .response _ => true
  | _ => false

end Declaration

def ServerModel.counts (m : ServerModel) : DeclarationCounts where
  types := m.types.length
  records := m.types.countP (·.isRecord)
  enums := m.types.countP (·.isEnum)
  unions := m.types.countP (·.isUnion)
  aliases := m.types.countP (·.isAlias)
  responses := m.types.countP (·.isResponse)
  enumConversions := m.enumConversions.length
  conversions := m.conversions.length
  operations := m.operations.length
  routes := m.routeTables.foldr (fun t count => t.routes.length + count) 0
  boxedFields := m.boxedFields

end OpenApiServer
