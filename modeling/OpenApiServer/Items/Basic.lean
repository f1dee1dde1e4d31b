import OpenApiServer.Json.Shape

/-!
# Items

The types of a small item service with their JSON forms. The tags of an item are optional: absent
tags are left out of the JSON object, and an empty list of tags is written.
-/

namespace OpenApiServer.Items

structure Item where
  id : Int
  name : String
  tags : Option (List String)
  deriving DecidableEq, Repr

structure NewItem where
  name : String
  tags : Option (List String)
  deriving DecidableEq, Repr

structure Problem where
  message : String
  deriving DecidableEq, Repr

def tagFields : Option (List String) → List (String × Json)
  | some tags => [("tags", .arr (tags.map .str))]
  | none => []

def tagsOf (j : Json) : Option (List String) :=
  ((j.get? "tags").bind Json.asArray?).map (·.filterMap Json.asString?)

namespace Item

def shape : Json.Shape :=
  .record "Item" [("id", .integer .i32), ("name", .text), ("tags", .optional (.list .text))]

def toJson (item : Item) : Json :=
  .obj ([("id", .num (.int item.id)), ("name", .str item.name)] ++ tagFields item.tags)

def ofJson? (j : Json) : Option Item := do
  let name ← j.string "name"
  match ← j.get? "id" with
  | .num (.int id) => return ⟨id, name, tagsOf j⟩
  | _ => none

end Item

namespace NewItem

def shape : Json.Shape := .record "NewItem" [("name", .text), ("tags", .optional (.list .text))]

def toJson (item : NewItem) : Json := .obj (("name", .str item.name) :: tagFields item.tags)

def ofJson? (j : Json) : Option NewItem := do
  return ⟨← j.string "name", tagsOf j⟩

end NewItem

/-- The shape of a list of items. -/
def listShape : Json.Shape := .list Item.shape

def listToJson (items : List Item) : Json := .arr (items.map Item.toJson)

def listOfJson? (j : Json) : Option (List Item) := do
  (← j.asArray?).mapM Item.ofJson?

def Problem.toJson (p : Problem) : Json := .obj [("message", .str p.message)]

end OpenApiServer.Items
