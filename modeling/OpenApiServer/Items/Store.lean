import OpenApiServer.Items.Server

/-!
# An application that keeps items in memory

Items stay in the order of their creation and are numbered from one. The log holds every call that
reached the application, in words.
-/

namespace OpenApiServer.Items

structure Store where
  items : List Item
  log : List String
  deriving Repr

namespace Store

def empty : Store := ⟨[], []⟩

def optionText (write : String → String) : Option String → String
  | some s => "Some(" ++ write s ++ ")"
  | none => "None"

def listText (tags : List String) : String :=
  "[" ++ Text.joinWith ", " (tags.map Text.debugQuoted) ++ "]"

def tagsText (tags : Option (List String)) : String := optionText id (tags.map listText)

def describe : Call → String
  | .listItems limit tag =>
    "list_items limit=" ++ optionText id (limit.map toString) ++ " tag=" ++ tagsText tag
  | .createItem item => "create_item name=" ++ item.name ++ " tags=" ++ tagsText item.tags
  | .getItem id => "get_item id=" ++ toString id

def noted (s : Store) (call : Call) : Store := { s with log := s.log ++ [describe call] }

def hasTags (wanted : List String) (item : Item) : Bool :=
  wanted.all fun tag => (item.tags.getD []).contains tag

def select (s : Store) (limit : Option Nat) (tag : Option (List String)) : List Item :=
  let found := s.items.filter (hasTags (tag.getD []))
  match limit with
  | some n => found.take n
  | none => found

def create (s : Store) (new : NewItem) : Except String CreateItemResponse × Store :=
  if new.name = "" then (.error "name must not be empty", s)
  else if s.items.any (·.name == new.name) then
    (.ok (.other ⟨"`" ++ new.name ++ "` exists"⟩), s)
  else
    let item : Item := ⟨(s.items.length + 1 : Nat), new.name, new.tags⟩
    (.ok (.http201 item), { s with items := s.items ++ [item] })

def get (s : Store) (id : Int) : GetItemResponse :=
  match s.items.find? (·.id == id) with
  | some item => .http200 item
  | none => .http404

def api : Api Store where
  listItems limit tag s := (.ok (.http200 (s.select limit tag)), s.noted (.listItems limit tag))
  createItem new s := (s.noted (.createItem new)).create new
  getItem id s := (.ok (s.get id), s.noted (.getItem id))

end Store

end OpenApiServer.Items
