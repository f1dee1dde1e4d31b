import OpenApiServer.Items.Basic
import OpenApiServer.Proofs.Http.Arguments
import OpenApiServer.Proofs.Json.RoundTrip
import OpenApiServer.Proofs.Text.Utf8

/-!
# Items written to a response and decoded again

The JSON form of an item is normal for its shape, so the body of a response is decoded to the item
that was written into it, whatever characters its texts have. Absent tags are left out of the body
and found absent again; an empty list of tags is written.
-/

namespace OpenApiServer.Items

open Json Http

/-- The body is decoded by the shape, and the decoded value stands for `a`. -/
def DecodesTo {α : Type} (shape : Shape) (ofJson? : Json → Option α) (body : List UInt8)
    (a : α) : Prop :=
  ∃ j, Body.decode shape body = .ok j ∧ ofJson? j = some a

theorem decodesTo_json {α : Type} {shape : Shape} {ofJson? : Json → Option α} {a : α} {j : Json}
    (hnormal : Normal shape maxDepth j) (hback : ofJson? j = some a) (code : Nat) :
    DecodesTo shape ofJson? (Response.json code j).body a := by
  refine ⟨j, Body.decode_eq_ok_iff.2 ⟨j.print, ?_, hnormal.decode_print⟩, hback⟩
  exact Utf8.decode_eq_ok_iff.2 rfl

variable {depth : Nat}

/-! ## Tags -/

theorem normal_tags (tags : List String) :
    Normal (.optional (.list .text)) (depth + 1) (.arr (tags.map .str)) := by
  refine .present (.list fun j hj => ?_) Json.noConfusion
  obtain ⟨tag, -, rfl⟩ := List.mem_map.1 hj
  exact .text tag

/-- The tags of an object are the ones that were written into it. -/
theorem tagsOf_obj {fields : List (String × Json)} {tags : Option (List String)}
    (h : fieldNamed? "tags" fields = fieldNamed? "tags" (tagFields tags)) :
    tagsOf (.obj fields) = tags := by
  have hget : (Json.obj fields).get? "tags" = fieldNamed? "tags" (tagFields tags) := h
  rw [tagsOf, hget]
  cases tags with
  | none => rfl
  | some tags =>
    have htexts : (tags.map Json.str).filterMap Json.asString? = tags := by
      rw [List.filterMap_map]
      exact List.filterMap_some
    exact congrArg some htexts

/-! ## Items -/

theorem isWord_of_contains_i32 {n : Int} (h : IntegerRange.i32.contains n = true) : IsWord n := by
  obtain ⟨hlow, hhigh⟩ := (Bool.and_eq_true _ _).mp h
  have hlow : -2147483648 ≤ n := of_decide_eq_true hlow
  have hhigh : n ≤ 2147483647 := of_decide_eq_true hhigh
  have h63 : Int.pow 2 63 = 9223372036854775808 := rfl
  have h64 : Int.pow 2 64 = 18446744073709551616 := rfl
  rw [IsWord, h63, h64]
  omega

namespace Item

theorem normal_toJson {item : Item} (h : IntegerRange.i32.contains item.id = true) :
    Normal shape (depth + 2) item.toJson := by
  obtain ⟨id, name, tags⟩ := item
  have hid : Normal (.integer .i32) (depth + 1) (.num (.int id)) :=
    .integer h (isWord_of_contains_i32 h)
  have hname : Normal .text (depth + 1) (.str name) := .text name
  cases tags with
  | none =>
    apply Normal.record_of_forall
    · exact (by decide : ["id", "name"].Nodup)
    · simp [Shape.Complete, Shape.isOptional, fieldNamed?, tagFields]
    · rfl
    · simp only [tagFields, List.append_nil, List.forall_mem_cons]
      exact ⟨⟨_, rfl, hid⟩, ⟨_, rfl, hname⟩, List.forall_mem_nil _⟩
  | some tags =>
    apply Normal.record_of_forall
    · exact (by decide : ["id", "name", "tags"].Nodup)
    · simp [Shape.Complete, Shape.isOptional, fieldNamed?, tagFields]
    · rfl
    · simp only [tagFields, List.cons_append, List.nil_append, List.forall_mem_cons]
      exact ⟨⟨_, rfl, hid⟩, ⟨_, rfl, hname⟩, ⟨_, rfl, normal_tags tags⟩, List.forall_mem_nil _⟩

theorem ofJson?_toJson (item : Item) : ofJson? item.toJson = some item := by
  obtain ⟨id, name, tags⟩ := item
  have htags : tagsOf (toJson ⟨id, name, tags⟩) = tags := tagsOf_obj rfl
  have hjson : ofJson? (toJson ⟨id, name, tags⟩) =
      some ⟨id, name, tagsOf (toJson ⟨id, name, tags⟩)⟩ := rfl
  rw [hjson, htags]

end Item

namespace NewItem

theorem normal_toJson (item : NewItem) : Normal shape (depth + 2) item.toJson := by
  obtain ⟨name, tags⟩ := item
  have hname : Normal .text (depth + 1) (.str name) := .text name
  cases tags with
  | none =>
    apply Normal.record_of_forall
    · exact (by decide : ["name"].Nodup)
    · simp [Shape.Complete, Shape.isOptional, fieldNamed?, tagFields]
    · rfl
    · simp only [tagFields, List.forall_mem_cons]
      exact ⟨⟨_, rfl, hname⟩, List.forall_mem_nil _⟩
  | some tags =>
    apply Normal.record_of_forall
    · exact (by decide : ["name", "tags"].Nodup)
    · simp [Shape.Complete, Shape.isOptional, fieldNamed?, tagFields]
    · rfl
    · simp only [tagFields, List.forall_mem_cons]
      exact ⟨⟨_, rfl, hname⟩, ⟨_, rfl, normal_tags tags⟩, List.forall_mem_nil _⟩

theorem ofJson?_toJson (item : NewItem) : ofJson? item.toJson = some item := by
  obtain ⟨name, tags⟩ := item
  have htags : tagsOf (toJson ⟨name, tags⟩) = tags := tagsOf_obj rfl
  have hjson : ofJson? (toJson ⟨name, tags⟩) = some ⟨name, tagsOf (toJson ⟨name, tags⟩)⟩ := rfl
  rw [hjson, htags]

end NewItem

/-! ## Lists of items -/

theorem normal_listToJson {items : List Item}
    (h : ∀ item ∈ items, IntegerRange.i32.contains item.id = true) :
    Normal listShape (depth + 3) (listToJson items) := by
  refine .list fun j hj => ?_
  obtain ⟨item, hitem, rfl⟩ := List.mem_map.1 hj
  exact Item.normal_toJson (h item hitem)

theorem listOfJson?_listToJson (items : List Item) :
    listOfJson? (listToJson items) = some items := by
  have hall : (items.map Item.toJson).mapM Item.ofJson? = some items := by
    induction items with
    | nil => rfl
    | cons item items ih => simp [List.mapM_cons, Item.ofJson?_toJson, ih]
  exact hall

/-- An item, a new item and a list of items are decoded from the body of a response as they were
written, whatever texts they hold and with absent tags told from an empty list of them. -/
theorem written_items_decoded (code : Nat) :
    (∀ item : Item, IntegerRange.i32.contains item.id = true →
      DecodesTo Item.shape Item.ofJson? (Response.json code item.toJson).body item) ∧
    (∀ item : NewItem,
      DecodesTo NewItem.shape NewItem.ofJson? (Response.json code item.toJson).body item) ∧
    ∀ items : List Item, (∀ item ∈ items, IntegerRange.i32.contains item.id = true) →
      DecodesTo listShape listOfJson? (Response.json code (listToJson items)).body items := by
  refine ⟨fun item hid => ?_, fun item => ?_, fun items hids => ?_⟩
  · exact decodesTo_json (Item.normal_toJson hid) item.ofJson?_toJson code
  · exact decodesTo_json item.normal_toJson item.ofJson?_toJson code
  · exact decodesTo_json (normal_listToJson hids) (listOfJson?_listToJson items) code

/-- A list with a negative number, a text of quotes and control characters, and tags that are
absent, empty or no ASCII. -/
theorem escaped_items_decoded :
    let items : List Item := [⟨-2147483648, "a \"quote\"\n\x00", none⟩, ⟨0, "", some []⟩,
      ⟨7, "\\", some ["é", "\x1f𝄞"]⟩]
    (∀ item ∈ items, IntegerRange.i32.contains item.id = true) ∧
      DecodesTo listShape listOfJson? (Response.json 200 (listToJson items)).body items := by
  intro items
  have hids : ∀ item ∈ items, IntegerRange.i32.contains item.id = true := by decide
  exact ⟨hids, (written_items_decoded 200).2.2 items hids⟩

end OpenApiServer.Items
