import OpenApiServer.Document.Basic
import OpenApiServer.Proofs.Data.Except
import OpenApiServer.Proofs.Json.Keys
import OpenApiServer.Schema.Basic

/-!
# Kinds of schemas

The keywords of a node decide of which kind its view is. Equal nodes have views of the same kind,
and they refer to the same node if they are references.
-/

namespace OpenApiServer

namespace Schema

inductive Kind where
  | primitive
  | reference
  | array
  | object
  | allOf
  | oneOf
  | stringEnum
  deriving DecidableEq, Repr

def kind : Schema → Kind
  | .primitive _ _ => .primitive
  | .reference _ => .reference
  | .array _ => .array
  | .object _ _ => .object
  | .allOf _ => .allOf
  | .oneOf _ => .oneOf
  | .stringEnum _ _ => .stringEnum

/-- Whether schemas of the kind have fields. -/
def Kind.isRecord : Kind → Bool
  | .object => true
  | .allOf => true
  | _ => false

/-- The kind of a node that declares a type, or none. -/
def kindOfType : Option String → Kind
  | some "array" => .array
  | some "object" => .object
  | some _ => .primitive
  | none => .object

end Schema

/-- The kind that the keywords of a node tell. -/
def Json.schemaKind (node : Json) : Schema.Kind :=
  if (Document.reference? node).isSome then .reference
  else if (node.get? "allOf").isSome then .allOf
  else if (node.get? "oneOf").isSome then .oneOf
  else if (node.get? "enum").isSome || (node.get? "const").isSome then .stringEnum
  else Schema.kindOfType (node.string "type")

namespace Schema

variable {context : String} {node : Json} {s : Schema}

theorem kind_of_object? (h : object? context node = .ok s) : s.kind = .object := by
  unfold object? at h
  dsimp only at h
  split at h
  all_goals
    obtain ⟨properties, -, h⟩ := bind_eq_ok_iff.1 h
    split at h
    all_goals
      obtain ⟨required, -, h⟩ := bind_eq_ok_iff.1 h
      obtain rfl := Except.ok.inj h
      rfl

/-- Whether or not there is a default, the view of an enumeration is one. -/
theorem kind_of_enum? {type : Option String} (h : enum? context node type = .ok s) :
    s.kind = .stringEnum := by
  unfold enum? at h
  dsimp only at h
  split at h
  · cases h
  · split at h
    all_goals
      obtain ⟨values, -, h⟩ := bind_eq_ok_iff.1 h
      obtain ⟨members, -, h⟩ := bind_eq_ok_iff.1 h
      split at h
      · cases h
      · split at h
        · obtain rfl := Except.ok.inj h
          rfl
        · split at h
          · obtain rfl := Except.ok.inj h
            rfl
          · cases h
        · cases h

theorem kind_of_ofType {type : Option String} (h : ofType context node type = .ok s) :
    s.kind = kindOfType type := by
  rw [ofType.eq_def] at h
  split at h
  case h_1 => exact kind_of_object? h
  case h_2 =>
    split at h
    · obtain rfl := Except.ok.inj h
      rfl
    · cases h
  case h_8 => cases h
  case h_9 =>
    split at h
    · exact kind_of_object? h
    · cases h
  all_goals
    obtain rfl := Except.ok.inj h
    rfl

theorem string_of_declaredType {type : Option String} (h : declaredType context node = .ok type) :
    type = node.string "type" := by
  rw [declaredType] at h
  rw [Json.string]
  split at h
  next htype =>
    obtain rfl := Except.ok.inj h
    rw [htype]
    rfl
  next htype =>
    obtain rfl := Except.ok.inj h
    rw [htype]
    rfl
  next => cases h

theorem kind_of_ofPlain (h : ofPlain context node = .ok s) :
    s.kind = if (node.get? "enum").isSome || (node.get? "const").isSome then .stringEnum
      else kindOfType (node.string "type") := by
  unfold ofPlain at h
  dsimp only at h
  split at h
  · cases h
  · split at h
    · cases h
    · obtain ⟨type, htype, h⟩ := bind_eq_ok_iff.1 h
      rw [← string_of_declaredType htype]
      split_ifs at h ⊢
      · exact kind_of_enum? h
      · exact kind_of_ofType h

theorem reference?_eq_none_of_get? (h : node.get? "$ref" = none) :
    Document.reference? node = none := by
  rw [Document.reference?, Json.string, h]
  rfl

theorem kind_of_classify (h : classify context node = .ok s) : s.kind = node.schemaKind := by
  rw [classify] at h
  split at h
  · cases h
  · rw [Json.schemaKind]
    split at h
    next pointer href =>
      obtain rfl := Except.ok.inj h
      rw [if_pos (by simp [Document.reference?, Json.string, href, Json.asString?])]
      rfl
    next => cases h
    next href hall =>
      obtain ⟨parts, -, rfl⟩ := map_eq_ok_iff.1 h
      simp [reference?_eq_none_of_get? href, hall, kind]
    next href hall hone =>
      obtain ⟨arms, -, rfl⟩ := map_eq_ok_iff.1 h
      simp [reference?_eq_none_of_get? href, hall, hone, kind]
    next href hall hone =>
      rw [kind_of_ofPlain h]
      simp [reference?_eq_none_of_get? href, hall, hone]

/-! ## What a view takes from its node -/

theorem eq_arr_of_nonEmptyList {keyword : String} {parts : List Json}
    (h : nonEmptyList context keyword node = .ok parts) : node = .arr parts := by
  unfold nonEmptyList at h
  split at h
  · obtain rfl := Except.ok.inj h
    rfl
  · cases h

/-- A view is a reference, has parts or arms that the node lists, or is the view of a plain node. -/
theorem classify_eq_ok (h : classify context node = .ok s) :
    (∃ pointer, s = .reference pointer ∧ node.get? "$ref" = some (.str pointer)) ∨
    (∃ parts, s = .allOf parts ∧ node.get? "allOf" = some (.arr parts)) ∨
    (∃ arms, s = .oneOf arms ∧ node.get? "oneOf" = some (.arr arms)) ∨
    ofPlain context node = .ok s := by
  rw [classify] at h
  split at h
  · cases h
  · split at h
    next pointer href => exact .inl ⟨pointer, (Except.ok.inj h).symm, href⟩
    next => cases h
    next hall =>
      obtain ⟨parts, hparts, rfl⟩ := map_eq_ok_iff.1 h
      exact .inr (.inl ⟨parts, rfl, eq_arr_of_nonEmptyList hparts ▸ hall⟩)
    next hone =>
      obtain ⟨arms, harms, rfl⟩ := map_eq_ok_iff.1 h
      exact .inr (.inr (.inl ⟨arms, rfl, eq_arr_of_nonEmptyList harms ▸ hone⟩))
    next => exact .inr (.inr (.inr h))

/-- A plain node is an enumeration or has the view of its type. -/
theorem ofPlain_eq_ok (h : ofPlain context node = .ok s) :
    ∃ type, enum? context node type = .ok s ∨ ofType context node type = .ok s := by
  unfold ofPlain at h
  dsimp only at h
  split at h
  · cases h
  · split at h
    · cases h
    · obtain ⟨type, -, h⟩ := bind_eq_ok_iff.1 h
      split_ifs at h
      · exact ⟨type, .inl h⟩
      · exact ⟨type, .inr h⟩

theorem get?_allOf_of_classify {parts : List Json}
    (h : classify context node = .ok (.allOf parts)) : node.get? "allOf" = some (.arr parts) := by
  rcases classify_eq_ok h with ⟨_, heq, -⟩ | ⟨_, heq, hall⟩ | ⟨_, heq, -⟩ | hplain
  · cases heq
  · cases heq
    exact hall
  · cases heq
  · obtain ⟨type, henum | htype⟩ := ofPlain_eq_ok hplain
    · cases kind_of_enum? henum
    · have hkind := kind_of_ofType htype
      unfold kindOfType at hkind
      split at hkind <;> cases hkind

theorem get?_oneOf_of_classify {arms : List Json}
    (h : classify context node = .ok (.oneOf arms)) : node.get? "oneOf" = some (.arr arms) := by
  rcases classify_eq_ok h with ⟨_, heq, -⟩ | ⟨_, heq, -⟩ | ⟨_, heq, hone⟩ | hplain
  · cases heq
  · cases heq
  · cases heq
    exact hone
  · obtain ⟨type, henum | htype⟩ := ofPlain_eq_ok hplain
    · cases kind_of_enum? henum
    · have hkind := kind_of_ofType htype
      unfold kindOfType at hkind
      split at hkind <;> cases hkind

theorem get?_items_of_classify {items : Json}
    (h : classify context node = .ok (.array items)) : node.get? "items" = some items := by
  rcases classify_eq_ok h with ⟨_, heq, -⟩ | ⟨_, heq, -⟩ | ⟨_, heq, -⟩ | hplain
  iterate 3 cases heq
  obtain ⟨type, henum | htype⟩ := ofPlain_eq_ok hplain
  · cases kind_of_enum? henum
  · rw [ofType.eq_def] at htype
    split at htype
    case h_1 => cases kind_of_object? htype
    case h_2 =>
      split at htype
      next items' hitems =>
        obtain rfl := Schema.array.inj (Except.ok.inj htype)
        exact hitems
      next => cases htype
    case h_9 =>
      split at htype
      · cases kind_of_object? htype
      · cases htype
    all_goals cases htype

/-- The properties of a view are the ones that the node lists; a node can list none. -/
theorem properties_of_object? {properties : List (String × Json)} {required : List String}
    (h : object? context node = .ok (.object properties required)) :
    properties = [] ∨ node.get? "properties" = some (.obj properties) := by
  unfold object? at h
  dsimp only at h
  split at h
  case h_3 =>
    obtain ⟨_, hfail, -⟩ := bind_eq_ok_iff.1 h
    cases hfail
  all_goals
    obtain ⟨properties', hproperties, h⟩ := bind_eq_ok_iff.1 h
    obtain rfl := Except.ok.inj hproperties
    split at h
    all_goals
      obtain ⟨required', -, h⟩ := bind_eq_ok_iff.1 h
      obtain ⟨rfl, -⟩ := Schema.object.inj (Except.ok.inj h)
      first
        | exact .inl rfl
        | exact .inr ‹_›

theorem object?_of_ofPlain {properties : List (String × Json)} {required : List String}
    (h : ofPlain context node = .ok (.object properties required)) :
    object? context node = .ok (.object properties required) := by
  obtain ⟨type, henum | htype⟩ := ofPlain_eq_ok h
  · cases kind_of_enum? henum
  · rw [ofType.eq_def] at htype
    split at htype
    case h_1 => exact htype
    case h_2 => split at htype <;> cases htype
    case h_9 =>
      split at htype
      · exact htype
      · cases htype
    all_goals cases htype

theorem properties_of_classify {properties : List (String × Json)} {required : List String}
    (h : classify context node = .ok (.object properties required)) :
    properties = [] ∨ node.get? "properties" = some (.obj properties) := by
  rcases classify_eq_ok h with ⟨_, heq, -⟩ | ⟨_, heq, -⟩ | ⟨_, heq, -⟩ | hplain
  iterate 3 cases heq
  exact properties_of_object? (object?_of_ofPlain hplain)

/-- What the view of a node without repeated keys lists repeats no key either. -/
theorem nodup_of_classify (hkeys : node.DistinctKeys) {properties : List (String × Json)}
    {required : List String} (h : classify context node = .ok (.object properties required)) :
    (properties.map (·.1)).Nodup := by
  rcases properties_of_classify h with rfl | hproperties
  · exact List.nodup_nil
  · exact (Json.distinctKeys_obj_iff.1 (hkeys.get? hproperties)).1

theorem parts_distinctKeys (hkeys : node.DistinctKeys) {parts : List Json}
    (h : classify context node = .ok (.allOf parts)) : ∀ part ∈ parts, part.DistinctKeys :=
  Json.distinctKeys_arr_iff.1 (hkeys.get? (get?_allOf_of_classify h))

/-- The nodes that a view takes over. -/
def nodes : Schema → List Json
  | .array items => [items]
  | .object properties _ => properties.map (·.2)
  | .allOf parts => parts
  | .oneOf arms => arms
  | _ => []

/-- What passes on to the parts of a node holds of the nodes that its view takes over. -/
theorem forall_nodes {N : Json → Prop} (hN : Json.Hereditary N) (hnode : N node)
    (h : classify context node = .ok s) : ∀ j ∈ s.nodes, N j := by
  cases s with
  | array items =>
    rintro j hj
    obtain rfl := List.mem_singleton.1 hj
    exact hN.get? hnode (get?_items_of_classify h)
  | object properties required =>
    rcases properties_of_classify h with rfl | hproperties
    · simp [nodes]
    · exact List.forall_mem_map.2 (hN.obj (hN.get? hnode hproperties))
  | allOf parts => exact hN.arr (hN.get? hnode (get?_allOf_of_classify h))
  | oneOf arms => exact hN.arr (hN.get? hnode (get?_oneOf_of_classify h))
  | _ => simp [nodes]

theorem mem_of_nullableArm? {arms : List Json} {arm : Json} (h : nullableArm? arms = some arm) :
    arm ∈ arms := by
  unfold nullableArm? at h
  split at h
  next first second =>
    split at h
    next =>
      obtain rfl := Option.some.inj h
      simp
    next =>
      obtain rfl := Option.some.inj h
      simp
    next => cases h
  next => cases h

end Schema

theorem Schema.kindOfType_ne_reference (type : Option String) :
    kindOfType type ≠ .reference := by
  unfold kindOfType
  split <;> simp

theorem Json.schemaKind_eq_reference_iff {node : Json} :
    node.schemaKind = .reference ↔ (Document.reference? node).isSome = true := by
  rw [schemaKind]
  split_ifs with href <;> simp [href, Schema.kindOfType_ne_reference]

theorem Json.reference?_eq_none_of_isRecord {node : Json} (h : node.schemaKind.isRecord = true) :
    Document.reference? node = none := by
  cases hreference : Document.reference? node with
  | none => rfl
  | some pointer =>
    rw [schemaKind_eq_reference_iff.2 (Option.isSome_of_eq_some hreference)] at h
    cases h

/-- The view of a node is a reference if and only if the node is one. -/
theorem Schema.eq_reference_iff {context pointer : String} {node : Json} {s : Schema}
    (h : classify context node = .ok s) :
    s = .reference pointer ↔ Document.reference? node = some pointer := by
  constructor
  · rintro rfl
    have hkind := kind_of_classify h
    obtain ⟨found, hfound⟩ :=
      Option.isSome_iff_exists.1 (Json.schemaKind_eq_reference_iff.1 hkind.symm)
    rw [hfound]
    obtain ⟨j, hget, hstring⟩ := Option.bind_eq_some_iff.1 hfound
    cases j with
    | str text =>
      rw [classify, hget] at h
      split_ifs at h
      obtain rfl := Schema.reference.inj (Except.ok.inj h)
      exact hstring.symm
    | _ => cases hstring
  · intro hreference
    obtain ⟨j, hget, hstring⟩ := Option.bind_eq_some_iff.1 hreference
    cases j with
    | str text =>
      obtain rfl := Option.some.inj hstring
      rw [classify, hget] at h
      split_ifs at h
      exact (Except.ok.inj h).symm
    | _ => cases hstring

/-- Whether two nodes have views of one kind and, as references, one pointer. -/
def Json.Alike (a b : Json) : Prop :=
  a.schemaKind = b.schemaKind ∧ Document.reference? a = Document.reference? b

theorem Json.Alike.refl (a : Json) : a.Alike a := ⟨rfl, rfl⟩

theorem Json.alike_of_same {a b : Json} (hkeys : a.DistinctKeys) (h : a.same b = true) :
    a.Alike b := by
  refine ⟨?_, string_of_same hkeys h "$ref"⟩
  have hsome := isSome_get?_of_same hkeys h
  rw [schemaKind, schemaKind, Document.reference?, Document.reference?, string_of_same hkeys h,
    string_of_same hkeys h, hsome, hsome, hsome, hsome]

end OpenApiServer
