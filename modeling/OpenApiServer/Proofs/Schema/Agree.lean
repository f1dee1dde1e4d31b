import OpenApiServer.Proofs.Json.Agree
import OpenApiServer.Proofs.Schema.Kind

/-!
# Views of nodes that agree

Nodes that agree have views of the same form. Where the view takes a text from the node the texts are
equal, and where it takes a node over the nodes agree; only the order of properties can differ.
-/

namespace OpenApiServer

namespace Schema

/-- Whether two views have one form and take over nodes that agree. -/
inductive Agrees : Schema → Schema → Prop where
  | primitive (kind : PrimitiveKind) (format : Option String) :
    Agrees (.primitive kind format) (.primitive kind format)
  | reference (pointer : String) : Agrees (.reference pointer) (.reference pointer)
  | array {items items' : Json} (agree : items.Agrees items') :
    Agrees (.array items) (.array items')
  | object {properties properties' : List (String × Json)} {required : List String}
    (agree : Json.FieldsAgree properties properties') :
    Agrees (.object properties required) (.object properties' required)
  | allOf {parts parts' : List Json} (agree : List.Forall₂ Json.Agrees parts parts') :
    Agrees (.allOf parts) (.allOf parts')
  | oneOf {arms arms' : List Json} (agree : List.Forall₂ Json.Agrees arms arms') :
    Agrees (.oneOf arms) (.oneOf arms')
  | stringEnum (members : List String) (default : Option String) :
    Agrees (.stringEnum members default) (.stringEnum members default)

variable {context : String} {a b : Json} {s : Schema}

theorem nonEmptyList_agree {keyword : String} {parts : List Json} (h : a.Agrees b)
    (hlist : nonEmptyList context keyword a = .ok parts) :
    ∃ parts', nonEmptyList context keyword b = .ok parts' ∧
      List.Forall₂ Json.Agrees parts parts' := by
  obtain rfl := eq_arr_of_nonEmptyList hlist
  obtain ⟨parts', rfl, hparts⟩ := h.exists_items
  refine ⟨parts', ?_, hparts⟩
  cases hparts with
  | nil => cases hlist
  | cons => rfl

theorem requiredNames_agree {nodes nodes' : List Json} {names : List String}
    (h : List.Forall₂ Json.Agrees nodes nodes')
    (hnames : nodes.mapM (requiredName context) = .ok names) :
    nodes'.mapM (requiredName context) = .ok names := by
  rw [mapM_eq_ok_iff] at hnames ⊢
  refine forall₂_trans_mem h.flip hnames fun node' _ node name hagree hname => ?_
  cases node with
  | str text =>
      rw [Json.Agrees.eq_str hagree]
      exact hname
  | _ => cases hname

theorem distinctMembers_agree {found members : List String} {values values' : List Json}
    (h : List.Forall₂ Json.Agrees values values')
    (hmembers : distinctMembers context found values = .ok members) :
    distinctMembers context found values' = .ok members := by
  induction h generalizing found with
  | nil => exact hmembers
  | @cons value value' _ _ hagree _ ih =>
    cases value with
    | str text =>
      rw [hagree.eq_str]
      exact ih hmembers
    | _ => cases hmembers

/-- The enumeration of some values with a default. -/
def enumOf (context : String) (values : List Json) (default : Option Json) :
    Except BuildError Schema := do
  let members ← distinctMembers context [] values
  if members.isEmpty then .error (.unsupported context .enumEmpty)
  match default with
  | none => return .stringEnum members none
  | some (.str default) =>
    if default ∈ members then return .stringEnum members (some default)
    else .error (.unsupported context (.badDefault (.str default)))
  | some other => .error (.unsupported context (.badDefault other))

/-- The values agree, so the members are the same, and so is the default. -/
theorem enumOf_agree {values values' : List Json} {default default' : Option Json}
    (h : List.Forall₂ Json.Agrees values values') (hdefault : Option.Rel Json.Agrees default default')
    (hview : enumOf context values default = .ok s) :
    ∃ s', enumOf context values' default' = .ok s' ∧ s.Agrees s' := by
  unfold enumOf at hview ⊢
  obtain ⟨members, hmembers, hview⟩ := bind_eq_ok_iff.1 hview
  rw [distinctMembers_agree h hmembers]
  dsimp only [bind, Except.bind] at hview ⊢
  split at hview
  · cases hview
  next hsome =>
    rw [if_neg hsome]
    cases hdefault with
    | none =>
      obtain rfl := Except.ok.inj hview
      exact ⟨_, rfl, .stringEnum members none⟩
    | @some v w hagree =>
      cases v with
      | str text =>
        obtain rfl := hagree.eq_str
        dsimp only at hview ⊢
        split at hview
        next hmem =>
          obtain rfl := Except.ok.inj hview
          exact ⟨_, if_pos hmem, .stringEnum members _⟩
        next => cases hview
      | _ => cases hview

section Nodes

variable (hkeys : a.DistinctKeys) (h : a.Agrees b)

include hkeys h

theorem object?_agree (hview : object? context a = .ok s) :
    ∃ s', object? context b = .ok s' ∧ s.Agrees s' := by
  have hproperties := h.get? hkeys "properties"
  have hrequired := h.get? hkeys "required"
  have hdistinct : ∀ v, a.get? "properties" = some v → v.DistinctKeys := fun v hv => hkeys.get? hv
  unfold object? at hview ⊢
  dsimp only at hview ⊢
  generalize a.get? "properties" = v, b.get? "properties" = w at hproperties hdistinct hview ⊢
  generalize a.get? "required" = x, b.get? "required" = y at hrequired hview ⊢
  cases hproperties with
  | none =>
    cases hrequired with
    | none =>
      obtain rfl := Except.ok.inj hview
      exact ⟨_, rfl, .object (.refl [])⟩
    | @some x y hagree =>
      cases x with
      | arr items =>
        obtain ⟨others, rfl, hitems⟩ := hagree.exists_items
        obtain ⟨_, hlist, hview⟩ := bind_eq_ok_iff.1 hview
        obtain rfl := Except.ok.inj hlist
        obtain ⟨required, hnames, hview⟩ := bind_eq_ok_iff.1 hview
        obtain rfl := Except.ok.inj hview
        have hnames' := requiredNames_agree hitems hnames
        exact ⟨_, bind_eq_ok_iff.2 ⟨_, rfl, bind_eq_ok_iff.2 ⟨required, hnames', rfl⟩⟩,
          .object (.refl [])⟩
      | _ => cases hview
  | @some v w hagree =>
    cases v with
    | obj fields =>
      obtain ⟨others, rfl, hfields⟩ := hagree.exists_fields (hdistinct _ rfl)
      cases hrequired with
      | none =>
        obtain rfl := Except.ok.inj hview
        exact ⟨_, rfl, .object hfields⟩
      | @some x y hagree =>
        cases x with
        | arr items =>
          obtain ⟨others, rfl, hitems⟩ := hagree.exists_items
          obtain ⟨_, hlist, hview⟩ := bind_eq_ok_iff.1 hview
          obtain rfl := Except.ok.inj hlist
          obtain ⟨required, hnames, hview⟩ := bind_eq_ok_iff.1 hview
          obtain rfl := Except.ok.inj hview
          have hnames' := requiredNames_agree hitems hnames
          exact ⟨_, bind_eq_ok_iff.2 ⟨_, rfl, bind_eq_ok_iff.2 ⟨required, hnames', rfl⟩⟩,
            .object hfields⟩
        | _ => cases hview
    | _ => cases hview

theorem enum?_agree {type : Option String} (hview : enum? context a type = .ok s) :
    ∃ s', enum? context b type = .ok s' ∧ s.Agrees s' := by
  have hvalues := h.get? hkeys "enum"
  have hconst := h.get? hkeys "const"
  have hdefault := h.get? hkeys "default"
  unfold enum? at hview ⊢
  dsimp only at hview ⊢
  split at hview
  · cases hview
  next htype =>
    rw [if_neg htype]
    generalize a.get? "enum" = v, b.get? "enum" = w at hvalues hview ⊢
    generalize a.get? "const" = x, b.get? "const" = y at hconst hview ⊢
    cases hvalues with
    | none =>
      cases hconst with
      | none => cases hview
      | @some x y hagree => exact enumOf_agree (.cons hagree .nil) hdefault hview
    | @some v w hagree =>
      cases v with
      | arr items =>
        obtain ⟨others, rfl, hitems⟩ := hagree.exists_items
        exact enumOf_agree hitems hdefault hview
      | _ => cases hview

theorem declaredType_agree {type : Option String} (hview : declaredType context a = .ok type) :
    declaredType context b = .ok type := by
  have htype := h.get? hkeys "type"
  unfold declaredType at hview ⊢
  generalize a.get? "type" = v, b.get? "type" = w at htype hview ⊢
  cases htype with
  | none => exact hview
  | @some v w hagree =>
    cases v with
    | str text => rwa [hagree.eq_str]
    | _ => cases hview

theorem string_agree (key : String) : a.string key = b.string key := by
  have hvalue := h.get? hkeys key
  rw [Json.string, Json.string]
  generalize a.get? key = v, b.get? key = w at hvalue
  cases hvalue with
  | none => rfl
  | @some v w hagree =>
    rcases hagree with rfl | hsame
    · rfl
    · exact Json.asString?_of_same hsame

theorem isSome_agree (key : String) : (a.get? key).isSome = (b.get? key).isSome := by
  have hvalue := h.get? hkeys key
  generalize a.get? key = v, b.get? key = w at hvalue
  cases hvalue <;> rfl

theorem ofType_agree {type : Option String} (hview : ofType context a type = .ok s) :
    ∃ s', ofType context b type = .ok s' ∧ s.Agrees s' := by
  have hformat := string_agree hkeys h "format"
  rw [ofType.eq_def] at hview ⊢
  split at hview
  case h_1 => exact object?_agree hkeys h hview
  case h_2 =>
    have hitems := h.get? hkeys "items"
    generalize a.get? "items" = v, b.get? "items" = w at hitems hview ⊢
    cases hitems with
    | none => cases hview
    | some hagree =>
      obtain rfl := Except.ok.inj hview
      exact ⟨_, rfl, .array hagree⟩
  case h_8 => cases hview
  case h_9 =>
    rw [isSome_agree hkeys h] at hview
    split at hview
    next hproperties =>
      rw [if_pos hproperties]
      exact object?_agree hkeys h hview
    next => cases hview
  all_goals
    obtain rfl := Except.ok.inj hview
    try rw [hformat]
    exact ⟨_, rfl, .primitive _ _⟩

theorem ofPlain_agree (hview : ofPlain context a = .ok s) :
    ∃ s', ofPlain context b = .ok s' ∧ s.Agrees s' := by
  unfold ofPlain at hview ⊢
  dsimp only at hview ⊢
  rw [← isSome_agree hkeys h, ← isSome_agree hkeys h, ← isSome_agree hkeys h,
    ← isSome_agree hkeys h]
  split at hview
  · cases hview
  next hanyOf =>
    rw [if_neg hanyOf]
    split at hview
    · cases hview
    next hnot =>
      rw [if_neg hnot]
      obtain ⟨type, htype, hview⟩ := bind_eq_ok_iff.1 hview
      rw [declaredType_agree hkeys h htype]
      dsimp only [bind, Except.bind]
      split_ifs at hview ⊢
      · exact enum?_agree hkeys h hview
      · exact ofType_agree hkeys h hview

/-- Nodes that agree have views that agree. -/
theorem classify_agree (hview : classify context a = .ok s) :
    ∃ s', classify context b = .ok s' ∧ s.Agrees s' := by
  have href := h.get? hkeys "$ref"
  have hall := h.get? hkeys "allOf"
  have hone := h.get? hkeys "oneOf"
  unfold classify at hview ⊢
  rw [← h.isObject_eq]
  split at hview
  · cases hview
  next hobject =>
    rw [if_neg hobject]
    generalize a.get? "$ref" = v, b.get? "$ref" = w at href hview ⊢
    generalize a.get? "allOf" = x, b.get? "allOf" = y at hall hview ⊢
    generalize a.get? "oneOf" = z, b.get? "oneOf" = u at hone hview ⊢
    cases href with
    | @some v w hagree =>
      cases v with
      | str pointer =>
        obtain rfl := hagree.eq_str
        obtain rfl := Except.ok.inj hview
        exact ⟨_, rfl, .reference pointer⟩
      | _ => cases hview
    | none =>
      cases hall with
      | some hagree =>
        obtain ⟨parts, hparts, rfl⟩ := map_eq_ok_iff.1 hview
        obtain ⟨parts', hparts', hagree⟩ := nonEmptyList_agree hagree hparts
        exact ⟨_, map_eq_ok_iff.2 ⟨parts', hparts', rfl⟩, .allOf hagree⟩
      | none =>
        cases hone with
        | some hagree =>
          obtain ⟨arms, harms, rfl⟩ := map_eq_ok_iff.1 hview
          obtain ⟨arms', harms', hagree⟩ := nonEmptyList_agree hagree harms
          exact ⟨_, map_eq_ok_iff.2 ⟨arms', harms', rfl⟩, .oneOf hagree⟩
        | none => exact ofPlain_agree hkeys h hview

end Nodes

end Schema

end OpenApiServer
