import OpenApiServer.Proofs.Document.Reordered

/-!
# Nodes that match

Proper nodes that agree match. Matching is symmetric, so that what reading a node finds is found in
the other one as well, and what it does not find is not found there either. The views of nodes that
match take over nodes that match, and so does following references in reordered documents.
-/

namespace OpenApiServer

namespace Json

variable {a b c v : Json}

/-- Whether two proper values agree. -/
structure Matches (a b : Json) : Prop where
  left : a.Proper
  right : b.Proper
  agrees : a.Agrees b

namespace Matches

theorem refl (h : a.Proper) : a.Matches a := ⟨h, h, .refl a⟩

theorem symm (h : a.Matches b) : b.Matches a :=
  ⟨h.right, h.left, h.agrees.symm h.left.keys h.right.keys⟩

theorem trans (h : a.Matches b) (h' : b.Matches c) : a.Matches c :=
  ⟨h.left, h'.right, h.agrees.trans h'.agrees⟩

theorem same (h : a.Matches b) : a.same b = true := h.left.same_of_agrees h.agrees

theorem get? (h : a.Matches b) (key : String) : Option.Rel Matches (a.get? key) (b.get? key) := by
  have hrel := h.agrees.get? h.left.keys key
  cases hv : a.get? key with
  | none =>
    rw [hv] at hrel
    cases hw : b.get? key with
    | none => exact .none
    | some w =>
      rw [hw] at hrel
      cases hrel
  | some v =>
    rw [hv] at hrel
    cases hw : b.get? key with
    | none =>
      rw [hw] at hrel
      cases hrel
    | some w =>
      rw [hw] at hrel
      cases hrel with
      | some hagree =>
        exact .some ⟨hereditary_proper.get? h.left hv, hereditary_proper.get? h.right hw, hagree⟩

theorem string_eq (h : a.Matches b) (key : String) : a.string key = b.string key :=
  Schema.string_agree h.left.keys h.agrees key

theorem asBool?_eq (h : a.Matches b) : a.asBool? = b.asBool? := by
  have hsame := h.same
  cases a <;> cases b <;> simp_all [Json.same, asBool?]

/-- A switch is set in both or in neither. -/
theorem flag_eq (h : a.Matches b) (key : String) :
    (a.get? key).bind asBool? = (b.get? key).bind asBool? := by
  have hrel := h.get? key
  generalize a.get? key = v, b.get? key = w at hrel ⊢
  cases hrel with
  | none => rfl
  | some hmatch => exact hmatch.asBool?_eq

theorem reference?_eq (h : a.Matches b) : Document.reference? a = Document.reference? b :=
  h.string_eq "$ref"

end Matches

/-- Whether two lists of fields have the same keys, each once, and match under each of them. -/
structure FieldsMatch (fields others : List (String × Json)) : Prop where
  nodup : (fields.map (·.1)).Nodup
  keys : (fields.map (·.1)).Perm (others.map (·.1))
  values : ∀ ⦃key v w⦄, fieldNamed? key fields = some v → fieldNamed? key others = some w → v.Matches w

namespace FieldsMatch

variable {fields others : List (String × Json)}

theorem nodup' (h : FieldsMatch fields others) : (others.map (·.1)).Nodup :=
  h.keys.nodup_iff.1 h.nodup

theorem symm (h : FieldsMatch fields others) : FieldsMatch others fields :=
  ⟨h.nodup', h.keys.symm, fun _ _ _ hv hw => (h.values hw hv).symm⟩

theorem length_eq (h : FieldsMatch fields others) : fields.length = others.length := by
  simpa using h.keys.length_eq

theorem exists_mem (h : FieldsMatch fields others) {f : String × Json} (hf : f ∈ fields) :
    ∃ g ∈ others, g.1 = f.1 ∧ f.2.Matches g.2 := by
  obtain ⟨g, hg, hkey⟩ := List.mem_map.1 (h.keys.subset (List.mem_map_of_mem hf))
  have hw := fieldNamed?_of_mem h.nodup' hg
  rw [hkey] at hw
  exact ⟨g, hg, hkey, h.values (fieldNamed?_of_mem h.nodup hf) hw⟩

theorem fieldNamed? (h : FieldsMatch fields others) (key : String) :
    Option.Rel Matches (OpenApiServer.fieldNamed? key fields)
      (OpenApiServer.fieldNamed? key others) := by
  have hmem := h.keys.mem_iff (a := key)
  cases hv : OpenApiServer.fieldNamed? key fields with
  | none =>
    rw [fieldNamed?_eq_none_iff, hmem, ← fieldNamed?_eq_none_iff] at hv
    rw [hv]
    exact .none
  | some v =>
    cases hw : OpenApiServer.fieldNamed? key others with
    | none =>
      rw [fieldNamed?_eq_none_iff, ← hmem, ← fieldNamed?_eq_none_iff, hv] at hw
      cases hw
    | some w => exact .some (h.values hv hw)

/-- Two fields match two others, which stand in one order or in the other. -/
theorem pair_cases {p q : String × Json} (hmatch : FieldsMatch [p, q] others) : ∃ v w, p.2.Matches v ∧ q.2.Matches w ∧
      (others = [(p.1, v), (q.1, w)] ∨ others = [(q.1, w), (p.1, v)]) := by
  obtain ⟨⟨kp, v⟩, hv, hkp, hpv⟩ := hmatch.exists_mem (List.mem_cons_self ..)
  obtain ⟨⟨kq, w⟩, hw, hkq, hqw⟩ := hmatch.exists_mem (List.mem_cons_of_mem _ (List.mem_singleton_self _))
  dsimp only at hkp hkq
  subst hkp hkq
  refine ⟨v, w, hpv, hqw, ?_⟩
  have hne : p.1 ≠ q.1 := by
    have hnodup := hmatch.nodup
    simp only [List.map_cons, List.map_nil, List.nodup_cons, List.mem_singleton] at hnodup
    exact hnodup.1
  have hlength : others.length = 2 := hmatch.length_eq.symm
  obtain ⟨a, b, rfl⟩ := List.length_eq_two.1 hlength
  simp only [List.mem_cons, List.not_mem_nil, or_false] at hv hw
  rcases hv with rfl | rfl
  · rcases hw with hw | rfl
    · exact absurd (congrArg Prod.fst hw).symm hne
    · exact .inl rfl
  · rcases hw with rfl | hw
    · exact .inr rfl
    · exact absurd (congrArg Prod.fst hw).symm hne

end FieldsMatch

end Json

namespace Schema

/-- Whether two views have one form and take over nodes that match. -/
inductive Matches : Schema → Schema → Prop where
  | primitive (kind : PrimitiveKind) (format : Option String) :
    Matches (.primitive kind format) (.primitive kind format)
  | reference (pointer : String) : Matches (.reference pointer) (.reference pointer)
  | array {items items' : Json} (items_match : items.Matches items') :
    Matches (.array items) (.array items')
  | object {properties properties' : List (String × Json)} {required : List String}
    (fields_match : Json.FieldsMatch properties properties') :
    Matches (.object properties required) (.object properties' required)
  | allOf {parts parts' : List Json} (parts_match : List.Forall₂ Json.Matches parts parts') :
    Matches (.allOf parts) (.allOf parts')
  | oneOf {arms arms' : List Json} (arms_match : List.Forall₂ Json.Matches arms arms') :
    Matches (.oneOf arms) (.oneOf arms')
  | stringEnum (members : List String) (default : Option String) :
    Matches (.stringEnum members default) (.stringEnum members default)

theorem matches_all {nodes nodes' : List Json} (h : List.Forall₂ Json.Agrees nodes nodes')
    (hnodes : ∀ node ∈ nodes, node.Proper) (hnodes' : ∀ node ∈ nodes', node.Proper) :
    List.Forall₂ Json.Matches nodes nodes' :=
  forall₂_imp_mem h fun _ hnode _ hnode' hagree => ⟨hnodes _ hnode, hnodes' _ hnode', hagree⟩

variable {context : String} {a b : Json} {s : Schema}

/-- Nodes that match have views that match. -/
theorem classify_matches (h : a.Matches b) (hview : classify context a = .ok s) :
    ∃ s', classify context b = .ok s' ∧ s.Matches s' := by
  obtain ⟨s', hview', hagree⟩ := classify_agree h.left.keys h.agrees hview
  have hnodes := forall_nodes Json.hereditary_proper h.left hview
  have hnodes' := forall_nodes Json.hereditary_proper h.right hview'
  refine ⟨s', hview', ?_⟩
  cases hagree with
  | primitive kind format => exact .primitive kind format
  | reference pointer => exact .reference pointer
  | array agree =>
    exact .array ⟨hnodes _ (List.mem_singleton_self _), hnodes' _ (List.mem_singleton_self _), agree⟩
  | object agree =>
    have hnodup := nodup_of_classify h.left.keys hview
    refine .object ⟨hnodup, agree.keys, fun key v w hv hw => ?_⟩
    obtain ⟨w', hw', hagree⟩ := agree.agree hv
    obtain rfl := Option.some.inj (hw.symm.trans hw')
    exact ⟨hnodes _ (List.mem_map_of_mem (mem_of_fieldNamed? hv)),
      hnodes' _ (List.mem_map_of_mem (mem_of_fieldNamed? hw)), hagree⟩
  | allOf agree => exact .allOf (matches_all agree hnodes hnodes')
  | oneOf agree => exact .oneOf (matches_all agree hnodes hnodes')
  | stringEnum members default => exact .stringEnum members default

theorem isNull_eq (h : a.Matches b) : isNull a = isNull b := by
  rw [isNull, isNull, h.string_eq]

theorem nullableArm?_matches {arms arms' : List Json} (h : List.Forall₂ Json.Matches arms arms') :
    Option.Rel Json.Matches (nullableArm? arms) (nullableArm? arms') := by
  cases h with
  | nil => exact .none
  | cons hfirst hrest =>
    cases hrest with
    | nil => exact .none
    | cons hsecond hrest =>
      cases hrest with
      | cons => exact .none
      | nil =>
        rw [nullableArm?, nullableArm?, isNull_eq hfirst, isNull_eq hsecond]
        split
        · exact .some hsecond
        · exact .some hfirst
        · exact .none

end Schema

namespace Document.Reordered

variable {d d' : Document} (h : Reordered d d') {node node' target : Json}

include h

theorem size_eq : d.root.size = d'.root.size := h.agrees.size_eq

theorem resolve {pointer : String} (hnode : d.resolve pointer = .ok node) :
    ∃ node', d'.resolve pointer = .ok node' ∧ node.Matches node' := by
  obtain ⟨node', hnode', hagree⟩ := h.agrees.resolve hnode
  exact ⟨node', hnode', Json.hereditary_proper.resolve h.proper hnode,
    Json.hereditary_proper.resolve h.proper' hnode', hagree⟩

theorem dereference (hnode : node.Matches node') (hleads : d.dereference node = .ok target) :
    ∃ target', d'.dereference node' = .ok target' ∧ target.Matches target' := by
  obtain ⟨target', hleads', hagree⟩ := h.agrees.dereference hnode.left.keys hnode.agrees hleads
  exact ⟨target', hleads', Json.hereditary_proper.dereference h.proper hnode.left hleads,
    Json.hereditary_proper.dereference h.proper' hnode.right hleads', hagree⟩

theorem contents_dereferenceFrom {steps : Nat} {visited : List String} {target' : Json}
    (hnode : node'.get? "content" = node.get? "content")
    (hreference : reference? node = reference? node')
    (hleads : d.dereferenceFrom steps visited node = .ok target)
    (hleads' : d'.dereferenceFrom steps visited node' = .ok target') :
    target'.get? "content" = target.get? "content" := by
  induction steps generalizing visited node node' with
  | zero =>
    rw [Document.dereferenceFrom] at hleads hleads'
    rw [← hreference] at hleads'
    split at hleads
    next hplain =>
      rw [hplain] at hleads'
      obtain rfl := Except.ok.inj hleads
      obtain rfl := Except.ok.inj hleads'
      exact hnode
    next => split_ifs at hleads
  | succ steps ih =>
    rw [Document.dereferenceFrom] at hleads hleads'
    rw [← hreference] at hleads'
    split at hleads
    next hplain =>
      rw [hplain] at hleads'
      obtain rfl := Except.ok.inj hleads
      obtain rfl := Except.ok.inj hleads'
      exact hnode
    next pointer hpointer =>
      rw [hpointer] at hleads'
      dsimp only at hleads'
      split_ifs at hleads hleads' with hvisited
      obtain ⟨next, hnext, hleads⟩ := bind_eq_ok_iff.1 hleads
      obtain ⟨next', hnext', hleads'⟩ := bind_eq_ok_iff.1 hleads'
      obtain ⟨found, hfound, hmatch⟩ := h.resolve hnext
      obtain rfl := Except.ok.inj (hnext'.symm.trans hfound)
      exact ih (h.contents hnext hnext') hmatch.reference?_eq hleads hleads'

/-- References lead to the same media types in their order. -/
theorem dereference_contents (hnode : node.Proper) (hleads : d.dereference node = .ok target) :
    ∃ target', d'.dereference node = .ok target' ∧ target.Matches target' ∧
      target'.get? "content" = target.get? "content" := by
  obtain ⟨target', hleads', hmatch⟩ := h.dereference (.refl hnode) hleads
  refine ⟨target', hleads', hmatch, ?_⟩
  rw [Document.dereference, ← h.size_eq] at hleads'
  exact h.contents_dereferenceFrom rfl rfl hleads hleads'

end Document.Reordered

end OpenApiServer
