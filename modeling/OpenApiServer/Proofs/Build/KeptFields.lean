import OpenApiServer.Proofs.Build.FieldNames
import OpenApiServer.Proofs.Build.Registering
import OpenApiServer.Proofs.Document.Keys

/-!
# The fields that a registry keeps

The fields of a record are found out once for each name and kept from then on. What is kept for a
named schema are the fields of the object schemas that it comes down to. While a schema is merged
nothing is kept under its name, for it cannot be entered again, so that what is kept is never
replaced.
-/

namespace OpenApiServer

namespace Registry

variable {d : Document} {r r' : Registry}

/-- Whether a name stands for a schema: as a named schema or by the claim of a schema that is no
reference. -/
def Describes (d : Document) (r : Registry) (name : TypeName) (node : Json) : Prop :=
  Build.Describes d name node ∨
    r.nodeOf? name = some node ∧ Document.reference? node = none

/-- The named schemas have their names, and the kept fields are those that they should be. -/
structure Kept (d : Document) (r : Registry) : Prop where
  schemas : ∀ s ∈ d.schemas, ∃ s' ∈ d.schemas, TypeName.ofText s'.1 = .ofText s.1 ∧
    r.nodeOf? (.ofText s.1) = some s'.2 ∧ s'.2.Alike s.2
  merged : ∀ ⦃name fields⦄, r.fieldsOf? name = some fields → name ∈ d.schemaTypes →
    ∃ node leaves, Build.Describes d name node ∧ Build.LeavesOf d name node leaves ∧
      Build.Merged d leaves fields
  named : ∀ ⦃name fields⦄, r.fieldsOf? name = some fields →
    (Build.keyNames fields).Nodup → Build.OwnNames fields

theorem Remembers.describes (h : r.Remembers r') {name : TypeName} {node : Json}
    (hnode : r.Describes d name node) : r'.Describes d name node :=
  hnode.imp_right fun hclaimed => ⟨h.nodeOf? hclaimed.1, hclaimed.2⟩

theorem Kept.registers (h : r.Kept d) (hregisters : r.Registers r') : r'.Kept d where
  schemas s hs := by
    obtain ⟨s', hs', hname, hnode, hsame⟩ := h.schemas s hs
    exact ⟨s', hs', hname, hregisters.nodeOf? hnode, hsame⟩
  merged name fields hfields := by
    rw [fieldsOf?, hregisters.fields] at hfields
    exact h.merged hfields
  named name fields hfields := by
    rw [fieldsOf?, hregisters.fields] at hfields
    exact h.named hfields

/-- What a name stands for follows from what has claimed it. -/
theorem Kept.claimed (h : r.Kept d) {name : TypeName} {node : Json}
    (hnode : r.Describes d name node) :
    ∃ claimed, r.nodeOf? name = some claimed ∧
      (Document.reference? claimed = none → claimed.schemaKind = node.schemaKind) ∧
      (Document.reference? claimed ≠ none → d.dereference claimed = .ok node) := by
  rcases hnode with ⟨s, hs, rfl, hleads⟩ | ⟨hclaimed, hplain⟩
  · obtain ⟨s', hs', -, hnode, hkind, href⟩ := h.schemas s hs
    refine ⟨s'.2, hnode, fun hplain => ?_, fun hreference => ?_⟩
    · rw [href] at hplain
      rw [Document.dereference_eq_self hplain] at hleads
      obtain rfl := Except.ok.inj hleads
      exact hkind
    · obtain ⟨pointer, hpointer⟩ := Option.ne_none_iff_exists'.1 hreference
      rw [Document.dereference_congr hpointer (href ▸ hpointer)]
      exact hleads
  · exact ⟨node, hclaimed, fun _ => rfl, fun hreference => absurd hplain hreference⟩

/-- All schemas that a name stands for are of one kind. -/
theorem Kept.schemaKind_unique (h : r.Kept d) {name : TypeName} {node node' : Json}
    (hnode : r.Describes d name node) (hnode' : r.Describes d name node') :
    node.schemaKind = node'.schemaKind := by
  obtain ⟨claimed, hclaimed, hplain, hreference⟩ := h.claimed hnode
  obtain ⟨claimed', hclaimed', hplain', hreference'⟩ := h.claimed hnode'
  obtain rfl := Option.some.inj (hclaimed.symm.trans hclaimed')
  by_cases href : Document.reference? claimed = none
  · exact (hplain href).symm.trans (hplain' href)
  · rw [Except.ok.inj ((hreference href).symm.trans (hreference' href))]

/-- A name of a named schema stands for nothing else. -/
theorem Kept.describes_of_mem (h : r.Kept d) {name : TypeName} {node : Json}
    (hname : name ∈ d.schemaTypes) (hnode : r.Describes d name node) :
    Build.Describes d name node := by
  rcases hnode with hdescribes | ⟨hclaimed, hplain⟩
  · exact hdescribes
  · obtain ⟨s, hs, rfl⟩ := List.mem_map.1 hname
    obtain ⟨s', hs', hsame, hnode, -⟩ := h.schemas s hs
    obtain rfl := Option.some.inj (hclaimed.symm.trans hnode)
    exact ⟨s', hs', hsame, Document.dereference_eq_self hplain⟩

/-- Moreover, what is being merged has no fields yet if it had none. -/
structure Merges (d : Document) (r r' : Registry) : Prop extends r.Extends r' where
  kept : r'.Kept d
  unfinished : ∀ name ∈ r.merging, ∀ node, r.Describes d name node → node.schemaKind = .allOf →
    r.fieldsOf? name = none → r'.fieldsOf? name = none

theorem Registers.merges (h : r.Registers r') (hkept : r.Kept d) : r.Merges d r' where
  toExtends := h.toExtends
  kept := hkept.registers h
  unfinished name _ _ _ _ hnone := by rwa [fieldsOf?, h.fields]

theorem Merges.refl (h : r.Kept d) : r.Merges d r := (Registers.refl r).merges h

theorem Merges.trans {a b c : Registry} (h : a.Merges d b) (h' : b.Merges d c) :
    a.Merges d c where
  toExtends := h.toExtends.trans h'.toExtends
  kept := h'.kept
  unfinished name hname node hnode hkind hnone := by
    refine h'.unfinished name ?_ node (h.describes hnode) hkind ?_
    · rwa [h.merging]
    · exact h.unfinished name hname node hnode hkind hnone

/-! ## Changes that merging makes -/

theorem Kept.of_eq (h : r.Kept d) (hclaims : r'.claims = r.claims)
    (hfields : r'.fields = r.fields) : r'.Kept d where
  schemas := by
    simp only [nodeOf?, claim?, hclaims]
    exact h.schemas
  merged name fields hkept := by
    rw [fieldsOf?, hfields] at hkept
    exact h.merged hkept
  named name fields hkept := by
    rw [fieldsOf?, hfields] at hkept
    exact h.named hkept

/-- What is merged inside a name that has been entered and is left again. -/
theorem Merges.leaveMerge {name : TypeName}
    (h : Merges d { r with merging := r.merging ++ [name] } r') : r.Merges d r'.leaveMerge where
  claim? := h.claim?
  pending := h.pending
  fieldsOf? := h.fieldsOf?
  merging := by rw [Registry.leaveMerge, h.merging, List.dropLast_concat]
  enums := h.enums
  conversions := h.conversions
  types := h.types
  kept := h.kept.of_eq rfl rfl
  unfinished name' hname' := h.unfinished name' (List.mem_append_left _ hname')

theorem fieldsOf?_keepFields (r : Registry) (name name' : TypeName) (fields : List Field) :
    (r.keepFields name fields).fieldsOf? name' =
      if name' = name then some fields else r.fieldsOf? name' := by
  rw [fieldsOf?, keepFields, List.lookup_cons]
  by_cases hname : name' = name
  · simp [hname]
  · rw [if_neg hname, beq_false_of_ne hname]
    rfl

/-- Fields are kept for a name that had none. -/
theorem merges_keepFields {name : TypeName} {fields : List Field} (h : r.Kept d)
    (hnone : r.fieldsOf? name = none)
    (hmerged : name ∈ d.schemaTypes → ∃ node leaves, Build.Describes d name node ∧
      Build.LeavesOf d name node leaves ∧ Build.Merged d leaves fields)
    (hnamed : (Build.keyNames fields).Nodup → Build.OwnNames fields)
    (hother : ∀ name' ∈ r.merging, ∀ node, r.Describes d name' node → node.schemaKind = .allOf →
      name' ≠ name) : r.Merges d (r.keepFields name fields) where
  claim? _ _ h := h
  pending _ hp := .inl hp
  fieldsOf? name' fields' hkept := by
    have hne : name' ≠ name := by
      rintro rfl
      rw [hnone] at hkept
      cases hkept
    rwa [fieldsOf?_keepFields, if_neg hne]
  merging := rfl
  enums := rfl
  conversions := rfl
  types := rfl
  kept := by
    refine ⟨h.schemas, fun name' fields' hkept => ?_, fun name' fields' hkept => ?_⟩
    all_goals
      rw [fieldsOf?_keepFields] at hkept
      split at hkept
      next hname =>
        obtain rfl := Option.some.inj hkept
        subst hname
        assumption
    · exact h.merged hkept
    · exact h.named hkept
  unfinished name' hname' node hnode hkind hnone' := by
    rw [fieldsOf?_keepFields, if_neg (hother name' hname' node hnode hkind)]
    exact hnone'

end Registry

namespace Build

variable {d : Document} {r r' : Registry}

/-- What merging parts makes of the fields merged so far. -/
structure Absorbs (d : Document) (owner : TypeName) (parts : List Json)
    (merged fields : List Field) : Prop where
  names : (Apart merged → OwnNames merged) → Apart fields → OwnNames fields
  keys : (merged.map (·.jsonName)).Nodup → (fields.map (·.jsonName)).Nodup
  merged : (∀ part ∈ parts, part.DistinctKeys) → ∀ leaves, Merged d leaves merged →
    ∃ more, Flattens d owner parts more ∧ Merged d (leaves ++ more) fields

namespace Absorbs

variable {owner : TypeName} {merged : List Field}

theorem nil : Absorbs d owner [] merged merged :=
  ⟨id, id, fun _ leaves h => ⟨[], .nil owner, by rwa [List.append_nil]⟩⟩

theorem cons {part : Json} {rest : List Json} {next fields : List Field}
    (h : Absorbs d owner [part] merged next) (h' : Absorbs d owner rest next fields) :
    Absorbs d owner (part :: rest) merged fields where
  names := h'.names ∘ h.names
  keys := h'.keys ∘ h.keys
  merged hparts leaves hmerged := by
    obtain ⟨hpart, hrest⟩ := List.forall_mem_cons.1 hparts
    obtain ⟨first, hfirst, hnext⟩ := h.merged (by simpa using hpart) leaves hmerged
    obtain ⟨later, hlater, hfields⟩ := h'.merged hrest _ hnext
    rw [List.append_assoc] at hfields
    cases hfirst with
    | cons stands hleaves following =>
      cases following
      rw [List.append_nil] at hfields
      exact ⟨_, .cons stands hleaves hlater, hfields⟩

/-- A part whose fields are found out on their own. -/
theorem of_fields {part : Json} {fields : List Field} (hnames : Apart fields → OwnNames fields)
    (h : part.DistinctKeys → ∃ name node leaves, StandsFor d owner part name node ∧
      LeavesOf d name node leaves ∧ Merged d leaves fields) :
    Absorbs d owner [part] merged (absorb merged fields) where
  names hmerged := ownNames_absorb hmerged hnames
  keys hkeys := nodup_keys_absorb hkeys fields
  merged hparts leaves hmerged := by
    obtain ⟨name, node, more, hstands, hleaves, hfields⟩ := h (hparts part (by simp))
    refine ⟨more ++ [], .cons hstands hleaves (.nil owner), ?_⟩
    rw [List.append_nil]
    exact hmerged.absorb hfields

/-- A part that merges parts of its own. -/
theorem of_parts {part node : Json} {parts : List Json} {fields : List Field}
    (hroot : d.root.DistinctKeys) (hplain : fragmentComponent d owner part = .ok none)
    (hleads : d.dereference part = .ok node)
    (hparts : Schema.classify owner.text node = .ok (.allOf parts))
    (h : Absorbs d owner parts merged fields) : Absorbs d owner [part] merged fields where
  names := h.names
  keys := h.keys
  merged hpart leaves hmerged := by
    have hnode := Document.dereference_distinctKeys hroot (hpart part (by simp)) hleads
    obtain ⟨more, hmore, hfields⟩ :=
      h.merged (Schema.parts_distinctKeys hnode hparts) leaves hmerged
    refine ⟨more ++ [], .cons (.inline hplain hleads) (.allOf hparts hmore) (.nil owner), ?_⟩
    rwa [List.append_nil]

end Absorbs

/-! ## Runs -/

/-- Whether a run at some depth that finds out the fields of a record keeps them under its name. -/
def FindsFields (d : Document) (depth : Nat) : Prop :=
  ∀ ⦃r r' : Registry⦄ ⦃name : TypeName⦄ ⦃node : Json⦄ ⦃fields : List Field⦄,
    r.Kept d → r.Describes d name node → recordFieldsFrom d depth name node r = .ok (fields, r') →
      r.Merges d r' ∧ r'.fieldsOf? name = some fields

/-- Whether a run at some depth that merges a part absorbs the fields of what it stands for. -/
def AbsorbsParts (d : Document) (depth : Nat) : Prop :=
  ∀ ⦃r r' : Registry⦄ ⦃owner : TypeName⦄ ⦃merged fields : List Field⦄ ⦃part : Json⦄,
    r.Kept d → mergeFragmentFrom d depth owner merged part r = .ok (fields, r') →
      r.Merges d r' ∧ Absorbs d owner [part] merged fields

/-- What is true of merging one part is true of merging several. -/
theorem AbsorbsParts.foldlM {depth : Nat} (hpart : AbsorbsParts d depth) {owner : TypeName}
    {parts : List Json} {merged fields : List Field} (hkept : r.Kept d)
    (h : parts.foldlM (mergeFragmentFrom d depth owner) merged r = .ok (fields, r')) :
    r.Merges d r' ∧ Absorbs d owner parts merged fields := by
  induction parts generalizing r merged with
  | nil =>
    obtain ⟨rfl, rfl⟩ := pure_eq_ok.1 h
    exact ⟨.refl hkept, .nil⟩
  | cons part rest ih =>
    rw [List.foldlM_cons] at h
    obtain ⟨next, s, hfirst, h⟩ := bind_eq_ok.1 h
    obtain ⟨hmerges, habsorbs⟩ := hpart hkept hfirst
    obtain ⟨hmerges', habsorbs'⟩ := ih hmerges.kept h
    exact ⟨hmerges.trans hmerges', habsorbs.cons habsorbs'⟩

theorem keepFields_eq_ok {name : TypeName} {fields fields' : List Field} :
    (do modify (·.keepFields name fields); return fields : Build (List Field)) r =
      .ok (fields', r') ↔ fields' = fields ∧ r' = r.keepFields name fields := by
  rw [bind_eq_ok]
  constructor
  · rintro ⟨_, s, hmodify, h⟩
    obtain rfl := modify_eq_ok.1 hmodify
    obtain ⟨rfl, rfl⟩ := pure_eq_ok.1 h
    exact ⟨rfl, rfl⟩
  · rintro ⟨rfl, rfl⟩
    exact ⟨(), _, modify_eq_ok.2 rfl, pure_eq_ok.2 ⟨rfl, rfl⟩⟩

theorem enterMerge_eq_ok {name : TypeName} (h : r.enterMerge name = .ok r') :
    name ∉ r.merging ∧ r' = { r with merging := r.merging ++ [name] } := by
  rw [Registry.enterMerge] at h
  split_ifs at h with hmerging
  exact ⟨hmerging, (Except.ok.inj h).symm⟩

theorem Describes.distinctKeys (hroot : d.root.DistinctKeys) {name : TypeName} {node : Json}
    (h : Describes d name node) : node.DistinctKeys := by
  obtain ⟨schema, hschema, -, hleads⟩ := h
  exact Document.dereference_distinctKeys hroot
    (Document.schemas_distinctKeys hroot schema hschema) hleads

/-- The fields of an object schema are kept under its name. -/
theorem merges_of_object (hroot : d.root.DistinctKeys) {name : TypeName} {node : Json}
    {properties : List (String × Json)} {required : List String} {own : List Field} {s : Registry}
    (hkept : r.Kept d) (hnode : r.Describes d name node)
    (hobject : Schema.classify name.text node = .ok (.object properties required))
    (hnone : r.fieldsOf? name = none)
    (hown : objectFields d name properties required r = .ok (own, s)) :
    r.Merges d (s.keepFields name (distinctNames own)) := by
  have hregisters := objectFields_registering name properties required hown
  have hkept' := hkept.registers hregisters
  have hkind : node.schemaKind = .object := (Schema.kind_of_classify hobject).symm
  refine (hregisters.merges hkept).trans (Registry.merges_keepFields hkept' ?_ ?_ ?_ ?_)
  · rwa [Registry.fieldsOf?, hregisters.fields]
  · intro hname
    have hdescribes := hkept.describes_of_mem hname hnode
    have hproperties := Schema.nodup_of_classify (hdescribes.distinctKeys hroot) hobject
    exact ⟨node, _, hdescribes, .object hobject,
      (merged_objectFields ⟨name, properties, required⟩ hproperties hown).distinctNames⟩
  · exact ownNames_distinctNames fun _ => ownNames_objectFields hown
  · rintro name' - node' hnode' hallOf rfl
    have hsame := hkept'.schemaKind_unique hnode' (hregisters.describes hnode)
    rw [hallOf, hkind] at hsame
    cases hsame

/-- The fields of a merged schema are kept under its name, which nothing inside it has entered. -/
theorem merges_of_allOf (hroot : d.root.DistinctKeys) {name : TypeName} {node : Json}
    {parts : List Json} {merged : List Field} {s : Registry}
    (hkept : r.Kept d) (hnode : r.Describes d name node)
    (hallOf : Schema.classify name.text node = .ok (.allOf parts))
    (hnone : r.fieldsOf? name = none) (hnew : name ∉ r.merging)
    (hmerges : Registry.Merges d { r with merging := r.merging ++ [name] } s)
    (habsorbs : Absorbs d name parts [] merged) :
    r.Merges d (s.leaveMerge.keepFields name (distinctNames merged)) := by
  have hkind : node.schemaKind = .allOf := (Schema.kind_of_classify hallOf).symm
  have hleft := hmerges.leaveMerge
  refine hleft.trans (Registry.merges_keepFields hleft.kept ?_ ?_ ?_ ?_)
  · exact hmerges.unfinished name (by simp) node hnode hkind hnone
  · intro hname
    have hdescribes := hkept.describes_of_mem hname hnode
    have hparts := Schema.parts_distinctKeys (hdescribes.distinctKeys hroot) hallOf
    obtain ⟨leaves, hflattens, hmerged⟩ := habsorbs.merged hparts [] .nil
    exact ⟨node, leaves, hdescribes, .allOf hallOf hflattens, hmerged.distinctNames⟩
  · exact ownNames_distinctNames (habsorbs.names fun _ => by simp [OwnNames])
  · rintro name' hname' - - - rfl
    rw [hleft.merging] at hname'
    exact hnew hname'

section Merging

variable {root : Json} (hdoc : Document.ofJson root = .ok d) (hroot : d.root.DistinctKeys)
  {depth : Nat}

include hroot

theorem AbsorbsParts.findsFields (hparts : AbsorbsParts d depth) : FindsFields d (depth + 1) := by
  intro r r' name node fields hkept hnode h
  rw [recordFieldsFrom, get_bind_eq_ok] at h
  cases hknown : r.fieldsOf? name with
  | some known =>
    rw [hknown] at h
    obtain ⟨rfl, rfl⟩ := pure_eq_ok.1 h
    exact ⟨.refl hkept, hknown⟩
  | none =>
    rw [hknown] at h
    obtain ⟨schema, hclassify, h⟩ := lift_bind_eq_ok.1 h
    dsimp only at h
    split at h
    next properties required =>
      obtain ⟨own, s, hown, h⟩ := bind_eq_ok.1 h
      obtain ⟨rfl, rfl⟩ := keepFields_eq_ok.1 h
      refine ⟨merges_of_object hroot hkept hnode hclassify hknown hown, ?_⟩
      rw [Registry.fieldsOf?_keepFields, if_pos rfl]
    next parts =>
      obtain ⟨_, s, henter, h⟩ := bind_eq_ok.1 h
      obtain ⟨hnew, rfl⟩ := enterMerge_eq_ok (step_eq_ok.1 henter)
      obtain ⟨merged, s, hmerged, h⟩ := bind_eq_ok.1 h
      obtain ⟨_, s', hleave, h⟩ := bind_eq_ok.1 h
      obtain rfl := modify_eq_ok.1 hleave
      rw [pure_bind] at h
      obtain ⟨rfl, rfl⟩ := keepFields_eq_ok.1 h
      have hentered : Registry.Kept d { r with merging := r.merging ++ [name] } :=
        hkept.of_eq rfl rfl
      obtain ⟨hmerges, habsorbs⟩ := hparts.foldlM hentered hmerged
      refine ⟨merges_of_allOf hroot hkept hnode hclassify hknown hnew hmerges habsorbs, ?_⟩
      rw [Registry.fieldsOf?_keepFields, if_pos rfl]
    next => exact absurd h fail_bind_ne_ok

include hdoc

/-- A part that refers to a component absorbs the fields that are kept for it. -/
theorem absorbsParts_succ (hfinds : FindsFields d depth) (hparts : AbsorbsParts d depth) :
    AbsorbsParts d (depth + 1) := by
  intro r r' owner merged fields part hkept h
  rw [mergeFragmentFrom] at h
  obtain ⟨found, hcomponent, h⟩ := lift_bind_eq_ok.1 h
  split at h
  next name node =>
    obtain ⟨known, s, hknown, h⟩ := bind_eq_ok.1 h
    obtain ⟨rfl, rfl⟩ := pure_eq_ok.1 h
    have hdescribes := fragmentComponent_describes hdoc hcomponent
    obtain ⟨hmerges, hfields⟩ := hfinds hkept (.inl hdescribes) hknown
    refine ⟨hmerges, ?_⟩
    obtain ⟨node', leaves, hnode', hleaves, hmerged⟩ :=
      hmerges.kept.merged hfields hdescribes.mem_schemaTypes
    refine .of_fields (fun hapart => ?_) fun _ =>
      ⟨name, node', leaves, .component hcomponent hnode', hleaves, hmerged⟩
    exact hmerges.kept.named hfields (nodup_of_apart hapart hmerged.nodup)
  next =>
    obtain ⟨node, hleads, h⟩ := lift_bind_eq_ok.1 h
    obtain ⟨schema, hclassify, h⟩ := lift_bind_eq_ok.1 h
    split at h
    next properties required =>
      obtain ⟨own, s, hown, h⟩ := bind_eq_ok.1 h
      obtain ⟨rfl, rfl⟩ := pure_eq_ok.1 h
      refine ⟨(objectFields_registering owner properties required hown).merges hkept, ?_⟩
      refine .of_fields (fun _ => ownNames_objectFields hown) fun hpart => ?_
      have hkeys := Document.dereference_distinctKeys hroot hpart hleads
      have hproperties := Schema.nodup_of_classify hkeys hclassify
      exact ⟨owner, node, _, .inline hcomponent hleads, .object hclassify,
        merged_objectFields ⟨owner, properties, required⟩ hproperties hown⟩
    next parts =>
      obtain ⟨hmerges, habsorbs⟩ := hparts.foldlM hkept h
      exact ⟨hmerges, .of_parts hroot hcomponent hleads hclassify habsorbs⟩
    next => exact absurd h fail_ne_ok

/-- Fields of a record are found out from the object schemas that its schema comes down to, and kept
under its name; merging a part absorbs them. -/
theorem findsFields_and_absorbsParts (depth : Nat) :
    FindsFields d depth ∧ AbsorbsParts d depth := by
  -- Each of the two calls the other at the next depth, so one induction serves both.
  induction depth with
  | zero =>
    refine ⟨fun r r' name node fields _ _ h => ?_, fun r r' owner merged fields part _ h => ?_⟩
    · rw [recordFieldsFrom] at h
      exact absurd h fail_ne_ok
    · rw [mergeFragmentFrom] at h
      exact absurd h fail_ne_ok
  | succ depth ih =>
    obtain ⟨hfinds, hparts⟩ := ih
    exact ⟨hparts.findsFields hroot, absorbsParts_succ hdoc hroot hfinds hparts⟩

theorem findsFields (depth : Nat) : FindsFields d depth :=
  (findsFields_and_absorbsParts hdoc hroot depth).1

theorem absorbsParts (depth : Nat) : AbsorbsParts d depth :=
  (findsFields_and_absorbsParts hdoc hroot depth).2

end Merging

end Build

end OpenApiServer
