import OpenApiServer.Proofs.Build.Fields
import OpenApiServer.Proofs.Data.List
import OpenApiServer.Proofs.Document.References
import OpenApiServer.Proofs.Schema.Kind

/-!
# What merging makes of its parts

The parts of a merged schema come down to object schemas: through references to a named schema and
through nested parts, in the order in which they are met. `Flattens` is this relation, and `Merged`
says which fields the object schemas have together: each property once, where it is declared first
and with the type of that declaration, and required if one of the schemas that declare it requires
it. Absorbing the fields of further schemas keeps this up.
-/

namespace OpenApiServer.Build

variable {d : Document} {r r' : Registry}

/-! ## Absorbing fields -/

theorem keys_absorbField (field : Field) (merged : List Field) :
    (absorbField field merged).map (·.jsonName) =
      if field.jsonName ∈ merged.map (·.jsonName) then merged.map (·.jsonName)
      else merged.map (·.jsonName) ++ [field.jsonName] := by
  induction merged with
  | nil => rfl
  | cons f rest ih =>
    by_cases hkey : f.jsonName = field.jsonName
    · simp [absorbField, hkey]
    · have hkey' : field.jsonName ≠ f.jsonName := Ne.symm hkey
      rw [absorbField, if_neg hkey, List.map_cons, ih]
      by_cases hmem : field.jsonName ∈ rest.map (·.jsonName)
      · simp [hmem]
      · simp [hmem, hkey']

theorem keys_absorb {merged : List Field} {keys : List String}
    (h : merged.map (·.jsonName) = keys.eraseDups) (fields : List Field) :
    (absorb merged fields).map (·.jsonName) = (keys ++ fields.map (·.jsonName)).eraseDups := by
  induction fields generalizing merged keys with
  | nil => simpa [absorb] using h
  | cons field rest ih =>
    have hstep : (absorbField field merged).map (·.jsonName) =
        (keys ++ [field.jsonName]).eraseDups := by
      rw [keys_absorbField, h, eraseDups_concat]
      simp only [List.mem_eraseDups]
    rw [absorb, List.foldl_cons, ← absorb, ih hstep, List.map_cons, List.append_assoc,
      List.singleton_append]

/-- A field that is in the list already gets the requirement of the new one. -/
theorem mem_absorbField {field f : Field} {merged : List Field}
    (hkeys : (merged.map (·.jsonName)).Nodup) (h : f ∈ absorbField field merged) :
    (∃ g ∈ merged, g.jsonName = field.jsonName ∧
      f = { g with required := g.required || field.required }) ∨
    (f ∈ merged ∧ f.jsonName ≠ field.jsonName) ∨
    (f = field ∧ field.jsonName ∉ merged.map (·.jsonName)) := by
  induction merged with
  | nil => exact .inr (.inr ⟨List.mem_singleton.1 h, by simp⟩)
  | cons g rest ih =>
    obtain ⟨hg, hrest⟩ := List.nodup_cons.1 hkeys
    rw [absorbField] at h
    split at h
    next hkey =>
      rcases List.mem_cons.1 h with rfl | hmem
      · exact .inl ⟨g, List.mem_cons_self .., hkey, rfl⟩
      · refine .inr (.inl ⟨List.mem_cons_of_mem _ hmem, fun heq => hg ?_⟩)
        exact List.mem_map.2 ⟨f, hmem, heq.trans hkey.symm⟩
    next hkey =>
      rcases List.mem_cons.1 h with rfl | hmem
      · exact .inr (.inl ⟨List.mem_cons_self .., hkey⟩)
      · rcases ih hrest hmem with ⟨g', hg', hsame⟩ | ⟨hold, hother⟩ | ⟨hnew, hfree⟩
        · exact .inl ⟨g', List.mem_cons_of_mem _ hg', hsame⟩
        · exact .inr (.inl ⟨List.mem_cons_of_mem _ hold, hother⟩)
        · refine .inr (.inr ⟨hnew, ?_⟩)
          rw [List.map_cons, List.mem_cons, not_or]
          exact ⟨Ne.symm hkey, hfree⟩

/-- Whether one of some fields is required under a key. -/
def requires (fields : List Field) (key : String) : Bool :=
  fields.any fun f => f.jsonName == key && f.required

/-- A field after absorbing is one from before, which may be required now, or a new one. -/
theorem mem_absorb {merged fields : List Field} {f : Field}
    (hmerged : (merged.map (·.jsonName)).Nodup) (hfields : (fields.map (·.jsonName)).Nodup)
    (h : f ∈ absorb merged fields) :
    (∃ g ∈ merged, f = { g with required := g.required || requires fields g.jsonName }) ∨
      f ∈ fields ∧ f.jsonName ∉ merged.map (·.jsonName) := by
  induction fields generalizing merged with
  | nil => exact .inl ⟨f, h, by simp [requires]⟩
  | cons field rest ih =>
    obtain ⟨hfirst, hrest⟩ := List.nodup_cons.1 hfields
    have hnext : ((absorbField field merged).map (·.jsonName)).Nodup := by
      rw [keys_absorbField]
      split
      · exact hmerged
      next hnew =>
        rw [← List.concat_eq_append]
        exact hmerged.concat hnew
    rw [absorb, List.foldl_cons, ← absorb] at h
    rcases ih hnext hrest h with ⟨g', hg', rfl⟩ | ⟨hmem, hfree⟩
    · rcases mem_absorbField hmerged hg' with ⟨g, hg, hkey, rfl⟩ | ⟨hg, hkey⟩ | ⟨rfl, hkey⟩
      · have hnow : requires (field :: rest) g.jsonName =
            (field.required || requires rest g.jsonName) := by
          simp [requires, hkey]
        exact .inl ⟨g, hg, by rw [hnow, Bool.or_assoc]⟩
      · have hnow : requires (field :: rest) g'.jsonName = requires rest g'.jsonName := by
          simp [requires, Ne.symm hkey]
        exact .inl ⟨g', hg, by rw [hnow]⟩
      · have hlater : requires rest g'.jsonName = false := by
          rw [requires, List.any_eq_false]
          intro later hmem hrequired
          rw [Bool.and_eq_true, beq_iff_eq] at hrequired
          exact hfirst (List.mem_map.2 ⟨later, hmem, hrequired.1⟩)
        rw [hlater, Bool.or_false]
        exact .inr ⟨List.mem_cons_self .., hkey⟩
    · refine .inr ⟨List.mem_cons_of_mem _ hmem, fun hold => hfree ?_⟩
      rw [keys_absorbField]
      split
      · exact hold
      · exact List.mem_append_left _ hold

/-! ## Fields of several schemas -/

/-- An object schema, with the name that the types of its properties start with. -/
structure Leaf where
  owner : TypeName
  properties : List (String × Json)
  required : List String

namespace Leaf

def keys (leaf : Leaf) : List String := leaf.properties.map (·.1)

/-- The name that is suggested for the type of a property. -/
def suggested (leaf : Leaf) (key : String) : TypeName :=
  .ofFragments [leaf.owner.text, Name.pascalCase [key]]

end Leaf

/-- The first declaration of a property: its schema and the name suggested for its type. -/
def declaration? (leaves : List Leaf) (key : String) : Option (TypeName × Json) :=
  leaves.findSome? fun leaf => (fieldNamed? key leaf.properties).map (leaf.suggested key, ·)

/-- Whether a run that finds the type of a schema can give `type`. -/
def HasType (d : Document) (node : Json) (suggested : TypeName) (type : TypeExpr) : Prop :=
  ∃ r r', typeOf d node suggested r = .ok (type, r')

/-- The type of a schema depends on the document only. -/
theorem HasType.unique {node : Json} {suggested : TypeName} {type type' : TypeExpr}
    (h : HasType d node suggested type) (h' : HasType d node suggested type') : type = type' := by
  obtain ⟨_, _, hrun⟩ := h
  obtain ⟨_, _, hrun'⟩ := h'
  obtain ⟨_, hplace, -⟩ := typeOf_eq_ok.1 hrun
  obtain ⟨_, hplace', -⟩ := typeOf_eq_ok.1 hrun'
  exact (Place.mk.inj (Except.ok.inj (hplace.symm.trans hplace'))).1

/-- The fields that some object schemas have together. -/
structure Merged (d : Document) (leaves : List Leaf) (fields : List Field) : Prop where
  keys : fields.map (·.jsonName) = (leaves.flatMap Leaf.keys).eraseDups
  type : ∀ f ∈ fields, ∃ suggested node,
    declaration? leaves f.jsonName = some (suggested, node) ∧ HasType d node suggested f.type
  required : ∀ f ∈ fields, f.required = true ↔
    ∃ leaf ∈ leaves, f.jsonName ∈ leaf.keys ∧ f.jsonName ∈ leaf.required

theorem declaration?_append (leaves more : List Leaf) (key : String) :
    declaration? (leaves ++ more) key = (declaration? leaves key).or (declaration? more key) :=
  List.findSome?_append

theorem declaration?_eq_none_iff {leaves : List Leaf} {key : String} :
    declaration? leaves key = none ↔ key ∉ leaves.flatMap Leaf.keys := by
  simp only [declaration?, List.findSome?_eq_none_iff, Option.map_eq_none_iff,
    fieldNamed?_eq_none_iff, List.mem_flatMap, not_exists, not_and]
  rfl

namespace Merged

variable {leaves more : List Leaf} {merged fields : List Field}

theorem nil : Merged d [] [] := ⟨rfl, by simp, by simp⟩

theorem mem_keys_iff (h : Merged d leaves fields) {key : String} :
    key ∈ fields.map (·.jsonName) ↔ ∃ leaf ∈ leaves, key ∈ leaf.keys := by
  rw [h.keys, List.mem_eraseDups, List.mem_flatMap]

theorem nodup (h : Merged d leaves fields) : (fields.map (·.jsonName)).Nodup := by
  rw [h.keys]
  exact nodup_eraseDups _

theorem requires_iff (h : Merged d leaves fields) {key : String} :
    requires fields key = true ↔ ∃ leaf ∈ leaves, key ∈ leaf.keys ∧ key ∈ leaf.required := by
  simp only [requires, List.any_eq_true, Bool.and_eq_true, beq_iff_eq]
  constructor
  · rintro ⟨f, hf, rfl, hrequired⟩
    exact (h.required f hf).1 hrequired
  · rintro ⟨leaf, hleaf, hkey, hlisted⟩
    obtain ⟨f, hf, rfl⟩ := List.mem_map.1 (h.mem_keys_iff.2 ⟨leaf, hleaf, hkey⟩)
    exact ⟨f, hf, rfl, (h.required f hf).2 ⟨leaf, hleaf, hkey, hlisted⟩⟩

/-- The fields of some schemas, absorbed into those of the schemas before them. -/
theorem absorb (h : Merged d leaves merged) (h' : Merged d more fields) :
    Merged d (leaves ++ more) (absorb merged fields) where
  keys := by
    rw [keys_absorb h.keys, h'.keys, List.flatMap_append, ← eraseDups_append_eraseDups,
      eraseDups_of_nodup (nodup_eraseDups (more.flatMap Leaf.keys)), eraseDups_append_eraseDups]
  type f hf := by
    rw [declaration?_append]
    rcases mem_absorb h.nodup h'.nodup hf with ⟨g, hg, rfl⟩ | ⟨hnew, hfree⟩
    · obtain ⟨suggested, node, hfound, htype⟩ := h.type g hg
      exact ⟨suggested, node, by rw [hfound, Option.some_or], htype⟩
    · rw [h.keys, List.mem_eraseDups] at hfree
      rw [declaration?_eq_none_iff.2 hfree, Option.none_or]
      exact h'.type f hnew
  required f hf := by
    simp only [List.mem_append, or_and_right, exists_or]
    rcases mem_absorb h.nodup h'.nodup hf with ⟨g, hg, rfl⟩ | ⟨hnew, hfree⟩
    · rw [Bool.or_eq_true, h.required g hg, h'.requires_iff]
    · rw [h'.required f hnew, iff_or_self]
      rintro ⟨leaf, hleaf, hkey, -⟩
      exact absurd (h.mem_keys_iff.2 ⟨leaf, hleaf, hkey⟩) hfree

/-- Merging does not look at the names of fields. -/
theorem of_names (h : Merged d leaves fields) {fields' : List Field}
    (hfields : List.Forall₂ (fun f f' => ∃ name, f' = { f with name := name }) fields fields') :
    Merged d leaves fields' where
  keys := by
    rw [← h.keys]
    refine map_eq_of_forall₂ (fun f f' => ?_) hfields
    rintro ⟨name, rfl⟩
    rfl
  type f' hf' := by
    obtain ⟨f, hf, name, rfl⟩ := exists_of_mem_forall₂ hfields hf'
    exact h.type f hf
  required f' hf' := by
    obtain ⟨f, hf, name, rfl⟩ := exists_of_mem_forall₂ hfields hf'
    exact h.required f hf

end Merged

/-! ## Fields of one schema -/

/-- What a field takes from the property that it stands for. -/
structure FieldOf (d : Document) (leaf : Leaf) (property : String × Json) (f : Field) : Prop where
  name : f.name = .ofText property.1
  jsonName : f.jsonName = property.1
  type : HasType d property.2 (leaf.suggested property.1) f.type
  required : f.required = leaf.required.contains property.1

theorem fieldOf_objectField (leaf : Leaf) {property : String × Json} {f : Field}
    (h : objectField d leaf.owner leaf.required property r = .ok (f, r')) :
    FieldOf d leaf property f := by
  obtain ⟨type, s, htype, h⟩ := bind_eq_ok.1 h
  obtain ⟨rfl, -⟩ := pure_eq_ok.1 h
  have hsuggested : leaf.suggested property.1 =
      .ofFragments [leaf.owner.text, Name.pascalCase [property.1]] := by rw [Leaf.suggested]
  constructor <;> dsimp only
  rw [hsuggested]
  exact ⟨r, s, htype⟩

theorem fieldsOf_objectFields (leaf : Leaf) {fields : List Field}
    (h : objectFields d leaf.owner leaf.properties leaf.required r = .ok (fields, r')) :
    List.Forall₂ (FieldOf d leaf) leaf.properties fields := by
  refine List.Forall₂.imp (fun property f => ?_) (forall₂_of_mapM h)
  rintro ⟨s, s', hrun⟩
  exact fieldOf_objectField leaf hrun

theorem merged_objectFields (leaf : Leaf) {fields : List Field} (hkeys : leaf.keys.Nodup)
    (h : objectFields d leaf.owner leaf.properties leaf.required r = .ok (fields, r')) :
    Merged d [leaf] fields := by
  have hfields := fieldsOf_objectFields leaf h
  refine ⟨?_, fun f hf => ?_, fun f hf => ?_⟩
  · rw [List.flatMap_singleton, eraseDups_of_nodup hkeys]
    exact map_eq_of_forall₂ (fun _ _ hf => hf.jsonName) hfields
  · obtain ⟨property, hproperty, hf⟩ := exists_of_mem_forall₂ hfields hf
    refine ⟨leaf.suggested property.1, property.2, ?_, hf.type⟩
    rw [hf.jsonName, declaration?, List.findSome?_singleton, fieldNamed?_of_mem hkeys hproperty,
      Option.map_some]
  · obtain ⟨property, hproperty, hf⟩ := exists_of_mem_forall₂ hfields hf
    have hmem : property.1 ∈ leaf.keys := List.mem_map_of_mem hproperty
    rw [hf.required, hf.jsonName]
    simp [hmem]

theorem forall₂_distinctNames (fields : List Field) :
    List.Forall₂ (fun f f' => ∃ name, f' = { f with name := name }) fields
      (distinctNames fields) := by
  have hfrom (used : List String) :
      List.Forall₂ (fun f f' => ∃ name, f' = { f with name := name }) fields
        (distinctNamesFrom used fields) := by
    induction fields generalizing used with
    | nil => exact .nil
    | cons f rest ih => exact .cons ⟨_, rfl⟩ (ih _)
  exact hfrom []

theorem Merged.distinctNames {leaves : List Leaf} {fields : List Field}
    (h : Merged d leaves fields) : Merged d leaves (distinctNames fields) :=
  h.of_names (forall₂_distinctNames fields)

/-! ## From parts to object schemas -/

/-- Whether a named schema of the document with this type name is, or leads to, a node. Schemas with
one type name are equal, but their keys can be in different orders. -/
def Describes (d : Document) (name : TypeName) (node : Json) : Prop :=
  ∃ schema ∈ d.schemas, TypeName.ofText schema.1 = name ∧ d.dereference schema.2 = .ok node

theorem Describes.mem_schemaTypes {name : TypeName} {node : Json} (h : Describes d name node) :
    name ∈ d.schemaTypes := by
  obtain ⟨schema, hschema, rfl, -⟩ := h
  exact List.mem_map.2 ⟨schema, hschema, rfl⟩

/-- A component that is found on the way to a node is described by it. -/
theorem Traverses.describes {root : Json} (hdoc : Document.ofJson root = .ok d)
    {component last : Option TypeName} {node target : Json}
    (h : Traverses d component node last target) (hleads : d.dereference node = .ok target)
    (hcomponent : ∀ name ∈ component, Describes d name target) :
    ∀ name ∈ last, Describes d name target := by
  induction h with
  | done => exact hcomponent
  | @named _ _ _ next _ _ name reference names resolves _ ih =>
    have hleads' := Document.dereference_of_resolve reference resolves hleads
    refine ih hleads' fun name' hname' => ?_
    obtain rfl := Option.mem_some_iff.1 hname'
    have hschema := Document.mem_schemas_of_resolve hdoc names resolves
    exact ⟨(name, next), hschema, rfl, hleads'⟩
  | unnamed reference _ resolves _ ih =>
    exact ih (Document.dereference_of_resolve reference resolves hleads) hcomponent

theorem fragmentComponent_describes {root : Json} (hdoc : Document.ofJson root = .ok d)
    {owner name : TypeName} {fragment node : Json}
    (h : fragmentComponent d owner fragment = .ok (some (name, node))) :
    Describes d name node := by
  obtain ⟨hleads, htraverses⟩ := traverses_of_component h
  exact htraverses.describes hdoc hleads (by simp) name rfl

/-- What a part of a schema stands for: the component that it refers to, or a schema inline. -/
inductive StandsFor (d : Document) (owner : TypeName) (part : Json) : TypeName → Json → Prop where
  | component {name : TypeName} {found node : Json}
    (refers : fragmentComponent d owner part = .ok (some (name, found)))
    (describes : Describes d name node) : StandsFor d owner part name node
  | inline {node : Json} (plain : fragmentComponent d owner part = .ok none)
    (leads : d.dereference part = .ok node) : StandsFor d owner part owner node

mutual

/-- The object schemas that the parts of a merged schema come down to, in their order. -/
inductive Flattens (d : Document) : TypeName → List Json → List Leaf → Prop where
  | nil (owner : TypeName) : Flattens d owner [] []
  | cons {owner name : TypeName} {part node : Json} {rest : List Json} {first later : List Leaf}
    (stands : StandsFor d owner part name node) (leaves : LeavesOf d name node first)
    (following : Flattens d owner rest later) : Flattens d owner (part :: rest) (first ++ later)

/-- The object schemas that one schema comes down to. -/
inductive LeavesOf (d : Document) : TypeName → Json → List Leaf → Prop where
  | object {name : TypeName} {node : Json} {properties : List (String × Json)}
    {required : List String}
    (object : Schema.classify name.text node = .ok (.object properties required)) :
    LeavesOf d name node [⟨name, properties, required⟩]
  | allOf {name : TypeName} {node : Json} {parts : List Json} {leaves : List Leaf}
    (allOf : Schema.classify name.text node = .ok (.allOf parts))
    (parts : Flattens d name parts leaves) : LeavesOf d name node leaves

end

end OpenApiServer.Build
