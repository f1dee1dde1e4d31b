import OpenApiServer.Proofs.Build.Readings
import OpenApiServer.Proofs.Declaration.Matching

/-!
# Fields in reordered documents

A schema comes down to object schemas that match in reordered documents, wherever the components that
its parts refer to match. The fields that these have together are then the same, up to their order and
their names.
-/

namespace OpenApiServer

namespace Build

variable {d d' : Document} (h : Document.Reordered d d')

/-- Whether two object schemas have one owner and the same properties. -/
structure Leaf.Matches (leaf leaf' : Leaf) : Prop where
  owner : leaf.owner = leaf'.owner
  properties : Json.FieldsMatch leaf.properties leaf'.properties
  required : leaf.required = leaf'.required

namespace Leaf.Matches

variable {leaf leaf' : Leaf}

theorem symm (h : leaf.Matches leaf') : leaf'.Matches leaf :=
  ⟨h.owner.symm, h.properties.symm, h.required.symm⟩

theorem mem_keys_iff (h : leaf.Matches leaf') {key : String} : key ∈ leaf.keys ↔ key ∈ leaf'.keys :=
  h.properties.keys.mem_iff

theorem suggested_eq (h : leaf.Matches leaf') (key : String) :
    leaf.suggested key = leaf'.suggested key := by
  rw [Leaf.suggested, Leaf.suggested, h.owner]

end Leaf.Matches

/-- A property is declared first by schemas that match. -/
theorem declaration?_matches {leaves leaves' : List Leaf}
    (hleaves : List.Forall₂ Leaf.Matches leaves leaves') (key : String) :
    Option.Rel NamedMatch (declaration? leaves key) (declaration? leaves' key) := by
  induction hleaves with
  | nil => exact .none
  | @cons leaf leaf' rest rest' hleaf _ ih =>
    have hrel := hleaf.properties.fieldNamed? key
    rw [declaration?, declaration?, List.findSome?_cons, List.findSome?_cons, hleaf.suggested_eq]
    generalize fieldNamed? key leaf.properties = v, fieldNamed? key leaf'.properties = v',
      leaf'.suggested key = suggested at hrel ⊢
    cases hrel with
    | none => exact ih
    | some hmatch => exact .some ⟨rfl, hmatch⟩

include h

theorem Describes.reordered {name : TypeName} {node : Json} (hnode : Describes d name node) :
    ∃ node', Describes d' name node' ∧ node.Matches node' := by
  obtain ⟨schema, hschema, hname, hleads⟩ := hnode
  have hproper := Json.hereditary_proper.schemas h.proper schema hschema
  obtain ⟨node', hleads', hmatch⟩ := h.dereference (.refl hproper) hleads
  exact ⟨node', ⟨schema, h.schemas.mem_iff.1 hschema, hname, hleads'⟩, hmatch⟩

theorem HasType.matches {node node' : Json} {suggested : TypeName} {type type' : TypeExpr}
    (htype : HasType d node suggested type) (htype' : HasType d' node' suggested type')
    (hmatch : node.Matches node') : type = type' := by
  obtain ⟨r, s, hrun⟩ := htype
  obtain ⟨r', s', hrun'⟩ := htype'
  obtain ⟨inline, hplace, -⟩ := typeOf_eq_ok.1 hrun
  obtain ⟨inline', hplace', -⟩ := typeOf_eq_ok.1 hrun'
  obtain ⟨place, hfound, hsame⟩ := placeOf_matches h hmatch hplace
  obtain rfl := Except.ok.inj (hplace'.symm.trans hfound)
  exact hsame.type

/-! ## The fields of object schemas -/

theorem Merged.exists_match {leaves leaves' : List Leaf} {fields fields' : List Field}
    (hmerged : Merged d leaves fields) (hmerged' : Merged d' leaves' fields')
    (hleaves : List.Forall₂ Leaf.Matches leaves leaves') :
    ∀ f ∈ fields, ∃ f' ∈ fields', f.Matches f' := by
  intro f hf
  obtain ⟨leaf, hleaf, hkey⟩ := hmerged.mem_keys_iff.1 (List.mem_map_of_mem hf)
  obtain ⟨leaf', hleaf', hmatch⟩ := exists_of_mem_forall₂ hleaves.flip hleaf
  obtain ⟨f', hf', hname⟩ :=
    List.mem_map.1 (hmerged'.mem_keys_iff.2 ⟨leaf', hleaf', hmatch.mem_keys_iff.1 hkey⟩)
  refine ⟨f', hf', hname.symm, ?_, ?_⟩
  · obtain ⟨suggested, node, hfound, htype⟩ := hmerged.type f hf
    obtain ⟨suggested', node', hfound', htype'⟩ := hmerged'.type f' hf'
    have hrel := declaration?_matches hleaves f.jsonName
    rw [hfound, ← hname, hfound'] at hrel
    cases hrel with
    | some hnamed =>
      obtain ⟨rfl, hnode⟩ := hnamed
      exact htype.matches h htype' hnode
  · rw [Bool.eq_iff_iff, hmerged.required f hf, hmerged'.required f' hf', hname]
    constructor
    · rintro ⟨leaf, hleaf, hkey, hlisted⟩
      obtain ⟨leaf', hleaf', hmatch⟩ := exists_of_mem_forall₂ hleaves.flip hleaf
      exact ⟨leaf', hleaf', hmatch.mem_keys_iff.1 hkey, hmatch.required ▸ hlisted⟩
    · rintro ⟨leaf', hleaf', hkey, hlisted⟩
      obtain ⟨leaf, hleaf, hmatch⟩ := exists_of_mem_forall₂ hleaves hleaf'
      exact ⟨leaf, hleaf, hmatch.mem_keys_iff.2 hkey, hmatch.required ▸ hlisted⟩

theorem Merged.sameFields {leaves leaves' : List Leaf} {fields fields' : List Field}
    (hmerged : Merged d leaves fields) (hmerged' : Merged d' leaves' fields')
    (hleaves : List.Forall₂ Leaf.Matches leaves leaves') : SameFields fields fields' := by
  refine ⟨hmerged.nodup, hmerged'.nodup, hmerged.exists_match h hmerged' hleaves, fun f' hf' => ?_⟩
  have hback : List.Forall₂ Leaf.Matches leaves' leaves := hleaves.flip.imp fun _ _ hleaf => hleaf.symm
  obtain ⟨f, hf, hmatch⟩ := hmerged'.exists_match h.symm hmerged hback f' hf'
  exact ⟨f, hf, hmatch.symm⟩

/-! ## The object schemas of a schema -/

variable (hunique : ∀ ⦃name node node'⦄, Describes d name node → Describes d' name node' →
  node.Matches node')

include hunique

theorem StandsFor.matches {owner name name' : TypeName} {part part' node node' : Json}
    (hstands : StandsFor d owner part name node) (hstands' : StandsFor d' owner part' name' node')
    (hpart : part.Matches part') : name = name' ∧ node.Matches node' := by
  have hfragment {found : Option (TypeName × Json)} (hrefers : fragmentComponent d owner part = .ok found)
      {found' : Option (TypeName × Json)} (hrefers' : fragmentComponent d' owner part' = .ok found') :
      Option.Rel NamedMatch found found' := by
    obtain ⟨last, hlast, hrel⟩ := fragmentComponent_matches h hpart hrefers
    obtain rfl := Except.ok.inj (hrefers'.symm.trans hlast)
    exact hrel
  cases hstands with
  | component refers describes =>
    cases hstands' with
    | component refers' describes' =>
      cases hfragment refers refers' with
      | some hnamed =>
        obtain rfl : name = name' := hnamed.name
        exact ⟨rfl, hunique describes describes'⟩
    | inline plain' => cases hfragment refers plain'
  | inline plain leads =>
    cases hstands' with
    | component refers' => cases hfragment plain refers'
    | inline _ leads' =>
      obtain ⟨last, hlast, hmatch⟩ := h.dereference hpart leads
      obtain rfl := Except.ok.inj (leads'.symm.trans hlast)
      exact ⟨rfl, hmatch⟩

mutual

theorem Flattens.matches {owner : TypeName} {parts parts' : List Json} {leaves leaves' : List Leaf}
    (hmatch : List.Forall₂ Json.Matches parts parts') :
    Flattens d owner parts leaves → Flattens d' owner parts' leaves' →
      List.Forall₂ Leaf.Matches leaves leaves'
  | .nil _, hflattens' => by
    cases hmatch
    cases hflattens'
    exact .nil
  | .cons stands hleaves following, hflattens' => by
    cases hmatch with
    | cons hpart hrest =>
    cases hflattens' with
    | cons stands' hleaves' following' =>
    obtain ⟨rfl, hnode⟩ := stands.matches h hunique stands' hpart
    exact List.rel_append (LeavesOf.matches hnode hleaves hleaves')
      (Flattens.matches hrest following following')

/-- A schema comes down to object schemas that match. -/
theorem LeavesOf.matches {name : TypeName} {node node' : Json} {leaves leaves' : List Leaf}
    (hmatch : node.Matches node') :
    LeavesOf d name node leaves → LeavesOf d' name node' leaves' →
      List.Forall₂ Leaf.Matches leaves leaves'
  | .object object, hleaves' => by
    obtain ⟨schema', hclassify', hview⟩ := Schema.classify_matches hmatch object
    cases hview with
    | object hfields =>
    cases hleaves' with
    | object object' =>
      obtain ⟨rfl, rfl⟩ := Schema.object.inj (Except.ok.inj (object'.symm.trans hclassify'))
      exact .cons ⟨rfl, hfields, rfl⟩ .nil
    | allOf allOf' => cases Except.ok.inj (allOf'.symm.trans hclassify')
  | .allOf allOf hparts, hleaves' => by
    obtain ⟨schema', hclassify', hview⟩ := Schema.classify_matches hmatch allOf
    cases hview with
    | allOf hpartsMatch =>
    cases hleaves' with
    | object object' => cases Except.ok.inj (object'.symm.trans hclassify')
    | allOf allOf' hparts' =>
      obtain rfl := Schema.allOf.inj (Except.ok.inj (allOf'.symm.trans hclassify'))
      exact Flattens.matches hpartsMatch hparts hparts'

end

omit h hunique in
/-- What a record shares with a part and what it does not are the same fields again. -/
theorem splitFields_matched {target target' source source' : List Field}
    (htarget : SameFields target target') (hsource : SameFields source source') :
    Matched FieldMapping.Matches (splitFields target source).1 (splitFields target' source').1 ∧
      Matched Field.Matches (splitFields target source).2 (splitFields target' source').2 := by
  constructor
  · refine htarget.matched.filterMap fun f f' hf => ?_
    have hrel := hsource.find? f.jsonName
    rw [← hf.jsonName]
    generalize source.find? (·.jsonName == f.jsonName) = found,
      source'.find? (·.jsonName == f.jsonName) = found' at hrel ⊢
    cases hrel with
    | none => exact .none
    | some hfound => exact .some ⟨hf, hfound.fieldType_eq⟩
  · refine htarget.matched.filter fun f f' hf => ?_
    rw [hf.jsonName, List.any_eq_not_all_not, List.any_eq_not_all_not]
    refine congrArg (fun b => !!b) (hsource.matched.all_eq fun g g' hg => ?_)
    rw [hg.jsonName]

end Build

end OpenApiServer
