import OpenApiServer.Proofs.Build.Boxing
import OpenApiServer.Proofs.Build.Declares
import OpenApiServer.Proofs.Build.Recorded
import OpenApiServer.Proofs.Server.Declarations

/-!
# What conversions copy

A conversion into a merged record is from a named schema. Unless that schema is declared as an
alias, it is a record, and each copied field is filled from its field of the same JSON name, with
the type that this field is declared with in the end. The generated code reads that field as long
as it has the same name in both records, which numbers on names can prevent.

## From recorded conversions to those of a server

A conversion copies fields from one record into another. Boxing brings it up to date: what it copies
are still fields of the two records, of one JSON name and with the types that they are declared
with. Settling takes copied fields from conversions and leaves their ends alone.
-/

namespace OpenApiServer

/-- Whether a mapping fills a field of one record from a field of another with its JSON name, by the
type that this field is declared with. -/
structure FieldMapping.Copies (m : FieldMapping) (target source : List Field) : Prop where
  mem : m.field ∈ target
  filled : ∃ f ∈ source, f.jsonName = m.field.jsonName ∧ f.fieldType = m.source

theorem Build.copies_of_splitFields {target source : List Field} {copied : List FieldMapping}
    {extras : List Field} (h : splitFields target source = (copied, extras)) :
    ∀ m ∈ copied, m.Copies target source := by
  obtain ⟨rfl, -⟩ := Prod.mk.inj h
  intro m hm
  obtain ⟨field, hfield, hfound⟩ := List.mem_filterMap.1 hm
  obtain ⟨f, hf, rfl⟩ := Option.map_eq_some_iff.1 hfound
  have hname := List.find?_some hf
  exact ⟨hfield, f, List.mem_of_find?_eq_some hf, beq_iff_eq.1 hname, rfl⟩

namespace Boxing

variable {types : List Declaration}

/-- Boxes change neither keys nor names. -/
theorem keyNames_boxedFields (edges : Edges) (decl : RecordDecl) :
    Build.keyNames (boxedFields edges decl) = Build.keyNames decl.fields := by
  simp [boxedFields, Build.keyNames, Function.comp_def, jsonName_boxField]

theorem ownNames_boxedFields {edges : Edges} {decl : RecordDecl}
    (h : Build.OwnNames decl.fields) : Build.OwnNames (boxedFields edges decl) := by
  refine List.forall_mem_map.2 fun f hf => ?_
  rw [name_boxField, jsonName_boxField]
  exact h f hf

/-- Whether a conversion is another one after boxing. -/
structure Refreshed (types : List Declaration) (c c' : Conversion) : Prop where
  ends : c'.ends = c.ends
  copies : ∀ {target source : RecordDecl}, .record target ∈ types → .record source ∈ types →
    target.name = c.target → source.name = c.source →
      (∀ m ∈ c.copied, m.Copies target.fields source.fields) →
        ∀ m ∈ c'.copied, m.Copies (boxedFields (edges types) target)
          (boxedFields (edges types) source)

theorem refreshed_refreshConversion (hnames : (types.map (·.name)).Nodup) (c : Conversion) :
    Refreshed types c
      (refreshConversion (recordFields (types.map (boxDeclaration (edges types)))) c) := by
  refine ⟨rfl, fun {target source} htarget hsource htargetName hsourceName hcopies => ?_⟩
  refine List.forall_mem_map.2 fun m hm => ?_
  obtain ⟨hmem, f, hf, hkey, -⟩ := hcopies m hm
  obtain ⟨g, hg, hgkey, hgfound⟩ := fieldOf?_boxed (edges types) hnames htarget hmem
  obtain ⟨g', hg', hgkey', hgfound'⟩ := fieldOf?_boxed (edges types) hnames hsource hf
  rw [htargetName] at hgfound
  rw [hsourceName, hkey] at hgfound'
  rw [refreshMapping, refreshField, hgfound, hgfound']
  exact ⟨hg, g', hg', (hgkey'.trans hkey).trans hgkey.symm, rfl⟩

/-- Conversions are brought up to date one by one. -/
theorem refreshed_box (hnames : (types.map (·.name)).Nodup) (conversions : List Conversion) :
    List.Forall₂ (Refreshed types) conversions (box types conversions).conversions := by
  rw [box]
  dsimp only
  split
  next hnone =>
    refine List.forall₂_same.2 fun c _ => ⟨rfl, fun htarget hsource _ _ hcopies => ?_⟩
    have hcounts := boxedFieldCount_eq_zero hnone
    rwa [boxedFields_eq_self (hcounts _ htarget), boxedFields_eq_self (hcounts _ hsource)]
  next =>
    exact List.forall₂_map_right_iff.2 (List.forall₂_same.2 fun c _ =>
      refreshed_refreshConversion hnames c)

end Boxing

namespace Conversion

variable {enums : KnownConversions} {conversions : List Conversion}

theorem map_ends_settle (enums : KnownConversions) (conversions : List Conversion) :
    (settle enums conversions).map ends = conversions.map ends := by
  refine settle_keeps (P := fun cs => cs.map ends = conversions.map ends) (fun cs hcs => ?_) rfl
  rw [settleOnce, List.map_map, ← hcs]
  rfl

/-- What is copied in the end was copied before. -/
theorem exists_of_mem_settle :
    ∀ c' ∈ settle enums conversions,
      ∃ c ∈ conversions, c'.ends = c.ends ∧ c'.copied ⊆ c.copied := by
  refine settle_keeps (P := fun cs => ∀ c' ∈ cs, ∃ c ∈ conversions, c'.ends = c.ends ∧
    c'.copied ⊆ c.copied) (fun cs hcs => ?_) fun c hc => ⟨c, hc, rfl, List.Subset.refl _⟩
  rw [settleOnce, List.forall_mem_map]
  intro c' hc'
  obtain ⟨c, hc, hends, hcopied⟩ := hcs c' hc'
  exact ⟨c, hc, hends, List.Subset.trans (List.filter_subset_self _) hcopied⟩

end Conversion

end OpenApiServer

/-! ## Conversions of a server -/

namespace OpenApiServer

variable {root : Json} {d : Document} {basePath : String} {m : ServerModel}

/-- What has kept fields is declared as a record, unless it is a reference. -/
theorem Registry.Recorded.kind_eq {r : Registry} (h : r.Recorded d) {t : Declaration}
    (ht : t ∈ r.types) {fields : List Field} (hfields : r.fieldsOf? t.name = some fields)
    {s : String × Json} (hs : s ∈ d.schemas) (hname : TypeName.ofText s.1 = t.name) :
    t.isRecord = (Document.reference? s.2).isNone ∧
      t.isAlias = (Document.reference? s.2).isSome := by
  have hmem : t.name ∈ d.schemaTypes := List.mem_map.2 ⟨s, hs, hname⟩
  obtain ⟨node, leaves, hdescribes, hleaves, -⟩ := h.merged hfields hmem
  obtain ⟨claimed, hclaimed, hplain, -⟩ := h.claimed (.inl hdescribes)
  obtain ⟨claimed', hclaimed', hfits⟩ := h.kinds t ht
  obtain rfl := Option.some.inj (hclaimed.symm.trans hclaimed')
  obtain ⟨s', -, -, hnode, halike⟩ := h.schemas s hs
  rw [hname] at hnode
  obtain rfl := Option.some.inj (hclaimed.symm.trans hnode)
  rw [← halike.2]
  cases hreference : Document.reference? s'.2 with
  | none =>
    have hrecord : t.isRecord = true := by
      rw [hfits.isRecord_eq, hplain hreference]
      exact hleaves.isRecord
    cases t <;> simp_all [Declaration.isRecord, Declaration.isAlias]
  | some pointer =>
    have hkind := Json.schemaKind_eq_reference_iff.2 (Option.isSome_of_eq_some hreference)
    rw [hkind] at hfits
    exact ⟨hfits.isRecord_eq, hfits.isAlias_of_reference⟩

/-- The copied fields of a conversion are fields of the records that it is between. -/
theorem Registry.Recorded.copies {r : Registry} (h : r.Recorded d) {c : Conversion}
    (hc : c ∈ r.conversions) {target source : RecordDecl} (htarget : .record target ∈ r.types)
    (hsource : .record source ∈ r.types) (htargetName : target.name = c.target)
    (hsourceName : source.name = c.source) :
    ∀ m ∈ c.copied, m.Copies target.fields source.fields := by
  obtain ⟨fields, others, hfields, hothers, hsplit⟩ := (h.conversions c hc).1.splits
  rw [← htargetName, h.records target htarget] at hfields
  rw [← hsourceName, h.records source hsource] at hothers
  obtain rfl := Option.some.inj hfields
  obtain rfl := Option.some.inj hothers
  exact Build.copies_of_splitFields hsplit

/-- A declared record without keys that fall together has fields with the names of their keys. -/
theorem Registry.Recorded.ownNames {r : Registry} (h : r.Recorded d) {decl : RecordDecl}
    (hdecl : .record decl ∈ r.types) {edges : Boxing.Edges}
    (hnodup : (Build.keyNames (Boxing.boxedFields edges decl)).Nodup) :
    Build.OwnNames (Boxing.boxedFields edges decl) := by
  rw [Boxing.keyNames_boxedFields] at hnodup
  exact Boxing.ownNames_boxedFields (h.named (h.records decl hdecl) hnodup)

namespace Built

theorem nodup_drained (b : Built d basePath m) (h : (m.types.map (·.name)).Nodup) :
    (b.drained.types.map (·.name)).Nodup := by
  rw [b.types_eq, List.map_append, Boxing.names_box] at h
  exact h.of_append_left

/-- What is declared in the end is what was declared before boxing. -/
theorem exists_boxed (b : Built d basePath m) {t : Declaration} (ht : t ∈ b.drained.types) :
    ∃ t' ∈ m.types, Boxing.Boxed (Boxing.edges b.drained.types) t t' := by
  obtain ⟨t', ht', hboxed⟩ :=
    exists_of_mem_forall₂ (Boxing.boxed_box b.drained.types b.drained.conversions).flip ht
  exact ⟨t', b.types_eq ▸ List.mem_append_left _ ht', hboxed⟩

/-- The named schemas are claimed before the names of responses. -/
theorem response_not_mem_schemaTypes (b : Built d basePath m) (hroot : d.root.DistinctKeys)
    {built : Operation × ResponseDecl} (hbuilt : built ∈ b.built) :
    built.2.name ∉ d.schemaTypes := by
  intro hname
  obtain ⟨s, hs, hsame⟩ := List.mem_map.1 hname
  obtain ⟨s', -, -, hnode, -⟩ :=
    (Build.registerSchemas_recorded hroot b.registerSchemas).schemas s hs
  have hfree := b.operationsRun.claim?_response built hbuilt
  rw [show TypeName.ofText s.1 = built.2.name from hsame, Registry.nodeOf?, hfree] at hnode
  cases hnode

/-- What has the name of a named schema was declared before boxing. -/
theorem exists_drained (b : Built d basePath m) (hroot : d.root.DistinctKeys) {t : Declaration}
    (ht : t ∈ m.types) (hname : t.name ∈ d.schemaTypes) :
    ∃ t' ∈ b.drained.types, Boxing.Boxed (Boxing.edges b.drained.types) t' t := by
  rw [b.types_eq] at ht
  rcases List.mem_append.1 ht with ht | ht
  · exact exists_of_mem_forall₂ (Boxing.boxed_box _ _) ht
  · obtain ⟨built, hbuilt, rfl⟩ := List.mem_map.1 ht
    exact absurd hname (b.response_not_mem_schemaTypes hroot hbuilt)

/-- A conversion in the end is one that was recorded, brought up to date. -/
theorem exists_refreshed (b : Built d basePath m) (hnames : (b.drained.types.map (·.name)).Nodup)
    {c : Conversion} (hc : c ∈ m.conversions) :
    ∃ c₀ ∈ b.drained.conversions, Boxing.Refreshed b.drained.types c₀ c := by
  rw [b.conversions_eq] at hc
  obtain ⟨boxed, hboxed, hends, hcopied⟩ := Conversion.exists_of_mem_settle c hc
  obtain ⟨c₀, hc₀, hrefreshed⟩ := exists_of_mem_forall₂ (Boxing.refreshed_box hnames _) hboxed
  refine ⟨c₀, hc₀, hends.trans hrefreshed.ends, fun htarget hsource hname hname' hcopies => ?_⟩
  exact fun m hm => hrefreshed.copies htarget hsource hname hname' hcopies m (hcopied hm)

end Built

/-- A record that leads to itself, and a schema that merges it. -/
def linked : Json :=
  .obj [("components", .obj [("schemas", .obj [
    ("Node", .obj [("properties",
      .obj [("next", .obj [("$ref", .str "#/components/schemas/Node")])])]),
    ("Whole", .obj [("allOf", .arr [.obj [("$ref", .str "#/components/schemas/Node")]])])])])]

/-- An object with required texts. -/
def texts (keys : List String) : Json :=
  .obj [("required", .arr (keys.map .str)),
    ("properties", .obj (keys.map fun key => (key, .obj [("type", .str "string")])))]

/-- A record with two keys that give one name, and a schema that merges it after one of them. -/
def swapped : Json :=
  .obj [("components", .obj [("schemas", .obj [("Part", texts ["foo-bar", "foo_bar"]),
    ("Whole", .obj [("allOf", .arr [texts ["foo_bar"],
      .obj [("$ref", .str "#/components/schemas/Part")]])])])])]

/-- A named schema that refers to an inline one, and a schema that merges it. -/
def aliased : Json :=
  .obj [("components", .obj [("schemas", .obj [
    ("Holder", .obj [("properties", .obj [("part", texts ["label"])])]),
    ("Part", .obj [("$ref", .str "#/components/schemas/Holder/properties/part")]),
    ("Whole", .obj [("allOf", .arr [.obj [("$ref", .str "#/components/schemas/Part")]])])])])]

def textField (name key : String) : Field := ⟨⟨name⟩, key, .primitive .string, true, .empty⟩

end OpenApiServer
