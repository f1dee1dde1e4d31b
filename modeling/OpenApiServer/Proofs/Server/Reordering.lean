import OpenApiServer.Proofs.Build.Rebinding
import OpenApiServer.Proofs.Build.Reboxing
import OpenApiServer.Proofs.Build.SameFields
import OpenApiServer.Proofs.Server.Draining
import OpenApiServer.Proofs.Server.Enumerations
import OpenApiServer.Proofs.Server.Redeclaring

/-!
# The order of the named schemas

A document builds in every order of its named schemas or in none. In any order the same types are
declared, the same conversions are generated, and as many fields get boxes. The order of declarations
follows that of the schemas, and so do the order of fields and the numbers on names. It is said of
proper documents: all that are read from a text are (`Source.read_proper`).

## Building again

Where a document can be built, a reordered one can. Its named schemas are registered and its operations
bound in the same way, so that the same names wait for a declaration, and more that wait later are known
from the first build. They are finitely many, so that the queue empties. Two such builds claim the same
names in the end, for schemas that match.
-/

namespace OpenApiServer

theorem Registry.Below.claimed {r R : Registry} (h : r.Below R) : r.claimed ⊆ R.claimed := by
  intro name hname
  have hsome : r.claim? name ≠ none := fun hnone => claim?_eq_none_iff.1 hnone hname
  obtain ⟨c, hc⟩ := Option.ne_none_iff_exists'.1 hsome
  obtain ⟨known, hknown, -⟩ := h (Option.map_eq_some_iff.2 ⟨c, hc, rfl⟩)
  exact mem_claimed_of_nodeOf? hknown

namespace Build

variable {d d' : Document} {r : Registry}

section Starting

variable (h : Document.Reordered d d')

include h

/-- Each named schema is registered below a registry in which one of its name matches it. -/
theorem registerSchemas_succeeds (hrun : registerSchemas d .empty = .ok ((), r)) :
    Succeeds (r.Under []) (registerSchemas d') anyResult := by
  obtain ⟨-, hschemas⟩ :=
    registerAll_schemas h.proper.keys (fun _ hs => hs) (fun _ _ hnode => by cases hnode) hrun
  obtain ⟨-, hequal⟩ := registerAll_equal hrun
  have hproper := Json.hereditary_proper.schemas h.proper
  refine .forM fun schema hschema t ht => ?_
  have hschema := h.schemas.mem_iff.2 hschema
  obtain ⟨s, hs, -, hnode, -⟩ := hschemas schema hschema
  obtain ⟨node, hnode', hsame⟩ := hequal schema hschema
  obtain rfl := Option.some.inj (hnode.symm.trans hnode')
  have hmatch : s.2.Matches schema.2 := ⟨hproper s hs, hproper schema hschema, hsame⟩
  obtain ⟨t', hregister, ht'⟩ := ht.register hnode hmatch (Pointer.schemaRoot ++ schema.1)
  exact ⟨(), t', step_eq_ok.2 hregister, ht', trivial⟩

/-- The named schemas are registered in any order. -/
theorem registerSchemas_again (hrun : registerSchemas d .empty = .ok ((), r)) :
    ∃ r', registerSchemas d' .empty = .ok ((), r') ∧ r.ClaimsMatch r' ∧ r'.merging = [] := by
  have hempty (R : Registry) : R.Under [] .empty := by
    refine ⟨fun _ _ hnode => ?_, rfl⟩
    cases hnode
  obtain ⟨⟨⟩, r', hrun', hr', -⟩ := registerSchemas_succeeds h hrun (hempty r)
  obtain ⟨hr, -⟩ := (registerSchemas_succeeds h.symm hrun').of_run (hempty r') hrun
  exact ⟨r', hrun', .of_below hr'.below hr.below, hr'.merging⟩

/-- The operations are bound in the same way. -/
theorem buildOperations_again {basePath : String} {m : ServerModel} (b : Built d basePath m) :
    ∃ registered bound, registerSchemas d' .empty = .ok ((), registered) ∧
      buildOperations d' ⟨[], []⟩ d'.endpoints registered = .ok ((b.built, b.tables), bound) ∧
        b.bound.ClaimsMatch bound ∧ bound.merging = [] := by
  obtain ⟨registered, hregister, hmatch, hmerging⟩ := registerSchemas_again h b.registerSchemas
  have hendpoints : ∀ e ∈ d.endpoints, e.node.Proper ∧ e.pathItem.Proper := fun e he =>
    (Json.hereditary_proper.endpoints h.proper e he).symm
  obtain ⟨bound, hbind, hbound⟩ :=
    buildOperations_tracks h ⟨[], []⟩ hendpoints b.buildOperations hmatch
  rw [← h.endpoints] at hbind
  have hregisters := (operationsRun_of_buildOperations hbind).registers
  exact ⟨registered, bound, hregister, hbind, hbound, hregisters.merging.trans hmerging⟩

end Starting

end Build

open Build

namespace Built

variable {d d' : Document} {basePath : String} {m : ServerModel} (b : Built d basePath m)

/-- What is claimed and is no name of responses is declared. -/
theorem exists_declaration (hdoc : Document.ofJson d.root = .ok d) (hroot : d.root.DistinctKeys)
    {name : TypeName} {node : Json} (hnode : b.drained.nodeOf? name = some node)
    (hname : name ∉ b.built.map (·.2.name)) : ∃ t ∈ b.drained.types, t.name = name := by
  obtain ⟨t, ht, hsame, -⟩ := b.exists_claimed hdoc hroot hnode (by
    rintro ⟨response, hresponse, rfl⟩
    obtain ⟨o, hbuilt⟩ := b.exists_built hdoc hroot hresponse
    exact hname (List.mem_map.2 ⟨_, hbuilt, rfl⟩))
  exact ⟨t, ht, hsame⟩

variable (h : Document.Reordered d d')

include b h

/-- A pass declares again what the names that wait are declared as in the end. -/
theorem declarePass_succeeds {r : Registry} (hr : b.drained.Under [] r)
    (hnodes : ∀ p ∈ r.pending, r.nodeOf? p.name = some p.node)
    (hnames : ∀ p ∈ r.pending, p.name ∉ b.built.map (·.2.name)) :
    ∃ s, declarePass d' r = .ok ((), s) ∧ b.drained.Under [] s := by
  have hdeclare : Succeeds (b.drained.Under []) (r.pending.forM (declareAndKeep d')) anyResult := by
    refine .forM fun p hp => ?_
    obtain ⟨node, hnode, hmatch⟩ := hr.below (hnodes p hp)
    obtain ⟨t, ht, hname⟩ := b.exists_declaration h.doc h.proper.keys hnode (hnames p hp)
    obtain ⟨name, node'⟩ := p
    obtain rfl : t.name = name := hname
    refine (b.declare_succeeds h ht hnode hmatch).bind fun t' _ => ?_
    exact .modify fun _ hs => hs.of_eq rfl rfl
  obtain ⟨⟨⟩, s, hrun, hs, -⟩ := hdeclare (r := { r with pending := [] }) (hr.of_eq rfl rfl)
  exact ⟨s, bind_eq_ok.2 ⟨r.pending, _, modifyGet_eq_ok.2 rfl, hrun⟩, hs⟩

/-- Every number of passes succeeds. -/
theorem passes_succeed {bound : Registry} (hbound : b.drained.Under [] bound)
    (hsound : bound.Sound d' (b.built.map (·.2.name) ++ bound.types.map (·.name)))
    (hrecorded : bound.Recorded d') (n : Nat) :
    ∃ s, passes d' n bound = .ok ((), s) ∧ b.drained.Under [] s := by
  induction n with
  | zero => exact ⟨bound, passes_zero_eq_ok.2 rfl, hbound⟩
  | succ n ih =>
    obtain ⟨s, hrun, hs⟩ := ih
    have hqueued := (recorded_invariant h.doc' h.proper'.keys).toSteady.passes hrecorded hrun
    obtain ⟨hdeclared, -⟩ := passes_declares hsound hrun
    have hnodup := hdeclared.perm.nodup_iff.1 hdeclared.nodup
    have hnames : ∀ p ∈ s.pending, p.name ∉ b.built.map (·.2.name) := fun p hp hname =>
      (List.nodup_append.1 hnodup).2.2 _ (List.mem_append_left _ hname) _ (List.mem_map_of_mem hp) rfl
    obtain ⟨t, hpass, ht⟩ := b.declarePass_succeeds h hs hqueued.queued hnames
    have hlast := passes_succ_eq_ok.2 ⟨t, hpass, passes_zero_eq_ok.2 rfl⟩
    exact ⟨t, passes_add_eq_ok.2 ⟨s, hrun, hlast⟩, ht⟩

/-- A reordered document is built with the same operations, and claims no other names. -/
theorem exists_again :
    ∃ (m' : ServerModel) (b' : Built d' basePath m'), b'.built = b.built ∧
      b.drained.Under [] b'.drained := by
  obtain ⟨registered, bound, hregister, hbind, hmatch, hmerging⟩ := buildOperations_again h b
  have hdrained {name : TypeName} {node : Json} (hnode : b.bound.nodeOf? name = some node) :
      b.drained.nodeOf? name = some node :=
    (recorded_invariant h.doc h.proper.keys).nodeOf?_drained b hnode
  have hunder : b.drained.Under [] bound := by
    refine ⟨fun name node hnode => ?_, hmerging⟩
    obtain ⟨known, hknown, hsame⟩ := hmatch.below hnode
    exact ⟨known, hdrained hknown, hsame⟩
  have hbound : Bound d' bound := ⟨registered, _, _, hregister, hbind⟩
  have hrecorded := (recorded_invariant h.doc' h.proper'.keys).of_bound hbound
  obtain ⟨hregistered, htypes⟩ := registerSchemas_sound h.doc' hregister
  obtain ⟨hsound, hgrows, -⟩ := (operationsRun_of_buildOperations hbind).declares hregistered
  have hstart : bound.Sound d' (b.built.map (·.2.name) ++ bound.types.map (·.name)) := by
    rw [hgrows.types, htypes, List.map_nil, List.append_nil]
    exact hsound
  obtain ⟨s, hrun, hs⟩ := b.passes_succeed h hunder hstart hrecorded (b.drained.claimed.length + 1)
  -- All that is claimed has been claimed in the first build, so that passes cannot go on.
  have hempty : s.pending = [] := by
    by_contra hqueued
    have hlength := le_length_claimed hstart hrun hqueued
    have hnodup := (passes_declares hstart hrun).1.nodup
    have hle := (List.subperm_of_subset hnodup hs.below.claimed).length_le
    omega
  have hdrain := drain_eq_ok_iff.2 ⟨hempty, _, hrun⟩
  exact ⟨_, ⟨registered, bound, s, b.built, b.tables, hregister, hbind, hdrain, rfl⟩, rfl, hs⟩

omit h in
/-- A document is built in one way. -/
theorem unique {m' : ServerModel} (b' : Built d basePath m') :
    m' = m ∧ b'.drained = b.drained :=
  Prod.mk.inj (Except.ok.inj (b'.run.symm.trans b.run))

end Built

/-- Two builds of reordered documents that have the same operations, and claim the same names for
schemas that match. -/
structure Rebuilt {d d' : Document} {basePath : String} {m m' : ServerModel}
    (b : Built d basePath m) (b' : Built d' basePath m') : Prop where
  reordered : Document.Reordered d d'
  built : b'.built = b.built
  under : b.drained.Under [] b'.drained
  under' : b'.drained.Under [] b.drained

namespace Rebuilt

variable {d d' : Document} {basePath : String} {m m' : ServerModel} {b : Built d basePath m}
  {b' : Built d' basePath m'}

theorem symm (h : Rebuilt b b') : Rebuilt b' b := ⟨h.reordered.symm, h.built.symm, h.under', h.under⟩

end Rebuilt

/-- A reordered document is built as its original is. -/
theorem Built.exists_rebuilt {d d' : Document} {basePath : String} {m : ServerModel}
    (b : Built d basePath m) (h : Document.Reordered d d') :
    ∃ (m' : ServerModel) (b' : Built d' basePath m'), Rebuilt b b' := by
  obtain ⟨m', b', hbuilt, hunder⟩ := b.exists_again h
  obtain ⟨m'', b'', -, hunder'⟩ := b'.exists_again h.symm
  rw [(b.unique b'').2] at hunder'
  exact ⟨m', b', h, hbuilt, hunder, hunder'⟩

end OpenApiServer

/-!
## What reordered documents declare

Two builds of reordered documents declare the same names: enumerations with the same variants, unions
with the same variants, aliases of the same types, and records with the same fields up to their order
and their names.
-/

namespace OpenApiServer

open Build

/-- Schemas that match refer to the same components. -/
theorem Build.SourcesOf.reordered {d d' : Document} (h : Document.Reordered d d') {name : TypeName}
    {node node' : Json} {sources : List (TypeName × Json)} (hmatch : node.Matches node')
    (hsources : SourcesOf d name node sources) :
    ∃ sources', SourcesOf d' name node' sources' ∧ sources.map (·.1) = sources'.map (·.1) := by
  obtain ⟨parts, hparts, hrefer⟩ := hsources
  obtain ⟨schema', hparts', hview⟩ := Schema.classify_matches hmatch hparts
  cases hview with
  | @allOf _ parts' hpartsMatch =>
  obtain ⟨sources', hrefer', hnamed⟩ := sources_match h hpartsMatch hrefer
  rw [mergeDepth_eq h] at hrefer'
  refine ⟨sources', ⟨parts', hparts', hrefer'⟩, ?_⟩
  exact (map_eq_of_forall₂ (fun _ _ hsource => hsource.name.symm) hnamed).symm

namespace Rebuilt

variable {d d' : Document} {basePath : String} {m m' : ServerModel} {b : Built d basePath m}
  {b' : Built d' basePath m'} (h : Rebuilt b b')

include h

/-- What a name stands for in one build matches what it stands for in the other. -/
theorem described_matches {name : TypeName} {node node' : Json}
    (hnode : b.drained.Describes d name node) (hnode' : b'.drained.Describes d' name node') :
    node.Matches node' := by
  have hd := h.reordered
  have hback : ∃ known, b.drained.Describes d name known ∧ known.Matches node' := by
    rcases hnode' with hdescribes | ⟨hclaimed, hplain⟩
    · obtain ⟨known, hknown, hmatch⟩ := hdescribes.reordered hd.symm
      exact ⟨known, .inl hknown, hmatch.symm⟩
    · obtain ⟨known, hknown, hmatch⟩ := h.under.below hclaimed
      exact ⟨known, .inr ⟨hknown, hmatch.reference?_eq.trans hplain⟩, hmatch⟩
  obtain ⟨known, hknown, hmatch⟩ := hback
  exact ((b.informed hd).described_matches hd hnode hknown).trans hmatch

/-- The fields that are kept for a name are the same. -/
theorem sameFields {name : TypeName} {fields fields' : List Field}
    (hfields : b.drained.fieldsOf? name = some fields)
    (hfields' : b'.drained.fieldsOf? name = some fields') : SameFields fields fields' := by
  have hd := h.reordered
  obtain ⟨-, hrecounted⟩ := (recounted_invariant hd.doc hd.proper.keys).drained b
  obtain ⟨-, hrecounted'⟩ := (recounted_invariant hd.doc' hd.proper'.keys).drained b'
  obtain ⟨origin, leaves, horigin, hleaves, hmerged, -⟩ := hrecounted.explained hfields
  obtain ⟨origin', leaves', horigin', hleaves', hmerged', -⟩ := hrecounted'.explained hfields'
  refine hmerged.sameFields hd hmerged' ?_
  refine LeavesOf.matches hd (fun name node node' hnode hnode' => ?_)
    (h.described_matches horigin horigin') hleaves hleaves'
  exact h.described_matches (.inl hnode) (.inl hnode')

/-- The name of a declaration is that of no responses. -/
theorem name_not_mem {t : Declaration} (ht : t ∈ b.drained.types) :
    t.name ∉ b.built.map (·.2.name) := by
  have hnames := (b.closed h.reordered.doc).nodup_names
  rw [b.types_eq, List.map_append, Boxing.names_box, List.map_map] at hnames
  exact fun hmem => (List.nodup_append.1 hnames).2.2 _ (List.mem_map_of_mem ht) _ hmem rfl

/-- What one build declares the other declares again. -/
theorem exists_declared {t : Declaration} (ht : t ∈ b.drained.types) :
    ∃ t' ∈ b'.drained.types, t.Matches t' := by
  have hd := h.reordered
  have hrecorded := b.recorded hd.doc hd.proper.keys
  have hrecorded' := b'.recorded hd.doc' hd.proper'.keys
  obtain ⟨node, hnode, -⟩ := hrecorded.kinds t ht
  obtain ⟨node', hnode', hmatch⟩ := h.under'.below hnode
  obtain ⟨t', ht', hname⟩ := b'.exists_declaration hd.doc' hd.proper'.keys hnode' (by
    rw [h.built]
    exact h.name_not_mem ht)
  rw [← hname] at hnode'
  obtain ⟨before, after, hdeclared⟩ := b'.declaredBy hd.symm ht' hnode'
  have hdeclares := declare_declares hd.doc' hd.proper'.keys hdeclared.kept hdeclared.claimed
    hdeclared.run
  have hbefore := h.under.of_remembers (hdeclares.remembers.trans hdeclared.remembers)
  have hrun := hdeclared.run
  rw [hname] at hrun
  obtain ⟨-, hagain⟩ := (b.declare_succeeds hd ht hnode hmatch.symm).of_run hbefore hrun
  refine ⟨t', ht', ?_⟩
  cases hagain with
  | @record decl decl' name =>
    have hfields := hrecorded.records decl ht
    rw [name] at hfields
    exact .record name (h.sameFields hfields (hrecorded'.records decl' ht'))
  | enum decl => exact .enum decl
  | union name variants => exact .union name variants
  | aliased name target => exact .aliased name target

/-- Two builds of reordered documents declare the same. -/
theorem types_matched : Matched Declaration.Matches b.drained.types b'.drained.types where
  left _ ht := h.exists_declared ht
  right t' ht' := by
    obtain ⟨t, ht, hmatch⟩ := h.symm.exists_declared ht'
    exact ⟨t, ht, hmatch.symm⟩

/-- A conversion that one build records the other records again. -/
theorem exists_recorded {c : Conversion} (hc : c ∈ b.drained.conversions) :
    ∃ c' ∈ b'.drained.conversions, c.Matches c' := by
  have hd := h.reordered
  obtain ⟨hconverts, decl, hdecl, hname⟩ :=
    (b.recorded hd.doc hd.proper.keys).conversions c hc
  obtain ⟨target, source, htarget, hsource, hsplit⟩ := hconverts.splits
  obtain ⟨node, sources, hnode, hsources, hmem⟩ := (b.linked hd).only c hc
  obtain ⟨node', hnode', hmatch⟩ := h.under'.below hnode
  obtain ⟨sources', hsources', hsame⟩ := hsources.reordered hd hmatch.symm
  obtain ⟨t', ht', hdeclared⟩ := h.exists_declared hdecl
  cases hdeclared with
  | @record _ decl' hdeclared =>
  have hname' : decl'.name = c.target := hdeclared.symm.trans hname
  -- The record is made of parts that match, so that the source is among the components again.
  have hlinks := (b'.linked hd.symm).each decl' ht'
  rw [Registry.LinksInto, hname'] at hlinks
  obtain ⟨c', hc', hends⟩ :=
    hlinks node' sources' hnode' hsources' c.source (hsame ▸ hmem) hconverts.source_ne
  obtain ⟨hsource', htarget'⟩ := Prod.mk.inj hends
  obtain ⟨others, others', hothers, hothers', hsplit'⟩ :=
    ((b'.recorded hd.doc' hd.proper'.keys).conversions c' hc').1.splits
  rw [htarget'] at hothers
  rw [hsource'] at hothers'
  obtain ⟨hcopied, hextras⟩ := splitFields_matched (h.sameFields htarget hothers)
    (h.sameFields hsource hothers')
  rw [hsplit, hsplit'] at hcopied hextras
  exact ⟨c', hc', hsource'.symm, htarget'.symm, hcopied, hextras⟩

/-- Two builds of reordered documents record the same conversions. -/
theorem conversions_matched :
    Matched Conversion.Matches b.drained.conversions b'.drained.conversions where
  left _ hc := h.exists_recorded hc
  right c' hc' := by
    obtain ⟨c, hc, hmatch⟩ := h.symm.exists_recorded hc'
    exact ⟨c, hc, hmatch.symm⟩

end Rebuilt

end OpenApiServer

/-! ## What is generated in any order -/

namespace OpenApiServer

variable {d d' : Document} {basePath : String} {m m' : ServerModel}

namespace ServerModel

/-- The declared names, each with the kind of its declaration. -/
def declared (m : ServerModel) : List (TypeName × Declaration.Kind) :=
  m.types.map fun t => (t.name, t.kind)

/-- The records that convert into others, plainly or else through a constructor. -/
def converted (m : ServerModel) : List (TypeName × TypeName × Bool) :=
  m.conversions.map fun c => (c.source, c.target, c.isPlain)

/-- The enumerations that convert into others. -/
def enumConverted (m : ServerModel) : List (TypeName × TypeName) :=
  m.enumConversions.map fun c => (c.source, c.target)

/-- Whether two servers declare and convert the same, and have as many boxed fields. -/
structure SameOutline (m m' : ServerModel) : Prop where
  declared : ∀ type, type ∈ m.declared ↔ type ∈ m'.declared
  converted : ∀ conversion, conversion ∈ m.converted ↔ conversion ∈ m'.converted
  enumConverted : ∀ pair, pair ∈ m.enumConverted ↔ pair ∈ m'.enumConverted
  boxedFields : m.boxedFields = m'.boxedFields

end ServerModel

theorem Boxing.Boxed.kind_eq {edges : Boxing.Edges} {t t' : Declaration}
    (h : Boxing.Boxed edges t t') : t'.kind = t.kind := by cases h <;> rfl

namespace Built

theorem server_eq (b : Built d basePath m) : d.server basePath = .ok m :=
  map_eq_ok_iff.2 ⟨(m, b.drained), b.run, rfl⟩

/-- Boxing changes neither names nor kinds. -/
theorem declared_eq (b : Built d basePath m) :
    m.declared = b.drained.types.map (fun t => (t.name, t.kind)) ++
      b.built.map fun built => (built.2.name, .response) := by
  have hboxed := map_eq_of_forall₂ (f := fun t => (t.name, t.kind)) (g := fun t => (t.name, t.kind))
    (fun t t' h => by rw [h.name_eq, h.kind_eq])
    (Boxing.boxed_box b.drained.types b.drained.conversions)
  rw [ServerModel.declared, b.types_eq, List.map_append, hboxed, List.map_map]
  rfl

end Built

namespace Rebuilt

variable {b : Built d basePath m} {b' : Built d' basePath m'} (h : Rebuilt b b')

include h

theorem nodup_names : (b.drained.types.map (·.name)).Nodup :=
  b.nodup_drained (b.closed h.reordered.doc).nodup_names

theorem declared_iff (type : TypeName × Declaration.Kind) :
    type ∈ m.declared ↔ type ∈ m'.declared := by
  have htypes := h.types_matched.mem_map_iff (f := fun t => (t.name, t.kind))
    (g := fun t => (t.name, t.kind)) (fun t t' ht => by rw [ht.name_eq, ht.kind_eq]) type
  rw [b.declared_eq, b'.declared_eq, List.mem_append, List.mem_append, htypes, h.built]

/-- An enumeration is declared by both, with the same variants. -/
theorem enum_mem_iff {e : EnumDecl} : .enum e ∈ m.types ↔ .enum e ∈ m'.types := by
  rw [b.enum_mem_iff, b'.enum_mem_iff]
  constructor
  · intro he
    obtain ⟨t', ht', hmatch⟩ := h.types_matched.left _ he
    cases hmatch
    exact ht'
  · intro he
    obtain ⟨t, ht, hmatch⟩ := h.types_matched.right _ he
    cases hmatch
    exact ht

theorem enumConversions_iff (c : EnumConversion) :
    c ∈ m.enumConversions ↔ c ∈ m'.enumConversions := by
  have hd := h.reordered
  rw [b.mem_enumConversions_iff hd.doc hd.proper.keys,
    b'.mem_enumConversions_iff hd.doc' hd.proper'.keys]
  simp only [h.enum_mem_iff]

theorem enumConverted_iff (pair : TypeName × TypeName) :
    pair ∈ m.enumConverted ↔ pair ∈ m'.enumConverted := by
  simp only [ServerModel.enumConverted, List.mem_map, h.enumConversions_iff]

/-- Which fields are copied is settled alike. -/
theorem settled_matched : Matched Conversion.Matches m.conversions m'.conversions := by
  have hboxed := Boxing.conversions_box_matched h.types_matched h.nodup_names h.symm.nodup_names
    h.conversions_matched
  rw [b.conversions_eq, b'.conversions_eq]
  refine Conversion.settle_matched (fun pair => ?_) hboxed
  rw [← b.enumConversions_eq, ← b'.enumConversions_eq]
  exact h.enumConverted_iff pair

/-- Two builds of reordered documents generate the same. -/
theorem sameOutline : m.SameOutline m' where
  declared := h.declared_iff
  converted := h.settled_matched.mem_map_iff fun c c' hc => by
    rw [hc.source, hc.target, hc.isPlain_eq]
  enumConverted := h.enumConverted_iff
  boxedFields := by
    rw [b.model, b'.model]
    exact Boxing.boxedFields_box h.types_matched h.nodup_names h.symm.nodup_names _ _

end Rebuilt

/-- Where a document is built, a reordered one is. -/
theorem Document.Reordered.exists_server (h : d.Reordered d') (hserver : d.server basePath = .ok m) :
    ∃ m', d'.server basePath = .ok m' := by
  obtain ⟨b⟩ := built_of_server hserver
  obtain ⟨m', b', -⟩ := b.exists_rebuilt h
  exact ⟨m', b'.server_eq⟩

theorem Document.Reordered.sameOutline (h : d.Reordered d') (hserver : d.server basePath = .ok m)
    (hserver' : d'.server basePath = .ok m') : m.SameOutline m' := by
  obtain ⟨b⟩ := built_of_server hserver
  obtain ⟨m'', b', hrebuilt⟩ := b.exists_rebuilt h
  obtain rfl := Except.ok.inj (b'.server_eq.symm.trans hserver')
  exact hrebuilt.sameOutline

/-- Two enumerations of the same texts, and a record that is made of another and holds itself. -/
def kennel : Json :=
  let kinds : Json := .obj [("enum", .arr [.str "cat", .str "dog"])]
  .obj [("components", .obj [("schemas", .obj [
    ("Pet", .obj [("properties", .obj [("kind", kinds)])]),
    ("Kind", kinds),
    ("Dog", .obj [("allOf", .arr [.obj [("$ref", .str "#/components/schemas/Pet")],
      .obj [("properties", .obj [
        ("friend", .obj [("$ref", .str "#/components/schemas/Dog")])])]])])])])]

end OpenApiServer
