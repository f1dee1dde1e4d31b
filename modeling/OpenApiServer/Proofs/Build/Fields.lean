import OpenApiServer.Build.Fields
import OpenApiServer.Proofs.Build.Types
import OpenApiServer.Proofs.Schema.Kind

/-!
# Fields mention claimed names

Merging parts adds no types to those of the parts, and renaming fields keeps their types. The fields
that have been computed once are kept, so a sound registry answers for them. The sources of the
conversions into a merged record are named schemas. `Traverses` is how the references of a part lead
to the schema that it stands for.
-/

namespace OpenApiServer.Build

variable {d : Document} {r : Registry}

theorem objectField_resolves (owner : TypeName) (required : List String)
    (property : String × Json) :
    Resolves d r (objectField d owner required property) Field.mentioned :=
  (typeOf_resolves property.2 _).bind fun _ _ _ htype => .pure htype

theorem objectFields_resolves (owner : TypeName) (properties : List (String × Json))
    (required : List String) :
    Resolves d r (objectFields d owner properties required) fieldsMentioned :=
  .mapM fun property _ _ _ => objectField_resolves owner required property

theorem fieldsMentioned_distinctNames (fields : List Field) :
    fieldsMentioned (distinctNames fields) = fieldsMentioned fields := by
  have hfrom (used : List String) :
      fieldsMentioned (distinctNamesFrom used fields) = fieldsMentioned fields := by
    induction fields generalizing used with
    | nil => rfl
    | cons f rest ih =>
      rw [distinctNamesFrom]
      exact congrArg (f.mentioned ++ ·) (ih _)
  exact hfrom []

theorem fieldsMentioned_absorbField {field : Field} {merged : List Field} {names : List TypeName}
    (hfield : field.mentioned ⊆ names) (hmerged : fieldsMentioned merged ⊆ names) :
    fieldsMentioned (absorbField field merged) ⊆ names := by
  induction merged with
  | nil => exact List.append_subset.2 ⟨hfield, List.nil_subset _⟩
  | cons f rest ih =>
    obtain ⟨hf, hrest⟩ := List.append_subset.1 hmerged
    rw [absorbField]
    split
    next => exact List.append_subset.2 ⟨hf, hrest⟩
    next => exact List.append_subset.2 ⟨hf, ih hrest⟩

theorem fieldsMentioned_absorb {merged fields : List Field} {names : List TypeName}
    (hmerged : fieldsMentioned merged ⊆ names) (hfields : fieldsMentioned fields ⊆ names) :
    fieldsMentioned (absorb merged fields) ⊆ names := by
  induction fields generalizing merged with
  | nil => exact hmerged
  | cons f rest ih =>
    obtain ⟨hf, hrest⟩ := List.append_subset.1 hfields
    exact ih (fieldsMentioned_absorbField hf hmerged) hrest

/-! ## Components -/

/-- How references lead from a node to a schema, with the last named schema on the way. The first
name is the one from before, which stays if there is none on the way. -/
inductive Traverses (d : Document) : Option TypeName → Json → Option TypeName → Json → Prop where
  | done {component : Option TypeName} {node : Json} (plain : Document.reference? node = none) :
    Traverses d component node component node
  | named {component last : Option TypeName} {node next target : Json} {pointer name : String}
    (reference : Document.reference? node = some pointer)
    (names : Pointer.schemaName? pointer = some name) (resolves : d.resolve pointer = .ok next)
    (rest : Traverses d (some (.ofText name)) next last target) :
    Traverses d component node last target
  | unnamed {component last : Option TypeName} {node next target : Json} {pointer : String}
    (reference : Document.reference? node = some pointer)
    (unnamed : Pointer.schemaName? pointer = none) (resolves : d.resolve pointer = .ok next)
    (rest : Traverses d component next last target) : Traverses d component node last target

/-- There is one step more than references, so the way ends at a schema that is none. -/
theorem traverses_of_componentFrom {context : String} {steps : Nat} {visited : List String}
    {component last : Option TypeName} {node found target : Json}
    (hleads : d.dereferenceFrom steps visited node = .ok target)
    (h : componentFrom d context (steps + 1) component node = .ok (last, found)) :
    found = target ∧ Traverses d component node last target := by
  rw [componentFrom] at h
  obtain ⟨schema, hschema, h⟩ := bind_eq_ok_iff.1 h
  cases hreference : Document.reference? node with
  | none =>
    rw [Document.dereferenceFrom_eq_self hreference] at hleads
    obtain rfl := Except.ok.inj hleads
    split at h
    next pointer =>
      rw [(Schema.eq_reference_iff hschema).1 rfl] at hreference
      cases hreference
    next =>
      obtain ⟨rfl, rfl⟩ := Prod.mk.inj (Except.ok.inj h)
      exact ⟨rfl, .done hreference⟩
  | some pointer =>
    obtain rfl := (Schema.eq_reference_iff hschema).2 hreference
    obtain ⟨-, rest, next, rfl, hresolve, hnext⟩ :=
      (Document.dereferenceFrom_eq_ok hreference).1 hleads
    dsimp only at h
    rw [hresolve] at h
    obtain ⟨hfound, htraverses⟩ := traverses_of_componentFrom hnext h
    refine ⟨hfound, ?_⟩
    cases hname : Pointer.schemaName? pointer with
    | some name =>
      rw [hname] at htraverses
      exact .named hreference hname hresolve htraverses
    | none =>
      rw [hname] at htraverses
      exact .unnamed hreference hname hresolve htraverses
  termination_by steps

theorem traverses_of_fragmentComponent {owner : TypeName} {fragment : Json}
    {found : Option (TypeName × Json)} (h : fragmentComponent d owner fragment = .ok found) :
    ∃ last target, d.dereference fragment = .ok target ∧ Traverses d none fragment last target ∧
      found = last.map (·, target) := by
  obtain ⟨target, htarget, h⟩ := bind_eq_ok_iff.1 h
  obtain ⟨⟨last, node⟩, hlast, h⟩ := bind_eq_ok_iff.1 h
  obtain ⟨rfl, htraverses⟩ := traverses_of_componentFrom htarget hlast
  exact ⟨last, node, htarget, htraverses, (Except.ok.inj h).symm⟩

theorem traverses_of_component {owner component : TypeName} {fragment node : Json}
    (h : fragmentComponent d owner fragment = .ok (some (component, node))) :
    d.dereference fragment = .ok node ∧ Traverses d none fragment (some component) node := by
  obtain ⟨last, target, htarget, htraverses, hfound⟩ := traverses_of_fragmentComponent h
  obtain ⟨name, rfl, heq⟩ := Option.map_eq_some_iff.1 hfound.symm
  obtain ⟨rfl, rfl⟩ := Prod.mk.inj heq
  exact ⟨htarget, htraverses⟩

theorem traverses_of_inline {owner : TypeName} {fragment : Json}
    (h : fragmentComponent d owner fragment = .ok none) :
    ∃ target, d.dereference fragment = .ok target ∧ Traverses d none fragment none target := by
  obtain ⟨last, target, htarget, htraverses, hfound⟩ := traverses_of_fragmentComponent h
  obtain rfl := Option.map_eq_none_iff.1 hfound.symm
  exact ⟨target, htarget, htraverses⟩

theorem Traverses.mem {names : List TypeName} (covered : d.Covered names)
    {component last : Option TypeName} {node target : Json}
    (h : Traverses d component node last target) (hmem : ∀ name ∈ component, name ∈ names) :
    ∀ name ∈ last, name ∈ names := by
  induction h with
  | done => exact hmem
  | named _ names resolves _ ih =>
    refine ih fun name hname => ?_
    obtain rfl := Option.mem_some_iff.1 hname
    exact covered names resolves
  | unnamed _ _ _ _ ih => exact ih hmem

/-- The component that a fragment stands for is a named schema. -/
theorem fragmentComponent_mem {owner component : TypeName} {fragment node : Json}
    {names : List TypeName} (covered : d.Covered names)
    (h : fragmentComponent d owner fragment = .ok (some (component, node))) :
    component ∈ names :=
  (traverses_of_component h).2.mem covered (by simp) component rfl

/-! ## Merging -/

theorem fieldsOf?_subset {r : Registry} {name : TypeName} {fields : List Field}
    (h : r.fieldsOf? name = some fields) : fieldsMentioned fields ⊆ r.mentioned := by
  obtain ⟨before, after, hfields, -⟩ := List.lookup_eq_some_iff.1 h
  have hkept : (name, fields) ∈ r.fields := by simp [hfields]
  intro n hn
  simp only [Registry.mentioned, List.mem_append]
  exact .inl (.inl (.inl (List.mem_flatMap_of_mem hkept hn)))

theorem keepFields_resolves (name : TypeName) {fields : List Field}
    (h : fieldsMentioned fields ⊆ r.claimed) :
    Resolves d r (do modify (·.keepFields name fields); return fields) fieldsMentioned := by
  refine (Resolves.modify rfl rfl rfl (fun hclosed => ?_) (noNames_subset ..)).bind
    fun _ _ hgrows _ => .pure (hgrows.mono h)
  have hkept : (r.keepFields name fields).mentioned = fieldsMentioned fields ++ r.mentioned := by
    simp [Registry.mentioned, Registry.keepFields]
  rw [hkept]
  exact List.append_subset.2 ⟨h, hclosed⟩

theorem enterMerge_resolves (name : TypeName) :
    Resolves d r (step (·.enterMerge name)) noNames := by
  intro declared sound a r' hrun
  have henter := step_eq_ok.1 hrun
  rw [Registry.enterMerge] at henter
  split_ifs at henter with hmerging
  obtain rfl := Except.ok.inj henter
  exact ⟨sound.of_eq rfl rfl sound.closed, ⟨List.Subset.refl _, rfl⟩, noNames_subset ..⟩

theorem leaveMerge_resolves : Resolves d r (modify Registry.leaveMerge) noNames :=
  .modify rfl rfl rfl id (noNames_subset ..)

/-- Merging parts resolves at some depth, whether a named record or a fragment is merged. -/
structure ResolvesAt (d : Document) (depth : Nat) : Prop where
  record : ∀ {r : Registry} (name : TypeName) (node : Json),
    Resolves d r (recordFieldsFrom d depth name node) fieldsMentioned
  fragment : ∀ {r : Registry} (owner : TypeName) {merged : List Field} (fragment : Json),
    fieldsMentioned merged ⊆ r.claimed →
      Resolves d r (mergeFragmentFrom d depth owner merged fragment) fieldsMentioned

theorem recordFieldsFrom_resolves {depth : Nat} (ih : ResolvesAt d depth) (name : TypeName)
    (node : Json) : Resolves d r (recordFieldsFrom d (depth + 1) name node) fieldsMentioned := by
  rw [recordFieldsFrom]
  refine .get_bind ?_
  split
  next fields hfields =>
    refine .of_sound fun _ sound => .pure ?_
    exact List.Subset.trans (fieldsOf?_subset hfields) sound.closed
  next =>
    refine .lift_bind fun schema _ => ?_
    dsimp only
    split
    next properties required _ =>
      refine (objectFields_resolves name properties required).bind
        fun fields _ _ hfields => keepFields_resolves name ?_
      rw [fieldsMentioned_distinctNames]
      exact hfields
    next parts _ =>
      refine (enterMerge_resolves name).bind fun _ r₁ _ _ => ?_
      refine (Resolves.foldlM (List.nil_subset _) fun part _ merged r' _ hmerged =>
        ih.fragment name part hmerged).bind fun merged r₂ _ hmerged => ?_
      refine leaveMerge_resolves.bind fun _ r₃ hgrows₃ _ => ?_
      refine (Resolves.pure (hgrows₃.mono hmerged)).bind
        fun fields _ _ hfields => keepFields_resolves name ?_
      rw [fieldsMentioned_distinctNames]
      exact hfields
    next => exact .fail_bind

theorem mergeFragmentFrom_resolves {depth : Nat} (ih : ResolvesAt d depth) (owner : TypeName)
    {merged : List Field} (fragment : Json) (hmerged : fieldsMentioned merged ⊆ r.claimed) :
    Resolves d r (mergeFragmentFrom d (depth + 1) owner merged fragment) fieldsMentioned := by
  rw [mergeFragmentFrom]
  refine .lift_bind fun found _ => ?_
  split
  next component node _ =>
    refine (ih.record component node).bind fun fields _ hgrows hfields => .pure ?_
    exact fieldsMentioned_absorb (hgrows.mono hmerged) hfields
  next =>
    refine .lift_bind fun target _ => .lift_bind fun schema _ => ?_
    split
    next properties required _ =>
      refine (objectFields_resolves owner properties required).bind
        fun fields _ hgrows hfields => .pure ?_
      exact fieldsMentioned_absorb (hgrows.mono hmerged) hfields
    next parts _ =>
      exact .foldlM hmerged fun part _ merged' r' _ hmerged' =>
        ih.fragment owner part hmerged'
    next => exact .fail

theorem resolvesAt (d : Document) (depth : Nat) : ResolvesAt d depth := by
  induction depth with
  | zero =>
    refine ⟨fun name node => ?_, fun owner merged fragment _ => ?_⟩
    · rw [recordFieldsFrom]
      exact .fail
    · rw [mergeFragmentFrom]
      exact .fail
  | succ depth ih => exact ⟨recordFieldsFrom_resolves ih, mergeFragmentFrom_resolves ih⟩

theorem recordFields_resolves (name : TypeName) (node : Json) :
    Resolves d r (recordFields d name node) fieldsMentioned :=
  (resolvesAt d (mergeDepth d)).record name node

theorem recordFieldsOfName?_resolves (name : TypeName) :
    Resolves d r (recordFieldsOfName? d name) fun found => found.elim [] fieldsMentioned := by
  refine .get_bind ?_
  split
  next => exact .pure (List.nil_subset _)
  next node _ =>
    refine .lift_bind fun schema _ => ?_
    split
    · exact Resolves.map (recordFields_resolves name node)
    · exact Resolves.map (recordFields_resolves name node)
    · exact .pure (List.nil_subset _)

/-! ## Conversions from parts -/

/-- What holds of every component that a part can refer to holds of the sources of a record. -/
theorem forall_sourcesFrom {owner : TypeName} {p : TypeName × Json → Prop}
    (hp : ∀ part s, fragmentComponent d owner part = .ok (some s) → p s)
    {depth : Nat} {sources sources' : List (TypeName × Json)} {part : Json}
    (hsources : ∀ s ∈ sources, p s)
    (h : sourcesFrom d owner depth sources part = .ok sources') : ∀ s ∈ sources', p s := by
  induction depth generalizing sources sources' part with
  | zero => cases h
  | succ depth ih =>
    rw [sourcesFrom] at h
    obtain ⟨found, hfound, h⟩ := bind_eq_ok_iff.1 h
    split at h
    next component node =>
      obtain rfl := Except.ok.inj h
      split
      next => exact hsources
      next =>
        rw [List.forall_mem_append]
        exact ⟨hsources, by simpa using hp part _ hfound⟩
    next =>
      obtain ⟨target, -, h⟩ := bind_eq_ok_iff.1 h
      obtain ⟨schema, -, h⟩ := bind_eq_ok_iff.1 h
      split at h
      next parts => exact foldlM_keeps (fun part _ _ _ hkept => ih hkept) hsources h
      next =>
        obtain rfl := Except.ok.inj h
        exact hsources

theorem forall_sources {owner : TypeName} {p : TypeName × Json → Prop}
    (hp : ∀ part s, fragmentComponent d owner part = .ok (some s) → p s) {depth : Nat}
    {parts : List Json} {sources : List (TypeName × Json)}
    (h : parts.foldlM (sourcesFrom d owner depth) [] = .ok sources) : ∀ s ∈ sources, p s :=
  foldlM_keeps (fun _ _ _ _ => forall_sourcesFrom hp) (by simp) h

/-- The fields that are split are fields of the merged record, and the types beside them are types
of the part. -/
theorem splitFields_subset {target source : List Field} {names : List TypeName}
    (htarget : fieldsMentioned target ⊆ names) (hsource : fieldsMentioned source ⊆ names) :
    (∀ m ∈ (splitFields target source).1, m.mentioned ⊆ names) ∧
      ∀ f ∈ (splitFields target source).2, f.mentioned ⊆ names := by
  rw [fieldsMentioned_subset_iff] at htarget hsource
  refine ⟨fun m hm => ?_, fun f hf => ?_⟩
  · obtain ⟨field, hfield, hm⟩ := List.mem_filterMap.1 hm
    obtain ⟨found, hfound, rfl⟩ := Option.map_eq_some_iff.1 hm
    rw [FieldMapping.mentioned, Field.names_fieldType]
    exact List.append_subset.2
      ⟨htarget field hfield, hsource found (List.mem_of_find?_eq_some hfound)⟩
  · exact htarget f (List.mem_of_mem_filter hf)

theorem recordConversion_resolves {name : TypeName} {fields : List Field}
    {source : TypeName × Json} (hname : name ∈ r.claimed)
    (hfields : fieldsMentioned fields ⊆ r.claimed) (hsource : source.1 ∈ r.claimed) :
    Resolves d r (recordConversion d name fields source) noNames := by
  refine .get_bind ?_
  dsimp only
  split_ifs
  · refine (recordFields_resolves source.1 source.2).bind fun found r₁ hgrows₁ hfound => ?_
    refine .modify rfl rfl rfl (fun hclosed => ?_) (noNames_subset ..)
    obtain ⟨hcopied, hextras⟩ := splitFields_subset (hgrows₁.mono hfields) hfound
    refine Registry.mentioned_conversions_concat hclosed ?_
    exact Conversion.mentioned_subset_iff.2
      ⟨hgrows₁.claimed hsource, hgrows₁.claimed hname, hcopied, hextras⟩
  · exact .pure (noNames_subset ..)

theorem recordConversions_resolves {name : TypeName} {parts : List Json} {fields : List Field}
    (hname : name ∈ r.claimed) (hfields : fieldsMentioned fields ⊆ r.claimed) :
    Resolves d r (recordConversions d name parts fields) noNames := by
  refine .of_sound fun _ sound => .lift_bind fun sources hsources => ?_
  have hmem : ∀ s ∈ sources, s.1 ∈ r.claimed :=
    forall_sources (fun _ _ => fragmentComponent_mem sound.covered) hsources
  refine .forM fun source hsource r' hgrows => ?_
  exact recordConversion_resolves (hgrows.claimed hname) (hgrows.mono hfields)
    (hgrows.claimed (hmem source hsource))

theorem buildRecord_resolves {name : TypeName} (node : Json) (hname : name ∈ r.claimed) :
    Resolves d r (buildRecord d name node) fun decl => fieldsMentioned decl.fields := by
  refine (recordFields_resolves name node).bind fun fields r₁ hgrows₁ hfields => ?_
  refine .lift_bind fun schema _ => ?_
  dsimp only
  split
  next parts =>
    refine (recordConversions_resolves (hgrows₁.claimed hname) hfields).bind
      fun _ _ hgrows₂ _ => .pure ?_
    exact hgrows₂.mono hfields
  next => exact .pure hfields

end OpenApiServer.Build
