import OpenApiServer.Proofs.Build.ClaimedNodes
import OpenApiServer.Proofs.Build.Recorded

/-!
# What holds of kept fields

A property of the fields that are kept for a name holds throughout a build if it holds of what the
properties of one schema give, and if absorbing fields and giving them distinct names lead to it.
`FieldLaws` collects these conditions; the schemas that fields are found in may be assumed to have
any property that passes on from the document.
-/

namespace OpenApiServer.Build

variable {d : Document} {N : Json → Prop} {M F : List Field → Prop}

section Components

variable (hN : Json.Hereditary N) (hroot : N d.root)

include hN hroot

/-- A component is found where a pointer leads to. -/
theorem Traverses.holds {component last : Option TypeName} {node target : Json}
    (h : Traverses d component node last target) (hnode : component ≠ none → N node)
    (hlast : last ≠ none) : N target := by
  induction h with
  | done => exact hnode hlast
  | named _ _ resolves _ ih => exact ih (fun _ => hN.resolve hroot resolves) hlast
  | unnamed _ _ resolves _ ih => exact ih (fun _ => hN.resolve hroot resolves) hlast

theorem fragmentComponent_holds {owner : TypeName} {fragment : Json} {found : TypeName × Json}
    (h : fragmentComponent d owner fragment = .ok (some found)) : N found.2 :=
  (traverses_of_component h).2.holds hN hroot (fun hnone => absurd rfl hnone) (by simp)

end Components

/-- What the steps that find out the fields of records come down to. `M` is about the fields before
they get distinct names, and `F` about the fields that are kept. -/
structure FieldLaws (d : Document) (N : Json → Prop) (M F : List Field → Prop) : Prop where
  hereditary : Json.Hereditary N
  root : N d.root
  object : ∀ ⦃context node owner properties required⦄, N node →
    Schema.classify context node = .ok (.object properties required) →
    Yields (objectFields d owner properties required) M
  nil : M []
  absorb : ∀ ⦃merged fields⦄, M merged → M fields → M (absorb merged fields)
  named : ∀ ⦃fields⦄, M fields → F (distinctNames fields)
  unnamed : ∀ ⦃fields⦄, F fields → M fields

/-- Where the fields do not matter, the laws are about nodes only. -/
theorem FieldLaws.of_nodes (hN : Json.Hereditary N) (hroot : N d.root) :
    FieldLaws d N (fun _ => True) fun _ => True :=
  ⟨hN, hroot, fun _ _ _ _ _ _ _ _ _ _ _ => trivial, trivial, fun _ _ _ _ => trivial,
    fun _ _ => trivial, fun _ _ => trivial⟩

namespace FieldLaws

variable (laws : FieldLaws d N M F)

include laws

theorem object_keeps {context : String} {node : Json} {owner : TypeName}
    {properties : List (String × Json)} {required : List String} (hnode : N node)
    (h : Schema.classify context node = .ok (.object properties required)) :
    Keeps (Registry.Holds N F) (objectFields d owner properties required) M := by
  have hproperties := Schema.forall_nodes laws.hereditary hnode h
  rw [Schema.nodes, List.forall_mem_map] at hproperties
  exact (objectFields_holds laws.hereditary laws.root owner hproperties required).yields
    (laws.object hnode h)

omit laws in
theorem keepFields_keeps (name : TypeName) {fields : List Field} (h : F fields) :
    Keeps (Registry.Holds N F) (do modify (·.keepFields name fields); return fields) F := by
  intro r a r' hr hrun
  obtain ⟨rfl, rfl⟩ := keepFields_eq_ok.1 hrun
  exact ⟨⟨hr.nodes, List.forall_mem_cons.2 ⟨h, hr.fields⟩⟩, h⟩

omit laws in
theorem enterMerge_keeps (name : TypeName) :
    Keeps (Registry.Holds N F) (step (·.enterMerge name)) anyResult :=
  .step fun r r' hr hrun => by
    obtain ⟨-, rfl⟩ := enterMerge_eq_ok hrun
    exact hr.of_eq rfl rfl

/-- The claim about merging at some depth: the fields of a record are kept, and merging a part adds
to the fields before it. -/
structure MergesAt (d : Document) (N : Json → Prop) (M F : List Field → Prop) (depth : Nat) :
    Prop where
  record : ∀ (name : TypeName) {node : Json}, N node →
    Keeps (Registry.Holds N F) (recordFieldsFrom d depth name node) F
  fragment : ∀ (owner : TypeName) {merged : List Field} {fragment : Json}, N fragment → M merged →
    Keeps (Registry.Holds N F) (mergeFragmentFrom d depth owner merged fragment) M

theorem recordFieldsFrom_keeps {depth : Nat} (ih : MergesAt d N M F depth) (name : TypeName)
    {node : Json} (hnode : N node) :
    Keeps (Registry.Holds N F) (recordFieldsFrom d (depth + 1) name node) F := by
  rw [recordFieldsFrom]
  refine .get_bind fun r hr => ?_
  split
  next fields hfields => exact .pure (hr.fieldsOf? hfields)
  next =>
    refine .lift_bind fun schema hschema => ?_
    dsimp only
    split
    next properties required =>
      refine (laws.object_keeps hnode hschema).bind fun fields hfields => ?_
      exact keepFields_keeps name (laws.named hfields)
    next parts =>
      have hparts := Schema.forall_nodes laws.hereditary hnode hschema
      refine (enterMerge_keeps name).bind fun _ _ => ?_
      have hfold := Keeps.foldlM (fun part hpart merged hmerged =>
        ih.fragment name (hparts part hpart) hmerged) laws.nil
      refine hfold.bind fun merged hmerged => ?_
      refine (Keeps.modify fun r hr => hr.of_eq rfl rfl).bind fun _ _ => ?_
      exact keepFields_keeps name (laws.named hmerged)
    next => exact .fail_bind

theorem mergeFragmentFrom_keeps {depth : Nat} (ih : MergesAt d N M F depth) (owner : TypeName)
    {merged : List Field} {fragment : Json} (hfragment : N fragment) (hmerged : M merged) :
    Keeps (Registry.Holds N F) (mergeFragmentFrom d (depth + 1) owner merged fragment) M := by
  have hN := laws.hereditary
  rw [mergeFragmentFrom]
  refine .lift_bind fun found hfound => ?_
  split
  next component node =>
    have hnode := fragmentComponent_holds hN laws.root hfound
    refine (ih.record component hnode).bind fun fields hfields => ?_
    exact .pure (laws.absorb hmerged (laws.unnamed hfields))
  next =>
    refine .lift_bind fun target htarget => .lift_bind fun schema hschema => ?_
    have hnode := hN.dereference laws.root hfragment htarget
    split
    next properties required =>
      refine (laws.object_keeps hnode hschema).bind fun fields hfields => ?_
      exact .pure (laws.absorb hmerged hfields)
    next parts =>
      have hparts := Schema.forall_nodes hN hnode hschema
      exact .foldlM (fun part hpart merged hmerged =>
        ih.fragment owner (hparts part hpart) hmerged) hmerged
    next => exact .fail

theorem mergesAt (depth : Nat) : MergesAt d N M F depth := by
  induction depth with
  | zero =>
    refine ⟨fun name node _ => ?_, fun owner merged fragment _ _ => ?_⟩
    · rw [recordFieldsFrom]
      exact .fail
    · rw [mergeFragmentFrom]
      exact .fail
  | succ depth ih =>
    refine ⟨fun name _ hnode => ?_, fun owner _ _ hfragment hmerged => ?_⟩
    · exact laws.recordFieldsFrom_keeps ih name hnode
    · exact laws.mergeFragmentFrom_keeps ih owner hfragment hmerged

theorem recordFields_keeps (name : TypeName) {node : Json} (hnode : N node) :
    Keeps (Registry.Holds N F) (recordFields d name node) F :=
  (laws.mergesAt (mergeDepth d)).record name hnode

theorem recordFieldsOfName?_keeps (name : TypeName) :
    Keeps (Registry.Holds N F) (recordFieldsOfName? d name) anyResult := by
  refine .get_bind fun r hr => ?_
  split
  next => exact .pure trivial
  next node hnode =>
    have hfields : Keeps (Registry.Holds N F) (some <$> recordFields d name node) anyResult :=
      .map (laws.recordFields_keeps name (hr.nodeOf? hnode)).any
    refine .lift_bind fun schema _ => ?_
    split
    · exact hfields
    · exact hfields
    · exact .pure trivial

/-! ## Declarations -/

theorem payloadFields_keeps (variants : List UnionVariant) :
    Keeps (Registry.Holds N F) (payloadFields d variants) anyResult := by
  induction variants with
  | nil => exact .pure trivial
  | cons v rest ih =>
    rw [payloadFields]
    split
    next payload _ =>
      refine (laws.recordFieldsOfName?_keeps payload).bind fun found _ => ?_
      cases found with
      | none => exact .pure trivial
      | some fields => exact ih.bind fun _ _ => .pure trivial
    next => exact .pure trivial

omit laws in
theorem flawed_keeps {α : Type} {P : Registry → Prop} {union : TypeName} (x : Except UnionFlaw α) :
    Keeps P (flawed union x) fun a => x = .ok a := by
  cases x with
  | ok a => exact .pure rfl
  | error flaw => exact .fail

omit laws in
/-- The payload of an arm is one of its properties. -/
theorem exists_of_readArm {arm : Nat} {draft : UnionDraft} {properties : List (String × Json)}
    {literals : List (String × String)} {layout : UnionLayout} {tag : String} {payload : Json}
    (h : readArm arm draft properties literals = .ok (layout, tag, payload)) :
    ∃ property ∈ properties, property.2 = payload := by
  obtain ⟨⟨tagField, tag'⟩, -, h⟩ := bind_eq_ok_iff.1 h
  dsimp only at h
  split at h
  next => cases h
  next payloadField payload' hfind =>
    obtain ⟨_, -, h⟩ := bind_eq_ok_iff.1 h
    split_ifs at h
    · cases h
    · obtain ⟨-, hrest⟩ := Prod.mk.inj (Except.ok.inj h)
      obtain ⟨-, rfl⟩ := Prod.mk.inj hrest
      exact ⟨_, List.mem_of_find?_eq_some hfind, rfl⟩

theorem addArm_keeps (union : TypeName) (draft : UnionDraft) (arm : Nat) {node : Json}
    (hnode : N node) : Keeps (Registry.Holds N F) (addArm d union draft arm node) anyResult := by
  refine .lift_bind fun target htarget => .lift_bind fun schema hschema => ?_
  have hnodes := Schema.forall_nodes laws.hereditary
    (laws.hereditary.dereference laws.root hnode htarget) hschema
  split
  next properties required =>
    refine .guard <| .lift_bind fun literals _ => ?_
    refine (flawed_keeps (readArm arm draft properties literals)).bind ?_
    rintro ⟨layout, tag, payload⟩ hread
    obtain ⟨property, hproperty, rfl⟩ := exists_of_readArm hread
    have hpayload := hnodes property.2 (List.mem_map_of_mem hproperty)
    refine (typeOf_holds laws.hereditary laws.root hpayload _).bind fun type _ => ?_
    exact .guard (.pure trivial)
  next => exact .fail

theorem addArms_keeps (union : TypeName) (draft : UnionDraft) (arm : Nat) {arms : List Json}
    (harms : ∀ node ∈ arms, N node) :
    Keeps (Registry.Holds N F) (addArms d union draft arm arms) anyResult := by
  induction arms generalizing draft arm with
  | nil => exact .pure trivial
  | cons node rest ih =>
    obtain ⟨hnode, hrest⟩ := List.forall_mem_cons.1 harms
    rw [addArms]
    exact (laws.addArm_keeps union draft arm hnode).bind fun draft' _ => ih draft' (arm + 1) hrest

theorem buildUnion_keeps (name : TypeName) (node : Json) {arms : List Json}
    (harms : ∀ node ∈ arms, N node) :
    Keeps (Registry.Holds N F) (buildUnion d name node arms) anyResult := by
  refine (laws.addArms_keeps name _ 0 harms).bind fun draft _ => ?_
  split
  next => exact .fail
  next =>
    refine Keeps.bind (p := anyResult) ?_ fun _ _ => .pure trivial
    exact (laws.payloadFields_keeps draft.variants).bind fun _ _ => .pure trivial

theorem recordConversion_keeps (name : TypeName) (fields : List Field) {source : TypeName × Json}
    (hsource : N source.2) :
    Keeps (Registry.Holds N F) (recordConversion d name fields source) anyResult := by
  refine .get_bind fun r _ => ?_
  dsimp only
  split
  next =>
    refine (laws.recordFields_keeps source.1 hsource).bind fun found _ => ?_
    exact .modify fun r hr => hr.of_eq rfl rfl
  next => exact .pure trivial

theorem buildRecord_keeps (name : TypeName) {node : Json} (hnode : N node) :
    Keeps (Registry.Holds N F) (buildRecord d name node) anyResult := by
  refine (laws.recordFields_keeps name hnode).bind fun fields _ => .lift_bind fun schema _ => ?_
  split
  next parts _ =>
    refine Keeps.bind (p := anyResult) ?_ fun _ _ => .pure trivial
    refine .lift_bind fun sources hsources => ?_
    have hnodes : ∀ source ∈ sources, N source.2 := forall_sources
      (fun _ _ hfound => fragmentComponent_holds laws.hereditary laws.root hfound) hsources
    exact .forM fun source hsource => laws.recordConversion_keeps name fields (hnodes source hsource)
  next => exact .pure trivial

theorem declare_keeps {p : Pending} (hnode : N p.node) :
    Keeps (Registry.Holds N F) (declare d p) anyResult := by
  refine .lift_bind fun schema hschema => ?_
  have hnodes := Schema.forall_nodes laws.hereditary hnode hschema
  have htype (suggested : TypeName) :
      Keeps (Registry.Holds N F) (typeOf d p.node suggested) anyResult :=
    typeOf_holds laws.hereditary laws.root hnode suggested
  cases schema with
  | object properties required => exact .map (laws.buildRecord_keeps p.name hnode).any
  | allOf parts => exact .map (laws.buildRecord_keeps p.name hnode).any
  | stringEnum members default =>
    refine .map fun r decl r' hr hrun => ?_
    obtain ⟨-, rfl⟩ := Prod.mk.inj (modifyGet_eq_ok.1 hrun)
    exact ⟨hr.of_eq rfl rfl, trivial⟩
  | oneOf arms =>
    dsimp only
    split
    next arm harm =>
      have harm := hnodes arm (Schema.mem_of_nullableArm? harm)
      exact (typeOf_holds laws.hereditary laws.root harm _).bind fun _ _ => .pure trivial
    next => exact .map (laws.buildUnion_keeps p.name p.node hnodes).any
  | reference pointer => exact .lift_bind fun _ _ => (htype _).bind fun _ _ => .pure trivial
  | primitive kind format => exact (htype _).bind fun _ _ => .pure trivial
  | array items => exact (htype _).bind fun _ _ => .pure trivial

end FieldLaws

theorem FieldLaws.accompanies {P : Registry → Prop} (laws : FieldLaws d N M F) :
    Accompanies d P (Registry.Holds N F) where
  registered _ hrun _ := by
    have hempty : Registry.empty.Holds N F := ⟨by simp [Registry.empty], by simp [Registry.empty]⟩
    exact (registerSchemas_holds laws.hereditary laws.root hempty hrun).1
  operation _ _ state e _ _ _ he _ h hrun := by
    have hnodes := laws.hereditary.endpoints laws.root e he
    exact (buildOperation_holds laws.hereditary laws.root state hnodes h hrun).1
  taken _ _ h := h.of_eq rfl rfl
  declared _ _ _ _ _ h hnode hrun := by
    have hholds := (laws.declare_keeps (h.nodeOf? hnode) h hrun).1
    exact hholds.of_eq rfl rfl

/-- What is about claimed schemas and kept fields holds throughout a build. -/
theorem FieldLaws.invariant {root : Json} (laws : FieldLaws d N M F)
    (hdoc : Document.ofJson root = .ok d) (hroot : d.root.DistinctKeys) :
    Invariant d fun r => r.Recorded d ∧ r.Holds N F :=
  (recorded_invariant hdoc hroot).and laws.accompanies

end OpenApiServer.Build
