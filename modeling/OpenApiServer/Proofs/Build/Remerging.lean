import OpenApiServer.Proofs.Build.Succeeds
import OpenApiServer.Proofs.Build.Unbounded

/-!
# Merging again

A schema that comes down to object schemas in one document does so in a reordered one: merging it
there succeeds below a registry that knows the types of all their properties. What is being merged
leads to whatever is merged next, and the name of a schema that comes down to object schemas does not
lead back to itself, so that none is entered twice. Nor does such a schema nest itself, so that the
depth suffices.
-/

namespace OpenApiServer.Build

open Relation (ReflTransGen TransGen)

variable {d d' : Document}

theorem Describes.holds {N : Json → Prop} (hN : Json.Hereditary N) (hroot : N d.root)
    {name : TypeName} {node : Json} (h : Describes d name node) : N node := by
  obtain ⟨schema, hschema, -, hleads⟩ := h
  exact hN.dereference hroot (hN.schemas hroot schema hschema) hleads

/-! ## Schemas that come down to object schemas -/

mutual

/-- Nesting ends in what the parts of a schema stand for inline. -/
theorem Flattens.nesting_ends {owner : TypeName} {parts : List Json} {leaves : List Leaf} :
    Flattens d owner parts leaves → ∀ part ∈ parts, (∀ name, ¬RefersTo d part name) →
      ∀ inner, d.dereference part = .ok inner → Acc (Function.swap (Nests d)) inner
  | .nil _ => by simp
  | .cons stands hleaves following => by
    refine List.forall_mem_cons.2 ⟨fun hplain inner hinner => ?_, Flattens.nesting_ends following⟩
    have hends := LeavesOf.nesting_ends hleaves
    cases stands with
    | component refers _ => exact absurd (fragmentComponent_eq_some refers).1 (hplain _)
    | inline _ leads =>
      obtain rfl := Except.ok.inj (leads.symm.trans hinner)
      exact hends

/-- Nesting ends in a schema that comes down to object schemas. -/
theorem LeavesOf.nesting_ends {name : TypeName} {node : Json} {leaves : List Leaf} :
    LeavesOf d name node leaves → Acc (Function.swap (Nests d)) node
  | .object object =>
    Acc.intro _ fun _ ⟨_, hpart, _⟩ => absurd hpart (not_isPart_of_object object)
  | .allOf allOf parts =>
    Acc.intro _ fun inner ⟨part, hpart, hplain, hleads⟩ =>
      Flattens.nesting_ends parts part (hpart.mem allOf) hplain inner hleads

end

theorem LeavesOf.classified {name : TypeName} {node : Json} {leaves : List Leaf}
    (h : LeavesOf d name node leaves) : ∃ schema, Schema.classify name.text node = .ok schema := by
  cases h with
  | object object => exact ⟨_, object⟩
  | allOf allOf => exact ⟨_, allOf⟩

theorem LeavesOf.not_nests_itself {name : TypeName} {node : Json} {leaves : List Leaf}
    (h : LeavesOf d name node leaves) : ¬TransGen (Nests d) node node :=
  not_transGen_of_acc h.nesting_ends

/-- Whether the named schemas among some names lead to all that a node reaches. -/
def Leading (d : Document) (stack : List TypeName) (node : Json) : Prop :=
  ∀ name ∈ stack, name ∈ d.schemaTypes → ∀ reached, Reaches d node reached →
    TransGen (Leads d) name reached

namespace Leading

variable {stack : List TypeName} {node inner : Json} {name : TypeName}

theorem nested (h : Leading d stack node) (hnests : Nests d node inner) : Leading d stack inner := by
  intro name hname hschema reached hreached
  obtain ⟨last, part, hchain, hpart, hrefers⟩ := hreached
  exact h name hname hschema reached ⟨last, part, .head hnests hchain, hpart, hrefers⟩

/-- A named schema that is reached is entered. -/
theorem enter (h : Leading d stack node) (hreaches : Reaches d node name)
    (hdescribes : Describes d name inner) : Leading d (stack ++ [name]) inner := by
  intro name' hname hschema reached hreached
  have hleads : Leads d name reached := ⟨inner, hdescribes, hreached⟩
  rcases List.mem_append.1 hname with hold | hnew
  · exact (h name' hold hschema name hreaches).tail hleads
  · obtain rfl := List.mem_singleton.1 hnew
    exact .single hleads

theorem not_mem (h : Leading d stack node) (hback : ¬TransGen (Leads d) name name)
    (hreaches : Reaches d node name) (hname : name ∈ d.schemaTypes) : name ∉ stack :=
  fun hmem => hback (h name hmem hname name hreaches)

end Leading

/-! ## Runs -/

variable {R : Registry} {stack : List TypeName}

/-- Fields are kept without a change to what is claimed and what is being merged. -/
theorem keepFields_succeeds (name : TypeName) (fields : List Field) :
    Succeeds (R.Under stack) (do modify (·.keepFields name fields); return fields) anyResult :=
  (Succeeds.modify fun _ hr => hr.of_eq rfl rfl).bind fun _ _ => .pure trivial

/-- What succeeds inside a name succeeds with entering and leaving the name around it. -/
theorem inside_succeeds {α β : Type} {name : TypeName} {x : Build α} {f : α → Build β}
    (hnew : name ∉ stack) (hx : Succeeds (R.Under (stack ++ [name])) x anyResult)
    (hf : ∀ a, Succeeds (R.Under stack) (f a) anyResult) :
    Succeeds (R.Under stack) (do
      step (·.enterMerge name)
      let a ← x
      modify Registry.leaveMerge
      f a) anyResult := by
  intro r hr
  have henter : r.enterMerge name = .ok { r with merging := r.merging ++ [name] } :=
    if_neg (hr.merging ▸ hnew)
  obtain ⟨a, s, hrun, hs, -⟩ := hx (r := { r with merging := r.merging ++ [name] })
    ⟨hr.below.of_eq rfl, by rw [hr.merging]⟩
  have hleft : R.Under stack s.leaveMerge := by
    refine ⟨hs.below.of_eq rfl, ?_⟩
    rw [Registry.leaveMerge, hs.merging, List.dropLast_concat]
  obtain ⟨b, r', hlast, hr', hb⟩ := hf a hleft
  refine ⟨b, r', bind_eq_ok.2 ⟨(), _, step_eq_ok.2 henter, bind_eq_ok.2 ⟨a, s, hrun, ?_⟩⟩, hr', hb⟩
  exact bind_eq_ok.2 ⟨(), _, modify_eq_ok.2 rfl, hlast⟩

section Merging

variable {root : Json} (h : Document.Reordered d d') (hproper : R.ProperNodes)
  (hunique : ∀ ⦃name node node'⦄, Describes d name node → Describes d name node' →
    node.Agrees node')

/-- Whether a record whose schema matches a node has its fields found out, at any depth that leaves
room for what is merged inside the name. -/
def RecordsSucceed (d d' : Document) (R : Registry) (name : TypeName) (node node' : Json) : Prop :=
  ∀ ⦃stack depth⦄, name ∉ stack → Leading d (stack ++ [name]) node →
    depthFor d (waiting d (stack ++ [name])) + (d.root.size + 2) ≤ depth →
      Succeeds (R.Under stack) (recordFieldsFrom d' depth name node') anyResult

/-- Whether a part that stands for a schema inline is merged, at any depth that leaves room for what
the schema nests. -/
def PartsSucceed (d d' : Document) (R : Registry) (owner : TypeName) (node node' : Json) : Prop :=
  ∀ ⦃stack depth part merged⦄, Leading d stack node →
    depthFor d (waiting d stack) + nesting d node + 1 ≤ depth →
      fragmentComponent d' owner part = .ok none → d'.dereference part = .ok node' →
        Succeeds (R.Under stack) (mergeFragmentFrom d' (depth + 1) owner merged part) anyResult

include h hproper

theorem recordsSucceed_of_object {name : TypeName} {node node' : Json}
    {properties : List (String × Json)} {required : List String}
    (hobject : Schema.classify name.text node = .ok (.object properties required))
    (htypes : R.TypesAll d ⟨name, properties, required⟩) (hmatch : node.Matches node') :
    RecordsSucceed d d' R name node node' := by
  intro stack depth _ _ hdepth
  obtain ⟨depth, rfl⟩ := Nat.exists_eq_add_of_le' (show 1 ≤ depth by omega)
  obtain ⟨_, hclassify, hview⟩ := Schema.classify_matches hmatch hobject
  cases hview with
  | object hfields =>
  rw [recordFieldsFrom]
  refine .get_bind fun r _ => ?_
  split
  · exact .pure trivial
  · refine .lift_bind hclassify ?_
    refine (objectFields_succeeds h hproper htypes hfields required).bind fun own _ => ?_
    exact keepFields_succeeds name _

theorem partsSucceed_of_object {owner : TypeName} {node node' : Json}
    {properties : List (String × Json)} {required : List String}
    (hobject : Schema.classify owner.text node = .ok (.object properties required))
    (htypes : R.TypesAll d ⟨owner, properties, required⟩) (hmatch : node.Matches node') :
    PartsSucceed d d' R owner node node' := by
  intro stack depth part merged _ _ hplain hleads
  obtain ⟨_, hclassify, hview⟩ := Schema.classify_matches hmatch hobject
  cases hview with
  | object hfields =>
  rw [mergeFragmentFrom]
  refine .lift_bind hplain (.lift_bind hleads (.lift_bind hclassify ?_))
  exact (objectFields_succeeds h hproper htypes hfields required).bind fun _ _ => .pure trivial

/-- Whether the parts of a schema are merged, at any depth that leaves room for what it nests. -/
def FoldsSucceed (d d' : Document) (R : Registry) (owner : TypeName) (node : Json)
    (parts' : List Json) : Prop :=
  ∀ ⦃stack depth merged⦄, Leading d stack node →
    depthFor d (waiting d stack) + nesting d node + 1 ≤ depth →
      Succeeds (R.Under stack) (parts'.foldlM (mergeFragmentFrom d' depth owner) merged) anyResult

omit h hproper in
theorem FoldsSucceed.records {name : TypeName} {node node' : Json} {parts' : List Json}
    (hfolds : FoldsSucceed d d' R name node parts') (hwithin : d.root.Within node)
    (hallOf : Schema.classify name.text node' = .ok (.allOf parts')) :
    RecordsSucceed d d' R name node node' := by
  intro stack depth hnew hleading hdepth
  obtain ⟨depth, rfl⟩ := Nat.exists_eq_add_of_le' (show 1 ≤ depth by omega)
  have hnesting := nesting_le hwithin
  rw [recordFieldsFrom]
  refine .get_bind fun r _ => ?_
  split
  · exact .pure trivial
  · refine .lift_bind hallOf ?_
    exact inside_succeeds hnew (hfolds hleading (by omega)) fun merged => keepFields_succeeds name _

omit h hproper in
theorem FoldsSucceed.parts {owner : TypeName} {node node' : Json} {parts' : List Json}
    (hfolds : FoldsSucceed d d' R owner node parts')
    (hallOf : Schema.classify owner.text node' = .ok (.allOf parts')) :
    PartsSucceed d d' R owner node node' := by
  intro stack depth part merged hleading hdepth hplain hleads
  rw [mergeFragmentFrom]
  refine .lift_bind hplain (.lift_bind hleads (.lift_bind hallOf ?_))
  exact hfolds hleading hdepth

omit h hproper in
theorem FoldsSucceed.cons {owner : TypeName} {node part' : Json} {rest' : List Json}
    (hfirst : ∀ ⦃stack depth merged⦄, Leading d stack node →
      depthFor d (waiting d stack) + nesting d node + 1 ≤ depth →
        Succeeds (R.Under stack) (mergeFragmentFrom d' depth owner merged part') anyResult)
    (hrest : FoldsSucceed d d' R owner node rest') :
    FoldsSucceed d d' R owner node (part' :: rest') := by
  intro stack depth merged hleading hdepth
  rw [List.foldlM_cons]
  exact (hfirst hleading hdepth).bind fun _ _ => hrest hleading hdepth

include hunique

omit hproper in
/-- A part that refers to a component is merged if the fields of the component are found out. -/
theorem component_succeeds {owner name : TypeName} {node part found component part' : Json}
    (hdoc : Document.ofJson root = .ok d) (hpart : IsPart node part) (hmatch : part.Matches part')
    (hrefers : fragmentComponent d owner part = .ok (some (name, found)))
    (hdescribes : Describes d name component) (hback : ¬TransGen (Leads d) name name)
    (hrecords : ∀ ⦃found'⦄, component.Matches found' → RecordsSucceed d d' R name component found')
    ⦃stack : List TypeName⦄ ⦃depth : Nat⦄ ⦃merged : List Field⦄ (hleading : Leading d stack node)
    (hdepth : depthFor d (waiting d stack) + nesting d node + 1 ≤ depth) :
    Succeeds (R.Under stack) (mergeFragmentFrom d' depth owner merged part') anyResult := by
  obtain ⟨depth, rfl⟩ := Nat.exists_eq_add_of_le' (show 1 ≤ depth by omega)
  obtain ⟨_, hrefers', hrel⟩ := fragmentComponent_matches h hmatch hrefers
  cases hrel with
  | @some _ found' hnamed =>
  obtain ⟨name', found'⟩ := found'
  obtain ⟨rfl, hfound⟩ := hnamed
  have hdescribed := fragmentComponent_describes hdoc hrefers
  have hcomponent : component.Matches found' := by
    refine Json.Matches.trans ⟨?_, hfound.left, hunique hdescribes hdescribed⟩ hfound
    exact hdescribes.holds Json.hereditary_proper h.proper
  have hreaches : Reaches d node name :=
    ⟨node, part, .refl, hpart, (fragmentComponent_eq_some hrefers).1⟩
  have hnew := hleading.not_mem hback hreaches hdescribes.mem_schemaTypes
  have hless := waiting_concat_lt hdescribes.mem_schemaTypes hnew
  have hmul := Nat.mul_le_mul_right (d.root.size + 2) (Nat.succ_le_of_lt hless)
  rw [mergeFragmentFrom]
  refine .lift_bind hrefers' ?_
  refine (hrecords hcomponent hnew (hleading.enter hreaches hdescribes) ?_).bind fun _ _ =>
    .pure trivial
  unfold depthFor at hdepth ⊢
  rw [Nat.succ_mul] at hmul
  omega

omit hproper hunique in
/-- A part that stands for a schema inline is merged if what this schema comes down to is. -/
theorem inline_succeeds {owner : TypeName} {node part inner part' : Json} (hpart : IsPart node part)
    (hwithin : d.root.Within node) (hmatch : part.Matches part')
    (hplain : fragmentComponent d owner part = .ok none) (hleads : d.dereference part = .ok inner)
    (hself : ¬TransGen (Nests d) inner inner)
    (hparts : ∀ ⦃inner'⦄, inner.Matches inner' → PartsSucceed d d' R owner inner inner')
    ⦃stack : List TypeName⦄ ⦃depth : Nat⦄ ⦃merged : List Field⦄ (hleading : Leading d stack node)
    (hdepth : depthFor d (waiting d stack) + nesting d node + 1 ≤ depth) :
    Succeeds (R.Under stack) (mergeFragmentFrom d' depth owner merged part') anyResult := by
  obtain ⟨depth, rfl⟩ := Nat.exists_eq_add_of_le' (show 1 ≤ depth by omega)
  obtain ⟨_, hplain', hrel⟩ := fragmentComponent_matches h hmatch hplain
  cases hrel
  obtain ⟨inner', hleads', hinner⟩ := h.dereference hmatch hleads
  have hnests : Nests d node inner := ⟨part, hpart, fragmentComponent_eq_none hplain, hleads⟩
  have hless := nesting_lt hself hwithin hnests
  exact hparts hinner (hleading.nested hnests) (by omega) hplain' hleads'

mutual

/-- The parts of a schema are merged again, for each of them comes down to object schemas. -/
theorem Flattens.succeeds (hdoc : Document.ofJson root = .ok d) {owner : TypeName} {node : Json}
    {parts parts' : List Json} {leaves : List Leaf} (hwithin : d.root.Within node)
    (hparts : ∀ part ∈ parts, IsPart node part) (hmatch : List.Forall₂ Json.Matches parts parts')
    (htypes : ∀ leaf ∈ leaves, R.TypesAll d leaf) :
    Flattens d owner parts leaves → FoldsSucceed d d' R owner node parts'
  | .nil _ => by
    cases hmatch
    exact fun _ _ _ _ _ => .pure trivial
  | .cons stands hleaves following => by
    cases hmatch with
    | cons hpartMatch hrestMatch =>
    obtain ⟨hpart, hrest⟩ := List.forall_mem_cons.1 hparts
    obtain ⟨hfirst, hlater⟩ := List.forall_mem_append.1 htypes
    refine .cons ?_ (Flattens.succeeds hdoc hwithin hrest hrestMatch hlater following)
    have hN := Json.hereditary_within d.root
    have hself := hleaves.not_nests_itself
    have hstood := fun node' hwithin (hfound : Json.Matches _ node') =>
      LeavesOf.succeeds hdoc hwithin hfound hfirst hleaves
    cases stands with
    | component refers describes =>
      have hcomponent := describes.holds hN (.refl d.root)
      have hback := hleaves.not_leads_back hdoc h.proper.keys hunique describes
      exact component_succeeds h hunique hdoc hpart hpartMatch refers describes hback
        fun _ hfound => (hstood _ hcomponent hfound).1
    | inline plain leads =>
      have hinner := hN.dereference (.refl d.root) (hpart.holds hN hwithin) leads
      exact inline_succeeds h hpart hwithin hpartMatch plain leads hself
        fun _ hfound => (hstood _ hinner hfound).2

/-- A schema that comes down to object schemas is merged again, under a name of its own or as a part
of another schema. -/
theorem LeavesOf.succeeds (hdoc : Document.ofJson root = .ok d) {name : TypeName} {node node' : Json}
    {leaves : List Leaf} (hwithin : d.root.Within node) (hmatch : node.Matches node')
    (htypes : ∀ leaf ∈ leaves, R.TypesAll d leaf) :
    LeavesOf d name node leaves →
      RecordsSucceed d d' R name node node' ∧ PartsSucceed d d' R name node node'
  | .object hobject => by
    rw [List.forall_mem_singleton] at htypes
    exact ⟨recordsSucceed_of_object h hproper hobject htypes hmatch,
      partsSucceed_of_object h hproper hobject htypes hmatch⟩
  | .allOf hallOf hparts => by
    obtain ⟨_, hallOf', hview⟩ := Schema.classify_matches hmatch hallOf
    cases hview with
    | allOf hpartsMatch =>
    have hfolds := Flattens.succeeds hdoc hwithin (fun _ => isPart_of_mem hallOf) hpartsMatch htypes
      hparts
    exact ⟨hfolds.records hwithin hallOf', hfolds.parts hallOf'⟩

end

end Merging

end OpenApiServer.Build
