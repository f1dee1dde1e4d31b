import Mathlib.Logic.Relation
import OpenApiServer.Proofs.Build.KeptFields
import OpenApiServer.Proofs.Document.Reordered
import OpenApiServer.Proofs.Name.Words
import OpenApiServer.Proofs.Schema.Contexts

/-!
# Which named schemas a merged schema leads to

A merged schema nests the parts that stand in it without the name of a schema, and it reaches the
named schemas that these parts refer to, so that one name leads to the next. Where every merged
schema comes down to object schemas, no name leads back to itself.
-/

namespace OpenApiServer.Build

variable {d : Document}

/-- Whether the references from a part pass a named schema with this type name. -/
inductive RefersTo (d : Document) : Json → TypeName → Prop where
  | here {part : Json} {pointer name : String}
    (reference : Document.reference? part = some pointer)
    (names : Pointer.schemaName? pointer = some name) : RefersTo d part (.ofText name)
  | later {part next : Json} {pointer : String} {name : TypeName}
    (reference : Document.reference? part = some pointer) (resolves : d.resolve pointer = .ok next)
    (rest : RefersTo d next name) : RefersTo d part name

/-- Whether a node merges a part. -/
def IsPart (node part : Json) : Prop :=
  ∃ parts, Schema.classify "" node = .ok (.allOf parts) ∧ part ∈ parts

/-- Whether a part of the first node is the second, or refers to it past no named schema. -/
def Nests (d : Document) (node inner : Json) : Prop :=
  ∃ part, IsPart node part ∧ (∀ name, ¬RefersTo d part name) ∧ d.dereference part = .ok inner

/-- Whether a part of a node, or one of a node that is nested in it, refers to a named schema. -/
def Reaches (d : Document) (node : Json) (name : TypeName) : Prop :=
  ∃ inner part, Relation.ReflTransGen (Nests d) node inner ∧ IsPart inner part ∧
    RefersTo d part name

/-- Whether a schema of the first name reaches the second name. -/
def Leads (d : Document) (name name' : TypeName) : Prop :=
  ∃ node, Describes d name node ∧ Reaches d node name'

theorem isPart_of_mem {context : String} {node part : Json} {parts : List Json}
    (h : Schema.classify context node = .ok (.allOf parts)) (hpart : part ∈ parts) :
    IsPart node part :=
  ⟨parts, Schema.classify_of_ok "" h, hpart⟩

theorem IsPart.mem {context : String} {node part : Json} {parts : List Json}
    (h : IsPart node part) (hparts : Schema.classify context node = .ok (.allOf parts)) :
    part ∈ parts := by
  obtain ⟨parts', hparts', hpart⟩ := h
  obtain rfl := Schema.allOf.inj (Schema.classify_unique hparts' hparts)
  exact hpart

theorem not_isPart_of_object {context : String} {node part : Json}
    {properties : List (String × Json)} {required : List String}
    (h : Schema.classify context node = .ok (.object properties required)) : ¬IsPart node part := by
  rintro ⟨parts, hparts, -⟩
  cases Schema.classify_unique h hparts

theorem IsPart.holds {N : Json → Prop} (hN : Json.Hereditary N) {node part : Json}
    (h : IsPart node part) (hnode : N node) : N part := by
  obtain ⟨parts, hparts, hpart⟩ := h
  exact Schema.forall_nodes hN hnode hparts part hpart

theorem IsPart.kind {node part : Json} (h : IsPart node part) : node.schemaKind = .allOf := by
  obtain ⟨parts, hparts, -⟩ := h
  exact (Schema.kind_of_classify hparts).symm

theorem IsPart.distinctKeys {node part : Json} (h : IsPart node part) (hkeys : node.DistinctKeys) :
    part.DistinctKeys := by
  exact h.holds Json.hereditary_distinctKeys hkeys

theorem IsPart.agree {node node' part : Json} (h : IsPart node part) (hkeys : node.DistinctKeys)
    (hagree : node.Agrees node') : ∃ part', IsPart node' part' ∧ part.Agrees part' := by
  obtain ⟨parts, hparts, hpart⟩ := h
  obtain ⟨s, hparts', hview⟩ := Schema.classify_agree hkeys hagree hparts
  cases hview with
  | allOf agree =>
    obtain ⟨part', hpart', hagree⟩ := exists_of_mem_forall₂ agree.flip hpart
    exact ⟨part', ⟨_, hparts', hpart'⟩, hagree⟩

theorem Reaches.exists_part {node : Json} {name : TypeName} (h : Reaches d node name) :
    ∃ part, IsPart node part := by
  obtain ⟨inner, part, hnests, hpart, -⟩ := h
  rcases Relation.ReflTransGen.cases_head hnests with rfl | ⟨_, ⟨first, hfirst, -⟩, -⟩
  · exact ⟨part, hpart⟩
  · exact ⟨first, hfirst⟩

theorem RefersTo.isWord {part : Json} {name : TypeName} (h : RefersTo d part name) :
    name.IsWord := by
  induction h with
  | here => exact TypeName.isWord_ofText _
  | later _ _ _ ih => exact ih

/-- A part that reaches a node past the name of a schema makes the name stand for the node. -/
theorem RefersTo.describes {root : Json} (hdoc : Document.ofJson root = .ok d) {part node : Json}
    {name : TypeName} (h : RefersTo d part name) (hleads : d.dereference part = .ok node) :
    Describes d name node := by
  induction h with
  | @here part pointer name reference names =>
    obtain ⟨-, rest, next, -, hresolve, -⟩ := (Document.dereferenceFrom_eq_ok reference).1 hleads
    exact ⟨(name, next), Document.mem_schemas_of_resolve hdoc names hresolve, rfl,
      Document.dereference_of_resolve reference hresolve hleads⟩
  | later reference resolves _ ih =>
    exact ih (Document.dereference_of_resolve reference resolves hleads)

/-- The way of references from a part names a schema exactly if the part refers to one. -/
theorem Traverses.refersTo {component last : Option TypeName} {node target : Json}
    (h : Traverses d component node last target) :
    (last = component ∧ ∀ name, ¬RefersTo d node name) ∨
      ∃ name, last = some name ∧ RefersTo d node name := by
  induction h with
  | done plain =>
    refine .inl ⟨rfl, fun name hrefers => ?_⟩
    cases hrefers with
    | here reference => simp [plain] at reference
    | later reference => simp [plain] at reference
  | @named _ _ _ _ _ _ name reference names resolves _ ih =>
    rcases ih with ⟨rfl, -⟩ | ⟨later, rfl, hrefers⟩
    · exact .inr ⟨.ofText name, rfl, .here reference names⟩
    · exact .inr ⟨later, rfl, .later reference resolves hrefers⟩
  | unnamed reference unnamed resolves _ ih =>
    rcases ih with ⟨rfl, hplain⟩ | ⟨later, rfl, hrefers⟩
    · refine .inl ⟨rfl, fun name hrefers => ?_⟩
      cases hrefers with
      | here reference' names =>
        obtain rfl := Option.some.inj (reference.symm.trans reference')
        rw [unnamed] at names
        cases names
      | later reference' resolves' rest =>
        obtain rfl := Option.some.inj (reference.symm.trans reference')
        obtain rfl := Except.ok.inj (resolves.symm.trans resolves')
        exact hplain name rest
    · exact .inr ⟨later, rfl, .later reference resolves hrefers⟩

theorem fragmentComponent_eq_some {owner name : TypeName} {part node : Json}
    (h : fragmentComponent d owner part = .ok (some (name, node))) :
    RefersTo d part name ∧ d.dereference part = .ok node := by
  obtain ⟨hleads, htraverses⟩ := traverses_of_component h
  rcases htraverses.refersTo with ⟨hnone, -⟩ | ⟨name', hname, hrefers⟩
  · cases hnone
  · obtain rfl := Option.some.inj hname
    exact ⟨hrefers, hleads⟩

theorem fragmentComponent_eq_none {owner : TypeName} {part : Json}
    (h : fragmentComponent d owner part = .ok none) : ∀ name, ¬RefersTo d part name := by
  obtain ⟨target, -, htraverses⟩ := traverses_of_inline h
  rcases htraverses.refersTo with ⟨-, hplain⟩ | ⟨name, hname, -⟩
  · exact hplain
  · cases hname

/-! ## Where chains of names end -/

/-- Where every chain ends, none comes back. -/
theorem not_transGen_of_acc {α : Type} {r : α → α → Prop} {a : α} (h : Acc (Function.swap r) a) :
    ¬Relation.TransGen r a a := by
  intro hcycle
  have hself := Relation.transGen_swap.2 hcycle
  have hends := h.transGen
  clear h hcycle
  induction hends with
  | intro a _ ih => exact ih a hself hself

/-- Whether no chain of names goes on for ever from what a node reaches, nor from what a node that
agrees with it reaches. -/
def Ends (d : Document) (node : Json) : Prop :=
  ∀ ⦃node' : Json⦄, node'.DistinctKeys → node'.Agrees node → ∀ ⦃name⦄, Reaches d node' name →
    Acc (Function.swap (Leads d)) name

theorem Ends.of_agree {node node' : Json} (h : Ends d node) (hagree : node'.Agrees node) :
    Ends d node' :=
  fun _ hkeys hagree' => h hkeys (hagree'.trans hagree)

section Ending

variable {root : Json} (hdoc : Document.ofJson root = .ok d) (hroot : d.root.DistinctKeys)
  (hagree : ∀ ⦃name node node'⦄, Describes d name node → Describes d name node' →
    node.Agrees node')

include hdoc hroot hagree

/-- Where all parts lead to nodes from which chains end, they end from the whole. -/
theorem ends_of_parts {node : Json} (hnode : node.DistinctKeys)
    (h : ∀ part, IsPart node part → ∃ next, d.dereference part = .ok next ∧ Ends d next) :
    Ends d node := by
  intro node' hkeys hsame name hreaches
  have hends {part : Json} (hpart : IsPart node' part) :
      ∃ next, d.dereference part = .ok next ∧ next.DistinctKeys ∧ Ends d next := by
    obtain ⟨part', hpart', hsame⟩ := hpart.agree hkeys hsame
    have hpartKeys := hpart.distinctKeys hkeys
    have hpartKeys' := hpart'.distinctKeys hnode
    obtain ⟨next', hnext', hends⟩ := h part' hpart'
    obtain ⟨next, hnext, hback⟩ := (Document.Agrees.refl hroot).dereference hpartKeys'
      (hsame.symm hpartKeys hpartKeys') hnext'
    have hnextKeys := Document.dereference_distinctKeys hroot hpartKeys hnext
    have hnextKeys' := Document.dereference_distinctKeys hroot hpartKeys' hnext'
    exact ⟨next, hnext, hnextKeys, hends.of_agree (hback.symm hnextKeys' hnextKeys)⟩
  obtain ⟨inner, part, hnests, hpart, hrefers⟩ := hreaches
  rcases Relation.ReflTransGen.cases_head hnests with rfl | ⟨nested, ⟨first, hfirst, -, hleads⟩, hrest⟩
  · obtain ⟨next, hnext, -, hends⟩ := hends hpart
    refine Acc.intro name fun later ⟨node, hdescribes, hlater⟩ => ?_
    exact hends (Describes.distinctKeys hroot hdescribes)
      (hagree hdescribes (hrefers.describes hdoc hnext)) hlater
  · obtain ⟨next, hnext, hnextKeys, hends⟩ := hends hfirst
    obtain rfl := Except.ok.inj (hleads.symm.trans hnext)
    exact hends hnextKeys (.refl _) ⟨inner, part, hrest, hpart, hrefers⟩

mutual

/-- Chains end from what the parts of a schema stand for, for these come down to object schemas. -/
theorem Flattens.ends {owner : TypeName} {parts : List Json} {leaves : List Leaf}
    (hparts : ∀ part ∈ parts, part.DistinctKeys) :
    Flattens d owner parts leaves →
      ∀ part ∈ parts, ∃ next, d.dereference part = .ok next ∧ Ends d next
  | .nil _ => by simp
  | .cons stands hleaves following => by
    obtain ⟨hpart, hrest⟩ := List.forall_mem_cons.1 hparts
    refine List.forall_mem_cons.2 ⟨?_, Flattens.ends hrest following⟩
    have hends := fun hnode => LeavesOf.ends hnode hleaves
    cases stands with
    | component refers describes =>
      obtain ⟨hrefers, hfound⟩ := fragmentComponent_eq_some refers
      have hsame := hagree (hrefers.describes hdoc hfound) describes
      exact ⟨_, hfound, (hends (Describes.distinctKeys hroot describes)).of_agree hsame⟩
    | inline _ leads =>
      exact ⟨_, leads, hends (Document.dereference_distinctKeys hroot hpart leads)⟩

/-- Chains end from a schema that comes down to object schemas. -/
theorem LeavesOf.ends {name : TypeName} {node : Json} {leaves : List Leaf}
    (hnode : node.DistinctKeys) : LeavesOf d name node leaves → Ends d node
  | .object hobject =>
    ends_of_parts hdoc hroot hagree hnode fun _ hpart => absurd hpart (not_isPart_of_object hobject)
  | .allOf hallOf hparts => by
    refine ends_of_parts hdoc hroot hagree hnode fun part hpart => ?_
    have hkeys := Schema.parts_distinctKeys hnode hallOf
    exact Flattens.ends hkeys hparts part (hpart.mem hallOf)

end

/-- The name of a schema that comes down to object schemas does not lead back to itself. -/
theorem LeavesOf.not_leads_back {name : TypeName} {node : Json} {leaves : List Leaf}
    (h : LeavesOf d name node leaves) (hdescribes : Describes d name node) :
    ¬Relation.TransGen (Leads d) name name := by
  have hends := h.ends hdoc hroot hagree (Describes.distinctKeys hroot hdescribes)
  refine not_transGen_of_acc (Acc.intro name fun later ⟨node', hdescribes', hreaches⟩ => ?_)
  exact hends (Describes.distinctKeys hroot hdescribes') (hagree hdescribes' hdescribes) hreaches

end Ending

end OpenApiServer.Build
