import OpenApiServer.Proofs.Build.Cycles
import OpenApiServer.Proofs.Build.Informed
import OpenApiServer.Proofs.Build.Unbounded
import OpenApiServer.Proofs.Server.Coherence
import OpenApiServer.Proofs.Server.FromText

/-!
# What a built document merges

A build that succeeds has found out the fields of every merged schema, so that every merged schema
comes down to object schemas. Therefore no named schema of the document leads back to itself.
-/

namespace OpenApiServer

namespace Build

variable {d : Document} {r r' : Registry}

/-- A reference is declared with the type that it leads to. -/
theorem typeOf_of_declare {p : Pending} {t : Declaration} {pointer : String}
    (hreference : Document.reference? p.node = some pointer) (h : declare d p r = .ok (t, r')) :
    ∃ type, typeOf d p.node (valueName p.name) r = .ok (type, r') := by
  obtain ⟨schema, hclassify, h⟩ := lift_bind_eq_ok.1 h
  obtain rfl := (Schema.eq_reference_iff hclassify).2 hreference
  obtain ⟨_, -, h⟩ := lift_bind_eq_ok.1 h
  obtain ⟨type, s, hrun, h⟩ := bind_eq_ok.1 h
  obtain ⟨-, rfl⟩ := pure_eq_ok.1 h
  exact ⟨type, hrun⟩

/-- Only a merged schema leads to its parts without a reference. -/
theorem eq_of_leads_part {context : String} {rest : Nat} {visited : List String}
    {node target part : Json} {schema : Schema}
    (hclassify : Schema.classify context node = .ok schema)
    (hschema : ∀ pointer, schema ≠ .reference pointer)
    (hleads : d.dereferenceFrom rest visited node = .ok target) (hpart : IsPart target part) :
    target = node ∧ ∃ parts, schema = .allOf parts := by
  have hreference : Document.reference? node = none := by
    refine Option.eq_none_iff_forall_ne_some.2 fun pointer hpointer => ?_
    exact hschema pointer ((Schema.eq_reference_iff hclassify).2 hpointer)
  rw [Document.dereferenceFrom_eq_self hreference] at hleads
  obtain rfl := Except.ok.inj hleads
  obtain ⟨parts, hparts, -⟩ := hpart
  exact ⟨rfl, parts, Schema.classify_unique hclassify hparts⟩

/-- On the way to a merged schema there is the name of a schema, or the schema stands inline. -/
theorem Placed.inline_or_schema_of_leads {root : Json} (hdoc : Document.ofJson root = .ok d)
    {steps rest : Nat} {visited : List String} {node target part : Json} {suggested : TypeName}
    {place : Place} (hplace : Placed d steps node suggested place)
    (hleads : d.dereferenceFrom rest visited node = .ok target) (hpart : IsPart target part) :
    place.inline = some (suggested, target) ∨
      ∃ s ∈ d.schemas, ∃ fewer < rest, ∃ visited',
        d.dereferenceFrom fewer visited' s.2 = .ok target := by
  induction hplace generalizing rest visited with
  | @component _ _ _ _ _ name refers named resolves =>
    have hreference := (Schema.eq_reference_iff refers).1 rfl
    obtain ⟨-, fewer, next, rfl, hresolve, hnext⟩ :=
      (Document.dereferenceFrom_eq_ok hreference).1 hleads
    have hschema := Document.mem_schemas_of_resolve hdoc named hresolve
    exact .inr ⟨(name, next), hschema, fewer, Nat.lt_succ_self fewer, _, hnext⟩
  | target refers _ _ resolves _ ih =>
    have hreference := (Schema.eq_reference_iff refers).1 rfl
    obtain ⟨-, fewer, next, rfl, hresolve, hnext⟩ :=
      (Document.dereferenceFrom_eq_ok hreference).1 hleads
    obtain rfl := Except.ok.inj (resolves.symm.trans hresolve)
    rcases ih hnext with hinline | ⟨s, hs, fewer', hless, hway⟩
    · exact .inl hinline
    · exact .inr ⟨s, hs, fewer', Nat.lt_succ_of_lt hless, hway⟩
  | primitive classified | list classified | optional classified =>
    obtain ⟨-, parts, hparts⟩ := eq_of_leads_part classified (by simp) hleads hpart
    cases hparts
  | @inline _ _ _ schema classified standsInline =>
    have hschema (pointer : String) : schema ≠ .reference pointer := by
      rintro rfl
      cases standsInline
    obtain ⟨rfl, -⟩ := eq_of_leads_part classified hschema hleads hpart
    exact .inl rfl

end Build

namespace Built

variable {root : Json} {d : Document} {basePath : String} {m : ServerModel}
  (b : Built d basePath m) (hdoc : Document.ofJson root = .ok d) (hroot : d.root.DistinctKeys)

include b hdoc hroot

theorem covers : b.drained.Covers d := by
  obtain ⟨⟨henumerated, -⟩, -⟩ := (Build.recounted_invariant hdoc hroot).drained b
  exact henumerated.equal

theorem claimed_keys ⦃name : TypeName⦄ ⦃node : Json⦄ (hnode : b.drained.nodeOf? name = some node) :
    node.DistinctKeys := by
  obtain ⟨⟨-, hholds⟩, -⟩ := (Build.recounted_invariant hdoc hroot).drained b
  exact hholds.nodeOf? hnode

/-- Chains of names end from a merged schema that is claimed. -/
theorem ends_of_claimed {name : TypeName} {node part : Json}
    (hnode : b.drained.nodeOf? name = some node) (hpart : Build.IsPart node part)
    (hresponse : ¬m.Responds name) : Build.Ends d node := by
  obtain ⟨⟨henumerated, -⟩, hrecounted⟩ := (Build.recounted_invariant hdoc hroot).drained b
  obtain ⟨t, ht, rfl, hfits⟩ := b.exists_claimed hdoc hroot hnode hresponse
  have hkind : node.schemaKind = .allOf := hpart.kind
  rw [hkind] at hfits
  cases t with
  | record decl =>
    have hkept := henumerated.records decl ht
    obtain ⟨node', leaves, hdescribes, hleaves, -, -⟩ := hrecounted.explained hkept
    have hplain : Document.reference? node = none :=
      Json.reference?_eq_none_of_isRecord (by rw [hkind]; rfl)
    have hkeys := b.claimed_keys hdoc hroot
    have hagree := (b.covers hdoc hroot).agrees_of_describes hkeys hnode hplain hdescribes
    have hnodeKeys : node'.DistinctKeys := by
      rcases hdescribes with hdescribes | ⟨hclaimed, -⟩
      · exact hdescribes.distinctKeys hroot
      · exact hkeys hclaimed
    exact (Build.LeavesOf.ends hdoc hroot
      (fun _ _ _ => (b.covers hdoc hroot).describes_agree hkeys hroot) hnodeKeys
      hleaves).of_agree hagree
  | _ => simp [Declaration.Fits, Schema.Kind.isRecord] at hfits

/-- Chains of names end from a merged schema that a named schema is or leads to. By induction on the
references from the named schema. -/
theorem ends_of_leads {steps : Nat} {visited : List String} {s : String × Json} {node part : Json}
    (hs : s ∈ d.schemas) (hleads : d.dereferenceFrom steps visited s.2 = .ok node)
    (hpart : Build.IsPart node part) : Build.Ends d node := by
  obtain ⟨⟨henumerated, hholds⟩, hrecounted⟩ := (Build.recounted_invariant hdoc hroot).drained b
  obtain ⟨claimed, hclaimed, hsame⟩ := henumerated.equal s hs
  have hkeys := hholds.nodeOf? hclaimed
  have hresponse := b.not_responds_schema hdoc hroot hs
  have hreference := Document.reference?_agree hkeys hsame
  cases hpointer : Document.reference? s.2 with
  | none =>
    rw [Document.dereferenceFrom_eq_self hpointer] at hleads
    obtain rfl := Except.ok.inj hleads
    have hback := Json.Agrees.symm hkeys (Document.schemas_distinctKeys hroot s hs) hsame
    obtain ⟨part', hpart', -⟩ := hpart.agree (Document.schemas_distinctKeys hroot s hs) hback
    exact (b.ends_of_claimed hdoc hroot hclaimed hpart' hresponse).of_agree hback
  | some pointer =>
    rw [hpointer] at hreference
    obtain ⟨t, ht, hname, -⟩ := b.exists_claimed hdoc hroot hclaimed hresponse
    obtain ⟨node', before, after, hdeclared⟩ := hrecounted.declared t ht
    obtain rfl : node' = claimed := by
      have hnode := hdeclared.remembers.nodeOf? ((Build.declare_declares hdoc hroot hdeclared.kept
        hdeclared.claimed hdeclared.run).remembers.nodeOf? hdeclared.claimed)
      rw [hname, hclaimed] at hnode
      exact (Option.some.inj hnode).symm
    obtain ⟨type, hrun⟩ := Build.typeOf_of_declare hreference hdeclared.run
    obtain ⟨place, hplace, hknows⟩ := Registry.types_of_typeOf hrun
    have hway : d.dereferenceFrom steps visited node' = .ok node := by
      rw [Document.dereferenceFrom_congr hreference hpointer]
      exact hleads
    rcases (Build.placeFrom_eq_ok_iff.1 hplace).inline_or_schema_of_leads hdoc hway hpart with
      hinline | ⟨s', hs', fewer, hless, visited', hleads'⟩
    · obtain ⟨inner, hinner, hagree⟩ := hdeclared.remembers.knows hknows _ hinline
      have hnodeKeys : node.DistinctKeys :=
        Json.hereditary_distinctKeys.dereferenceFrom hroot hkeys hway
      have hback := Json.Agrees.symm (hholds.nodeOf? hinner) hnodeKeys hagree
      obtain ⟨part', hpart', -⟩ := hpart.agree hnodeKeys hback
      exact (b.ends_of_claimed hdoc hroot hinner hpart'
        (b.not_responds_value hdoc hroot _)).of_agree hback
    · exact ends_of_leads hs' hleads' hpart
  termination_by steps

/-- No named schema of a document that is built leads back to itself. -/
theorem not_leads_back (name : TypeName) : ¬Relation.TransGen (Build.Leads d) name name := by
  refine Build.not_transGen_of_acc (Acc.intro name fun later ⟨node, hdescribes, hreaches⟩ => ?_)
  have hkeys := Build.Describes.distinctKeys hroot hdescribes
  obtain ⟨s, hs, -, hleads⟩ := hdescribes
  obtain ⟨part, hpart⟩ := hreaches.exists_part
  exact b.ends_of_leads hdoc hroot hs hleads hpart hkeys (.refl node) hreaches

end Built

end OpenApiServer

/-!
## Merged schemas that lead back to themselves

Merging never runs on for ever unless a schema nests itself without the name of a schema in between.
A document with a named schema that leads back to itself is never built, and a merge that fails with
a chain of names has found such a schema.
-/

namespace OpenApiServer

open Build

variable {root : Json} {d : Document}

/-- What a failure for a recursion names. -/
def recursionOf? {α : Type} : Except BuildError α → Option String
  | .error (.recursiveSchema text) => some text
  | _ => none

theorem eq_error_of_recursionOf? {α : Type} {x : Except BuildError α} {text : String}
    (h : recursionOf? x = some text) : x = .error (.recursiveSchema text) := by
  unfold recursionOf? at h
  split at h
  · rw [Option.some.inj h]
  · cases h

/-- A schema that merges the named one. -/
def merger (name : String) : Json := .obj [("allOf", .arr [toSchema name])]

/-- Two schemas that merge each other. -/
def knot : Json :=
  .obj [("components", .obj [("schemas", .obj [("A", merger "B"), ("B", merger "A")])])]

/-- All parts in the document refer to named schemas. -/
theorem knot_nests_nothing {node inner : Json} (hnode : knot.Within node) :
    ¬Nests ⟨knot⟩ node inner := by
  rintro ⟨part, ⟨parts, hparts, hpart⟩, hplain, -⟩
  have hall := hnode _ (Json.hereditary_everywhere fun v =>
    ((v.get? "allOf").bind Json.asArray?).all fun parts => parts.all fun part =>
      ((Document.reference? part).bind Pointer.schemaName?).isSome) (by decide +kernel)
  have hrefers := Json.check_of_everywhere hall
  rw [Schema.get?_allOf_of_classify hparts] at hrefers
  have hsome := List.all_eq_true.1 hrefers part hpart
  obtain ⟨name, hname⟩ := Option.isSome_iff_exists.1 hsome
  obtain ⟨pointer, hpointer, hnames⟩ := Option.bind_eq_some_iff.1 hname
  exact hplain _ (.here hpointer hnames)

end OpenApiServer
