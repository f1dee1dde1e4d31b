import OpenApiServer.Proofs.Build.History
import OpenApiServer.Proofs.Build.Remerging
import OpenApiServer.Proofs.Build.SharedFields

/-!
# What a registry is informed of is found out again

A registry that has a schema for each name of the document and can explain the fields that it keeps is
informed: whatever a name stands for agrees, and the fields of a record that it keeps are found out
again from any registry below it, for a schema that matches in a reordered document. So are the fields
that the payloads of a union are asked for.
-/

namespace OpenApiServer

namespace Registry

variable {d d' : Document} {R R' : Registry}

/-- Whether each named schema has its name, or an equal one has it. -/
def Covers (d : Document) (R : Registry) : Prop :=
  ∀ s ∈ d.schemas, ∃ node, R.nodeOf? (.ofText s.1) = some node ∧ (node = s.2 ∨ node.same s.2 = true)

namespace Covers

variable (h : R.Covers d)
  (hkeys : ∀ ⦃name node⦄, R.nodeOf? name = some node → node.DistinctKeys)

include h

theorem remembers (hremembers : R.Remembers R') : R'.Covers d := by
  intro s hs
  obtain ⟨node, hnode, hsame⟩ := h s hs
  exact ⟨node, hremembers.nodeOf? hnode, hsame⟩

include hkeys

/-- Whatever schemas have one type name, they lead to nodes that agree. -/
theorem describes_agree (hroot : d.root.DistinctKeys) {name : TypeName} {node node' : Json}
    (hnode : Build.Describes d name node) (hnode' : Build.Describes d name node') :
    node.Agrees node' := by
  obtain ⟨s, hs, rfl, hleads⟩ := hnode
  obtain ⟨s', hs', hname, hleads'⟩ := hnode'
  obtain ⟨claimed, hclaimed, hsame⟩ := h s hs
  obtain ⟨claimed', hclaimed', hsame'⟩ := h s' hs'
  rw [hname, hclaimed] at hclaimed'
  obtain rfl := Option.some.inj hclaimed'
  have hschemas := Document.schemas_distinctKeys hroot
  have hagree : s.2.Agrees s'.2 :=
    (Json.Agrees.symm (hkeys hclaimed) (hschemas s hs) hsame).trans hsame'
  obtain ⟨target, htarget, hresult⟩ :=
    (Document.Agrees.refl hroot).dereference (hschemas s hs) hagree hleads
  obtain rfl := Except.ok.inj (hleads'.symm.trans htarget)
  exact hresult

/-- The schemas that a claimed name stands for agree with the claimed one. -/
theorem agrees_of_describes {name : TypeName} {node node' : Json}
    (hnode : R.nodeOf? name = some node) (hplain : Document.reference? node = none)
    (hnode' : R.Describes d name node') : node.Agrees node' := by
  rcases hnode' with ⟨s, hs, rfl, hleads⟩ | ⟨hclaimed, -⟩
  · obtain ⟨claimed, hclaimed, hsame⟩ := h s hs
    obtain rfl := Option.some.inj (hnode.symm.trans hclaimed)
    have hreference := Document.reference?_agree (hkeys hnode) hsame
    rw [hplain] at hreference
    rw [Document.dereference_eq_self hreference.symm] at hleads
    obtain rfl := Except.ok.inj hleads
    exact hsame
  · obtain rfl := Option.some.inj (hnode.symm.trans hclaimed)
    exact .refl node

end Covers

/-- Whether a registry has a schema of the document for each name and can explain the fields that it
keeps. -/
structure Informed (d : Document) (R : Registry) : Prop extends R.Kept d where
  covers : R.Covers d
  explained : R.Explained d
  holds : R.Holds d.root.Within fun _ => True

namespace Informed

open Build

variable (informed : R.Informed d)

include informed

theorem within ⦃name : TypeName⦄ ⦃node : Json⦄ (hnode : R.nodeOf? name = some node) :
    d.root.Within node :=
  informed.holds.nodeOf? hnode

theorem proper (hroot : d.root.Proper) : R.ProperNodes :=
  fun _ _ hnode => informed.within hnode _ Json.hereditary_proper hroot

theorem keys (hroot : d.root.DistinctKeys) ⦃name : TypeName⦄ ⦃node : Json⦄
    (hnode : R.nodeOf? name = some node) : node.DistinctKeys :=
  informed.within hnode _ Json.hereditary_distinctKeys hroot

/-- An informed registry that is merging nothing is below itself. -/
theorem under (hroot : d.root.Proper) (hmerging : R.merging = []) : R.Under [] R :=
  ⟨fun _ node hnode => ⟨node, hnode, .refl (informed.proper hroot hnode)⟩, hmerging⟩

/-- An informed registry that finds more out stays informed, as long as it claims schemas of the
document. -/
theorem unfolds {root : Json} (hdoc : Document.ofJson root = .ok d) (hroot : d.root.DistinctKeys)
    (h : Unfolds d R R') (hholds : R'.Holds d.root.Within fun _ => True) : R'.Informed d := by
  obtain ⟨hkept, hremembers, hexplains⟩ := h.keeps hdoc hroot informed.toKept
  have hkeys {name : TypeName} {node : Json} (hnode : R'.nodeOf? name = some node) :
      node.DistinctKeys :=
    hholds.nodeOf? hnode _ Json.hereditary_distinctKeys hroot
  refine ⟨hkept, informed.covers.remembers hremembers, ?_, hholds⟩
  exact hexplains (fun _ _ => hkeys) informed.explained

/-- Whatever a name stands for is a schema of the document. -/
theorem described_within {name : TypeName} {node : Json} (hnode : R.Describes d name node) :
    d.root.Within node := by
  rcases hnode with hdescribes | ⟨hclaimed, -⟩
  · exact hdescribes.holds (Json.hereditary_within d.root) (.refl d.root)
  · exact informed.within hclaimed

section Finding

variable (h : Document.Reordered d d')

include h

/-- Whatever a name stands for matches. -/
theorem described_matches {name : TypeName} {node node' : Json} (hnode : R.Describes d name node)
    (hnode' : R.Describes d name node') : node.Matches node' := by
  have hkeys := informed.keys h.proper.keys
  have hproper {node : Json} (hnode : R.Describes d name node) : node.Proper :=
    informed.described_within hnode _ Json.hereditary_proper h.proper
  refine ⟨hproper hnode, hproper hnode', ?_⟩
  rcases hnode with hdescribes | ⟨hclaimed, hplain⟩
  · rcases hnode' with hdescribes' | ⟨hclaimed', hplain'⟩
    · exact informed.covers.describes_agree hkeys h.proper.keys hdescribes hdescribes'
    · have hagree := informed.covers.agrees_of_describes hkeys hclaimed' hplain' (.inl hdescribes)
      exact hagree.symm (hkeys hclaimed') (hdescribes.distinctKeys h.proper.keys)
  · exact informed.covers.agrees_of_describes hkeys hclaimed hplain hnode'

/-- Kept fields are those of some object schemas, and a schema that the name stands for comes down to
these. -/
theorem explained_fields {name : TypeName} {fields : List Field} {node : Json}
    (hfields : R.fieldsOf? name = some fields) (hnode : R.Describes d name node) :
    ∃ origin leaves, R.Describes d name origin ∧ origin.Matches node ∧
      LeavesOf d name origin leaves ∧ Merged d leaves fields ∧
        ∀ leaf ∈ leaves, R.TypesAll d leaf := by
  obtain ⟨origin, leaves, horigin, hleaves, hmerged, htypes⟩ := informed.explained hfields
  have hmatch := informed.described_matches h horigin hnode
  exact ⟨origin, leaves, horigin, hmatch, hleaves, hmerged, htypes⟩

/-- Fields that are kept are found out again. -/
theorem recordFields_succeeds {name : TypeName} {fields : List Field} {node node' : Json}
    (hfields : R.fieldsOf? name = some fields) (hnode : R.Describes d name node)
    (hmatch : node.Matches node') :
    Succeeds (R.Under []) (recordFields d' name node') anyResult := by
  obtain ⟨origin, leaves, horigin, hsame, hleaves, -, htypes⟩ :=
    informed.explained_fields h hfields hnode
  have hkeys := informed.keys h.proper.keys
  have hrecords := (LeavesOf.succeeds h (informed.proper h.proper)
    (fun _ _ _ => informed.covers.describes_agree hkeys h.proper.keys) h.doc
    (informed.described_within horigin) (hsame.trans hmatch) htypes hleaves).1
  rw [recordFields, ← mergeDepth_eq h]
  refine hrecords (by simp) (fun name' hname' hschema reached hreached => ?_) ?_
  · obtain rfl := List.mem_singleton.1 hname'
    exact .single ⟨origin, informed.describes_of_mem hschema horigin, hreached⟩
  · have hwaiting := waiting_le (d := d) ([] ++ [name])
    have hmul := Nat.mul_le_mul_right (d.root.size + 2) hwaiting
    unfold depthFor mergeDepth
    rw [Nat.add_mul d.root.size]
    omega

/-- Fields of a payload are found out again where they have been found out. -/
theorem recordFieldsOfName?_succeeds {v : UnionVariant} {fields : List Field} {name : TypeName}
    (hv : R.RecordPayload v fields) (hname : v.payload = .named name) :
    Succeeds (R.Under []) (recordFieldsOfName? d' name) anyResult := by
  obtain ⟨name', node, hpayload, hnode, hrecord, hfields⟩ := hv
  obtain rfl := TypeExpr.named.inj (hname.symm.trans hpayload)
  have hplain := Json.reference?_eq_none_of_isRecord hrecord
  refine .get_bind fun r hr => ?_
  cases hnode' : r.nodeOf? name with
  | none => exact .pure trivial
  | some node' =>
    obtain ⟨known, hknown, hmatch⟩ := hr.below hnode'
    obtain rfl := Option.some.inj (hnode.symm.trans hknown)
    have hrun : Succeeds (R.Under []) (some <$> recordFields d' name node') anyResult :=
      .map (informed.recordFields_succeeds h hfields (.inr ⟨hnode, hplain⟩) hmatch).any
    obtain ⟨origin, leaves, -, hsame, hleaves, -⟩ :=
      informed.explained_fields h hfields (.inr ⟨hnode, hplain⟩)
    obtain ⟨schema, hclassify⟩ := hleaves.classified
    obtain ⟨schema', hclassify', -⟩ := Schema.classify_matches (hsame.trans hmatch) hclassify
    refine .lift_bind hclassify' ?_
    split
    · exact hrun
    · exact hrun
    · exact .pure trivial

omit informed h in
/-- No fields are found out for another payload. -/
theorem recordFieldsOfName?_nothing {name : TypeName} {node : Json} {schema : Schema}
    (hnode : R.nodeOf? name = some node) (hclassify : Schema.classify name.text node = .ok schema)
    (hother : schema.kind.isRecord = false) :
    Succeeds (R.Under []) (recordFieldsOfName? d' name) (· = none) := by
  refine .get_bind fun r hr => ?_
  cases hnode' : r.nodeOf? name with
  | none => exact .pure rfl
  | some node' =>
    obtain ⟨known, hknown, hmatch⟩ := hr.below hnode'
    obtain rfl := Option.some.inj (hnode.symm.trans hknown)
    obtain ⟨schema', hclassify', hview⟩ := Schema.classify_matches hmatch hclassify
    refine .lift_bind hclassify' ?_
    cases hview with
    | object | allOf => cases hother
    | _ => exact .pure rfl

theorem payloadFields_succeeds {variants : List UnionVariant} (hvisits : R.Visits variants) :
    Succeeds (R.Under []) (payloadFields d' variants) anyResult := by
  induction hvisits with
  | nil => exact .pure trivial
  | @record v rest fields payload _ ih =>
    obtain ⟨name, -, hname, -⟩ := id payload
    rw [payloadFields, hname]
    refine (informed.recordFieldsOfName?_succeeds h payload hname).bind fun found _ => ?_
    cases found with
    | none => exact .pure trivial
    | some fields => exact ih.bind fun _ _ => .pure trivial
  | @other v rest payload =>
    rw [payloadFields]
    cases hname : v.payload with
    | named name =>
      obtain ⟨node, schema, hnode, hclassify, hother⟩ := payload name hname
      refine (recordFieldsOfName?_nothing hnode hclassify hother).bind ?_
      rintro _ rfl
      exact .pure trivial
    | _ => exact .pure trivial

end Finding

end Informed

end Registry

namespace Build

variable {d : Document} {r : Registry} {root : Json}

section Occurring

variable (hdoc : Document.ofJson root = .ok d) (hroot : d.root.DistinctKeys)

include hdoc hroot

/-- Whatever registry a build comes by occurs in it. -/
theorem occurs_invariant : Invariant d (Occurs d) where
  registered _ hrun := .registered hrun
  operation _ _ _ _ _ _ _ he h hrun := .operation he h hrun
  queued _ h := ((recorded_invariant hdoc hroot).occurs h).queued
  taken _ h := .taken h
  declared _ _ _ h hnode hrun := by
    have hrecorded := (recorded_invariant hdoc hroot).occurs h
    exact ⟨.declared h hnode hrun, ((recorded_invariant hdoc hroot).declared hrecorded hnode hrun).2⟩

/-- Between the steps of a build nothing is being merged. -/
theorem idle_accompanies : Accompanies d (·.Recorded d) (·.merging = []) where
  registered _ hrun _ := (registerAll_equal hrun).1.merging
  operation _ _ _ _ _ _ _ _ _ h hrun := (buildOperation_registers hrun).merging.trans h
  taken _ _ h := h
  declared _ _ _ _ hrecorded h hnode hrun :=
    (declare_declares hdoc hroot hrecorded.toKept hnode hrun).remembers.merging.trans h

namespace Occurs

variable (h : Occurs d r)

include h

theorem merging : r.merging = [] :=
  (((recorded_invariant hdoc hroot).and (idle_accompanies hdoc hroot)).occurs h).2

theorem informed : r.Informed d := by
  obtain ⟨⟨henumerated, -⟩, hrecounted⟩ := (recounted_invariant hdoc hroot).occurs h
  have laws := FieldLaws.of_nodes (Json.hereditary_within d.root) (.refl d.root)
  obtain ⟨hrecorded, hholds⟩ := (laws.invariant hdoc hroot).occurs h
  exact ⟨hrecorded.toKept, henumerated.equal, hrecounted.explained, hholds⟩

end Occurs

end Occurring

end Build

end OpenApiServer
