import OpenApiServer.Proofs.Build.Informed
import OpenApiServer.Proofs.Build.Linking
import OpenApiServer.Proofs.Build.Rebinding
import OpenApiServer.Proofs.Server.Acyclic

/-!
# Declaring again

What a built document declares, a reordered document can declare at any time, as long as its registry
stays below that of the build: the fields of each record that is merged have been found out there, and
so have the types of all places that are read. What is declared is the same again, but for the fields of
a record.
-/

namespace OpenApiServer

/-- Whether a declaration is made of a schema again: with the same name and, unless it is a record, the
same types. -/
inductive Declaration.Again : Declaration → Declaration → Prop where
  | record {decl decl' : RecordDecl} (name : decl.name = decl'.name) :
    Again (.record decl) (.record decl')
  | enum (decl : EnumDecl) : Again (.enum decl) (.enum decl)
  | union {decl decl' : UnionDecl} (name : decl.name = decl'.name)
    (variants : decl.variants = decl'.variants) : Again (.union decl) (.union decl')
  | aliased {decl decl' : AliasDecl} (name : decl.name = decl'.name)
    (target : decl.target = decl'.target) : Again (.alias decl) (.alias decl')

namespace Build

variable {d d' : Document} {r r' : Registry}

/-- An arm has the wrong properties in whatever order they stand. -/
theorem wrongProperties_eq {properties properties' : List (String × Json)} {required : List String}
    (h : Json.FieldsMatch properties properties') :
    (properties'.length != 2 || properties'.any fun p => !required.contains p.1) =
      (properties.length != 2 || properties.any fun p => !required.contains p.1) := by
  have hany (fields : List (String × Json)) : (fields.any fun p => !required.contains p.1) =
      (fields.map (·.1)).any fun key => !required.contains key := by
    rw [List.any_map]
    rfl
  rw [hany, hany, h.keys.any_eq, h.length_eq]

section Unions

variable (h : Document.Reordered d d') {R : Registry} (hproper : R.ProperNodes)
  {stack : List TypeName}

include h hproper

/-- An arm adds the same variant again. -/
theorem addArm_succeeds {union : TypeName} {draft draft' : UnionDraft} {arm : Nat}
    {node node' : Json} (hrun : addArm d union draft arm node r = .ok (draft', r'))
    (hremembers : r'.Remembers R) (hmatch : node.Matches node') :
    Succeeds (R.Under stack) (addArm d' union draft arm node') (· = draft') := by
  obtain ⟨target, htarget, hrun⟩ := lift_bind_eq_ok.1 hrun
  obtain ⟨schema, hclassify, hrun⟩ := lift_bind_eq_ok.1 hrun
  obtain ⟨target', htarget', htargetMatch⟩ := h.dereference hmatch htarget
  obtain ⟨schema', hclassify', hview⟩ := Schema.classify_matches htargetMatch hclassify
  refine .lift_bind htarget' (.lift_bind hclassify' ?_)
  cases hview with
  | @object properties properties' required hfields =>
    dsimp only at hrun ⊢
    rw [wrongProperties_eq hfields]
    split at hrun
    · exact absurd hrun flawed_error_bind_ne_ok
    next hright =>
      rw [if_neg hright]
      rw [Bool.or_eq_true, not_or, bne_iff_ne, ne_eq, not_not] at hright
      obtain ⟨literals, hliterals, hrun⟩ := lift_bind_eq_ok.1 hrun
      obtain ⟨⟨layout, tag, payload⟩, s, hflawed, hrun⟩ := bind_eq_ok.1 hrun
      obtain ⟨hread, rfl⟩ := flawed_eq_ok hflawed
      obtain ⟨type, s', htype, hrun⟩ := bind_eq_ok.1 hrun
      obtain ⟨literals', payload', hliterals', hread', hpayload⟩ :=
        readArm_matches h hfields hright.1 hliterals hread
      dsimp only at hrun
      split at hrun
      · exact absurd hrun flawed_error_bind_ne_ok
      next hnew =>
        obtain ⟨rfl, rfl⟩ := pure_eq_ok.1 hrun
        refine .lift_bind hliterals' ?_
        rw [hread', flawed, pure_bind]
        refine (typeOf_again h hproper htype hremembers hpayload).bind ?_
        rintro _ rfl
        dsimp only
        rw [if_neg hnew]
        exact .pure rfl
  | _ => exact absurd hrun fail_ne_ok

theorem addArms_succeeds {union : TypeName} {draft draft' : UnionDraft} {arm : Nat}
    {arms arms' : List Json} (hrun : addArms d union draft arm arms r = .ok (draft', r'))
    (hremembers : r'.Remembers R) (hmatch : List.Forall₂ Json.Matches arms arms') :
    Succeeds (R.Under stack) (addArms d' union draft arm arms') (· = draft') := by
  induction hmatch generalizing draft arm r with
  | nil =>
    obtain ⟨rfl, -⟩ := pure_eq_ok.1 hrun
    exact .pure rfl
  | cons hfirst _ ih =>
    obtain ⟨next, s, hnext, hrun⟩ := bind_eq_ok.1 hrun
    have hlater := (addArms_registering union next (arm + 1) _ hrun).toRemembers
    rw [addArms]
    refine (addArm_succeeds h hproper hnext (hlater.trans hremembers) hfirst).bind ?_
    rintro _ rfl
    exact ih hrun

end Unions

end Build

open Build

namespace Built

variable {d d' : Document} {basePath : String} {m : ServerModel} (b : Built d basePath m)

/-- What holds of a document holds of the schemas that are claimed. -/
theorem claimed_holds {root : Json} (hdoc : Document.ofJson root = .ok d)
    (hroot : d.root.DistinctKeys) {N : Json → Prop} (hN : Json.Hereditary N) (hdocument : N d.root)
    {name : TypeName} {node : Json} (hnode : b.drained.nodeOf? name = some node) : N node := by
  have laws := FieldLaws.of_nodes hN hdocument
  exact ((laws.invariant hdoc hroot).drained b).2.nodeOf? hnode

variable (h : Document.Reordered d d')

include b h

theorem informed : b.drained.Informed d :=
  ((occurs_invariant h.doc h.proper.keys).drained b).informed h.doc h.proper.keys

theorem recordConversion_succeeds {name : TypeName} (fields : List Field)
    {source source' : TypeName × Json} (hsource : Describes d source.1 source.2)
    (hkept : source.1 ≠ name → ∃ own, b.drained.fieldsOf? source.1 = some own)
    (hmatch : NamedMatch source source') :
    Succeeds (b.drained.Under []) (recordConversion d' name fields source') anyResult := by
  obtain ⟨name', node'⟩ := source'
  obtain ⟨rfl, hnode⟩ := hmatch
  refine .get_bind fun r _ => ?_
  dsimp only
  split
  next hnew =>
    rw [Bool.and_eq_true, bne_iff_ne] at hnew
    obtain ⟨own, hown⟩ := hkept hnew.1
    refine ((b.informed h).recordFields_succeeds h hown (.inl hsource) hnode).bind fun found _ => ?_
    exact .modify fun _ hr => hr.of_eq rfl rfl
  next => exact .pure trivial

/-- The run that has declared what a schema is declared as in the end. -/
theorem declaredBy {t : Declaration} (ht : t ∈ b.drained.types) {node : Json}
    (hnode : b.drained.nodeOf? t.name = some node) :
    ∃ before after, DeclaredBy d b.drained t node before after := by
  obtain ⟨-, hrecounted⟩ := (recounted_invariant h.doc h.proper.keys).drained b
  obtain ⟨origin, before, after, hdeclared⟩ := hrecounted.declared t ht
  have hdeclares :=
    declare_declares h.doc h.proper.keys hdeclared.kept hdeclared.claimed hdeclared.run
  have horigin := hdeclared.remembers.nodeOf? (hdeclares.remembers.nodeOf? hdeclared.claimed)
  obtain rfl := Option.some.inj (horigin.symm.trans hnode)
  exact ⟨before, after, hdeclared⟩

theorem linked : b.drained.Linked d := ((linked_invariant h.doc h.proper.keys).drained b).2

/-- What the parts of a declared record refer to has kept fields, unless it is the record itself. -/
theorem source_fields {decl : RecordDecl} (hdecl : .record decl ∈ b.drained.types) {node : Json}
    (hnode : b.drained.nodeOf? decl.name = some node) {sources : List (TypeName × Json)}
    (hsources : SourcesOf d decl.name node sources) {source : TypeName × Json}
    (hsource : source ∈ sources) (hne : source.1 ≠ decl.name) :
    ∃ own, b.drained.fieldsOf? source.1 = some own := by
  obtain ⟨c, hc, hends⟩ := (b.linked h).each decl hdecl node sources hnode hsources source.1
    (List.mem_map_of_mem hsource) hne
  obtain ⟨-, own, -, hown, -⟩ := ((b.recorded h.doc h.proper.keys).conversions c hc).1.splits
  exact ⟨own, (Prod.mk.inj hends).1 ▸ hown⟩

/-- A record is declared again, with the conversions into it. -/
theorem buildRecord_succeeds {decl : RecordDecl} (hdecl : .record decl ∈ b.drained.types)
    {node node' : Json} (hnode : b.drained.nodeOf? decl.name = some node)
    (hmatch : node.Matches node') {schema : Schema} (hrecord : schema.kind.isRecord = true)
    (hclassify : Schema.classify decl.name.text node = .ok schema)
    {before after : Registry} (hdescribes : before.Describes d decl.name node)
    (hkept : before.Kept d) (hrun : buildRecord d decl.name node before = .ok (decl, after)) :
    Succeeds (b.drained.Under []) (buildRecord d' decl.name node') fun decl' =>
      (Declaration.record decl).Again (.record decl') := by
  have hrecorded := b.recorded h.doc h.proper.keys
  have hplain : Document.reference? node = none := by
    refine Json.reference?_eq_none_of_isRecord ?_
    rwa [← Schema.kind_of_classify hclassify]
  obtain ⟨schema', hclassify', hview⟩ := Schema.classify_matches hmatch hclassify
  refine ((b.informed h).recordFields_succeeds h (hrecorded.records decl hdecl) (.inr ⟨hnode, hplain⟩)
    hmatch).bind fun fields _ => .lift_bind hclassify' ?_
  cases hview with
  | @allOf parts parts' hparts =>
    have hlinks := buildRecord_links h.doc h.proper.keys hkept hdescribes hrun
    rcases hlinks with ⟨sources, hsources, -⟩ | ⟨hnone, -⟩
    · obtain ⟨own, hown, hrefer⟩ := hsources
      obtain rfl := Schema.allOf.inj (Except.ok.inj (hclassify.symm.trans hown))
      obtain ⟨sources', hrefer', hmatches⟩ := sources_match h hparts hrefer
      rw [mergeDepth_eq h] at hrefer'
      have hdescribed : ∀ s ∈ sources, Describes d s.1 s.2 :=
        forall_sources (fun _ _ => fragmentComponent_describes h.doc) hrefer
      refine Succeeds.bind (p := anyResult) (.lift_bind hrefer' (.forM fun source' hsource' => ?_))
        fun _ _ => .pure (.record rfl)
      obtain ⟨source, hsource, hsame⟩ := exists_of_mem_forall₂ hmatches hsource'
      refine b.recordConversion_succeeds h fields (hdescribed source hsource) (fun hne => ?_) hsame
      exact b.source_fields h hdecl hnode ⟨parts, hclassify, hrefer⟩ hsource hne
    · exact absurd hclassify (hnone parts)
  | object => exact .pure (.record rfl)
  | _ => cases hrecord

theorem visits {u : UnionDecl} (hu : .union u ∈ b.drained.types) : b.drained.Visits u.variants :=
  (((unions_invariant h.doc h.proper.keys).and
    (visits_accompanies h.doc h.proper.keys)).drained b).2 u hu

/-- A union is declared again. -/
theorem buildUnion_succeeds {u : UnionDecl} (hu : .union u ∈ b.drained.types) {node node' : Json}
    {arms arms' : List Json} (hmatch : List.Forall₂ Json.Matches arms arms')
    {before after : Registry} (hkept : before.Kept d) (hremembers : after.Remembers b.drained)
    (hrun : buildUnion d u.name node arms before = .ok (u, after)) :
    Succeeds (b.drained.Under []) (buildUnion d' u.name node' arms') fun u' =>
      (Declaration.union u).Again (.union u') := by
  obtain ⟨draft, s, hdraft, hrun⟩ := bind_eq_ok.1 hrun
  cases hlayout : draft.layout with
  | none =>
    rw [hlayout] at hrun
    exact absurd hrun fail_ne_ok
  | some layout =>
    rw [hlayout] at hrun
    obtain ⟨shared, s', hshared, hrun⟩ := bind_eq_ok.1 hrun
    obtain ⟨hdecl, rfl⟩ := pure_eq_ok.1 hrun
    have hvariants : u.variants = draft.variants := by rw [← hdecl]
    obtain ⟨found, s'', hfound, hshared⟩ := bind_eq_ok.1 hshared
    obtain ⟨-, rfl⟩ := pure_eq_ok.1 hshared
    have hkept' := hkept.registers (addArms_registering u.name ⟨none, []⟩ 0 arms hdraft)
    have hlater := payloadFields_merges h.doc h.proper.keys hkept' hfound
    refine (addArms_succeeds h ((b.informed h).proper h.proper) hdraft (hlater.toRemembers.trans hremembers)
      hmatch).bind ?_
    rintro _ rfl
    rw [hlayout]
    refine Succeeds.bind (p := anyResult) ?_ fun _ _ => .pure (.union rfl hvariants)
    rw [← hvariants]
    exact ((b.informed h).payloadFields_succeeds h (b.visits h hu)).bind fun _ _ => .pure trivial

/-- An alias whose target has been found out is declared again with this target. -/
theorem alias_succeeds {name : TypeName} {docs docs' : Docs} {place place' : Json}
    {suggested : TypeName} {target : TypeExpr → TypeExpr} {t : Declaration} {r r' : Registry}
    (hplace : place.Matches place') (hremembers : r'.Remembers b.drained)
    (hrun : (do return .alias ⟨name, docs, target (← typeOf d place suggested)⟩ : Build Declaration) r =
      .ok (t, r')) :
    Succeeds (b.drained.Under [])
      (do return .alias ⟨name, docs', target (← typeOf d' place' suggested)⟩ : Build Declaration)
      t.Again := by
  obtain ⟨type, s, htyped, hresult⟩ := bind_eq_ok.1 hrun
  obtain ⟨rfl, rfl⟩ := pure_eq_ok.1 hresult
  refine (typeOf_again h ((b.informed h).proper h.proper) htyped hremembers hplace).bind ?_
  rintro _ rfl
  exact .pure (.aliased rfl rfl)

/-- Whatever is declared in the end is declared again for a schema that matches. -/
theorem declare_succeeds {t : Declaration} (ht : t ∈ b.drained.types) {node node' : Json}
    (hnode : b.drained.nodeOf? t.name = some node) (hmatch : node.Matches node') :
    Succeeds (b.drained.Under []) (declare d' ⟨t.name, node'⟩) t.Again := by
  obtain ⟨before, after, hdeclared⟩ := b.declaredBy h ht hnode
  obtain ⟨schema, hclassify, hrun⟩ := lift_bind_eq_ok.1 hdeclared.run
  obtain ⟨schema', hclassify', hview⟩ := Schema.classify_matches hmatch hclassify
  have hdescribes (hrecord : schema.kind.isRecord = true) :
      before.Describes d t.name node := by
    rw [Schema.kind_of_classify hclassify] at hrecord
    exact .inr ⟨hdeclared.claimed, Json.reference?_eq_none_of_isRecord hrecord⟩
  refine .lift_bind hclassify' ?_
  cases hview with
  | object =>
    obtain ⟨decl, hrun, rfl⟩ := map_eq_ok.1 hrun
    exact .map (b.buildRecord_succeeds h ht hnode hmatch rfl hclassify (hdescribes rfl)
      hdeclared.kept hrun)
  | allOf =>
    obtain ⟨decl, hrun, rfl⟩ := map_eq_ok.1 hrun
    exact .map (b.buildRecord_succeeds h ht hnode hmatch rfl hclassify (hdescribes rfl)
      hdeclared.kept hrun)
  | stringEnum members default =>
    obtain ⟨decl, hrun, rfl⟩ := map_eq_ok.1 hrun
    obtain ⟨hdecl, -⟩ := Prod.mk.inj (modifyGet_eq_ok.1 hrun)
    refine .map fun r hr => ⟨_, _, modifyGet_eq_ok.2 rfl, hr.of_eq rfl rfl, ?_⟩
    dsimp only [EnumBuckets.register] at hdecl ⊢
    rw [← Docs.ofNode_eq hmatch, hdecl]
    exact .enum decl
  | @oneOf arms arms' harms =>
    have hother := Schema.nullableArm?_matches harms
    dsimp only at hrun ⊢
    generalize Schema.nullableArm? arms = arm, Schema.nullableArm? arms' = arm' at hother hrun ⊢
    cases hother with
    | none =>
      obtain ⟨u, hrun, rfl⟩ := map_eq_ok.1 hrun
      exact .map (b.buildUnion_succeeds h ht harms hdeclared.kept hdeclared.remembers hrun)
    | some harm => exact b.alias_succeeds h harm hdeclared.remembers hrun
  | reference pointer =>
    obtain ⟨target, htarget, hrun⟩ := lift_bind_eq_ok.1 hrun
    obtain ⟨target', htarget', -⟩ := h.dereference hmatch htarget
    exact .lift_bind htarget' (b.alias_succeeds h hmatch hdeclared.remembers hrun)
  | primitive | array => exact b.alias_succeeds h hmatch hdeclared.remembers hrun

end Built

end OpenApiServer
