import OpenApiServer.Declaration.Counts
import OpenApiServer.Proofs.Build.Declarations
import OpenApiServer.Proofs.Build.Fields
import OpenApiServer.Proofs.Build.KeptFields

/-!
# What declaring a schema does to a registry

A queued schema gets a declaration of the kind that its keywords tell: a record with the fields that
are kept for its name, an enumeration that is filed, a union whose variants are named after their
payloads, or an alias. `Declares` has one case for each of them, with what else it changes.

## Records and the conversions into them

The fields of a declared record are the ones that are kept for its name. A merged record gets at
most one conversion from each component that its parts refer to, and never one from itself; a
conversion splits the kept fields of the record by those of the component.
-/

namespace OpenApiServer

namespace Conversion

/-- What a conversion converts from and into. -/
def ends (c : Conversion) : TypeName × TypeName := (c.source, c.target)

end Conversion

namespace Registry

variable {d : Document} {r r' : Registry}

/-- Whether a conversion is between two names with kept fields, and splits them. -/
structure Converts (d : Document) (r : Registry) (c : Conversion) : Prop where
  source_ne : c.source ≠ c.target
  mem : c.source ∈ d.schemaTypes
  splits : ∃ target source, r.fieldsOf? c.target = some target ∧
    r.fieldsOf? c.source = some source ∧ Build.splitFields target source = (c.copied, c.extras)

theorem Remembers.converts (h : r.Remembers r') {c : Conversion} (hc : r.Converts d c) :
    r'.Converts d c where
  source_ne := hc.source_ne
  mem := hc.mem
  splits := by
    obtain ⟨target, source, htarget, hsource, hsplits⟩ := hc.splits
    exact ⟨target, source, h.fieldsOf? htarget, h.fieldsOf? hsource, hsplits⟩

theorem Converts.of_eq {c : Conversion} (hc : r.Converts d c) (hfields : r'.fields = r.fields) :
    r'.Converts d c := by
  refine ⟨hc.source_ne, hc.mem, ?_⟩
  simp only [fieldsOf?, hfields]
  exact hc.splits

/-- What recording conversions into `name` does to a registry. -/
structure Records (d : Document) (name : TypeName) (r r' : Registry) : Prop
    extends r.Remembers r' where
  kept : r'.Kept d
  enums : r'.enums = r.enums
  types : r'.types = r.types
  conversions : ∃ new, r'.conversions = r.conversions ++ new ∧
    ∀ c ∈ new, c.target = name ∧ r'.Converts d c
  nodup : (r.conversions.map (·.ends)).Nodup → (r'.conversions.map (·.ends)).Nodup

variable {name : TypeName}

theorem Merges.records (h : r.Merges d r') : r.Records d name r' where
  toRemembers := h.toRemembers
  kept := h.kept
  enums := h.enums
  types := h.types
  conversions := ⟨[], by rw [h.conversions, List.append_nil], by simp⟩
  nodup hnodup := by rwa [h.conversions]

theorem Records.trans {a b c : Registry} (h : a.Records d name b) (h' : b.Records d name c) :
    a.Records d name c where
  toRemembers := h.toRemembers.trans h'.toRemembers
  kept := h'.kept
  enums := h'.enums.trans h.enums
  types := h'.types.trans h.types
  conversions := by
    obtain ⟨new, hnew, hconverts⟩ := h.conversions
    obtain ⟨new', hnew', hconverts'⟩ := h'.conversions
    refine ⟨new ++ new', by rw [hnew', hnew, List.append_assoc], ?_⟩
    refine List.forall_mem_append.2 ⟨fun conversion hmem => ?_, hconverts'⟩
    exact (hconverts conversion hmem).imp_right h'.toRemembers.converts
  nodup hnodup := h'.nodup (h.nodup hnodup)

end Registry

namespace Build

variable {d : Document} {r r' : Registry}

theorem LeavesOf.isRecord {name : TypeName} {node : Json} {leaves : List Leaf}
    (h : LeavesOf d name node leaves) : node.schemaKind.isRecord = true := by
  cases h with
  | object hobject =>
    rw [← Schema.kind_of_classify hobject]
    rfl
  | allOf hallOf =>
    rw [← Schema.kind_of_classify hallOf]
    rfl

section Recording

variable {root : Json} (hdoc : Document.ofJson root = .ok d) (hroot : d.root.DistinctKeys)

include hdoc hroot

theorem recordFields_merges {name : TypeName} {node : Json} {fields : List Field}
    (hkept : r.Kept d) (hnode : r.Describes d name node)
    (h : recordFields d name node r = .ok (fields, r')) :
    r.Merges d r' ∧ r'.fieldsOf? name = some fields :=
  findsFields hdoc hroot (mergeDepth d) hkept hnode h

theorem recordConversion_records {name : TypeName} {fields : List Field}
    {source : TypeName × Json} (hkept : r.Kept d) (hfields : r.fieldsOf? name = some fields)
    (hsource : Describes d source.1 source.2)
    (h : recordConversion d name fields source r = .ok ((), r')) : r.Records d name r' := by
  rw [recordConversion, get_bind_eq_ok] at h
  dsimp only at h
  split at h
  next hnew =>
    obtain ⟨found, s, hfound, h⟩ := bind_eq_ok.1 h
    obtain rfl := modify_eq_ok.1 h
    obtain ⟨hmerges, hkeeps⟩ := recordFields_merges hdoc hroot hkept (.inl hsource) hfound
    rw [Bool.and_eq_true, bne_iff_ne, Bool.not_eq_true', List.any_eq_false] at hnew
    obtain ⟨hother, hunknown⟩ := hnew
    let split := splitFields fields found
    refine ⟨⟨hmerges.claim?, hmerges.pending, hmerges.fieldsOf?, hmerges.merging⟩,
      hmerges.kept.of_eq rfl rfl, hmerges.enums, hmerges.types,
      ⟨[⟨source.1, name, split.1, split.2⟩], by rw [← hmerges.conversions], fun c hc => ?_⟩,
      fun hnodup => ?_⟩
    · obtain rfl := List.mem_singleton.1 hc
      exact ⟨rfl, hother, hsource.mem_schemaTypes, fields, found, hmerges.fieldsOf? hfields,
        hkeeps, rfl⟩
    · rw [List.map_append, List.map_singleton, hmerges.conversions, ← List.concat_eq_append]
      refine hnodup.concat fun hmem => ?_
      obtain ⟨c, hc, hends⟩ := List.mem_map.1 hmem
      obtain ⟨hcsource, hctarget⟩ := Prod.mk.inj hends
      exact hunknown c hc (by simp [hcsource, hctarget])
  next =>
    obtain ⟨-, rfl⟩ := pure_eq_ok.1 h
    exact (Registry.Merges.refl hkept).records

theorem recordAll_records {name : TypeName} {fields : List Field}
    {sources : List (TypeName × Json)} (hkept : r.Kept d) (hfields : r.fieldsOf? name = some fields)
    (hsources : ∀ s ∈ sources, Describes d s.1 s.2)
    (h : sources.forM (recordConversion d name fields) r = .ok ((), r')) :
    r.Records d name r' := by
  induction sources generalizing r with
  | nil =>
    obtain ⟨-, rfl⟩ := pure_eq_ok.1 h
    exact (Registry.Merges.refl hkept).records
  | cons source rest ih =>
    rw [List.forM] at h
    obtain ⟨⟨⟩, s, hfirst, h⟩ := bind_eq_ok.1 h
    obtain ⟨hsource, hrest⟩ := List.forall_mem_cons.1 hsources
    have hrecords := recordConversion_records hdoc hroot hkept hfields hsource hfirst
    exact hrecords.trans (ih hrecords.kept (hrecords.fieldsOf? hfields) hrest h)

theorem buildRecord_records {name : TypeName} {node : Json} {decl : RecordDecl}
    (hkept : r.Kept d) (hnode : r.Describes d name node)
    (h : buildRecord d name node r = .ok (decl, r')) :
    r.Records d name r' ∧ decl.name = name ∧ r'.fieldsOf? name = some decl.fields := by
  obtain ⟨fields, s, hfound, h⟩ := bind_eq_ok.1 h
  obtain ⟨hmerges, hfields⟩ := recordFields_merges hdoc hroot hkept hnode hfound
  obtain ⟨schema, -, h⟩ := lift_bind_eq_ok.1 h
  dsimp only at h
  split at h
  next parts =>
    obtain ⟨⟨⟩, s', hconversions, h⟩ := bind_eq_ok.1 h
    obtain ⟨rfl, rfl⟩ := pure_eq_ok.1 h
    obtain ⟨sources, hsources, hconversions⟩ := lift_bind_eq_ok.1 hconversions
    have hdescribes : ∀ s ∈ sources, Describes d s.1 s.2 :=
      forall_sources (fun _ _ => fragmentComponent_describes hdoc) hsources
    have hrecords := recordAll_records hdoc hroot hmerges.kept hfields hdescribes hconversions
    exact ⟨hmerges.records.trans hrecords, rfl, hrecords.fieldsOf? hfields⟩
  next =>
    obtain ⟨rfl, rfl⟩ := pure_eq_ok.1 h
    exact ⟨hmerges.records, rfl, hfields⟩

end Recording

end Build

end OpenApiServer

/-! ## Declarations of a kind -/

namespace OpenApiServer

namespace Declaration

/-- Whether a schema of some kind is declared like this. -/
def Fits (kind : Schema.Kind) : Declaration → Prop
  | .record _ => kind.isRecord = true
  | .enum _ => kind = .stringEnum
  | .union _ => kind = .oneOf
  | .alias _ => kind.isRecord = false ∧ kind ≠ .stringEnum
  | .response _ => False

theorem Fits.isRecord_eq {kind : Schema.Kind} {t : Declaration} (h : t.Fits kind) :
    t.isRecord = kind.isRecord := by
  cases t <;> simp_all [Fits, isRecord, Schema.Kind.isRecord]

theorem Fits.isAlias_of_reference {t : Declaration} (h : t.Fits .reference) :
    t.isAlias = true := by
  cases t <;> simp_all [Fits, isAlias, Schema.Kind.isRecord]

end Declaration

/-- Variants are named after their payloads, each by a name of its own. -/
structure VariantsNamed (variants : List UnionVariant) : Prop where
  name : ∀ v ∈ variants, v.name = v.payload.variantName
  nodup : (variants.map (·.name)).Nodup

namespace Build

variable {d : Document} {r r' : Registry}

/-! ## Unions -/

theorem flawed_error_bind_ne_ok {α β : Type} {union : TypeName} {flaw : UnionFlaw}
    {f : α → Build β} {b : β} : (flawed union (.error flaw) >>= f) r ≠ .ok (b, r') :=
  fail_bind_ne_ok

theorem flawed_eq_ok {α : Type} {union : TypeName} {x : Except UnionFlaw α} {a : α}
    (h : flawed union x r = .ok (a, r')) : x = .ok a ∧ r = r' := by
  cases x with
  | ok a' =>
    obtain ⟨rfl, rfl⟩ := pure_eq_ok.1 h
    exact ⟨rfl, rfl⟩
  | error flaw => exact absurd h fail_ne_ok

/-- An arm adds a variant for the type of its payload, under a name that is not taken. -/
theorem exists_variant_of_addArm {union : TypeName} {draft draft' : UnionDraft} {arm : Nat}
    {node : Json} (h : addArm d union draft arm node r = .ok (draft', r')) :
    ∃ tag type, draft'.variants = draft.variants ++ [⟨type.variantName, tag, type⟩] ∧
      type.variantName ∉ draft.variants.map (·.name) := by
  obtain ⟨target, -, h⟩ := lift_bind_eq_ok.1 h
  obtain ⟨schema, -, h⟩ := lift_bind_eq_ok.1 h
  split at h
  next properties required =>
    dsimp only at h
    split at h
    · exact absurd h flawed_error_bind_ne_ok
    · obtain ⟨literals, -, h⟩ := lift_bind_eq_ok.1 h
      obtain ⟨⟨layout, tag, payload⟩, s, -, h⟩ := bind_eq_ok.1 h
      obtain ⟨type, s', -, h⟩ := bind_eq_ok.1 h
      dsimp only at h
      split at h
      · exact absurd h flawed_error_bind_ne_ok
      next hnew =>
        obtain ⟨rfl, -⟩ := pure_eq_ok.1 h
        refine ⟨tag, type, rfl, fun hmem => hnew ?_⟩
        obtain ⟨v, hv, hname⟩ := List.mem_map.1 hmem
        exact List.any_eq_true.2 ⟨v, hv, by simp [hname]⟩
  next => exact absurd h fail_ne_ok

theorem addArm_named {union : TypeName} {draft draft' : UnionDraft} {arm : Nat} {node : Json}
    (hdraft : VariantsNamed draft.variants)
    (h : addArm d union draft arm node r = .ok (draft', r')) : VariantsNamed draft'.variants := by
  obtain ⟨tag, type, hvariants, hnew⟩ := exists_variant_of_addArm h
  rw [hvariants]
  refine ⟨List.forall_mem_append.2 ⟨hdraft.name, by simp⟩, ?_⟩
  rw [List.map_append, List.map_singleton, ← List.concat_eq_append]
  exact hdraft.nodup.concat hnew

theorem addArms_named {union : TypeName} {draft draft' : UnionDraft} {arm : Nat}
    {arms : List Json} (hdraft : VariantsNamed draft.variants)
    (h : addArms d union draft arm arms r = .ok (draft', r')) :
    VariantsNamed draft'.variants := by
  induction arms generalizing r draft arm with
  | nil =>
    obtain ⟨rfl, -⟩ := pure_eq_ok.1 h
    exact hdraft
  | cons node rest ih =>
    obtain ⟨next, s, hnext, h⟩ := bind_eq_ok.1 h
    exact ih (addArm_named hdraft hnext) h

section Running

variable {root : Json} (hdoc : Document.ofJson root = .ok d) (hroot : d.root.DistinctKeys)

include hdoc hroot

theorem recordFieldsOfName?_merges {name : TypeName} {found : Option (List Field)}
    (hkept : r.Kept d) (h : recordFieldsOfName? d name r = .ok (found, r')) : r.Merges d r' := by
  rw [recordFieldsOfName?, get_bind_eq_ok] at h
  cases hnode : r.nodeOf? name with
  | none =>
    rw [hnode] at h
    obtain ⟨-, rfl⟩ := pure_eq_ok.1 h
    exact .refl hkept
  | some node =>
    rw [hnode] at h
    obtain ⟨schema, hclassify, h⟩ := lift_bind_eq_ok.1 h
    have hfields {fields : List Field} (hschema : schema.kind.isRecord = true)
        (hrun : recordFields d name node r = .ok (fields, r')) : r.Merges d r' := by
      rw [Schema.kind_of_classify hclassify] at hschema
      have hplain := Json.reference?_eq_none_of_isRecord hschema
      exact (recordFields_merges hdoc hroot hkept (.inr ⟨hnode, hplain⟩) hrun).1
    split at h
    · obtain ⟨fields, hrun, -⟩ := map_eq_ok.1 h
      exact hfields rfl hrun
    · obtain ⟨fields, hrun, -⟩ := map_eq_ok.1 h
      exact hfields rfl hrun
    · obtain ⟨-, rfl⟩ := pure_eq_ok.1 h
      exact .refl hkept

theorem payloadFields_merges {variants : List UnionVariant}
    {found : Option (List (List Field))} (hkept : r.Kept d)
    (h : payloadFields d variants r = .ok (found, r')) : r.Merges d r' := by
  induction variants generalizing r found with
  | nil =>
    obtain ⟨-, rfl⟩ := pure_eq_ok.1 h
    exact .refl hkept
  | cons v rest ih =>
    rw [payloadFields] at h
    generalize v.payload = payload at h
    split at h
    next payload =>
      obtain ⟨fields, s, hfields, h⟩ := bind_eq_ok.1 h
      have hmerges := recordFieldsOfName?_merges hdoc hroot hkept hfields
      cases fields with
      | none =>
        obtain ⟨-, rfl⟩ := pure_eq_ok.1 h
        exact hmerges
      | some fields =>
        obtain ⟨later, s', hlater, h⟩ := bind_eq_ok.1 h
        obtain ⟨-, rfl⟩ := pure_eq_ok.1 h
        exact hmerges.trans (ih hmerges.kept hlater)
    next =>
      obtain ⟨-, rfl⟩ := pure_eq_ok.1 h
      exact .refl hkept

theorem buildUnion_merges {name : TypeName} {node : Json} {arms : List Json} {decl : UnionDecl}
    (hkept : r.Kept d) (h : buildUnion d name node arms r = .ok (decl, r')) :
    r.Merges d r' ∧ VariantsNamed decl.variants := by
  obtain ⟨draft, s, hdraft, h⟩ := bind_eq_ok.1 h
  have hregisters := addArms_registering name ⟨none, []⟩ 0 arms hdraft
  have hnamed : VariantsNamed draft.variants := addArms_named ⟨by simp, by simp⟩ hdraft
  cases hlayout : draft.layout with
  | none =>
    rw [hlayout] at h
    exact absurd h fail_ne_ok
  | some layout =>
    rw [hlayout] at h
    obtain ⟨shared, s', hshared, h⟩ := bind_eq_ok.1 h
    obtain ⟨rfl, rfl⟩ := pure_eq_ok.1 h
    obtain ⟨found, s', hfound, hshared⟩ := bind_eq_ok.1 hshared
    obtain ⟨-, rfl⟩ := pure_eq_ok.1 hshared
    have hmerges := payloadFields_merges hdoc hroot (hkept.registers hregisters) hfound
    exact ⟨(hregisters.merges hkept).trans hmerges, hnamed⟩

end Running

/-! ## One declaration -/

/-- What the declaration of a queued schema does to a registry. -/
inductive Declares (d : Document) (r : Registry) (p : Pending) : Declaration → Registry → Prop where
  | record {decl : RecordDecl} {r' : Registry} (kind : p.node.schemaKind.isRecord = true)
    (name : decl.name = p.name) (records : r.Records d p.name r')
    (fields : r'.fieldsOf? p.name = some decl.fields) : Declares d r p (.record decl) r'
  | enum {decl : EnumDecl} {key : List String} (kind : p.node.schemaKind = .stringEnum)
    (name : decl.name = p.name) :
    Declares d r p (.enum decl) { r with enums := r.enums.file key decl }
  | union {decl : UnionDecl} {r' : Registry} (kind : p.node.schemaKind = .oneOf)
    (name : decl.name = p.name) (merges : r.Merges d r')
    (variants : VariantsNamed decl.variants) : Declares d r p (.union decl) r'
  | aliased {decl : AliasDecl} {r' : Registry} (kind : p.node.schemaKind.isRecord = false)
    (enum : p.node.schemaKind ≠ .stringEnum) (name : decl.name = p.name)
    (registers : r.Registers r') : Declares d r p (.alias decl) r'

namespace Declares

variable {p : Pending} {t : Declaration}

theorem name_eq (h : Declares d r p t r') : t.name = p.name := by
  cases h <;> assumption

theorem fits (h : Declares d r p t r') : t.Fits p.node.schemaKind := by
  cases h with
  | record kind => exact kind
  | enum kind => exact kind
  | union kind => exact kind
  | aliased kind enum => exact ⟨kind, enum⟩

theorem remembers (h : Declares d r p t r') : r.Remembers r' := by
  cases h with
  | record _ _ records => exact records.toRemembers
  | enum => exact ⟨fun _ _ h => h, fun _ hp => .inl hp, fun _ _ h => h, rfl⟩
  | union _ _ merges => exact merges.toRemembers
  | aliased _ _ _ registers => exact registers.toRemembers

theorem kept (h : Declares d r p t r') (hkept : r.Kept d) : r'.Kept d := by
  cases h with
  | record _ _ records => exact records.kept
  | enum => exact hkept.of_eq rfl rfl
  | union _ _ merges => exact merges.kept
  | aliased _ _ _ registers => exact hkept.registers registers

theorem types_eq (h : Declares d r p t r') : r'.types = r.types := by
  cases h with
  | record _ _ records => exact records.types
  | enum => rfl
  | union _ _ merges => exact merges.types
  | aliased _ _ _ registers => exact registers.types

/-- An enumeration is filed when it is declared, and nothing else is. -/
theorem enums_perm (h : Declares d r p t r') :
    r'.enums.names.Perm (r.enums.names ++ ([t].filter (·.isEnum)).map (·.name)) := by
  cases h with
  | record _ _ records => simp [records.enums, Declaration.isEnum]
  | @enum decl key => exact EnumBuckets.names_file_perm key decl r.enums
  | union _ _ merges => simp [merges.enums, Declaration.isEnum]
  | aliased _ _ _ registers => simp [registers.enums, Declaration.isEnum]

theorem fields_eq {decl : RecordDecl} (h : Declares d r p (.record decl) r') :
    r'.fieldsOf? decl.name = some decl.fields := by
  cases h with
  | record _ name _ fields => rwa [name]

/-- Conversions are recorded into the record that is declared. -/
theorem conversions (h : Declares d r p t r') :
    ∃ new, r'.conversions = r.conversions ++ new ∧
      ∀ c ∈ new, r'.Converts d c ∧ ∃ decl, t = .record decl ∧ decl.name = c.target := by
  cases h with
  | @record decl _ _ name records =>
    obtain ⟨new, hnew, hconverts⟩ := records.conversions
    refine ⟨new, hnew, fun c hc => ⟨(hconverts c hc).2, decl, rfl, ?_⟩⟩
    rw [name, (hconverts c hc).1]
  | enum => exact ⟨[], by simp, by simp⟩
  | union _ _ merges => exact ⟨[], by simp [merges.conversions], by simp⟩
  | aliased _ _ _ registers => exact ⟨[], by simp [registers.conversions], by simp⟩

theorem nodup (h : Declares d r p t r') (hnodup : (r.conversions.map (·.ends)).Nodup) :
    (r'.conversions.map (·.ends)).Nodup := by
  cases h with
  | record _ _ records => exact records.nodup hnodup
  | enum => exact hnodup
  | union _ _ merges => rwa [merges.conversions]
  | aliased _ _ _ registers => rwa [registers.conversions]

end Declares

/-- What is run for the keywords of a queued schema. -/
inductive DeclaresBy (d : Document) (r : Registry) (p : Pending) : Declaration → Registry → Prop where
  | record {decl : RecordDecl} {r' : Registry} (kind : p.node.schemaKind.isRecord = true)
    (run : buildRecord d p.name p.node r = .ok (decl, r')) : DeclaresBy d r p (.record decl) r'
  | enum {members : List String} {default : Option String} {decl : EnumDecl} {r' : Registry}
    (classified : Schema.classify p.name.text p.node = .ok (.stringEnum members default))
    (run : declareEnum p.name (.ofNode p.node) members default r = .ok (decl, r')) :
    DeclaresBy d r p (.enum decl) r'
  | union {arms : List Json} {decl : UnionDecl} {r' : Registry}
    (classified : Schema.classify p.name.text p.node = .ok (.oneOf arms))
    (run : buildUnion d p.name p.node arms r = .ok (decl, r'))
    (several : Schema.nullableArm? arms = none) : DeclaresBy d r p (.union decl) r'
  | aliased {node : Json} {suggested : TypeName} {type : TypeExpr} {decl : AliasDecl}
    {r' : Registry} (kind : p.node.schemaKind.isRecord = false)
    (enum : p.node.schemaKind ≠ .stringEnum) (name : decl.name = p.name)
    (run : typeOf d node suggested r = .ok (type, r')) : DeclaresBy d r p (.alias decl) r'

theorem declaresBy_of_declare {p : Pending} {t : Declaration}
    (h : declare d p r = .ok (t, r')) : DeclaresBy d r p t r' := by
  obtain ⟨schema, hclassify, h⟩ := lift_bind_eq_ok.1 h
  have hkind := Schema.kind_of_classify hclassify
  have halias {node : Json} {suggested : TypeName} {type : TypeExpr} {decl : AliasDecl}
      (hschema : schema.kind.isRecord = false) (henum : schema.kind ≠ .stringEnum)
      (hname : decl.name = p.name) (hrun : typeOf d node suggested r = .ok (type, r')) :
      DeclaresBy d r p (.alias decl) r' := by
    rw [hkind] at hschema henum
    exact .aliased hschema henum hname hrun
  split at h
  next =>
    obtain ⟨decl, hrun, rfl⟩ := map_eq_ok.1 h
    exact .record (hkind ▸ rfl) hrun
  next =>
    obtain ⟨decl, hrun, rfl⟩ := map_eq_ok.1 h
    exact .record (hkind ▸ rfl) hrun
  next =>
    obtain ⟨decl, hrun, rfl⟩ := map_eq_ok.1 h
    exact .enum hclassify hrun
  next arms =>
    cases harm : Schema.nullableArm? arms with
    | some arm =>
      rw [harm] at h
      obtain ⟨type, s, hrun, h⟩ := bind_eq_ok.1 h
      obtain ⟨rfl, rfl⟩ := pure_eq_ok.1 h
      exact halias rfl (by simp [Schema.kind]) rfl hrun
    | none =>
      rw [harm] at h
      obtain ⟨decl, hrun, rfl⟩ := map_eq_ok.1 h
      exact .union hclassify hrun harm
  next =>
    obtain ⟨_, -, h⟩ := lift_bind_eq_ok.1 h
    obtain ⟨type, s, hrun, h⟩ := bind_eq_ok.1 h
    obtain ⟨rfl, rfl⟩ := pure_eq_ok.1 h
    exact halias rfl (by simp [Schema.kind]) rfl hrun
  next =>
    obtain ⟨type, s, hrun, h⟩ := bind_eq_ok.1 h
    obtain ⟨rfl, rfl⟩ := pure_eq_ok.1 h
    exact halias rfl (by simp [Schema.kind]) rfl hrun
  next =>
    obtain ⟨type, s, hrun, h⟩ := bind_eq_ok.1 h
    obtain ⟨rfl, rfl⟩ := pure_eq_ok.1 h
    exact halias rfl (by simp [Schema.kind]) rfl hrun

theorem declare_declares {root : Json} (hdoc : Document.ofJson root = .ok d)
    (hroot : d.root.DistinctKeys) {p : Pending} {t : Declaration} (hkept : r.Kept d)
    (hnode : r.nodeOf? p.name = some p.node) (h : declare d p r = .ok (t, r')) :
    Declares d r p t r' := by
  cases declaresBy_of_declare h with
  | record kind run =>
    have hplain := Json.reference?_eq_none_of_isRecord kind
    obtain ⟨hrecords, hname, hfields⟩ :=
      buildRecord_records hdoc hroot hkept (.inr ⟨hnode, hplain⟩) run
    exact .record kind hname hrecords hfields
  | enum classified run =>
    obtain ⟨rfl, rfl⟩ := Prod.mk.inj (modifyGet_eq_ok.1 run)
    exact .enum (Schema.kind_of_classify classified).symm rfl
  | @union arms decl _ classified run =>
    obtain ⟨hmerges, hvariants⟩ := buildUnion_merges hdoc hroot hkept run
    have hkind := (Schema.kind_of_classify classified).symm
    exact .union hkind (buildUnion_name p.name p.node arms run) hmerges hvariants
  | @aliased node suggested type decl _ kind enum name run =>
    exact .aliased kind enum name (typeOf_registering node suggested run)

end Build

end OpenApiServer
