import OpenApiServer.Proofs.Build.DistinctFields
import OpenApiServer.Proofs.Build.Enumerations
import OpenApiServer.Proofs.Build.Explained

/-!
# How a registry came about

A declaration registers inline schemas and finds out the fields of described names, step by step, and
does nothing else to claims and kept fields. So kept fields are explained throughout a build, and
every declared type is the result of a run whose findings are still known in the end.
-/

namespace OpenApiServer

namespace Build

variable {d : Document} {r r' : Registry}

/-- The changes to claims and kept fields that a declaration is made of. -/
inductive Unfolds (d : Document) : Registry → Registry → Prop where
  | other {r r' : Registry} (claims : r'.claims = r.claims) (fields : r'.fields = r.fields)
    (pending : r'.pending = r.pending) (merging : r'.merging = r.merging) : Unfolds d r r'
  | registers {r r' : Registry} (registers : r.Registers r') : Unfolds d r r'
  | record {r r' : Registry} {name : TypeName} {node : Json} {fields : List Field}
    (describes : r.Describes d name node)
    (run : recordFields d name node r = .ok (fields, r')) : Unfolds d r r'
  | trans {r s r' : Registry} (first : Unfolds d r s) (later : Unfolds d s r') : Unfolds d r r'

namespace Unfolds

theorem refl (r : Registry) : Unfolds d r r := .other rfl rfl rfl rfl

/-- Described names stay described, and what has been found out stays known and explained. -/
theorem keeps {root : Json} (hdoc : Document.ofJson root = .ok d) (hroot : d.root.DistinctKeys)
    (h : Unfolds d r r') (hkept : r.Kept d) : r'.Kept d ∧ r.Remembers r' ∧
      ((∀ name node, r'.nodeOf? name = some node → node.DistinctKeys) → r.Explained d →
        r'.Explained d) := by
  induction h with
  | @other r r' claims fields pending merging =>
    refine ⟨hkept.of_eq claims fields, ⟨?_, ?_, ?_, merging⟩, fun _ h => h.of_eq claims fields⟩
    · intro name claim hclaim
      rwa [Registry.claim?, claims]
    · intro p hp
      rw [pending] at hp
      exact .inl hp
    · intro name found hfound
      rwa [Registry.fieldsOf?, fields]
  | @registers r r' hregisters =>
    refine ⟨hkept.registers hregisters, hregisters.toRemembers, fun _ h => ?_⟩
    exact h.remembers hregisters.toRemembers hregisters.fields
  | @record r r' name node fields describes run =>
    obtain ⟨hmerges, -⟩ := recordFields_merges hdoc hroot hkept describes run
    refine ⟨hmerges.kept, hmerges.toRemembers, fun hnodes h => ?_⟩
    have hkeys : node.DistinctKeys := by
      rcases describes with hdescribes | ⟨hclaimed, -⟩
      · exact hdescribes.distinctKeys hroot
      · exact hnodes name node (hmerges.nodeOf? hclaimed)
    exact recordFields_explained hdoc hroot hkept h describes hkeys run
  | trans _ _ ih ih' =>
    obtain ⟨hkept', hremembers, hexplains⟩ := ih hkept
    obtain ⟨hkept'', hremembers', hexplains'⟩ := ih' hkept'
    refine ⟨hkept'', hremembers.trans hremembers', fun hnodes h => ?_⟩
    exact hexplains' hnodes (hexplains (fun _ _ h => hnodes _ _ (hremembers'.nodeOf? h)) h)

end Unfolds

/-! ## Declarations -/

theorem recordFieldsOfName?_unfolds {name : TypeName} {found : Option (List Field)}
    (h : recordFieldsOfName? d name r = .ok (found, r')) : Unfolds d r r' := by
  rw [recordFieldsOfName?, get_bind_eq_ok] at h
  cases hnode : r.nodeOf? name with
  | none =>
    rw [hnode] at h
    obtain ⟨-, rfl⟩ := pure_eq_ok.1 h
    exact .refl r
  | some node =>
    rw [hnode] at h
    obtain ⟨schema, hclassify, h⟩ := lift_bind_eq_ok.1 h
    have hfields {fields : List Field} (hschema : schema.kind.isRecord = true)
        (hrun : recordFields d name node r = .ok (fields, r')) : Unfolds d r r' := by
      rw [Schema.kind_of_classify hclassify] at hschema
      exact .record (.inr ⟨hnode, Json.reference?_eq_none_of_isRecord hschema⟩) hrun
    split at h
    · obtain ⟨fields, hrun, -⟩ := map_eq_ok.1 h
      exact hfields rfl hrun
    · obtain ⟨fields, hrun, -⟩ := map_eq_ok.1 h
      exact hfields rfl hrun
    · obtain ⟨-, rfl⟩ := pure_eq_ok.1 h
      exact .refl r

theorem payloadFields_unfolds {variants : List UnionVariant} {found : Option (List (List Field))}
    (h : payloadFields d variants r = .ok (found, r')) : Unfolds d r r' := by
  induction variants generalizing r found with
  | nil =>
    obtain ⟨-, rfl⟩ := pure_eq_ok.1 h
    exact .refl r
  | cons v rest ih =>
    rw [payloadFields] at h
    generalize v.payload = payload at h
    split at h
    next payload =>
      obtain ⟨fields, s, hfields, h⟩ := bind_eq_ok.1 h
      have hfirst := recordFieldsOfName?_unfolds hfields
      cases fields with
      | none =>
        obtain ⟨-, rfl⟩ := pure_eq_ok.1 h
        exact hfirst
      | some fields =>
        obtain ⟨later, s', hlater, h⟩ := bind_eq_ok.1 h
        obtain ⟨-, rfl⟩ := pure_eq_ok.1 h
        exact hfirst.trans (ih hlater)
    next =>
      obtain ⟨-, rfl⟩ := pure_eq_ok.1 h
      exact .refl r

theorem buildUnion_unfolds {name : TypeName} {node : Json} {arms : List Json} {decl : UnionDecl}
    (h : buildUnion d name node arms r = .ok (decl, r')) : Unfolds d r r' := by
  obtain ⟨draft, s, hdraft, h⟩ := bind_eq_ok.1 h
  have hregisters := addArms_registering name ⟨none, []⟩ 0 arms hdraft
  cases hlayout : draft.layout with
  | none =>
    rw [hlayout] at h
    exact absurd h fail_ne_ok
  | some layout =>
    rw [hlayout] at h
    obtain ⟨shared, s', hshared, h⟩ := bind_eq_ok.1 h
    obtain ⟨-, rfl⟩ := pure_eq_ok.1 h
    obtain ⟨found, s'', hfound, hshared⟩ := bind_eq_ok.1 hshared
    obtain ⟨-, rfl⟩ := pure_eq_ok.1 hshared
    exact .trans (.registers hregisters) (payloadFields_unfolds hfound)

theorem recordConversion_unfolds {name : TypeName} {fields : List Field}
    {source : TypeName × Json} (hsource : Describes d source.1 source.2)
    (h : recordConversion d name fields source r = .ok ((), r')) : Unfolds d r r' := by
  rw [recordConversion, get_bind_eq_ok] at h
  dsimp only at h
  split at h
  next =>
    obtain ⟨found, s, hfound, h⟩ := bind_eq_ok.1 h
    obtain rfl := modify_eq_ok.1 h
    exact .trans (.record (.inl hsource) hfound) (.other rfl rfl rfl rfl)
  next =>
    obtain ⟨-, rfl⟩ := pure_eq_ok.1 h
    exact .refl r

theorem recordAll_unfolds {name : TypeName} {fields : List Field}
    {sources : List (TypeName × Json)} (hsources : ∀ s ∈ sources, Describes d s.1 s.2)
    (h : sources.forM (recordConversion d name fields) r = .ok ((), r')) : Unfolds d r r' := by
  induction sources generalizing r with
  | nil =>
    obtain ⟨-, rfl⟩ := pure_eq_ok.1 h
    exact .refl r
  | cons source rest ih =>
    rw [List.forM] at h
    obtain ⟨⟨⟩, s, hfirst, h⟩ := bind_eq_ok.1 h
    obtain ⟨hsource, hrest⟩ := List.forall_mem_cons.1 hsources
    exact .trans (recordConversion_unfolds hsource hfirst) (ih hrest h)

section Running

variable {root : Json} (hdoc : Document.ofJson root = .ok d)

include hdoc

theorem buildRecord_unfolds {name : TypeName} {node : Json} {decl : RecordDecl}
    (hnode : r.Describes d name node) (h : buildRecord d name node r = .ok (decl, r')) :
    Unfolds d r r' := by
  obtain ⟨fields, s, hfound, h⟩ := bind_eq_ok.1 h
  obtain ⟨schema, -, h⟩ := lift_bind_eq_ok.1 h
  dsimp only at h
  split at h
  next parts =>
    obtain ⟨⟨⟩, s', hconversions, h⟩ := bind_eq_ok.1 h
    obtain ⟨-, rfl⟩ := pure_eq_ok.1 h
    obtain ⟨sources, hsources, hconversions⟩ := lift_bind_eq_ok.1 hconversions
    have hdescribes : ∀ s ∈ sources, Describes d s.1 s.2 :=
      forall_sources (fun _ _ => fragmentComponent_describes hdoc) hsources
    exact .trans (.record hnode hfound) (recordAll_unfolds hdescribes hconversions)
  next =>
    obtain ⟨-, rfl⟩ := pure_eq_ok.1 h
    exact .record hnode hfound

theorem declare_unfolds {p : Pending} {t : Declaration} (hnode : r.nodeOf? p.name = some p.node)
    (h : declare d p r = .ok (t, r')) : Unfolds d r r' := by
  cases declaresBy_of_declare h with
  | record kind run =>
    exact buildRecord_unfolds hdoc (.inr ⟨hnode, Json.reference?_eq_none_of_isRecord kind⟩) run
  | enum _ run =>
    obtain ⟨-, rfl⟩ := Prod.mk.inj (modifyGet_eq_ok.1 run)
    exact .other rfl rfl rfl rfl
  | union _ run => exact buildUnion_unfolds run
  | aliased _ _ _ run => exact .registers (typeOf_registering _ _ run)

end Running

/-! ## The whole build -/

/-- The run that declared a type, from a registry in which kept fields are explained. -/
structure DeclaredBy (d : Document) (r : Registry) (t : Declaration) (node : Json)
    (before after : Registry) : Prop where
  kept : before.Kept d
  explained : before.Explained d
  claimed : before.nodeOf? t.name = some node
  run : declare d ⟨t.name, node⟩ before = .ok (t, after)
  remembers : after.Remembers r
  conversions : after.conversions ⊆ r.conversions

theorem DeclaredBy.mono {t : Declaration} {node : Json} {before after : Registry}
    (h : DeclaredBy d r t node before after) (hremembers : r.Remembers r')
    (hconversions : r.conversions ⊆ r'.conversions) : DeclaredBy d r' t node before after where
  kept := h.kept
  explained := h.explained
  claimed := h.claimed
  run := h.run
  remembers := h.remembers.trans hremembers
  conversions := List.Subset.trans h.conversions hconversions

/-- What is known of how a registry came about. -/
structure Recounted (d : Document) (r : Registry) : Prop where
  explained : r.Explained d
  declared : ∀ t ∈ r.types, ∃ node before after, DeclaredBy d r t node before after

theorem Recounted.remembers (h : Recounted d r) (hexplained : r'.Explained d)
    (hremembers : r.Remembers r') (htypes : r'.types = r.types)
    (hconversions : r.conversions ⊆ r'.conversions) : Recounted d r' where
  explained := hexplained
  declared t ht := by
    rw [htypes] at ht
    obtain ⟨node, before, after, hdeclared⟩ := h.declared t ht
    exact ⟨node, before, after, hdeclared.mono hremembers hconversions⟩

theorem recounted_accompanies {root : Json} (hdoc : Document.ofJson root = .ok d)
    (hroot : d.root.DistinctKeys) :
    Accompanies d (fun r => r.Enumerated d ∧ r.Holds Json.DistinctKeys DistinctFields)
      (Recounted d) where
  registered r hrun _ := by
    obtain ⟨hregisters, -⟩ := registerAll_equal hrun
    refine ⟨fun name fields hkept => ?_, fun t ht => ?_⟩
    · rw [Registry.fieldsOf?, hregisters.fields] at hkept
      cases hkept
    · rw [hregisters.types] at ht
      cases ht
  operation r r' _ _ _ _ _ _ _ h hrun := by
    have hregisters := buildOperation_registers hrun
    have hexplained := h.explained.remembers hregisters.toRemembers hregisters.fields
    exact h.remembers hexplained hregisters.toRemembers hregisters.types
      (hregisters.conversions ▸ List.Subset.refl _)
  taken r _ h :=
    h.remembers (h.explained.of_eq rfl rfl) r.remembers_taken rfl (List.Subset.refl _)
  declared r s p t hknown h hnode hrun := by
    obtain ⟨hrecorded, hholds⟩ := hknown
    have hdeclares := declare_declares hdoc hroot hrecorded.toKept hnode hrun
    obtain ⟨new, hconversions, -⟩ := hdeclares.conversions
    have hsub : r.conversions ⊆ s.conversions := by
      rw [hconversions]
      exact List.subset_append_left ..
    have hnodes : s.Holds Json.DistinctKeys DistinctFields :=
      ((distinct_laws hroot).declare_keeps (hholds.nodeOf? hnode) hholds hrun).1
    obtain ⟨-, -, hexplains⟩ :=
      (declare_unfolds hdoc hnode hrun).keeps hdoc hroot hrecorded.toKept
    have hremembers := s.remembers_declared (s.types ++ [t])
    constructor
    · exact (hexplains (fun _ _ => hnodes.nodeOf?) h.explained).of_eq rfl rfl
    · intro t' ht'
      rw [hdeclares.types_eq] at ht'
      rcases List.mem_append.1 ht' with hold | hnew
      · obtain ⟨node, before, after, hdeclared⟩ := h.declared t' hold
        exact ⟨node, before, after, hdeclared.mono (hdeclares.remembers.trans hremembers) hsub⟩
      · obtain rfl := List.mem_singleton.1 hnew
        have hname := hdeclares.name_eq
        refine ⟨p.node, r, s, hrecorded.toKept, h.explained, ?_, ?_, hremembers,
          List.Subset.refl _⟩
        · rwa [hname]
        · rw [hname]
          exact hrun

/-- What is known of how a registry came about, beside what it records. -/
theorem recounted_invariant {root : Json} (hdoc : Document.ofJson root = .ok d)
    (hroot : d.root.DistinctKeys) :
    Invariant d fun r =>
      (r.Enumerated d ∧ r.Holds Json.DistinctKeys DistinctFields) ∧ Recounted d r := by
  have hlaws := (distinct_laws hroot).accompanies (P := (·.Enumerated d))
  exact ((enumerated_invariant hdoc hroot).and hlaws).and (recounted_accompanies hdoc hroot)

end Build

end OpenApiServer
