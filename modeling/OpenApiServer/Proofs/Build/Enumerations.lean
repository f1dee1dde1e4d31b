import OpenApiServer.Proofs.Build.EnumBuckets
import OpenApiServer.Proofs.Build.Recorded
import OpenApiServer.Proofs.Data.List
import OpenApiServer.Proofs.Name.Stability
import OpenApiServer.Proofs.Schema.Literals

/-!
# Declared enumerations

An enumeration has a variant for each literal of its schema, under names of their own, and the
declared default is the variant of its literal. Throughout a build, the enumerations that are
declared are the filed ones.

## Conversions between enumerations

A conversion into an enumeration that has all texts of its source takes every variant to the one of
the same text, and the conversion back takes that one home.
-/

namespace OpenApiServer

/-- The variant that a conversion takes a variant to. -/
def EnumConversion.image? (c : EnumConversion) (name : TypeName) : Option TypeName :=
  c.variants.lookup name

/-- The names and the texts of the variants do not repeat. -/
structure EnumDecl.Distinct (e : EnumDecl) : Prop where
  texts : e.texts.Nodup
  names : (e.variants.map (·.name)).Nodup

/-- The text of a variant is found with its name. -/
theorem EnumDecl.variantFor?_of_mem {e : EnumDecl} (h : e.texts.Nodup) {v : EnumVariant}
    (hv : v ∈ e.variants) : e.variantFor? v.value = some v.name := by
  have hfind := find?_eq_some_of_unique (p := fun w => w.value == v.value) hv (by simp)
    fun w hw hvalue => List.inj_on_of_nodup_map h hw hv (beq_iff_eq.1 hvalue)
  rw [variantFor?, hfind, Option.map_some]

/-- A conversion takes exactly the variants of an enumeration to variants of another one, each to
one of its text. -/
structure EnumConversion.Carries (c : EnumConversion) (a b : EnumDecl) : Prop where
  source_eq : c.source = a.name
  target_eq : c.target = b.name
  variants_eq : c.variants.map (·.1) = a.variants.map (·.name)
  texts : ∀ v ∈ a.variants, ∃ w ∈ b.variants, w.value = v.value ∧ c.image? v.name = some w.name

namespace EnumBuckets

variable {a b : EnumDecl}

/-- A conversion covers the variants of its source, in their order. -/
theorem conversion_sources (hb : b.texts.Nodup) (hsub : a.texts ⊆ b.texts) :
    (conversion a b).variants.map (·.1) = a.variants.map (·.name) := by
  have hall : ∀ v ∈ a.variants, ∃ name, b.variantFor? v.value = some name := by
    intro v hv
    obtain ⟨w, hw, hvalue⟩ := List.mem_map.1 (hsub (List.mem_map_of_mem hv))
    exact ⟨w.name, hvalue ▸ EnumDecl.variantFor?_of_mem hb hw⟩
  unfold conversion
  dsimp only
  generalize a.variants = variants at hall
  induction variants with
  | nil => rfl
  | cons v rest ih =>
    obtain ⟨⟨name, hname⟩, hrest⟩ := List.forall_mem_cons.1 hall
    rw [List.filterMap_cons, hname, Option.map_some, List.map_cons, List.map_cons, ih hrest]

/-- A conversion keeps the text. -/
theorem exists_image?_conversion (ha : a.Distinct) (hb : b.Distinct) (hsub : a.texts ⊆ b.texts)
    {v : EnumVariant} (hv : v ∈ a.variants) :
    ∃ w ∈ b.variants, w.value = v.value ∧ (conversion a b).image? v.name = some w.name := by
  obtain ⟨w, hw, hvalue⟩ := List.mem_map.1 (hsub (List.mem_map_of_mem hv))
  refine ⟨w, hw, hvalue, lookup_of_mem ?_ (List.mem_filterMap.2 ⟨v, hv, ?_⟩)⟩
  · rw [conversion_sources hb.texts hsub]
    exact ha.names
  · rw [← hvalue, EnumDecl.variantFor?_of_mem hb.texts hw, Option.map_some]

theorem carries_conversion (ha : a.Distinct) (hb : b.Distinct) (hsub : a.texts ⊆ b.texts) :
    (conversion a b).Carries a b :=
  ⟨rfl, rfl, conversion_sources hb.texts hsub, fun _ => exists_image?_conversion ha hb hsub⟩

/-- There and back again. -/
theorem conversion_back (ha : a.Distinct) (hb : b.Distinct)
    (hsame : ∀ text, text ∈ a.texts ↔ text ∈ b.texts) {v : EnumVariant} (hv : v ∈ a.variants) :
    ((conversion a b).image? v.name).bind (conversion b a).image? = some v.name := by
  obtain ⟨w, hw, hvalue, happly⟩ :=
    exists_image?_conversion ha hb (fun text => (hsame text).1) hv
  obtain ⟨v', hv', hvalue', hback⟩ :=
    exists_image?_conversion hb ha (fun text => (hsame text).2) hw
  obtain rfl := List.inj_on_of_nodup_map ha.texts hv' hv (hvalue'.trans hvalue)
  rw [happly, Option.bind_some, hback]

theorem mem_conversions_iff {buckets : EnumBuckets} {c : EnumConversion} :
    c ∈ buckets.conversions ↔ ∃ a b, (∃ bucket ∈ buckets, a ∈ bucket.2 ∧ b ∈ bucket.2) ∧
      b.name ≠ a.name ∧ conversion a b = c := by
  simp only [conversions, siblings, List.mem_flatMap, List.mem_map, List.mem_filter, bne_iff_ne]
  constructor
  · rintro ⟨bucket, hbucket, a, ha, b, ⟨hb, hne⟩, rfl⟩
    exact ⟨a, b, ⟨bucket, hbucket, ha, hb⟩, hne, rfl⟩
  · rintro ⟨a, b, ⟨bucket, hbucket, ha, hb⟩, hne, rfl⟩
    exact ⟨bucket, hbucket, a, ha, b, ⟨hb, hne⟩, rfl⟩

end EnumBuckets

end OpenApiServer

/-! ## Enumerations of a build -/

namespace OpenApiServer

/-- The enumeration is what a schema lists. -/
structure EnumDecl.Lists (e : EnumDecl) (node : Json) : Prop where
  values_eq : node.enumValues = node.literals.map .str
  texts_eq : e.texts = node.literals.eraseDups
  names : (e.variants.map (·.name)).Nodup
  default : ∀ text, node.string "default" = some text →
    ∃ v ∈ e.variants, v.value = text ∧ e.default = some v.name
  noDefault : node.string "default" = none → e.default = none

theorem EnumDecl.Lists.distinct {e : EnumDecl} {node : Json} (h : e.Lists node) : e.Distinct :=
  ⟨h.texts_eq ▸ nodup_eraseDups _, h.names⟩

/-- Equal schemas list the same. -/
theorem EnumDecl.Lists.of_same {e : EnumDecl} {node other : Json} (h : e.Lists node)
    (hkeys : node.DistinctKeys) (hsame : node.same other = true) : e.Lists other := by
  have hliterals := Json.literals_of_same hkeys hsame
  have hvalues := Json.sameItems_enumValues hkeys hsame
  have hdefault := Json.string_of_same hkeys hsame "default"
  rw [h.values_eq, hliterals] at hvalues
  refine ⟨Json.eq_of_sameItems hvalues, hliterals ▸ h.texts_eq, h.names, ?_, ?_⟩
  · rw [← hdefault]
    exact h.default
  · rw [← hdefault]
    exact h.noDefault

namespace EnumBuckets

theorem texts_variantsFrom (used values : List String) :
    (variantsFrom used values).map (·.value) = values := by
  induction values generalizing used with
  | nil => rfl
  | cons value rest ih => rw [variantsFrom, List.map_cons, ih]

/-- Variants get names that are not used yet. -/
theorem names_variantsFrom (used values : List String) :
    ((variantsFrom used values).map (·.name)).Nodup ∧
      ∀ v ∈ variantsFrom used values, v.name.text ∉ used := by
  induction values generalizing used with
  | nil => exact ⟨List.nodup_nil, nofun⟩
  | cons value rest ih =>
    let name := Name.unique (TypeName.ofText value).text used
    obtain ⟨hnodup, hfree⟩ := ih (name :: used)
    rw [variantsFrom, List.map_cons]
    refine ⟨List.nodup_cons.2 ⟨fun hmem => ?_, hnodup⟩, List.forall_mem_cons.2 ⟨?_, ?_⟩⟩
    · obtain ⟨v, hv, heq⟩ := List.mem_map.1 hmem
      exact hfree v hv (heq ▸ List.mem_cons_self ..)
    · exact Name.unique_not_mem _ _
    · exact fun v hv hused => hfree v hv (List.mem_cons_of_mem _ hused)

theorem lists_declare {node : Json} {members : List String} {default : Option String}
    (h : Schema.Enumerates node members default) (name : TypeName) (docs : Docs) :
    (declare name docs members default).Lists node := by
  have htexts : (declare name docs members default).texts = members := texts_variantsFrom [] members
  have hnodup : (declare name docs members default).texts.Nodup := by
    rw [htexts, h.members_eq]
    exact nodup_eraseDups _
  refine ⟨h.values_eq, htexts.trans h.members_eq, (names_variantsFrom [] members).1, ?_, ?_⟩
  · intro text htext
    have hdefault := h.default_eq.symm.trans htext
    have hmem : text ∈ (declare name docs members default).texts := by
      rw [htexts]
      exact h.default_mem text hdefault
    obtain ⟨v, hv, rfl⟩ := List.mem_map.1 hmem
    refine ⟨v, hv, rfl, ?_⟩
    rw [← EnumDecl.variantFor?_of_mem hnodup hv, EnumDecl.variantFor?]
    simp only [declare, hdefault, Option.bind_some]
  · intro hnone
    simp only [declare, h.default_eq.symm.trans hnone, Option.bind_none]

end EnumBuckets

namespace Registry

variable {d : Document} {r r' : Registry}

/-- What a registry knows of its enumerations. -/
structure Enumerated (d : Document) (r : Registry) : Prop extends r.Recorded d where
  equal : ∀ s ∈ d.schemas, ∃ node, r.nodeOf? (.ofText s.1) = some node ∧
    (node = s.2 ∨ node.same s.2 = true)
  lists : ∀ e, .enum e ∈ r.types → ∃ node, r.nodeOf? e.name = some node ∧ e.Lists node
  perm : (r.enums.decls.map .enum).Perm (r.types.filter (·.isEnum))
  filed : r.enums.Filed

namespace Enumerated

theorem mem_decls_iff (h : r.Enumerated d) {e : EnumDecl} :
    e ∈ r.enums.decls ↔ .enum e ∈ r.types := by
  have hmem := h.perm.mem_iff (a := .enum e)
  simpa [Declaration.isEnum] using hmem

/-- Steps that declare nothing keep what is known. -/
theorem of_recorded (h : r.Enumerated d) (hrecorded : r'.Recorded d)
    (hremembers : r.Remembers r') (henums : r'.enums = r.enums) (htypes : r'.types = r.types) :
    r'.Enumerated d where
  toRecorded := hrecorded
  equal s hs := by
    obtain ⟨node, hnode, hsame⟩ := h.equal s hs
    exact ⟨node, hremembers.nodeOf? hnode, hsame⟩
  lists e he := by
    rw [htypes] at he
    obtain ⟨node, hnode, hlists⟩ := h.lists e he
    exact ⟨node, hremembers.nodeOf? hnode, hlists⟩
  perm := by
    rw [henums, htypes]
    exact h.perm
  filed := henums ▸ h.filed

end Enumerated

end Registry

namespace Build

variable {d : Document} {r r' : Registry} {root : Json}

/-- An enumeration lists the literals of its schema, and it is filed under them. -/
theorem declare_enum {p : Pending} {e : EnumDecl} (h : declare d p r = .ok (.enum e, r')) :
    e.name = p.name ∧ e.Lists p.node ∧
      r' = { r with enums := r.enums.file (sortedTexts e.texts) e } := by
  cases declaresBy_of_declare h with
  | enum classified run =>
    obtain ⟨rfl, rfl⟩ := Prod.mk.inj (modifyGet_eq_ok.1 run)
    refine ⟨rfl, EnumBuckets.lists_declare (Schema.enumerates_of_classify classified) _ _, ?_⟩
    rw [EnumDecl.texts, EnumBuckets.declare, EnumBuckets.texts_variantsFrom]

/-- Only an enumeration is filed. -/
theorem Declares.enums_eq {p : Pending} {t : Declaration} (h : Declares d r p t r')
    (ht : t.isEnum = false) : r'.enums = r.enums := by
  cases h with
  | record _ _ records => exact records.enums
  | enum => cases ht
  | union _ _ merges => exact merges.enums
  | aliased _ _ _ registers => exact registers.enums

theorem declareAndKeep_enumerated (hdoc : Document.ofJson root = .ok d)
    (hroot : d.root.DistinctKeys) {p : Pending} (h : r.Enumerated d)
    (hnode : r.nodeOf? p.name = some p.node) (hrun : declareAndKeep d p r = .ok ((), r')) :
    r'.Enumerated d := by
  have hrecorded := ((recorded_invariant hdoc hroot).declared h.toRecorded hnode hrun).1
  obtain ⟨t, s, hdeclare, hrun⟩ := bind_eq_ok.1 hrun
  obtain rfl := modify_eq_ok.1 hrun
  have hdeclares := declare_declares hdoc hroot h.toKept hnode hdeclare
  have hremembers := hdeclares.remembers
  have hlists : ∀ e, .enum e ∈ r.types → ∃ node, s.nodeOf? e.name = some node ∧ e.Lists node := by
    intro e he
    obtain ⟨node, hclaimed, hlists⟩ := h.lists e he
    exact ⟨node, hremembers.nodeOf? hclaimed, hlists⟩
  refine ⟨hrecorded, fun schema hschema => ?_, fun e he => ?_, ?_, ?_⟩
  · obtain ⟨node, hclaimed, hsame⟩ := h.equal schema hschema
    exact ⟨node, hremembers.nodeOf? hclaimed, hsame⟩
  · rw [hdeclares.types_eq] at he
    rcases List.mem_append.1 he with hold | hnew
    · exact hlists e hold
    · obtain rfl := List.mem_singleton.1 hnew
      obtain ⟨hname, hown, -⟩ := declare_enum hdeclare
      exact ⟨p.node, hname ▸ hremembers.nodeOf? hnode, hown⟩
  · rw [hdeclares.types_eq, List.filter_append]
    cases t with
    | enum e =>
      obtain ⟨-, -, rfl⟩ := declare_enum hdeclare
      refine ((EnumBuckets.decls_file_perm _ e r.enums).map Declaration.enum).trans ?_
      rw [List.map_append]
      exact h.perm.append_right _
    | _ =>
      dsimp only
      rw [hdeclares.enums_eq rfl]
      simpa [Declaration.isEnum] using h.perm
  · cases t with
    | enum e =>
      obtain ⟨-, -, rfl⟩ := declare_enum hdeclare
      exact h.filed.file e
    | _ => exact hdeclares.enums_eq rfl ▸ h.filed

/-- Every named schema has its name, or an equal one has it. -/
theorem registerAll_equal {schemas : List (String × Json)}
    (h : (schemas.forM fun (name, node) =>
      step (·.register (.ofText name) node (Pointer.schemaRoot ++ name))) r = .ok ((), r')) :
    r.Registers r' ∧ ∀ s ∈ schemas, ∃ node, r'.nodeOf? (.ofText s.1) = some node ∧
      (node = s.2 ∨ node.same s.2 = true) := by
  induction schemas generalizing r with
  | nil =>
    obtain ⟨-, rfl⟩ := pure_eq_ok.1 h
    exact ⟨.refl _, nofun⟩
  | cons schema rest ih =>
    rw [List.forM] at h
    obtain ⟨⟨⟩, s, hfirst, hlater⟩ := bind_eq_ok.1 h
    have hregister := step_eq_ok.1 hfirst
    obtain ⟨hregisters, hrest⟩ := ih hlater
    refine ⟨(Registry.registers_of_register hregister).trans hregisters,
      List.forall_mem_cons.2 ⟨?_, hrest⟩⟩
    rcases Registry.nodeOf?_of_register hregister with ⟨node, hnode, hsame, rfl⟩ | ⟨hnode, -⟩
    · exact ⟨node, hregisters.nodeOf? hnode, .inr hsame⟩
    · exact ⟨schema.2, hregisters.nodeOf? hnode, .inl rfl⟩

theorem registerSchemas_enumerated (hroot : d.root.DistinctKeys)
    (h : registerSchemas d Registry.empty = .ok ((), r)) : r.Enumerated d := by
  obtain ⟨hregisters, hequal⟩ := registerAll_equal h
  have henums : r.enums = [] := hregisters.enums
  have htypes : r.types = [] := hregisters.types
  refine ⟨registerSchemas_recorded hroot h, hequal, by simp [htypes], ?_, ?_⟩
  · simp [henums, htypes, EnumBuckets.decls]
  · rw [henums]
    exact ⟨List.Pairwise.nil, by simp⟩

/-- What a registry knows of its enumerations holds throughout a build. -/
theorem enumerated_invariant (hdoc : Document.ofJson root = .ok d) (hroot : d.root.DistinctKeys) :
    Invariant d (·.Enumerated d) where
  registered _ hrun := registerSchemas_enumerated hroot hrun
  operation _ _ _ _ _ _ _ _ h hrun := by
    have hregisters := buildOperation_registers hrun
    have hrecorded := h.toRecorded.merges (hregisters.merges h.toKept)
    exact h.of_recorded hrecorded hregisters.toRemembers hregisters.enums hregisters.types
  queued _ h := h.queued
  taken r h := by
    have hrecorded := (recorded_invariant hdoc hroot).taken h.toRecorded
    exact ⟨hrecorded, h.equal, h.lists, h.perm, h.filed⟩
  declared _ _ _ h hnode hrun :=
    ⟨declareAndKeep_enumerated hdoc hroot h hnode hrun,
      ((recorded_invariant hdoc hroot).declared h.toRecorded hnode hrun).2⟩

end Build

end OpenApiServer
