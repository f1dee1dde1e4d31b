import Mathlib.Data.List.Pairwise
import OpenApiServer.Proofs.Code.FromImpls
import OpenApiServer.Proofs.Declaration.Aliases
import OpenApiServer.Proofs.Server.Conversions

/-!
# Implementing no conversion twice

No conversion is implemented twice as far as the names of types go: payloads of a union and of a
response are distinct types, siblings and parts come from distinct names, and the targets of the
four kinds of conversions are declarations of different kinds. Two names of one type are a different
matter, and so is a union that carries itself.
-/

namespace OpenApiServer

/-! ## Sources of one declaration -/

theorem VariantsNamed.nodup_payloads {variants : List UnionVariant} (h : VariantsNamed variants) :
    (variants.map (·.payload)).Nodup := by
  have hnames : variants.map (·.name) = (variants.map (·.payload)).map (·.variantName) := by
    rw [List.map_map]
    exact List.map_congr_left h.name
  exact .of_map _ (hnames ▸ h.nodup)

theorem UnionDecl.nodup_sources {u : UnionDecl} (h : VariantsNamed u.variants) :
    (Declaration.union u).sources.Nodup :=
  h.nodup_payloads.sublist (List.filter_sublist.map _)

theorem ResponseDecl.map_shortcuts (r : ResponseDecl) :
    r.shortcuts.map (·.1) = (r.variants.filterMap (·.payloadType?)).filter fun type =>
      (r.variants.filterMap (·.payloadType?)).count type = 1 := by
  rw [shortcuts, List.map_filterMap, List.filter_filterMap]
  congr 1
  funext v
  cases v.payloadType? with
  | none => rfl
  | some type =>
    dsimp only
    split_ifs with hone <;> simp [Option.filter, hone]

theorem ResponseDecl.nodup_sources (r : ResponseDecl) :
    (Declaration.response r).sources.Nodup := by
  rw [Declaration.sources, map_shortcuts, List.nodup_iff_count_le_one]
  intro type
  by_cases hmem : type ∈ (r.variants.filterMap (·.payloadType?)).filter fun type =>
      (r.variants.filterMap (·.payloadType?)).count type = 1
  · have hone := (List.mem_filter.1 hmem).2
    exact Nat.le_trans (List.filter_sublist.count_le type) (Nat.le_of_eq (of_decide_eq_true hone))
  · rw [List.count_eq_zero_of_not_mem hmem]
    exact Nat.zero_le 1

/-! ## What a server declares -/

/-- What keeps the conversions of a server apart. -/
structure KeptApart (m : ServerModel) : Prop where
  names : (m.types.map (·.name)).Nodup
  sources : ∀ t ∈ m.types, t.sources.Nodup
  enums : ∀ c ∈ m.enumConversions, c.source ≠ c.target ∧
    ∃ t ∈ m.types, t.name = c.target ∧ t.isEnum = true
  enumEnds : (m.enumConversions.map fun c => (c.source, c.target)).Nodup
  records : ∀ c ∈ m.conversions, c.source ≠ c.target ∧
    ∃ t ∈ m.types, t.name = c.target ∧ t.isRecord = true
  ends : (m.conversions.map (·.ends)).Nodup

variable {root : Json} {d : Document} {basePath : String} {m : ServerModel}

namespace Built

variable (b : Built d basePath m)

theorem exists_declared {t : Declaration} (ht : t ∈ b.drained.types) :
    ∃ t' ∈ m.types, t'.name = t.name ∧ t'.isRecord = t.isRecord ∧ t'.isEnum = t.isEnum := by
  obtain ⟨t', ht', hboxed⟩ := b.exists_boxed ht
  exact ⟨t', ht', hboxed.name_eq, hboxed.isRecord_eq, hboxed.isEnum_eq⟩

/-- Conversions keep their ends from when they are recorded. -/
theorem map_ends (hnames : (b.drained.types.map (·.name)).Nodup) :
    m.conversions.map (·.ends) = b.drained.conversions.map (·.ends) := by
  rw [b.conversions_eq, Conversion.map_ends_settle]
  exact map_eq_of_forall₂ (fun _ _ h => h.ends) (Boxing.refreshed_box hnames _)

variable (hrecorded : b.drained.Recorded d)

include hrecorded

theorem nodup_sources : ∀ t ∈ m.types, t.sources.Nodup := by
  intro t ht
  rw [b.types_eq] at ht
  rcases List.mem_append.1 ht with ht | ht
  · obtain ⟨t₀, ht₀, hboxed⟩ := exists_of_mem_forall₂ (Boxing.boxed_box _ _) ht
    cases hboxed with
    | union decl shared =>
      exact UnionDecl.nodup_sources (u := { decl with sharedFields := shared })
        (hrecorded.unions decl ht₀)
    | response decl => exact decl.nodup_sources
    | _ => exact List.nodup_nil
  · obtain ⟨built, -, rfl⟩ := List.mem_map.1 ht
    exact built.2.nodup_sources

theorem enum_target : ∀ c ∈ m.enumConversions, c.source ≠ c.target ∧
    ∃ t ∈ m.types, t.name = c.target ∧ t.isEnum = true := by
  intro c hc
  rw [b.enumConversions_eq] at hc
  obtain ⟨-, htarget, hne⟩ := EnumBuckets.mem_pairs (List.mem_map_of_mem hc)
  obtain ⟨t, ht, hname⟩ := List.mem_map.1 (hrecorded.enums.subset htarget)
  obtain ⟨hmem, henum⟩ := List.mem_filter.1 ht
  obtain ⟨t', ht', hname', -, henum'⟩ := b.exists_declared hmem
  exact ⟨hne, t', ht', hname'.trans hname, henum'.trans henum⟩

theorem record_target (hnames : (b.drained.types.map (·.name)).Nodup) :
    ∀ c ∈ m.conversions, c.source ≠ c.target ∧
      ∃ t ∈ m.types, t.name = c.target ∧ t.isRecord = true := by
  intro c hc
  have hmem : c.ends ∈ b.drained.conversions.map (·.ends) :=
    b.map_ends hnames ▸ List.mem_map_of_mem hc
  obtain ⟨c₀, hc₀, hsame⟩ := List.mem_map.1 hmem
  obtain ⟨hsource, htarget⟩ := Prod.mk.inj hsame
  obtain ⟨hconverts, decl, hdecl, hname⟩ := hrecorded.conversions c₀ hc₀
  obtain ⟨t, ht, htname, htrecord, -⟩ := b.exists_declared hdecl
  refine ⟨hsource ▸ htarget ▸ hconverts.source_ne, t, ht, ?_, htrecord⟩
  rw [htname, ← htarget]
  exact hname

end Built

theorem keptApart_of_server (hdoc : Document.ofJson root = .ok d) (hroot : d.root.DistinctKeys)
    (hserver : d.server basePath = .ok m) : KeptApart m := by
  obtain ⟨b⟩ := built_of_server hserver
  obtain ⟨claimed, hclosed⟩ := closed_of_server hdoc hserver
  have hnames := b.nodup_drained hclosed.nodup_names
  have hrecorded := b.recorded hdoc hroot
  refine ⟨hclosed.nodup_names, b.nodup_sources hrecorded, b.enum_target hrecorded, ?_,
    b.record_target hrecorded hnames, ?_⟩
  · rw [b.enumConversions_eq]
    refine EnumBuckets.nodup_pairs (hrecorded.enums.symm.nodup ?_)
    exact hnames.sublist (List.filter_sublist.map _)
  · rw [b.map_ends hnames]
    exact hrecorded.nodup

/-! ## Kinds of targets -/

namespace Declaration

variable {t : Declaration}

theorem apart_of_own (h : (t.isUnion || t.isResponse) = true) :
    t.isEnum = false ∧ t.isRecord = false ∧ t.isAlias = false := by
  cases t <;> simp_all [isUnion, isResponse, isEnum, isRecord, isAlias]

theorem apart_of_isEnum (h : t.isEnum = true) : t.isRecord = false ∧ t.isAlias = false := by
  cases t <;> simp_all [isEnum, isRecord, isAlias]

theorem isAlias_eq_false_of_isRecord (h : t.isRecord = true) : t.isAlias = false := by
  cases t <;> simp_all [isRecord, isAlias]

end Declaration

namespace KeptApart

/-- A conversion of a declaration itself is one of a union or of responses. -/
theorem kind_of_mem_fromPairs {t : Declaration} {pair : TypeExpr × TypeName}
    (h : pair ∈ t.fromPairs) : t.name = pair.2 ∧ (t.isUnion || t.isResponse) = true := by
  obtain ⟨source, hsource, rfl⟩ := List.mem_map.1 h
  refine ⟨rfl, ?_⟩
  cases t <;> first | rfl | cases hsource

theorem fromPairs_perm (m : ServerModel) :
    m.fromPairs.Perm (m.types.flatMap (·.fromPairs) ++
      (m.enumConversions.map (·.fromPair) ++
        (m.conversions.filter (·.isPlain)).map (·.fromPair))) := by
  have htypes : (m.types.filter (!·.isResponse) ++ m.types.filter (·.isResponse)).Perm m.types :=
    List.perm_append_comm.trans (List.filter_append_perm (·.isResponse) m.types)
  refine List.Perm.trans ?_ ((htypes.flatMap_right _).append_right _)
  rw [ServerModel.fromPairs, List.flatMap_append, List.append_assoc, List.append_assoc,
    List.append_assoc]
  exact List.Perm.append_left _ (by rw [← List.append_assoc]; exact List.perm_append_comm)

variable (h : KeptApart m)

include h

/-! Each conversion is into a declaration of a kind of its own. -/

omit h in
theorem own_target {pair : TypeExpr × TypeName} (hpair : pair ∈ m.types.flatMap (·.fromPairs)) :
    ∃ t ∈ m.types, t.name = pair.2 ∧ (t.isUnion || t.isResponse) = true := by
  obtain ⟨t, ht, hpair⟩ := List.mem_flatMap.1 hpair
  exact ⟨t, ht, kind_of_mem_fromPairs hpair⟩

theorem enum_target {pair : TypeExpr × TypeName}
    (hpair : pair ∈ m.enumConversions.map (·.fromPair)) :
    ∃ t ∈ m.types, t.name = pair.2 ∧ t.isEnum = true := by
  obtain ⟨c, hc, rfl⟩ := List.mem_map.1 hpair
  exact (h.enums c hc).2

theorem record_target {pair : TypeExpr × TypeName}
    (hpair : pair ∈ (m.conversions.filter (·.isPlain)).map (·.fromPair)) :
    ∃ t ∈ m.types, t.name = pair.2 ∧ t.isRecord = true := by
  obtain ⟨c, hc, rfl⟩ := List.mem_map.1 hpair
  exact (h.records c (List.mem_of_mem_filter hc)).2

/-- A name does not have declarations of two kinds. -/
theorem kinds_apart {p q : Declaration → Bool} {name : TypeName}
    (hapart : ∀ t : Declaration, p t = true → q t = false)
    (hp : ∃ t ∈ m.types, t.name = name ∧ p t = true)
    (hq : ∃ t ∈ m.types, t.name = name ∧ q t = true) : False := by
  obtain ⟨t, ht, hname, hpt⟩ := hp
  obtain ⟨t', ht', hname', hqt⟩ := hq
  obtain rfl := List.inj_on_of_nodup_map h.names ht ht' (hname.trans hname'.symm)
  rw [hapart t hpt] at hqt
  cases hqt

theorem nodup_fromPairs : m.fromPairs.Nodup := by
  refine (fromPairs_perm m).symm.nodup ?_
  have hown : (m.types.flatMap (·.fromPairs)).Nodup := by
    refine List.nodup_flatMap.2 ⟨fun t ht => ?_, ?_⟩
    · exact (h.sources t ht).map fun a b hab => (Prod.mk.inj hab).1
    · refine (List.pairwise_map.1 h.names).imp fun hne pair hpair hpair' => hne ?_
      rw [(kind_of_mem_fromPairs hpair).1, (kind_of_mem_fromPairs hpair').1]
  have henums : (m.enumConversions.map (·.fromPair)).Nodup := by
    refine (h.enumEnds.of_map _).map_on fun c hc c' hc' heq => ?_
    obtain ⟨hsource, htarget⟩ := Prod.mk.inj heq
    exact List.inj_on_of_nodup_map h.enumEnds hc hc'
      (Prod.ext (TypeExpr.named.inj hsource) htarget)
  have hrecords : (m.conversions.map (·.fromPair)).Nodup := by
    refine (h.ends.of_map _).map_on fun c hc c' hc' heq => ?_
    obtain ⟨hsource, htarget⟩ := Prod.mk.inj heq
    exact List.inj_on_of_nodup_map h.ends hc hc' (Prod.ext (TypeExpr.named.inj hsource) htarget)
  have hplain := hrecords.sublist ((List.filter_sublist (p := (·.isPlain))).map _)
  refine List.nodup_append'.2 ⟨hown, List.nodup_append'.2 ⟨henums, hplain, ?_⟩, ?_⟩
  · intro pair henum hrecord
    exact h.kinds_apart (fun t ht => (Declaration.apart_of_isEnum ht).1) (h.enum_target henum)
      (h.record_target hrecord)
  · intro pair hown hother
    rcases List.mem_append.1 hother with henum | hrecord
    · exact h.kinds_apart (fun t ht => (Declaration.apart_of_own ht).1) (own_target hown)
        (h.enum_target henum)
    · exact h.kinds_apart (fun t ht => (Declaration.apart_of_own ht).2.1) (own_target hown)
        (h.record_target hrecord)

/-- No conversion is into an alias. -/
theorem aliasFree_target {pair : TypeExpr × TypeName} (hpair : pair ∈ m.fromPairs) :
    AliasFree m.types (.named pair.2) := by
  rintro name hmem ⟨decl, hdecl, hname⟩
  obtain rfl := List.mem_singleton.1 hmem
  have halias : ∃ t ∈ m.types, t.name = pair.2 ∧ t.isAlias = true := ⟨_, hdecl, hname, rfl⟩
  rcases List.mem_append.1 ((fromPairs_perm m).subset hpair) with hown | hother
  · exact h.kinds_apart (fun t ht => (Declaration.apart_of_own ht).2.2) (own_target hown) halias
  · rcases List.mem_append.1 hother with henum | hrecord
    · exact h.kinds_apart (fun t ht => (Declaration.apart_of_isEnum ht).2) (h.enum_target henum)
        halias
    · exact h.kinds_apart (fun t ht => Declaration.isAlias_eq_false_of_isRecord ht)
        (h.record_target hrecord) halias

/-- What converts into itself is a union or the responses of an operation. -/
theorem kind_of_proper {pair : TypeExpr × TypeName} (hpair : pair ∈ m.fromPairs)
    (hself : pair.1 = .named pair.2) :
    ∃ t ∈ m.types, t.name = pair.2 ∧ (t.isUnion || t.isResponse) = true := by
  rcases List.mem_append.1 ((fromPairs_perm m).subset hpair) with hown | hother
  · exact own_target hown
  · rcases List.mem_append.1 hother with henum | hrecord
    · obtain ⟨c, hc, rfl⟩ := List.mem_map.1 henum
      exact absurd (TypeExpr.named.inj hself) (h.enums c hc).1
    · obtain ⟨c, hc, rfl⟩ := List.mem_map.1 hrecord
      exact absurd (TypeExpr.named.inj hself) (h.records c (List.mem_of_mem_filter hc)).1

end KeptApart

/-! ## Coherence -/

/-- Whether no conversion is implemented twice, and none from a type into itself. -/
structure Coherent (types : List Declaration) (pairs : List (TypeExpr × TypeName)) : Prop where
  distinct : pairs.Pairwise fun p q =>
    ¬ (SameType types p.1 q.1 ∧ SameType types (.named p.2) (.named q.2))
  proper : ∀ p ∈ pairs, ¬ SameType types p.1 (.named p.2)

namespace KeptApart

variable (h : KeptApart m)

include h

/-- Only sources of one target can clash. -/
theorem coherent_iff :
    Coherent m.types m.fromPairs ↔
      (∀ p ∈ m.fromPairs, ∀ q ∈ m.fromPairs, p.2 = q.2 → SameType m.types p.1 q.1 → p = q) ∧
        ∀ p ∈ m.fromPairs, ¬ SameType m.types p.1 (.named p.2) := by
  constructor
  · rintro ⟨hdistinct, hproper⟩
    refine ⟨fun p hp q hq htarget hsource => ?_, hproper⟩
    by_contra hne
    have hsymm : Std.Symm fun p q : TypeExpr × TypeName =>
        ¬ (SameType m.types p.1 q.1 ∧ SameType m.types (.named p.2) (.named q.2)) :=
      ⟨fun p q hpq hqp => hpq ⟨hqp.1.symm, hqp.2.symm⟩⟩
    exact hdistinct.forall hp hq hne ⟨hsource, htarget ▸ .refl _⟩
  · rintro ⟨hdistinct, hproper⟩
    refine ⟨h.nodup_fromPairs.pairwise_of_forall_ne fun p hp q hq hne => ?_, hproper⟩
    rintro ⟨hsource, htarget⟩
    have hname := htarget.eq h.names (h.aliasFree_target hp) (h.aliasFree_target hq)
    exact hne (hdistinct p hp q hq (TypeExpr.named.inj hname) hsource)

theorem coherent_iff_of_aliasFree (hfree : ∀ p ∈ m.fromPairs, AliasFree m.types p.1) :
    Coherent m.types m.fromPairs ↔ ∀ p ∈ m.fromPairs, p.1 ≠ .named p.2 := by
  rw [h.coherent_iff]
  constructor
  · intro hcoherent p hp hself
    exact hcoherent.2 p hp (hself ▸ .refl _)
  · intro hproper
    refine ⟨fun p hp q hq htarget hsource => ?_, fun p hp hself => ?_⟩
    · exact Prod.ext (hsource.eq h.names (hfree p hp) (hfree q hq)) htarget
    · exact hproper p hp (hself.eq h.names (hfree p hp) (h.aliasFree_target hp))

end KeptApart

def toSchema (name : String) : Json := .obj [("$ref", .str ("#/components/schemas/" ++ name))]

def labelled : Json := .obj [("properties", .obj [("label", .obj [("type", .str "string")])])]

def jsonResponse (schema : Json) : Json :=
  .obj [("content", .obj [("application/json", .obj [("schema", schema)])])]

/-- A document with conversions of all four kinds. -/
def choices : Json :=
  .obj [("paths", .obj [("/pets", .obj [("get", .obj [("responses", .obj [
      ("200", jsonResponse (toSchema "Pet")), ("404", jsonResponse (toSchema "Dog"))])])])]),
    ("components", .obj [("schemas", .obj [("Pet", labelled),
      ("Dog", .obj [("allOf", .arr [toSchema "Pet"])]),
      ("Choice", .obj [("oneOf", .arr [taggedArm "pet" (toSchema "Pet"),
        taggedArm "dog" (toSchema "Dog")])]),
      ("Color", .obj [("enum", .arr [.str "red"])]),
      ("Shade", .obj [("enum", .arr [.str "red"])])])])]

/-- A union that carries a record under two names. -/
def twoNames : Json :=
  .obj [("components", .obj [("schemas", .obj [("Pet", labelled), ("Animal", toSchema "Pet"),
    ("Choice", .obj [("oneOf", .arr [taggedArm "pet" (toSchema "Pet"),
      taggedArm "animal" (toSchema "Animal")])])])])]

end OpenApiServer
