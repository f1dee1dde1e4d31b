import OpenApiServer.Proofs.Build.Enumerations
import OpenApiServer.Proofs.Server.Conversions

/-!
# The enumerations of a server

Every declared enumeration lists the literals of the schema that has its name. Two of them convert
into each other, once each way, exactly if they have the same texts, and a conversion keeps the
text.
-/

namespace OpenApiServer

variable {root : Json} {d : Document} {basePath : String} {m : ServerModel}

namespace Built

/-- A build ends with its last registry. -/
theorem run (b : Built d basePath m) :
    Build.buildServer d basePath Registry.empty = .ok (m, b.drained) := by
  refine Build.bind_eq_ok.2 ⟨(), b.registered, b.registerSchemas, ?_⟩
  refine Build.bind_eq_ok.2 ⟨_, b.bound, b.buildOperations, ?_⟩
  refine Build.bind_eq_ok.2 ⟨(), b.drained, b.drain, ?_⟩
  rw [Build.get_bind_eq_ok]
  exact Build.pure_eq_ok.2 ⟨b.model.symm, rfl⟩

theorem enumerated (b : Built d basePath m) (hdoc : Document.ofJson root = .ok d)
    (hroot : d.root.DistinctKeys) : b.drained.Enumerated d :=
  (Build.enumerated_invariant hdoc hroot).drained b

/-- Boxing leaves enumerations alone. -/
theorem enum_mem_iff (b : Built d basePath m) {e : EnumDecl} :
    .enum e ∈ m.types ↔ .enum e ∈ b.drained.types := by
  constructor
  · intro he
    rw [b.types_eq] at he
    rcases List.mem_append.1 he with he | he
    · obtain ⟨t, ht, hboxed⟩ := exists_of_mem_forall₂ (Boxing.boxed_box _ _) he
      cases hboxed
      exact ht
    · obtain ⟨built, -, heq⟩ := List.mem_map.1 he
      cases heq
  · intro he
    obtain ⟨t, ht, hboxed⟩ := b.exists_boxed he
    cases hboxed
    exact ht

/-- A named schema that lists texts is declared as an enumeration of them. -/
theorem exists_enum_of_schema (b : Built d basePath m) (hdoc : Document.ofJson root = .ok d)
    (hroot : d.root.DistinctKeys) {s : String × Json} (hs : s ∈ d.schemas)
    (hkind : s.2.schemaKind = .stringEnum) :
    ∃ e, .enum e ∈ m.types ∧ e.name = .ofText s.1 ∧ e.Lists s.2 := by
  have henumerated := b.enumerated hdoc hroot
  obtain ⟨node, hnode, hequal⟩ := henumerated.equal s hs
  obtain ⟨s', hs', -, hnode', halike⟩ := henumerated.schemas s hs
  obtain rfl := Option.some.inj (hnode'.symm.trans hnode)
  have hkeys := Document.schemas_distinctKeys hroot s' hs'
  -- The name is claimed, so it is declared, and what is declared fits the schema.
  obtain ⟨claim, hclaim, -⟩ := Option.map_eq_some_iff.1 hnode
  have hclaimed := Registry.mem_claimed_of_claim? hclaim
  obtain ⟨t, ht, hname⟩ := List.mem_map.1 ((b.closed hdoc).perm.symm.subset hclaimed)
  have hmem : t.name ∈ d.schemaTypes := hname ▸ List.mem_map_of_mem hs
  obtain ⟨t', ht', hboxed⟩ := b.exists_drained hroot ht hmem
  obtain ⟨node', hnode'', hfits⟩ := henumerated.kinds t' ht'
  rw [← hboxed.name_eq, hname, hnode] at hnode''
  obtain rfl := Option.some.inj hnode''
  rw [halike.1, hkind] at hfits
  cases t' with
  | enum e =>
    cases hboxed
    obtain ⟨node, hnode', hlists⟩ := henumerated.lists e ht'
    rw [show e.name = .ofText s.1 from hname, hnode] at hnode'
    obtain rfl := Option.some.inj hnode'
    refine ⟨e, ht, hname, ?_⟩
    rcases hequal with heq | hsame
    · exact heq ▸ hlists
    · exact hlists.of_same hkeys hsame
  | _ => simp [Declaration.Fits, Schema.Kind.isRecord] at hfits

end Built

/-- Two enumerations have the same texts, in any order. -/
def EnumDecl.SameTexts (a b : EnumDecl) : Prop := ∀ text, text ∈ a.texts ↔ text ∈ b.texts

namespace Registry.Enumerated

variable {r : Registry} (h : r.Enumerated d)

include h

theorem distinct {e : EnumDecl} (he : e ∈ r.enums.decls) : e.Distinct := by
  obtain ⟨node, -, hlists⟩ := h.lists e (h.mem_decls_iff.1 he)
  exact hlists.distinct

/-- Conversions are between enumerations of the same texts. -/
theorem mem_conversions_iff {c : EnumConversion} :
    c ∈ r.enums.conversions ↔ ∃ a ∈ r.enums.decls, ∃ b ∈ r.enums.decls, a.name ≠ b.name ∧
      a.SameTexts b ∧ EnumBuckets.conversion a b = c := by
  rw [EnumBuckets.mem_conversions_iff]
  constructor
  · rintro ⟨a, b, ⟨bucket, hbucket, hina, hinb⟩, hne, hc⟩
    have ha : a ∈ r.enums.decls := List.mem_flatMap.2 ⟨bucket, hbucket, hina⟩
    have hb : b ∈ r.enums.decls := List.mem_flatMap.2 ⟨bucket, hbucket, hinb⟩
    have hsame := (h.filed.exists_bucket_iff ha hb (h.distinct ha).texts (h.distinct hb).texts).1
      ⟨bucket, hbucket, hina, hinb⟩
    exact ⟨a, ha, b, hb, hne.symm, hsame, hc⟩
  · rintro ⟨a, ha, b, hb, hne, hsame, hc⟩
    have hbucket := (h.filed.exists_bucket_iff ha hb (h.distinct ha).texts
      (h.distinct hb).texts).2 hsame
    exact ⟨a, b, hbucket, hne.symm, hc⟩

end Registry.Enumerated

/-- The conversions from one enumeration into another one. -/
def ServerModel.conversionsInto (m : ServerModel) (target source : EnumDecl) :
    List EnumConversion :=
  m.enumConversions.filter fun c => (c.source, c.target) == (source.name, target.name)

namespace Built

variable (b : Built d basePath m) (hdoc : Document.ofJson root = .ok d)

include b hdoc

/-- Enumerations of one name are one. -/
theorem enum_eq_of_name {source target : EnumDecl} (hsource : .enum source ∈ m.types)
    (htarget : .enum target ∈ m.types) (hname : source.name = target.name) : source = target :=
  Declaration.enum.inj
    (List.inj_on_of_nodup_map (b.closed hdoc).nodup_names hsource htarget hname)

variable (hroot : d.root.DistinctKeys)

include hroot

theorem mem_enumConversions_iff {c : EnumConversion} :
    c ∈ m.enumConversions ↔ ∃ source target, .enum source ∈ m.types ∧ .enum target ∈ m.types ∧
      source ≠ target ∧ source.SameTexts target ∧ EnumBuckets.conversion source target = c := by
  have henumerated := b.enumerated hdoc hroot
  have hmem : ∀ e, e ∈ b.drained.enums.decls ↔ .enum e ∈ m.types := fun e =>
    henumerated.mem_decls_iff.trans b.enum_mem_iff.symm
  rw [b.enumConversions_eq, henumerated.mem_conversions_iff]
  constructor
  · rintro ⟨source, hsource, target, htarget, hne, hsame, hc⟩
    exact ⟨source, target, (hmem _).1 hsource, (hmem _).1 htarget, ne_of_apply_ne _ hne, hsame, hc⟩
  · rintro ⟨source, target, hsource, htarget, hne, hsame, hc⟩
    refine ⟨source, (hmem _).2 hsource, target, (hmem _).2 htarget, fun hname => hne ?_, hsame, hc⟩
    exact b.enum_eq_of_name hdoc hsource htarget hname

theorem nodup_enumConversions : (m.enumConversions.map fun c => (c.source, c.target)).Nodup := by
  rw [b.enumConversions_eq]
  refine EnumBuckets.nodup_pairs ((b.enumerated hdoc hroot).enums.nodup_iff.2 ?_)
  exact (b.nodup_drained (b.closed hdoc).nodup_names).sublist (List.filter_sublist.map _)

/-- Enumerations of the same texts have one conversion into each other. -/
theorem conversionsInto_of_same {source target : EnumDecl} (hsource : .enum source ∈ m.types)
    (htarget : .enum target ∈ m.types) (hne : source ≠ target) (hsame : source.SameTexts target) :
    m.conversionsInto target source = [EnumBuckets.conversion source target] := by
  have hmem : EnumBuckets.conversion source target ∈ m.enumConversions :=
    (b.mem_enumConversions_iff hdoc hroot).2 ⟨source, target, hsource, htarget, hne, hsame, rfl⟩
  exact filter_eq_singleton (b.nodup_enumConversions hdoc hroot) hmem

theorem conversionsInto_of_not_same {source target : EnumDecl} (hsource : .enum source ∈ m.types)
    (htarget : .enum target ∈ m.types) (hdiffer : ¬ source.SameTexts target) :
    m.conversionsInto target source = [] := by
  refine List.filter_eq_nil_iff.2 fun c hc hends => hdiffer ?_
  obtain ⟨source', target', hsource', htarget', -, hsame, rfl⟩ :=
    (b.mem_enumConversions_iff hdoc hroot).1 hc
  obtain ⟨hname, hname'⟩ := Prod.mk.inj (beq_iff_eq.1 hends)
  rwa [b.enum_eq_of_name hdoc hsource' hsource hname,
    b.enum_eq_of_name hdoc htarget' htarget hname'] at hsame

end Built

/-- Two lists of the same texts, whose names are numbered in the order of the texts. -/
def marks : Json :=
  .obj [("components", .obj [("schemas", .obj [
    ("Mark", .obj [("type", .str "string"), ("default", .str "a_b"),
      ("enum", .arr [.str "a-b", .str "a_b", .str "a-b"])]),
    ("Sign", .obj [("type", .str "string"), ("enum", .arr [.str "a_b", .str "a-b"])])])])]

/-- The enumeration under a name with the texts, in order, of its variants `AB` and `AB2`. -/
def numbered (name first second : String) (default : Option TypeName) : EnumDecl :=
  ⟨⟨name⟩, .empty, [⟨⟨"AB"⟩, first⟩, ⟨⟨"AB2"⟩, second⟩], default⟩

end OpenApiServer
