import OpenApiServer.Proofs.Build.Recorded

/-!
# Which conversions are recorded

Declaring a merged record records a conversion from each component that its parts refer to, unless it
is the record itself, and it records no other. So in the end the conversions into a record tell which
components its schema refers to.
-/

namespace OpenApiServer

namespace Build

variable {d : Document} {r r' : Registry}

/-- Whether a node is a merged schema, and its parts refer to some components. -/
def SourcesOf (d : Document) (name : TypeName) (node : Json) (sources : List (TypeName × Json)) :
    Prop :=
  ∃ parts, Schema.classify name.text node = .ok (.allOf parts) ∧
    parts.foldlM (sourcesFrom d name (mergeDepth d)) [] = .ok sources

theorem SourcesOf.unique {name : TypeName} {node : Json} {sources sources' : List (TypeName × Json)}
    (h : SourcesOf d name node sources) (h' : SourcesOf d name node sources') :
    sources = sources' := by
  obtain ⟨parts, hparts, hsources⟩ := h
  obtain ⟨parts', hparts', hsources'⟩ := h'
  obtain rfl := Schema.allOf.inj (Except.ok.inj (hparts.symm.trans hparts'))
  exact Except.ok.inj (hsources.symm.trans hsources')

/-- Whether a run records conversions into a name from some names, each unless it is this name. -/
structure Links (name : TypeName) (sources : List TypeName) (r r' : Registry) : Prop where
  grows : r.conversions ⊆ r'.conversions
  only : ∀ c ∈ r'.conversions, c ∈ r.conversions ∨ c.target = name ∧ c.source ∈ sources
  each : ∀ source ∈ sources, source ≠ name → ∃ c ∈ r'.conversions, c.ends = (source, name)

namespace Links

variable {name : TypeName} {sources : List TypeName}

theorem nothing (h : r'.conversions = r.conversions) : Links name [] r r' :=
  ⟨h ▸ List.Subset.refl _, fun _ hc => .inl (h ▸ hc), by simp⟩

theorem cons {source : TypeName} {s : Registry} (hfirst : Links name [source] r s)
    (hrest : Links name sources s r') : Links name (source :: sources) r r' where
  grows := List.Subset.trans hfirst.grows hrest.grows
  only c hc := by
    rcases hrest.only c hc with hold | ⟨htarget, hsource⟩
    · refine (hfirst.only c hold).imp_right fun ⟨htarget, hsource⟩ => ⟨htarget, ?_⟩
      exact List.mem_cons.2 (.inl (List.mem_singleton.1 hsource))
    · exact .inr ⟨htarget, List.mem_cons_of_mem _ hsource⟩
  each := by
    refine List.forall_mem_cons.2 ⟨fun hne => ?_, hrest.each⟩
    obtain ⟨c, hc, hends⟩ := hfirst.each source (List.mem_singleton_self _) hne
    exact ⟨c, hrest.grows hc, hends⟩

end Links

section Recording

variable {root : Json} (hdoc : Document.ofJson root = .ok d) (hroot : d.root.DistinctKeys)

include hdoc hroot

theorem recordConversion_links {name : TypeName} {fields : List Field} {source : TypeName × Json}
    (hkept : r.Kept d) (hsource : Describes d source.1 source.2)
    (h : recordConversion d name fields source r = .ok ((), r')) : Links name [source.1] r r' := by
  rw [recordConversion, get_bind_eq_ok] at h
  dsimp only at h
  split at h
  next hnew =>
    obtain ⟨found, s, hfound, h⟩ := bind_eq_ok.1 h
    obtain rfl := modify_eq_ok.1 h
    obtain ⟨hmerges, -⟩ := recordFields_merges hdoc hroot hkept (.inl hsource) hfound
    refine ⟨?_, fun c hc => ?_, fun name' hname' _ => ?_⟩
    · rw [← hmerges.conversions]
      exact List.subset_append_left ..
    · rcases List.mem_append.1 hc with hold | hlast
      · exact .inl (hmerges.conversions ▸ hold)
      · obtain rfl := List.mem_singleton.1 hlast
        exact .inr ⟨rfl, List.mem_singleton_self _⟩
    · obtain rfl := List.mem_singleton.1 hname'
      exact ⟨_, List.mem_append_right _ (List.mem_singleton_self _), rfl⟩
  next hknown =>
    obtain ⟨-, rfl⟩ := pure_eq_ok.1 h
    refine ⟨List.Subset.refl _, fun c hc => .inl hc, fun name' hname' hne => ?_⟩
    obtain rfl := List.mem_singleton.1 hname'
    rw [bne_iff_ne.2 hne, Bool.true_and, Bool.not_eq_true, Bool.not_eq_false'] at hknown
    obtain ⟨c, hc, hends⟩ := List.any_eq_true.1 hknown
    rw [Bool.and_eq_true, beq_iff_eq, beq_iff_eq] at hends
    exact ⟨c, hc, Prod.ext hends.1 hends.2⟩

theorem recordAll_links {name : TypeName} {fields : List Field} {sources : List (TypeName × Json)}
    (hkept : r.Kept d) (hfields : r.fieldsOf? name = some fields)
    (hsources : ∀ s ∈ sources, Describes d s.1 s.2)
    (h : sources.forM (recordConversion d name fields) r = .ok ((), r')) :
    Links name (sources.map (·.1)) r r' := by
  induction sources generalizing r with
  | nil =>
    obtain ⟨-, rfl⟩ := pure_eq_ok.1 h
    exact .nothing rfl
  | cons source rest ih =>
    rw [List.forM] at h
    obtain ⟨⟨⟩, s, hfirst, h⟩ := bind_eq_ok.1 h
    obtain ⟨hsource, hrest⟩ := List.forall_mem_cons.1 hsources
    have hrecords := recordConversion_records hdoc hroot hkept hfields hsource hfirst
    exact (recordConversion_links hdoc hroot hkept hsource hfirst).cons
      (ih hrecords.kept (hrecords.fieldsOf? hfields) hrest h)

/-- Declaring a record records the conversions from what its parts refer to. -/
theorem buildRecord_links {name : TypeName} {node : Json} {decl : RecordDecl} (hkept : r.Kept d)
    (hnode : r.Describes d name node) (h : buildRecord d name node r = .ok (decl, r')) :
    (∃ sources, SourcesOf d name node sources ∧ Links name (sources.map (·.1)) r r') ∨
      (∀ parts, Schema.classify name.text node ≠ .ok (.allOf parts)) ∧
        r'.conversions = r.conversions := by
  obtain ⟨fields, s, hfound, h⟩ := bind_eq_ok.1 h
  obtain ⟨hmerges, hfields⟩ := recordFields_merges hdoc hroot hkept hnode hfound
  obtain ⟨schema, hclassify, h⟩ := lift_bind_eq_ok.1 h
  dsimp only at h
  split at h
  next parts =>
    obtain ⟨⟨⟩, s', hconversions, h⟩ := bind_eq_ok.1 h
    obtain ⟨rfl, rfl⟩ := pure_eq_ok.1 h
    obtain ⟨sources, hsources, hconversions⟩ := lift_bind_eq_ok.1 hconversions
    have hdescribes : ∀ s ∈ sources, Describes d s.1 s.2 :=
      forall_sources (fun _ _ => fragmentComponent_describes hdoc) hsources
    have hlinks := recordAll_links hdoc hroot hmerges.kept hfields hdescribes hconversions
    refine .inl ⟨sources, ⟨parts, hclassify, hsources⟩, ?_⟩
    refine ⟨hmerges.conversions ▸ hlinks.grows, fun c hc => ?_, hlinks.each⟩
    exact hmerges.conversions ▸ hlinks.only c hc
  next hother =>
    obtain ⟨-, rfl⟩ := pure_eq_ok.1 h
    refine .inr ⟨fun parts hparts => ?_, hmerges.conversions⟩
    exact hother parts (Except.ok.inj (hclassify.symm.trans hparts))

end Recording

end Build

/-- Whether a conversion into a record is recorded from each component that its parts refer to. -/
def Registry.LinksInto (d : Document) (r : Registry) (decl : RecordDecl) : Prop :=
  ∀ node sources, r.nodeOf? decl.name = some node → Build.SourcesOf d decl.name node sources →
    ∀ source ∈ sources.map (·.1), source ≠ decl.name →
      ∃ c ∈ r.conversions, c.ends = (source, decl.name)

/-- Which conversions a registry has recorded: into each declared record from the components that its
parts refer to. -/
structure Registry.Linked (d : Document) (r : Registry) : Prop where
  only : ∀ c ∈ r.conversions, ∃ node sources, r.nodeOf? c.target = some node ∧
    Build.SourcesOf d c.target node sources ∧ c.source ∈ sources.map (·.1)
  each : ∀ decl, .record decl ∈ r.types → r.LinksInto d decl

namespace Registry.Linked

variable {d : Document} {r r' : Registry}

/-- Recording conversions into a name whose schema has these sources keeps to what is known. -/
theorem links (h : r.Linked d) (hremembers : r.Remembers r')
    (hclaims : ∀ t ∈ r.types, ∃ node, r.nodeOf? t.name = some node) (htypes : r'.types = r.types)
    {name : TypeName} {sources : List TypeName} (hlinks : Build.Links name sources r r')
    (hsources : ∀ source ∈ sources, ∃ node found, r'.nodeOf? name = some node ∧
      Build.SourcesOf d name node found ∧ source ∈ found.map (·.1)) : r'.Linked d where
  only c hc := by
    rcases hlinks.only c hc with hold | ⟨rfl, hsource⟩
    · obtain ⟨node, found, hnode, hfound⟩ := h.only c hold
      exact ⟨node, found, hremembers.nodeOf? hnode, hfound⟩
    · exact hsources c.source hsource
  each decl hdecl node found hnode hfound source hsource hne := by
    rw [htypes] at hdecl
    obtain ⟨node', hnode'⟩ := hclaims _ hdecl
    obtain rfl := Option.some.inj (hnode.symm.trans (hremembers.nodeOf? hnode'))
    obtain ⟨c, hc, hends⟩ := h.each decl hdecl node found hnode' hfound source hsource hne
    exact ⟨c, hlinks.grows hc, hends⟩

theorem remembers (h : r.Linked d) (hremembers : r.Remembers r')
    (hclaims : ∀ t ∈ r.types, ∃ node, r.nodeOf? t.name = some node) (htypes : r'.types = r.types)
    (hconversions : r'.conversions = r.conversions) : r'.Linked d := by
  -- Nothing is recorded into any name.
  have hlinks : Build.Links ⟨""⟩ [] r r' := .nothing hconversions
  exact h.links hremembers hclaims htypes hlinks (by simp)

/-- A record is declared once the conversions into it are recorded. -/
theorem concat (h : r.Linked d) {t : Declaration}
    (hlast : ∀ decl, t = .record decl → r.LinksInto d decl) :
    Registry.Linked d { r with types := r.types ++ [t] } where
  only := h.only
  each decl hdecl := by
    rcases List.mem_append.1 hdecl with hold | hnew
    · exact h.each decl hold
    · exact hlast decl (List.mem_singleton.1 hnew).symm

end Registry.Linked

namespace Build

variable {d : Document} {r r' : Registry}

/-- A declaration records the conversions into the record that it declares, and no others. -/
theorem declare_linked {root : Json} (hdoc : Document.ofJson root = .ok d)
    (hroot : d.root.DistinctKeys) {p : Pending} {t : Declaration} (hrecorded : r.Recorded d)
    (hlinked : r.Linked d) (hnode : r.nodeOf? p.name = some p.node)
    (h : declare d p r = .ok (t, r')) : Registry.Linked d { r' with types := r'.types ++ [t] } := by
  have hdeclares := declare_declares hdoc hroot hrecorded.toKept hnode h
  have hremembers := hdeclares.remembers
  have hclaims (t : Declaration) (ht : t ∈ r.types) : ∃ node, r.nodeOf? t.name = some node := by
    obtain ⟨node, hnode, -⟩ := hrecorded.kinds t ht
    exact ⟨node, hnode⟩
  have hbefore (hconversions : r'.conversions = r.conversions) : r'.Linked d :=
    hlinked.remembers hremembers hclaims hdeclares.types_eq hconversions
  cases declaresBy_of_declare h with
  | enum _ run =>
    obtain ⟨-, rfl⟩ := Prod.mk.inj (modifyGet_eq_ok.1 run)
    exact (hbefore rfl).concat (by simp)
  | union _ run =>
    have hmerges := (buildUnion_merges hdoc hroot hrecorded.toKept run).1
    exact (hbefore hmerges.conversions).concat (by simp)
  | aliased _ _ _ run => exact (hbefore (typeOf_registering _ _ run).conversions).concat (by simp)
  | @record decl _ kind run =>
    have hdescribes : r.Describes d p.name p.node :=
      .inr ⟨hnode, Json.reference?_eq_none_of_isRecord kind⟩
    have hname : decl.name = p.name := hdeclares.name_eq
    have hafter := hremembers.nodeOf? hnode
    rcases buildRecord_links hdoc hroot hrecorded.toKept hdescribes run with
      ⟨sources, hsources, hlinks⟩ | ⟨hnone, hconversions⟩
    · have hlinked' := hlinked.links hremembers hclaims hdeclares.types_eq hlinks
        fun source hsource => ⟨p.node, sources, hafter, hsources, hsource⟩
      refine hlinked'.concat ?_
      rintro _ ⟨⟩ node' sources' hnode' hsources'
      rw [hname] at hnode' hsources' ⊢
      obtain rfl := Option.some.inj (hnode'.symm.trans hafter)
      obtain rfl := hsources'.unique hsources
      exact hlinks.each
    · refine (hbefore hconversions).concat ?_
      rintro _ ⟨⟩ node' sources' hnode' hsources'
      rw [hname] at hnode' hsources'
      obtain rfl := Option.some.inj (hnode'.symm.trans hafter)
      obtain ⟨parts, hparts, -⟩ := hsources'
      exact absurd hparts (hnone parts)

theorem linked_accompanies {root : Json} (hdoc : Document.ofJson root = .ok d)
    (hroot : d.root.DistinctKeys) : Accompanies d (·.Recorded d) (·.Linked d) where
  registered r hrun _ := by
    obtain ⟨hregisters, -⟩ :=
      registerAll_schemas hroot (fun _ hs => hs) (fun _ _ hnode => by cases hnode) hrun
    have htypes : r.types = [] := hregisters.types
    have hconversions : r.conversions = [] := hregisters.conversions
    exact ⟨by simp [hconversions], by simp [htypes]⟩
  operation r r' _ _ _ _ _ _ hrecorded h hrun := by
    have hregisters := buildOperation_registers hrun
    refine h.remembers hregisters.toRemembers (fun t ht => ?_) hregisters.types
      hregisters.conversions
    obtain ⟨node, hnode, -⟩ := hrecorded.kinds t ht
    exact ⟨node, hnode⟩
  taken r hrecorded h := by
    refine h.remembers r.remembers_taken (fun t ht => ?_) rfl rfl
    obtain ⟨node, hnode, -⟩ := hrecorded.kinds t ht
    exact ⟨node, hnode⟩
  declared _ _ _ _ hrecorded h hnode hrun := declare_linked hdoc hroot hrecorded h hnode hrun

/-- What is known of recorded conversions holds throughout a build. -/
theorem linked_invariant {root : Json} (hdoc : Document.ofJson root = .ok d)
    (hroot : d.root.DistinctKeys) : Invariant d fun r => r.Recorded d ∧ r.Linked d :=
  (recorded_invariant hdoc hroot).and (linked_accompanies hdoc hroot)

end Build

end OpenApiServer
