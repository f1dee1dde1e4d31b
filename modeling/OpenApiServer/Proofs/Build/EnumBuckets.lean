import Mathlib.Data.List.Nodup
import Mathlib.Data.List.Lex
import Mathlib.Data.String.Basic
import OpenApiServer.Build.EnumBuckets

/-!
# Enumerations that are filed

Filing an enumeration adds its name to those that are filed. Each enumeration of a bucket converts
into every other one, so that no pair converts twice while the filed names are distinct.
-/

namespace OpenApiServer.EnumBuckets

/-- The enumerations that are filed. -/
def decls (buckets : EnumBuckets) : List EnumDecl := buckets.flatMap (·.2)

/-- The names of the enumerations that are filed. -/
def names (buckets : EnumBuckets) : List TypeName :=
  buckets.flatMap fun bucket => bucket.2.map (·.name)

theorem names_eq (buckets : EnumBuckets) : buckets.names = buckets.decls.map (·.name) := by
  rw [names, decls, List.map_flatMap]

theorem decls_file_perm (key : List String) (decl : EnumDecl) (buckets : EnumBuckets) :
    (buckets.file key decl).decls.Perm (buckets.decls ++ [decl]) := by
  induction buckets with
  | nil => exact List.Perm.refl _
  | cons bucket rest ih =>
    obtain ⟨k, decls⟩ := bucket
    rw [file]
    split_ifs
    · simp only [EnumBuckets.decls, List.flatMap_cons, List.append_assoc]
      exact List.perm_append_comm.append_left _
    · exact (List.perm_append_singleton decl _).symm
    · simp only [EnumBuckets.decls, List.flatMap_cons, List.append_assoc] at ih ⊢
      exact ih.append_left _

theorem names_file_perm (key : List String) (decl : EnumDecl) (buckets : EnumBuckets) :
    (buckets.file key decl).names.Perm (buckets.names ++ [decl.name]) := by
  rw [names_eq, names_eq]
  simpa using (decls_file_perm key decl buckets).map (·.name)

/-- The ends of the conversions between the enumerations of one bucket. -/
def siblingPairs (decls : List EnumDecl) : List (TypeName × TypeName) :=
  decls.flatMap fun source =>
    (decls.filter (·.name != source.name)).map fun target => (source.name, target.name)

theorem mem_siblingPairs {decls : List EnumDecl} {pair : TypeName × TypeName}
    (h : pair ∈ siblingPairs decls) :
    pair.1 ∈ decls.map (·.name) ∧ pair.2 ∈ decls.map (·.name) ∧ pair.1 ≠ pair.2 := by
  obtain ⟨source, hsource, h⟩ := List.mem_flatMap.1 h
  obtain ⟨target, htarget, rfl⟩ := List.mem_map.1 h
  obtain ⟨hmem, hne⟩ := List.mem_filter.1 htarget
  exact ⟨List.mem_map_of_mem hsource, List.mem_map_of_mem hmem, (bne_iff_ne.1 hne).symm⟩

theorem nodup_siblingPairs {decls : List EnumDecl} (h : (decls.map (·.name)).Nodup) :
    (siblingPairs decls).Nodup := by
  refine List.nodup_flatMap.2 ⟨fun source _ => ?_, ?_⟩
  · have htargets : ((decls.filter (·.name != source.name)).map (·.name)).Nodup :=
      h.sublist (List.filter_sublist.map _)
    refine List.Nodup.of_map Prod.snd ?_
    rw [List.map_map]
    exact htargets
  · refine (List.pairwise_map.1 h).imp fun hne pair hpair hpair' => hne ?_
    obtain ⟨target, -, rfl⟩ := List.mem_map.1 hpair
    obtain ⟨target', -, heq⟩ := List.mem_map.1 hpair'
    exact (Prod.mk.inj heq).1.symm

/-- The pairs of enumerations that convert into each other. -/
def pairs (buckets : EnumBuckets) : List (TypeName × TypeName) :=
  buckets.conversions.map fun c => (c.source, c.target)

theorem pairs_eq (buckets : EnumBuckets) :
    buckets.pairs = buckets.flatMap fun bucket => siblingPairs bucket.2 := by
  simp only [pairs, EnumBuckets.conversions, siblings, siblingPairs, List.map_flatMap, List.map_map]
  rfl

theorem mem_pairs {buckets : EnumBuckets} {pair : TypeName × TypeName} (h : pair ∈ buckets.pairs) :
    pair.1 ∈ buckets.names ∧ pair.2 ∈ buckets.names ∧ pair.1 ≠ pair.2 := by
  rw [pairs_eq] at h
  obtain ⟨bucket, hbucket, h⟩ := List.mem_flatMap.1 h
  obtain ⟨hsource, htarget, hne⟩ := mem_siblingPairs h
  exact ⟨List.mem_flatMap.2 ⟨bucket, hbucket, hsource⟩,
    List.mem_flatMap.2 ⟨bucket, hbucket, htarget⟩, hne⟩

theorem nodup_pairs {buckets : EnumBuckets} (h : buckets.names.Nodup) : buckets.pairs.Nodup := by
  obtain ⟨heach, hapart⟩ := List.nodup_flatMap.1 h
  rw [pairs_eq]
  refine List.nodup_flatMap.2 ⟨fun bucket hbucket => nodup_siblingPairs (heach bucket hbucket), ?_⟩
  refine hapart.imp fun hdisjoint pair hpair hpair' => ?_
  exact hdisjoint (mem_siblingPairs hpair).1 (mem_siblingPairs hpair').1

end OpenApiServer.EnumBuckets

/-!
## The order of buckets

Buckets stand in the order of their keys, so that there is one bucket for a key, and a key is the
texts of the enumerations below it, sorted. So two enumerations without repeated texts are in one
bucket exactly if they have the same texts.
-/

namespace OpenApiServer

theorem textsBefore_iff_lt (as bs : List String) : textsBefore as bs = true ↔ as < bs := by
  induction as generalizing bs with
  | nil => cases bs <;> simp [textsBefore]
  | cons a as ih =>
    cases bs with
    | nil => simp [textsBefore]
    | cons b bs =>
      rw [textsBefore, List.cons_lt_cons_iff]
      split_ifs with h
      · simp [h, ih]
      · simp [h]

theorem pairwise_sortedTexts (texts : List String) : (sortedTexts texts).Pairwise (· ≤ ·) := by
  have htrans (a b c : String) (hab : decide (a ≤ b) = true) (hbc : decide (b ≤ c) = true) :
      decide (a ≤ c) = true :=
    decide_eq_true (le_trans (of_decide_eq_true hab) (of_decide_eq_true hbc))
  have htotal (a b : String) : (decide (a ≤ b) || decide (b ≤ a)) = true := by
    simpa using le_total a b
  exact (List.pairwise_mergeSort htrans htotal texts).imp of_decide_eq_true

theorem sortedTexts_eq_iff {xs ys : List String} :
    sortedTexts xs = sortedTexts ys ↔ xs.Perm ys := by
  have hx : (sortedTexts xs).Perm xs := List.mergeSort_perm xs _
  have hy : (sortedTexts ys).Perm ys := List.mergeSort_perm ys _
  constructor
  · intro h
    rw [h] at hx
    exact hx.symm.trans hy
  · intro h
    exact ((hx.trans h).trans hy.symm).eq_of_pairwise (fun _ _ _ _ => le_antisymm)
      (pairwise_sortedTexts xs) (pairwise_sortedTexts ys)

namespace EnumDecl

/-- The texts of an enumeration, in the order of its variants. -/
def texts (e : EnumDecl) : List String := e.variants.map (·.value)

end EnumDecl

namespace EnumBuckets

/-- The buckets stand in the order of their keys, each over enumerations with the texts of its
key. -/
structure Filed (buckets : EnumBuckets) : Prop where
  ascending : (buckets.map (·.1)).Pairwise (· < ·)
  keyed : ∀ bucket ∈ buckets, ∀ e ∈ bucket.2, bucket.1 = sortedTexts e.texts

theorem mem_keys_file {key k : List String} {decl : EnumDecl} {buckets : EnumBuckets}
    (h : k ∈ (buckets.file key decl).map (·.1)) : k = key ∨ k ∈ buckets.map (·.1) := by
  induction buckets with
  | nil => exact .inl (List.mem_singleton.1 h)
  | cons bucket rest ih =>
    rw [file] at h
    split_ifs at h
    · exact .inr h
    · exact List.mem_cons.1 h
    · rcases List.mem_cons.1 h with rfl | h
      · exact .inr (List.mem_cons_self ..)
      · exact (ih h).imp_right (List.mem_cons_of_mem _)

theorem ascending_file {key : List String} {decl : EnumDecl} {buckets : EnumBuckets}
    (h : (buckets.map (·.1)).Pairwise (· < ·)) :
    ((buckets.file key decl).map (·.1)).Pairwise (· < ·) := by
  induction buckets with
  | nil => exact List.pairwise_singleton _ _
  | cons bucket rest ih =>
    obtain ⟨k, decls⟩ := bucket
    obtain ⟨hfirst, hrest⟩ := List.pairwise_cons.1 h
    rw [file]
    split_ifs with heq hbefore
    · exact h
    · have hlt := (textsBefore_iff_lt _ _).1 hbefore
      refine List.pairwise_cons.2 ⟨List.forall_mem_cons.2 ⟨hlt, fun k' hk' => ?_⟩, h⟩
      exact lt_trans hlt (hfirst k' hk')
    · have hlt : k < key := by
        rw [textsBefore_iff_lt] at hbefore
        exact lt_of_le_of_ne (not_lt.1 hbefore) heq
      refine List.pairwise_cons.2 ⟨fun k' hk' => ?_, ih hrest⟩
      rcases mem_keys_file hk' with rfl | hold
      · exact hlt
      · exact hfirst k' hold

theorem keyed_file {key : List String} {decl : EnumDecl} {buckets : EnumBuckets}
    (hkey : key = sortedTexts decl.texts)
    (h : ∀ bucket ∈ buckets, ∀ e ∈ bucket.2, bucket.1 = sortedTexts e.texts) :
    ∀ bucket ∈ buckets.file key decl, ∀ e ∈ bucket.2, bucket.1 = sortedTexts e.texts := by
  have hsingle : ∀ e ∈ [decl], key = sortedTexts e.texts := by simpa using hkey
  induction buckets with
  | nil => exact List.forall_mem_singleton.2 hsingle
  | cons bucket rest ih =>
    obtain ⟨hfirst, hrest⟩ := List.forall_mem_cons.1 h
    rw [file]
    split_ifs with heq
    · subst heq
      exact List.forall_mem_cons.2 ⟨List.forall_mem_append.2 ⟨hfirst, hsingle⟩, hrest⟩
    · exact List.forall_mem_cons.2 ⟨hsingle, h⟩
    · exact List.forall_mem_cons.2 ⟨hfirst, ih hrest⟩

theorem Filed.file {buckets : EnumBuckets} (h : buckets.Filed) (decl : EnumDecl) :
    (buckets.file (sortedTexts decl.texts) decl).Filed :=
  ⟨ascending_file h.ascending, keyed_file rfl h.keyed⟩

/-- Two enumerations without repeated texts are in one bucket exactly if they have the same
texts. -/
theorem Filed.exists_bucket_iff {buckets : EnumBuckets} (h : buckets.Filed) {a b : EnumDecl}
    (ha : a ∈ buckets.decls) (hb : b ∈ buckets.decls) (hda : a.texts.Nodup)
    (hdb : b.texts.Nodup) :
    (∃ bucket ∈ buckets, a ∈ bucket.2 ∧ b ∈ bucket.2) ↔
      ∀ text, text ∈ a.texts ↔ text ∈ b.texts := by
  rw [← List.perm_ext_iff_of_nodup hda hdb, ← sortedTexts_eq_iff]
  constructor
  · rintro ⟨bucket, hbucket, hina, hinb⟩
    exact (h.keyed bucket hbucket a hina).symm.trans (h.keyed bucket hbucket b hinb)
  · intro hsame
    obtain ⟨bucket, hbucket, hina⟩ := List.mem_flatMap.1 ha
    obtain ⟨bucket', hbucket', hinb⟩ := List.mem_flatMap.1 hb
    have hkeys : bucket.1 = bucket'.1 :=
      (h.keyed bucket hbucket a hina).trans (hsame.trans (h.keyed bucket' hbucket' b hinb).symm)
    have hnodup : (buckets.map (·.1)).Nodup := h.ascending.imp fun hlt => ne_of_lt hlt
    obtain rfl := List.inj_on_of_nodup_map hnodup hbucket hbucket' hkeys
    exact ⟨bucket, hbucket, hina, hinb⟩

end EnumBuckets

end OpenApiServer
