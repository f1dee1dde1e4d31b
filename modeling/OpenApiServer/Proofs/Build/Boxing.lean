import OpenApiServer.Build.Conversions
import OpenApiServer.Proofs.Build.Boxed
import OpenApiServer.Proofs.Build.EnumBuckets
import OpenApiServer.Proofs.Build.Union

/-!
# What boxing and settling mention

Boxes change no name and mention nothing new. What is brought up to date after them is taken from
the fields of the declared records. Settling a conversion moves fields from one of its lists to the
other, and an enumeration converts only into another one of its bucket.
-/

namespace OpenApiServer

variable {names : List TypeName}

namespace Boxing

theorem mentioned_boxField (edges : Edges) (owner : TypeName) (field : Field) :
    (boxField edges owner field).mentioned = field.mentioned := by
  rw [boxField]
  split
  · exact field.type.names_boxInline
  · rfl

theorem mentioned_boxDeclaration (edges : Edges) (t : Declaration) :
    (boxDeclaration edges t).mentioned = t.mentioned := by
  cases t with
  | record decl =>
    rw [boxDeclaration, Declaration.mentioned, fieldsMentioned, List.flatMap_map]
    simp only [mentioned_boxField]
    rfl
  | _ => rfl

/-! ## Bringing the rest up to date -/

/-- Whether the fields of all records mention names of a list only. -/
def Within (records : List (TypeName × List Field)) (names : List TypeName) : Prop :=
  ∀ entry ∈ records, fieldsMentioned entry.2 ⊆ names

theorem exists_of_mem_recordFields {types : List Declaration} {kept : TypeName × List Field}
    (h : kept ∈ recordFields types) :
    ∃ decl, .record decl ∈ types ∧ (decl.name, decl.fields) = kept := by
  obtain ⟨t, ht, hkept⟩ := List.mem_filterMap.1 h
  cases t with
  | record decl => exact ⟨decl, ht, Option.some.inj hkept⟩
  | _ => cases hkept

theorem recordFields_within {types : List Declaration}
    (h : ∀ t ∈ types, t.mentioned ⊆ names) : Within (recordFields types) names := by
  intro entry hentry
  obtain ⟨decl, hdecl, rfl⟩ := exists_of_mem_recordFields hentry
  exact h _ hdecl

namespace Within

variable {records : List (TypeName × List Field)} (within : Within records names)

include within

theorem lookup {owner : TypeName} {fields : List Field} (h : records.lookup owner = some fields) :
    fieldsMentioned fields ⊆ names := by
  obtain ⟨before, after, hrecords, -⟩ := List.lookup_eq_some_iff.1 h
  exact within (owner, fields) (by simp [hrecords])

theorem fieldOf? {owner : TypeName} {jsonName : String} {field : Field}
    (h : Boxing.fieldOf? records owner jsonName = some field) : field.mentioned ⊆ names := by
  obtain ⟨fields, hfields, hfield⟩ := Option.bind_eq_some_iff.1 h
  have hmem := List.mem_of_find?_eq_some hfield
  exact fieldsMentioned_subset_iff.1 (within.lookup hfields) field hmem

theorem refreshField {owner : TypeName} {field : Field} (h : field.mentioned ⊆ names) :
    (Boxing.refreshField records owner field).mentioned ⊆ names := by
  rw [Boxing.refreshField]
  cases hfound : Boxing.fieldOf? records owner field.jsonName with
  | none => exact h
  | some found => exact within.fieldOf? hfound

theorem refreshMapping {source target : TypeName} {m : FieldMapping} (h : m.mentioned ⊆ names) :
    (Boxing.refreshMapping records source target m).mentioned ⊆ names := by
  obtain ⟨hfield, hsource⟩ := List.append_subset.1 h
  refine List.append_subset.2 ⟨within.refreshField hfield, ?_⟩
  rw [Boxing.refreshMapping]
  split
  next field hfound =>
    rw [Field.names_fieldType]
    exact within.fieldOf? hfound
  next => exact hsource

theorem refreshConversion {c : Conversion} (h : c.mentioned ⊆ names) :
    (Boxing.refreshConversion records c).mentioned ⊆ names := by
  obtain ⟨hsource, htarget, hcopied, hextras⟩ := Conversion.mentioned_subset_iff.1 h
  refine Conversion.mentioned_subset_iff.2 ⟨hsource, htarget, ?_, ?_⟩
  · exact List.forall_mem_map.2 fun m hm => within.refreshMapping (hcopied m hm)
  · exact List.forall_mem_map.2 fun f hf => within.refreshField (hextras f hf)

theorem refreshUnion {u : UnionDecl} (h : (Declaration.union u).mentioned ⊆ names) :
    (Declaration.union (Boxing.refreshUnion records u)).mentioned ⊆ names := by
  rw [Boxing.refreshUnion]
  split_ifs
  · exact h
  · split
    next fields hfields =>
      obtain ⟨hvariants, -⟩ := List.append_subset.1 h
      refine List.append_subset.2 ⟨hvariants, ?_⟩
      refine List.Subset.trans (Build.sharedMentioned_commonFields fields) ?_
      refine flatMap_subset_iff.2 fun payload hpayload => ?_
      obtain ⟨v, -, hv⟩ := exists_of_mem_mapM hfields hpayload
      rw [fieldsOfPayload?] at hv
      split at hv
      next => exact within.lookup hv
      next => cases hv
    next => exact h

theorem refreshDeclaration {t : Declaration} (h : t.mentioned ⊆ names) :
    (Boxing.refreshDeclaration records t).mentioned ⊆ names := by
  cases t with
  | union decl => exact within.refreshUnion h
  | _ => exact h

end Within

/-- Boxing mentions nothing new. -/
theorem mentioned_box {types : List Declaration} {conversions : List Conversion}
    (htypes : ∀ t ∈ types, t.mentioned ⊆ names)
    (hconversions : ∀ c ∈ conversions, c.mentioned ⊆ names) :
    (∀ t ∈ (box types conversions).types, t.mentioned ⊆ names) ∧
      ∀ c ∈ (box types conversions).conversions, c.mentioned ⊆ names := by
  have hboxed : ∀ t ∈ types.map (boxDeclaration (edges types)), t.mentioned ⊆ names := by
    rw [List.forall_mem_map]
    intro t ht
    rw [mentioned_boxDeclaration]
    exact htypes t ht
  have within := recordFields_within hboxed
  rw [box]
  split
  · exact ⟨hboxed, hconversions⟩
  · exact ⟨List.forall_mem_map.2 fun t ht => within.refreshDeclaration (hboxed t ht),
      List.forall_mem_map.2 fun c hc => within.refreshConversion (hconversions c hc)⟩

end Boxing

/-! ## Conversions -/

namespace Conversion

theorem mentioned_demote {known : KnownConversions} {c : Conversion} (h : c.mentioned ⊆ names) :
    (demote known c).mentioned ⊆ names := by
  obtain ⟨hsource, htarget, hcopied, hextras⟩ := mentioned_subset_iff.1 h
  refine mentioned_subset_iff.2 ⟨hsource, htarget, fun m hm => ?_, ?_⟩
  · exact hcopied m (List.mem_of_mem_filter hm)
  · refine List.forall_mem_append.2 ⟨hextras, List.forall_mem_map.2 fun m hm => ?_⟩
    have hmapping := hcopied m (List.mem_of_mem_filter hm)
    exact List.Subset.trans (List.subset_append_left ..) hmapping

/-- What each round of moving fields keeps is true in the end. -/
theorem settle_keeps {enums : KnownConversions} {P : List Conversion → Prop}
    {conversions : List Conversion} (hround : ∀ cs, P cs → P (settleOnce enums cs))
    (h : P conversions) : P (settle enums conversions) := by
  induction conversions using settle.induct enums with
  | case1 cs next hless ih =>
    rw [settle, if_pos hless]
    exact ih (hround cs h)
  | case2 cs next hless =>
    rw [settle, if_neg hless]
    exact hround cs h

theorem mentioned_settle {enums : KnownConversions} {conversions : List Conversion}
    (h : ∀ c ∈ conversions, c.mentioned ⊆ names) :
    ∀ c ∈ settle enums conversions, c.mentioned ⊆ names := by
  refine settle_keeps (P := fun cs => ∀ c ∈ cs, c.mentioned ⊆ names) (fun cs hcs => ?_) h
  rw [settleOnce, List.forall_mem_map]
  exact fun c hc => mentioned_demote (hcs c hc)

end Conversion

namespace EnumBuckets

/-- An enumeration converts into one that is filed with it. -/
theorem mentioned_conversions {buckets : EnumBuckets} (h : buckets.names ⊆ names) :
    ∀ c ∈ buckets.conversions, c.mentioned ⊆ names := by
  intro c hc
  obtain ⟨hsource, htarget, -⟩ := mem_pairs (List.mem_map_of_mem hc)
  exact List.cons_subset.2 ⟨h hsource, List.cons_subset.2 ⟨h htarget, List.nil_subset _⟩⟩

end EnumBuckets

end OpenApiServer
