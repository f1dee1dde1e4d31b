import OpenApiServer.Proofs.Build.FieldLaws
import OpenApiServer.Proofs.Name.Stability

/-!
# Fields of a record are distinct

The fields that are kept for a record have distinct names and distinct keys. Keys are distinct
because the properties of one schema are and because absorbing adds no key twice. Names are chosen
among those that are free, and they are proper names, which stay as they are: a merged record may
number a name again that a part of it has numbered.
-/

namespace OpenApiServer

/-- Whether fields have proper names and distinct keys. -/
structure KeyedFields (fields : List Field) : Prop where
  proper : ∀ f ∈ fields, f.name.Proper
  keys : (fields.map (·.jsonName)).Nodup

/-- Whether fields have distinct names as well. -/
structure DistinctFields (fields : List Field) : Prop extends KeyedFields fields where
  names : (fields.map (·.name)).Nodup

theorem DistinctFields.texts {fields : List Field} (h : DistinctFields fields) :
    (fields.map (·.name.text)).Nodup := by
  have htexts := FieldName.nodup_texts (List.forall_mem_map.2 h.proper) h.names
  rwa [List.map_map] at htexts

namespace Build

variable {d : Document}

/-- Each field gets a proper name that no field before it has. -/
theorem distinctNamesFrom_chosen (used : List String) {fields : List Field}
    (h : ∀ f ∈ fields, f.name.Proper) :
    ∃ last, FieldName.Chosen used ((distinctNamesFrom used fields).map (·.name)) last := by
  induction fields generalizing used with
  | nil => exact ⟨used, .nil used⟩
  | cons f rest ih =>
    obtain ⟨hf, hrest⟩ := List.forall_mem_cons.1 h
    have hname : ∀ name, (if f.name.bare ∈ used then f.name.uniqueAmong used else f.name) = name →
        name.Proper ∧ name.bare ∉ used := by
      rintro name rfl
      split
      next => exact hf.uniqueAmong used
      next hfree => exact ⟨hf, hfree⟩
    rw [distinctNamesFrom]
    generalize (if f.name.bare ∈ used then f.name.uniqueAmong used else f.name) = name at hname
    obtain ⟨hproper, hfree⟩ := hname name rfl
    obtain ⟨last, hlater⟩ := ih (name.bare :: used) hrest
    exact ⟨last, .cons hproper hfree hlater⟩

theorem distinct_distinctNames {fields : List Field} (h : KeyedFields fields) :
    DistinctFields (distinctNames fields) := by
  obtain ⟨last, hchosen⟩ := distinctNamesFrom_chosen [] h.proper
  refine ⟨⟨List.forall_mem_map.1 hchosen.proper, ?_⟩, hchosen.nodup⟩
  have hkeys : (distinctNames fields).map (·.jsonName) = fields.map (·.jsonName) := by
    refine map_eq_of_forall₂ (fun f f' => ?_) (forall₂_distinctNames fields)
    rintro ⟨name, rfl⟩
    rfl
  rw [hkeys]
  exact h.keys

theorem keyed_absorb {merged fields : List Field} (h : KeyedFields merged)
    (h' : KeyedFields fields) : KeyedFields (absorb merged fields) where
  proper f hf := by
    obtain ⟨g, hg, hname, -⟩ := exists_of_mem_absorb hf
    rw [hname]
    exact List.forall_mem_append.2 ⟨h.proper, h'.proper⟩ g hg
  keys := nodup_keys_absorb h.keys fields

theorem objectFields_keyed {owner : TypeName} {properties : List (String × Json)}
    {required : List String} (hkeys : (properties.map (·.1)).Nodup) :
    Yields (objectFields d owner properties required) KeyedFields := by
  intro r fields r' hrun
  have hfields := fieldsOf_objectFields ⟨owner, properties, required⟩ hrun
  constructor
  · intro f hf
    obtain ⟨property, -, hfield⟩ := exists_of_mem_forall₂ hfields hf
    rw [hfield.name]
    exact FieldName.proper_ofText property.1
  · rwa [map_eq_of_forall₂ (fun _ _ hfield => hfield.jsonName) hfields]

theorem distinct_laws (hroot : d.root.DistinctKeys) :
    FieldLaws d Json.DistinctKeys KeyedFields DistinctFields where
  hereditary := Json.hereditary_distinctKeys
  root := hroot
  object _ _ _ _ _ hnode hobject := objectFields_keyed (Schema.nodup_of_classify hnode hobject)
  nil := ⟨by simp, by simp⟩
  absorb _ _ := keyed_absorb
  named _ := distinct_distinctNames
  unnamed _ := DistinctFields.toKeyedFields

end Build

end OpenApiServer
