import OpenApiServer.Proofs.Build.Merging

/-!
# Names of fields

A field is named after its JSON key. Two keys of a record can give the same name, and then fields
get a number; a merged record gives numbers anew, on top of those that its parts have given. As
long as no two keys of a record fall together, all its fields have the names of their keys.
-/

namespace OpenApiServer.Build

/-- Whether every field has the name of its key. -/
def OwnNames (fields : List Field) : Prop := ∀ f ∈ fields, f.name = .ofText f.jsonName

/-- The names that the keys of fields give. -/
def keyNames (fields : List Field) : List FieldName := fields.map (.ofText ·.jsonName)

/-- Whether different keys give different names. -/
def Apart (fields : List Field) : Prop :=
  ∀ f ∈ fields, ∀ g ∈ fields, FieldName.ofText f.jsonName = .ofText g.jsonName →
    f.jsonName = g.jsonName

theorem apart_of_nodup {fields : List Field} (h : (keyNames fields).Nodup) : Apart fields := by
  intro f hf g hg hname
  rw [List.inj_on_of_nodup_map h hf hg hname]

theorem nodup_of_apart {fields : List Field} (h : Apart fields)
    (hkeys : (fields.map (·.jsonName)).Nodup) : (keyNames fields).Nodup := by
  have hsplit : keyNames fields = (fields.map (·.jsonName)).map FieldName.ofText := by
    simp only [keyNames, List.map_map, Function.comp_def]
  rw [hsplit]
  refine List.Nodup.map_on ?_ hkeys
  intro key hkey key' hkey' hname
  obtain ⟨f, hf, rfl⟩ := List.mem_map.1 hkey
  obtain ⟨g, hg, rfl⟩ := List.mem_map.1 hkey'
  exact h f hf g hg hname

theorem ownNames_objectFields {d : Document} {r r' : Registry} {owner : TypeName}
    {properties : List (String × Json)} {required : List String} {fields : List Field}
    (h : objectFields d owner properties required r = .ok (fields, r')) : OwnNames fields := by
  intro f hf
  obtain ⟨property, -, s, s', hrun⟩ := exists_of_mem_forall₂ (forall₂_of_mapM h) hf
  obtain ⟨type, _, -, hrun⟩ := bind_eq_ok.1 hrun
  obtain ⟨rfl, -⟩ := pure_eq_ok.1 hrun
  dsimp only

/-! ## Absorbing -/

/-- What is absorbed brings or takes over all but its requirement. -/
theorem exists_of_mem_absorbField {field f : Field} {merged : List Field}
    (h : f ∈ absorbField field merged) :
    f = field ∨ ∃ g ∈ merged, f.name = g.name ∧ f.jsonName = g.jsonName ∧ f.type = g.type := by
  induction merged with
  | nil => exact .inl (List.mem_singleton.1 h)
  | cons g rest ih =>
    rw [absorbField] at h
    split at h
    next =>
      rcases List.mem_cons.1 h with rfl | hmem
      · exact .inr ⟨g, List.mem_cons_self .., rfl, rfl, rfl⟩
      · exact .inr ⟨f, List.mem_cons_of_mem _ hmem, rfl, rfl, rfl⟩
    next =>
      rcases List.mem_cons.1 h with rfl | hmem
      · exact .inr ⟨f, List.mem_cons_self .., rfl, rfl, rfl⟩
      · refine (ih hmem).imp_right ?_
        rintro ⟨g', hg', hsame⟩
        exact ⟨g', List.mem_cons_of_mem _ hg', hsame⟩

theorem exists_of_mem_absorb {merged fields : List Field} {f : Field}
    (h : f ∈ absorb merged fields) :
    ∃ g ∈ merged ++ fields, f.name = g.name ∧ f.jsonName = g.jsonName ∧ f.type = g.type := by
  induction fields generalizing merged with
  | nil => exact ⟨f, List.mem_append_left _ h, rfl, rfl, rfl⟩
  | cons field rest ih =>
    obtain ⟨g, hg, hname, hkey, htype⟩ := ih h
    rcases List.mem_append.1 hg with hg | hg
    · rcases exists_of_mem_absorbField hg with rfl | ⟨g', hg', hname', hkey', htype'⟩
      · exact ⟨g, by simp, hname, hkey, htype⟩
      · exact ⟨g', List.mem_append_left _ hg', hname.trans hname', hkey.trans hkey',
          htype.trans htype'⟩
    · exact ⟨g, by simp [hg], hname, hkey, htype⟩

theorem mem_keys_absorb_iff {merged fields : List Field} {key : String} :
    key ∈ (absorb merged fields).map (·.jsonName) ↔
      key ∈ merged.map (·.jsonName) ∨ key ∈ fields.map (·.jsonName) := by
  induction fields generalizing merged with
  | nil => simp [absorb]
  | cons field rest ih =>
    rw [absorb, List.foldl_cons, ← absorb, ih, keys_absorbField, List.map_cons, List.mem_cons]
    split
    next hmem => grind
    next => grind

theorem nodup_keys_absorb {merged : List Field} (h : (merged.map (·.jsonName)).Nodup)
    (fields : List Field) : ((absorb merged fields).map (·.jsonName)).Nodup := by
  rw [keys_absorb (eraseDups_of_nodup h).symm]
  exact nodup_eraseDups _

theorem Apart.of_absorb {merged fields part : List Field} (h : Apart (absorb merged fields))
    (hpart : ∀ f ∈ part,
      f.jsonName ∈ merged.map (·.jsonName) ∨ f.jsonName ∈ fields.map (·.jsonName)) :
    Apart part := by
  intro f hf g hg hname
  obtain ⟨f', hf', hkey⟩ := List.mem_map.1 (mem_keys_absorb_iff.2 (hpart f hf))
  obtain ⟨g', hg', hkey'⟩ := List.mem_map.1 (mem_keys_absorb_iff.2 (hpart g hg))
  have hsame := h f' hf' g' hg'
  rw [hkey, hkey'] at hsame
  exact hsame hname

theorem ownNames_absorb {merged fields : List Field} (h : Apart merged → OwnNames merged)
    (h' : Apart fields → OwnNames fields) (hapart : Apart (absorb merged fields)) :
    OwnNames (absorb merged fields) := by
  have hmerged : OwnNames merged :=
    h (hapart.of_absorb fun f hf => .inl (List.mem_map_of_mem hf))
  have hfields : OwnNames fields :=
    h' (hapart.of_absorb fun f hf => .inr (List.mem_map_of_mem hf))
  intro f hf
  obtain ⟨g, hg, hname, hkey, -⟩ := exists_of_mem_absorb hf
  rw [hname, hkey]
  rcases List.mem_append.1 hg with hg | hg
  · exact hmerged g hg
  · exact hfields g hg

/-! ## Numbers -/

theorem distinctNamesFrom_eq_self {used : List String} {fields : List Field}
    (h : (fields.map (·.name)).Nodup) (hfree : ∀ f ∈ fields, f.name.bare ∉ used) :
    distinctNamesFrom used fields = fields := by
  induction fields generalizing used with
  | nil => rfl
  | cons f rest ih =>
    obtain ⟨hfirst, hrest⟩ := List.nodup_cons.1 h
    obtain ⟨hf, hlater⟩ := List.forall_mem_cons.1 hfree
    rw [distinctNamesFrom, if_neg hf, ih hrest]
    intro g hg hused
    rcases List.mem_cons.1 hused with heq | hused
    · refine hfirst (List.mem_map.2 ⟨g, hg, ?_⟩)
      cases hname : g.name
      cases hname' : f.name
      simp_all
    · exact hlater g hg hused

theorem keyNames_distinctNames (fields : List Field) :
    keyNames (distinctNames fields) = keyNames fields := by
  refine map_eq_of_forall₂ (fun f f' => ?_) (forall₂_distinctNames fields)
  rintro ⟨name, rfl⟩
  rfl

/-- Where no two keys fall together no field gets a number. -/
theorem ownNames_distinctNames {fields : List Field} (h : Apart fields → OwnNames fields)
    (hnodup : (keyNames (distinctNames fields)).Nodup) : OwnNames (distinctNames fields) := by
  rw [keyNames_distinctNames] at hnodup
  have hown := h (apart_of_nodup hnodup)
  have hnames : (fields.map (·.name)).Nodup := by
    have hsame : fields.map (·.name) = keyNames fields := List.map_congr_left hown
    rwa [hsame]
  rw [distinctNames, distinctNamesFrom_eq_self hnames (by simp)]
  exact hown

end OpenApiServer.Build
