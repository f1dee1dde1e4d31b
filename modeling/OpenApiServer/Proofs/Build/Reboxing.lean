import OpenApiServer.Build.Conversions
import OpenApiServer.Proofs.Build.Boxing
import OpenApiServer.Proofs.Build.Reachable
import OpenApiServer.Proofs.Declaration.Matching

/-!
# Boxes and conversions of matching declarations

Which fields get boxes is decided by what the declared types hold inline, and which copied fields a
conversion keeps by what is known to convert. Neither depends on an order: declarations that match get
the same boxes, and conversions that match still do when they are brought up to date and settled.
-/

namespace OpenApiServer

/-! ## Boxes -/

namespace Declaration.Matches

variable {t t' : Declaration}

theorem mem_inlineTargets_iff (h : t.Matches t') (target : TypeName) :
    target ∈ t.inlineTargets ↔ target ∈ t'.inlineTargets := by
  cases h with
  | record name fields =>
    have htargets := fields.matched.mem_map_iff (f := fun f => f.type.inlineTarget?)
      (g := fun f => f.type.inlineTarget?) (fun f f' hmatch => by rw [hmatch.type]) (some target)
    simpa [inlineTargets, List.mem_filterMap] using htargets
  | enum => rfl
  | union name variants => rw [inlineTargets, inlineTargets, variants]
  | aliased name target => rw [inlineTargets, inlineTargets, target]

end Declaration.Matches

namespace Boxing

variable {types types' : List Declaration}

/-- Whether two lists of edges have the same edges. -/
def SameEdges (edges edges' : Edges) : Prop := ∀ e, e ∈ edges ↔ e ∈ edges'

theorem sameEdges_of_matched (h : Matched Declaration.Matches types types') :
    SameEdges (edges types) (edges types') := by
  rintro ⟨owner, target⟩
  have hmem {types : List Declaration} : (owner, target) ∈ edges types ↔
      ∃ t ∈ types, t.name = owner ∧ target ∈ t.inlineTargets := by
    simp only [edges, List.mem_flatMap, List.mem_map, Prod.mk.injEq]
    refine exists_congr fun t => and_congr_right fun _ => ⟨?_, ?_⟩
    · rintro ⟨target, htarget, rfl, rfl⟩
      exact ⟨rfl, htarget⟩
    · rintro ⟨rfl, htarget⟩
      exact ⟨target, htarget, rfl, rfl⟩
  rw [hmem, hmem]
  constructor
  · rintro ⟨t, ht, rfl, htarget⟩
    obtain ⟨t', ht', hmatch⟩ := h.left t ht
    exact ⟨t', ht', hmatch.name_eq.symm, (hmatch.mem_inlineTargets_iff target).1 htarget⟩
  · rintro ⟨t', ht', rfl, htarget⟩
    obtain ⟨t, ht, hmatch⟩ := h.right t' ht'
    exact ⟨t, ht, hmatch.name_eq, (hmatch.mem_inlineTargets_iff target).2 htarget⟩

section Edges

variable {edges edges' : Edges} (h : SameEdges edges edges')

include h

theorem closesCycle_eq (owner : TypeName) {f f' : Field} (hmatch : f.Matches f') :
    closesCycle edges owner f = closesCycle edges' owner f' := by
  have hedge : Edge edges = Edge edges' := by
    funext a b
    exact propext (h (a, b))
  rw [closesCycle, closesCycle, hmatch.type]
  cases f'.type.inlineTarget? with
  | none => rfl
  | some target =>
    rw [Bool.eq_iff_iff, List.contains_iff_mem, List.contains_iff_mem, mem_reachable_iff,
      mem_reachable_iff, hedge]

theorem boxField_matches (owner : TypeName) {f f' : Field} (hmatch : f.Matches f') :
    (boxField edges owner f).Matches (boxField edges' owner f') := by
  rw [boxField, boxField, closesCycle_eq h owner hmatch]
  split
  · exact ⟨hmatch.jsonName, congrArg TypeExpr.boxInline hmatch.type, hmatch.required⟩
  · exact hmatch

theorem boxDeclaration_matches {t t' : Declaration} (hmatch : t.Matches t') :
    (boxDeclaration edges t).Matches (boxDeclaration edges' t') := by
  cases hmatch with
  | @record decl decl' name fields =>
    have hkeys (edges : Edges) (decl : RecordDecl) :
        (decl.fields.map (boxField edges decl.name)).map (·.jsonName) =
          decl.fields.map (·.jsonName) := by
      simp [Function.comp_def, jsonName_boxField]
    refine .record name ⟨?_, ?_, fields.matched.map fun f f' hf => ?_⟩
    · rw [hkeys]
      exact fields.nodup
    · rw [hkeys]
      exact fields.nodup'
    · rw [name]
      exact boxField_matches h decl'.name hf
  | enum decl => exact .enum decl
  | union name variants => exact .union name variants
  | aliased name target => exact .aliased name target

theorem boxedFieldCount_eq {t t' : Declaration} (hmatch : t.Matches t') :
    boxedFieldCount edges t = boxedFieldCount edges' t' := by
  cases hmatch with
  | @record decl decl' name fields =>
    obtain ⟨ordered, hperm, hforall⟩ :=
      fields.matched.exists_perm (fun f f' hf => hf.jsonName) fields.nodup fields.nodup'
    have hsame := map_eq_of_forall₂ (f := closesCycle edges decl'.name)
      (g := closesCycle edges' decl'.name) (fun f f' hf => (closesCycle_eq h _ hf).symm) hforall
    have hcount := congrArg (List.countP id) hsame
    rw [List.countP_map, List.countP_map] at hcount
    rw [boxedFieldCount, boxedFieldCount, name, ← hperm.countP_eq]
    exact hcount.symm
  | _ => rfl

end Edges

variable (h : Matched Declaration.Matches types types') (hnames : (types.map (·.name)).Nodup)
  (hnames' : (types'.map (·.name)).Nodup)

include h hnames hnames'

/-- As many fields get boxes. -/
theorem boxedFields_box (conversions conversions' : List Conversion) :
    (box types conversions).boxedFields = (box types' conversions').boxedFields := by
  obtain ⟨ordered, hperm, hforall⟩ :=
    h.exists_perm (fun t t' ht => ht.name_eq) hnames hnames'
  have hsame := map_eq_of_forall₂ (f := boxedFieldCount (edges types))
    (g := boxedFieldCount (edges types')) (fun t t' ht =>
      (boxedFieldCount_eq (sameEdges_of_matched h) ht).symm) hforall
  rw [boxedFields_eq_sum, boxedFields_eq_sum, ← hsame]
  exact (hperm.map _).sum_nat

/-- The fields of a record are found under its name in both or in neither. -/
theorem lookup_recordFields_matches (name : TypeName) :
    Option.Rel SameFields ((recordFields types).lookup name) ((recordFields types').lookup name) := by
  have hmem {types : List Declaration} {fields : List Field}
      (hfound : (recordFields types).lookup name = some fields) :
      ∃ decl, .record decl ∈ types ∧ decl.name = name ∧ decl.fields = fields := by
    obtain ⟨before, after, hrecords, -⟩ := List.lookup_eq_some_iff.1 hfound
    have hkept : (name, fields) ∈ recordFields types := by simp [hrecords]
    obtain ⟨decl, hdecl, heq⟩ := exists_of_mem_recordFields hkept
    obtain ⟨hname, hfields⟩ := Prod.mk.inj heq
    exact ⟨decl, hdecl, hname, hfields⟩
  cases hfound : (recordFields types).lookup name with
  | some fields =>
    obtain ⟨decl, hdecl, rfl, rfl⟩ := hmem hfound
    obtain ⟨t', ht', hmatch⟩ := h.left _ hdecl
    cases hmatch with
    | @record _ decl' hname hfields =>
      rw [hname, lookup_recordFields hnames' ht']
      exact .some hfields
  | none =>
    cases hfound' : (recordFields types').lookup name with
    | none => exact .none
    | some fields' =>
      obtain ⟨decl', hdecl', rfl, rfl⟩ := hmem hfound'
      obtain ⟨t, ht, hmatch⟩ := h.right _ hdecl'
      cases hmatch with
      | @record decl _ hname hfields =>
        rw [← hname, lookup_recordFields hnames ht] at hfound
        cases hfound

theorem fieldOf?_matches (owner : TypeName) (key : String) :
    Option.Rel Field.Matches (fieldOf? (recordFields types) owner key)
      (fieldOf? (recordFields types') owner key) := by
  have hrel := lookup_recordFields_matches h hnames hnames' owner
  rw [fieldOf?, fieldOf?]
  generalize (recordFields types).lookup owner = fields,
    (recordFields types').lookup owner = fields' at hrel ⊢
  cases hrel with
  | none => exact .none
  | some hfields => exact hfields.find? key

theorem refreshField_matches (owner : TypeName) {f f' : Field} (hmatch : f.Matches f') :
    (refreshField (recordFields types) owner f).Matches
      (refreshField (recordFields types') owner f') := by
  have hrel := fieldOf?_matches h hnames hnames' owner f.jsonName
  rw [refreshField, refreshField, ← hmatch.jsonName]
  generalize fieldOf? (recordFields types) owner f.jsonName = found,
    fieldOf? (recordFields types') owner f.jsonName = found' at hrel ⊢
  cases hrel with
  | none => exact hmatch
  | some hfound => exact hfound

theorem refreshMapping_matches (source target : TypeName) {m m' : FieldMapping}
    (hmatch : m.Matches m') :
    (refreshMapping (recordFields types) source target m).Matches
      (refreshMapping (recordFields types') source target m') := by
  refine ⟨refreshField_matches h hnames hnames' target hmatch.field, ?_⟩
  have hrel := fieldOf?_matches h hnames hnames' source m.field.jsonName
  rw [refreshMapping, refreshMapping, ← hmatch.field.jsonName]
  generalize fieldOf? (recordFields types) source m.field.jsonName = found,
    fieldOf? (recordFields types') source m.field.jsonName = found' at hrel ⊢
  cases hrel with
  | none => exact hmatch.source
  | some hfound => exact hfound.fieldType_eq

theorem refreshConversion_matches {c c' : Conversion} (hmatch : c.Matches c') :
    (refreshConversion (recordFields types) c).Matches
      (refreshConversion (recordFields types') c') where
  source := hmatch.source
  target := hmatch.target
  copied := by
    rw [refreshConversion, refreshConversion, ← hmatch.source, ← hmatch.target]
    exact hmatch.copied.map fun m m' => refreshMapping_matches h hnames hnames' c.source c.target
  extras := by
    rw [refreshConversion, refreshConversion, ← hmatch.target]
    exact hmatch.extras.map fun f f' => refreshField_matches h hnames hnames' c.target

/-- Conversions that match still do when they are brought up to date. -/
theorem conversions_box_matched {conversions conversions' : List Conversion}
    (hmatched : Matched Conversion.Matches conversions conversions') :
    Matched Conversion.Matches (box types conversions).conversions
      (box types' conversions').conversions := by
  have hcount := boxedFields_box h hnames hnames' conversions conversions'
  have hboxed := h.map fun t t' ht => boxDeclaration_matches (sameEdges_of_matched h) ht
  have hkept (types : List Declaration) (hnames : (types.map (·.name)).Nodup) :
      ((types.map (boxDeclaration (edges types))).map (·.name)).Nodup := by
    simpa [Function.comp_def, (boxed_boxDeclaration _ _).name_eq] using hnames
  rw [box, box] at hcount ⊢
  dsimp only at hcount ⊢
  split_ifs at hcount ⊢ with hnone hnone'
  · exact hmatched
  · exact absurd hcount.symm hnone'
  · exact absurd hcount hnone
  · exact hmatched.map fun c c' hc =>
      refreshConversion_matches hboxed (hkept types hnames) (hkept types' hnames') hc

end Boxing

/-! ## Conversions -/

namespace Conversion

variable {enums enums' : KnownConversions} {conversions conversions' : List Conversion}

/-- Whether the same conversions are known. -/
def SameKnown (known known' : KnownConversions) : Prop := ∀ pair, pair ∈ known ↔ pair ∈ known'

theorem convertsInto_eq {known known' : KnownConversions} (h : SameKnown known known')
    (source target : TypeExpr) :
    source.convertsInto known target = source.convertsInto known' target := by
  have hcontains (a b : TypeName) : known.contains (a, b) = known'.contains (a, b) := by
    rw [Bool.eq_iff_iff, List.contains_iff_mem, List.contains_iff_mem, h]
  fun_induction TypeExpr.convertsInto known source target with
  | case1 target => rw [TypeExpr.convertsInto.eq_def known', if_pos rfl]
  | case2 _ _ hne ih | case4 _ _ hne ih | case7 _ _ hne ih =>
    rw [TypeExpr.convertsInto.eq_def known', if_neg hne, ih]
  | case3 source inner hbox hne ih =>
    rw [TypeExpr.convertsInto.eq_def known', if_neg hne, ih]
    cases source <;> simp_all
  | case5 target inner hbox hoption hne =>
    rw [TypeExpr.convertsInto.eq_def known', if_neg hne]
    cases target <;> simp_all
  | case6 source inner hbox hoption hne ih =>
    rw [TypeExpr.convertsInto.eq_def known', if_neg hne, ih]
    cases source <;> simp_all
  | case8 a b hne => rw [TypeExpr.convertsInto.eq_def known', if_neg hne, hcontains]
  | case9 source target hne =>
    rw [TypeExpr.convertsInto.eq_def known', if_neg hne]
    cases source <;> cases target <;> simp_all

theorem plainPairs_same (h : Matched Conversion.Matches conversions conversions') :
    SameKnown (plainPairs conversions) (plainPairs conversions') := by
  intro pair
  refine (h.filter fun c c' hc => hc.isPlain_eq).mem_map_iff (fun c c' hc => ?_) pair
  rw [hc.source, hc.target]

theorem sameKnown_append {known known' : KnownConversions} (henums : SameKnown enums enums')
    (h : SameKnown known known') : SameKnown (enums ++ known) (enums' ++ known') := by
  intro pair
  rw [List.mem_append, List.mem_append, henums pair, h pair]

/-- Whether a copied field converts. -/
def converts (known : KnownConversions) (m : FieldMapping) : Bool :=
  m.source.convertsInto known m.field.fieldType

theorem converts_eq {known known' : KnownConversions} (hknown : SameKnown known known')
    (m m' : FieldMapping) (hm : m.Matches m') : converts known m = converts known' m' := by
  rw [converts, converts, hm.source, hm.field.fieldType_eq, convertsInto_eq hknown]

theorem demote_matches {known known' : KnownConversions} (hknown : SameKnown known known')
    {c c' : Conversion} (h : c.Matches c') : (demote known c).Matches (demote known' c') := by
  have hconverts := converts_eq hknown
  refine ⟨h.source, h.target, h.copied.filter hconverts, h.extras.append ?_⟩
  refine (h.copied.filter fun m m' hm => ?_).map fun m m' hm => hm.field
  exact congrArg (!·) (hconverts m m' hm)

theorem settleOnce_matched (henums : SameKnown enums enums')
    (h : Matched Conversion.Matches conversions conversions') :
    Matched Conversion.Matches (settleOnce enums conversions) (settleOnce enums' conversions') :=
  h.map fun _ _ hc => demote_matches (sameKnown_append henums (plainPairs_same h)) hc

/-- No field is moved exactly if all copied fields convert. -/
theorem copiedCount_demote (known : KnownConversions) (conversions : List Conversion) :
    copiedCount (conversions.map (demote known)) ≤ copiedCount conversions ∧
      (copiedCount (conversions.map (demote known)) = copiedCount conversions ↔
        (conversions.all fun c => c.copied.all (converts known)) = true) := by
  induction conversions with
  | nil => exact ⟨Nat.le_refl _, by simp⟩
  | cons c rest ih =>
    obtain ⟨hle, heq⟩ := ih
    have hcount (c : Conversion) (rest : List Conversion) :
        copiedCount (c :: rest) = c.copied.length + copiedCount rest := rfl
    have hfilter : (demote known c).copied = c.copied.filter (converts known) := rfl
    have hfirst := List.length_filter_le (converts known) c.copied
    have hall : (c.copied.filter (converts known)).length = c.copied.length ↔
        c.copied.all (converts known) = true := by
      rw [List.length_filter_eq_length_iff, List.all_eq_true]
    rw [List.map_cons, hcount, hcount, hfilter, List.all_cons, Bool.and_eq_true, ← hall, ← heq]
    omega

theorem settles_iff (enums : KnownConversions) (conversions : List Conversion) :
    copiedCount (settleOnce enums conversions) < copiedCount conversions ↔
      (conversions.all fun c =>
        c.copied.all (converts (enums ++ plainPairs conversions))) = false := by
  obtain ⟨hle, heq⟩ := copiedCount_demote (enums ++ plainPairs conversions) conversions
  rw [← Bool.not_eq_true, ← heq, settleOnce]
  omega

/-- Conversions that match are settled in the same rounds. -/
theorem settle_matched (henums : SameKnown enums enums')
    (h : Matched Conversion.Matches conversions conversions') :
    Matched Conversion.Matches (settle enums conversions) (settle enums' conversions') := by
  have hrounds {cs cs' : List Conversion} (h : Matched Conversion.Matches cs cs') :
      copiedCount (settleOnce enums cs) < copiedCount cs ↔
        copiedCount (settleOnce enums' cs') < copiedCount cs' := by
    rw [settles_iff, settles_iff, h.all_eq fun c c' hc => hc.copied.all_eq
      (converts_eq (sameKnown_append henums (plainPairs_same h)))]
  fun_induction settle enums conversions generalizing conversions'
  case case1 cs next hless ih =>
    rw [settle.eq_def enums', if_pos ((hrounds h).1 hless)]
    exact ih (settleOnce_matched henums h)
  case case2 cs next hless =>
    rw [settle.eq_def enums', if_neg fun hmore => hless ((hrounds h).2 hmore)]
    exact settleOnce_matched henums h

end Conversion

end OpenApiServer
