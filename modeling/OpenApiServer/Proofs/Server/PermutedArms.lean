import OpenApiServer.Proofs.Build.Informed
import OpenApiServer.Proofs.Server.Unions

/-!
# Arms in another order

What a draft says of its arms does not mention their order but for the first arm, which has one constant.
So when the arms are permuted, the variants are, and the union is built again exactly if the arm that
comes first now has one constant. This takes for granted that the fields of all payloads can be found
out: a union looks at them only up to the first payload that is no record.
-/

namespace OpenApiServer.Build

variable {d : Document} {r r' R R' : Registry} {union : TypeName} {layout layout' : UnionLayout}
  {arm : Json} {reading reading' : ArmReading}

/-! ## What an arm says -/

/-- Whether an arm is an object with exactly one property that is a constant text. -/
def HasOneConstant (d : Document) (union : TypeName) (arm : Json) : Prop :=
  ∃ target properties required literal, d.dereference arm = .ok target ∧
    Schema.classify union.text target = .ok (.object properties required) ∧
      armLiterals d union properties = .ok [literal]

namespace Reads

/-- An arm reads in one way only, unless it has two constants, and then the other way takes the payload
for the tag. -/
theorem same_or_swapped (h : Reads d union layout arm reading)
    (h' : Reads d union layout' arm reading') : (layout = layout' ∧ reading = reading') ∨
      layout'.tagField = layout.payloadField ∧ reading'.constant = some reading.tag := by
  obtain ⟨tagField, payloadField⟩ := layout
  obtain ⟨tagField', payloadField'⟩ := layout'
  cases h with
  | object _ target_eq classify_eq properties_perm _ _ tag_eq constant_eq =>
  cases h' with
  | object _ target_eq' classify_eq' properties_perm' _ _ tag_eq' constant_eq' =>
    obtain rfl := Except.ok.inj (target_eq.symm.trans target_eq')
    obtain ⟨rfl, -⟩ := Schema.object.inj (Except.ok.inj (classify_eq.symm.trans classify_eq'))
    rcases List.perm_pair.1 (properties_perm.symm.trans properties_perm') with hsame | hswapped
    · simp only [List.cons.injEq, Prod.mk.injEq, and_true] at hsame
      obtain ⟨⟨rfl, rfl⟩, rfl, rfl⟩ := hsame
      obtain rfl := Option.some.inj (Except.ok.inj (tag_eq.symm.trans tag_eq'))
      obtain rfl := Except.ok.inj (constant_eq.symm.trans constant_eq')
      exact .inl ⟨rfl, rfl⟩
    · simp only [List.cons.injEq, Prod.mk.injEq, and_true] at hswapped
      obtain ⟨⟨rfl, rfl⟩, rfl, rfl⟩ := hswapped
      exact .inr ⟨rfl, Except.ok.inj (constant_eq'.symm.trans tag_eq)⟩

theorem unique (h : Reads d union layout arm reading) (h' : Reads d union layout arm reading') :
    reading = reading' := by
  rcases h.same_or_swapped h' with ⟨-, hsame⟩ | ⟨hswapped, -⟩
  · exact hsame
  · cases h with
    | object apart => exact absurd hswapped apart

theorem hasOneConstant_iff (h : Reads d union layout arm reading) :
    HasOneConstant d union arm ↔ reading.constant = none := by
  cases h with
  | @object target tagNode payload properties required tag constant _ target_eq classify_eq
      properties_perm _ _ tag_eq constant_eq =>
    obtain ⟨literals, hliterals, hlength⟩ : ∃ literals, armLiterals d union properties = .ok literals ∧
        literals.length = 1 + constant.toList.length := by
      rcases List.perm_pair.1 properties_perm with rfl | rfl
      · refine ⟨_, armLiterals_pair.2 ⟨some tag, constant, tag_eq, constant_eq, rfl⟩, ?_⟩
        cases constant <;> rfl
      · refine ⟨_, armLiterals_pair.2 ⟨constant, some tag, constant_eq, tag_eq, rfl⟩, ?_⟩
        cases constant <;> rfl
    constructor
    · rintro ⟨target', properties', required', literal, htarget, hclassify, hone⟩
      obtain rfl := Except.ok.inj (target_eq.symm.trans htarget)
      obtain ⟨rfl, -⟩ := Schema.object.inj (Except.ok.inj (classify_eq.symm.trans hclassify))
      obtain rfl := Except.ok.inj (hliterals.symm.trans hone)
      cases constant with
      | none => rfl
      | some text => cases hlength
    · rintro rfl
      obtain ⟨literal, rfl⟩ := List.length_eq_one_iff.1 hlength
      exact ⟨target, properties, required, literal, target_eq, classify_eq, hliterals⟩

/-- What holds of an arm holds of its payload. -/
theorem payload_holds {N : Json → Prop} (hN : Json.Hereditary N) (hroot : N d.root)
    (h : Reads d union layout arm reading) (harm : N arm) : N reading.payload := by
  cases h with
  | @object target tagNode payload properties required tag constant _ target_eq classify_eq
      properties_perm =>
    have hnodes := Schema.forall_nodes hN (hN.dereference hroot harm target_eq) classify_eq
    have hmem : (layout.payloadField, payload) ∈ properties := properties_perm.mem_iff.2 (by simp)
    exact hnodes payload (List.mem_map_of_mem hmem)

end Reads

/-! ## Drafts of permuted arms -/

theorem VariantOf.unique {v v' : UnionVariant} (h : VariantOf d R union layout arm v)
    (h' : VariantOf d R' union layout arm v') : v = v' := by
  cases h with
  | arm reads typed =>
  cases h' with
  | arm reads' typed' =>
    obtain rfl := reads.unique reads'
    obtain ⟨inline, hplace, -⟩ := typed
    obtain ⟨inline', hplace', -⟩ := typed'
    obtain ⟨rfl, -⟩ := Place.mk.inj (Except.ok.inj (hplace.symm.trans hplace'))
    rfl

namespace Drafted

variable {arms arms' : List Json} {variants variants' : List UnionVariant}

theorem exists_reads (h : Drafted d R union arms ⟨some layout, variants⟩) (harm : arm ∈ arms) :
    ∃ reading, Reads d union layout arm reading := by
  cases h with
  | arms _ _ stands =>
    obtain ⟨v, -, hstands⟩ := exists_of_mem_forall₂ stands.flip harm
    cases hstands with
    | arm reads _ => exact ⟨_, reads⟩

/-- The first arm has one constant. -/
theorem first_hasOneConstant (h : Drafted d R union arms ⟨some layout, variants⟩) :
    ∃ first ∈ arms.head?, HasOneConstant d union first := by
  cases h with
  | arms reads decides => exact ⟨_, rfl, reads.hasOneConstant_iff.2 decides⟩

/-- Drafts of the same arms in another order have the same layout and the same variants in another
order. -/
theorem layout_eq_and_perm (h : Drafted d R union arms ⟨some layout, variants⟩)
    (h' : Drafted d R' union arms' ⟨some layout', variants'⟩) (hperm : arms.Perm arms') :
    layout' = layout ∧ variants'.Perm variants := by
  obtain ⟨first, hfirst, hone⟩ := h'.first_hasOneConstant
  have hmem : first ∈ arms' := List.mem_of_mem_head? hfirst
  obtain ⟨reading', hreads'⟩ := h'.exists_reads hmem
  obtain ⟨reading, hreads⟩ := h.exists_reads (hperm.mem_iff.2 hmem)
  rcases hreads.same_or_swapped hreads' with ⟨rfl, -⟩ | ⟨-, hconstant⟩
  · cases h with
    | arms _ _ stands =>
    cases h' with
    | arms _ _ stands' =>
      obtain ⟨permuted, hpermuted, hvariants⟩ := List.perm_comp_forall₂ hperm.symm stands
      obtain rfl := eq_of_forall₂ stands' hpermuted fun _ _ _ => VariantOf.unique
      exact ⟨rfl, hvariants⟩
  · rw [hreads'.hasOneConstant_iff.1 hone] at hconstant
    cases hconstant

/-- Permuted arms have a draft as well if the first of them has one constant. -/
theorem permuted (h : Drafted d R union arms ⟨some layout, variants⟩) (hperm : arms.Perm arms')
    (hfirst : ∃ first ∈ arms'.head?, HasOneConstant d union first) :
    ∃ variants', variants'.Perm variants ∧ Drafted d R union arms' ⟨some layout, variants'⟩ := by
  obtain ⟨first, hhead, hone⟩ := hfirst
  obtain ⟨rest, rfl⟩ := List.head?_eq_some_iff.1 hhead
  obtain ⟨reading, hreads⟩ := h.exists_reads (hperm.mem_iff.2 (List.mem_cons_self ..))
  cases h with
  | arms _ _ stands tags names =>
    obtain ⟨variants', hstands, hvariants⟩ := List.perm_comp_forall₂ hperm.symm stands
    refine ⟨variants', hvariants, .arms hreads (hreads.hasOneConstant_iff.1 hone) hstands ?_ ?_⟩
    · exact (hvariants.map _).nodup_iff.2 tags
    · exact (hvariants.map _).nodup_iff.2 names

end Drafted

/-! ## Runs on permuted arms -/

section Running

variable (h : Document.Reordered d d) (hproper : R.ProperNodes) {stack : List TypeName}

include h hproper

/-- An arm is added below a registry that knows the type of its payload. -/
theorem addArm_runs {draft : UnionDraft} {type : TypeExpr}
    (hreads : Reads d union layout arm reading) (hadmits : draft.Admits layout reading.constant)
    (htyped : R.Typed d reading.payload (reading.suggested union) type) (harm : arm.Proper)
    (hfree : reading.tag ∉ draft.variants.map (·.tag))
    (hnew : type.variantName ∉ draft.variants.map (·.name)) (i : Nat) :
    Succeeds (R.Under stack) (addArm d union draft i arm)
      (· = ⟨some layout, draft.variants ++ [⟨type.variantName, reading.tag, type⟩]⟩) := by
  intro r hr
  obtain ⟨inline, hplace, hknows⟩ := htyped
  have hpayload := hreads.payload_holds Json.hereditary_proper h.proper harm
  obtain ⟨type', r', hrun, hr', inline', hplace'⟩ :=
    typeOf_succeeds h hproper ⟨_, hplace, hknows⟩ (.refl hpayload) hr
  obtain ⟨rfl, -⟩ := Place.mk.inj (Except.ok.inj (hplace.symm.trans hplace'))
  exact ⟨_, r', addArm_eq_ok_iff.2 ⟨layout, reading, type, hreads, hadmits, hfree, hrun, hnew, rfl⟩,
    hr', rfl⟩

/-- Arms are added after others under the layout of these. -/
theorem addArms_runs {arms : List Json} {before variants : List UnionVariant}
    (hstands : List.Forall₂ (VariantOf d R union layout) arms variants)
    (harms : ∀ arm ∈ arms, arm.Proper) (htags : ((before ++ variants).map (·.tag)).Nodup)
    (hnames : ((before ++ variants).map (·.name)).Nodup) (i : Nat) :
    Succeeds (R.Under stack) (addArms d union ⟨some layout, before⟩ i arms)
      (· = ⟨some layout, before ++ variants⟩) := by
  induction hstands generalizing before i with
  | nil =>
    rw [List.append_nil]
    exact .pure rfl
  | @cons arm v rest later hv _ ih =>
    obtain ⟨harm, hrest⟩ := List.forall_mem_cons.1 harms
    have htag := not_mem_map_of_nodup htags
    have hname := not_mem_map_of_nodup hnames
    cases hv with
    | arm reads typed =>
      rw [List.append_cons] at htags hnames ⊢
      refine (addArm_runs h hproper reads (.inl rfl) typed harm htag hname i).bind ?_
      rintro _ rfl
      exact ih hrest htags hnames (i + 1)

/-- What is drafted is drafted again. -/
theorem Drafted.runs {arms : List Json} {variants : List UnionVariant}
    (hdrafted : Drafted d R union arms ⟨some layout, variants⟩) (harms : ∀ arm ∈ arms, arm.Proper) :
    Succeeds (R.Under stack) (addArms d union ⟨none, []⟩ 0 arms) (· = ⟨some layout, variants⟩) := by
  cases hdrafted with
  | arms reads decides stands tags names =>
    obtain ⟨hfirst, hrest⟩ := List.forall_mem_cons.1 harms
    cases stands with
    | cons hv hlater =>
    cases hv with
    | arm reads' typed =>
      obtain rfl := reads.unique reads'
      refine (addArm_runs h hproper reads (.inr ⟨rfl, decides⟩) typed hfirst ?_ ?_ 0).bind ?_
      · simp
      · simp
      rintro _ rfl
      exact addArms_runs h hproper hlater hrest tags names 1

end Running

/-! ## Payloads -/

/-- Finds out the fields of a payload if it is a record. -/
def findPayload (d : Document) (v : UnionVariant) : Build Unit :=
  match v.payload with
  | .named payload => do
    let _ ← recordFieldsOfName? d payload
    return ()
  | _ => return ()

/-- Finds out the fields of all payloads that are records, whatever stands between them. -/
def findPayloads (d : Document) (variants : List UnionVariant) : Build Unit :=
  variants.forM (findPayload d)

/-- What is known of a payload that has been looked at: the fields of a record, or that it is something
else. -/
def LookedAt (r : Registry) (v : UnionVariant) : Prop :=
  (∃ fields, r.RecordPayload v fields) ∨
    ∀ name, v.payload = .named name → ∃ node schema, r.nodeOf? name = some node ∧
      Schema.classify name.text node = .ok schema ∧ schema.kind.isRecord = false

theorem LookedAt.remembers {v : UnionVariant} (h : LookedAt r v) (hremembers : r.Remembers r') :
    LookedAt r' v := by
  rcases h with ⟨fields, hrecord⟩ | hother
  · exact .inl ⟨fields, hremembers.recordPayload hrecord⟩
  · refine .inr fun name hname => ?_
    obtain ⟨node, schema, hnode, hclassify⟩ := hother name hname
    exact ⟨node, schema, hremembers.nodeOf? hnode, hclassify⟩

/-- Payloads that have been looked at are those of a union, in whatever order. -/
theorem visits_of_lookedAt {variants : List UnionVariant} (h : ∀ v ∈ variants, LookedAt r v) :
    r.Visits variants := by
  induction variants with
  | nil => exact .nil
  | cons v rest ih =>
    obtain ⟨hv, hrest⟩ := List.forall_mem_cons.1 h
    rcases hv with ⟨fields, hrecord⟩ | hother
    · exact .record hrecord (ih hrest)
    · exact .other hother

section Found

variable {root : Json} (hdoc : Document.ofJson root = .ok d) (hroot : d.root.DistinctKeys)

include hdoc hroot

theorem findPayload_looks {v : UnionVariant} (informed : r.Informed d) (hknown : r.KnownPayload v)
    (h : findPayload d v r = .ok ((), r')) : r'.Informed d ∧ r.Remembers r' ∧ LookedAt r' v := by
  cases hpayload : v.payload with
  | named payload =>
    rw [findPayload, hpayload] at h
    obtain ⟨found, s, hfound, h⟩ := bind_eq_ok.1 h
    obtain ⟨-, rfl⟩ := pure_eq_ok.1 h
    have laws := FieldLaws.of_nodes (Json.hereditary_within d.root) (.refl d.root)
    have hholds := (laws.recordFieldsOfName?_keeps payload informed.holds hfound).1
    refine ⟨informed.unfolds hdoc hroot (recordFieldsOfName?_unfolds hfound) hholds,
      (recordFieldsOfName?_merges hdoc hroot informed.toKept hfound).toRemembers, ?_⟩
    rcases recordFieldsOfName?_cases hdoc hroot informed.toKept hknown hpayload hfound with
      ⟨fields, -, hrecord⟩ | ⟨-, hother⟩
    · exact .inl ⟨fields, hrecord⟩
    · exact .inr hother
  | _ =>
    rw [findPayload, hpayload] at h
    obtain ⟨-, rfl⟩ := pure_eq_ok.1 h
    exact ⟨informed, .refl r, .inr fun name hname => by cases hpayload.symm.trans hname⟩

theorem findPayloads_looks {variants : List UnionVariant} (informed : r.Informed d)
    (hknown : ∀ v ∈ variants, r.KnownPayload v) (h : findPayloads d variants r = .ok ((), r')) :
    r'.Informed d ∧ r.Remembers r' ∧ ∀ v ∈ variants, LookedAt r' v := by
  induction variants generalizing r with
  | nil =>
    obtain ⟨-, rfl⟩ := pure_eq_ok.1 h
    exact ⟨informed, .refl r, by simp⟩
  | cons v rest ih =>
    obtain ⟨hv, hrest⟩ := List.forall_mem_cons.1 hknown
    rw [findPayloads, List.forM] at h
    obtain ⟨⟨⟩, s, hfirst, hlater⟩ := bind_eq_ok.1 h
    obtain ⟨hinformed, hremembers, hlooked⟩ := findPayload_looks hdoc hroot informed hv hfirst
    obtain ⟨hinformed', hremembers', hlooked'⟩ :=
      ih hinformed (fun w hw => hremembers.knownPayload (hrest w hw)) hlater
    exact ⟨hinformed', hremembers.trans hremembers',
      List.forall_mem_cons.2 ⟨hlooked.remembers hremembers', hlooked'⟩⟩

/-! ## Unions -/

/-- Whether arms are accepted as a union. -/
def Accepts (d : Document) (r : Registry) (name : TypeName) (node : Json) (arms : List Json) : Prop :=
  ∃ u s, buildUnion d name node arms r = .ok (u, s)

theorem Occurs.buildUnion_informed (h : Occurs d r) {name : TypeName} {node : Json}
    {arms : List Json} {u : UnionDecl} (harms : ∀ arm ∈ arms, d.root.Within arm)
    (hrun : buildUnion d name node arms r = .ok (u, r')) :
    r'.Informed d ∧ r.Remembers r' ∧ ∀ v ∈ u.variants, r'.KnownPayload v := by
  have informed := h.informed hdoc hroot
  have laws := FieldLaws.of_nodes (Json.hereditary_within d.root) (.refl d.root)
  have hholds := (laws.buildUnion_keeps name node harms informed.holds hrun).1
  have hunfolds := buildUnion_unfolds hrun
  obtain ⟨-, hremembers, -⟩ := hunfolds.keeps hdoc hroot informed.toKept
  obtain ⟨declared, hsound⟩ := ((unions_invariant hdoc hroot).occurs h).sound
  obtain ⟨s, found, hkept, hknown, hfound, -⟩ :=
    exists_payloadFields_of_buildUnion informed.toKept hsound hrun
  have hlater := (payloadFields_merges hdoc hroot hkept hfound).toRemembers
  exact ⟨informed.unfolds hdoc hroot hunfolds hholds, hremembers,
    fun v hv => hlater.knownPayload (hknown v hv)⟩

/-- Where all payloads are records, a union that is built has looked at them. -/
theorem Occurs.lookedAt_of_records (h : Occurs d r) {name : TypeName} {node : Json}
    {arms : List Json} {u : UnionDecl} (hrun : buildUnion d name node arms r = .ok (u, r'))
    (hrecords : ∀ v ∈ u.variants, ¬r'.OtherPayload v) : ∀ v ∈ u.variants, LookedAt r' v := by
  have hkept := (h.informed hdoc hroot).toKept
  obtain ⟨declared, hsound⟩ := ((unions_invariant hdoc hroot).occurs h).sound
  obtain ⟨s, found, hkept', hknown, hfound, -⟩ :=
    exists_payloadFields_of_buildUnion hkept hsound hrun
  intro v hv
  rcases payloadFields_payloads hdoc hroot hkept' hknown hfound with
    ⟨fields, -, hfields⟩ | ⟨-, w, hw, hother⟩
  · obtain ⟨own, -, hrecord⟩ := exists_of_mem_forall₂ hfields.flip hv
    exact .inl ⟨own, hrecord⟩
  · exact absurd hother (hrecords w hw)

end Found

section Again

variable (h : Document.Reordered d d) (informed : R.Informed d)

include h informed

/-- The fields of payloads that have been looked at are found out again. -/
theorem findPayloads_succeeds {variants : List UnionVariant}
    (hlooked : ∀ v ∈ variants, LookedAt R v) :
    Succeeds (R.Under []) (findPayloads d variants) anyResult := by
  refine .forM fun v hv => ?_
  cases hpayload : v.payload with
  | named payload =>
    rw [findPayload, hpayload]
    refine Succeeds.bind (p := anyResult) ?_ fun _ _ => .pure trivial
    rcases hlooked v hv with ⟨fields, hrecord⟩ | hother
    · exact informed.recordFieldsOfName?_succeeds h hrecord hpayload
    · obtain ⟨node, schema, hnode, hclassify, hkind⟩ := hother payload hpayload
      exact (Registry.Informed.recordFieldsOfName?_nothing hnode hclassify hkind).any
  | _ =>
    rw [findPayload, hpayload]
    exact .pure trivial

/-- A draft that a registry with all payloads looked at knows is a union that is built again. -/
theorem Drafted.accepts (hunder : R.Under [] r) {name : TypeName} {arms : List Json}
    {variants : List UnionVariant} (hdrafted : Drafted d R name arms ⟨some layout, variants⟩)
    (harms : ∀ arm ∈ arms, arm.Proper) (hlooked : ∀ v ∈ variants, LookedAt R v) (node : Json) :
    Accepts d r name node arms := by
  obtain ⟨_, s, hrun, hs, rfl⟩ := hdrafted.runs h (informed.proper h.proper) harms hunder
  obtain ⟨found, s', hfound, -⟩ :=
    informed.payloadFields_succeeds h (visits_of_lookedAt hlooked) hs
  exact ⟨_, s', buildUnion_eq_ok_iff.2 ⟨layout, variants, s, _, hrun,
    bind_eq_ok.2 ⟨found, s', hfound, pure_eq_ok.2 ⟨rfl, rfl⟩⟩, rfl⟩⟩

end Again

/-- What is found by running two unions from where the named schemas are registered. -/
theorem exists_accepts_not_accepts {name : TypeName} {node node' : Json} {arms arms' : List Json}
    (h : ((do registerSchemas d; buildUnion d name node arms : Build UnionDecl)
      .empty).toOption.isSome = true)
    (h' : ((do registerSchemas d; buildUnion d name node' arms' : Build UnionDecl)
      .empty).toOption.isSome = false) :
    ∃ r, Occurs d r ∧ Accepts d r name node arms ∧ ¬Accepts d r name node' arms' := by
  obtain ⟨⟨u, s⟩, hrun⟩ := Option.isSome_iff_exists.1 h
  obtain ⟨⟨⟩, r, hregistered, hunion⟩ := bind_eq_ok.1 (toOption_eq_some_iff.1 hrun)
  refine ⟨r, .registered hregistered, ⟨u, s, hunion⟩, fun ⟨u', s', hunion'⟩ => ?_⟩
  have hrun' : (do registerSchemas d; buildUnion d name node' arms' : Build UnionDecl) .empty =
      .ok (u', s') :=
    bind_eq_ok.2 ⟨(), r, hregistered, hunion'⟩
  rw [hrun'] at h'
  cases h'

def noteArm : Json := taggedArm "note" (.obj [("type", .str "string")])

def boxArm : Json := taggedArm "box" (.obj [("allOf", .arr [.obj [("type", .str "string")]])])

/-- A union of a text and of a merged schema that does not come down to object schemas. -/
def parcels : Json := oneSchema "Parcel" (unionNode [noteArm, boxArm])

end OpenApiServer.Build
