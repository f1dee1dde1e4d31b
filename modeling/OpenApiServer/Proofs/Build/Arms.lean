import Mathlib.Data.List.Permutation
import OpenApiServer.Proofs.Build.Readings
import OpenApiServer.Proofs.Build.Succeeds

/-!
# The arms of a union

An arm is read without a look at the registry: under a layout it is an object of the two properties of
this layout, of which the one is a constant text. An arm is added to a draft exactly if it reads so
under a layout that the draft admits, and neither its tag nor the name of its variant is taken.
-/

namespace OpenApiServer.Build

variable {d : Document} {r r' : Registry} {union : TypeName} {draft draft' : UnionDraft}
  {layout : UnionLayout} {node : Json}

/-- What an arm says: its tag, the schema of its payload, and the text of the payload if that is a
constant too. -/
structure ArmReading where
  tag : String
  payload : Json
  constant : Option String

namespace ArmReading

/-- The name that an inline payload gets. -/
def suggested (union : TypeName) (reading : ArmReading) : TypeName :=
  .ofFragments [union.text, Name.pascalCase [reading.tag]]

end ArmReading

/-- Whether an arm is an object of the tag and the payload of a layout, both required, and of nothing
else, and what it says. -/
inductive Reads (d : Document) (union : TypeName) (layout : UnionLayout) (node : Json) :
    ArmReading → Prop where
  | object {target tagNode payload : Json} {properties : List (String × Json)}
    {required : List String} {tag : String} {constant : Option String}
    (apart : layout.tagField ≠ layout.payloadField)
    (target_eq : d.dereference node = .ok target)
    (classify_eq : Schema.classify union.text target = .ok (.object properties required))
    (properties_perm : properties.Perm [(layout.tagField, tagNode), (layout.payloadField, payload)])
    (tag_required : layout.tagField ∈ required) (payload_required : layout.payloadField ∈ required)
    (tag_eq : singleLiteral d union tagNode = .ok (some tag))
    (constant_eq : singleLiteral d union payload = .ok constant) :
    Reads d union layout node ⟨tag, payload, constant⟩

/-- Whether a layout goes with the arms before. The first arm decides on it, and has one constant. -/
def UnionDraft.Admits (draft : UnionDraft) (layout : UnionLayout) (constant : Option String) : Prop :=
  draft.layout = some layout ∨ draft.layout = none ∧ constant = none

/-! ## Reading an arm -/

theorem readArm_eq_ok_iff {arm : Nat} {properties : List (String × Json)}
    {literals : List (String × String)} {tag : String} {payload : Json} :
    readArm arm draft properties literals = .ok (layout, tag, payload) ↔
      tagOf arm draft.layout literals = .ok (layout.tagField, tag) ∧
        properties.find? (·.1 != layout.tagField) = some (layout.payloadField, payload) ∧
          (draft.layout = none ∨ draft.layout = some layout) ∧
            tag ∉ draft.variants.map (·.tag) := by
  have hrepeated : (draft.variants.any (·.tag == tag)) = true ↔ tag ∈ draft.variants.map (·.tag) := by
    simp
  have hagree (found : UnionLayout) : agreeOnLayout arm draft.layout found = .ok () ↔
      (draft.layout = none ∨ draft.layout = some found) := by
    cases draft.layout with
    | none => simp [agreeOnLayout]
    | some expected =>
      by_cases hsame : found = expected
      · simp [agreeOnLayout, hsame]
      · simp [agreeOnLayout, hsame, Ne.symm hsame]
  rw [readArm, bind_eq_ok_iff]
  constructor
  · rintro ⟨⟨tagField, text⟩, htag, h⟩
    dsimp only at h
    split at h
    next => cases h
    next payloadField node hfind =>
      obtain ⟨⟨⟩, hlayout, h⟩ := bind_eq_ok_iff.1 h
      split at h
      · cases h
      next hnew =>
        obtain ⟨rfl, hrest⟩ := Prod.mk.inj (Except.ok.inj h)
        obtain ⟨rfl, rfl⟩ := Prod.mk.inj hrest
        exact ⟨htag, hfind, (hagree _).1 hlayout, fun hmem => hnew (hrepeated.2 hmem)⟩
  · rintro ⟨htag, hfind, hlayout, hnew⟩
    refine ⟨_, htag, ?_⟩
    dsimp only
    rw [hfind]
    dsimp only
    rw [(hagree _).2 hlayout, ok_bind, if_neg fun hmem => hnew (hrepeated.1 hmem)]
    rfl

/-- The first arm has one constant. -/
theorem eq_singleton_of_tagOf {arm : Nat} {literals : List (String × String)}
    {tagged : String × String} (h : tagOf arm none literals = .ok tagged) : literals = [tagged] := by
  unfold tagOf at h
  split at h
  next literal _ => rw [Except.ok.inj h]
  next heq => cases heq
  all_goals cases h

theorem tagOf_eq_ok {constant : Option String} (hadmits : draft.Admits layout constant) (arm : Nat)
    (tag : String) :
    tagOf arm draft.layout ((some (layout.tagField, tag)).toList ++
      (constant.map (layout.payloadField, ·)).toList) = .ok (layout.tagField, tag) := by
  cases constant with
  | none => rfl
  | some text =>
    rcases hadmits with hlayout | ⟨-, hnone⟩
    · rw [hlayout]
      simp [tagOf, List.find?]
    · cases hnone

/-- The property that is not the tag is the other one of the two. -/
theorem other_of_find? {p q found : String × Json} {key : String}
    (hkey : key = p.1 ∨ key = q.1) (h : [p, q].find? (·.1 != key) = some found) :
    key = p.1 ∧ found = q ∨ key = q.1 ∧ found = p := by
  by_cases hp : p.1 = key
  · have hfound : found ∈ [q] := by
      rw [List.find?_cons_of_neg (by simp [hp])] at h
      exact List.mem_of_find?_eq_some h
    exact .inl ⟨hp.symm, List.mem_singleton.1 hfound⟩
  · rw [List.find?_cons_of_pos (by simp [hp])] at h
    exact .inr ⟨hkey.resolve_left (Ne.symm hp), (Option.some.inj h).symm⟩

/-- What is read of two properties is read under the layout of the one with the tag and the other. -/
theorem reads_of_readArm {arm : Nat} {target : Json} {properties : List (String × Json)}
    {required : List String} {literals : List (String × String)} {tag : String} {payload : Json}
    (htarget : d.dereference node = .ok target)
    (hclassify : Schema.classify union.text target = .ok (.object properties required))
    (hlength : properties.length = 2) (hrequired : ∀ p ∈ properties, p.1 ∈ required)
    (hliterals : armLiterals d union properties = .ok literals)
    (hread : readArm arm draft properties literals = .ok (layout, tag, payload)) :
    ∃ constant, Reads d union layout node ⟨tag, payload, constant⟩ ∧
      draft.Admits layout constant := by
  obtain ⟨p, q, rfl⟩ := List.length_eq_two.1 hlength
  obtain ⟨first, second, hfirst, hsecond, rfl⟩ := armLiterals_pair.1 hliterals
  obtain ⟨htag, hfind, hlayout, -⟩ := readArm_eq_ok_iff.1 hread
  obtain ⟨hp, hq⟩ : p.1 ∈ required ∧ q.1 ∈ required := by simpa using hrequired
  have hapart : layout.tagField ≠ layout.payloadField := by
    have hother := List.find?_some hfind
    exact (bne_iff_ne.1 hother).symm
  have hadmits {constant : Option String} (hone : ∀ tagged,
      (first.map (p.1, ·)).toList ++ (second.map (q.1, ·)).toList = [tagged] → constant = none) :
      draft.Admits layout constant := by
    rcases hlayout with hnone | hsome
    · rw [hnone] at htag
      exact .inr ⟨hnone, hone _ (eq_singleton_of_tagOf htag)⟩
    · exact .inl hsome
  rcases List.mem_append.1 (mem_of_tagOf htag) with hmem | hmem
  · obtain ⟨text, rfl, heq⟩ := Option.map_eq_some_iff.1 (Option.mem_toList.1 hmem)
    obtain ⟨hkey, rfl⟩ := Prod.mk.inj heq
    obtain ⟨-, rfl⟩ | ⟨hsame, rfl⟩ := other_of_find? (.inl hkey.symm) hfind
    · refine ⟨second, .object hapart htarget hclassify ?_ (hkey ▸ hp) hq hfirst hsecond, ?_⟩
      · rw [← hkey]
      · exact hadmits fun tagged hone => by cases second <;> simp_all
    · exact absurd hkey.symm hapart
  · obtain ⟨text, rfl, heq⟩ := Option.map_eq_some_iff.1 (Option.mem_toList.1 hmem)
    obtain ⟨hkey, rfl⟩ := Prod.mk.inj heq
    obtain ⟨hsame, rfl⟩ | ⟨-, rfl⟩ := other_of_find? (.inr hkey.symm) hfind
    · exact absurd hkey.symm hapart
    · refine ⟨first, .object hapart htarget hclassify ?_ (hkey ▸ hq) hp hsecond hfirst, ?_⟩
      · rw [← hkey]
        exact List.Perm.swap ..
      · exact hadmits fun tagged hone => by cases first <;> simp_all

/-- What reads under a layout that the draft admits is read, in whatever order the properties stand. -/
theorem readArm_of_reads {reading : ArmReading} (h : Reads d union layout node reading)
    (hadmits : draft.Admits layout reading.constant)
    (hnew : reading.tag ∉ draft.variants.map (·.tag)) (arm : Nat) :
    ∃ target properties required literals, d.dereference node = .ok target ∧
      Schema.classify union.text target = .ok (.object properties required) ∧
        properties.length = 2 ∧ (∀ p ∈ properties, p.1 ∈ required) ∧
          armLiterals d union properties = .ok literals ∧
            readArm arm draft properties literals = .ok (layout, reading.tag, reading.payload) := by
  cases h with
  | @object target tagNode payload properties required tag constant apart target_eq classify_eq
      properties_perm tag_required payload_required tag_eq constant_eq =>
    have htag := tagOf_eq_ok hadmits arm tag
    have hlayout : draft.layout = none ∨ draft.layout = some layout :=
      hadmits.elim .inr fun hnone => .inl hnone.1
    have hrequired : ∀ p ∈ properties, p.1 ∈ required := by
      intro p hp
      have hmem := properties_perm.subset hp
      simp only [List.mem_cons, List.not_mem_nil, or_false] at hmem
      rcases hmem with rfl | rfl
      · exact tag_required
      · exact payload_required
    have hlength : properties.length = 2 := properties_perm.length_eq
    rcases List.perm_pair.1 properties_perm with rfl | rfl
    · refine ⟨target, _, required, _, target_eq, classify_eq, hlength, hrequired,
        armLiterals_pair.2 ⟨some tag, constant, tag_eq, constant_eq, rfl⟩, ?_⟩
      refine readArm_eq_ok_iff.2 ⟨htag, ?_, hlayout, hnew⟩
      simp [apart.symm]
    · refine ⟨target, _, required, _, target_eq, classify_eq, hlength, hrequired,
        armLiterals_pair.2 ⟨constant, some tag, constant_eq, tag_eq, rfl⟩, ?_⟩
      refine readArm_eq_ok_iff.2 ⟨?_, ?_, hlayout, hnew⟩
      · rw [← htag]
        exact tagOf_comm apart.symm constant (some tag)
      · simp [apart.symm]

/-- When an arm is added, and what it adds. -/
theorem addArm_eq_ok_iff {arm : Nat} :
    addArm d union draft arm node r = .ok (draft', r') ↔ ∃ layout reading type,
      Reads d union layout node reading ∧ draft.Admits layout reading.constant ∧
        reading.tag ∉ draft.variants.map (·.tag) ∧
          typeOf d reading.payload (reading.suggested union) r = .ok (type, r') ∧
            type.variantName ∉ draft.variants.map (·.name) ∧
              draft' = ⟨some layout,
                draft.variants ++ [⟨type.variantName, reading.tag, type⟩]⟩ := by
  have hwrong {properties : List (String × Json)} {required : List String} :
      (properties.length != 2 || properties.any fun p => !required.contains p.1) = true ↔
        ¬(properties.length = 2 ∧ ∀ p ∈ properties, p.1 ∈ required) := by
    rw [not_and_or]
    simp
  have hrepeated (name : TypeName) : (draft.variants.any (·.name == name)) = true ↔
      name ∈ draft.variants.map (·.name) := by
    simp
  rw [addArm, lift_bind_eq_ok]
  constructor
  · rintro ⟨target, htarget, h⟩
    obtain ⟨schema, hclassify, h⟩ := lift_bind_eq_ok.1 h
    split at h
    next properties required =>
      dsimp only at h
      split at h
      · exact absurd h flawed_error_bind_ne_ok
      next hright =>
        obtain ⟨hlength, hrequired⟩ := not_not.1 fun hnot => hright (hwrong.2 hnot)
        obtain ⟨literals, hliterals, h⟩ := lift_bind_eq_ok.1 h
        obtain ⟨⟨layout, tag, payload⟩, s, hflawed, h⟩ := bind_eq_ok.1 h
        obtain ⟨hread, rfl⟩ := flawed_eq_ok hflawed
        obtain ⟨type, s', htype, h⟩ := bind_eq_ok.1 h
        dsimp only at h
        split at h
        · exact absurd h flawed_error_bind_ne_ok
        next hnew =>
          obtain ⟨rfl, rfl⟩ := pure_eq_ok.1 h
          obtain ⟨constant, hreads, hadmits⟩ :=
            reads_of_readArm htarget hclassify hlength hrequired hliterals hread
          obtain ⟨-, -, -, hfree⟩ := readArm_eq_ok_iff.1 hread
          exact ⟨layout, _, type, hreads, hadmits, hfree, htype,
            fun hmem => hnew ((hrepeated _).2 hmem), rfl⟩
    next => exact absurd h fail_ne_ok
  · rintro ⟨layout, reading, type, hreads, hadmits, hfree, htype, hnew, rfl⟩
    obtain ⟨target, properties, required, literals, htarget, hclassify, hlength, hrequired,
      hliterals, hread⟩ := readArm_of_reads hreads hadmits hfree arm
    refine ⟨target, htarget, lift_bind_eq_ok.2 ⟨_, hclassify, ?_⟩⟩
    dsimp only
    rw [if_neg fun h => hwrong.1 h ⟨hlength, hrequired⟩, lift_bind_eq_ok]
    refine ⟨literals, hliterals, ?_⟩
    rw [hread, flawed, pure_bind]
    refine bind_eq_ok.2 ⟨type, r', htype, ?_⟩
    rw [if_neg fun h => hnew ((hrepeated _).1 h)]
    exact pure_eq_ok.2 ⟨rfl, rfl⟩

end OpenApiServer.Build

/-!
## Variants of arms

Each arm has one variant, in the order of the arms. What is known of an arm stays known, and the type
of its payload is found again without a change.
-/

namespace OpenApiServer

namespace Registry

variable {d : Document} {r r' R : Registry} {node : Json} {suggested : TypeName} {type : TypeExpr}

/-- Whether a place has a type, with the schemas in it known. -/
def Typed (d : Document) (r : Registry) (node : Json) (suggested : TypeName) (type : TypeExpr) :
    Prop :=
  ∃ inline, Build.placeOf d node suggested = .ok ⟨type, inline⟩ ∧ r.Knows inline

theorem typed_of_typeOf (h : Build.typeOf d node suggested r = .ok (type, r')) :
    r'.Typed d node suggested type := by
  obtain ⟨inline, hplace, henlist⟩ := Build.typeOf_eq_ok.1 h
  exact ⟨inline, hplace, knows_of_enlist henlist⟩

theorem Remembers.typed (h : r.Remembers r') (htyped : r.Typed d node suggested type) :
    r'.Typed d node suggested type := by
  obtain ⟨inline, hplace, hknows⟩ := htyped
  exact ⟨inline, hplace, h.knows hknows⟩

/-- What is known is enlisted already. -/
theorem Knows.enlist_eq {inline : Option (TypeName × Json)} (h : R.Knows inline)
    (hproper : R.ProperNodes) : R.enlist inline = .ok R := by
  cases inline with
  | none => rfl
  | some found =>
    obtain ⟨known, hknown, hagrees⟩ := h found rfl
    obtain ⟨claim, hclaim, rfl⟩ := Option.map_eq_some_iff.1 hknown
    rw [enlist, register, hclaim]
    exact if_pos ((hproper hknown).same_of_agrees hagrees)

/-- A type that has been found is found again, and nothing is registered for it. -/
theorem Typed.typeOf_eq (h : R.Typed d node suggested type) (hproper : R.ProperNodes) :
    Build.typeOf d node suggested R = .ok (type, R) := by
  obtain ⟨inline, hplace, hknows⟩ := h
  exact Build.typeOf_eq_ok.2 ⟨inline, hplace, hknows.enlist_eq hproper⟩

end Registry

/-- The properties that hold the tag and the payload of a union. -/
def UnionDecl.layout (u : UnionDecl) : Build.UnionLayout := ⟨u.tagField, u.payloadField⟩

namespace Build

variable {d : Document} {r r' : Registry} {union : TypeName} {layout : UnionLayout}

/-- The variant that stands for an arm: it has the tag of the arm and the type of its payload, and is
named after this type. -/
inductive VariantOf (d : Document) (r : Registry) (union : TypeName) (layout : UnionLayout)
    (arm : Json) : UnionVariant → Prop where
  | arm {reading : ArmReading} {type : TypeExpr} (reads : Reads d union layout arm reading)
    (typed : r.Typed d reading.payload (reading.suggested union) type) :
    VariantOf d r union layout arm ⟨type.variantName, reading.tag, type⟩

theorem VariantOf.remembers {arm : Json} {v : UnionVariant} (h : VariantOf d r union layout arm v)
    (hremembers : r.Remembers r') : VariantOf d r' union layout arm v := by
  cases h with
  | arm reads typed => exact .arm reads (hremembers.typed typed)

/-- Whether a draft has a variant for each arm, in their order, with tags and names that do not repeat.
The first arm has one constant, and with it the layout is known. -/
inductive Drafted (d : Document) (r : Registry) (union : TypeName) : List Json → UnionDraft → Prop where
  | empty : Drafted d r union [] ⟨none, []⟩
  | arms {first : Json} {rest : List Json} {reading : ArmReading} {layout : UnionLayout}
    {variants : List UnionVariant} (reads : Reads d union layout first reading)
    (decides : reading.constant = none)
    (stands : List.Forall₂ (VariantOf d r union layout) (first :: rest) variants)
    (tags : (variants.map (·.tag)).Nodup) (names : (variants.map (·.name)).Nodup) :
    Drafted d r union (first :: rest) ⟨some layout, variants⟩

theorem Drafted.remembers {arms : List Json} {draft : UnionDraft} (h : Drafted d r union arms draft)
    (hremembers : r.Remembers r') : Drafted d r' union arms draft := by
  cases h with
  | empty => exact .empty
  | arms reads decides stands tags names =>
    exact .arms reads decides (stands.imp fun _ _ hstands => hstands.remembers hremembers) tags names

/-- An arm drafts its variant. -/
theorem addArm_drafted {arms : List Json} {draft draft' : UnionDraft} {arm : Nat} {node : Json}
    (h : Drafted d r union arms draft) (hrun : addArm d union draft arm node r = .ok (draft', r')) :
    Drafted d r' union (arms ++ [node]) draft' := by
  have hremembers := (addArm_registering union draft arm node hrun).toRemembers
  obtain ⟨layout, reading, type, hreads, hadmits, hfree, htype, hnew, rfl⟩ :=
    addArm_eq_ok_iff.1 hrun
  have hstands : VariantOf d r' union layout node ⟨type.variantName, reading.tag, type⟩ :=
    .arm hreads (Registry.typed_of_typeOf htype)
  cases h.remembers hremembers with
  | empty =>
    rcases hadmits with hlayout | ⟨-, hone⟩
    · cases hlayout
    · exact .arms hreads hone (.cons hstands .nil) (by simp) (by simp)
  | @arms first rest _ expected variants reads decides stands tags names =>
    obtain rfl : expected = layout := by
      rcases hadmits with hlayout | ⟨hlayout, -⟩
      · exact Option.some.inj hlayout
      · cases hlayout
    refine .arms reads decides (List.rel_append stands (.cons hstands .nil)) ?_ ?_
    · rw [List.map_append, List.map_singleton, ← List.concat_eq_append]
      exact tags.concat hfree
    · rw [List.map_append, List.map_singleton, ← List.concat_eq_append]
      exact names.concat hnew

theorem addArms_drafted {arms rest : List Json} {draft draft' : UnionDraft} {arm : Nat}
    (h : Drafted d r union arms draft) (hrun : addArms d union draft arm rest r = .ok (draft', r')) :
    Drafted d r' union (arms ++ rest) draft' := by
  induction rest generalizing r arms draft arm with
  | nil =>
    obtain ⟨rfl, rfl⟩ := pure_eq_ok.1 hrun
    rwa [List.append_nil]
  | cons node rest ih =>
    obtain ⟨next, s, hnext, hrun⟩ := bind_eq_ok.1 hrun
    rw [List.append_cons]
    exact ih (addArm_drafted h hnext) hrun

theorem buildUnion_eq_ok_iff {name : TypeName} {node : Json} {arms : List Json} {u : UnionDecl} :
    buildUnion d name node arms r = .ok (u, r') ↔ ∃ layout variants s shared,
      addArms d name ⟨none, []⟩ 0 arms r = .ok (⟨some layout, variants⟩, s) ∧
        sharedFields d variants s = .ok (shared, r') ∧
          u = ⟨name, .ofNode node, layout.tagField, layout.payloadField, variants, shared⟩ := by
  rw [buildUnion, bind_eq_ok]
  constructor
  · rintro ⟨⟨layout, variants⟩, s, hdraft, h⟩
    cases layout with
    | none => exact absurd h fail_ne_ok
    | some layout =>
      obtain ⟨shared, s', hshared, h⟩ := bind_eq_ok.1 h
      obtain ⟨rfl, rfl⟩ := pure_eq_ok.1 h
      exact ⟨layout, variants, s, shared, hdraft, hshared, rfl⟩
  · rintro ⟨layout, variants, s, shared, hdraft, hshared, rfl⟩
    exact ⟨_, s, hdraft, bind_eq_ok.2 ⟨shared, r', hshared, pure_eq_ok.2 ⟨rfl, rfl⟩⟩⟩

theorem buildUnion_drafted {root : Json} (hdoc : Document.ofJson root = .ok d)
    (hroot : d.root.DistinctKeys) {name : TypeName} {node : Json} {arms : List Json} {u : UnionDecl}
    (hkept : r.Kept d) (h : buildUnion d name node arms r = .ok (u, r')) :
    u.name = name ∧ Drafted d r' name arms ⟨some u.layout, u.variants⟩ := by
  obtain ⟨layout, variants, s, shared, hdraft, hshared, rfl⟩ := buildUnion_eq_ok_iff.1 h
  obtain ⟨found, s', hfound, hpure⟩ := bind_eq_ok.1 hshared
  obtain ⟨-, rfl⟩ := pure_eq_ok.1 hpure
  have hkept' := hkept.registers (addArms_registering name ⟨none, []⟩ 0 arms hdraft)
  have hlater := payloadFields_merges hdoc hroot hkept' hfound
  have hdrafted := addArms_drafted .empty hdraft
  exact ⟨rfl, hdrafted.remembers hlater.toRemembers⟩

end Build

end OpenApiServer
