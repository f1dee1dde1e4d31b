import OpenApiServer.Proofs.Build.Places
import OpenApiServer.Proofs.Build.Recorded
import OpenApiServer.Proofs.Json.Agree

/-!
# Where kept fields are from

Whatever name fields are kept for, they are those of the object schemas that a schema of the name
comes down to, and the properties of these object schemas all have types whose inline schemas have
been claimed. Each entry stays explained as the registry grows, so that an entry that is used again
explains the fields of whatever merges it.
-/

namespace OpenApiServer

namespace Registry

variable {d : Document} {r r' : Registry}

/-- Whether the inline schema of a place is claimed under its name, or one that agrees with it. -/
def Knows (r : Registry) (inline : Option (TypeName × Json)) : Prop :=
  ∀ found ∈ inline, ∃ node, r.nodeOf? found.1 = some node ∧ node.Agrees found.2

/-- Whether the type of a place is known with the schemas in it. -/
def Types (d : Document) (r : Registry) (node : Json) (suggested : TypeName) : Prop :=
  ∃ place, Build.placeOf d node suggested = .ok place ∧ r.Knows place.inline

/-- Whether the types of all properties of an object schema are known. -/
def TypesAll (d : Document) (r : Registry) (leaf : Build.Leaf) : Prop :=
  ∀ property ∈ leaf.properties, r.Types d property.2 (leaf.suggested property.1)

theorem Remembers.knows (h : r.Remembers r') {inline : Option (TypeName × Json)}
    (hknows : r.Knows inline) : r'.Knows inline := by
  intro found hfound
  obtain ⟨node, hnode, hagree⟩ := hknows found hfound
  exact ⟨node, h.nodeOf? hnode, hagree⟩

theorem Remembers.types (h : r.Remembers r') {node : Json} {suggested : TypeName}
    (htypes : r.Types d node suggested) : r'.Types d node suggested := by
  obtain ⟨place, hplace, hknows⟩ := htypes
  exact ⟨place, hplace, h.knows hknows⟩

theorem Remembers.typesAll (h : r.Remembers r') {leaf : Build.Leaf} (hall : r.TypesAll d leaf) :
    r'.TypesAll d leaf :=
  fun property hproperty => h.types (hall property hproperty)

theorem knows_of_enlist {inline : Option (TypeName × Json)} (h : r.enlist inline = .ok r') :
    r'.Knows inline := by
  intro found hfound
  obtain rfl := Option.mem_def.1 hfound
  rcases nodeOf?_of_register h with ⟨node, hnode, hsame, rfl⟩ | ⟨hnode, -⟩
  · exact ⟨node, hnode, .inr hsame⟩
  · exact ⟨found.2, hnode, .refl _⟩

theorem types_of_typeOf {node : Json} {suggested : TypeName} {type : TypeExpr}
    (h : Build.typeOf d node suggested r = .ok (type, r')) : r'.Types d node suggested := by
  obtain ⟨inline, hplace, henlist⟩ := Build.typeOf_eq_ok.1 h
  exact ⟨⟨type, inline⟩, hplace, knows_of_enlist henlist⟩

/-- What is known of the fields that are kept for any name. -/
def Explained (d : Document) (r : Registry) : Prop :=
  ∀ ⦃name fields⦄, r.fieldsOf? name = some fields → ∃ node leaves, r.Describes d name node ∧
    Build.LeavesOf d name node leaves ∧ Build.Merged d leaves fields ∧
      ∀ leaf ∈ leaves, r.TypesAll d leaf

theorem Explained.remembers (h : r.Explained d) (hremembers : r.Remembers r')
    (hfields : r'.fields = r.fields) : r'.Explained d := by
  intro name fields hkept
  rw [fieldsOf?, hfields] at hkept
  obtain ⟨node, leaves, hnode, hleaves, hmerged, htypes⟩ := h hkept
  exact ⟨node, leaves, hremembers.describes hnode, hleaves, hmerged,
    fun leaf hleaf => hremembers.typesAll (htypes leaf hleaf)⟩

theorem Explained.of_eq (h : r.Explained d) (hclaims : r'.claims = r.claims)
    (hfields : r'.fields = r.fields) : r'.Explained d := by
  simp only [Explained, TypesAll, Types, Knows, Describes, nodeOf?, claim?, fieldsOf?, hclaims,
    hfields]
  exact h

/-- Fields that are explained themselves can be kept. -/
theorem Explained.keepFields (h : r.Explained d) {name : TypeName} {fields : List Field}
    {node : Json} {leaves : List Build.Leaf} (hnode : r.Describes d name node)
    (hleaves : Build.LeavesOf d name node leaves) (hmerged : Build.Merged d leaves fields)
    (htypes : ∀ leaf ∈ leaves, r.TypesAll d leaf) : (r.keepFields name fields).Explained d := by
  intro name' fields' hkept
  rw [fieldsOf?_keepFields] at hkept
  split at hkept
  next heq =>
    obtain rfl := Option.some.inj hkept
    subst heq
    exact ⟨node, leaves, hnode, hleaves, hmerged, htypes⟩
  next => exact h hkept

end Registry

namespace Build

variable {d : Document} {r r' : Registry}

theorem typesAll_of_objectFields (leaf : Leaf) {fields : List Field}
    (h : objectFields d leaf.owner leaf.properties leaf.required r = .ok (fields, r')) :
    r'.TypesAll d leaf := by
  obtain ⟨owner, properties, required⟩ := leaf
  dsimp only at h
  -- What is found out for one property is still known after the later ones.
  suffices hall : ∀ property ∈ properties, r'.Types d property.2
      (.ofFragments [owner.text, Name.pascalCase [property.1]]) by
    intro property hproperty
    rw [Leaf.suggested]
    exact hall property hproperty
  rw [objectFields] at h
  induction properties generalizing r fields with
  | nil => simp
  | cons property rest ih =>
    rw [List.mapM_cons] at h
    obtain ⟨first, s, hfirst, h⟩ := bind_eq_ok.1 h
    obtain ⟨later, t, hlater, h⟩ := bind_eq_ok.1 h
    obtain ⟨-, rfl⟩ := pure_eq_ok.1 h
    obtain ⟨type, u, htype, hfirst⟩ := bind_eq_ok.1 hfirst
    obtain ⟨-, rfl⟩ := pure_eq_ok.1 hfirst
    refine List.forall_mem_cons.2 ⟨?_, ih hlater⟩
    have hremembers := objectFields_registering owner rest required hlater
    exact hremembers.toRemembers.types (Registry.types_of_typeOf htype)

/-! ## Merging -/

/-- What the parts that are merged come down to. -/
structure Collects (d : Document) (owner : TypeName) (parts : List Json) (merged fields : List Field)
    (r : Registry) : Prop where
  explained : r.Explained d
  flattens : ∀ leaves, Merged d leaves merged → ∃ more, Flattens d owner parts more ∧
    Merged d (leaves ++ more) fields ∧ ∀ leaf ∈ more, r.TypesAll d leaf

/-- Whether a run at some depth that finds out the fields of a record explains them. -/
def ExplainsFields (d : Document) (depth : Nat) : Prop :=
  ∀ ⦃r r' : Registry⦄ ⦃name : TypeName⦄ ⦃node : Json⦄ ⦃fields : List Field⦄,
    r.Kept d → r.Explained d → r.Describes d name node → node.DistinctKeys →
      recordFieldsFrom d depth name node r = .ok (fields, r') → r'.Explained d

/-- Whether a run at some depth that merges a part collects what the part comes down to. -/
def CollectsParts (d : Document) (depth : Nat) : Prop :=
  ∀ ⦃r r' : Registry⦄ ⦃owner : TypeName⦄ ⦃merged fields : List Field⦄ ⦃part : Json⦄,
    r.Kept d → r.Explained d → part.DistinctKeys →
      mergeFragmentFrom d depth owner merged part r = .ok (fields, r') →
        Collects d owner [part] merged fields r'

namespace Collects

variable {owner : TypeName} {merged fields : List Field}

theorem nil (h : r.Explained d) : Collects d owner [] merged merged r :=
  ⟨h, fun leaves hmerged => ⟨[], .nil owner, by rwa [List.append_nil], by simp⟩⟩

theorem cons {part : Json} {rest : List Json} {next : List Field}
    (h : Collects d owner [part] merged next r) (h' : Collects d owner rest next fields r')
    (hremembers : r.Remembers r') : Collects d owner (part :: rest) merged fields r' where
  explained := h'.explained
  flattens leaves hmerged := by
    obtain ⟨first, hfirst, hnext, htypes⟩ := h.flattens leaves hmerged
    obtain ⟨later, hlater, hfields, htypes'⟩ := h'.flattens _ hnext
    rw [List.append_assoc] at hfields
    cases hfirst with
    | cons stands hleaves following =>
      cases following
      rw [List.append_nil] at hfields htypes
      refine ⟨_, .cons stands hleaves hlater, hfields, List.forall_mem_append.2 ⟨?_, htypes'⟩⟩
      exact fun leaf hleaf => hremembers.typesAll (htypes leaf hleaf)

/-- A part whose fields are explained on their own. -/
theorem of_fields {part node : Json} {name : TypeName} {leaves : List Leaf} (h : r.Explained d)
    (hstands : StandsFor d owner part name node) (hleaves : LeavesOf d name node leaves)
    (hmerged : Merged d leaves fields) (htypes : ∀ leaf ∈ leaves, r.TypesAll d leaf) :
    Collects d owner [part] merged (absorb merged fields) r where
  explained := h
  flattens before hbefore := by
    refine ⟨leaves ++ [], .cons hstands hleaves (.nil owner), ?_, ?_⟩
    · rw [List.append_nil]
      exact hbefore.absorb hmerged
    · rwa [List.append_nil]

/-- A part that merges parts of its own. -/
theorem of_parts {part node : Json} {parts : List Json}
    (hplain : fragmentComponent d owner part = .ok none) (hleads : d.dereference part = .ok node)
    (hparts : Schema.classify owner.text node = .ok (.allOf parts))
    (h : Collects d owner parts merged fields r) : Collects d owner [part] merged fields r where
  explained := h.explained
  flattens leaves hmerged := by
    obtain ⟨more, hmore, hfields, htypes⟩ := h.flattens leaves hmerged
    refine ⟨more ++ [], .cons (.inline hplain hleads) (.allOf hparts hmore) (.nil owner), ?_, ?_⟩
    · rwa [List.append_nil]
    · rwa [List.append_nil]

end Collects

section Explaining

variable {root : Json} (hdoc : Document.ofJson root = .ok d) (hroot : d.root.DistinctKeys)
  {depth : Nat}

include hdoc hroot

theorem CollectsParts.foldlM (hpart : CollectsParts d depth) {owner : TypeName}
    {parts : List Json} {merged fields : List Field} (hkept : r.Kept d) (hexplained : r.Explained d)
    (hparts : ∀ part ∈ parts, part.DistinctKeys)
    (h : parts.foldlM (mergeFragmentFrom d depth owner) merged r = .ok (fields, r')) :
    Collects d owner parts merged fields r' := by
  induction parts generalizing r merged with
  | nil =>
    obtain ⟨rfl, rfl⟩ := pure_eq_ok.1 h
    exact .nil hexplained
  | cons part rest ih =>
    rw [List.foldlM_cons] at h
    obtain ⟨next, s, hfirst, h⟩ := bind_eq_ok.1 h
    obtain ⟨hpartKeys, hrest⟩ := List.forall_mem_cons.1 hparts
    obtain ⟨hmerges, -⟩ := absorbsParts hdoc hroot depth hkept hfirst
    have hcollects := hpart hkept hexplained hpartKeys hfirst
    obtain ⟨hlater, -⟩ := (absorbsParts hdoc hroot depth).foldlM hmerges.kept h
    exact hcollects.cons (ih hmerges.kept hcollects.explained hrest h) hlater.toRemembers

theorem CollectsParts.explainsFields (hparts : CollectsParts d depth) :
    ExplainsFields d (depth + 1) := by
  intro r r' name node fields hkept hexplained hnode hkeys h
  rw [recordFieldsFrom, get_bind_eq_ok] at h
  cases hknown : r.fieldsOf? name with
  | some known =>
    rw [hknown] at h
    obtain ⟨-, rfl⟩ := pure_eq_ok.1 h
    exact hexplained
  | none =>
    rw [hknown] at h
    obtain ⟨schema, hclassify, h⟩ := lift_bind_eq_ok.1 h
    dsimp only at h
    split at h
    next properties required =>
      obtain ⟨own, s, hown, h⟩ := bind_eq_ok.1 h
      obtain ⟨-, rfl⟩ := keepFields_eq_ok.1 h
      have hregisters := objectFields_registering name properties required hown
      have hremembers := hregisters.toRemembers
      have hproperties := Schema.nodup_of_classify hkeys hclassify
      let leaf : Leaf := ⟨name, properties, required⟩
      refine (hexplained.remembers hremembers hregisters.fields).keepFields
        (hremembers.describes hnode) (.object hclassify)
        (merged_objectFields leaf hproperties hown).distinctNames ?_
      rw [List.forall_mem_singleton]
      exact typesAll_of_objectFields leaf hown
    next parts =>
      obtain ⟨_, s, henter, h⟩ := bind_eq_ok.1 h
      obtain ⟨-, rfl⟩ := enterMerge_eq_ok (step_eq_ok.1 henter)
      obtain ⟨merged, s, hmerged, h⟩ := bind_eq_ok.1 h
      obtain ⟨_, s', hleave, h⟩ := bind_eq_ok.1 h
      obtain rfl := modify_eq_ok.1 hleave
      rw [pure_bind] at h
      obtain ⟨-, rfl⟩ := keepFields_eq_ok.1 h
      have hentered : Registry.Kept d { r with merging := r.merging ++ [name] } :=
        hkept.of_eq rfl rfl
      obtain ⟨hmerges, -⟩ := (absorbsParts hdoc hroot depth).foldlM hentered hmerged
      have hcollects := hparts.foldlM hdoc hroot hentered (hexplained.of_eq rfl rfl)
        (Schema.parts_distinctKeys hkeys hclassify) hmerged
      obtain ⟨leaves, hleaves, hfields, htypes⟩ := hcollects.flattens [] .nil
      have hleft : s.leaveMerge.Explained d := hcollects.explained.of_eq rfl rfl
      exact hleft.keepFields (hmerges.leaveMerge.toRemembers.describes hnode)
        (.allOf hclassify hleaves) hfields.distinctNames htypes
    next => exact absurd h fail_bind_ne_ok

theorem collectsParts_succ (hexplains : ExplainsFields d depth) (hparts : CollectsParts d depth) :
    CollectsParts d (depth + 1) := by
  intro r r' owner merged fields part hkept hexplained hkeys h
  rw [mergeFragmentFrom] at h
  obtain ⟨found, hcomponent, h⟩ := lift_bind_eq_ok.1 h
  split at h
  next name node =>
    obtain ⟨known, s, hknown, h⟩ := bind_eq_ok.1 h
    obtain ⟨rfl, rfl⟩ := pure_eq_ok.1 h
    have hdescribes := fragmentComponent_describes hdoc hcomponent
    obtain ⟨hmerges, hfields⟩ := findsFields hdoc hroot depth hkept (.inl hdescribes) hknown
    have hexplained' := hexplains hkept hexplained (.inl hdescribes)
      (hdescribes.distinctKeys hroot) hknown
    obtain ⟨node', leaves, hnode', hleaves, hmerged, htypes⟩ := hexplained' hfields
    have hnode' := hmerges.kept.describes_of_mem hdescribes.mem_schemaTypes hnode'
    exact .of_fields hexplained' (.component hcomponent hnode') hleaves hmerged htypes
  next =>
    obtain ⟨node, hleads, h⟩ := lift_bind_eq_ok.1 h
    obtain ⟨schema, hclassify, h⟩ := lift_bind_eq_ok.1 h
    have hnode := Document.dereference_distinctKeys hroot hkeys hleads
    split at h
    next properties required =>
      obtain ⟨own, s, hown, h⟩ := bind_eq_ok.1 h
      obtain ⟨rfl, rfl⟩ := pure_eq_ok.1 h
      have hregisters := objectFields_registering owner properties required hown
      have hproperties := Schema.nodup_of_classify hnode hclassify
      let leaf : Leaf := ⟨owner, properties, required⟩
      refine .of_fields (hexplained.remembers hregisters.toRemembers hregisters.fields)
        (.inline hcomponent hleads) (.object hclassify) (merged_objectFields leaf hproperties hown) ?_
      rw [List.forall_mem_singleton]
      exact typesAll_of_objectFields leaf hown
    next parts =>
      have hparts' := Schema.parts_distinctKeys hnode hclassify
      exact .of_parts hcomponent hleads hclassify
        (hparts.foldlM hdoc hroot hkept hexplained hparts' h)
    next => exact absurd h fail_ne_ok

/-- Merging explains the fields that it finds out. -/
theorem explainsFields_and_collectsParts (depth : Nat) :
    ExplainsFields d depth ∧ CollectsParts d depth := by
  induction depth with
  | zero =>
    refine ⟨fun r r' name node fields _ _ _ _ h => ?_, fun r r' owner merged fields part _ _ _ h => ?_⟩
    · rw [recordFieldsFrom] at h
      exact absurd h fail_ne_ok
    · rw [mergeFragmentFrom] at h
      exact absurd h fail_ne_ok
  | succ depth ih =>
    obtain ⟨hexplains, hparts⟩ := ih
    exact ⟨hparts.explainsFields hdoc hroot, collectsParts_succ hdoc hroot hexplains hparts⟩

theorem recordFields_explained {name : TypeName} {node : Json} {fields : List Field}
    (hkept : r.Kept d) (hexplained : r.Explained d) (hnode : r.Describes d name node)
    (hkeys : node.DistinctKeys) (h : recordFields d name node r = .ok (fields, r')) :
    r'.Explained d :=
  (explainsFields_and_collectsParts hdoc hroot (mergeDepth d)).1 hkept hexplained hnode hkeys h

end Explaining

end Build

end OpenApiServer
