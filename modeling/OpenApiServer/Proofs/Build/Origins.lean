import OpenApiServer.Proofs.Build.FieldLaws
import OpenApiServer.Proofs.Build.Holding
import OpenApiServer.Proofs.Schema.Literals

/-!
# Where claims come from

Each schema that is claimed while the queue is worked off is queued by a declaration: by that of a
claimed schema, or by the fields of a component that are found out on the way.
-/

namespace OpenApiServer

open Relation (ReflTransGen TransGen)

/-- Whether a name is claimed for a schema, or is a component that leads to it. -/
def Registry.Owns (d : Document) (r : Registry) (name : TypeName) (node : Json) : Prop :=
  Build.Describes d name node ∨ r.nodeOf? name = some node

/-- Whether every claim is an initial one or queued by the declaration of an owned schema, where
some claims are known to be made. -/
structure Registry.Traced (d : Document) (initial known : TypeName → Json → Prop) (r : Registry) :
    Prop where
  within : ∀ c ∈ r.claims, d.root.Within c.node
  origins : ∀ c ∈ r.claims, initial c.name c.node ∨
    ∃ owner node, r.Owns d owner node ∧ Build.Queues d owner node c.name c.node
  known : ∀ ⦃name node⦄, known name node → r.nodeOf? name = some node

namespace Registry

variable {d : Document} {initial known : TypeName → Json → Prop} {r r' : Registry}

theorem Remembers.owns (h : r.Remembers r') {name : TypeName} {node : Json}
    (howns : r.Owns d name node) : r'.Owns d name node := howns.imp_right h.nodeOf?

/-- Where no name is claimed twice, a claimed name has the schema of its claim. -/
theorem nodeOf?_of_mem_claims (hnodup : r.claimed.Nodup) {c : Claim} (hc : c ∈ r.claims) :
    r.nodeOf? c.name = some c.node := by
  have hfound : r.claim? c.name = some c := by
    refine find?_eq_some_of_unique hc (beq_self_eq_true _) fun c' hc' hname => ?_
    exact List.inj_on_of_nodup_map hnodup hc' hc (eq_of_beq hname)
  rw [nodeOf?, hfound, Option.map_some]

namespace Traced

theorem within_of_owns (h : r.Traced d initial known) {name : TypeName} {node : Json}
    (howns : r.Owns d name node) : d.root.Within node := by
  rcases howns with ⟨schema, hschema, -, hleads⟩ | hnode
  · have hwithin := (Json.hereditary_within d.root).schemas (.refl _) schema hschema
    exact (Json.hereditary_within d.root).dereference (.refl _) hwithin hleads
  · obtain ⟨c, hc, rfl⟩ := Option.map_eq_some_iff.1 hnode
    exact h.within c (List.mem_of_find?_eq_some hc)

theorem of_eq (h : r.Traced d initial known) (hclaims : r'.claims = r.claims) :
    r'.Traced d initial known := by
  have hnodeOf? : r'.nodeOf? = r.nodeOf? := by
    funext name
    rw [nodeOf?, nodeOf?, claim?, claim?, hclaims]
  refine ⟨hclaims ▸ h.within, ?_, hnodeOf? ▸ h.known⟩
  simp only [hclaims, Owns, hnodeOf?]
  exact h.origins

theorem mono {known' : TypeName → Json → Prop} (h : r.Traced d initial known)
    (hknown : ∀ name node, known' name node → known name node) : r.Traced d initial known' :=
  ⟨h.within, h.origins, fun name node hname => h.known (hknown name node hname)⟩

theorem enlist (h : r.Traced d initial known) {owner : TypeName} {node : Json}
    (howns : r.Owns d owner node) {inline : Option (TypeName × Json)}
    (hqueues : ∀ name inline', inline = some (name, inline') →
      Build.Queues d owner node name inline')
    (hrun : r.enlist inline = .ok r') : r'.Traced d initial known := by
  cases inline with
  | none =>
    obtain rfl := Except.ok.inj hrun
    exact h
  | some p =>
    obtain ⟨name, inline'⟩ := p
    have hqueues := hqueues name inline' rfl
    have hremembers := (registers_of_register hrun).toRemembers
    have hwithin := Build.within_of_holds (h.within_of_owns howns) hqueues.holds.to_reflTransGen
    rcases register_cases hrun with ⟨-, rfl⟩ | ⟨-, rfl⟩
    · exact h
    · refine ⟨?_, ?_, fun _ _ hname => hremembers.nodeOf? (h.known hname)⟩
      · exact List.forall_mem_append.2 ⟨h.within, by simpa using hwithin⟩
      · refine List.forall_mem_append.2 ⟨fun c hc => ?_, by
          simpa using .inr ⟨owner, node, hremembers.owns howns, hqueues⟩⟩
        refine (h.origins c hc).imp_right ?_
        rintro ⟨owner', node', howns', hqueues'⟩
        exact ⟨owner', node', hremembers.owns howns', hqueues'⟩

end Traced

end Registry

namespace Build

variable {d : Document} {initial known : TypeName → Json → Prop}

/-! ## Texts of the document -/

theorem mem_texts_of_property {context : String} {node : Json} {properties : List (String × Json)}
    {required : List String} (hnode : d.root.Within node)
    (hobject : Schema.classify context node = .ok (.object properties required))
    {property : String × Json} (hproperty : property ∈ properties) : property.1 ∈ d.root.texts := by
  rcases Schema.properties_of_classify hobject with rfl | hlisted
  · cases hproperty
  · have hwithin := (Json.hereditary_within d.root).get? hnode hlisted
    exact .inr ⟨properties, hwithin, List.mem_map_of_mem hproperty⟩

theorem within_of_mem_enumValues {node value : Json} (hnode : d.root.Within node)
    (hvalue : value ∈ node.enumValues) : d.root.Within value := by
  have hwithin := Json.hereditary_within d.root
  unfold Json.enumValues at hvalue
  split at hvalue
  next values _ henum => exact hwithin.arr (hwithin.get? hnode henum) value hvalue
  next constant _ hconst =>
    obtain rfl := List.mem_singleton.1 hvalue
    exact hwithin.get? hnode hconst
  next => cases hvalue

theorem mem_texts_of_singleLiteral {union : TypeName} {node : Json} {text : String}
    (hnode : d.root.Within node) (h : singleLiteral d union node = .ok (some text)) :
    text ∈ d.root.texts := by
  obtain ⟨target, hleads, h⟩ := bind_eq_ok_iff.1 h
  have htarget := (Json.hereditary_within d.root).dereference (.refl _) hnode hleads
  split at h
  next member default henum =>
    obtain rfl := Option.some.inj (Except.ok.inj h)
    have hlists := Schema.enumerates_of_classify henum
    have hmem : member ∈ target.literals := by
      rw [← List.mem_eraseDups, ← hlists.members_eq]
      exact List.mem_singleton_self member
    refine .inl (within_of_mem_enumValues htarget ?_)
    rw [hlists.values_eq]
    exact List.mem_map_of_mem hmem
  next => cases Except.ok.inj h

theorem mem_texts_of_armLiterals {union : TypeName} {properties : List (String × Json)}
    {literals : List (String × String)} (hproperties : ∀ p ∈ properties, d.root.Within p.2)
    (h : armLiterals d union properties = .ok literals) : ∀ l ∈ literals, l.2 ∈ d.root.texts := by
  induction properties generalizing literals with
  | nil =>
    obtain rfl := Except.ok.inj h
    simp
  | cons p rest ih =>
    obtain ⟨hp, hrest⟩ := List.forall_mem_cons.1 hproperties
    obtain ⟨literal, hliteral, h⟩ := bind_eq_ok_iff.1 h
    obtain ⟨later, hlater, h⟩ := bind_eq_ok_iff.1 h
    obtain rfl := Except.ok.inj h
    have hlater := ih hrest hlater
    cases literal with
    | none => exact hlater
    | some text => exact List.forall_mem_cons.2 ⟨mem_texts_of_singleLiteral hp hliteral, hlater⟩

theorem mem_of_tagOf {arm : Nat} {layout : Option UnionLayout} {literals : List (String × String)}
    {tag : String × String} (h : tagOf arm layout literals = .ok tag) : tag ∈ literals := by
  unfold tagOf at h
  split at h
  next literal _ =>
    obtain rfl := Except.ok.inj h
    exact List.mem_singleton_self _
  next =>
    split at h
    next literal hfind =>
      obtain rfl := Except.ok.inj h
      exact List.mem_of_find?_eq_some hfind
    next => cases h
  next => cases h
  next => cases h

/-- The tag of an arm is one of its constant texts. -/
theorem mem_of_readArm {arm : Nat} {draft : UnionDraft} {properties : List (String × Json)}
    {literals : List (String × String)} {layout : UnionLayout} {tag : String} {payload : Json}
    (h : readArm arm draft properties literals = .ok (layout, tag, payload)) :
    ∃ literal ∈ literals, literal.2 = tag := by
  obtain ⟨literal, htag, h⟩ := bind_eq_ok_iff.1 h
  have hmem := mem_of_tagOf htag
  dsimp only at h
  split at h
  next => cases h
  next =>
    obtain ⟨_, -, h⟩ := bind_eq_ok_iff.1 h
    split_ifs at h
    · cases h
    · obtain ⟨-, hrest⟩ := Prod.mk.inj (Except.ok.inj h)
      exact ⟨literal, hmem, (Prod.mk.inj hrest).1⟩

/-! ## Places -/

section Owner

variable {owner : TypeName} {node : Json}
  (howns : ∀ ⦃r : Registry⦄, r.Traced d initial known → r.Owns d owner node)

include howns

theorem typeOf_traced {place : Json} {suggested : TypeName} (hplace : d.root.Within place)
    (hsuggested : Suggests d owner suggested)
    (hholds : ∀ ⦃type name inline⦄, placeOf d place suggested = .ok ⟨type, some (name, inline)⟩ →
      TransGen (Holds d) node inline) :
    Keeps (Registry.Traced d initial known) (typeOf d place suggested) anyResult := by
  intro r type r' hr hrun
  obtain ⟨inline, hplaced, henlist⟩ := typeOf_eq_ok.1 hrun
  refine ⟨hr.enlist (howns hr) ?_ henlist, trivial⟩
  rintro name inline' rfl
  exact ⟨hholds hplaced, place, suggested, type, hplace, hsuggested, hplaced⟩

/-- A place that is held by the schema with the name. -/
theorem heldPlace_traced {place : Json} {suggested : TypeName} (hnode : d.root.Within node)
    (hsuggested : Suggests d owner suggested) (hplace : TransGen (Holds d) node place) :
    Keeps (Registry.Traced d initial known) (typeOf d place suggested) anyResult :=
  typeOf_traced howns (within_of_holds hnode hplace.to_reflTransGen) hsuggested
    fun _ _ _ hplaced => hplace.trans_left ((placeFrom_eq_ok_iff.1 hplaced).holds rfl)

theorem objectFields_traced {context : String} {object : Json} {properties : List (String × Json)}
    {required : List String} (hnode : d.root.Within node)
    (hobject : ReflTransGen (Holds d) node object)
    (hview : Schema.classify context object = .ok (.object properties required)) :
    Keeps (Registry.Traced d initial known) (objectFields d owner properties required)
      anyResult := by
  refine (Keeps.mapM (q := anyResult) fun property hproperty => ?_).any
  have htext := mem_texts_of_property (within_of_holds hnode hobject) hview hproperty
  have hheld := TransGen.tail' hobject (.property hview hproperty)
  exact (heldPlace_traced howns hnode (.text htext) hheld).bind fun _ _ => .pure trivial

end Owner

/-! ## Fields of records -/

section Fields

variable {root : Json} (hdoc : Document.ofJson root = .ok d)

theorem keepFields_traced (name : TypeName) (fields : List Field) :
    Keeps (Registry.Traced d initial known) (do modify (·.keepFields name fields); return fields)
      anyResult :=
  (Keeps.modify fun _ hr => hr.of_eq rfl).bind fun _ _ => .pure trivial

theorem enterMerge_traced (name : TypeName) :
    Keeps (Registry.Traced d initial known) (step (·.enterMerge name)) anyResult :=
  .step fun r r' hr hrun => by
    obtain ⟨-, rfl⟩ := enterMerge_eq_ok hrun
    exact hr.of_eq rfl

/-- The claim about merging at some depth: what is claimed comes from the owner of the fields, or
from the components that its parts refer to. -/
structure TracesAt (d : Document) (initial known : TypeName → Json → Prop) (depth : Nat) :
    Prop where
  record : ∀ ⦃name node⦄, d.root.Within node →
    (∀ ⦃r : Registry⦄, r.Traced d initial known → r.Owns d name node) →
    Keeps (Registry.Traced d initial known) (recordFieldsFrom d depth name node) anyResult
  fragment : ∀ ⦃owner node part⦄ (merged : List Field), d.root.Within node →
    (∀ ⦃r : Registry⦄, r.Traced d initial known → r.Owns d owner node) →
    ReflTransGen (Holds d) node part →
    Keeps (Registry.Traced d initial known) (mergeFragmentFrom d depth owner merged part) anyResult

theorem recordFieldsFrom_traced {depth : Nat} (ih : TracesAt d initial known depth)
    {name : TypeName} {node : Json} (hnode : d.root.Within node)
    (howns : ∀ ⦃r : Registry⦄, r.Traced d initial known → r.Owns d name node) :
    Keeps (Registry.Traced d initial known) (recordFieldsFrom d (depth + 1) name node)
      anyResult := by
  rw [recordFieldsFrom]
  refine .get_bind fun r hr => ?_
  split
  next => exact .pure trivial
  next =>
    refine .lift_bind fun schema hschema => ?_
    dsimp only
    split
    next properties required =>
      refine (objectFields_traced howns hnode .refl hschema).bind fun fields _ => ?_
      exact keepFields_traced name _
    next parts =>
      refine (enterMerge_traced name).bind fun _ _ => ?_
      have hfold := Keeps.foldlM (q := anyResult) (b := []) (fun part hpart merged _ =>
        ih.fragment merged hnode howns (.single (.part hschema hpart))) trivial
      refine hfold.bind fun merged _ => ?_
      refine (Keeps.modify fun r hr => hr.of_eq rfl).bind fun _ _ => ?_
      exact keepFields_traced name _
    next => exact .fail_bind

include hdoc

theorem mergeFragmentFrom_traced {depth : Nat} (ih : TracesAt d initial known depth)
    {owner : TypeName} {node part : Json} (merged : List Field) (hnode : d.root.Within node)
    (howns : ∀ ⦃r : Registry⦄, r.Traced d initial known → r.Owns d owner node)
    (hpart : ReflTransGen (Holds d) node part) :
    Keeps (Registry.Traced d initial known) (mergeFragmentFrom d (depth + 1) owner merged part)
      anyResult := by
  rw [mergeFragmentFrom]
  refine .lift_bind fun found hfound => ?_
  split
  next component target =>
    have hdescribes := fragmentComponent_describes hdoc hfound
    have hwithin := fragmentComponent_holds (Json.hereditary_within d.root) (.refl _) hfound
    exact (ih.record hwithin fun _ _ => .inl hdescribes).bind fun _ _ => .pure trivial
  next =>
    refine .lift_bind fun target htarget => .lift_bind fun schema hschema => ?_
    have hheld := hpart.trans (holds_of_inlinePart hfound htarget)
    split
    next properties required =>
      exact (objectFields_traced howns hnode hheld hschema).bind fun _ _ => .pure trivial
    next parts =>
      refine .foldlM (q := anyResult) (fun inner hinner merged _ => ?_) trivial
      exact ih.fragment merged hnode howns (hheld.tail (.part hschema hinner))
    next => exact .fail

theorem tracesAt (depth : Nat) : TracesAt d initial known depth := by
  induction depth with
  | zero =>
    refine ⟨fun name node _ _ => ?_, fun owner node part merged _ _ _ => ?_⟩
    · rw [recordFieldsFrom]
      exact .fail
    · rw [mergeFragmentFrom]
      exact .fail
  | succ depth ih =>
    refine ⟨fun name node hnode howns => ?_, fun owner node part merged hnode howns hpart => ?_⟩
    · exact recordFieldsFrom_traced ih hnode howns
    · exact mergeFragmentFrom_traced hdoc ih merged hnode howns hpart

theorem recordFields_traced {name : TypeName} {node : Json} (hnode : d.root.Within node)
    (howns : ∀ ⦃r : Registry⦄, r.Traced d initial known → r.Owns d name node) :
    Keeps (Registry.Traced d initial known) (recordFields d name node) anyResult :=
  (tracesAt hdoc (mergeDepth d)).record hnode howns

/-- The schema that a name is claimed for is known from then on. -/
theorem recordFieldsOfName?_traced (name : TypeName) :
    Keeps (Registry.Traced d initial known) (recordFieldsOfName? d name) anyResult := by
  intro r found r' hr hrun
  rw [recordFieldsOfName?, get_bind_eq_ok] at hrun
  cases hnode : r.nodeOf? name with
  | none =>
    rw [hnode] at hrun
    obtain ⟨-, rfl⟩ := pure_eq_ok.1 hrun
    exact ⟨hr, trivial⟩
  | some node =>
    rw [hnode] at hrun
    let claimed (name' : TypeName) (node' : Json) : Prop :=
      known name' node' ∨ name' = name ∧ node' = node
    have hr' : r.Traced d initial claimed := by
      refine ⟨hr.within, hr.origins, ?_⟩
      rintro name' node' (hname | ⟨rfl, rfl⟩)
      · exact hr.known hname
      · exact hnode
    have hwithin := hr.within_of_owns (.inr hnode)
    have hfields : Keeps (Registry.Traced d initial claimed) (some <$> recordFields d name node)
        anyResult :=
      .map (recordFields_traced hdoc hwithin fun _ hs => .inr (hs.known (.inr ⟨rfl, rfl⟩))).any
    obtain ⟨schema, -, hrun⟩ := lift_bind_eq_ok.1 hrun
    have hkeeps : r'.Traced d initial claimed := by
      split at hrun
      · exact (hfields hr' hrun).1
      · exact (hfields hr' hrun).1
      · obtain ⟨-, rfl⟩ := pure_eq_ok.1 hrun
        exact hr'
    exact ⟨hkeeps.mono fun _ _ => .inl, trivial⟩

/-! ## Declarations -/

theorem payloadFields_traced (variants : List UnionVariant) :
    Keeps (Registry.Traced d initial known) (payloadFields d variants) anyResult := by
  induction variants with
  | nil => exact .pure trivial
  | cons v rest ih =>
    rw [payloadFields]
    split
    next payload _ =>
      refine (recordFieldsOfName?_traced hdoc payload).bind fun found _ => ?_
      cases found with
      | none => exact .pure trivial
      | some fields => exact ih.bind fun _ _ => .pure trivial
    next => exact .pure trivial

theorem recordConversion_traced (name : TypeName) (fields : List Field) {source : TypeName × Json}
    (hsource : Describes d source.1 source.2) (hwithin : d.root.Within source.2) :
    Keeps (Registry.Traced d initial known) (recordConversion d name fields source) anyResult := by
  refine .get_bind fun r _ => ?_
  dsimp only
  split
  next =>
    refine (recordFields_traced hdoc hwithin fun _ _ => .inl hsource).bind fun found _ => ?_
    exact .modify fun r hr => hr.of_eq rfl
  next => exact .pure trivial

section Declared

variable {name : TypeName} {node : Json} (hnode : d.root.Within node)
  (howns : ∀ ⦃r : Registry⦄, r.Traced d initial known → r.Owns d name node)

include hnode howns

theorem buildRecord_traced :
    Keeps (Registry.Traced d initial known) (buildRecord d name node) anyResult := by
  refine (recordFields_traced hdoc hnode howns).bind fun fields _ => .lift_bind fun schema _ => ?_
  split
  next parts _ =>
    refine Keeps.bind (p := anyResult) ?_ fun _ _ => .pure trivial
    refine .lift_bind fun sources hsources => ?_
    have hdescribed : ∀ source ∈ sources, Describes d source.1 source.2 :=
      forall_sources (fun _ _ hfound => fragmentComponent_describes hdoc hfound) hsources
    have hwithin : ∀ source ∈ sources, d.root.Within source.2 := forall_sources (fun _ _ hfound =>
      fragmentComponent_holds (Json.hereditary_within d.root) (.refl _) hfound) hsources
    exact .forM fun source hsource => recordConversion_traced hdoc name fields
      (hdescribed source hsource) (hwithin source hsource)
  next => exact .pure trivial

omit hdoc in
/-- The payload of an arm is held by the union, and its name ends in the tag. -/
theorem addArm_traced (draft : UnionDraft) (arm : Nat) {armNode : Json}
    (hheld : ∀ target, d.dereference armNode = .ok target → Holds d node target) :
    Keeps (Registry.Traced d initial known) (addArm d name draft arm armNode) anyResult := by
  refine .lift_bind fun target htarget => .lift_bind fun schema hschema => ?_
  have hunion := ReflTransGen.single (hheld target htarget)
  have hwithin := within_of_holds hnode hunion
  split
  next properties required =>
    refine .guard <| .lift_bind fun literals hliterals => ?_
    refine (FieldLaws.flawed_keeps (readArm arm draft properties literals)).bind ?_
    rintro ⟨layout, tag, payload⟩ hread
    obtain ⟨property, hproperty, rfl⟩ := FieldLaws.exists_of_readArm hread
    obtain ⟨literal, hliteral, rfl⟩ := mem_of_readArm hread
    have hpayload := TransGen.tail' hunion (.property hschema hproperty)
    have hproperties : ∀ p ∈ properties, d.root.Within p.2 := fun p hp =>
      within_of_holds hwithin (.single (.property hschema hp))
    have htext := mem_texts_of_armLiterals hproperties hliterals literal hliteral
    refine (heldPlace_traced howns hnode (.text htext) hpayload).bind fun type _ => ?_
    exact .guard (.pure trivial)
  next => exact .fail

omit hdoc in
theorem addArms_traced (draft : UnionDraft) (arm : Nat) {arms : List Json}
    (hheld : ∀ armNode ∈ arms, ∀ target, d.dereference armNode = .ok target →
      Holds d node target) :
    Keeps (Registry.Traced d initial known) (addArms d name draft arm arms) anyResult := by
  induction arms generalizing draft arm with
  | nil => exact .pure trivial
  | cons armNode rest ih =>
    obtain ⟨hfirst, hrest⟩ := List.forall_mem_cons.1 hheld
    rw [addArms]
    exact (addArm_traced hnode howns draft arm hfirst).bind fun draft' _ =>
      ih draft' (arm + 1) hrest

theorem buildUnion_traced {arms : List Json}
    (hheld : ∀ armNode ∈ arms, ∀ target, d.dereference armNode = .ok target →
      Holds d node target) :
    Keeps (Registry.Traced d initial known) (buildUnion d name node arms) anyResult := by
  refine (addArms_traced hnode howns _ 0 hheld).bind fun draft _ => ?_
  split
  next => exact .fail
  next =>
    refine Keeps.bind (p := anyResult) ?_ fun _ _ => .pure trivial
    exact (payloadFields_traced hdoc draft.variants).bind fun _ _ => .pure trivial

omit hdoc in
/-- An alias queues what its schema leads to. -/
theorem alias_traced {suggested : TypeName} (hsuggested : Suggests d name suggested)
    (hkind : node.schemaKind.isDeclared = false) :
    Keeps (Registry.Traced d initial known) (typeOf d node suggested) anyResult :=
  typeOf_traced howns hnode hsuggested
    fun _ _ _ hplaced => (placeFrom_eq_ok_iff.1 hplaced).holds_of_alias hkind rfl

end Declared

theorem declare_traced {p : Pending} (hnode : d.root.Within p.node)
    (howns : ∀ ⦃r : Registry⦄, r.Traced d initial known → r.Owns d p.name p.node) :
    Keeps (Registry.Traced d initial known) (declare d p) anyResult := by
  refine .lift_bind fun schema hschema => ?_
  have hkind := Schema.kind_of_classify hschema
  cases schema with
  | object properties required => exact .map (buildRecord_traced hdoc hnode howns).any
  | allOf parts => exact .map (buildRecord_traced hdoc hnode howns).any
  | stringEnum members default =>
    refine .map fun r decl r' hr hrun => ?_
    obtain ⟨-, rfl⟩ := Prod.mk.inj (modifyGet_eq_ok.1 hrun)
    exact ⟨hr.of_eq rfl, trivial⟩
  | oneOf arms =>
    dsimp only
    split
    next arm harm =>
      have hheld : TransGen (Holds d) p.node arm := .single (.nullable hschema harm)
      exact (heldPlace_traced howns hnode .value hheld).bind fun _ _ => .pure trivial
    next harms =>
      exact .map (buildUnion_traced hdoc hnode howns fun arm harm target hleads =>
        .arm hschema harms harm hleads).any
  | reference pointer =>
    refine .lift_bind fun _ _ => ?_
    exact (alias_traced hnode howns .value (hkind ▸ rfl)).bind fun _ _ => .pure trivial
  | primitive kind format =>
    exact (alias_traced hnode howns .value (hkind ▸ rfl)).bind fun _ _ => .pure trivial
  | array items =>
    exact (alias_traced hnode howns .self (hkind ▸ rfl)).bind fun _ _ => .pure trivial

end Fields

end Build

end OpenApiServer
