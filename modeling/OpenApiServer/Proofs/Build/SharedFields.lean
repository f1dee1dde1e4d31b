import OpenApiServer.Proofs.Build.FieldLaws
import OpenApiServer.Proofs.Build.Recorded
import OpenApiServer.Proofs.Declaration.Aliases

/-!
# The fields that payloads share

A union looks for the fields that its payloads share when it is declared. It finds them where every
payload has the name of a record schema, and then it has compared the fields that are kept for these
names. Throughout a build names stay with their schemas and kept fields stay kept.

## Fields are found out without boxes

The type of a schema has no boxes, so that the fields of a record have none when they are found out,
and neither have the fields that a registry keeps. Boxes come in at the end of a build only.
-/

namespace OpenApiServer

/-- Whether the fields that are kept have no boxes. -/
def Registry.Plain (r : Registry) : Prop := ∀ kept ∈ r.fields, PlainFields kept.2

theorem Registry.Plain.fieldsOf? {r : Registry} (h : r.Plain) {name : TypeName}
    {fields : List Field} (hfields : r.fieldsOf? name = some fields) : PlainFields fields := by
  obtain ⟨before, after, hkept, -⟩ := List.lookup_eq_some_iff.1 hfields
  exact h (name, fields) (by simp [hkept])

namespace Build

variable {d : Document}

/-! ### Types -/

theorem plain_primitiveType {context : String} {kind : PrimitiveKind} {format : Option String}
    {type : TypeExpr} (h : primitiveType context kind format = .ok type) : type.Plain := by
  unfold primitiveType at h
  split at h
  case h_4 =>
    split at h
    · obtain rfl := Except.ok.inj h
      rfl
    · cases h
  case h_5 => cases h
  all_goals
    obtain rfl := Except.ok.inj h
    rfl

theorem Placed.plain {steps : Nat} {node : Json} {suggested : TypeName} {place : Place}
    (h : Placed d steps node suggested place) : place.type.Plain := by
  induction h with
  | component | inline => rfl
  | target _ _ _ _ _ ih => exact ih
  | primitive _ typed => exact plain_primitiveType typed
  | list _ _ ih => exact ih.list
  | optional _ _ _ ih => exact ih.optional

theorem typeOf_plain (node : Json) (suggested : TypeName) :
    Yields (typeOf d node suggested) TypeExpr.Plain := by
  intro r type r' hrun
  obtain ⟨inline, hplace, -⟩ := typeOf_eq_ok.1 hrun
  exact (placeFrom_eq_ok_iff.1 hplace).plain

theorem objectFields_plain (owner : TypeName) (properties : List (String × Json))
    (required : List String) : Yields (objectFields d owner properties required) PlainFields := by
  intro r fields r' hrun f hf
  obtain ⟨property, -, s, s', hfield⟩ := exists_of_mem_forall₂ (forall₂_of_mapM hrun) hf
  obtain ⟨type, _, htype, hfield⟩ := bind_eq_ok.1 hfield
  obtain ⟨rfl, -⟩ := pure_eq_ok.1 hfield
  exact typeOf_plain _ _ htype

/-! ### Fields -/

theorem plain_absorb {merged fields : List Field} (h : PlainFields merged)
    (h' : PlainFields fields) : PlainFields (absorb merged fields) := by
  intro f hf
  obtain ⟨g, hg, -, -, htype⟩ := exists_of_mem_absorb hf
  rw [htype]
  exact List.forall_mem_append.2 ⟨h, h'⟩ g hg

theorem plain_distinctNames {fields : List Field} (h : PlainFields fields) :
    PlainFields (distinctNames fields) := by
  intro f hf
  obtain ⟨g, hg, name, rfl⟩ := exists_of_mem_forall₂ (forall₂_distinctNames fields) hf
  exact h g hg

/-- Nothing needs to be known of the schemas. -/
theorem plain_laws : FieldLaws d (fun _ => True) PlainFields PlainFields where
  hereditary := ⟨fun _ _ _ _ => trivial, fun _ _ _ _ => trivial⟩
  root := trivial
  object _ _ owner properties required _ _ := objectFields_plain owner properties required
  nil := by simp [PlainFields]
  absorb _ _ := plain_absorb
  named _ := plain_distinctNames
  unnamed _ := id

theorem declare_plain {p : Pending} {t : Declaration} {r r' : Registry} (h : r.Plain)
    (hrun : declare d p r = .ok (t, r')) : r'.Plain :=
  (plain_laws.declare_keeps trivial ⟨fun _ _ => trivial, h⟩ hrun).1.fields

end Build

end OpenApiServer

/-! ## The shared fields of unions -/

namespace OpenApiServer

namespace Registry

variable {r r' : Registry}

/-- A payload whose name belongs to the schema of a record, with the fields that are kept. -/
def RecordPayload (r : Registry) (v : UnionVariant) (fields : List Field) : Prop :=
  ∃ name node, v.payload = .named name ∧ r.nodeOf? name = some node ∧
    node.schemaKind.isRecord = true ∧ r.fieldsOf? name = some fields

/-- A payload that is no name, or the name of another schema. -/
def OtherPayload (r : Registry) (v : UnionVariant) : Prop :=
  ∀ name, v.payload = .named name → ∃ node, r.nodeOf? name = some node ∧
    node.schemaKind.isRecord = false

/-- A payload that is claimed if it is a name. -/
def KnownPayload (r : Registry) (v : UnionVariant) : Prop :=
  ∀ name, v.payload = .named name → ∃ node, r.nodeOf? name = some node

/-- What the shared fields of a union are. -/
inductive Shares (r : Registry) (u : UnionDecl) : Prop where
  | common {fields : List (List Field)} (payloads : List.Forall₂ r.RecordPayload u.variants fields)
    (shared : u.sharedFields = Build.commonFields fields) : Shares r u
  | nothing {v : UnionVariant} (mem : v ∈ u.variants) (other : r.OtherPayload v)
    (shared : u.sharedFields = []) : Shares r u

namespace Remembers

variable (h : r.Remembers r')

include h

theorem recordPayload {v : UnionVariant} {fields : List Field} (hv : r.RecordPayload v fields) :
    r'.RecordPayload v fields := by
  obtain ⟨name, node, hname, hnode, hrecord, hfields⟩ := hv
  exact ⟨name, node, hname, h.nodeOf? hnode, hrecord, h.fieldsOf? hfields⟩

theorem otherPayload {v : UnionVariant} (hv : r.OtherPayload v) : r'.OtherPayload v := by
  intro name hname
  obtain ⟨node, hnode, hkind⟩ := hv name hname
  exact ⟨node, h.nodeOf? hnode, hkind⟩

theorem knownPayload {v : UnionVariant} (hv : r.KnownPayload v) : r'.KnownPayload v := by
  intro name hname
  obtain ⟨node, hnode⟩ := hv name hname
  exact ⟨node, h.nodeOf? hnode⟩

theorem shares {u : UnionDecl} (hu : r.Shares u) : r'.Shares u := by
  cases hu with
  | common payloads shared => exact .common (payloads.imp fun _ _ => h.recordPayload) shared
  | nothing mem other shared => exact .nothing mem (h.otherPayload other) shared

end Remembers

theorem exists_nodeOf?_of_mem_claimed {name : TypeName} (h : name ∈ r.claimed) :
    ∃ node, r.nodeOf? name = some node := by
  cases hclaim : r.claim? name with
  | none => exact absurd h (claim?_eq_none_iff.1 hclaim)
  | some claim => exact ⟨claim.node, by rw [nodeOf?, hclaim, Option.map_some]⟩

theorem mem_claimed_of_nodeOf? {name : TypeName} {node : Json} (h : r.nodeOf? name = some node) :
    name ∈ r.claimed := by
  obtain ⟨claim, hclaim, -⟩ := Option.map_eq_some_iff.1 h
  exact mem_claimed_of_claim? hclaim

theorem knownPayload_of_mentioned {variants : List UnionVariant}
    (h : variantsMentioned variants ⊆ r.claimed) : ∀ v ∈ variants, r.KnownPayload v := by
  intro v hv name hname
  refine exists_nodeOf?_of_mem_claimed (h (List.mem_flatMap.2 ⟨v, hv, ?_⟩))
  rw [hname]
  exact List.mem_singleton_self name

end Registry

namespace Build

variable {d : Document} {r r' : Registry} {root : Json}

section Running

variable (hdoc : Document.ofJson root = .ok d) (hroot : d.root.DistinctKeys)

include hdoc hroot

/-- Fields are found for the names of record schemas. -/
theorem recordFieldsOfName?_kind {name : TypeName} {node : Json} {found : Option (List Field)}
    (hkept : r.Kept d) (hnode : r.nodeOf? name = some node)
    (h : recordFieldsOfName? d name r = .ok (found, r')) :
    node.schemaKind.isRecord = found.isSome ∧
      ∀ fields ∈ found, r'.fieldsOf? name = some fields := by
  rw [recordFieldsOfName?, get_bind_eq_ok, hnode] at h
  obtain ⟨schema, hclassify, h⟩ := lift_bind_eq_ok.1 h
  rw [← Schema.kind_of_classify hclassify]
  have hfields {fields : List Field} (hschema : schema.kind.isRecord = true)
      (hrun : recordFields d name node r = .ok (fields, r')) : r'.fieldsOf? name = some fields := by
    rw [Schema.kind_of_classify hclassify] at hschema
    have hplain := Json.reference?_eq_none_of_isRecord hschema
    exact (recordFields_merges hdoc hroot hkept (.inr ⟨hnode, hplain⟩) hrun).2
  split at h
  next =>
    obtain ⟨fields, hrun, rfl⟩ := map_eq_ok.1 h
    exact ⟨rfl, by simpa using hfields rfl hrun⟩
  next =>
    obtain ⟨fields, hrun, rfl⟩ := map_eq_ok.1 h
    exact ⟨rfl, by simpa using hfields rfl hrun⟩
  next hobject hallOf =>
    obtain ⟨rfl, -⟩ := pure_eq_ok.1 h
    refine ⟨?_, by simp⟩
    cases schema with
    | object properties required => exact absurd rfl (hobject properties required)
    | allOf parts => exact absurd rfl (hallOf parts)
    | _ => rfl

/-- Either a payload is a record, and its fields are found out, or it is something else. -/
theorem recordFieldsOfName?_cases {v : UnionVariant} {name : TypeName} {found : Option (List Field)}
    (hkept : r.Kept d) (hknown : r.KnownPayload v) (hpayload : v.payload = .named name)
    (h : recordFieldsOfName? d name r = .ok (found, r')) :
    (∃ fields, found = some fields ∧ r'.RecordPayload v fields) ∨
      found = none ∧ ∀ name, v.payload = .named name → ∃ node schema, r'.nodeOf? name = some node ∧
        Schema.classify name.text node = .ok schema ∧ schema.kind.isRecord = false := by
  obtain ⟨node, hnode⟩ := hknown name hpayload
  have hmerges := recordFieldsOfName?_merges hdoc hroot hkept h
  obtain ⟨hkind, hfields⟩ := recordFieldsOfName?_kind hdoc hroot hkept hnode h
  cases found with
  | none =>
    rw [recordFieldsOfName?, get_bind_eq_ok, hnode] at h
    obtain ⟨schema, hclassify, -⟩ := lift_bind_eq_ok.1 h
    refine .inr ⟨rfl, fun name' hname' => ?_⟩
    obtain rfl := TypeExpr.named.inj (hpayload.symm.trans hname')
    refine ⟨node, schema, hmerges.nodeOf? hnode, hclassify, ?_⟩
    rw [Schema.kind_of_classify hclassify]
    exact hkind
  | some fields =>
    exact .inl ⟨fields, rfl, name, node, hpayload, hmerges.nodeOf? hnode, hkind, hfields fields rfl⟩

/-- Either the first payload is a record, and its fields are found out before those of the others, or
it is something else, and nothing more is looked at. -/
theorem payloadFields_cons_cases {v : UnionVariant} {rest : List UnionVariant}
    {found : Option (List (List Field))} (hkept : r.Kept d) (hknown : r.KnownPayload v)
    (h : payloadFields d (v :: rest) r = .ok (found, r')) :
    (∃ fields later s, r.Remembers s ∧ s.Kept d ∧ s.RecordPayload v fields ∧
      payloadFields d rest s = .ok (later, r') ∧ found = later.map (fields :: ·)) ∨
      found = none ∧ ∀ name, v.payload = .named name → ∃ node schema, r'.nodeOf? name = some node ∧
        Schema.classify name.text node = .ok schema ∧ schema.kind.isRecord = false := by
  rw [payloadFields] at h
  cases hpayload : v.payload with
  | named name =>
    rw [hpayload] at h
    obtain ⟨own, s, hown, h⟩ := bind_eq_ok.1 h
    have hmerges := recordFieldsOfName?_merges hdoc hroot hkept hown
    rcases recordFieldsOfName?_cases hdoc hroot hkept hknown hpayload hown with
      ⟨fields, rfl, hrecord⟩ | ⟨rfl, hother⟩
    · obtain ⟨later, s', hlater, h⟩ := bind_eq_ok.1 h
      obtain ⟨rfl, rfl⟩ := pure_eq_ok.1 h
      exact .inl ⟨fields, later, s, hmerges.toRemembers, hmerges.kept, hrecord, hlater, rfl⟩
    · obtain ⟨rfl, rfl⟩ := pure_eq_ok.1 h
      exact .inr ⟨rfl, hpayload ▸ hother⟩
  | _ =>
    rw [hpayload] at h
    obtain ⟨rfl, -⟩ := pure_eq_ok.1 h
    exact .inr ⟨rfl, fun name hname => by cases hname⟩

/-- Either all payloads are records, or one is not. -/
theorem payloadFields_payloads {variants : List UnionVariant} {found : Option (List (List Field))}
    (hkept : r.Kept d) (hknown : ∀ v ∈ variants, r.KnownPayload v)
    (h : payloadFields d variants r = .ok (found, r')) :
    (∃ fields, found = some fields ∧ List.Forall₂ r'.RecordPayload variants fields) ∨
      found = none ∧ ∃ v ∈ variants, r'.OtherPayload v := by
  induction variants generalizing r found with
  | nil =>
    obtain ⟨rfl, -⟩ := pure_eq_ok.1 h
    exact .inl ⟨[], rfl, .nil⟩
  | cons v rest ih =>
    obtain ⟨hv, hrest⟩ := List.forall_mem_cons.1 hknown
    rcases payloadFields_cons_cases hdoc hroot hkept hv h with
      ⟨fields, later, s, hremembers, hkept', hrecord, hlater, rfl⟩ | ⟨rfl, hother⟩
    · have hlast := (payloadFields_merges hdoc hroot hkept' hlater).toRemembers
      have hrest' : ∀ w ∈ rest, s.KnownPayload w := fun w hw => hremembers.knownPayload (hrest w hw)
      rcases ih hkept' hrest' hlater with ⟨others, rfl, hothers⟩ | ⟨rfl, w, hw, hother⟩
      · exact .inl ⟨fields :: others, rfl, .cons (hlast.recordPayload hrecord) hothers⟩
      · exact .inr ⟨rfl, w, List.mem_cons_of_mem _ hw, hother⟩
    · refine .inr ⟨rfl, v, List.mem_cons_self .., fun name hname => ?_⟩
      obtain ⟨node, schema, hnode, hclassify, hkind⟩ := hother name hname
      exact ⟨node, hnode, Schema.kind_of_classify hclassify ▸ hkind⟩

omit hdoc hroot in
/-- A union shares what the fields of its payloads have in common. -/
theorem exists_payloadFields_of_buildUnion {declared : List TypeName} {name : TypeName} {node : Json}
    {arms : List Json} {u : UnionDecl} (hkept : r.Kept d) (sound : r.Sound d declared)
    (h : buildUnion d name node arms r = .ok (u, r')) :
    ∃ s found, s.Kept d ∧ (∀ v ∈ u.variants, s.KnownPayload v) ∧
      payloadFields d u.variants s = .ok (found, r') ∧
        u.sharedFields = commonFields (found.getD []) := by
  obtain ⟨draft, s, hdraft, h⟩ := bind_eq_ok.1 h
  have hkept' := hkept.registers (addArms_registering name ⟨none, []⟩ 0 arms hdraft)
  obtain ⟨-, -, hmentioned⟩ := addArms_resolves (List.nil_subset _) sound hdraft
  have hknown := Registry.knownPayload_of_mentioned hmentioned
  cases hlayout : draft.layout with
  | none =>
    rw [hlayout] at h
    exact absurd h fail_ne_ok
  | some layout =>
    rw [hlayout] at h
    obtain ⟨shared, s', hshared, h⟩ := bind_eq_ok.1 h
    obtain ⟨rfl, rfl⟩ := pure_eq_ok.1 h
    obtain ⟨found, s', hfound, hshared⟩ := bind_eq_ok.1 hshared
    obtain ⟨rfl, rfl⟩ := pure_eq_ok.1 hshared
    exact ⟨s, found, hkept', hknown, hfound, rfl⟩

theorem buildUnion_shares {declared : List TypeName} {name : TypeName} {node : Json}
    {arms : List Json} {u : UnionDecl} (hkept : r.Kept d) (sound : r.Sound d declared)
    (h : buildUnion d name node arms r = .ok (u, r')) : r'.Shares u := by
  obtain ⟨s, found, hkept', hknown, hfound, hshared⟩ :=
    exists_payloadFields_of_buildUnion hkept sound h
  rcases payloadFields_payloads hdoc hroot hkept' hknown hfound with
    ⟨fields, rfl, hfields⟩ | ⟨rfl, v, hv, hother⟩
  · exact .common hfields hshared
  · exact .nothing hv hother hshared

end Running

end Build

namespace Registry

/-- What a registry knows of its unions. -/
structure Unions (d : Document) (r : Registry) : Prop extends r.Recorded d where
  sound : ∃ declared, r.Sound d declared
  plain : r.Plain
  shares : ∀ u, .union u ∈ r.types → r.Shares u

end Registry

namespace Build

variable {d : Document} {r r' : Registry} {root : Json}

theorem registerSchemas_unions (hdoc : Document.ofJson root = .ok d) (hroot : d.root.DistinctKeys)
    (h : registerSchemas d Registry.empty = .ok ((), r)) : r.Unions d := by
  obtain ⟨hsound, htypes⟩ := registerSchemas_sound hdoc h
  obtain ⟨hregisters, -⟩ :=
    registerAll_schemas hroot (fun _ hs => hs) (fun _ _ hnode => by cases hnode) h
  have hfields : r.fields = [] := hregisters.fields
  refine ⟨registerSchemas_recorded hroot h, ⟨[], hsound⟩, ?_, ?_⟩
  · simp [Registry.Plain, hfields]
  · simp [htypes]

theorem declareAndKeep_unions (hdoc : Document.ofJson root = .ok d) (hroot : d.root.DistinctKeys)
    {p : Pending} (h : r.Unions d) (hnode : r.nodeOf? p.name = some p.node)
    (hrun : declareAndKeep d p r = .ok ((), r')) : r'.Unions d := by
  have hrecorded := ((recorded_invariant hdoc hroot).declared h.toRecorded hnode hrun).1
  obtain ⟨declared, hsound⟩ := h.sound
  have hsound' := (declareAndKeep_declares hsound (Registry.mem_claimed_of_nodeOf? hnode) hrun).1
  obtain ⟨t, s, hdeclare, hrun⟩ := bind_eq_ok.1 hrun
  obtain rfl := modify_eq_ok.1 hrun
  have hdeclares := declare_declares hdoc hroot h.toKept hnode hdeclare
  have hplain : s.Plain := declare_plain h.plain hdeclare
  refine ⟨hrecorded, ⟨declared, hsound'⟩, hplain, fun u hu => ?_⟩
  rw [hdeclares.types_eq] at hu
  rcases List.mem_append.1 hu with hold | hnew
  · exact (s.remembers_declared _).shares (hdeclares.remembers.shares (h.shares u hold))
  · obtain rfl := List.mem_singleton.1 hnew
    cases declaresBy_of_declare hdeclare with
    | union kind run =>
      have hshares := buildUnion_shares hdoc hroot h.toKept hsound run
      exact (s.remembers_declared _).shares hshares

/-- What a registry knows of its unions holds throughout a build. -/
theorem unions_invariant (hdoc : Document.ofJson root = .ok d) (hroot : d.root.DistinctKeys) :
    Invariant d (·.Unions d) where
  registered _ hrun := registerSchemas_unions hdoc hroot hrun
  operation _ _ _ _ _ _ _ _ h hrun := by
    have hregisters := buildOperation_registers hrun
    obtain ⟨declared, hsound⟩ := h.sound
    refine ⟨h.toRecorded.merges (hregisters.merges h.toKept),
      ⟨_, (buildOperation_declares hsound hrun).1⟩, ?_, fun u hu => ?_⟩
    · rw [Registry.Plain, hregisters.fields]
      exact h.plain
    · rw [hregisters.types] at hu
      exact hregisters.toRemembers.shares (h.shares u hu)
  queued _ h := h.queued
  taken r h := by
    obtain ⟨declared, hsound⟩ := h.sound
    have hrecorded := (recorded_invariant hdoc hroot).taken h.toRecorded
    exact ⟨hrecorded, ⟨_, hsound.taken⟩, h.plain,
      fun u hu => r.remembers_taken.shares (h.shares u hu)⟩
  declared _ _ _ h hnode hrun :=
    ⟨declareAndKeep_unions hdoc hroot h hnode hrun,
      ((recorded_invariant hdoc hroot).declared h.toRecorded hnode hrun).2⟩

end Build

end OpenApiServer

/-!
## Which payloads are looked at

A union looks at its payloads in their order, for as long as they are names of record schemas, and
finds out the fields of these records. At the first other payload it stops.
-/

namespace OpenApiServer

namespace Registry

variable {r r' : Registry}

/-- What is known of the variants whose payloads are looked at. -/
inductive Visits (r : Registry) : List UnionVariant → Prop where
  | nil : Visits r []
  | record {v : UnionVariant} {rest : List UnionVariant} {fields : List Field}
    (payload : r.RecordPayload v fields) (later : Visits r rest) : Visits r (v :: rest)
  | other {v : UnionVariant} {rest : List UnionVariant}
    (payload : ∀ name, v.payload = .named name → ∃ node schema, r.nodeOf? name = some node ∧
      Schema.classify name.text node = .ok schema ∧ schema.kind.isRecord = false) :
    Visits r (v :: rest)

theorem Visits.remembers {variants : List UnionVariant} (h : r.Visits variants)
    (hremembers : r.Remembers r') : r'.Visits variants := by
  induction h with
  | nil => exact .nil
  | record payload _ ih => exact .record (hremembers.recordPayload payload) ih
  | other payload =>
    refine .other fun name hname => ?_
    obtain ⟨node, schema, hnode, hschema⟩ := payload name hname
    exact ⟨node, schema, hremembers.nodeOf? hnode, hschema⟩

end Registry

namespace Build

variable {d : Document} {r r' : Registry} {root : Json}

section Running

variable (hdoc : Document.ofJson root = .ok d) (hroot : d.root.DistinctKeys)

include hdoc hroot

theorem payloadFields_visits {variants : List UnionVariant} {found : Option (List (List Field))}
    (hkept : r.Kept d) (hknown : ∀ v ∈ variants, r.KnownPayload v)
    (h : payloadFields d variants r = .ok (found, r')) : r'.Visits variants := by
  induction variants generalizing r found with
  | nil => exact .nil
  | cons v rest ih =>
    obtain ⟨hv, hrest⟩ := List.forall_mem_cons.1 hknown
    rcases payloadFields_cons_cases hdoc hroot hkept hv h with
      ⟨fields, later, s, hremembers, hkept', hrecord, hlater, -⟩ | ⟨-, hother⟩
    · have hlast := (payloadFields_merges hdoc hroot hkept' hlater).toRemembers
      have hrest' : ∀ w ∈ rest, s.KnownPayload w := fun w hw => hremembers.knownPayload (hrest w hw)
      exact .record (hlast.recordPayload hrecord) (ih hkept' hrest' hlater)
    · exact .other hother

theorem buildUnion_visits {declared : List TypeName} {name : TypeName} {node : Json}
    {arms : List Json} {u : UnionDecl} (hkept : r.Kept d) (sound : r.Sound d declared)
    (h : buildUnion d name node arms r = .ok (u, r')) : r'.Visits u.variants := by
  obtain ⟨s, found, hkept', hknown, hfound, -⟩ :=
    exists_payloadFields_of_buildUnion hkept sound h
  exact payloadFields_visits hdoc hroot hkept' hknown hfound

/-- What the declared unions have looked at. -/
theorem visits_accompanies : Accompanies d (·.Unions d) fun r =>
    ∀ u, .union u ∈ r.types → r.Visits u.variants where
  registered r hrun _ := by
    obtain ⟨-, htypes⟩ := registerSchemas_sound hdoc hrun
    simp [htypes]
  operation r r' _ _ _ _ _ _ _ h hrun := by
    have hregisters := buildOperation_registers hrun
    rw [hregisters.types]
    exact fun u hu => (h u hu).remembers hregisters.toRemembers
  taken r _ h u hu := (h u hu).remembers r.remembers_taken
  declared r s p t hunions h hnode hrun u hu := by
    obtain ⟨declared, hsound⟩ := hunions.sound
    have hdeclares := declare_declares hdoc hroot hunions.toKept hnode hrun
    have hremembers := s.remembers_declared (s.types ++ [t])
    rw [hdeclares.types_eq] at hu
    rcases List.mem_append.1 hu with hold | hnew
    · exact (h u hold).remembers (hdeclares.remembers.trans hremembers)
    · obtain rfl := List.mem_singleton.1 hnew
      cases declaresBy_of_declare hrun with
      | union _ run =>
        exact (buildUnion_visits hdoc hroot hunions.toKept hsound run).remembers hremembers

end Running

end Build

end OpenApiServer
