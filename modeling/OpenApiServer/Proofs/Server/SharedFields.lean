import OpenApiServer.Proofs.Build.Boxed
import OpenApiServer.Proofs.Build.SharedFields
import OpenApiServer.Proofs.Declaration.Aliases
import OpenApiServer.Proofs.Server.Conversions
import OpenApiServer.Proofs.Server.Declarations

/-!
# The accessors of a union

A union shows the fields that the records of all its payloads have in common, as they are declared
in the end. A name that is reserved for the responses of an operation breaks this: an inline schema
that equals the operation gets the name as well, and its fields are taken for those of a record.

## Common fields before and after boxing

A field that records have in common is a field of each of them. Boxes come to fields without boxes,
and two such fields that agree after boxing have agreed before. So where records had no field in
common they have none after boxing, and there is nothing to bring up to date.
-/

namespace OpenApiServer

namespace Field

/-- The field as the accessors of a union show it. -/
def shared (f : Field) : SharedField := ⟨f.name, f.jsonName, f.fieldType⟩

/-- Whether two fields are the same but for their docs. -/
def Agrees (g f : Field) : Prop :=
  g.jsonName = f.jsonName ∧ g.name = f.name ∧ g.type = f.type ∧ g.required = f.required

instance (g f : Field) : Decidable (g.Agrees f) := inferInstanceAs (Decidable (_ ∧ _))

theorem Agrees.shared_eq {f g : Field} (h : g.Agrees f) : g.shared = f.shared := by
  obtain ⟨hkey, hname, htype, hrequired⟩ := h
  simp only [shared, fieldType, hkey, hname, htype, hrequired]

end Field

/-- Whether the payloads of variants are the names of declared records, in order. -/
def PayloadRecords (types : List Declaration) (variants : List UnionVariant)
    (decls : List RecordDecl) : Prop :=
  List.Forall₂ (fun v decl => v.payload = .named decl.name ∧ .record decl ∈ types) variants decls

/-- Where no name is declared twice, the payloads tell the records. -/
theorem PayloadRecords.unique {types : List Declaration} {variants : List UnionVariant}
    {decls decls' : List RecordDecl} (hnames : (types.map (·.name)).Nodup)
    (h : PayloadRecords types variants decls) (h' : PayloadRecords types variants decls') :
    decls = decls' := by
  induction h generalizing decls' with
  | nil =>
    cases h'
    rfl
  | cons hv _ ih =>
    cases h' with
    | cons hv' hrest' =>
      obtain ⟨hpayload, hdecl⟩ := hv
      obtain ⟨hpayload', hdecl'⟩ := hv'
      have hname := TypeExpr.named.inj (hpayload.symm.trans hpayload')
      obtain rfl := Declaration.record.inj (List.inj_on_of_nodup_map hnames hdecl hdecl' hname)
      rw [ih hrest']

namespace Build

theorem sameField_iff {g f : Field} : sameField g f = true ↔ g.Agrees f := by
  simp [sameField, Field.Agrees, and_assoc]

/-- The common fields are those of the first record that agree with a field of every other one. -/
theorem commonFields_cons (first : List Field) (rest : List (List Field)) :
    commonFields (first :: rest) =
      (first.filter fun f => ∀ fields ∈ rest, ∃ g ∈ fields, g.Agrees f).map Field.shared := by
  rw [commonFields]
  congr 1
  refine List.filter_congr fun f _ => ?_
  rw [Bool.eq_iff_iff, decide_eq_true_iff]
  simp only [List.all_eq_true, List.any_eq_true, sameField_iff]

theorem mem_commonFields_iff {first : List Field} {rest : List (List Field)} {s : SharedField} :
    s ∈ commonFields (first :: rest) ↔ ∃ f ∈ first, f.shared = s ∧
      ∀ fields ∈ rest, ∃ g ∈ fields, g.Agrees f := by
  simp only [commonFields_cons, List.mem_map, List.mem_filter, decide_eq_true_iff]
  constructor
  · rintro ⟨f, ⟨hf, hrest⟩, hs⟩
    exact ⟨f, hf, hs, hrest⟩
  · rintro ⟨f, hf, hs, hrest⟩
    exact ⟨f, ⟨hf, hrest⟩, hs⟩

end Build

namespace Boxing

variable {types : List Declaration}

theorem required_boxField (edges : Edges) (owner : TypeName) (f : Field) :
    (boxField edges owner f).required = f.required := by
  rw [boxField]
  split <;> rfl

/-- Boxing does not make different fields the same. -/
theorem agrees_of_boxField {edges : Edges} {owner owner' : TypeName} {f g : Field}
    (hf : f.type.Plain) (hg : g.type.Plain)
    (h : (boxField edges owner' g).Agrees (boxField edges owner f)) : g.Agrees f := by
  rw [Field.Agrees, jsonName_boxField, jsonName_boxField, name_boxField, name_boxField,
    required_boxField, required_boxField] at h
  obtain ⟨hkey, hname, htype, hrequired⟩ := h
  have hunboxed := congrArg TypeExpr.unboxed htype
  rw [unboxed_boxField, unboxed_boxField, hf, hg] at hunboxed
  exact ⟨hkey, hname, hunboxed, hrequired⟩

/-- Records without a common field have none after boxing. -/
theorem commonFields_boxed_eq_nil {edges : Edges} {decls : List RecordDecl}
    (hplain : ∀ decl ∈ decls, PlainFields decl.fields)
    (h : Build.commonFields (decls.map (·.fields)) = []) :
    Build.commonFields (decls.map (boxedFields edges)) = [] := by
  cases decls with
  | nil => rfl
  | cons first rest =>
    obtain ⟨hfirst, hrest⟩ := List.forall_mem_cons.1 hplain
    refine List.eq_nil_iff_forall_not_mem.2 fun s hs => ?_
    obtain ⟨f', hf', -, hothers⟩ := Build.mem_commonFields_iff.1 hs
    obtain ⟨f, hf, rfl⟩ := List.mem_map.1 hf'
    have hcommon : f.shared ∈ Build.commonFields ((first :: rest).map (·.fields)) := by
      refine Build.mem_commonFields_iff.2 ⟨f, hf, rfl, List.forall_mem_map.2 fun decl hdecl => ?_⟩
      obtain ⟨g', hg', hsame⟩ := hothers _ (List.mem_map_of_mem hdecl)
      obtain ⟨g, hg, rfl⟩ := List.mem_map.1 hg'
      exact ⟨g, hg, agrees_of_boxField (hfirst f hf) (hrest decl hdecl g hg) hsame⟩
    rw [h] at hcommon
    cases hcommon

/-- Common fields are found anew after boxing. -/
theorem sharedFields_refreshUnion {edges : Edges} {u : UnionDecl} {decls : List RecordDecl}
    (hnames : (types.map (·.name)).Nodup) (hpayloads : PayloadRecords types u.variants decls)
    (hplain : ∀ decl ∈ decls, PlainFields decl.fields)
    (hshared : u.sharedFields = Build.commonFields (decls.map (·.fields))) :
    (refreshUnion (recordFields (types.map (boxDeclaration edges))) u).sharedFields =
      Build.commonFields (decls.map (boxedFields edges)) := by
  rw [refreshUnion]
  split_ifs with hempty
  · have hnone := List.isEmpty_iff.1 hempty
    rw [hnone, commonFields_boxed_eq_nil hplain (hshared.symm.trans hnone)]
  · have hfields : u.variants.mapM
        (fieldsOfPayload? (recordFields (types.map (boxDeclaration edges)))) =
          some (decls.map (boxedFields edges)) := by
      refine mapM_eq_some_of_forall₂ (List.forall₂_map_right_iff.2 (hpayloads.imp ?_))
      rintro v decl ⟨hname, hdecl⟩
      rw [fieldsOfPayload?, hname]
      exact lookup_boxed edges hnames hdecl
    rw [hfields]

/-- What boxing makes of the shared fields of a union: none stay none, and those that are common to
the records of all payloads are common to these records in the end. -/
theorem exists_union_of_box (hnames : (types.map (·.name)).Nodup) {conversions : List Conversion}
    {u : UnionDecl} (h : .union u ∈ (box types conversions).types) :
    ∃ u₀, .union u₀ ∈ types ∧ u.variants = u₀.variants ∧
      (u₀.sharedFields = [] → u.sharedFields = []) ∧
      ∀ decls, PayloadRecords types u₀.variants decls → (∀ decl ∈ decls, PlainFields decl.fields) →
        u₀.sharedFields = Build.commonFields (decls.map (·.fields)) →
          u.sharedFields = Build.commonFields (decls.map (boxedFields (edges types))) := by
  rw [box] at h
  dsimp only at h
  split at h
  next hnone =>
    obtain ⟨t, ht, heq⟩ := List.mem_map.1 h
    cases t with
    | union u₀ =>
      obtain rfl := Declaration.union.inj heq
      refine ⟨u₀, ht, rfl, id, fun decls hpayloads _ hshared => hshared.trans ?_⟩
      have hcounts := boxedFieldCount_eq_zero hnone
      congr 1
      refine List.map_congr_left fun decl hdecl => ?_
      obtain ⟨v, -, -, hmem⟩ := exists_of_mem_forall₂ hpayloads hdecl
      exact (boxedFields_eq_self (hcounts _ hmem)).symm
    | _ => cases heq
  next =>
    obtain ⟨t', ht', heq⟩ := List.mem_map.1 h
    obtain ⟨t, ht, rfl⟩ := List.mem_map.1 ht'
    cases t with
    | union u₀ =>
      obtain rfl := Declaration.union.inj heq
      refine ⟨u₀, ht, ?_, fun hempty => ?_, fun decls hpayloads hplain hshared => ?_⟩
      · rw [refreshUnion]
        split_ifs
        · rfl
        · split <;> rfl
      · rw [refreshUnion, hempty]
        exact hempty
      · exact sharedFields_refreshUnion hnames hpayloads hplain hshared
    | _ => cases heq

end Boxing

end OpenApiServer

/-! ## What a union shows -/

namespace OpenApiServer

variable {root : Json} {d : Document} {basePath : String} {m : ServerModel}

namespace UnionDecl

/-- Whether the shared fields of a union are those fields of the record of its first payload that
agree with a field of the record of every other payload. If some payload is no record, there are
none. -/
structure SharesFields (u : UnionDecl) (types : List Declaration) : Prop where
  common : ∀ first rest, PayloadRecords types u.variants (first :: rest) →
    u.sharedFields = (first.fields.filter fun f =>
      ∀ decl ∈ rest, ∃ g ∈ decl.fields, g.Agrees f).map Field.shared
  nothing : (¬∃ first rest, PayloadRecords types u.variants (first :: rest)) → u.sharedFields = []

variable {u : UnionDecl} {types : List Declaration}

theorem SharesFields.of_commonFields (hcommon : ∀ decls, PayloadRecords types u.variants decls →
      u.sharedFields = Build.commonFields (decls.map (·.fields)))
    (hnothing : (¬∃ decls, PayloadRecords types u.variants decls) → u.sharedFields = []) :
    u.SharesFields types where
  common first rest hdecls := by
    rw [hcommon _ hdecls, List.map_cons, Build.commonFields_cons]
    simp only [List.forall_mem_map]
  nothing hnone := by
    by_cases hdecls : ∃ decls, PayloadRecords types u.variants decls
    · obtain ⟨decls, hdecls⟩ := hdecls
      cases decls with
      | nil => exact hcommon [] hdecls
      | cons first rest => exact absurd ⟨first, rest, hdecls⟩ hnone
    · exact hnothing hdecls

/-- Each shared field is a field of every payload, of its name, its JSON name and its type. -/
theorem SharesFields.exists_field (h : u.SharesFields types) {s : SharedField}
    (hs : s ∈ u.sharedFields) :
    ∀ v ∈ u.variants, ∃ decl, .record decl ∈ types ∧ v.payload = .named decl.name ∧
      ∃ f ∈ decl.fields, f.shared = s := by
  intro v hv
  obtain ⟨first, rest, hdecls⟩ : ∃ first rest, PayloadRecords types u.variants (first :: rest) := by
    by_contra hnone
    rw [h.nothing hnone] at hs
    cases hs
  rw [h.common first rest hdecls] at hs
  obtain ⟨f, hf, rfl⟩ := List.mem_map.1 hs
  obtain ⟨hfirst, hrest⟩ := List.mem_filter.1 hf
  obtain ⟨decl, hdecl, hpayload, hmem⟩ := exists_of_mem_forall₂ hdecls.flip hv
  refine ⟨decl, hmem, hpayload, ?_⟩
  rcases List.mem_cons.1 hdecl with rfl | hdecl
  · exact ⟨f, hfirst, rfl⟩
  · obtain ⟨g, hg, hagrees⟩ := of_decide_eq_true hrest decl hdecl
    exact ⟨g, hg, hagrees.shared_eq⟩

end UnionDecl

/-- Whether a name is that of the responses of an operation. -/
def ServerModel.Responds (m : ServerModel) (name : TypeName) : Prop :=
  ∃ response, .response response ∈ m.types ∧ response.name = name

/-- Whether a payload is the name of the responses of an operation. -/
def ServerModel.IsResponse (m : ServerModel) (v : UnionVariant) : Prop :=
  ∃ response, .response response ∈ m.types ∧ v.payload = .named response.name

theorem Closed.not_isResponse {claimed : List TypeName} (h : Closed m claimed) {decl : RecordDecl}
    (hdecl : .record decl ∈ m.types) {v : UnionVariant} (hv : v.payload = .named decl.name) :
    ¬m.IsResponse v := by
  rintro ⟨response, hresponse, hpayload⟩
  have hname := TypeExpr.named.inj (hv.symm.trans hpayload)
  cases List.inj_on_of_nodup_map h.nodup_names hdecl hresponse hname

namespace Built

theorem unions (b : Built d basePath m) (hdoc : Document.ofJson root = .ok d)
    (hroot : d.root.DistinctKeys) : b.drained.Unions d :=
  (Build.unions_invariant hdoc hroot).drained b

/-- What is no response was declared before boxing. -/
theorem mem_box (b : Built d basePath m) {t : Declaration} (ht : t ∈ m.types)
    (hresponse : ∀ response, t ≠ .response response) :
    t ∈ (Boxing.box b.drained.types b.drained.conversions).types := by
  rw [b.types_eq] at ht
  rcases List.mem_append.1 ht with ht | ht
  · exact ht
  · obtain ⟨built, -, rfl⟩ := List.mem_map.1 ht
    exact absurd rfl (hresponse _)

theorem mem_boxed (b : Built d basePath m) {decl : RecordDecl}
    (hdecl : .record decl ∈ b.drained.types) :
    .record { decl with fields := Boxing.boxedFields (Boxing.edges b.drained.types) decl } ∈
      m.types := by
  obtain ⟨t, ht, hboxed⟩ := b.exists_boxed hdecl
  cases hboxed
  exact ht

variable (b : Built d basePath m) (hdoc : Document.ofJson root = .ok d)
  (hroot : d.root.DistinctKeys)

include b hdoc hroot

/-- What is claimed is declared as its schema tells, unless the name is that of responses. -/
theorem exists_claimed {name : TypeName} {node : Json} (hnode : b.drained.nodeOf? name = some node)
    (hresponse : ¬m.Responds name) :
    ∃ t ∈ b.drained.types, t.name = name ∧ t.Fits node.schemaKind := by
  have hclaimed := Registry.mem_claimed_of_nodeOf? hnode
  obtain ⟨t', ht', hname⟩ := List.mem_map.1 ((b.closed hdoc).perm.symm.subset hclaimed)
  have hbox := b.mem_box ht' fun response heq => by
    subst heq
    exact hresponse ⟨response, ht', hname⟩
  obtain ⟨t, ht, hboxed⟩ := exists_of_mem_forall₂ (Boxing.boxed_box _ _) hbox
  rw [hboxed.name_eq] at hname
  obtain ⟨node', hnode', hfits⟩ := (b.recorded hdoc hroot).kinds t ht
  rw [hname, hnode] at hnode'
  obtain rfl := Option.some.inj hnode'
  exact ⟨t, ht, hname, hfits⟩

/-- A record payload is declared with its kept fields, unless its name is that of responses. -/
theorem exists_record {v : UnionVariant} {fields : List Field}
    (hv : b.drained.RecordPayload v fields) (hresponse : ¬m.IsResponse v) :
    ∃ decl, (v.payload = .named decl.name ∧ .record decl ∈ b.drained.types) ∧
      decl.fields = fields := by
  obtain ⟨name, node, hpayload, hnode, hrecord, hfields⟩ := hv
  have hfree : ¬m.Responds name := by
    rintro ⟨response, hmem, rfl⟩
    exact hresponse ⟨response, hmem, hpayload⟩
  obtain ⟨t, ht, hname, hfits⟩ := b.exists_claimed hdoc hroot hnode hfree
  cases t with
  | record decl =>
    have hkept := (b.recorded hdoc hroot).records decl ht
    rw [show decl.name = name from hname, hfields] at hkept
    exact ⟨decl, ⟨by rw [hpayload, ← hname]; rfl, ht⟩, (Option.some.inj hkept).symm⟩
  | _ =>
    have hkind := hfits.isRecord_eq
    rw [hrecord] at hkind
    cases hkind

theorem exists_records {variants : List UnionVariant} {fields : List (List Field)}
    (h : List.Forall₂ b.drained.RecordPayload variants fields)
    (hresponse : ∀ v ∈ variants, ¬m.IsResponse v) :
    ∃ decls, PayloadRecords b.drained.types variants decls ∧ decls.map (·.fields) = fields := by
  induction h with
  | nil => exact ⟨[], .nil, rfl⟩
  | cons hv _ ih =>
    obtain ⟨hfirst, hrest⟩ := List.forall_mem_cons.1 hresponse
    obtain ⟨decl, hdecl, rfl⟩ := b.exists_record hdoc hroot hv hfirst
    obtain ⟨decls, hdecls, rfl⟩ := ih hrest
    exact ⟨decl :: decls, .cons hdecl hdecls, rfl⟩

/-- A payload that is the name of a declared record is no other payload. -/
theorem not_otherPayload {decl : RecordDecl} (hdecl : .record decl ∈ m.types) {v : UnionVariant}
    (hv : v.payload = .named decl.name) : ¬b.drained.OtherPayload v := by
  intro hother
  obtain ⟨node, hnode, hkind⟩ := hother _ hv
  obtain ⟨t, ht, hboxed⟩ := exists_of_mem_forall₂ (Boxing.boxed_box _ _)
    (b.mem_box hdecl fun response heq => by cases heq)
  obtain ⟨node', hnode', hfits⟩ := (b.unions hdoc hroot).kinds t ht
  rw [← hboxed.name_eq] at hnode'
  obtain rfl := Option.some.inj (hnode.symm.trans hnode')
  rw [← hfits.isRecord_eq, ← hboxed.isRecord_eq] at hkind
  cases hkind

/-- Away from the names of responses, a union shares what its payloads have in common. -/
theorem sharesFields {u : UnionDecl} (hu : .union u ∈ m.types)
    (hresponse : ∀ v ∈ u.variants, ¬m.IsResponse v) : u.SharesFields m.types := by
  have hunions := b.unions hdoc hroot
  have hnames := b.nodup_drained (b.closed hdoc).nodup_names
  obtain ⟨u₀, hu₀, hvariants, hnothing, hcommon⟩ :=
    Boxing.exists_union_of_box hnames (b.mem_box hu fun response heq => by cases heq)
  cases hunions.shares u₀ hu₀ with
  | common payloads shared =>
    rw [← hvariants] at payloads
    obtain ⟨decls, hdecls, rfl⟩ := b.exists_records hdoc hroot payloads hresponse
    let boxed (decl : RecordDecl) : RecordDecl :=
      { decl with fields := Boxing.boxedFields (Boxing.edges b.drained.types) decl }
    have hboxed : PayloadRecords m.types u.variants (decls.map boxed) := by
      refine List.forall₂_map_right_iff.2 (hdecls.imp fun v decl hv => ?_)
      exact ⟨hv.1, b.mem_boxed hv.2⟩
    have hplain : ∀ decl ∈ decls, PlainFields decl.fields := by
      intro decl hdecl
      obtain ⟨v, -, -, hmem⟩ := exists_of_mem_forall₂ hdecls hdecl
      exact hunions.plain.fieldsOf? (hunions.records decl hmem)
    refine .of_commonFields (fun decls' hdecls' => ?_) fun hnone => absurd ⟨_, hboxed⟩ hnone
    rw [← hboxed.unique (b.closed hdoc).nodup_names hdecls', List.map_map]
    exact hcommon decls (hvariants ▸ hdecls) hplain shared
  | @nothing v mem other shared =>
    rw [← hvariants] at mem
    refine .of_commonFields (fun decls hdecls => ?_) fun _ => hnothing shared
    obtain ⟨decl, -, hpayload, hdecl⟩ := exists_of_mem_forall₂ hdecls.flip mem
    exact absurd other (b.not_otherPayload hdoc hroot hdecl hpayload)

end Built

/-- Two records that lead back to their union. One of them requires its label. -/
def branching : Json :=
  let properties : Json := .obj [("label", .obj [("type", .str "string")]),
    ("tree", .obj [("$ref", .str "#/components/schemas/Tree")])]
  .obj [("components", .obj [("schemas", .obj [
    ("Branch", .obj [("required", .arr [.str "label"]), ("properties", properties)]),
    ("Leaf", .obj [("properties", properties)]),
    ("Tree", .obj [("oneOf", .arr [
      taggedArm "branch" (.obj [("$ref", .str "#/components/schemas/Branch")]),
      taggedArm "leaf" (.obj [("$ref", .str "#/components/schemas/Leaf")])])])])])]

/-- A union in whose payload the place of an operation stands for a schema. -/
def quoting : Json :=
  .obj [
    ("paths", .obj [("/pets", .obj [("get", .obj [
      ("responses", .obj [("204", .obj [("description", .str "done")])]),
      ("properties", .obj [("label", .obj [("type", .str "string")])])])])]),
    ("components", .obj [("schemas", .obj [("GetPets", .obj [("oneOf", .arr [
      taggedArm "response" (.obj [("$ref", .str "#/paths/~1pets/get")])])])])])]

end OpenApiServer
