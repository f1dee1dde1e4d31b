import OpenApiServer.Proofs.Build.DistinctFields
import OpenApiServer.Proofs.Build.TextTypes
import OpenApiServer.Proofs.Name.Derived
import OpenApiServer.Proofs.Server.Responses
import OpenApiServer.Proofs.Server.SharedFields

/-!
# Parameters that can be parsed from texts

Whether a parameter can be bound is decided by the schema behind its type, before anything is
declared. The declarations agree with this: from the type of a parameter, aliases lead to a scalar
or to an enumeration. A name that is reserved for the responses of an operation breaks it, for an
inline schema that equals the operation gets the name as well.
-/

/-!
## Targets of aliases

An alias is declared with the type of its own schema. Where that schema is written as a text, the
target is found as `TextType` says, and it stays the right one, since names stay with their schemas.
-/

namespace OpenApiServer

namespace Registry

variable {d : Document} {r r' : Registry}

/-- Whether the target of an alias is the type of its schema, if that is written as a text. -/
def Targets (d : Document) (r : Registry) (decl : AliasDecl) : Prop :=
  ∃ node, r.nodeOf? decl.name = some node ∧
    (Build.Textual d node → Build.TextType d r (Build.valueName decl.name) node decl.target)

theorem Remembers.targets (h : r.Remembers r') {decl : AliasDecl} (htargets : r.Targets d decl) :
    r'.Targets d decl := by
  obtain ⟨node, hnode, htype⟩ := htargets
  exact ⟨node, h.nodeOf? hnode, fun htextual => (htype htextual).remembers h⟩

/-- What a registry knows of its aliases. -/
def AliasesTarget (d : Document) (r : Registry) : Prop :=
  ∀ decl, .alias decl ∈ r.types → r.Targets d decl

end Registry

namespace Build

variable {d : Document} {r r' : Registry} {root : Json}

/-- A schema that is written as a text is an enumeration or an alias for what its type is. -/
theorem textType_of_declare (hkeys : ∀ c ∈ r.claims, c.node.DistinctKeys) {p : Pending}
    {decl : AliasDecl} (hnode : Textual d p.node)
    (h : declare d p r = .ok (.alias decl, r')) :
    TextType d r' (valueName p.name) p.node decl.target := by
  obtain ⟨schema, hclassify, h⟩ := lift_bind_eq_ok.1 h
  have hkind := Schema.kind_of_classify hclassify
  have htype {type : TypeExpr} {s : Registry}
      (hrun : typeOf d p.node (valueName p.name) r = .ok (type, s)) :
      TextType d s (valueName p.name) p.node type :=
    textType_of_typeOf hkeys hnode hrun
  cases schema with
  | primitive kind format =>
    obtain ⟨type, s, hrun, h⟩ := bind_eq_ok.1 h
    obtain ⟨heq, rfl⟩ := pure_eq_ok.1 h
    obtain rfl := Declaration.alias.inj heq
    exact htype hrun
  | reference pointer =>
    obtain ⟨_, -, h⟩ := lift_bind_eq_ok.1 h
    obtain ⟨type, s, hrun, h⟩ := bind_eq_ok.1 h
    obtain ⟨heq, rfl⟩ := pure_eq_ok.1 h
    obtain rfl := Declaration.alias.inj heq
    exact htype hrun
  | stringEnum members default =>
    obtain ⟨declared, -, heq⟩ := map_eq_ok.1 h
    cases heq
  | _ =>
    rcases hnode.kind with hplain | hplain | hplain
    all_goals
      rw [← hkind] at hplain
      cases hplain

/-- What is known of the aliases is kept, as names stay with their schemas. -/
theorem aliasesTarget_accompanies (hdoc : Document.ofJson root = .ok d)
    (hroot : d.root.DistinctKeys) {F : List Field → Prop} :
    Accompanies d (fun r => r.Recorded d ∧ r.Holds Json.DistinctKeys F) (·.AliasesTarget d) where
  registered r hrun _ := by
    have htypes : r.types = [] := (registerSchemas_sound hdoc hrun).2
    simp [Registry.AliasesTarget, htypes]
  operation _ _ _ _ _ _ _ _ _ h hrun decl hdecl := by
    have hregisters := buildOperation_registers hrun
    rw [hregisters.types] at hdecl
    exact hregisters.toRemembers.targets (h decl hdecl)
  taken r _ h decl hdecl := r.remembers_taken.targets (h decl hdecl)
  declared r s p t hknown h hnode hrun decl hdecl := by
    have hdeclares := declare_declares hdoc hroot hknown.1.toKept hnode hrun
    have hremembers := s.remembers_declared (s.types ++ [t])
    rw [hdeclares.types_eq] at hdecl
    rcases List.mem_append.1 hdecl with hold | hnew
    · exact hremembers.targets (hdeclares.remembers.targets (h decl hold))
    · obtain rfl := List.mem_singleton.1 hnew
      have hname : decl.name = p.name := hdeclares.name_eq
      apply hremembers.targets
      rw [Registry.Targets, hname]
      refine ⟨p.node, hdeclares.remembers.nodeOf? hnode, fun htextual => ?_⟩
      exact textType_of_declare hknown.2.nodes htextual hrun

/-- Aliases have the targets that their schemas tell, throughout a build. -/
theorem aliases_invariant (hdoc : Document.ofJson root = .ok d) (hroot : d.root.DistinctKeys) :
    Invariant d fun r =>
      (r.Recorded d ∧ r.Holds Json.DistinctKeys DistinctFields) ∧ r.AliasesTarget d :=
  ((distinct_laws hroot).invariant hdoc hroot).and (aliasesTarget_accompanies hdoc hroot)

end Build

end OpenApiServer

/-! ## Aliases of what can be parsed -/

namespace OpenApiServer

/-- Whether a value of the type can be parsed from a text: the type is a scalar, an enumeration, or
an alias for such a type. -/
inductive FromText (types : List Declaration) : TypeExpr → Prop where
  | scalar {p : Primitive} (scalar : p ≠ .bytes) : FromText types (.primitive p)
  | enum {decl : EnumDecl} (declared : .enum decl ∈ types) : FromText types (.named decl.name)
  | target {decl : AliasDecl} (declared : .alias decl ∈ types)
    (rest : FromText types decl.target) : FromText types (.named decl.name)

theorem not_fromText_of_response {types : List Declaration} (hnames : (types.map (·.name)).Nodup)
    {response : ResponseDecl} (h : .response response ∈ types) :
    ¬FromText types (.named response.name) := by
  intro htext
  generalize hname : TypeExpr.named response.name = type at htext
  cases htext with
  | scalar => cases hname
  | enum declared =>
    have heq := List.inj_on_of_nodup_map hnames h declared (TypeExpr.named.inj hname)
    cases heq
  | target declared =>
    have heq := List.inj_on_of_nodup_map hnames h declared (TypeExpr.named.inj hname)
    cases heq

variable {root : Json} {d : Document} {basePath : String} {m : ServerModel}

namespace Built

variable (b : Built d basePath m) (hdoc : Document.ofJson root = .ok d)
  (hroot : d.root.DistinctKeys)

include b hdoc hroot

/-- Responses have a name that is made for them, and it does not end as the value of an alias. -/
theorem not_responds_value (name : TypeName) : ¬m.Responds (Build.valueName name) := by
  rintro ⟨response, hresponse, hname⟩
  obtain ⟨o, ho⟩ := b.exists_built hdoc hroot hresponse
  obtain ⟨e, -, before, after, r, r', hrun⟩ :=
    exists_of_mem_forall₂ b.operationsRun.forall₂ ho
  obtain ⟨operation, hmade⟩ := Build.buildOperation_response hrun
  exact TypeName.extend_value_ne_response name operation (hname.symm.trans hmade)

theorem not_responds_schema {name : String} {node : Json} (hs : (name, node) ∈ d.schemas) :
    ¬m.Responds (.ofText name) := by
  rintro ⟨response, hresponse, hname⟩
  obtain ⟨o, ho⟩ := b.exists_built hdoc hroot hresponse
  have hmem : response.name ∈ d.schemaTypes := List.mem_map.2 ⟨_, hs, hname.symm⟩
  exact b.response_not_mem_schemaTypes hroot ho hmem

/-- A claimed name leads where the type of its schema leads. -/
theorem fromText_named {name : TypeName} {node : Json} (hnode : b.drained.nodeOf? name = some node)
    (htextual : Build.Textual d node) (hresponse : ¬m.Responds name)
    (htarget : node.schemaKind ≠ .stringEnum → ∀ type,
      Build.TextType d b.drained (Build.valueName name) node type → FromText m.types type) :
    FromText m.types (.named name) := by
  obtain ⟨t, ht, rfl, hfits⟩ := b.exists_claimed hdoc hroot hnode hresponse
  obtain ⟨t', ht', hboxed⟩ := b.exists_boxed ht
  cases hboxed with
  | enum decl => exact .enum ht'
  | aliased decl =>
    obtain ⟨-, haliases⟩ := (Build.aliases_invariant hdoc hroot).drained b
    obtain ⟨node', hnode', htype⟩ := haliases decl ht
    obtain rfl := Option.some.inj (hnode.symm.trans hnode')
    exact .target ht' (htarget hfits.2 decl.target (htype htextual))
  | _ =>
    rcases htextual.kind with hkind | hkind | hkind
    all_goals
      rw [hkind] at hfits
      cases hfits

/-- By induction on the way that references lead. -/
theorem fromText_of_textType {node : Json} (htextual : Build.Textual d node)
    {suggested : TypeName} {type : TypeExpr} (hsuggested : ¬m.Responds suggested)
    (h : Build.TextType d b.drained suggested node type) : FromText m.types type := by
  induction htextual generalizing suggested type with
  | @plain node kind =>
    have hreference (pointer : String) : Document.reference? node ≠ some pointer := by
      intro hpointer
      rw [Json.schemaKind_eq_reference_iff.2 (Option.isSome_of_eq_some hpointer)] at kind
      simp at kind
    cases h with
    | primitive _ scalar => exact .scalar scalar
    | @enum _ claimed kind claim alike =>
      have hkind := alike.1.trans kind
      exact b.fromText_named hdoc hroot claim (.plain (.inr hkind)) hsuggested (absurd hkind)
    | schema reference => exact absurd reference (hreference _)
    | next reference => exact absurd reference (hreference _)
  | @reference node next pointer reference resolves rest ih =>
    have hkind := Json.schemaKind_eq_reference_iff.2 (Option.isSome_of_eq_some reference)
    cases h with
    | primitive kind =>
      rw [hkind] at kind
      cases kind
    | enum kind =>
      rw [hkind] at kind
      cases kind
    | @schema _ next' pointer' name reference' names resolves' =>
      obtain rfl := Option.some.inj (reference.symm.trans reference')
      obtain rfl := Except.ok.inj (resolves.symm.trans resolves')
      have hschema := Document.mem_schemas_of_resolve hdoc names resolves
      obtain ⟨s, -, -, hclaimed, halike⟩ := (b.recorded hdoc hroot).schemas _ hschema
      dsimp only at hclaimed halike
      have hback : next.Alike s.2 := ⟨halike.1.symm, halike.2.symm⟩
      refine b.fromText_named hdoc hroot hclaimed (rest.of_alike hback)
        (b.not_responds_schema hdoc hroot hschema) fun _ type htype => ?_
      exact ih (b.not_responds_value hdoc hroot _) (htype.of_alike halike)
    | next reference' resolves' rest' =>
      obtain rfl := Option.some.inj (reference.symm.trans reference')
      obtain rfl := Except.ok.inj (resolves.symm.trans resolves')
      exact ih hsuggested rest'

end Built

/-- A document with an operation that takes an order. The order is a named schema that refers to an
enumeration elsewhere. -/
def ordered : Json :=
  .obj [
    ("paths", .obj [("/pets", .obj [("get", .obj [
      ("parameters", .arr [.obj [("name", .str "order"), ("in", .str "query"),
        ("schema", .obj [("$ref", .str "#/components/schemas/Order")])]]),
      ("responses", .obj [("204", .obj [])])])])]),
    ("components", .obj [("schemas", .obj [("Order", .obj [("$ref", .str "#/orders/age")])])]),
    ("orders", .obj [("age", .obj [("enum", .arr [.str "asc", .str "desc"])])])]

/-- A document with an operation whose place stands for the schema of a parameter. The name that is
made for this schema is that of the responses of the operation. -/
def borrowed : Json :=
  .obj [("paths", .obj [
    ("/pets", .obj [("get", .obj [("operationId", .str "getPets"),
      ("type", .str "string"), ("enum", .arr [.str "asc", .str "desc"]),
      ("responses", .obj [("204", .obj [])])])]),
    ("/orders", .obj [("get", .obj [("operationId", .str "get"),
      ("parameters", .arr [.obj [("name", .str "pets_response"), ("in", .str "query"),
        ("schema", .obj [("$ref", .str "#/paths/~1pets/get")])]]),
      ("responses", .obj [("204", .obj [])])])])])]

end OpenApiServer
