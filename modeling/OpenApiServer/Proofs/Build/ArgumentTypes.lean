import OpenApiServer.Proofs.Build.Contents
import OpenApiServer.Proofs.Build.Places
import OpenApiServer.Proofs.Build.Recorded
import OpenApiServer.Proofs.Name.Derived
import OpenApiServer.Proofs.Name.Stability

/-!
# Where the names in arguments come from

The type of an argument names a schema of the document, or it has the name that is suggested for an
inline schema, or that of an item of a list below it. What is suggested for the body of an operation
ends in a fixed word, and what is suggested for a parameter ends as the parameter does.
-/

namespace OpenApiServer

/-- Whether a name has come up for a place with a suggested name. -/
def Document.Sourced (d : Document) (suggested name : TypeName) : Prop :=
  name ∈ d.schemaTypes ∨ name = suggested ∨ "Item".toList <:+ name.text.toList

namespace Build

variable {root : Json} {d : Document} (hdoc : Document.ofJson root = .ok d)

include hdoc

theorem sourced_typeOf {node : Json} {suggested : TypeName} {type : TypeExpr} {r r' : Registry}
    (h : typeOf d node suggested r = .ok (type, r')) :
    ∀ name ∈ type.names, d.Sourced suggested name := by
  obtain ⟨inline, hplace, -⟩ := typeOf_eq_ok.1 h
  have hplaced := placeFrom_eq_ok_iff.1 hplace
  refine hplaced.forall_names (fun _ _ _ hname htarget => ?_) fun name found hinline => ?_
  · exact .inl (Document.covered_schemaTypes hdoc hname htarget)
  · obtain ⟨lists, rfl⟩ := hplaced.inline_eq hinline
    cases lists with
    | zero => exact .inr (.inl rfl)
    | succ lists =>
      refine .inr (.inr ?_)
      rw [Function.iterate_succ_apply', TypeName.extend, String.toList_append]
      exact List.suffix_append _ _

/-! ## Parameters -/

/-- The name that is suggested for the schema of a parameter. -/
def suggestedFor (operation wireName : String) : TypeName :=
  .ofFragments [operation, Name.pascalCase [wireName]]

theorem ParameterRun.sourced {operation : String} {e : Endpoint} {p : DeclaredParameter}
    {location : ParameterLocation} {used : List String} {r r' : Registry}
    (run : ParameterRun d operation e p location used r r') :
    ∀ name ∈ run.parameter.type.names, d.Sourced (suggestedFor operation p.name) name := by
  have hnames : run.parameter.type.names = run.type.names := names_elementOf run.elementOf
  rw [hnames]
  have htype := run.parameterType
  rw [Build.parameterType] at htype
  cases hschema : p.node.get? "schema" with
  | some schema =>
    rw [hschema] at htype
    exact sourced_typeOf hdoc htype
  | none =>
    rw [hschema] at htype
    obtain ⟨_, s, -, htype⟩ := bind_eq_ok.1 htype
    obtain ⟨htext, -⟩ := pure_eq_ok.1 htype
    rw [← htext]
    simp [TypeExpr.names]

theorem DeclaredRun.sourced {operation : String} {e : Endpoint} {template : PathTemplate}
    {used used' : List String} {ps : List DeclaredParameter} {bound : List Parameter}
    {r r' : Registry} (h : DeclaredRun d operation e template used ps r bound used' r') :
    ∀ p ∈ bound, ∀ name ∈ p.type.names, d.Sourced (suggestedFor operation p.wireName) name := by
  induction h with
  | nil => simp
  | skip _ _ ih => exact ih
  | cons _ run _ ih => exact List.forall_mem_cons.2 ⟨run.sourced hdoc, ih⟩

omit hdoc in
theorem bindUndeclared_names {e : Endpoint} {used placeholders : List String}
    {bound : List Parameter} {r r' : Registry}
    (h : bindUndeclared e used placeholders r = .ok (bound, r')) :
    ∀ p ∈ bound, p.type.names = [] := by
  induction placeholders generalizing used bound r with
  | nil =>
    obtain ⟨rfl, -⟩ := pure_eq_ok.1 h
    simp
  | cons placeholder rest ih =>
    obtain ⟨_, s, -, h⟩ := bind_eq_ok.1 h
    obtain ⟨later, s', hlater, h⟩ := bind_eq_ok.1 h
    obtain ⟨rfl, rfl⟩ := pure_eq_ok.1 h
    exact List.forall_mem_cons.2 ⟨rfl, ih hlater⟩

theorem sourced_bindParameters {operation : String} {e : Endpoint} {template : PathTemplate}
    {bound : List Parameter} {r r' : Registry}
    (h : bindParameters d operation e template r = .ok (bound, r')) :
    ∀ p ∈ bound, ∀ name ∈ p.type.names, d.Sourced (suggestedFor operation p.wireName) name := by
  obtain ⟨ps, -, h⟩ := lift_bind_eq_ok.1 h
  obtain ⟨⟨declared, used⟩, s, hdeclared, h⟩ := bind_eq_ok.1 h
  obtain ⟨rest, s', hrest, h⟩ := bind_eq_ok.1 h
  obtain ⟨rfl, rfl⟩ := pure_eq_ok.1 h
  refine List.forall_mem_append.2
    ⟨(declaredRun_of_bindDeclared hdeclared).sourced hdoc, fun p hp name hname => ?_⟩
  rw [bindUndeclared_names hrest p hp] at hname
  cases hname

/-! ## Bodies -/

theorem sourced_bindBody {operation : String} {e : Endpoint} {parameters : List Parameter}
    {body : Option RequestBody} {r r' : Registry}
    (h : bindBody d operation e parameters r = .ok (body, r')) :
    ∀ name ∈ bodyMentioned body, d.Sourced (.ofFragments [operation, "Body"]) name := by
  rw [bindBody] at h
  cases hdeclared : e.node.get? "requestBody" with
  | none =>
    rw [hdeclared] at h
    obtain ⟨rfl, -⟩ := pure_eq_ok.1 h
    simp [bodyMentioned]
  | some declared =>
    rw [hdeclared] at h
    obtain ⟨node, -, h⟩ := lift_bind_eq_ok.1 h
    generalize contentOf? node = content at h
    cases content with
    | none =>
      obtain ⟨_, s, -, h⟩ := bind_eq_ok.1 h
      obtain ⟨rfl, -⟩ := pure_eq_ok.1 h
      simp [bodyMentioned]
    | some content =>
      obtain ⟨kind, s, hkind, h⟩ := bind_eq_ok.1 h
      obtain ⟨rfl, -⟩ := pure_eq_ok.1 h
      change ∀ name ∈ kind.mentioned, _
      rw [bodyKind] at hkind
      cases hschema : jsonSchema? content with
      | none =>
        rw [hschema] at hkind
        obtain ⟨rfl, -⟩ := pure_eq_ok.1 hkind
        simp [BodyKind.mentioned]
      | some schema =>
        rw [hschema] at hkind
        obtain ⟨type, s', htype, hkind⟩ := bind_eq_ok.1 hkind
        obtain ⟨rfl, -⟩ := pure_eq_ok.1 hkind
        exact sourced_typeOf hdoc htype

/-! ## Operations -/

/-- Where the names that an operation mentions come from. -/
theorem sourced_buildOperation {state state' : OperationState} {e : Endpoint} {o : Operation}
    {response : ResponseDecl} {r r' : Registry}
    (h : buildOperation d state e r = .ok ((o, response, state'), r')) :
    (∀ p ∈ o.parameters, ∀ name ∈ p.type.names,
      d.Sourced (suggestedFor o.name.bare p.wireName) name) ∧
    (∀ name ∈ bodyMentioned o.body, d.Sourced (.ofFragments [o.name.bare, "Body"]) name) ∧
    "Response".toList <:+ o.response.text.toList := by
  obtain ⟨run, rfl, rfl⟩ := operationRun_of_buildOperation h
  have hbare : (FieldName.ofText run.name).bare = run.name := by
    rw [run.name_eq, (FieldName.proper_ofText e.operationId).ofText_unique]
  dsimp only [OperationRun.operation]
  rw [hbare]
  refine ⟨sourced_bindParameters hdoc run.bindParameters, sourced_bindBody hdoc run.bindBody, ?_⟩
  rw [buildResponse_name run.buildResponse]
  exact TypeName.suffix_ofFragments Name.lastWord_response (by simp)

end Build

end OpenApiServer
