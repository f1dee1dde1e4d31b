import OpenApiServer.Build.Server
import OpenApiServer.Proofs.Build.ClaimedNodes
import OpenApiServer.Proofs.Build.Recorded
import OpenApiServer.Proofs.Document.References

/-!
# Types of schemas that are written as texts

References lead from some nodes to a primitive or an enumeration. The type of such a node is found
on the way: it is the name of the first named schema, or else the primitive, or the name that the
enumeration at the end gets. It is never a list, an option or a type of another kind.
-/

namespace OpenApiServer.Build

variable {d : Document} {r r' : Registry} {suggested : TypeName} {node node' : Json}
  {type : TypeExpr}

/-- Whether references lead from a node to a primitive or an enumeration. -/
inductive Textual (d : Document) : Json → Prop where
  | plain {node : Json} (kind : node.schemaKind = .primitive ∨ node.schemaKind = .stringEnum) :
    Textual d node
  | reference {node next : Json} {pointer : String}
    (reference : Document.reference? node = some pointer) (resolves : d.resolve pointer = .ok next)
    (rest : Textual d next) : Textual d node

/-- The type that is found for such a node. -/
inductive TextType (d : Document) (r : Registry) (suggested : TypeName) : Json → TypeExpr → Prop where
  | primitive {node : Json} {p : Primitive} (kind : node.schemaKind = .primitive)
    (scalar : p ≠ .bytes) : TextType d r suggested node (.primitive p)
  | enum {node claimed : Json} (kind : node.schemaKind = .stringEnum)
    (claim : r.nodeOf? suggested = some claimed) (alike : claimed.Alike node) :
    TextType d r suggested node (.named suggested)
  | schema {node next : Json} {pointer name : String}
    (reference : Document.reference? node = some pointer)
    (names : Pointer.schemaName? pointer = some name) (resolves : d.resolve pointer = .ok next) :
    TextType d r suggested node (.named (.ofText name))
  | next {node next : Json} {pointer : String} {type : TypeExpr}
    (reference : Document.reference? node = some pointer) (resolves : d.resolve pointer = .ok next)
    (rest : TextType d r suggested next type) : TextType d r suggested node type

namespace Textual

theorem of_dereferenceFrom {steps : Nat} {visited : List String} {node target : Json}
    (h : d.dereferenceFrom steps visited node = .ok target)
    (kind : target.schemaKind = .primitive ∨ target.schemaKind = .stringEnum) : Textual d node := by
  cases hreference : Document.reference? node with
  | none =>
    rw [Document.dereferenceFrom_eq_self hreference] at h
    obtain rfl := Except.ok.inj h
    exact .plain kind
  | some pointer =>
    obtain ⟨-, rest, next, rfl, hresolve, hnext⟩ :=
      (Document.dereferenceFrom_eq_ok hreference).1 h
    exact .reference hreference hresolve (of_dereferenceFrom hnext kind)

theorem of_alike (h : Textual d node) (halike : node.Alike node') : Textual d node' := by
  cases h with
  | plain kind =>
    rw [halike.1] at kind
    exact .plain kind
  | reference reference resolves rest => exact .reference (halike.2 ▸ reference) resolves rest

/-- Such a node is a reference, a primitive or an enumeration itself. -/
theorem kind (h : Textual d node) : node.schemaKind = .primitive ∨
    node.schemaKind = .stringEnum ∨ node.schemaKind = .reference := by
  cases h with
  | plain kind => exact kind.imp_right .inl
  | reference reference =>
    exact .inr (.inr (Json.schemaKind_eq_reference_iff.2 (Option.isSome_of_eq_some reference)))

theorem resolve (h : Textual d node) {pointer : String} {next : Json}
    (hreference : Document.reference? node = some pointer)
    (hresolve : d.resolve pointer = .ok next) : Textual d next := by
  cases h with
  | plain kind =>
    rw [Json.schemaKind_eq_reference_iff.2 (Option.isSome_of_eq_some hreference)] at kind
    rcases kind with kind | kind <;> cases kind
  | reference reference resolves rest =>
    obtain rfl := Option.some.inj (hreference.symm.trans reference)
    obtain rfl := Except.ok.inj (hresolve.symm.trans resolves)
    exact rest

end Textual

namespace TextType

theorem of_alike (h : TextType d r suggested node type) (halike : node.Alike node') :
    TextType d r suggested node' type := by
  cases h with
  | primitive kind scalar => exact .primitive (halike.1 ▸ kind) scalar
  | enum kind claim alike =>
    have halike' := And.intro (alike.1.trans halike.1) (alike.2.trans halike.2)
    exact .enum (halike.1 ▸ kind) claim halike'
  | schema reference names resolves => exact .schema (halike.2 ▸ reference) names resolves
  | next reference resolves rest => exact .next (halike.2 ▸ reference) resolves rest

theorem remembers (h : TextType d r suggested node type) (hremembers : r.Remembers r') :
    TextType d r' suggested node type := by
  induction h with
  | primitive kind scalar => exact .primitive kind scalar
  | enum kind claim alike => exact .enum kind (hremembers.nodeOf? claim) alike
  | schema reference names resolves => exact .schema reference names resolves
  | next reference resolves _ ih => exact .next reference resolves ih

end TextType

/-- Only bodies are bytes. -/
theorem ne_bytes_of_primitiveType {context : String} {kind : PrimitiveKind}
    {format : Option String} (h : primitiveType context kind format = .ok type) :
    ∃ p, type = .primitive p ∧ p ≠ .bytes := by
  unfold primitiveType at h
  cases kind with
  | integer =>
    dsimp only at h
    unfold Primitive.ofIntegerFormat? at h
    split at h
    next p hp =>
      obtain rfl := Except.ok.inj h
      refine ⟨p, rfl, ?_⟩
      rintro rfl
      split at hp <;> cases hp
    next => cases h
  | null => cases h
  | string | number | boolean =>
    obtain rfl := Except.ok.inj h
    exact ⟨_, rfl, by simp⟩

/-- The name of an inline schema that is registered belongs to it, or to one that is alike. -/
theorem alike_of_enlist (hkeys : ∀ c ∈ r.claims, c.node.DistinctKeys)
    {inline : Option (TypeName × Json)} (h : r.enlist inline = .ok r') :
    ∀ name node, inline = some (name, node) →
      ∃ claimed, r'.nodeOf? name = some claimed ∧ claimed.Alike node := by
  rintro name node rfl
  rcases Registry.nodeOf?_of_register h with ⟨claimed, hclaimed, hsame, rfl⟩ | ⟨hself, -⟩
  · obtain ⟨c, hc, rfl⟩ := Option.map_eq_some_iff.1 hclaimed
    have hdistinct := hkeys c (List.mem_of_find?_eq_some hc)
    exact ⟨c.node, hclaimed, Json.alike_of_same hdistinct hsame⟩
  · exact ⟨node, hself, .refl node⟩

theorem Placed.textType {steps : Nat} {place : Place} (h : Placed d steps node suggested place)
    (hnode : Textual d node) (hinline : ∀ name inline, place.inline = some (name, inline) →
      ∃ claimed, r.nodeOf? name = some claimed ∧ claimed.Alike inline) :
    TextType d r suggested node place.type := by
  induction h with
  | component refers named resolves =>
    exact .schema ((Schema.eq_reference_iff refers).1 rfl) named resolves
  | target refers _ _ resolves _ ih =>
    have hreference := (Schema.eq_reference_iff refers).1 rfl
    exact .next hreference resolves (ih (hnode.resolve hreference resolves) hinline)
  | primitive primitive typed =>
    obtain ⟨p, rfl, hscalar⟩ := ne_bytes_of_primitiveType typed
    exact .primitive (Schema.kind_of_classify primitive).symm hscalar
  | list classified | optional classified =>
    have htextual := hnode.kind
    rw [← Schema.kind_of_classify classified] at htextual
    simp [Schema.kind] at htextual
  | @inline _ _ _ schema classified standsInline =>
    have hkind := Schema.kind_of_classify classified
    have htextual := hnode.kind
    rw [← hkind] at htextual
    cases schema with
    | stringEnum members default =>
      obtain ⟨claimed, hclaimed, halike⟩ := hinline _ _ rfl
      exact .enum hkind.symm hclaimed halike
    | primitive | reference | array => cases standsInline
    | object | allOf | oneOf => simp [Schema.kind] at htextual

/-- What is known of the inline schema at the end of the way does not change on the way back. -/
theorem textType_of_typeOf (hkeys : ∀ c ∈ r.claims, c.node.DistinctKeys)
    (hnode : Textual d node) (h : typeOf d node suggested r = .ok (type, r')) :
    TextType d r' suggested node type := by
  obtain ⟨inline, hplace, henlist⟩ := typeOf_eq_ok.1 h
  exact (placeFrom_eq_ok_iff.1 hplace).textType hnode (alike_of_enlist hkeys henlist)

end OpenApiServer.Build

/-!
## Types of parameters

A parameter is bound only when the schema behind its type is written as a text. What has been found
out about that schema stays true, since a claimed name stays with its schema.
-/

namespace OpenApiServer.Build

variable {d : Document} {r r' : Registry} {type : TypeExpr}

/-- What is known of a type that has passed the check: it is a scalar or the name of a schema that
is written as a text. -/
inductive Parsable (d : Document) (r : Registry) : TypeExpr → Prop where
  | scalar {p : Primitive} (scalar : p ≠ .bytes) : Parsable d r (.primitive p)
  | named {name : TypeName} {node : Json} (claim : r.nodeOf? name = some node)
    (textual : Textual d node) : Parsable d r (.named name)

theorem Parsable.remembers (h : Parsable d r type) (hremembers : r.Remembers r') :
    Parsable d r' type := by
  cases h with
  | scalar scalar => exact .scalar scalar
  | named claim textual => exact .named (hremembers.nodeOf? claim) textual

theorem parsable_of_isFromText (h : isFromText d type r = .ok (true, r')) : Parsable d r' type := by
  cases type with
  | primitive p =>
    obtain ⟨hscalar, -⟩ := pure_eq_ok.1 h
    exact .scalar (by simpa [TypeExpr.isScalar] using hscalar)
  | named name =>
    have h := get_bind_eq_ok.1 h
    cases hnode : r.nodeOf? name with
    | none =>
      rw [hnode] at h
      obtain ⟨hfalse, -⟩ := pure_eq_ok.1 h
      cases hfalse
    | some node =>
      rw [hnode] at h
      obtain ⟨target, htarget, h⟩ := lift_bind_eq_ok.1 h
      obtain ⟨schema, hclassify, h⟩ := lift_bind_eq_ok.1 h
      have hkind := Schema.kind_of_classify hclassify
      cases schema with
      | stringEnum members default =>
        obtain ⟨-, rfl⟩ := pure_eq_ok.1 h
        exact .named hnode (.of_dereferenceFrom htarget (.inr hkind.symm))
      | primitive kind format =>
        obtain ⟨-, rfl⟩ := pure_eq_ok.1 h
        exact .named hnode (.of_dereferenceFrom htarget (.inl hkind.symm))
      | _ =>
        obtain ⟨hfalse, -⟩ := pure_eq_ok.1 h
        cases hfalse
  | _ =>
    obtain ⟨hfalse, -⟩ := pure_eq_ok.1 h
    cases hfalse

theorem DeclaredRun.parsable {operation : String} {e : Endpoint} {template : PathTemplate}
    {used used' : List String} {ps : List DeclaredParameter} {bound : List Parameter}
    (h : DeclaredRun d operation e template used ps r bound used' r') :
    ∀ p ∈ bound, Parsable d r' p.type := by
  induction h with
  | nil => simp
  | skip _ _ ih => exact ih
  | cons _ run later ih =>
    refine List.forall_mem_cons.2 ⟨?_, ih⟩
    exact (parsable_of_isFromText run.isFromText).remembers later.registers.toRemembers

theorem bindUndeclared_parsable {e : Endpoint} {used placeholders : List String}
    {bound : List Parameter} (h : bindUndeclared e used placeholders r = .ok (bound, r')) :
    ∀ p ∈ bound, Parsable d r' p.type := by
  induction placeholders generalizing used bound r with
  | nil =>
    obtain ⟨rfl, -⟩ := pure_eq_ok.1 h
    simp
  | cons placeholder rest ih =>
    obtain ⟨_, s, -, h⟩ := bind_eq_ok.1 h
    obtain ⟨later, s', hlater, h⟩ := bind_eq_ok.1 h
    obtain ⟨rfl, rfl⟩ := pure_eq_ok.1 h
    exact List.forall_mem_cons.2 ⟨.scalar (by simp), ih hlater⟩

theorem bindParameters_parsable {operation : String} {e : Endpoint} {template : PathTemplate}
    {bound : List Parameter} (h : bindParameters d operation e template r = .ok (bound, r')) :
    ∀ p ∈ bound, Parsable d r' p.type := by
  obtain ⟨ps, -, h⟩ := lift_bind_eq_ok.1 h
  obtain ⟨⟨declared, used⟩, s, hdeclared, h⟩ := bind_eq_ok.1 h
  obtain ⟨rest, s', hrest, h⟩ := bind_eq_ok.1 h
  obtain ⟨rfl, rfl⟩ := pure_eq_ok.1 h
  have hregisters := bindUndeclared_registering e used _ hrest
  have hfirst := (declaredRun_of_bindDeclared hdeclared).parsable
  refine List.forall_mem_append.2 ⟨fun p hp => ?_, bindUndeclared_parsable hrest⟩
  exact (hfirst p hp).remembers hregisters.toRemembers

theorem buildOperation_parsable {state state' : OperationState} {e : Endpoint} {o : Operation}
    {response : ResponseDecl} (h : buildOperation d state e r = .ok ((o, response, state'), r')) :
    ∀ p ∈ o.parameters, Parsable d r' p.type := by
  obtain ⟨run, rfl, rfl⟩ := operationRun_of_buildOperation h
  have hbody := bindBody_registering _ e run.parameters run.bindBody
  have hresponse := buildResponse_registering _ e run.buildResponse
  intro p hp
  have hparsable := bindParameters_parsable run.bindParameters p hp
  exact hparsable.remembers (hbody.trans hresponse).toRemembers

/-- What the parameters of all operations are bound to is known when the last of them is built. -/
theorem OperationsRun.parsable {state : OperationState} {es : List Endpoint}
    {built : List (Operation × ResponseDecl)} {tables : RouteTables}
    (h : OperationsRun d state es r built tables r') :
    ∀ b ∈ built, ∀ p ∈ b.1.parameters, Parsable d r' p.type := by
  induction h with
  | nil => simp
  | cons first later ih =>
    refine List.forall_mem_cons.2 ⟨fun p hp => ?_, ih⟩
    exact (buildOperation_parsable first p hp).remembers later.registers.toRemembers

end OpenApiServer.Build
