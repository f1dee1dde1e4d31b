import OpenApiServer.Proofs.Build.Declares
import OpenApiServer.Proofs.Build.Keeps
import OpenApiServer.Proofs.Build.Parameters

/-!
# What holds of claimed schemas

A build claims names for schemas that it finds in its document: for named schemas, for inline ones
and for operations. So a property of nodes that passes on to their parts holds of every claimed
schema if it holds of the document. The steps that find out types and bind operations keep no
fields, and whatever holds of the fields that are kept is not their concern.
-/

namespace OpenApiServer

/-- Whether all claimed schemas and all kept fields have some properties. -/
structure Registry.Holds (N : Json → Prop) (F : List Field → Prop) (r : Registry) : Prop where
  nodes : ∀ c ∈ r.claims, N c.node
  fields : ∀ kept ∈ r.fields, F kept.2

namespace Registry.Holds

variable {N : Json → Prop} {F : List Field → Prop} {r r' : Registry}

theorem nodeOf? (h : r.Holds N F) {name : TypeName} {node : Json}
    (hnode : r.nodeOf? name = some node) : N node := by
  obtain ⟨c, hc, rfl⟩ := Option.map_eq_some_iff.1 hnode
  exact h.nodes c (List.mem_of_find?_eq_some hc)

theorem fieldsOf? (h : r.Holds N F) {name : TypeName} {fields : List Field}
    (hfields : r.fieldsOf? name = some fields) : F fields := by
  obtain ⟨before, after, hkept, -⟩ := List.lookup_eq_some_iff.1 hfields
  exact h.fields (name, fields) (by simp [hkept])

theorem of_eq (h : r.Holds N F) (hclaims : r'.claims = r.claims) (hfields : r'.fields = r.fields) :
    r'.Holds N F :=
  ⟨hclaims ▸ h.nodes, hfields ▸ h.fields⟩

theorem claim (h : r.Holds N F) {c : Claim} (hc : N c.node) :
    Holds N F { r with claims := r.claims ++ [c] } :=
  ⟨List.forall_mem_append.2 ⟨h.nodes, by simpa using hc⟩, h.fields⟩

theorem register (h : r.Holds N F) {name : TypeName} {node : Json} {origin : String}
    (hnode : N node) (hrun : r.register name node origin = .ok r') : r'.Holds N F := by
  rw [Registry.register] at hrun
  split at hrun
  next =>
    split_ifs at hrun
    obtain rfl := Except.ok.inj hrun
    exact h
  next =>
    obtain rfl := Except.ok.inj hrun
    exact (h.claim (c := ⟨name, node, origin⟩) hnode).of_eq rfl rfl

theorem reserve (h : r.Holds N F) {name : TypeName} {node : Json} {origin : String}
    (hnode : N node) (hrun : r.reserve name node origin = .ok r') : r'.Holds N F := by
  rw [Registry.reserve] at hrun
  split at hrun
  next => cases hrun
  next =>
    obtain rfl := Except.ok.inj hrun
    exact h.claim (c := ⟨name, node, origin⟩) hnode

end Registry.Holds

namespace Build

variable {d : Document} {N : Json → Prop} {F : List Field → Prop}

/-! ## Types -/

section Types

variable (hN : Json.Hereditary N) (hroot : N d.root)

include hN hroot

theorem Placed.forall_inline {steps : Nat} {node : Json} {suggested : TypeName} {place : Place}
    (h : Placed d steps node suggested place) (hnode : N node) :
    ∀ name inline, place.inline = some (name, inline) → N inline := by
  induction h with
  | component | primitive => exact fun _ _ hnone => nomatch hnone
  | target _ _ _ resolves _ ih => exact ih (hN.resolve hroot resolves)
  | list array _ ih =>
    exact ih (Schema.forall_nodes hN hnode array _ (List.mem_singleton_self _))
  | optional oneOf nullable _ ih =>
    exact ih (Schema.forall_nodes hN hnode oneOf _ (Schema.mem_of_nullableArm? nullable))
  | inline =>
    intro name inline hinline
    obtain ⟨-, rfl⟩ := Prod.mk.inj (Option.some.inj hinline)
    exact hnode

theorem typeOf_holds {node : Json} (hnode : N node) (suggested : TypeName) :
    Keeps (Registry.Holds N F) (typeOf d node suggested) anyResult := by
  intro r type r' hr hrun
  obtain ⟨inline, hplace, henlist⟩ := typeOf_eq_ok.1 hrun
  have hinline := (placeFrom_eq_ok_iff.1 hplace).forall_inline hN hroot hnode
  cases inline with
  | none =>
    obtain rfl := Except.ok.inj henlist
    exact ⟨hr, trivial⟩
  | some found => exact ⟨hr.register (hinline _ _ rfl) henlist, trivial⟩

theorem objectFields_holds (owner : TypeName) {properties : List (String × Json)}
    (hproperties : ∀ property ∈ properties, N property.2) (required : List String) :
    Keeps (Registry.Holds N F) (objectFields d owner properties required) anyResult := by
  refine (Keeps.mapM (q := anyResult) fun property hproperty => ?_).any
  exact (typeOf_holds hN hroot (hproperties property hproperty) _).bind fun _ _ => .pure trivial

end Types

/-! ## Operations -/

theorem warn_holds (message : String) : Keeps (Registry.Holds N F) (warn message) anyResult :=
  .modify fun _ hr => hr.of_eq rfl rfl

theorem isFromText_holds (type : TypeExpr) :
    Keeps (Registry.Holds N F) (isFromText d type) anyResult := by
  unfold isFromText
  split
  next => exact .pure trivial
  next name =>
    refine .get_bind fun r _ => ?_
    split
    next => exact .pure trivial
    next =>
      refine .lift_bind fun target _ => .lift_bind fun schema _ => ?_
      split <;> exact .pure trivial
  next => exact .pure trivial

theorem boundLocation_holds (e : Endpoint) (template : PathTemplate) (p : DeclaredParameter) :
    Keeps (Registry.Holds N F) (boundLocation e template p) anyResult := by
  unfold boundLocation
  split
  next =>
    split
    next => exact .pure trivial
    next => exact (warn_holds _).bind fun _ _ => .pure trivial
  next => exact .pure trivial
  next => exact (warn_holds _).bind fun _ _ => .pure trivial
  next => exact (warn_holds _).bind fun _ _ => .pure trivial
  next => exact .fail

theorem bindUndeclared_holds (e : Endpoint) (used placeholders : List String) :
    Keeps (Registry.Holds N F) (bindUndeclared e used placeholders) anyResult := by
  induction placeholders generalizing used with
  | nil => exact .pure trivial
  | cons placeholder rest ih =>
    rw [bindUndeclared]
    exact (warn_holds _).bind fun _ _ => (ih _).bind fun _ _ => .pure trivial

section Operations

variable (hN : Json.Hereditary N) (hroot : N d.root)

include hN

/-- The schema of some content is part of the node that the content is of. -/
theorem jsonSchema_holds {node schema : Json} {content : List (String × Json)} (hnode : N node)
    (hcontent : contentOf? node = some content) (h : jsonSchema? content = some schema) :
    N schema := by
  have hget : node.get? "content" = some (.obj content) := by
    unfold contentOf? at hcontent
    split at hcontent
    next media rest heq =>
      obtain rfl := Option.some.inj hcontent
      exact heq
    next => cases hcontent
  obtain ⟨media, hmedia, hschema⟩ := List.exists_of_findSome?_eq_some h
  have hmem := hN.obj (hN.get? hnode hget) media (List.mem_of_mem_filter hmedia)
  exact hN.get? hmem hschema

include hroot

theorem mergeParameters_holds {context : String} {owner : Json}
    {merged merged' : List DeclaredParameter} (howner : N owner) (hmerged : ∀ p ∈ merged, N p.node)
    (h : mergeParameters d context merged owner = .ok merged') : ∀ p ∈ merged', N p.node := by
  obtain ⟨nodes, hnodes, h⟩ := bind_eq_ok_iff.1 h
  have hlisted : ∀ node ∈ nodes, N node := by
    unfold parameterNodes at hnodes
    split at hnodes
    next =>
      obtain rfl := Except.ok.inj hnodes
      simp
    next nodes' hget =>
      obtain rfl := Except.ok.inj hnodes
      exact hN.arr (hN.get? howner hget)
    next => cases hnodes
  refine foldlM_keeps (p := fun ps => ∀ p ∈ ps, N p.node) ?_ hmerged h
  intro node hnode ps ps' hps hstep
  obtain ⟨p, hp, hstep⟩ := bind_eq_ok_iff.1 hstep
  obtain rfl := Except.ok.inj hstep
  obtain ⟨target, htarget, hp⟩ := bind_eq_ok_iff.1 hp
  intro q hq
  rcases mem_override hq with rfl | hq
  · split at hp
    next =>
      obtain rfl := Except.ok.inj hp
      exact hN.dereference hroot (hlisted node hnode) htarget
    next => cases hp
  · exact hps q hq

theorem declaredParameters_holds {e : Endpoint} (he : N e.pathItem ∧ N e.node)
    {ps : List DeclaredParameter} (h : declaredParameters d e = .ok ps) : ∀ p ∈ ps, N p.node := by
  have howners : ∀ owner ∈ [e.pathItem, e.node], N owner := by simp [he.1, he.2]
  exact foldlM_keeps (p := fun ps => ∀ p ∈ ps, N p.node) (fun owner howner ps ps' hps hstep =>
    mergeParameters_holds hN hroot (howners owner howner) hps hstep) (by simp) h

theorem bindParameter_holds (operation : String) (e : Endpoint) {p : DeclaredParameter}
    (hp : N p.node) (location : ParameterLocation) (used : List String) :
    Keeps (Registry.Holds N F) (bindParameter d operation e p location used) anyResult := by
  have htype (context : String) :
      Keeps (Registry.Holds N F) (parameterType d operation context p) anyResult := by
    unfold parameterType
    split
    next schema hschema => exact typeOf_holds hN hroot (hN.get? hp hschema) _
    next => exact (warn_holds _).bind fun _ _ => .pure trivial
  refine (htype _).bind fun type _ => .lift_bind fun found _ => ?_
  exact (isFromText_holds found.2).bind fun fits _ => .guard (.pure trivial)

theorem bindDeclared_holds (operation : String) (e : Endpoint) (template : PathTemplate)
    (used : List String) {declared : List DeclaredParameter} (hdeclared : ∀ p ∈ declared, N p.node) :
    Keeps (Registry.Holds N F) (bindDeclared d operation e template used declared) anyResult := by
  induction declared generalizing used with
  | nil => exact .pure trivial
  | cons p rest ih =>
    obtain ⟨hp, hrest⟩ := List.forall_mem_cons.1 hdeclared
    rw [bindDeclared]
    refine (boundLocation_holds e template p).bind fun found _ => ?_
    cases found with
    | none => exact ih used hrest
    | some location =>
      refine (bindParameter_holds hN hroot operation e hp location used).bind fun bound _ => ?_
      exact (ih bound.2 hrest).bind fun _ _ => .pure trivial

theorem bindParameters_holds (operation : String) {e : Endpoint} (he : N e.pathItem ∧ N e.node)
    (template : PathTemplate) :
    Keeps (Registry.Holds N F) (bindParameters d operation e template) anyResult := by
  refine .lift_bind fun declared hdeclared => ?_
  have hnodes := declaredParameters_holds hN hroot he hdeclared
  refine (bindDeclared_holds hN hroot operation e template [] hnodes).bind fun bound _ => ?_
  exact (bindUndeclared_holds e bound.2 _).bind fun _ _ => .pure trivial

theorem bindBody_holds (operation : String) {e : Endpoint} (he : N e.node)
    (parameters : List Parameter) :
    Keeps (Registry.Holds N F) (bindBody d operation e parameters) anyResult := by
  unfold bindBody
  split
  next => exact .pure trivial
  next declared hdeclared =>
    refine .lift_bind fun node hnode => ?_
    have hbody := hN.dereference hroot (hN.get? he hdeclared) hnode
    split
    next => exact (warn_holds _).bind fun _ _ => .pure trivial
    next content hcontent =>
      refine Keeps.bind (p := anyResult) ?_ fun kind _ => .pure trivial
      unfold bodyKind
      split
      next schema hschema =>
        have hmem := jsonSchema_holds hN hbody hcontent hschema
        exact (typeOf_holds hN hroot hmem _).bind fun _ _ => .pure trivial
      next => exact .pure trivial

theorem responseVariant_holds (operation context : String) {declared : String × Json}
    (hdeclared : N declared.2) :
    Keeps (Registry.Holds N F) (responseVariant d operation context declared) anyResult := by
  refine .lift_bind fun status _ => .lift_bind fun node hnode => ?_
  have hresponse := hN.dereference hroot hdeclared hnode
  refine Keeps.bind (p := anyResult) ?_ fun _ _ => .pure trivial
  unfold responsePayload
  split
  next => exact .pure trivial
  next content hcontent =>
    split
    next schema hschema =>
      have hmem := jsonSchema_holds hN hresponse hcontent hschema
      exact (typeOf_holds hN hroot hmem _).bind fun _ _ => .pure trivial
    next => exact .pure trivial

theorem buildResponse_holds (operation : String) {e : Endpoint} (he : N e.node) :
    Keeps (Registry.Holds N F) (buildResponse d operation e) anyResult := by
  refine (Keeps.step fun _ _ hr hrun => hr.reserve he hrun).bind fun _ _ => ?_
  split
  next first rest hresponses =>
    have hdeclared := hN.obj (hN.get? he hresponses)
    refine Keeps.bind (p := anyResult) ?_ fun variants _ => .pure trivial
    exact (Keeps.mapM fun declared hmem =>
      responseVariant_holds hN hroot operation e.context (hdeclared declared hmem)).any
  next => exact .fail

theorem buildOperation_holds (state : OperationState) {e : Endpoint}
    (he : N e.pathItem ∧ N e.node) :
    Keeps (Registry.Holds N F) (buildOperation d state e) anyResult := by
  refine .lift_bind fun template _ => .lift_bind fun added _ => ?_
  refine (bindParameters_holds hN hroot _ he template).bind fun parameters _ => ?_
  refine (bindBody_holds hN hroot _ he.2 parameters).bind fun body _ => ?_
  exact (buildResponse_holds hN hroot _ he.2).bind fun response _ => .pure trivial

theorem registerSchemas_holds :
    Keeps (Registry.Holds N F) (registerSchemas d) anyResult := by
  refine .forM fun s hs => .step fun r r' hr hrun => ?_
  exact hr.register (hN.schemas hroot s hs) hrun

end Operations

end Build

end OpenApiServer
