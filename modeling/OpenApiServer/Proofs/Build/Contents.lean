import OpenApiServer.Build.Contents
import OpenApiServer.Proofs.Build.Types

/-!
# Arguments and responses mention claimed names

The type of a parameter is an item of the type of its schema, a body and a payload have the types of
theirs. The name of a response declaration is reserved before its payloads are looked at.
-/

namespace OpenApiServer.Build

variable {d : Document} {r : Registry}

/-! ## Parameters -/

theorem isFromText_resolves (type : TypeExpr) : Resolves d r (isFromText d type) noNames := by
  unfold isFromText
  split
  next => exact .pure (noNames_subset ..)
  next name =>
    refine .get_bind ?_
    split
    next => exact .pure (noNames_subset ..)
    next node _ =>
      refine .lift_bind fun target _ => .lift_bind fun schema _ => ?_
      split <;> exact .pure (noNames_subset ..)
  next => exact .pure (noNames_subset ..)

theorem parameterType_resolves (operation context : String) (p : DeclaredParameter) :
    Resolves d r (parameterType d operation context p) TypeExpr.names := by
  unfold parameterType
  split
  next schema _ => exact typeOf_resolves schema _
  next => exact (Resolves.warn _).bind fun _ _ _ _ => .pure (List.nil_subset _)

/-- An element mentions what the type that it is taken from mentions. -/
theorem names_elementOf {context : String} {p : DeclaredParameter} {location : ParameterLocation}
    {type element : TypeExpr} {style : ParameterStyle}
    (h : elementOf context p location type = .ok (style, element)) :
    element.names = type.names := by
  rw [← type.names_withoutOption]
  rw [elementOf] at h
  split at h
  next item hitem =>
    split_ifs at h with hpath
    obtain ⟨found, -, h⟩ := bind_eq_ok_iff.1 h
    obtain ⟨-, rfl⟩ := Prod.mk.inj (Except.ok.inj h)
    rw [hitem, TypeExpr.names_withoutOption]
    rfl
  next =>
    obtain ⟨-, rfl⟩ := Prod.mk.inj (Except.ok.inj h)
    rfl

theorem bindParameter_resolves (operation : String) (e : Endpoint) (p : DeclaredParameter)
    (location : ParameterLocation) (used : List String) :
    Resolves d r (bindParameter d operation e p location used) (·.1.type.names) := by
  refine (parameterType_resolves operation _ p).bind fun type r₁ _ htype => ?_
  refine .lift_bind fun ⟨style, element⟩ helement => ?_
  have hnames : element.names ⊆ r₁.claimed := by
    rw [names_elementOf helement]
    exact htype
  refine (isFromText_resolves element).bind fun fits _ hgrows _ => .guard <| .pure ?_
  exact hgrows.mono hnames

theorem boundLocation_resolves (e : Endpoint) (template : PathTemplate) (p : DeclaredParameter) :
    Resolves d r (boundLocation e template p) noNames := by
  unfold boundLocation
  split
  next =>
    split
    next => exact .pure (noNames_subset ..)
    next => exact (Resolves.warn _).bind fun _ _ _ _ => .pure (noNames_subset ..)
  next => exact .pure (noNames_subset ..)
  next => exact (Resolves.warn _).bind fun _ _ _ _ => .pure (noNames_subset ..)
  next => exact (Resolves.warn _).bind fun _ _ _ _ => .pure (noNames_subset ..)
  next => exact .fail

theorem bindDeclared_resolves (operation : String) (e : Endpoint) (template : PathTemplate)
    (used : List String) (declared : List DeclaredParameter) :
    Resolves d r (bindDeclared d operation e template used declared)
      (parametersMentioned ·.1) := by
  induction declared generalizing r used with
  | nil => exact .pure (List.nil_subset _)
  | cons p rest ih =>
    rw [bindDeclared]
    refine (boundLocation_resolves e template p).bind fun found _ _ _ => ?_
    cases found with
    | none => exact ih used
    | some location =>
      refine (bindParameter_resolves operation e p location used).bind
        fun ⟨parameter, used'⟩ _ _ hparameter => ?_
      refine (ih used').bind fun ⟨parameters, _⟩ _ hgrows hparameters => .pure ?_
      exact List.append_subset.2 ⟨hgrows.mono hparameter, hparameters⟩

theorem bindUndeclared_resolves (e : Endpoint) (used placeholders : List String) :
    Resolves d r (bindUndeclared e used placeholders) parametersMentioned := by
  induction placeholders generalizing r used with
  | nil => exact .pure (List.nil_subset _)
  | cons placeholder rest ih =>
    rw [bindUndeclared]
    refine (Resolves.warn _).bind fun _ _ _ _ => ?_
    exact (ih _).bind fun _ _ _ hparameters => .pure hparameters

theorem bindParameters_resolves (operation : String) (e : Endpoint) (template : PathTemplate) :
    Resolves d r (bindParameters d operation e template) parametersMentioned := by
  refine .lift_bind fun declared _ => ?_
  refine (bindDeclared_resolves operation e template [] declared).bind
    fun ⟨bound, used⟩ _ _ hbound => ?_
  refine (bindUndeclared_resolves e used _).bind fun rest _ hgrows hrest => .pure ?_
  rw [parametersMentioned, List.flatMap_append]
  exact List.append_subset.2 ⟨hgrows.mono hbound, hrest⟩

/-! ## Bodies and responses -/

theorem bodyKind_resolves (operation : String) (node : Json) (content : List (String × Json)) :
    Resolves d r (bodyKind d operation node content) BodyKind.mentioned := by
  unfold bodyKind
  split
  next schema _ => exact (typeOf_resolves schema _).bind fun _ _ _ htype => .pure htype
  next => exact .pure (List.nil_subset _)

theorem bindBody_resolves (operation : String) (e : Endpoint) (parameters : List Parameter) :
    Resolves d r (bindBody d operation e parameters) bodyMentioned := by
  unfold bindBody
  split
  next => exact .pure (List.nil_subset _)
  next declared _ =>
    refine .lift_bind fun node _ => ?_
    split
    next => exact (Resolves.warn _).bind fun _ _ _ _ => .pure (List.nil_subset _)
    next content _ =>
      exact (bodyKind_resolves operation node content).bind fun _ _ _ hkind => .pure hkind

theorem responsePayload_resolves (operation key : String) (node : Json) :
    Resolves d r (responsePayload d operation key node) fun payload =>
      (payload.map Payload.type).elim [] TypeExpr.names := by
  unfold responsePayload
  split
  next => exact .pure (List.nil_subset _)
  next content _ =>
    split
    next schema _ => exact (typeOf_resolves schema _).bind fun _ _ _ htype => .pure htype
    next => exact .pure (List.nil_subset _)

theorem responseVariant_resolves (operation context : String) (declared : String × Json) :
    Resolves d r (responseVariant d operation context declared) ResponseVariant.mentioned := by
  refine .lift_bind fun status _ => .lift_bind fun node _ => ?_
  exact (responsePayload_resolves operation declared.1 node).bind
    fun _ _ _ hpayload => .pure hpayload

/-- The responses of an operation are declared at once, under a name of their own. -/
theorem buildResponse_declares {operation : String} {e : Endpoint} {declared : List TypeName}
    (sound : r.Sound d declared) {response : ResponseDecl} {r' : Registry}
    (h : buildResponse d operation e r = .ok (response, r')) :
    r'.Sound d (declared ++ [response.name]) ∧ r.Grows r' ∧
      response.name ∈ r'.claimed ∧ (Declaration.response response).mentioned ⊆ r'.claimed := by
  obtain ⟨⟨⟩, s, hreserve, h⟩ := bind_eq_ok.1 h
  obtain ⟨hsound, hgrows, hmem⟩ := sound.reserve (step_eq_ok.1 hreserve)
  generalize e.node.get? "responses" = responses at h
  split at h
  next first rest =>
    obtain ⟨variants, s', hvariants, h⟩ := bind_eq_ok.1 h
    obtain ⟨rfl, rfl⟩ := pure_eq_ok.1 h
    have hresolves : Resolves d s ((first :: rest).mapM (responseVariant d operation e.context))
        fun variants => variants.flatMap ResponseVariant.mentioned :=
      .mapM fun declared _ _ _ => responseVariant_resolves operation e.context declared
    obtain ⟨hsound', hgrows', hmentioned⟩ := hresolves hsound hvariants
    dsimp only
    exact ⟨hsound', hgrows.trans hgrows', hgrows'.claimed hmem, hmentioned⟩
  next => exact absurd h fail_ne_ok

end OpenApiServer.Build
