import OpenApiServer.Build.Contents
import OpenApiServer.Build.Union
import OpenApiServer.Proofs.Build.Parameters
import OpenApiServer.Proofs.Build.Places

/-!
# Steps that only register

Finding the type of a schema can register inline schemas, and that is all it does to a registry:
what was claimed before is claimed as before, what is queued afterwards was queued before or has
been claimed with its schema, and everything else is as it was. The same holds of binding the
arguments and the responses of an operation and of reading the arms of a union.
-/

namespace OpenApiServer

namespace Registry

variable {r r' : Registry} {name : TypeName}

/-- What has been claimed and found out in `r` is still known in `r'`. -/
structure Remembers (r r' : Registry) : Prop where
  claim? : ∀ ⦃name claim⦄, r.claim? name = some claim → r'.claim? name = some claim
  pending : ∀ p ∈ r'.pending, p ∈ r.pending ∨ r'.nodeOf? p.name = some p.node
  fieldsOf? : ∀ ⦃name fields⦄, r.fieldsOf? name = some fields → r'.fieldsOf? name = some fields
  merging : r'.merging = r.merging

/-- Moreover, nothing has been declared. -/
structure Extends (r r' : Registry) : Prop extends r.Remembers r' where
  enums : r'.enums = r.enums
  conversions : r'.conversions = r.conversions
  types : r'.types = r.types

/-- Moreover, no fields have been found out. -/
structure Registers (r r' : Registry) : Prop extends r.Extends r' where
  fields : r'.fields = r.fields

namespace Remembers

theorem nodeOf? (h : r.Remembers r') {node : Json} (hnode : r.nodeOf? name = some node) :
    r'.nodeOf? name = some node := by
  obtain ⟨claim, hclaim, rfl⟩ := Option.map_eq_some_iff.1 hnode
  exact Option.map_eq_some_iff.2 ⟨claim, h.claim? hclaim, rfl⟩

theorem claim?_eq_none (h : r.Remembers r') (hnone : r'.claim? name = none) :
    r.claim? name = none := by
  cases hclaim : r.claim? name with
  | none => rfl
  | some claim =>
    rw [h.claim? hclaim] at hnone
    cases hnone

theorem refl (r : Registry) : r.Remembers r :=
  ⟨fun _ _ h => h, fun _ hp => .inl hp, fun _ _ h => h, rfl⟩

theorem trans {a b c : Registry} (h : a.Remembers b) (h' : b.Remembers c) : a.Remembers c where
  claim? _ _ hclaim := h'.claim? (h.claim? hclaim)
  pending p hp := by
    rcases h'.pending p hp with hold | hnew
    · exact (h.pending p hold).imp_right h'.nodeOf?
    · exact .inr hnew
  fieldsOf? _ _ hfields := h'.fieldsOf? (h.fieldsOf? hfields)
  merging := h'.merging.trans h.merging

end Remembers

theorem remembers_taken (r : Registry) : r.Remembers { r with pending := [] } :=
  ⟨fun _ _ h => h, by simp, fun _ _ h => h, rfl⟩

theorem remembers_declared (r : Registry) (types : List Declaration) :
    r.Remembers { r with types := types } :=
  ⟨fun _ _ h => h, fun _ hp => .inl hp, fun _ _ h => h, rfl⟩

theorem Extends.refl (r : Registry) : r.Extends r := ⟨.refl r, rfl, rfl, rfl⟩

theorem Extends.trans {a b c : Registry} (h : a.Extends b) (h' : b.Extends c) : a.Extends c :=
  ⟨h.toRemembers.trans h'.toRemembers, h'.enums.trans h.enums,
    h'.conversions.trans h.conversions, h'.types.trans h.types⟩

theorem Registers.refl (r : Registry) : r.Registers r := ⟨.refl r, rfl⟩

theorem Registers.trans {a b c : Registry} (h : a.Registers b) (h' : b.Registers c) :
    a.Registers c :=
  ⟨h.toExtends.trans h'.toExtends, h'.fields.trans h.fields⟩

theorem claim?_concat {c : Claim} {known : Claim} (h : r.claim? name = some known) :
    Registry.claim? { r with claims := r.claims ++ [c] } name = some known := by
  rw [Registry.claim?] at h ⊢
  rw [List.find?_append, h, Option.some_or]

theorem claim?_concat_self {c : Claim} (h : r.claim? c.name = none) :
    Registry.claim? { r with claims := r.claims ++ [c] } c.name = some c := by
  rw [Registry.claim?] at h ⊢
  rw [List.find?_append, h, Option.none_or]
  simp

theorem registers_of_register {node : Json} {origin : String}
    (h : r.register name node origin = .ok r') : r.Registers r' := by
  rw [register] at h
  split at h
  next =>
    split_ifs at h
    obtain rfl := Except.ok.inj h
    exact .refl r
  next hnew =>
    obtain rfl := Except.ok.inj h
    refine ⟨⟨⟨fun _ _ => claim?_concat, fun p hp => ?_, fun _ _ hf => hf, rfl⟩, rfl, rfl, rfl⟩, rfl⟩
    rcases List.mem_append.1 hp with hold | hp
    · exact .inl hold
    · obtain rfl := List.mem_singleton.1 hp
      exact .inr (congrArg (Option.map _) (claim?_concat_self (c := ⟨name, node, origin⟩) hnew))

theorem registers_of_reserve {node : Json} {origin : String}
    (h : r.reserve name node origin = .ok r') : r.Registers r' := by
  rw [reserve] at h
  split at h
  next => cases h
  next =>
    obtain rfl := Except.ok.inj h
    exact ⟨⟨⟨fun _ _ => claim?_concat, fun _ hp => .inl hp, fun _ _ hf => hf, rfl⟩,
      rfl, rfl, rfl⟩, rfl⟩

end Registry

namespace Build

variable {α β : Type} {d : Document}

/-- Whether every run that succeeds only registers. -/
def Registering (x : Build α) : Prop := ∀ ⦃r a r'⦄, x r = .ok (a, r') → r.Registers r'

namespace Registering

variable {x : Build α} {f : α → Build β}

theorem pure (a : α) : Registering (pure a) := by
  intro r b r' hrun
  obtain ⟨-, rfl⟩ := pure_eq_ok.1 hrun
  exact .refl r

theorem fail {e : BuildError} : Registering (fail e : Build α) :=
  fun _ _ _ hrun => absurd hrun fail_ne_ok

theorem lift (x : Except BuildError α) : Registering (liftM x : Build α) := by
  intro r a r' hrun
  obtain ⟨-, rfl⟩ := lift_eq_ok.1 hrun
  exact .refl r

theorem get : Registering get := by
  intro r a r' hrun
  obtain ⟨-, rfl⟩ := get_eq_ok.1 hrun
  exact .refl _

theorem bind (hx : Registering x) (hf : ∀ a, Registering (f a)) : Registering (x >>= f) := by
  intro r b r' hrun
  obtain ⟨a, s, hxrun, hfrun⟩ := bind_eq_ok.1 hrun
  exact (hx hxrun).trans (hf a hfrun)

theorem lift_bind {x : Except BuildError α} (hf : ∀ a, Registering (f a)) :
    Registering (liftM x >>= f) := (lift x).bind hf

/-- What comes after a check may ignore it. -/
theorem guard {c : Prop} [Decidable c] {e : BuildError} {g : α → Build β} {y : Build β}
    (hy : Registering y) : Registering (if c then Build.fail e >>= g else y) := by
  split
  · intro r b r' hrun
    obtain ⟨a, s, hfail, -⟩ := bind_eq_ok.1 hrun
    exact absurd hfail fail_ne_ok
  · exact hy

theorem warn (message : String) : Registering (warn message) := by
  intro r a r' hrun
  obtain rfl := modify_eq_ok.1 hrun
  exact ⟨⟨⟨fun _ _ h => h, fun _ hp => .inl hp, fun _ _ h => h, rfl⟩, rfl, rfl, rfl⟩, rfl⟩

theorem mapM {f : α → Build β} {xs : List α} (hf : ∀ x, Registering (f x)) :
    Registering (xs.mapM f) := by
  induction xs with
  | nil => exact pure []
  | cons x rest ih =>
    rw [List.mapM_cons]
    exact (hf x).bind fun y => ih.bind fun ys => pure (y :: ys)

end Registering

/-! ## Types and fields -/

theorem typeOf_registering (node : Json) (suggested : TypeName) :
    Registering (typeOf d node suggested) := by
  intro r type r' hrun
  obtain ⟨inline, -, henlist⟩ := typeOf_eq_ok.1 hrun
  cases inline with
  | none =>
    obtain rfl := Except.ok.inj henlist
    exact .refl r
  | some found => exact Registry.registers_of_register henlist

theorem objectFields_registering (owner : TypeName) (properties : List (String × Json))
    (required : List String) : Registering (objectFields d owner properties required) :=
  .mapM fun property => (typeOf_registering property.2 _).bind fun _ => .pure _

/-! ## Arms of a union -/

theorem flawed_registering {union : TypeName} (x : Except UnionFlaw α) :
    Registering (flawed union x) := by
  cases x with
  | ok a => exact .pure a
  | error flaw => exact .fail

theorem addArm_registering (union : TypeName) (draft : UnionDraft) (arm : Nat) (node : Json) :
    Registering (addArm d union draft arm node) := by
  refine .lift_bind fun target => .lift_bind fun schema => ?_
  split
  next =>
    refine .guard <| .lift_bind fun literals => (flawed_registering _).bind fun found => ?_
    exact (typeOf_registering found.2.2 _).bind fun type => .guard (.pure _)
  next => exact .fail

theorem addArms_registering (union : TypeName) (draft : UnionDraft) (arm : Nat)
    (arms : List Json) : Registering (addArms d union draft arm arms) := by
  induction arms generalizing draft arm with
  | nil => exact .pure draft
  | cons node rest ih =>
    rw [addArms]
    exact (addArm_registering union draft arm node).bind fun draft' => ih draft' (arm + 1)

/-! ## Operations -/

theorem isFromText_registering (type : TypeExpr) : Registering (isFromText d type) := by
  unfold isFromText
  split
  next => exact .pure _
  next name =>
    refine Registering.get.bind fun r => ?_
    split
    next => exact .pure _
    next =>
      refine .lift_bind fun target => .lift_bind fun schema => ?_
      split <;> exact .pure _
  next => exact .pure _

theorem parameterType_registering (operation context : String) (p : DeclaredParameter) :
    Registering (parameterType d operation context p) := by
  unfold parameterType
  split
  next schema _ => exact typeOf_registering schema _
  next => exact (Registering.warn _).bind fun _ => .pure _

theorem ParameterRun.registers {operation : String} {e : Endpoint} {p : DeclaredParameter}
    {location : ParameterLocation} {used : List String}
    (run : ParameterRun d operation e p location used r r') : r.Registers r' :=
  (parameterType_registering operation _ p run.parameterType).trans
    (isFromText_registering _ run.isFromText)

theorem boundLocation_registering (e : Endpoint) (template : PathTemplate)
    (p : DeclaredParameter) : Registering (boundLocation e template p) := by
  unfold boundLocation
  split
  next =>
    split
    next => exact .pure _
    next => exact (Registering.warn _).bind fun _ => .pure _
  next => exact .pure _
  next => exact (Registering.warn _).bind fun _ => .pure _
  next => exact (Registering.warn _).bind fun _ => .pure _
  next => exact .fail

theorem DeclaredRun.registers {operation : String} {e : Endpoint} {template : PathTemplate}
    {used used' : List String} {ps : List DeclaredParameter} {bound : List Parameter}
    (h : DeclaredRun d operation e template used ps r bound used' r') : r.Registers r' := by
  induction h with
  | nil => exact .refl _
  | skip unbound _ ih => exact (boundLocation_registering e template _ unbound).trans ih
  | cons located run _ ih =>
    exact (boundLocation_registering e template _ located).trans (run.registers.trans ih)

theorem bindDeclared_registering (operation : String) (e : Endpoint) (template : PathTemplate)
    (used : List String) (declared : List DeclaredParameter) :
    Registering (bindDeclared d operation e template used declared) :=
  fun _ _ _ h => (declaredRun_of_bindDeclared h).registers

theorem bindUndeclared_registering (e : Endpoint) (used placeholders : List String) :
    Registering (bindUndeclared e used placeholders) := by
  induction placeholders generalizing used with
  | nil => exact .pure _
  | cons placeholder rest ih =>
    rw [bindUndeclared]
    exact (Registering.warn _).bind fun _ => (ih _).bind fun _ => .pure _

theorem bindParameters_registering (operation : String) (e : Endpoint)
    (template : PathTemplate) : Registering (bindParameters d operation e template) := by
  refine .lift_bind fun declared => ?_
  refine (bindDeclared_registering operation e template [] declared).bind fun bound => ?_
  exact (bindUndeclared_registering e bound.2 _).bind fun _ => .pure _

theorem bindBody_registering (operation : String) (e : Endpoint) (parameters : List Parameter) :
    Registering (bindBody d operation e parameters) := by
  unfold bindBody
  split
  next => exact .pure _
  next declared _ =>
    refine .lift_bind fun node => ?_
    split
    next => exact (Registering.warn _).bind fun _ => .pure _
    next content _ =>
      refine Registering.bind ?_ fun kind => .pure _
      unfold bodyKind
      split
      next schema _ => exact (typeOf_registering schema _).bind fun _ => .pure _
      next => exact .pure _

theorem responseVariant_registering (operation context : String) (declared : String × Json) :
    Registering (responseVariant d operation context declared) := by
  refine .lift_bind fun status => .lift_bind fun node => Registering.bind ?_ fun _ => .pure _
  unfold responsePayload
  split
  next => exact .pure _
  next content _ =>
    split
    next schema _ => exact (typeOf_registering schema _).bind fun _ => .pure _
    next => exact .pure _

theorem buildResponse_registering (operation : String) (e : Endpoint) :
    Registering (buildResponse d operation e) := by
  refine Registering.bind (fun r a r' hrun => ?_) fun _ => ?_
  · exact Registry.registers_of_reserve (step_eq_ok.1 hrun)
  · split
    next first rest _ =>
      refine Registering.bind (.mapM fun declared => ?_) fun variants => .pure _
      exact responseVariant_registering operation e.context declared
    next => exact .fail

end Build

end OpenApiServer
