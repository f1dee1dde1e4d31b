import OpenApiServer.Proofs.Build.Declares
import OpenApiServer.Proofs.Build.Invariant

/-!
# What a registry records of its declarations

From its first step to its last a build knows of the types that it has declared whose schemas they
are, where the fields of the records are from, which enumerations are filed, how the variants of
unions are named and which records are converted into. `Recorded` is this knowledge. Steps that
only find out types or fields keep it, and so does every case of `Declares`.
-/

namespace OpenApiServer

namespace Registry

variable {d : Document} {r r' : Registry}

structure Recorded (d : Document) (r : Registry) : Prop extends r.Kept d where
  queued : ∀ p ∈ r.pending, r.nodeOf? p.name = some p.node
  kinds : ∀ t ∈ r.types, ∃ node, r.nodeOf? t.name = some node ∧ t.Fits node.schemaKind
  records : ∀ decl, .record decl ∈ r.types → r.fieldsOf? decl.name = some decl.fields
  enums : r.enums.names.Perm ((r.types.filter (·.isEnum)).map (·.name))
  unions : ∀ decl, .union decl ∈ r.types → VariantsNamed decl.variants
  conversions : ∀ c ∈ r.conversions, r.Converts d c ∧
    ∃ decl, .record decl ∈ r.types ∧ decl.name = c.target
  nodup : (r.conversions.map (·.ends)).Nodup

/-- A name is claimed for its schema, unless an equal one has claimed it before. -/
theorem nodeOf?_of_register {name : TypeName} {node : Json} {origin : String}
    (h : r.register name node origin = .ok r') :
    (∃ claimed, r.nodeOf? name = some claimed ∧ claimed.same node = true ∧ r' = r) ∨
      r'.nodeOf? name = some node ∧ ∀ ⦃other node'⦄, r'.nodeOf? other = some node' →
        r.nodeOf? other = some node' ∨ other = name ∧ node' = node := by
  rw [register] at h
  split at h
  next claim hclaim =>
    split_ifs at h with hsame
    obtain rfl := Except.ok.inj h
    exact .inl ⟨claim.node, by rw [nodeOf?, hclaim, Option.map_some], hsame, rfl⟩
  next hnew =>
    obtain rfl := Except.ok.inj h
    have hself := claim?_concat_self (c := ⟨name, node, origin⟩) hnew
    refine .inr ⟨congrArg (Option.map Claim.node) hself, fun other node' hnode => ?_⟩
    obtain ⟨claim, hfound, rfl⟩ := Option.map_eq_some_iff.1 hnode
    rw [claim?, List.find?_append, Option.or_eq_some_iff] at hfound
    rcases hfound with hold | ⟨-, hlast⟩
    · exact .inl (Option.map_eq_some_iff.2 ⟨claim, hold, rfl⟩)
    · obtain rfl := List.mem_singleton.1 (List.mem_of_find?_eq_some hlast)
      have hname := List.find?_some hlast
      exact .inr ⟨(beq_iff_eq.1 hname).symm, rfl⟩

theorem Remembers.queued (h : r.Remembers r')
    (hqueued : ∀ p ∈ r.pending, r.nodeOf? p.name = some p.node) :
    ∀ p ∈ r'.pending, r'.nodeOf? p.name = some p.node := by
  intro p hp
  rcases h.pending p hp with hold | hnew
  · exact h.nodeOf? (hqueued p hold)
  · exact hnew

namespace Recorded

theorem merges (h : r.Recorded d) (hmerges : r.Merges d r') : r'.Recorded d where
  toKept := hmerges.kept
  queued := hmerges.toRemembers.queued h.queued
  kinds t ht := by
    rw [hmerges.types] at ht
    obtain ⟨node, hnode, hfits⟩ := h.kinds t ht
    exact ⟨node, hmerges.nodeOf? hnode, hfits⟩
  records decl hdecl := by
    rw [hmerges.types] at hdecl
    exact hmerges.fieldsOf? (h.records decl hdecl)
  enums := by
    rw [hmerges.enums, hmerges.types]
    exact h.enums
  unions := by
    rw [hmerges.types]
    exact h.unions
  conversions c hc := by
    rw [hmerges.conversions] at hc
    rw [hmerges.types]
    exact (h.conversions c hc).imp_left hmerges.toRemembers.converts
  nodup := by
    rw [hmerges.conversions]
    exact h.nodup

/-- A schema is declared under its name. -/
theorem declares (h : r.Recorded d) {p : Pending} {t : Declaration}
    (hnode : r.nodeOf? p.name = some p.node) (hdeclares : Build.Declares d r p t r') :
    Recorded d { r' with types := r'.types ++ [t] } where
  toKept := (hdeclares.kept h.toKept).of_eq rfl rfl
  queued := hdeclares.remembers.queued h.queued
  kinds t' ht' := by
    rw [hdeclares.types_eq] at ht'
    rcases List.mem_append.1 ht' with hold | hnew
    · obtain ⟨node, hnode', hfits⟩ := h.kinds t' hold
      exact ⟨node, hdeclares.remembers.nodeOf? hnode', hfits⟩
    · obtain rfl := List.mem_singleton.1 hnew
      rw [hdeclares.name_eq]
      exact ⟨p.node, hdeclares.remembers.nodeOf? hnode, hdeclares.fits⟩
  records decl hdecl := by
    rw [hdeclares.types_eq] at hdecl
    rcases List.mem_append.1 hdecl with hold | hnew
    · exact hdeclares.remembers.fieldsOf? (h.records decl hold)
    · obtain rfl := List.mem_singleton.1 hnew
      exact hdeclares.fields_eq
  enums := by
    rw [hdeclares.types_eq, List.filter_append, List.map_append]
    exact hdeclares.enums_perm.trans (h.enums.append_right _)
  unions decl hdecl := by
    rw [hdeclares.types_eq] at hdecl
    rcases List.mem_append.1 hdecl with hold | hnew
    · exact h.unions decl hold
    · obtain rfl := List.mem_singleton.1 hnew
      cases hdeclares
      assumption
  conversions c hc := by
    obtain ⟨new, hconversions, hnew⟩ := hdeclares.conversions
    rw [hconversions] at hc
    rw [hdeclares.types_eq]
    rcases List.mem_append.1 hc with hold | hc
    · obtain ⟨hconverts, decl, hdecl, hname⟩ := h.conversions c hold
      have hstill := hdeclares.remembers.converts hconverts
      exact ⟨hstill.of_eq rfl, decl, List.mem_append_left _ hdecl, hname⟩
    · obtain ⟨hconverts, decl, rfl, hname⟩ := hnew c hc
      exact ⟨hconverts.of_eq rfl, decl, by simp, hname⟩
  nodup := hdeclares.nodup h.nodup

end Recorded

end Registry

namespace Build

variable {d : Document} {r r' : Registry} {root : Json}

/-! ## From the first step to the last -/

/-- A named schema has its name, or an equal one that was registered before has it. -/
theorem register_schema (hroot : d.root.DistinctKeys) {schema : String × Json} {origin : String}
    (hschema : schema ∈ d.schemas)
    (hclaims : ∀ name node, r.nodeOf? name = some node →
      ∃ s ∈ d.schemas, TypeName.ofText s.1 = name ∧ s.2 = node)
    (h : r.register (.ofText schema.1) schema.2 origin = .ok r') :
    (∀ name node, r'.nodeOf? name = some node →
      ∃ s ∈ d.schemas, TypeName.ofText s.1 = name ∧ s.2 = node) ∧
    ∃ s ∈ d.schemas, TypeName.ofText s.1 = .ofText schema.1 ∧
      r'.nodeOf? (.ofText schema.1) = some s.2 ∧ s.2.Alike schema.2 := by
  rcases Registry.nodeOf?_of_register h with ⟨claimed, hnode, hsame, rfl⟩ | ⟨hself, hother⟩
  · obtain ⟨s, hs, hname, rfl⟩ := hclaims _ _ hnode
    have halike := Json.alike_of_same (Document.schemas_distinctKeys hroot s hs) hsame
    exact ⟨hclaims, s, hs, hname, hnode, halike⟩
  · refine ⟨fun name node hnode => ?_, schema, hschema, rfl, hself, .refl _⟩
    rcases hother hnode with hold | ⟨hname, hsame⟩
    · exact hclaims _ _ hold
    · exact ⟨schema, hschema, hname.symm, hsame.symm⟩

theorem registerAll_schemas (hroot : d.root.DistinctKeys) {schemas : List (String × Json)}
    (hschemas : ∀ s ∈ schemas, s ∈ d.schemas)
    (hclaims : ∀ name node, r.nodeOf? name = some node →
      ∃ s ∈ d.schemas, TypeName.ofText s.1 = name ∧ s.2 = node)
    (h : (schemas.forM fun (name, node) =>
      step (·.register (.ofText name) node (Pointer.schemaRoot ++ name))) r = .ok ((), r')) :
    r.Registers r' ∧ ∀ schema ∈ schemas, ∃ s ∈ d.schemas,
      TypeName.ofText s.1 = .ofText schema.1 ∧ r'.nodeOf? (.ofText schema.1) = some s.2 ∧
        s.2.Alike schema.2 := by
  induction schemas generalizing r with
  | nil =>
    obtain ⟨-, rfl⟩ := pure_eq_ok.1 h
    exact ⟨.refl _, by simp⟩
  | cons schema rest ih =>
    rw [List.forM] at h
    obtain ⟨⟨⟩, s, hfirst, hlater⟩ := bind_eq_ok.1 h
    obtain ⟨hschema, hrest⟩ := List.forall_mem_cons.1 hschemas
    obtain ⟨hclaims', s', hs', hname, hnode, halike⟩ :=
      register_schema hroot hschema hclaims (step_eq_ok.1 hfirst)
    obtain ⟨hregisters, hall⟩ := ih hrest hclaims' hlater
    refine ⟨(Registry.registers_of_register (step_eq_ok.1 hfirst)).trans hregisters, ?_⟩
    exact List.forall_mem_cons.2 ⟨⟨s', hs', hname, hregisters.nodeOf? hnode, halike⟩, hall⟩

theorem registerSchemas_recorded (hroot : d.root.DistinctKeys)
    (h : registerSchemas d Registry.empty = .ok ((), r)) : r.Recorded d := by
  obtain ⟨hregisters, hschemas⟩ :=
    registerAll_schemas hroot (fun _ hs => hs) (fun _ _ hnode => by cases hnode) h
  have hfields (name : TypeName) : r.fieldsOf? name = none := by
    rw [Registry.fieldsOf?, hregisters.fields]
    rfl
  have htypes : r.types = [] := hregisters.types
  have hconversions : r.conversions = [] := hregisters.conversions
  have henums : r.enums = [] := hregisters.enums
  have hqueued := hregisters.toRemembers.queued fun p hp => by cases hp
  refine ⟨⟨hschemas, ?_, ?_⟩, hqueued, ?_, ?_, ?_, ?_, ?_, ?_⟩
  all_goals simp [hfields, htypes, hconversions, henums, EnumBuckets.names]

theorem buildResponse_name {operation : String} {e : Endpoint} {response : ResponseDecl}
    (h : buildResponse d operation e r = .ok (response, r')) :
    response.name = .ofFragments [operation, "Response"] := by
  obtain ⟨_, s, -, h⟩ := bind_eq_ok.1 h
  generalize e.node.get? "responses" = responses at h
  split at h
  next =>
    obtain ⟨variants, s', -, h⟩ := bind_eq_ok.1 h
    obtain ⟨rfl, -⟩ := pure_eq_ok.1 h
    dsimp only
  next => exact absurd h fail_ne_ok

theorem claim?_of_buildResponse {operation : String} {e : Endpoint} {response : ResponseDecl}
    (h : buildResponse d operation e r = .ok (response, r')) : r.claim? response.name = none := by
  rw [buildResponse_name h]
  obtain ⟨_, s, hreserve, -⟩ := bind_eq_ok.1 h
  have hreserve := step_eq_ok.1 hreserve
  rw [Registry.reserve] at hreserve
  split at hreserve
  next => cases hreserve
  next hnew => exact hnew

section Operation

variable {state state' : OperationState} {e : Endpoint} {o : Operation} {response : ResponseDecl}

theorem buildOperation_registers
    (h : buildOperation d state e r = .ok ((o, response, state'), r')) : r.Registers r' := by
  obtain ⟨run, rfl, rfl⟩ := operationRun_of_buildOperation h
  have hparameters := bindParameters_registering _ e run.template run.bindParameters
  have hbody := bindBody_registering _ e run.parameters run.bindBody
  exact hparameters.trans (hbody.trans (buildResponse_registering _ e run.buildResponse))

theorem buildOperation_response
    (h : buildOperation d state e r = .ok ((o, response, state'), r')) :
    ∃ operation, response.name = .ofFragments [operation, "Response"] := by
  obtain ⟨run, rfl, rfl⟩ := operationRun_of_buildOperation h
  exact ⟨run.name, buildResponse_name run.buildResponse⟩

/-- The responses of an operation have a name that nothing has claimed before. -/
theorem claim?_response_of_buildOperation
    (h : buildOperation d state e r = .ok ((o, response, state'), r')) :
    r.claim? response.name = none := by
  obtain ⟨run, rfl, rfl⟩ := operationRun_of_buildOperation h
  have hparameters := bindParameters_registering _ e run.template run.bindParameters
  have hbody := bindBody_registering _ e run.parameters run.bindBody
  have hremembers := (hparameters.trans hbody).toRemembers
  exact hremembers.claim?_eq_none (claim?_of_buildResponse run.buildResponse)

end Operation

namespace OperationsRun

variable {state : OperationState} {es : List Endpoint} {built : List (Operation × ResponseDecl)}
  {tables : RouteTables}

theorem registers (h : OperationsRun d state es r built tables r') : r.Registers r' := by
  induction h with
  | nil => exact .refl _
  | cons first _ ih => exact (buildOperation_registers first).trans ih

theorem claim?_response (h : OperationsRun d state es r built tables r') :
    ∀ b ∈ built, r.claim? b.2.name = none := by
  induction h with
  | nil => simp
  | cons first _ ih =>
    refine List.forall_mem_cons.2 ⟨claim?_response_of_buildOperation first, fun b hb => ?_⟩
    exact (buildOperation_registers first).toRemembers.claim?_eq_none (ih b hb)

end OperationsRun

/-- What a registry records holds throughout a build. -/
theorem recorded_invariant (hdoc : Document.ofJson root = .ok d) (hroot : d.root.DistinctKeys) :
    Invariant d (·.Recorded d) where
  registered _ hrun := registerSchemas_recorded hroot hrun
  operation _ _ _ _ _ _ _ _ h hrun := h.merges ((buildOperation_registers hrun).merges h.toKept)
  queued _ h := h.queued
  taken _ h := by
    refine ⟨h.toKept.of_eq rfl rfl, by simp, h.kinds, h.records, h.enums, h.unions, ?_, h.nodup⟩
    exact fun c hc => (h.conversions c hc).imp_left fun hconverts => hconverts.of_eq rfl
  declared _ _ _ h hnode hrun := by
    obtain ⟨t, s, hdeclare, hrun⟩ := bind_eq_ok.1 hrun
    obtain rfl := modify_eq_ok.1 hrun
    have hdeclares := declare_declares hdoc hroot h.toKept hnode hdeclare
    exact ⟨h.declares hnode hdeclares, fun _ _ => hdeclares.remembers.nodeOf?⟩

end Build

/-- What a build knows of its declarations in the end. -/
theorem Built.recorded {root : Json} {d : Document} {basePath : String} {m : ServerModel}
    (b : Built d basePath m) (hdoc : Document.ofJson root = .ok d) (hroot : d.root.DistinctKeys) :
    b.drained.Recorded d :=
  (Build.recorded_invariant hdoc hroot).drained b

end OpenApiServer
