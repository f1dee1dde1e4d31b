import OpenApiServer.Proofs.Build.Contents
import OpenApiServer.Proofs.Build.EnumBuckets
import OpenApiServer.Proofs.Build.Operations
import OpenApiServer.Proofs.Build.Passes
import OpenApiServer.Proofs.Build.Union

/-!
# Every claimed name gets its declaration

A queued schema is declared under its own name, and what its declaration mentions is claimed. A
pass over the queue keeps the registry sound, and so does the whole work on it: when nothing is
queued any more, the claimed names are the declared ones.
-/

namespace OpenApiServer.Build

variable {d : Document} {r r' : Registry} {declared : List TypeName}

/-! ## One declaration -/

theorem declareEnum_resolves {name : TypeName} (docs : Docs) (members : List String)
    (default : Option String) (hname : name ∈ r.claimed) :
    Resolves d r (declareEnum name docs members default) noNames := by
  intro declared sound decl r' hrun
  obtain ⟨-, rfl⟩ := Prod.mk.inj (modifyGet_eq_ok.1 hrun)
  refine ⟨sound.of_eq rfl rfl ?_, ⟨List.Subset.refl _, rfl⟩, noNames_subset ..⟩
  obtain ⟨hmentioned, henums⟩ := List.append_subset.1 sound.closed
  have hfiled := List.append_subset.2 ⟨henums, List.cons_subset.2 ⟨hname, List.nil_subset _⟩⟩
  exact List.append_subset.2 ⟨hmentioned,
    List.Subset.trans (EnumBuckets.names_file_perm _ _ r.enums).subset hfiled⟩

theorem declareEnum_name (name : TypeName) (docs : Docs) (members : List String)
    (default : Option String) : Yields (declareEnum name docs members default) (·.name = name) := by
  intro r decl r' hrun
  obtain ⟨rfl, -⟩ := Prod.mk.inj (modifyGet_eq_ok.1 hrun)
  rfl

theorem buildRecord_name (name : TypeName) (node : Json) :
    Yields (buildRecord d name node) (·.name = name) := by
  refine .bind fun fields => .bind fun schema => ?_
  split
  next => exact .bind fun _ => .pure rfl
  next => exact .pure rfl

theorem buildUnion_name (name : TypeName) (node : Json) (arms : List Json) :
    Yields (buildUnion d name node arms) (·.name = name) := by
  refine .bind fun draft => ?_
  split
  next => exact .fail
  next => exact .bind fun shared => .pure rfl

theorem declare_name (p : Pending) : Yields (declare d p) (·.name = p.name) := by
  refine .bind fun schema => ?_
  split
  next => exact .map (buildRecord_name p.name p.node)
  next => exact .map (buildRecord_name p.name p.node)
  next => exact .map (declareEnum_name ..)
  next arms =>
    split
    next => exact .bind fun _ => .pure rfl
    next => exact .map (buildUnion_name p.name p.node arms)
  next => exact .bind fun _ => .bind fun _ => .pure rfl
  next => exact .bind fun _ => .pure rfl
  next => exact .bind fun _ => .pure rfl

theorem declare_resolves {p : Pending} (hname : p.name ∈ r.claimed) :
    Resolves d r (declare d p) Declaration.mentioned := by
  refine .lift_bind fun schema _ => ?_
  split
  next => exact Resolves.map (buildRecord_resolves p.node hname)
  next => exact Resolves.map (buildRecord_resolves p.node hname)
  next => exact Resolves.map (declareEnum_resolves _ _ _ hname)
  next arms _ =>
    split
    next arm _ =>
      refine (typeOf_resolves arm _).bind fun type _ _ htype => .pure ?_
      rw [Declaration.mentioned, TypeExpr.names_optional]
      exact htype
    next => exact Resolves.map (buildUnion_resolves p.name p.node arms)
  next =>
    refine .lift_bind fun _ _ => ?_
    exact (typeOf_resolves p.node _).bind fun _ _ _ htype => .pure htype
  next => exact (typeOf_resolves p.node _).bind fun _ _ _ htype => .pure htype
  next => exact (typeOf_resolves p.node _).bind fun _ _ _ htype => .pure htype

theorem declareAndKeep_declares {p : Pending} (sound : r.Sound d declared)
    (hname : p.name ∈ r.claimed) (h : declareAndKeep d p r = .ok ((), r')) :
    r'.Sound d declared ∧ r.claimed ⊆ r'.claimed ∧
      r'.types.map (·.name) = r.types.map (·.name) ++ [p.name] := by
  obtain ⟨t, s, hdeclare, h⟩ := bind_eq_ok.1 h
  obtain rfl := modify_eq_ok.1 h
  obtain ⟨hsound, hgrows, hmentioned⟩ := declare_resolves hname sound hdeclare
  refine ⟨hsound.of_eq rfl rfl (Registry.mentioned_types_concat hsound.closed hmentioned),
    hgrows.claimed, ?_⟩
  rw [List.map_append, List.map_singleton, declare_name p hdeclare, hgrows.types]

/-! ## The queue -/

theorem declareAll_declares {pass : List Pending} (sound : r.Sound d declared)
    (hnames : pass.map (·.name) ⊆ r.claimed)
    (h : pass.forM (declareAndKeep d) r = .ok ((), r')) :
    r'.Sound d declared ∧ r.claimed ⊆ r'.claimed ∧
      r'.types.map (·.name) = r.types.map (·.name) ++ pass.map (·.name) := by
  induction pass generalizing r with
  | nil =>
    obtain ⟨-, rfl⟩ := pure_eq_ok.1 h
    exact ⟨sound, List.Subset.refl _, by simp⟩
  | cons p rest ih =>
    rw [List.forM] at h
    obtain ⟨⟨⟩, s, hfirst, hrest⟩ := bind_eq_ok.1 h
    obtain ⟨hp, hnames'⟩ := List.cons_subset.1 hnames
    obtain ⟨hsound, hclaimed, htypes⟩ := declareAndKeep_declares sound hp hfirst
    obtain ⟨hsound', hclaimed', htypes'⟩ := ih hsound (List.Subset.trans hnames' hclaimed) hrest
    refine ⟨hsound', List.Subset.trans hclaimed hclaimed', ?_⟩
    rw [htypes', htypes, List.map_cons, List.append_assoc, List.singleton_append]

/-- A pass declares what was queued. What it queues itself is left for the next pass. -/
theorem declarePass_declares {others : List TypeName}
    (sound : r.Sound d (others ++ r.types.map (·.name))) (h : declarePass d r = .ok ((), r')) :
    r'.Sound d (others ++ r'.types.map (·.name)) ∧ r.claimed ⊆ r'.claimed ∧
      r'.types.map (·.name) = r.types.map (·.name) ++ r.queued := by
  obtain ⟨pass, s, htake, h⟩ := bind_eq_ok.1 h
  obtain ⟨rfl, rfl⟩ := Prod.mk.inj (modifyGet_eq_ok.1 htake)
  have hqueued : r.queued ⊆ r.claimed :=
    List.Subset.trans (List.subset_append_right ..) sound.perm.symm.subset
  -- What has been taken counts as declared at once, before its declarations are built.
  obtain ⟨hsound, hclaimed, htypes⟩ := declareAll_declares sound.taken hqueued h
  refine ⟨?_, hclaimed, htypes⟩
  rw [htypes, ← List.append_assoc]
  exact hsound

theorem passes_declares {others : List TypeName} {n : Nat}
    (sound : r.Sound d (others ++ r.types.map (·.name))) (h : passes d n r = .ok ((), r')) :
    r'.Sound d (others ++ r'.types.map (·.name)) ∧ r.claimed ⊆ r'.claimed := by
  induction n generalizing r with
  | zero =>
    obtain rfl := passes_zero_eq_ok.1 h
    exact ⟨sound, List.Subset.refl _⟩
  | succ n ih =>
    obtain ⟨t, hpass, hlater⟩ := passes_succ_eq_ok.1 h
    obtain ⟨hsound, hclaimed, -⟩ := declarePass_declares sound hpass
    obtain ⟨hsound', hclaimed'⟩ := ih hsound hlater
    exact ⟨hsound', List.Subset.trans hclaimed hclaimed'⟩

theorem drain_declares {others : List TypeName}
    (sound : r.Sound d (others ++ r.types.map (·.name))) (h : drain d r = .ok ((), r')) :
    r'.Sound d (others ++ r'.types.map (·.name)) ∧ r.claimed ⊆ r'.claimed ∧ r'.pending = [] := by
  obtain ⟨hdone, n, hrun⟩ := drain_eq_ok_iff.1 h
  obtain ⟨hsound, hclaimed⟩ := passes_declares sound hrun
  exact ⟨hsound, hclaimed, hdone⟩

/-! ## The whole build -/

theorem registerAll_claims {schemas : List (String × Json)} (balanced : r.Balanced declared)
    (h : (schemas.forM fun (name, node) =>
      step (·.register (.ofText name) node (Pointer.schemaRoot ++ name))) r = .ok ((), r')) :
    r'.Balanced declared ∧ r.Grows r' ∧ (schemas.map fun s => TypeName.ofText s.1) ⊆ r'.claimed ∧
      r'.mentioned = r.mentioned := by
  induction schemas generalizing r with
  | nil =>
    obtain ⟨-, rfl⟩ := pure_eq_ok.1 h
    exact ⟨balanced, .refl r, List.nil_subset _, rfl⟩
  | cons schema rest ih =>
    rw [List.forM] at h
    obtain ⟨⟨⟩, s, hfirst, hrest⟩ := bind_eq_ok.1 h
    obtain ⟨hbalanced, hgrows, hmem, hmentioned⟩ := balanced.register (step_eq_ok.1 hfirst)
    obtain ⟨hbalanced', hgrows', hmem', hmentioned'⟩ := ih hbalanced hrest
    refine ⟨hbalanced', hgrows.trans hgrows', ?_, hmentioned'.trans hmentioned⟩
    exact List.cons_subset.2 ⟨hgrows'.claimed hmem, hmem'⟩

/-- Once the named schemas are registered the registry is sound, and nothing is declared yet. -/
theorem registerSchemas_sound {root : Json} (hdoc : Document.ofJson root = .ok d)
    (h : registerSchemas d Registry.empty = .ok ((), r)) : r.Sound d [] ∧ r.types = [] := by
  have hempty : Registry.empty.Balanced [] := ⟨List.Perm.refl _, List.nodup_nil⟩
  obtain ⟨hbalanced, hgrows, hclaimed, hmentioned⟩ := registerAll_claims hempty h
  refine ⟨⟨hbalanced, (Document.covered_schemaTypes hdoc).mono hclaimed, ?_⟩, hgrows.types⟩
  rw [hmentioned]
  exact List.nil_subset _

theorem buildOperation_declares {state state' : OperationState} {e : Endpoint}
    {o : Operation} {response : ResponseDecl} (sound : r.Sound d declared)
    (h : buildOperation d state e r = .ok ((o, response, state'), r')) :
    r'.Sound d (declared ++ [response.name]) ∧ r.Grows r' ∧ o.mentioned ⊆ r'.claimed ∧
      (Declaration.response response).mentioned ⊆ r'.claimed := by
  obtain ⟨run, rfl, rfl⟩ := operationRun_of_buildOperation h
  obtain ⟨sound₁, hgrows₁, hparams⟩ :=
    bindParameters_resolves _ e run.template sound run.bindParameters
  obtain ⟨sound₂, hgrows₂, hbodies⟩ := bindBody_resolves _ e run.parameters sound₁ run.bindBody
  obtain ⟨sound₃, hgrows₃, hname, hpayloads⟩ := buildResponse_declares sound₂ run.buildResponse
  refine ⟨sound₃, hgrows₁.trans (hgrows₂.trans hgrows₃), ?_, hpayloads⟩
  refine List.cons_subset.2 ⟨hname, List.append_subset.2 ⟨?_, hgrows₃.mono hbodies⟩⟩
  exact (hgrows₂.trans hgrows₃).mono hparams

theorem OperationsRun.declares {state : OperationState} {es : List Endpoint}
    {built : List (Operation × ResponseDecl)} {tables : RouteTables}
    (h : OperationsRun d state es r built tables r') (sound : r.Sound d declared) :
    r'.Sound d (declared ++ built.map (·.2.name)) ∧ r.Grows r' ∧
      ∀ b ∈ built, b.1.mentioned ⊆ r'.claimed ∧
        (Declaration.response b.2).mentioned ⊆ r'.claimed := by
  induction h generalizing declared with
  | nil => exact ⟨by simpa using sound, .refl _, by simp⟩
  | cons first _ ih =>
    obtain ⟨hsound, hgrows, ho, hresponse⟩ := buildOperation_declares sound first
    obtain ⟨hsound', hgrows', hlater⟩ := ih hsound
    refine ⟨?_, hgrows.trans hgrows', List.forall_mem_cons.2 ⟨?_, hlater⟩⟩
    · rw [List.map_cons, ← List.singleton_append, ← List.append_assoc]
      exact hsound'
    · exact ⟨hgrows'.mono ho, hgrows'.mono hresponse⟩

end OpenApiServer.Build
