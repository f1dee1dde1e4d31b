import OpenApiServer.Build.Parameters
import OpenApiServer.Proofs.Build.Monad
import OpenApiServer.Proofs.Data.List
import OpenApiServer.Proofs.Document.PathTemplate

/-!
# The parameters that an operation binds

Merging keeps one declared parameter for each location and name. The path parameters that are bound
are the declared ones that the template has, and then the placeholders that none of them names: each
placeholder once.
-/

namespace OpenApiServer

open Http

namespace PathTemplate

/-- A placeholder occurs once, and not among the segments before it. -/
theorem segmentsFrom_distinct {before segments : List Segment} {texts : List (List Char)}
    (h : segmentsFrom before texts = .ok segments) :
    (Router.placeholderNames segments).Nodup ∧
      ∀ name ∈ Router.placeholderNames segments, .placeholder name ∉ before := by
  induction texts generalizing before segments with
  | nil =>
    obtain rfl := Except.ok.inj h
    simp [Router.placeholderNames]
  | cons cs rest ih =>
    obtain ⟨segment, -, h⟩ := bind_eq_ok_iff.1 h
    cases segment with
    | fixed text =>
      obtain ⟨later, hrest, h⟩ := bind_eq_ok_iff.1 h
      obtain rfl := Except.ok.inj h
      obtain ⟨hnodup, hnew⟩ := ih hrest
      refine ⟨hnodup, fun name hname hbefore => hnew name hname ?_⟩
      exact List.mem_append_left _ hbefore
    | placeholder name =>
      dsimp only at h
      split_ifs at h with hrepeated
      · cases h
      obtain ⟨later, hrest, h⟩ := bind_eq_ok_iff.1 h
      obtain rfl := Except.ok.inj h
      obtain ⟨hnodup, hnew⟩ := ih hrest
      constructor
      · refine List.nodup_cons.2 ⟨fun hmem => hnew name hmem ?_, hnodup⟩
        exact List.mem_append_right _ (List.mem_singleton_self _)
      · refine List.forall_mem_cons.2 ⟨hrepeated, fun other hother hbefore => ?_⟩
        exact hnew other hother (List.mem_append_left _ hbefore)

theorem nodup_params_of_parse {text : String} {t : PathTemplate} (h : parse text = .ok t) :
    t.params.Nodup := by
  unfold parse at h
  split_ifs at h
  split at h
  next segments hsegments =>
    obtain rfl := Except.ok.inj h
    exact (segmentsFrom_distinct hsegments).1
  next => cases h

end PathTemplate

namespace Build

/-- What tells declared parameters apart. -/
def DeclaredParameter.key (p : DeclaredParameter) : String × String := (p.location, p.name)

theorem mem_override {p q : DeclaredParameter} {ps : List DeclaredParameter}
    (h : q ∈ overrideParameter p ps) : q = p ∨ q ∈ ps := by
  induction ps with
  | nil => exact .inl (List.mem_singleton.1 h)
  | cons first rest ih =>
    rw [overrideParameter] at h
    split_ifs at h
    · exact (List.mem_cons.1 h).imp_right (List.mem_cons_of_mem _)
    · rcases List.mem_cons.1 h with rfl | h
      · exact .inr (List.mem_cons_self ..)
      · exact (ih h).imp_right (List.mem_cons_of_mem _)

theorem nodup_override {p : DeclaredParameter} {ps : List DeclaredParameter}
    (h : (ps.map DeclaredParameter.key).Nodup) :
    ((overrideParameter p ps).map DeclaredParameter.key).Nodup := by
  induction ps with
  | nil => simp [overrideParameter]
  | cons first rest ih =>
    obtain ⟨hfirst, hrest⟩ := List.nodup_cons.1 h
    rw [overrideParameter]
    split_ifs with hsame
    · have hkey : p.key = first.key := Prod.ext hsame.1.symm hsame.2.symm
      refine List.nodup_cons.2 ⟨?_, hrest⟩
      rwa [hkey]
    · refine List.nodup_cons.2 ⟨fun hmem => ?_, ih hrest⟩
      obtain ⟨q, hq, hkey⟩ := List.mem_map.1 hmem
      rcases mem_override hq with rfl | hold
      · exact hsame ⟨(Prod.mk.inj hkey).1.symm, (Prod.mk.inj hkey).2.symm⟩
      · exact hfirst (hkey ▸ List.mem_map_of_mem hold)

theorem mergeParameters_nodup {d : Document} {context : String} {owner : Json}
    {merged merged' : List DeclaredParameter} (hmerged : (merged.map DeclaredParameter.key).Nodup)
    (h : mergeParameters d context merged owner = .ok merged') :
    (merged'.map DeclaredParameter.key).Nodup := by
  obtain ⟨nodes, -, h⟩ := bind_eq_ok_iff.1 h
  refine foldlM_keeps (p := fun ps => (ps.map DeclaredParameter.key).Nodup) ?_ hmerged h
  intro node _ ps ps' hps hstep
  obtain ⟨p, -, hstep⟩ := bind_eq_ok_iff.1 hstep
  obtain rfl := Except.ok.inj hstep
  exact nodup_override hps

/-- An operation has one declared parameter for each location and name. -/
theorem declaredParameters_nodup {d : Document} {e : Endpoint} {ps : List DeclaredParameter}
    (h : declaredParameters d e = .ok ps) : (ps.map DeclaredParameter.key).Nodup :=
  foldlM_keeps (p := fun ps => (ps.map DeclaredParameter.key).Nodup)
    (fun _ _ _ _ hps hstep => mergeParameters_nodup hps hstep) (by simp) h

/-- A declared parameter for a placeholder of the template. -/
def DeclaredParameter.fillsIn (template : PathTemplate) (p : DeclaredParameter) : Bool :=
  p.location == "path" && template.params.contains p.name

theorem filledIn_subset {template : PathTemplate} {ps : List DeclaredParameter} :
    (ps.filter (·.fillsIn template)).map (·.name) ⊆ template.params := by
  intro name hname
  obtain ⟨p, hp, rfl⟩ := List.mem_map.1 hname
  have hfills := (List.mem_filter.1 hp).2
  simp only [DeclaredParameter.fillsIn, Bool.and_eq_true, List.contains_iff_mem] at hfills
  exact hfills.2

theorem nodup_filledIn {template : PathTemplate} {ps : List DeclaredParameter}
    (h : (ps.map DeclaredParameter.key).Nodup) :
    ((ps.filter (·.fillsIn template)).map (·.name)).Nodup := by
  have hkeys : ((ps.filter (·.fillsIn template)).map DeclaredParameter.key).Nodup :=
    h.sublist (List.filter_sublist.map _)
  refine List.Nodup.map_on (fun p hp q hq hname => ?_) (hkeys.of_map _)
  refine List.inj_on_of_nodup_map hkeys hp hq (Prod.ext ?_ hname)
  have hlocation {p : DeclaredParameter} (hp : p ∈ ps.filter (·.fillsIn template)) :
      p.location = "path" := by
    have hfills := (List.mem_filter.1 hp).2
    simp only [DeclaredParameter.fillsIn, Bool.and_eq_true, beq_iff_eq] at hfills
    exact hfills.1
  exact (hlocation hp).trans (hlocation hq).symm

theorem boundLocation_eq_ok {e : Endpoint} {template : PathTemplate} {p : DeclaredParameter}
    {location : Option ParameterLocation} {r r' : Registry}
    (h : boundLocation e template p r = .ok (location, r')) :
    location = some .path ↔ p.fillsIn template = true := by
  obtain ⟨name, place, node⟩ := p
  unfold boundLocation at h
  unfold DeclaredParameter.fillsIn
  dsimp only at h ⊢
  split at h
  · split_ifs at h with hparam
    · obtain ⟨rfl, -⟩ := pure_eq_ok.1 h
      simpa using hparam
    · obtain ⟨_, _, -, h⟩ := bind_eq_ok.1 h
      obtain ⟨rfl, -⟩ := pure_eq_ok.1 h
      simpa using hparam
  · obtain ⟨rfl, -⟩ := pure_eq_ok.1 h
    simp
  iterate 2
    · obtain ⟨_, _, -, h⟩ := bind_eq_ok.1 h
      obtain ⟨rfl, -⟩ := pure_eq_ok.1 h
      simp
  · exact absurd h fail_ne_ok

/-- A path parameter is required and is one text. -/
def Whole (p : Parameter) : Prop := p.location = .path → p.required = true ∧ p.style = .single

theorem elementOf_path {context : String} {p : DeclaredParameter} {type element : TypeExpr}
    {style : ParameterStyle} (h : elementOf context p .path type = .ok (style, element)) :
    style = .single := by
  unfold elementOf at h
  split at h
  · cases h
  · exact (Prod.mk.inj (Except.ok.inj h)).1.symm

/-- The parts of a run that binds a declared parameter. -/
structure ParameterRun (d : Document) (operation : String) (e : Endpoint) (p : DeclaredParameter)
    (location : ParameterLocation) (used : List String) (r r' : Registry) where
  context : String
  type : TypeExpr
  style : ParameterStyle
  element : TypeExpr
  required : Bool
  name : FieldName
  /-- The names that are in use afterwards. -/
  used' : List String
  /-- The registry when the type is found out. -/
  typed : Registry
  parameterType : Build.parameterType d operation context p r = .ok (type, typed)
  elementOf : Build.elementOf context p location type = .ok (style, element)
  isFromText : Build.isFromText d element typed = .ok (true, r')
  required_of_path : location = .path → required = true
  freshArgument : Build.freshArgument p.name used = (name, used')

section Runs

variable {d : Document} {operation : String} {e : Endpoint} {r r' : Registry}
  {used used' : List String} {p : DeclaredParameter} {location : ParameterLocation}

/-- The parameter that is bound. -/
def ParameterRun.parameter (run : ParameterRun d operation e p location used r r') : Parameter :=
  ⟨run.name, p.name, location, run.required, run.element, run.style, .ofNode p.node⟩

@[simp]
theorem ParameterRun.parameter_location (run : ParameterRun d operation e p location used r r') :
    run.parameter.location = location := rfl

@[simp]
theorem ParameterRun.parameter_wireName (run : ParameterRun d operation e p location used r r') :
    run.parameter.wireName = p.name := rfl

theorem parameterRun_of_bindParameter {bound : Parameter}
    (h : bindParameter d operation e p location used r = .ok ((bound, used'), r')) :
    ∃ run : ParameterRun d operation e p location used r r',
      bound = run.parameter ∧ used' = run.used' := by
  obtain ⟨type, typed, htype, h⟩ := bind_eq_ok.1 h
  obtain ⟨⟨style, element⟩, helement, h⟩ := lift_bind_eq_ok.1 h
  obtain ⟨fits, last, hfits, h⟩ := bind_eq_ok.1 h
  cases fits with
  | false => exact absurd h fail_bind_ne_ok
  | true =>
    generalize hfresh : freshArgument p.name used = fresh at h
    obtain ⟨name, last⟩ := fresh
    obtain ⟨hresult, rfl⟩ := pure_eq_ok.1 h
    obtain ⟨hbound, hused⟩ := Prod.mk.inj hresult
    have hrequired : location = .path → (location == .path ||
        ((p.node.get? "required").bind Json.asBool?).getD false) = true := by
      rintro rfl
      rfl
    exact ⟨⟨_, type, style, element, _, name, last, typed, htype, helement, hfits, hrequired,
      hfresh⟩, hbound.symm, hused.symm⟩

/-- A path parameter that is bound is required and is one text. -/
theorem ParameterRun.whole (run : ParameterRun d operation e p location used r r') :
    Whole run.parameter := by
  intro hpath
  obtain rfl : location = .path := hpath
  exact ⟨run.required_of_path rfl, elementOf_path run.elementOf⟩

/-- Declared parameters that are bound one after another. Each is given a location or left out. -/
inductive DeclaredRun (d : Document) (operation : String) (e : Endpoint) (template : PathTemplate) :
    List String → List DeclaredParameter → Registry → List Parameter → List String → Registry →
      Prop where
  | nil (used : List String) (r : Registry) : DeclaredRun d operation e template used [] r [] used r
  | skip {used used' : List String} {p : DeclaredParameter} {rest : List DeclaredParameter}
    {r s r' : Registry} {bound : List Parameter}
    (unbound : boundLocation e template p r = .ok (none, s))
    (later : DeclaredRun d operation e template used rest s bound used' r') :
    DeclaredRun d operation e template used (p :: rest) r bound used' r'
  | cons {used used' : List String} {p : DeclaredParameter} {rest : List DeclaredParameter}
    {r s s' r' : Registry} {location : ParameterLocation} {bound : List Parameter}
    (located : boundLocation e template p r = .ok (some location, s))
    (run : ParameterRun d operation e p location used s s')
    (later : DeclaredRun d operation e template run.used' rest s' bound used' r') :
    DeclaredRun d operation e template used (p :: rest) r (run.parameter :: bound) used' r'

theorem declaredRun_of_bindDeclared {template : PathTemplate} {ps : List DeclaredParameter}
    {bound : List Parameter}
    (h : bindDeclared d operation e template used ps r = .ok ((bound, used'), r')) :
    DeclaredRun d operation e template used ps r bound used' r' := by
  induction ps generalizing used bound r with
  | nil =>
    obtain ⟨hresult, rfl⟩ := pure_eq_ok.1 h
    obtain ⟨rfl, rfl⟩ := Prod.mk.inj hresult
    exact .nil _ _
  | cons p rest ih =>
    obtain ⟨location, s, hlocation, h⟩ := bind_eq_ok.1 h
    cases location with
    | none => exact .skip hlocation (ih h)
    | some location =>
      obtain ⟨⟨first, used₁⟩, s₁, hfirst, h⟩ := bind_eq_ok.1 h
      obtain ⟨⟨later, used₂⟩, s₂, hlater, h⟩ := bind_eq_ok.1 h
      obtain ⟨hresult, rfl⟩ := pure_eq_ok.1 h
      obtain ⟨rfl, rfl⟩ := Prod.mk.inj hresult
      obtain ⟨run, rfl, rfl⟩ := parameterRun_of_bindParameter hfirst
      exact .cons hlocation run (ih hlater)

end Runs

/-- The names of the path parameters, as the document writes them. -/
def pathNames (ps : List Parameter) : List String :=
  (ps.filter (·.location == .path)).map (·.wireName)

theorem DeclaredRun.pathNames {d : Document} {operation : String} {e : Endpoint}
    {template : PathTemplate} {used used' : List String} {ps : List DeclaredParameter}
    {bound : List Parameter} {r r' : Registry}
    (h : DeclaredRun d operation e template used ps r bound used' r') :
    pathNames bound = (ps.filter (·.fillsIn template)).map (·.name) ∧ ∀ p ∈ bound, Whole p := by
  induction h with
  | nil => exact ⟨rfl, nofun⟩
  | @skip _ _ p _ _ _ _ _ unbound _ ih =>
    obtain ⟨hnames, hwhole⟩ := ih
    have hskip : p.fillsIn template = false := by simpa using boundLocation_eq_ok unbound
    exact ⟨by rw [hnames, List.filter_cons_of_neg (by simp [hskip])], hwhole⟩
  | @cons _ _ p _ _ _ _ _ location _ located run _ ih =>
    obtain ⟨hnames, hrest⟩ := ih
    refine ⟨?_, List.forall_mem_cons.2 ⟨run.whole, hrest⟩⟩
    have hfills := boundLocation_eq_ok located
    rw [Build.pathNames] at hnames ⊢
    cases location with
    | path =>
      have htake : p.fillsIn template = true := hfills.1 rfl
      rw [List.filter_cons_of_pos (by simp), List.filter_cons_of_pos htake, List.map_cons,
        List.map_cons, run.parameter_wireName, hnames]
    | query =>
      have hskip : p.fillsIn template = false := by simpa using hfills
      rw [List.filter_cons_of_neg (by simp), List.filter_cons_of_neg (by simp [hskip]), hnames]

theorem bindUndeclared_eq_ok {e : Endpoint} {used placeholders : List String}
    {bound : List Parameter} {r r' : Registry}
    (h : bindUndeclared e used placeholders r = .ok (bound, r')) :
    pathNames bound = placeholders ∧ ∀ p ∈ bound, Whole p := by
  induction placeholders generalizing used bound r r' with
  | nil =>
    obtain ⟨rfl, -⟩ := pure_eq_ok.1 h
    exact ⟨rfl, nofun⟩
  | cons placeholder rest ih =>
    obtain ⟨_, s, -, h⟩ := bind_eq_ok.1 h
    obtain ⟨later, s', hlater, h⟩ := bind_eq_ok.1 h
    obtain ⟨rfl, -⟩ := pure_eq_ok.1 h
    obtain ⟨hnames, hwhole⟩ := ih hlater
    refine ⟨?_, List.forall_mem_cons.2 ⟨fun _ => ⟨rfl, rfl⟩, hwhole⟩⟩
    rw [pathNames] at hnames ⊢
    rw [List.filter_cons_of_pos rfl, List.map_cons, hnames]

/-- The path parameters of an operation are the placeholders of its template. -/
theorem bindParameters_perm {d : Document} {operation : String} {e : Endpoint}
    {template : PathTemplate} (hparams : template.params.Nodup) {bound : List Parameter}
    {r r' : Registry} (h : bindParameters d operation e template r = .ok (bound, r')) :
    (pathNames bound).Perm template.params ∧ ∀ p ∈ bound, Whole p := by
  obtain ⟨ps, hps, h⟩ := lift_bind_eq_ok.1 h
  obtain ⟨⟨declared, used⟩, s, hdeclared, h⟩ := bind_eq_ok.1 h
  obtain ⟨rest, s', hrest, h⟩ := bind_eq_ok.1 h
  obtain ⟨rfl, -⟩ := pure_eq_ok.1 h
  obtain ⟨hnames, hwhole⟩ := (declaredRun_of_bindDeclared hdeclared).pathNames
  obtain ⟨hnames', hwhole'⟩ := bindUndeclared_eq_ok hrest
  constructor
  · have hsplit : pathNames (declared ++ rest) = pathNames declared ++ pathNames rest := by
      simp [pathNames]
    rw [hsplit, hnames']
    exact append_missing_perm (hnames ▸ nodup_filledIn (declaredParameters_nodup hps))
      (hnames ▸ filledIn_subset) hparams
  · intro p hp
    rcases List.mem_append.1 hp with hp | hp
    · exact hwhole p hp
    · exact hwhole' p hp

end Build

end OpenApiServer
