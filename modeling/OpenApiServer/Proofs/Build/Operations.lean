import Mathlib.Data.List.Nodup
import OpenApiServer.Build.Routes
import OpenApiServer.Build.Server
import OpenApiServer.Proofs.Build.Monad
import OpenApiServer.Proofs.Data.Except
import OpenApiServer.Proofs.Data.List
import OpenApiServer.Proofs.Document.PathTemplate
import OpenApiServer.Proofs.Name.Stability

/-!
# Operations and their routes

A build binds the operations in their order, and each puts its template into the tables that the
ones before it have left. `Routed` is this history, freed from all else that a build does.

## Route tables keep their routes apart

The tables of a build stay sound: every method has one table, and within a table templates, shapes
and variants occur once. A template that is new to its table adds one route; one that the table has
adds none.
-/

namespace OpenApiServer

open PathTemplate (Parsed)

namespace MethodRoutes

/-- The routes of a method can be told apart, by their templates and by their variants. -/
structure Sound (m : MethodRoutes) : Prop where
  parsed : ∀ r ∈ m.routes, Parsed r.template.text r.template
  apart : m.routes.Pairwise fun a b => a.template.shape ≠ b.template.shape
  variants : (m.routes.map (·.variant)).Nodup

theorem Sound.empty (method : Method) : Sound ⟨method, []⟩ := by
  constructor <;> simp

/-- How a template gets its variant: from the route that has it, or with a route of its own. -/
inductive Added (m : MethodRoutes) (template : PathTemplate) : TypeName → MethodRoutes → Prop where
  | found {r : Route} (mem : r ∈ m.routes) (text : r.template.text = template.text) :
    Added m template r.variant m
  | fresh {variant : TypeName} (free : variant ∉ m.routes.map (·.variant))
    (text : ∀ r ∈ m.routes, r.template.text ≠ template.text)
    (shape : ∀ r ∈ m.routes, r.template.shape ≠ template.shape) :
    Added m template variant { m with routes := m.routes ++ [⟨variant, template⟩] }

theorem added_of_add {m m' : MethodRoutes} {template : PathTemplate} {variant : TypeName}
    (h : m.add template = .ok (variant, m')) : Added m template variant m' := by
  unfold add at h
  split at h
  next r hfound =>
    obtain ⟨rfl, rfl⟩ := Prod.mk.inj (Except.ok.inj h)
    exact .found (List.mem_of_find?_eq_some hfound) (by simpa using List.find?_some hfound)
  next htext =>
    split at h
    · cases h
    next hshape =>
      obtain ⟨rfl, rfl⟩ := Prod.mk.inj (Except.ok.inj h)
      refine .fresh ?_ (by simpa using htext) (by simpa using hshape)
      intro hmem
      obtain ⟨r, hr, hvariant⟩ := List.mem_map.1 hmem
      refine Name.unique_not_mem (variantBase template) (m.routes.map (·.variant.text)) ?_
      exact List.mem_map.2 ⟨r, hr, congrArg TypeName.text hvariant⟩

theorem Sound.add {m m' : MethodRoutes} {template : PathTemplate} {variant : TypeName}
    (h : m.Sound) (parsed : Parsed template.text template) (added : Added m template variant m') :
    m'.Sound := by
  cases added with
  | found => exact h
  | fresh free text shape =>
    constructor
    · intro r hr
      rcases List.mem_append.1 hr with hr | hr
      · exact h.parsed r hr
      · obtain rfl := List.mem_singleton.1 hr
        exact parsed
    · rw [List.pairwise_append]
      refine ⟨h.apart, List.pairwise_singleton .., fun a ha b hb => ?_⟩
      obtain rfl := List.mem_singleton.1 hb
      exact shape a ha
    · rw [List.map_append, List.map_singleton, ← List.concat_eq_append]
      exact h.variants.concat free

theorem Added.method_eq {m m' : MethodRoutes} {template : PathTemplate} {variant : TypeName}
    (added : Added m template variant m') : m'.method = m.method := by
  cases added <;> rfl

theorem Added.ne_nil {m m' : MethodRoutes} {template : PathTemplate} {variant : TypeName}
    (added : Added m template variant m') : m'.routes ≠ [] := by
  cases added with
  | found mem => exact List.ne_nil_of_mem mem
  | fresh => simp

end MethodRoutes

namespace RouteTables

/-- Every method has one table, which is sound and not empty. -/
structure Sound (tables : RouteTables) : Prop where
  each : ∀ m ∈ tables, m.Sound
  filled : ∀ m ∈ tables, m.routes ≠ []
  methods : (tables.map (·.method)).Nodup

theorem Sound.empty : Sound [] := by
  constructor <;> simp

/-- How tables get a template: in the table of its method, or in a new one at their end. -/
inductive Added (method : Method) (template : PathTemplate) (variant : TypeName) :
    RouteTables → RouteTables → Prop where
  | known (before after : RouteTables) {m m' : MethodRoutes} (method_eq : m.method = method)
    (added : MethodRoutes.Added m template variant m') :
    Added method template variant (before ++ m :: after) (before ++ m' :: after)
  | opened {tables : RouteTables} {m' : MethodRoutes} (new : method ∉ tables.map (·.method))
    (added : MethodRoutes.Added ⟨method, []⟩ template variant m') :
    Added method template variant tables (tables ++ [m'])

theorem Added.cons {method : Method} {template : PathTemplate} {variant : TypeName}
    {tables tables' : RouteTables} {m : MethodRoutes} (hm : m.method ≠ method)
    (h : Added method template variant tables tables') :
    Added method template variant (m :: tables) (m :: tables') := by
  cases h with
  | known before after method_eq added => exact .known (m :: before) after method_eq added
  | opened new added =>
    refine .opened ?_ added
    simpa using ⟨hm.symm, by simpa using new⟩

theorem added_of_add {method : Method} {template : PathTemplate} {variant : TypeName}
    {tables tables' : RouteTables} (h : add method template tables = .ok (variant, tables')) :
    Added method template variant tables tables' := by
  induction tables generalizing tables' with
  | nil =>
    obtain ⟨⟨found, m'⟩, hadd, h⟩ := bind_eq_ok_iff.1 h
    obtain ⟨rfl, rfl⟩ := Prod.mk.inj (Except.ok.inj h)
    exact .opened (by simp) (MethodRoutes.added_of_add hadd)
  | cons m rest ih =>
    rw [add] at h
    split_ifs at h with hm
    · obtain ⟨⟨found, m'⟩, hadd, h⟩ := bind_eq_ok_iff.1 h
      obtain ⟨rfl, rfl⟩ := Prod.mk.inj (Except.ok.inj h)
      exact .known [] rest hm (MethodRoutes.added_of_add hadd)
    · obtain ⟨⟨found, rest'⟩, hadd, h⟩ := bind_eq_ok_iff.1 h
      obtain ⟨rfl, rfl⟩ := Prod.mk.inj (Except.ok.inj h)
      exact (ih hadd).cons hm

theorem Sound.add {method : Method} {template : PathTemplate} {variant : TypeName}
    {tables tables' : RouteTables} (h : Sound tables) (parsed : Parsed template.text template)
    (added : Added method template variant tables tables') : Sound tables' := by
  cases added with
  | @known before after m m' method_eq added =>
    have hm : m ∈ before ++ m :: after := by simp
    constructor
    · intro other hother
      rcases List.mem_append.1 hother with hbefore | hafter
      · exact h.each other (List.mem_append_left _ hbefore)
      · rcases List.mem_cons.1 hafter with rfl | hafter
        · exact (h.each m hm).add parsed added
        · exact h.each other (by simp [hafter])
    · intro other hother
      rcases List.mem_append.1 hother with hbefore | hafter
      · exact h.filled other (List.mem_append_left _ hbefore)
      · rcases List.mem_cons.1 hafter with rfl | hafter
        · exact added.ne_nil
        · exact h.filled other (by simp [hafter])
    · simpa [added.method_eq] using h.methods
  | @opened _ m' new added =>
    constructor
    · intro other hother
      rcases List.mem_append.1 hother with hold | hnew
      · exact h.each other hold
      · obtain rfl := List.mem_singleton.1 hnew
        exact (MethodRoutes.Sound.empty method).add parsed added
    · intro other hother
      rcases List.mem_append.1 hother with hold | hnew
      · exact h.filled other hold
      · obtain rfl := List.mem_singleton.1 hnew
        exact added.ne_nil
    · rw [List.map_append, List.map_singleton, added.method_eq, ← List.concat_eq_append]
      exact h.methods.concat new

end RouteTables

end OpenApiServer

/-! ## The parts of a build -/

namespace OpenApiServer

/-- The parts of a build that succeeds. -/
structure Built (d : Document) (basePath : String) (m : ServerModel) where
  registered : Registry
  bound : Registry
  drained : Registry
  built : List (Operation × ResponseDecl)
  tables : RouteTables
  registerSchemas : Build.registerSchemas d Registry.empty = .ok ((), registered)
  buildOperations :
    Build.buildOperations d ⟨[], []⟩ d.endpoints registered = .ok ((built, tables), bound)
  drain : Build.drain d bound = .ok ((), drained)
  model : m = Build.finish basePath drained built tables

theorem built_of_server {d : Document} {basePath : String} {m : ServerModel}
    (h : d.server basePath = .ok m) : Nonempty (Built d basePath m) := by
  obtain ⟨⟨model, last⟩, hrun, rfl⟩ := map_eq_ok_iff.1 h
  obtain ⟨⟨⟩, registered, hregister, hrun⟩ := Build.bind_eq_ok.1 hrun
  obtain ⟨⟨built, tables⟩, bound, hbuild, hrun⟩ := Build.bind_eq_ok.1 hrun
  obtain ⟨⟨⟩, drained, hdrain, hrun⟩ := Build.bind_eq_ok.1 hrun
  obtain ⟨r, s, hget, hrun⟩ := Build.bind_eq_ok.1 hrun
  obtain ⟨rfl, rfl⟩ := Build.get_eq_ok.1 hget
  obtain ⟨rfl, -⟩ := Build.pure_eq_ok.1 hrun
  exact ⟨⟨registered, bound, _, built, tables, hregister, hbuild, hdrain, rfl⟩⟩

namespace Built

variable {d : Document} {basePath : String} {m : ServerModel}

theorem types_eq (b : Built d basePath m) :
    m.types = (Boxing.box b.drained.types b.drained.conversions).types ++
      b.built.map (.response ·.2) :=
  congrArg ServerModel.types b.model

theorem operations_eq (b : Built d basePath m) : m.operations = b.built.map (·.1) :=
  congrArg ServerModel.operations b.model

theorem enumConversions_eq (b : Built d basePath m) :
    m.enumConversions = b.drained.enums.conversions :=
  congrArg ServerModel.enumConversions b.model

theorem conversions_eq (b : Built d basePath m) :
    m.conversions = Conversion.settle
      (b.drained.enums.conversions.map fun c => (c.source, c.target))
      (Boxing.box b.drained.types b.drained.conversions).conversions :=
  congrArg ServerModel.conversions b.model

end Built

/-- Operations that put their templates into tables, one after another. -/
inductive Routed : RouteTables → List Operation → RouteTables → Prop where
  | nil (tables : RouteTables) : Routed tables [] tables
  | cons {tables tables' last : RouteTables} {o : Operation} {rest : List Operation}
    {template : PathTemplate} (parsed : PathTemplate.Parsed o.path template)
    (pathEnum : o.pathEnum = MethodRoutes.enumName o.method)
    (added : RouteTables.Added o.method template o.pathVariant tables tables')
    (later : Routed tables' rest last) : Routed tables (o :: rest) last

namespace Build

/-- The parts of a run that binds an operation. -/
structure OperationRun (d : Document) (state : OperationState) (e : Endpoint) (r : Registry)
    (response : ResponseDecl) (r' : Registry) where
  template : PathTemplate
  name : String
  variant : TypeName
  tables : RouteTables
  parameters : List Parameter
  body : Option RequestBody
  /-- The registry when the parameters are bound. -/
  bound : Registry
  /-- The registry when the body is bound as well. -/
  embodied : Registry
  parse : PathTemplate.parse e.path = .ok template
  name_eq : name = Name.unique (FieldName.ofText e.operationId).bare state.usedNames
  add : state.tables.add e.method template = .ok (variant, tables)
  bindParameters : Build.bindParameters d name e template r = .ok (parameters, bound)
  bindBody : Build.bindBody d name e parameters bound = .ok (body, embodied)
  buildResponse : Build.buildResponse d name e embodied = .ok (response, r')

namespace OperationRun

variable {d : Document} {state : OperationState} {e : Endpoint} {r r' : Registry}
  {response : ResponseDecl} (run : OperationRun d state e r response r')

/-- The operation that is bound. -/
def operation : Operation :=
  ⟨.ofText run.name, e.operationId, e.method, e.path, .ofNode e.node, run.parameters, run.body,
    response.name, MethodRoutes.enumName e.method, run.variant⟩

/-- The state that the operation leaves. -/
def next : OperationState := ⟨run.tables, run.name :: state.usedNames⟩

end OperationRun

variable {d : Document} {state : OperationState} {r r' : Registry}

section Operation

variable {e : Endpoint} {o : Operation} {response : ResponseDecl} {state' : OperationState}

theorem operationRun_of_buildOperation
    (h : buildOperation d state e r = .ok ((o, response, state'), r')) :
    ∃ run : OperationRun d state e r response r', o = run.operation ∧ state' = run.next := by
  obtain ⟨template, hparse, h⟩ := lift_bind_eq_ok.1 h
  obtain ⟨⟨variant, tables⟩, hadd, h⟩ := lift_bind_eq_ok.1 h
  obtain ⟨parameters, bound, hparameters, h⟩ := bind_eq_ok.1 h
  obtain ⟨body, embodied, hbody, h⟩ := bind_eq_ok.1 h
  obtain ⟨declared, last, hresponse, h⟩ := bind_eq_ok.1 h
  obtain ⟨hresult, rfl⟩ := pure_eq_ok.1 h
  obtain ⟨hoperation, hrest⟩ := Prod.mk.inj hresult
  obtain ⟨rfl, hstate⟩ := Prod.mk.inj hrest
  let run : OperationRun d state e r declared last := ⟨template, _, variant, tables, parameters,
    body, bound, embodied, hparse, rfl, hadd, hparameters, hbody, hresponse⟩
  exact ⟨run, hoperation.symm, hstate.symm⟩

theorem buildOperation_added (h : buildOperation d state e r = .ok ((o, response, state'), r')) :
    o.method = e.method ∧ o.path = e.path ∧ o.pathEnum = MethodRoutes.enumName e.method ∧
      ∃ template, PathTemplate.Parsed e.path template ∧
        RouteTables.Added e.method template o.pathVariant state.tables state'.tables := by
  obtain ⟨run, rfl, rfl⟩ := operationRun_of_buildOperation h
  have hparsed := PathTemplate.parsed_of_parse run.parse
  dsimp only [OperationRun.operation, OperationRun.next]
  exact ⟨rfl, rfl, rfl, run.template, hparsed, RouteTables.added_of_add run.add⟩

end Operation

/-- Operations that are bound one after another, each in the state that the one before it leaves. -/
inductive OperationsRun (d : Document) : OperationState → List Endpoint → Registry →
    List (Operation × ResponseDecl) → RouteTables → Registry → Prop where
  | nil (state : OperationState) (r : Registry) : OperationsRun d state [] r [] state.tables r
  | cons {state state' : OperationState} {e : Endpoint} {rest : List Endpoint}
    {r s r' : Registry} {o : Operation} {response : ResponseDecl}
    {built : List (Operation × ResponseDecl)} {tables : RouteTables}
    (first : buildOperation d state e r = .ok ((o, response, state'), s))
    (later : OperationsRun d state' rest s built tables r') :
    OperationsRun d state (e :: rest) r ((o, response) :: built) tables r'

variable {es : List Endpoint} {built : List (Operation × ResponseDecl)} {tables : RouteTables}

theorem operationsRun_of_buildOperations
    (h : buildOperations d state es r = .ok ((built, tables), r')) :
    OperationsRun d state es r built tables r' := by
  induction es generalizing state built r with
  | nil =>
    obtain ⟨hresult, rfl⟩ := pure_eq_ok.1 h
    obtain ⟨rfl, rfl⟩ := Prod.mk.inj hresult
    exact .nil _ _
  | cons e rest ih =>
    obtain ⟨⟨o, response, state'⟩, s, hfirst, h⟩ := bind_eq_ok.1 h
    obtain ⟨⟨later, last⟩, s', hlater, h⟩ := bind_eq_ok.1 h
    obtain ⟨hresult, rfl⟩ := pure_eq_ok.1 h
    obtain ⟨rfl, rfl⟩ := Prod.mk.inj hresult
    exact .cons hfirst (ih hlater)

/-- Each operation is built of its endpoint, from what the ones before it have left. -/
theorem OperationsRun.forall₂ (h : OperationsRun d state es r built tables r') :
    List.Forall₂ (fun e b => ∃ before after s s',
      buildOperation d before e s = .ok ((b.1, b.2, after), s')) es built := by
  induction h with
  | nil => exact .nil
  | cons first _ ih => exact .cons ⟨_, _, _, _, first⟩ ih

theorem OperationsRun.routed (h : OperationsRun d state es r built tables r') :
    Routed state.tables (built.map (·.1)) tables ∧
      built.map (fun b => (b.1.method, b.1.path)) = es.map fun e => (e.method, e.path) := by
  induction h with
  | nil => exact ⟨.nil _, rfl⟩
  | cons first _ ih =>
    obtain ⟨hmethod, hpath, henum, template, hparsed, hadded⟩ := buildOperation_added first
    obtain ⟨hrouted, hkeys⟩ := ih
    refine ⟨.cons (hpath ▸ hparsed) (hmethod ▸ henum) (hmethod ▸ hadded) hrouted, ?_⟩
    rw [List.map_cons, List.map_cons, hkeys, hmethod, hpath]

end Build

theorem Routed.sound {tables last : RouteTables} {os : List Operation}
    (h : Routed tables os last) (sound : tables.Sound) : last.Sound := by
  induction h with
  | nil => exact sound
  | @cons _ _ _ o _ template parsed _ added _ ih =>
    exact ih (sound.add (parsed.text_eq ▸ parsed) added)

/-- The routes of all tables: method, variant and template. -/
def RouteTables.slots (tables : RouteTables) : List (Method × TypeName × String) :=
  tables.flatMap fun m => m.routes.map fun r => (m.method, r.variant, r.template.text)

theorem RouteTables.mem_slots {tables : RouteTables} {m : MethodRoutes} (hm : m ∈ tables)
    {r : Route} (hr : r ∈ m.routes) : (m.method, r.variant, r.template.text) ∈ tables.slots :=
  List.mem_flatMap.2 ⟨m, hm, List.mem_map_of_mem hr⟩

/-- A template that is new to its method gets one more route. -/
theorem RouteTables.Added.slots_perm {method : Method} {template : PathTemplate}
    {variant : TypeName} {tables tables' : RouteTables}
    (h : Added method template variant tables tables')
    (hnew : ∀ slot ∈ tables.slots, (slot.1, slot.2.2) ≠ (method, template.text)) :
    tables'.slots.Perm (tables.slots ++ [(method, variant, template.text)]) := by
  cases h with
  | @known before after m m' method_eq added =>
    subst method_eq
    have hm : m ∈ before ++ m :: after := by simp
    cases added with
    | @found r mem text => exact absurd (by rw [text]) (hnew _ (mem_slots hm mem))
    | fresh =>
      simp only [RouteTables.slots, List.flatMap_append, List.flatMap_cons, List.map_append,
        List.map_singleton, List.append_assoc]
      exact ((List.perm_append_comm.append_left _).append_left _)
  | opened new added =>
    cases added with
    | found mem => cases mem
    | fresh => simp [RouteTables.slots]

/-- Operations of distinct methods and templates have a route each. -/
theorem Routed.slots_perm {tables last : RouteTables} {os : List Operation}
    (h : Routed tables os last) (hkeys : (os.map fun o => (o.method, o.path)).Nodup)
    (hnew : ∀ slot ∈ tables.slots, ∀ o ∈ os, (slot.1, slot.2.2) ≠ (o.method, o.path)) :
    last.slots.Perm (tables.slots ++ os.map fun o => (o.method, o.pathVariant, o.path)) := by
  induction h with
  | nil => simp
  | @cons tables tables' last o rest template parsed _ added _ ih =>
    obtain ⟨hfirst, hrest⟩ := List.nodup_cons.1 hkeys
    have hslots := added.slots_perm fun slot hslot => by
      rw [parsed.text_eq]
      exact hnew slot hslot o (List.mem_cons_self ..)
    rw [parsed.text_eq] at hslots
    refine (ih hrest fun slot hslot o' ho' => ?_).trans ?_
    · rcases List.mem_append.1 (hslots.subset hslot) with hold | hadded
      · exact hnew slot hold o' (List.mem_cons_of_mem _ ho')
      · obtain rfl := List.mem_singleton.1 hadded
        intro heq
        exact hfirst (List.mem_map.2 ⟨o', ho', heq.symm⟩)
    · simpa using hslots.append_right _

namespace Built

variable {d : Document} {basePath : String} {m : ServerModel} (b : Built d basePath m)

theorem operationsRun :
    Build.OperationsRun d ⟨[], []⟩ d.endpoints b.registered b.built b.tables b.bound :=
  Build.operationsRun_of_buildOperations b.buildOperations

include b

/-- What every operation that is bound satisfies, all operations of the server do. -/
theorem forall_operations {p : Operation → Prop}
    (hp : ∀ {state e r o response state' r'},
      Build.buildOperation d state e r = .ok ((o, response, state'), r') → p o)
    {o : Operation} (ho : o ∈ m.operations) : p o := by
  rw [b.operations_eq] at ho
  obtain ⟨built, hbuilt, rfl⟩ := List.mem_map.1 ho
  obtain ⟨e, -, before, after, s, s', hrun⟩ := exists_of_mem_forall₂ b.operationsRun.forall₂ hbuilt
  exact hp hrun

end Built

/-- The operations of a server are those of its document, and its tables are what they leave. -/
theorem routed_of_server {d : Document} {basePath : String} {m : ServerModel}
    (h : d.server basePath = .ok m) :
    m.operations.map (fun o => (o.method, o.path)) = d.endpoints.map (fun e => (e.method, e.path)) ∧
      ∃ tables, Routed [] m.operations tables ∧ m.routeTables = tables.map (·.table basePath) := by
  obtain ⟨b⟩ := built_of_server h
  obtain ⟨hrouted, hkeys⟩ := b.operationsRun.routed
  rw [b.model]
  refine ⟨?_, b.tables, hrouted, rfl⟩
  rw [← hkeys]
  exact List.map_map ..

end OpenApiServer
