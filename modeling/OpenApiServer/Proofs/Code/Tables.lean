import OpenApiServer.Build.Routes
import OpenApiServer.Proofs.Code.Meaning
import OpenApiServer.Proofs.Data.List

/-!
# The statics of the tables

The code of a routing table starts from an empty router and inserts the patterns in their order, so
its static is the router that these insertions leave. A file has the statics of all tables, each
under a name of its own.
-/

namespace OpenApiServer

open Http

/-- The insertions that the code of a table makes. -/
def RouteTable.entries (t : RouteTable) : List (String × String) :=
  t.routes.map fun r => (r.pattern, Code.variantOf t.enumName r.variant)

/-- The router of a table. -/
def RouteTable.router (t : RouteTable) : Router String := Router.ofRoutes t.entries

namespace Method

theorem mem_all (m : Method) : m ∈ all := by
  cases m <;> decide

theorem inj_of_nodup {α : Type} {f : Method → α} (h : (all.map f).Nodup) {a b : Method}
    (hab : f a = f b) : a = b :=
  List.inj_on_of_nodup_map h (mem_all a) (mem_all b) hab

theorem name_inj {a b : Method} (h : a.name = b.name) : a = b :=
  inj_of_nodup (by decide) h

end Method

namespace MethodRoutes

theorem staticName_inj {a b : Method} (h : staticName a = staticName b) : a = b :=
  Method.inj_of_nodup (by decide) h

end MethodRoutes

namespace Code

/-! ## Words -/

theorem read_literal (s : String) : Word.read (Text.literal s) = .literal s := by
  simp [Word.read, Text.unquote?_literal]

theorem unquote?_enumName_append (m : Method) (rest : String) :
    Text.unquote? ((MethodRoutes.enumName m).text ++ rest) = none := by
  have hstart : ∀ m ∈ Method.all,
      (MethodRoutes.enumName m).text.toList.head?.any (· != '"') = true := by
    decide
  obtain ⟨c, hc, hne⟩ := (Option.any_eq_true ..).1 (hstart m m.mem_all)
  obtain ⟨cs, hcs⟩ := List.head?_eq_some_iff.1 hc
  unfold Text.unquote?
  rw [String.toList_append, hcs, List.cons_append]
  split
  next heq =>
    obtain ⟨rfl, -⟩ := List.cons.inj heq
    exact absurd hne (by decide)
  next => rfl

theorem read_variantOf (m : Method) (variant : TypeName) :
    Word.read (variantOf (MethodRoutes.enumName m) variant) =
      .path (variantOf (MethodRoutes.enumName m) variant) := by
  unfold Word.read variantOf
  rw [String.append_assoc, unquote?_enumName_append]
  simp [Text.contains]

theorem variantOf_inj {enumName a b : TypeName} (h : variantOf enumName a = variantOf enumName b) :
    a = b := by
  cases a
  cases b
  simpa [variantOf] using h

theorem read_staticName (m : Method) :
    Word.read (MethodRoutes.staticName m) = .name (MethodRoutes.staticName m) := by
  have hall : ∀ m ∈ Method.all,
      Word.read (MethodRoutes.staticName m) = .name (MethodRoutes.staticName m) := by
    decide
  exact hall m m.mem_all

theorem staticName_ne {name : String} (h : name ∉ Method.all.map MethodRoutes.staticName)
    (m : Method) : MethodRoutes.staticName m ≠ name := by
  rintro rfl
  exact h (List.mem_map_of_mem m.mem_all)

/-- The words of the dispatcher are names. -/
@[simp] theorem read_locals :
    Word.read "api" = .name "api" ∧ Word.read "request" = .name "request" ∧
    Word.read "parts" = .name "parts" ∧ Word.read "body" = .name "body" ∧
    Word.read "path" = .name "path" ∧ Word.read "query" = .name "query" ∧
    Word.read "matched" = .name "matched" ∧ Word.read "method" = .name "method" ∧
    Word.read "routed" = .name "routed" ∧ Word.read "router" = .name "router" ∧
    Word.read "mut router" = .name "mut router" ∧ Word.read "_" = .name "_" ∧
    Word.read "false" = .name "false" := by
  decide

/-! ## The static of a table -/

/-- The insertions change the variable `router`, one after another. -/
theorem run_inserts {s : Scope} {m : Method} {router : Http.Router String}
    (hrouter : s.vars.lookup "router" = some (.router router)) (routes : List RouteDecl) :
    run s (routes.map (fun r => .bind (.word "_") (.method (.word "router") "insert"
        [.word (Text.literal r.pattern), .word (variantOf (MethodRoutes.enumName m) r.variant)])) ++
      [.result (.word "router")]) =
      some (.value (.router ((routes.map fun r =>
        (r.pattern, variantOf (MethodRoutes.enumName m) r.variant)).foldl
          (fun router (template, value) => router.afterInsert template value) router))) := by
  induction routes generalizing s router with
  | nil => simp [run, eval, Scope.word?, hrouter]
  | cons r rest ih =>
    have hvalue : Outcome.value? (eval s (.method (.word "router") "insert"
        [.word (Text.literal r.pattern), .word (variantOf (MethodRoutes.enumName m) r.variant)])) =
        some (.changed (.router (router.afterInsert r.pattern
          (variantOf (MethodRoutes.enumName m) r.variant)))) := by
      simp [eval, evalAll, Scope.word?, hrouter, read_literal, read_variantOf, Outcome.value?,
        Value.method?]
    rw [List.map_cons, List.cons_append, run, hvalue]
    exact ih (by simp [Scope.bind, ownerName])

/-- The names that the tables of a server have. -/
structure Tabled (tables : List RouteTable) : Prop where
  enumName : ∀ t ∈ tables, t.enumName = MethodRoutes.enumName t.method
  staticName : ∀ t ∈ tables, t.staticName = MethodRoutes.staticName t.method
  methods : (tables.map (·.method)).Nodup
  variants : ∀ t ∈ tables, (t.routes.map (·.variant)).Nodup

theorem eval_routesValue {s : Scope} {t : RouteTable}
    (h : t.enumName = MethodRoutes.enumName t.method) :
    eval s (routesValue t) = some (.value (.router t.router)) := by
  have hempty : Outcome.value? (eval s (.call (.word "support::Router::new") [])) =
      some (.router .empty) := by
    simp [eval, evalAll, Scope.call?, Outcome.value?]
  have hbind : (Pattern.word "mut router").bind? (.router .empty) =
      some [("router", .router .empty)] := by
    simp [Pattern.bind?, bindWord?]
  have hrouter : (s.bind [("router", .router .empty)]).vars.lookup "router" =
      some (.router .empty) := by
    simp [Scope.bind]
  have hinserts := run_inserts (m := t.method) hrouter t.routes
  unfold routesValue
  rw [eval, evalAll, evalAll, eval, eval, List.cons_append, run, hempty]
  simp only [hbind, Option.bind_some]
  rw [h, hinserts]
  simp [Outcome.value?, Scope.call?, RouteTable.router, RouteTable.entries, h, Http.Router.ofRoutes]

theorem staticsOf_append (a b : List Item) : staticsOf (a ++ b) = staticsOf a ++ staticsOf b :=
  List.filterMap_append

theorem staticsOf_tables {tables : List RouteTable} (h : Tabled tables) (visibility : Visibility) :
    staticsOf (tables.flatMap (routeTable visibility)) =
      tables.map fun t => (t.staticName, .router t.router) := by
  have henum := h.enumName
  clear h
  induction tables with
  | nil => rfl
  | cons t rest ih =>
    obtain ⟨ht, hrest⟩ := List.forall_mem_cons.1 henum
    rw [List.flatMap_cons, staticsOf_append, ih hrest, List.map_cons]
    simp [routeTable, staticsOf, eval_routesValue ht, Outcome.value?]

theorem staticsOf_serverItems {m : ServerModel} (h : Tabled m.routeTables)
    (visibility : Visibility) :
    staticsOf (serverItems visibility m) =
      m.routeTables.map fun t => (t.staticName, .router t.router) := by
  have himpls : staticsOf ((responsesOf m.types).map responseImpl) = [] := by
    simp [staticsOf, responseImpl, List.filterMap_map, Function.comp_def]
  unfold serverItems
  rw [staticsOf_append, staticsOf_append, staticsOf_append, staticsOf_append, himpls,
    staticsOf_tables h]
  simp [staticsOf, apiInterface, handleFunction, dispatchFunction, unroutedFunction]

/-- Every table has its router under its own name. -/
theorem lookup_static {tables : List RouteTable} (h : Tabled tables) {t : RouteTable}
    (ht : t ∈ tables) :
    (tables.map fun t => (t.staticName, Value.router t.router)).lookup t.staticName =
      some (.router t.router) := by
  have hnames : ∀ u ∈ tables, u.staticName = t.staticName → u = t := fun u hu heq => by
    rw [h.staticName u hu, h.staticName t ht] at heq
    exact List.inj_on_of_nodup_map h.methods hu ht (MethodRoutes.staticName_inj heq)
  clear h
  induction tables with
  | nil => cases ht
  | cons u rest ih =>
    rw [List.map_cons, List.lookup_cons]
    by_cases heq : u.staticName = t.staticName
    · obtain rfl := hnames u (List.mem_cons_self ..) heq
      simp
    · have hbeq : (t.staticName == u.staticName) = false := by simpa using Ne.symm heq
      rw [hbeq]
      obtain rfl | hrest := List.mem_cons.1 ht
      · exact absurd rfl heq
      · exact ih hrest fun v hv => hnames v (List.mem_cons_of_mem _ hv)

end Code

end OpenApiServer
