import OpenApiServer.Proofs.Build.Operations
import OpenApiServer.Proofs.Code.Dispatch
import OpenApiServer.Proofs.Code.Tables
import OpenApiServer.Proofs.Document.Keys
import OpenApiServer.Proofs.Http.Lookup

/-!
# Operations, routes and the dispatcher

Every operation of a server has one route and every route one operation. So what the router of a
table finds is a route whose arm calls the operation that the route stands for, and the dispatcher
asks the application for the one operation whose method and template fit the request.
-/

/-!
## Patterns of a server in a router

The templates of a table are well-formed and no two of them are of one shape, and a base path in
front of all of them changes neither. But nothing has looked at the segments of the base path
itself: a router takes all patterns of a table if these are well-formed, and else none of them.
-/

namespace OpenApiServer

open Http

namespace MethodRoutes

theorem entries_table (basePath : String) (m : MethodRoutes) :
    (m.table basePath).entries =
      m.routes.map fun r =>
        (basePath ++ r.template.text, Code.variantOf (enumName m.method) r.variant) := by
  simp [RouteTable.entries, table]

namespace Sound

variable {m : MethodRoutes} (h : m.Sound) (basePath : String)

include h

theorem wellFormed_pattern {r : Route} (hr : r ∈ m.routes) :
    (∀ cs ∈ segmentTexts (basePath ++ r.template.text), Segment.WellFormed cs) ↔
      ∀ cs ∈ segmentTexts basePath, Segment.WellFormed cs := by
  have parsed := h.parsed r hr
  have hown : ∀ cs ∈ segmentTexts r.template.text, Segment.WellFormed cs :=
    exists_reads_iff.1 ⟨_, parsed.reads⟩
  rw [segmentTexts_append parsed.slash, List.forall_mem_append]
  exact and_iff_left hown

/-- Two patterns of one shape have templates of one shape behind the same base path. -/
theorem apart_patterns :
    (m.table basePath).entries.Pairwise fun a b => ¬ Alike a.1 b.1 := by
  rw [entries_table, List.pairwise_map]
  refine h.apart.imp_of_mem fun {a b} ha hb hshape halike => hshape ?_
  have hreadsA := (h.parsed a ha).reads
  have hreadsB := (h.parsed b hb).reads
  obtain ⟨segments, segments', hsegments, hsegments', same⟩ := halike
  obtain ⟨s, t, rfl, hs, ht⟩ := (reads_append_iff (h.parsed a ha).slash).1 hsegments
  obtain ⟨s', t', rfl, hs', ht'⟩ := (reads_append_iff (h.parsed b hb).slash).1 hsegments'
  obtain rfl := hs.unique hs'
  obtain rfl := ht.unique hreadsA
  obtain rfl := ht'.unique hreadsB
  exact PathTemplate.shape_eq_of_sameShape same.of_append

/-- A router takes all patterns of a table, or not all, by the segments of the base path. -/
theorem insertAll_entries (hfilled : m.routes ≠ []) :
    (∃ router, Router.empty.insertAll (m.table basePath).entries = .ok router) ↔
      ∀ cs ∈ segmentTexts basePath, Segment.WellFormed cs := by
  rw [Represents.empty.insertAll_eq_ok, List.nil_append, and_iff_left (h.apart_patterns basePath),
    entries_table, List.forall_mem_map]
  constructor
  · intro hall
    obtain ⟨r, hr⟩ := List.exists_mem_of_ne_nil m.routes hfilled
    exact (h.wellFormed_pattern basePath hr).1 (hall r hr)
  · intro hbase r hr
    exact (h.wellFormed_pattern basePath hr).2 hbase

/-- A malformed base path leaves the router without a route. -/
theorem ofRoutes_entries (hbase : ¬ ∀ cs ∈ segmentTexts basePath, Segment.WellFormed cs) :
    Router.ofRoutes (m.table basePath).entries = Router.empty := by
  refine Represents.empty.insertions_eq_self ?_
  rw [entries_table, List.forall_mem_map]
  intro r hr hwell
  exact hbase ((h.wellFormed_pattern basePath hr).1 hwell)

end Sound

end MethodRoutes

/-- A document with one path under one server. -/
def onePath (url : String) : Document :=
  ⟨.obj [("servers", .arr [.obj [("url", .str url)]]),
    ("paths", .obj [("/pets", .obj [("get", .obj [("responses", .obj [("204", .obj [])])])])])]⟩

end OpenApiServer

/-! ## Routes and arms -/

namespace OpenApiServer

open Http Code

/-- A table answers with the route that leads among its entries, or with none. -/
theorem RouteTable.router_spec {t : RouteTable}
    (hinserts : ∃ router, Router.empty.insertAll t.entries = .ok router) (path : String) :
    t.router.at? path = none ∨ ∃ entry segments, Leads t.entries path entry segments ∧
      t.router.at? path = some ⟨entry.2, captures segments (segmentTexts path)⟩ := by
  obtain ⟨router, hrouter⟩ := hinserts
  have hrepresents := ofRoutes_represents t.entries
  rw [Represents.accepted_eq_self hrouter] at hrepresents
  exact (hrepresents.at?_spec path).imp And.left id

/-- Operations and routes correspond: a route has the method and the variant of its operation, and
the base path with the operation's path for a pattern. -/
structure Corresponds (basePath : String) (m : ServerModel) : Prop where
  tabled : Tabled m.routeTables
  pathEnum : ∀ o ∈ m.operations, o.pathEnum = MethodRoutes.enumName o.method
  perm : (m.routeTables.flatMap fun t => t.routes.map fun r =>
      (t.method, r.variant, r.pattern)).Perm
    (m.operations.map fun o => (o.method, o.pathVariant, basePath ++ o.path))

theorem RouteTables.Sound.tabled {tables : RouteTables} (h : tables.Sound) (basePath : String) :
    Tabled (tables.map (·.table basePath)) where
  enumName := by simp [MethodRoutes.table]
  staticName := by simp [MethodRoutes.table]
  methods := by simpa [MethodRoutes.table, Function.comp_def] using h.methods
  variants := by
    rw [List.forall_mem_map]
    intro m hm
    simpa [MethodRoutes.table, Function.comp_def] using (h.each m hm).variants

theorem Routed.pathEnum_eq {tables last : RouteTables} {os : List Operation}
    (h : Routed tables os last) : ∀ o ∈ os, o.pathEnum = MethodRoutes.enumName o.method := by
  induction h with
  | nil => simp
  | cons _ pathEnum _ _ ih => exact List.forall_mem_cons.2 ⟨pathEnum, ih⟩

theorem corresponds_of_server {d : Document} {basePath : String} {m : ServerModel}
    (hkeys : d.root.DistinctKeys) (h : d.server basePath = .ok m) : Corresponds basePath m := by
  obtain ⟨hoperations, tables, hrouted, htables⟩ := routed_of_server h
  have hnodup : (m.operations.map fun o => (o.method, o.path)).Nodup := by
    rw [hoperations]
    exact Document.endpoints_nodup hkeys
  have hslots := hrouted.slots_perm hnodup (by simp [RouteTables.slots])
  refine ⟨htables ▸ (hrouted.sound .empty).tabled basePath, hrouted.pathEnum_eq, ?_⟩
  have hpatterns := hslots.map fun slot => (slot.1, slot.2.1, basePath ++ slot.2.2)
  simpa [htables, RouteTables.slots, MethodRoutes.table, List.map_flatMap, List.flatMap_map,
    Function.comp_def] using hpatterns

namespace Corresponds

variable {basePath : String} {m : ServerModel}

section Pairing

variable (h : Corresponds basePath m)

include h

theorem route_of_operation {o : Operation} (ho : o ∈ m.operations) :
    ∃ t ∈ m.routeTables, ∃ r ∈ t.routes, t.method = o.method ∧ r.variant = o.pathVariant ∧
      r.pattern = basePath ++ o.path := by
  have hmem := h.perm.symm.subset (List.mem_map_of_mem ho)
  obtain ⟨t, ht, hmem⟩ := List.mem_flatMap.1 hmem
  obtain ⟨r, hr, heq⟩ := List.mem_map.1 hmem
  simp only [Prod.mk.injEq] at heq
  exact ⟨t, ht, r, hr, heq⟩

theorem operation_of_route {t : RouteTable} (ht : t ∈ m.routeTables) {r : RouteDecl}
    (hr : r ∈ t.routes) :
    ∃ o ∈ m.operations, o.method = t.method ∧ o.pathVariant = r.variant ∧
      basePath ++ o.path = r.pattern := by
  have hmem : (t.method, r.variant, r.pattern) ∈ _ :=
    h.perm.subset (List.mem_flatMap.2 ⟨t, ht, List.mem_map_of_mem hr⟩)
  obtain ⟨o, ho, heq⟩ := List.mem_map.1 hmem
  simp only [Prod.mk.injEq] at heq
  exact ⟨o, ho, heq⟩

theorem routes_nodup :
    (m.routeTables.flatMap fun t => t.routes.map fun r => (t.method, r.variant)).Nodup := by
  rw [List.nodup_flatMap]
  constructor
  · intro t ht
    have hvariants := (h.tabled.variants t ht).map (f := fun v => (t.method, v))
      fun _ _ hab => (Prod.mk.inj hab).2
    simpa [Function.comp_def] using hvariants
  · have hmethods := h.tabled.methods
    rw [List.Nodup, List.pairwise_map] at hmethods
    refine hmethods.imp fun {a b} hab => ?_
    refine List.disjoint_left.2 fun slot ha hb => ?_
    obtain ⟨r, -, rfl⟩ := List.mem_map.1 ha
    obtain ⟨r', -, heq⟩ := List.mem_map.1 hb
    exact hab (Prod.mk.inj heq).1.symm

/-- No two operations share method and variant. -/
theorem operations_nodup : (m.operations.map fun o => (o.method, o.pathVariant)).Nodup := by
  have hkeys := h.perm.map fun slot => (slot.1, slot.2.1)
  simp only [List.map_flatMap, List.map_map, Function.comp_def] at hkeys
  exact hkeys.nodup h.routes_nodup

theorem operation_unique {o o' : Operation} (ho : o ∈ m.operations) (ho' : o' ∈ m.operations)
    (hmethod : o.method = o'.method) (hvariant : o.pathVariant = o'.pathVariant) : o = o' :=
  List.inj_on_of_nodup_map h.operations_nodup ho ho' (by rw [hmethod, hvariant])

/-- The search for the operation of a route finds the one that the route stands for. -/
theorem operationFor?_eq {o : Operation} (ho : o ∈ m.operations) {t : RouteTable} {r : RouteDecl}
    (hmethod : o.method = t.method) (hvariant : o.pathVariant = r.variant) :
    operationFor? m.operations t r = some o := by
  refine find?_eq_some_of_unique ho (by simp [hmethod, hvariant]) fun o' ho' hfits => ?_
  simp only [Bool.and_eq_true, beq_iff_eq] at hfits
  exact h.operation_unique ho' ho (hfits.1.trans hmethod.symm) (hfits.2.trans hvariant.symm)

theorem existsUnique_route {o : Operation} (ho : o ∈ m.operations) :
    ∃! slot : RouteTable × RouteDecl, (slot.1 ∈ m.routeTables ∧ slot.2 ∈ slot.1.routes) ∧
      slot.1.method = o.method ∧ slot.2.variant = o.pathVariant := by
  obtain ⟨t, ht, r, hr, hmethod, hvariant, -⟩ := h.route_of_operation ho
  refine ⟨(t, r), ⟨⟨ht, hr⟩, hmethod, hvariant⟩, ?_⟩
  rintro ⟨t', r'⟩ ⟨⟨ht', hr'⟩, hmethod', hvariant'⟩
  obtain rfl := List.inj_on_of_nodup_map h.tabled.methods ht' ht (hmethod'.trans hmethod.symm)
  obtain rfl := List.inj_on_of_nodup_map (h.tabled.variants _ ht') hr' hr
    (hvariant'.trans hvariant.symm)
  rfl

theorem existsUnique_operation {t : RouteTable} (ht : t ∈ m.routeTables) {r : RouteDecl}
    (hr : r ∈ t.routes) :
    ∃! o, o ∈ m.operations ∧ o.method = t.method ∧ o.pathVariant = r.variant := by
  obtain ⟨o, ho, hmethod, hvariant, -⟩ := h.operation_of_route ht hr
  refine ⟨o, ⟨ho, hmethod, hvariant⟩, ?_⟩
  rintro o' ⟨ho', hmethod', hvariant'⟩
  exact h.operation_unique ho' ho (hmethod'.trans hmethod.symm) (hvariant'.trans hvariant.symm)

/-- What an operation and its route have in common. -/
theorem route_eq {o : Operation} (ho : o ∈ m.operations) {t : RouteTable}
    (ht : t ∈ m.routeTables) {r : RouteDecl} (hr : r ∈ t.routes) (hmethod : o.method = t.method)
    (hvariant : o.pathVariant = r.variant) :
    o.pathEnum = t.enumName ∧ r.pattern = basePath ++ o.path ∧
      operationFor? m.operations t r = some o := by
  refine ⟨?_, ?_, h.operationFor?_eq ho hmethod hvariant⟩
  · rw [h.pathEnum o ho, h.tabled.enumName t ht, hmethod]
  · obtain ⟨o', ho', hmethod', hvariant', hpattern⟩ := h.operation_of_route ht hr
    rw [← hpattern, h.operation_unique ho ho' (hmethod.trans hmethod'.symm)
      (hvariant.trans hvariant'.symm)]

/-- The entry with the value of an operation's route has the pattern of the operation. -/
theorem pattern_of_entry {o : Operation} (ho : o ∈ m.operations) {t : RouteTable}
    (ht : t ∈ m.routeTables) (hmethod : o.method = t.method) {entry : String × String}
    (hentry : entry ∈ t.entries) (hvalue : entry.2 = variantOf t.enumName o.pathVariant) :
    entry.1 = basePath ++ o.path := by
  obtain ⟨r, hr, rfl⟩ := List.mem_map.1 hentry
  have hvariant : o.pathVariant = r.variant := (variantOf_inj hvalue).symm
  exact (h.route_eq ho ht hr hmethod hvariant).2.1

/-- What a table finds belongs to an operation, and the dispatcher asks for it. -/
theorem asks_of_found {t : RouteTable} (ht : t ∈ m.routeTables)
    {entry : String × String} (hentry : entry ∈ t.entries) {path : String}
    {params : List (String × String)} (hfound : t.router.at? path = some ⟨entry.2, params⟩)
    (visibility : Visibility) :
    ∃ o ∈ m.operations, o.method = t.method ∧
      entry = (basePath ++ o.path, variantOf t.enumName o.pathVariant) ∧
      Asks (dispatched (serverItems visibility m) t.method.name path) o ⟨entry.2, params⟩ := by
  obtain ⟨r, hr, rfl⟩ := List.mem_map.1 hentry
  obtain ⟨o, ho, hmethod, hvariant, hpattern⟩ := h.operation_of_route ht hr
  have hoperation := h.operationFor?_eq ho hmethod hvariant
  refine ⟨o, ho, hmethod, by rw [hpattern, hvariant], ?_⟩
  exact dispatched_asks h.tabled visibility ht hfound hr rfl hoperation

end Pairing

section Answering

variable (h : Corresponds basePath m)
  (hinserts : ∀ t ∈ m.routeTables, ∃ router, Router.empty.insertAll t.entries = .ok router)
  (visibility : Visibility) (method path : String)

include h hinserts

/-- The operation whose template leads in the table of the method is asked for. -/
theorem asks_for_the_fitting {t : RouteTable} (ht : t ∈ m.routeTables)
    {found : RouteMatch String} (hfound : t.router.at? path = some found) :
    ∃ o ∈ m.operations, Asks (dispatched (serverItems visibility m) t.method.name path) o found ∧
      ∀ o' ∈ m.operations, o' = o ↔ o'.method = t.method ∧ ∃ segments, Leads t.entries path
        (basePath ++ o'.path, variantOf t.enumName o'.pathVariant) segments ∧
          found.params = captures segments (segmentTexts path) := by
  rcases RouteTable.router_spec (hinserts t ht) path with hnone | ⟨entry, segments, hleads, hsome⟩
  · rw [hnone] at hfound
    cases hfound
  · obtain rfl := Option.some.inj (hsome.symm.trans hfound)
    obtain ⟨o, ho, hmethod, rfl, hasks⟩ := h.asks_of_found ht hleads.mem hsome visibility
    refine ⟨o, ho, hasks, fun o' ho' => ⟨?_, ?_⟩⟩
    · rintro rfl
      exact ⟨hmethod, segments, hleads, rfl⟩
    · rintro ⟨hmethod', segments', hleads', -⟩
      have hsame := (hleads'.unique hleads).1
      exact h.operation_unique ho' ho (hmethod'.trans hmethod.symm)
        (variantOf_inj (Prod.mk.inj hsame).2)

/-- Either the table of the method finds a route, or the answer is the error of the others. -/
theorem answer_cases :
    (∃ t ∈ m.routeTables, t.method.name = method ∧ t.router.at? path ≠ none ∧
      ∃ o found, Asks (dispatched (serverItems visibility m) method path) o found) ∨
    (∀ t ∈ m.routeTables, t.method.name = method → t.router.at? path = none) ∧
      dispatched (serverItems visibility m) method path =
        some (.failure (unrouted m.routeTables method path)) := by
  by_cases hnone : ∀ t ∈ m.routeTables, t.method.name = method → t.router.at? path = none
  · exact .inr ⟨hnone, dispatched_unrouted h.tabled visibility hnone⟩
  · push Not at hnone
    obtain ⟨t, ht, rfl, hsome⟩ := hnone
    obtain ⟨found, hfound⟩ := Option.ne_none_iff_exists'.1 hsome
    obtain ⟨o, -, hasks, -⟩ := h.asks_for_the_fitting hinserts visibility path ht hfound
    exact .inl ⟨t, ht, rfl, hsome, o, found, hasks⟩

theorem notFound_iff :
    dispatched (serverItems visibility m) method path = some (.failure (notFound path)) ↔
      ∀ t ∈ m.routeTables, t.router.at? path = none := by
  rcases h.answer_cases hinserts visibility method path with
    ⟨t, ht, -, hsome, o, found, hasks⟩ | ⟨-, heq⟩
  · exact iff_of_false (hasks.ne_failure _) fun hnone => hsome (hnone t ht)
  · rw [heq, Option.some.injEq, Value.failure.injEq, unrouted_eq_notFound_iff]

theorem methodNotAllowed_iff :
    dispatched (serverItems visibility m) method path =
        some (.failure (methodNotAllowed method path)) ↔
      (∃ t ∈ m.routeTables, t.router.at? path ≠ none) ∧
        ∀ t ∈ m.routeTables, t.method.name = method → t.router.at? path = none := by
  rcases h.answer_cases hinserts visibility method path with
    ⟨t, ht, hname, hsome, o, found, hasks⟩ | ⟨hnone, heq⟩
  · exact iff_of_false (hasks.ne_failure _) fun hboth => hsome (hboth.2 t ht hname)
  · rw [heq, Option.some.injEq, Value.failure.injEq, unrouted_eq_methodNotAllowed_iff,
      and_iff_left hnone]

end Answering

end Corresponds

theorem onePath_distinctKeys (url : String) : (onePath url).root.DistinctKeys := by
  simp [onePath, Json.distinctKeys_obj_iff, Json.distinctKeys_arr_iff, Json.DistinctKeys.str]

end OpenApiServer
