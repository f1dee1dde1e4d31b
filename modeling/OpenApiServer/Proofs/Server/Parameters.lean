import OpenApiServer.Http.Param
import OpenApiServer.Proofs.Build.Parameters
import OpenApiServer.Proofs.Server.Dispatch

/-!
# Path parameters and their texts

The path parameters of an operation are the placeholders of its template. A router gives a text for
each placeholder of the pattern that it finds, the ones before the template included; so where it
finds the route of an operation, no path parameter of the operation lacks its text.
-/

namespace OpenApiServer

open Http

namespace Build

theorem buildOperation_parameters {d : Document} {state state' : OperationState} {e : Endpoint}
    {o : Operation} {response : ResponseDecl} {r r' : Registry}
    (h : buildOperation d state e r = .ok ((o, response, state'), r')) :
    ∃ template, PathTemplate.parse o.path = .ok template ∧
      (pathNames o.parameters).Perm template.params ∧ ∀ p ∈ o.parameters, Whole p := by
  obtain ⟨run, rfl, rfl⟩ := operationRun_of_buildOperation h
  have hparams := PathTemplate.nodup_params_of_parse run.parse
  exact ⟨run.template, run.parse, bindParameters_perm hparams run.bindParameters⟩

end Build

theorem parameters_of_server {d : Document} {basePath : String} {m : ServerModel}
    (h : d.server basePath = .ok m) {o : Operation} (ho : o ∈ m.operations) :
    ∃ template, PathTemplate.parse o.path = .ok template ∧
      (Build.pathNames o.parameters).Perm template.params ∧ ∀ p ∈ o.parameters, Build.Whole p := by
  obtain ⟨b⟩ := built_of_server h
  exact b.forall_operations Build.buildOperation_parameters ho

namespace Http

theorem Router.accepted_subset {α : Type} (router : Router α) (calls : List (String × α)) :
    router.accepted calls ⊆ calls := by
  induction calls generalizing router with
  | nil => exact List.Subset.refl _
  | cons call rest ih =>
    obtain ⟨template, value⟩ := call
    rw [Router.accepted]
    split
    · exact List.cons_subset_cons _ (ih _)
    · exact List.subset_cons_of_subset _ (ih _)

/-- What a lookup finds was inserted, and its parameters are what its pattern captures. -/
theorem Router.params_of_at? {α : Type} {calls : List (String × α)} {path : String}
    {found : RouteMatch α} (h : (Router.ofRoutes calls).at? path = some found) :
    ∃ t ∈ calls, t.2 = found.value ∧ ∃ segments, Reads t.1 segments ∧
      AcceptsAll segments (segmentTexts path) ∧
      found.params = captures segments (segmentTexts path) := by
  rcases (ofRoutes_represents calls).at?_spec path with ⟨hnone, -⟩ | ⟨t, segments, hleads, hsome⟩
  · rw [hnone] at h
    cases h
  · obtain rfl := Option.some.inj (hsome.symm.trans h)
    have ht := Router.empty.accepted_subset calls hleads.mem
    exact ⟨t, ht, rfl, segments, hleads.reads, hleads.accepts, rfl⟩

/-- The captured parameters have a text of this name, so only its parser can refuse it. -/
def Param.Supplied (params : List (String × String)) (name : String) : Prop :=
  ∃ raw, (name, raw) ∈ params ∧ ∀ {β : Type} (parser : Param.Parser β),
    Param.ofPath parser params name = Param.parse parser name raw

theorem Param.supplied_of_mem {params : List (String × String)} {name : String}
    (h : name ∈ params.map (·.1)) : Param.Supplied params name := by
  cases hraw : fieldNamed? name params with
  | none => exact absurd h (fieldNamed?_eq_none_iff.1 hraw)
  | some raw => exact ⟨raw, mem_of_fieldNamed? hraw, fun parser => by simp only [ofPath, hraw]⟩

/-- A router that finds a pattern with this ending supplies the placeholders of the ending. -/
theorem Router.supplied {α : Type} {calls : List (String × α)} {path before template : String}
    {found : RouteMatch α} {segments : List Segment} (hslash : ∃ cs, template.toList = '/' :: cs)
    (hreads : Reads template segments) (h : (Router.ofRoutes calls).at? path = some found)
    (hvalue : ∀ t ∈ calls, t.2 = found.value → t.1 = before ++ template) {name : String}
    (hname : name ∈ Router.placeholderNames segments) : Param.Supplied found.params name := by
  obtain ⟨t, ht, heq, all, hall, haccepts, hparams⟩ := Router.params_of_at? h
  rw [hvalue t ht heq] at hall
  obtain ⟨first, own, rfl, -, hown⟩ := (reads_append_iff hslash).1 hall
  obtain rfl := hown.unique hreads
  refine Param.supplied_of_mem ?_
  rw [hparams, captures_map_fst haccepts, Router.placeholderNames, List.filterMap_append]
  exact List.mem_append_right _ hname

end Http

/-- A document with a path of two placeholders, of which one is declared. -/
def toys : Document :=
  ⟨.obj [("paths", .obj [("/pets/\x7bpet\x7d/toys/\x7btoy\x7d", .obj [("get", .obj [
    ("parameters", .arr [.obj [("name", .str "toy"), ("in", .str "path"),
      ("schema", .obj [("type", .str "integer")])]]),
    ("responses", .obj [("204", .obj [])])])])])]⟩

end OpenApiServer
