import OpenApiServer.Proofs.Code.Tables

/-!
# The dispatcher

What the code of a dispatcher answers, in terms of the routers of the tables: the first arm for the
method decides, within it the first arm for what its router gives, and where there is no arm or the
router gives nothing, the answer tells whether any router has the path.
-/

namespace OpenApiServer.Code

/-- The error for a path that no table has. -/
def notFound (path : String) : Value :=
  .record "support::RequestError::NotFound" [("path", .text path)]

/-- The error for a path that only tables of other methods have. -/
def methodNotAllowed (method path : String) : Value :=
  .record "support::RequestError::MethodNotAllowed" [("method", .text method), ("path", .text path)]

/-- The error for a path that the table of the method does not have. -/
def unrouted (tables : List RouteTable) (method path : String) : Value :=
  if tables.any fun t => (t.router.at? path).isSome then methodNotAllowed method path
  else notFound path

theorem unrouted_eq_notFound_iff {tables : List RouteTable} {method path : String} :
    unrouted tables method path = notFound path ↔ ∀ t ∈ tables, t.router.at? path = none := by
  unfold unrouted
  split
  next h =>
    simp only [List.any_eq_true, Option.isSome_iff_ne_none] at h
    obtain ⟨t, ht, hfound⟩ := h
    refine iff_of_false (by simp [methodNotAllowed, notFound]) fun hnone => hfound (hnone t ht)
  next h =>
    simp only [List.any_eq_true, Option.isSome_iff_ne_none, not_exists, not_and, not_not] at h
    exact iff_of_true rfl h

theorem unrouted_eq_methodNotAllowed_iff {tables : List RouteTable} {method path : String} :
    unrouted tables method path = methodNotAllowed method path ↔
      ∃ t ∈ tables, t.router.at? path ≠ none := by
  unfold unrouted
  split
  next h =>
    simp only [List.any_eq_true, Option.isSome_iff_ne_none] at h
    exact iff_of_true rfl h
  next h =>
    simp only [List.any_eq_true, Option.isSome_iff_ne_none] at h
    exact iff_of_false (by simp [methodNotAllowed, notFound]) h

/-- A scope that has the path and the routers of the tables. -/
structure Sees (s : Scope) (tables : List RouteTable) (path : String) : Prop where
  path_eq : s.vars.lookup "path" = some (.text path)
  router_eq : ∀ t ∈ tables, s.vars.lookup t.staticName = some (.router t.router)

section Scopes

variable {s : Scope} {tables : List RouteTable} {path : String} (h : Tabled tables)

include h

/-- Variables with other names than the statics hide none of them. -/
theorem sees_of_locals {locals statics : List (String × Value)}
    (hpath : locals.lookup "path" = some (.text path))
    (hlocals : ∀ name ∈ locals.map (·.1), name ∉ Method.all.map MethodRoutes.staticName)
    (hstatics : ∀ t ∈ tables, statics.lookup t.staticName = some (.router t.router))
    (functions : String → List Value → Option Value) :
    Sees ⟨locals ++ statics, functions⟩ tables path := by
  constructor
  · rw [List.lookup_append, hpath]
    rfl
  · intro t ht
    have hnone : locals.lookup t.staticName = none := by
      rw [List.lookup_eq_none_iff]
      intro v hv
      have hne := staticName_ne (hlocals v.1 (List.mem_map_of_mem hv)) t.method
      rw [h.staticName t ht, bne_iff_ne]
      exact hne
    rw [List.lookup_append, hnone]
    exact hstatics t ht

theorem eval_lookup (hs : Sees s tables path) {t : RouteTable} (ht : t ∈ tables) :
    eval s (lookup t) = some (.value (.found (t.router.at? path))) := by
  have hread : Word.read t.staticName = .name t.staticName := by
    rw [h.staticName t ht]
    exact read_staticName t.method
  have hne : t.staticName ≠ "false" := by
    rw [h.staticName t ht]
    exact staticName_ne (by decide) t.method
  simp [lookup, eval, evalAll, Scope.word?, hread, hne, hs.router_eq t ht, hs.path_eq,
    Outcome.value?, Value.method?]

theorem eval_isSome (hs : Sees s tables path) {t : RouteTable} (ht : t ∈ tables) :
    eval s (.method (lookup t) "is_some" []) =
      some (.value (.flag (t.router.at? path).isSome)) := by
  simp [eval, evalAll, eval_lookup h hs ht, Outcome.value?, Value.method?]

/-- The induction is on the lookups that are still to come after the expression `e`. -/
theorem eval_isRouted_from (hs : Sees s tables path) {rest : List RouteTable}
    (hrest : rest ⊆ tables) {e : Expr} {b : Bool} (he : eval s e = some (.value (.flag b))) :
    eval s (rest.foldl (fun e t => .binary e "||" (.method (lookup t) "is_some" [])) e) =
      some (.value (.flag (b || rest.any fun t => (t.router.at? path).isSome))) := by
  induction rest generalizing e b with
  | nil => simpa using he
  | cons t rest ih =>
    obtain ⟨ht, hrest⟩ := List.cons_subset.1 hrest
    rw [List.foldl_cons, List.any_cons, ← Bool.or_assoc]
    refine ih hrest ?_
    cases b with
    | false => simpa [eval, he, Outcome.value?] using eval_isSome h hs ht
    | true => simp [eval, he, Outcome.value?]

theorem eval_isRouted (hs : Sees s tables path) :
    eval s (isRouted tables) =
      some (.value (.flag (tables.any fun t => (t.router.at? path).isSome))) := by
  unfold isRouted
  cases tables with
  | nil => simp [eval, Scope.word?]
  | cons t rest =>
    exact eval_isRouted_from h hs (List.subset_cons_self ..) (eval_isSome h hs (by simp))

theorem unroutedFunction_eq {statics : List (String × Value)}
    (hstatics : ∀ t ∈ tables, statics.lookup t.staticName = some (.router t.router))
    (method : String) :
    functionsOf statics [unroutedFunction tables] "unrouted" [.text method, .text path] =
      some (unrouted tables method path) := by
  let locals := [("method", Value.text method), ("path", .text path)]
  have hlocals : ∀ name ∈ ["method", "path"],
      name ∉ Method.all.map MethodRoutes.staticName := by
    decide
  have hpath : locals.lookup "path" = some (.text path) := rfl
  have hrouted := eval_isRouted h (sees_of_locals h hpath hlocals hstatics fun _ _ => none)
  simp only [functionsOf, unroutedFunction, if_true, Option.bind_some]
  change (run ⟨locals ++ statics, _⟩ _).map Outcome.result = _
  rw [run, hrouted, unrouted]
  cases tables.any fun t => (t.router.at? path).isSome with
  | false =>
    simp [locals, Outcome.value?, Pattern.bind?, bindWord?, Scope.bind, Scope.word?, run, eval,
      evalFields, evalAll, Value.method?, List.lookup_cons, Outcome.result, notFound]
  | true =>
    simp [locals, Outcome.value?, Pattern.bind?, bindWord?, Scope.bind, Scope.word?, run, eval,
      evalFields, evalAll, Value.method?, List.lookup_cons, Outcome.result, methodNotAllowed]

end Scopes

/-! ## Arms -/

def Arm.pattern : Arm → Pattern
  | .mk pattern _ => pattern

def Arm.body : Arm → Expr
  | .mk _ body => body

/-- Arms that bind nothing: the first that matches decides. -/
theorem select_map {α : Type} (s : Scope) (v : Value) {xs : List α} {arm : α → Arm}
    {hits : α → Bool} (rest : List Arm)
    (h : ∀ x ∈ xs, (arm x).pattern.bind? v = if hits x then some [] else none) :
    select s v (xs.map arm ++ rest) =
      (xs.find? hits).elim (select s v rest) fun x => eval s (arm x).body := by
  induction xs with
  | nil => rfl
  | cons x xs ih =>
    obtain ⟨hx, hxs⟩ := List.forall_mem_cons.1 h
    rw [List.map_cons, List.cons_append]
    cases harm : arm x with
    | mk pattern body =>
      rw [harm, Arm.pattern] at hx
      rw [select, hx]
      cases hhit : hits x with
      | true => simp [hhit, harm, Arm.body, Scope.bind]
      | false => simpa [hhit] using ih hxs

/-- A scope in which the dispatcher answers. -/
structure Answers (s : Scope) (tables : List RouteTable) (method path : String) : Prop extends
    Sees s tables path where
  api_eq : s.vars.lookup "api" = some .api
  parts_eq : s.vars.lookup "parts" =
    some (.record "Parts" [("method", .text method), ("uri", .uri path)])
  unrouted_eq : s.functions "unrouted" [.text method, .text path] =
    some (unrouted tables method path)

section Answers

variable {s : Scope} {tables : List RouteTable} {method path : String}

theorem answers_of_locals (h : Tabled tables) {locals statics : List (String × Value)}
    (hpath : locals.lookup "path" = some (.text path)) (hapi : locals.lookup "api" = some .api)
    (hparts : locals.lookup "parts" =
      some (.record "Parts" [("method", .text method), ("uri", .uri path)]))
    (hlocals : ∀ name ∈ locals.map (·.1), name ∉ Method.all.map MethodRoutes.staticName)
    (hstatics : ∀ t ∈ tables, statics.lookup t.staticName = some (.router t.router)) :
    Answers ⟨locals ++ statics, functionsOf statics [unroutedFunction tables]⟩ tables method
      path where
  toSees := sees_of_locals h hpath hlocals hstatics _
  api_eq := by rw [List.lookup_append, hapi]; rfl
  parts_eq := by rw [List.lookup_append, hparts]; rfl
  unrouted_eq := unroutedFunction_eq h hstatics method

theorem eval_unroutedError (hs : Answers s tables method path) :
    eval s unroutedError = some (.value (.failure (unrouted tables method path))) := by
  have hcall : s.call? "unrouted" [.text method, .text path] =
      some (unrouted tables method path) := by
    simpa [Scope.call?] using hs.unrouted_eq
  have hargs : evalAll s [.reference (.field (.word "parts") "method"), .word "path"] =
      some [.text method, .text path] := by
    simp [evalAll, eval, Scope.word?, hs.parts_eq, hs.path_eq, Outcome.value?, Value.field?]
  have herror : eval s (.call (.word "unrouted")
      [.reference (.field (.word "parts") "method"), .word "path"]) =
      some (.value (unrouted tables method path)) := by
    rw [eval, hargs]
    simp [hcall]
  unfold unroutedError
  rw [eval, evalAll, evalAll, herror]
  simp [Outcome.value?, Scope.call?]

/-- The arguments of an operation as the dispatcher writes them. -/
def operationArgs (o : Operation) : List Expr :=
  o.parameters.map bindParameter ++ (o.body.map bindBody).toList

/-- The evaluation of a call of an operation ends where it asks the application. -/
theorem eval_operationCall (hs : Answers s tables method path) (o : Operation) :
    eval s (operationCall o) = some (.value (.asked o.name.text (operationArgs o) s.vars)) := by
  simp [operationCall, operationArgs, eval, Scope.word?, hs.api_eq, Outcome.value?, Value.method?,
    Value.attempt?]

variable (h : Tabled tables) (hs : Answers s tables method path) {t : RouteTable} (ht : t ∈ tables)
  (operations : List Operation)

include h hs ht

theorem eval_methodArm_none (hnone : t.router.at? path = none) :
    eval s (methodArm operations t).body =
      some (.left (.failure (unrouted tables method path))) := by
  have hlookup := eval_lookup h hs.toSees ht
  simp [methodArm, Arm.body, eval, run, hlookup, hnone, Outcome.value?, Pattern.bind?,
    eval_unroutedError hs]

omit hs in
/-- The variant of a route is its own. -/
theorem find?_variant {r : RouteDecl} (hr : r ∈ t.routes) :
    t.routes.find? (fun u => variantOf t.enumName u.variant == variantOf t.enumName r.variant) =
      some r := by
  refine find?_eq_some_of_unique hr (by simp) fun u hu hvariant => ?_
  have hsame : u.variant = r.variant := variantOf_inj (by simpa using hvariant)
  exact List.inj_on_of_nodup_map (h.variants t ht) hu hr hsame

/-- The router's answer picks the arm of the route that it belongs to. -/
theorem eval_methodArm_some {found : Http.RouteMatch String}
    (hfound : t.router.at? path = some found)
    (hs' : Answers (s.bind [("matched", .matched found)]) tables method path)
    {r : RouteDecl} (hr : r ∈ t.routes) (hvalue : found.value = variantOf t.enumName r.variant)
    {o : Operation} (ho : operationFor? operations t r = some o) :
    eval s (methodArm operations t).body = some (.value (.asked o.name.text (operationArgs o)
      (s.bind [("matched", .matched found)]).vars)) := by
  have hlookup := eval_lookup h hs.toSees ht
  have hsubject : eval (s.bind [("matched", .matched found)]) (.field (.word "matched") "value") =
      some (.value (.path found.value)) := by
    simp [eval, Scope.word?, Scope.bind, Outcome.value?, Value.field?]
  have harms : ∀ u ∈ t.routes, (routeArm operations t u).pattern.bind? (.path found.value) =
      if variantOf t.enumName u.variant == found.value then some [] else none := by
    intro u _
    have hread := read_variantOf t.method u.variant
    rw [← h.enumName t ht] at hread
    simp [routeArm, Arm.pattern, Pattern.bind?, bindWord?, hread]
  have hbody : (routeArm operations t r).body = operationCall o := by
    simp [routeArm, Arm.body, ho]
  have hselect := select_map (s.bind [("matched", .matched found)]) (.path found.value) [] harms
  rw [hvalue, find?_variant h ht hr, List.append_nil, Option.elim_some, hbody,
    eval_operationCall hs'] at hselect
  have hcases : eval (s.bind [("matched", .matched found)])
      (.cases (.field (.word "matched") "value") (t.routes.map (routeArm operations t))) =
      some (.value (.asked o.name.text (operationArgs o)
        (s.bind [("matched", .matched found)]).vars)) := by
    rw [eval, hsubject, Outcome.value?, Option.bind_some, hvalue, hselect]
  rw [methodArm, Arm.body, eval, run, hlookup, hfound]
  simpa [Outcome.value?, Pattern.bind?, bindWord?, run] using hcases

end Answers

/-! ## The function -/

/-- The answer asks the application for the operation, and its arguments see what was found. -/
def Asks (answer : Option Value) (o : Operation) (found : Http.RouteMatch String) : Prop :=
  ∃ vars, vars.lookup "matched" = some (.matched found) ∧
    answer = some (.asked o.name.text (operationArgs o) vars)

/-- An answer that asks the application is no failure. -/
theorem Asks.ne_failure {answer : Option Value} {o : Operation} {found : Http.RouteMatch String}
    (h : Asks answer o found) (error : Value) : answer ≠ some (.failure error) := by
  obtain ⟨vars, -, rfl⟩ := h
  simp

theorem functionsOf_append {items : List Item} (statics : List (String × Value))
    (h : ∀ i ∈ items, ∀ f, i ≠ .function f) (rest : List Item) :
    functionsOf statics (items ++ rest) = functionsOf statics rest := by
  induction items with
  | nil => rfl
  | cons i items ih =>
    obtain ⟨hi, hitems⟩ := List.forall_mem_cons.1 h
    rw [List.cons_append]
    cases i with
    | function f => exact absurd rfl (hi f)
    | _ => rw [functionsOf, ih hitems]; simp

theorem functionsOf_serverItems (m : ServerModel) (visibility : Visibility)
    (statics : List (String × Value)) :
    functionsOf statics (serverItems visibility m) = functionsOf statics
      [handleFunction visibility, dispatchFunction m, unroutedFunction m.routeTables] := by
  refine functionsOf_append statics ?_ _
  intro i hi f hf
  subst hf
  simp [routeTable, apiInterface, responseImpl] at hi

/-- The parts of a request. -/
def requestParts (method path : String) : Value :=
  .record "Parts" [("method", .text method), ("uri", .uri path)]

section Parts

variable {s : Scope} {method path : String}

theorem eval_intoParts (hs : s.vars.lookup "request" = some (.request method path)) :
    eval s (.method (.word "request") "into_parts" []) =
      some (.value (.pair (requestParts method path) .other)) := by
  have hrequest := eval_variable (by simp) (by decide) hs
  exact eval_method hrequest rfl (by simp [Value.method?, requestParts]) rfl

variable (hs : s.vars.lookup "parts" = some (requestParts method path))

include hs

theorem eval_part {name : String} {v : Value}
    (hv : (requestParts method path).field? name = some v) :
    eval s (.field (.word "parts") name) = some (.value v) :=
  eval_field (eval_variable (by simp) (by decide) hs) hv

theorem eval_uriPath :
    eval s (.method (.field (.word "parts") "uri") "path" []) = some (.value (.text path)) :=
  eval_method (eval_part (v := .uri path) hs rfl) rfl (by simp [Value.method?]) rfl

theorem eval_queryParams :
    eval s (.call (.word "support::QueryParams::parse")
      [.method (.field (.word "parts") "uri") "query" []]) = some (.value .other) := by
  have hquery : eval s (.method (.field (.word "parts") "uri") "query" []) =
      some (.value .other) :=
    eval_method (eval_part (v := .uri path) hs rfl) rfl (by simp [Value.method?]) rfl
  exact eval_call (evalAll_singleton hquery) (by simp [Scope.call?])

theorem eval_methodText :
    eval s (.method (.field (.word "parts") "method") "as_str" []) =
      some (.value (.text method)) :=
  eval_method (eval_part (v := .text method) hs rfl) rfl (by simp [Value.method?]) rfl

end Parts

/-- The variables of the dispatcher once it has taken the request apart. -/
def dispatchVars (method path : String) : List (String × Value) :=
  [("query", .other), ("path", .text path), ("parts", requestParts method path), ("body", .other),
    ("api", .api), ("request", .request method path)]

theorem run_dispatch (m : ServerModel) (statics : List (String × Value)) (method path : String) :
    functionsOf statics [dispatchFunction m, unroutedFunction m.routeTables] "dispatch"
        [.api, .request method path] =
      (select ⟨dispatchVars method path ++ statics,
          functionsOf statics [unroutedFunction m.routeTables]⟩ (.text method)
        (m.routeTables.map (methodArm m.operations) ++ [.mk (.word "_") unroutedError])).map
        Outcome.result := by
  have hparts : Pattern.bind? (.tuple "" [.word "parts", .word "body"])
      (.pair (requestParts method path) .other) =
        some [("parts", requestParts method path), ("body", .other)] := by
    simp [Pattern.bind?, bindWord?]
  have hpath : Pattern.bind? (.word "path") (.text path) = some [("path", .text path)] := by
    simp [Pattern.bind?, bindWord?]
  have hquery : Pattern.bind? (.word "query") .other = some [("query", .other)] := by
    simp [Pattern.bind?, bindWord?]
  simp only [functionsOf, dispatchFunction, if_true, Option.bind_some]
  rw [run_bind (eval_intoParts rfl) rfl hparts, run_bind (eval_uriPath rfl) rfl hpath,
    run_bind (eval_queryParams rfl) rfl hquery, run, eval, eval_methodText rfl]
  rfl

/-- The dispatcher takes the arm of the method, in a scope in which the arms can answer. -/
theorem dispatched_eq {m : ServerModel} (h : Tabled m.routeTables) (visibility : Visibility)
    (method path : String) :
    ∃ s, Answers s m.routeTables method path ∧
      (∀ found, Answers (s.bind [("matched", .matched found)]) m.routeTables method path) ∧
      dispatched (serverItems visibility m) method path =
        ((m.routeTables.find? (·.method.name == method)).elim (eval s unroutedError) fun t =>
          eval s (methodArm m.operations t).body).map Outcome.result := by
  let statics := m.routeTables.map fun t => (t.staticName, Value.router t.router)
  let s : Scope :=
    ⟨dispatchVars method path ++ statics, functionsOf statics [unroutedFunction m.routeTables]⟩
  have hstatics : ∀ t ∈ m.routeTables, statics.lookup t.staticName = some (.router t.router) :=
    fun t ht => lookup_static h ht
  have hlocals : ∀ name ∈ ["matched", "query", "path", "parts", "body", "api", "request"],
      name ∉ Method.all.map MethodRoutes.staticName := by
    decide
  have harms : ∀ t ∈ m.routeTables, (methodArm m.operations t).pattern.bind? (.text method) =
      if t.method.name == method then some [] else none := by
    intro t _
    simp [methodArm, Arm.pattern, Pattern.bind?, bindWord?, read_literal]
  have hselect := select_map s (.text method) [.mk (.word "_") unroutedError] harms
  have hother : select s (.text method) [.mk (.word "_") unroutedError] = eval s unroutedError := by
    simp [select, Pattern.bind?, bindWord?, Scope.bind]
  refine ⟨s, ?_, fun found => ?_, ?_⟩
  · refine answers_of_locals h rfl rfl rfl (fun name hname => hlocals name ?_) hstatics
    exact List.mem_cons_of_mem _ hname
  · let locals := ("matched", Value.matched found) :: dispatchVars method path
    have hpath : locals.lookup "path" = some (.text path) := rfl
    exact answers_of_locals h hpath rfl rfl hlocals hstatics
  · rw [dispatched, functionsOf_serverItems, staticsOf_serverItems h]
    rw [hother] at hselect
    exact (run_dispatch m statics method path).trans (congrArg (Option.map Outcome.result) hselect)

theorem dispatched_unrouted {m : ServerModel} (h : Tabled m.routeTables) (visibility : Visibility)
    {method path : String}
    (hnone : ∀ t ∈ m.routeTables, t.method.name = method → t.router.at? path = none) :
    dispatched (serverItems visibility m) method path =
      some (.failure (unrouted m.routeTables method path)) := by
  obtain ⟨s, hs, -, heq⟩ := dispatched_eq h visibility method path
  rw [heq]
  cases hfind : m.routeTables.find? (·.method.name == method) with
  | none => simp [eval_unroutedError hs, Outcome.result]
  | some t =>
    have ht := List.mem_of_find?_eq_some hfind
    have hmethod : t.method.name = method := by simpa using List.find?_some hfind
    simp [eval_methodArm_none h hs ht m.operations (hnone t ht hmethod), Outcome.result]

theorem dispatched_asks {m : ServerModel} (h : Tabled m.routeTables) (visibility : Visibility)
    {path : String} {t : RouteTable} (ht : t ∈ m.routeTables)
    {found : Http.RouteMatch String} (hfound : t.router.at? path = some found)
    {r : RouteDecl} (hr : r ∈ t.routes) (hvalue : found.value = variantOf t.enumName r.variant)
    {o : Operation} (ho : operationFor? m.operations t r = some o) :
    Asks (dispatched (serverItems visibility m) t.method.name path) o found := by
  obtain ⟨s, hs, hs', heq⟩ := dispatched_eq h visibility t.method.name path
  have hfind : m.routeTables.find? (·.method.name == t.method.name) = some t := by
    refine find?_eq_some_of_unique ht (by simp) fun u hu hname => ?_
    have hsame : u.method = t.method := Method.name_inj (by simpa using hname)
    exact List.inj_on_of_nodup_map h.methods hu ht hsame
  have harm := eval_methodArm_some h hs ht m.operations hfound (hs' found) hr hvalue ho
  refine ⟨(s.bind [("matched", .matched found)]).vars, by simp [Scope.bind], ?_⟩
  rw [heq, hfind, Option.elim_some, harm]
  rfl

end OpenApiServer.Code
