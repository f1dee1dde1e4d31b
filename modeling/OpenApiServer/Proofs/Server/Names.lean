import OpenApiServer.Proofs.Build.DistinctFields
import OpenApiServer.Proofs.Build.Operations
import OpenApiServer.Proofs.Build.Parameters
import OpenApiServer.Proofs.Name.Stability
import OpenApiServer.Proofs.Server.Parameters
import OpenApiServer.Proofs.Server.SharedFields

/-!
# Names of a server

What a server prints beside each other can be told apart: the operations, the arguments of an
operation, the fields of a record and the variants of a table. Field names are made of texts once
more after they have been chosen, and it is only because proper names stay as they are that this
does not undo the choice.

## Names of operations and of their arguments

Operations are named one after another, and so are the arguments of an operation: each gets a proper
name that is free, and the name is used from then on. The body of an operation is named last.
-/

namespace OpenApiServer

/-- The names of the arguments: of the parameters and of the body. -/
def Operation.argumentNames (o : Operation) : List FieldName :=
  o.parameters.map (·.name) ++ o.body.toList.map (·.name)

namespace Build

open FieldName (Chosen)

variable {d : Document} {r r' : Registry}

theorem freshArgument_spec {raw : String} {used used' : List String} {name : FieldName}
    (h : freshArgument raw used = (name, used')) :
    name.Proper ∧ name.bare ∉ used ∧ used' = name.bare :: used := by
  have hraw := FieldName.proper_ofText raw
  rw [freshArgument, hraw.ofText_unique] at h
  obtain ⟨rfl, rfl⟩ := Prod.mk.inj h
  exact ⟨hraw.unique used, Name.unique_not_mem _ used, rfl⟩

theorem DeclaredRun.chosen {operation : String} {e : Endpoint} {template : PathTemplate}
    {used used' : List String} {ps : List DeclaredParameter} {bound : List Parameter}
    (h : DeclaredRun d operation e template used ps r bound used' r') :
    Chosen used (bound.map (·.name)) used' := by
  induction h with
  | nil => exact .nil _
  | skip _ _ ih => exact ih
  | cons _ run _ ih =>
    obtain ⟨hproper, hfree, hused⟩ := freshArgument_spec run.freshArgument
    exact .cons hproper hfree (hused ▸ ih)

theorem bindUndeclared_chosen {e : Endpoint} {used placeholders : List String}
    {bound : List Parameter} (h : bindUndeclared e used placeholders r = .ok (bound, r')) :
    ∃ last, Chosen used (bound.map (·.name)) last := by
  induction placeholders generalizing used bound r with
  | nil =>
    obtain ⟨rfl, -⟩ := pure_eq_ok.1 h
    exact ⟨used, .nil used⟩
  | cons placeholder rest ih =>
    obtain ⟨_, s, -, h⟩ := bind_eq_ok.1 h
    generalize hname : freshArgument placeholder used = fresh at h
    obtain ⟨name, used'⟩ := fresh
    obtain ⟨hproper, hfree, rfl⟩ := freshArgument_spec hname
    obtain ⟨later, s', hlater, h⟩ := bind_eq_ok.1 h
    obtain ⟨rfl, rfl⟩ := pure_eq_ok.1 h
    obtain ⟨last, hchosen⟩ := ih hlater
    exact ⟨last, .cons hproper hfree hchosen⟩

theorem bindParameters_chosen {operation : String} {e : Endpoint} {template : PathTemplate}
    {bound : List Parameter} (h : bindParameters d operation e template r = .ok (bound, r')) :
    ∃ last, Chosen [] (bound.map (·.name)) last := by
  obtain ⟨ps, -, h⟩ := lift_bind_eq_ok.1 h
  obtain ⟨⟨declared, used⟩, s, hdeclared, h⟩ := bind_eq_ok.1 h
  obtain ⟨rest, s', hrest, h⟩ := bind_eq_ok.1 h
  obtain ⟨rfl, -⟩ := pure_eq_ok.1 h
  obtain ⟨last, hchosen⟩ := bindUndeclared_chosen hrest
  rw [List.map_append]
  exact ⟨last, (declaredRun_of_bindDeclared hdeclared).chosen.append hchosen⟩

/-- The body is named apart from the parameters. -/
theorem bindBody_name {operation : String} {e : Endpoint} {parameters : List Parameter}
    {body : Option RequestBody} (h : bindBody d operation e parameters r = .ok (body, r')) :
    ∀ b ∈ body, b.name.Proper ∧ b.name.bare ∉ parameters.map (·.name.bare) := by
  rw [bindBody] at h
  cases hdeclared : e.node.get? "requestBody" with
  | none =>
    rw [hdeclared] at h
    obtain ⟨rfl, -⟩ := pure_eq_ok.1 h
    simp
  | some declared =>
    rw [hdeclared] at h
    obtain ⟨node, -, h⟩ := lift_bind_eq_ok.1 h
    generalize contentOf? node = content at h
    cases content with
    | none =>
      obtain ⟨_, s, -, h⟩ := bind_eq_ok.1 h
      obtain ⟨rfl, -⟩ := pure_eq_ok.1 h
      simp
    | some content =>
      generalize hname : freshArgument "body" (parameters.map (·.name.bare)) = fresh at h
      obtain ⟨name, used⟩ := fresh
      obtain ⟨hproper, hfree, -⟩ := freshArgument_spec hname
      obtain ⟨kind, s, -, h⟩ := bind_eq_ok.1 h
      obtain ⟨rfl, -⟩ := pure_eq_ok.1 h
      rintro b hb
      obtain rfl := Option.mem_some_iff.1 hb
      exact ⟨hproper, hfree⟩

/-- What an operation chooses: its own name, apart from the names of the operations before it, and
the names of its arguments. -/
theorem buildOperation_chosen {state state' : OperationState} {e : Endpoint} {o : Operation}
    {response : ResponseDecl} (h : buildOperation d state e r = .ok ((o, response, state'), r')) :
    Chosen state.usedNames [o.name] state'.usedNames ∧
      (∀ n ∈ o.argumentNames, n.Proper) ∧ o.argumentNames.Nodup := by
  obtain ⟨run, rfl, rfl⟩ := operationRun_of_buildOperation h
  have hraw := FieldName.proper_ofText e.operationId
  obtain ⟨last, hchosen⟩ := bindParameters_chosen run.bindParameters
  have hnames := bindBody_name run.bindBody
  refine ⟨?_, ?_, ?_⟩
  · rw [OperationRun.operation, OperationRun.next, run.name_eq, hraw.ofText_unique]
    exact .cons (hraw.unique _) (Name.unique_not_mem _ _) (.nil _)
  · refine List.forall_mem_append.2 ⟨hchosen.proper, List.forall_mem_map.2 fun b hb => ?_⟩
    exact (hnames b (Option.mem_toList.1 hb)).1
  · refine List.nodup_append.2 ⟨hchosen.nodup, ?_, ?_⟩
    · cases run.operation.body <;> simp
    · rintro n hn n' hn' rfl
      obtain ⟨b, hb, rfl⟩ := List.mem_map.1 hn'
      obtain ⟨p, hp, hname⟩ := List.mem_map.1 hn
      refine (hnames b (Option.mem_toList.1 hb)).2 ?_
      exact List.mem_map.2 ⟨p, hp, congrArg FieldName.bare hname⟩

theorem OperationsRun.chosen {state : OperationState} {es : List Endpoint}
    {built : List (Operation × ResponseDecl)} {tables : RouteTables}
    (h : OperationsRun d state es r built tables r') :
    ∃ last, Chosen state.usedNames (built.map (·.1.name)) last := by
  induction h with
  | nil => exact ⟨_, .nil _⟩
  | cons first _ ih =>
    obtain ⟨used, hchosen⟩ := ih
    exact ⟨used, (buildOperation_chosen first).1.append hchosen⟩

end Build

end OpenApiServer

/-! ## The names of a server -/

namespace OpenApiServer

variable {root : Json} {d : Document} {basePath : String} {m : ServerModel}

/-- Boxes change neither names nor keys. -/
theorem DistinctFields.boxed {decl : RecordDecl} (h : DistinctFields decl.fields)
    (edges : Boxing.Edges) : DistinctFields (Boxing.boxedFields edges decl) := by
  refine ⟨⟨List.forall_mem_map.2 fun f hf => ?_, ?_⟩, ?_⟩
  · rw [Boxing.name_boxField]
    exact h.proper f hf
  · simpa [Boxing.boxedFields, Function.comp_def, Boxing.jsonName_boxField] using h.keys
  · simpa [Boxing.boxedFields, Function.comp_def, Boxing.name_boxField] using h.names

namespace Built

variable (b : Built d basePath m)

include b

theorem nodup_operationNames : (m.operations.map (·.name.text)).Nodup := by
  obtain ⟨last, hchosen⟩ := b.operationsRun.chosen
  have htexts := hchosen.nodup_texts
  rw [b.model]
  simpa [Build.finish, Function.comp_def] using htexts

theorem nodup_argumentNames {o : Operation} (ho : o ∈ m.operations) :
    (o.argumentNames.map (·.text)).Nodup := by
  obtain ⟨hproper, hnodup⟩ := b.forall_operations
    (p := fun o => (∀ n ∈ o.argumentNames, n.Proper) ∧ o.argumentNames.Nodup)
    (fun hrun => (Build.buildOperation_chosen hrun).2) ho
  exact FieldName.nodup_texts hproper hnodup

/-- The fields of a record have the names and keys of those that are kept for it. -/
theorem distinctFields (hdoc : Document.ofJson root = .ok d) (hroot : d.root.DistinctKeys)
    {decl : RecordDecl} (hdecl : .record decl ∈ m.types) : DistinctFields decl.fields := by
  obtain ⟨hrecorded, hholds⟩ := ((Build.distinct_laws hroot).invariant hdoc hroot).drained b
  have hbox := b.mem_box hdecl fun _ heq => by cases heq
  obtain ⟨t, ht, hboxed⟩ := exists_of_mem_forall₂ (Boxing.boxed_box _ _) hbox
  cases hboxed with
  | record kept => exact (hholds.fieldsOf? (hrecorded.records kept ht)).boxed _

end Built

/-- A document in which names fall together: of operations, of arguments and of the fields of a
record that merges another one. -/
def crowded : Json :=
  let text : Json := .obj [("type", .str "string")]
  let base : Json := .obj [("properties", .obj [("a-b", text), ("a b", text)])]
  let merged : Json := .obj [("allOf", .arr [.obj [("$ref", .str "#/components/schemas/Base")],
    .obj [("properties", .obj [("a_b2", text), ("a/b", text), ("type", text)])]])]
  let query (name : String) : Json := .obj [("name", .str name), ("in", .str "query")]
  let body : Json := .obj [("content", .obj [("text/plain", .obj [])])]
  let responses : Json := .obj [("204", .obj [])]
  .obj [
    ("paths", .obj [
      ("/pets", .obj [
        ("get", .obj [("operationId", .str "type"), ("responses", responses),
          ("parameters", .arr [query "body", query "Body", query "body2"]),
          ("requestBody", body)]),
        ("post", .obj [("operationId", .str "Type"), ("responses", responses)])]),
      ("/Pets/", .obj [("get", .obj [("operationId", .str "type2"), ("responses", responses)])])]),
    ("components", .obj [("schemas", .obj [("Base", base), ("Merged", merged)])])]

end OpenApiServer
