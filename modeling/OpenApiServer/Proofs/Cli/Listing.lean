import OpenApiServer.Cli.Task
import OpenApiServer.Proofs.Build.Operations
import OpenApiServer.Proofs.Code.TypeNames
import OpenApiServer.Proofs.Data.Except

/-!
# The list of operations and the generated interface

Listing names the operations of a document by themselves, and a build names them while it routes
and binds them. Both hand out the same names, and a document for which a package can be generated
can be listed.
-/

namespace OpenApiServer

open Build

/-- The names do not depend on what a build does between them. -/
theorem Build.OperationsRun.rows_eq {d : Document} {state : OperationState} {es : List Endpoint}
    {r r' : Registry} {built : List (Operation × ResponseDecl)} {tables : RouteTables}
    (h : OperationsRun d state es r built tables r') :
    Cli.OperationRow.ofEndpoints state.usedNames es =
      built.map fun b => ⟨b.1.name, b.1.method, b.1.path⟩ := by
  induction h with
  | nil => rfl
  | cons first _ ih =>
    obtain ⟨run, rfl, rfl⟩ := operationRun_of_buildOperation first
    rw [Cli.OperationRow.ofEndpoints, List.map_cons, ← ih]
    simp only [OperationRun.operation, OperationRun.next, run.name_eq]

theorem Built.rows_eq {d : Document} {basePath : String} {m : ServerModel}
    (b : Built d basePath m) :
    Cli.OperationRow.ofDocument d = m.operations.map fun o => ⟨o.name, o.method, o.path⟩ := by
  have h : Cli.OperationRow.ofEndpoints [] d.endpoints = _ := b.operationsRun.rows_eq
  rw [Cli.OperationRow.ofDocument, h, b.operations_eq, List.map_map]
  rfl

namespace Cli

/-- The code with which a step ends the run. -/
def Step.endsRun? : Step → Option Nat
  | .stop code => some code
  | _ => none

/-- Whether no step ends the run. -/
def Completes (steps : List Step) : Prop := ∀ s ∈ steps, s.endsRun? = none

instance (steps : List Step) : Decidable (Completes steps) :=
  inferInstanceAs (Decidable (∀ s ∈ steps, s.endsRun? = none))

theorem completes_append {steps later : List Step} :
    Completes (steps ++ later) ↔ Completes steps ∧ Completes later := by
  exact List.forall_mem_append

/-- A report ends the run. -/
theorem completes_attempt {α : Type} {result : Except ErrorReport α} {next : α → List Step} :
    Completes (attempt result next) ↔ ∃ a, result = .ok a ∧ Completes (next a) := by
  cases result with
  | ok a => simp [attempt]
  | error report => simp [attempt, Completes, ErrorReport.steps, Step.endsRun?]

theorem server_of_generate {d : Document} {o : Scaffold.Options} {result : Scaffold.Result}
    (h : Scaffold.generate d o = .ok result) : d.server (o.basePathFor d) = .ok result.model := by
  obtain ⟨m, hserver, hresult⟩ := bind_eq_ok_iff.1 h
  obtain rfl := Except.ok.inj hresult
  exact hserver

/-- What a generation that completes has got through. -/
theorem GenerateRequest.server_of_completes {r : GenerateRequest} {c : Colors}
    {text : Except FileFault String} (h : Completes (r.steps c text)) :
    ∃ d basePath m, loadDocument r.input text = .ok d ∧ d.server basePath = .ok m := by
  obtain ⟨visibility, -, h⟩ := completes_attempt.1 h
  obtain ⟨d, hload, h⟩ := completes_attempt.1 (completes_append.1 h).2
  obtain ⟨result, hgenerate, -⟩ := completes_attempt.1 (completes_append.1 h).2
  exact ⟨d, _, _, hload, server_of_generate (mapError_eq_ok_iff.1 hgenerate)⟩

/-- Operations whose names are a keyword, are made of method and path, or meet each other. -/
def shop : Json :=
  let operation (id : List (String × Json)) : Json :=
    .obj (id ++ [("responses", .obj [("204", .obj [])])])
  .obj [("paths", .obj [
    ("/type", .obj [("get", operation [("operationId", .str "type")])]),
    ("/pets", .obj [("get", operation []), ("put", operation [("operationId", .str "get_pets")]),
      ("post", operation [("operationId", .str "getPets")])])])]

def stallText : String :=
  "paths:\n  /pets:\n    get:\n      responses:\n        default:\n          description: done\n"

def stallRequest : GenerateRequest := ⟨"stall.yaml", "out", "public", none, none, false, true⟩

end Cli
end OpenApiServer
