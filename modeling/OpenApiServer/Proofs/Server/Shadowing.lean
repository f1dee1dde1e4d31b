import OpenApiServer.Proofs.Build.ArgumentTypes
import OpenApiServer.Proofs.Code.TypeNames
import OpenApiServer.Proofs.Server.Declarations

/-!
# Types that the file of the server hides

The file of the server uses all declared types without naming them, so a name that it declares
itself hides the type of that name from the signatures of its interface. It declares the interface
and an enumeration of paths for each method. No declaration of a response is hidden, and no inline
schema of a body: the hidden types are named schemas, and inline schemas of parameters that are
named as the enumerations of paths are.
-/

namespace OpenApiServer

open Code

namespace ServerModel

/-- Whether a signature of the interface mentions a declared type that the file of the server
hides. -/
def Hidden (m : ServerModel) (visibility : Visibility) (name : String) : Prop :=
  name ∈ signaturePaths "Api" (serverItems visibility m) ∧
    name ∈ declaredTypes (typeItems visibility m) ∧
    name ∈ declaredTypes (serverItems visibility m)

/-- The names that the file of the server declares. -/
def itemNames (m : ServerModel) : List TypeName := ⟨"Api"⟩ :: m.routeTables.map (·.enumName)

end ServerModel

/-- The names that a file of a server can declare. -/
def itemTexts : List String := "Api" :: Method.all.map fun method =>
  (MethodRoutes.enumName method).text

theorem framePaths_disjoint : ∀ path ∈ framePaths, path ∉ itemTexts := by decide +kernel

/-- Words that no name ends in which the file of the server declares. -/
theorem not_suffix_itemTexts : ∀ word ∈ ["Item", "Body", "Response"], ∀ text ∈ itemTexts,
    ¬word.toList <:+ text.toList := by decide +kernel

theorem Name.lastWord_body : LastWord "Body".toList where
  filled := by decide
  noMinus := by decide
  ascii := List.all_iff_forall_prop.1 (by decide)
  pascal := by decide
  free := by decide

variable {root : Json} {d : Document} {basePath : String} {m : ServerModel}

namespace ServerModel

theorem mem_itemNames_iff {visibility : Visibility} {name : String} :
    ⟨name⟩ ∈ m.itemNames ↔ name ∈ declaredTypes (serverItems visibility m) := by
  have htable (t : RouteTable) : t.enumName = ⟨name⟩ ↔ t.enumName.text = name :=
    ⟨fun h => congrArg TypeName.text h, fun h => congrArg TypeName.mk h⟩
  rw [declaredTypes_serverItems, itemNames]
  simp only [List.mem_cons, List.mem_append, List.mem_map, List.not_mem_nil, or_false, htable,
    TypeName.mk.injEq]
  exact or_comm

theorem text_mem_itemTexts (hserver : d.server basePath = .ok m) {name : TypeName}
    (h : name ∈ m.itemNames) : name.text ∈ itemTexts := by
  obtain ⟨-, tables, -, htables⟩ := routed_of_server hserver
  rw [itemNames, htables, List.map_map] at h
  have hmethods (method : Method) : method ∈ Method.all := by cases method <;> decide
  rcases List.mem_cons.1 h with h | h
  · rw [h]
    exact List.mem_cons_self ..
  · obtain ⟨routes, -, hname⟩ := List.mem_map.1 h
    simp only [Function.comp_apply, MethodRoutes.table] at hname
    rw [← hname]
    exact List.mem_cons_of_mem _
      (List.mem_map_of_mem (f := fun method => (MethodRoutes.enumName method).text)
        (hmethods routes.method))

end ServerModel

/-- What an operation mentions by its arguments. -/
def Operation.argumentsMentioned (o : Operation) : List TypeName :=
  parametersMentioned o.parameters ++ bodyMentioned o.body

/-- A name that the file of the server declares and an argument mentions is that of a named schema,
or it has been made for a parameter. -/
theorem Built.argument_sourced (b : Built d basePath m) (hdoc : Document.ofJson root = .ok d)
    {o : Operation} (ho : o ∈ m.operations) {name : TypeName} (hname : name.text ∈ itemTexts)
    (h : name ∈ o.argumentsMentioned) :
    name ∈ d.schemaTypes ∨ ∃ p ∈ o.parameters, name ∈ p.type.names ∧
      name = Build.suggestedFor o.name.bare p.wireName := by
  obtain ⟨hparameters, hbody, -⟩ := b.forall_operations (Build.sourced_buildOperation hdoc) ho
  have hitem : ¬"Item".toList <:+ name.text.toList :=
    not_suffix_itemTexts "Item" (by simp) _ hname
  rcases List.mem_append.1 h with h | h
  · obtain ⟨p, hp, hmem⟩ := List.mem_flatMap.1 h
    rcases hparameters p hp name hmem with hschema | hsuggested | hends
    · exact .inl hschema
    · exact .inr ⟨p, hp, hmem, hsuggested⟩
    · exact absurd hends hitem
  · rcases hbody name h with hschema | hsuggested | hends
    · exact .inl hschema
    · have hends : "Body".toList <:+ name.text.toList := by
        rw [hsuggested]
        exact TypeName.suffix_ofFragments Name.lastWord_body (by simp)
      exact absurd hends (not_suffix_itemTexts "Body" (by simp) _ hname)
    · exact absurd hends hitem

instance (m : ServerModel) (visibility : Visibility) (name : String) :
    Decidable (m.Hidden visibility name) :=
  inferInstanceAs (Decidable (_ ∧ _ ∧ _))

/-- An operation that is given a value of a named schema. -/
def givenNamed (schema : String) : Json :=
  let content : Json := .obj [("application/json",
    .obj [("schema", .obj [("$ref", .str ("#/components/schemas/" ++ schema))])])]
  .obj [("paths", .obj [("/things", .obj [("post", .obj [
      ("parameters", .arr [.obj [("name", .str "order"), ("in", .str "query"),
        ("schema", .obj [("enum", .arr [.str "asc", .str "desc"])])]]),
      ("requestBody", .obj [("content", content)]),
      ("responses", .obj [("204", .obj [])])])])]),
    ("components", .obj [("schemas", .obj [(schema, .obj [("properties", .obj [])])])])]

end OpenApiServer
