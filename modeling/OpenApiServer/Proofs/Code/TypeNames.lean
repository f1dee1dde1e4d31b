import OpenApiServer.Code.Server
import OpenApiServer.Proofs.Declaration.Mentioned

/-!
# Names of types in the generated code

The names that the items of a file declare for types, and the paths that are written where a type is
expected. An interface is among the former: it is found by the same lookup as a type.
-/

/-!
## The interface of the server

What the file of the server declares for the application: an interface `Api` with one function for
each operation, in the order of the operations.
-/

namespace OpenApiServer.Code

def ImplItem.function? : ImplItem → Option FunctionItem
  | .function f => some f
  | .type _ _ => none

/-- The functions of the interfaces with a name. -/
def interfaceFunctions (name : String) (items : List Item) : List FunctionItem :=
  items.flatMap fun
    | .interface _ _ name' _ members =>
      if name' = name then members.filterMap ImplItem.function? else []
    | _ => []

theorem interfaceFunctions_append (name : String) (items rest : List Item) :
    interfaceFunctions name (items ++ rest) =
      interfaceFunctions name items ++ interfaceFunctions name rest :=
  List.flatMap_append

/-- Tables, renderings of responses and functions declare no interface. -/
theorem interfaceFunctions_eq_nil {name : String} {items : List Item}
    (h : ∀ item ∈ items, ∀ attributes visibility name' bounds members,
      item ≠ .interface attributes visibility name' bounds members) :
    interfaceFunctions name items = [] := by
  rw [interfaceFunctions, List.flatMap_eq_nil_iff]
  intro item hitem
  cases item with
  | interface => exact absurd rfl (h _ hitem _ _ _ _ _)
  | _ => rfl

theorem interfaceFunctions_serverItems (visibility : Visibility) (m : ServerModel) :
    interfaceFunctions "Api" (serverItems visibility m) =
      m.operations.filterMap fun o => (operationMethod o).function? := by
  have htables : interfaceFunctions "Api" (m.routeTables.flatMap (routeTable visibility)) = [] := by
    refine interfaceFunctions_eq_nil fun item hitem _ _ _ _ _ hinterface => ?_
    subst hinterface
    simp [routeTable] at hitem
  have hresponses : interfaceFunctions "Api" ((responsesOf m.types).map responseImpl) = [] := by
    refine interfaceFunctions_eq_nil fun item hitem _ _ _ _ _ hinterface => ?_
    subst hinterface
    simp [responseImpl] at hitem
  simp only [serverItems, interfaceFunctions_append, htables, hresponses]
  simp only [interfaceFunctions, List.flatMap_cons, List.flatMap_nil, apiInterface, if_true,
    List.filterMap_map, handleFunction, dispatchFunction, unroutedFunction, List.append_nil,
    List.nil_append]
  rfl

/-- The functions of the interface are named as the operations, in their order. -/
theorem names_interfaceFunctions (visibility : Visibility) (m : ServerModel) :
    (interfaceFunctions "Api" (serverItems visibility m)).map (·.name) =
      m.operations.map (·.name.text) := by
  rw [interfaceFunctions_serverItems, List.map_filterMap, ← List.filterMap_eq_map]
  rfl

end OpenApiServer.Code

/-! ## Declared and written names -/

namespace OpenApiServer.Code

mutual

/-- The paths that occur in a type. -/
def CodeType.paths : CodeType → List String
  | .path name args => name :: pathsOfAll args
  | .binding _ value => value.paths
  | .reference _ target => target.paths
  | .some bounds => pathsOfAll bounds

def pathsOfAll : List CodeType → List String
  | [] => []
  | type :: rest => type.paths ++ pathsOfAll rest

end

/-- The paths in the types of parameters and of the result. -/
def FunctionItem.paths (f : FunctionItem) : List String :=
  pathsOfAll (f.params.filterMap (·.type)) ++ pathsOfAll f.result.toList

/-- The name that an item declares for a type or an interface. -/
def Item.typeName? : Item → Option String
  | .typeAlias _ _ name _ | .struct _ _ name _ | .enum _ _ name _ | .interface _ _ name _ _ =>
    some name
  | _ => none

def declaredTypes (items : List Item) : List String := items.filterMap Item.typeName?

/-! ## Paths of types -/

/-- The paths by which a type is built up, other than those of declared types. -/
def builtinPaths : List String :=
  ["Vec", "Option", "Box", "oas3_scaffold_support::Bytes", "i8", "i16", "i32", "i64", "u8", "u16",
    "u32", "u64", "f64", "bool", "String", "Bytes"]

theorem mem_paths_code {t : TypeExpr} {path : String} (h : path ∈ t.code.paths) :
    (∃ name ∈ t.names, name.text = path) ∨ path ∈ builtinPaths := by
  induction t with
  | primitive p =>
    refine .inr ?_
    cases p <;> simp_all [TypeExpr.code, CodeType.paths, pathsOfAll, builtinPaths, Primitive.text]
  | named name =>
    refine .inl ⟨name, List.mem_singleton_self _, ?_⟩
    simpa [TypeExpr.code, CodeType.paths, pathsOfAll, eq_comm] using h
  | list inner ih | option inner ih | box inner ih =>
    simp only [TypeExpr.code, CodeType.paths, pathsOfAll, List.append_nil, List.mem_cons] at h
    rcases h with rfl | h
    · exact .inr (by simp [builtinPaths])
    · exact ih h

theorem text_mem_paths_code {t : TypeExpr} {name : TypeName} (h : name ∈ t.names) :
    name.text ∈ t.code.paths := by
  induction t with
  | primitive => cases h
  | named name' =>
    obtain rfl := List.mem_singleton.1 h
    simp [TypeExpr.code, CodeType.paths]
  | list inner ih | option inner ih | box inner ih =>
    simp only [TypeExpr.code, CodeType.paths, pathsOfAll, List.append_nil]
    exact List.mem_cons_of_mem _ (ih h)

theorem pathsOfAll_eq (types : List CodeType) : pathsOfAll types = types.flatMap (·.paths) := by
  induction types with
  | nil => rfl
  | cons type rest ih => rw [pathsOfAll, ih, List.flatMap_cons]

/-! ## The signatures of the interface -/

/-- The paths in the signatures of an interface. -/
def signaturePaths (interface : String) (items : List Item) : List String :=
  (interfaceFunctions interface items).flatMap (·.paths)

/-- The paths in a signature other than those of declared types. -/
def framePaths : List String :=
  ["support::RawBody", "std::future::Future", "anyhow::Result", "Send"] ++ builtinPaths

@[simp] theorem names_argumentType (p : Parameter) : p.argumentType.names = p.type.names := by
  rw [Parameter.argumentType]
  cases p.style <;> cases p.required <;> simp [TypeExpr.names]

/-- The paths in the type of a body. -/
def bodyPaths (body : Option RequestBody) : List String :=
  pathsOfAll ((body.map bodyParam).toList.filterMap (·.type))

theorem paths_operationMethod {o : Operation} {f : FunctionItem}
    (h : (operationMethod o).function? = some f) :
    f.paths = o.parameters.flatMap (·.argumentType.code.paths) ++ bodyPaths o.body ++
      ["std::future::Future", "anyhow::Result", o.response.text, "Send"] := by
  obtain rfl := Option.some.inj h
  simp only [FunctionItem.paths, pathsOfAll_eq, bodyPaths, selfReceiver, List.cons_append,
    List.filterMap_cons_none, List.filterMap_append, List.filterMap_map, List.flatMap_append]
  simp [CodeType.paths, pathsOfAll, List.flatMap_map]

theorem mem_bodyPaths {body : Option RequestBody} {path : String} (h : path ∈ bodyPaths body) :
    (∃ name ∈ bodyMentioned body, name.text = path) ∨ path ∈ framePaths := by
  cases body with
  | none => cases h
  | some b =>
    obtain ⟨bodyName, kind⟩ := b
    cases kind with
    | raw =>
      refine .inr ?_
      simp_all [bodyPaths, bodyParam, RequestBody.argumentType?, pathsOfAll, CodeType.paths,
        framePaths]
    | json type required =>
      have hnames : (if required then type else type.optional).names = type.names := by
        split <;> simp
      have hpath : path ∈ (if required then type else type.optional).code.paths := by
        simpa [bodyPaths, bodyParam, RequestBody.argumentType?, pathsOfAll] using h
      rcases mem_paths_code hpath with ⟨name, hname, htext⟩ | hbuiltin
      · rw [hnames] at hname
        exact .inl ⟨name, hname, htext⟩
      · exact .inr (List.mem_append_right _ hbuiltin)

theorem text_mem_bodyPaths {body : Option RequestBody} {name : TypeName}
    (h : name ∈ bodyMentioned body) : name.text ∈ bodyPaths body := by
  cases body with
  | none => cases h
  | some b =>
    obtain ⟨bodyName, kind⟩ := b
    cases kind with
    | raw => cases h
    | json type required =>
      have hname : name ∈ (if required then type else type.optional).names := by
        split
        · exact h
        · rwa [TypeExpr.names_optional]
      simpa [bodyPaths, bodyParam, RequestBody.argumentType?, pathsOfAll] using
        text_mem_paths_code hname

/-- A signature is built of what the operation mentions and of paths that are always the same. -/
theorem mem_signature {o : Operation} {f : FunctionItem} {path : String}
    (hf : (operationMethod o).function? = some f) (h : path ∈ f.paths) :
    (∃ name ∈ o.mentioned, name.text = path) ∨ path ∈ framePaths := by
  rw [paths_operationMethod hf, List.mem_append, List.mem_append] at h
  rcases h with (hparameter | hbody) | hresult
  · obtain ⟨p, hp, hpath⟩ := List.mem_flatMap.1 hparameter
    rcases mem_paths_code hpath with ⟨name, hname, htext⟩ | hbuiltin
    · rw [names_argumentType] at hname
      have hmem : name ∈ parametersMentioned o.parameters := List.mem_flatMap.2 ⟨p, hp, hname⟩
      exact .inl ⟨name, List.mem_cons_of_mem _ (List.mem_append_left _ hmem), htext⟩
    · exact .inr (List.mem_append_right _ hbuiltin)
  · refine (mem_bodyPaths hbody).imp_left fun ⟨name, hname, htext⟩ => ?_
    exact ⟨name, List.mem_cons_of_mem _ (List.mem_append_right _ hname), htext⟩
  · by_cases hresponse : o.response.text = path
    · exact .inl ⟨o.response, List.mem_cons_self .., hresponse⟩
    · refine .inr (List.mem_append_left _ ?_)
      simp only [List.mem_cons, List.not_mem_nil, or_false] at hresult ⊢
      rcases hresult with h | h | h | h
      · exact .inr (.inl h)
      · exact .inr (.inr (.inl h))
      · exact absurd h.symm hresponse
      · exact .inr (.inr (.inr h))

theorem text_mem_signature {o : Operation} {f : FunctionItem} {name : TypeName}
    (hf : (operationMethod o).function? = some f) (h : name ∈ o.mentioned) :
    name.text ∈ f.paths := by
  rw [paths_operationMethod hf, List.mem_append, List.mem_append]
  rcases List.mem_cons.1 h with rfl | h
  · exact .inr (by simp)
  rcases List.mem_append.1 h with hparameter | hbody
  · obtain ⟨p, hp, hname⟩ := List.mem_flatMap.1 hparameter
    refine .inl (.inl (List.mem_flatMap.2 ⟨p, hp, text_mem_paths_code ?_⟩))
    rwa [names_argumentType]
  · exact .inl (.inr (text_mem_bodyPaths hbody))

/-! ## The names that the two files declare -/

theorem declaredTypes_append (items later : List Item) :
    declaredTypes (items ++ later) = declaredTypes items ++ declaredTypes later :=
  List.filterMap_append

/-- Implementations, values and functions declare no type. -/
theorem declaredTypes_eq_nil {items : List Item} (h : ∀ item ∈ items, item.typeName? = none) :
    declaredTypes items = [] :=
  List.filterMap_eq_nil_iff.2 h

theorem declaredTypes_declaration (visibility : Visibility) (t : Declaration) :
    declaredTypes (declaration visibility t) = [t.name.text] := by
  cases t with
  | union u =>
    have hmethods : declaredTypes (if (u.sharedFields.flatMap (accessors visibility u)).isEmpty then
        [] else [Item.impl none (.path u.name.text [])
          (u.sharedFields.flatMap (accessors visibility u))]) = [] := by
      split <;> rfl
    have hpayloads : declaredTypes
        (u.convertible.map fun v => payloadImpl u.name v.payload v.name) = [] :=
      declaredTypes_eq_nil (List.forall_mem_map.2 fun _ _ => rfl)
    rw [declaration, union, declaredTypes_append, declaredTypes_append, hmethods, hpayloads]
    rfl
  | response r =>
    have hpayloads : declaredTypes
        (r.shortcuts.map fun s => payloadImpl r.name s.1 s.2.name) = [] :=
      declaredTypes_eq_nil (List.forall_mem_map.2 fun _ _ => rfl)
    rw [declaration, response, declaredTypes_append]
    exact congrArg (_ :: ·) hpayloads
  | _ => rfl

theorem mem_declaredTypes_typeItems {visibility : Visibility} {m : ServerModel} {name : String} :
    name ∈ declaredTypes (typeItems visibility m) ↔ ∃ t ∈ m.types, t.name.text = name := by
  have hdeclarations (types : List Declaration) :
      declaredTypes (types.flatMap (declaration visibility)) = types.map (·.name.text) := by
    induction types with
    | nil => rfl
    | cons t rest ih =>
      rw [List.flatMap_cons, declaredTypes_append, declaredTypes_declaration, ih]
      rfl
  have henums : declaredTypes (m.enumConversions.map enumConversion) = [] :=
    declaredTypes_eq_nil (List.forall_mem_map.2 fun _ _ => rfl)
  have hconversions : declaredTypes (m.conversions.map (conversion visibility)) = [] := by
    refine declaredTypes_eq_nil (List.forall_mem_map.2 fun c _ => ?_)
    rw [conversion]
    dsimp only
    split <;> rfl
  rw [typeItems, declaredTypes_append, declaredTypes_append, declaredTypes_append, henums,
    hconversions, hdeclarations, hdeclarations, List.append_nil, List.append_nil, ← List.map_append]
  simp only [List.mem_map, List.mem_append, List.mem_filter]
  constructor
  · rintro ⟨t, ht | ht, rfl⟩
    · exact ⟨t, ht.1, rfl⟩
    · exact ⟨t, ht.1, rfl⟩
  · rintro ⟨t, ht, rfl⟩
    cases hresponse : t.isResponse
    · exact ⟨t, .inl ⟨ht, by simp [hresponse]⟩, rfl⟩
    · exact ⟨t, .inr ⟨ht, hresponse⟩, rfl⟩

theorem declaredTypes_serverItems (visibility : Visibility) (m : ServerModel) :
    declaredTypes (serverItems visibility m) =
      m.routeTables.map (·.enumName.text) ++ ["Api"] := by
  have htables (tables : List RouteTable) :
      declaredTypes (tables.flatMap (routeTable visibility)) = tables.map (·.enumName.text) := by
    induction tables with
    | nil => rfl
    | cons t rest ih =>
      rw [List.flatMap_cons, declaredTypes_append, ih]
      rfl
  have hresponses : declaredTypes ((responsesOf m.types).map responseImpl) = [] :=
    declaredTypes_eq_nil (List.forall_mem_map.2 fun _ _ => rfl)
  have hinterface : declaredTypes [apiInterface visibility m.operations] = ["Api"] := rfl
  have huses : declaredTypes [.useNames .inherited "oas3_scaffold_support"
      ["self as support", "IntoHttpResponse"], .useAll "super::types"] = [] := rfl
  have hfunctions : declaredTypes
      [handleFunction visibility, dispatchFunction m, unroutedFunction m.routeTables] = [] := rfl
  rw [serverItems, declaredTypes_append, declaredTypes_append, declaredTypes_append,
    declaredTypes_append, huses, htables, hinterface, hresponses, hfunctions, List.nil_append,
    List.append_nil, List.append_nil]

end OpenApiServer.Code
