import OpenApiServer.Proofs.Http.Template
import OpenApiServer.Proofs.Server.Parameters

/-!
# Path parameters and their places

A placeholder stands once in the template of an operation, so its place in a request is the one in
the template, behind the segments of the base path. But the pattern of a route is the base path and
the template together, and the placeholders of the base path are compared with nothing. A lookup by
name gives the text of the first placeholder: where the base path has one of the same name, this is
another segment of the request than the parameter's own.
-/

/-!
## Captures by name

A lookup of captured texts by name gives what the first placeholder of the name takes. In a pattern
that is put together, the placeholders of the first part hide those of the same name behind them.
-/

namespace OpenApiServer.Http

variable {name : String} {segments : List Segment}

@[simp] theorem captures_fixed (text : String) (segments : List Segment) (cs : List Char)
    (path : List (List Char)) :
    captures (.fixed text :: segments) (cs :: path) = captures segments path := rfl

@[simp] theorem captures_placeholder (name : String) (segments : List Segment) (cs : List Char)
    (path : List (List Char)) :
    captures (.placeholder name :: segments) (cs :: path) =
      (name, percentDecode cs) :: captures segments path := rfl

/-- The text of a name is what its first placeholder takes. -/
theorem fieldNamed?_captures {path : List (List Char)} (h : AcceptsAll segments path)
    (name : String) :
    fieldNamed? name (captures segments path) =
      (segments.idxOf? (.placeholder name)).bind fun i => path[i]?.map percentDecode := by
  induction h with
  | nil => rfl
  | @cons s cs segments path _ _ ih =>
    have hlater : ((segments.idxOf? (.placeholder name)).map (· + 1)).bind
        (fun i => (cs :: path)[i]?.map percentDecode) =
          fieldNamed? name (captures segments path) := by
      rw [ih]
      cases segments.idxOf? (.placeholder name) <;> simp
    cases s with
    | fixed text => simp [List.idxOf?_cons, hlater]
    | placeholder other =>
      by_cases hname : other = name
      · subst hname
        simp [List.idxOf?_cons, fieldNamed?]
      · simp [List.idxOf?_cons, fieldNamed?, hname, hlater]

theorem mem_placeholderNames : name ∈ Router.placeholderNames segments ↔
    Segment.placeholder name ∈ segments := by
  unfold Router.placeholderNames
  rw [List.mem_filterMap]
  constructor
  · rintro ⟨s, hs, heq⟩
    cases s with
    | fixed text => cases heq
    | placeholder other =>
      obtain rfl := Option.some.inj heq
      exact hs
  · intro h
    exact ⟨_, h, rfl⟩

/-- Where no name repeats, the first placeholder of a name is the only one. -/
theorem idxOf?_placeholder_eq_some_iff (hnodup : (Router.placeholderNames segments).Nodup)
    {i : Nat} : segments.idxOf? (.placeholder name) = some i ↔
      segments[i]? = some (.placeholder name) := by
  induction segments generalizing i with
  | nil => simp
  | cons s rest ih =>
    rw [List.idxOf?_cons]
    cases s with
    | fixed text =>
      have hrest : (Router.placeholderNames rest).Nodup := by
        simpa [Router.placeholderNames] using hnodup
      cases i with
      | zero => simp
      | succ i => simpa using ih hrest
    | placeholder other =>
      have hnodup' : (other :: Router.placeholderNames rest).Nodup := by
        simpa [Router.placeholderNames] using hnodup
      obtain ⟨hother, hlater⟩ := List.nodup_cons.1 hnodup'
      by_cases hname : other = name
      · subst hname
        cases i with
        | zero => simp
        | succ i =>
          have habsent : Segment.placeholder other ∉ rest := fun hmem =>
            hother (mem_placeholderNames.2 hmem)
          have hnone : rest[i]? ≠ some (.placeholder other) := fun hsome =>
            habsent (List.mem_of_getElem? hsome)
          simp [hnone]
      · cases i with
        | zero => simp [hname]
        | succ i => simpa [hname] using ih hlater

theorem idxOf?_append (s t : List Segment) (a : Segment) :
    (s ++ t).idxOf? a = (s.idxOf? a).or ((t.idxOf? a).map (· + s.length)) :=
  List.findIdx?_append

/-- The text of a name, where the pattern is a prefix and a template in which the name stands at
place `i`: what that place takes, unless the prefix has the name as well and takes another text. -/
theorem fieldNamed?_captures_append {base own : List Segment} {path : List (List Char)} {i : Nat}
    (h : AcceptsAll (base ++ own) path) (hown : own.idxOf? (.placeholder name) = some i) :
    ∃ cs, path[base.length + i]? = some cs ∧
      (fieldNamed? name (captures (base ++ own) path) = some (percentDecode cs) ↔
        ∀ k, base.idxOf? (.placeholder name) = some k →
          path[k]?.map percentDecode = some (percentDecode cs)) := by
  have hbound : base.length + i < path.length := by
    obtain ⟨hi, -⟩ := List.idxOf?_eq_some_iff.1 hown
    rw [← h.length_eq, List.length_append]
    omega
  refine ⟨path[base.length + i], List.getElem?_eq_getElem hbound, ?_⟩
  rw [fieldNamed?_captures h, idxOf?_append, hown]
  cases base.idxOf? (.placeholder name) with
  | none => simp [Nat.add_comm i, List.getElem?_eq_getElem hbound]
  | some k => simp

end OpenApiServer.Http

/-! ## Placeholders of parameters -/

namespace OpenApiServer

open Http

variable {d : Document} {basePath : String} {m : ServerModel}

/-- What a table finds for an operation is captured by the base path and the template together. -/
theorem Corresponds.captures_of_found (h : Corresponds basePath m) {o : Operation}
    (ho : o ∈ m.operations) {own : List Segment} (hslash : ∃ cs, o.path.toList = '/' :: cs)
    (hown : Reads o.path own) {t : RouteTable} (ht : t ∈ m.routeTables)
    (hmethod : t.method = o.method) {path : String} {found : RouteMatch String}
    (hat : t.router.at? path = some found)
    (hfound : found.value = Code.variantOf t.enumName o.pathVariant) :
    ∃ base, Reads basePath base ∧ AcceptsAll (base ++ own) (segmentTexts path) ∧
      found.params = captures (base ++ own) (segmentTexts path) := by
  obtain ⟨entry, hentry, hvalue, segments, hreads, haccepts, hparams⟩ := Router.params_of_at? hat
  rw [h.pattern_of_entry ho ht hmethod.symm hentry (hvalue.trans hfound)] at hreads
  obtain ⟨base, own', rfl, hbase, hown'⟩ := (reads_append_iff hslash).1 hreads
  obtain rfl := hown'.unique hown
  exact ⟨base, hbase, haccepts, hparams⟩

/-- A document with one operation on a path with a placeholder, under one server. -/
def onePet (url : String) : Document :=
  ⟨.obj [("servers", .arr [.obj [("url", .str url)]]),
    ("paths", .obj [("/pets/\x7bid\x7d", .obj [("get", .obj [
      ("responses", .obj [("204", .obj [])])])])])]⟩

theorem onePet_distinctKeys (url : String) : (onePet url).root.DistinctKeys := by
  simp [onePet, Json.distinctKeys_obj_iff, Json.distinctKeys_arr_iff, Json.DistinctKeys.str]

/-- The parameter of its operation. -/
def petId : Parameter :=
  ⟨⟨"id"⟩, "id", .path, true, .primitive .string, .single, ⟨[]⟩⟩

def getPet : Operation :=
  ⟨⟨"get_pets_id"⟩, "GetPetsId", .get, "/pets/\x7bid\x7d", ⟨[]⟩, [petId], none,
    ⟨"GetPetsIdResponse"⟩, ⟨"GetPath"⟩, ⟨"PetsId"⟩⟩

/-- Its table, behind a base path. -/
def petTable (basePath : String) : RouteTable :=
  ⟨.get, ⟨"GetPath"⟩, "GET_ROUTES", [⟨⟨"PetsId"⟩, basePath ++ "/pets/\x7bid\x7d"⟩]⟩

theorem getPet_reads : Reads getPet.path [.fixed "pets", .placeholder "id"] :=
  parseTemplate_eq_ok_iff.1 (by decide)

theorem onePet_model {url basePath : String}
    (h : ((onePet url).server basePath).toOption.map (fun m => (m.operations, m.routeTables)) =
      some ([getPet], [petTable basePath])) :
    ∃ m, (onePet url).server basePath = .ok m ∧ getPet ∈ m.operations ∧
      petTable basePath ∈ m.routeTables := by
  obtain ⟨m, hm, heq⟩ := Option.map_eq_some_iff.1 h
  obtain ⟨hoperations, htables⟩ := Prod.mk.inj heq
  exact ⟨m, toOption_eq_some_iff.1 hm, hoperations ▸ List.mem_singleton_self _,
    htables ▸ List.mem_singleton_self _⟩

end OpenApiServer
