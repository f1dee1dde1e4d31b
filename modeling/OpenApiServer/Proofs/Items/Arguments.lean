import OpenApiServer.Items.Server
import OpenApiServer.Proofs.Http.Arguments
import OpenApiServer.Proofs.Http.Lookup
import OpenApiServer.Proofs.Json.Shape

/-!
# The arguments of a request to the item service

`Binds` says which call the arguments of a request make, and `Refuses` why there is none. A limit or
an identifier is refused only for its text. A body is refused as every body is: each value of its
shape is an item.

## The routes of the item service

`Routes` says which operation the method and the segments of a path lead to. The items have one
path, and each item has a path below it.
-/

namespace OpenApiServer.Items
open Http

/-- The operation that a request leads to. -/
inductive Target where
  | listItems
  | createItem
  | getItem (segment : String)
  deriving DecidableEq, Repr

def collection : List (List Char) := ["v1".toList, "items".toList]

/-- The operation that the method and the path of a request lead to. -/
inductive Routes (request : Request) : Target → Prop where
  | listItems (method : request.method = "GET")
    (path : segmentTexts request.uri.path = collection) : Routes request .listItems
  | createItem (method : request.method = "POST")
    (path : segmentTexts request.uri.path = collection) : Routes request .createItem
  | getItem {segment : List Char} (method : request.method = "GET")
    (path : segmentTexts request.uri.path = collection ++ [segment]) :
    Routes request (.getItem (percentDecode segment))

theorem reads_collection {segments : List Segment} :
    Reads "/v1/items" segments ↔ segments = [.fixed "v1", .fixed "items"] := by
  have h : Reads "/v1/items" [.fixed "v1", .fixed "items"] :=
    parseTemplate_eq_ok_iff.1 (by decide)
  exact ⟨fun h' => h'.unique h, fun h' => h' ▸ h⟩

theorem reads_item {segments : List Segment} :
    Reads "/v1/items/\x7bid\x7d" segments ↔
      segments = [.fixed "v1", .fixed "items", .placeholder "id"] := by
  have h : Reads "/v1/items/\x7bid\x7d" [.fixed "v1", .fixed "items", .placeholder "id"] :=
    parseTemplate_eq_ok_iff.1 (by decide)
  exact ⟨fun h' => h'.unique h, fun h' => h' ▸ h⟩

theorem acceptsAll_collection {path : List (List Char)} :
    AcceptsAll [.fixed "v1", .fixed "items"] path ↔ path = collection := by
  simp [AcceptsAll, List.forall₂_cons_left_iff, Segment.Accepts, collection]

theorem acceptsAll_item {path : List (List Char)} :
    AcceptsAll [.fixed "v1", .fixed "items", .placeholder "id"] path ↔
      ∃ segment, path = collection ++ [segment] := by
  simp [AcceptsAll, List.forall₂_cons_left_iff, Segment.Accepts, collection]

theorem getRoutes_represents :
    Represents getRoutes [("/v1/items", .items), ("/v1/items/\x7bid\x7d", .itemsId)] := by
  have hall : Router.empty.accepted
      [("/v1/items", GetPath.items), ("/v1/items/\x7bid\x7d", GetPath.itemsId)] =
        [("/v1/items", .items), ("/v1/items/\x7bid\x7d", .itemsId)] := by decide
  have h := ofRoutes_represents
    [("/v1/items", GetPath.items), ("/v1/items/\x7bid\x7d", GetPath.itemsId)]
  rwa [hall] at h

theorem postRoutes_represents : Represents postRoutes [("/v1/items", .items)] := by
  have hall : Router.empty.accepted [("/v1/items", PostPath.items)] = [("/v1/items", .items)] := by
    decide
  have h := ofRoutes_represents [("/v1/items", PostPath.items)]
  rwa [hall] at h

/-- The answers of the table for GET. -/
theorem at?_getRoutes (path : String) :
    (getRoutes.at? path = none ∧ segmentTexts path ≠ collection ∧
      ∀ segment, segmentTexts path ≠ collection ++ [segment]) ∨
    (getRoutes.at? path = some ⟨.items, []⟩ ∧ segmentTexts path = collection) ∨
    ∃ segment, getRoutes.at? path = some ⟨.itemsId, [("id", percentDecode segment)]⟩ ∧
      segmentTexts path = collection ++ [segment] := by
  rcases getRoutes_represents.at?_spec path with ⟨hnone, hrejected⟩ | ⟨t, segments, hleads, hsome⟩
  · refine .inl ⟨hnone, fun hpath => ?_, fun segment hpath => ?_⟩
    · exact hrejected ("/v1/items", .items) (by simp) _ (reads_collection.2 rfl)
        (acceptsAll_collection.2 hpath)
    · exact hrejected ("/v1/items/\x7bid\x7d", .itemsId) (by simp) _ (reads_item.2 rfl)
        (acceptsAll_item.2 ⟨segment, hpath⟩)
  · right
    rcases List.mem_cons.1 hleads.mem with rfl | hmem
    · obtain rfl := reads_collection.1 hleads.reads
      have hpath := acceptsAll_collection.1 hleads.accepts
      rw [hpath] at hsome
      exact .inl ⟨hsome, hpath⟩
    · obtain rfl := List.mem_singleton.1 hmem
      obtain rfl := reads_item.1 hleads.reads
      obtain ⟨segment, hpath⟩ := acceptsAll_item.1 hleads.accepts
      rw [hpath] at hsome
      exact .inr ⟨segment, hsome, hpath⟩

/-- The answers of the table for POST. -/
theorem at?_postRoutes (path : String) :
    (postRoutes.at? path = none ∧ segmentTexts path ≠ collection) ∨
    (postRoutes.at? path = some ⟨.items, []⟩ ∧ segmentTexts path = collection) := by
  rcases postRoutes_represents.at?_spec path with ⟨hnone, hrejected⟩ | ⟨t, segments, hleads, hsome⟩
  · refine .inl ⟨hnone, fun hpath => ?_⟩
    exact hrejected ("/v1/items", .items) (by simp) _ (reads_collection.2 rfl)
      (acceptsAll_collection.2 hpath)
  · obtain rfl := List.mem_singleton.1 hleads.mem
    obtain rfl := reads_collection.1 hleads.reads
    have hpath := acceptsAll_collection.1 hleads.accepts
    rw [hpath] at hsome
    exact .inr ⟨hsome, hpath⟩

theorem collection_ne_append (segment : List Char) : collection ≠ collection ++ [segment] :=
  fun h => by simpa using congrArg List.length h

/-- The table of the method has a route for the path. -/
def Routed (request : Request) : Prop :=
  (request.method = "GET" ∧ (getRoutes.at? request.uri.path).isSome) ∨
    (request.method = "POST" ∧ (postRoutes.at? request.uri.path).isSome)

theorem isSome_getRoutes (path : String) :
    (getRoutes.at? path).isSome ↔
      segmentTexts path = collection ∨ ∃ segment, segmentTexts path = collection ++ [segment] := by
  rcases at?_getRoutes path with ⟨hat, hne, hne'⟩ | ⟨hat, hpath⟩ | ⟨segment, hat, hpath⟩
  · simp [hat, hne, hne']
  · simp [hat, hpath]
  · simp [hat, hpath]

theorem isSome_postRoutes (path : String) :
    (postRoutes.at? path).isSome ↔ segmentTexts path = collection := by
  rcases at?_postRoutes path with ⟨hat, hne⟩ | ⟨hat, hpath⟩
  · simp [hat, hne]
  · simp [hat, hpath]

theorem routed_iff {request : Request} : Routed request ↔ ∃ target, Routes request target := by
  unfold Routed
  rw [isSome_getRoutes, isSome_postRoutes]
  constructor
  · rintro (⟨method, path | ⟨segment, path⟩⟩ | ⟨method, path⟩)
    · exact ⟨_, .listItems method path⟩
    · exact ⟨_, .getItem method path⟩
    · exact ⟨_, .createItem method path⟩
  · rintro ⟨target, h⟩
    cases h with
    | listItems method path => exact .inl ⟨method, .inl path⟩
    | createItem method path => exact .inr ⟨method, path⟩
    | getItem method path => exact .inl ⟨method, .inr ⟨_, path⟩⟩

end OpenApiServer.Items

/-! ## What arguments stand for -/

namespace OpenApiServer.Items
open Http

/-! ### Items as they are read -/

namespace NewItem

/-- The text starts with the JSON form of the item. -/
def Decodes (text : List Char) (item : NewItem) : Prop :=
  ∃ j, shape.decode text = .ok j ∧ ofJson? j = some item

/-- Every value of the shape is an item. -/
theorem exists_ofJson? {text : List Char} {j : Json} (h : shape.decode text = .ok j) :
    ∃ item, ofJson? j = some item := by
  obtain ⟨⟨v, rest⟩, hread, h⟩ := bind_eq_ok_iff.1 h
  obtain rfl := Except.ok.inj h
  obtain ⟨found, hrecord, hfound, hcomplete⟩ := Json.Shape.read_record hread
  obtain ⟨name, hname⟩ := hcomplete ("name", .text) (by simp) rfl
  obtain ⟨shape, depth, cs, rest, hmem, hread⟩ := hfound _ (mem_of_fieldNamed? hname)
  obtain rfl : shape = .text := by simpa using hmem
  obtain ⟨s, rfl⟩ := Json.Shape.str_of_read_text hread
  have hstring : v.string "name" = some s := by
    simp [hrecord, Json.string, Json.get?, Json.Shape.arrange, hname, fieldNamed?, Json.asString?]
  exact ⟨⟨s, tagsOf v⟩, by simp [ofJson?, hstring]⟩

end NewItem

/-! ### Arguments -/

/-- The tags that a query asks for: all its values, in order. -/
def wantedTags (query : Query) : Option (List String) :=
  if query.contains "tag" then some (query.all "tag") else none

/-- The limit that a query sets: none, or the integer of its first value. -/
inductive Limits (query : Query) : Option Nat → Prop where
  | absent (first : query.first? "limit" = none) : Limits query none
  | given {raw : String} {n : Int} (first : query.first? "limit" = some raw)
    (fits : Fits .u32 raw.toList n) : Limits query (some n.toNat)

/-- The call that the arguments of a request make. -/
inductive Binds (request : Request) : Target → Call → Prop where
  | listItems {limit : Option Nat} (limits : Limits (Query.parse request.uri.query) limit) :
    Binds request .listItems (.listItems limit (wantedTags (Query.parse request.uri.query)))
  | createItem {chunks : List (List UInt8)} {text : List Char} {item : NewItem}
    (read : request.body = chunks.map .data) (decoded : Utf8.decode chunks.flatten = .ok text)
    (decodes : NewItem.Decodes text item) : Binds request .createItem (.createItem item)
  | getItem {segment : String} {id : Int} (fits : Fits .i32 segment.toList id) :
    Binds request (.getItem segment) (.getItem id)

/-- Why the arguments of a request make no call. -/
inductive Refuses (request : Request) : Target → RequestError → Prop where
  | limit {raw reason : String} (first : (Query.parse request.uri.query).first? "limit" = some raw)
    (unfit : ∀ n, ¬ Fits .u32 raw.toList n) :
    Refuses request .listItems (.invalidParameter "limit" reason)
  | id {segment reason : String} (unfit : ∀ n, ¬ Fits .i32 segment.toList n) :
    Refuses request (.getItem segment) (.invalidParameter "id" reason)
  | body {e : RequestError} (refused : Body.Refused NewItem.shape request.body e) :
    Refuses request .createItem e

theorem integerParam_eq_ok_iff {range : Json.IntegerRange} (hlow : range.low ≤ 0)
    (hhigh : 0 ≤ range.high) {raw : String} {n : Int} :
    integerParam range raw = .ok n ↔ Fits range raw.toList n :=
  mapError_eq_ok_iff.trans (Scalar.parseInteger_eq_ok_iff hlow hhigh)

theorem unfit_of_error {range : Json.IntegerRange} (hlow : range.low ≤ 0) (hhigh : 0 ≤ range.high)
    {raw reason : String} (h : integerParam range raw = .error reason) (n : Int) :
    ¬ Fits range raw.toList n := by
  intro hn
  rw [(integerParam_eq_ok_iff hlow hhigh).2 hn] at h
  cases h

/-- The call of an operation, or why there is none. -/
def arguments (request : Request) : Target → Except RequestError Call
  | .listItems => do
    let limit ← Param.optional (integerParam .u32) (Query.parse request.uri.query) "limit"
    return .listItems (limit.map Int.toNat) (wantedTags (Query.parse request.uri.query))
  | .createItem => do
    let j ← request.body.json NewItem.shape
    match NewItem.ofJson? j with
    | some item => return .createItem item
    | none => .error (.invalidInput "." "not an item")
  | .getItem segment => .getItem <$> Param.parse (integerParam .i32) "id" segment

theorem callOf_of_routes {request : Request} {target : Target} (h : Routes request target) :
    callOf request = arguments request target := by
  cases h with
  | listItems method path =>
    rcases at?_getRoutes request.uri.path with ⟨-, hne, -⟩ | ⟨hat, -⟩ | ⟨segment, -, hpath⟩
    · exact absurd path hne
    · simp only [callOf, method, hat, Param.optionalValues_text]
      rfl
    · exact absurd (path.symm.trans hpath) (collection_ne_append segment)
  | createItem method path =>
    rcases at?_postRoutes request.uri.path with ⟨-, hne⟩ | ⟨hat, -⟩
    · exact absurd path hne
    · simp only [callOf, method, hat]
      rfl
  | @getItem segment method path =>
    rcases at?_getRoutes request.uri.path with ⟨-, -, hne⟩ | ⟨-, hpath⟩ | ⟨segment', hat, hpath⟩
    · exact absurd path (hne segment)
    · exact absurd (hpath.symm.trans path) (collection_ne_append segment)
    · obtain rfl : segment = segment' := by simpa using path.symm.trans hpath
      simp only [callOf, method, hat]
      rfl

theorem callOf_of_unrouted {request : Request} (h : ¬ Routed request) :
    callOf request = .error (unrouted request.method request.uri.path) := by
  unfold callOf
  dsimp only
  split
  next hmethod =>
    cases hat : getRoutes.at? request.uri.path with
    | none => rfl
    | some found => exact absurd (.inl ⟨hmethod, by simp [hat]⟩) h
  next hmethod =>
    cases hat : postRoutes.at? request.uri.path with
    | none => rfl
    | some found => exact absurd (.inr ⟨hmethod, by simp [hat]⟩) h
  next => rfl

theorem limits_iff {query : Query} {limit : Option Nat} :
    Limits query limit ↔ ∃ value, Param.optional (integerParam .u32) query "limit" = .ok value ∧
      value.map Int.toNat = limit := by
  have hfits {raw : String} {n : Int} : integerParam .u32 raw = .ok n ↔ Fits .u32 raw.toList n :=
    integerParam_eq_ok_iff (by decide) (by decide)
  simp only [Param.optional_eq_ok_iff, hfits]
  constructor
  · intro h
    cases h with
    | absent first => exact ⟨none, .inl ⟨first, rfl⟩, rfl⟩
    | @given raw n first fits => exact ⟨some n, .inr ⟨raw, n, first, fits, rfl⟩, rfl⟩
  · rintro ⟨value, ⟨first, rfl⟩ | ⟨raw, n, first, fits, rfl⟩, rfl⟩
    · exact .absent first
    · exact .given first fits

theorem arguments_eq_ok_iff {request : Request} {target : Target} {call : Call} :
    arguments request target = .ok call ↔ Binds request target call := by
  cases target with
  | listItems =>
    rw [arguments, bind_eq_ok_iff]
    constructor
    · rintro ⟨value, hvalue, h⟩
      obtain rfl := Except.ok.inj h
      exact .listItems (limits_iff.2 ⟨value, hvalue, rfl⟩)
    · intro h
      cases h with
      | listItems limits =>
        obtain ⟨value, hvalue, rfl⟩ := limits_iff.1 limits
        exact ⟨value, hvalue, rfl⟩
  | createItem =>
    rw [arguments, bind_eq_ok_iff]
    constructor
    · rintro ⟨j, hj, h⟩
      obtain ⟨chunks, text, hbody, htext, hdecode⟩ := Body.json_eq_ok_iff.1 hj
      obtain ⟨item, hitem⟩ := NewItem.exists_ofJson? hdecode
      rw [hitem] at h
      obtain rfl := Except.ok.inj h
      exact .createItem hbody htext ⟨j, hdecode, hitem⟩
    · intro h
      cases h with
      | createItem hbody htext hdecodes =>
        obtain ⟨j, hdecode, hitem⟩ := hdecodes
        refine ⟨j, Body.json_eq_ok_iff.2 ⟨_, _, hbody, htext, hdecode⟩, ?_⟩
        rw [hitem]
        rfl
  | getItem segment =>
    have hfits {n : Int} : integerParam .i32 segment = .ok n ↔ Fits .i32 segment.toList n :=
      integerParam_eq_ok_iff (by decide) (by decide)
    rw [arguments, map_eq_ok_iff]
    simp only [Param.parse_eq_ok_iff, hfits]
    constructor
    · rintro ⟨id, fits, rfl⟩
      exact .getItem fits
    · intro h
      cases h with
      | getItem fits => exact ⟨_, fits, rfl⟩

theorem arguments_eq_error {request : Request} {target : Target} {e : RequestError}
    (h : arguments request target = .error e) : Refuses request target e := by
  cases target with
  | listItems =>
    rcases bind_eq_error_iff.1 h with h | ⟨value, -, h⟩
    · obtain ⟨raw, reason, first, hraw, rfl⟩ := Param.optional_eq_error_iff.1 h
      exact .limit first (unfit_of_error (by decide) (by decide) hraw)
    · cases h
  | createItem =>
    rcases bind_eq_error_iff.1 h with h | ⟨j, hj, h⟩
    · exact .body (Body.json_eq_error_iff.1 h)
    · obtain ⟨chunks, text, -, -, hdecode⟩ := Body.json_eq_ok_iff.1 hj
      obtain ⟨item, hitem⟩ := NewItem.exists_ofJson? hdecode
      rw [hitem] at h
      cases h
  | getItem segment =>
    obtain ⟨reason, hraw, rfl⟩ := Param.parse_eq_error_iff.1 (map_eq_error_iff.1 h)
    exact .id (unfit_of_error (by decide) (by decide) hraw)

end OpenApiServer.Items
