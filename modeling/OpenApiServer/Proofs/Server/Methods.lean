import OpenApiServer.Proofs.Code.FromImpls
import OpenApiServer.Proofs.Name.Derived
import OpenApiServer.Proofs.Server.Coherence
import OpenApiServer.Proofs.Server.Names

/-!
# The methods of a declared type

Methods are named after names that are distinct: constructors after the parts of a record, accessors
after the fields of a union. The new names need not be distinct. Two type names can be the same in
snake case, and a field can have the name of an accessor of another. Nothing else makes two methods
of one type fall together.

## The methods that the file of types implements

The methods of a type itself, and not of an interface that it implements. An enumeration and the
responses of an operation have one, a union has three for each field that it shows, and a record has
the constructors from its parts.
-/

namespace OpenApiServer

theorem TypeName.text_inj {n n' : TypeName} : n.text = n'.text ↔ n = n' := by
  cases n
  cases n'
  exact (mk.injEq ..).symm ▸ Iff.rfl

namespace UnionDecl

/-- The methods for the fields that a union shows. -/
def accessors (u : UnionDecl) : List FieldName :=
  (u.sharedFields.map (·.name)).flatMap FieldName.accessors

end UnionDecl

/-- The conversions into a record that are written as constructors. -/
def ServerModel.constructors (m : ServerModel) (target : TypeName) : List Conversion :=
  m.conversions.filter fun c => !c.isPlain && c.target = target

/-- The methods that come with a declaration. -/
def Declaration.methods : Declaration → List String
  | .enum _ => ["as_str"]
  | .union decl => decl.accessors.map (·.text)
  | .response _ => ["status_code"]
  | .record _ | .alias _ => []

namespace Code

def ImplItem.functionName? : ImplItem → Option String
  | .function f => some f.name
  | .type _ _ => none

/-- The methods that an item gives a type itself. -/
def Item.methodsOf (type : String) : Item → List String
  | .impl none (.path owner []) items =>
    if owner = type then items.filterMap ImplItem.functionName? else []
  | _ => []

/-- The methods that items give a type itself. -/
def methodsOf (items : List Item) (type : TypeName) : List String :=
  items.flatMap (Item.methodsOf type.text)

variable (visibility : Visibility) (type : TypeName)

@[simp]
theorem methodsOf_append (items items' : List Item) :
    methodsOf (items ++ items') type = methodsOf items type ++ methodsOf items' type := by
  rw [methodsOf, List.flatMap_append, methodsOf, methodsOf]

theorem methodsOf_eq_nil {items : List Item} (h : ∀ item ∈ items, item.methodsOf type.text = []) :
    methodsOf items type = [] := List.flatMap_eq_nil_iff.2 h

theorem methodsOf_payloadImpl {α : Type} (xs : List α) (target : TypeName)
    (payload : α → TypeExpr) (variant : α → TypeName) :
    methodsOf (xs.map fun x => payloadImpl target (payload x) (variant x)) type = [] :=
  methodsOf_eq_nil type (List.forall_mem_map.2 fun _ _ => rfl)

theorem functionName_accessors (u : UnionDecl) :
    (u.sharedFields.flatMap (Code.accessors visibility u)).filterMap ImplItem.functionName? =
      u.accessors.map (·.text) := by
  rw [UnionDecl.accessors, List.filterMap_flatMap, List.flatMap_map, List.map_flatMap]
  simp [Code.accessors, method, ImplItem.functionName?, FieldName.accessors]

/-- An implementation of the type itself, which is left out if it is empty. -/
theorem methodsOf_optional (name : TypeName) (items : List ImplItem) :
    methodsOf (if items.isEmpty then [] else [.impl none (.path name.text []) items]) type =
      if name.text = type.text then items.filterMap ImplItem.functionName? else [] := by
  cases items with
  | nil => simp [methodsOf]
  | cons item rest => simp [methodsOf, Item.methodsOf]

theorem methodsOf_union (u : UnionDecl) :
    methodsOf (union visibility u) type =
      if u.name.text = type.text then (Declaration.union u).methods else [] := by
  rw [union, methodsOf_append, methodsOf_append, methodsOf_optional, methodsOf_payloadImpl,
    functionName_accessors, List.append_nil]
  rfl

theorem methodsOf_declaration (t : Declaration) :
    methodsOf (declaration visibility t) type =
      if t.name.text = type.text then t.methods else [] := by
  cases t with
  | union u => exact methodsOf_union visibility type u
  | response r =>
    rw [declaration, response, methodsOf_append,
      methodsOf_payloadImpl type r.shortcuts r.name (·.1) (·.2.name), List.append_nil]
    exact List.append_nil _
  | enum e => exact List.append_nil _
  | record r => simp [declaration, record, methodsOf, Item.methodsOf, Declaration.methods]
  | «alias» a => simp [declaration, methodsOf, Item.methodsOf, Declaration.methods]

theorem methodsOf_declarations (types : List Declaration) :
    methodsOf (types.flatMap (declaration visibility)) type =
      (types.filter (·.name == type)).flatMap (·.methods) := by
  induction types with
  | nil => rfl
  | cons t rest ih =>
    rw [List.flatMap_cons, methodsOf_append, methodsOf_declaration, ih]
    by_cases hname : t.name = type
    · rw [if_pos (congrArg _ hname), List.filter_cons_of_pos (by simpa using hname),
        List.flatMap_cons]
    · have htext : t.name.text ≠ type.text := fun heq => hname (TypeName.text_inj.1 heq)
      rw [if_neg htext, List.filter_cons_of_neg (by simpa using hname), List.nil_append]

theorem methodsOf_conversions (conversions : List Conversion) :
    methodsOf (conversions.map (conversion visibility)) type =
      (conversions.filter fun c => !c.isPlain && c.target = type).map (·.constructorName.text) := by
  induction conversions with
  | nil => rfl
  | cons c rest ih =>
    rw [← List.singleton_append, List.map_append, methodsOf_append, ih, List.filter_append,
      List.map_append]
    congr 1
    by_cases hplain : c.isPlain = true
    · simp [methodsOf, Item.methodsOf, conversion, fromImpl, hplain]
    · by_cases htarget : c.target = type
      · simp [methodsOf, Item.methodsOf, conversion, hplain, htarget, ImplItem.functionName?]
      · have htext : c.target.text ≠ type.text := fun heq => htarget (TypeName.text_inj.1 heq)
        simp [methodsOf, Item.methodsOf, conversion, hplain, htarget, htext]

/-- The methods that the file of types gives a type. -/
theorem methodsOf_typeItems (m : ServerModel) :
    methodsOf (typeItems visibility m) type =
      ((m.types.filter (!·.isResponse)).filter (·.name == type)).flatMap (·.methods) ++
        (m.constructors type).map (·.constructorName.text) ++
        ((m.types.filter (·.isResponse)).filter (·.name == type)).flatMap (·.methods) := by
  have henums : methodsOf (m.enumConversions.map enumConversion) type = [] :=
    methodsOf_eq_nil type (List.forall_mem_map.2 fun c _ => rfl)
  rw [typeItems, methodsOf_append, methodsOf_append, methodsOf_append, henums, List.append_nil,
    methodsOf_declarations, methodsOf_conversions, methodsOf_declarations]
  rfl

end Code

end OpenApiServer

namespace OpenApiServer

variable {root : Json} {d : Document} {basePath : String} {m : ServerModel}

/-! ## The names of shared fields -/

/-- Whether the fields that a union shows have distinct proper names. -/
structure NamesApart (shared : List SharedField) : Prop where
  proper : ∀ s ∈ shared, s.name.Proper
  names : (shared.map (·.name)).Nodup

theorem NamesApart.commonFields {all : List (List Field)}
    (h : ∀ fields ∈ all, DistinctFields fields) : NamesApart (Build.commonFields all) := by
  cases all with
  | nil => exact ⟨by simp [Build.commonFields], by simp [Build.commonFields]⟩
  | cons first rest =>
    have hfirst := h first (List.mem_cons_self ..)
    rw [Build.commonFields_cons]
    refine ⟨List.forall_mem_map.2 fun f hf => hfirst.proper f (List.mem_of_mem_filter hf), ?_⟩
    rw [List.map_map]
    exact hfirst.names.sublist (List.filter_sublist.map _)

/-- The fields that a union shows in the end are those from before boxing, or the common ones of
records after it. -/
theorem Boxing.sharedFields_of_box {types : List Declaration} {conversions : List Conversion}
    {u : UnionDecl} (h : .union u ∈ (box types conversions).types) :
    (∃ u₀, .union u₀ ∈ types ∧ u.sharedFields = u₀.sharedFields) ∨
      ∃ all, u.sharedFields = Build.commonFields all ∧
        ∀ fields ∈ all, ∃ decl, .record decl ∈ types ∧ fields = boxedFields (edges types) decl := by
  rw [box] at h
  dsimp only at h
  split at h
  next =>
    obtain ⟨t, ht, heq⟩ := List.mem_map.1 h
    cases t with
    | union u₀ => exact .inl ⟨u₀, ht, by rw [Declaration.union.inj heq]⟩
    | _ => cases heq
  next =>
    obtain ⟨t', ht', heq⟩ := List.mem_map.1 h
    obtain ⟨t, ht, rfl⟩ := List.mem_map.1 ht'
    cases t with
    | union u₀ =>
      obtain rfl := Declaration.union.inj heq
      rw [refreshUnion]
      split_ifs
      · exact .inl ⟨u₀, ht, rfl⟩
      · split
        next all hall =>
          refine .inr ⟨all, rfl, fun fields hfields => ?_⟩
          obtain ⟨v, -, hv⟩ := exists_of_mem_mapM hall hfields
          rw [fieldsOfPayload?] at hv
          split at hv
          next payload _ =>
            obtain ⟨before, after, hrecords, -⟩ := List.lookup_eq_some_iff.1 hv
            have hmem : (payload, fields) ∈ before ++ (payload, fields) :: after :=
              List.mem_append_right _ (List.mem_cons_self ..)
            obtain ⟨decl, hdecl, heq⟩ := exists_of_mem_recordFields (hrecords ▸ hmem)
            obtain ⟨t, ht, hboxed⟩ := List.mem_map.1 hdecl
            cases t with
            | record decl₀ =>
              obtain rfl := Declaration.record.inj hboxed
              exact ⟨decl₀, ht, (Prod.mk.inj heq).2.symm⟩
            | _ => cases hboxed
          next => cases hv
        next => exact .inl ⟨u₀, ht, rfl⟩
    | _ => cases heq

namespace Built

variable (b : Built d basePath m) (hdoc : Document.ofJson root = .ok d)
  (hroot : d.root.DistinctKeys)

include b hdoc hroot

/-- The fields that a union shows have distinct names, because they are fields of one record. -/
theorem namesApart {u : UnionDecl} (hu : .union u ∈ m.types) : NamesApart u.sharedFields := by
  obtain ⟨hrecorded, hholds⟩ := ((Build.distinct_laws hroot).invariant hdoc hroot).drained b
  rcases Boxing.sharedFields_of_box (b.mem_box hu fun _ heq => by cases heq) with
    ⟨u₀, hu₀, hshared⟩ | ⟨all, hshared, hall⟩
  · rw [hshared]
    cases (b.unions hdoc hroot).shares u₀ hu₀ with
    | common payloads shared =>
      rw [shared]
      refine .commonFields fun fields hfields => ?_
      obtain ⟨v, -, name, node, -, -, -, hkept⟩ := exists_of_mem_forall₂ payloads hfields
      exact hholds.fieldsOf? hkept
    | nothing mem other shared =>
      rw [shared]
      exact ⟨by simp, by simp⟩
  · rw [hshared]
    refine .commonFields fun fields hfields => ?_
    obtain ⟨decl, hdecl, rfl⟩ := hall fields hfields
    exact (hholds.fieldsOf? (hrecorded.records decl hdecl)).boxed _

end Built

/-! ## Distinct methods -/

namespace KeptApart

variable (h : KeptApart m)

include h

/-- Constructors of one record are told apart by their sources in snake case. -/
theorem nodup_constructors_iff (target : TypeName) :
    ((m.constructors target).map (·.constructorName.text)).Nodup ↔
      ∀ c ∈ m.constructors target, ∀ c' ∈ m.constructors target,
        Name.snakeCase [c.source.text] = Name.snakeCase [c'.source.text] →
          c.source = c'.source := by
  constructor
  · intro hnodup c hc c' hc' hsnake
    have hname := congrArg FieldName.text (Conversion.constructorName_eq_iff.2 hsnake)
    rw [List.inj_on_of_nodup_map hnodup hc hc' hname]
  · intro hsources
    have hnodup : (m.constructors target).Nodup := (h.ends.of_map _).sublist List.filter_sublist
    refine hnodup.map_on fun c hc c' hc' htext => ?_
    have hname := c.proper_constructorName.text_inj c'.proper_constructorName htext
    have hsource := hsources c hc c' hc' (Conversion.constructorName_eq_iff.1 hname)
    obtain ⟨hmem, hc⟩ := List.mem_filter.1 hc
    obtain ⟨hmem', hc'⟩ := List.mem_filter.1 hc'
    have htarget : c.target = c'.target := by simp_all
    exact List.inj_on_of_nodup_map h.ends hmem hmem' (Prod.ext hsource htarget)

/-- Only records have constructors. -/
theorem constructors_eq_nil {t : Declaration} (ht : t ∈ m.types) (hkind : t.isRecord = false) :
    m.constructors t.name = [] := by
  refine List.eq_nil_iff_forall_not_mem.2 fun c hc => ?_
  obtain ⟨hmem, htarget⟩ := List.mem_filter.1 hc
  obtain ⟨-, t', ht', hname, hrecord⟩ := h.records c hmem
  have heq : c.target = t.name := by simp_all
  obtain rfl := List.inj_on_of_nodup_map h.names ht ht' (heq.symm.trans hname.symm)
  rw [hkind] at hrecord
  cases hrecord

/-- The methods of a declared type are those of its declaration and its constructors. -/
theorem methodsOf_eq (visibility : Code.Visibility) {t : Declaration} (ht : t ∈ m.types) :
    Code.methodsOf (Code.typeItems visibility m) t.name =
      t.methods ++ (m.constructors t.name).map (·.constructorName.text) := by
  have hfilter (p : Declaration → Bool) :
      (m.types.filter p).filter (·.name == t.name) = [t].filter p := by
    rw [← filter_eq_singleton h.names ht, List.filter_filter, List.filter_filter]
    exact List.filter_congr fun _ _ => Bool.and_comm ..
  rw [Code.methodsOf_typeItems, hfilter, hfilter]
  by_cases hresponse : t.isResponse = true
  · have hrecord : t.isRecord = false := by cases t <;> first | rfl | cases hresponse
    simp [h.constructors_eq_nil ht hrecord, hresponse]
  · simp [hresponse]

end KeptApart

/-- A record that is merged of two parts, and a union of a record with two fields. -/
def methodsOfParts (first second field : String) : Json :=
  .obj [("components", .obj [("schemas", .obj [(first, texts ["a"]), (second, texts ["b"]),
    ("Whole", .obj [("allOf", .arr [toSchema first, toSchema second])]),
    ("Named", texts ["name", field]),
    ("Choice", .obj [("oneOf", .arr [taggedArm "named" (toSchema "Named")])])])])]

def apart : Json := methodsOfParts "Front" "Back" "label"

def clashing : Json := methodsOfParts "FOOBar" "Foobar" "set_name"

end OpenApiServer
