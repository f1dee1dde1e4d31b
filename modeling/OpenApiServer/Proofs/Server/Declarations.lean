import OpenApiServer.Proofs.Build.Boxing
import OpenApiServer.Proofs.Build.Declarations
import OpenApiServer.Proofs.Build.Reachable

/-!
# Every mentioned type is declared once

When the queue of a build is empty, the names that it has claimed are those of its declarations,
each once. Whatever a server mentions has been claimed on the way, by a reference to a named schema
or by an inline schema, and the last touches of the build mention nothing else.

## What declared types hold inline

A declared type holds another one inline when a value of it contains a value of the other without a
list or a box between them. Boxing cuts this relation at the fields of records: what is left of it
leads from a record to no type that leads back. So a chain that comes back to its start passes
through unions and aliases only.
-/

namespace OpenApiServer

open Relation (TransGen ReflTransGen)

variable {types : List Declaration} {a b : TypeName}

/-- Whether one of the declared types named `a` holds `b` inline. -/
def HoldsInline (types : List Declaration) (a b : TypeName) : Prop :=
  ∃ t ∈ types, t.name = a ∧ b ∈ t.inlineTargets

namespace TypeExpr

@[simp] theorem inlineTarget?_optional (t : TypeExpr) :
    t.optional.inlineTarget? = t.inlineTarget? := by
  cases t <;> rfl

@[simp] theorem inlineTarget?_boxInline (t : TypeExpr) : t.boxInline.inlineTarget? = none := by
  induction t with
  | option inner ih =>
    rw [boxInline, inlineTarget?_optional, ih]
  | _ => rfl

end TypeExpr

/-- The option around the type of a field that can be absent holds nothing more. -/
theorem Field.inlineTarget?_fieldType (f : Field) :
    f.fieldType.inlineTarget? = f.type.inlineTarget? := by
  rw [fieldType]
  split
  · rfl
  · exact f.type.inlineTarget?_optional

namespace Boxing

theorem edge_edges : Edge (edges types) = HoldsInline types := by
  funext a b
  simp [Edge, edges, HoldsInline, and_comm]

theorem mem_reachable_edges_iff :
    b ∈ reachable (edges types) a ↔ ReflTransGen (HoldsInline types) a b := by
  rw [mem_reachable_iff, edge_edges]

theorem closesCycle_iff {owner : TypeName} {field : Field} :
    closesCycle (edges types) owner field = true ↔
      ∃ target, field.type.inlineTarget? = some target ∧
        ReflTransGen (HoldsInline types) target owner := by
  rw [closesCycle]
  cases htarget : field.type.inlineTarget? with
  | none => simp
  | some target => simp [mem_reachable_edges_iff]

theorem inlineTarget?_boxField {owner : TypeName} {field : Field} :
    (boxField (edges types) owner field).type.inlineTarget? = some b ↔
      field.type.inlineTarget? = some b ∧ ¬ ReflTransGen (HoldsInline types) b owner := by
  by_cases hcloses : closesCycle (edges types) owner field = true
  · rw [boxField, if_pos hcloses]
    obtain ⟨target, htarget, hback⟩ := closesCycle_iff.1 hcloses
    simp only [TypeExpr.inlineTarget?_boxInline, htarget, Option.some.injEq, reduceCtorEq,
      false_iff, not_and, not_not]
    rintro rfl
    exact hback
  · rw [boxField, if_neg hcloses]
    refine ⟨fun htarget => ⟨htarget, fun hback => ?_⟩, And.left⟩
    exact hcloses (closesCycle_iff.2 ⟨b, htarget, hback⟩)

/-- A record keeps the targets that do not lead back to it, any other declaration keeps them all. -/
theorem Boxed.mem_inlineTargets_iff {t t' : Declaration} (h : Boxed (edges types) t t') :
    b ∈ t'.inlineTargets ↔
      b ∈ t.inlineTargets ∧ ¬ (t.isRecord ∧ ReflTransGen (HoldsInline types) b t.name) := by
  cases h with
  | record decl =>
    simp only [Declaration.inlineTargets, boxedFields, List.mem_filterMap, List.mem_map,
      Declaration.isRecord, true_and, Declaration.name]
    constructor
    · rintro ⟨_, ⟨field, hfield, rfl⟩, htarget⟩
      obtain ⟨hown, hback⟩ := inlineTarget?_boxField.1 htarget
      exact ⟨⟨field, hfield, hown⟩, hback⟩
    · rintro ⟨⟨field, hfield, hown⟩, hback⟩
      exact ⟨_, ⟨field, hfield, rfl⟩, inlineTarget?_boxField.2 ⟨hown, hback⟩⟩
  | _ => simp [Declaration.inlineTargets, Declaration.isRecord]

theorem holdsInline_of_box {conversions : List Conversion}
    (h : HoldsInline (box types conversions).types a b) : HoldsInline types a b := by
  obtain ⟨t', ht', rfl, hb⟩ := h
  obtain ⟨t, ht, hboxed⟩ := exists_of_mem_forall₂ (boxed_box types conversions) ht'
  exact ⟨t, ht, hboxed.name_eq.symm, (hboxed.mem_inlineTargets_iff.1 hb).1⟩

/-- After boxing, what leads back to the type that holds it is held by no record. -/
theorem not_isRecord_of_leads_back {conversions : List Conversion} {t' : Declaration}
    (ht' : t' ∈ (box types conversions).types) (hb : b ∈ t'.inlineTargets)
    (hback : ReflTransGen (HoldsInline (box types conversions).types) b t'.name) :
    t'.isRecord = false := by
  obtain ⟨t, ht, hboxed⟩ := exists_of_mem_forall₂ (boxed_box types conversions) ht'
  have hcut := (hboxed.mem_inlineTargets_iff.1 hb).2
  have hchain : ReflTransGen (HoldsInline types) b t.name := by
    rw [← hboxed.name_eq]
    exact ReflTransGen.mono (fun _ _ => holdsInline_of_box) _ _ hback
  rw [hboxed.isRecord_eq, Bool.eq_false_iff]
  intro hrecord
  exact hcut ⟨hrecord, hchain⟩

/-- A chain that comes back passes through types that are no records. -/
theorem transGen_filter_of_leads_back {conversions : List Conversion}
    (hchain : TransGen (HoldsInline (box types conversions).types) a b)
    (hback : ReflTransGen (HoldsInline (box types conversions).types) b a) :
    TransGen (HoldsInline ((box types conversions).types.filter (!·.isRecord))) a b := by
  have hedge (x y : TypeName) (hxy : HoldsInline (box types conversions).types x y)
      (hyx : ReflTransGen (HoldsInline (box types conversions).types) y x) :
      HoldsInline ((box types conversions).types.filter (!·.isRecord)) x y := by
    obtain ⟨t, ht, rfl, hy⟩ := hxy
    have hkind := not_isRecord_of_leads_back ht hy hyx
    exact ⟨t, List.mem_filter.2 ⟨ht, by simp [hkind]⟩, rfl, hy⟩
  induction hchain using TransGen.head_induction_on with
  | single hab => exact .single (hedge _ _ hab hback)
  | head hac hcb ih =>
    have hcb' := hcb.to_reflTransGen
    exact .head (hedge _ _ hac (hcb'.trans hback)) (ih (hback.tail hac))

end Boxing

end OpenApiServer

/-! ## Declarations of a server -/

namespace OpenApiServer

/-- What a build that has succeeded knows about its names. -/
structure Closed (m : ServerModel) (claimed : List TypeName) : Prop where
  perm : (m.types.map (·.name)).Perm claimed
  nodup : claimed.Nodup
  mentioned : m.mentioned ⊆ claimed

theorem Closed.nodup_names {m : ServerModel} {claimed : List TypeName} (h : Closed m claimed) :
    (m.types.map (·.name)).Nodup :=
  h.perm.symm.nodup h.nodup

theorem closed_finish {d : Document} {basePath : String} {r : Registry} {tables : RouteTables}
    {built : List (Operation × ResponseDecl)}
    (sound : r.Sound d (built.map (·.2.name) ++ r.types.map (·.name))) (hdone : r.pending = [])
    (hbuilt : ∀ b ∈ built, b.1.mentioned ⊆ r.claimed ∧
      (Declaration.response b.2).mentioned ⊆ r.claimed) :
    Closed (Build.finish basePath r built tables) r.claimed := by
  have hclosed := sound.closed
  simp only [Registry.mentioned, List.append_subset, flatMap_subset_iff] at hclosed
  obtain ⟨⟨⟨-, hconversions⟩, htypes⟩, henums⟩ := hclosed
  obtain ⟨hboxed, hrefreshed⟩ := Boxing.mentioned_box htypes hconversions
  refine ⟨?_, sound.nodup, ?_⟩
  · have hdeclared : (Build.finish basePath r built tables).types.map (·.name) =
        r.types.map (·.name) ++ built.map (·.2.name) := by
      rw [Build.finish, List.map_append, Boxing.names_box, List.map_map]
      rfl
    have hqueued : r.queued = [] := by rw [Registry.queued, hdone, List.map_nil]
    rw [hdeclared]
    refine List.perm_append_comm.trans ?_
    simpa [hqueued] using sound.perm.symm
  · simp only [ServerModel.mentioned, List.append_subset, flatMap_subset_iff, Build.finish,
      List.forall_mem_append, List.forall_mem_map]
    exact ⟨⟨⟨⟨hboxed, fun b hb => (hbuilt b hb).2⟩,
      EnumBuckets.mentioned_conversions (flatMap_subset_iff.2 henums)⟩,
      Conversion.mentioned_settle hrefreshed⟩, fun b hb => (hbuilt b hb).1⟩

/-- The claimed names are the declared ones in the end. -/
theorem Built.closed {root : Json} {d : Document} {basePath : String} {m : ServerModel}
    (b : Built d basePath m) (hdoc : Document.ofJson root = .ok d) :
    Closed m b.drained.claimed := by
  obtain ⟨hregistered, htypes⟩ := Build.registerSchemas_sound hdoc b.registerSchemas
  obtain ⟨hbound, hgrows, hbuilt⟩ := b.operationsRun.declares hregistered
  have hstart : b.bound.Sound d (b.built.map (·.2.name) ++ b.bound.types.map (·.name)) := by
    rw [hgrows.types, htypes, List.map_nil, List.append_nil]
    exact hbound
  obtain ⟨hdrained, hclaimed, hdone⟩ := Build.drain_declares hstart b.drain
  have hclosed : Closed (Build.finish basePath b.drained b.built b.tables) b.drained.claimed :=
    closed_finish hdrained hdone fun built hmem =>
      ⟨List.Subset.trans (hbuilt built hmem).1 hclaimed,
        List.Subset.trans (hbuilt built hmem).2 hclaimed⟩
  rwa [← b.model] at hclosed

theorem closed_of_server {root : Json} {d : Document} {basePath : String} {m : ServerModel}
    (hdoc : Document.ofJson root = .ok d) (h : d.server basePath = .ok m) :
    ∃ claimed, Closed m claimed := by
  obtain ⟨b⟩ := built_of_server h
  exact ⟨b.drained.claimed, b.closed hdoc⟩

/-- A document with a record, an inline record in it and a record that merges a part. -/
def dogs : Json :=
  .obj [("paths", .obj [("/dogs", .obj [("get", .obj [("responses", .obj [("200", .obj [("content",
      .obj [("application/json", .obj [("schema", .obj [("type", .str "array"), ("items",
        .obj [("$ref", .str "#/components/schemas/dog")])])])])])])])])]),
    ("components", .obj [("schemas", .obj [
      ("pet", .obj [("properties", .obj [("tag", .obj [("properties",
        .obj [("label", .obj [("type", .str "string")])])])])]),
      ("dog", .obj [("allOf", .arr [.obj [("$ref", .str "#/components/schemas/pet")]])])])])]

end OpenApiServer

/-!
### Types that contain themselves

A declared type that holds itself inline, directly or through other types, has no finite size.
Boxing the fields of records keeps every record from it. It does not look at the payloads of unions
and at the targets of aliases, so a chain of these that comes back to its start is left as it is:
the types on such chains are exactly those without a finite size.
-/

namespace OpenApiServer

open Relation (TransGen)

/-- Responses hold nothing inline. -/
theorem holdsInline_append_responses {types responses : List Declaration}
    (h : ∀ t ∈ responses, t.isResponse = true) :
    HoldsInline (types ++ responses) = HoldsInline types := by
  funext a b
  refine propext ⟨?_, ?_⟩
  · rintro ⟨t, ht, hname, hb⟩
    rcases List.mem_append.1 ht with ht | ht
    · exact ⟨t, ht, hname, hb⟩
    · have hresponse := h t ht
      cases t with
      | response => cases hb
      | _ => cases hresponse
  · rintro ⟨t, ht, hname, hb⟩
    exact ⟨t, List.mem_append_left _ ht, hname, hb⟩

/-- What the types of a server hold inline is what boxing has left. -/
theorem types_of_server {d : Document} {basePath : String} {m : ServerModel}
    (h : d.server basePath = .ok m) :
    ∃ types conversions responses,
      m.types = (Boxing.box types conversions).types ++ responses ∧
        ∀ t ∈ responses, t.isResponse = true := by
  obtain ⟨b⟩ := built_of_server h
  refine ⟨b.drained.types, b.drained.conversions, b.built.map (.response ·.2), b.types_eq, ?_⟩
  rw [List.forall_mem_map]
  intro built _
  rfl

theorem transGen_records_iff {d : Document} {basePath : String} {m : ServerModel}
    (h : d.server basePath = .ok m) (name : TypeName) :
    TransGen (HoldsInline m.types) name name ↔
      TransGen (HoldsInline (m.types.filter (!·.isRecord))) name name := by
  obtain ⟨types, conversions, responses, htypes, hresponses⟩ := types_of_server h
  have hkept : ∀ t ∈ responses.filter (!·.isRecord), t.isResponse = true :=
    fun t ht => hresponses t (List.mem_of_mem_filter ht)
  rw [htypes, List.filter_append, holdsInline_append_responses hresponses,
    holdsInline_append_responses hkept]
  constructor
  · intro hcycle
    exact Boxing.transGen_filter_of_leads_back hcycle .refl
  · intro hcycle
    refine TransGen.mono (fun a b => ?_) _ _ hcycle
    rintro ⟨t, ht, hname, hb⟩
    exact ⟨t, List.mem_of_mem_filter ht, hname, hb⟩

/-- A document with a single named schema. -/
def oneSchema (name : String) (schema : Json) : Json :=
  .obj [("components", .obj [("schemas", .obj [(name, schema)])])]

/-- An object with a tag and a payload. -/
def taggedArm (tag : String) (payload : Json) : Json :=
  .obj [("type", .str "object"), ("required", .arr [.str "kind", .str "value"]),
    ("properties", .obj [("kind", .obj [("const", .str tag)]), ("value", payload)])]

/-- A record that leads to itself through an optional field. -/
def chain : Json :=
  oneSchema "Chain" (.obj [("properties",
    .obj [("next", .obj [("$ref", .str "#/components/schemas/Chain")])])])

/-- A union with itself as a payload. -/
def tree : Json :=
  oneSchema "Tree" (.obj [("oneOf", .arr [taggedArm "leaf" (.obj [("type", .str "string")]),
    taggedArm "node" (.obj [("$ref", .str "#/components/schemas/Tree")])])])

end OpenApiServer
