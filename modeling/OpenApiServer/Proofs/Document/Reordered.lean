import OpenApiServer.Proofs.Document.Keys
import OpenApiServer.Proofs.Document.References
import OpenApiServer.Proofs.Json.Proper
import OpenApiServer.Proofs.Schema.Agree

/-!
# The order of the named schemas

`withSchemas` lists other named schemas in a document. Where they are the same ones in another order,
the two documents agree and have the same operations.

## Documents that agree

Where two documents agree, a pointer leads to values that agree, and so does a chain of references
that starts at nodes that agree.
-/

namespace OpenApiServer

open Json (DistinctKeys hereditary_distinctKeys)

namespace Pointer

variable {a b v : Json}

theorem step_agree (hkeys : a.DistinctKeys) (h : a.Agrees b) {key : String}
    (hv : step a key = some v) : ∃ w, step b key = some w ∧ v.Agrees w := by
  cases a with
  | obj fields =>
    obtain ⟨others, rfl, hfields⟩ := h.exists_fields hkeys
    exact hfields.agree hv
  | arr items =>
    obtain ⟨others, rfl, hitems⟩ := h.exists_items
    obtain ⟨i, hi, hv⟩ := Option.bind_eq_some_iff.1 hv
    obtain ⟨hlt, rfl⟩ := List.getElem?_eq_some_iff.1 hv
    have hlt' : i < others.length := hitems.length_eq ▸ hlt
    refine ⟨others[i], Option.bind_eq_some_iff.2 ⟨i, hi, List.getElem?_eq_getElem hlt'⟩, ?_⟩
    exact hitems.get hlt hlt'
  | _ => cases hv

theorem follow_agree (hkeys : a.DistinctKeys) (h : a.Agrees b) {keys : List String}
    (hv : follow a keys = some v) : ∃ w, follow b keys = some w ∧ v.Agrees w := by
  induction keys generalizing a b with
  | nil =>
    obtain rfl := Option.some.inj hv
    exact ⟨b, rfl, h⟩
  | cons key rest ih =>
    obtain ⟨next, hnext, hv⟩ := Option.bind_eq_some_iff.1 hv
    obtain ⟨next', hnext', hagree⟩ := step_agree hkeys h hnext
    obtain ⟨w, hw, hlast⟩ := ih (hereditary_distinctKeys.step hkeys hnext) hagree hv
    exact ⟨w, Option.bind_eq_some_iff.2 ⟨next', hnext', hw⟩, hlast⟩

end Pointer

namespace Document

variable {d d' : Document} {node node' target : Json}

/-- Whether two documents are equal up to the order of fields. -/
structure Agrees (d d' : Document) : Prop where
  keys : d.root.DistinctKeys
  roots : d.root.Agrees d'.root

theorem Agrees.refl (hkeys : d.root.DistinctKeys) : d.Agrees d := ⟨hkeys, .refl _⟩

theorem reference?_agree (hkeys : node.DistinctKeys) (h : node.Agrees node') :
    reference? node = reference? node' :=
  Schema.string_agree hkeys h "$ref"

namespace Agrees

variable (h : d.Agrees d')

include h

theorem size_eq : d.root.size = d'.root.size := h.roots.size_eq h.keys

theorem resolve {pointer : String} (hnode : d.resolve pointer = .ok node) :
    ∃ node', d'.resolve pointer = .ok node' ∧ node.Agrees node' := by
  unfold Document.resolve at hnode ⊢
  split at hnode
  next target htarget =>
    obtain rfl := Except.ok.inj hnode
    obtain ⟨keys, hkeys, hfollow⟩ := Option.bind_eq_some_iff.1 htarget
    obtain ⟨node', hfollow', hagree⟩ := Pointer.follow_agree h.keys h.roots hfollow
    have hresolve : Pointer.resolve? d'.root pointer = some node' :=
      Option.bind_eq_some_iff.2 ⟨keys, hkeys, hfollow'⟩
    exact ⟨node', by rw [hresolve], hagree⟩
  next => cases hnode

theorem dereferenceFrom {steps : Nat} {visited : List String} (hkeys : node.DistinctKeys)
    (hnode : node.Agrees node') (hleads : d.dereferenceFrom steps visited node = .ok target) :
    ∃ target', d'.dereferenceFrom steps visited node' = .ok target' ∧ target.Agrees target' := by
  induction steps generalizing visited node node' with
  | zero =>
    rw [Document.dereferenceFrom, ← reference?_agree hkeys hnode]
    rw [Document.dereferenceFrom] at hleads
    split at hleads
    · obtain rfl := Except.ok.inj hleads
      exact ⟨node', rfl, hnode⟩
    · split_ifs at hleads
  | succ steps ih =>
    rw [Document.dereferenceFrom, ← reference?_agree hkeys hnode]
    rw [Document.dereferenceFrom] at hleads
    split at hleads
    · obtain rfl := Except.ok.inj hleads
      exact ⟨node', rfl, hnode⟩
    next pointer _ =>
      split_ifs at hleads with hvisited
      obtain ⟨next, hnext, hleads⟩ := bind_eq_ok_iff.1 hleads
      obtain ⟨next', hnext', hagree⟩ := h.resolve hnext
      have hdistinct := hereditary_distinctKeys.resolve h.keys hnext
      obtain ⟨target', htarget, hlast⟩ := ih hdistinct hagree hleads
      exact ⟨target', by rw [if_neg hvisited, hnext']; exact htarget, hlast⟩

/-- References that start at nodes that agree lead to nodes that agree. -/
theorem dereference (hkeys : node.DistinctKeys) (hnode : node.Agrees node')
    (hleads : d.dereference node = .ok target) :
    ∃ target', d'.dereference node' = .ok target' ∧ target.Agrees target' := by
  rw [Document.dereference, ← h.size_eq]
  exact h.dereferenceFrom hkeys hnode hleads

end Agrees

end Document

end OpenApiServer

/-! ## Other named schemas -/

namespace OpenApiServer

namespace Json

variable {a v w : Json}

/-- Sets a field of an object; other values have no fields. -/
def setField (j : Json) (key : String) (value : Json) : Json :=
  match j with
  | .obj fields => .obj (insertField key value fields)
  | other => other

theorem length_insertField_of_mem {α : Type} {key : String} {value : α}
    {fields : List (String × α)} (h : key ∈ fields.map (·.1)) :
    (insertField key value fields).length = fields.length := by
  have hkeys := congrArg List.length (keys_insertField key value fields)
  rwa [if_pos h, List.length_map, List.length_map] at hkeys

/-- Setting a field to an equal value gives an equal object. -/
theorem same_setField (ha : a.Proper) {key : String} (hv : a.get? key = some v)
    (hsame : v.same w = true) : a.same (a.setField key w) = true := by
  cases a with
  | obj fields =>
    obtain ⟨hkeys, heach⟩ := proper_obj_iff.1 ha
    have hmem : key ∈ fields.map (·.1) := List.mem_map_of_mem (mem_of_fieldNamed? hv)
    rw [setField, same_obj_iff]
    refine ⟨(length_insertField_of_mem hmem).symm, fun f hf => ?_⟩
    by_cases hkey : f.1 = key
    · subst hkey
      have hvalue := (fieldNamed?_of_mem hkeys hf).symm.trans hv
      exact ⟨w, fieldNamed?_insertField_self f.1 w fields, Option.some.inj hvalue ▸ hsame⟩
    · refine ⟨f.2, ?_, (heach f hf).same⟩
      rw [fieldNamed?_insertField_ne (Ne.symm hkey), fieldNamed?_of_mem hkeys hf]
  | _ => cases hv

theorem distinctKeys_setField (ha : a.DistinctKeys) (hw : w.DistinctKeys) (key : String) :
    (a.setField key w).DistinctKeys := by
  cases a with
  | obj fields =>
    obtain ⟨hkeys, heach⟩ := distinctKeys_obj_iff.1 ha
    refine distinctKeys_obj_iff.2 ⟨nodup_keys_insertField key w hkeys, fun f hf => ?_⟩
    rcases mem_insertField hf with rfl | hold
    · exact hw
    · exact heach f hold
  | _ => exact ha

theorem get?_setField_self {key : String} (hv : a.get? key = some v) :
    (a.setField key w).get? key = some w := by
  cases a with
  | obj fields => exact fieldNamed?_insertField_self key w fields
  | _ => cases hv

theorem get?_setField_ne {key other : String} (h : key ≠ other) :
    (a.setField key w).get? other = a.get? other := by
  cases a with
  | obj fields => exact fieldNamed?_insertField_ne h w fields
  | _ => rfl

theorem getPath?_setField {inner : Json} {outerKey innerKey : String}
    (houter : a.get? outerKey = some inner) (hinner : inner.get? innerKey = some v) :
    (a.setField outerKey (inner.setField innerKey w)).getPath? [outerKey, innerKey] = some w := by
  simp only [getPath?, get?_setField_self houter, get?_setField_self hinner, Option.bind_some]

theorem isObject_setField (key : String) : (a.setField key w).isObject = a.isObject := by
  cases a <;> rfl

/-- A field of an object is found in whatever order the fields stand. -/
theorem fieldNamed?_of_perm {fields others : List (String × Json)} (hkeys : (fields.map (·.1)).Nodup)
    (hperm : fields.Perm others) (key : String) : fieldNamed? key others = fieldNamed? key fields := by
  cases hv : fieldNamed? key fields with
  | some v =>
    have hkeys' := (hperm.map (·.1)).nodup_iff.1 hkeys
    exact fieldNamed?_of_mem hkeys' (hperm.subset (mem_of_fieldNamed? hv))
  | none =>
    rw [fieldNamed?_eq_none_iff] at hv ⊢
    exact fun hmem => hv ((hperm.map (·.1)).mem_iff.2 hmem)

/-- Objects of the same fields are equal in whatever order these stand. -/
theorem same_obj_of_perm {fields others : List (String × Json)} (h : (obj fields).Proper)
    (hperm : fields.Perm others) : (obj fields).same (obj others) = true := by
  obtain ⟨hkeys, heach⟩ := proper_obj_iff.1 h
  have hkeys' := (hperm.map (·.1)).nodup_iff.1 hkeys
  rw [same_obj_iff]
  refine ⟨hperm.length_eq, fun f hf => ⟨f.2, ?_, (heach f hf).same⟩⟩
  exact fieldNamed?_of_mem hkeys' (hperm.subset hf)

end Json

/-- A step leads to the field that is set, or to the same value as before. -/
theorem Pointer.step_setField {a v w inner outer : Json} {field key : String}
    (hfield : a.get? field = some inner) (hv : step a key = some v)
    (hw : step (a.setField field outer) key = some w) : v = inner ∧ w = outer ∨ v = w := by
  cases a with
  | obj fields =>
    change (Json.obj fields).get? key = some v at hv
    change ((Json.obj fields).setField field outer).get? key = some w at hw
    by_cases hkey : field = key
    · subst hkey
      rw [Json.get?_setField_self hfield] at hw
      exact .inl ⟨Option.some.inj (hv.symm.trans hfield), (Option.some.inj hw).symm⟩
    · rw [Json.get?_setField_ne hkey] at hw
      exact .inr (Option.some.inj (hv.symm.trans hw))
  | _ => cases hfield

namespace Document

variable {d : Document} {schemas : List (String × Json)}

/-- The document with other named schemas. A document without a place for them stays as it is. -/
def withSchemas (d : Document) (schemas : List (String × Json)) : Document :=
  match d.root.get? "components" with
  | some components =>
    match components.get? "schemas" with
    | some _ => ⟨d.root.setField "components" (components.setField "schemas" (.obj schemas))⟩
    | none => d
  | none => d

/-- Whether two documents have the same operations and the same named schemas, these in any order,
and agree. The order of media types is the same in both. -/
structure Reordered (d d' : Document) : Prop where
  doc : ofJson d.root = .ok d
  doc' : ofJson d'.root = .ok d'
  proper : d.root.Proper
  proper' : d'.root.Proper
  same : d.root.same d'.root = true
  schemas : d.schemas.Perm d'.schemas
  endpoints : d'.endpoints = d.endpoints
  contents : ∀ ⦃pointer node node'⦄, d.resolve pointer = .ok node → d'.resolve pointer = .ok node' →
    node'.get? "content" = node.get? "content"

namespace Reordered

variable {d' : Document}

theorem refl {root : Json} (hdoc : ofJson root = .ok d) (hproper : d.root.Proper) : Reordered d d := by
  have hroot : ofJson d.root = .ok d := (root_eq_of_ofJson hdoc).1 ▸ hdoc
  exact ⟨hroot, hroot, hproper, hproper, hproper.same_of_agrees (.refl d.root), .refl d.schemas, rfl,
    fun _ _ _ hnode hnode' => by rw [Except.ok.inj (hnode.symm.trans hnode')]⟩

theorem symm (h : Reordered d d') : Reordered d' d :=
  ⟨h.doc', h.doc, h.proper', h.proper, Json.same_symm h.proper.keys h.proper'.keys h.same,
    h.schemas.symm, h.endpoints.symm, fun _ _ _ hnode hnode' => (h.contents hnode' hnode).symm⟩

theorem agrees (h : Reordered d d') : d.Agrees d' := ⟨h.proper.keys, .inr h.same⟩

end Reordered

theorem ofJson_eq_ok_iff {root : Json} : ofJson root = .ok ⟨root⟩ ↔ root.isObject = true ∧
    isOtherThanObject (root.get? "paths") = false ∧
      isOtherThanObject (root.getPath? ["components", "schemas"]) = false := by
  rw [ofJson, Pointer.follow_schemas_eq]
  split_ifs with hroot hpaths hschemas
  · rw [Bool.not_eq_true'] at hroot
    simp [hroot]
  · simp [hpaths]
  · simp [hschemas]
  · simp_all

/-- A document has a place for named schemas, or it has none of them and stays as it is. -/
theorem withSchemas_cases (hdoc : ofJson d.root = .ok d) :
    (d.schemas = [] ∧ ∀ schemas, d.withSchemas schemas = d) ∨
      ∃ components, d.root.get? "components" = some components ∧
        components.get? "schemas" = some (.obj d.schemas) ∧ ∀ schemas, d.withSchemas schemas =
          ⟨d.root.setField "components" (components.setField "schemas" (.obj schemas))⟩ := by
  obtain ⟨-, -, hobject⟩ := ofJson_eq_ok_iff.1 hdoc
  cases hcomponents : d.root.get? "components" with
  | none =>
    refine .inl ⟨?_, fun schemas => by rw [withSchemas, hcomponents]⟩
    simp [Document.schemas, Json.getPath?, hcomponents]
  | some components =>
    cases hschemas : components.get? "schemas" with
    | none =>
      refine .inl ⟨?_, fun schemas => by simp only [withSchemas, hcomponents, hschemas]⟩
      simp [Document.schemas, Json.getPath?, hcomponents, hschemas]
    | some found =>
      have hpath : d.root.getPath? ["components", "schemas"] = some found := by
        simp [Json.getPath?, hcomponents, hschemas]
      rw [hpath] at hobject
      cases found with
      | obj fields =>
        have hlisted : d.schemas = fields := by
          rw [Document.schemas, hpath]
          rfl
        rw [hlisted]
        exact .inr ⟨components, rfl, hschemas, fun schemas => by
          simp only [withSchemas, hcomponents, hschemas]⟩
      | _ => cases hobject

theorem resolve_eq_ok_iff {pointer : String} {node : Json} :
    d.resolve pointer = .ok node ↔ Pointer.resolve? d.root pointer = some node := by
  rw [Document.resolve]
  cases Pointer.resolve? d.root pointer <;> simp

/-- What a pointer leads to in a document and under another order of its named schemas: the same
value, unless this order is a part of it. -/
inductive Twins (d : Document) (components : Json) (schemas : List (String × Json)) :
    Json → Json → Prop where
  | same (j : Json) : Twins d components schemas j j
  | root : Twins d components schemas d.root
    (d.root.setField "components" (components.setField "schemas" (.obj schemas)))
  | components : Twins d components schemas components (components.setField "schemas" (.obj schemas))
  | schemas : Twins d components schemas (.obj d.schemas) (.obj schemas)

namespace Twins

variable {components a b v w : Json}

/-- A step into twins leads to twins. -/
theorem step (hcomponents : d.root.get? "components" = some components)
    (hschemas : components.get? "schemas" = some (.obj d.schemas))
    (hkeys : (d.schemas.map (·.1)).Nodup) (hperm : d.schemas.Perm schemas)
    (h : Twins d components schemas a b) {key : String} (hv : Pointer.step a key = some v)
    (hw : Pointer.step b key = some w) : Twins d components schemas v w := by
  cases h with
  | same =>
    obtain rfl := Option.some.inj (hv.symm.trans hw)
    exact .same v
  | root =>
    rcases Pointer.step_setField hcomponents hv hw with ⟨rfl, rfl⟩ | rfl
    · exact .components
    · exact .same v
  | components =>
    rcases Pointer.step_setField hschemas hv hw with ⟨rfl, rfl⟩ | rfl
    · exact .schemas
    · exact .same v
  | schemas =>
    change fieldNamed? key schemas = some w at hw
    rw [Json.fieldNamed?_of_perm hkeys hperm] at hw
    obtain rfl := Option.some.inj (hv.symm.trans hw)
    exact .same v

theorem follow (hcomponents : d.root.get? "components" = some components)
    (hschemas : components.get? "schemas" = some (.obj d.schemas))
    (hkeys : (d.schemas.map (·.1)).Nodup) (hperm : d.schemas.Perm schemas)
    (h : Twins d components schemas a b) {keys : List String} (hv : Pointer.follow a keys = some v)
    (hw : Pointer.follow b keys = some w) : Twins d components schemas v w := by
  induction keys generalizing a b with
  | nil =>
    obtain rfl := Option.some.inj hv
    obtain rfl := Option.some.inj hw
    exact h
  | cons key rest ih =>
    obtain ⟨next, hnext, hv⟩ := Option.bind_eq_some_iff.1 hv
    obtain ⟨next', hnext', hw⟩ := Option.bind_eq_some_iff.1 hw
    exact ih (h.step hcomponents hschemas hkeys hperm hnext hnext') hv hw

theorem content_eq (hkeys : (d.schemas.map (·.1)).Nodup) (hperm : d.schemas.Perm schemas)
    (h : Twins d components schemas a b) : b.get? "content" = a.get? "content" := by
  cases h with
  | same => rfl
  | root => exact Json.get?_setField_ne (by decide)
  | components => exact Json.get?_setField_ne (by decide)
  | schemas => exact Json.fieldNamed?_of_perm hkeys hperm "content"

end Twins

/-- The schemas that are listed are the named schemas. -/
theorem schemas_withSchemas (hdoc : ofJson d.root = .ok d) (hperm : schemas.Perm d.schemas) :
    (d.withSchemas schemas).schemas = schemas := by
  rcases withSchemas_cases hdoc with ⟨hnone, hself⟩ | ⟨components, hcomponents, hschemas, hplaced⟩
  · rw [hnone] at hperm
    rw [hself, hnone, hperm.eq_nil]
  · rw [hplaced, Document.schemas, Json.getPath?_setField hcomponents hschemas]
    rfl

theorem ofJson_withSchemas (hdoc : ofJson d.root = .ok d) (schemas : List (String × Json)) :
    ofJson (d.withSchemas schemas).root = .ok (d.withSchemas schemas) := by
  rcases withSchemas_cases hdoc with ⟨-, hself⟩ | ⟨components, hcomponents, hschemas, hplaced⟩
  · rw [hself]
    exact hdoc
  · obtain ⟨hroot, hpaths, -⟩ := ofJson_eq_ok_iff.1 hdoc
    rw [hplaced]
    refine ofJson_eq_ok_iff.2 ⟨?_, ?_, ?_⟩
    · rw [Json.isObject_setField, hroot]
    · rw [Json.get?_setField_ne (by decide), hpaths]
    · rw [Json.getPath?_setField hcomponents hschemas]
      rfl

theorem endpoints_withSchemas (hdoc : ofJson d.root = .ok d) (schemas : List (String × Json)) :
    (d.withSchemas schemas).endpoints = d.endpoints := by
  rcases withSchemas_cases hdoc with ⟨-, hself⟩ | ⟨components, hcomponents, hschemas, hplaced⟩
  · rw [hself]
  · rw [hplaced, Document.endpoints, Document.endpoints, Json.get?_setField_ne (by decide)]

/-- Another order of the named schemas makes an equal value. -/
theorem same_withSchemas (hdoc : ofJson d.root = .ok d) (hproper : d.root.Proper)
    (hperm : schemas.Perm d.schemas) :
    d.root.same (d.withSchemas schemas).root = true ∧ (d.withSchemas schemas).root.Proper := by
  rcases withSchemas_cases hdoc with ⟨-, hself⟩ | ⟨components, hcomponents, hschemas, hplaced⟩
  · rw [hself]
    exact ⟨hproper.same, hproper⟩
  · have hproper' := Json.hereditary_proper.get? hproper hcomponents
    have hlisted := Json.hereditary_proper.get? hproper' hschemas
    obtain ⟨hkeys, heach⟩ := Json.distinctKeys_obj_iff.1 hlisted.keys
    have hkeys' : (Json.obj schemas).DistinctKeys := Json.distinctKeys_obj_iff.2
      ⟨(hperm.map (·.1)).nodup_iff.2 hkeys, fun f hf => heach f (hperm.subset hf)⟩
    have hsame := Json.same_setField hproper hcomponents
      (Json.same_setField hproper' hschemas (Json.same_obj_of_perm hlisted hperm.symm))
    rw [hplaced]
    exact ⟨hsame, hproper.of_same (Json.distinctKeys_setField hproper.keys
      (Json.distinctKeys_setField hproper'.keys hkeys' "schemas") "components") hsame⟩

/-- The order of media types under a pointer does not depend on that of the named schemas. -/
theorem contents_withSchemas (hdoc : ofJson d.root = .ok d) (hproper : d.root.Proper)
    (hperm : schemas.Perm d.schemas) {pointer : String} {node node' : Json}
    (hnode : d.resolve pointer = .ok node)
    (hnode' : (d.withSchemas schemas).resolve pointer = .ok node') :
    node'.get? "content" = node.get? "content" := by
  rcases withSchemas_cases hdoc with ⟨-, hself⟩ | ⟨components, hcomponents, hschemas, hplaced⟩
  · rw [hself] at hnode'
    rw [Except.ok.inj (hnode.symm.trans hnode')]
  · have hproper' := Json.hereditary_proper.get? hproper hcomponents
    have hkeys := (Json.proper_obj_iff.1 (Json.hereditary_proper.get? hproper' hschemas)).1
    rw [hplaced] at hnode'
    obtain ⟨keys, hpointer, hfollow⟩ := Option.bind_eq_some_iff.1 (resolve_eq_ok_iff.1 hnode)
    obtain ⟨keys', hpointer', hfollow'⟩ := Option.bind_eq_some_iff.1 (resolve_eq_ok_iff.1 hnode')
    obtain rfl := Option.some.inj (hpointer.symm.trans hpointer')
    exact (Twins.root.follow hcomponents hschemas hkeys hperm.symm hfollow hfollow').content_eq hkeys
      hperm.symm

/-- A document agrees with itself under any order of its named schemas. -/
theorem reordered_withSchemas (hdoc : ofJson d.root = .ok d) (hproper : d.root.Proper)
    (hperm : schemas.Perm d.schemas) : Reordered d (d.withSchemas schemas) where
  doc := hdoc
  doc' := ofJson_withSchemas hdoc schemas
  proper := hproper
  proper' := (same_withSchemas hdoc hproper hperm).2
  same := (same_withSchemas hdoc hproper hperm).1
  schemas := by
    rw [schemas_withSchemas hdoc hperm]
    exact hperm.symm
  endpoints := endpoints_withSchemas hdoc schemas
  contents _ _ _ := contents_withSchemas hdoc hproper hperm

end Document

end OpenApiServer
