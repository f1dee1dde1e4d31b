import Mathlib.Tactic.SplitIfs
import OpenApiServer.Document.Basic
import OpenApiServer.Proofs.Data.Except
import OpenApiServer.Proofs.Json.Within
import OpenApiServer.Proofs.Text.Split

/-!
# Chains of references

What references end at depends on the pointer of the first one only, and it is the same from each
node on the way.
-/

namespace OpenApiServer.Document

variable {d : Document} {node target : Json}

theorem dereferenceFrom_congr {node' : Json} {pointer : String} {steps : Nat}
    {visited : List String} (h : reference? node = some pointer)
    (h' : reference? node' = some pointer) :
    d.dereferenceFrom steps visited node = d.dereferenceFrom steps visited node' := by
  rw [dereferenceFrom, dereferenceFrom, h, h']

theorem dereference_congr {node' : Json} {pointer : String} (h : reference? node = some pointer)
    (h' : reference? node' = some pointer) : d.dereference node = d.dereference node' :=
  dereferenceFrom_congr h h'

/-- A step to the node that a pointer resolves to, which was not met before. -/
theorem dereferenceFrom_eq_ok {steps : Nat} {visited : List String} {pointer : String}
    (hreference : reference? node = some pointer) :
    d.dereferenceFrom steps visited node = .ok target ↔
      pointer ∉ visited ∧ ∃ rest next, steps = rest + 1 ∧ d.resolve pointer = .ok next ∧
        d.dereferenceFrom rest (pointer :: visited) next = .ok target := by
  rw [dereferenceFrom, hreference]
  by_cases hvisited : pointer ∈ visited
  · simp [hvisited]
  · cases steps with
    | zero => simp [hvisited]
    | succ rest => simp [hvisited, bind_eq_ok_iff]

theorem dereferenceFrom_eq_self {steps : Nat} {visited : List String}
    (h : reference? node = none) : d.dereferenceFrom steps visited node = .ok node := by
  rw [dereferenceFrom, h]

theorem dereference_eq_self (h : reference? node = none) : d.dereference node = .ok node :=
  dereferenceFrom_eq_self h

/-- What is reached is no reference. -/
theorem reference?_of_dereferenceFrom {steps : Nat} {visited : List String} {node : Json}
    (h : d.dereferenceFrom steps visited node = .ok target) : reference? target = none := by
  cases hreference : reference? node with
  | none =>
    rw [dereferenceFrom_eq_self hreference] at h
    obtain rfl := Except.ok.inj h
    exact hreference
  | some pointer =>
    obtain ⟨-, rest, next, rfl, -, hnext⟩ := (dereferenceFrom_eq_ok hreference).1 h
    exact reference?_of_dereferenceFrom hnext

/-- More steps and fewer pointers met so far do no harm. -/
theorem dereferenceFrom_mono {steps steps' : Nat} {visited visited' : List String} {node : Json}
    (hsteps : steps ≤ steps') (hvisited : visited' ⊆ visited)
    (h : d.dereferenceFrom steps visited node = .ok target) :
    d.dereferenceFrom steps' visited' node = .ok target := by
  cases hreference : reference? node with
  | none =>
    rw [dereferenceFrom_eq_self hreference] at h ⊢
    exact h
  | some pointer =>
    obtain ⟨hnew, rest, next, rfl, hresolve, hnext⟩ := (dereferenceFrom_eq_ok hreference).1 h
    obtain ⟨more, rfl⟩ : ∃ more, steps' = more + 1 := ⟨steps' - 1, by omega⟩
    refine (dereferenceFrom_eq_ok hreference).2
      ⟨fun hmem => hnew (hvisited hmem), more, next, rfl, hresolve, ?_⟩
    exact dereferenceFrom_mono (by omega) (List.cons_subset_cons _ hvisited) hnext

/-- From the next node on the way the same node is reached. -/
theorem dereference_of_resolve {pointer : String} {next : Json}
    (hreference : reference? node = some pointer) (hresolve : d.resolve pointer = .ok next)
    (h : d.dereference node = .ok target) : d.dereference next = .ok target := by
  obtain ⟨-, rest, next', hsteps, hresolve', hnext⟩ := (dereferenceFrom_eq_ok hreference).1 h
  obtain rfl := Except.ok.inj (hresolve.symm.trans hresolve')
  exact dereferenceFrom_mono (by omega) (List.nil_subset _) hnext

/-- There are no more pointers of references in a document than it has values. -/
theorem length_pointers_le {pointers : List String} (hnodup : pointers.Nodup)
    (h : ∀ pointer ∈ pointers, ∃ met, d.root.Within met ∧ reference? met = some pointer) :
    pointers.length ≤ d.root.size := by
  have hfinite := Json.finite_within d.root
  have hsub : some '' {p | p ∈ pointers} ⊆ reference? '' {v | d.root.Within v} := by
    rintro _ ⟨pointer, hpointer, rfl⟩
    obtain ⟨met, hmet, hreference⟩ := h pointer hpointer
    exact ⟨met, hmet, hreference⟩
  calc pointers.length = {p | p ∈ pointers}.ncard := by
        rw [← List.toFinset_card_of_nodup hnodup, ← Set.ncard_coe_finset]
        simp
    _ = (some '' {p | p ∈ pointers}).ncard :=
        (Set.ncard_image_of_injective _ (Option.some_injective String)).symm
    _ ≤ (reference? '' {v | d.root.Within v}).ncard := Set.ncard_le_ncard hsub (hfinite.image _)
    _ ≤ {v | d.root.Within v}.ncard := Set.ncard_image_le hfinite
    _ ≤ d.root.size := Json.ncard_within_le d.root

end OpenApiServer.Document

/-!
## References to named schemas

A pointer that names a schema leads through `components` and `schemas` to a key. In a document whose
`components.schemas` is an object the pointer can be resolved only if that key is the name of one
of its schemas.
-/

namespace OpenApiServer

namespace Pointer

theorem keys?_of_schemaName? {pointer name : String} (h : schemaName? pointer = some name) :
    keys? pointer = some ["components", "schemas", name] := by
  rw [schemaName?] at h
  split at h
  next rest hrest =>
    obtain hchars := Text.dropStart?_eq_some_iff.1 hrest
    split_ifs at h with hplain
    obtain rfl := Option.some.inj h
    have hslash : '/' ∉ rest := by
      intro hmem
      exact hplain (by simp [hmem])
    have hpath : Text.splitOn '/' ("components/schemas/".toList ++ rest) =
        ["components".toList, "schemas".toList, rest] := by
      have hroot : "components/schemas/".toList ++ rest =
          "components".toList ++ '/' :: ("schemas".toList ++ '/' :: rest) := by
        simp
      rw [hroot, Text.splitOn_append_sep, Text.splitOn_append_sep,
        Text.splitOn_eq_singleton hslash]
      rfl
    have hkeys : keys? pointer =
        some ((Text.splitOn '/' ("components/schemas/".toList ++ rest)).map unescape) := by
      rw [keys?, hchars]
      rfl
    rw [hkeys, hpath]
    rfl
  next => cases h

/-- A key that is no index leads only into objects. -/
theorem step_eq_get? {key : String} (h : index? key = none) (j : Json) :
    step j key = j.get? key := by
  cases j with
  | arr items => simp [step, h, Json.get?]
  | _ => rfl

theorem follow_schemas_eq (root : Json) :
    follow root ["components", "schemas"] = root.getPath? ["components", "schemas"] := by
  have hcomponents : index? "components" = none := by decide
  have hschemas : index? "schemas" = none := by decide
  simp only [follow, Json.getPath?, step_eq_get? hcomponents, step_eq_get? hschemas]

end Pointer

namespace Document

/-- The types that stand for the named schemas. -/
def schemaTypes (d : Document) : List TypeName := d.schemas.map fun s => .ofText s.1

/-- Whether a reference to a named schema that can be resolved leads to one of `names`. -/
def Covered (d : Document) (names : List TypeName) : Prop :=
  ∀ ⦃pointer name node⦄, Pointer.schemaName? pointer = some name →
    d.resolve pointer = .ok node → TypeName.ofText name ∈ names

theorem Covered.mono {d : Document} {names names' : List TypeName} (h : d.Covered names)
    (hsub : names ⊆ names') : d.Covered names' :=
  fun _ _ _ hname hresolve => hsub (h hname hresolve)

theorem root_eq_of_ofJson {root : Json} {d : Document} (h : ofJson root = .ok d) :
    d.root = root ∧ isOtherThanObject (Pointer.follow root ["components", "schemas"]) = false := by
  rw [ofJson] at h
  split_ifs at h with hroot hpaths hschemas
  obtain rfl := Except.ok.inj h
  exact ⟨rfl, Bool.eq_false_iff.2 hschemas⟩

/-- Below `components.schemas` a key leads to the schema of its name. -/
theorem follow_schema_eq {d : Document}
    (hobject : isOtherThanObject (Pointer.follow d.root ["components", "schemas"]) = false)
    (name : String) :
    Pointer.follow d.root ["components", "schemas", name] = fieldNamed? name d.schemas := by
  have hsplit : Pointer.follow d.root ["components", "schemas", name] =
      (Pointer.follow d.root ["components", "schemas"]).bind (Pointer.step · name) := by
    simp [Pointer.follow, Option.bind_assoc]
  rw [hsplit, Document.schemas, ← Pointer.follow_schemas_eq]
  cases hschemas : Pointer.follow d.root ["components", "schemas"] with
  | none => rfl
  | some schemas =>
    rw [hschemas] at hobject
    cases schemas with
    | obj fields => rfl
    | _ => cases hobject

/-- A pointer that names a schema leads to that schema, or nowhere. -/
theorem resolve_schema_eq_ok_iff {root : Json} {d : Document} (hdoc : ofJson root = .ok d)
    {pointer name : String} {node : Json} (hname : Pointer.schemaName? pointer = some name) :
    d.resolve pointer = .ok node ↔ fieldNamed? name d.schemas = some node := by
  obtain ⟨rfl, hobject⟩ := root_eq_of_ofJson hdoc
  rw [resolve, Pointer.resolve?, Pointer.keys?_of_schemaName? hname, Option.bind_some,
    follow_schema_eq hobject]
  cases fieldNamed? name d.schemas <;> simp

theorem mem_schemas_of_resolve {root : Json} {d : Document} (hdoc : ofJson root = .ok d)
    {pointer name : String} {node : Json} (hname : Pointer.schemaName? pointer = some name)
    (h : d.resolve pointer = .ok node) : (name, node) ∈ d.schemas :=
  mem_of_fieldNamed? ((resolve_schema_eq_ok_iff hdoc hname).1 h)

theorem covered_schemaTypes {root : Json} {d : Document} (h : ofJson root = .ok d) :
    d.Covered d.schemaTypes := by
  intro pointer name node hname hresolve
  exact List.mem_map.2 ⟨(name, node), mem_schemas_of_resolve h hname hresolve, rfl⟩

end Document

end OpenApiServer
