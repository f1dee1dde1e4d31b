import OpenApiServer.Proofs.Build.Keeps
import OpenApiServer.Proofs.Build.Reaching
import OpenApiServer.Proofs.Json.Within

/-!
# Merging without a bound

`recordFieldsOn` and `mergeFragmentOn` recur for as long as it takes, and have no result where they
never end. Where no schema nests itself they do end, with the result that a depth of `mergeDepth`
finds: entering a name leaves one name fewer to be entered, and between two names each part nests
fewer schemas than the one that it stands in.
-/

namespace OpenApiServer

/-- A build that need not end. -/
abbrev Unbounded := StateT Registry (ExceptT BuildError Option)

namespace Build

/-- A step that ends. -/
def ending {α : Type} (x : Build α) : Unbounded α := fun r => some (x r)

end Build

open Build

mutual

/-- The fields of a named record, however deep its parts nest. -/
def Document.recordFieldsOn (d : Document) (name : TypeName) (node : Json) :
    Unbounded (List Field) := do
  match (← ending get).fieldsOf? name with
  | some fields => return fields
  | none =>
    let fields ← match ← ending (Schema.classify name.text node) with
      | .object properties required => ending (objectFields d name properties required)
      | .allOf parts => do
        ending (step (·.enterMerge name))
        let merged ← parts.foldlM (fun merged part => d |>.mergeFragmentOn name merged part) []
        ending (modify Registry.leaveMerge)
        pure merged
      | _ => ending (fail (.unsupported name.text .notMergeable))
    let fields := distinctNames fields
    ending (modify (·.keepFields name fields))
    return fields
  partial_fixpoint

/-- Merges the fields of one fragment, however deep it nests. -/
def Document.mergeFragmentOn (d : Document) (owner : TypeName) (merged : List Field)
    (fragment : Json) : Unbounded (List Field) := do
  match ← ending (fragmentComponent d owner fragment) with
  | some (component, node) => return absorb merged (← d |>.recordFieldsOn component node)
  | none =>
    match ← ending (Schema.classify owner.text (← ending (d.dereference fragment))) with
    | .object properties required =>
      return absorb merged (← ending (objectFields d owner properties required))
    | .allOf parts =>
      parts.foldlM (fun merged part => d |>.mergeFragmentOn owner merged part) merged
    | _ => ending (fail (.unsupported owner.text .fragmentNotObject))
  partial_fixpoint

end

namespace Build

variable {α β : Type} {d : Document} {r : Registry}

/-- Steps that end one after the other. -/
theorem bind_eq_some {x : Build α} {f : α → Build β} {y : Unbounded α} {g : α → Unbounded β}
    (hx : y r = some (x r)) (hf : ∀ a s, x r = .ok (a, s) → g a s = some (f a s)) :
    (y >>= g) r = some ((x >>= f) r) := by
  cases hrun : x r with
  | error e => simp [bind, StateT.bind, ExceptT.bind, ExceptT.mk, ExceptT.bindCont, Except.bind, hx, hrun]
  | ok p =>
    have hnext := hf p.1 p.2 hrun
    simpa [bind, StateT.bind, ExceptT.bind, ExceptT.mk, ExceptT.bindCont, Except.bind, hx, hrun]
      using hnext

theorem pure_eq_some (a : α) : (pure a : Unbounded α) r = some ((pure a : Build α) r) := rfl

/-- A first step that ends. -/
theorem ending_bind_eq_some {x : Build α} {f : α → Build β} {g : α → Unbounded β}
    (hf : ∀ a s, x r = .ok (a, s) → g a s = some (f a s)) :
    (ending x >>= g) r = some ((x >>= f) r) :=
  bind_eq_some rfl hf

/-! ## How deep merges nest -/

/-- How many schemas a schema nests. -/
noncomputable def nesting (d : Document) (node : Json) : Nat :=
  {inner | Relation.TransGen (Nests d) node inner}.ncard

/-- How many named schemas are not being merged. -/
def waiting (d : Document) (stack : List TypeName) : Nat :=
  (d.schemaTypes.filter (· ∉ stack)).length

/-- How deep a merge nests at most before it enters a name, if some names can still be entered. -/
def depthFor (d : Document) (names : Nat) : Nat := names * (d.root.size + 2) + 1

theorem Nests.within {node inner : Json} (h : Nests d node inner) (hnode : d.root.Within node) :
    d.root.Within inner := by
  obtain ⟨part, hpart, -, hleads⟩ := h
  have hwithin := Json.hereditary_within d.root
  exact hwithin.dereference (.refl d.root) (hpart.holds hwithin hnode) hleads

theorem nested_subset_within {node : Json} (hnode : d.root.Within node) :
    {inner | Relation.TransGen (Nests d) node inner} ⊆ {v | d.root.Within v} := by
  intro inner hinner
  induction hinner with
  | single h => exact h.within hnode
  | tail _ h ih => exact h.within ih

theorem nesting_le {node : Json} (hnode : d.root.Within node) : nesting d node ≤ d.root.size :=
  Nat.le_trans (Set.ncard_le_ncard (nested_subset_within hnode) (Json.finite_within d.root))
    (Json.ncard_within_le d.root)

/-- A part nests fewer schemas than the schema that it stands in. -/
theorem nesting_lt {node inner : Json} (hself : ¬Relation.TransGen (Nests d) inner inner)
    (hnode : d.root.Within node) (h : Nests d node inner) : nesting d inner < nesting d node := by
  refine Set.ncard_lt_ncard ⟨fun v hv => .head h hv, fun hsub => ?_⟩
    ((Json.finite_within d.root).subset (nested_subset_within hnode))
  exact hself (hsub (.single h))

theorem waiting_concat (stack : List TypeName) (name : TypeName) :
    waiting d (stack ++ [name]) =
      ((d.schemaTypes.filter (· ∉ stack)).filter (· ≠ name)).length := by
  rw [waiting, List.filter_filter]
  congr 1
  refine List.filter_congr fun n _ => ?_
  by_cases hn : n = name
  · simp [hn]
  · simp [hn]

theorem waiting_concat_lt {stack : List TypeName} {name : TypeName} (hname : name ∈ d.schemaTypes)
    (hnew : name ∉ stack) : waiting d (stack ++ [name]) < waiting d stack := by
  rw [waiting_concat]
  refine List.length_filter_lt_length_iff_exists.2 ⟨name, ?_, by simp⟩
  exact List.mem_filter.2 ⟨hname, by simpa using hnew⟩

theorem length_schemas_le : d.schemas.length ≤ d.root.size := by
  rw [Document.schemas]
  cases hfound : d.root.getPath? ["components", "schemas"] with
  | none => exact Nat.zero_le _
  | some schemas =>
    obtain ⟨components, hcomponents, hrest⟩ := Option.bind_eq_some_iff.1 hfound
    obtain ⟨found, hschemas, hlast⟩ := Option.bind_eq_some_iff.1 hrest
    obtain rfl := Option.some.inj hlast
    have hless := Json.size_get?_lt hcomponents
    have hless' := Json.size_get?_lt hschemas
    cases found with
    | obj fields =>
      have hlength := Json.length_le_sizeFields fields
      rw [Json.size] at hless'
      change fields.length ≤ _
      omega
    | _ => exact Nat.zero_le _

theorem waiting_le (stack : List TypeName) : waiting d stack ≤ d.root.size := by
  refine Nat.le_trans (List.length_filter_le _ _) ?_
  rw [Document.schemaTypes, List.length_map]
  exact length_schemas_le

/-! ## Runs at a depth -/

/-- Whether the fields of a record are found out at some depth if this leaves room for what is merged
inside its name. -/
def RecordsEnd (d : Document) (depth : Nat) : Prop :=
  ∀ ⦃r : Registry⦄ ⦃name : TypeName⦄ ⦃node : Json⦄, d.root.Within node → 1 ≤ depth →
    (name ∉ r.merging →
      depthFor d (waiting d (r.merging ++ [name])) + (d.root.size + 2) ≤ depth) →
    d.recordFieldsOn name node r = some (recordFieldsFrom d depth name node r)

/-- Whether the parts of a schema are merged at some depth if this leaves room for what they nest and
for what is merged inside further names. -/
def PartsEnd (d : Document) (depth : Nat) : Prop :=
  ∀ ⦃r : Registry⦄ ⦃owner : TypeName⦄ ⦃merged : List Field⦄ ⦃node part : Json⦄,
    d.root.Within node → IsPart node part →
      depthFor d (waiting d r.merging) + nesting d node + 1 ≤ depth →
    d.mergeFragmentOn owner merged part r = some (mergeFragmentFrom d depth owner merged part r)

section Ending

variable {root : Json} (hdoc : Document.ofJson root = .ok d)
  (hself : ∀ node, d.root.Within node → ¬Relation.TransGen (Nests d) node node) {depth : Nat}

theorem PartsEnd.foldlM (hpart : PartsEnd d depth) {owner : TypeName} {node : Json}
    {parts : List Json} {merged : List Field} (hnode : d.root.Within node)
    (hparts : ∀ part ∈ parts, IsPart node part)
    (hdepth : depthFor d (waiting d r.merging) + nesting d node + 1 ≤ depth) :
    parts.foldlM (fun merged part => d |>.mergeFragmentOn owner merged part) merged r =
      some (parts.foldlM (mergeFragmentFrom d depth owner) merged r) := by
  induction parts generalizing r merged with
  | nil => exact pure_eq_some merged
  | cons part rest ih =>
    obtain ⟨hfirst, hrest⟩ := List.forall_mem_cons.1 hparts
    rw [List.foldlM_cons, List.foldlM_cons]
    refine bind_eq_some (hpart hnode hfirst hdepth) fun next s hrun => ih hrest ?_
    rwa [mergeFragmentFrom_merging hrun]

theorem PartsEnd.recordsEnd (hparts : PartsEnd d depth) : RecordsEnd d (depth + 1) := by
  intro r name node hnode _ hdepth
  rw [Document.recordFieldsOn, recordFieldsFrom]
  refine ending_bind_eq_some fun known s hget => ?_
  obtain ⟨rfl, rfl⟩ := get_eq_ok.1 hget
  cases s.fieldsOf? name with
  | some fields => exact pure_eq_some fields
  | none =>
    refine ending_bind_eq_some fun schema s hschema => ?_
    obtain ⟨hclassify, rfl⟩ := lift_eq_ok.1 hschema
    have hkeep (fields : List Field) (s : Registry) :
        (do ending (modify (·.keepFields name fields)); return fields : Unbounded (List Field)) s =
          some ((do modify (·.keepFields name fields); return fields : Build (List Field)) s) :=
      ending_bind_eq_some fun _ _ _ => pure_eq_some fields
    cases schema with
    | object properties required => exact ending_bind_eq_some fun own s _ => hkeep _ s
    | allOf parts =>
      refine ending_bind_eq_some fun _ s henter => ?_
      obtain ⟨hnew, rfl⟩ := enterMerge_eq_ok (step_eq_ok.1 henter)
      have hnesting := nesting_le hnode
      have hroom := hdepth hnew
      refine bind_eq_some (hparts.foldlM hnode (fun _ => isPart_of_mem hclassify) ?_)
        fun merged s _ => ?_
      · dsimp only
        omega
      · refine ending_bind_eq_some fun _ s _ => ?_
        exact bind_eq_some (pure_eq_some merged) fun fields s _ => hkeep _ s
    | _ => exact ending_bind_eq_some fun fields s _ => hkeep _ s

include hdoc hself

theorem partsEnd_succ (hrecords : RecordsEnd d depth) (hparts : PartsEnd d depth) :
    PartsEnd d (depth + 1) := by
  intro r owner merged node part hnode hpart hdepth
  rw [Document.mergeFragmentOn, mergeFragmentFrom]
  have hwithin := Json.hereditary_within d.root
  have hpartWithin := hpart.holds hwithin hnode
  refine ending_bind_eq_some fun found s hfound => ?_
  obtain ⟨hcomponent, rfl⟩ := lift_eq_ok.1 hfound
  cases found with
  | some found =>
    obtain ⟨component, inner⟩ := found
    obtain ⟨hrefers, hleads⟩ := fragmentComponent_eq_some hcomponent
    have hinner := hwithin.dereference (.refl d.root) hpartWithin hleads
    refine bind_eq_some (hrecords hinner ?_ fun hnew => ?_) fun fields s _ => pure_eq_some _
    · unfold depthFor at hdepth
      omega
    · have hless := waiting_concat_lt (hrefers.describes hdoc hleads).mem_schemaTypes hnew
      have hmul := Nat.mul_le_mul_right (d.root.size + 2) (Nat.succ_le_of_lt hless)
      unfold depthFor at hdepth ⊢
      rw [Nat.succ_mul] at hmul
      omega
  | none =>
    have hplain := fragmentComponent_eq_none hcomponent
    refine ending_bind_eq_some fun inner s hinner => ?_
    obtain ⟨hleads, rfl⟩ := lift_eq_ok.1 hinner
    refine ending_bind_eq_some fun schema s hschema => ?_
    obtain ⟨hclassify, rfl⟩ := lift_eq_ok.1 hschema
    cases schema with
    | object properties required => exact ending_bind_eq_some fun own s _ => pure_eq_some _
    | allOf parts =>
      have hnests : Nests d node inner := ⟨part, hpart, hplain, hleads⟩
      have hinnerWithin := hnests.within hnode
      have hless := nesting_lt (hself inner hinnerWithin) hnode hnests
      refine hparts.foldlM hinnerWithin (fun _ => isPart_of_mem hclassify) ?_
      omega
    | _ => rfl

theorem recordsEnd_and_partsEnd (depth : Nat) : RecordsEnd d depth ∧ PartsEnd d depth := by
  induction depth with
  | zero =>
    exact ⟨fun _ _ _ _ hdepth => absurd hdepth (by omega), fun _ _ _ _ _ _ _ hdepth => by omega⟩
  | succ depth ih => exact ⟨ih.2.recordsEnd, partsEnd_succ hdoc hself ih.1 ih.2⟩

/-- Merging without a bound ends, with the result that a bounded depth finds. -/
theorem recordFieldsOn_eq {name : TypeName} {node : Json} (hnode : d.root.Within node)
    (r : Registry) : d.recordFieldsOn name node r = some (recordFields d name node r) := by
  have hwaiting := waiting_le (d := d) (r.merging ++ [name])
  refine (recordsEnd_and_partsEnd hdoc hself (mergeDepth d)).1 hnode ?_ fun _ => ?_
  · unfold mergeDepth
    exact Nat.mul_pos (Nat.succ_pos _) (Nat.succ_pos _)
  · have hmul := Nat.mul_le_mul_right (d.root.size + 2) hwaiting
    unfold depthFor mergeDepth
    rw [Nat.add_mul d.root.size]
    omega

end Ending

end Build

end OpenApiServer
