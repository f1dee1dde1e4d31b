import Mathlib.Algebra.GroupWithZero.Nat
import OpenApiServer.Build.Boxing
import OpenApiServer.Declaration.Counts
import OpenApiServer.Proofs.Data.List

/-!
# What boxing makes of declarations

Each declaration is boxed on its own: fields of a record can get boxes, and the shared fields of a
union are found anew. Names, keys and kinds stay, so that every field is found again by its record
and its JSON name.
-/

namespace OpenApiServer

namespace Boxing

variable {types : List Declaration}

/-! ## Declarations -/

/-- The fields of a record after boxing. -/
def boxedFields (edges : Edges) (decl : RecordDecl) : List Field :=
  decl.fields.map (boxField edges decl.name)

/-- Whether a declaration is another one after boxing. The shared fields of a union are found
anew. -/
inductive Boxed (edges : Edges) : Declaration → Declaration → Prop where
  | record (decl : RecordDecl) : Boxed edges (.record decl)
    (.record { decl with fields := boxedFields edges decl })
  | enum (decl : EnumDecl) : Boxed edges (.enum decl) (.enum decl)
  | union (decl : UnionDecl) (shared : List SharedField) :
    Boxed edges (.union decl) (.union { decl with sharedFields := shared })
  | aliased (decl : AliasDecl) : Boxed edges (.alias decl) (.alias decl)
  | response (decl : ResponseDecl) : Boxed edges (.response decl) (.response decl)

namespace Boxed

variable {edges : Edges} {t t' : Declaration}

theorem name_eq (h : Boxed edges t t') : t'.name = t.name := by cases h <;> rfl

theorem isRecord_eq (h : Boxed edges t t') : t'.isRecord = t.isRecord := by cases h <;> rfl

theorem isEnum_eq (h : Boxed edges t t') : t'.isEnum = t.isEnum := by cases h <;> rfl

theorem isAlias_eq (h : Boxed edges t t') : t'.isAlias = t.isAlias := by cases h <;> rfl

end Boxed

theorem boxed_boxDeclaration (edges : Edges) (t : Declaration) :
    Boxed edges t (boxDeclaration edges t) := by
  cases t <;> constructor

theorem Boxed.refresh {edges : Edges} {t t' : Declaration} (h : Boxed edges t t')
    (records : List (TypeName × List Field)) : Boxed edges t (refreshDeclaration records t') := by
  cases h with
  | record decl => exact .record decl
  | enum decl => exact .enum decl
  | union decl shared =>
    rw [refreshDeclaration, refreshUnion]
    split_ifs
    · exact .union decl shared
    · split
      · exact .union decl _
      · exact .union decl shared
  | aliased decl => exact .aliased decl
  | response decl => exact .response decl

/-- Declarations are boxed one by one. -/
theorem boxed_box (types : List Declaration) (conversions : List Conversion) :
    List.Forall₂ (Boxed (edges types)) types (box types conversions).types := by
  rw [box]
  dsimp only
  split
  · exact List.forall₂_map_right_iff.2 (List.forall₂_same.2 fun t _ => boxed_boxDeclaration _ t)
  · dsimp only
    rw [List.map_map]
    refine List.forall₂_map_right_iff.2 (List.forall₂_same.2 fun t _ => ?_)
    exact (boxed_boxDeclaration _ t).refresh _

theorem boxedFields_eq_sum (types : List Declaration) (conversions : List Conversion) :
    (box types conversions).boxedFields = (types.map (boxedFieldCount (edges types))).sum := by
  rw [List.sum_eq_foldr, List.foldr_map, box]
  dsimp only
  split
  next hnone => exact hnone.symm
  next => rfl

/-- Boxing keeps the declared names. -/
theorem names_box (types : List Declaration) (conversions : List Conversion) :
    (box types conversions).types.map (·.name) = types.map (·.name) :=
  map_eq_of_forall₂ (fun _ _ h => h.name_eq) (boxed_box types conversions)

/-! ## Fields -/

theorem name_boxField (edges : Edges) (owner : TypeName) (f : Field) :
    (boxField edges owner f).name = f.name := by
  rw [boxField]
  split <;> rfl

theorem jsonName_boxField (edges : Edges) (owner : TypeName) (f : Field) :
    (boxField edges owner f).jsonName = f.jsonName := by
  rw [boxField]
  split <;> rfl

/-- Where no field of a record closes a cycle, none of them is boxed. -/
theorem boxedFields_eq_self {edges : Edges} {decl : RecordDecl}
    (h : boxedFieldCount edges (.record decl) = 0) : boxedFields edges decl = decl.fields := by
  rw [boxedFieldCount, List.countP_eq_zero] at h
  rw [boxedFields, List.map_congr_left (g := id) fun f hf => ?_, List.map_id]
  rw [boxField, if_neg (h f hf), id]

theorem boxedFieldCount_eq_zero {edges : Edges}
    (h : types.foldr (fun t count => boxedFieldCount edges t + count) 0 = 0) :
    ∀ t ∈ types, boxedFieldCount edges t = 0 := by
  induction types with
  | nil => simp
  | cons t rest ih =>
    obtain ⟨hfirst, hrest⟩ := Nat.add_eq_zero_iff.1 h
    exact List.forall_mem_cons.2 ⟨hfirst, ih hrest⟩

theorem boxDeclaration_eq_self {edges : Edges} {t : Declaration} (h : boxedFieldCount edges t = 0) :
    boxDeclaration edges t = t := by
  cases t with
  | record decl =>
    have hfields : decl.fields.map (boxField edges decl.name) = decl.fields := boxedFields_eq_self h
    rw [boxDeclaration, hfields]
  | _ => rfl

/-- Where no field closes a cycle, nothing is boxed. -/
theorem box_eq_self (conversions : List Conversion)
    (h : ∀ t ∈ types, boxedFieldCount (edges types) t = 0) :
    box types conversions = ⟨types, conversions, 0⟩ := by
  have hcount : types.foldr (fun t count => boxedFieldCount (edges types) t + count) 0 = 0 :=
    List.foldrRecOn (motive := (· = 0)) types _ rfl fun count hzero t ht => by rw [h t ht, hzero]
  have hsame : types.map (boxDeclaration (edges types)) = types.map id :=
    List.map_congr_left fun t ht => boxDeclaration_eq_self (h t ht)
  rw [box]
  dsimp only
  rw [if_pos hcount, hsame, List.map_id]

theorem lookup_recordFields {decl : RecordDecl} (hnames : (types.map (·.name)).Nodup)
    (h : .record decl ∈ types) : (recordFields types).lookup decl.name = some decl.fields := by
  induction types with
  | nil => cases h
  | cons t rest ih =>
    obtain ⟨hfirst, hrest⟩ := List.nodup_cons.1 hnames
    rcases List.mem_cons.1 h with rfl | hmem
    · exact List.lookup_cons_self ..
    · have hne : decl.name ≠ t.name := fun heq =>
        hfirst (List.mem_map.2 ⟨_, hmem, heq⟩)
      cases t with
      | record other =>
        have hother : (decl.name == other.name) = false := beq_false_of_ne hne
        change ((other.name, other.fields) :: recordFields rest).lookup decl.name = _
        rw [List.lookup_cons, hother]
        exact ih hrest hmem
      | _ => exact ih hrest hmem

/-- The fields of a record are found after boxing by its name. -/
theorem lookup_boxed (edges : Edges) {decl : RecordDecl} (hnames : (types.map (·.name)).Nodup)
    (h : .record decl ∈ types) :
    (recordFields (types.map (boxDeclaration edges))).lookup decl.name =
      some (boxedFields edges decl) := by
  have hboxed : Declaration.record { decl with fields := boxedFields edges decl } ∈
      types.map (boxDeclaration edges) := List.mem_map.2 ⟨_, h, rfl⟩
  have hnodup : ((types.map (boxDeclaration edges)).map (·.name)).Nodup := by
    simpa [Function.comp_def, (boxed_boxDeclaration _ _).name_eq] using hnames
  exact lookup_recordFields hnodup hboxed

/-- A field of a record is found in the record after boxing by its JSON name. -/
theorem fieldOf?_boxed (edges : Edges) {decl : RecordDecl} {f : Field}
    (hnames : (types.map (·.name)).Nodup) (h : .record decl ∈ types) (hf : f ∈ decl.fields) :
    ∃ g ∈ boxedFields edges decl, g.jsonName = f.jsonName ∧
      fieldOf? (recordFields (types.map (boxDeclaration edges))) decl.name f.jsonName = some g := by
  rw [fieldOf?, lookup_boxed edges hnames h, Option.bind_some]
  cases hfind : (boxedFields edges decl).find? (·.jsonName == f.jsonName) with
  | some g =>
    have hkey := List.find?_some hfind
    exact ⟨g, List.mem_of_find?_eq_some hfind, beq_iff_eq.1 hkey, rfl⟩
  | none =>
    have hnot := List.find?_eq_none.1 hfind _ (List.mem_map_of_mem hf)
    simp [jsonName_boxField] at hnot

end Boxing

end OpenApiServer
