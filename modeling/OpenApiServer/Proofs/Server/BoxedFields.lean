import OpenApiServer.Proofs.Server.Declarations

/-!
# Which fields get boxes

A field of a record gets a box exactly if the declared type that it holds inline leads back to the
record. The box is put around the name of that type, inside the option if there is one, and nothing
else that a declaration holds inline changes. Afterwards no record leads back to itself, so boxing
finds nothing to do when it runs again.
-/

namespace OpenApiServer

open Relation (TransGen ReflTransGen)

/-! ## One box around a name -/

namespace TypeExpr

/-- Whether no option stands right inside another one, at any depth. -/
def SingleOptions : TypeExpr → Prop
  | .primitive _ => True
  | .named _ => True
  | .list item => item.SingleOptions
  | .option inner => inner.isOption = false ∧ inner.SingleOptions
  | .box inner => inner.SingleOptions

/-- Whether the second type is the first with one box more: around the name that is all of the type,
or all that is in its option. -/
inductive BoxedAround (name : TypeName) : TypeExpr → TypeExpr → Prop where
  | named : BoxedAround name (.named name) (.box (.named name))
  | option : BoxedAround name (.option (.named name)) (.option (.box (.named name)))

theorem BoxedAround.ne {name : TypeName} {t t' : TypeExpr} (h : BoxedAround name t t') :
    t' ≠ t := by
  cases h <;> nofun

theorem boxedAround_boxInline {t : TypeExpr} {name : TypeName} (hoptions : t.SingleOptions)
    (h : t.inlineTarget? = some name) : BoxedAround name t t.boxInline := by
  cases t with
  | named other =>
    obtain rfl := Option.some.inj h
    exact .named
  | option inner =>
    cases inner with
    | named other =>
      obtain rfl := Option.some.inj h
      exact .option
    | option => cases hoptions.1
    | primitive | list | box => cases h
  | primitive | list | box => cases h

end TypeExpr

namespace Declaration

/-- The fields of a record. -/
def fields : Declaration → List Field
  | .record decl => decl.fields
  | _ => []

end Declaration

namespace Boxing

variable {types types' : List Declaration}

/-! ## What boxing changes -/

/-- Whether a field of `owner` is another one after boxing: the type alone can change, it does if
the type held inline leads back to the owner, and then by one box around the name of that type. -/
structure FieldBoxed (types : List Declaration) (owner : TypeName) (f f' : Field) : Prop where
  others : f' = { f with type := f'.type }
  changes : f'.type ≠ f.type ↔
    ∃ target, f.type.inlineTarget? = some target ∧ ReflTransGen (HoldsInline types) target owner
  box : f'.type ≠ f.type → ∃ name, f.type.BoxedAround name f'.type

/-- Whether a declaration is another one after boxing. The shared fields of a union, which are
accessors and hold nothing, are found anew. -/
inductive DeclarationBoxed (types : List Declaration) : Declaration → Declaration → Prop where
  | record (decl : RecordDecl) {fields : List Field}
    (boxed : List.Forall₂ (FieldBoxed types decl.name) decl.fields fields) :
    DeclarationBoxed types (.record decl) (.record { decl with fields := fields })
  | enum (decl : EnumDecl) : DeclarationBoxed types (.enum decl) (.enum decl)
  | union (decl : UnionDecl) (shared : List SharedField) :
    DeclarationBoxed types (.union decl) (.union { decl with sharedFields := shared })
  | aliased (decl : AliasDecl) : DeclarationBoxed types (.alias decl) (.alias decl)
  | response (decl : ResponseDecl) : DeclarationBoxed types (.response decl) (.response decl)

/-- How many fields of records have another type than before, both lists in one order. -/
def changedFields (types types' : List Declaration) : Nat :=
  ((types.flatMap (·.fields)).zip (types'.flatMap (·.fields))).countP fun p => p.1.type ≠ p.2.type

theorem fieldBoxed_boxField {owner : TypeName} {f : Field} (hoptions : f.type.SingleOptions) :
    FieldBoxed types owner f (boxField (edges types) owner f) := by
  by_cases hcloses : closesCycle (edges types) owner f = true
  · obtain ⟨target, htarget, hback⟩ := closesCycle_iff.1 hcloses
    have hbox := TypeExpr.boxedAround_boxInline hoptions htarget
    rw [boxField, if_pos hcloses]
    exact ⟨rfl, iff_of_true hbox.ne ⟨target, htarget, hback⟩, fun _ => ⟨target, hbox⟩⟩
  · rw [boxField, if_neg hcloses]
    refine ⟨rfl, iff_of_false (not_not.2 rfl) fun hback => ?_, fun hne => absurd rfl hne⟩
    exact hcloses (closesCycle_iff.2 hback)

theorem declarationBoxed_of_boxed {t t' : Declaration}
    (hoptions : ∀ f ∈ t.fields, f.type.SingleOptions) (h : Boxed (edges types) t t') :
    DeclarationBoxed types t t' := by
  cases h with
  | record decl =>
    refine .record decl (List.forall₂_map_right_iff.2 (List.forall₂_same.2 fun f hf => ?_))
    exact fieldBoxed_boxField (hoptions f hf)
  | enum decl => exact .enum decl
  | union decl shared => exact .union decl shared
  | aliased decl => exact .aliased decl
  | response decl => exact .response decl

/-! ## The count -/

theorem changes_boxField {owner : TypeName} {f : Field} (hoptions : f.type.SingleOptions) :
    f.type ≠ (boxField (edges types) owner f).type ↔ closesCycle (edges types) owner f = true := by
  rw [ne_comm, (fieldBoxed_boxField hoptions).changes, closesCycle_iff]

theorem Boxed.changedCount_eq {t t' : Declaration} (h : Boxed (edges types) t t')
    (hoptions : ∀ f ∈ t.fields, f.type.SingleOptions) :
    ((t.fields.zip t'.fields).countP fun p => p.1.type ≠ p.2.type) =
      boxedFieldCount (edges types) t := by
  cases h with
  | record decl =>
    change (decl.fields.zip (decl.fields.map (boxField (edges types) decl.name))).countP _ = _
    rw [boxedFieldCount, ← List.map_prod_left_eq_zip, List.countP_map]
    refine List.countP_congr fun f hf => ?_
    simpa using changes_boxField (hoptions f hf)
  | _ => rfl

theorem Boxed.length_fields {t t' : Declaration} (h : Boxed (edges types) t t') :
    t.fields.length = t'.fields.length := by
  cases h with
  | record decl => exact (List.length_map _).symm
  | _ => rfl

theorem changedFields_eq_sum {some some' : List Declaration}
    (hoptions : ∀ t ∈ some, ∀ f ∈ t.fields, f.type.SingleOptions)
    (h : List.Forall₂ (Boxed (edges types)) some some') :
    changedFields some some' = (some.map (boxedFieldCount (edges types))).sum := by
  induction h with
  | nil => rfl
  | @cons t t' rest rest' hfirst _ ih =>
    obtain ⟨hown, hlater⟩ := List.forall_mem_cons.1 hoptions
    rw [List.map_cons, List.sum_cons, ← ih hlater, ← hfirst.changedCount_eq hown, changedFields,
      List.flatMap_cons, List.flatMap_cons, List.zip_append hfirst.length_fields,
      List.countP_append, changedFields]

/-! ## Afterwards -/

section Afterwards

variable {conversions : List Conversion} (hnames : (types.map (·.name)).Nodup)

include hnames

/-- No record leads back to itself after boxing. A chain that comes back passes through declarations
that are no records, and the record is the only declaration of its name. -/
theorem record_not_leads_back {decl : RecordDecl}
    (h : .record decl ∈ (box types conversions).types) :
    ¬TransGen (HoldsInline (box types conversions).types) decl.name decl.name := by
  intro hcycle
  have hothers := transGen_filter_of_leads_back hcycle .refl
  obtain ⟨-, ⟨t, ht, hname, -⟩, -⟩ := TransGen.head'_iff.1 hothers
  obtain ⟨hmem, hkind⟩ := List.mem_filter.1 ht
  have hnodup : ((box types conversions).types.map (·.name)).Nodup := by
    rw [names_box]
    exact hnames
  obtain rfl : t = .record decl := List.inj_on_of_nodup_map hnodup hmem h hname
  simp [Declaration.isRecord] at hkind

theorem not_closesCycle_box {decl : RecordDecl} (h : .record decl ∈ (box types conversions).types)
    {f : Field} (hf : f ∈ decl.fields) :
    ¬closesCycle (edges (box types conversions).types) decl.name f = true := by
  intro hcloses
  obtain ⟨target, htarget, hback⟩ := closesCycle_iff.1 hcloses
  have hedge : HoldsInline (box types conversions).types decl.name target :=
    ⟨.record decl, h, rfl, List.mem_filterMap.2 ⟨f, hf, htarget⟩⟩
  exact record_not_leads_back hnames h (.head' hedge hback)

/-- Boxing finds nothing to do when it runs again. -/
theorem box_box (conversions' : List Conversion) :
    box (box types conversions).types conversions' =
      ⟨(box types conversions).types, conversions', 0⟩ := by
  have hcounts : ∀ t ∈ (box types conversions).types,
      boxedFieldCount (edges (box types conversions).types) t = 0 := by
    intro t ht
    cases t with
    | record decl => exact List.countP_eq_zero.2 fun f hf => not_closesCycle_box hnames ht hf
    | _ => rfl
  exact box_eq_self conversions' hcounts

end Afterwards

def requiredField (name : String) (type : TypeExpr) : Field :=
  ⟨.ofText name, name, type, true, .empty⟩

/-- Two records that hold each other, one of them through an alias, and a list that cuts a cycle. -/
def people : List Declaration :=
  [.record ⟨⟨"Person"⟩, .empty, [requiredField "employer" (.option (.named ⟨"Company"⟩))]⟩,
    .record ⟨⟨"Company"⟩, .empty, [requiredField "owner" (.named ⟨"Owner"⟩),
      requiredField "staff" (.list (.named ⟨"Person"⟩))]⟩,
    .alias ⟨⟨"Owner"⟩, .empty, .option (.named ⟨"Person"⟩)⟩]

end Boxing

end OpenApiServer
