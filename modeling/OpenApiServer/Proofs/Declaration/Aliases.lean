import Mathlib.Data.List.Nodup
import OpenApiServer.Build.Boxing
import OpenApiServer.Declaration.Basic

/-!
# Types that aliases make the same

An alias stands for its target, so two types are the same if replacing aliases makes them equal.
With one declaration for each name at most one type is left of a type when no alias is left in it;
types that are the same have the same one, and so those without aliases are the same only if they
are equal. Aliases that stand for each other in a circle have none.
-/

namespace OpenApiServer

variable {types : List Declaration} {a b t v w : TypeExpr}

/-- The equality of types under which each alias is its target. -/
inductive SameType (types : List Declaration) : TypeExpr → TypeExpr → Prop where
  | refl (t : TypeExpr) : SameType types t t
  | symm {a b : TypeExpr} (h : SameType types a b) : SameType types b a
  | trans {a b c : TypeExpr} (h : SameType types a b) (h' : SameType types b c) :
    SameType types a c
  | target {decl : AliasDecl} (declared : .alias decl ∈ types) :
    SameType types (.named decl.name) decl.target
  | list {a b : TypeExpr} (h : SameType types a b) : SameType types (.list a) (.list b)
  | option {a b : TypeExpr} (h : SameType types a b) : SameType types (.option a) (.option b)
  | box {a b : TypeExpr} (h : SameType types a b) : SameType types (.box a) (.box b)

/-- Whether a name is that of a declared alias. -/
def IsAlias (types : List Declaration) (name : TypeName) : Prop :=
  ∃ decl, .alias decl ∈ types ∧ decl.name = name

/-- Whether no alias occurs in a type. -/
def AliasFree (types : List Declaration) (t : TypeExpr) : Prop :=
  ∀ name ∈ t.names, ¬ IsAlias types name

/-- What is left of a type when its aliases are replaced, and those of their targets. -/
inductive Expands (types : List Declaration) : TypeExpr → TypeExpr → Prop where
  | primitive (p : Primitive) : Expands types (.primitive p) (.primitive p)
  | named {name : TypeName} (own : ¬ IsAlias types name) : Expands types (.named name) (.named name)
  | target {decl : AliasDecl} {v : TypeExpr} (declared : .alias decl ∈ types)
    (rest : Expands types decl.target v) : Expands types (.named decl.name) v
  | list {t v : TypeExpr} (h : Expands types t v) : Expands types (.list t) (.list v)
  | option {t v : TypeExpr} (h : Expands types t v) : Expands types (.option t) (.option v)
  | box {t v : TypeExpr} (h : Expands types t v) : Expands types (.box t) (.box v)

theorem AliasFree.expands (h : AliasFree types t) : Expands types t t := by
  induction t with
  | primitive p => exact .primitive p
  | named name => exact .named (h name (List.mem_singleton_self _))
  | list _ ih => exact .list (ih h)
  | option _ ih => exact .option (ih h)
  | box _ ih => exact .box (ih h)

theorem expands_list_iff : Expands types (.list t) v ↔ ∃ w, v = .list w ∧ Expands types t w := by
  constructor
  · rintro (_ | _ | _ | h)
    exact ⟨_, rfl, h⟩
  · rintro ⟨w, rfl, h⟩
    exact .list h

theorem expands_option_iff :
    Expands types (.option t) v ↔ ∃ w, v = .option w ∧ Expands types t w := by
  constructor
  · rintro (_ | _ | _ | _ | h)
    exact ⟨_, rfl, h⟩
  · rintro ⟨w, rfl, h⟩
    exact .option h

theorem expands_box_iff : Expands types (.box t) v ↔ ∃ w, v = .box w ∧ Expands types t w := by
  constructor
  · rintro (_ | _ | _ | _ | _ | h)
    exact ⟨_, rfl, h⟩
  · rintro ⟨w, rfl, h⟩
    exact .box h

section DistinctNames

variable (hnames : (types.map (·.name)).Nodup)

include hnames

theorem alias_unique {decl decl' : AliasDecl} (h : .alias decl ∈ types) (h' : .alias decl' ∈ types)
    (hname : decl.name = decl'.name) : decl = decl' :=
  Declaration.alias.inj (List.inj_on_of_nodup_map hnames h h' hname)

theorem expands_named_iff {decl : AliasDecl} (h : .alias decl ∈ types) :
    Expands types (.named decl.name) v ↔ Expands types decl.target v := by
  constructor
  · intro hexpands
    generalize hname : TypeExpr.named decl.name = named at hexpands
    cases hexpands with
    | named own =>
      obtain rfl := TypeExpr.named.inj hname
      exact absurd ⟨decl, h, rfl⟩ own
    | target declared rest =>
      rw [alias_unique hnames h declared (TypeExpr.named.inj hname)]
      exact rest
    | _ => cases hname
  · exact .target h

theorem Expands.unique (h : Expands types t v) (h' : Expands types t w) : v = w := by
  induction h generalizing w with
  | primitive p =>
    cases h'
    rfl
  | named own =>
    cases h' with
    | named => rfl
    | target declared => exact absurd ⟨_, declared, rfl⟩ own
  | target declared _ ih => exact ih ((expands_named_iff hnames declared).1 h')
  | list _ ih =>
    obtain ⟨w, rfl, hw⟩ := expands_list_iff.1 h'
    rw [ih hw]
  | option _ ih =>
    obtain ⟨w, rfl, hw⟩ := expands_option_iff.1 h'
    rw [ih hw]
  | box _ ih =>
    obtain ⟨w, rfl, hw⟩ := expands_box_iff.1 h'
    rw [ih hw]

theorem SameType.expands (h : SameType types a b) :
    ∀ v, Expands types a v ↔ Expands types b v := by
  induction h with
  | refl => exact fun _ => Iff.rfl
  | symm _ ih => exact fun v => (ih v).symm
  | trans _ _ ih ih' => exact fun v => (ih v).trans (ih' v)
  | target declared => exact fun v => expands_named_iff hnames declared
  | list _ ih => simp only [expands_list_iff, ih, implies_true]
  | option _ ih => simp only [expands_option_iff, ih, implies_true]
  | box _ ih => simp only [expands_box_iff, ih, implies_true]

/-- Types without aliases are the same only if they are equal. -/
theorem SameType.eq (h : SameType types a b) (ha : AliasFree types a) (hb : AliasFree types b) :
    a = b :=
  Expands.unique hnames ((h.expands hnames a).1 ha.expands) hb.expands

end DistinctNames

end OpenApiServer

/-!
## Types up to boxes

Boxing what a value holds inline is undone by leaving out the boxes. So where types have no boxes,
boxing does not make two of them equal that were different before.
-/

namespace OpenApiServer

namespace TypeExpr

/-- The type without its boxes. -/
def unboxed : TypeExpr → TypeExpr
  | .primitive p => .primitive p
  | .named name => .named name
  | .list item => .list item.unboxed
  | .option inner => inner.unboxed.optional
  | .box inner => inner.unboxed

theorem unboxed_optional (t : TypeExpr) : t.optional.unboxed = t.unboxed.optional := by
  cases t with
  | option inner => exact (optional_optional inner.unboxed).symm
  | _ => rfl

theorem unboxed_boxInline (t : TypeExpr) : t.boxInline.unboxed = t.unboxed := by
  induction t with
  | option inner ih => rw [boxInline, unboxed_optional, ih, unboxed]
  | _ => rfl

/-- Whether the type has no boxes, and no option right inside an option. -/
def Plain (t : TypeExpr) : Prop := t.unboxed = t

theorem Plain.list {t : TypeExpr} (h : t.Plain) : (TypeExpr.list t).Plain := by
  rw [Plain, unboxed, h]

theorem Plain.optional {t : TypeExpr} (h : t.Plain) : t.optional.Plain := by
  rw [Plain, unboxed_optional, h]

end TypeExpr

/-- Whether the types of fields have no boxes. -/
def PlainFields (fields : List Field) : Prop := ∀ f ∈ fields, f.type.Plain

namespace Boxing

theorem unboxed_boxField (edges : Edges) (owner : TypeName) (f : Field) :
    (boxField edges owner f).type.unboxed = f.type.unboxed := by
  rw [boxField]
  split
  · exact f.type.unboxed_boxInline
  · rfl

end Boxing

end OpenApiServer
