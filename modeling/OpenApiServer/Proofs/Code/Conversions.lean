import Mathlib.Tactic.SplitIfs
import OpenApiServer.Code.Format
import OpenApiServer.Code.Types
import OpenApiServer.Proofs.Build.Settling

/-!
# Types of the expressions that convert

`HasType` gives types to texts of the target language, by the grammar in which they are read: a
method belongs to the operand right before its dot, so that a dereference before an operand is one of
all that follows. A value that converts by the structure of its type has an expression of the other
type, which uses no other conversions than the known ones. Boxes must be around declared types, since
a method after a dereference would belong to the box.

## The text of an expression

An expression on one line is written as the texts of its layout with the blanks of the breaks between
them, whatever place it has.
-/

namespace OpenApiServer

namespace Layout

mutual

/-- The text of a layout all of whose breaks stay in the line. -/
def flat : Layout → String
  | .text s => s
  | .lineBreak b => String.ofList (List.replicate b.blanks ' ' ++ b.joint.toList)
  | .group _ body => flatAll body

def flatAll : List Layout → String
  | [] => ""
  | l :: rest => flat l ++ flatAll rest

end

@[simp] theorem flatAll_nil : flatAll [] = "" := rfl

@[simp] theorem flatAll_cons (l : Layout) (rest : List Layout) :
    flatAll (l :: rest) = l.flat ++ flatAll rest := by
  rw [flatAll]

@[simp] theorem flatAll_append (a b : List Layout) : flatAll (a ++ b) = flatAll a ++ flatAll b := by
  induction a with
  | nil => simp
  | cons l rest ih => simp [ih, String.append_assoc]

@[simp] theorem flat_text (s : String) : flat (.text s) = s := by rw [flat]

@[simp] theorem flat_group (style : GroupStyle) (body : List Layout) :
    flat (.group style body) = flatAll body := by rw [flat]

@[simp] theorem flat_cut : flat cut = "" := by
  rw [cut, flat]
  rfl

@[simp] theorem flat_glue : flat glue = "" := by
  rw [glue, flat]
  rfl

@[simp] theorem flat_spaceBack : flat spaceBack = " " := by
  rw [spaceBack, flat]
  rfl

@[simp] theorem flatAll_listed_single (offset : Int) (body : List Layout) :
    flatAll (listed offset [body]) = flatAll body := by
  simp [listed, stack, commaSeparated, flat, LineBreak.withComma, LineBreak.shift, LineBreak.blank]

end Layout

namespace Code

open Layout (flatAll)

/-- The text of an expression on one line. -/
def Expr.text (e : Expr) : String := flatAll (e.layout .inner)

@[simp] theorem flatAll_atom (p : Place) (body : List Layout) :
    flatAll (p.atom body) = flatAll body := by
  unfold Place.atom
  split <;> simp [Layout.stack]

@[simp] theorem flatAll_chain (p : Place) (body : List Layout) :
    flatAll (p.chain body) = flatAll body := by
  unfold Place.chain
  split <;> simp [Layout.stack]

@[simp] theorem flatAll_dot (p : Place) (owner : Expr) : flatAll (p.dot owner) = "" := by
  unfold Place.dot
  split <;> simp

attribute [local simp] Expr.layout

/-- The place of an expression only decides where it is broken. By the owners, which are what is laid
out in the place itself. -/
theorem flatAll_layout (p q : Place) : ∀ e : Expr, flatAll (e.layout p) = flatAll (e.layout q)
  | .word _ | .reference _ | .deref _ | .closure _ _ | .record _ _ | .binary _ _ _
  | .assign _ _ | .block _ | .cases _ _ | .choose _ _ _ | .giveBack _ => by
    simp
  | .field owner _ | .await owner | .method owner _ _ => by
    simp [Layout.stack, flatAll_layout p.owner q.owner owner]
  | .attempt inner => by
    simp [flatAll_layout p q inner]
  | .call function _ => by
    simp only [Expr.layout, Layout.flatAll_append, Layout.flatAll_cons]
    rw [flatAll_layout _ (if q.inChain then ⟨false, true⟩ else q) function]

theorem flatAll_layout_eq_text (p : Place) (e : Expr) : flatAll (e.layout p) = e.text :=
  flatAll_layout p .inner e

theorem flatAll_args_single (e : Expr) :
    flatAll (argsLayout [e] (layoutExprs [e])) = e.text := by
  have hlisted := Layout.flatAll_listed_single Layout.step (e.layout .inner)
  simp only [argsLayout, layoutExprs]
  split
  · simp [flatAll_layout_eq_text]
  · rw [hlisted, flatAll_layout_eq_text]

@[simp] theorem text_word (s : String) : (Expr.word s).text = s := by
  rw [Expr.text]
  simp

@[simp] theorem text_deref (e : Expr) : (Expr.deref e).text = "*" ++ e.text := by
  rw [Expr.text]
  simp [flatAll_layout_eq_text]

@[simp] theorem text_field (owner : Expr) (name : String) :
    (Expr.field owner name).text = owner.text ++ "." ++ name := by
  rw [Expr.text]
  simp [flatAll_layout_eq_text, String.append_assoc]

@[simp] theorem text_call (function : String) (arg : Expr) :
    (Expr.call (.word function) [arg]).text = function ++ "(" ++ arg.text ++ ")" := by
  rw [Expr.text]
  simp [flatAll_args_single, String.append_assoc]

@[simp] theorem text_method (owner : Expr) (name : String) (arg : Expr) :
    (Expr.method owner name [arg]).text = owner.text ++ "." ++ name ++ "(" ++ arg.text ++ ")" := by
  rw [Expr.text]
  simp [flatAll_layout_eq_text, flatAll_args_single, Layout.stack, String.append_assoc]

@[simp] theorem text_method_nil (owner : Expr) (name : String) :
    (Expr.method owner name []).text = owner.text ++ "." ++ name ++ "()" := by
  rw [Expr.text]
  simp [flatAll_layout_eq_text, Layout.stack, argsLayout, layoutExprs, Layout.listed,
    String.append_assoc]

@[simp] theorem flat_bracesIfBroken (e : Expr) (body : List Layout) :
    (bracesIfBroken none e body).flat = flatAll body := by
  simp [bracesIfBroken, Layout.stack, Layout.flat, LineBreak.blank]

@[simp] theorem text_closure (name : String) (body : Expr) :
    (Expr.closure [name] body).text = "|" ++ name ++ "| " ++ body.text := by
  have hmark : "| " = "|" ++ " " := by decide
  rw [Expr.text, hmark]
  by_cases hbraces : body.bracesInClosure = true
  · simp [hbraces, flatAll_layout_eq_text, Layout.stack, Layout.fill, Layout.commaSeparated,
      String.append_assoc]
  · simp [hbraces, flatAll_layout_eq_text, Layout.stack, Layout.fill, Layout.commaSeparated,
      String.append_assoc]

/-- The text of a call on what is in an option. -/
theorem text_mapItem (owner : Expr) (item : String) (body : Expr) :
    (Expr.method owner "map" [.closure [item] body]).text =
      owner.text ++ ".map(|" ++ item ++ "| " ++ body.text ++ ")" := by
  have hmap : ".map(|" = "." ++ "map" ++ "(" ++ "|" := by decide
  simp only [text_method, text_closure, hmap, String.append_assoc]

/-- The text of a call on each item of a list. -/
theorem text_mapItems (owner : Expr) (item : String) (body : Expr) :
    (Expr.method (.method (.method owner "into_iter" []) "map" [.closure [item] body])
      "collect" []).text =
      owner.text ++ ".into_iter().map(|" ++ item ++ "| " ++ body.text ++ ").collect()" := by
  have hiter : ".into_iter().map(|" = "." ++ "into_iter" ++ "()" ++ ".map(|" := by decide
  have hcollect : ").collect()" = ")" ++ "." ++ "collect" ++ "()" := by decide
  simp only [text_method_nil, text_mapItem, hiter, hcollect, String.append_assoc]

end Code

/-! ## Types of texts -/

namespace TypeExpr

/-- Whether boxes are around declared types only. -/
def BoxesNames : TypeExpr → Prop
  | .primitive _ => True
  | .named _ => True
  | .list item => item.BoxesNames
  | .option inner => inner.BoxesNames
  | .box inner => ∃ name, inner = .named name

end TypeExpr

namespace Code

open TypeExpr (convertsInto)

/-- What a text is in the grammar of the target language. A field or a method belongs to the operand
before its dot, so that only an operand can be the owner; a dereference is no operand. -/
inductive Level where
  | operand
  | whole

/-- The variables that an expression sees. Those of the closures around it, from the inside out, hide
the others. -/
structure VarTypes where
  items : List (String × TypeExpr)
  others : List (String × TypeExpr)

namespace VarTypes

variable (s : VarTypes)

def type? (name : String) : Option TypeExpr := (s.items ++ s.others).lookup name

def bind (name : String) (type : TypeExpr) : VarTypes := { s with items := (name, type) :: s.items }

/-- Whether no closure around the expression has a variable of the name. -/
def Fresh (name : String) : Prop := name ∉ s.items.map (·.1)

/-- Whether no closure around the expression has the name of an item of the depth or deeper. -/
def FreshFrom (depth : Nat) : Prop := ∀ k, depth ≤ k → s.Fresh (itemName k)

end VarTypes

/-- Whether a text is an expression of a type, with conversions by the known pairs only. -/
inductive HasType (known : KnownConversions) (fields : TypeName → List (String × TypeExpr)) :
    Level → VarTypes → String → TypeExpr → Prop where
  | variable {s : VarTypes} {name : String} {type : TypeExpr} (htype : s.type? name = some type) :
    HasType known fields .operand s name type
  | field {s : VarTypes} {owner name : String} {record : TypeName} {type : TypeExpr}
    (howner : HasType known fields .operand s owner (.named record))
    (hfield : (name, type) ∈ fields record) :
    HasType known fields .operand s (owner ++ "." ++ name) type
  | whole {s : VarTypes} {e : String} {type : TypeExpr} (he : HasType known fields .operand s e type) :
    HasType known fields .whole s e type
  /-- What is in a box. -/
  | deref {s : VarTypes} {e : String} {type : TypeExpr}
    (he : HasType known fields .whole s e (.box type)) :
    HasType known fields .whole s ("*" ++ e) type
  | box {s : VarTypes} {e : String} {type : TypeExpr} (he : HasType known fields .whole s e type) :
    HasType known fields .operand s ("Box::new" ++ "(" ++ e ++ ")") (.box type)
  | some {s : VarTypes} {e : String} {type : TypeExpr} (he : HasType known fields .whole s e type) :
    HasType known fields .operand s ("Some" ++ "(" ++ e ++ ")") (.option type)
  /-- A conversion between declared types. -/
  | converted {s : VarTypes} {e : String} {a b : TypeName} (hknown : (a, b) ∈ known)
    (he : HasType known fields .whole s e (.named a)) :
    HasType known fields .operand s (b.text ++ "::from" ++ "(" ++ e ++ ")") (.named b)
  /-- A closure on what is in an option, under a name that no closure around it has. -/
  | option {s : VarTypes} {owner item body : String} {a b : TypeExpr}
    (howner : HasType known fields .operand s owner (.option a)) (hfresh : s.Fresh item)
    (hbody : HasType known fields .whole (s.bind item a) body b) :
    HasType known fields .operand s (owner ++ ".map(|" ++ item ++ "| " ++ body ++ ")") (.option b)
  /-- A closure on each item of a list, under a name that no closure around it has. -/
  | list {s : VarTypes} {owner item body : String} {a b : TypeExpr}
    (howner : HasType known fields .operand s owner (.list a)) (hfresh : s.Fresh item)
    (hbody : HasType known fields .whole (s.bind item a) body b) :
    HasType known fields .operand s
      (owner ++ ".into_iter().map(|" ++ item ++ "| " ++ body ++ ").collect()") (.list b)

/-! ## Names of items -/

theorem itemName_injective : Function.Injective itemName := by
  -- The outermost name has no number, and every other name has at least one digit.
  have hnumber : ∀ n, "item" ≠ "item" ++ Nat.repr n := fun n h => by
    have hlength := congrArg String.length h
    have hdigits : 0 < n.repr.length := Nat.length_repr_pos
    rw [String.length_append] at hlength
    omega
  intro j k h
  unfold itemName at h
  split_ifs at h with hj hk hk
  · rw [hj, hk]
  · exact absurd h (hnumber k)
  · exact absurd h.symm (hnumber j)
  · have hdigits := (String.append_right_inj "item").1 h
    rw [Nat.toString_eq_ofList_toDigits, Nat.toString_eq_ofList_toDigits, String.ofList_inj]
      at hdigits
    rw [← Nat.ofDigitChars_ten_toDigits (n := j), hdigits, Nat.ofDigitChars_ten_toDigits]

namespace VarTypes

variable {s : VarTypes} {depth : Nat}

@[simp] theorem type?_bind (name : String) (type : TypeExpr) :
    (s.bind name type).type? name = some type := by
  simp [type?, bind]

theorem FreshFrom.bind (h : s.FreshFrom depth) (type : TypeExpr) :
    (s.bind (itemName depth) type).FreshFrom (depth + 1) := by
  intro k hk
  have hother : itemName k ≠ itemName depth := fun hsame => by
    have := itemName_injective hsame
    omega
  simpa [Fresh, VarTypes.bind, hother] using h k (by omega)

end VarTypes

/-! ## Conversions by structure -/

variable {known : KnownConversions} {fields : TypeName → List (String × TypeExpr)}
  {source target : TypeExpr} {s : VarTypes} {value : Expr} {depth : Nat}

theorem convert_box {inner : TypeExpr} (hne : source ≠ .box inner) (hbox : ∀ t, source ≠ .box t) :
    convert value source (.box inner) depth =
      .call (.word "Box::new") [convert value source inner depth] := by
  rw [convert.eq_def, if_neg hne]
  cases source with
  | box t => exact absurd rfl (hbox t)
  | primitive | named | list | option => rfl

theorem convert_some {inner : TypeExpr} (hne : source ≠ .option inner)
    (hbox : ∀ t, source ≠ .box t) (hoption : ∀ t, source ≠ .option t) :
    convert value source (.option inner) depth =
      .call (.word "Some") [convert value source inner depth] := by
  rw [convert.eq_def, if_neg hne]
  cases source with
  | box t => exact absurd rfl (hbox t)
  | option t => exact absurd rfl (hoption t)
  | primitive | named | list => rfl

/-- A declared type converts by one known conversion, which can be in boxes and options of the
target: whatever the value is, it stands between brackets. By induction on the target. -/
theorem convert_named_hasType {name : TypeName}
    (h : (TypeExpr.named name).convertsInto known target = true)
    (hvalue : HasType known fields .whole s value.text (.named name)) :
    HasType known fields .whole s (convert value (.named name) target depth).text target := by
  induction target with
  | primitive p =>
    rw [convertsInto.eq_def, if_neg nofun] at h
    cases h
  | named other =>
    rw [convert.eq_def]
    split
    next hsame => exact hsame ▸ hvalue
    next hne =>
      rw [convertsInto.eq_def, if_neg hne] at h
      rw [text_call]
      exact .whole (.converted (List.contains_iff_mem.1 h) hvalue)
  | list item =>
    rw [convertsInto.eq_def, if_neg nofun] at h
    cases h
  | option inner ih =>
    rw [convertsInto.eq_def, if_neg nofun] at h
    rw [convert.eq_def, if_neg nofun, text_call]
    exact .whole (.some (ih h))
  | box inner ih =>
    rw [convertsInto.eq_def, if_neg nofun] at h
    rw [convert.eq_def, if_neg nofun, text_call]
    exact .whole (.box (ih h))

/-- By the recursion of the check: an opened box holds a declared type, so that no method stands
after a dereference, and a closure leaves the names of deeper items to the closures inside of it. -/
theorem convert_hasType_of_freshFrom (hboxes : source.BoxesNames)
    (h : source.convertsInto known target = true)
    (hvalue : HasType known fields .operand s value.text source) (hfresh : s.FreshFrom depth) :
    HasType known fields .whole s (convert value source target depth).text target := by
  fun_induction convertsInto known source target generalizing value s depth with
  | case1 target =>
    rw [convert.eq_def, if_pos rfl]
    exact .whole hvalue
  | case2 target inner hne ih =>
    obtain ⟨name, rfl⟩ := hboxes
    rw [convert.eq_def, if_neg hne]
    refine convert_named_hasType h ?_
    rw [text_deref]
    exact .deref (.whole hvalue)
  | case3 source inner hbox hne ih =>
    rw [convert_box hne hbox, text_call]
    exact .whole (.box (ih hboxes h hvalue hfresh))
  | case4 a b hne ih =>
    rw [convert.eq_def, if_neg hne]
    dsimp only
    rw [text_mapItem]
    refine .whole (.option hvalue (hfresh depth (Nat.le_refl depth)) ?_)
    refine ih hboxes h (.variable ?_) (hfresh.bind a)
    rw [text_word, VarTypes.type?_bind]
  | case5 target inner hbox hoption hne => cases h
  | case6 source inner hbox hoption hne ih =>
    rw [convert_some hne hbox hoption, text_call]
    exact .whole (.some (ih hboxes h hvalue hfresh))
  | case7 a b hne ih =>
    rw [convert.eq_def, if_neg hne]
    dsimp only
    rw [text_mapItems]
    refine .whole (.list hvalue (hfresh depth (Nat.le_refl depth)) ?_)
    refine ih hboxes h (.variable ?_) (hfresh.bind a)
    rw [text_word, VarTypes.type?_bind]
  | case8 a b hne =>
    rw [convert.eq_def, if_neg hne, text_call]
    exact .whole (.converted (List.contains_iff_mem.1 h) (.whole hvalue))
  | case9 source target hne => cases h

variable {others : List (String × TypeExpr)}

theorem freshFrom_nil (others : List (String × TypeExpr)) (depth : Nat) :
    (VarTypes.mk [] others).FreshFrom depth :=
  fun _ _ => List.not_mem_nil

/-- A value that converts has an expression of the other type, in which each closure has a name of
its own. -/
theorem convert_hasType (hboxes : source.BoxesNames) (h : source.convertsInto known target = true)
    (hvalue : HasType known fields .operand ⟨[], others⟩ value.text source) :
    HasType known fields .whole ⟨[], others⟩ (convert value source target depth).text target :=
  convert_hasType_of_freshFrom hboxes h hvalue (freshFrom_nil others depth)

/-- A closure in a closure, with a box opened inside of both. -/
theorem boxed_pets_converted :
    let known : KnownConversions := [(⟨"NewPet"⟩, ⟨"Pet"⟩)]
    let source : TypeExpr := .option (.list (.box (.named ⟨"NewPet"⟩)))
    let target : TypeExpr := .option (.list (.option (.named ⟨"Pet"⟩)))
    let value : Expr := .field (.word "value") "pets"
    let s : VarTypes := ⟨[], [("value", .named ⟨"NewOwner"⟩)]⟩
    source.BoxesNames ∧ source.convertsInto known target = true ∧
      HasType known (fun _ => [("pets", source)]) .operand s value.text source ∧
      (convert value source target 0).text =
        "value.pets.map(|item| item.into_iter().map(|item1| Some(Pet::from(*item1))).collect())" ∧
      HasType known (fun _ => [("pets", source)]) .whole s (convert value source target 0).text
        target := by
  intro known source target value s
  have hboxes : source.BoxesNames := ⟨_, rfl⟩
  have hconverts : source.convertsInto known target = true := by
    simp [source, target, known, TypeExpr.convertsInto]
  have hvalue : HasType known (fun _ => [("pets", source)]) .operand s value.text source := by
    have howner : HasType known (fun _ => [("pets", source)]) .operand s "value"
        (.named ⟨"NewOwner"⟩) := .variable rfl
    rw [text_field, text_word]
    exact .field howner (by simp)
  have houter : itemName 0 = "item" := by decide
  have hinner : itemName 1 = "item1" := by decide
  have hpets : convert value source target 0 = .method value "map" [.closure ["item"]
      (.method (.method (.method (.word "item") "into_iter" []) "map" [.closure ["item1"]
        (.call (.word "Some") [.call (.word "Pet::from") [.deref (.word "item1")]])])
        "collect" [])] := by
    simp [source, target, convert, houter, hinner]
  refine ⟨hboxes, hconverts, hvalue, ?_, convert_hasType hboxes hconverts hvalue⟩
  rw [hpets, text_mapItem, text_mapItems]
  simp only [value, text_field, text_call, text_deref, text_word]
  decide

/-- What the code of a settled conversion gives to a copied field has the type of the field, whatever
the extra arguments are. -/
theorem settled_copy_hasType {enums : KnownConversions} {conversions : List Conversion}
    {c : Conversion} {m : FieldMapping} (hc : c ∈ Conversion.settle enums conversions)
    (hm : m ∈ c.copied) (hboxes : m.source.BoxesNames)
    (hfield : (m.field.name.text, m.source) ∈ fields c.source) :
    HasType (enums ++ Conversion.plainPairs (Conversion.settle enums conversions)) fields .whole
      ⟨[], ((sourceName c).text, .named c.source) :: others⟩
      (convert (.field (.word (sourceName c).text) m.field.name.text) m.source m.field.fieldType
        0).text m.field.fieldType := by
  refine convert_hasType_of_freshFrom hboxes
    (Conversion.settled_settle enums conversions c hc m hm) ?_ (freshFrom_nil _ 0)
  rw [text_field, text_word]
  exact .field (.variable (by simp [VarTypes.type?])) hfield

end Code

end OpenApiServer
