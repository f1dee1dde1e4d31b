import Mathlib.Logic.Function.Iterate
import OpenApiServer.Build.Fields
import OpenApiServer.Proofs.Build.Monad
import OpenApiServer.Proofs.Declaration.Mentioned

/-!
# The type of a place

Finding the type of a schema reads the document only, up to the inline schema that it may end at:
that one is registered, and nothing else happens to the registry. `placeFrom` is the part that reads
the document, and `Placed` has a constructor for each step that it takes there.
-/

namespace OpenApiServer

/-- The type of a place, and the inline schema in it with the name that is suggested for it. -/
structure Place where
  type : TypeExpr
  inline : Option (TypeName × Json)

namespace Place

/-- An inline schema has the type that is declared for it. -/
def ofInline (node : Json) (suggested : TypeName) : Place :=
  ⟨.named suggested, some (suggested, node)⟩

/-- The place around, with another type. -/
def within (p : Place) (type : TypeExpr → TypeExpr) : Place := ⟨type p.type, p.inline⟩

end Place

/-- Whether a schema gets a declaration of its own where it stands inline. -/
def Schema.standsInline : Schema → Bool
  | .object _ _ | .allOf _ | .stringEnum _ _ => true
  | .oneOf arms => (nullableArm? arms).isNone
  | .primitive _ _ | .reference _ | .array _ => false

/-- Registers the inline schema of a place. -/
def Registry.enlist (r : Registry) : Option (TypeName × Json) → Except BuildError Registry
  | none => .ok r
  | some (name, node) => r.register name node name.text

namespace Build

variable {d : Document} {r r' : Registry}

/-- The place of a schema, after a bounded number of steps through arrays and references. -/
def placeFrom (d : Document) : Nat → Json → TypeName → Except BuildError Place
  | 0, _, suggested => .error (.recursiveSchema suggested.text)
  | steps + 1, node, suggested => do
    match ← Schema.classify suggested.text node with
    | .reference pointer =>
      match Pointer.schemaName? pointer with
      | some name =>
        let _ ← d.resolve pointer
        return ⟨.named (.ofText name), none⟩
      | none =>
        let _ ← d.dereference node
        placeFrom d steps (← d.resolve pointer) suggested
    | .primitive kind format => return ⟨← primitiveType suggested.text kind format, none⟩
    | .array items => return (← placeFrom d steps items (suggested.extend "Item")).within .list
    | .oneOf arms =>
      match Schema.nullableArm? arms with
      | some arm => return (← placeFrom d steps arm suggested).within .optional
      | none => return .ofInline node suggested
    | .object _ _ => return .ofInline node suggested
    | .allOf _ => return .ofInline node suggested
    | .stringEnum _ _ => return .ofInline node suggested

/-- The place of a schema of the document. -/
def placeOf (d : Document) (node : Json) (suggested : TypeName) : Except BuildError Place :=
  placeFrom d (d.root.size + 1) node suggested

/-- How a schema of the document has its place, within a bounded number of steps. -/
inductive Placed (d : Document) : Nat → Json → TypeName → Place → Prop where
  | component {steps : Nat} {node target : Json} {suggested : TypeName} {pointer name : String}
    (refers : Schema.classify suggested.text node = .ok (.reference pointer))
    (named : Pointer.schemaName? pointer = some name) (resolves : d.resolve pointer = .ok target) :
    Placed d (steps + 1) node suggested ⟨.named (.ofText name), none⟩
  | target {steps : Nat} {node last target : Json} {suggested : TypeName} {pointer : String}
    {place : Place} (refers : Schema.classify suggested.text node = .ok (.reference pointer))
    (unnamed : Pointer.schemaName? pointer = none) (leads : d.dereference node = .ok last)
    (resolves : d.resolve pointer = .ok target) (rest : Placed d steps target suggested place) :
    Placed d (steps + 1) node suggested place
  | primitive {steps : Nat} {node : Json} {suggested : TypeName} {kind : PrimitiveKind}
    {format : Option String} {type : TypeExpr}
    (primitive : Schema.classify suggested.text node = .ok (.primitive kind format))
    (typed : primitiveType suggested.text kind format = .ok type) :
    Placed d (steps + 1) node suggested ⟨type, none⟩
  | list {steps : Nat} {node items : Json} {suggested : TypeName} {place : Place}
    (array : Schema.classify suggested.text node = .ok (.array items))
    (item : Placed d steps items (suggested.extend "Item") place) :
    Placed d (steps + 1) node suggested (place.within .list)
  | optional {steps : Nat} {node arm : Json} {arms : List Json} {suggested : TypeName}
    {place : Place} (oneOf : Schema.classify suggested.text node = .ok (.oneOf arms))
    (nullable : Schema.nullableArm? arms = some arm) (other : Placed d steps arm suggested place) :
    Placed d (steps + 1) node suggested (place.within .optional)
  | inline {steps : Nat} {node : Json} {suggested : TypeName} {schema : Schema}
    (classified : Schema.classify suggested.text node = .ok schema)
    (inline : schema.standsInline = true) :
    Placed d (steps + 1) node suggested (.ofInline node suggested)

theorem placeFrom_eq_ok_iff {steps : Nat} {node : Json} {suggested : TypeName} {place : Place} :
    placeFrom d steps node suggested = .ok place ↔ Placed d steps node suggested place := by
  constructor
  · intro h
    induction steps generalizing node suggested place with
    | zero => cases h
    | succ steps ih =>
      rw [placeFrom] at h
      obtain ⟨schema, hclassify, h⟩ := bind_eq_ok_iff.1 h
      cases schema with
      | reference pointer =>
        cases hname : Pointer.schemaName? pointer with
        | some name =>
          simp only [hname] at h
          obtain ⟨target, htarget, h⟩ := bind_eq_ok_iff.1 h
          obtain rfl := Except.ok.inj h
          exact .component hclassify hname htarget
        | none =>
          simp only [hname] at h
          obtain ⟨last, hlast, h⟩ := bind_eq_ok_iff.1 h
          obtain ⟨target, htarget, h⟩ := bind_eq_ok_iff.1 h
          exact .target hclassify hname hlast htarget (ih h)
      | primitive kind format =>
        obtain ⟨type, htype, h⟩ := bind_eq_ok_iff.1 h
        obtain rfl := Except.ok.inj h
        exact .primitive hclassify htype
      | array items =>
        obtain ⟨item, hitem, h⟩ := bind_eq_ok_iff.1 h
        obtain rfl := Except.ok.inj h
        exact .list hclassify (ih hitem)
      | oneOf arms =>
        cases harm : Schema.nullableArm? arms with
        | some arm =>
          simp only [harm] at h
          obtain ⟨other, hother, h⟩ := bind_eq_ok_iff.1 h
          obtain rfl := Except.ok.inj h
          exact .optional hclassify harm (ih hother)
        | none =>
          simp only [harm] at h
          obtain rfl := Except.ok.inj h
          exact .inline hclassify (Option.isNone_iff_eq_none.2 harm)
      | object | allOf | stringEnum =>
        obtain rfl := Except.ok.inj h
        exact .inline hclassify rfl
  · intro h
    induction h with
    | component refers named resolves =>
      refine bind_eq_ok_iff.2 ⟨_, refers, ?_⟩
      simp only [named]
      exact bind_eq_ok_iff.2 ⟨_, resolves, rfl⟩
    | target refers unnamed leads resolves _ ih =>
      refine bind_eq_ok_iff.2 ⟨_, refers, ?_⟩
      simp only [unnamed]
      exact bind_eq_ok_iff.2 ⟨_, leads, bind_eq_ok_iff.2 ⟨_, resolves, ih⟩⟩
    | primitive primitive typed =>
      exact bind_eq_ok_iff.2 ⟨_, primitive, bind_eq_ok_iff.2 ⟨_, typed, rfl⟩⟩
    | list array _ ih => exact bind_eq_ok_iff.2 ⟨_, array, bind_eq_ok_iff.2 ⟨_, ih, rfl⟩⟩
    | optional oneOf nullable _ ih =>
      refine bind_eq_ok_iff.2 ⟨_, oneOf, ?_⟩
      simp only [nullable]
      exact bind_eq_ok_iff.2 ⟨_, ih, rfl⟩
    | @inline _ _ _ schema classified inline =>
      refine bind_eq_ok_iff.2 ⟨_, classified, ?_⟩
      cases schema with
      | oneOf arms =>
        simp only [Option.isNone_iff_eq_none.1 inline]
        rfl
      | object | allOf | stringEnum => rfl
      | _ => cases inline

theorem names_primitiveType {context : String} {kind : PrimitiveKind} {format : Option String}
    {type : TypeExpr} (h : primitiveType context kind format = .ok type) : type.names = [] := by
  unfold primitiveType at h
  split at h
  case h_4 =>
    split at h
    · obtain rfl := Except.ok.inj h
      rfl
    · cases h
  case h_5 => cases h
  all_goals
    obtain rfl := Except.ok.inj h
    rfl

namespace Placed

variable {steps : Nat} {node : Json} {suggested : TypeName} {place : Place}

/-- The type of a place mentions named schemas and the name of the inline schema. -/
theorem forall_names {P : TypeName → Prop} (h : Placed d steps node suggested place)
    (hcomponent : ∀ ⦃pointer name target⦄, Pointer.schemaName? pointer = some name →
      d.resolve pointer = .ok target → P (.ofText name))
    (hinline : ∀ name inline, place.inline = some (name, inline) → P name) :
    ∀ name ∈ place.type.names, P name := by
  induction h with
  | component _ named resolves =>
    intro name hname
    obtain rfl := List.mem_singleton.1 hname
    exact hcomponent named resolves
  | target _ _ _ _ _ ih => exact ih hinline
  | primitive _ typed => simp [names_primitiveType typed]
  | list _ _ ih => exact ih hinline
  | @optional _ _ _ _ _ place _ _ _ ih =>
    rw [Place.within, TypeExpr.names_optional]
    exact ih hinline
  | inline =>
    intro name hname
    obtain rfl := List.mem_singleton.1 hname
    exact hinline _ _ rfl

/-- The inline schema has the suggested name, with a word more for each list around it. -/
theorem inline_eq (h : Placed d steps node suggested place) {name : TypeName} {inline : Json}
    (hinline : place.inline = some (name, inline)) :
    ∃ lists, name = (fun n : TypeName => n.extend "Item")^[lists] suggested := by
  induction h with
  | component | primitive => cases hinline
  | target _ _ _ _ _ ih => exact ih hinline
  | list _ _ ih =>
    obtain ⟨lists, rfl⟩ := ih hinline
    exact ⟨lists + 1, rfl⟩
  | optional _ _ _ ih => exact ih hinline
  | inline =>
    obtain ⟨rfl, -⟩ := Prod.mk.inj (Option.some.inj hinline)
    exact ⟨0, rfl⟩

end Placed

/-- Whether a run comes down to a place and to registering the inline schema in it. -/
def Finds (x : Build TypeExpr) (place : Except BuildError Place) : Prop :=
  ∀ ⦃r type r'⦄, x r = .ok (type, r') ↔
    ∃ p, place = .ok p ∧ p.type = type ∧ r.enlist p.inline = .ok r'

namespace Finds

variable {x : Build TypeExpr} {place : Except BuildError Place}

theorem fail {e e' : BuildError} : Finds (Build.fail e) (.error e') := by
  intro r type r'
  simp [fail_ne_ok]

theorem inlineType (node : Json) (suggested : TypeName) :
    Finds (inlineType node suggested) (.ok (.ofInline node suggested)) := by
  intro r type r'
  rw [Build.inlineType, bind_eq_ok]
  simp only [step_eq_ok, pure_eq_ok, Except.ok.injEq, exists_eq_left']
  constructor
  · rintro ⟨_, s, hregister, rfl, rfl⟩
    exact ⟨rfl, hregister⟩
  · rintro ⟨htype, hregister⟩
    exact ⟨(), r', hregister, htype, rfl⟩

theorem pure (type : TypeExpr) : Finds (pure type) (.ok ⟨type, none⟩) := by
  intro r type' r'
  simp [pure_eq_ok, Registry.enlist]

theorem lift (x : Except BuildError TypeExpr) :
    Finds (liftM x) (do return ⟨← x, none⟩) := by
  intro r type r'
  rw [lift_eq_ok]
  constructor
  · rintro ⟨rfl, rfl⟩
    exact ⟨⟨type, none⟩, rfl, rfl, rfl⟩
  · rintro ⟨p, hp, rfl, henlist⟩
    obtain ⟨found, hfound, hp⟩ := bind_eq_ok_iff.1 hp
    obtain rfl := Except.ok.inj hp
    exact ⟨hfound, Except.ok.inj henlist⟩

/-- What is read from the document first decides both. -/
theorem lift_bind {α : Type} {y : Except BuildError α} {f : α → Build TypeExpr}
    {g : α → Except BuildError Place} (h : ∀ a, y = .ok a → Finds (f a) (g a)) :
    Finds (liftM y >>= f) (y >>= g) := by
  intro r type r'
  rw [lift_bind_eq_ok]
  simp only [bind_eq_ok_iff]
  constructor
  · rintro ⟨a, ha, hrun⟩
    obtain ⟨p, hp, hfound⟩ := (h a ha).1 hrun
    exact ⟨p, ⟨a, ha, hp⟩, hfound⟩
  · rintro ⟨p, ⟨a, ha, hp⟩, hfound⟩
    exact ⟨a, ha, (h a ha).2 ⟨p, hp, hfound⟩⟩

/-- The type around a place. -/
theorem around (h : Finds x place) (wrap : TypeExpr → TypeExpr) :
    Finds (do return wrap (← x)) (do return (← place).within wrap) := by
  intro r type r'
  rw [bind_eq_ok]
  simp only [pure_eq_ok, bind_eq_ok_iff]
  constructor
  · rintro ⟨inner, s, hrun, rfl, rfl⟩
    obtain ⟨p, hp, rfl, henlist⟩ := h.1 hrun
    exact ⟨p.within wrap, ⟨p, hp, rfl⟩, rfl, henlist⟩
  · rintro ⟨_, ⟨p, hp, hwrap⟩, rfl, henlist⟩
    obtain rfl := Except.ok.inj hwrap
    exact ⟨p.type, r', h.2 ⟨p, hp, rfl, henlist⟩, rfl, rfl⟩

end Finds

theorem typeFrom_finds (steps : Nat) (node : Json) (suggested : TypeName) :
    Finds (typeFrom d steps node suggested) (placeFrom d steps node suggested) := by
  induction steps generalizing node suggested with
  | zero => exact .fail
  | succ steps ih =>
    rw [typeFrom, placeFrom]
    refine .lift_bind fun schema _ => ?_
    cases schema with
    | reference pointer =>
      cases hname : Pointer.schemaName? pointer with
      | some name =>
        simp only [hname]
        exact .lift_bind fun _ _ => .pure _
      | none =>
        simp only [hname]
        exact .lift_bind fun _ _ => .lift_bind fun target _ => ih target suggested
    | primitive kind format => exact .lift _
    | array items => exact (ih items _).around .list
    | oneOf arms =>
      cases harm : Schema.nullableArm? arms with
      | some arm =>
        simp only [harm]
        exact (ih arm suggested).around .optional
      | none =>
        simp only [harm]
        exact .inlineType node suggested
    | object | allOf | stringEnum => exact .inlineType node suggested

/-- Finding the type of a schema is reading its place and registering the inline schema in it. -/
theorem typeOf_eq_ok {node : Json} {suggested : TypeName} {type : TypeExpr} :
    typeOf d node suggested r = .ok (type, r') ↔
      ∃ inline, placeOf d node suggested = .ok ⟨type, inline⟩ ∧ r.enlist inline = .ok r' := by
  rw [typeOf, placeOf, typeFrom_finds]
  constructor
  · rintro ⟨p, hp, rfl, henlist⟩
    exact ⟨p.inline, hp, henlist⟩
  · rintro ⟨inline, hp, henlist⟩
    exact ⟨_, hp, rfl, henlist⟩

end Build

end OpenApiServer
