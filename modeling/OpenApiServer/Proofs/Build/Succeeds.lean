import OpenApiServer.Proofs.Build.Explained
import OpenApiServer.Proofs.Build.Readings

/-!
# Steps that succeed

`Succeeds P x q` says that `x` succeeds from every registry of some kind, ends in one of the same
kind and has some kind of result. A step that registers an inline schema can only fail if its name is
claimed for another schema. It cannot below a registry in which the inline schema is known: one that
claims no name but for a schema which matches that of this name there.
-/

namespace OpenApiServer

namespace Build

variable {α β : Type} {P : Registry → Prop}

def Succeeds (P : Registry → Prop) (x : Build α) (q : α → Prop) : Prop :=
  ∀ ⦃r⦄, P r → ∃ a r', x r = .ok (a, r') ∧ P r' ∧ q a

namespace Succeeds

variable {x : Build α} {f : α → Build β} {p : α → Prop} {q : β → Prop}

theorem pure {a : α} (h : p a) : Succeeds P (pure a) p :=
  fun r hr => ⟨a, r, pure_eq_ok.2 ⟨rfl, rfl⟩, hr, h⟩

theorem bind (hx : Succeeds P x p) (hf : ∀ a, p a → Succeeds P (f a) q) :
    Succeeds P (x >>= f) q := by
  intro r hr
  obtain ⟨a, s, hxrun, hs, ha⟩ := hx hr
  obtain ⟨b, r', hfrun, hr', hb⟩ := hf a ha hs
  exact ⟨b, r', bind_eq_ok.2 ⟨a, s, hxrun, hfrun⟩, hr', hb⟩

theorem map {g : α → β} (hx : Succeeds P x fun a => q (g a)) : Succeeds P (g <$> x) q := by
  intro r hr
  obtain ⟨a, r', hrun, hr', ha⟩ := hx hr
  exact ⟨g a, r', map_eq_ok.2 ⟨a, hrun, rfl⟩, hr', ha⟩

theorem mono {p' : α → Prop} (hx : Succeeds P x p) (h : ∀ a, p a → p' a) : Succeeds P x p' := by
  intro r hr
  obtain ⟨a, r', hrun, hr', ha⟩ := hx hr
  exact ⟨a, r', hrun, hr', h a ha⟩

theorem any (hx : Succeeds P x p) : Succeeds P x anyResult := hx.mono fun _ _ => trivial

theorem lift_bind {x : Except BuildError α} {a : α} (hx : x = .ok a) (hf : Succeeds P (f a) q) :
    Succeeds P (liftM x >>= f) q := by
  intro r hr
  obtain ⟨b, r', hrun, hr', hb⟩ := hf hr
  exact ⟨b, r', lift_bind_eq_ok.2 ⟨a, hx, hrun⟩, hr', hb⟩

theorem get_bind {f : Registry → Build β} (hf : ∀ r, P r → Succeeds P (f r) q) :
    Succeeds P (get >>= f) q := by
  intro r hr
  obtain ⟨b, r', hrun, hr', hb⟩ := hf r hr hr
  exact ⟨b, r', get_bind_eq_ok.2 hrun, hr', hb⟩

theorem modify {g : Registry → Registry} (hg : ∀ r, P r → P (g r)) :
    Succeeds P (modify g) anyResult :=
  fun r hr => ⟨(), g r, modify_eq_ok.2 rfl, hg r hr, trivial⟩

theorem mapM {f : α → Build β} {xs : List α} (hf : ∀ x ∈ xs, Succeeds P (f x) anyResult) :
    Succeeds P (xs.mapM f) anyResult := by
  induction xs with
  | nil => exact pure trivial
  | cons x rest ih =>
    obtain ⟨hx, hrest⟩ := List.forall_mem_cons.1 hf
    rw [List.mapM_cons]
    exact hx.bind fun _ _ => (ih hrest).bind fun _ _ => pure trivial

theorem forM {f : α → Build Unit} {xs : List α} (hf : ∀ x ∈ xs, Succeeds P (f x) anyResult) :
    Succeeds P (xs.forM f) anyResult := by
  induction xs with
  | nil => exact pure trivial
  | cons x rest ih =>
    obtain ⟨hx, hrest⟩ := List.forall_mem_cons.1 hf
    rw [List.forM]
    exact hx.bind fun _ _ => ih hrest

/-- A run of a step that succeeds ends as the step does. -/
theorem of_run (hx : Succeeds P x p) {r r' : Registry} {a : α} (hr : P r)
    (hrun : x r = .ok (a, r')) : P r' ∧ p a := by
  obtain ⟨a', s, hrun', hs, ha⟩ := hx hr
  obtain ⟨rfl, rfl⟩ := Prod.mk.inj (Except.ok.inj (hrun.symm.trans hrun'))
  exact ⟨hs, ha⟩

end Succeeds

end Build

namespace Registry

variable {R r r' : Registry} {stack : List TypeName}

/-- Whether each name is claimed in `R` as well, for schemas that match. -/
def Below (r R : Registry) : Prop :=
  ∀ ⦃name node⦄, r.nodeOf? name = some node → ∃ known, R.nodeOf? name = some known ∧ known.Matches node

/-- Whether a registry below `R` is merging some names. -/
structure Under (R : Registry) (stack : List TypeName) (r : Registry) : Prop where
  below : r.Below R
  merging : r.merging = stack

theorem Below.of_eq (h : r.Below R) (hclaims : r'.claims = r.claims) : r'.Below R := by
  intro name node hnode
  rw [nodeOf?, claim?, hclaims] at hnode
  exact h hnode

theorem Under.of_eq (h : R.Under stack r) (hclaims : r'.claims = r.claims)
    (hmerging : r'.merging = r.merging) : R.Under stack r' :=
  ⟨h.below.of_eq hclaims, hmerging.trans h.merging⟩

theorem Under.of_remembers (h : R.Under stack r') (hremembers : r.Remembers r') : R.Under stack r :=
  ⟨fun _ _ hnode => h.below (hremembers.nodeOf? hnode), hremembers.merging.symm.trans h.merging⟩

/-- A schema that is known can be registered. -/
theorem Under.register (h : R.Under stack r) {name : TypeName} {known node : Json}
    (hknown : R.nodeOf? name = some known) (hmatch : known.Matches node) (origin : String) :
    ∃ r', r.register name node origin = .ok r' ∧ R.Under stack r' := by
  obtain ⟨r', hrun⟩ : ∃ r', r.register name node origin = .ok r' := by
    rw [Registry.register]
    cases hclaim : r.claim? name with
    | none => exact ⟨_, rfl⟩
    | some claim =>
      have hclaimed : r.nodeOf? name = some claim.node := by rw [nodeOf?, hclaim, Option.map_some]
      obtain ⟨known', hknown', hsame⟩ := h.below hclaimed
      obtain rfl := Option.some.inj (hknown.symm.trans hknown')
      exact ⟨r, if_pos (hsame.symm.trans hmatch).same⟩
  refine ⟨r', hrun, fun other node' hnode => ?_, (registers_of_register hrun).merging.trans h.merging⟩
  rcases nodeOf?_of_register hrun with ⟨-, -, -, rfl⟩ | ⟨-, hothers⟩
  · exact h.below hnode
  · rcases hothers hnode with hold | ⟨rfl, rfl⟩
    · exact h.below hold
    · exact ⟨known, hknown, hmatch⟩

/-- Whether the claimed schemas are proper. -/
def ProperNodes (R : Registry) : Prop := ∀ ⦃name node⦄, R.nodeOf? name = some node → node.Proper

/-- What a place stands for is known by a schema that matches. -/
theorem Knows.matches {inline : Option (TypeName × Json)} (h : R.Knows inline)
    (hproper : R.ProperNodes) {found found' : TypeName × Json} (hfound : found ∈ inline)
    (hmatch : NamedMatch found found') :
    ∃ known, R.nodeOf? found'.1 = some known ∧ known.Matches found'.2 := by
  obtain ⟨known, hknown, hagree⟩ := h found hfound
  have hsame : known.Matches found.2 := ⟨hproper hknown, hmatch.node.left, hagree⟩
  exact ⟨known, hmatch.name ▸ hknown, hsame.trans hmatch.node⟩

end Registry

namespace Build

variable {d d' : Document} (h : Document.Reordered d d') {R : Registry} (hproper : R.ProperNodes)
  {stack : List TypeName}

include h hproper

/-- The type of a schema is found again, the same as of the schema that it matches. -/
theorem typeOf_succeeds {node node' : Json} {suggested : TypeName}
    (htypes : R.Types d node suggested) (hnode : node.Matches node') :
    Succeeds (R.Under stack) (typeOf d' node' suggested) fun type =>
      ∃ inline, placeOf d node suggested = .ok ⟨type, inline⟩ := by
  intro r hr
  obtain ⟨⟨type, inline⟩, hplace, hknows⟩ := htypes
  obtain ⟨⟨type', inline'⟩, hplace', htype, hinline⟩ := placeOf_matches h hnode hplace
  obtain rfl : type = type' := htype
  have henlist : ∃ r', r.enlist inline' = .ok r' ∧ R.Under stack r' := by
    cases hinline with
    | none => exact ⟨r, rfl, hr⟩
    | @some found found' hmatch =>
      obtain ⟨known, hknown, hknownMatch⟩ := hknows.matches hproper rfl hmatch
      exact hr.register hknown hknownMatch _
  obtain ⟨r', henlist, hr'⟩ := henlist
  exact ⟨type, r', typeOf_eq_ok.2 ⟨inline', hplace', henlist⟩, hr', inline, hplace⟩

/-- A type that has been found out is found out again. -/
theorem typeOf_again {node node' : Json} {suggested : TypeName} {type : TypeExpr} {r r' : Registry}
    (hrun : typeOf d node suggested r = .ok (type, r')) (hremembers : r'.Remembers R)
    (hnode : node.Matches node') :
    Succeeds (R.Under stack) (typeOf d' node' suggested) (· = type) := by
  obtain ⟨inline, hplace, -⟩ := typeOf_eq_ok.1 hrun
  have htypes := hremembers.types (Registry.types_of_typeOf hrun)
  refine (typeOf_succeeds h hproper htypes hnode).mono ?_
  rintro type' ⟨inline', hplace'⟩
  exact (Place.mk.inj (Except.ok.inj (hplace'.symm.trans hplace))).1

theorem objectFields_succeeds {leaf : Leaf} {properties' : List (String × Json)}
    (htypes : R.TypesAll d leaf) (hproperties : Json.FieldsMatch leaf.properties properties')
    (required : List String) :
    Succeeds (R.Under stack) (objectFields d' leaf.owner properties' required) anyResult := by
  refine .mapM fun property' hmem => ?_
  obtain ⟨property, hproperty, hkey, hmatch⟩ := hproperties.symm.exists_mem hmem
  have htype := htypes property hproperty
  rw [hkey, Leaf.suggested] at htype
  exact (typeOf_succeeds h hproper htype hmatch.symm).bind fun _ _ => .pure trivial

end Build

end OpenApiServer
