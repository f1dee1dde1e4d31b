import OpenApiServer.Proofs.Build.Places
import OpenApiServer.Proofs.Build.Registry

/-!
# Types mention claimed names

A reference to a named schema is covered, and an inline schema is registered under the name that
its place gets. So a type mentions claimed names only, however deep its lists and references go.

## Steps whose results mention claimed names

`Resolves d r x names` says of every run of `x` from `r` that succeeds: a sound registry stays sound
with the same declared names, it only grows, and what the result mentions by `names` is claimed in
the end. A step resolves when its parts do, each from the registry that the part before it leaves.
-/

namespace OpenApiServer.Build

variable {α β : Type} {d : Document} {r : Registry}

def Resolves (d : Document) (r : Registry) (x : Build α) (names : α → List TypeName) : Prop :=
  ∀ ⦃declared⦄, r.Sound d declared → ∀ ⦃a r'⦄, x r = .ok (a, r') →
    r'.Sound d declared ∧ r.Grows r' ∧ names a ⊆ r'.claimed

/-- What no name needs to be claimed for. -/
def noNames (_ : α) : List TypeName := []

theorem noNames_subset (a : α) (names : List TypeName) : noNames a ⊆ names := List.nil_subset _

namespace Resolves

theorem pure {a : α} {names : α → List TypeName} (h : names a ⊆ r.claimed) :
    Resolves d r (pure a) names := by
  intro declared sound b r' hrun
  obtain ⟨rfl, rfl⟩ := pure_eq_ok.1 hrun
  exact ⟨sound, .refl r, h⟩

theorem fail {e : BuildError} {names : α → List TypeName} : Resolves d r (fail e) names :=
  fun _ _ _ _ hrun => absurd hrun fail_ne_ok

theorem fail_bind {e : BuildError} {f : α → Build β} {names : β → List TypeName} :
    Resolves d r (Build.fail e >>= f) names := by
  intro declared sound b r' hrun
  obtain ⟨a, s, hfail, -⟩ := bind_eq_ok.1 hrun
  exact absurd hfail fail_ne_ok

/-- What comes after a check may ignore it. -/
theorem guard {c : Prop} [Decidable c] {e : BuildError} {g : α → Build β} {x : Build β}
    {names : β → List TypeName} (hx : Resolves d r x names) :
    Resolves d r (if c then Build.fail e >>= g else x) names := by
  split
  · exact .fail_bind
  · exact hx

/-- A step may use that the registry is sound. -/
theorem of_sound {x : Build α} {names : α → List TypeName}
    (h : ∀ declared, r.Sound d declared → Resolves d r x names) : Resolves d r x names :=
  fun declared sound => h declared sound sound

theorem bind {x : Build α} {f : α → Build β} {names : α → List TypeName}
    {names' : β → List TypeName} (hx : Resolves d r x names)
    (hf : ∀ a r', r.Grows r' → names a ⊆ r'.claimed → Resolves d r' (f a) names') :
    Resolves d r (x >>= f) names' := by
  intro declared sound b last hrun
  obtain ⟨a, s, hxrun, hfrun⟩ := bind_eq_ok.1 hrun
  obtain ⟨hsound, hgrows, hnames⟩ := hx sound hxrun
  obtain ⟨hsound', hgrows', hnames'⟩ := hf a s hgrows hnames hsound hfrun
  exact ⟨hsound', hgrows.trans hgrows', hnames'⟩

theorem map {x : Build α} {f : α → β} {names : β → List TypeName}
    (hx : Resolves d r x (names ∘ f)) : Resolves d r (f <$> x) names := by
  intro declared sound b r' hrun
  obtain ⟨a, hxrun, rfl⟩ := map_eq_ok.1 hrun
  exact hx sound hxrun

theorem lift_bind {x : Except BuildError α} {f : α → Build β} {names : β → List TypeName}
    (hf : ∀ a, x = .ok a → Resolves d r (f a) names) : Resolves d r (liftM x >>= f) names := by
  intro declared sound b r' hrun
  obtain ⟨a, s, hxrun, hfrun⟩ := bind_eq_ok.1 hrun
  obtain ⟨hx, rfl⟩ := lift_eq_ok.1 hxrun
  exact hf a hx sound hfrun

theorem get_bind {f : Registry → Build β} {names : β → List TypeName}
    (hf : Resolves d r (f r) names) : Resolves d r (get >>= f) names := by
  intro declared sound b r' hrun
  obtain ⟨a, s, hget, hfrun⟩ := bind_eq_ok.1 hrun
  obtain ⟨rfl, rfl⟩ := get_eq_ok.1 hget
  exact hf sound hfrun

/-- A change of the registry that neither claims, queues nor declares. -/
theorem modify {f : Registry → Registry} {names : Unit → List TypeName}
    (hclaims : (f r).claims = r.claims) (hpending : (f r).pending = r.pending)
    (htypes : (f r).types = r.types)
    (hclosed : r.mentioned ⊆ r.claimed → (f r).mentioned ⊆ r.claimed)
    (hnames : names () ⊆ r.claimed) : Resolves d r (modify f) names := by
  intro declared sound a r' hrun
  obtain rfl := modify_eq_ok.1 hrun
  have hclaimed : (f r).claimed = r.claimed := by
    rw [Registry.claimed, hclaims, Registry.claimed]
  refine ⟨sound.of_eq hclaims hpending (hclosed sound.closed), ⟨?_, htypes⟩, ?_⟩
  · rw [hclaimed]
    exact List.Subset.refl _
  · rw [hclaimed]
    exact hnames

theorem warn (message : String) : Resolves d r (warn message) noNames :=
  modify rfl rfl rfl id (List.nil_subset _)

/-! ### Lists of steps -/

theorem mapM {f : α → Build β} {names : β → List TypeName} {xs : List α}
    (hf : ∀ x ∈ xs, ∀ r', r.Grows r' → Resolves d r' (f x) names) :
    Resolves d r (xs.mapM f) fun ys => ys.flatMap names := by
  induction xs generalizing r with
  | nil => exact pure (List.nil_subset _)
  | cons x rest ih =>
    rw [List.mapM_cons]
    refine (hf x (List.mem_cons_self ..) r (.refl r)).bind fun y r₁ hgrows₁ hy => ?_
    refine (ih fun x' hx' r' hgrows => ?_).bind fun ys r₂ hgrows₂ hys => ?_
    · exact hf x' (List.mem_cons_of_mem _ hx') r' (hgrows₁.trans hgrows)
    · refine pure ?_
      rw [List.flatMap_cons]
      exact List.append_subset.2 ⟨hgrows₂.mono hy, hys⟩

/-- A fold carries what its state mentions from step to step. -/
theorem foldlM {f : β → α → Build β} {names : β → List TypeName} {xs : List α} {init : β}
    (hinit : names init ⊆ r.claimed)
    (hf : ∀ x ∈ xs, ∀ b r', r.Grows r' → names b ⊆ r'.claimed → Resolves d r' (f b x) names) :
    Resolves d r (xs.foldlM f init) names := by
  induction xs generalizing r init with
  | nil => exact pure hinit
  | cons x rest ih =>
    rw [List.foldlM_cons]
    refine (hf x (List.mem_cons_self ..) init r (.refl r) hinit).bind fun b r₁ hgrows₁ hb => ?_
    refine ih hb fun x' hx' b' r' hgrows hb' => ?_
    exact hf x' (List.mem_cons_of_mem _ hx') b' r' (hgrows₁.trans hgrows) hb'

theorem forM {f : α → Build PUnit} {xs : List α}
    (hf : ∀ x ∈ xs, ∀ r', r.Grows r' → Resolves d r' (f x) noNames) :
    Resolves d r (xs.forM f) noNames := by
  induction xs generalizing r with
  | nil => exact pure (List.nil_subset _)
  | cons x rest ih =>
    rw [List.forM]
    refine (hf x (List.mem_cons_self ..) r (.refl r)).bind fun _ r₁ hgrows₁ _ => ?_
    refine ih fun x' hx' r' hgrows => ?_
    exact hf x' (List.mem_cons_of_mem _ hx') r' (hgrows₁.trans hgrows)

end Resolves

end OpenApiServer.Build

/-! ## The types of schemas -/

namespace OpenApiServer

theorem Registry.Sound.enlist {d : Document} {r r' : Registry} {declared : List TypeName}
    {inline : Option (TypeName × Json)} (sound : r.Sound d declared)
    (h : r.enlist inline = .ok r') :
    r'.Sound d declared ∧ r.Grows r' ∧
      ∀ name node, inline = some (name, node) → name ∈ r'.claimed := by
  cases inline with
  | none =>
    obtain rfl := Except.ok.inj h
    exact ⟨sound, .refl r, fun _ _ hnone => nomatch hnone⟩
  | some found =>
    obtain ⟨name, node⟩ := found
    obtain ⟨sound', hgrows, hmem⟩ := sound.register h
    refine ⟨sound', hgrows, fun name' node' hfound => ?_⟩
    obtain ⟨rfl, -⟩ := Prod.mk.inj (Option.some.inj hfound)
    exact hmem

namespace Build

variable {d : Document} {r : Registry}

/-- An inline schema gets a claimed name, and so does every schema that a reference names. -/
theorem typeOf_resolves (node : Json) (suggested : TypeName) :
    Resolves d r (typeOf d node suggested) TypeExpr.names := by
  intro declared sound type r' hrun
  obtain ⟨inline, hplace, henlist⟩ := typeOf_eq_ok.1 hrun
  obtain ⟨sound', hgrows, hinline⟩ := sound.enlist henlist
  refine ⟨sound', hgrows, (placeFrom_eq_ok_iff.1 hplace).forall_names ?_ ?_⟩
  · intro pointer name target hname htarget
    exact hgrows.claimed (sound.covered hname htarget)
  · exact hinline

end Build

end OpenApiServer
