import OpenApiServer.Build.Registry
import OpenApiServer.Proofs.Data.Except

/-!
# Runs of a build

What a successful run of a build step says about its parts. A build starts from a registry and ends
with a result and a registry, or with an error; `x r = .ok (a, r')` is a run of `x` that succeeds.
-/

namespace OpenApiServer.Build

variable {α β : Type} {r r' : Registry}

theorem pure_eq_ok {a b : α} : (pure a : Build α) r = .ok (b, r') ↔ a = b ∧ r = r' := by
  constructor
  · intro h
    exact Prod.mk.inj (Except.ok.inj h)
  · rintro ⟨rfl, rfl⟩
    rfl

theorem bind_eq_ok {x : Build α} {f : α → Build β} {b : β} :
    (x >>= f) r = .ok (b, r') ↔ ∃ a s, x r = .ok (a, s) ∧ f a s = .ok (b, r') := by
  change (x r >>= fun p => f p.1 p.2) = _ ↔ _
  rw [bind_eq_ok_iff, Prod.exists]

theorem map_eq_ok {x : Build α} {f : α → β} {b : β} :
    (f <$> x) r = .ok (b, r') ↔ ∃ a, x r = .ok (a, r') ∧ f a = b := by
  rw [map_eq_pure_bind, bind_eq_ok]
  constructor
  · rintro ⟨a, s, ha, hb⟩
    obtain ⟨rfl, rfl⟩ := pure_eq_ok.1 hb
    exact ⟨a, ha, rfl⟩
  · rintro ⟨a, ha, rfl⟩
    exact ⟨a, r', ha, pure_eq_ok.2 ⟨rfl, rfl⟩⟩

/-- A step that reads no registry leaves it as it is. -/
theorem lift_eq_ok {x : Except BuildError α} {a : α} :
    (liftM x : Build α) r = .ok (a, r') ↔ x = .ok a ∧ r = r' := by
  simp only [liftM, monadLift, MonadLift.monadLift, StateT.lift, bind_eq_ok_iff]
  constructor
  · rintro ⟨b, hb, h⟩
    obtain ⟨rfl, rfl⟩ := Prod.mk.inj (Except.ok.inj h)
    exact ⟨hb, rfl⟩
  · rintro ⟨ha, rfl⟩
    exact ⟨a, ha, rfl⟩

theorem get_eq_ok {a : Registry} : (get : Build Registry) r = .ok (a, r') ↔ a = r ∧ r' = r := by
  simp [get, getThe, MonadStateOf.get, StateT.get, pure, Except.pure, eq_comm]

theorem modifyGet_eq_ok {f : Registry → α × Registry} {a : α} :
    (modifyGet f : Build α) r = .ok (a, r') ↔ f r = (a, r') := by
  simp [modifyGet, MonadStateOf.modifyGet, StateT.modifyGet, pure, Except.pure]

theorem modify_eq_ok {f : Registry → Registry} {a : Unit} :
    (modify f : Build Unit) r = .ok (a, r') ↔ f r = r' := by
  simp [modify, modifyGet_eq_ok]

theorem step_eq_ok {f : Registry → Except BuildError Registry} {a : Unit} :
    step f r = .ok (a, r') ↔ f r = .ok r' := by
  simp only [step, bind_eq_ok_iff]
  constructor
  · rintro ⟨s, hs, h⟩
    obtain ⟨-, rfl⟩ := Prod.mk.inj (Except.ok.inj h)
    exact hs
  · intro h
    exact ⟨r', h, rfl⟩

theorem get_bind_eq_ok {f : Registry → Build β} {b : β} :
    (get >>= f) r = .ok (b, r') ↔ f r r = .ok (b, r') := by
  rw [bind_eq_ok]
  constructor
  · rintro ⟨a, s, hget, h⟩
    obtain ⟨ha, hs⟩ := get_eq_ok.1 hget
    rwa [ha, hs] at h
  · intro h
    exact ⟨r, r, get_eq_ok.2 ⟨rfl, rfl⟩, h⟩

theorem lift_bind_eq_ok {x : Except BuildError α} {f : α → Build β} {b : β} :
    (liftM x >>= f) r = .ok (b, r') ↔ ∃ a, x = .ok a ∧ f a r = .ok (b, r') := by
  rw [bind_eq_ok]
  constructor
  · rintro ⟨a, s, hlift, h⟩
    obtain ⟨ha, rfl⟩ := lift_eq_ok.1 hlift
    exact ⟨a, ha, h⟩
  · rintro ⟨a, ha, h⟩
    exact ⟨a, r, lift_eq_ok.2 ⟨ha, rfl⟩, h⟩

theorem fail_ne_ok {e : BuildError} {a : α} : (fail e : Build α) r ≠ .ok (a, r') := by
  simp [fail, throw, throwThe, MonadExceptOf.throw, StateT.lift, bind, Except.bind]

/-- The results of a list of steps, each from some registry on the way. -/
theorem forall₂_of_mapM {f : α → Build β} {xs : List α} {ys : List β}
    (h : xs.mapM f r = .ok (ys, r')) :
    List.Forall₂ (fun x y => ∃ s s', f x s = .ok (y, s')) xs ys := by
  induction xs generalizing r ys with
  | nil =>
    obtain ⟨rfl, -⟩ := pure_eq_ok.1 h
    exact .nil
  | cons x rest ih =>
    rw [List.mapM_cons] at h
    obtain ⟨y, s, hy, h⟩ := bind_eq_ok.1 h
    obtain ⟨later, s', hlater, h⟩ := bind_eq_ok.1 h
    obtain ⟨rfl, rfl⟩ := pure_eq_ok.1 h
    exact .cons ⟨r, s, hy⟩ (ih hlater)

theorem fail_bind_ne_ok {e : BuildError} {f : α → Build β} {b : β} :
    (fail e >>= f) r ≠ .ok (b, r') := by
  intro h
  obtain ⟨a, s, hfail, -⟩ := bind_eq_ok.1 h
  exact fail_ne_ok hfail

/-! ## What results satisfy -/

/-- Whether every result of a run that succeeds satisfies a property. -/
def Yields (x : Build α) (p : α → Prop) : Prop := ∀ ⦃r a r'⦄, x r = .ok (a, r') → p a

namespace Yields

variable {x : Build α} {f : α → Build β} {p : α → Prop} {q : β → Prop}

theorem pure {a : α} (h : p a) : Yields (pure a) p := by
  intro r b r' hrun
  obtain ⟨rfl, -⟩ := pure_eq_ok.1 hrun
  exact h

theorem fail {e : BuildError} : Yields (fail e) p := fun _ _ _ hrun => absurd hrun fail_ne_ok

/-- The last step decides what a sequence yields. -/
theorem bind (hf : ∀ a, Yields (f a) q) : Yields (x >>= f) q := by
  intro r b r' hrun
  obtain ⟨a, s, -, hfrun⟩ := bind_eq_ok.1 hrun
  exact hf a hfrun

theorem map {g : α → β} (hx : Yields x fun a => q (g a)) : Yields (g <$> x) q := by
  intro r b r' hrun
  obtain ⟨a, hxrun, rfl⟩ := map_eq_ok.1 hrun
  exact hx hxrun

end Yields

end OpenApiServer.Build
