import OpenApiServer.Proofs.Build.KeptFields
import OpenApiServer.Proofs.Build.Monad

/-!
# Steps that keep an invariant

`Keeps P x q` says of every run of `x` that succeeds: what holds of the registry before it holds of
the registry after it, and the result is of some kind. A step keeps an invariant when its parts do,
and each part may use what kind of result the parts before it have.
-/

namespace OpenApiServer.Build

variable {α β : Type} {P : Registry → Prop}

def Keeps (P : Registry → Prop) (x : Build α) (q : α → Prop) : Prop :=
  ∀ ⦃r a r'⦄, P r → x r = .ok (a, r') → P r' ∧ q a

/-- What holds of any result. -/
def anyResult (_ : α) : Prop := True

namespace Keeps

variable {x : Build α} {f : α → Build β} {p : α → Prop} {q : β → Prop}

theorem pure {a : α} (h : p a) : Keeps P (pure a) p := by
  intro r b r' hr hrun
  obtain ⟨rfl, rfl⟩ := pure_eq_ok.1 hrun
  exact ⟨hr, h⟩

theorem fail {e : BuildError} : Keeps P (fail e) p :=
  fun _ _ _ _ hrun => absurd hrun fail_ne_ok

theorem fail_bind {e : BuildError} : Keeps P (Build.fail e >>= f) q :=
  fun _ _ _ _ hrun => absurd hrun fail_bind_ne_ok

/-- What comes after a check may ignore it. -/
theorem guard {c : Prop} [Decidable c] {e : BuildError} {y : Build β} (hy : Keeps P y q) :
    Keeps P (if c then Build.fail e >>= f else y) q := by
  split
  · exact fail_bind
  · exact hy

theorem bind (hx : Keeps P x p) (hf : ∀ a, p a → Keeps P (f a) q) : Keeps P (x >>= f) q := by
  intro r b r' hr hrun
  obtain ⟨a, s, hxrun, hfrun⟩ := bind_eq_ok.1 hrun
  obtain ⟨hs, ha⟩ := hx hr hxrun
  exact hf a ha hs hfrun

theorem map {g : α → β} (hx : Keeps P x fun a => q (g a)) : Keeps P (g <$> x) q := by
  intro r b r' hr hrun
  obtain ⟨a, hxrun, rfl⟩ := map_eq_ok.1 hrun
  exact hx hr hxrun

theorem mono {p' : α → Prop} (hx : Keeps P x p) (h : ∀ a, p a → p' a) : Keeps P x p' :=
  fun _ a _ hr hrun => (hx hr hrun).imp_right (h a)

theorem any (hx : Keeps P x p) : Keeps P x anyResult := hx.mono fun _ _ => trivial

/-- What every run of a step yields, the runs that keep an invariant yield. -/
theorem yields (hx : Keeps P x anyResult) (h : Yields x p) : Keeps P x p :=
  fun _ _ _ hr hrun => ⟨(hx hr hrun).1, h hrun⟩

theorem lift_bind {x : Except BuildError α} (hf : ∀ a, x = .ok a → Keeps P (f a) q) :
    Keeps P (liftM x >>= f) q := by
  intro r b r' hr hrun
  obtain ⟨a, ha, hfrun⟩ := lift_bind_eq_ok.1 hrun
  exact hf a ha hr hfrun

theorem get_bind {f : Registry → Build β} (hf : ∀ r, P r → Keeps P (f r) q) :
    Keeps P (get >>= f) q :=
  fun r _ _ hr hrun => hf r hr hr (get_bind_eq_ok.1 hrun)

theorem modify {g : Registry → Registry} (hg : ∀ r, P r → P (g r)) :
    Keeps P (modify g) anyResult := by
  intro r a r' hr hrun
  obtain rfl := modify_eq_ok.1 hrun
  exact ⟨hg r hr, trivial⟩

theorem step {g : Registry → Except BuildError Registry}
    (hg : ∀ r r', P r → g r = .ok r' → P r') : Keeps P (step g) anyResult :=
  fun r _ r' hr hrun => ⟨hg r r' hr (step_eq_ok.1 hrun), trivial⟩

theorem mapM {f : α → Build β} {xs : List α} (hf : ∀ x ∈ xs, Keeps P (f x) q) :
    Keeps P (xs.mapM f) fun ys => ∀ y ∈ ys, q y := by
  induction xs with
  | nil => exact pure (by simp)
  | cons x rest ih =>
    obtain ⟨hx, hrest⟩ := List.forall_mem_cons.1 hf
    rw [List.mapM_cons]
    refine hx.bind fun y hy => (ih hrest).bind fun ys hys => pure ?_
    exact List.forall_mem_cons.2 ⟨hy, hys⟩

theorem foldlM {f : β → α → Build β} {xs : List α} (hf : ∀ x ∈ xs, ∀ b, q b → Keeps P (f b x) q)
    {b : β} (hb : q b) : Keeps P (xs.foldlM f b) q := by
  induction xs generalizing b with
  | nil => exact pure hb
  | cons x rest ih =>
    obtain ⟨hx, hrest⟩ := List.forall_mem_cons.1 hf
    rw [List.foldlM_cons]
    exact (hx b hb).bind fun b' hb' => ih hrest hb'

theorem forM {f : α → Build Unit} {xs : List α} (hf : ∀ x ∈ xs, Keeps P (f x) anyResult) :
    Keeps P (xs.forM f) anyResult := by
  induction xs with
  | nil => exact pure trivial
  | cons x rest ih =>
    obtain ⟨hx, hrest⟩ := List.forall_mem_cons.1 hf
    rw [List.forM]
    exact hx.bind fun _ _ => ih hrest

end Keeps

end OpenApiServer.Build

/-!
## The names that are being merged

A name is being merged from when it is entered until its fields are known. A run that succeeds leaves
every name that it enters, so that afterwards the same names are being merged as before.
-/

namespace OpenApiServer.Build

variable {d : Document} {r r' : Registry}

theorem objectFields_stack (stack : List TypeName) (owner : TypeName)
    (properties : List (String × Json)) (required : List String) :
    Keeps (·.merging = stack) (objectFields d owner properties required) anyResult :=
  fun _ _ _ hr hrun =>
    ⟨(objectFields_registering owner properties required hrun).merging.trans hr, trivial⟩

/-- A run that succeeds leaves every name that it enters. -/
theorem keeps_stack (depth : Nat) :
    (∀ stack name node,
      Keeps (·.merging = stack) (recordFieldsFrom d depth name node) anyResult) ∧
    (∀ stack owner merged part,
      Keeps (·.merging = stack) (mergeFragmentFrom d depth owner merged part) anyResult) := by
  induction depth with
  | zero =>
    constructor
    · intro stack name node
      rw [recordFieldsFrom]
      exact .fail
    · intro stack owner merged part
      rw [mergeFragmentFrom]
      exact .fail
  | succ depth ih =>
    obtain ⟨hrecords, hparts⟩ := ih
    have hfold (stack : List TypeName) (owner : TypeName) (parts : List Json)
        (merged : List Field) : Keeps (·.merging = stack)
          (parts.foldlM (mergeFragmentFrom d depth owner) merged) anyResult :=
      .foldlM (fun part _ merged _ => hparts stack owner merged part) trivial
    constructor
    · intro stack name node
      rw [recordFieldsFrom]
      refine .get_bind fun r hr => ?_
      split
      next => exact .pure trivial
      next =>
        have hkeep (fields : List Field) : Keeps (·.merging = stack)
            (do modify (·.keepFields name fields); return fields) anyResult :=
          (Keeps.modify fun _ hr => by exact hr).bind fun _ _ => .pure trivial
        refine .lift_bind fun schema _ => ?_
        split
        next => exact (objectFields_stack stack name _ _).bind fun _ _ => hkeep _
        next parts _ =>
          intro r a r' hr hrun
          obtain ⟨_, s, henter, hrun⟩ := bind_eq_ok.1 hrun
          obtain ⟨-, rfl⟩ := enterMerge_eq_ok (step_eq_ok.1 henter)
          obtain ⟨merged, s, hmerged, hrun⟩ := bind_eq_ok.1 hrun
          obtain ⟨hs, -⟩ := hfold (r.merging ++ [name]) name parts [] rfl hmerged
          obtain ⟨_, s', hleave, hrun⟩ := bind_eq_ok.1 hrun
          obtain rfl := modify_eq_ok.1 hleave
          rw [pure_bind] at hrun
          obtain ⟨-, rfl⟩ := keepFields_eq_ok.1 hrun
          refine ⟨?_, trivial⟩
          change s.merging.dropLast = stack
          rw [hs, List.dropLast_concat, hr]
        next => exact .fail_bind
    · intro stack owner merged part
      rw [mergeFragmentFrom]
      refine .lift_bind fun found _ => ?_
      split
      next => exact (hrecords stack _ _).bind fun _ _ => .pure trivial
      next =>
        refine .lift_bind fun node _ => .lift_bind fun schema _ => ?_
        split
        next => exact (objectFields_stack stack owner _ _).bind fun _ _ => .pure trivial
        next => exact hfold stack owner _ merged
        next => exact .fail

theorem mergeFragmentFrom_merging {depth : Nat} {owner : TypeName} {merged fields : List Field}
    {part : Json} (h : mergeFragmentFrom d depth owner merged part r = .ok (fields, r')) :
    r'.merging = r.merging :=
  ((keeps_stack depth).2 _ owner merged part rfl h).1

end OpenApiServer.Build
