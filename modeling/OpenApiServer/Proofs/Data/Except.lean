import Mathlib.Data.List.Forall2

/-!
# Lists of steps that can fail

A list of steps succeeds when each step does, and gives the results in order. It fails as the first
step that fails.
-/

namespace OpenApiServer

variable {ε α β : Type}

theorem bind_eq_ok_iff {x : Except ε α} {f : α → Except ε β} {b : β} :
    x >>= f = .ok b ↔ ∃ a, x = .ok a ∧ f a = .ok b := by
  cases x with
  | error e => simp [bind, Except.bind]
  | ok a => simp [bind, Except.bind]

theorem bind_eq_error_iff {x : Except ε α} {f : α → Except ε β} {e : ε} :
    x >>= f = .error e ↔ x = .error e ∨ ∃ a, x = .ok a ∧ f a = .error e := by
  cases x with
  | error e' => simp [bind, Except.bind]
  | ok a => simp [bind, Except.bind]

theorem map_eq_ok_iff {x : Except ε α} {f : α → β} {b : β} :
    f <$> x = .ok b ↔ ∃ a, x = .ok a ∧ f a = b := by
  cases x with
  | error e => simp [Functor.map, Except.map]
  | ok a => simp [Functor.map, Except.map]

theorem map_eq_error_iff {x : Except ε α} {f : α → β} {e : ε} :
    f <$> x = .error e ↔ x = .error e := by
  cases x with
  | error e' => simp [Functor.map, Except.map]
  | ok a => simp [Functor.map, Except.map]

theorem mapError_eq_ok_iff {ε' : Type} {x : Except ε α} {f : ε → ε'} {a : α} :
    x.mapError f = .ok a ↔ x = .ok a := by
  cases x with
  | error e => simp [Except.mapError]
  | ok b => simp [Except.mapError]

theorem mapError_eq_error_iff {ε' : Type} {x : Except ε α} {f : ε → ε'} {e' : ε'} :
    x.mapError f = .error e' ↔ ∃ e, x = .error e ∧ f e = e' := by
  cases x with
  | error e => simp [Except.mapError]
  | ok b => simp [Except.mapError]

theorem toOption_eq_some_iff {x : Except ε α} {a : α} : x.toOption = some a ↔ x = .ok a := by
  cases x with
  | error e => simp [Except.toOption]
  | ok a => simp [Except.toOption]

theorem mapM_eq_ok_iff {f : α → Except ε β} {xs : List α} {ys : List β} :
    xs.mapM f = .ok ys ↔ List.Forall₂ (fun x y => f x = .ok y) xs ys := by
  induction xs generalizing ys with
  | nil => simp [pure, Except.pure, eq_comm]
  | cons x rest ih =>
    rw [List.mapM_cons, bind_eq_ok_iff]
    simp only [bind_eq_ok_iff, ih, List.forall₂_cons_left_iff]
    constructor
    · rintro ⟨y, hy, ys', hys', h⟩
      exact ⟨y, ys', hy, hys', (Except.ok.inj h).symm⟩
    · rintro ⟨y, ys', hy, hys', rfl⟩
      exact ⟨y, hy, ys', hys', rfl⟩

/-- A list of steps fails as the first step that fails. -/
theorem mapM_eq_error_iff {f : α → Except ε β} {xs : List α} {e : ε} :
    xs.mapM f = .error e ↔ ∃ before x after, xs = before ++ x :: after ∧
      (∀ x' ∈ before, ∃ y, f x' = .ok y) ∧ f x = .error e := by
  induction xs with
  | nil => simp [pure, Except.pure]
  | cons x rest ih =>
    simp only [List.mapM_cons, bind_eq_error_iff, ih, pure, Except.pure, reduceCtorEq, and_false,
      exists_false, or_false]
    constructor
    · rintro (h | ⟨y, hy, before, x', after, rfl, hbefore, h⟩)
      · exact ⟨[], x, rest, rfl, by simp, h⟩
      · exact ⟨x :: before, x', after, rfl, List.forall_mem_cons.2 ⟨⟨y, hy⟩, hbefore⟩, h⟩
    · rintro ⟨before, x', after, heq, hbefore, h⟩
      cases before with
      | nil =>
        obtain ⟨rfl, rfl⟩ := List.cons.inj heq
        exact .inl h
      | cons first before =>
        obtain ⟨rfl, rfl⟩ := List.cons.inj heq
        obtain ⟨⟨y, hy⟩, hbefore⟩ := List.forall_mem_cons.1 hbefore
        exact .inr ⟨y, hy, before, x', after, rfl, hbefore, h⟩

/-- Errors can be rewritten step by step. -/
theorem mapError_mapM {ε' : Type} (g : ε → ε') (f : α → Except ε β) (xs : List α) :
    (xs.mapM f).mapError g = xs.mapM fun x => (f x).mapError g := by
  induction xs with
  | nil => rfl
  | cons x rest ih =>
    rw [List.mapM_cons, List.mapM_cons, ← ih]
    cases f x with
    | error e => rfl
    | ok y => cases rest.mapM f <;> rfl

/-- What each step keeps, a fold of steps that succeeds keeps. -/
theorem foldlM_keeps {f : β → α → Except ε β} {p : β → Prop} {xs : List α} {init last : β}
    (hf : ∀ x ∈ xs, ∀ b b', p b → f b x = .ok b' → p b') (hinit : p init)
    (h : xs.foldlM f init = .ok last) : p last := by
  induction xs generalizing init with
  | nil =>
    obtain rfl := Except.ok.inj h
    exact hinit
  | cons x rest ih =>
    rw [List.foldlM_cons, bind_eq_ok_iff] at h
    obtain ⟨b, hb, h⟩ := h
    refine ih (fun x' hx' => hf x' (List.mem_cons_of_mem _ hx')) ?_ h
    exact hf x (List.mem_cons_self ..) init b hinit hb

end OpenApiServer
