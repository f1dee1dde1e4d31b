import OpenApiServer.Build.Server
import OpenApiServer.Proofs.Build.Monad

/-!
# The queue in passes

Working off the queue is a number of passes, and one has a result exactly if some number of passes
leaves nothing queued. A pass over an empty queue does nothing, so any greater number does as well.
-/

namespace OpenApiServer.Build

variable {d : Document} {r r' s : Registry} {n m : Nat}

/-- A number of passes over the queue. -/
def passes (d : Document) : Nat → Build Unit
  | 0 => pure ()
  | n + 1 => do
    declarePass d
    passes d n

theorem passes_zero_eq_ok : passes d 0 r = .ok ((), r') ↔ r = r' := by
  rw [passes, pure_eq_ok, and_iff_right rfl]

theorem passes_succ_eq_ok :
    passes d (n + 1) r = .ok ((), r') ↔
      ∃ s, declarePass d r = .ok ((), s) ∧ passes d n s = .ok ((), r') := by
  rw [passes, bind_eq_ok]
  constructor
  · rintro ⟨⟨⟩, s, hfirst, hlater⟩
    exact ⟨s, hfirst, hlater⟩
  · rintro ⟨s, hfirst, hlater⟩
    exact ⟨(), s, hfirst, hlater⟩

theorem passes_add_eq_ok :
    passes d (n + m) r = .ok ((), r') ↔
      ∃ s, passes d n r = .ok ((), s) ∧ passes d m s = .ok ((), r') := by
  induction n generalizing r with
  | zero => simp [passes_zero_eq_ok]
  | succ n ih =>
    rw [Nat.add_right_comm, passes_succ_eq_ok]
    constructor
    · rintro ⟨t, hfirst, hlater⟩
      obtain ⟨s, hbefore, hafter⟩ := ih.1 hlater
      exact ⟨s, passes_succ_eq_ok.2 ⟨t, hfirst, hbefore⟩, hafter⟩
    · rintro ⟨s, hbefore, hafter⟩
      obtain ⟨t, hfirst, hbefore⟩ := passes_succ_eq_ok.1 hbefore
      exact ⟨t, hfirst, ih.2 ⟨s, hbefore, hafter⟩⟩

theorem declarePass_of_empty (h : r.pending = []) : declarePass d r = .ok ((), r) := by
  refine bind_eq_ok.2 ⟨[], r, modifyGet_eq_ok.2 ?_, pure_eq_ok.2 ⟨rfl, rfl⟩⟩
  rw [Registry.takePass, h]
  cases r
  exact congrArg _ (by rw [← h])

theorem passes_of_empty (h : r.pending = []) : passes d n r = .ok ((), r) := by
  induction n with
  | zero => exact passes_zero_eq_ok.2 rfl
  | succ n ih => exact passes_succ_eq_ok.2 ⟨r, declarePass_of_empty h, ih⟩

/-- Passes after the queue is empty change nothing. -/
theorem passes_of_le (hle : n ≤ m) (h : passes d n r = .ok ((), r')) (hempty : r'.pending = []) :
    passes d m r = .ok ((), r') := by
  obtain ⟨k, rfl⟩ := Nat.exists_eq_add_of_le hle
  exact passes_add_eq_ok.2 ⟨r', h, passes_of_empty hempty⟩

/-- Whether some number of passes leads from a registry to one with an empty queue. -/
def Drains (d : Document) (r r' : Registry) : Prop :=
  r'.pending = [] ∧ ∃ n, passes d n r = .ok ((), r')

theorem drains_of_empty (h : r.pending = []) : Drains d r r' ↔ r = r' := by
  constructor
  · rintro ⟨-, n, hrun⟩
    rw [passes_of_empty h] at hrun
    exact (Prod.mk.inj (Except.ok.inj hrun)).2
  · rintro rfl
    exact ⟨h, 0, passes_zero_eq_ok.2 rfl⟩

theorem drains_of_pass (hpass : declarePass d r = .ok ((), s)) : Drains d r r' ↔ Drains d s r' := by
  refine and_congr_right fun hempty => ⟨?_, ?_⟩
  · rintro ⟨n, hrun⟩
    have hmore := passes_of_le (Nat.le_succ n) hrun hempty
    obtain ⟨t, hfirst, hlater⟩ := passes_succ_eq_ok.1 hmore
    obtain rfl := (Prod.mk.inj (Except.ok.inj (hpass.symm.trans hfirst))).2
    exact ⟨n, hlater⟩
  · rintro ⟨n, hrun⟩
    exact ⟨n + 1, passes_succ_eq_ok.2 ⟨s, hpass, hrun⟩⟩

theorem drains_of_drainOn (h : d.drainOn r = some (.ok r')) : Drains d r r' := by
  refine Document.drainOn.partial_correctness d (fun r result => ∀ r', result = .ok r' → Drains d r r')
    (fun drainOn ih r result hrun r' hresult => ?_) r _ h r' rfl
  subst hresult
  split_ifs at hrun with hempty
  · obtain rfl := Except.ok.inj (Option.some.inj hrun)
    exact (drains_of_empty (List.isEmpty_iff.1 hempty)).2 rfl
  · split at hrun
    next next hpass => exact (drains_of_pass hpass).2 (ih next _ hrun r' rfl)
    next => cases hrun

/-- The loop without a bound ends exactly if some number of passes empties the queue. -/
theorem drainOn_eq_some_iff : d.drainOn r = some (.ok r') ↔ Drains d r r' := by
  refine ⟨drains_of_drainOn, ?_⟩
  rintro ⟨hempty, n, hrun⟩
  induction n generalizing r with
  | zero =>
    obtain rfl := passes_zero_eq_ok.1 hrun
    rw [Document.drainOn, if_pos (List.isEmpty_iff.2 hempty)]
  | succ n ih =>
    obtain ⟨s, hfirst, hlater⟩ := passes_succ_eq_ok.1 hrun
    rw [Document.drainOn]
    split_ifs with hdone
    · rw [declarePass_of_empty (List.isEmpty_iff.1 hdone)] at hfirst
      obtain rfl := (Prod.mk.inj (Except.ok.inj hfirst)).2
      obtain rfl := (drains_of_empty (List.isEmpty_iff.1 hdone)).1 ⟨hempty, n, hlater⟩
      rfl
    · rw [hfirst]
      exact ih hlater

theorem drainFrom_eq_ok_iff : drainFrom d n r = .ok ((), r') ↔ Drains d r r' := by
  induction n generalizing r with
  | zero =>
    rw [drainFrom, step_eq_ok, ← drainOn_eq_some_iff]
    cases d.drainOn r with
    | none => simp
    | some result => simp
  | succ n ih =>
    rw [drainFrom, get_bind_eq_ok]
    split_ifs with hempty
    · rw [pure_eq_ok, drains_of_empty (List.isEmpty_iff.1 hempty), and_iff_right rfl]
    · rw [bind_eq_ok]
      constructor
      · rintro ⟨⟨⟩, s, hpass, hlater⟩
        exact (drains_of_pass hpass).2 (ih.1 hlater)
      · rintro ⟨hdone, k, hrun⟩
        cases k with
        | zero =>
          obtain rfl := passes_zero_eq_ok.1 hrun
          exact absurd (List.isEmpty_iff.2 hdone) hempty
        | succ k =>
          obtain ⟨s, hpass, hlater⟩ := passes_succ_eq_ok.1 hrun
          exact ⟨(), s, hpass, ih.2 ⟨hdone, k, hlater⟩⟩

/-- The queue is worked off exactly if some number of passes empties it. -/
theorem drain_eq_ok_iff : drain d r = .ok ((), r') ↔ Drains d r r' := drainFrom_eq_ok_iff

end OpenApiServer.Build
