import Mathlib.Data.List.Induction
import OpenApiServer.Proofs.Build.Actions

/-!
# Sessions of a registry

A session is any sequence of actions on a new registry. What its actions that succeeded have
claimed decides who owns a name and what has been queued so far. One action keeps this account, and
so does every session. A reserved name is refused to all but a registration for the very schema it
is reserved for.
-/

namespace OpenApiServer

/-- A registry with what its actions have done. -/
structure Session where
  registry : Registry
  /-- The passes that have been taken, one after the other. -/
  taken : List Pending
  /-- The actions that have succeeded. -/
  done : List Action

namespace Session

def start : Session := ⟨.empty, [], []⟩

def perform (s : Session) (a : Action) : Session :=
  match a.run s.registry with
  | .ok pass r => ⟨r, s.taken ++ pass, s.done ++ [a]⟩
  | .error _ r => { s with registry := r }

def after (actions : List Action) : Session := actions.foldl perform start

/-- What has been queued so far. -/
def queued (s : Session) : List Pending := s.taken ++ s.registry.pending

theorem perform_cases (s : Session) (a : Action) :
    (a.Refused s.registry ∧ s.perform a = s) ∨
      ∃ pass r, a.run s.registry = .ok pass r ∧
        s.perform a = ⟨r, s.taken ++ pass, s.done ++ [a]⟩ := by
  rw [perform]
  cases hrun : a.run s.registry with
  | ok pass r => exact .inr ⟨pass, r, rfl, rfl⟩
  | error e r =>
    obtain ⟨hrefused, rfl⟩ := Action.run_eq_error_iff.1 ⟨e, hrun⟩
    exact .inl ⟨hrefused, rfl⟩

/-- What an action adds to the claims and to the queue of a session. -/
theorem perform_adds (s : Session) (a : Action) :
    s.perform a = s ∨ (s.perform a).done = s.done ++ [a] ∧
      (s.perform a).queued = s.queued ++ a.queues s.registry.claimed ∧
      ∀ name, (s.perform a).registry.claim? name =
        (s.registry.claim? name).or (a.claimFor? name) := by
  rcases s.perform_cases a with ⟨-, hs⟩ | ⟨pass, r, hrun, hs⟩
  · exact .inl hs
  · obtain ⟨hqueue, hclaims⟩ := Action.run_eq_ok hrun
    refine .inr ?_
    rw [hs]
    refine ⟨rfl, ?_, hclaims⟩
    rw [queued, queued, List.append_assoc, hqueue, List.append_assoc]

theorem after_concat (actions : List Action) (a : Action) :
    after (actions ++ [a]) = (after actions).perform a := by
  simp [after]

/-- Names belong to their first claims, and what has been queued is the first claims that were
registrations. -/
structure Accounted (s : Session) : Prop where
  claims : ∀ name, s.registry.claim? name = s.done.findSome? (·.claimFor? name)
  queue : s.queued = Action.firstRegistered [] s.done

theorem Accounted.start : start.Accounted := ⟨fun _ => rfl, rfl⟩

theorem Accounted.mem_claimed_iff {s : Session} (h : s.Accounted) {name : TypeName} :
    name ∈ s.registry.claimed ↔ name ∈ s.done.flatMap Action.names := by
  rw [← not_iff_not, ← Registry.claim?_eq_none_iff, h.claims,
    Action.findSome?_claimFor?_eq_none]

theorem Accounted.perform {s : Session} (h : s.Accounted) (a : Action) :
    (s.perform a).Accounted := by
  rcases s.perform_adds a with hs | ⟨hdone, hqueue, hclaims⟩
  · rwa [hs]
  have hqueues : a.queues s.registry.claimed = a.queues (s.done.flatMap Action.names) := by
    cases a <;> simp only [Action.queues, h.mem_claimed_iff]
  refine ⟨fun name => ?_, ?_⟩
  · rw [hclaims, h.claims, hdone, List.findSome?_append, List.findSome?_singleton]
  · rw [hqueue, h.queue, hqueues, hdone, Action.firstRegistered_concat, List.nil_append]

theorem accounted_after (actions : List Action) : (after actions).Accounted := by
  induction actions using List.reverseRecOn with
  | nil => exact .start
  | append_singleton before a ih =>
    rw [after_concat]
    exact ih.perform a

/-- A name keeps its owner. -/
theorem claim?_after_append {actions : List Action} {name : TypeName} {claim : Claim}
    (h : (after actions).registry.claim? name = some claim) (later : List Action) :
    (after (actions ++ later)).registry.claim? name = some claim := by
  induction later using List.reverseRecOn with
  | nil => rwa [List.append_nil]
  | append_singleton before a ih =>
    rw [← List.append_assoc, after_concat]
    rcases perform_adds (after (actions ++ before)) a with hs | ⟨-, -, hclaims⟩
    · rwa [hs]
    · rw [hclaims, ih, Option.some_or]

/-- Whatever the actions, a name keeps the schema of the first action that claimed it, the passes
taken and the queue list what was first claimed by a registration, and an action fails only when it
is refused, which changes nothing. -/
theorem claims_kept_and_queued_once (actions later : List Action) :
    (∀ name, (after actions).registry.nodeOf? name =
      ((after actions).done.findSome? (·.claimFor? name)).map (·.node)) ∧
    (∀ name node, (after actions).registry.nodeOf? name = some node →
      (after (actions ++ later)).registry.nodeOf? name = some node) ∧
    (after actions).taken ++ (after actions).registry.pending =
      Action.firstRegistered [] (after actions).done ∧
    (((after actions).taken ++ (after actions).registry.pending).map (·.name)).Nodup ∧
    (∀ a : Action, (∃ e r, a.run (after actions).registry = .error e r) ↔
      a.Refused (after actions).registry) ∧
    ∀ a e r, Action.run a (after actions).registry = .error e r → r = (after actions).registry := by
  have haccounted := accounted_after actions
  have hqueue : (after actions).taken ++ (after actions).registry.pending =
      Action.firstRegistered [] (after actions).done := haccounted.queue
  refine ⟨fun name => ?_, fun name node hnode => ?_, hqueue, ?_, fun a => ?_, fun a e r hrun => ?_⟩
  · rw [Registry.nodeOf?, haccounted.claims]
  · obtain ⟨claim, hclaim, rfl⟩ := Option.map_eq_some_iff.1 hnode
    exact Option.map_eq_some_iff.2 ⟨claim, claim?_after_append hclaim later, rfl⟩
  · rw [hqueue]
    exact Action.nodup_firstRegistered [] _
  · constructor
    · rintro ⟨e, r, hrun⟩
      exact (Action.run_eq_error_iff.1 ⟨e, hrun⟩).1
    · intro hrefused
      obtain ⟨e, hrun⟩ := Action.run_eq_error_iff.2 ⟨hrefused, rfl⟩
      exact ⟨e, _, hrun⟩
  · exact (Action.run_eq_error_iff.1 ⟨e, hrun⟩).2

/-- Two schemas for a pet, and one of them for its owner. -/
def pets : List Action :=
  [.register ⟨"Pet"⟩ (.obj []) "Pet", .reserve ⟨"GetPetResponse"⟩ .null "GET /pet", .takePass,
    .register ⟨"Pet"⟩ (.obj []) "Owner.pet", .register ⟨"Owner"⟩ (.obj []) "Owner",
    .register ⟨"Pet"⟩ .null "Toy.pet"]

theorem pets_kept_and_queued_once :
    (after pets).registry.nodeOf? ⟨"Pet"⟩ = some (.obj []) ∧
      (after (pets ++ [.leaveMerge])).registry.nodeOf? ⟨"Pet"⟩ = some (.obj []) ∧
      ((after pets).taken ++ (after pets).registry.pending).map (·.name) =
        [⟨"Pet"⟩, ⟨"Owner"⟩] := by
  have hfirst : (after [.register ⟨"Pet"⟩ (.obj []) "Pet"]).registry.claim? ⟨"Pet"⟩ =
      some ⟨⟨"Pet"⟩, .obj [], "Pet"⟩ := rfl
  have hpet : (after pets).registry.nodeOf? ⟨"Pet"⟩ = some (.obj []) :=
    congrArg (Option.map Claim.node) (claim?_after_append hfirst pets.tail)
  exact ⟨hpet, (claims_kept_and_queued_once pets [.leaveMerge]).2.1 _ _ hpet, by decide +kernel⟩

/-! ## Reserved names -/

/-- A name that has been claimed is not queued any more. -/
theorem not_queued_perform {s : Session} {name : TypeName} (hclaimed : name ∈ s.registry.claimed)
    (h : name ∉ s.queued.map (·.name)) (a : Action) :
    name ∉ (s.perform a).queued.map (·.name) := by
  rcases s.perform_adds a with hs | ⟨-, hqueue, -⟩
  · rwa [hs]
  rw [hqueue, List.map_append, List.mem_append, not_or]
  refine ⟨h, ?_⟩
  rcases a.names_queues s.registry.claimed with hnil | ⟨name', hnew, -, hone⟩
  · simp [hnil]
  · rw [hone, List.mem_singleton]
    rintro rfl
    exact hnew hclaimed

theorem not_queued_after_append {actions : List Action} {name : TypeName} {claim : Claim}
    (hclaim : (after actions).registry.claim? name = some claim)
    (h : name ∉ (after actions).queued.map (·.name)) (later : List Action) :
    name ∉ (after (actions ++ later)).queued.map (·.name) := by
  induction later using List.reverseRecOn with
  | nil => rwa [List.append_nil]
  | append_singleton before a ih =>
    rw [← List.append_assoc, after_concat]
    have hclaimed := Registry.mem_claimed_of_claim? (claim?_after_append hclaim before)
    exact not_queued_perform hclaimed ih a

theorem reserved {s : Session} (hs : s.Accounted) {name : TypeName} {node : Json}
    {origin : String} {pass : List Pending} {r : Registry}
    (h : (Action.reserve name node origin).run s.registry = .ok pass r) :
    (s.perform (.reserve name node origin)).registry.claim? name = some ⟨name, node, origin⟩ ∧
      name ∉ (s.perform (.reserve name node origin)).queued.map (·.name) := by
  have hnew : s.registry.claim? name = none := by
    cases hclaim : s.registry.claim? name with
    | none => rfl
    | some claim =>
      rw [(Action.run_of_claim? hclaim node origin).1] at h
      cases h
  have hrun : s.perform (.reserve name node origin) =
      ⟨r, s.taken ++ pass, s.done ++ [.reserve name node origin]⟩ := by
    rw [perform, h]
  obtain ⟨hqueue, hclaims⟩ := Action.run_eq_ok h
  rw [hrun]
  refine ⟨by simp [hclaims, hnew, Action.claimFor?], ?_⟩
  have hqueued : s.taken ++ pass ++ r.pending = s.queued := by
    rw [List.append_assoc, hqueue]
    exact congrArg (s.taken ++ ·) (List.append_nil _)
  rw [queued, hqueued, hs.queue]
  intro hmem
  obtain ⟨p, hp, rfl⟩ := List.mem_map.1 hmem
  exact Registry.claim?_eq_none_iff.1 hnew
    (hs.mem_claimed_iff.2 (Action.mem_names_of_firstRegistered hp))

theorem reserved_name_claimed_again {before : List Action} {name : TypeName} {node : Json}
    {origin : String} (hreserve : ∃ pass r,
      (Action.reserve name node origin).run (after before).registry = .ok pass r)
    (later : List Action) (other : Json) (origin' : String) :
    let s := after (before ++ .reserve name node origin :: later)
    let collision := BuildError.nameCollision name.text origin origin'
    (Action.reserve name other origin').run s.registry = .error collision s.registry ∧
      (Action.register name other origin').run s.registry =
        (if node.same other then .ok [] s.registry else .error collision s.registry) ∧
      name ∉ (s.taken ++ s.registry.pending).map (·.name) := by
  obtain ⟨pass, r, hrun⟩ := hreserve
  obtain ⟨hclaim, hqueued⟩ := reserved (accounted_after before) hrun
  rw [← after_concat] at hclaim hqueued
  have hafter : before ++ Action.reserve name node origin :: later =
      (before ++ [.reserve name node origin]) ++ later := by simp
  rw [hafter]
  obtain ⟨hagain, hregister⟩ :=
    Action.run_of_claim? (claim?_after_append hclaim later) other origin'
  exact ⟨hagain, hregister, not_queued_after_append hclaim hqueued later⟩

/-- An operation with responses, which reserve a name for it. -/
def operation : Json :=
  .obj [("responses", .obj [("204", .obj [("description", .str "done")])])]

/-- A name reserved for an operation is refused to another schema. -/
theorem reserved_name_refused :
    (∃ pass r, (Action.reserve ⟨"GetPetsResponse"⟩ operation "GET /pets").run
        (after [.takePass]).registry = .ok pass r) ∧
      operation.same (.obj []) = false ∧
      ∃ e r, (Action.register ⟨"GetPetsResponse"⟩ (.obj []) "GetPetsResponse").run
        (after [.takePass, .reserve ⟨"GetPetsResponse"⟩ operation "GET /pets",
          .register ⟨"Pet"⟩ operation "Pet"]).registry = .error e r := by
  have hreserve : ∃ pass r, (Action.reserve ⟨"GetPetsResponse"⟩ operation "GET /pets").run
      (after [.takePass]).registry = .ok pass r := ⟨[], _, rfl⟩
  have hother : operation.same (.obj []) = false := by decide +kernel
  have hcollides := (reserved_name_claimed_again hreserve [.register ⟨"Pet"⟩ operation "Pet"]
    (.obj []) "GetPetsResponse").2.1
  rw [hother] at hcollides
  exact ⟨hreserve, hother, _, _, hcollides⟩

/-- A name reserved for an operation is given to a schema that is the operation. -/
theorem reserved_name_given :
    ¬ ∀ (before later : List Action) (name : TypeName) (node : Json) (origin : String),
      (∃ pass r, (Action.reserve name node origin).run (after before).registry = .ok pass r) →
      ∀ (other : Json) (origin' : String), ∃ e r, (Action.register name other origin').run
        (after (before ++ .reserve name node origin :: later)).registry = .error e r := by
  intro h
  obtain ⟨e, r, hrun⟩ := h [] [] ⟨"GetPetsResponse"⟩ operation "GET /pets" ⟨[], _, rfl⟩ operation
    "GetPetsResponse"
  have hclaim : (after [.reserve ⟨"GetPetsResponse"⟩ operation "GET /pets"]).registry.claim?
      ⟨"GetPetsResponse"⟩ = some ⟨⟨"GetPetsResponse"⟩, operation, "GET /pets"⟩ := rfl
  have hsame : operation.same operation = true := by decide +kernel
  have hok := (Action.run_of_claim? hclaim operation "GetPetsResponse").2
  rw [if_pos hsame] at hok
  cases hok.symm.trans hrun

end Session

end OpenApiServer
