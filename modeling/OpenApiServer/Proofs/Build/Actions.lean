import OpenApiServer.Proofs.Build.Registry

/-!
# What a build does to names, queue and merges

The actions write as they go, so one that fails leaves behind whatever it had written until then.
By `run_eq_error_iff` this is nothing, and `run_eq_ok` has what an action does when it succeeds: it
can add a claim where there was none, and only a registration that does so adds to the queue.
-/

namespace OpenApiServer

/-- Steps that write to a registry as they go: what is written before an error stays written. -/
abbrev Writing := EStateM BuildError Registry

namespace Writing

def register (name : TypeName) (node : Json) (origin : String) : Writing Unit := do
  match (← get).claim? name with
  | some claim =>
    unless claim.node.same node do
      throw (.nameCollision name.text claim.origin origin)
  | none =>
    modify fun r => { r with claims := r.claims ++ [⟨name, node, origin⟩] }
    modify fun r => { r with pending := r.pending ++ [⟨name, node⟩] }

def reserve (name : TypeName) (node : Json) (origin : String) : Writing Unit := do
  if let some claim := (← get).claim? name then
    throw (.nameCollision name.text claim.origin origin)
  modify fun r => { r with claims := r.claims ++ [⟨name, node, origin⟩] }

def takePass : Writing (List Pending) := do
  let pass := (← get).pending
  modify fun r => { r with pending := [] }
  return pass

def enterMerge (name : TypeName) : Writing Unit := do
  if name ∈ (← get).merging then
    throw (.recursiveSchema (Registry.chainText ((← get).merging ++ [name])))
  modify fun r => { r with merging := r.merging ++ [name] }

def leaveMerge : Writing Unit := modify fun r => { r with merging := r.merging.dropLast }

/-- A step that writes all it has to or nothing. -/
def wholly (f : Registry → Except BuildError Registry) : Writing Unit := fun r =>
  match f r with
  | .ok r' => .ok () r'
  | .error e => .error e r

theorem get_bind {α : Type} (f : Registry → Writing α) (r : Registry) :
    (get >>= f : Writing α) r = f r r := rfl

theorem register_eq (name : TypeName) (node : Json) (origin : String) :
    register name node origin = wholly (·.register name node origin) := by
  funext r
  rw [register, get_bind, wholly, Registry.register]
  cases r.claim? name with
  | none => rfl
  | some claim =>
    dsimp only
    split_ifs
    · rfl
    · rfl

theorem reserve_eq (name : TypeName) (node : Json) (origin : String) :
    reserve name node origin = wholly (·.reserve name node origin) := by
  funext r
  rw [reserve, get_bind, wholly, Registry.reserve]
  cases r.claim? name with
  | none => rfl
  | some claim => rfl

theorem enterMerge_eq (name : TypeName) : enterMerge name = wholly (·.enterMerge name) := by
  funext r
  rw [enterMerge, get_bind, wholly, Registry.enterMerge]
  split_ifs
  · rfl
  · rfl

theorem takePass_eq (r : Registry) : takePass r = .ok r.takePass.1 r.takePass.2 := rfl

theorem leaveMerge_eq : leaveMerge = wholly fun r => .ok r.leaveMerge := rfl

end Writing

/-- What a build does to the names, the queue and the merges of its registry. -/
inductive Action where
  | register (name : TypeName) (node : Json) (origin : String)
  | reserve (name : TypeName) (node : Json) (origin : String)
  | takePass
  | enterMerge (name : TypeName)
  | leaveMerge

namespace Action

/-- Runs an action; the result is the pass it takes. -/
def run : Action → Writing (List Pending)
  | .register name node origin => do Writing.register name node origin; return []
  | .reserve name node origin => do Writing.reserve name node origin; return []
  | .takePass => Writing.takePass
  | .enterMerge name => do Writing.enterMerge name; return []
  | .leaveMerge => do Writing.leaveMerge; return []

/-- The names an action claims. -/
def names : Action → List TypeName
  | .register name _ _ | .reserve name _ _ => [name]
  | _ => []

/-- The claim an action makes to a name. -/
def claimFor? (name : TypeName) : Action → Option Claim
  | .register name' node origin | .reserve name' node origin =>
    if name' = name then some ⟨name', node, origin⟩ else none
  | _ => none

/-- What an action queues if some names are claimed already. -/
def queues (known : List TypeName) : Action → List Pending
  | .register name node _ => if name ∈ known then [] else [⟨name, node⟩]
  | _ => []

/-- Whether a registry has no room for an action. -/
def Refused (r : Registry) : Action → Prop
  | .register name node _ => ∃ owner, r.nodeOf? name = some owner ∧ owner.same node = false
  | .reserve name _ _ => ∃ owner, r.nodeOf? name = some owner
  | .enterMerge name => name ∈ r.merging
  | .takePass | .leaveMerge => False

/-- What the registrations among some actions queue that are the first to claim their name. -/
def firstRegistered (known : List TypeName) : List Action → List Pending
  | [] => []
  | a :: later => a.queues known ++ firstRegistered (known ++ a.names) later

theorem firstRegistered_concat (known : List TypeName) (actions : List Action) (a : Action) :
    firstRegistered known (actions ++ [a]) =
      firstRegistered known actions ++ a.queues (known ++ actions.flatMap names) := by
  induction actions generalizing known with
  | nil => simp [firstRegistered]
  | cons b later ih => simp [firstRegistered, ih]

theorem names_queues (known : List TypeName) (a : Action) :
    (a.queues known).map (·.name) = [] ∨
      ∃ name ∉ known, a.names = [name] ∧ (a.queues known).map (·.name) = [name] := by
  cases a with
  | register name node origin =>
    by_cases hknown : name ∈ known
    · exact .inl (by simp [queues, hknown])
    · exact .inr ⟨name, hknown, rfl, by simp [queues, hknown]⟩
  | _ => exact .inl rfl

theorem not_mem_of_firstRegistered {known : List TypeName} {actions : List Action}
    {p : Pending} (hp : p ∈ firstRegistered known actions) : p.name ∉ known := by
  induction actions generalizing known with
  | nil => cases hp
  | cons a later ih =>
    rcases List.mem_append.1 hp with hp | hp
    · have hname : p.name ∈ (a.queues known).map (·.name) := List.mem_map_of_mem hp
      rcases a.names_queues known with hnil | ⟨name, hnew, -, hone⟩
      · simp [hnil] at hname
      · rw [hone, List.mem_singleton] at hname
        exact hname ▸ hnew
    · exact fun hknown => ih hp (List.mem_append_left _ hknown)

theorem nodup_firstRegistered (known : List TypeName) (actions : List Action) :
    ((firstRegistered known actions).map (·.name)).Nodup := by
  induction actions generalizing known with
  | nil => exact List.nodup_nil
  | cons a later ih =>
    rw [firstRegistered, List.map_append]
    rcases a.names_queues known with hnil | ⟨name, hnew, hnames, hone⟩
    · rw [hnil]
      exact ih _
    · rw [hone, List.singleton_append, List.nodup_cons]
      refine ⟨fun hmem => ?_, ih _⟩
      obtain ⟨p, hp, rfl⟩ := List.mem_map.1 hmem
      exact not_mem_of_firstRegistered hp (by simp [hnames])

theorem mem_names_of_firstRegistered {known : List TypeName} {actions : List Action}
    {p : Pending} (hp : p ∈ firstRegistered known actions) :
    p.name ∈ actions.flatMap names := by
  induction actions generalizing known with
  | nil => cases hp
  | cons a later ih =>
    rw [List.flatMap_cons, List.mem_append]
    rcases List.mem_append.1 hp with hp | hp
    · have hname : p.name ∈ (a.queues known).map (·.name) := List.mem_map_of_mem hp
      rcases a.names_queues known with hnil | ⟨name, -, hnames, hone⟩
      · simp [hnil] at hname
      · rw [hone] at hname
        exact .inl (hnames ▸ hname)
    · exact .inr (ih hp)

theorem findSome?_claimFor?_eq_none {name : TypeName} {actions : List Action} :
    actions.findSome? (·.claimFor? name) = none ↔ name ∉ actions.flatMap names := by
  rw [List.findSome?_eq_none_iff, List.mem_flatMap, not_exists]
  refine forall_congr' fun a => ?_
  cases a <;> simp [claimFor?, names, eq_comm]

end Action

/-! ## One action -/

namespace Writing

variable {f : Registry → Except BuildError Registry} {r r' : Registry} {pass : List Pending}

theorem wholly_bind_eq_ok :
    (wholly f >>= fun _ => pure []) r = .ok pass r' ↔ f r = .ok r' ∧ pass = [] := by
  simp only [bind, EStateM.bind, wholly]
  cases f r with
  | ok s => simp [pure, EStateM.pure, and_comm, eq_comm]
  | error e => simp

theorem wholly_bind_eq_error {e : BuildError} :
    (wholly f >>= fun _ => pure ([] : List Pending)) r = .error e r' ↔
      f r = .error e ∧ r' = r := by
  simp only [bind, EStateM.bind, wholly]
  cases f r with
  | ok s => simp [pure, EStateM.pure]
  | error e' => simp [eq_comm]

end Writing

namespace Registry

/-- A later claim counts where there is no earlier one. -/
theorem claim?_claims_concat (r : Registry) (c : Claim) (pending : List Pending)
    (name : TypeName) :
    claim? { r with claims := r.claims ++ [c], pending := pending } name =
      (r.claim? name).or (if c.name = name then some c else none) := by
  rw [claim?, List.find?_append, List.find?_singleton]
  simp only [beq_iff_eq, claim?]

end Registry

namespace Action

variable {r r' : Registry} {pass : List Pending}

/-- What an action that succeeds does to the queue and to the owners of names. -/
theorem run_eq_ok {a : Action} (h : a.run r = .ok pass r') :
    pass ++ r'.pending = r.pending ++ a.queues r.claimed ∧
      ∀ name, r'.claim? name = (r.claim? name).or (a.claimFor? name) := by
  cases a with
  | register name node origin =>
    rw [run, Writing.register_eq, Writing.wholly_bind_eq_ok] at h
    obtain ⟨hregister, rfl⟩ := h
    rcases Registry.register_cases hregister with ⟨hmem, rfl⟩ | ⟨hnew, rfl⟩
    · refine ⟨by simp [queues, hmem], fun other => ?_⟩
      by_cases hname : name = other
      · subst hname
        cases hclaim : r'.claim? name with
        | none => exact absurd hmem (Registry.claim?_eq_none_iff.1 hclaim)
        | some claim => rfl
      · simp [claimFor?, hname]
    · exact ⟨by simp [queues, hnew, Registry.claim], Registry.claim?_claims_concat r _ _⟩
  | reserve name node origin =>
    rw [run, Writing.reserve_eq, Writing.wholly_bind_eq_ok] at h
    obtain ⟨hreserve, rfl⟩ := h
    obtain ⟨-, rfl⟩ := Registry.reserve_eq_ok hreserve
    exact ⟨by simp [queues], Registry.claim?_claims_concat r _ _⟩
  | takePass =>
    rw [run, Writing.takePass_eq] at h
    cases h
    exact ⟨by simp [queues, Registry.takePass], fun _ => Option.or_none.symm⟩
  | enterMerge name =>
    rw [run, Writing.enterMerge_eq, Writing.wholly_bind_eq_ok] at h
    obtain ⟨henter, rfl⟩ := h
    rw [Registry.enterMerge] at henter
    split_ifs at henter
    obtain rfl := Except.ok.inj henter
    exact ⟨by simp [queues], fun _ => Option.or_none.symm⟩
  | leaveMerge =>
    rw [run, Writing.leaveMerge_eq, Writing.wholly_bind_eq_ok] at h
    obtain ⟨hleave, rfl⟩ := h
    obtain rfl := Except.ok.inj hleave
    exact ⟨by simp [queues, Registry.leaveMerge], fun _ => Option.or_none.symm⟩

/-- An action fails exactly when it is refused, and then it has written nothing. -/
theorem run_eq_error_iff {a : Action} :
    (∃ e, a.run r = .error e r') ↔ a.Refused r ∧ r' = r := by
  cases a with
  | register name node origin =>
    simp only [run, Writing.register_eq, Writing.wholly_bind_eq_error, Registry.register, Refused,
      Registry.nodeOf?]
    cases r.claim? name with
    | none => simp
    | some claim => cases hsame : claim.node.same node <;> simp [hsame]
  | reserve name node origin =>
    simp only [run, Writing.reserve_eq, Writing.wholly_bind_eq_error, Registry.reserve, Refused,
      Registry.nodeOf?]
    cases r.claim? name <;> simp
  | takePass => simp [run, Writing.takePass_eq, Refused]
  | enterMerge name =>
    simp only [run, Writing.enterMerge_eq, Writing.wholly_bind_eq_error, Registry.enterMerge,
      Refused]
    by_cases hmem : name ∈ r.merging <;> simp [hmem]
  | leaveMerge =>
    simp only [run, Writing.leaveMerge_eq, Writing.wholly_bind_eq_error, Refused]
    simp

/-- What a claim to an owned name comes to. -/
theorem run_of_claim? {claim : Claim} {name : TypeName} (h : r.claim? name = some claim)
    (node : Json) (origin : String) :
    (reserve name node origin).run r = .error (.nameCollision name.text claim.origin origin) r ∧
      (register name node origin).run r =
        if claim.node.same node then .ok [] r
        else .error (.nameCollision name.text claim.origin origin) r := by
  constructor
  · rw [run, Writing.reserve_eq, Writing.wholly_bind_eq_error, Registry.reserve, h]
    exact ⟨rfl, rfl⟩
  · rw [run, Writing.register_eq]
    split_ifs with hsame
    · rw [Writing.wholly_bind_eq_ok, Registry.register, h]
      exact ⟨if_pos hsame, rfl⟩
    · rw [Writing.wholly_bind_eq_error, Registry.register, h]
      exact ⟨if_neg hsame, rfl⟩

end Action

end OpenApiServer
