import OpenApiServer.Proofs.Build.Operations
import OpenApiServer.Proofs.Build.Passes

/-!
# What holds throughout a build

A build registers the named schemas, binds the operations and works off the queue. What holds once
the schemas are registered, and is kept by each operation, by taking the queue and by declaring what
was queued, holds of the registry in the end.
-/

namespace OpenApiServer

namespace Build

variable {d : Document} {P : Registry → Prop} {r r' : Registry}

/-- What working off the queue keeps. A declaration is only ever made of a schema that has its name,
so that the invariant has to know the queue, and names have to stay with their schemas. -/
structure Steady (d : Document) (P : Registry → Prop) : Prop where
  queued : ∀ ⦃r⦄, P r → ∀ p ∈ r.pending, r.nodeOf? p.name = some p.node
  taken : ∀ ⦃r⦄, P r → P { r with pending := [] }
  declared : ∀ ⦃r r' p⦄, P r → r.nodeOf? p.name = some p.node →
    declareAndKeep d p r = .ok ((), r') →
      P r' ∧ ∀ ⦃name node⦄, r.nodeOf? name = some node → r'.nodeOf? name = some node

/-- What every step of a build keeps. -/
structure Invariant (d : Document) (P : Registry → Prop) : Prop extends Steady d P where
  registered : ∀ ⦃r⦄, registerSchemas d .empty = .ok ((), r) → P r
  operation : ∀ ⦃r r' state e o response state'⦄, e ∈ d.endpoints → P r →
    buildOperation d state e r = .ok ((o, response, state'), r') → P r'

/-- What every step of a build keeps where an invariant is known to hold. -/
structure Accompanies (d : Document) (P Q : Registry → Prop) : Prop where
  registered : ∀ ⦃r⦄, registerSchemas d .empty = .ok ((), r) → P r → Q r
  operation : ∀ ⦃r r' state e o response state'⦄, e ∈ d.endpoints → P r → Q r →
    buildOperation d state e r = .ok ((o, response, state'), r') → Q r'
  taken : ∀ ⦃r⦄, P r → Q r → Q { r with pending := [] }
  declared : ∀ ⦃r s p t⦄, P r → Q r → r.nodeOf? p.name = some p.node →
    declare d p r = .ok (t, s) → Q { s with types := s.types ++ [t] }

/-- The registries that occur in a build: when the named schemas are registered, after each operation,
when the queue is taken and after each declaration. -/
inductive Occurs (d : Document) : Registry → Prop where
  | registered {r : Registry} (run : registerSchemas d .empty = .ok ((), r)) : Occurs d r
  | operation {r r' : Registry} {state state' : OperationState} {e : Endpoint} {o : Operation}
    {response : ResponseDecl} (mem : e ∈ d.endpoints) (before : Occurs d r)
    (run : buildOperation d state e r = .ok ((o, response, state'), r')) : Occurs d r'
  | taken {r : Registry} (before : Occurs d r) : Occurs d { r with pending := [] }
  | declared {r r' : Registry} {p : Pending} (before : Occurs d r)
    (claimed : r.nodeOf? p.name = some p.node) (run : declareAndKeep d p r = .ok ((), r')) :
    Occurs d r'

namespace Steady

variable (inv : Steady d P)

include inv

theorem declareAll {pass : List Pending} (h : P r)
    (hnodes : ∀ p ∈ pass, r.nodeOf? p.name = some p.node)
    (hrun : pass.forM (declareAndKeep d) r = .ok ((), r')) : P r' := by
  induction pass generalizing r with
  | nil =>
    obtain ⟨-, rfl⟩ := pure_eq_ok.1 hrun
    exact h
  | cons p rest ih =>
    rw [List.forM] at hrun
    obtain ⟨⟨⟩, s, hfirst, hlater⟩ := bind_eq_ok.1 hrun
    obtain ⟨hp, hrest⟩ := List.forall_mem_cons.1 hnodes
    obtain ⟨hkept, hnode⟩ := inv.declared h hp hfirst
    exact ih hkept (fun q hq => hnode (hrest q hq)) hlater

theorem declarePass (h : P r) (hrun : declarePass d r = .ok ((), r')) : P r' := by
  obtain ⟨pass, s, htake, hrun⟩ := bind_eq_ok.1 hrun
  obtain ⟨rfl, rfl⟩ := Prod.mk.inj (modifyGet_eq_ok.1 htake)
  have hqueued := inv.queued h
  exact inv.declareAll (inv.taken h) hqueued hrun

theorem passes {n : Nat} (h : P r) (hrun : passes d n r = .ok ((), r')) : P r' := by
  induction n generalizing r with
  | zero =>
    obtain rfl := passes_zero_eq_ok.1 hrun
    exact h
  | succ n ih =>
    obtain ⟨s, hpass, hlater⟩ := passes_succ_eq_ok.1 hrun
    exact ih (inv.declarePass h hpass) hlater

theorem drain (h : P r) (hrun : drain d r = .ok ((), r')) : P r' := by
  obtain ⟨-, n, hpasses⟩ := drain_eq_ok_iff.1 hrun
  exact inv.passes h hpasses

/-- Names stay with their schemas. -/
theorem remembering (s : Registry) : Steady d fun r =>
    P r ∧ ∀ ⦃name node⦄, s.nodeOf? name = some node → r.nodeOf? name = some node where
  queued _ h := inv.queued h.1
  taken _ h := ⟨inv.taken h.1, h.2⟩
  declared _ _ _ h hnode hrun := by
    obtain ⟨hkept, hnodes⟩ := inv.declared h.1 hnode hrun
    exact ⟨⟨hkept, fun _ _ hknown => hnodes (h.2 hknown)⟩, hnodes⟩

end Steady

namespace Invariant

variable (inv : Invariant d P)

include inv

/-- An invariant and what accompanies it hold together. -/
theorem and {Q : Registry → Prop} (beside : Accompanies d P Q) : Invariant d fun r => P r ∧ Q r where
  registered _ hrun := by
    have h := inv.registered hrun
    exact ⟨h, beside.registered hrun h⟩
  operation _ _ _ _ _ _ _ he h hrun :=
    ⟨inv.operation he h.1 hrun, beside.operation he h.1 h.2 hrun⟩
  queued _ h := inv.queued h.1
  taken _ h := ⟨inv.taken h.1, beside.taken h.1 h.2⟩
  declared _ _ _ h hnode hrun := by
    obtain ⟨hkept, hnodes⟩ := inv.declared h.1 hnode hrun
    obtain ⟨t, s, hdeclare, hrun⟩ := bind_eq_ok.1 hrun
    obtain rfl := modify_eq_ok.1 hrun
    exact ⟨⟨hkept, beside.declared h.1 h.2 hnode hdeclare⟩, hnodes⟩

theorem operationsRun {state : OperationState} {es : List Endpoint}
    {built : List (Operation × ResponseDecl)} {tables : RouteTables}
    (hrun : OperationsRun d state es r built tables r') (hes : ∀ e ∈ es, e ∈ d.endpoints) (h : P r) :
    P r' := by
  induction hrun with
  | nil => exact h
  | cons first _ ih =>
    obtain ⟨he, hrest⟩ := List.forall_mem_cons.1 hes
    exact ih hrest (inv.operation he h first)

/-- An invariant holds of whatever registry occurs. -/
theorem occurs (h : Occurs d r) : P r := by
  induction h with
  | registered run => exact inv.registered run
  | operation mem _ run ih => exact inv.operation mem ih run
  | taken _ ih => exact inv.taken ih
  | declared _ claimed run ih => exact (inv.declared ih claimed run).1

variable {basePath : String} {m : ServerModel}

/-- An invariant holds of the registry when all operations are bound. -/
theorem bound (b : Built d basePath m) : P b.bound :=
  inv.operationsRun b.operationsRun (fun _ he => he) (inv.registered b.registerSchemas)

/-- An invariant holds of the registry in the end. -/
theorem drained (b : Built d basePath m) : P b.drained :=
  inv.toSteady.drain (inv.bound b) b.drain

/-- What is claimed when all operations are bound is claimed in the end. -/
theorem nodeOf?_drained (b : Built d basePath m) {name : TypeName} {node : Json}
    (h : b.bound.nodeOf? name = some node) : b.drained.nodeOf? name = some node :=
  ((inv.toSteady.remembering b.bound).drain ⟨inv.bound b, fun _ _ h => h⟩ b.drain).2 h

end Invariant

end Build

end OpenApiServer
