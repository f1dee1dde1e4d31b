import Mathlib.Logic.Function.Iterate
import Mathlib.Tactic.Choose
import OpenApiServer.Proofs.Document.Keys
import OpenApiServer.Proofs.Document.References

/-!
# Where chains of references lead

A chain goes from a node to the node that its reference resolves to. It ends at a node that is no
reference, or it breaks at a pointer that does not resolve, or it goes on without an end. A document
has finitely many pointers, so an endless chain meets one of them again; the first that it meets
again is the one that is reported.

`Follows` is the search through a chain with no bound on the number of hops. What is found with the
bound that the document gives is what is found without one.
-/

namespace OpenApiServer.Document

variable {d : Document} {node next last target : Json} {pointer : String}
  {visited pointers : List String}

/-- Following a chain, with the pointers that were met before, as far as a pointer is met again. -/
inductive Follows (d : Document) : List String → Json → Except BuildError Json → Prop where
  | ends {visited : List String} {node : Json} (plain : reference? node = none) :
    Follows d visited node (.ok node)
  | repeats {visited : List String} {node : Json} {pointer : String}
    (refers : reference? node = some pointer) (met : pointer ∈ visited) :
    Follows d visited node (.error (.recursiveSchema pointer))
  | breaks {visited : List String} {node : Json} {pointer : String}
    (refers : reference? node = some pointer) (new : pointer ∉ visited)
    (unresolved : ∀ next, d.resolve pointer ≠ .ok next) :
    Follows d visited node (.error (.unresolvedReference pointer))
  | hops {visited : List String} {node next : Json} {pointer : String}
    {outcome : Except BuildError Json} (refers : reference? node = some pointer)
    (new : pointer ∉ visited) (resolves : d.resolve pointer = .ok next)
    (more : Follows d (pointer :: visited) next outcome) : Follows d visited node outcome

/-! ## The bound on the hops -/

theorem resolve_cases (d : Document) (pointer : String) :
    (∃ next, d.resolve pointer = .ok next) ∨
      (∀ next, d.resolve pointer ≠ .ok next) ∧
        d.resolve pointer = .error (.unresolvedReference pointer) := by
  unfold resolve
  cases Pointer.resolve? d.root pointer with
  | some next => exact .inl ⟨next, rfl⟩
  | none => exact .inr ⟨nofun, rfl⟩

/-- One hop, and from the next node on as it is followed from there. -/
theorem follows_succ {steps : Nat}
    (h : ∀ pointer next, reference? node = some pointer → pointer ∉ visited →
      d.resolve pointer = .ok next →
        Follows d (pointer :: visited) next (d.dereferenceFrom steps (pointer :: visited) next)) :
    Follows d visited node (d.dereferenceFrom (steps + 1) visited node) := by
  cases hreference : reference? node with
  | none =>
    rw [dereferenceFrom_eq_self hreference]
    exact .ends hreference
  | some pointer =>
    rw [dereferenceFrom, hreference]
    by_cases hmet : pointer ∈ visited
    · simp only [if_pos hmet]
      exact .repeats hreference hmet
    · simp only [if_neg hmet]
      rcases resolve_cases d pointer with ⟨next, hresolve⟩ | ⟨hunresolved, herror⟩
      · rw [hresolve]
        exact .hops hreference hmet hresolve (h pointer next hreference hmet hresolve)
      · rw [herror]
        exact .breaks hreference hmet hunresolved

/-- Within a document the steps suffice if the pointers that were met within it and the steps that
are left are together as many as the document has values. -/
theorem follows_of_within {steps : Nat} {inside : List String} (hnode : d.root.Within node)
    (hsub : inside ⊆ visited) (hnodup : inside.Nodup)
    (hinside : ∀ pointer ∈ inside, ∃ met, d.root.Within met ∧ reference? met = some pointer)
    (hsteps : d.root.size ≤ inside.length + steps) :
    Follows d visited node (d.dereferenceFrom steps visited node) := by
  induction steps generalizing node visited inside with
  | zero =>
    cases hreference : reference? node with
    | none =>
      rw [dereferenceFrom_eq_self hreference]
      exact .ends hreference
    | some pointer =>
      by_cases hmet : pointer ∈ visited
      · rw [dereferenceFrom, hreference]
        simp only [if_pos hmet]
        exact .repeats hreference hmet
      · have hlength := length_pointers_le (hnodup.cons fun hmem => hmet (hsub hmem))
          (List.forall_mem_cons.2 ⟨⟨node, hnode, hreference⟩, hinside⟩)
        rw [List.length_cons] at hlength
        omega
  | succ steps ih =>
    refine follows_succ fun pointer next hreference hnew hresolve => ?_
    have hnext := (Json.hereditary_within d.root).resolve (.refl d.root) hresolve
    refine ih hnext (List.cons_subset_cons pointer hsub) (hnodup.cons fun hmem => hnew (hsub hmem))
      (List.forall_mem_cons.2 ⟨⟨node, hnode, hreference⟩, hinside⟩) ?_
    rw [List.length_cons]
    omega

/-- The bound is never reached. Only the first node can be from outside the document. -/
theorem follows_dereference (d : Document) (node : Json) :
    Follows d [] node (d.dereference node) :=
  follows_succ fun _ _ _ _ hresolve =>
    follows_of_within ((Json.hereditary_within d.root).resolve (.refl d.root) hresolve)
      (List.nil_subset _) .nil (by simp) (by simp)

/-! ## Chains -/

/-- From a node to another one by hops that all resolve, with the pointers that are met. -/
inductive Hops (d : Document) : Json → List String → Json → Prop where
  | here (node : Json) : Hops d node [] node
  | hop {node next last : Json} {pointer : String} {pointers : List String}
    (refers : reference? node = some pointer) (resolves : d.resolve pointer = .ok next)
    (more : Hops d next pointers last) : Hops d node (pointer :: pointers) last

/-- Whether a chain does not go on from a node. -/
def Stops (d : Document) (node : Json) : Prop :=
  ∀ pointer next, reference? node = some pointer → d.resolve pointer ≠ .ok next

/-- A chain without an end, with the pointers that are met. -/
structure Endless (d : Document) (nodes : Nat → Json) (texts : Nat → String) : Prop where
  refers : ∀ n, reference? (nodes n) = some (texts n)
  resolves : ∀ n, d.resolve (texts n) = .ok (nodes (n + 1))

/-- The first text of a sequence that occurs in it again. Up to where it occurs again no text is
repeated. -/
def FirstRepeated (texts : Nat → String) (text : String) : Prop :=
  ∃ first again, first < again ∧ texts first = text ∧ texts again = text ∧
    (∀ i j, i < j → j < again → texts i ≠ texts j) ∧ ∀ i < first, ∀ j, i < j → texts i ≠ texts j

theorem stops_of_plain (h : reference? node = none) : d.Stops node := by
  intro pointer next hreference
  rw [h] at hreference
  cases hreference

theorem stops_of_unresolved (h : reference? node = some pointer)
    (hunresolved : ∀ next, d.resolve pointer ≠ .ok next) : d.Stops node := by
  intro pointer' next hreference
  obtain rfl := Option.some.inj (h.symm.trans hreference)
  exact hunresolved next

namespace Hops

/-- A chain has no choice, so it stops at one node only. -/
theorem stop_unique {last' : Json} {pointers' : List String} (h : Hops d node pointers last)
    (hstops : d.Stops last) (h' : Hops d node pointers' last') (hstops' : d.Stops last') :
    last = last' := by
  induction h generalizing pointers' with
  | here =>
    cases h' with
    | here => rfl
    | hop refers resolves => exact absurd resolves (hstops _ _ refers)
  | hop refers resolves more ih =>
    cases h' with
    | here => exact absurd resolves (hstops' _ _ refers)
    | hop refers' resolves' more' =>
      obtain rfl := Option.some.inj (refers.symm.trans refers')
      obtain rfl := Except.ok.inj (resolves.symm.trans resolves')
      exact ih hstops more'

theorem concat (h : Hops d node pointers last) (refers : reference? last = some pointer)
    (resolves : d.resolve pointer = .ok next) : Hops d node (pointers ++ [pointer]) next := by
  induction h with
  | here => exact .hop refers resolves (.here next)
  | hop refers' resolves' _ ih => exact .hop refers' resolves' (ih refers)

end Hops

/-- What a search finds, and where in the chain it finds it. -/
theorem Follows.explained {outcome : Except BuildError Json} (h : Follows d visited node outcome) :
    ∃ pointers last, Hops d node pointers last ∧ pointers.Nodup ∧ (∀ p ∈ pointers, p ∉ visited) ∧
      (reference? last = none ∧ outcome = .ok last ∨
        ∃ pointer, reference? last = some pointer ∧
          ((∀ next, d.resolve pointer ≠ .ok next) ∧
              outcome = .error (.unresolvedReference pointer) ∨
            (pointer ∈ pointers ∨ pointer ∈ visited) ∧
              outcome = .error (.recursiveSchema pointer))) := by
  induction h with
  | @ends _ node plain => exact ⟨[], node, .here node, .nil, by simp, .inl ⟨plain, rfl⟩⟩
  | @repeats _ node pointer refers met =>
    exact ⟨[], node, .here node, .nil, by simp, .inr ⟨pointer, refers, .inr ⟨.inr met, rfl⟩⟩⟩
  | @breaks _ node pointer refers new unresolved =>
    exact ⟨[], node, .here node, .nil, by simp, .inr ⟨pointer, refers, .inl ⟨unresolved, rfl⟩⟩⟩
  | @hops visited _ _ pointer _ refers new resolves _ ih =>
    obtain ⟨pointers, last, hops, hnodup, hapart, hends⟩ := ih
    have hnew : pointer ∉ pointers := fun hmem =>
      hapart pointer hmem (List.mem_cons_self ..)
    refine ⟨pointer :: pointers, last, .hop refers resolves hops, hnodup.cons hnew,
      List.forall_mem_cons.2 ⟨new, fun p hp hmem => hapart p hp (List.mem_cons_of_mem _ hmem)⟩, ?_⟩
    refine hends.imp_right fun ⟨p, hp, hcause⟩ => ⟨p, hp, hcause.imp_right fun ⟨hmet, hout⟩ => ?_⟩
    refine ⟨?_, hout⟩
    rcases hmet with hmem | hmem
    · exact .inl (List.mem_cons_of_mem _ hmem)
    · rcases List.mem_cons.1 hmem with rfl | hearlier
      · exact .inl (List.mem_cons_self ..)
      · exact .inr hearlier

/-! ## Endless chains -/

namespace Endless

variable {nodes : Nat → Json} {texts : Nat → String}

theorem not_stops (h : Endless d nodes texts) (n : Nat) : ¬d.Stops (nodes n) :=
  fun hstops => hstops _ _ (h.refers n) (h.resolves n)

/-- Hops from a node of an endless chain lead along it. -/
theorem along (h : Endless d nodes texts) {n : Nat} (hops : Hops d (nodes n) pointers last) :
    last = nodes (n + pointers.length) ∧ pointers = (List.range' n pointers.length).map texts := by
  generalize hstart : nodes n = start at hops
  induction hops generalizing n with
  | here => exact ⟨hstart.symm, rfl⟩
  | @hop _ next _ pointer rest refers resolves _ ih =>
    subst hstart
    obtain rfl : texts n = pointer := Option.some.inj ((h.refers n).symm.trans refers)
    have hnext : nodes (n + 1) = next := Except.ok.inj ((h.resolves n).symm.trans resolves)
    obtain ⟨hlast, hrest⟩ := ih hnext
    rw [List.length_cons, List.range'_succ, List.map_cons, ← hrest]
    exact ⟨by rw [hlast, Nat.add_right_comm, Nat.add_assoc], rfl⟩

/-- After the same pointer comes the same pointer. -/
theorem texts_add (h : Endless d nodes texts) {m n : Nat} (heq : texts m = texts n) (k : Nat) :
    texts (m + k) = texts (n + k) := by
  induction k with
  | zero => exact heq
  | succ k ih =>
    have hnode : nodes (m + k + 1) = nodes (n + k + 1) := by
      have hresolve := h.resolves (m + k)
      rw [ih] at hresolve
      exact Except.ok.inj (hresolve.symm.trans (h.resolves (n + k)))
    have hrefers := h.refers (m + k + 1)
    rw [hnode] at hrefers
    exact Option.some.inj (hrefers.symm.trans (h.refers (n + k + 1)))

/-- The first pointer that a chain comes back to is the first that occurs again. By induction on the
later place, which goes back by one round until it is before the place where the round ends. -/
theorem not_again (h : Endless d nodes texts) {first again : Nat} (hlt : first < again)
    (heq : texts first = texts again) (hnew : ∀ i j, i < j → j < again → texts i ≠ texts j) {i : Nat}
    (hi : i < first) (j : Nat) (hij : i < j) : texts i ≠ texts j := by
  induction j using Nat.strongRecOn with
  | ind j ih =>
    rcases Nat.lt_or_ge j again with hj | hj
    · exact hnew i j hij hj
    · have hround := h.texts_add heq (j - again)
      rw [Nat.add_sub_cancel' hj] at hround
      rw [← hround]
      exact ih (first + (j - again)) (by omega) (by omega)

theorem firstRepeated (h : Endless d nodes texts) (hops : Hops d (nodes 0) pointers last)
    (hnodup : pointers.Nodup) (hreference : reference? last = some pointer)
    (hmem : pointer ∈ pointers) : FirstRepeated texts pointer := by
  obtain ⟨rfl, hpointers⟩ := h.along hops
  rw [Nat.zero_add] at hreference
  generalize pointers.length = again at hpointers hreference
  subst hpointers
  obtain ⟨first, hfirst, rfl⟩ := List.mem_map.1 hmem
  have hlt : first < again := by simpa using hfirst
  have hagain : texts again = texts first := Option.some.inj ((h.refers again).symm.trans hreference)
  have hnew : ∀ i j, i < j → j < again → texts i ≠ texts j := by
    intro i j hij hj heq
    have hi : i ∈ List.range' 0 again := by simp; omega
    have hj : j ∈ List.range' 0 again := by simp; omega
    exact hij.ne (List.inj_on_of_nodup_map hnodup hi hj heq)
  exact ⟨first, again, hlt, rfl, hagain, hnew, fun i hi j => h.not_again hlt hagain.symm hnew hi j⟩

end Endless

theorem FirstRepeated.unique {texts : Nat → String} {text text' : String}
    (h : FirstRepeated texts text) (h' : FirstRepeated texts text') : text = text' := by
  obtain ⟨first, again, hlt, rfl, hagain, hnew, -⟩ := h
  obtain ⟨first', again', hlt', rfl, hagain', hnew', -⟩ := h'
  rcases Nat.lt_trichotomy again again' with hless | rfl | hless
  · exact absurd hagain.symm (hnew' first again hlt hless)
  · exact hagain.symm.trans hagain'
  · exact absurd hagain'.symm (hnew first' again' hlt' hless)

/-- Whether the chain from a node comes back to a pointer. -/
def Returns (d : Document) (node : Json) : Prop :=
  ∃ pointers last pointer, Hops d node pointers last ∧ reference? last = some pointer ∧
    pointer ∈ pointers

/-- A chain that comes back does so from the next node too: where it has come back to the first
pointer, it goes on to the next node once more. -/
theorem Returns.step (h : d.Returns node) :
    ∃ pointer next, reference? node = some pointer ∧ d.resolve pointer = .ok next ∧
      d.Returns next := by
  obtain ⟨pointers, last, pointer, hops, hreference, hmem⟩ := h
  cases hops with
  | here => cases hmem
  | @hop _ next _ first rest refers resolves more =>
    refine ⟨first, next, refers, resolves, ?_⟩
    rcases List.mem_cons.1 hmem with rfl | hrest
    · have hround := more.concat hreference resolves
      cases more with
      | here => exact ⟨_, _, _, hround, hreference, List.mem_singleton_self _⟩
      | hop refers' => exact ⟨_, _, _, hround, refers', List.mem_cons_self ..⟩
    · exact ⟨rest, last, pointer, more, hreference, hrest⟩

theorem Returns.exists_endless (h : d.Returns node) :
    ∃ nodes texts, nodes 0 = node ∧ Endless d nodes texts := by
  have hstep (v : {v // d.Returns v}) : ∃ (pointer : String) (next : {v // d.Returns v}),
      reference? v.1 = some pointer ∧ d.resolve pointer = .ok next.1 := by
    obtain ⟨pointer, next, refers, resolves, hnext⟩ := v.2.step
    exact ⟨pointer, ⟨next, hnext⟩, refers, resolves⟩
  choose pointer next refers resolves using hstep
  refine ⟨fun n => (next^[n] ⟨node, h⟩).1, fun n => pointer (next^[n] ⟨node, h⟩), rfl,
    fun n => refers _, fun n => ?_⟩
  rw [Function.iterate_succ_apply']
  exact resolves _

theorem Returns.not_stops (h : d.Returns node) (hops : Hops d node pointers last) :
    ¬d.Stops last := by
  obtain ⟨nodes, texts, rfl, hendless⟩ := h.exists_endless
  obtain ⟨rfl, -⟩ := hendless.along hops
  exact hendless.not_stops _

/-! ## Outcomes -/

theorem dereference_cases (d : Document) (node : Json) :
    ∃ pointers last, Hops d node pointers last ∧
      (reference? last = none ∧ d.dereference node = .ok last ∨
        ∃ pointer, reference? last = some pointer ∧
          ((∀ next, d.resolve pointer ≠ .ok next) ∧
              d.dereference node = .error (.unresolvedReference pointer) ∨
            pointers.Nodup ∧ pointer ∈ pointers ∧
              d.dereference node = .error (.recursiveSchema pointer))) := by
  obtain ⟨pointers, last, hops, hnodup, -, hends⟩ := (follows_dereference d node).explained
  refine ⟨pointers, last, hops, hends.imp_right fun ⟨pointer, refers, hcause⟩ => ?_⟩
  exact ⟨pointer, refers, hcause.imp_right fun ⟨hmem, herror⟩ =>
    ⟨hnodup, hmem.resolve_right List.not_mem_nil, herror⟩⟩

/-- A chain that stops is followed to where it stops. -/
theorem dereference_of_stops (hops : Hops d node pointers last) (hstops : d.Stops last) :
    d.dereference node = match reference? last with
      | none => .ok last
      | some pointer => .error (.unresolvedReference pointer) := by
  obtain ⟨pointers', last', hops', ⟨hplain, hok⟩ | ⟨pointer, refers,
    ⟨hunresolved, herror⟩ | ⟨-, hmem, -⟩⟩⟩ := dereference_cases d node
  · rw [hops.stop_unique hstops hops' (stops_of_plain hplain), hplain]
    exact hok
  · rw [hops.stop_unique hstops hops' (stops_of_unresolved refers hunresolved), refers]
    exact herror
  · have hreturns : d.Returns node := ⟨pointers', last', pointer, hops', refers, hmem⟩
    exact absurd hstops (hreturns.not_stops hops)

/-- Along a chain without an end the first pointer that it repeats is reported. -/
theorem exists_dereference_of_endless {nodes : Nat → Json} {texts : Nat → String}
    (h : Endless d nodes texts) :
    ∃ pointer, FirstRepeated texts pointer ∧
      d.dereference (nodes 0) = .error (.recursiveSchema pointer) := by
  obtain ⟨pointers, last, hops, ⟨hplain, -⟩ | ⟨pointer, refers,
    ⟨hunresolved, -⟩ | ⟨hnodup, hmem, herror⟩⟩⟩ := dereference_cases d (nodes 0)
  · obtain ⟨rfl, -⟩ := h.along hops
    exact absurd (stops_of_plain hplain) (h.not_stops _)
  · obtain ⟨rfl, -⟩ := h.along hops
    exact absurd (stops_of_unresolved refers hunresolved) (h.not_stops _)
  · exact ⟨pointer, h.firstRepeated hops hnodup refers hmem, herror⟩

theorem dereference_eq_ok_iff :
    d.dereference node = .ok target ↔
      ∃ pointers, Hops d node pointers target ∧ reference? target = none := by
  constructor
  · intro h
    obtain ⟨pointers, last, hops, ⟨hplain, hok⟩ | ⟨pointer, -, ⟨-, herror⟩ | ⟨-, -, herror⟩⟩⟩ :=
      dereference_cases d node
    · obtain rfl := Except.ok.inj (h.symm.trans hok)
      exact ⟨pointers, hops, hplain⟩
    · cases h.symm.trans herror
    · cases h.symm.trans herror
  · rintro ⟨pointers, hops, hplain⟩
    rw [dereference_of_stops hops (stops_of_plain hplain), hplain]

theorem dereference_eq_unresolved_iff :
    d.dereference node = .error (.unresolvedReference pointer) ↔
      ∃ pointers last, Hops d node pointers last ∧ reference? last = some pointer ∧
        ∀ next, d.resolve pointer ≠ .ok next := by
  constructor
  · intro h
    obtain ⟨pointers, last, hops, ⟨-, hok⟩ | ⟨pointer', refers,
      ⟨hunresolved, herror⟩ | ⟨-, -, herror⟩⟩⟩ := dereference_cases d node
    · cases h.symm.trans hok
    · obtain rfl := BuildError.unresolvedReference.inj (Except.error.inj (h.symm.trans herror))
      exact ⟨pointers, last, hops, refers, hunresolved⟩
    · cases h.symm.trans herror
  · rintro ⟨pointers, last, hops, refers, hunresolved⟩
    rw [dereference_of_stops hops (stops_of_unresolved refers hunresolved), refers]

theorem exists_endless_of_recursive
    (h : d.dereference node = .error (.recursiveSchema pointer)) :
    ∃ nodes texts, nodes 0 = node ∧ Endless d nodes texts := by
  obtain ⟨pointers, last, hops, ⟨-, hok⟩ | ⟨pointer', refers,
    ⟨-, herror⟩ | ⟨-, hmem, -⟩⟩⟩ := dereference_cases d node
  · cases h.symm.trans hok
  · cases h.symm.trans herror
  · exact Returns.exists_endless ⟨pointers, last, pointer', hops, refers, hmem⟩

theorem dereference_eq_recursive_iff :
    d.dereference node = .error (.recursiveSchema pointer) ↔
      ∃ nodes texts, nodes 0 = node ∧ Endless d nodes texts ∧ FirstRepeated texts pointer := by
  constructor
  · intro h
    obtain ⟨nodes, texts, rfl, hendless⟩ := exists_endless_of_recursive h
    obtain ⟨pointer', hfirst, herror⟩ := exists_dereference_of_endless hendless
    obtain rfl := BuildError.recursiveSchema.inj (Except.error.inj (h.symm.trans herror))
    exact ⟨nodes, texts, rfl, hendless, hfirst⟩
  · rintro ⟨nodes, texts, rfl, hendless, hfirst⟩
    obtain ⟨pointer', hfirst', herror⟩ := exists_dereference_of_endless hendless
    rw [hfirst.unique hfirst']
    exact herror

/-- Following references comes to an end with no bound on the hops. It succeeds with the node at the
end of the chain exactly if the chain ends, at a node that is no reference; it fails for the pointer
at which the chain breaks exactly if it breaks; and it fails for a recursion exactly if the chain is
endless, with the first pointer that the chain repeats. A node at the end of a chain leads to itself. -/
theorem dereference_follows_chain (d : Document) (node : Json) :
    Follows d [] node (d.dereference node) ∧
    (∀ target, d.dereference node = .ok target ↔
      ∃ pointers, Hops d node pointers target ∧ reference? target = none) ∧
    (∀ pointer, d.dereference node = .error (.unresolvedReference pointer) ↔
      ∃ pointers last, Hops d node pointers last ∧ reference? last = some pointer ∧
        ∀ next, d.resolve pointer ≠ .ok next) ∧
    ((∃ pointer, d.dereference node = .error (.recursiveSchema pointer)) ↔
      ∃ nodes texts, nodes 0 = node ∧ Endless d nodes texts) ∧
    (∀ pointer, d.dereference node = .error (.recursiveSchema pointer) ↔
      ∃ nodes texts, nodes 0 = node ∧ Endless d nodes texts ∧ FirstRepeated texts pointer) ∧
    ∀ target, d.dereference node = .ok target → d.dereference target = .ok target := by
  refine ⟨follows_dereference d node, fun _ => dereference_eq_ok_iff,
    fun _ => dereference_eq_unresolved_iff, ⟨?_, ?_⟩, fun _ => dereference_eq_recursive_iff, ?_⟩
  · rintro ⟨pointer, h⟩
    exact exists_endless_of_recursive h
  · rintro ⟨nodes, texts, rfl, hendless⟩
    obtain ⟨pointer, -, herror⟩ := exists_dereference_of_endless hendless
    exact ⟨pointer, herror⟩
  · intro target h
    exact dereference_eq_self (reference?_of_dereferenceFrom h)

/-- A reference into a round of two pointers, and one to a node that is no reference. -/
theorem round_reported :
    let refer (pointer : String) := Json.obj [("$ref", .str pointer)]
    let d : Document := ⟨.obj [("a", refer "#/b"), ("b", refer "#/c"), ("c", refer "#/b"),
      ("e", refer "#/f"), ("f", .obj [])]⟩
    (∃ nodes texts, nodes 0 = refer "#/a" ∧ Endless d nodes texts ∧ FirstRepeated texts "#/b") ∧
      d.dereference (refer "#/e") = .ok (.obj []) ∧ d.dereference (.obj []) = .ok (.obj []) := by
  intro refer d
  have hround : d.dereference (refer "#/a") = .error (.recursiveSchema "#/b") := rfl
  have hends : d.dereference (refer "#/e") = .ok (.obj []) := rfl
  obtain ⟨-, -, -, -, hrecursive, -⟩ := dereference_follows_chain d (refer "#/a")
  obtain ⟨-, -, -, -, -, hagain⟩ := dereference_follows_chain d (refer "#/e")
  exact ⟨(hrecursive "#/b").1 hround, hends, hagain _ hends⟩

end OpenApiServer.Document
