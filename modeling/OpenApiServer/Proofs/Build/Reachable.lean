import Mathlib.Logic.Relation
import OpenApiServer.Build.Boxing

/-!
# What a chain of edges leads to

The search for the names that a chain of edges leads to adds targets of edges in rounds. A round
that adds nothing has found a list that no edge leaves, and every other round adds the target of an
edge that had not been found, so as many rounds as there are edges are enough: `reachable` finds
what the reflexive and transitive closure of the edges leads to, and nothing else.
-/

namespace OpenApiServer.Boxing

variable {edges : Edges} {found : List TypeName} {start name : TypeName}

/-- Whether the first name holds the second inline. -/
def Edge (edges : Edges) (a b : TypeName) : Prop := (a, b) ∈ edges

/-- No edge leads from a found name to one that is not found. -/
def IsClosed (edges : Edges) (found : List TypeName) : Prop :=
  ∀ e ∈ edges, e.1 ∈ found → e.2 ∈ found

/-- How many edges lead to a name that is not found. -/
def openCount (edges : Edges) (found : List TypeName) : Nat := edges.countP fun e => e.2 ∉ found

theorem IsClosed.mem (closed : IsClosed edges found) (hstart : start ∈ found)
    (hchain : Relation.ReflTransGen (Edge edges) start name) : name ∈ found := by
  induction hchain with
  | refl => exact hstart
  | tail _ hedge ih => exact closed _ hedge ih

/-! ## One round -/

theorem grow_cons (e : TypeName × TypeName) (rest : Edges) (found : List TypeName) :
    grow (e :: rest) found =
      grow rest (if e.1 ∈ found ∧ e.2 ∉ found then found ++ [e.2] else found) := rfl

/-- A round keeps what is found and adds targets of edges that were not found. -/
theorem grow_eq_append (edges : Edges) (found : List TypeName) :
    ∃ added, grow edges found = found ++ added ∧
      ∀ n ∈ added, n ∉ found ∧ ∃ e ∈ edges, e.2 = n := by
  induction edges generalizing found with
  | nil => exact ⟨[], (List.append_nil _).symm, by simp⟩
  | cons e rest ih =>
    rw [grow_cons]
    by_cases hadds : e.1 ∈ found ∧ e.2 ∉ found
    · rw [if_pos hadds]
      obtain ⟨added, hgrow, hadded⟩ := ih (found ++ [e.2])
      refine ⟨e.2 :: added, by rw [hgrow, List.append_assoc, List.singleton_append], ?_⟩
      intro n hn
      rcases List.mem_cons.1 hn with rfl | hn
      · exact ⟨hadds.2, e, List.mem_cons_self .., rfl⟩
      · obtain ⟨hnew, e', he', rfl⟩ := hadded n hn
        exact ⟨fun hmem => hnew (List.mem_append_left _ hmem), e', List.mem_cons_of_mem _ he', rfl⟩
    · rw [if_neg hadds]
      obtain ⟨added, hgrow, hadded⟩ := ih found
      refine ⟨added, hgrow, fun n hn => ?_⟩
      obtain ⟨hnew, e', he', rfl⟩ := hadded n hn
      exact ⟨hnew, e', List.mem_cons_of_mem _ he', rfl⟩

theorem subset_grow (edges : Edges) (found : List TypeName) : found ⊆ grow edges found := by
  obtain ⟨added, hgrow, -⟩ := grow_eq_append edges found
  rw [hgrow]
  exact List.subset_append_left ..

theorem target_mem_grow {e : TypeName × TypeName} (he : e ∈ edges) (hmem : e.1 ∈ found) :
    e.2 ∈ grow edges found := by
  induction edges generalizing found with
  | nil => cases he
  | cons e' rest ih =>
    rw [grow_cons]
    have hkeep : found ⊆ if e'.1 ∈ found ∧ e'.2 ∉ found then found ++ [e'.2] else found := by
      split
      · exact List.subset_append_left ..
      · exact List.Subset.refl _
    rcases List.mem_cons.1 he with rfl | he
    · apply subset_grow
      by_cases htarget : e.2 ∈ found
      · exact hkeep htarget
      · rw [if_pos ⟨hmem, htarget⟩]
        simp
    · exact ih he (hkeep hmem)

/-- What a round finds is reached from what was found before it. -/
theorem reached_of_mem_grow (hmem : name ∈ grow edges found) :
    ∃ n ∈ found, Relation.ReflTransGen (Edge edges) n name := by
  suffices h : ∀ (rest : Edges) (found' : List TypeName), rest ⊆ edges →
      (∀ n ∈ found', ∃ n' ∈ found, Relation.ReflTransGen (Edge edges) n' n) →
      ∀ n ∈ grow rest found', ∃ n' ∈ found, Relation.ReflTransGen (Edge edges) n' n from
    h edges found (List.Subset.refl _) (fun n hn => ⟨n, hn, .refl⟩) name hmem
  intro rest
  induction rest with
  | nil => exact fun found' _ hreached => hreached
  | cons e rest ih =>
    intro found' hsub hreached
    obtain ⟨he, hrest⟩ := List.cons_subset.1 hsub
    rw [grow_cons]
    refine ih _ hrest fun n hn => ?_
    split at hn
    next hadds =>
      rcases List.mem_append.1 hn with hn | hn
      · exact hreached n hn
      · obtain rfl := List.mem_singleton.1 hn
        obtain ⟨n', hn', hchain⟩ := hreached e.1 hadds.1
        exact ⟨n', hn', hchain.tail he⟩
    next => exact hreached n hn

/-! ## All rounds -/

theorem isClosed_of_grow_length (h : (grow edges found).length = found.length) :
    IsClosed edges found := by
  obtain ⟨added, hgrow, -⟩ := grow_eq_append edges found
  have hnone : added = [] := by
    rw [hgrow, List.length_append] at h
    exact List.eq_nil_of_length_eq_zero (by omega)
  intro e he hmem
  have htarget := target_mem_grow he hmem
  rwa [hgrow, hnone, List.append_nil] at htarget

/-- A round that adds something leaves fewer edges to names that are not found. -/
theorem openCount_grow_lt (h : (grow edges found).length ≠ found.length) :
    openCount edges (grow edges found) < openCount edges found := by
  obtain ⟨added, hgrow, hadded⟩ := grow_eq_append edges found
  cases added with
  | nil => exact absurd (by rw [hgrow, List.append_nil]) h
  | cons n added =>
    obtain ⟨hnew, e, he, rfl⟩ := hadded n (List.mem_cons_self ..)
    have hsub := subset_grow edges found
    have hn : e.2 ∈ grow edges found := by
      rw [hgrow]
      simp
    unfold openCount
    rw [List.countP_eq_length_filter, List.countP_eq_length_filter]
    have hfilter : edges.filter (fun e => e.2 ∉ grow edges found) =
        (edges.filter fun e => e.2 ∉ found).filter fun e => e.2 ∉ grow edges found := by
      rw [List.filter_filter]
      refine List.filter_congr fun e' _ => ?_
      by_cases hmem : e'.2 ∈ found
      · simp [hmem, hsub hmem]
      · simp [hmem]
    rw [hfilter]
    refine List.length_filter_lt_length_iff_exists.2 ⟨e, ?_, by simpa using hn⟩
    exact List.mem_filter.2 ⟨he, by simpa using hnew⟩

theorem isClosed_of_openCount (h : openCount edges found = 0) : IsClosed edges found := by
  intro e he _
  have hall := List.countP_eq_zero.1 h e he
  simpa using hall

theorem isClosed_reachFrom {rounds : Nat} (h : openCount edges found ≤ rounds) :
    IsClosed edges (reachFrom edges rounds found) := by
  induction rounds generalizing found with
  | zero => exact isClosed_of_openCount (Nat.le_zero.1 h)
  | succ rounds ih =>
    rw [reachFrom]
    by_cases hlength : (grow edges found).length = found.length
    · simp only [hlength, if_true]
      exact isClosed_of_grow_length hlength
    · simp only [hlength, if_false]
      have hless := openCount_grow_lt hlength
      exact ih (by omega)

theorem subset_reachFrom (rounds : Nat) (found : List TypeName) :
    found ⊆ reachFrom edges rounds found := by
  induction rounds generalizing found with
  | zero => exact List.Subset.refl _
  | succ rounds ih =>
    rw [reachFrom]
    split
    · exact List.Subset.refl _
    · exact List.Subset.trans (subset_grow edges found) (ih _)

theorem reached_of_mem_reachFrom {rounds : Nat} (hmem : name ∈ reachFrom edges rounds found) :
    ∃ n ∈ found, Relation.ReflTransGen (Edge edges) n name := by
  induction rounds generalizing found with
  | zero => exact ⟨name, hmem, .refl⟩
  | succ rounds ih =>
    rw [reachFrom] at hmem
    split at hmem
    · exact ⟨name, hmem, .refl⟩
    · obtain ⟨n, hn, hchain⟩ := ih hmem
      obtain ⟨n', hn', hchain'⟩ := reached_of_mem_grow hn
      exact ⟨n', hn', hchain'.trans hchain⟩

theorem mem_reachable_iff :
    name ∈ reachable edges start ↔ Relation.ReflTransGen (Edge edges) start name := by
  constructor
  · intro hmem
    obtain ⟨n, hn, hchain⟩ := reached_of_mem_reachFrom hmem
    obtain rfl := List.mem_singleton.1 hn
    exact hchain
  · intro hchain
    have hcount : openCount edges [start] ≤ edges.length := List.countP_le_length
    have hstart : start ∈ reachable edges start :=
      subset_reachFrom _ _ (List.mem_singleton_self start)
    exact (isClosed_reachFrom hcount).mem hstart hchain

end OpenApiServer.Boxing
