import Mathlib.Logic.Function.Iterate
import Mathlib.Order.Bounds.Basic
import OpenApiServer.Build.EnumBuckets
import OpenApiServer.Json.Shape
import OpenApiServer.Proofs.Name.Stability

/-!
# The search for a free name

A base that is taken gets the least number from two on that makes it free. The search for this
number counts upwards and knows no bound but that of its counter. It goes over numbered forms that
are used, and there are fewer of them than used names; so it ends before its counter does, and
`unique` is what it ends with.
-/

namespace OpenApiServer.Name

/-- The largest number that the counter of a search can hold. -/
def lastNumber : Nat := Json.IntegerRange.i32.high.toNat

/-- A search for a free name: the number that it tries next, the name that it has ended with, or an
end without a name, as the counter can hold no further number. -/
inductive Search where
  | trying (n : Nat)
  | found (name : String)
  | exhausted
  deriving DecidableEq, Repr

namespace Search

section Runs

variable (base : String) (used : List String)

def start : Search := if base ∈ used then .trying 2 else .found base

def step : Search → Search
  | .trying n =>
    if numbered base n ∈ used then if n < lastNumber then .trying (n + 1) else .exhausted
    else .found (numbered base n)
  | ended => ended

/-- Whether the search ends with the name. -/
def Ends (name : String) : Prop := ∃ turns, (step base used)^[turns] (start base used) = .found name

end Runs

variable {base name : String} {used names bases : List String} {n : Nat}

/-- A search never ends with a used name. -/
theorem step_free {s : Search} (h : ∀ name, s = .found name → name ∉ used) :
    ∀ name, step base used s = .found name → name ∉ used := by
  intro name hname
  cases s with
  | trying n =>
    rw [step] at hname
    split_ifs at hname with hused
    obtain rfl := found.inj hname
    exact hused
  | found last => exact h name hname
  | exhausted => cases hname

theorem Ends.free (h : Ends base used name) : name ∉ used := by
  obtain ⟨turns, hturns⟩ := h
  suffices hfree : ∀ turns name, (step base used)^[turns] (start base used) = .found name →
      name ∉ used from hfree turns name hturns
  intro turns
  induction turns with
  | zero =>
    intro name hname
    rw [Function.iterate_zero_apply, start] at hname
    split_ifs at hname with hbase
    obtain rfl := found.inj hname
    exact hbase
  | succ turns ih =>
    rw [Function.iterate_succ_apply']
    exact step_free ih

/-- A search goes on over used names as long as its counter does. -/
theorem iterate_trying (hused : ∀ j, 2 ≤ j → j < 2 + n → numbered base j ∈ used)
    (hlast : 2 + n ≤ lastNumber) : (step base used)^[n] (.trying 2) = .trying (2 + n) := by
  induction n with
  | zero => rfl
  | succ n ih =>
    have hbefore := ih (fun j hj hlt => hused j hj (by omega)) (by omega)
    rw [Function.iterate_succ_apply', hbefore, step, if_pos (hused (2 + n) (by omega) (by omega)),
      if_pos (by omega)]
    rfl

/-- The search ends with the name that `unique` gives, after no more turns than there are used
names. -/
theorem ends_unique (base : String) (hcard : used.toFinset.card < lastNumber) :
    ∃ turns ≤ used.toFinset.card,
      (step base used)^[turns] (start base used) = .found (unique base used) := by
  rcases unique_spec base used with ⟨hbase, heq⟩ | ⟨hbase, k, hk, heq, hfree, hused⟩
  · refine ⟨0, Nat.zero_le _, ?_⟩
    rw [heq, Function.iterate_zero_apply, start, if_neg hbase]
  · obtain ⟨n, rfl⟩ := Nat.exists_eq_add_of_le hk
    have hnumbers : n + 1 ≤ used.toFinset.card :=
      card_of_numbered_used hbase fun j hj => hused (2 + j) (by omega) (by omega)
    refine ⟨n + 1, hnumbers, ?_⟩
    rw [Function.iterate_succ_apply', start, if_pos hbase, iterate_trying hused (by omega), step,
      if_neg hfree, heq]

/-! ## Names that are searched for one after another -/

/-- The names that searches end with one after another, where each name is used from then on. -/
inductive Supplied : List String → List String → List String → Prop where
  | nil {used : List String} : Supplied used [] []
  | cons {used bases names : List String} {base name : String} (first : Ends base used name)
    (rest : Supplied (name :: used) bases names) : Supplied used (base :: bases) (name :: names)

theorem Supplied.free (h : Supplied used bases names) : ∀ name ∈ names, name ∉ used := by
  induction h with
  | nil => exact nofun
  | cons first _ ih =>
    refine List.forall_mem_cons.2 ⟨first.free, fun name hname hused => ?_⟩
    exact ih name hname (List.mem_cons_of_mem _ hused)

theorem Supplied.nodup (h : Supplied used bases names) : names.Nodup := by
  induction h with
  | nil => exact List.nodup_nil
  | cons _ rest ih =>
    exact List.nodup_cons.2 ⟨fun hmem => rest.free _ hmem (List.mem_cons_self ..), ih⟩

end Search

open Search (Supplied)

/-- Unique names for bases one after another. -/
def uniqueEach (used : List String) : List String → List String
  | [] => []
  | base :: rest => unique base used :: uniqueEach (unique base used :: used) rest

theorem supplied_uniqueEach {used bases : List String}
    (h : used.toFinset.card + bases.length ≤ lastNumber) :
    Supplied used bases (uniqueEach used bases) := by
  induction bases generalizing used with
  | nil => exact .nil
  | cons base rest ih =>
    rw [List.length_cons] at h
    have hroom : used.toFinset.card < lastNumber := by omega
    obtain ⟨turns, -, hturns⟩ := Search.ends_unique base hroom
    have hcard : (unique base used :: used).toFinset.card ≤ used.toFinset.card + 1 := by
      rw [List.toFinset_cons]
      exact Finset.card_insert_le ..
    exact .cons ⟨turns, hturns⟩ (ih (by omega))

/-- The variants of an enumeration are named in this way. -/
theorem texts_variantsFrom_eq (used values : List String) :
    (EnumBuckets.variantsFrom used values).map (·.name.text) =
      uniqueEach used (values.map fun value => (TypeName.ofText value).text) := by
  induction values generalizing used with
  | nil => rfl
  | cons value rest ih => rw [EnumBuckets.variantsFrom, List.map_cons, ih, List.map_cons, uniqueEach]

/-- The search for a unique name ends, before its counter does, with a name that is not used: with
the base if it is free, and otherwise with the base and the least number from two on that makes it
free. Searches for one base after another, each with the names found before it among the used ones,
find distinct names, and so the variants of an enumeration have distinct names. -/
theorem search_ends_with_unique (base : String) (used : List String)
    (hcard : used.toFinset.card < lastNumber) :
    (∃ turns ≤ used.toFinset.card,
      (Search.step base used)^[turns] (Search.start base used) = .found (unique base used)) ∧
    unique base used ∉ used ∧
    (base ∉ used → unique base used = base) ∧
    (base ∈ used → ∃ n, IsLeast {n | 2 ≤ n ∧ numbered base n ∉ used} n ∧
      unique base used = numbered base n) ∧
    (∀ bases : List String, used.toFinset.card + bases.length ≤ lastNumber →
      Supplied used bases (uniqueEach used bases)) ∧
    (∀ bases names, Supplied used bases names → names.Nodup ∧ ∀ name ∈ names, name ∉ used) ∧
    ∀ values, (EnumBuckets.variantsFrom used values).map (·.name.text) =
      uniqueEach used (values.map fun value => (TypeName.ofText value).text) := by
  refine ⟨Search.ends_unique base hcard, unique_not_mem base used, fun hbase => if_neg hbase,
    fun hbase => ?_, fun bases => supplied_uniqueEach, fun bases names h => ⟨h.nodup, h.free⟩,
    texts_variantsFrom_eq used⟩
  rcases unique_spec base used with ⟨hfree, -⟩ | ⟨-, k, hk, heq, hfree, hused⟩
  · exact absurd hbase hfree
  · refine ⟨k, ⟨⟨hk, hfree⟩, fun j hj => ?_⟩, heq⟩
    by_contra hlt
    exact hj.2 (hused j hj.1 (Nat.not_le.1 hlt))

/-- A numbered form that is a base of its own is not given away again. -/
theorem items_supplied :
    (["Items"] : List String).toFinset.card < lastNumber ∧
      unique "Items" ["Items"] = numbered "Items" 2 ∧
      uniqueEach ["Items"] ["Items2", "Items"] = ["Items2", "Items3"] ∧
      (uniqueEach ["Items"] ["Items2", "Items"]).Nodup := by
  have hcard : (["Items"] : List String).toFinset.card < lastNumber := by decide
  have hroom : (["Items"] : List String).toFinset.card + 2 ≤ lastNumber := by decide
  obtain ⟨-, -, -, -, hends, hdistinct, -⟩ := search_ends_with_unique "Items" ["Items"] hcard
  have hsupplied : Supplied ["Items"] ["Items2", "Items"]
      (uniqueEach ["Items"] ["Items2", "Items"]) := hends _ hroom
  exact ⟨hcard, by decide +kernel, by decide +kernel, (hdistinct _ _ hsupplied).1⟩

end OpenApiServer.Name
