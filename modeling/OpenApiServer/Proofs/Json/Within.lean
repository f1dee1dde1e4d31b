import Mathlib.Data.Set.Card
import Mathlib.Data.Set.Finite.Lattice
import OpenApiServer.Proofs.Json.Keys

/-!
# The values within a value

What is within a value has every property that the value has and that passes on to everything in
it. A value has finitely many values within, and finitely many texts are written in them.
-/

namespace OpenApiServer.Json

/-- Whether a value occurs somewhere in another, or is the other itself. -/
def Within (root v : Json) : Prop := ∀ N, Hereditary N → N root → N v

theorem Within.refl (root : Json) : root.Within root := fun _ _ h => h

theorem hereditary_within (root : Json) : Hereditary root.Within where
  arr _ h j hj N hN hroot := hN.arr (h N hN hroot) j hj
  obj _ h f hf N hN hroot := hN.obj (h N hN hroot) f hf

/-- A finite set of values that everything within its values belongs to. -/
structure Enclosing (values : Set Json) : Prop where
  finite : values.Finite
  hereditary : Hereditary (· ∈ values)

theorem Enclosing.empty : Enclosing ∅ := ⟨Set.finite_empty, ⟨by simp, by simp⟩⟩

theorem Enclosing.union {a b : Set Json} (ha : Enclosing a) (hb : Enclosing b) :
    Enclosing (a ∪ b) where
  finite := ha.finite.union hb.finite
  hereditary := by
    refine ⟨fun items h j hj => ?_, fun fields h f hf => ?_⟩
    · exact h.imp (ha.hereditary.arr · j hj) (hb.hereditary.arr · j hj)
    · exact h.imp (ha.hereditary.obj · f hf) (hb.hereditary.obj · f hf)

theorem Enclosing.insert {values : Set Json} (h : Enclosing values) {j : Json}
    (hitems : ∀ items, j = .arr items → ∀ v ∈ items, v ∈ values)
    (hfields : ∀ fields, j = .obj fields → ∀ f ∈ fields, f.2 ∈ values) :
    Enclosing (insert j values) where
  finite := h.finite.insert j
  hereditary := by
    refine ⟨fun items hmem v hv => ?_, fun fields hmem f hf => ?_⟩
    · refine Set.mem_insert_of_mem j ?_
      rcases hmem with heq | hmem
      · exact hitems items heq.symm v hv
      · exact h.hereditary.arr hmem v hv
    · refine Set.mem_insert_of_mem j ?_
      rcases hmem with heq | hmem
      · exact hfields fields heq.symm f hf
      · exact h.hereditary.obj hmem f hf

theorem Enclosing.single {j : Json} (hitems : ∀ items, j ≠ .arr items)
    (hfields : ∀ fields, j ≠ .obj fields) : Enclosing {j} := by
  rw [← insert_empty_eq]
  refine Enclosing.empty.insert (fun items heq => absurd heq (hitems items)) ?_
  exact fun fields heq => absurd heq (hfields fields)

mutual

/-- Every value belongs to a set with everything within, which is no larger than the value. -/
theorem exists_enclosing :
    (j : Json) → ∃ values, Enclosing values ∧ j ∈ values ∧ values.ncard ≤ j.size
  | .arr items => by
    obtain ⟨values, h, hitems, hcard⟩ := exists_enclosing_items items
    refine ⟨insert (.arr items) values, h.insert ?_ (by simp), Set.mem_insert .., ?_⟩
    · rintro _ ⟨rfl⟩
      exact hitems
    · have := Set.ncard_insert_le (.arr items) values
      rw [size]
      omega
  | .obj fields => by
    obtain ⟨values, h, hfields, hcard⟩ := exists_enclosing_fields fields
    refine ⟨insert (.obj fields) values, h.insert (by simp) ?_, Set.mem_insert .., ?_⟩
    · rintro _ ⟨rfl⟩
      exact hfields
    · have := Set.ncard_insert_le (.obj fields) values
      rw [size]
      omega
  | .null => ⟨{.null}, .single (by simp) (by simp), rfl, by simp [size]⟩
  | .bool b => ⟨{.bool b}, .single (by simp) (by simp), rfl, by simp [size]⟩
  | .num n => ⟨{.num n}, .single (by simp) (by simp), rfl, by simp [size]⟩
  | .str s => ⟨{.str s}, .single (by simp) (by simp), rfl, by simp [size]⟩

theorem exists_enclosing_items : (items : List Json) →
    ∃ values, Enclosing values ∧ (∀ v ∈ items, v ∈ values) ∧ values.ncard ≤ sizeItems items
  | [] => ⟨∅, .empty, by simp, by simp⟩
  | j :: rest => by
    obtain ⟨values, h, hj, hcard⟩ := exists_enclosing j
    obtain ⟨others, h', hrest, hcard'⟩ := exists_enclosing_items rest
    refine ⟨values ∪ others, h.union h', List.forall_mem_cons.2
      ⟨.inl hj, fun v hv => .inr (hrest v hv)⟩, ?_⟩
    have := Set.ncard_union_le values others
    rw [sizeItems]
    omega

theorem exists_enclosing_fields : (fields : List (String × Json)) →
    ∃ values, Enclosing values ∧ (∀ f ∈ fields, f.2 ∈ values) ∧ values.ncard ≤ sizeFields fields
  | [] => ⟨∅, .empty, by simp, by simp⟩
  | (key, j) :: rest => by
    obtain ⟨values, h, hj, hcard⟩ := exists_enclosing j
    obtain ⟨others, h', hrest, hcard'⟩ := exists_enclosing_fields rest
    refine ⟨values ∪ others, h.union h', List.forall_mem_cons.2
      ⟨.inl hj, fun v hv => .inr (hrest v hv)⟩, ?_⟩
    have := Set.ncard_union_le values others
    rw [sizeFields, sizeField]
    omega

end

theorem finite_within (root : Json) : {v | root.Within v}.Finite := by
  obtain ⟨values, h, hroot, -⟩ := exists_enclosing root
  exact h.finite.subset fun v hv => hv (· ∈ values) h.hereditary hroot

/-- There are no more values within a value than its size tells. -/
theorem ncard_within_le (root : Json) : {v | root.Within v}.ncard ≤ root.size := by
  obtain ⟨values, h, hroot, hcard⟩ := exists_enclosing root
  refine Nat.le_trans (Set.ncard_le_ncard ?_ h.finite) hcard
  exact fun v hv => hv (· ∈ values) h.hereditary hroot

/-- The texts that are written in a value: keys of objects, and texts that are values. -/
def texts (root : Json) : Set String :=
  {text | root.Within (.str text)} ∪
    {key | ∃ fields, root.Within (.obj fields) ∧ key ∈ fields.map (·.1)}

theorem finite_texts (root : Json) : root.texts.Finite := by
  refine Set.Finite.union ?_ ?_
  · exact (finite_within root).preimage fun _ _ _ _ h => Json.str.inj h
  · have hfields : {fields | root.Within (.obj fields)}.Finite :=
      (finite_within root).preimage fun _ _ _ _ h => Json.obj.inj h
    refine (hfields.biUnion fun fields _ => List.finite_toSet (fields.map (·.1))).subset ?_
    rintro key ⟨fields, hwithin, hkey⟩
    exact Set.mem_biUnion hwithin hkey

/-! ## Sizes -/

theorem size_le_sizeItems {items : List Json} {j : Json} (h : j ∈ items) :
    j.size ≤ sizeItems items := by
  induction items with
  | nil => cases h
  | cons first rest ih =>
    rw [sizeItems]
    rcases List.mem_cons.1 h with rfl | hrest
    · omega
    · have := ih hrest
      omega

theorem size_le_sizeFields {fields : List (String × Json)} {f : String × Json} (h : f ∈ fields) :
    f.2.size ≤ sizeFields fields := by
  induction fields with
  | nil => cases h
  | cons first rest ih =>
    rw [sizeFields, sizeField]
    rcases List.mem_cons.1 h with rfl | hrest
    · omega
    · have := ih hrest
      omega

theorem size_get?_lt {j v : Json} {key : String} (h : j.get? key = some v) : v.size < j.size := by
  cases j with
  | obj fields =>
    have hle : v.size ≤ sizeFields fields := size_le_sizeFields (mem_of_fieldNamed? h)
    rw [size]
    omega
  | _ => cases h

theorem size_pos (j : Json) : 0 < j.size := by
  cases j <;> simp [size]

theorem length_le_sizeFields (fields : List (String × Json)) :
    fields.length ≤ sizeFields fields := by
  induction fields with
  | nil => exact Nat.le_refl 0
  | cons f rest ih =>
    have := size_pos f.2
    rw [List.length_cons, sizeFields, sizeField]
    omega

/-! ## What holds everywhere in a value -/

variable (p : Json → Bool)

mutual

/-- Whether a check succeeds for everything within a value. -/
def everywhere : Json → Bool
  | .arr items => p (.arr items) && everywhereItems items
  | .obj fields => p (.obj fields) && everywhereFields fields
  | .null => p .null
  | .bool b => p (.bool b)
  | .num n => p (.num n)
  | .str s => p (.str s)

def everywhereItems : List Json → Bool
  | [] => true
  | j :: rest => everywhere j && everywhereItems rest

def everywhereFields : List (String × Json) → Bool
  | [] => true
  | f :: rest => everywhereField f && everywhereFields rest

def everywhereField : String × Json → Bool
  | (_, j) => everywhere j

end

variable {p}

theorem everywhereItems_iff {items : List Json} :
    everywhereItems p items = true ↔ ∀ j ∈ items, everywhere p j = true := by
  induction items with
  | nil => simp [everywhereItems]
  | cons j rest ih => rw [everywhereItems, Bool.and_eq_true, ih, List.forall_mem_cons]

theorem everywhereFields_iff {fields : List (String × Json)} :
    everywhereFields p fields = true ↔ ∀ f ∈ fields, everywhere p f.2 = true := by
  induction fields with
  | nil => simp [everywhereFields]
  | cons f rest ih =>
    obtain ⟨key, j⟩ := f
    rw [everywhereFields, everywhereField, Bool.and_eq_true, ih, List.forall_mem_cons]

theorem hereditary_everywhere (p : Json → Bool) : Hereditary (everywhere p · = true) where
  arr items h := by
    rw [everywhere, Bool.and_eq_true] at h
    exact everywhereItems_iff.1 h.2
  obj fields h := by
    rw [everywhere, Bool.and_eq_true] at h
    exact everywhereFields_iff.1 h.2

theorem check_of_everywhere {j : Json} (h : everywhere p j = true) : p j = true := by
  cases j <;> simp_all [everywhere]

end OpenApiServer.Json
