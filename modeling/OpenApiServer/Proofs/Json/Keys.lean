import Mathlib.Data.List.Nodup
import Mathlib.Data.List.Perm.Subperm
import OpenApiServer.Json.Basic

/-!
# Distinct keys

No object of a value that has been read repeats a key: a reader puts a repeated key in the place
of the first one.
-/

namespace OpenApiServer

theorem mem_of_fieldNamed? {α : Type} {key : String} {value : α} {fields : List (String × α)}
    (h : fieldNamed? key fields = some value) : (key, value) ∈ fields := by
  induction fields with
  | nil => cases h
  | cons f rest ih =>
    obtain ⟨k, v⟩ := f
    rw [fieldNamed?] at h
    split at h
    next hk =>
      obtain rfl := Option.some.inj h
      simp [hk]
    next => exact List.mem_cons_of_mem _ (ih h)

theorem fieldNamed?_eq_none_iff {α : Type} {key : String} {fields : List (String × α)} :
    fieldNamed? key fields = none ↔ key ∉ fields.map (·.1) := by
  induction fields with
  | nil => simp [fieldNamed?]
  | cons f rest ih =>
    by_cases hkey : f.1 = key
    · simp [fieldNamed?, hkey]
    · simp [fieldNamed?, hkey, ih, Ne.symm hkey]

/-- The field that is found is the first one of its key. -/
theorem fieldNamed?_eq_some_iff {α : Type} {key : String} {value : α}
    {fields : List (String × α)} :
    fieldNamed? key fields = some value ↔
      ∃ before after, fields = before ++ (key, value) :: after ∧ key ∉ before.map (·.1) := by
  induction fields with
  | nil => simp [fieldNamed?]
  | cons f rest ih =>
    obtain ⟨k, v⟩ := f
    rw [fieldNamed?]
    by_cases hkey : k = key
    · rw [if_pos hkey]
      constructor
      · rintro ⟨rfl⟩
        exact ⟨[], rest, by rw [hkey, List.nil_append], by simp⟩
      · rintro ⟨before, after, heq, hbefore⟩
        cases before with
        | nil =>
          obtain ⟨heq, -⟩ := List.cons.inj heq
          rw [(Prod.mk.inj heq).2]
        | cons first before =>
          obtain ⟨rfl, -⟩ := List.cons.inj heq
          exact absurd (List.mem_cons.2 (.inl hkey.symm)) hbefore
    · rw [if_neg hkey, ih]
      constructor
      · rintro ⟨before, after, rfl, hbefore⟩
        exact ⟨(k, v) :: before, after, rfl, by simpa [Ne.symm hkey] using hbefore⟩
      · rintro ⟨before, after, heq, hbefore⟩
        cases before with
        | nil => exact absurd (Prod.mk.inj (List.cons.inj heq).1).1 hkey
        | cons first before =>
          obtain ⟨rfl, rfl⟩ := List.cons.inj heq
          exact ⟨before, after, rfl, fun hmem => hbefore (List.mem_cons_of_mem _ hmem)⟩

theorem fieldNamed?_of_mem {α : Type} {fields : List (String × α)}
    (hkeys : (fields.map (·.1)).Nodup) {f : String × α} (hf : f ∈ fields) :
    fieldNamed? f.1 fields = some f.2 := by
  cases hfound : fieldNamed? f.1 fields with
  | none => exact absurd (List.mem_map_of_mem hf) (fieldNamed?_eq_none_iff.1 hfound)
  | some v =>
    have hsame := List.inj_on_of_nodup_map hkeys (mem_of_fieldNamed? hfound) hf rfl
    rw [← hsame]

theorem keys_insertField {α : Type} (key : String) (value : α) (fields : List (String × α)) :
    (insertField key value fields).map (·.1) =
      if key ∈ fields.map (·.1) then fields.map (·.1) else fields.map (·.1) ++ [key] := by
  induction fields with
  | nil => rfl
  | cons f rest ih =>
    obtain ⟨k, v⟩ := f
    by_cases hk : k = key
    · simp [insertField, hk]
    · have hk' : key ≠ k := Ne.symm hk
      rw [insertField, if_neg hk, List.map_cons, ih]
      by_cases hmem : key ∈ rest.map (·.1)
      · simp [hmem]
      · simp [hmem, hk']

theorem nodup_keys_insertField {α : Type} (key : String) (value : α) {fields : List (String × α)}
    (h : (fields.map (·.1)).Nodup) : ((insertField key value fields).map (·.1)).Nodup := by
  rw [keys_insertField]
  split
  · exact h
  next hnew =>
    rw [← List.concat_eq_append]
    exact h.concat hnew

theorem mem_insertField {α : Type} {key : String} {value : α} {fields : List (String × α)}
    {f : String × α} (h : f ∈ insertField key value fields) : f = (key, value) ∨ f ∈ fields := by
  induction fields with
  | nil => exact .inl (by simpa [insertField] using h)
  | cons g rest ih =>
    obtain ⟨k, v⟩ := g
    rw [insertField] at h
    split at h
    next hk =>
      rcases List.mem_cons.1 h with rfl | h
      · exact .inl (by rw [hk])
      · exact .inr (List.mem_cons_of_mem _ h)
    next =>
      rcases List.mem_cons.1 h with rfl | h
      · exact .inr (List.mem_cons_self ..)
      · exact (ih h).imp id (List.mem_cons_of_mem _)

namespace Json

/-- No object in the value repeats a key. -/
inductive DistinctKeys : Json → Prop where
  | null : DistinctKeys .null
  | bool (b : Bool) : DistinctKeys (.bool b)
  | num (n : Number) : DistinctKeys (.num n)
  | str (s : String) : DistinctKeys (.str s)
  | arr {items : List Json} (each : ∀ j ∈ items, DistinctKeys j) : DistinctKeys (.arr items)
  | obj {fields : List (String × Json)} (keys : (fields.map (·.1)).Nodup)
    (each : ∀ f ∈ fields, DistinctKeys f.2) : DistinctKeys (.obj fields)

theorem DistinctKeys.get? {j v : Json} {key : String} (h : j.DistinctKeys)
    (hv : j.get? key = some v) : v.DistinctKeys := by
  cases h with
  | obj keys each => exact each _ (mem_of_fieldNamed? hv)
  | _ => cases hv

theorem distinctKeys_arr_iff {items : List Json} :
    (arr items).DistinctKeys ↔ ∀ j ∈ items, j.DistinctKeys :=
  ⟨fun h => by cases h; assumption, .arr⟩

theorem distinctKeys_obj_iff {fields : List (String × Json)} :
    (obj fields).DistinctKeys ↔ (fields.map (·.1)).Nodup ∧ ∀ f ∈ fields, f.2.DistinctKeys :=
  ⟨fun h => by cases h with | obj keys each => exact ⟨keys, each⟩, fun h => .obj h.1 h.2⟩

/-- Whether a property of values passes on to everything in them. -/
structure Hereditary (N : Json → Prop) : Prop where
  arr : ∀ ⦃items⦄, N (.arr items) → ∀ j ∈ items, N j
  obj : ∀ ⦃fields⦄, N (.obj fields) → ∀ f ∈ fields, N f.2

theorem hereditary_distinctKeys : Hereditary DistinctKeys where
  arr _ h := distinctKeys_arr_iff.1 h
  obj _ h := (distinctKeys_obj_iff.1 h).2

theorem Hereditary.get? {N : Json → Prop} (hN : Hereditary N) {j v : Json} {key : String}
    (hj : N j) (hv : j.get? key = some v) : N v := by
  cases j with
  | obj fields => exact hN.obj hj _ (mem_of_fieldNamed? hv)
  | _ => cases hv

end Json

end OpenApiServer

/-!
## Equal values

Two equal objects have the same keys, as long as the first one repeats none, and equal values under
each key. The order of the keys can differ.
-/

namespace OpenApiServer

namespace Json

variable {a b : Json}

theorem same_of_fieldsWithin {fields others : List (String × Json)}
    (h : fieldsWithin fields others = true) {key : String} {v : Json}
    (hv : fieldNamed? key fields = some v) :
    ∃ w, fieldNamed? key others = some w ∧ v.same w = true := by
  induction fields with
  | nil => cases hv
  | cons f rest ih =>
    obtain ⟨k, u⟩ := f
    rw [fieldsWithin, Bool.and_eq_true] at h
    rw [fieldNamed?] at hv
    split at hv
    next hk =>
      obtain rfl := Option.some.inj hv
      have hfirst := h.1
      rw [fieldWithin] at hfirst
      split at hfirst
      next w hw =>
        rw [hk] at hw
        exact ⟨w, hw, hfirst⟩
      next => cases hfirst
    next => exact ih h.2 hv

/-- Fields of distinct keys that are within as many others leave no key of the others out. -/
theorem keys_perm_of_fieldsWithin {fields others : List (String × Json)}
    (hkeys : (fields.map (·.1)).Nodup) (hlength : fields.length = others.length)
    (h : fieldsWithin fields others = true) :
    (fields.map (·.1)).Perm (others.map (·.1)) := by
  have hsub : fields.map (·.1) ⊆ others.map (·.1) := by
    intro key hkey
    by_contra hnew
    obtain ⟨v, hv⟩ : ∃ v, fieldNamed? key fields = some v := by
      rw [← Option.isSome_iff_exists, Option.isSome_iff_ne_none, Ne, fieldNamed?_eq_none_iff]
      exact not_not_intro hkey
    obtain ⟨w, hw, -⟩ := same_of_fieldsWithin h hv
    rw [fieldNamed?_eq_none_iff.2 hnew] at hw
    cases hw
  refine (List.subperm_of_subset hkeys hsub).perm_of_length_le ?_
  simp [hlength]

/-- Under each key equal values have equal fields, or both have none. -/
theorem get?_of_same (hkeys : a.DistinctKeys) (h : a.same b = true) (key : String) :
    Option.Rel (fun v w => v.same w = true) (a.get? key) (b.get? key) := by
  cases a with
  | obj fields =>
    cases b with
    | obj others =>
      rw [same, Bool.and_eq_true, beq_iff_eq] at h
      have hperm := keys_perm_of_fieldsWithin (distinctKeys_obj_iff.1 hkeys).1 h.1 h.2
      cases hv : fieldNamed? key fields with
      | some v =>
        obtain ⟨w, hw, hsame⟩ := same_of_fieldsWithin h.2 hv
        simp only [get?, hv, hw]
        exact .some hsame
      | none =>
        have hw : fieldNamed? key others = none := by
          rw [fieldNamed?_eq_none_iff] at hv ⊢
          rwa [← hperm.mem_iff]
        simp only [get?, hv, hw]
        exact .none
    | _ => simp [same] at h
  | _ => cases b <;> first | exact .none | simp [same] at h

theorem isSome_get?_of_same (hkeys : a.DistinctKeys) (h : a.same b = true) (key : String) :
    (a.get? key).isSome = (b.get? key).isSome := by
  have hrel := get?_of_same hkeys h key
  generalize a.get? key = v, b.get? key = w at hrel
  cases hrel <;> rfl

theorem asString?_of_same (h : a.same b = true) : a.asString? = b.asString? := by
  cases a <;> cases b <;> simp_all [same, asString?]

theorem string_of_same (hkeys : a.DistinctKeys) (h : a.same b = true) (key : String) :
    a.string key = b.string key := by
  have hrel := get?_of_same hkeys h key
  rw [string, string]
  generalize a.get? key = v, b.get? key = w at hrel
  cases hrel with
  | none => rfl
  | some hsame => exact asString?_of_same hsame

end Json

end OpenApiServer
