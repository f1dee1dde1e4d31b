import OpenApiServer.Proofs.Data.List
import OpenApiServer.Proofs.Json.Keys
import OpenApiServer.Proofs.Json.Within

/-!
# Values that agree

Two values agree if they are one value or equal up to the order of fields. Equality of values is
symmetric and transitive on values that repeat no key; it is not reflexive, for a number that is
none equals nothing. What agrees has the same texts in it and agrees under each key.
-/

namespace OpenApiServer

theorem Double.sameValue_comm (x y : Double) : x.sameValue y = y.sameValue x := by
  unfold sameValue
  rw [Bool.and_comm (!x.isNaN), Bool.and_comm x.isZero, Bool.beq_comm]

theorem Double.sameValue_trans {x y z : Double} (h : x.sameValue y = true)
    (h' : y.sameValue z = true) : x.sameValue z = true := by
  simp only [sameValue, Bool.and_eq_true, Bool.or_eq_true, beq_iff_eq] at h h' ⊢
  obtain ⟨⟨hx, hy⟩, rfl | ⟨hx0, hy0⟩⟩ := h
  · exact h'
  · obtain ⟨⟨-, hz⟩, rfl | ⟨-, hz0⟩⟩ := h'
    · exact ⟨⟨hx, hz⟩, .inr ⟨hx0, hy0⟩⟩
    · exact ⟨⟨hx, hz⟩, .inr ⟨hx0, hz0⟩⟩

namespace Number

variable {a b c : Number}

theorem same_symm (h : a.same b = true) : b.same a = true := by
  cases a <;> cases b <;> simp only [same] at h ⊢
  · rwa [Bool.beq_comm]
  · cases h
  · cases h
  · rwa [Double.sameValue_comm]

theorem same_trans (h : a.same b = true) (h' : b.same c = true) : a.same c = true := by
  cases a <;> cases b <;> cases c <;> simp only [same] at h h' ⊢
  case int.int.int => rwa [eq_of_beq h]
  case real.real.real => exact Double.sameValue_trans h h'
  all_goals first | cases h | cases h'

end Number

namespace Json

variable {a b c : Json}

theorem sameItems_iff {items others : List Json} :
    sameItems items others = true ↔ List.Forall₂ (fun x y => x.same y = true) items others := by
  induction items generalizing others with
  | nil => cases others <;> simp [sameItems]
  | cons x rest ih =>
    cases others with
    | nil => simp [sameItems]
    | cons y others => rw [sameItems, Bool.and_eq_true, ih, List.forall₂_cons]

theorem fieldsWithin_iff {fields others : List (String × Json)} :
    fieldsWithin fields others = true ↔
      ∀ f ∈ fields, ∃ w, fieldNamed? f.1 others = some w ∧ f.2.same w = true := by
  induction fields with
  | nil => simp [fieldsWithin]
  | cons f rest ih =>
    obtain ⟨key, v⟩ := f
    rw [fieldsWithin, Bool.and_eq_true, ih, List.forall_mem_cons, fieldWithin]
    cases fieldNamed? key others <;> simp

/-- An object equals another one if it has as many fields and each field has an equal one. -/
theorem same_obj_iff {fields others : List (String × Json)} :
    (obj fields).same (obj others) = true ↔ fields.length = others.length ∧
      ∀ f ∈ fields, ∃ w, fieldNamed? f.1 others = some w ∧ f.2.same w = true := by
  rw [same, Bool.and_eq_true, beq_iff_eq, fieldsWithin_iff]

/-- Induction over a value, through everything in it. -/
theorem induction {p : Json → Prop} (null : p .null) (bool : ∀ b, p (.bool b))
    (num : ∀ n, p (.num n)) (str : ∀ s, p (.str s))
    (arr : ∀ items, (∀ j ∈ items, p j) → p (.arr items))
    (obj : ∀ fields, (∀ f ∈ fields, p f.2) → p (.obj fields)) : ∀ j, p j
  | .null => null
  | .bool b => bool b
  | .num n => num n
  | .str s => str s
  | .arr items => arr items fun j hj =>
    have := size_le_sizeItems hj
    induction null bool num str arr obj j
  | .obj fields => obj fields fun f hf =>
    have := size_le_sizeFields hf
    induction null bool num str arr obj f.2
  termination_by j => j.size
  decreasing_by all_goals (simp only [size]; omega)

theorem same_symm (ha : a.DistinctKeys) (hb : b.DistinctKeys) (h : a.same b = true) :
    b.same a = true := by
  induction a using induction generalizing b with
  | null => cases b <;> simp_all [same]
  | bool x => cases b <;> simp_all [same]
  | str x => cases b <;> simp_all [same]
  | num x =>
    cases b with
    | num y =>
      rw [same] at h ⊢
      exact Number.same_symm h
    | _ => simp [same] at h
  | arr xs ih =>
    cases b with
    | arr ys =>
      rw [same, sameItems_iff] at h ⊢
      rw [distinctKeys_arr_iff] at ha hb
      refine (forall₂_imp_mem h fun x hx y hy hxy => ?_).flip
      exact ih x hx (ha x hx) (hb y hy) hxy
    | _ => simp [same] at h
  | obj fields ih =>
    cases b with
    | obj others =>
      rw [same_obj_iff] at h ⊢
      obtain ⟨hlength, hwithin⟩ := h
      obtain ⟨hkeys, hfields⟩ := distinctKeys_obj_iff.1 ha
      obtain ⟨hkeys', hothers⟩ := distinctKeys_obj_iff.1 hb
      refine ⟨hlength.symm, fun g hg => ?_⟩
      have hperm := keys_perm_of_fieldsWithin hkeys hlength (fieldsWithin_iff.2 hwithin)
      obtain ⟨f, hf, hkey⟩ := List.mem_map.1 (hperm.mem_iff.2 (List.mem_map_of_mem hg))
      obtain ⟨w, hw, hsame⟩ := hwithin f hf
      rw [hkey, fieldNamed?_of_mem hkeys' hg] at hw
      obtain rfl := Option.some.inj hw
      refine ⟨f.2, ?_, ih f hf (hfields f hf) (hothers g hg) hsame⟩
      rw [← hkey]
      exact fieldNamed?_of_mem hkeys hf
    | _ => simp [same] at h

theorem same_trans (h : a.same b = true) (h' : b.same c = true) : a.same c = true := by
  induction a using induction generalizing b c with
  | null => cases b <;> simp_all [same]
  | bool x => cases b <;> cases c <;> simp_all [same]
  | str x => cases b <;> cases c <;> simp_all [same]
  | num x =>
    cases b with
    | num y =>
      cases c with
      | num z =>
        rw [same] at h h' ⊢
        exact Number.same_trans h h'
      | _ => simp [same] at h'
    | _ => simp [same] at h
  | arr xs ih =>
    cases b with
    | arr ys =>
      cases c with
      | arr zs =>
        rw [same, sameItems_iff] at h h' ⊢
        exact forall₂_trans_mem h h' fun x hx y z hxy hyz => ih x hx hxy hyz
      | _ => simp [same] at h'
    | _ => simp [same] at h
  | obj fields ih =>
    cases b with
    | obj others =>
      cases c with
      | obj more =>
        rw [same_obj_iff] at h h' ⊢
        refine ⟨h.1.trans h'.1, fun f hf => ?_⟩
        obtain ⟨w, hw, hsame⟩ := h.2 f hf
        obtain ⟨v, hv, hsame'⟩ := h'.2 _ (mem_of_fieldNamed? hw)
        exact ⟨v, hv, ih f hf hsame hsame'⟩
      | _ => simp [same] at h'
    | _ => simp [same] at h

/-! ## Agreement -/

/-- Whether two values are one, or equal up to the order of fields. -/
def Agrees (a b : Json) : Prop := a = b ∨ a.same b = true

namespace Agrees

theorem refl (a : Json) : a.Agrees a := .inl rfl

theorem symm (ha : a.DistinctKeys) (hb : b.DistinctKeys) (h : a.Agrees b) : b.Agrees a := by
  rcases h with rfl | h
  · exact refl a
  · exact .inr (same_symm ha hb h)

theorem trans (h : a.Agrees b) (h' : b.Agrees c) : a.Agrees c := by
  rcases h with rfl | h
  · exact h'
  · rcases h' with rfl | h'
    · exact .inr h
    · exact .inr (same_trans h h')

theorem get? (hkeys : a.DistinctKeys) (h : a.Agrees b) (key : String) :
    Option.Rel Agrees (a.get? key) (b.get? key) := by
  rcases h with rfl | h
  · cases a.get? key with
    | none => exact .none
    | some v => exact .some (.refl v)
  · have hrel := get?_of_same hkeys h key
    generalize a.get? key = v, b.get? key = w at hrel
    cases hrel with
    | none => exact .none
    | some hsame => exact .some (.inr hsame)

theorem isObject_eq (h : a.Agrees b) : a.isObject = b.isObject := by
  rcases h with rfl | h
  · rfl
  · cases a <;> cases b <;> simp_all [same, isObject, asObject?]

/-- A text agrees with itself only. -/
theorem eq_str {s : String} (h : (str s).Agrees b) : b = .str s := by
  rcases h with rfl | h
  · rfl
  · cases b <;> simp_all [same]

theorem exists_items {items : List Json} (h : (arr items).Agrees b) :
    ∃ others, b = .arr others ∧ List.Forall₂ Agrees items others := by
  rcases h with rfl | h
  · exact ⟨items, rfl, List.forall₂_same.2 fun j _ => refl j⟩
  · cases b with
    | arr others =>
      rw [same, sameItems_iff] at h
      exact ⟨others, rfl, h.imp fun _ _ => .inr⟩
    | _ => simp [same] at h

end Agrees

/-- Whether two lists of fields have the same keys and agree under each of them. -/
structure FieldsAgree (fields others : List (String × Json)) : Prop where
  keys : (fields.map (·.1)).Perm (others.map (·.1))
  agree : ∀ ⦃key v⦄, fieldNamed? key fields = some v →
    ∃ w, fieldNamed? key others = some w ∧ v.Agrees w

theorem FieldsAgree.refl (fields : List (String × Json)) : FieldsAgree fields fields :=
  ⟨.refl _, fun _ v hv => ⟨v, hv, .refl v⟩⟩

theorem Agrees.exists_fields {fields : List (String × Json)} (hkeys : (obj fields).DistinctKeys)
    (h : (obj fields).Agrees b) : ∃ others, b = .obj others ∧ FieldsAgree fields others := by
  rcases h with rfl | h
  · exact ⟨fields, rfl, .refl fields⟩
  · cases b with
    | obj others =>
      obtain ⟨hlength, hwithin⟩ := same_obj_iff.1 h
      have hwithin := fieldsWithin_iff.2 hwithin
      refine ⟨others, rfl, ?_, fun key v hv => ?_⟩
      · exact keys_perm_of_fieldsWithin (distinctKeys_obj_iff.1 hkeys).1 hlength hwithin
      · obtain ⟨w, hw, hsame⟩ := same_of_fieldsWithin hwithin hv
        exact ⟨w, hw, .inr hsame⟩
    | _ => simp [same] at h

namespace FieldsAgree

variable {fields others : List (String × Json)}

theorem nodup (h : FieldsAgree fields others) (hkeys : (fields.map (·.1)).Nodup) :
    (others.map (·.1)).Nodup :=
  h.keys.nodup_iff.1 hkeys

/-- In the order of the first list, the fields agree one by one. -/
theorem exists_perm (h : FieldsAgree fields others) (hkeys : (fields.map (·.1)).Nodup) :
    ∃ others', others.Perm others' ∧
      List.Forall₂ (fun f g => f.1 = g.1 ∧ f.2.Agrees g.2) fields others' := by
  let matching (f : String × Json) : String × Json :=
    (f.1, (fieldNamed? f.1 others).getD .null)
  have hmatching : ∀ f ∈ fields, fieldNamed? f.1 others = some (matching f).2 ∧
      f.2.Agrees (matching f).2 := by
    intro f hf
    obtain ⟨w, hw, hagree⟩ := h.agree (fieldNamed?_of_mem hkeys hf)
    have hvalue : (matching f).2 = w := by simp [matching, hw]
    rw [hvalue]
    exact ⟨hw, hagree⟩
  refine ⟨fields.map matching, ?_, ?_⟩
  · have hnodup : (fields.map matching).Nodup := by
      refine List.Nodup.of_map (·.1) ?_
      rw [List.map_map]
      exact hkeys
    rw [List.perm_ext_iff_of_nodup ((h.nodup hkeys).of_map _) hnodup]
    intro g
    rw [List.mem_map]
    constructor
    · intro hg
      obtain ⟨f, hf, hkey⟩ := List.mem_map.1 (h.keys.mem_iff.2 (List.mem_map_of_mem hg))
      have hvalue := (hmatching f hf).1
      rw [hkey, fieldNamed?_of_mem (h.nodup hkeys) hg] at hvalue
      exact ⟨f, hf, Prod.ext hkey (Option.some.inj hvalue).symm⟩
    · rintro ⟨f, hf, rfl⟩
      exact mem_of_fieldNamed? (hmatching f hf).1
  · rw [List.forall₂_map_right_iff, List.forall₂_same]
    exact fun f hf => ⟨rfl, (hmatching f hf).2⟩

end FieldsAgree

theorem sizeItems_eq_sum (items : List Json) : sizeItems items = (items.map size).sum := by
  induction items with
  | nil => rfl
  | cons j rest ih => rw [sizeItems, ih, List.map_cons, List.sum_cons]

theorem sizeFields_eq_sum (fields : List (String × Json)) :
    sizeFields fields = (fields.map sizeField).sum := by
  induction fields with
  | nil => rfl
  | cons f rest ih => rw [sizeFields, ih, List.map_cons, List.sum_cons]

/-- Values that agree have one size. -/
theorem Agrees.size_eq (hkeys : a.DistinctKeys) (h : a.Agrees b) : a.size = b.size := by
  induction a using induction generalizing b with
  | arr items ih =>
    obtain ⟨others, rfl, hitems⟩ := h.exists_items
    have hsizes : others.map size = items.map size :=
      map_eq_of_forall₂ (fun _ _ heq => heq) <| forall₂_imp_mem hitems fun j hj j' _ hagree =>
        (ih j hj (distinctKeys_arr_iff.1 hkeys j hj) hagree).symm
    rw [size, size, sizeItems_eq_sum, sizeItems_eq_sum, hsizes]
  | obj fields ih =>
    obtain ⟨others, rfl, hfields⟩ := h.exists_fields hkeys
    obtain ⟨hnodup, heach⟩ := distinctKeys_obj_iff.1 hkeys
    obtain ⟨others', hperm, hmatch⟩ := hfields.exists_perm hnodup
    have hsizes : others'.map sizeField = fields.map sizeField :=
      map_eq_of_forall₂ (fun _ _ heq => heq) <| forall₂_imp_mem hmatch fun f hf g _ hagree => by
        obtain ⟨key, v⟩ := f
        obtain ⟨key', w⟩ := g
        obtain ⟨rfl, hvalue⟩ := hagree
        rw [sizeField, sizeField, ih _ hf (heach _ hf) hvalue]
    rw [size, size, sizeFields_eq_sum, sizeFields_eq_sum, (hperm.map sizeField).sum_eq, hsizes]
  | null | bool | num | str =>
    rcases h with rfl | h
    · rfl
    · cases b <;> simp_all [same, size]

end Json

end OpenApiServer
