import Mathlib.Data.List.Forall2
import Mathlib.Data.List.Nodup

/-!
# Searches, inclusions and repetitions in lists

What is looked for in a list is found where only one item answers to the search. Lists that are put
together lie within another if each of them does. Of a list in which items repeat the first
occurrences can be kept, part by part or at once.
-/

namespace OpenApiServer

variable {α β : Type}

theorem find?_eq_some_of_unique {xs : List α} {p : α → Bool} {x : α} (hx : x ∈ xs)
    (hp : p x = true) (unique : ∀ y ∈ xs, p y = true → y = x) : xs.find? p = some x := by
  cases hfind : xs.find? p with
  | none => exact absurd hp (List.find?_eq_none.1 hfind x hx)
  | some y => rw [unique y (List.mem_of_find?_eq_some hfind) (List.find?_some hfind)]

/-- Where no key repeats, one item has the key of a given one. -/
theorem filter_eq_singleton [BEq β] [LawfulBEq β] {xs : List α} {f : α → β}
    (hnodup : (xs.map f).Nodup) {x : α} (hx : x ∈ xs) : xs.filter (f · == f x) = [x] := by
  refine List.perm_singleton.1 ?_
  rw [List.perm_ext_iff_of_nodup ((hnodup.of_map f).filter _) (List.nodup_singleton x)]
  intro y
  rw [List.mem_filter, List.mem_singleton, beq_iff_eq]
  constructor
  · rintro ⟨hy, hkey⟩
    exact List.inj_on_of_nodup_map hnodup hy hx hkey
  · rintro rfl
    exact ⟨hx, rfl⟩

theorem lookup_of_mem [BEq α] [LawfulBEq α] {xs : List (α × β)} (hnodup : (xs.map (·.1)).Nodup)
    {key : α} {value : β} (h : (key, value) ∈ xs) : xs.lookup key = some value := by
  induction xs with
  | nil => cases h
  | cons x rest ih =>
    obtain ⟨hfirst, hrest⟩ := List.nodup_cons.1 hnodup
    rcases List.mem_cons.1 h with rfl | hmem
    · exact List.lookup_cons_self ..
    · have hne : (key == x.1) = false :=
        beq_false_of_ne fun heq => hfirst (List.mem_map.2 ⟨_, hmem, heq⟩)
      rw [List.lookup_cons, hne]
      exact ih hrest hmem

theorem flatMap_subset_iff {f : α → List β} {xs : List α} {ys : List β} :
    xs.flatMap f ⊆ ys ↔ ∀ x ∈ xs, f x ⊆ ys := by
  simp only [List.subset_def, List.mem_flatMap]
  constructor
  · intro h x hx b hb
    exact h ⟨x, hx, hb⟩
  · rintro h b ⟨x, hx, hb⟩
    exact h x hx hb

/-- What a list misses of another one, put at its end. -/
theorem append_missing_perm [BEq α] [LawfulBEq α] {xs ys : List α} (hxs : xs.Nodup) (h : xs ⊆ ys)
    (hys : ys.Nodup) : (xs ++ ys.filter (!xs.contains ·)).Perm ys := by
  have hdisjoint : xs.Disjoint (ys.filter (!xs.contains ·)) := by
    intro x hx hmissing
    simpa [hx] using (List.mem_filter.1 hmissing).2
  rw [List.perm_ext_iff_of_nodup (hxs.append (hys.filter _) hdisjoint) hys]
  intro x
  by_cases hx : x ∈ xs
  · simp [hx, h hx]
  · simp [hx]

theorem exists_of_mem_mapM {f : α → Option β} {xs : List α} {ys : List β}
    (h : xs.mapM f = some ys) {y : β} (hy : y ∈ ys) : ∃ x ∈ xs, f x = some y := by
  induction xs generalizing ys with
  | nil =>
    obtain rfl := Option.some.inj h
    cases hy
  | cons x rest ih =>
    rw [List.mapM_cons] at h
    obtain ⟨first, hfirst, h⟩ := Option.bind_eq_some_iff.1 h
    obtain ⟨later, hlater, h⟩ := Option.bind_eq_some_iff.1 h
    obtain rfl := Option.some.inj h
    rcases List.mem_cons.1 hy with rfl | hy
    · exact ⟨x, List.mem_cons_self .., hfirst⟩
    · obtain ⟨x', hx', hfound⟩ := ih hlater hy
      exact ⟨x', List.mem_cons_of_mem _ hx', hfound⟩

theorem mapM_eq_some_of_forall₂ {f : α → Option β} {xs : List α} {ys : List β}
    (h : List.Forall₂ (fun x y => f x = some y) xs ys) : xs.mapM f = some ys := by
  induction h with
  | nil => rfl
  | cons hxy _ ih => rw [List.mapM_cons, hxy, ih]; rfl

theorem exists_of_mem_forall₂ {R : α → β → Prop} {xs : List α} {ys : List β}
    (h : List.Forall₂ R xs ys) {y : β} (hy : y ∈ ys) : ∃ x ∈ xs, R x y := by
  induction h with
  | nil => cases hy
  | @cons x y' xs' ys' hxy _ ih =>
    rcases List.mem_cons.1 hy with rfl | hy
    · exact ⟨x, List.mem_cons_self .., hxy⟩
    · obtain ⟨x', hx', hxy'⟩ := ih hy
      exact ⟨x', List.mem_cons_of_mem _ hx', hxy'⟩

theorem map_eq_of_forall₂ {γ : Type} {R : α → β → Prop} {f : α → γ} {g : β → γ} {xs : List α}
    {ys : List β} (hR : ∀ x y, R x y → g y = f x) (h : List.Forall₂ R xs ys) :
    ys.map g = xs.map f := by
  induction h with
  | nil => rfl
  | cons hxy _ ih => rw [List.map_cons, List.map_cons, hR _ _ hxy, ih]

theorem forall₂_imp_mem {R S : α → β → Prop} {xs : List α} {ys : List β}
    (h : List.Forall₂ R xs ys) (hS : ∀ x ∈ xs, ∀ y ∈ ys, R x y → S x y) :
    List.Forall₂ S xs ys := by
  induction h with
  | nil => exact .nil
  | @cons x y xs ys hxy _ ih =>
    refine .cons (hS x (by simp) y (by simp) hxy) (ih fun x' hx' y' hy' => ?_)
    exact hS x' (List.mem_cons_of_mem _ hx') y' (List.mem_cons_of_mem _ hy')

theorem forall₂_trans_mem {γ : Type} {R : α → β → Prop} {S : β → γ → Prop} {T : α → γ → Prop}
    {xs : List α} {ys : List β} {zs : List γ} (h : List.Forall₂ R xs ys)
    (h' : List.Forall₂ S ys zs) (hT : ∀ x ∈ xs, ∀ y z, R x y → S y z → T x z) :
    List.Forall₂ T xs zs := by
  induction h generalizing zs with
  | nil =>
    cases h'
    exact .nil
  | @cons x y xs ys hxy _ ih =>
    cases h' with
    | cons hyz hrest =>
      refine .cons (hT x (by simp) y _ hxy hyz) (ih hrest fun x' hx' => ?_)
      exact hT x' (List.mem_cons_of_mem _ hx')

/-- Where no item repeats, none stands before itself. -/
theorem not_mem_map_of_nodup {f : α → β} {before after : List α} {x : α}
    (h : ((before ++ x :: after).map f).Nodup) : f x ∉ before.map f := by
  rw [List.map_append, List.map_cons, List.nodup_middle, List.nodup_cons] at h
  exact fun hmem => h.1 (List.mem_append_left _ hmem)

/-- What the same items answer to is the same if each item determines it. -/
theorem eq_of_forall₂ {R S : α → β → Prop} {xs : List α} {ys zs : List β} (h : List.Forall₂ R xs ys)
    (h' : List.Forall₂ S xs zs) (hunique : ∀ x y z, R x y → S x z → y = z) : ys = zs := by
  induction h generalizing zs with
  | nil =>
    cases h'
    rfl
  | cons hxy _ ih =>
    cases h' with
    | cons hxz hrest => rw [hunique _ _ _ hxy hxz, ih hrest]

/-- A relation on pairs of items carries over to pairs of the items that answer to them. -/
theorem pairwise_iff_of_forall₂ {R : α → β → Prop} {S : α → α → Prop} {T : β → β → Prop}
    (hST : ∀ x x' y y', R x y → R x' y' → (S x x' ↔ T y y')) {xs : List α} {ys : List β}
    (h : List.Forall₂ R xs ys) : xs.Pairwise S ↔ ys.Pairwise T := by
  induction h with
  | nil => simp
  | @cons x y xs ys hxy hrest ih =>
    have hfirst : (∀ x' ∈ xs, S x x') ↔ ∀ y' ∈ ys, T y y' := by
      constructor
      · intro hx y' hy'
        obtain ⟨x', hx', hxy'⟩ := exists_of_mem_forall₂ hrest hy'
        exact (hST x x' y y' hxy hxy').1 (hx x' hx')
      · intro hy x' hx'
        obtain ⟨y', hy', hxy'⟩ := exists_of_mem_forall₂ hrest.flip hx'
        exact (hST x x' y y' hxy hxy').2 (hy y' hy')
    rw [List.pairwise_cons, List.pairwise_cons, hfirst, ih]

/-! ## Lists of the same items -/

theorem exists_of_rel_left {R : α → β → Prop} {a : Option α} {b : Option β} (h : Option.Rel R a b)
    {x : α} (hx : a = some x) : ∃ z, b = some z ∧ R x z := by
  subst hx
  cases h with
  | some hxz => exact ⟨_, rfl, hxz⟩

theorem exists_of_rel_right {R : α → β → Prop} {a : Option α} {b : Option β} (h : Option.Rel R a b)
    {z : β} (hz : b = some z) : ∃ x, a = some x ∧ R x z := by
  subst hz
  cases h with
  | some hxz => exact ⟨_, rfl, hxz⟩

/-- Whether each item of one list has one of the other list that it is related to, and the other way
round, in whatever order they stand. -/
structure Matched (R : α → β → Prop) (xs : List α) (ys : List β) : Prop where
  left : ∀ x ∈ xs, ∃ y ∈ ys, R x y
  right : ∀ y ∈ ys, ∃ x ∈ xs, R x y

namespace Matched

variable {α' β' : Type} {R : α → β → Prop} {S : α' → β' → Prop} {xs ys : List α} {zs : List β}

theorem map (h : Matched R xs zs) {f : α → α'} {g : β → β'} (hS : ∀ x z, R x z → S (f x) (g z)) :
    Matched S (xs.map f) (zs.map g) where
  left := by
    rw [List.forall_mem_map]
    intro x hx
    obtain ⟨z, hz, hxz⟩ := h.left x hx
    exact ⟨g z, List.mem_map_of_mem hz, hS x z hxz⟩
  right := by
    rw [List.forall_mem_map]
    intro z hz
    obtain ⟨x, hx, hxz⟩ := h.right z hz
    exact ⟨f x, List.mem_map_of_mem hx, hS x z hxz⟩

theorem swap (h : Matched R xs zs) {S : β → α → Prop} (hS : ∀ x z, R x z → S z x) :
    Matched S zs xs where
  left z hz := by
    obtain ⟨x, hx, hxz⟩ := h.right z hz
    exact ⟨x, hx, hS x z hxz⟩
  right x hx := by
    obtain ⟨z, hz, hxz⟩ := h.left x hx
    exact ⟨z, hz, hS x z hxz⟩

theorem filter (h : Matched R xs zs) {p : α → Bool} {q : β → Bool} (hpq : ∀ x z, R x z → p x = q z) :
    Matched R (xs.filter p) (zs.filter q) where
  left x hx := by
    obtain ⟨hx, hp⟩ := List.mem_filter.1 hx
    obtain ⟨z, hz, hxz⟩ := h.left x hx
    exact ⟨z, List.mem_filter.2 ⟨hz, hpq x z hxz ▸ hp⟩, hxz⟩
  right z hz := by
    obtain ⟨hz, hq⟩ := List.mem_filter.1 hz
    obtain ⟨x, hx, hxz⟩ := h.right z hz
    exact ⟨x, List.mem_filter.2 ⟨hx, (hpq x z hxz).trans hq⟩, hxz⟩

theorem append {xs' : List α} {zs' : List β} (h : Matched R xs zs) (h' : Matched R xs' zs') :
    Matched R (xs ++ xs') (zs ++ zs') where
  left := by
    refine List.forall_mem_append.2 ⟨fun x hx => ?_, fun x hx => ?_⟩
    · obtain ⟨z, hz, hxz⟩ := h.left x hx
      exact ⟨z, List.mem_append_left _ hz, hxz⟩
    · obtain ⟨z, hz, hxz⟩ := h'.left x hx
      exact ⟨z, List.mem_append_right _ hz, hxz⟩
  right := by
    refine List.forall_mem_append.2 ⟨fun z hz => ?_, fun z hz => ?_⟩
    · obtain ⟨x, hx, hxz⟩ := h.right z hz
      exact ⟨x, List.mem_append_left _ hx, hxz⟩
    · obtain ⟨x, hx, hxz⟩ := h'.right z hz
      exact ⟨x, List.mem_append_right _ hx, hxz⟩

theorem all_eq (h : Matched R xs zs) {p : α → Bool} {q : β → Bool} (hpq : ∀ x z, R x z → p x = q z) :
    xs.all p = zs.all q := by
  rw [Bool.eq_iff_iff, List.all_eq_true, List.all_eq_true]
  constructor
  · intro hp z hz
    obtain ⟨x, hx, hxz⟩ := h.right z hz
    exact (hpq x z hxz).symm.trans (hp x hx)
  · intro hq x hx
    obtain ⟨z, hz, hxz⟩ := h.left x hx
    exact (hpq x z hxz).trans (hq z hz)

/-- What is read off related items alike is read off both lists. -/
theorem mem_map_iff {γ : Type} (h : Matched R xs zs) {f : α → γ} {g : β → γ}
    (hfg : ∀ x z, R x z → f x = g z) (c : γ) : c ∈ xs.map f ↔ c ∈ zs.map g := by
  rw [List.mem_map, List.mem_map]
  constructor
  · rintro ⟨x, hx, rfl⟩
    obtain ⟨z, hz, hxz⟩ := h.left x hx
    exact ⟨z, hz, (hfg x z hxz).symm⟩
  · rintro ⟨z, hz, rfl⟩
    obtain ⟨x, hx, hxz⟩ := h.right z hz
    exact ⟨x, hx, hfg x z hxz⟩

theorem filterMap (h : Matched R xs zs) {f : α → Option α'} {g : β → Option β'}
    (hS : ∀ x z, R x z → Option.Rel S (f x) (g z)) : Matched S (xs.filterMap f) (zs.filterMap g) where
  left a ha := by
    obtain ⟨x, hx, hxa⟩ := List.mem_filterMap.1 ha
    obtain ⟨z, hz, hxz⟩ := h.left x hx
    obtain ⟨b, hzb, hab⟩ := exists_of_rel_left (hS x z hxz) hxa
    exact ⟨b, List.mem_filterMap.2 ⟨z, hz, hzb⟩, hab⟩
  right b hb := by
    obtain ⟨z, hz, hzb⟩ := List.mem_filterMap.1 hb
    obtain ⟨x, hx, hxz⟩ := h.right z hz
    obtain ⟨a, hxa, hab⟩ := exists_of_rel_right (hS x z hxz) hzb
    exact ⟨a, List.mem_filterMap.2 ⟨x, hx, hxa⟩, hab⟩

/-- Where keys tell the items apart, the items of one list can be put in the order of the other. -/
theorem exists_perm {γ : Type} {f : α → γ} {g : β → γ} (h : Matched R xs zs)
    (hkey : ∀ x z, R x z → f x = g z) (hxs : (xs.map f).Nodup) (hzs : (zs.map g).Nodup) :
    ∃ ordered, ordered.Perm zs ∧ List.Forall₂ R xs ordered := by
  induction xs generalizing zs with
  | nil =>
    cases zs with
    | nil => exact ⟨[], .refl _, .nil⟩
    | cons z rest =>
      obtain ⟨x, hx, -⟩ := h.right z (List.mem_cons_self ..)
      cases hx
  | cons x rest ih =>
    obtain ⟨hfirst, hrest⟩ := List.nodup_cons.1 hxs
    obtain ⟨z, hz, hxz⟩ := h.left x (List.mem_cons_self ..)
    obtain ⟨before, after, rfl⟩ := List.append_of_mem hz
    have hfirst' : (before ++ z :: after).Perm (z :: (before ++ after)) := List.perm_middle
    have hzs' := (hfirst'.map g).nodup_iff.1 hzs
    obtain ⟨hfree, hothers⟩ := List.nodup_cons.1 hzs'
    have hmatched : Matched R rest (before ++ after) := by
      refine ⟨fun x' hx' => ?_, fun z' hz' => ?_⟩
      · obtain ⟨z', hz', hxz'⟩ := h.left x' (List.mem_cons_of_mem _ hx')
        refine ⟨z', (List.mem_cons.1 (hfirst'.subset hz')).resolve_left ?_, hxz'⟩
        rintro rfl
        exact hfirst (List.mem_map.2 ⟨x', hx', (hkey x' z' hxz').trans (hkey x z' hxz).symm⟩)
      · obtain ⟨x', hx', hxz'⟩ := h.right z' (hfirst'.symm.subset (List.mem_cons_of_mem _ hz'))
        refine ⟨x', (List.mem_cons.1 hx').resolve_left ?_, hxz'⟩
        rintro rfl
        exact hfree (List.mem_map.2 ⟨z', hz', (hkey x' z' hxz').symm.trans (hkey x' z hxz)⟩)
    obtain ⟨ordered, hperm, hforall⟩ := ih hmatched hrest hothers
    exact ⟨z :: ordered, (hperm.cons z).trans hfirst'.symm, .cons hxz hforall⟩

end Matched

/-! ## First occurrences -/

section FirstOccurrences

variable [DecidableEq α]

theorem length_others_lt (x : α) (rest : List α) :
    (rest.filter fun y => !y == x).length < (x :: rest).length :=
  Nat.lt_succ_of_le (List.length_filter_le ..)

theorem filter_eraseDups (p : α → Bool) :
    ∀ xs : List α, xs.eraseDups.filter p = (xs.filter p).eraseDups
  | [] => rfl
  | x :: rest => by
    rw [List.eraseDups_cons, List.filter_cons, filter_eraseDups p, List.filter_filter]
    by_cases hx : p x
    · rw [if_pos hx, List.filter_cons_of_pos hx, List.eraseDups_cons, List.filter_filter]
      simp only [Bool.and_comm]
    · rw [if_neg hx, List.filter_cons_of_neg hx]
      congr 1
      refine List.filter_congr fun y _ => ?_
      by_cases hy : y = x
      · simp [hy, hx]
      · simp [hy]
  termination_by xs => xs.length
  decreasing_by exact length_others_lt x rest

theorem nodup_eraseDups : ∀ xs : List α, xs.eraseDups.Nodup
  | [] => List.nodup_nil
  | x :: rest => by
    rw [List.eraseDups_cons]
    exact List.nodup_cons.2 ⟨by simp, nodup_eraseDups _⟩
  termination_by xs => xs.length
  decreasing_by exact length_others_lt x rest

theorem eraseDups_of_nodup {xs : List α} (h : xs.Nodup) : xs.eraseDups = xs := by
  induction xs with
  | nil => rfl
  | cons x rest ih =>
    obtain ⟨hx, hrest⟩ := List.nodup_cons.1 h
    have hkept : (rest.filter fun y => !y == x) = rest := by
      refine List.filter_eq_self.2 fun y hy => ?_
      have hne : y ≠ x := fun heq => hx (heq ▸ hy)
      simpa using hne
    rw [List.eraseDups_cons, hkept, ih hrest]

theorem eraseDups_concat (xs : List α) (x : α) :
    (xs ++ [x]).eraseDups = if x ∈ xs then xs.eraseDups else xs.eraseDups ++ [x] := by
  rw [List.eraseDups_append]
  by_cases hx : x ∈ xs <;> simp [List.cons_removeAll, List.eraseDups_cons, hx]

/-- Repetitions can be left out of the parts before they are left out of the whole. -/
theorem eraseDups_append_eraseDups (xs ys : List α) :
    (xs.eraseDups ++ ys.eraseDups).eraseDups = (xs ++ ys).eraseDups := by
  have hsame : ys.eraseDups.removeAll xs.eraseDups = ys.eraseDups.removeAll xs := by
    simp [List.removeAll]
  rw [List.eraseDups_append, List.eraseDups_append, eraseDups_of_nodup (nodup_eraseDups xs), hsame,
    List.removeAll, filter_eraseDups, eraseDups_of_nodup (nodup_eraseDups _), List.removeAll]

end FirstOccurrences

end OpenApiServer
