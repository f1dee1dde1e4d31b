import Mathlib.Logic.Function.Iterate
import OpenApiServer.Proofs.Build.Boxing
import OpenApiServer.Proofs.Build.Reboxing

/-!
# Which copied fields stay

Settling is a descent: each round moves the copied fields that do not convert to the extras, and
what converts depends on the conversions that are still plain. More copied fields leave more of them
plain, so the rounds never pass by a choice of copied fields that all convert by what the choice
itself makes known, and they end at the largest of these choices.
-/

namespace OpenApiServer

namespace TypeExpr

/-- More known conversions convert more. -/
theorem convertsInto_mono {known more : KnownConversions} (hmore : known ⊆ more)
    {source target : TypeExpr} (h : source.convertsInto known target = true) :
    source.convertsInto more target = true := by
  fun_induction convertsInto known source target with
  | case1 target => rw [convertsInto.eq_def, if_pos rfl]
  | case2 _ _ hne ih | case4 _ _ hne ih | case7 _ _ hne ih =>
    rw [convertsInto.eq_def, if_neg hne]
    exact ih h
  | case3 source inner hbox hne ih =>
    rw [convertsInto.eq_def, if_neg hne]
    cases source <;> simp_all
  | case5 target inner hbox hoption hne => cases h
  | case6 source inner hbox hoption hne ih =>
    rw [convertsInto.eq_def, if_neg hne]
    cases source <;> simp_all
  | case8 a b hne =>
    rw [convertsInto.eq_def, if_neg hne]
    exact List.contains_iff_mem.2 (hmore (List.contains_iff_mem.1 h))
  | case9 source target hne => cases h

end TypeExpr

namespace Conversion

variable {enums : KnownConversions} {conversions : List Conversion}

/-- Whether every copied field converts by what the conversions themselves make known. -/
def Settled (enums : KnownConversions) (conversions : List Conversion) : Prop :=
  ∀ c ∈ conversions, ∀ m ∈ c.copied,
    m.source.convertsInto (enums ++ plainPairs conversions) m.field.fieldType = true

/-- Whether a conversion is another one that copies some of its copied fields, with all other fields
as extras. -/
structure Copies (c choice : Conversion) : Prop where
  source : choice.source = c.source
  target : choice.target = c.target
  copied : choice.copied.Subperm c.copied
  fields : (choice.copied.map (·.field) ++ choice.extras).Perm (c.copied.map (·.field) ++ c.extras)

/-- Whether a conversion is another one with some copied fields moved behind its extras. -/
structure Demotes (c c' : Conversion) : Prop extends Copies c c' where
  order : c'.copied.Sublist c.copied
  extras : c.extras <+: c'.extras

/-! ## One round -/

namespace Demotes

theorem refl (c : Conversion) : Demotes c c where
  source := rfl
  target := rfl
  copied := .refl _
  fields := .refl _
  order := .refl _
  extras := List.prefix_refl _

theorem trans {a b c : Conversion} (h : Demotes a b) (h' : Demotes b c) : Demotes a c where
  source := h'.source.trans h.source
  target := h'.target.trans h.target
  copied := h'.copied.trans h.copied
  fields := h'.fields.trans h.fields
  order := h'.order.trans h.order
  extras := h.extras.trans h'.extras

end Demotes

theorem demotes_demote (known : KnownConversions) (c : Conversion) :
    Demotes c (demote known c) where
  source := rfl
  target := rfl
  copied := List.filter_sublist.subperm
  fields := by
    have hsplit := (List.filter_append_perm (converts known) c.copied).map (·.field)
    rw [List.map_append] at hsplit
    refine .trans ?_ (hsplit.append_right c.extras)
    rw [List.append_assoc]
    exact (List.perm_append_left_iff _).2 List.perm_append_comm
  order := List.filter_sublist
  extras := List.prefix_append _ _

/-- A conversion has fewer extras than a choice of its copied fields, so it is plain if the choice
is. -/
theorem Copies.plain {c choice : Conversion} (h : Copies c choice)
    (hplain : choice.isPlain = true) : c.isPlain = true := by
  obtain ⟨kept, hkept, hsub⟩ := h.copied
  obtain ⟨others, hothers⟩ := hsub.exists_perm_append
  have hcopied : c.copied.Perm (choice.copied ++ others) :=
    hothers.trans (hkept.append_right others)
  have hfields := h.fields.trans ((hcopied.map (·.field)).append_right c.extras)
  rw [List.map_append, List.append_assoc, List.perm_append_left_iff] at hfields
  rw [isPlain, List.all_eq_true] at hplain ⊢
  intro f hf
  exact hplain f (hfields.mem_iff.2 (List.mem_append_right _ hf))

theorem plainPairs_subset {choice : List Conversion}
    (h : List.Forall₂ Copies conversions choice) : plainPairs choice ⊆ plainPairs conversions := by
  intro pair hpair
  obtain ⟨c', hc', rfl⟩ := List.mem_map.1 hpair
  obtain ⟨hmem, hplain⟩ := List.mem_filter.1 hc'
  obtain ⟨c, hc, hcopies⟩ := exists_of_mem_forall₂ h hmem
  rw [hcopies.source, hcopies.target]
  exact List.mem_map_of_mem (List.mem_filter.2 ⟨hc, hcopies.plain hplain⟩)

/-- What converts for the choice is not moved. -/
theorem Copies.demote {known : KnownConversions} {c choice : Conversion} (h : Copies c choice)
    (hchoice : ∀ m ∈ choice.copied, converts known m = true) : Copies (demote known c) choice where
  source := h.source
  target := h.target
  copied := by
    have hkept := h.copied.filter (converts known)
    rwa [List.filter_eq_self.2 hchoice] at hkept
  fields := h.fields.trans (demotes_demote known c).fields.symm

theorem copies_settleOnce {choice : List Conversion} (h : List.Forall₂ Copies conversions choice)
    (hchoice : Settled enums choice) :
    List.Forall₂ Copies (settleOnce enums conversions) choice := by
  have hknown : enums ++ plainPairs choice ⊆ enums ++ plainPairs conversions := by
    refine List.append_subset.2 ⟨List.subset_append_left .., ?_⟩
    exact List.subset_append_of_subset_right enums (plainPairs_subset h)
  rw [settleOnce, List.forall₂_map_left_iff]
  refine forall₂_imp_mem h fun c _ c' hc' hcopies => hcopies.demote fun m hm => ?_
  exact TypeExpr.convertsInto_mono hknown (hchoice c' hc' m hm)

theorem demotes_settleOnce (enums : KnownConversions) (conversions : List Conversion) :
    List.Forall₂ Demotes conversions (settleOnce enums conversions) :=
  List.forall₂_map_right_iff.2 (List.forall₂_same.2 fun c _ => demotes_demote _ c)

theorem demote_eq_self {known : KnownConversions} {c : Conversion}
    (h : ∀ m ∈ c.copied, converts known m = true) : demote known c = c := by
  have hkept : c.copied.filter (converts known) = c.copied := List.filter_eq_self.2 h
  have hmoved : c.copied.filter (!converts known ·) = [] :=
    List.filter_eq_nil_iff.2 fun m hm => by simp [h m hm]
  change Conversion.mk c.source c.target (c.copied.filter (converts known))
    (c.extras ++ (c.copied.filter (!converts known ·)).map (·.field)) = c
  rw [hkept, hmoved, List.map_nil, List.append_nil]

theorem settleOnce_eq_self (h : Settled enums conversions) :
    settleOnce enums conversions = conversions := by
  have hsame : settleOnce enums conversions = conversions.map id :=
    List.map_congr_left fun c hc => demote_eq_self (h c hc)
  rw [hsame, List.map_id]

theorem settled_of_not_less
    (h : ¬copiedCount (settleOnce enums conversions) < copiedCount conversions) :
    Settled enums conversions := by
  rw [settles_iff, Bool.not_eq_false, List.all_eq_true] at h
  exact fun c hc m hm => List.all_eq_true.1 (h c hc) m hm

/-! ## All rounds -/

theorem settled_settle (enums : KnownConversions) (conversions : List Conversion) :
    Settled enums (settle enums conversions) := by
  induction conversions using settle.induct enums with
  | case1 cs next hless ih =>
    rw [settle, if_pos hless]
    exact ih
  | case2 cs next hless =>
    have hsettled := settled_of_not_less hless
    rw [settle, if_neg hless, settleOnce_eq_self hsettled]
    exact hsettled

theorem exists_rounds (enums : KnownConversions) (conversions : List Conversion) :
    ∃ rounds ≤ copiedCount conversions,
      settle enums conversions = (settleOnce enums)^[rounds] conversions := by
  induction conversions using settle.induct enums with
  | case1 cs next hless ih =>
    obtain ⟨rounds, hle, hrounds⟩ := ih
    refine ⟨rounds + 1, Nat.lt_of_le_of_lt hle hless, ?_⟩
    rw [settle, if_pos hless, hrounds, Function.iterate_succ_apply]
  | case2 cs next hless =>
    refine ⟨0, Nat.zero_le _, ?_⟩
    rw [settle, if_neg hless, settleOnce_eq_self (settled_of_not_less hless),
      Function.iterate_zero_apply]

/-- Settling ends after at most one round for each copied field, with conversions that one more
round does not change. All their copied fields convert by what they make known, their other fields
stand behind the old extras, and every choice of copied fields that all convert by what the choice
makes known has been kept. -/
theorem settle_is_greatest (enums : KnownConversions) (conversions : List Conversion) :
    (∃ rounds ≤ copiedCount conversions,
      settle enums conversions = (settleOnce enums)^[rounds] conversions) ∧
    settleOnce enums (settle enums conversions) = settle enums conversions ∧
    Settled enums (settle enums conversions) ∧
    List.Forall₂ Demotes conversions (settle enums conversions) ∧
    ∀ choice, List.Forall₂ Copies conversions choice → Settled enums choice →
      List.Forall₂ (fun c c' => c.copied.Subperm c'.copied) choice (settle enums conversions) := by
  have hsettled := settled_settle enums conversions
  refine ⟨exists_rounds enums conversions, settleOnce_eq_self hsettled, hsettled, ?_, ?_⟩
  · refine settle_keeps (P := List.Forall₂ Demotes conversions) (fun cs hcs => ?_)
      (List.forall₂_same.2 fun c _ => .refl c)
    exact forall₂_trans_mem hcs (demotes_settleOnce enums cs) fun _ _ _ _ => Demotes.trans
  · intro choice hcopies hchoice
    have hkept : List.Forall₂ Copies (settle enums conversions) choice :=
      settle_keeps (P := (List.Forall₂ Copies · choice))
        (fun _ hcs => copies_settleOnce hcs hchoice) hcopies
    exact hkept.flip.imp fun _ _ h => h.copied

/-- A required field that is filled from a value of another type. -/
def fillFrom (name : String) (source target : TypeExpr) : FieldMapping :=
  ⟨⟨.ofText name, name, target, true, .empty⟩, source⟩

/-- Two conversions that each convert a field by the other one, one that cannot fill its field, and
one that would convert its field by that one. -/
def entwined (settled : Bool) : List Conversion :=
  let size := fillFrom "size" (.primitive .string) (.primitive .i64)
  let part := fillFrom "part" (.named ⟨"Bolt"⟩) (.named ⟨"NewBolt"⟩)
  let move (m : FieldMapping) : List FieldMapping × List Field :=
    if settled then ([], [m.field]) else ([m], [])
  [⟨⟨"Order"⟩, ⟨"NewOrder"⟩, [fillFrom "buyer" (.named ⟨"User"⟩) (.named ⟨"NewUser"⟩)], []⟩,
    ⟨⟨"User"⟩, ⟨"NewUser"⟩, [fillFrom "last" (.named ⟨"Order"⟩) (.named ⟨"NewOrder"⟩)], []⟩,
    ⟨⟨"Bolt"⟩, ⟨"NewBolt"⟩, (move size).1, (move size).2⟩,
    ⟨⟨"Shelf"⟩, ⟨"NewShelf"⟩, (move part).1, (move part).2⟩]

theorem entwined_settled :
    settle [] (entwined false) = entwined true ∧
      List.Forall₂ Copies (entwined false) (entwined true) ∧ Settled [] (entwined true) ∧
      List.Forall₂ (fun c c' => c.copied.Subperm c'.copied) (entwined true)
        (settle [] (entwined false)) := by
  have hsettled : Settled [] (entwined true) := by
    unfold Settled
    decide +kernel
  have hcopies : List.Forall₂ Copies (entwined false) (entwined true) := by
    refine .cons ?_ (.cons ?_ (.cons ?_ (.cons ?_ .nil)))
    all_goals exact ⟨rfl, rfl, List.Sublist.subperm (by decide), by decide +kernel⟩
  obtain ⟨-, -, -, -, hgreatest⟩ := settle_is_greatest [] (entwined false)
  exact ⟨by decide +kernel, hcopies, hsettled, hgreatest _ hcopies hsettled⟩

end Conversion

end OpenApiServer
