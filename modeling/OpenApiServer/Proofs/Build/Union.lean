import OpenApiServer.Build.Union
import OpenApiServer.Proofs.Build.Fields

/-!
# Unions mention claimed names

The payloads of a union are types of its arms, and its shared fields are fields of its first
payload.
-/

namespace OpenApiServer.Build

variable {d : Document} {r : Registry}

theorem flawed_bind_resolves {α β : Type} {union : TypeName} {x : Except UnionFlaw α}
    {f : α → Build β} {names : β → List TypeName} (hf : ∀ a, Resolves d r (f a) names) :
    Resolves d r (flawed union x >>= f) names := by
  cases x with
  | ok a =>
    rw [flawed, pure_bind]
    exact hf a
  | error flaw => exact .fail_bind

theorem addArm_resolves {union : TypeName} {draft : UnionDraft} {arm : Nat} {node : Json}
    (hdraft : variantsMentioned draft.variants ⊆ r.claimed) :
    Resolves d r (addArm d union draft arm node) fun draft => variantsMentioned draft.variants := by
  refine .lift_bind fun target _ => .lift_bind fun schema _ => ?_
  split
  next properties required _ =>
    refine .guard <| .lift_bind fun literals _ => ?_
    refine flawed_bind_resolves fun ⟨layout, tag, payload⟩ => ?_
    refine (typeOf_resolves payload _).bind fun type _ hgrows htype => .guard <| .pure ?_
    rw [variantsMentioned, List.flatMap_append, List.flatMap_singleton]
    exact List.append_subset.2 ⟨hgrows.mono hdraft, htype⟩
  next => exact .fail

theorem addArms_resolves {union : TypeName} {draft : UnionDraft} {arm : Nat} {arms : List Json}
    (hdraft : variantsMentioned draft.variants ⊆ r.claimed) :
    Resolves d r (addArms d union draft arm arms)
      fun draft => variantsMentioned draft.variants := by
  induction arms generalizing r draft arm with
  | nil => exact .pure hdraft
  | cons node rest ih =>
    rw [addArms]
    exact (addArm_resolves hdraft).bind fun _ _ _ hdraft' => ih hdraft'

/-! ## Fields that all payloads share -/

theorem sharedMentioned_commonFields (fields : List (List Field)) :
    sharedMentioned (commonFields fields) ⊆ fields.flatMap fieldsMentioned := by
  cases fields with
  | nil => exact List.nil_subset _
  | cons first rest =>
    rw [commonFields, sharedMentioned, flatMap_subset_iff]
    intro shared hshared
    obtain ⟨field, hfield, rfl⟩ := List.mem_map.1 hshared
    rw [Field.names_fieldType, List.flatMap_cons]
    refine List.Subset.trans ?_ (List.subset_append_left ..)
    exact fieldsMentioned_subset_iff.1 (List.Subset.refl _) field (List.mem_of_mem_filter hfield)

theorem payloadFields_resolves (variants : List UnionVariant) :
    Resolves d r (payloadFields d variants) fun found =>
      found.elim [] (·.flatMap fieldsMentioned) := by
  induction variants generalizing r with
  | nil => exact .pure (List.nil_subset _)
  | cons v rest ih =>
    rw [payloadFields]
    split
    next payload _ =>
      refine (recordFieldsOfName?_resolves payload).bind fun found _ _ hfound => ?_
      cases found with
      | none => exact .pure (List.nil_subset _)
      | some fields =>
        refine ih.bind fun later _ hgrows hlater => .pure ?_
        cases later with
        | none => exact List.nil_subset _
        | some later =>
          exact List.append_subset.2 ⟨hgrows.mono hfound, hlater⟩
    next => exact .pure (List.nil_subset _)

theorem sharedFields_resolves (variants : List UnionVariant) :
    Resolves d r (sharedFields d variants) sharedMentioned := by
  refine (payloadFields_resolves variants).bind fun found _ _ hfound => .pure ?_
  refine List.Subset.trans (sharedMentioned_commonFields _) ?_
  cases found with
  | none => exact List.nil_subset _
  | some fields => exact hfound

theorem buildUnion_resolves (name : TypeName) (node : Json) (arms : List Json) :
    Resolves d r (buildUnion d name node arms) fun decl => (Declaration.union decl).mentioned := by
  refine (addArms_resolves (List.nil_subset _)).bind fun draft _ _ hdraft => ?_
  split
  next => exact .fail
  next layout _ =>
    refine (sharedFields_resolves draft.variants).bind fun shared _ hgrows hshared => .pure ?_
    exact List.append_subset.2 ⟨hgrows.mono hdraft, hshared⟩

end OpenApiServer.Build
