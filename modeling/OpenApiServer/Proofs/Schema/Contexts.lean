import OpenApiServer.Proofs.Data.Except
import OpenApiServer.Schema.Basic
import Mathlib.Tactic.SplitIfs

/-!
# The place of a schema

The view of a node takes the name of its place for messages only. So a node that has a view in one
place has the same view in every other.
-/

namespace OpenApiServer.Schema

variable {context : String} {node : Json} {s : Schema}

theorem nonEmptyList_of_ok (context' : String) {keyword : String} {parts : List Json}
    (h : nonEmptyList context keyword node = .ok parts) :
    nonEmptyList context' keyword node = .ok parts := by
  unfold nonEmptyList at h ⊢
  split at h
  · exact h
  · cases h

theorem requiredName_of_ok (context' : String) {name : String}
    (h : requiredName context node = .ok name) : requiredName context' node = .ok name := by
  unfold requiredName at h ⊢
  split at h
  · exact h
  · cases h

theorem requiredNames_of_ok (context' : String) {nodes : List Json} {names : List String}
    (h : nodes.mapM (requiredName context) = .ok names) :
    nodes.mapM (requiredName context') = .ok names :=
  mapM_eq_ok_iff.2 ((mapM_eq_ok_iff.1 h).imp fun _ _ => requiredName_of_ok context')

theorem object?_of_ok (context' : String) (h : object? context node = .ok s) :
    object? context' node = .ok s := by
  unfold object? at h ⊢
  dsimp only at h ⊢
  split at h
  case h_3 =>
    obtain ⟨_, hfail, -⟩ := bind_eq_ok_iff.1 h
    cases hfail
  all_goals
    obtain ⟨properties, hproperties, h⟩ := bind_eq_ok_iff.1 h
    refine bind_eq_ok_iff.2 ⟨properties, hproperties, ?_⟩
    split at h
    case h_1 => exact h
    case h_2 =>
      obtain ⟨required, hrequired, h⟩ := bind_eq_ok_iff.1 h
      exact bind_eq_ok_iff.2 ⟨required, requiredNames_of_ok context' hrequired, h⟩
    case h_3 =>
      obtain ⟨_, hfail, -⟩ := bind_eq_ok_iff.1 h
      cases hfail

theorem distinctMembers_of_ok (context' : String) {found members : List String}
    {values : List Json} (h : distinctMembers context found values = .ok members) :
    distinctMembers context' found values = .ok members := by
  induction values generalizing found with
  | nil => exact h
  | cons value rest ih =>
    cases value with
    | str text => exact ih h
    | _ => cases h

theorem enum?_of_ok (context' : String) {type : Option String}
    (h : enum? context node type = .ok s) : enum? context' node type = .ok s := by
  unfold enum? at h ⊢
  dsimp only at h ⊢
  split at h
  · cases h
  next htype =>
    rw [if_neg htype]
    split at h
    case h_3 =>
      obtain ⟨_, hfail, -⟩ := bind_eq_ok_iff.1 h
      cases hfail
    all_goals
      obtain ⟨values, hvalues, h⟩ := bind_eq_ok_iff.1 h
      obtain ⟨members, hmembers, h⟩ := bind_eq_ok_iff.1 h
      refine bind_eq_ok_iff.2 ⟨values, hvalues, bind_eq_ok_iff.2
        ⟨members, distinctMembers_of_ok context' hmembers, ?_⟩⟩
      split at h
      · cases h
      next hsome =>
        rw [if_neg hsome]
        split at h
        · exact h
        · split at h
          next hdefault => rw [if_pos hdefault]; exact h
          next => cases h
        · cases h

theorem declaredType_of_ok (context' : String) {type : Option String}
    (h : declaredType context node = .ok type) : declaredType context' node = .ok type := by
  unfold declaredType at h ⊢
  split at h
  · exact h
  · exact h
  · cases h

theorem ofType_of_ok (context' : String) {type : Option String}
    (h : ofType context node type = .ok s) : ofType context' node type = .ok s := by
  rw [ofType.eq_def] at h ⊢
  split at h
  case h_1 => exact object?_of_ok context' h
  case h_2 =>
    split at h
    · exact h
    · cases h
  case h_8 => cases h
  case h_9 =>
    split at h
    next hproperties =>
      rw [if_pos hproperties]
      exact object?_of_ok context' h
    next => cases h
  all_goals exact h

theorem ofPlain_of_ok (context' : String) (h : ofPlain context node = .ok s) :
    ofPlain context' node = .ok s := by
  unfold ofPlain at h ⊢
  dsimp only at h ⊢
  split at h
  · cases h
  next hanyOf =>
    rw [if_neg hanyOf]
    split at h
    · cases h
    next hnot =>
      rw [if_neg hnot]
      obtain ⟨type, htype, h⟩ := bind_eq_ok_iff.1 h
      refine bind_eq_ok_iff.2 ⟨type, declaredType_of_ok context' htype, ?_⟩
      split_ifs at h ⊢
      · exact enum?_of_ok context' h
      · exact ofType_of_ok context' h

/-- A view in one place is the view in every other. -/
theorem classify_of_ok (context' : String) (h : classify context node = .ok s) :
    classify context' node = .ok s := by
  unfold classify at h ⊢
  split at h
  · cases h
  next hobject =>
    rw [if_neg hobject]
    split at h
    · exact h
    · cases h
    · obtain ⟨parts, hparts, rfl⟩ := map_eq_ok_iff.1 h
      exact map_eq_ok_iff.2 ⟨parts, nonEmptyList_of_ok context' hparts, rfl⟩
    · obtain ⟨arms, harms, rfl⟩ := map_eq_ok_iff.1 h
      exact map_eq_ok_iff.2 ⟨arms, nonEmptyList_of_ok context' harms, rfl⟩
    · exact ofPlain_of_ok context' h

/-- A node has one view, wherever it stands. -/
theorem classify_unique {context' : String} {s' : Schema} (h : classify context node = .ok s)
    (h' : classify context' node = .ok s') : s = s' :=
  Except.ok.inj ((classify_of_ok context' h).symm.trans h')

end OpenApiServer.Schema
