import OpenApiServer.Document.Source
import OpenApiServer.Proofs.Json.Proper
import OpenApiServer.Yaml.Value

/-!
# What is read is proper

Whatever its format, the text of a document gives a value whose objects have distinct keys and whose
numbers equal themselves.

## Values read from YAML are proper

The three readers of a document call each other, so the claim about all three is proved at once,
by induction on their fuel.
-/

namespace OpenApiServer.Yaml

namespace Core

theorem integerValue?_proper {cs : List Char} {read : Except Mismatch Json} {v : Json}
    (h : integerValue? cs = some read) (hv : read = .ok v) : v.Proper := by
  subst hv
  unfold integerValue? at h
  split at h
  · cases h
  · split_ifs at h
    · obtain rfl := Except.ok.inj (Option.some.inj h)
      exact .num (beq_self_eq_true _)
    · cases h

theorem realValue?_proper {s : String} {v : Json} (h : realValue? s = some v) :
    v.Proper := by
  unfold realValue? at h
  dsimp only at h
  -- A sign in front changes what is looked at, not what is answered.
  split at h
  all_goals
    split_ifs at h
    · obtain rfl := Option.some.inj h
      exact .null
    · split at h
      · split_ifs at h with hfinite
        obtain rfl := Option.some.inj h
        exact .num (Double.sameValue_self_iff.2 (Double.isNaN_of_isFinite hfinite))
      · cases h

theorem plainValue_proper {s : String} {v : Json} (h : plainValue s = .ok v) :
    v.Proper := by
  unfold plainValue at h
  split at h
  · obtain rfl := Except.ok.inj h
    exact .null
  · split at h
    · obtain rfl := Except.ok.inj h
      exact .bool _
    · split at h
      next hread => exact integerValue?_proper hread h
      · split_ifs at h
        · obtain rfl := Except.ok.inj h
          exact .str s
        · obtain rfl := Except.ok.inj h
          cases hreal : realValue? s with
          | none => exact .str s
          | some v => exact realValue?_proper hreal

theorem value_proper {tag : Option Tag.Resolved} {s : String} {plain : Bool} {v : Json}
    (h : value tag s plain = .ok v) : v.Proper := by
  unfold value at h
  split at h
  · split_ifs at h
    · exact plainValue_proper h
    · obtain rfl := Except.ok.inj h
      exact .str s
  · split_ifs at h
    · split at h
      · obtain rfl := Except.ok.inj h
        exact .bool _
      · cases h
    · cases hread : integerValue? s.toList with
      | none => simp [hread] at h
      | some read => exact integerValue?_proper hread (by simpa [hread] using h)
    · split at h
      next hreal =>
        obtain rfl := Except.ok.inj h
        exact realValue?_proper hreal
      · cases h
    · obtain rfl := Except.ok.inj h
      exact .null
    · obtain rfl := Except.ok.inj h
      exact .str s

end Core

namespace Document

variable {d : Document}

/-- The claim about the three readers at some fuel. -/
structure ProperAt (d : Document) (fuel : Nat) : Prop where
  value : ∀ {w p v q}, d.value fuel w p = .ok (v, q) → v.Proper
  items : ∀ {w i p items q}, d.items fuel w i p = .ok (items, q) → ∀ j ∈ items, j.Proper
  fields : ∀ {w done p fields q}, Json.ProperFields done →
    d.fields fuel w done p = .ok (fields, q) → Json.ProperFields fields

namespace ProperAt

variable {fuel : Nat} (ih : d.ProperAt fuel)

include ih

theorem value_succ {w p v q} (h : d.value (fuel + 1) w p = .ok (v, q)) : v.Proper := by
  obtain ⟨⟨part, mark⟩, -, h⟩ := bind_eq_ok_iff.1 h
  cases part with
  | «alias» number =>
    obtain ⟨⟨target, followed⟩, -, h⟩ := bind_eq_ok_iff.1 h
    obtain ⟨⟨v', q'⟩, hvalue, h⟩ := bind_eq_ok_iff.1 h
    obtain rfl := (Prod.mk.inj (Except.ok.inj h)).1
    exact ih.value hvalue
  | scalar tag text plain =>
    obtain ⟨⟨⟩, -, h⟩ := bind_eq_ok_iff.1 h
    split at h
    next hscalar =>
      obtain rfl := (Prod.mk.inj (Except.ok.inj h)).1
      exact Core.value_proper hscalar
    · cases h
  | sequenceStart tag =>
    obtain ⟨⟨⟩, -, h⟩ := bind_eq_ok_iff.1 h
    dsimp only at h
    split_ifs at h
    · cases h
    · obtain ⟨⟨items, p'⟩, hitems, h⟩ := bind_eq_ok_iff.1 h
      obtain rfl := (Prod.mk.inj (Except.ok.inj h)).1
      exact Json.proper_arr_iff.2 (ih.items hitems)
  | mappingStart tag =>
    obtain ⟨⟨⟩, -, h⟩ := bind_eq_ok_iff.1 h
    dsimp only at h
    split_ifs at h
    · cases h
    · obtain ⟨⟨fields, p'⟩, hfields, h⟩ := bind_eq_ok_iff.1 h
      obtain rfl := (Prod.mk.inj (Except.ok.inj h)).1
      have hproper := ih.fields ⟨by simp, by simp⟩ hfields
      exact Json.proper_obj_iff.2 hproper
  | _ => cases h

theorem items_succ {w i p items q} (h : d.items (fuel + 1) w i p = .ok (items, q)) :
    ∀ j ∈ items, j.Proper := by
  obtain ⟨⟨part, mark⟩, -, h⟩ := bind_eq_ok_iff.1 h
  dsimp only at h
  split at h
  · obtain rfl := (Prod.mk.inj (Except.ok.inj h)).1
    simp
  · obtain ⟨⟨v, p'⟩, hvalue, h⟩ := bind_eq_ok_iff.1 h
    obtain ⟨⟨later, p''⟩, hitems, h⟩ := bind_eq_ok_iff.1 h
    obtain rfl := (Prod.mk.inj (Except.ok.inj h)).1
    exact List.forall_mem_cons.2 ⟨ih.value hvalue, ih.items hitems⟩

theorem fields_succ {w done p fields q} (hdone : Json.ProperFields done)
    (h : d.fields (fuel + 1) w done p = .ok (fields, q)) : Json.ProperFields fields := by
  obtain ⟨⟨part, mark⟩, -, h⟩ := bind_eq_ok_iff.1 h
  dsimp only at h
  split at h
  · obtain rfl := (Prod.mk.inj (Except.ok.inj h)).1
    exact hdone
  · obtain ⟨⟨name, step, p'⟩, -, h⟩ := bind_eq_ok_iff.1 h
    obtain ⟨⟨v, p''⟩, hvalue, h⟩ := bind_eq_ok_iff.1 h
    exact ih.fields (hdone.insert (ih.value hvalue)) h

end ProperAt

theorem properAt (d : Document) (fuel : Nat) : d.ProperAt fuel := by
  induction fuel with
  | zero => exact ⟨nofun, nofun, fun _ => nofun⟩
  | succ fuel ih => exact ⟨ih.value_succ, ih.items_succ, ih.fields_succ⟩

theorem toJson_proper {v : Json} (h : d.toJson = .ok v) : v.Proper := by
  unfold toJson at h
  split at h
  · obtain rfl := Except.ok.inj h
    exact .null
  · cases h
  · obtain ⟨⟨w, q⟩, hvalue, h⟩ := bind_eq_ok_iff.1 h
    dsimp only at h
    split at h
    · cases h
    · obtain rfl := Except.ok.inj h
      exact (d.properAt _).value hvalue

end Document

theorem parse_proper {cs : List Char} {v : Json} (h : parse cs = .ok v) :
    v.Proper := by
  unfold parse at h
  obtain ⟨value, hvalue, h⟩ := bind_eq_ok_iff.1 h
  split_ifs at h
  obtain rfl := Except.ok.inj h
  exact Document.toJson_proper hvalue

end OpenApiServer.Yaml

/-! ## Documents -/

namespace OpenApiServer.Source

theorem read_proper {s : Source} {j : Json} (h : s.read = .ok j) : j.Proper := by
  unfold read at h
  split at h
  · cases hparse : Json.parse s.text.toList with
    | error e => simp [hparse, Except.mapError] at h
    | ok v =>
      obtain rfl : v = j := by simpa [hparse, Except.mapError] using h
      exact Json.parse_proper hparse
  · cases hparse : Yaml.parse s.text.toList with
    | error e => simp [hparse, Except.mapError] at h
    | ok v =>
      obtain rfl : v = j := by simpa [hparse, Except.mapError] using h
      exact Yaml.parse_proper hparse

theorem read_distinctKeys {s : Source} {j : Json} (h : s.read = .ok j) : j.DistinctKeys :=
  (read_proper h).keys

end OpenApiServer.Source
