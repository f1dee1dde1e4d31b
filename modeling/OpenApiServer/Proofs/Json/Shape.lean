import OpenApiServer.Json.Shape
import OpenApiServer.Proofs.Json.Proper

/-!
# Records that have been read

A record is read from an object or, field by field, from a list. In both forms each value that was
found was read by the shape of a field with its key, and no field that has to be there is missing.
-/

namespace OpenApiServer.Json

theorem failAt_ne_ok {α : Type} {fault : Fault} {rest : List Char} {a : α} :
    failAt fault rest ≠ .ok a := nofun

theorem failOn_ne_ok {α : Type} {fault : Fault} {rest : List Char} {a : α} :
    failOn fault rest ≠ .ok a := nofun

theorem wrongType_ne_ok {α : Type} {expected : String} {cs : List Char} {a : α} :
    wrongType expected cs ≠ .ok a := by
  intro h
  unfold wrongType at h
  split at h
  · exact failOn_ne_ok h
  iterate 3
    · obtain ⟨_, -, h⟩ := bind_eq_ok_iff.1 h
      exact failAt_ne_ok h
  · obtain ⟨⟨s, rest⟩, -, h⟩ := bind_eq_ok_iff.1 h
    exact failAt_ne_ok h
  · exact failAt_ne_ok h
  · exact failAt_ne_ok h
  · obtain ⟨⟨n, rest⟩, -, h⟩ := bind_eq_ok_iff.1 h
    exact failAt_ne_ok h
  · split at h
    · obtain ⟨⟨n, rest⟩, -, h⟩ := bind_eq_ok_iff.1 h
      exact failAt_ne_ok h
    · exact failOn_ne_ok h

namespace Shape

/-- The value was read by the shape of a field with its key. -/
def ReadAs (fields : List (String × Shape)) (f : String × Json) : Prop :=
  ∃ shape depth cs rest, (f.1, shape) ∈ fields ∧ read shape depth cs = .ok (f.2, rest)

theorem ReadAs.cons {field : String × Shape} {fields : List (String × Shape)} {f : String × Json}
    (hf : ReadAs fields f) : ReadAs (field :: fields) f := by
  obtain ⟨shape, depth, cs, rest, hmem, hread⟩ := hf
  exact ⟨shape, depth, cs, rest, List.mem_cons_of_mem _ hmem, hread⟩

/-- Every field that has to be there was found. -/
def Complete (found : List (String × Json)) (fields : List (String × Shape)) : Prop :=
  ∀ field ∈ fields, field.2.isOptional = false → ∃ v, fieldNamed? field.1 found = some v

theorem str_of_read_text {depth : Nat} {cs rest : List Char} {v : Json}
    (h : read .text depth cs = .ok (v, rest)) : ∃ s, v = .str s := by
  rw [read] at h
  split at h
  · obtain ⟨⟨s, left⟩, -, h⟩ := bind_eq_ok_iff.1 h
    exact ⟨s, (Prod.mk.inj (Except.ok.inj h)).1.symm⟩
  · exact absurd h wrongType_ne_ok

theorem fieldReader?_eq_some {fields : List (String × Shape)} {depth : Nat} {key : String}
    {reader : Reader Json} (h : fieldReader? fields depth key = some reader) :
    ∃ shape, (key, shape) ∈ fields ∧ reader = read shape depth := by
  induction fields with
  | nil => cases h
  | cons field rest ih =>
    rw [fieldReader?] at h
    split at h
    next hkey =>
      refine ⟨field.2, ?_, (Option.some.inj h).symm.trans (funext fun cs => ?_)⟩
      · rw [← hkey]
        exact List.mem_cons_self ..
      · rw [readField]
    next =>
      obtain ⟨shape, hmem, hreader⟩ := ih h
      exact ⟨shape, List.mem_cons_of_mem _ hmem, hreader⟩

theorem recordEntry_keeps {fields : List (String × Shape)} {depth : Nat}
    {found found' : List (String × Json)} {key : String} {cs rest : List Char}
    (hfound : ∀ f ∈ found, ReadAs fields f)
    (h : recordEntry (fieldReader? fields depth) found key cs = .ok (found', rest)) :
    ∀ f ∈ found', ReadAs fields f := by
  unfold recordEntry at h
  split at h
  · obtain ⟨after, -, h⟩ := bind_eq_ok_iff.1 (within_eq_ok_iff.1 h)
    obtain ⟨left, -, h⟩ := bind_eq_ok_iff.1 h
    obtain rfl := (Prod.mk.inj (Except.ok.inj h)).1
    exact hfound
  next reader hreader =>
    obtain ⟨shape, hmem, rfl⟩ := fieldReader?_eq_some hreader
    split at h
    · cases h
    · obtain ⟨after, -, h⟩ := bind_eq_ok_iff.1 (within_eq_ok_iff.1 h)
      obtain ⟨⟨v, left⟩, hv, h⟩ := bind_eq_ok_iff.1 h
      obtain rfl := (Prod.mk.inj (Except.ok.inj h)).1
      intro f hf
      rcases List.mem_append.1 hf with hold | hnew
      · exact hfound f hold
      · obtain rfl := List.mem_singleton.1 hnew
        exact ⟨shape, depth, after, left, hmem, hv⟩

theorem firstMissing_eq_none_iff {found : List (String × Json)} {fields : List (String × Shape)} :
    firstMissing found fields = none ↔ Complete found fields := by
  unfold Complete
  induction fields with
  | nil => simp [firstMissing]
  | cons field rest ih =>
    obtain ⟨name, shape⟩ := field
    rw [firstMissing, List.forall_mem_cons, ← ih]
    cases hopt : shape.isOptional with
    | true => simp
    | false => cases hfound : fieldNamed? name found <;> simp

/-- What a list gives for the fields of a record. -/
theorem readInOrder_complete {fields : List (String × Shape)} {depth index : Nat}
    {expected : String} {cs rest : List Char} {found : List (String × Json)}
    (h : readInOrder fields depth expected index cs = .ok (found, rest)) :
    (∀ f ∈ found, ReadAs fields f) ∧ Complete found fields := by
  induction fields generalizing index cs found rest with
  | nil =>
    rw [readInOrder] at h
    obtain rfl := (Prod.mk.inj (Except.ok.inj h)).1
    exact ⟨nofun, nofun⟩
  | cons field others ih =>
    rw [readInOrder] at h
    obtain ⟨next, -, h⟩ := bind_eq_ok_iff.1 h
    dsimp only at h
    split at h
    · split at h
      next hopt =>
        obtain ⟨hread, hcomplete⟩ := ih h
        refine ⟨fun f hf => (hread f hf).cons, List.forall_mem_cons.2 ⟨?_, hcomplete⟩⟩
        simp [hopt]
      next => exact absurd h failAt_ne_ok
    · obtain ⟨⟨v, after⟩, hv, h⟩ := bind_eq_ok_iff.1 h
      obtain ⟨⟨later, last⟩, hlater, h⟩ := bind_eq_ok_iff.1 h
      obtain rfl := (Prod.mk.inj (Except.ok.inj h)).1
      obtain ⟨hread, hcomplete⟩ := ih hlater
      rw [readField] at hv
      constructor
      · refine List.forall_mem_cons.2 ⟨?_, fun f hf => (hread f hf).cons⟩
        exact ⟨field.2, depth, next, after, List.mem_cons_self .., within_eq_ok_iff.1 hv⟩
      · have hfirst : fieldNamed? field.1 ((field.1, v) :: later) = some v := by simp [fieldNamed?]
        refine List.forall_mem_cons.2 ⟨fun _ => ⟨v, hfirst⟩, fun other hother hreq => ?_⟩
        obtain ⟨w, hw⟩ := hcomplete other hother hreq
        by_cases hkey : field.1 = other.1
        · exact ⟨v, by simp [fieldNamed?, hkey]⟩
        · exact ⟨w, by simp [fieldNamed?, hkey, hw]⟩

/-- What a record that has been read consists of. -/
theorem read_record {name : String} {fields : List (String × Shape)} {depth : Nat}
    {cs rest : List Char} {v : Json} (h : read (.record name fields) depth cs = .ok (v, rest)) :
    ∃ found, v = .obj (arrange found fields) ∧ (∀ f ∈ found, ReadAs fields f) ∧
      Complete found fields := by
  rw [read.eq_def] at h
  dsimp only at h
  split at h
  · exact absurd h failOn_ne_ok
  · exact absurd h failOn_ne_ok
  · obtain ⟨⟨found, left⟩, hfound, h⟩ := bind_eq_ok_iff.1 h
    dsimp only at h
    split at h
    · exact absurd h failAt_ne_ok
    next hnone =>
      have hread : ∀ f ∈ found, ReadAs fields f :=
        objectBody_keeps (fun _ _ _ _ _ => recordEntry_keeps) (by simp) hfound
      obtain rfl := (Prod.mk.inj (Except.ok.inj h)).1
      exact ⟨found, rfl, hread, firstMissing_eq_none_iff.1 hnone⟩
  · obtain ⟨⟨found, left⟩, hfound, h⟩ := bind_eq_ok_iff.1 h
    obtain ⟨last, -, h⟩ := bind_eq_ok_iff.1 h
    exact ⟨found, (Prod.mk.inj (Except.ok.inj h)).1.symm, readInOrder_complete hfound⟩
  · exact absurd h wrongType_ne_ok

end Shape

end OpenApiServer.Json
