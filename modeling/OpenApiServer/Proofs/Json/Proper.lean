import OpenApiServer.Json.Reader
import OpenApiServer.Proofs.Data.Except
import OpenApiServer.Proofs.Json.Agree

/-!
# Proper values

A value that repeats no key agrees with itself under another order of its keys, unless there is a number
in it that is none: that equals nothing, not even itself. A proper value has no such number.

## Numbers that are read

No text of a number stands for a double that is none, so that a number that is read equals itself.
Rounding gives finite numbers or infinity, and a sign changes only the sign.
-/

namespace OpenApiServer

namespace Double

theorem biasedExponent_eq (x : Double) : x.biasedExponent = x.bits.toNat / 2 ^ 52 % 2 ^ 11 := by
  have hmask : (0x7ff : UInt64).toNat = 2 ^ 11 - 1 := rfl
  rw [biasedExponent, UInt64.toNat_and, UInt64.toNat_shiftRight, hmask,
    Nat.and_two_pow_sub_one_eq_mod, Nat.shiftRight_eq_div_pow]
  rfl

theorem fraction_eq (x : Double) : x.fraction = x.bits.toNat % 2 ^ 52 := by
  have hmask : (0xfffffffffffff : UInt64).toNat = 2 ^ 52 - 1 := rfl
  rw [fraction, UInt64.toNat_and, hmask, Nat.and_two_pow_sub_one_eq_mod]

theorem toNat_bits_neg (x : Double) : x.neg.bits.toNat = x.bits.toNat ^^^ 2 ^ 63 :=
  UInt64.toNat_xor ..

/-- The sign is no part of the exponent or of the fraction. -/
theorem isNaN_neg (x : Double) : x.neg.isNaN = x.isNaN := by
  have hexponent : x.neg.biasedExponent = x.biasedExponent := by
    rw [biasedExponent_eq, biasedExponent_eq, toNat_bits_neg, Nat.xor_div_two_pow,
      Nat.xor_mod_two_pow]
    exact Nat.xor_zero _
  have hfraction : x.neg.fraction = x.fraction := by
    rw [fraction_eq, fraction_eq, toNat_bits_neg, Nat.xor_mod_two_pow]
    exact Nat.xor_zero _
  rw [isNaN, isNaN, hexponent, hfraction]

theorem isNaN_withSign (negative : Bool) (x : Double) : (x.withSign negative).isNaN = x.isNaN := by
  rw [withSign]
  split
  · exact isNaN_neg x
  · rfl

/-- The bits of magnitudes stand in the order of the magnitudes, infinity last. -/
theorem isNaN_of_le {x : Double} (h : x.bits.toNat ≤ infinity.bits.toNat) : x.isNaN = false := by
  have hinfinity : infinity.bits.toNat = 2047 * 2 ^ 52 := rfl
  rw [isNaN, Bool.and_eq_false_iff, biasedExponent_eq, fraction_eq, beq_eq_false_iff_ne,
    bne_eq_false_iff_eq]
  omega

theorem isNaN_of_isFinite {x : Double} (h : x.isFinite = true) : x.isNaN = false := by
  rw [isFinite, bne_iff_ne] at h
  rw [isNaN, beq_false_of_ne h, Bool.false_and]

theorem isNaN_ofRatio (num den : Nat) : (ofRatio num den).isNaN = false := by
  have hround (code : Nat) :
      (if code < 0x7ff0000000000000 then ⟨UInt64.ofNat code⟩ else infinity : Double).isNaN = false := by
    split_ifs with hcode
    · refine isNaN_of_le ?_
      rw [UInt64.toNat_ofNat']
      exact Nat.le_trans (Nat.mod_le ..) (Nat.le_of_lt hcode)
    · exact isNaN_of_le (Nat.le_refl _)
  rw [ofRatio]
  split_ifs
  · rfl
  · exact hround _

theorem sameValue_self_iff {x : Double} : x.sameValue x = true ↔ x.isNaN = false := by
  simp [sameValue]

end Double

namespace Json

/-- Scaling keeps to numbers. -/
theorem isNaN_scaled {fuel : Nat} {x y : Double} {exponent : Int} (hx : x.isNaN = false)
    (h : scaled fuel x exponent = some y) : y.isNaN = false := by
  induction fuel generalizing x exponent with
  | zero =>
    obtain rfl := Option.some.inj h
    exact hx
  | succ fuel ih =>
    rw [scaled] at h
    dsimp only at h
    split_ifs at h with hsmall hup hfinite hzero
    · obtain rfl := Option.some.inj h
      exact Double.isNaN_ofRatio ..
    · obtain rfl := Option.some.inj h
      exact Double.isNaN_ofRatio ..
    · obtain rfl := Option.some.inj h
      exact hx
    · exact ih (Double.isNaN_ofRatio ..) h

section Readers

variable {negative : Bool} {significand : Nat} {exponent : Int} {cs rest : List Char} {n : Number}

theorem realOf_same (h : realOf negative significand exponent cs = .ok (n, rest)) :
    n.same n = true := by
  rw [realOf] at h
  split at h
  next x hscaled =>
    obtain rfl := (Prod.mk.inj (Except.ok.inj h)).1
    have hx := isNaN_scaled (Double.isNaN_ofRatio significand 1) hscaled
    exact Double.sameValue_self_iff.2 ((Double.isNaN_withSign negative x).trans hx)
  next => cases h

theorem readExponent_same (h : readExponent negative significand exponent cs = .ok (n, rest)) :
    n.same n = true := by
  unfold readExponent at h
  -- A sign in front changes the exponent, not what is read.
  split at h
  dsimp only at h
  split at h
  · cases h
  · split at h
    · cases h
    · split at h
      · split at h
        · cases h
        · obtain rfl := (Prod.mk.inj (Except.ok.inj h)).1
          exact Double.sameValue_self_iff.2 (Double.isNaN_withSign negative Double.zero)
      · exact realOf_same h

theorem readTail_same (h : readTail negative significand exponent cs = .ok (n, rest)) :
    n.same n = true := by
  unfold readTail at h
  split at h
  · split at h
    · exact readExponent_same h
    · exact realOf_same h
  · exact realOf_same h

theorem readDecimals_same (h : readDecimals negative significand exponent cs = .ok (n, rest)) :
    n.same n = true := by
  unfold readDecimals at h
  dsimp only at h
  split at h
  · exact readTail_same h
  · split at h
    · cases h
    · exact readTail_same h

theorem integerOf_same (negative : Bool) (value : Nat) :
    (integerOf negative value).same (integerOf negative value) = true := by
  rw [integerOf]
  split_ifs
  · exact beq_self_eq_true _
  · refine Double.sameValue_self_iff.2 ?_
    rw [Double.isNaN_neg]
    exact Double.isNaN_ofRatio ..
  · exact beq_self_eq_true _

/-- A number that is read equals itself. -/
theorem readNumber_same (h : readNumber negative cs = .ok (n, rest)) : n.same n = true := by
  unfold readNumber at h
  split at h
  · cases h
  · split at h
    · cases h
    · split at h
      · cases h
      · dsimp only at h
        split at h
        · exact readDecimals_same h
        all_goals
          split at h
          · exact readTail_same h
          · obtain rfl := (Prod.mk.inj (Except.ok.inj h)).1
            exact integerOf_same ..

end Readers

end Json

end OpenApiServer

/-! ## Values -/

namespace OpenApiServer.Json

variable {a b : Json}

/-- Whether a value repeats no key and equals itself. -/
structure Proper (a : Json) : Prop where
  keys : a.DistinctKeys
  same : a.same a = true

theorem same_arr_self_iff {items : List Json} :
    (arr items).same (arr items) = true ↔ ∀ j ∈ items, j.same j = true := by
  rw [Json.same, sameItems_iff, List.forall₂_same]

theorem same_obj_self_iff {fields : List (String × Json)} (hkeys : (fields.map (·.1)).Nodup) :
    (obj fields).same (obj fields) = true ↔ ∀ f ∈ fields, f.2.same f.2 = true := by
  rw [same_obj_iff, and_iff_right rfl]
  refine forall₂_congr fun f hf => ?_
  rw [fieldNamed?_of_mem hkeys hf]
  simp

theorem hereditary_proper : Hereditary Proper where
  arr _ h j hj := ⟨hereditary_distinctKeys.arr h.keys j hj, same_arr_self_iff.1 h.same j hj⟩
  obj _ h f hf :=
    ⟨hereditary_distinctKeys.obj h.keys f hf,
      (same_obj_self_iff (distinctKeys_obj_iff.1 h.keys).1).1 h.same f hf⟩

theorem proper_arr_iff {items : List Json} : (arr items).Proper ↔ ∀ j ∈ items, j.Proper := by
  constructor
  · exact fun h => hereditary_proper.arr h
  · exact fun heach =>
      ⟨.arr fun j hj => (heach j hj).keys, same_arr_self_iff.2 fun j hj => (heach j hj).same⟩

theorem proper_obj_iff {fields : List (String × Json)} :
    (obj fields).Proper ↔ (fields.map (·.1)).Nodup ∧ ∀ f ∈ fields, f.2.Proper := by
  constructor
  · exact fun h => ⟨(distinctKeys_obj_iff.1 h.keys).1, hereditary_proper.obj h⟩
  · rintro ⟨hkeys, heach⟩
    exact ⟨distinctKeys_obj_iff.2 ⟨hkeys, fun f hf => (heach f hf).keys⟩,
      (same_obj_self_iff hkeys).2 fun f hf => (heach f hf).same⟩

namespace Proper

/-- Proper values that agree are equal up to the order of fields. -/
theorem same_of_agrees (ha : a.Proper) (h : a.Agrees b) : a.same b = true := by
  rcases h with rfl | h
  · exact ha.same
  · exact h

/-- What a proper value equals equals itself. -/
theorem of_same (ha : a.Proper) (hb : b.DistinctKeys) (h : a.same b = true) : b.Proper :=
  ⟨hb, same_trans (same_symm ha.keys hb h) h⟩

theorem null : Json.null.Proper := ⟨.null, by rw [Json.same]⟩

theorem bool (value : Bool) : (Json.bool value).Proper :=
  ⟨.bool value, by rw [Json.same, beq_self_eq_true]⟩

theorem num {n : Number} (h : n.same n = true) : (Json.num n).Proper := ⟨.num n, by rwa [Json.same]⟩

theorem str (text : String) : (Json.str text).Proper :=
  ⟨.str text, by rw [Json.same, beq_self_eq_true]⟩

end Proper

end OpenApiServer.Json

/-!
## Values read from JSON are proper

What holds of every element that is read holds of the elements of a list, and what every entry
keeps up is kept up by an object. So the fields of an object have distinct keys at each entry, and numbers equal
themselves.
-/

namespace OpenApiServer.Json

theorem within_eq_ok_iff {α : Type} {step : Step} {x : Except Failure α} {a : α} :
    within step x = .ok a ↔ x = .ok a :=
  mapError_eq_ok_iff

section Containers

variable {α σ : Type}

theorem forall_elements {element : Reader α} {p : α → Prop}
    (hp : ∀ cs x rest, element cs = .ok (x, rest) → p x) {fuel index : Nat} {cs rest : List Char}
    {xs : List α} (h : elements element fuel index cs = .ok (xs, rest)) : ∀ x ∈ xs, p x := by
  induction fuel generalizing index cs xs rest with
  | zero => cases h
  | succ fuel ih =>
    obtain ⟨⟨x, left⟩, hx, h⟩ := bind_eq_ok_iff.1 h
    have hfirst := hp _ _ _ (within_eq_ok_iff.1 hx)
    dsimp only at h
    split at h
    · obtain rfl := (Prod.mk.inj (Except.ok.inj h)).1
      simpa using hfirst
    · split at h
      · cases h
      · cases h
      · obtain ⟨⟨later, last⟩, hlater, h⟩ := bind_eq_ok_iff.1 h
        obtain rfl := (Prod.mk.inj (Except.ok.inj h)).1
        exact List.forall_mem_cons.2 ⟨hfirst, ih hlater⟩
    · cases h
    · cases h

theorem forall_listBody {element : Reader α} {p : α → Prop}
    (hp : ∀ cs x rest, element cs = .ok (x, rest) → p x) {cs rest : List Char} {xs : List α}
    (h : listBody element cs = .ok (xs, rest)) : ∀ x ∈ xs, p x := by
  unfold listBody at h
  split at h
  · obtain rfl := (Prod.mk.inj (Except.ok.inj h)).1
    simp
  · cases h
  · exact forall_elements hp h

/-- What an entry keeps up holds after all entries. -/
theorem entries_keep {entry : σ → String → Reader σ} {inv : σ → Prop}
    (hkeep : ∀ state key cs state' rest, inv state → entry state key cs = .ok (state', rest) →
      inv state') {fuel : Nat} {state state' : σ} {cs rest : List Char} (hstart : inv state)
    (h : entries entry fuel state cs = .ok (state', rest)) : inv state' := by
  induction fuel generalizing state cs with
  | zero => cases h
  | succ fuel ih =>
    obtain ⟨⟨key, left⟩, -, h⟩ := bind_eq_ok_iff.1 h
    obtain ⟨⟨next, left'⟩, hentry, h⟩ := bind_eq_ok_iff.1 h
    have hnext := hkeep _ _ _ _ _ hstart hentry
    dsimp only at h
    split at h
    · obtain rfl := (Prod.mk.inj (Except.ok.inj h)).1
      exact hnext
    · split at h
      · exact ih hnext h
      · cases h
      · cases h
      · cases h
    · cases h
    · cases h

theorem objectBody_keeps {entry : σ → String → Reader σ} {inv : σ → Prop}
    (hkeep : ∀ state key cs state' rest, inv state → entry state key cs = .ok (state', rest) →
      inv state') {state state' : σ} {cs rest : List Char} (hstart : inv state)
    (h : objectBody entry state cs = .ok (state', rest)) : inv state' := by
  unfold objectBody at h
  split at h
  · obtain rfl := (Prod.mk.inj (Except.ok.inj h)).1
    exact hstart
  · exact entries_keep hkeep hstart h
  · cases h
  · cases h

end Containers

/-- The fields read so far. -/
def ProperFields (fields : List (String × Json)) : Prop :=
  (fields.map (·.1)).Nodup ∧ ∀ f ∈ fields, f.2.Proper

theorem ProperFields.insert {fields : List (String × Json)} (h : ProperFields fields)
    {key : String} {v : Json} (hv : v.Proper) :
    ProperFields (insertField key v fields) := by
  refine ⟨nodup_keys_insertField key v h.1, fun f hf => ?_⟩
  rcases mem_insertField hf with rfl | hold
  · exact hv
  · exact h.2 f hold

theorem valueEntry_keeps {value : Reader Json}
    (hvalue : ∀ cs v rest, value cs = .ok (v, rest) → v.Proper)
    {fields fields' : List (String × Json)} {key : String} {cs rest : List Char}
    (hfields : ProperFields fields) (h : valueEntry value fields key cs = .ok (fields', rest)) :
    ProperFields fields' := by
  obtain ⟨after, -, h⟩ := bind_eq_ok_iff.1 (within_eq_ok_iff.1 h)
  obtain ⟨⟨v, left⟩, hv, h⟩ := bind_eq_ok_iff.1 h
  obtain rfl := (Prod.mk.inj (Except.ok.inj h)).1
  exact hfields.insert (hvalue _ _ _ hv)

theorem value_proper {depth : Nat} {cs rest : List Char} {v : Json}
    (h : value depth cs = .ok (v, rest)) : v.Proper := by
  induction depth using Nat.strongRecOn generalizing cs v rest with
  | ind depth ih =>
    unfold value at h
    split at h
    · cases h
    · obtain ⟨_, -, h⟩ := bind_eq_ok_iff.1 h
      obtain rfl := (Prod.mk.inj (Except.ok.inj h)).1
      exact .null
    · obtain ⟨_, -, h⟩ := bind_eq_ok_iff.1 h
      obtain rfl := (Prod.mk.inj (Except.ok.inj h)).1
      exact .bool true
    · obtain ⟨_, -, h⟩ := bind_eq_ok_iff.1 h
      obtain rfl := (Prod.mk.inj (Except.ok.inj h)).1
      exact .bool false
    · obtain ⟨⟨s, left⟩, -, h⟩ := bind_eq_ok_iff.1 h
      obtain rfl := (Prod.mk.inj (Except.ok.inj h)).1
      exact .str s
    · split at h
      · cases h
      next depth =>
        obtain ⟨⟨items, left⟩, hitems, h⟩ := bind_eq_ok_iff.1 h
        obtain rfl := (Prod.mk.inj (Except.ok.inj h)).1
        exact proper_arr_iff.2 (forall_listBody (fun _ _ _ hj => ih depth (Nat.lt_succ_self _) hj) hitems)
    · split at h
      · cases h
      next depth =>
        obtain ⟨⟨fields, left⟩, hfields, h⟩ := bind_eq_ok_iff.1 h
        obtain rfl := (Prod.mk.inj (Except.ok.inj h)).1
        have hbelow : ∀ cs v rest, value depth cs = .ok (v, rest) → v.Proper :=
          fun _ _ _ hj => ih depth (Nat.lt_succ_self _) hj
        have hproper : ProperFields fields :=
          objectBody_keeps (fun _ _ _ _ _ => valueEntry_keeps hbelow) ⟨by simp, by simp⟩ hfields
        exact proper_obj_iff.2 hproper
    · obtain ⟨⟨n, left⟩, hn, h⟩ := bind_eq_ok_iff.1 h
      obtain rfl := (Prod.mk.inj (Except.ok.inj h)).1
      exact .num (readNumber_same hn)
    · split at h
      · obtain ⟨⟨n, left⟩, hn, h⟩ := bind_eq_ok_iff.1 h
        obtain rfl := (Prod.mk.inj (Except.ok.inj h)).1
        exact .num (readNumber_same hn)
      · cases h

theorem parse_proper {cs : List Char} {v : Json} (h : parse cs = .ok v) :
    v.Proper := by
  obtain ⟨⟨w, rest⟩, hvalue, h⟩ := bind_eq_ok_iff.1 h
  dsimp only at h
  split at h
  · obtain rfl := Except.ok.inj h
    exact value_proper hvalue
  · cases h

end OpenApiServer.Json
