import OpenApiServer.Text.Utf8
import OpenApiServer.Proofs.Data.Except

/-!
# Decoding is the inverse of encoding

A scan finds a character exactly where its encoding stands, so bytes are decoded to a text exactly
if they are what that text is encoded to.
-/

namespace OpenApiServer.Utf8

section Bytes

variable {a b : UInt8}

theorem toNat_and_mask (b : UInt8) (k : Nat) (hk : k < 8) :
    (b &&& UInt8.ofNat (Nat.pow 2 k - 1)).toNat = b.toNat % Nat.pow 2 k := by
  have hsmall : Nat.pow 2 k - 1 < Nat.pow 2 8 :=
    Nat.lt_of_le_of_lt (Nat.sub_le ..) (Nat.pow_lt_pow_right (by decide) hk)
  rw [UInt8.toNat_and, UInt8.toNat_ofNat_of_lt' hsmall]
  exact Nat.and_two_pow_sub_one_eq_mod b.toNat k

theorem payload_eq (b : UInt8) : payload b = b.toNat % 64 := toNat_and_mask b 6 (by decide)

theorem lead_eq_two (a : UInt8) : (a &&& 0x1f).toNat = a.toNat % 32 :=
  toNat_and_mask a 5 (by decide)

theorem lead_eq_three (a : UInt8) : (a &&& 0x0f).toNat = a.toNat % 16 :=
  toNat_and_mask a 4 (by decide)

theorem lead_eq_four (a : UInt8) : (a &&& 0x07).toNat = a.toNat % 8 :=
  toNat_and_mask a 3 (by decide)

theorem leadsOne_iff : a < 0x80 ↔ a.toNat ≤ 0x7f := UInt8.lt_iff_toNat_lt.trans Nat.lt_succ_iff

theorem leadsTwo_iff :
    (decide (0xc2 ≤ a) && decide (a ≤ 0xdf)) = true ↔ 0xc2 ≤ a.toNat ∧ a.toNat ≤ 0xdf := by
  simp [UInt8.le_iff_toNat_le]

theorem leadsThree_iff :
    (decide (0xe0 ≤ a) && decide (a ≤ 0xef)) = true ↔ 0xe0 ≤ a.toNat ∧ a.toNat ≤ 0xef := by
  simp [UInt8.le_iff_toNat_le]

theorem leadsFour_iff :
    (decide (0xf0 ≤ a) && decide (a ≤ 0xf4)) = true ↔ 0xf0 ≤ a.toNat ∧ a.toNat ≤ 0xf4 := by
  simp [UInt8.le_iff_toNat_le]

theorem isContinuation_iff : isContinuation b = true ↔ 0x80 ≤ b.toNat ∧ b.toNat ≤ 0xbf := by
  simp [isContinuation, UInt8.le_iff_toNat_le]

/-- Four of the first bytes ask for more than a continuation. -/
theorem followsFirst_iff : followsFirst a b = true ↔
    (0x80 ≤ b.toNat ∧ b.toNat ≤ 0xbf) ∧ (a.toNat = 0xe0 → 0xa0 ≤ b.toNat) ∧
      (a.toNat = 0xed → b.toNat ≤ 0x9f) ∧ (a.toNat = 0xf0 → 0x90 ≤ b.toNat) ∧
      (a.toNat = 0xf4 → b.toNat ≤ 0x8f) := by
  simp only [followsFirst, secondRange, ← UInt8.toNat_inj, Bool.and_eq_true, decide_eq_true_eq,
    UInt8.le_iff_toNat_le]
  repeat' split
  all_goals simp_all
  all_goals omega

theorem toNat_byte {n : Nat} (h : n < 256) : (UInt8.ofNat n).toNat = n :=
  UInt8.toNat_ofNat_of_lt' h

theorem ofNat_eq {n : Nat} (h : n = b.toNat) : UInt8.ofNat n = b := by
  rw [h, UInt8.ofNat_toNat]

end Bytes

theorem toNat_ofNat {v : Nat} (h : v.isValidChar) : (Char.ofNat v).val.toNat = v := by
  rw [Char.ofNat, dif_pos h]
  rfl

/-- The byte sequences of one character, each with the number of the character. -/
inductive Sequence : List UInt8 → Nat → Prop
  | one {a : UInt8} (ha : a.toNat ≤ 0x7f) : Sequence [a] a.toNat
  | two {a b : UInt8} (ha : 0xc2 ≤ a.toNat ∧ a.toNat ≤ 0xdf) (hb : isContinuation b = true) :
      Sequence [a, b] (a.toNat % 32 * 64 + b.toNat % 64)
  | three {a b c : UInt8} (ha : 0xe0 ≤ a.toNat ∧ a.toNat ≤ 0xef) (hb : followsFirst a b = true)
      (hc : isContinuation c = true) :
      Sequence [a, b, c] (a.toNat % 16 * 4096 + b.toNat % 64 * 64 + c.toNat % 64)
  | four {a b c d : UInt8} (ha : 0xf0 ≤ a.toNat ∧ a.toNat ≤ 0xf4) (hb : followsFirst a b = true)
      (hc : isContinuation c = true) (hd : isContinuation d = true) :
      Sequence [a, b, c, d]
        (a.toNat % 8 * 262144 + b.toNat % 64 * 4096 + c.toNat % 64 * 64 + d.toNat % 64)

namespace Sequence

variable {bytes rest : List UInt8} {v : Nat}

theorem of_eq {w : Nat} (h : Sequence bytes v) (hv : v = w) : Sequence bytes w := hv ▸ h

theorem isValidChar (h : Sequence bytes v) : v.isValidChar := by
  unfold Nat.isValidChar
  cases h with
  | one ha => omega
  | two ha hb =>
    rw [isContinuation_iff] at hb
    omega
  | three ha hb hc =>
    rw [followsFirst_iff] at hb
    rw [isContinuation_iff] at hc
    omega
  | four ha hb hc hd =>
    rw [followsFirst_iff] at hb
    rw [isContinuation_iff] at hc hd
    omega

theorem encode (h : Sequence bytes v) : String.utf8EncodeChar (Char.ofNat v) = bytes := by
  rw [String.utf8EncodeChar, toNat_ofNat h.isValidChar]
  cases h with
  | one ha => rw [if_pos ha, UInt8.ofNat_toNat]
  | @two a b ha hb =>
    rw [isContinuation_iff] at hb
    rw [if_neg (by omega), if_pos (by omega), ofNat_eq (b := a) (by omega),
      ofNat_eq (b := b) (by omega)]
  | @three a b c ha hb hc =>
    rw [followsFirst_iff] at hb
    rw [isContinuation_iff] at hc
    rw [if_neg (by omega), if_neg (by omega), if_pos (by omega), ofNat_eq (b := a) (by omega),
      ofNat_eq (b := b) (by omega), ofNat_eq (b := c) (by omega)]
  | @four a b c d ha hb hc hd =>
    rw [followsFirst_iff] at hb
    rw [isContinuation_iff] at hc hd
    rw [if_neg (by omega), if_neg (by omega), if_neg (by omega), ofNat_eq (b := a) (by omega),
      ofNat_eq (b := b) (by omega), ofNat_eq (b := c) (by omega), ofNat_eq (b := d) (by omega)]

theorem scan (h : Sequence bytes v) :
    scan (bytes ++ rest) = .char (Char.ofNat v) bytes.length := by
  cases h with
  | one ha =>
    rw [List.cons_append, Utf8.scan.eq_def]
    dsimp only
    rw [if_pos (leadsOne_iff.2 ha)]
    rfl
  | two ha hb =>
    rw [List.cons_append, Utf8.scan.eq_def]
    dsimp only
    rw [if_neg (mt leadsOne_iff.1 (by omega)),
      if_pos (leadsTwo_iff.2 ha), ← lead_eq_two, ← payload_eq]
    simp [hb]
  | three ha hb hc =>
    rw [List.cons_append, Utf8.scan.eq_def]
    dsimp only
    rw [if_neg (mt leadsOne_iff.1 (by omega)),
      if_neg (mt leadsTwo_iff.1 (by omega)), if_pos (leadsThree_iff.2 ha), ← lead_eq_three,
      ← payload_eq, ← payload_eq]
    simp [hb, hc]
  | four ha hb hc hd =>
    rw [List.cons_append, Utf8.scan.eq_def]
    dsimp only
    rw [if_neg (mt leadsOne_iff.1 (by omega)),
      if_neg (mt leadsTwo_iff.1 (by omega)), if_neg (mt leadsThree_iff.1 (by omega)),
      if_pos (leadsFour_iff.2 ha), ← lead_eq_four, ← payload_eq, ← payload_eq, ← payload_eq]
    simp [hb, hc, hd]

end Sequence

theorem exists_sequence {bytes : List UInt8} {c : Char} {n : Nat} (h : scan bytes = .char c n) :
    ∃ seq v rest, Sequence seq v ∧ c = Char.ofNat v ∧ bytes = seq ++ rest ∧ n = seq.length := by
  unfold scan at h
  split at h
  · cases h
  next a rest =>
    split at h
    next ha =>
      obtain ⟨rfl, rfl⟩ := Scan.char.inj h
      exact ⟨[a], _, rest, .one (leadsOne_iff.1 ha), rfl, rfl, rfl⟩
    split at h
    next ha =>
      split at h
      · cases h
      next b rest =>
        split at h
        next hb =>
          obtain ⟨rfl, rfl⟩ := Scan.char.inj h
          rw [lead_eq_two, payload_eq]
          exact ⟨[a, b], _, rest, .two (leadsTwo_iff.1 ha) hb, rfl, rfl, rfl⟩
        · cases h
    split at h
    next ha =>
      split at h
      · cases h
      next b rest =>
        split at h
        · cases h
        next hb =>
          split at h
          · cases h
          next c rest =>
            split at h
            next hc =>
              obtain ⟨rfl, rfl⟩ := Scan.char.inj h
              rw [lead_eq_three, payload_eq, payload_eq]
              exact ⟨[a, b, c], _, rest, .three (leadsThree_iff.1 ha) (by simpa using hb) hc, rfl,
                rfl, rfl⟩
            · cases h
    split at h
    next ha =>
      split at h
      · cases h
      next b rest =>
        split at h
        · cases h
        next hb =>
          split at h
          · cases h
          next c rest =>
            split at h
            · cases h
            next hc =>
              split at h
              · cases h
              next d rest =>
                split at h
                next hd =>
                  obtain ⟨rfl, rfl⟩ := Scan.char.inj h
                  rw [lead_eq_four, payload_eq, payload_eq, payload_eq]
                  exact ⟨[a, b, c, d], _, rest, .four (leadsFour_iff.1 ha) (by simpa using hb)
                    (by simpa using hc) hd, rfl, rfl, rfl⟩
                · cases h
    · cases h

theorem sequence_encode (c : Char) : Sequence (String.utf8EncodeChar c) c.toNat := by
  have hvalid : c.toNat.isValidChar := c.valid
  unfold Nat.isValidChar at hvalid
  fun_cases String.utf8EncodeChar c with
  | case1 v hone =>
    have hv : v = c.toNat := rfl
    have ha := toNat_byte (n := v) (by omega)
    exact (Sequence.one (by omega)).of_eq (by omega)
  | case2 v hone htwo =>
    have hv : v = c.toNat := rfl
    have ha := toNat_byte (n := v / 64 % 32 + 192) (by omega)
    have hb := toNat_byte (n := v % 64 + 128) (by omega)
    exact (Sequence.two (by omega) (isContinuation_iff.2 (by omega))).of_eq (by omega)
  | case3 v hone htwo hthree =>
    have hv : v = c.toNat := rfl
    have ha := toNat_byte (n := v / 4096 % 16 + 224) (by omega)
    have hb := toNat_byte (n := v / 64 % 64 + 128) (by omega)
    have hc := toNat_byte (n := v % 64 + 128) (by omega)
    exact (Sequence.three (by omega) (followsFirst_iff.2 (by omega))
      (isContinuation_iff.2 (by omega))).of_eq (by omega)
  | case4 v hone htwo hthree =>
    have hv : v = c.toNat := rfl
    have ha := toNat_byte (n := v / 262144 % 8 + 240) (by omega)
    have hb := toNat_byte (n := v / 4096 % 64 + 128) (by omega)
    have hc := toNat_byte (n := v / 64 % 64 + 128) (by omega)
    have hd := toNat_byte (n := v % 64 + 128) (by omega)
    exact (Sequence.four (by omega) (followsFirst_iff.2 (by omega))
      (isContinuation_iff.2 (by omega)) (isContinuation_iff.2 (by omega))).of_eq (by omega)

/-- A scan finds a character where its encoding stands, and nowhere else. -/
theorem scan_eq_char_iff {bytes : List UInt8} {c : Char} {n : Nat} :
    scan bytes = .char c n ↔
      ∃ rest, bytes = String.utf8EncodeChar c ++ rest ∧ n = (String.utf8EncodeChar c).length := by
  constructor
  · intro h
    obtain ⟨seq, v, rest, hseq, rfl, rfl, rfl⟩ := exists_sequence h
    rw [hseq.encode]
    exact ⟨rest, rfl, rfl⟩
  · rintro ⟨rest, rfl, rfl⟩
    rw [(sequence_encode c).scan, Char.ofNat_toNat]

/-! ## Whole texts -/

@[simp] theorem encode_nil : encode [] = [] := rfl

@[simp] theorem encode_cons (c : Char) (cs : List Char) :
    encode (c :: cs) = String.utf8EncodeChar c ++ encode cs := rfl

theorem encode_eq_nil_iff {text : List Char} : encode text = [] ↔ text = [] := by
  cases text with
  | nil => simp
  | cons c cs => simp [String.utf8EncodeChar_ne_nil]

theorem decodeFrom_sound {fuel index : Nat} {bytes : List UInt8} {text : List Char}
    (hfuel : bytes.length ≤ fuel) (h : decodeFrom index fuel bytes = .ok text) :
    bytes = encode text := by
  induction fuel generalizing index bytes text with
  | zero =>
    obtain rfl := List.length_eq_zero_iff.1 (Nat.le_zero.1 hfuel)
    obtain rfl := Except.ok.inj h
    rfl
  | succ fuel ih =>
    cases bytes with
    | nil =>
      obtain rfl := Except.ok.inj h
      rfl
    | cons b bytes =>
      rw [decodeFrom.eq_3 _ _ _ (List.cons_ne_nil b bytes)] at h
      split at h
      next c n hscan =>
        obtain ⟨rest, hbytes, rfl⟩ := scan_eq_char_iff.1 hscan
        obtain ⟨later, hlater, rfl⟩ := map_eq_ok_iff.1 h
        have hpos := List.length_pos_iff.2 (String.utf8EncodeChar_ne_nil (c := c))
        rw [hbytes, List.length_append] at hfuel
        rw [hbytes, List.drop_left] at hlater
        rw [hbytes, encode_cons, ← ih (by omega) hlater]
      · cases h
      · cases h

theorem decodeFrom_encode (text : List Char) (fuel index : Nat)
    (hfuel : (encode text).length ≤ fuel) : decodeFrom index fuel (encode text) = .ok text := by
  induction text generalizing fuel index with
  | nil => cases fuel <;> rfl
  | cons c cs ih =>
    have hpos := List.length_pos_iff.2 (String.utf8EncodeChar_ne_nil (c := c))
    rw [encode_cons, List.length_append] at hfuel
    obtain ⟨fuel, rfl⟩ := Nat.exists_eq_succ_of_ne_zero (n := fuel) (by omega)
    have hscan := scan_eq_char_iff.2 ⟨encode cs, encode_cons c cs, rfl⟩
    have hne : encode (c :: cs) ≠ [] := mt encode_eq_nil_iff.1 nofun
    rw [decodeFrom.eq_3 _ _ _ hne, hscan]
    dsimp only
    rw [encode_cons, List.drop_left, ih _ _ (by omega)]
    rfl

theorem decode_encode (text : List Char) : decode (encode text) = .ok text :=
  decodeFrom_encode text _ _ (Nat.le_refl _)

/-- Bytes are decoded to a text exactly if the text is encoded to them. -/
theorem decode_eq_ok_iff {bytes : List UInt8} {text : List Char} :
    decode bytes = .ok text ↔ bytes = encode text :=
  ⟨decodeFrom_sound (Nat.le_refl _), fun h => h ▸ decode_encode text⟩

theorem encode_injective : Function.Injective encode := by
  intro text text' h
  exact Except.ok.inj ((decode_encode text).symm.trans (h ▸ decode_encode text'))

end OpenApiServer.Utf8
