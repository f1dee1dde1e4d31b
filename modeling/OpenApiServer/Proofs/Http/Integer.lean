import Mathlib.Algebra.Group.Nat.Defs
import OpenApiServer.Http.Scalar
import OpenApiServer.Proofs.Data.Except

/-!
# Texts that stand for integers

An integer is written with digits after an optional sign. A range reads such a text exactly when it
contains the integer; a range without negative integers reads no minus sign, not even before a zero.
-/

namespace OpenApiServer.Http

/-- The value of digits from left to right, after digits of a given value. -/
def decimalFrom (value : Nat) (ds : List Char) : Nat :=
  ds.foldl (fun value c => value * 10 + Json.digitValue c) value

@[simp] theorem decimalFrom_nil (value : Nat) : decimalFrom value [] = value :=
  List.foldl_nil

@[simp] theorem decimalFrom_cons (value : Nat) (c : Char) (rest : List Char) :
    decimalFrom value (c :: rest) = decimalFrom (value * 10 + Json.digitValue c) rest := by
  unfold decimalFrom
  rw [List.foldl_cons]

def decimal (ds : List Char) : Nat := decimalFrom 0 ds

theorem le_decimalFrom (value : Nat) (ds : List Char) : value ≤ decimalFrom value ds := by
  induction ds generalizing value with
  | nil => exact Nat.le_refl _
  | cons d rest ih =>
    have hstep : value ≤ value * 10 + Json.digitValue d := by omega
    exact Nat.le_trans hstep (ih _)

/-- At least one digit, and nothing else. -/
structure Digits (ds : List Char) : Prop where
  ne_nil : ds ≠ []
  all : ∀ c ∈ ds, Json.isDigit c = true

theorem digitValue_lt {c : Char} (hc : Json.isDigit c = true) : Json.digitValue c < 10 := by
  simp only [Json.isDigit, Bool.and_eq_true, decide_eq_true_eq, Char.le_def,
    UInt32.le_iff_toNat_le] at hc
  have hnine : c.val.toNat ≤ 57 := hc.2
  change c.val.toNat - 48 < 10
  omega

theorem digitValue_inj {c c' : Char} (hc : Json.isDigit c = true) (hc' : Json.isDigit c' = true)
    (h : Json.digitValue c = Json.digitValue c') : c = c' := by
  simp only [Json.isDigit, Bool.and_eq_true, decide_eq_true_eq, Char.le_def,
    UInt32.le_iff_toNat_le] at hc hc'
  have hzero : 48 ≤ c.val.toNat := hc.1
  have hzero' : 48 ≤ c'.val.toNat := hc'.1
  have hvalue : c.val.toNat - 48 = c'.val.toNat - 48 := h
  have hcode : c.val.toNat = c'.val.toNat := by omega
  exact Char.ext (UInt32.toNat_inj.1 hcode)

theorem decimalFrom_lt {ds : List Char} (hds : ∀ c ∈ ds, Json.isDigit c = true) (value : Nat) :
    decimalFrom value ds < (value + 1) * 10 ^ ds.length := by
  induction ds generalizing value with
  | nil => simp
  | cons d rest ih =>
    obtain ⟨hd, hrest⟩ := List.forall_mem_cons.1 hds
    have hdigit := digitValue_lt hd
    have hstep : value * 10 + Json.digitValue d + 1 ≤ (value + 1) * 10 := by omega
    calc decimalFrom value (d :: rest)
        < (value * 10 + Json.digitValue d + 1) * 10 ^ rest.length := by
          rw [decimalFrom_cons]
          exact ih hrest _
      _ ≤ (value + 1) * 10 * 10 ^ rest.length := Nat.mul_le_mul_right _ hstep
      _ = (value + 1) * 10 ^ (d :: rest).length := by
          rw [List.length_cons, Nat.pow_succ', Nat.mul_assoc]

/-- Digits are read back from their value if one knows how many there are. -/
theorem decimalFrom_inj {ds ds' : List Char} (hds : ∀ c ∈ ds, Json.isDigit c = true)
    (hds' : ∀ c ∈ ds', Json.isDigit c = true) (hlength : ds.length = ds'.length) {value value' : Nat}
    (h : decimalFrom value ds = decimalFrom value' ds') : value = value' ∧ ds = ds' := by
  induction ds generalizing ds' value value' with
  | nil =>
    obtain rfl := List.length_eq_zero_iff.1 hlength.symm
    exact ⟨h, rfl⟩
  | cons d rest ih =>
    cases ds' with
    | nil => cases hlength
    | cons d' rest' =>
      obtain ⟨hd, hrest⟩ := List.forall_mem_cons.1 hds
      obtain ⟨hd', hrest'⟩ := List.forall_mem_cons.1 hds'
      rw [decimalFrom_cons, decimalFrom_cons] at h
      obtain ⟨hvalue, rfl⟩ := ih hrest hrest' (Nat.succ.inj hlength) h
      have hlt := digitValue_lt hd
      have hlt' := digitValue_lt hd'
      have hdigit : Json.digitValue d = Json.digitValue d' := by omega
      exact ⟨by omega, by rw [digitValue_inj hd hd' hdigit]⟩

theorem decimal_toDigits (n : Nat) : decimal (Nat.toDigits 10 n) = n := by
  have hstep : (fun value c => value * 10 + Json.digitValue c) =
      fun value (c : Char) => 10 * value + (c.toNat - '0'.toNat) := by
    funext value c
    rw [Nat.mul_comm, Json.digitValue]
  calc decimal (Nat.toDigits 10 n) = Nat.ofDigitChars 10 (Nat.toDigits 10 n) 0 := by
        rw [decimal, decimalFrom, hstep, Nat.ofDigitChars]
    _ = n := Nat.ofDigitChars_ten_toDigits

theorem digits_toDigits (n : Nat) : Digits (Nat.toDigits 10 n) :=
  ⟨Nat.toDigits_ne_nil, fun _ => Nat.isDigit_of_mem_toDigits (by decide) (by decide)⟩

/-- Digits after an optional sign, with the integer that they stand for. -/
inductive IntegerText : List Char → Int → Prop where
  | unsigned {ds : List Char} (digits : Digits ds) : IntegerText ds (decimal ds)
  | plus {ds : List Char} (digits : Digits ds) : IntegerText ('+' :: ds) (decimal ds)
  | minus {ds : List Char} (digits : Digits ds) : IntegerText ('-' :: ds) (-(decimal ds : Int))

/-- A text stands for an integer of the range; a minus sign needs a range below zero. -/
structure Fits (range : Json.IntegerRange) (cs : List Char) (n : Int) : Prop where
  text : IntegerText cs n
  within : range.contains n = true
  sign : cs.head? = some '-' → range.low < 0

theorem Digits.head_ne_sign {ds : List Char} (h : Digits ds) :
    ds.head? ≠ some '+' ∧ ds.head? ≠ some '-' := by
  cases ds with
  | nil => exact absurd rfl h.ne_nil
  | cons d rest =>
    have hd := h.all d (List.mem_cons_self ..)
    constructor
    · rintro h
      obtain rfl : d = '+' := by simpa using h
      exact absurd hd (by decide)
    · rintro h
      obtain rfl : d = '-' := by simpa using h
      exact absurd hd (by decide)

/-- A text stands for one integer. -/
theorem IntegerText.unique {cs : List Char} {m n : Int} (hm : IntegerText cs m)
    (hn : IntegerText cs n) : m = n := by
  cases hm with
  | unsigned digits =>
    cases hn with
    | unsigned => rfl
    | plus => exact absurd rfl digits.head_ne_sign.1
    | minus => exact absurd rfl digits.head_ne_sign.2
  | plus digits =>
    cases hn with
    | unsigned digits' => exact absurd rfl digits'.head_ne_sign.1
    | plus => rfl
  | minus digits =>
    cases hn with
    | unsigned digits' => exact absurd rfl digits'.head_ne_sign.2
    | minus => rfl

/-- Three characters that stand for a number of three digits are its digits. -/
theorem IntegerText.digits_of_length {cs : List Char} {n : Nat} (h : IntegerText cs n)
    (hlength : cs.length = 3) (hn : 100 ≤ n) : Digits cs ∧ decimal cs = n := by
  generalize hvalue : (n : Int) = value at h
  cases h with
  | unsigned digits => exact ⟨digits, by omega⟩
  | @plus ds digits =>
    have htwo : ds.length = 2 := Nat.succ.inj hlength
    have hlt := decimalFrom_lt digits.all 0
    rw [htwo] at hlt
    change decimal ds < 100 at hlt
    omega
  | minus => omega

namespace Scalar

theorem digitsUpTo_eq_ok_iff {limit : Nat} {overflow : ScalarError} {value n : Nat}
    {cs : List Char} (hvalue : value ≤ limit) :
    digitsUpTo limit overflow value cs = .ok n ↔
      (∀ c ∈ cs, Json.isDigit c = true) ∧ decimalFrom value cs = n ∧ n ≤ limit := by
  induction cs generalizing value with
  | nil =>
    simp only [digitsUpTo, decimalFrom_nil, List.not_mem_nil, false_implies, implies_true, true_and,
      Except.ok.injEq]
    constructor
    · rintro rfl
      exact ⟨rfl, hvalue⟩
    · exact And.left
  | cons c rest ih =>
    rw [digitsUpTo, decimalFrom_cons, List.forall_mem_cons]
    by_cases hdigit : Json.isDigit c = true
    · by_cases hlimit : value * 10 + Json.digitValue c > limit
      · have hle := le_decimalFrom (value * 10 + Json.digitValue c) rest
        simp only [hdigit, hlimit, Bool.not_true, Bool.false_eq_true, if_true, if_false, true_and]
        refine iff_of_false (by simp) ?_
        rintro ⟨-, rfl, hn⟩
        omega
      · simp only [hdigit, hlimit, Bool.not_true, Bool.false_eq_true, if_false, true_and]
        exact ih (by omega)
    · simp [hdigit]

theorem magnitude_eq_ok_iff {limit : Nat} {overflow : ScalarError} {n : Nat} {cs : List Char} :
    magnitude limit overflow cs = .ok n ↔ Digits cs ∧ decimal cs = n ∧ n ≤ limit := by
  unfold magnitude
  cases cs with
  | nil => exact iff_of_false (by simp) fun h => h.1.ne_nil rfl
  | cons c rest =>
    rw [if_neg (by simp), digitsUpTo_eq_ok_iff (Nat.zero_le _)]
    constructor
    · rintro ⟨hall, hvalue⟩
      exact ⟨⟨by simp, hall⟩, hvalue⟩
    · rintro ⟨digits, hvalue⟩
      exact ⟨digits.all, hvalue⟩

theorem magnitude_bind_eq_ok_iff {limit : Nat} {overflow : ScalarError} {cs : List Char}
    {sign : Nat → Int} {n : Int} :
    (magnitude limit overflow cs >>= fun m => .ok (sign m)) = .ok n ↔
      Digits cs ∧ sign (decimal cs) = n ∧ decimal cs ≤ limit := by
  simp only [bind_eq_ok_iff, magnitude_eq_ok_iff, Except.ok.injEq]
  constructor
  · rintro ⟨_, ⟨digits, rfl, hle⟩, rfl⟩
    exact ⟨digits, rfl, hle⟩
  · rintro ⟨digits, rfl, hle⟩
    exact ⟨_, ⟨digits, rfl, hle⟩, rfl⟩

/-- The texts that a range around zero reads, and what it reads. -/
theorem parseInteger_eq_ok_iff {range : Json.IntegerRange} (hlow : range.low ≤ 0)
    (hhigh : 0 ≤ range.high) {cs : List Char} {n : Int} :
    parseInteger range cs = .ok n ↔ Fits range cs n := by
  have hupper (m : Nat) : range.contains m = true ↔ m ≤ range.high.toNat := by
    simp only [Json.IntegerRange.contains, Bool.and_eq_true, decide_eq_true_eq]
    omega
  have hlower (m : Nat) (hneg : range.low < 0) :
      range.contains (-(m : Int)) = true ↔ m ≤ range.low.natAbs := by
    simp only [Json.IntegerRange.contains, Bool.and_eq_true, decide_eq_true_eq]
    omega
  unfold parseInteger
  split
  next =>
    refine iff_of_false (by simp) fun h => ?_
    cases h.text with
    | unsigned digits => exact digits.ne_nil rfl
  next rest =>
    refine magnitude_bind_eq_ok_iff.trans ⟨?_, fun h => ?_⟩
    · rintro ⟨digits, rfl, hle⟩
      exact ⟨.plus digits, (hupper _).2 hle, by simp⟩
    · obtain ⟨text, within, -⟩ := h
      cases text with
      | unsigned digits => exact absurd rfl digits.head_ne_sign.1
      | plus digits => exact ⟨digits, rfl, (hupper _).1 within⟩
  next rest =>
    by_cases hneg : range.low < 0
    · rw [if_pos hneg]
      refine Iff.trans magnitude_bind_eq_ok_iff ⟨?_, fun h => ?_⟩
      · rintro ⟨digits, rfl, hle⟩
        exact ⟨.minus digits, (hlower _ hneg).2 hle, fun _ => hneg⟩
      · obtain ⟨text, within, -⟩ := h
        cases text with
        | unsigned digits => exact absurd rfl digits.head_ne_sign.2
        | minus digits => exact ⟨digits, rfl, (hlower _ hneg).1 within⟩
    · rw [if_neg hneg]
      exact iff_of_false (by simp) fun h => hneg (h.sign rfl)
  next hplus hminus =>
    refine magnitude_bind_eq_ok_iff.trans ⟨?_, fun h => ?_⟩
    · rintro ⟨digits, rfl, hle⟩
      exact ⟨.unsigned digits, (hupper _).2 hle, fun h => absurd h digits.head_ne_sign.2⟩
    · obtain ⟨text, within, -⟩ := h
      cases text with
      | unsigned digits => exact ⟨digits, rfl, (hupper _).1 within⟩
      | plus => exact absurd rfl (hplus _)
      | minus => exact absurd rfl (hminus _)

end Scalar

end OpenApiServer.Http
