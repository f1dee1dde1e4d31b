import Mathlib.Tactic.SplitIfs
import OpenApiServer.Json.Shape
import OpenApiServer.Proofs.Json.Accepting

/-!
# Printed strings and integers

A printed string is read back whatever stands after it, since its quotes are escaped. The digits of
an integer of 64 bits are read back if nothing that stands after them goes on with the number.
-/

namespace OpenApiServer.Json

/-! ## Strings -/

section Strings

variable {rest : List Char}

/-- The value of a character before a string that may be read. -/
def prepend (c : Char) (read : Except Failure (List Char × List Char)) :
    Except Failure (List Char × List Char) :=
  (fun r => (c :: r.1, r.2)) <$> read

theorem hexValue?_hexDigit {n : Nat} (h : n < 16) : hexValue? (hexDigit n) = some n := by
  have hall : ∀ n < 16, hexValue? (hexDigit n) = some n := by decide
  exact hall n h

theorem fourHex?_code {n : Nat} (h : n < 256) :
    fourHex? '0' '0' (hexDigit (n / 16)) (hexDigit (n % 16)) = some n := by
  have hhigh := hexValue?_hexDigit (n := n / 16) (by omega)
  have hlow := hexValue?_hexDigit (n := n % 16) (by omega)
  have hzero : hexValue? '0' = some 0 := rfl
  have hsum : 0 * 4096 + 0 * 256 + n / 16 * 16 + n % 16 = n := by omega
  rw [fourHex?, hzero, hhigh, hlow]
  exact congrArg some hsum

theorem stringFrom_escape {e : List Char} {c : Char}
    (h : ∀ rest, readEscape (e ++ rest) = .ok (c, e.length)) :
    stringFrom 0 ('\\' :: e ++ rest) = prepend c (stringFrom 0 rest) := by
  have hskip : stringFrom e.length (e ++ rest) = stringFrom 0 rest := by
    rw [stringFrom_skip, List.drop_left]
  rw [List.cons_append, stringFrom, if_neg (by decide), if_pos rfl, h rest]
  change (stringFrom e.length (e ++ rest) >>= _) = _
  rw [hskip]
  rfl

theorem stringFrom_short {letter c : Char} (h : shortEscape? letter = some c)
    (hu : letter ≠ 'u') : stringFrom 0 (['\\', letter] ++ rest) = prepend c (stringFrom 0 rest) := by
  apply stringFrom_escape (e := [letter])
  intro rest
  simp [readEscape, h]

theorem stringFrom_code {c : Char} (h : c.toNat < 32) :
    stringFrom 0
        (['\\', 'u', '0', '0', hexDigit (c.toNat / 16), hexDigit (c.toNat % 16)] ++ rest) =
      prepend c (stringFrom 0 rest) := by
  apply stringFrom_escape (e := ['u', '0', '0', hexDigit (c.toNat / 16), hexDigit (c.toNat % 16)])
  intro rest
  have hcode : fourHex? '0' '0' (hexDigit (c.toNat / 16)) (hexDigit (c.toNat % 16)) =
      some c.toNat := fourHex?_code (by omega)
  have hlow : isLowSurrogate c.toNat = false := by
    rw [isLowSurrogate, Bool.and_eq_false_iff, decide_eq_false_iff_not]
    omega
  have hhigh : isHighSurrogate c.toNat = false := by
    rw [isHighSurrogate, Bool.and_eq_false_iff, decide_eq_false_iff_not]
    omega
  simp [readEscape, readHexEscape, hcode, hlow, hhigh, Char.ofNat_toNat, bind, Except.bind, pure,
    Except.pure]

/-- Each case of the escapes is undone by the reader of strings. -/
theorem stringFrom_escapeChar (c : Char) (rest : List Char) :
    stringFrom 0 (escapeChar c ++ rest) = prepend c (stringFrom 0 rest) := by
  unfold escapeChar
  split_ifs with hquote hslash hline hreturn htab hback hfeed hcontrol
  · subst hquote
    exact stringFrom_short rfl (by decide)
  · subst hslash
    exact stringFrom_short rfl (by decide)
  · subst hline
    exact stringFrom_short rfl (by decide)
  · subst hreturn
    exact stringFrom_short rfl (by decide)
  · subst htab
    exact stringFrom_short rfl (by decide)
  · subst hback
    exact stringFrom_short rfl (by decide)
  · subst hfeed
    exact stringFrom_short rfl (by decide)
  · exact stringFrom_code hcontrol
  · rw [List.singleton_append, stringFrom, if_neg hquote, if_neg hslash, if_neg hcontrol]
    rfl

theorem stringFrom_escaped (text rest : List Char) :
    stringFrom 0 (text.flatMap escapeChar ++ '"' :: rest) = .ok (text, rest) := by
  induction text with
  | nil => rfl
  | cons c text ih =>
    rw [List.flatMap_cons, List.append_assoc, stringFrom_escapeChar, ih]
    rfl

/-- What stands after the opening quote of a printed string. -/
def quotedTail (s : String) : List Char := s.toList.flatMap escapeChar ++ ['"']

theorem quoted_eq (s : String) : quoted s = '"' :: quotedTail s := rfl

theorem readString_quotedTail (s : String) (rest : List Char) :
    readString (quotedTail s ++ rest) = .ok (s, rest) := by
  rw [readString, quotedTail, List.append_assoc, List.singleton_append, stringFrom_escaped]
  change Except.ok (String.ofList s.toList, rest) = _
  rw [String.ofList_toList]

end Strings

/-! ## Integers -/

section Integers

variable {limit value count : Nat} {digits rest : List Char} {n : Nat}

theorem isDigit_of_mem_toDigits {c : Char} (h : c ∈ Nat.toDigits 10 n) : isDigit c = true :=
  Nat.isDigit_of_mem_toDigits (by decide) (by decide) h

/-- By induction on the number without its last digit. -/
theorem toDigits_head?_ne_zero (h : n ≠ 0) : (Nat.toDigits 10 n).head? ≠ some '0' := by
  induction n using Nat.strongRecOn with
  | ind n ih =>
    by_cases hlt : n < 10
    · have hall : ∀ n < 10, n ≠ 0 → n.digitChar ≠ '0' := by decide
      rw [Nat.toDigits_of_lt_base hlt, List.head?_cons, ne_eq, Option.some.injEq]
      exact hall n hlt h
    · have hfront := ih (n / 10) (by omega) (by omega)
      rw [Nat.toDigits_of_base_le (by decide) (Nat.le_of_not_lt hlt)]
      rwa [List.head?_append_of_ne_nil _ Nat.toDigits_ne_nil]

theorem isWhole_toDigits (n : Nat) : IsWhole (Nat.toDigits 10 n) := by
  refine ⟨⟨Nat.toDigits_ne_nil, fun c => isDigit_of_mem_toDigits⟩, fun hzero => ?_⟩
  by_cases hn : n = 0
  · subst hn
    rfl
  · exact absurd hzero (toDigits_head?_ne_zero hn)

theorem le_ofDigitChars (digits : List Char) (value : Nat) :
    value ≤ Nat.ofDigitChars 10 digits value := by
  rw [Nat.ofDigitChars_eq_ofDigitChars_zero]
  have hpow : 0 < 10 ^ digits.length := Nat.pow_pos (by decide)
  have hle := Nat.le_mul_of_pos_left value hpow
  omega

/-- All digits are taken if the number that they make is below the limit. -/
theorem gather_digits (hdigits : ∀ c ∈ digits, isDigit c = true)
    (h : Nat.ofDigitChars 10 digits value < limit) :
    gather limit value count digits =
      (Nat.ofDigitChars 10 digits value, count + digits.length, []) := by
  induction digits generalizing value count with
  | nil => rfl
  | cons c digits ih =>
    obtain ⟨hc, hrest⟩ := List.forall_mem_cons.1 hdigits
    have hnext : 10 * value + (c.toNat - '0'.toNat) = value * 10 + digitValue c := by
      rw [digitValue, Nat.mul_comm]
    rw [Nat.ofDigitChars_cons, hnext] at h ⊢
    have hbelow := Nat.lt_of_le_of_lt (le_ofDigitChars digits _) h
    rw [gather, if_pos ⟨hc, hbelow⟩, ih hrest h, List.length_cons]
    simp only [Nat.add_assoc, Nat.add_comm 1]

/-- The digits of a number below the limit are read as the number. -/
theorem readNumber_toDigits (negative : Bool) (h : n < significandLimit)
    (hends : rest.head?.any (continues (Nat.toDigits 10 n)) = false) :
    readNumber negative (Nat.toDigits 10 n ++ rest) = .ok (integerOf negative n, rest) := by
  have hwhole := isWhole_toDigits n
  have hvalue : Nat.ofDigitChars 10 (Nat.toDigits 10 n) 0 = n := Nat.ofDigitChars_ten_toDigits
  have hstops : Ends [] [] rest :=
    (ends_iff hwhole .absent .absent).2 (by rwa [List.append_nil, List.append_nil])
  obtain ⟨⟨hstop, hmark⟩, hpoint⟩ := hstops
  obtain ⟨⟨hne, hall⟩, hlead⟩ := hwhole
  obtain ⟨c, ds, hdigits⟩ := List.exists_cons_of_ne_nil hne
  rw [hdigits] at hall hlead hvalue ⊢
  obtain ⟨hc, hds⟩ := List.forall_mem_cons.1 hall
  have hzero : c = '0' → startsWithDigit (ds ++ rest) = false := by
    intro heq
    subst heq
    obtain rfl := (List.cons.inj (hlead rfl)).2
    exact hstop
  rw [Nat.ofDigitChars_cons, Nat.mul_zero, Nat.zero_add] at hvalue
  have hgather : gather significandLimit (digitValue c) 1 ds = (n, 1 + ds.length, []) := by
    have hbelow : Nat.ofDigitChars 10 ds (digitValue c) < significandLimit := by
      rw [digitValue, hvalue]
      exact h
    rw [gather_digits hds hbelow, digitValue, hvalue]
  rw [List.cons_append, readNumber_eq hc hzero, gather_append hds hstop, hgather,
    List.nil_append, dropWhile_digits hstop, takeWhile_digits hstop,
    readAfterWhole_eq (hpoint rfl rfl), if_neg]
  simp [hmark]

end Integers

section Printing

variable {n : Int} {rest : List Char}

/-- The integers that are written and read without becoming a double. -/
def IsWord (n : Int) : Prop := -Int.pow 2 63 ≤ n ∧ n < Int.pow 2 64

instance (n : Int) : Decidable (IsWord n) := inferInstanceAs (Decidable (_ ∧ _))

theorem integerOf_negative {m : Nat} (hpos : m ≠ 0) (hle : m ≤ Nat.pow 2 63) :
    integerOf true m = .int (-m) := by
  have hsmall : ¬(m = 0 ∨ m > Nat.pow 2 63) := by omega
  rw [integerOf, if_neg (by decide), if_neg hsmall]

theorem toList_toString_nat (m : Nat) : (toString m).toList = Nat.toDigits 10 m := by
  rw [Nat.toString_eq_ofList_toDigits, String.toList_ofList]

theorem toList_toString_neg (m : Nat) :
    (toString (Int.negSucc m)).toList = '-' :: Nat.toDigits 10 (m + 1) := by
  have htext : toString (Int.negSucc m) = "-" ++ toString (m + 1) := rfl
  rw [htext, String.toList_append, toList_toString_nat]
  rfl

theorem number_of_digit {c : Char} (hc : isDigit c = true) (expected : String) (cs : List Char) :
    number expected (c :: cs) = readNumber false (c :: cs) := by
  unfold number
  split
  next heq =>
    obtain ⟨rfl, -⟩ := List.cons.inj heq
    cases hc
  next heq =>
    obtain ⟨rfl, -⟩ := List.cons.inj heq
    exact if_pos hc
  next heq => cases heq

/-- A printed integer is read back, unless it goes on with what follows it. -/
theorem number_print (expected : String) (hword : IsWord n)
    (hends : ¬Continued (numberText (.int n)).toList rest) :
    number expected ((numberText (.int n)).toList ++ rest) = .ok (.int n, rest) := by
  obtain ⟨hlow, hhigh⟩ := hword
  have h63 : Int.pow 2 63 = (Nat.pow 2 63 : Nat) := rfl
  have h64 : Int.pow 2 64 = (significandLimit : Nat) := rfl
  rw [h63] at hlow
  rw [h64] at hhigh
  change ¬Continued (toString n).toList rest at hends
  change number expected ((toString n).toList ++ rest) = _
  cases n with
  | ofNat m =>
    have htext : (toString (Int.ofNat m)).toList = Nat.toDigits 10 m := toList_toString_nat m
    have hwhole := isWhole_toDigits m
    have hnumeral : IsNumeral (Nat.toDigits 10 m) := by
      have hparts := IsNumeral.parts hwhole .absent .absent
      rwa [List.append_nil, List.append_nil] at hparts
    rw [htext, continued_numeral_iff hnumeral, Bool.not_eq_true] at hends
    have hread := readNumber_toDigits false (Int.ofNat_lt.1 hhigh) hends
    rw [htext]
    obtain ⟨c, ds, hdigits⟩ := List.exists_cons_of_ne_nil hwhole.1.1
    have hc : isDigit c = true := isDigit_of_mem_toDigits (by rw [hdigits]; simp)
    rw [hdigits] at hread ⊢
    rw [List.cons_append] at hread ⊢
    rw [number_of_digit hc, hread]
    rfl
  | negSucc m =>
    rw [Int.negSucc_eq] at hlow
    have hle : m + 1 ≤ Nat.pow 2 63 := by omega
    have hbelow : m + 1 < significandLimit := Nat.lt_of_le_of_lt hle (by decide)
    rw [toList_toString_neg, continued_negative_iff, Bool.not_eq_true] at hends
    rw [toList_toString_neg, List.cons_append, number, readNumber_toDigits true hbelow hends,
      integerOf_negative (Nat.succ_ne_zero m) hle]
    rfl

end Printing

end OpenApiServer.Json
