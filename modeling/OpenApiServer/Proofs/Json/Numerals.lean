import OpenApiServer.Proofs.Json.Grammar

/-!
# Reading numbers

A reader of numbers takes a numeral as far as it goes. What it does with a numeral depends on the
numeral alone: it reads it, whatever stands after it, or finds it out of range.
-/

namespace OpenApiServer.Json

/-! ## Digits -/

theorem not_isDigit_of_isExponentMark {c : Char} (h : isExponentMark c = true) :
    isDigit c = false := by
  simp only [isExponentMark, Bool.or_eq_true, beq_iff_eq] at h
  rcases h with rfl | rfl <;> rfl

@[simp] theorem startsWithDigit_nil : startsWithDigit [] = false := rfl

@[simp] theorem startsWithDigit_cons (c : Char) (cs : List Char) :
    startsWithDigit (c :: cs) = isDigit c := rfl

theorem dropWhile_digits {rest : List Char} (h : startsWithDigit rest = false) :
    rest.dropWhile isDigit = rest := by
  cases rest with
  | nil => rfl
  | cons c cs => exact List.dropWhile_cons_of_neg (by simpa using h)

theorem takeWhile_digits {rest : List Char} (h : startsWithDigit rest = false) :
    rest.takeWhile isDigit = [] := by
  cases rest with
  | nil => rfl
  | cons c cs => exact List.takeWhile_cons_of_neg (by simpa using h)

theorem startsWithDigit_dropWhile (cs : List Char) :
    startsWithDigit (cs.dropWhile isDigit) = false := by
  induction cs with
  | nil => rfl
  | cons c rest ih =>
    cases hc : isDigit c with
    | true => rwa [List.dropWhile_cons_of_pos hc]
    | false =>
      rw [List.dropWhile_cons_of_neg (by simp [hc])]
      exact hc

section Digits

variable {limit value count : Nat} {cs digits rest : List Char}

/-- The digits that are taken, and the ones before what is left. -/
theorem exists_gather (limit value count : Nat) (cs : List Char) :
    ∃ taken, (∀ c ∈ taken, isDigit c = true) ∧ cs = taken ++ (gather limit value count cs).2.2 ∧
      (gather limit value count cs).2.1 = count + taken.length := by
  induction cs generalizing value count with
  | nil => exact ⟨[], by simp, rfl, rfl⟩
  | cons c rest ih =>
    rw [gather]
    split
    next h =>
      obtain ⟨taken, htaken, hcs, hcount⟩ := ih (value * 10 + digitValue c) (count + 1)
      refine ⟨c :: taken, List.forall_mem_cons.2 ⟨h.1, htaken⟩, ?_, ?_⟩
      · rw [List.cons_append, ← hcs]
      · rw [hcount, List.length_cons]
        omega
    next => exact ⟨[], by simp, rfl, rfl⟩

theorem gather_append (hdigits : ∀ c ∈ digits, isDigit c = true)
    (hrest : startsWithDigit rest = false) :
    gather limit value count (digits ++ rest) =
      ((gather limit value count digits).1, (gather limit value count digits).2.1,
        (gather limit value count digits).2.2 ++ rest) := by
  induction digits generalizing value count with
  | nil =>
    cases rest with
    | nil => rfl
    | cons c cs =>
      rw [startsWithDigit_cons] at hrest
      simp [gather, hrest]
  | cons c digits ih =>
    have hlater := (List.forall_mem_cons.1 hdigits).2
    rw [List.cons_append, gather, gather]
    split
    · exact ih hlater
    · rfl

theorem forall_gather (limit value count : Nat) (hdigits : ∀ c ∈ digits, isDigit c = true) :
    ∀ c ∈ (gather limit value count digits).2.2, isDigit c = true := by
  obtain ⟨taken, -, hcs, -⟩ := exists_gather limit value count digits
  intro c hc
  refine hdigits c ?_
  rw [hcs]
  exact List.mem_append_right taken hc

/-- The digits that a text starts with, taken or not. -/
theorem exists_digits (limit value count : Nat) (cs : List Char) :
    ∃ ds, (∀ c ∈ ds, isDigit c = true) ∧
      cs = ds ++ (gather limit value count cs).2.2.dropWhile isDigit := by
  obtain ⟨taken, htaken, hcs, -⟩ := exists_gather limit value count cs
  refine ⟨taken ++ (gather limit value count cs).2.2.takeWhile isDigit, fun c hc => ?_, ?_⟩
  · rcases List.mem_append.1 hc with hc | hc
    · exact htaken c hc
    · exact List.all_eq_true.1 List.all_takeWhile c hc
  · rw [List.append_assoc, List.takeWhile_append_dropWhile, ← hcs]

end Digits

/-! ## What is read after digits -/

/-- What is made of an exponent of which `value` has been taken. -/
def readScale (negative : Bool) (significand : Nat) (start : Int) (down : Bool) (value : Nat) :
    Reader Number := fun rest =>
  if startsWithDigit rest then
    if significand ≠ 0 ∧ !down then failOn .numberRange rest
    else .ok (.real (Double.zero.withSign negative), rest.dropWhile isDigit)
  else realOf negative significand (if down then start - value else start + value) rest

/-- Reads what follows the digits before the point, `more` of which were not taken. -/
def readAfterWhole (negative : Bool) (value more : Nat) : Reader Number := fun rest =>
  match rest with
  | '.' :: after => readDecimals negative value more after
  | c :: _ =>
    if isExponentMark c ∨ more ≠ 0 then readTail negative value more rest
    else .ok (integerOf negative value, rest)
  | [] =>
    if more ≠ 0 then readTail negative value more rest
    else .ok (integerOf negative value, rest)

section Stages

variable {negative : Bool} {significand : Nat} {exponent : Int} {c : Char} {cs : List Char}

/-- A sign decides only whether the exponent is added or subtracted. -/
theorem exists_readExponent_eq (negative : Bool) (significand : Nat) (exponent : Int)
    {sign : List Char} (hsign : IsSign sign) :
    ∃ down, ∀ c cs, isDigit c = true →
      readExponent negative significand exponent (sign ++ c :: cs) =
        readScale negative significand exponent down (gather exponentLimit (digitValue c) 1 cs).1
          (gather exponentLimit (digitValue c) 1 cs).2.2 := by
  rcases hsign with rfl | rfl | rfl
  · refine ⟨false, fun c cs hc => ?_⟩
    have hplus : c ≠ '+' := by rintro rfl; cases hc
    have hminus : c ≠ '-' := by rintro rfl; cases hc
    simp [readExponent, readScale, hplus, hminus, hc]
  · exact ⟨false, fun c cs hc => by simp [readExponent, readScale, hc]⟩
  · exact ⟨true, fun c cs hc => by simp [readExponent, readScale, hc]⟩

theorem readDecimals_eq (h : startsWithDigit cs = true) :
    readDecimals negative significand exponent cs =
      readTail negative (gather significandLimit significand 0 cs).1
        (exponent - (gather significandLimit significand 0 cs).2.1)
        ((gather significandLimit significand 0 cs).2.2.dropWhile isDigit) := by
  obtain ⟨taken, -, hcs, hcount⟩ := exists_gather significandLimit significand 0 cs
  unfold readDecimals
  dsimp only
  split
  · rfl
  next hleft =>
    have hleft := Bool.eq_false_iff.2 hleft
    have hne : taken ≠ [] := by
      rintro rfl
      rw [List.nil_append] at hcs
      rw [← hcs, h] at hleft
      cases hleft
    have hpos := List.length_pos_iff.2 hne
    have hcount : (gather significandLimit significand 0 cs).2.1 ≠ 0 := by omega
    rw [if_neg hcount, dropWhile_digits hleft]

theorem readNumber_eq (hc : isDigit c = true) (hzero : c = '0' → startsWithDigit cs = false) :
    readNumber negative (c :: cs) =
      readAfterWhole negative (gather significandLimit (digitValue c) 1 cs).1
        ((gather significandLimit (digitValue c) 1 cs).2.2.takeWhile isDigit).length
        ((gather significandLimit (digitValue c) 1 cs).2.2.dropWhile isDigit) := by
  have hlead : ¬(c = '0' ∧ startsWithDigit cs = true) := by
    rintro ⟨rfl, hdigit⟩
    rw [hzero rfl] at hdigit
    cases hdigit
  unfold readNumber readAfterWhole
  dsimp only
  exact (if_neg hlead).trans (if_neg (by simp [hc]))

/-- Without a point, only an exponent or digits that were not taken make a real number. -/
theorem readAfterWhole_eq {value more : Nat} (h : cs.head? ≠ some '.') :
    readAfterWhole negative value more cs =
      if cs.head?.any isExponentMark = true ∨ more ≠ 0 then readTail negative value more cs
      else .ok (integerOf negative value, cs) := by
  unfold readAfterWhole
  split
  · exact absurd rfl h
  · rfl
  · simp

end Stages

/-! ## Numerals are read whole -/

/-- A reader either reads a text, whatever may stand after it, or finds it out of range. -/
def Settles (read : Reader Number) (text : List Char) (stops : List Char → Prop) : Prop :=
  (∃ n, ∀ rest, stops rest → read (text ++ rest) = .ok (n, rest)) ∨
    ∀ rest, stops rest → ∃ f, read (text ++ rest) = .error f ∧ f.fault = .numberRange

/-- What may stand after the last part of a number, if that part is an exponent or none. -/
def Stops (exponent rest : List Char) : Prop :=
  startsWithDigit rest = false ∧ (exponent = [] → rest.head?.any isExponentMark = false)

section Settling

variable {negative : Bool} {significand : Nat} {start : Int} {stops : List Char → Prop}

theorem Settles.congr {read read' : Reader Number} {text text' : List Char}
    (h : Settles read text stops)
    (heq : ∀ rest, stops rest → read' (text' ++ rest) = read (text ++ rest)) :
    Settles read' text' stops := by
  rcases h with ⟨n, hn⟩ | hrange
  · exact .inl ⟨n, fun rest hrest => (heq rest hrest).trans (hn rest hrest)⟩
  · refine .inr fun rest hrest => ?_
    rw [heq rest hrest]
    exact hrange rest hrest

theorem Settles.mono {read : Reader Number} {text : List Char} {stops' : List Char → Prop}
    (h : Settles read text stops) (hstops : ∀ rest, stops' rest → stops rest) :
    Settles read text stops' := by
  rcases h with ⟨n, hn⟩ | hrange
  · exact .inl ⟨n, fun rest hrest => hn rest (hstops rest hrest)⟩
  · exact .inr fun rest hrest => hrange rest (hstops rest hrest)

theorem settles_realOf : Settles (realOf negative significand start) [] stops := by
  unfold Settles realOf
  cases scaled 4 (Double.ofNat significand) start with
  | some x => exact .inl ⟨_, fun rest _ => rfl⟩
  | none => exact .inr fun rest _ => ⟨_, rfl, rfl⟩

theorem settles_readScale {down : Bool} {value : Nat} {left : List Char}
    (hleft : ∀ c ∈ left, isDigit c = true) :
    Settles (readScale negative significand start down value) left
      (startsWithDigit · = false) := by
  cases left with
  | nil =>
    have hread (rest : List Char) (hrest : startsWithDigit rest = false) :
        readScale negative significand start down value ([] ++ rest) =
          realOf negative significand (if down then start - value else start + value)
            ([] ++ rest) := by
      rw [readScale, List.nil_append, hrest]
      rfl
    exact settles_realOf.congr hread
  | cons c left =>
    have hc := hleft c (List.mem_cons_self ..)
    by_cases hlarge : significand ≠ 0 ∧ (!down) = true
    · refine .inr fun rest _ => ?_
      rw [readScale, List.cons_append, startsWithDigit_cons, if_pos hc, if_pos hlarge]
      exact ⟨_, rfl, rfl⟩
    · refine .inl ⟨.real (Double.zero.withSign negative), fun rest hrest => ?_⟩
      rw [readScale, List.cons_append, startsWithDigit_cons, if_pos hc, if_neg hlarge,
        ← List.cons_append, List.dropWhile_append_of_pos hleft, dropWhile_digits hrest]

theorem settles_readExponent {sign digits : List Char} (hsign : IsSign sign)
    (hdigits : IsDigits digits) :
    Settles (readExponent negative significand start) (sign ++ digits)
      (startsWithDigit · = false) := by
  obtain ⟨hne, hall⟩ := hdigits
  obtain ⟨c, ds, rfl⟩ := List.exists_cons_of_ne_nil hne
  obtain ⟨hc, hds⟩ := List.forall_mem_cons.1 hall
  obtain ⟨down, hsigned⟩ := exists_readExponent_eq negative significand start hsign
  have hread (rest : List Char) (hrest : startsWithDigit rest = false) :
      readExponent negative significand start ((sign ++ c :: ds) ++ rest) =
        readScale negative significand start down
          (gather exponentLimit (digitValue c) 1 ds).1
          ((gather exponentLimit (digitValue c) 1 ds).2.2 ++ rest) := by
    rw [List.append_assoc, List.cons_append, hsigned c _ hc, gather_append hds hrest]
  exact (settles_readScale (forall_gather _ _ _ hds)).congr hread

theorem settles_readTail {exponent : List Char} (h : IsExponent exponent) :
    Settles (readTail negative significand start) exponent (Stops exponent) := by
  cases h with
  | absent =>
    have hread (rest : List Char) (hrest : Stops [] rest) :
        readTail negative significand start ([] ++ rest) =
          realOf negative significand start ([] ++ rest) := by
      cases rest with
      | nil => rfl
      | cons c cs =>
        have hc : isExponentMark c = false := hrest.2 rfl
        simp [readTail, hc]
    exact settles_realOf.congr hread
  | @present mark sign digits letter signed hdigits =>
    have hread (rest : List Char) (_ : Stops (mark :: (sign ++ digits)) rest) :
        readTail negative significand start (mark :: (sign ++ digits) ++ rest) =
          readExponent negative significand start (sign ++ digits ++ rest) := by
      simp [readTail, letter]
    exact ((settles_readExponent signed hdigits).mono fun _ hrest => hrest.1).congr hread

theorem startsWithDigit_exponent {exponent rest : List Char} (h : IsExponent exponent)
    (hrest : Stops exponent rest) : startsWithDigit (exponent ++ rest) = false := by
  cases h with
  | absent => exact hrest.1
  | present letter => exact not_isDigit_of_isExponentMark letter

theorem startsWithDigit_append {digits : List Char} (h : IsDigits digits) (rest : List Char) :
    startsWithDigit (digits ++ rest) = true := by
  obtain ⟨c, ds, rfl⟩ := List.exists_cons_of_ne_nil h.1
  exact h.2 c (List.mem_cons_self ..)

theorem settles_readDecimals {digits exponent : List Char} (hdigits : IsDigits digits)
    (hexponent : IsExponent exponent) :
    Settles (readDecimals negative significand start) (digits ++ exponent) (Stops exponent) := by
  have hread (rest : List Char) (hrest : Stops exponent rest) :
      readDecimals negative significand start (digits ++ exponent ++ rest) =
        readTail negative (gather significandLimit significand 0 digits).1
          (start - (gather significandLimit significand 0 digits).2.1) (exponent ++ rest) := by
    have hstart := startsWithDigit_exponent hexponent hrest
    rw [List.append_assoc, readDecimals_eq (startsWithDigit_append hdigits _),
      gather_append hdigits.2 hstart, List.dropWhile_append_of_pos (forall_gather _ _ _ hdigits.2),
      dropWhile_digits hstart]
  exact (settles_readTail hexponent).congr hread

/-- What may stand after a numeral. -/
def Ends (fraction exponent rest : List Char) : Prop :=
  Stops exponent rest ∧ (exponent = [] → fraction = [] → rest.head? ≠ some '.')

theorem ends_nil (fraction exponent : List Char) : Ends fraction exponent [] :=
  ⟨⟨rfl, fun _ => rfl⟩, fun _ _ => nofun⟩

theorem settles_readAfterWhole {value more : Nat} {fraction exponent : List Char}
    (hfraction : IsFraction fraction) (hexponent : IsExponent exponent) :
    Settles (readAfterWhole negative value more) (fraction ++ exponent)
      (Ends fraction exponent) := by
  cases hfraction with
  | present hdigits =>
    exact ((settles_readDecimals hdigits hexponent).mono fun _ hrest => hrest.1).congr
      fun _ _ => rfl
  | absent =>
    have hpoint (rest : List Char) (hrest : Ends [] exponent rest) :
        (exponent ++ rest).head? ≠ some '.' := by
      cases hexponent with
      | absent => exact hrest.2 rfl rfl
      | @present mark sign digits letter =>
        rintro heq
        obtain rfl := Option.some.inj heq
        cases letter
    by_cases hreal : exponent ≠ [] ∨ more ≠ 0
    · have hread (rest : List Char) (hrest : Ends [] exponent rest) :
          readAfterWhole negative value more ([] ++ exponent ++ rest) =
            readTail negative value more (exponent ++ rest) := by
        rw [List.nil_append, readAfterWhole_eq (hpoint rest hrest), if_pos]
        refine hreal.imp_left fun hne => ?_
        cases hexponent with
        | absent => exact absurd rfl hne
        | present letter => exact letter
      exact ((settles_readTail hexponent).mono fun _ hrest => hrest.1).congr hread
    · obtain ⟨hnone, hmore⟩ := not_or.1 hreal
      obtain rfl := Decidable.not_not.1 hnone
      refine .inl ⟨integerOf negative value, fun rest hrest => ?_⟩
      have hmark : rest.head?.any isExponentMark = false := hrest.1.2 rfl
      rw [List.append_nil, List.nil_append, readAfterWhole_eq (hrest.2 rfl rfl), if_neg]
      simp [hmark, hmore]

theorem startsWithDigit_fraction {fraction exponent rest : List Char}
    (hfraction : IsFraction fraction) (hexponent : IsExponent exponent)
    (hrest : Ends fraction exponent rest) :
    startsWithDigit (fraction ++ exponent ++ rest) = false := by
  cases hfraction with
  | absent => exact startsWithDigit_exponent hexponent hrest.1
  | present => rfl

theorem settles_readNumber (negative : Bool) {whole fraction exponent : List Char}
    (hwhole : IsWhole whole) (hfraction : IsFraction fraction) (hexponent : IsExponent exponent) :
    Settles (readNumber negative) (whole ++ (fraction ++ exponent)) (Ends fraction exponent) := by
  obtain ⟨⟨hne, hall⟩, hlead⟩ := hwhole
  obtain ⟨c, ds, rfl⟩ := List.exists_cons_of_ne_nil hne
  obtain ⟨hc, hds⟩ := List.forall_mem_cons.1 hall
  have hleft := forall_gather significandLimit (digitValue c) 1 hds
  have hread (rest : List Char) (hrest : Ends fraction exponent rest) :
      readNumber negative (c :: ds ++ (fraction ++ exponent) ++ rest) =
        readAfterWhole negative (gather significandLimit (digitValue c) 1 ds).1
          (gather significandLimit (digitValue c) 1 ds).2.2.length
          (fraction ++ exponent ++ rest) := by
    have hafter := startsWithDigit_fraction hfraction hexponent hrest
    have hzero : c = '0' → startsWithDigit (ds ++ (fraction ++ exponent ++ rest)) = false := by
      rintro rfl
      obtain rfl := (List.cons.inj (hlead rfl)).2
      exact hafter
    rw [List.append_assoc, List.cons_append, readNumber_eq hc hzero, gather_append hds hafter,
      List.dropWhile_append_of_pos hleft, List.takeWhile_append_of_pos hleft,
      dropWhile_digits hafter, takeWhile_digits hafter, List.append_nil]
  exact (settles_readAfterWhole hfraction hexponent).congr hread

end Settling

/-! ## What is read is a numeral -/

section Sound

variable {negative : Bool} {significand : Nat} {start : Int} {cs rest : List Char} {n : Number}

theorem realOf_sound (h : realOf negative significand start cs = .ok (n, rest)) : rest = cs := by
  rw [realOf] at h
  split at h
  · exact (Prod.mk.inj (Except.ok.inj h)).2.symm
  · cases h

theorem readScale_sound {down : Bool} {value : Nat}
    (h : readScale negative significand start down value cs = .ok (n, rest)) :
    rest = cs.dropWhile isDigit := by
  rw [readScale] at h
  split at h
  · split at h
    · cases h
    · exact (Prod.mk.inj (Except.ok.inj h)).2.symm
  next hcs =>
    rw [realOf_sound h, dropWhile_digits (Bool.eq_false_iff.2 hcs)]

theorem exists_digit_of_readExponent
    (h : readExponent negative significand start cs = .ok (n, rest)) :
    ∃ sign c after, IsSign sign ∧ isDigit c = true ∧ cs = sign ++ c :: after := by
  unfold readExponent at h
  split at h
  next down unsigned heq =>
    have hsign : ∃ sign, IsSign sign ∧ cs = sign ++ unsigned := by
      split at heq <;> obtain ⟨-, rfl⟩ := Prod.mk.inj heq
      · exact ⟨['+'], .inr (.inl rfl), rfl⟩
      · exact ⟨['-'], .inr (.inr rfl), rfl⟩
      · exact ⟨[], .inl rfl, rfl⟩
    obtain ⟨sign, hsign, rfl⟩ := hsign
    dsimp only at h
    split at h
    · cases h
    next c after =>
      split at h
      · cases h
      next hc => exact ⟨sign, c, after, hsign, by simpa using hc, rfl⟩

theorem readExponent_sound (h : readExponent negative significand start cs = .ok (n, rest)) :
    ∃ sign digits, IsSign sign ∧ IsDigits digits ∧ cs = sign ++ (digits ++ rest) ∧
      startsWithDigit rest = false := by
  obtain ⟨sign, c, after, hsign, hc, rfl⟩ := exists_digit_of_readExponent h
  obtain ⟨down, hread⟩ := exists_readExponent_eq negative significand start hsign
  rw [hread c after hc] at h
  obtain ⟨digits, hdigits, hafter⟩ := exists_digits exponentLimit (digitValue c) 1 after
  obtain rfl := readScale_sound h
  refine ⟨sign, c :: digits, hsign, ⟨by simp, List.forall_mem_cons.2 ⟨hc, hdigits⟩⟩,
    ?_, startsWithDigit_dropWhile _⟩
  rw [List.cons_append, ← hafter]

theorem readTail_sound (hcs : startsWithDigit cs = false)
    (h : readTail negative significand start cs = .ok (n, rest)) :
    ∃ exponent, IsExponent exponent ∧ cs = exponent ++ rest ∧ Stops exponent rest := by
  unfold readTail at h
  split at h
  next c after =>
    split at h
    next hmark =>
      obtain ⟨sign, digits, hsign, hdigits, rfl, hrest⟩ := readExponent_sound h
      refine ⟨c :: (sign ++ digits), .present hmark hsign hdigits, ?_, hrest, nofun⟩
      rw [List.cons_append, List.append_assoc]
    next hmark =>
      obtain rfl := realOf_sound h
      exact ⟨[], .absent, rfl, hcs, fun _ => Bool.eq_false_iff.2 hmark⟩
  next =>
    obtain rfl := realOf_sound h
    exact ⟨[], .absent, rfl, rfl, fun _ => rfl⟩

theorem readDecimals_sound (h : readDecimals negative significand start cs = .ok (n, rest)) :
    ∃ digits exponent, IsDigits digits ∧ IsExponent exponent ∧
      cs = digits ++ (exponent ++ rest) ∧ Stops exponent rest := by
  cases hcs : startsWithDigit cs with
  | true =>
    rw [readDecimals_eq hcs] at h
    obtain ⟨exponent, hexponent, htail, hrest⟩ := readTail_sound (startsWithDigit_dropWhile _) h
    obtain ⟨digits, hdigits, hall⟩ := exists_digits significandLimit significand 0 cs
    rw [htail] at hall
    refine ⟨digits, exponent, ⟨?_, hdigits⟩, hexponent, hall, hrest⟩
    rintro rfl
    rw [hall, List.nil_append, startsWithDigit_exponent hexponent hrest] at hcs
    cases hcs
  | false =>
    have hnone : gather significandLimit significand 0 cs = (significand, 0, cs) :=
      gather_append (List.forall_mem_nil _) hcs
    simp [readDecimals, hnone, hcs, failOn] at h

theorem readAfterWhole_sound {value more : Nat} (hcs : startsWithDigit cs = false)
    (h : readAfterWhole negative value more cs = .ok (n, rest)) :
    ∃ fraction exponent, IsFraction fraction ∧ IsExponent exponent ∧
      cs = fraction ++ (exponent ++ rest) ∧ Ends fraction exponent rest := by
  by_cases hpoint : cs.head? = some '.'
  · obtain ⟨after, rfl⟩ := List.head?_eq_some_iff.1 hpoint
    obtain ⟨digits, exponent, hdigits, hexponent, rfl, hrest⟩ := readDecimals_sound h
    exact ⟨'.' :: digits, exponent, .present hdigits, hexponent, rfl, hrest, nofun⟩
  · rw [readAfterWhole_eq hpoint] at h
    split at h
    · obtain ⟨exponent, hexponent, rfl, hrest⟩ := readTail_sound hcs h
      refine ⟨[], exponent, .absent, hexponent, rfl, hrest, ?_⟩
      rintro rfl -
      exact hpoint
    next hreal =>
      obtain rfl := (Prod.mk.inj (Except.ok.inj h)).2
      have hmark := Bool.eq_false_iff.2 (not_or.1 hreal).1
      exact ⟨[], [], .absent, .absent, rfl, ⟨hcs, fun _ => hmark⟩, fun _ _ => hpoint⟩

theorem readNumber_sound (h : readNumber negative cs = .ok (n, rest)) :
    ∃ whole fraction exponent, IsWhole whole ∧ IsFraction fraction ∧ IsExponent exponent ∧
      cs = whole ++ (fraction ++ (exponent ++ rest)) ∧ Ends fraction exponent rest := by
  obtain ⟨c, after, rfl, hc, hzero⟩ : ∃ c after, cs = c :: after ∧ isDigit c = true ∧
      (c = '0' → startsWithDigit after = false) := by
    unfold readNumber at h
    split at h
    · cases h
    next c after =>
      split at h
      · cases h
      next hlead =>
        split at h
        · cases h
        next hc => exact ⟨c, after, rfl, by simpa using hc, fun heq => by simpa [heq] using hlead⟩
  rw [readNumber_eq hc hzero] at h
  obtain ⟨fraction, exponent, hfraction, hexponent, htail, hrest⟩ :=
    readAfterWhole_sound (startsWithDigit_dropWhile _) h
  obtain ⟨digits, hdigits, hall⟩ := exists_digits significandLimit (digitValue c) 1 after
  rw [htail] at hall
  have hwhole : IsWhole (c :: digits) := by
    refine ⟨⟨by simp, List.forall_mem_cons.2 ⟨hc, hdigits⟩⟩, fun hlead => ?_⟩
    obtain rfl := Option.some.inj hlead
    cases digits with
    | nil => rfl
    | cons d digits =>
      rw [hall] at hzero
      cases (hzero rfl).symm.trans (hdigits d (List.mem_cons_self ..))
  exact ⟨c :: digits, fraction, exponent, hwhole, hfraction, hexponent,
    congrArg (c :: ·) hall, hrest⟩

end Sound

/-! ## Numerals and what stands after them -/

theorem any_isExponentMark_digits {digits : List Char} (h : ∀ c ∈ digits, isDigit c = true) :
    digits.any isExponentMark = false := by
  refine List.any_eq_false.2 fun c hc hmark => ?_
  cases (not_isDigit_of_isExponentMark hmark).symm.trans (h c hc)

theorem point_not_mem_digits {digits : List Char} (h : ∀ c ∈ digits, isDigit c = true) :
    '.' ∉ digits := by
  intro hpoint
  cases h '.' hpoint

theorem ends_iff {whole fraction exponent rest : List Char} (hwhole : IsWhole whole)
    (hfraction : IsFraction fraction) (hexponent : IsExponent exponent) :
    Ends fraction exponent rest ↔
      rest.head?.any (continues (whole ++ (fraction ++ exponent))) = false := by
  have hmarks := any_isExponentMark_digits hwhole.1.2
  have hpoints := point_not_mem_digits hwhole.1.2
  cases rest with
  | nil => exact iff_of_true (ends_nil ..) rfl
  | cons c rest =>
    cases hexponent with
    | present letter => simp [Ends, Stops, continues, letter]
    | absent =>
      cases hfraction with
      | absent => simp [Ends, Stops, continues, hmarks, hpoints, and_assoc]
      | present digits =>
        have hlater := any_isExponentMark_digits digits.2
        have hpoint : isExponentMark '.' = false := rfl
        simp [Ends, Stops, continues, hmarks, hlater, hpoint]

theorem exists_readNumber_iff {negative : Bool} {cs rest : List Char} :
    (∃ n, readNumber negative cs = .ok (n, rest)) ↔
      ∃ text, IsNumeral text ∧ ¬OutOfRange negative text ∧ cs = text ++ rest ∧
        rest.head?.any (continues text) = false := by
  constructor
  · rintro ⟨n, h⟩
    obtain ⟨whole, fraction, exponent, hwhole, hfraction, hexponent, rfl, hends⟩ :=
      readNumber_sound h
    refine ⟨whole ++ (fraction ++ exponent), .parts hwhole hfraction hexponent, ?_, by simp,
      (ends_iff hwhole hfraction hexponent).1 hends⟩
    -- A numeral that is out of range is so in whatever text it stands.
    rintro ⟨f, hf, -⟩
    rcases settles_readNumber negative hwhole hfraction hexponent with
      ⟨m, hm⟩ | hout
    · cases (hm [] (ends_nil ..)).symm.trans ((congrArg _ (List.append_nil _)).trans hf)
    · obtain ⟨f', hf', -⟩ := hout rest hends
      rw [List.append_assoc, List.append_assoc] at hf'
      cases h.symm.trans hf'
  · rintro ⟨text, ⟨hwhole, hfraction, hexponent⟩, hrange, rfl, hends⟩
    rcases settles_readNumber negative hwhole hfraction hexponent with
      ⟨n, hn⟩ | hout
    · exact ⟨n, hn rest ((ends_iff hwhole hfraction hexponent).2 hends)⟩
    · have hnone := hout [] (ends_nil ..)
      rw [List.append_nil] at hnone
      exact absurd hnone hrange

end OpenApiServer.Json
