/-!
# Double-precision numbers

A double is kept as its 64 bits, so equality is decidable and every operation is exact integer
arithmetic. `ofRatio` rounds a quotient of natural numbers to the nearest double, a tie going to
the even significand, and the product, the quotient and the decimal reading of a number are all
roundings of exact quotients.
-/

namespace OpenApiServer

structure Double where
  bits : UInt64
  deriving DecidableEq, Repr, Inhabited

namespace Double

def isNegative (x : Double) : Bool := x.bits >>> 63 == 1

def biasedExponent (x : Double) : Nat := ((x.bits >>> 52) &&& 0x7ff).toNat

def fraction (x : Double) : Nat := (x.bits &&& 0xfffffffffffff).toNat

def isFinite (x : Double) : Bool := x.biasedExponent != 2047

def isNaN (x : Double) : Bool := x.biasedExponent == 2047 && x.fraction != 0

def isZero (x : Double) : Bool := x.biasedExponent == 0 && x.fraction == 0

/-- The significand `m` of a magnitude `m * 2 ^ q`. -/
def significand (x : Double) : Nat :=
  if x.biasedExponent = 0 then x.fraction else x.fraction + Nat.pow 2 52

/-- The exponent `q` of a magnitude `m * 2 ^ q`. -/
def exponent (x : Double) : Int :=
  if x.biasedExponent = 0 then -1074 else (x.biasedExponent : Int) - 1075

/-- The magnitude of a finite double as a quotient. -/
def ratio (x : Double) : Nat × Nat :=
  (x.significand * Nat.pow 2 x.exponent.toNat, Nat.pow 2 (-x.exponent).toNat)

def zero : Double := ⟨0⟩

def infinity : Double := ⟨0x7ff0000000000000⟩

def nan : Double := ⟨0x7ff8000000000000⟩

def neg (x : Double) : Double := ⟨x.bits ^^^ 0x8000000000000000⟩

def withSign (negative : Bool) (x : Double) : Double := if negative then x.neg else x

/-- Equality of values: both zeros are equal. -/
def sameValue (x y : Double) : Bool :=
  !x.isNaN && !y.isNaN && (x == y || (x.isZero && y.isZero))

/-- A quotient rounded to a natural number, a half going to the even neighbour. -/
def roundHalfEven (num den : Nat) : Nat :=
  let q := num / den
  let r := num % den
  if 2 * r < den then q else if den < 2 * r then q + 1 else if q % 2 = 0 then q else q + 1

/-- The power of two that the last place of a double near `num / den` stands for. -/
def lastPlace (num den : Nat) : Int :=
  let e := max (-1074) ((Nat.log2 num : Int) - (Nat.log2 den : Int) - 53)
  if num * Nat.pow 2 (-e).toNat / (den * Nat.pow 2 e.toNat) < Nat.pow 2 53 then e else e + 1

/-- The nearest double of `num / den`. -/
def ofRatio (num den : Nat) : Double :=
  if num = 0 ∨ den = 0 then zero
  else
    let e := lastPlace num den
    let q := roundHalfEven (num * Nat.pow 2 (-e).toNat) (den * Nat.pow 2 e.toNat)
    let place := (e + 1074).toNat
    let code := if q < Nat.pow 2 52 then q else place * Nat.pow 2 52 + q
    if code < 0x7ff0000000000000 then ⟨UInt64.ofNat code⟩ else infinity

def ofNat (n : Nat) : Double := ofRatio n 1

def ofInt (n : Int) : Double := withSign (n < 0) (ofNat n.natAbs)

/-- The nearest double of `digits * 10 ^ exponent`, where exponents far outside the range of
doubles are settled without computing the power. -/
def ofDecimal (digits : Nat) (exponent : Int) : Double :=
  let magnitude : Int := (Nat.log2 digits : Int) * 30103 / 100000 + exponent
  if digits = 0 then zero
  else if magnitude > 320 then infinity
  else if magnitude < -360 then zero
  else if exponent ≥ 0 then ofRatio (digits * Nat.pow 10 exponent.toNat) 1
  else ofRatio digits (Nat.pow 10 (-exponent).toNat)

/-- The rounded product of the magnitudes of two finite doubles. -/
def mulMagnitude (x y : Double) : Double :=
  let (a, b) := x.ratio
  let (c, d) := y.ratio
  ofRatio (a * c) (b * d)

/-- The rounded quotient of the magnitudes of two finite doubles. -/
def divMagnitude (x y : Double) : Double :=
  let (a, b) := x.ratio
  let (c, d) := y.ratio
  ofRatio (a * d) (b * c)

theorem neg_neg (x : Double) : x.neg.neg = x := by
  cases x
  simp only [neg, UInt64.xor_assoc, UInt64.xor_self, UInt64.xor_zero]

end Double

end OpenApiServer

/-!
## Reading doubles

A double is written in decimal or exponent notation with digits before or after the point, or as
a word for infinity or for no number. A sign may stand in front.
-/

namespace OpenApiServer.Double

def digitsValue (cs : List Char) : Nat :=
  cs.foldl (fun n c => n * 10 + (c.toNat - '0'.toNat)) 0

/-- The exponent after its letter: an optional sign and at least one digit. -/
def exponentOfText? (cs : List Char) : Option Int :=
  let (negative, digits) := match cs with
    | '-' :: rest => (true, rest)
    | '+' :: rest => (false, rest)
    | _ => (false, cs)
  if digits.isEmpty || !digits.all Char.isDigit then none
  else some (if negative then -(digitsValue digits : Nat) else (digitsValue digits : Nat))

def magnitudeOfText? (cs : List Char) : Option Double :=
  let word := cs.map Char.toLower
  if word = "inf".toList ∨ word = "infinity".toList then some infinity
  else if word = "nan".toList then some nan
  else
    let whole := cs.takeWhile Char.isDigit
    let rest := cs.dropWhile Char.isDigit
    let (places, rest) := match rest with
      | '.' :: after => (after.takeWhile Char.isDigit, after.dropWhile Char.isDigit)
      | _ => ([], rest)
    let exponent? := match rest with
      | [] => some 0
      | c :: after => if c == 'e' || c == 'E' then exponentOfText? after else none
    if whole.isEmpty && places.isEmpty then none
    else exponent?.map fun e => ofDecimal (digitsValue (whole ++ places)) (e - places.length)

def ofText? (cs : List Char) : Option Double :=
  let (negative, rest) := match cs with
    | '-' :: rest => (true, rest)
    | '+' :: rest => (false, rest)
    | _ => (false, cs)
  (magnitudeOfText? rest).map (·.withSign negative)

end OpenApiServer.Double
