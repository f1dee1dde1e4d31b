import OpenApiServer.Decimal.Double

/-!
# Shortest decimal text of a double

Among the decimal numbers that read back as a given double, `shortest` takes one with the fewest
digits, and of those the nearest. It tests the two neighbours of the value on the decimal grids
of one, two, up to seventeen digits. A `FloatFormat` says how such digits are written: which
magnitudes are positional, and how an exponent is spelled.
-/

namespace OpenApiServer

/-- A decimal number `digits * 10 ^ exponent`. -/
structure Decimal where
  digits : Nat
  exponent : Int
  deriving DecidableEq, Repr, Inhabited

namespace Decimal

/-- Four times the ends of the interval of reals that round to `m * 2 ^ q`, in units of `2 ^ q`. -/
def interval (x : Double) : Nat × Nat :=
  let m := x.significand
  let below := if x.fraction = 0 ∧ x.biasedExponent > 1 then 1 else 2
  (4 * m - below, 4 * m + 2)

/-- The number of decimal places before the point, one for `1 ≤ v < 10`. -/
def placesOf (num den : Nat) : Int :=
  let guess : Int := ((Nat.log2 num : Int) - (Nat.log2 den : Int)) * 30103 / 100000 - 1
  let reaches (k : Int) : Bool := den * Nat.pow 10 k.toNat ≤ num * Nat.pow 10 (-k).toNat
  let step (k : Int) : Int := if reaches (k + 1) then k + 1 else k
  step (step (step guess)) + 1

/-- Whether `d * 10 ^ k` lies in the rounding interval of `x`, ends included for an even
significand. -/
def readsBack (x : Double) (d : Nat) (k : Int) : Bool :=
  let (low, high) := interval x
  let q := x.exponent
  let value := 4 * d * Nat.pow 10 k.toNat * Nat.pow 2 (-q).toNat
  let unit := Nat.pow 10 (-k).toNat * Nat.pow 2 q.toNat
  if x.significand % 2 = 0 then low * unit ≤ value && value ≤ high * unit
  else low * unit < value && value < high * unit

/-- The best point of one decimal grid, if a neighbour of the value on it reads back. -/
def onGrid (x : Double) (k : Int) : Option Nat :=
  let (num, den) := x.ratio
  let n := num * Nat.pow 10 (-k).toNat
  let d := den * Nat.pow 10 k.toNat
  let below := n / d
  let above := below + 1
  match readsBack x below k, readsBack x above k with
  | true, true => some (Double.roundHalfEven n d)
  | true, false => some below
  | false, true => some above
  | false, false => none

def search (x : Double) (places : Int) : Nat → Nat → Option Decimal
  | 0, _ => none
  | fuel + 1, n =>
    match onGrid x (places - n) with
    | some d => some ⟨d, places - n⟩
    | none => search x places fuel (n + 1)

/-- Drops the zeros at the end of the digits. -/
def normalize : Nat → Decimal → Decimal
  | 0, x => x
  | fuel + 1, x =>
    if x.digits ≠ 0 ∧ x.digits % 10 = 0 then normalize fuel ⟨x.digits / 10, x.exponent + 1⟩ else x

/-- The shortest decimal number that reads back as the magnitude of a finite double. -/
def shortest (x : Double) : Decimal :=
  if x.isZero then ⟨0, 0⟩
  else
    let (num, den) := x.ratio
    match search x (placesOf num den) 17 1 with
    | some d => normalize 20 d
    | none => ⟨num, 0⟩

end Decimal

/-- How a finite double is written. Magnitudes `v` with `low ≤ p ≤ high`, where `p` is the
number of places before the point, are positional and keep at least one place after it. -/
structure FloatFormat where
  low : Int
  high : Int
  plusSign : Bool
  deriving Repr

namespace FloatFormat

def zeros (n : Nat) : String := String.ofList (List.replicate n '0')

def positional (digits : String) (places : Int) : String :=
  let count : Int := digits.length
  if places ≤ 0 then "0." ++ zeros (-places).toNat ++ digits
  else if count ≤ places then digits ++ zeros (places - count).toNat ++ ".0"
  else
    let cs := digits.toList
    String.ofList (cs.take places.toNat) ++ "." ++ String.ofList (cs.drop places.toNat)

def scientific (f : FloatFormat) (digits : String) (exponent : Int) : String :=
  let mantissa := match digits.toList with
    | [] => ""
    | [c] => String.singleton c
    | c :: rest => String.singleton c ++ "." ++ String.ofList rest
  let sign := if exponent < 0 then "-" else if f.plusSign then "+" else ""
  mantissa ++ "e" ++ sign ++ toString exponent.natAbs

/-- The text of a finite double. -/
def write (f : FloatFormat) (x : Double) : String :=
  let sign := if x.isNegative then "-" else ""
  if x.isZero then sign ++ "0.0"
  else
    let d := Decimal.shortest x
    let digits := toString d.digits
    let places : Int := digits.length + d.exponent
    if f.low ≤ places ∧ places ≤ f.high then sign ++ positional digits places
    else sign ++ f.scientific digits (places - 1)

end FloatFormat

end OpenApiServer
