import Docweave.Number.Binary64
import Docweave.Text.Basic

/-!
# Decimal texts of floating-point numbers

A number is written with the fewest digits that read back as the same number, the nearest of those. What
notation they stand in is a matter of the format: `DecimalFormat` says which exponents are positional and
how an exponent is written.
-/

namespace Docweave

namespace Binary64

/-- The interval of reals that round to `m · 2 ^ e`, as numerators of the least, the number itself and the
greatest, over a common denominator. -/
structure Interval where
  low : Nat
  value : Nat
  high : Nat
  den : Nat
  /-- The ends belong to the interval. -/
  closed : Bool

/-- The reals that round to `m · 2 ^ e`. Below a power of two the next number is half as far away. -/
def interval (m : Nat) (e : Int) : Interval :=
  let (p, q) := powerOfTwo (e - 2)
  let below := if m = Nat.pow 2 52 && e > leastExponent then 1 else 2
  ⟨(4 * m - below) * p, 4 * m * p, (4 * m + 2) * p, q, m % 2 = 0⟩

/-- The decimal `d · 10 ^ k` lies in the interval. -/
def Interval.holds (i : Interval) (d : Nat) (k : Int) : Bool :=
  let x := d * Nat.pow 10 k.toNat * i.den
  let s := Nat.pow 10 (-k).toNat
  if i.closed then i.low * s ≤ x && x ≤ i.high * s else i.low * s < x && x < i.high * s

/-- The exponent of the first digit of the positive quotient `num / den`. -/
def leadingExponent (num den : Nat) : Int :=
  if num ≥ den then (Nat.toDigits 10 (num / den)).length - 1
  else
    let d := (Nat.toDigits 10 (den / num)).length
    if num * Nat.pow 10 (d - 1) = den then -((d : Int) - 1) else -(d : Int)

/-- The decimal with digits down to `10 ^ k` that is in the interval and nearest to its value, if any. -/
def Interval.decimalAt? (i : Interval) (k : Int) : Option Nat :=
  let num := i.value * Nat.pow 10 (-k).toNat
  let den := i.den * Nat.pow 10 k.toNat
  let d := num / den
  let r := num % den
  match i.holds d k && d ≠ 0, i.holds (d + 1) k with
  | true, true => some (if 2 * r < den || (2 * r = den && d % 2 = 0) then d else d + 1)
  | true, false => some d
  | false, true => some (d + 1)
  | false, false => none

/-- The first decimal in the interval with `n` digits or more; `left` bounds how many more are tried. -/
def Interval.shortestFrom (i : Interval) (first : Int) (n : Nat) : Nat → Nat × Int
  | 0 => (i.value / i.den, 0)
  | left + 1 =>
    let k := first - n + 1
    match i.decimalAt? k with
    | some d => (d, k)
    | none => i.shortestFrom first (n + 1) left

/-- The digits of a natural number without zeros at the end. -/
def significant (d : Nat) : Text := Text.trimRight (· = '0') (Text.ofNat d)

/-- The digits of the shortest decimal that reads back as `m · 2 ^ e`, for positive `m`, and the exponent of
the first of them. Seventeen digits always do. -/
def shortest (m : Nat) (e : Int) : Text × Int :=
  let i := interval m e
  let (d, k) := i.shortestFrom (leadingExponent i.value i.den) 1 18
  (significant d, k + (Text.ofNat d).length - 1)

end Binary64

/-- How numbers are written. -/
structure DecimalFormat where
  /-- The least exponent of the first digit that is positional. -/
  positionalFrom : Option Int
  /-- The least exponent of the first digit that is too large for positional notation. -/
  positionalBelow : Option Int
  /-- The least number of digits of a written exponent. -/
  exponentDigits : Nat

namespace DecimalFormat

/-- Digits in positional notation; `first` is the exponent of the first one. -/
def positional (digits : Text) (first : Int) : Text :=
  if first < 0 then "0." ++ List.replicate (-first - 1).toNat '0' ++ digits
  else
    let whole := first.toNat + 1
    if digits.length ≤ whole then digits ++ List.replicate (whole - digits.length) '0'
    else digits.take whole ++ "." ++ digits.drop whole

/-- Digits with an exponent. -/
def scientific (exponentDigits : Nat) (digits : Text) (first : Int) : Text :=
  let mantissa : Text := match digits with
    | [] => []
    | [d] => [d]
    | d :: ds => d :: '.' :: ds
  let e := Text.ofNat first.natAbs
  mantissa ++ (if first < 0 then "e-" else "e+") ++ List.replicate (exponentDigits - e.length) '0' ++ e

/-- The exponent is written positionally. -/
def isPositional (f : DecimalFormat) (first : Int) : Bool :=
  (match f.positionalFrom with | some low => low ≤ first | none => true) &&
    (match f.positionalBelow with | some high => first < high | none => true)

/-- The text of a number. -/
def write (f : DecimalFormat) : Binary64 → Text
  | .nan => "NaN"
  | .infinite negative => if negative then "-Inf" else "+Inf"
  | .finite negative m e =>
    let body : Text :=
      if m = 0 then "0"
      else
        let (digits, first) := Binary64.shortest m e
        if f.isPositional first then positional digits first else scientific f.exponentDigits digits first
    if negative then '-' :: body else body

/-- Exponents from -4 to 5 are positional, others have two digits or more. -/
def general : DecimalFormat := ⟨some (-4), some 6, 2⟩

/-- Numbers of JSON: exponents from -6 to 20 are positional. -/
def json : DecimalFormat := ⟨some (-6), some 21, 1⟩

/-- Never an exponent. -/
def plain : DecimalFormat := ⟨none, none, 1⟩

end DecimalFormat

end Docweave
